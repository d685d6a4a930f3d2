import SchemaGraft.Proofs.Printing.Values
import SchemaGraft.Proofs.Reading.Definitions

/-!
# Reading printed members

Arguments, fields, enum values and lists of names are read from the texts that are printed for them.
What is read is the definition that a text amounts to (`Field.toDefinition`,
`EnumValue.toDefinition`). It is the definition that a member comes from, but for a description of
many lines, of which it has what is read back.
-/

set_option autoImplicit false

namespace SchemaGraft

/-! ## Members as definitions -/

/-- The node of what a function makes of a value. -/
def Node.map {α β : Type} (f : α → β) (node : Node α) : Node β :=
  node.rebuild node.identity (f node.value)

/-- What the text of a field defines. -/
def Field.toDefinition (field : Field) : FieldDefinition where
  description := readBack (Schema.descriptionLiteral "  ") field.description
  name := field.name
  arguments := field.arguments
  type := field.type
  directives := field.directives

/-- What the text of an enum value defines. -/
def EnumValue.toDefinition (value : EnumValue) : EnumValueDefinition where
  description := readBack (Schema.descriptionLiteral "  ") value.description
  name := value.name
  directives := value.directives

/-- What the text of an argument or input field defines, if descriptions are written in a way. -/
def InputValueDefinition.readBack (literal : String → String)
    (definition : InputValueDefinition) : InputValueDefinition :=
  { definition with description := SchemaGraft.readBack literal definition.description }

theorem InputValueDefinition.IsWritable.of_readBack {literal : String → String}
    {definition : InputValueDefinition} (writable : (definition.readBack literal).IsWritable) :
    definition.IsWritable :=
  ⟨writable.name, writable.type, writable.default, writable.directives⟩

/-- Quoted descriptions are read back as they are. -/
theorem Node.map_readBack_quote (node : Node InputValueDefinition) :
    node.map (.readBack Text.quote) = node := by
  rw [map, InputValueDefinition.readBack, readBack_quote]
  rfl

open SchemaGraft.Tree

namespace Grammar

open State Accepts

variable (file : FileId) (limit : Nat)

theorem toList_printDescription (description : Option String) (indent : String) :
    (Schema.printDescription indent description).toList =
      describedBy (Schema.descriptionLiteral indent) indent.toList ['\n'] description := by
  cases description with
  | none => rfl
  | some text =>
      rw [Schema.printDescription_some]
      simp [describedBy]

theorem writesStrings_quote : WritesStrings Text.quote := spells_quote

theorem writesStrings_member : WritesStrings (Schema.descriptionLiteral "  ") :=
  Schema.writesStrings_descriptionLiteral (.of_all rfl)

/-- A description in front of what begins with a name. -/
theorem accepts_described {literal : String → String} (writes : WritesStrings literal)
    {before behind indent chars : List Char} (passed : IsGap before) (passed' : IsGap behind)
    (apart : behind ≠ []) (indented : IsGap indent) (given : Option String)
    {follows : List Char → Prop} {part : Production} {holds : List Tree → Prop}
    (accepts : Accepts chars follows part holds)
    (offers : ∀ more, follows more → Offers (fun kind _ => kind = .name) (chars ++ more)) :
    Accepts (describedBy literal before behind given ++ (indent ++ chars)) follows
      (fun state => part (description state))
      (Then (fun trees => ReadsDescription trees (readBack literal given)) holds) := by
  refine (accepts_description writes passed passed' apart given).andThen
    (accepts.passed_all indented) fun more follow => ?_
  rw [List.append_assoc]
  exact ((offers more follow).mono fun _ _ here => here ▸ (by decide)).passed_all indented

/-! ## Arguments and input fields -/

/-- The text of a default value with the mark in front of it. -/
def defaultText (default : Option (Node Value)) : List Char :=
  default.elim [] fun value => ' ' :: '=' :: ' ' :: value.value.print.toList

theorem accepts_default {given : Option (Node Value)}
    (writable : ∀ value ∈ given, value.value.IsWritable) :
    Accepts (defaultText given) (Stops [.equalsSign]) (whenAt .equalsSign (defaultValue limit))
      (Together (ReadsDefault file) (Option.map (Node.bare Value.bare))
        (given.map (Node.bare Value.bare))) := by
  cases given with
  | none =>
      have steady : IsSteady (defaultValue limit) :=
        (IsSteady.take.andThen (yields_value file true limit false).steady).branch
      refine (whenever_no (meeting_isAt_of_stops (by simp)) steady).mono ?_
      rintro trees rfl
      exact ⟨none, .absent, rfl⟩
  | some value =>
      have defaulted : Accepts ('=' :: ' ' :: value.value.print.toList) Ends (defaultValue limit)
          (Branched .defaultValue (ValueAgain file value.value)) :=
        of_branch ((of_mark rfl rfl).silently
          ((accepts_value file (writable value rfl) limit false).passed rfl) fun _ _ => trivial)
      refine (((whenever_yes (meeting_mark rfl rfl _ _) defaulted).passed rfl).narrow
        fun _ stops => stops.toEnds).mono ?_
      rintro trees ⟨start, stop, children, rfl, tree, again, told, reads, same⟩
      exact ⟨some again, .present told reads, by simpa using same⟩

/-- Directive applications may stand in front of whatever may follow. -/
theorem stops_printDirectives {kinds : List TokenKind} (other : .atSign ∉ kinds)
    (directives : Directives) {more : List Char} (stops : Stops kinds more) :
    Stops kinds ((Schema.printDirectives directives).toList ++ more) := by
  rw [toList_printDirectives]
  cases directives with
  | nil => exact stops
  | cons first rest =>
      rw [List.map_cons, intercalate_cons, toList_printDirective]
      exact stops_of_isPassedOver rfl (offers_of_punctuation rfl rfl other _)

theorem ends_printDirectives (directives : Directives) {more : List Char} (ends : Ends more) :
    Ends ((Schema.printDirectives directives).toList ++ more) := by
  rw [toList_printDirectives]
  cases directives with
  | nil => exact ends
  | cons first rest =>
      rw [List.map_cons, intercalate_cons, toList_printDirective]
      exact ends_of_isPassedOver rfl _

theorem stops_defaultText {kinds : List TokenKind} (other : .equalsSign ∉ kinds)
    (default : Option (Node Value)) {more : List Char} (stops : Stops kinds more) :
    Stops kinds (defaultText default ++ more) := by
  cases default with
  | none => exact stops
  | some value => exact stops_of_isPassedOver rfl (offers_of_punctuation rfl rfl other _)

theorem meeting_isAtType {reference : TypeReference} (writable : reference.IsWritable) :
    Meeting isAtType true reference.print.toList Ends :=
  meeting_of_offers (fun _ ends => offers_reference writable ends)
    fun state kind text has here => by
      rw [isAtType, has.isAtEither_eq]
      simpa [or_comm] using here

/-- What follows an argument or input field goes on with none of its parts. -/
abbrev EndsInput : List Char → Prop :=
  Stops [.exclamation, .equalsSign, .atSign, .leftParenthesis]

/-- The text of the type of an argument or input field, with all that stands behind it. -/
def inputTypeText (input : InputValueDefinition) : List Char :=
  input.type.value.print.toList ++
    (defaultText input.default ++ (Schema.printDirectives input.directives).toList)

theorem accepts_inputType {given : InputValueDefinition} (writable : given.IsWritable) :
    Accepts (inputTypeText given) EndsInput (inputType limit)
      (Then (Again (ReadsType file) (Node.bare TypeReference.bare)
          (given.type.bare TypeReference.bare))
        (Then (Together (ReadsDefault file) (Option.map (Node.bare Value.bare))
            (given.default.map (Node.bare Value.bare)))
          (Together (ReadsDirectives file) Directives.bare
            (Directives.bare given.directives)))) := by
  have behind : ∀ more, EndsInput more → Stops [.exclamation]
      ((defaultText given.default ++ (Schema.printDirectives given.directives).toList) ++
        more) := by
    intro more stops
    rw [List.append_assoc]
    exact stops_defaultText (by simp) _ (stops_printDirectives (by simp) _ (stops.mono (by simp)))
  refine choose_yes ((meeting_isAtType writable.type).append fun more stops =>
    (behind more stops).toEnds) (.report _) ((accepts_type file writable.type limit).andThen
      ((accepts_default file limit writable.default).andThen
        ((accepts_directives file limit writable.directives).narrow fun _ stops =>
          stops.mono (by simp)) fun more stops => ?_) behind)
  exact stops_printDirectives (by simp) _ (stops.mono (by simp))

/-- The text of an argument or input field, its description aside. -/
theorem toList_printInputValue (input : Node InputValueDefinition) :
    (Schema.printInputValue input).toList =
      input.value.name.text.toList ++ ':' :: ' ' :: inputTypeText input.value := by
  cases default : input.value.default <;>
    simp [Schema.printInputValue, inputTypeText, defaultText, default]

/-- **A printed argument or input field is read as what it is.** -/
theorem accepts_inputValueDefinition {literal : String → String} (writes : WritesStrings literal)
    {before behind indent : List Char} (passed : IsGap before) (passed' : IsGap behind)
    (apart : behind ≠ []) (indented : IsGap indent) {given : Node InputValueDefinition}
    (writable : given.value.IsWritable) :
    Accepts (describedBy literal before behind given.value.description ++
        (indent ++ (Schema.printInputValue given).toList)) EndsInput (inputValueDefinition limit)
      (Again (ReadsInput file) (Node.bare InputValueDefinition.bare)
        ((given.map (.readBack literal)).bare InputValueDefinition.bare)) := by
  rw [toList_printInputValue]
  have labelled := accepts_labelled file writable.name (IsSteady.report .nameExpected)
    (accepts_inputType file limit writable)
  refine (of_branch (accepts_described writes passed passed' apart indented given.value.description
    labelled fun more _ => offers_labelled writable.name _ more)).mono ?_
  rintro trees ⟨start, stop, children, rfl, descriptions, _, told, described, _, _, rfl,
    ⟨nameTree, name, rfl, named, sameName⟩, _, _, rfl, ⟨typeTree, type, rfl, typed, sameType⟩,
    defaults, directives, rfl, ⟨default, defaulted, sameDefault⟩,
    ⟨applied, applies, sameApplied⟩⟩
  refine ⟨_, .ofLocation ⟨file, start, stop⟩ ⟨_, name, type, default, applied⟩, rfl,
    .mk told described named typed defaulted applies, ?_⟩
  simp only [Node.ofLocation, Node.bare_eq_iff, InputValueDefinition.bare, sameName, sameType,
    sameDefault, sameApplied]
  rfl

/-! ## Groups of members -/

/-- What a member begins with. -/
abbrev IsMemberStart (kind : TokenKind) (_ : String) : Prop := kind = .name ∨ kind = .string

theorem offers_member {literal : String → String} (writes : WritesStrings literal)
    {before behind chars : List Char} (passed : IsGap before) (passed' : IsGap behind)
    (apart : behind ≠ []) (description : Option String)
    (offers : Offers (fun kind _ => kind = .name) chars) :
    Offers IsMemberStart (describedBy literal before behind description ++ chars) := by
  cases description with
  | none => exact offers.mono fun _ _ => .inl
  | some text =>
      have ends : (behind ++ chars).head? ≠ some '"' := by
        cases behind with
        | nil => exact absurd rfl apart
        | cons c behind => exact (ends_of_isPassedOver (passed' c List.mem_cons_self) _).quote
      rw [describedBy, Option.elim_some, List.append_assoc, List.append_assoc]
      exact (offers_of_spells (writes text) ends (.inr rfl)).passed_all passed

theorem isAtMember_of_hasToken {state : State} {kind : TokenKind} {text : String}
    (has : state.HasToken kind text) :
    isAtMember state = (kind == .name || kind == .string) := by
  rw [isAtMember, has.isAtEither_eq]

section Groups

variable {α β γ : Type} {reads : Tree → β → Prop} {bare : β → γ} {given : α → γ}
  {condition : State → Bool} {item : Production} {problem : GrammarProblem} {mark : ClosingMark}
  {opening : TokenKind} {kind : TreeKind}

theorem accepts_group_none {kinds : List TokenKind} (listed : opening ∈ kinds)
    (steady : IsSteady item) :
    Accepts [] (Stops kinds)
      (whenAt opening (branch kind (sequence [take, several condition item problem, close mark])))
      (Together (ReadsGroup kind reads) (List.map bare) []) := by
  refine (whenever_no (meeting_isAt_of_stops listed)
    (IsSteady.take.andThen ((steady.several problem).andThen (.close mark))).branch).mono ?_
  rintro trees rfl
  exact ⟨[], .absent, rfl⟩

/-- Some items between two marks. -/
theorem accepts_group {c d : Char} {gap before : List Char} {text : α → List Char}
    {between : α → List Char → Prop} {items : List α}
    (opens : TokenKind.ofPunctuation? c = some opening) (kept : opening.isIgnored = false)
    (closes : TokenKind.ofPunctuation? d = some mark.kind)
    (passed : IsGap before) (some : items ≠ [])
    (series : IsSeries condition item gap text between
      (fun item => Again reads bare (given item)) items (Begins d)) :
    Accepts (c :: (before ++ (gap.intercalate (items.map text) ++ [d]))) (fun _ => True)
      (whenAt opening (branch kind (sequence [take, several condition item problem, close mark])))
      (Together (ReadsGroup kind reads) (List.map bare) (items.map given)) := by
  have content := ((of_several problem some series).andThen (of_close mark closes)
    fun more _ => ⟨more, rfl⟩).passed_all passed
  refine (whenever_yes (meeting_mark opens kept _ _) (of_branch ((of_mark opens kept).silently
    content fun _ _ => trivial))).mono ?_
  rintro trees ⟨start, stop, children, rfl, _, _, told, each, rfl⟩
  have empty : ReadsAll reads [] [] := .nil
  obtain ⟨again, all, same⟩ := each.exists_reads empty fun _ _ _ _ => .cons
  rw [List.append_nil] at told
  exact ⟨again, .present (told ▸ all), same⟩

end Groups

/-! ## Definitions of arguments -/

theorem toList_printArgumentDefinition (argument : Node InputValueDefinition) :
    (Schema.printArgumentDefinition argument).toList =
      describedBy Text.quote [] [' '] argument.value.description ++
        ([] ++ (Schema.printInputValue argument).toList) := by
  rw [Schema.printArgumentDefinition]
  cases argument.value.description <;> simp [describedBy]

/-- An argument or input field shows its description or its name. -/
theorem offers_inputValueDefinition {literal : String → String} (writes : WritesStrings literal)
    {before behind indent : List Char} (passed : IsGap before) (passed' : IsGap behind)
    (apart : behind ≠ []) (indented : IsGap indent) {given : Node InputValueDefinition}
    (writable : given.value.IsWritable) (more : List Char) :
    Offers IsMemberStart (describedBy literal before behind given.value.description ++
      (indent ++ ((Schema.printInputValue given).toList ++ more))) := by
  refine offers_member writes passed passed' apart _ (Offers.passed_all ?_ indented)
  rw [toList_printInputValue]
  exact offers_labelled writable.name _ more

theorem isMemberStart_inside (text : String) : ¬ IsMemberStart .endOfInput text := by
  simp

theorem isAtMember_of_isMemberStart (state : State) (kind : TokenKind) (text : String)
    (has : state.HasToken kind text) (here : IsMemberStart kind text) :
    isAtMember state = true := by
  rw [isAtMember_of_hasToken has]
  simpa using here

/-- What a member begins with ends any part of the member before. -/
theorem stops_of_isMemberStart {kinds : List TokenKind} (name : .name ∉ kinds)
    (string : .string ∉ kinds) {c : Char} (passed : isPassedOver c = true) {chars : List Char}
    (offers : Offers IsMemberStart chars) : Stops kinds (c :: chars) := by
  refine stops_of_isPassedOver passed (offers.mono fun kind text here => ?_)
  rcases here with rfl | rfl
  · exact name
  · exact string

theorem accepts_argumentsDefinition {given : List (Node InputValueDefinition)}
    (writable : ∀ argument ∈ given, argument.value.IsWritable) :
    Accepts (Schema.printArgumentDefinitions given).toList (Stops [.leftParenthesis])
      (whenAt .leftParenthesis (argumentsDefinition limit))
      (Together (ReadsGroup .argumentsDefinition (ReadsInput file))
        (List.map (Node.bare InputValueDefinition.bare))
        (given.map (Node.bare InputValueDefinition.bare))) := by
  have steady := (yields_inputValueDefinition file limit).steady
  rw [Schema.printArgumentDefinitions]
  by_cases some : given = []
  · rw [some, List.isEmpty_nil, if_pos rfl]
    exact accepts_group_none (by simp) steady
  · rw [if_neg (by simpa using some)]
    have offers : ∀ argument ∈ given, ∀ more,
        Offers IsMemberStart ((Schema.printArgumentDefinition argument).toList ++ more) := by
      intro argument member more
      rw [toList_printArgumentDefinition, List.append_assoc, List.append_assoc]
      exact offers_inputValueDefinition writesStrings_quote (.of_all rfl) (.of_all rfl) (by simp)
        (.of_all rfl) (writable argument member) more
    have each : ∀ argument ∈ given, Accepts (Schema.printArgumentDefinition argument).toList
        EndsInput (inputValueDefinition limit) (Again (ReadsInput file)
          (Node.bare InputValueDefinition.bare) (argument.bare InputValueDefinition.bare)) := by
      intro argument member
      rw [toList_printArgumentDefinition,
        ← congrArg (Node.bare InputValueDefinition.bare) argument.map_readBack_quote]
      exact accepts_inputValueDefinition file limit writesStrings_quote (.of_all rfl) (.of_all rfl)
        (by simp) (.of_all rfl) (writable argument member)
    have apart : ∀ argument ∈ given, ∀ more,
        EndsInput ([',', ' '] ++ ((Schema.printArgumentDefinition argument).toList ++ more)) :=
      fun argument member more => stops_of_isMemberStart (by decide) (by decide) rfl
        ((offers argument member more).passed rfl)
    have series := IsSeries.upTo (c := ')') rfl rfl (.of_all rfl) steady each
      (fun argument member more _ => offers argument member more) isMemberStart_inside
      isAtMember_of_isMemberStart (fun state text has => by rw [isAtMember_of_hasToken has]; rfl)
      (stops_nil (by decide)) apart fun more => stops_of_punctuation rfl rfl (by decide) more
    have text : ("(" ++ ", ".intercalate (given.map Schema.printArgumentDefinition) ++ ")").toList =
        '(' :: ([] ++ ([',', ' '].intercalate (given.map fun argument =>
          (Schema.printArgumentDefinition argument).toList) ++ [')'])) := by
      simp [Function.comp_def]
    rw [text]
    exact (accepts_group rfl rfl rfl (.of_all rfl) some series).narrow fun _ _ => trivial

/-! ## Members in braces -/

/-- The text of a member on lines of its own: its description on one, all else on the next. -/
def memberText (description : Option String) (chars : List Char) : List Char :=
  describedBy (Schema.descriptionLiteral "  ") [' ', ' '] ['\n'] description ++
    ([' ', ' '] ++ (chars ++ ['\n']))

theorem memberText_eq (description : Option String) (chars : List Char) :
    memberText description chars =
      (describedBy (Schema.descriptionLiteral "  ") [' ', ' '] ['\n'] description ++
        ([' ', ' '] ++ chars)) ++ ['\n'] := by
  simp [memberText]

/-- A member begins with white space, and behind that it shows its description or its name. -/
theorem exists_memberText_eq (description : Option String) {chars : List Char}
    (offers : ∀ more, Ends more → Offers (fun kind _ => kind = .name) (chars ++ more)) :
    ∃ rest, memberText description chars = ' ' :: rest ∧
      ∀ more, Offers IsMemberStart (rest ++ more) := by
  cases description with
  | none =>
      refine ⟨' ' :: (chars ++ ['\n']), rfl, fun more => ?_⟩
      rw [List.cons_append, List.append_assoc]
      exact ((offers _ (ends_of_isPassedOver rfl _)).mono fun _ _ => .inl).passed rfl
  | some text =>
      refine ⟨describedBy (Schema.descriptionLiteral "  ") [' '] ['\n'] (some text) ++
        ([' ', ' '] ++ (chars ++ ['\n'])), rfl, fun more => ?_⟩
      rw [List.append_assoc, List.append_assoc, List.append_assoc]
      exact offers_member writesStrings_member (.of_all rfl) (.of_all rfl) (by simp) _
        ((offers _ (ends_of_isPassedOver rfl _)).passed_all (.of_all rfl))

/-- A member on lines of its own, given how what stands behind its description is read. -/
theorem accepts_member {kind : TreeKind} {chars : List Char} {part : Production}
    {holds : List Tree → Prop} (given : Option String)
    (accepts : Accepts chars EndsInput part holds)
    (offers : ∀ more, Ends more → Offers (fun kind _ => kind = .name) (chars ++ more)) :
    Accepts (memberText given chars) EndsInput
      (branch kind fun state => part (description state))
      (Branched kind (Then (fun trees =>
        ReadsDescription trees (readBack (Schema.descriptionLiteral "  ") given)) holds)) := by
  have lines : IsGap ['\n'] := .of_all rfl
  have indent : IsGap [' ', ' '] := .of_all rfl
  rw [memberText_eq]
  have described := accepts_described writesStrings_member indent lines (by simp) indent given
    accepts fun more stops => offers more stops.toEnds
  exact (of_branch described).padded lines fun _ stops => stops.passed rfl

section Braced

variable {α β γ : Type} {reads : Tree → β → Prop} {bare : β → γ} {given : α → γ}
  {item : Production} {problem : GrammarProblem} {kind : TreeKind}

/-- Members in braces, of which there is one at least. -/
theorem accepts_braced {print : α → String} {items : List α} (some : items ≠ [])
    (steady : IsSteady item)
    (each : ∀ x ∈ items, Accepts (print x).toList EndsInput item (Again reads bare (given x)))
    (starts : ∀ x ∈ items, ∃ rest, (print x).toList = ' ' :: rest ∧
      ∀ more, Offers IsMemberStart (rest ++ more)) :
    Accepts (Schema.printBraced (items.map print)).toList (fun _ => True)
      (whenAt .leftBrace
        (branch kind (sequence [take, several isAtMember item problem, close .brace])))
      (Together (ReadsGroup kind reads) (List.map bare) (items.map given)) := by
  have text : (Schema.printBraced (items.map print)).toList = ' ' :: ('\x7b' :: (['\n'] ++
      ([].intercalate (items.map fun x => (print x).toList) ++ ['\x7d'])) ++ ['\n']) := by
    simp [Schema.printBraced, intercalate_nil, List.flatMap_def, Function.comp_def]
  have series : IsSeries isAtMember item [] (fun x => (print x).toList) (fun _ => EndsInput)
      (fun x => Again reads bare (given x)) items (Begins '\x7d') := by
    refine .upTo rfl rfl (.of_all rfl) steady each (fun x member more _ => ?_) isMemberStart_inside
      isAtMember_of_isMemberStart (fun state text has => by rw [isAtMember_of_hasToken has]; rfl)
      (stops_nil (by decide)) (fun x member more => ?_)
      fun more => stops_of_punctuation rfl rfl (by decide) more
    · obtain ⟨rest, same, offers⟩ := starts x member
      rw [same]
      exact (offers more).passed rfl
    · obtain ⟨rest, same, offers⟩ := starts x member
      rw [same]
      exact stops_of_isMemberStart (by decide) (by decide) rfl (offers more)
  rw [text]
  exact ((accepts_group rfl rfl rfl (.of_all rfl) some series).padded (.of_all rfl)
    fun _ _ => trivial).passed rfl

end Braced

/-! ## Fields -/

/-- The text of a field, its description aside. -/
def fieldText (field : FieldDefinition) : List Char :=
  field.name.text.toList ++ ((Schema.printArgumentDefinitions field.arguments).toList ++
    ':' :: ' ' :: (field.type.value.print.toList ++
      (Schema.printDirectives field.directives).toList))

theorem toList_printField (field : Node Field) : (Schema.printField field).toList =
    memberText field.value.description (fieldText field.value.toDefinition) := by
  rw [Schema.printField]
  simp [toList_printDescription, memberText, fieldText, Field.toDefinition]

theorem stops_printArgumentDefinitions {kinds : List TokenKind} (other : .leftParenthesis ∉ kinds)
    (arguments : List (Node InputValueDefinition)) {more : List Char} (stops : Stops kinds more) :
    Stops kinds ((Schema.printArgumentDefinitions arguments).toList ++ more) := by
  rw [Schema.printArgumentDefinitions]
  split
  · exact stops
  · rw [String.toList_append, String.toList_append, List.append_assoc, List.append_assoc]
    exact stops_of_punctuation rfl rfl other _

theorem offers_fieldText {field : FieldDefinition} (writable : field.IsWritable)
    (more : List Char) : Offers (fun kind _ => kind = .name) (fieldText field ++ more) := by
  have colon : Stops [] (':' :: ' ' :: (field.type.value.print.toList ++
      (Schema.printDirectives field.directives).toList) ++ more) :=
    stops_of_punctuation rfl rfl (by simp) _
  rw [fieldText, List.append_assoc, List.append_assoc]
  exact offers_of_spells (writable.name.spells rfl)
    (stops_printArgumentDefinitions (by simp) field.arguments colon).word rfl

theorem accepts_outputType {field : FieldDefinition} (writable : field.IsWritable) :
    Accepts (field.type.value.print.toList ++ (Schema.printDirectives field.directives).toList)
      EndsInput (choose isAtType (sequence [type limit, directives true limit])
        (report .typeAfterColonExpected))
      (Then (Again (ReadsType file) (Node.bare TypeReference.bare)
          (field.type.bare TypeReference.bare))
        (Together (ReadsDirectives file) Directives.bare (Directives.bare field.directives))) := by
  have behind : ∀ more, EndsInput more →
      Stops [.exclamation] ((Schema.printDirectives field.directives).toList ++ more) :=
    fun more stops => stops_printDirectives (by simp) _ (stops.mono (by simp))
  exact choose_yes ((meeting_isAtType writable.type).append fun more stops =>
    (behind more stops).toEnds) (.report _) ((accepts_type file writable.type limit).andThen
      ((accepts_directives file limit writable.directives).narrow fun _ stops =>
        stops.mono (by simp)) behind)

/-- **A printed field is read as what it is.** -/
theorem accepts_fieldDefinition {given : Node Field}
    (writable : given.value.toDefinition.IsWritable) :
    Accepts (Schema.printField given).toList EndsInput (fieldDefinition limit)
      (Again (ReadsField file) (Node.bare FieldDefinition.bare)
        ((given.map Field.toDefinition).bare FieldDefinition.bare)) := by
  have colon := accepts_colon (IsSteady.report .typeExpected)
    (accepts_outputType file limit writable)
  have taking := (accepts_argumentsDefinition file limit writable.arguments).andThen colon
    fun _ _ => stops_of_punctuation rfl rfl (by decide) _
  have content := (accepts_name file writable.name).andThen taking fun more _ => by
    have ends : Stops [] ((':' :: ' ' :: (given.value.toDefinition.type.value.print.toList ++
        (Schema.printDirectives given.value.toDefinition.directives).toList)) ++ more) :=
      stops_of_punctuation rfl rfl (by simp) _
    rw [List.append_assoc]
    exact (stops_printArgumentDefinitions (by simp) _ ends).word
  rw [toList_printField]
  refine (accepts_member given.value.description content fun more _ =>
    offers_fieldText writable more).mono ?_
  rintro trees ⟨start, stop, children, rfl, descriptions, _, told, described, _, _, rfl,
    ⟨nameTree, name, rfl, named, sameName⟩, arguments, _, rfl, ⟨inputs, takes, sameInputs⟩,
    _, directives, rfl, ⟨typeTree, type, rfl, typed, sameType⟩, ⟨applied, applies, sameApplied⟩⟩
  refine ⟨_, .ofLocation ⟨file, start, stop⟩ ⟨_, name, inputs, type, applied⟩, rfl,
    .mk told described named takes typed applies, ?_⟩
  simp only [Node.ofLocation, Node.bare_eq_iff, FieldDefinition.bare, sameName, sameInputs,
    sameType, sameApplied]
  rfl

theorem accepts_fieldsDefinition {given : List (Node Field)} (some : given ≠ [])
    (writable : ∀ field ∈ given, field.value.toDefinition.IsWritable) :
    Accepts (Schema.printBraced (given.map Schema.printField)).toList (fun _ => True)
      (whenAt .leftBrace (fieldsDefinition limit))
      (Together (ReadsFields file) (List.map (Node.bare FieldDefinition.bare))
        (given.map fun field => (field.map Field.toDefinition).bare FieldDefinition.bare)) := by
  refine accepts_braced some (yields_fieldDefinition file limit).steady (fun field member =>
    accepts_fieldDefinition file limit (writable field member)) fun field member => ?_
  rw [toList_printField]
  exact exists_memberText_eq _ fun more _ => offers_fieldText (writable field member) more

/-! ## Input fields -/

theorem toList_printInputField (field : Node InputValueDefinition) :
    (Schema.printInputField field).toList =
      memberText field.value.description (Schema.printInputValue field).toList := by
  rw [Schema.printInputField]
  simp [toList_printDescription, memberText]

theorem accepts_inputFieldsDefinition {given : List (Node InputValueDefinition)} (some : given ≠ [])
    (writable : ∀ field ∈ given, field.value.IsWritable) :
    Accepts (Schema.printBraced (given.map Schema.printInputField)).toList (fun _ => True)
      (whenAt .leftBrace (inputFieldsDefinition limit))
      (Together (ReadsGroup .inputFieldsDefinition (ReadsInput file))
        (List.map (Node.bare InputValueDefinition.bare))
        (given.map fun field => (field.map (.readBack (Schema.descriptionLiteral "  "))).bare
          InputValueDefinition.bare)) := by
  have lines : IsGap ['\n'] := .of_all rfl
  have indent : IsGap [' ', ' '] := .of_all rfl
  refine accepts_braced some (yields_inputValueDefinition file limit).steady
    (fun field member => ?_) fun field member => ?_
  · rw [toList_printInputField, memberText_eq]
    exact (accepts_inputValueDefinition file limit writesStrings_member indent lines (by simp)
      indent (writable field member)).padded lines fun _ stops => stops.passed rfl
  · rw [toList_printInputField]
    refine exists_memberText_eq _ fun more _ => ?_
    rw [toList_printInputValue]
    exact offers_labelled (writable field member).name _ more

/-! ## Values of enum types -/

/-- The text of an enum value, its description aside. -/
def enumValueText (value : EnumValueDefinition) : List Char :=
  value.name.text.toList ++ (Schema.printDirectives value.directives).toList

theorem toList_printEnumValue (value : Node EnumValue) : (Schema.printEnumValue value).toList =
    memberText value.value.description (enumValueText value.value.toDefinition) := by
  rw [Schema.printEnumValue]
  simp [toList_printDescription, memberText, enumValueText, EnumValue.toDefinition]

theorem offers_enumValueText {value : EnumValueDefinition} (writable : value.IsWritable)
    {more : List Char} (ends : Ends more) :
    Offers (fun kind _ => kind = .name) (enumValueText value ++ more) := by
  rw [enumValueText, List.append_assoc]
  exact offers_of_spells (writable.name.spells rfl) (ends_printDirectives _ ends).word rfl

/-- **A printed enum value is read as what it is.** -/
theorem accepts_enumValueDefinition {given : Node EnumValue}
    (writable : given.value.toDefinition.IsWritable) :
    Accepts (Schema.printEnumValue given).toList EndsInput (enumValueDefinition limit)
      (Again (ReadsEnumValue file) (Node.bare EnumValueDefinition.bare)
        ((given.map EnumValue.toDefinition).bare EnumValueDefinition.bare)) := by
  have applied : Accepts (Schema.printDirectives given.value.toDefinition.directives).toList
      EndsInput (directives true limit) _ :=
    (accepts_directives file limit writable.directives).narrow fun _ stops => stops.mono (by simp)
  have content := (accepts_enumValue file writable.name writable.free).andThen applied
    fun _ stops => (ends_printDirectives _ stops.toEnds).word
  rw [toList_printEnumValue]
  refine (accepts_member given.value.description content fun more ends =>
    offers_enumValueText writable ends).mono ?_
  rintro trees ⟨start, stop, children, rfl, descriptions, _, told, described, _, directives, rfl,
    ⟨from_, upto, inner, rfl, nameTree, name, single, named, sameName⟩,
    ⟨applied, applies, sameApplied⟩⟩
  have free : IsFreeName name.text := Name.bare_eq_iff.1 sameName ▸ writable.free
  refine ⟨_, .ofLocation ⟨file, start, stop⟩ ⟨_, name, applied⟩, rfl,
    .mk told described single named free applies, ?_⟩
  simp only [Node.ofLocation, Node.bare_eq_iff, EnumValueDefinition.bare, sameName, sameApplied]
  rfl

theorem accepts_enumValuesDefinition {given : List (Node EnumValue)} (some : given ≠ [])
    (writable : ∀ value ∈ given, value.value.toDefinition.IsWritable) :
    Accepts (Schema.printBraced (given.map Schema.printEnumValue)).toList (fun _ => True)
      (whenAt .leftBrace (enumValuesDefinition limit))
      (Together (ReadsGroup .enumValuesDefinition (ReadsEnumValue file))
        (List.map (Node.bare EnumValueDefinition.bare))
        (given.map fun value =>
          (value.map EnumValue.toDefinition).bare EnumValueDefinition.bare)) := by
  refine accepts_braced some (yields_enumValueDefinition file limit).steady (fun value member =>
    accepts_enumValueDefinition file limit (writable value member)) fun value member => ?_
  rw [toList_printEnumValue]
  exact exists_memberText_eq _ fun more ends => offers_enumValueText (writable value member) ends

/-! ## Lists of names -/

theorem accepts_listedType (problem : GrammarProblem) {given : Name}
    (word : IsWord .name given.text) :
    Accepts given.text.toList EndsWord (listedType problem)
      (Again (ReadsNamedType file) Name.bare given.bare) :=
  choose_yes (meeting_of_spells (word.spells rfl)) (.report problem) (accepts_namedType file word)

theorem steady_listedType (problem : GrammarProblem) : IsSteady (listedType problem) :=
  ((yields_name .builtIn).steady.branch.choose .nothing).choose (.report problem)

/-- Names behind a word or mark, with marks between them. -/
theorem accepts_names {mark : TokenKind} {c : Char}
    (punctuation : TokenKind.ofPunctuation? c = some mark) (kept : mark.isIgnored = false)
    (other : mark ≠ .name) {kind : TreeKind} (problem : GrammarProblem) {opening : List Char}
    (opens : Accepts opening EndsWord take Nothing) {first : Name} {rest : List Name}
    (words : ∀ name ∈ first :: rest, IsWord .name name.text) :
    Accepts (opening ++ ' ' :: (first.text.toList ++
        rest.flatMap fun name => markedText c name.text.toList)) (Stops [mark])
      (branch kind (sequence [take, separated mark (listedType problem)]))
      (Together (ReadsGroup kind (ReadsNamedType file)) (List.map Name.bare)
        ((first :: rest).map Name.bare)) := by
  have each : ∀ name ∈ first :: rest, Accepts name.text.toList EndsWord (listedType problem)
      (Again (ReadsNamedType file) Name.bare name.bare) :=
    fun name member => accepts_listedType file problem (words name member)
  have begins : ∀ more, EndsWord more →
      Offers (fun kind _ => kind ≠ mark) (first.text.toList ++ more) := fun more ends =>
    offers_of_spells ((words first List.mem_cons_self).spells rfl) ends other.symm
  have listed := of_separated punctuation kept (steady_listedType problem) each begins
    (meeting_isAt_of_stops (by simp)) (fun _ => (ends_of_isPassedOver rfl _).word)
    fun more (stops : Stops [mark] more) => stops.word
  refine (of_branch (opens.silently (listed.passed rfl)
    fun _ _ => (ends_of_isPassedOver rfl _).word)).mono ?_
  rintro trees ⟨start, stop, children, rfl, each⟩
  have empty : ReadsAll (ReadsNamedType file) [] [] := .nil
  obtain ⟨again, all, same⟩ := each.exists_reads empty fun _ _ _ _ => .cons
  exact ⟨again, .present all, same⟩

theorem toList_printNames (before between : String) (first : Name) (rest : List Name) :
    (Schema.printNames before between (first :: rest)).toList = before.toList ++
      (first.text.toList ++ rest.flatMap fun name => between.toList ++ name.text.toList) := by
  simp [Schema.printNames, List.flatMap_def, Function.comp_def]

/-- **Printed interfaces are read as what they are.** -/
theorem accepts_interfaces {given : List Name} (some : given ≠ [])
    (words : ∀ name ∈ given, IsWord .name name.text) :
    Accepts (Schema.printNames " implements " " & " given).toList (Stops [.ampersand])
      implementsInterfaces (Together (ReadsGroup .implementsInterfaces (ReadsNamedType file))
        (List.map Name.bare) (given.map Name.bare)) := by
  have word : Spells "implements" .name EndsWord := (isWord_of_isValid (by decide)).spells rfl
  cases given with
  | nil => exact absurd rfl some
  | cons first rest =>
      rw [toList_printNames]
      exact (accepts_names file (c := '&') rfl rfl (by simp) _ (of_take word) words).passed rfl

/-- **Printed members of a union type are read as what they are.** -/
theorem accepts_unionMembers {given : List Name} (words : ∀ name ∈ given, IsWord .name name.text) :
    Accepts (Schema.printNames " = " " | " given).toList (Stops [.equalsSign, .verticalBar])
      (whenAt .equalsSign unionMembers) (Together (ReadsGroup .unionMembers (ReadsNamedType file))
        (List.map Name.bare) (given.map Name.bare)) := by
  cases given with
  | nil =>
      refine (whenever_no (meeting_isAt_of_stops (by simp))
        (IsSteady.take.andThen (steady_listedType _).separated).branch).mono ?_
      rintro trees rfl
      exact ⟨[], .absent, rfl⟩
  | cons first rest =>
      have marked : Accepts ['='] EndsWord take Nothing :=
        (of_mark rfl rfl).narrow fun _ _ => trivial
      have members : Accepts _ (Stops [.verticalBar]) unionMembers _ :=
        accepts_names file (c := '|') rfl rfl (by simp) .unionMemberExpected marked words
      rw [toList_printNames]
      exact ((whenever_yes (meeting_mark rfl rfl _ _) members).passed rfl).narrow fun _ stops =>
        stops.mono (by simp)

end Grammar

end SchemaGraft
