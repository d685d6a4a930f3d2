import SchemaGraft.Proofs.Bare
import SchemaGraft.Proofs.Printing.Descriptions
import SchemaGraft.Proofs.Printing.Writable
import SchemaGraft.Proofs.Reading.Acceptance
import SchemaGraft.Proofs.Reading.Values

/-!
# Reading printed values

Names, descriptions, values, types and directive applications are read from the texts that are
printed for them. What is read is what was printed, but for the places where it stands (`Again`).
-/

set_option autoImplicit false

namespace SchemaGraft

open SchemaGraft.Tree

namespace Grammar

open State Accepts

variable (file : FileId)

/-! ## Names and descriptions -/

theorem accepts_name {given : Name} (word : IsWord .name given.text) :
    Accepts given.text.toList EndsWord name (Again (ReadsName file) Name.bare given.bare) := by
  have spells := word.spells rfl
  refine (choose_yes (meeting_of_spells spells) (.report _)
    (of_branch (of_bump spells .identifier))).mono ?_
  rintro trees ⟨start, stop, children, rfl, place, content⟩
  exact ⟨_, _, rfl, .mk content word, rfl⟩

theorem accepts_namedType {given : Name} (word : IsWord .name given.text) :
    Accepts given.text.toList EndsWord namedType
      (Again (ReadsNamedType file) Name.bare given.bare) := by
  refine (whenever_yes (meeting_of_spells (word.spells rfl))
    (of_branch (accepts_name file word))).mono ?_
  rintro trees ⟨start, stop, children, rfl, tree, again, content, named, same⟩
  exact ⟨_, again, rfl, .mk content named, same⟩

/-- A description between some characters, or nothing. -/
def describedBy (literal : String → String) (before behind : List Char)
    (description : Option String) : List Char :=
  description.elim [] fun text => before ++ ((literal text).toList ++ behind)

section Descriptions

variable {literal : String → String} (writes : WritesStrings literal) {before behind : List Char}
  (passed : IsGap before) (passed' : IsGap behind) (apart : behind ≠ [])
include writes passed passed' apart

/-- A description is followed by something that ends its string token. -/
theorem accepts_description (given : Option String) :
    Accepts (describedBy literal before behind given) (Offers fun kind _ => kind ≠ .string)
      description fun trees => ReadsDescription trees (readBack literal given) := by
  cases given with
  | none =>
      have steady : IsSteady (branch .description (branch .stringValue take)) :=
        IsSteady.take.branch.branch
      refine (whenever_no (meeting_of_offers (fun _ offers => offers)
        fun state kind text has other => ?_) steady).mono ?_
      · rw [has.isAt_eq, beq_eq_false_iff_ne]
        exact other
      · rintro trees rfl
        exact .absent
  | some text =>
      have spells := writes text
      have quoted : Accepts (literal text).toList (fun more => more.head? ≠ some '"') description
          fun trees => ReadsDescription trees (readBack literal (some text)) := by
        refine (whenever_yes (meeting_of_spells spells)
          (of_branch (branch_take spells .stringValue))).mono ?_
        rintro trees ⟨start, stop, children, rfl, from_, upto, place, content⟩
        exact .present content
      refine (quoted.padded passed' fun more _ => ?_).passed_all passed
      cases behind with
      | nil => exact absurd rfl apart
      | cons c behind => exact (ends_of_isPassedOver (passed' c List.mem_cons_self) _).quote

end Descriptions

/-! ## Values -/

/-- An enum value is no word with a meaning of its own. -/
theorem accepts_enumValue {given : Name} (word : IsWord .name given.text)
    (free : IsFreeName given.text) : Accepts given.text.toList EndsWord enumValue
      (Branched .enumValue (Again (ReadsName file) Name.bare given.bare)) := by
  have spells := word.spells rfl
  have unreserved : Accepts [] (Offers fun _ text => text = given.text)
      (whenever isAtReserved (report .reservedEnumValue)) Nothing :=
    whenever_no (meeting_of_offers (fun _ offers => offers) fun state kind text has same => by
      simp [isAtReserved, has.isAtText_eq, same, free.1, free.2.1, free.2.2]) (.report _)
  have named := unreserved.silently (accepts_name file word) fun more ends =>
    offers_of_spells spells ends rfl
  exact of_branch (choose_yes (meeting_of_spells spells) (.report _) named)

theorem offers_listValue (items : List (Node Value)) (more : List Char) :
    Offers (fun kind _ => kind = .leftBracket) ((Value.list items).print.toList ++ more) := by
  rw [Value.print, String.toList_append, String.toList_append, List.append_assoc]
  exact offers_of_punctuation rfl rfl rfl _

theorem offers_objectValue (fields : List (Name × Node Value)) (more : List Char) :
    Offers (fun kind _ => kind = .leftBrace) ((Value.object fields).print.toList ++ more) := by
  rw [Value.print, String.toList_append, String.toList_append, List.append_assoc]
  exact offers_of_punctuation rfl rfl rfl _

/-- What a value begins with. -/
theorem offers_value {value : Value} (writable : value.IsWritable) {more : List Char}
    (ends : Ends more) : Offers (fun kind _ => kind ∉ [.rightBracket, .endOfInput])
      (value.print.toList ++ more) := by
  have name : ∀ {text : String}, IsWord .name text →
      Offers (fun kind _ => kind ∉ [.rightBracket, .endOfInput]) (text.toList ++ more) :=
    fun word => offers_of_spells (word.spells rfl) ends.word (by decide)
  cases writable with
  | null => exact name (isWord_of_isValid (by decide))
  | enumValue word free => exact name word
  | string text => exact offers_of_spells (spells_quote text) ends.quote (by decide)
  | float word => exact offers_of_spells (word.spells rfl) ends.word (by decide)
  | int word => exact offers_of_spells (word.spells rfl) ends.word (by decide)
  | boolean value => cases value <;> exact name (isWord_of_isValid (by decide))
  | list each => exact (offers_listValue _ more).mono fun kind _ here => here ▸ (by decide)
  | object names each =>
      exact (offers_objectValue _ more).mono fun kind _ here => here ▸ (by decide)

/-- A colon and what stands behind it. -/
theorem accepts_colon {chars : List Char} {follows : List Char → Prop} {part other : Production}
    {holds : List Tree → Prop} (steady : IsSteady other)
    (accepts : Accepts chars follows part holds) :
    Accepts (':' :: ' ' :: chars) follows
      (choose (isAt .colon) (fun state => part (take state)) other) holds :=
  choose_yes (meeting_mark rfl rfl _ _) steady
    ((of_mark rfl rfl).silently (accepts.passed rfl) fun _ _ => trivial)

/-- A name, a colon and what stands behind it. -/
theorem accepts_labelled {given : Name} (word : IsWord .name given.text) {chars : List Char}
    {follows : List Char → Prop} {part other : Production} {holds : List Tree → Prop}
    (steady : IsSteady other) (accepts : Accepts chars follows part holds) :
    Accepts (given.text.toList ++ ':' :: ' ' :: chars) follows
      (sequence [name, choose (isAt .colon) (fun state => part (take state)) other])
      (Then (Again (ReadsName file) Name.bare given.bare) holds) :=
  (accepts_name file word).andThen (accepts_colon steady accepts) fun _ _ =>
    (ends_of_punctuation rfl _).word

theorem offers_labelled {given : Name} (word : IsWord .name given.text) (chars more : List Char) :
    Offers (fun kind _ => kind = .name) ((given.text.toList ++ ':' :: ' ' :: chars) ++ more) := by
  rw [List.append_assoc]
  exact offers_of_spells (word.spells rfl) (ends_of_punctuation rfl _).word rfl

/-- How a value is read that lies a level deeper. -/
def deeper? (constant : Bool) : Nat → Option Production
  | 0 => none
  | left + 1 => some (value constant left true)

theorem value_eq (constant : Bool) (left : Nat) (rejecting : Bool) :
    value constant left rejecting = valueWith constant left (deeper? constant left) rejecting := by
  cases left <;> rfl

/-- What is accepted at any depth is accepted a level deeper, unless that is beyond the limit. -/
theorem accepts_deeper {chars : List Char} {follows : List Char → Prop}
    {holds : List Tree → Prop}
    (each : ∀ left, Accepts chars follows (value true left true) holds) (left : Nat) :
    Accepts chars follows
      (fun state => (deeper? true left).getD reportDepth (descend left state)) holds := by
  cases left with
  | zero => exact of_exceeds (Exceeds.descend.andThen .reportDepth)
  | succ left => exact (of_descend _).silently (each left) fun _ _ => trivial

theorem toList_printItems (items : List (Node Value)) :
    (Value.printItems items).toList =
      [',', ' '].intercalate (items.map fun item => item.value.print.toList) := by
  induction items with
  | nil => rfl
  | cons first rest ih =>
      obtain ⟨_, _, item⟩ := first
      cases rest with
      | nil => simp [Value.printItems]
      | cons next rest =>
          show (item.print ++ ", " ++ Value.printItems (next :: rest)).toList = _
          rw [String.toList_append, ih]
          simp [intercalate_cons]

theorem toList_printFields (fields : List (Name × Node Value)) :
    (Value.printFields fields).toList = [',', ' '].intercalate (fields.map fun field =>
      field.1.text.toList ++ ':' :: ' ' :: field.2.value.print.toList) := by
  induction fields with
  | nil => rfl
  | cons first rest ih =>
      obtain ⟨name, _, _, value⟩ := first
      cases rest with
      | nil => simp [Value.printFields]
      | cons next rest =>
          show (name.text ++ ": " ++ value.print ++ ", " ++
            Value.printFields (next :: rest)).toList = _
          rw [String.toList_append, ih]
          simp [intercalate_cons]

theorem isAtItem_of_hasToken {state : State} {kind : TokenKind} {text : String}
    (has : state.HasToken kind text) :
    isAtItem state = !(kind == .rightBracket || kind == .endOfInput) := by
  rw [isAtItem, has.isSome_current, has.isAtEither_eq, Bool.true_and]

section Nested

variable (left : Nat)

/-- Trees stand for a value, places aside. -/
abbrev ValueAgain (given : Value) : List Tree → Prop :=
  Again (ReadsValue file) (fun again => again.value.bare) given.bare

/-- A value that is a single token. -/
theorem accepts_literal {text : String} {kind : TokenKind} {follows : List Char → Prop}
    (spells : Spells text kind follows) (ends : ∀ more, Ends more → follows more)
    (branchKind : TreeKind) {rejecting : Bool}
    (chosen : ∀ state : State, state.HasToken kind text →
      value true left rejecting state = branch branchKind take state) {given : Value}
    (reads : ∀ start stop place,
      ReadsValue file (.branch branchKind start stop [.leaf .part text place])
        (.ofLocation ⟨file, start, stop⟩ given)) :
    Accepts text.toList Ends (value true left rejecting) (ValueAgain file given) := by
  refine ((branch_take spells branchKind).narrow ends).congr
    (yields_value file true left rejecting).steady (fun state more follow stands =>
      chosen state (stands.hasToken (spells.shows (ends more follow)))) |>.mono ?_
  rintro trees ⟨start, stop, place, rfl⟩
  exact ⟨_, _, rfl, reads start stop place, rfl⟩

/-- A list value, given how what stands between its brackets is read. -/
theorem accepts_bracketed {items : List (Node Value)} {content : Production}
    (accepts : Accepts ([',', ' '].intercalate (items.map fun item => item.value.print.toList))
      (Begins ']') content (Each (fun item => ValueAgain file item.value) items)) :
    Accepts (Value.list items).print.toList (fun _ => True)
      (branch .listValue (sequence [take, content, whenAt .rightBracket take]))
      (ValueAgain file (.list items)) := by
  have text : (Value.list items).print.toList = ['['] ++
      ([',', ' '].intercalate (items.map fun item => item.value.print.toList) ++ [']']) := by
    simp [Value.print, toList_printItems]
  have closing : Accepts [']'] (fun _ => True) (whenAt .rightBracket take) Nothing :=
    whenever_yes (meeting_mark rfl rfl _ _) (of_mark rfl rfl)
  rw [text]
  refine (of_branch ((of_mark rfl rfl).silently
    (accepts.andThen closing fun more _ => ⟨more, rfl⟩) fun _ _ => trivial)).mono ?_
  rintro trees ⟨start, stop, children, rfl, front, back, told, each, rfl⟩
  rw [List.append_nil] at told
  have empty : ReadsValues file [] [] := .nil
  obtain ⟨again, reads, same⟩ := each.exists_reads empty fun _ _ _ _ => .cons
  refine ⟨_, _, rfl, .list told reads, ?_⟩
  show (Value.list again).bare = (Value.list items).bare
  rw [Value.bare, Value.bare, Value.bareItems_eq, same, ← Value.bareItems_eq]

theorem accepts_listValue {items : List (Node Value)}
    (writable : ∀ item ∈ items, item.value.IsWritable)
    (each : ∀ item ∈ items, ∀ left, Accepts item.value.print.toList Ends (value true left true)
      (ValueAgain file item.value)) :
    Accepts (Value.list items).print.toList (fun _ => True) (listValue left (deeper? true left))
      (ValueAgain file (.list items)) := by
  have series : ∀ {part : Production}, IsSteady part → (∀ item ∈ items,
      Accepts item.value.print.toList Ends part (ValueAgain file item.value)) →
      IsSeries isAtItem part [',', ' '] (fun item => item.value.print.toList) (fun _ => Ends)
        (fun item => ValueAgain file item.value) items (Begins ']') := by
    intro part steady each
    refine .commas rfl rfl steady each (fun item member _ => offers_value (writable item member))
      (by simp) (fun state kind text has other => ?_) fun state text has => ?_
    · simpa [isAtItem_of_hasToken has, not_or] using other
    · rw [isAtItem_of_hasToken has]
      rfl
  cases left with
  | zero =>
      refine accepts_bracketed file ?_
      have exceeds : Exceeds (sequence [descend 0, reportDepth]) :=
        Exceeds.descend.andThen .reportDepth
      have never := series exceeds.toIsSteady fun _ _ => of_exceeds exceeds
      by_cases some : items = []
      · subst some
        refine (whenever_no never.ends exceeds.toIsSteady).mono ?_
        rintro trees rfl
        exact .nil
      · exact whenever_yes (never.meeting some) (of_exceeds exceeds)
  | succ left =>
      have steady : IsSteady (sequence [descend (left + 1), value true left true]) :=
        (IsSteady.descend _).andThen (yields_value file true left true).steady
      exact accepts_bracketed file (of_repeatWhile (series steady fun item member =>
        accepts_deeper (each item member) (left + 1)))

theorem accepts_objectValue {fields : List (Name × Node Value)}
    (names : ∀ field ∈ fields, IsWord .name field.1.text)
    (each : ∀ field ∈ fields, ∀ left, Accepts field.2.value.print.toList Ends
      (value true left true) (ValueAgain file field.2.value)) :
    Accepts (Value.object fields).print.toList (fun _ => True)
      (objectValue left (deeper? true left)) (ValueAgain file (.object fields)) := by
  have field : ∀ field ∈ fields,
      Accepts (field.1.text.toList ++ ':' :: ' ' :: field.2.value.print.toList) Ends
        (objectField left (deeper? true left)) (Again (fun tree again => ∀ others rest,
          ReadsValueFields file others rest →
            ReadsValueFields file (tree :: others) (again :: rest))
          (fun again => (again.1.bare, again.2.value.bare))
          (field.1.bare, field.2.value.bare)) := by
    intro field member
    refine (of_branch (accepts_labelled file (names field member) .nothing
      (accepts_deeper (each field member) left))).mono ?_
    rintro trees ⟨start, stop, children, rfl, _, _, told, ⟨nameTree, name, rfl, named, same⟩,
      ⟨valueTree, value, rfl, reads, same'⟩⟩
    exact ⟨_, (name, value), rfl, fun others rest => .cons told named reads,
      Prod.ext same same'⟩
  have text : (Value.object fields).print.toList = ['\x7b'] ++
      ([',', ' '].intercalate (fields.map fun field => field.1.text.toList ++ ':' :: ' ' ::
        field.2.value.print.toList) ++ ['\x7d']) := by
    simp [Value.print, toList_printFields]
  have steady : IsSteady (objectField left (deeper? true left)) := by
    have deeper : ∀ part ∈ deeper? true left,
        Yields Anywhere part (IfConstant true (Single (ReadsValue file))) := by
      cases left with
      | zero => rintro part ⟨⟩
      | succ left =>
          rintro part ⟨⟩
          exact yields_value file true left true
    exact (yields_objectField deeper).steady
  rw [text]
  have series := IsSeries.commas (c := '\x7d') rfl rfl steady field
    (fun field member more _ => offers_labelled (names field member) _ more) (by simp)
    (fun state kind text has same => by rw [has.isAt_eq, same, beq_self_eq_true])
    fun state text has => has.isAt_eq .name
  refine (of_branch ((of_mark rfl rfl).silently
    ((of_repeatWhile series).andThen (of_close .brace rfl) fun more _ => ⟨more, rfl⟩)
    fun _ _ => trivial)).mono ?_
  rintro trees ⟨start, stop, children, rfl, front, back, told, each, rfl⟩
  rw [List.append_nil] at told
  have empty : ReadsValueFields file [] [] := .nil
  obtain ⟨again, reads, same⟩ := each.exists_reads empty fun _ _ _ _ joins => joins _ _
  refine ⟨_, _, rfl, .object told reads, ?_⟩
  show (Value.object again).bare = (Value.object fields).bare
  rw [Value.bare, Value.bare, Value.bareFields_eq, same, ← Value.bareFields_eq]

end Nested

/-- **A printed value is read as what it is**, as deep as it may nest. -/
theorem accepts_value {given : Value} (writable : given.IsWritable) (left : Nat)
    (rejecting : Bool) :
    Accepts given.print.toList Ends (value true left rejecting) (ValueAgain file given) := by
  have word : ∀ more, Ends more → EndsWord more := fun _ ends => ends.word
  induction writable generalizing left rejecting with
  | null =>
      have spells : Spells "null" .name EndsWord := (isWord_of_isValid (by decide)).spells rfl
      refine accepts_literal file left spells word .nullValue (fun state has => ?_)
        fun _ _ _ => .null
      rw [value_eq]
      simp [valueWith, has.kind?_eq, has.isAtText_eq]
  | @enumValue name isName free =>
      have chosen : ∀ (state : State) (more : List Char), Ends more →
          state.StandsBefore (name.text.toList ++ more) →
          value true left rejecting state = enumValue state := by
        intro state more ends stands
        have has := stands.hasToken ((isName.spells rfl).shows ends.word)
        rw [value_eq]
        simp [valueWith, has.kind?_eq, has.isAtText_eq, free.1, free.2.1, free.2.2]
      refine (((accepts_enumValue file isName free).narrow word).congr
        (yields_value file true left rejecting).steady chosen).mono ?_
      rintro trees ⟨start, stop, children, rfl, tree, again, told, named, same⟩
      have text : again.text = name.text := Name.bare_eq_iff.1 same
      refine ⟨_, _, rfl, .enumValue told named (text ▸ free), ?_⟩
      show (Value.enumValue again).bare = (Value.enumValue name).bare
      rw [Value.bare, Value.bare, same]
  | string text =>
      refine accepts_literal file left (spells_quote text) (fun _ ends => ends.quote) .stringValue
        (fun state has => ?_) fun start stop place => ?_
      · rw [value_eq]
        simp [valueWith, has.kind?_eq]
      · have reads : ReadsValue file
            (.branch .stringValue start stop [.leaf .part (Text.quote text) place])
            (.ofLocation ⟨file, start, stop⟩ (.string (Text.stringValue (Text.quote text)))) :=
          .string
        rwa [Text.stringValue_quote] at reads
  | float isFloat =>
      refine accepts_literal file left (isFloat.spells rfl) word .floatValue (fun state has => ?_)
        fun _ _ _ => .float isFloat
      rw [value_eq]
      simp [valueWith, has.kind?_eq]
  | int isInt =>
      refine accepts_literal file left (isInt.spells rfl) word .intValue (fun state has => ?_)
        fun _ _ _ => .int isInt
      rw [value_eq]
      simp [valueWith, has.kind?_eq]
  | boolean given =>
      have spells : Spells (Value.boolean given).print .name EndsWord := by
        cases given <;> exact (isWord_of_isValid (by decide)).spells rfl
      refine accepts_literal file left spells word .booleanValue (fun state has => ?_)
        fun _ _ _ => ?_
      · rw [value_eq]
        cases given <;> simp [valueWith, has.kind?_eq, has.isAtText_eq, Value.print]
      · cases given <;> exact .boolean
  | @list items writable each =>
      refine ((accepts_listValue file left writable fun item member left =>
        each item member left true).narrow fun _ _ => trivial).congr
        (yields_value file true left rejecting).steady fun state more _ stands => ?_
      obtain ⟨kind, text, shows, rfl⟩ := offers_listValue items more
      rw [value_eq]
      simp [valueWith, (stands.hasToken shows).kind?_eq]
  | @object fields names writable each =>
      refine ((accepts_objectValue file left names fun field member left =>
        each field member left true).narrow fun _ _ => trivial).congr
        (yields_value file true left rejecting).steady fun state more _ stands => ?_
      obtain ⟨kind, text, shows, rfl⟩ := offers_objectValue fields more
      rw [value_eq]
      simp [valueWith, (stands.hasToken shows).kind?_eq]

/-! ## Types -/

/-- Trees stand for a reference to a type, places aside. -/
abbrev ReferenceAgain (given : TypeReference) : List Tree → Prop :=
  Again (ReadsReference file) TypeReference.bare given.bare

theorem exists_nonNull?_of_bare {again nullable nonNull : TypeReference}
    (same : again.bare = nullable.bare) (wrapped : nullable.nonNull? = some nonNull) :
    ∃ other, again.nonNull? = some other ∧ other.bare = nonNull.bare := by
  cases nullable <;> cases wrapped <;> cases again <;>
    simp only [TypeReference.bare, reduceCtorEq] at same <;>
    exact ⟨_, rfl, by simpa [TypeReference.bare] using same⟩

theorem print_of_nonNull? {nullable nonNull : TypeReference}
    (wrapped : nullable.nonNull? = some nonNull) : nonNull.print = nullable.print ++ "!" := by
  cases nullable <;> cases wrapped <;> simp [TypeReference.print, String.append_assoc]

section References

variable {part : Production} {nullable : TypeReference} (steady : IsSteady part)
  (accepts : Accepts nullable.print.toList EndsWord (fun state => (part state).skip)
    (ReferenceAgain file nullable))
include steady accepts

/-- What has no exclamation mark behind it is read as it is. -/
theorem accepts_nullable : Accepts nullable.print.toList (Stops [.exclamation])
    (perhapsNonNull part) (ReferenceAgain file nullable) :=
  perhapsNonNull_no steady (accepts.narrow fun _ stops => stops.word) fun _ stops =>
    stops.offers.mono fun _ _ other same => other (by simp [same])

/-- An exclamation mark makes a type non-null. -/
theorem accepts_nonNull {nonNull : TypeReference} (wrapped : nullable.nonNull? = some nonNull) :
    Accepts nonNull.print.toList (Stops [.exclamation]) (perhapsNonNull part)
      (ReferenceAgain file nonNull) := by
  rw [print_of_nonNull? wrapped, String.toList_append]
  refine ((perhapsNonNull_yes steady accepts fun _ => (ends_of_punctuation rfl _).word).narrow
    fun _ _ => trivial).mono ?_
  rintro trees ⟨start, stop, children, rfl, tree, again, told, reads, same⟩
  obtain ⟨other, wrapped', same'⟩ := exists_nonNull?_of_bare same wrapped
  exact ⟨_, other, rfl, .nonNull told reads wrapped', same'⟩

end References

/-- The production for the name of a type, wherever there may be a mark behind it. -/
abbrev namedReference : Production := branch .namedType (branch .name (eat .identifier))

theorem accepts_namedReference (given : Name) (word : IsWord .name given.text) :
    Accepts (TypeReference.named given).print.toList EndsWord
      (fun state => (namedReference state).skip) (ReferenceAgain file (.named given)) := by
  have same : (fun state => (namedReference state).skip) =
      branch .namedType (branch .name (bump .identifier)) := by
    funext state
    rw [namedReference, skip_branch]
    congr 1
    funext state
    exact skip_branch _ _ state
  rw [same]
  refine (of_branch (of_branch (of_bump (word.spells rfl) .identifier))).mono ?_
  rintro trees ⟨start, stop, children, rfl, from_, upto, inner, told, place, content⟩
  exact ⟨_, .named ⟨given.text, _⟩, rfl, .named told (.mk content word), rfl⟩

theorem offers_reference {reference : TypeReference} (writable : reference.IsWritable)
    {more : List Char} (ends : Ends more) :
    Offers (fun kind _ => kind = .leftBracket ∨ kind = .name) (reference.print.toList ++ more) := by
  cases reference with
  | named name => exact offers_of_spells (IsWord.spells writable rfl) ends.word (.inr rfl)
  | nonNullNamed name =>
      rw [TypeReference.print, String.toList_append, List.append_assoc]
      exact offers_of_spells (IsWord.spells writable rfl) (ends_of_punctuation rfl _).word
        (.inr rfl)
  | list item | nonNullList item =>
      rw [TypeReference.print, String.toList_append, String.toList_append, List.append_assoc]
      exact offers_of_punctuation rfl rfl (.inl rfl) _

theorem type_of_name {state : State} {text : String} (has : state.HasToken .name text)
    (left : Nat) : type left state = perhapsNonNull namedReference state := by
  cases left <;> simp [type, typeWith, has.isAt_eq]

/-- The production for a list, given how many levels are left for its items. -/
abbrev listReference (left : Nat) : Production :=
  branch .listType (sequence [take, descend (left + 1), itemType (type left), close .bracket])

/-- A list is read as deep as its items may be. -/
theorem accepts_listReference (item : TypeReference) {left : Nat} (writable : item.IsWritable)
    (accepts : Accepts item.print.toList (Stops [.exclamation]) (type left)
      (ReferenceAgain file item)) :
    Accepts (TypeReference.list item).print.toList EndsWord
      (fun state => (listReference left state).skip) (ReferenceAgain file (.list item)) := by
  have inner : Accepts item.print.toList (Stops [.exclamation]) (itemType (type left))
      (ReferenceAgain file item) := by
    refine accepts.congr (yields_itemType (yields_type file left)).steady
      fun state more stops stands => ?_
    obtain ⟨kind, text, shows, here⟩ := offers_reference writable stops.toEnds
    have has := stands.hasToken shows
    have found : state.isAtEither .leftBracket .name = true := by
      rw [has.isAtEither_eq]
      simpa using here
    simp [itemType, found]
  have text : (TypeReference.list item).print.toList =
      ['['] ++ ([] ++ (item.print.toList ++ [']'])) := by
    simp [TypeReference.print]
  rw [text]
  refine (skipped (of_branch ((of_mark rfl rfl).silently ((of_descend (left + 1)).silently
    (inner.andThen (of_close .bracket rfl) fun _ _ => stops_of_punctuation rfl rfl (by decide) _)
    fun _ _ => trivial) fun _ _ => trivial))).narrow (fun _ _ => trivial) |>.mono ?_
  rintro trees ⟨start, stop, children, rfl, _, _, told, ⟨tree, again, rfl, reads, same⟩, rfl⟩
  exact ⟨_, .list again, rfl, .list told reads, congrArg TypeReference.list same⟩

/-- What begins with a bracket is read as a list, unless no level is left for its items. -/
theorem accepts_of_bracket {given : TypeReference}
    (begins : ∀ more, Offers (fun kind _ => kind = .leftBracket) (given.print.toList ++ more))
    (accepts : ∀ left, Accepts given.print.toList (Stops [.exclamation])
      (perhapsNonNull (listReference left)) (ReferenceAgain file given)) (left : Nat) :
    Accepts given.print.toList (Stops [.exclamation]) (type left) (ReferenceAgain file given) := by
  cases left with
  | zero =>
      have exceeds : Exceeds (branch .listType (sequence [take, descend 0, reportDepth])) :=
        ((Exceeds.descend.andThen .reportDepth).behind .take).branch
      refine (of_exceeds exceeds).congr (yields_type file 0).toIsSteady
        fun state more _ stands => ?_
      obtain ⟨kind, text, shows, rfl⟩ := begins more
      simp [type, typeWith, (stands.hasToken shows).isAt_eq]
  | succ left =>
      refine (accepts left).congr (yields_type file (left + 1)).toIsSteady
        fun state more _ stands => ?_
      obtain ⟨kind, text, shows, rfl⟩ := begins more
      simp [type, typeWith, (stands.hasToken shows).isAt_eq]

/-- **A printed reference to a type is read as what it is**, as deep as it may nest. -/
theorem accepts_reference {given : TypeReference} (writable : given.IsWritable) (left : Nat) :
    Accepts given.print.toList (Stops [.exclamation]) (type left) (ReferenceAgain file given) := by
  have named : IsSteady namedReference := (IsSteady.eat .identifier).branch.branch
  have list : ∀ left, IsSteady (listReference left) := fun left =>
    (IsSteady.take.andThen ((IsSteady.descend _).andThen
      ((yields_itemType (yields_type file left)).steady.andThen (.close .bracket)))).branch
  induction given generalizing left with
  | named name =>
      refine (accepts_nullable file named (accepts_namedReference file name writable)).congr
        (yields_type file left).toIsSteady fun state more stops stands => ?_
      exact type_of_name (stands.hasToken ((IsWord.spells writable rfl).shows stops.word)) left
  | nonNullNamed name =>
      refine (accepts_nonNull file named (accepts_namedReference file name writable) rfl).congr
        (yields_type file left).toIsSteady fun state more _ stands => ?_
      rw [TypeReference.print, String.toList_append, List.append_assoc] at stands
      have marked : EndsWord ('!' :: more) := (ends_of_punctuation rfl more).word
      exact type_of_name (stands.hasToken ((IsWord.spells writable rfl).shows marked)) left
  | list item ih =>
      refine accepts_of_bracket file (fun more => ?_) (fun left => accepts_nullable file (list left)
        (accepts_listReference file item writable (ih writable left))) left
      rw [TypeReference.print, String.toList_append, String.toList_append, List.append_assoc]
      exact offers_of_punctuation rfl rfl rfl _
  | nonNullList item ih =>
      refine accepts_of_bracket file (fun more => ?_) (fun left => accepts_nonNull file (list left)
        (accepts_listReference file item writable (ih writable left)) rfl) left
      rw [TypeReference.print, String.toList_append, String.toList_append, List.append_assoc]
      exact offers_of_punctuation rfl rfl rfl _

/-- **A printed type is read as what it is**, as deep as it may nest. -/
theorem accepts_type {given : Node TypeReference} (writable : given.value.IsWritable)
    (left : Nat) :
    Accepts given.value.print.toList (Stops [.exclamation]) (type left)
      (Again (ReadsType file) (Node.bare TypeReference.bare) (given.bare TypeReference.bare)) := by
  refine (accepts_reference file writable left).mono ?_
  rintro trees ⟨tree, again, rfl, reads, same⟩
  cases tree with
  | leaf role text start => cases reads
  | branch kind start stop children => exact ⟨_, _, rfl, .mk reads, Node.bare_eq_iff.2 same⟩

/-! ## Directive applications -/

section Directives

variable (left : Nat)

theorem toList_printArgument (argument : Node Argument) :
    (Schema.printArgument argument).toList = argument.value.name.text.toList ++
      ':' :: ' ' :: argument.value.value.value.print.toList := by
  simp [Schema.printArgument]

theorem accepts_argument {given : Node Argument} (writable : given.value.IsWritable) :
    Accepts (Schema.printArgument given).toList Ends (argument true left)
      (Again (fun tree again => ∀ others rest, ReadsArguments file others rest →
        ReadsArguments file (tree :: others) (again :: rest))
        (Node.bare Argument.bare) (given.bare Argument.bare)) := by
  rw [toList_printArgument]
  refine (of_branch (accepts_labelled file writable.name .nothing
    (accepts_value file writable.value left false))).mono ?_
  rintro trees ⟨start, stop, children, rfl, _, _, told, ⟨nameTree, name, rfl, named, same⟩,
    ⟨valueTree, value, rfl, reads, same'⟩⟩
  refine ⟨_, .ofLocation ⟨file, start, stop⟩ ⟨name, value⟩, rfl,
    fun others rest => .cons told named reads, ?_⟩
  simp [Node.ofLocation, Argument.bare, same, same']

/-- The arguments of a directive application, of which there is one at least. -/
theorem accepts_arguments {given : List (Node Argument)}
    (writable : ∀ argument ∈ given, argument.value.IsWritable) (some : given ≠ []) :
    Accepts ('(' :: ([',', ' '].intercalate (given.map fun argument =>
        (Schema.printArgument argument).toList) ++ [')'])) (fun _ => True) (arguments true left)
      (Branched .arguments (Together (ReadsArguments file) (List.map (Node.bare Argument.bare))
        (given.map (Node.bare Argument.bare)))) := by
  have series := IsSeries.commas (c := ')') rfl rfl
    (yields_argument file true left).steady
    (fun argument member => accepts_argument file left (writable argument member))
    (fun argument member more _ => by
      rw [toList_printArgument]
      exact offers_labelled (writable argument member).name _ more) (by simp)
    (fun state kind text has same => by rw [has.isAt_eq, same, beq_self_eq_true])
    fun state text has => has.isAt_eq .name
  refine of_branch (((of_mark rfl rfl).silently ((of_several _ some series).andThen
    (of_close .parenthesis rfl) fun more _ => ⟨more, rfl⟩) fun _ _ => trivial).mono ?_)
  rintro trees ⟨front, back, told, each, rfl⟩
  have empty : ReadsArguments file [] [] := .nil
  obtain ⟨again, reads, same⟩ := each.exists_reads empty fun _ _ _ _ joins => joins _ _
  rw [List.append_nil] at told
  exact ⟨again, told ▸ reads, same⟩

theorem toList_printDirective (directive : Node Directive) :
    (Schema.printDirective directive).toList = ' ' :: '@' :: (directive.value.name.text.toList ++
      if directive.value.arguments.isEmpty then []
      else '(' :: ([',', ' '].intercalate (directive.value.arguments.map fun argument =>
        (Schema.printArgument argument).toList) ++ [')'])) := by
  rw [Schema.printDirective]
  split <;> simp [Function.comp_def]

theorem accepts_directive {given : Node Directive} (writable : given.value.IsWritable) :
    Accepts (Schema.printDirective given).toList (Stops [.leftParenthesis]) (directive true left)
      (Again (ReadsDirective file) (Node.bare Directive.bare) (given.bare Directive.bare)) := by
  have named := accepts_name file writable.name
  rw [toList_printDirective]
  refine Accepts.passed ?_ rfl
  by_cases some : given.value.arguments = []
  · rw [some, List.isEmpty_nil, if_pos rfl]
    have none : Accepts [] (Stops [.leftParenthesis])
        (whenAt .leftParenthesis (arguments true left)) Nothing :=
      whenever_no (meeting_isAt_of_stops (by simp)) (yields_arguments file true left).toIsSteady
    refine (of_branch ((of_mark rfl rfl).silently (named.andThen none fun _ stops => stops.word)
      fun _ _ => trivial)).mono ?_
    rintro trees ⟨start, stop, children, rfl, _, _, told, ⟨tree, again, rfl, reads, same⟩, rfl⟩
    refine ⟨_, .ofLocation ⟨file, start, stop⟩ ⟨again, []⟩, rfl, .plain told reads, ?_⟩
    simp [Node.ofLocation, Directive.bare, same, some]
  · rw [if_neg (by simpa using some)]
    have given_ := accepts_arguments file left writable.arguments some
    have behind := whenever_yes (meeting_mark (c := '(') rfl rfl _ _) given_
    refine ((of_branch ((of_mark rfl rfl).silently (named.andThen behind fun _ _ =>
      (ends_of_punctuation rfl _).word) fun _ _ => trivial)).narrow fun _ _ => trivial).mono ?_
    rintro trees ⟨start, stop, children, rfl, _, _, told, ⟨tree, again, rfl, reads, same⟩,
      ⟨from_, upto, inner, rfl, arguments, reads', same'⟩⟩
    refine ⟨_, .ofLocation ⟨file, start, stop⟩ ⟨again, arguments⟩, rfl,
      .given told reads reads', ?_⟩
    simp [Node.ofLocation, Directive.bare, same, same']

/-- What follows directive applications begins neither another one nor arguments. -/
abbrev EndsDirectives : List Char → Prop := Stops [.atSign, .leftParenthesis]

theorem toList_printDirectives (directives : Directives) :
    (Schema.printDirectives directives).toList =
      [].intercalate
        (directives.map fun directive => (Schema.printDirective directive).toList) := by
  simp [Schema.printDirectives, intercalate_nil, List.flatMap_def, Function.comp_def]

/-- Directive applications stand one after the other. -/
theorem isSeries_directives {given : Directives} (writable : Directives.AreWritable given) :
    IsSeries (isAt .atSign) (directive true left) []
      (fun directive => (Schema.printDirective directive).toList)
      (fun _ => Stops [.leftParenthesis])
      (fun directive =>
        Again (ReadsDirective file) (Node.bare Directive.bare) (directive.bare Directive.bare))
      given EndsDirectives where
  steady := (yields_directive file true left).toIsSteady
  each directive member := accepts_directive file left (writable directive member)
  shown directive _ := ⟨'@', by simp [toList_printDirective], rfl⟩
  passed := .of_all rfl
  goes_on directive _ := by
    rw [toList_printDirective]
    exact (meeting_mark rfl rfl _ _).passed rfl
  ends := meeting_isAt_of_stops (by simp)
  apart := by
    refine apart_of_forall (fun directive _ more => ?_) fun _ stops => stops.mono (by simp)
    rw [toList_printDirective]
    exact stops_of_isPassedOver rfl (offers_of_punctuation rfl rfl (by decide) _)

/-- **Printed directive applications are read as what they are.** -/
theorem accepts_directives {given : Directives} (writable : Directives.AreWritable given) :
    Accepts (Schema.printDirectives given).toList EndsDirectives (directives true left)
      (Together (ReadsDirectives file) Directives.bare (Directives.bare given)) := by
  have series := isSeries_directives file left writable
  have steady := (yields_directive file true left).toIsSteady
  rw [toList_printDirectives]
  by_cases some : given = []
  · subst some
    refine (whenever_no series.ends steady.repeatWhile.branch).mono ?_
    rintro trees rfl
    exact ⟨[], .absent, rfl⟩
  · refine (whenever_yes (series.meeting some) (of_branch (of_repeatWhile series))).mono ?_
    rintro trees ⟨start, stop, children, rfl, each⟩
    have empty : ReadsAll (ReadsDirective file) [] [] := .nil
    obtain ⟨again, all, same⟩ := each.exists_reads empty fun _ _ _ _ => .cons
    exact ⟨again, .present all, same⟩

end Directives

end Grammar

end SchemaGraft
