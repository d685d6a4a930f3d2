import SchemaGraft.Proofs.Printing.Members

/-!
# Reading printed definitions

The definitions of types and directives and the names of root types are read from the texts that are
printed for them (`accepts_objectDefinition` and its companions, `accepts_directiveDefinition`,
`accepts_schemaDefinition`). A type is printed as
the definition that it amounts to with all extensions folded in (`SchemaType.toDefinition`). Of
descriptions that have many lines this definition has what is read back.

Two conditions are put on what follows. The word `implements` must not come next, which no
definition begins with. And behind the name of an object type that has nothing but a name there must
be no name at all (`SchemaType.IsBareObject`).
-/

set_option autoImplicit false

namespace SchemaGraft

/-! ## Types as definitions -/

/-- What the text of a scalar type defines. -/
def ScalarType.toDefinition (type : ScalarType) : ScalarDefinition where
  description := readBack (Schema.descriptionLiteral "") type.description
  name := type.name
  directives := type.directives

/-- What the text of an object or interface type defines. -/
def ObjectLikeType.toDefinition (type : ObjectLikeType) : ObjectLikeDefinition where
  description := readBack (Schema.descriptionLiteral "") type.description
  name := type.name
  interfaces := type.interfaces.keys
  directives := type.directives
  fields := type.fields.values.map (Node.map Field.toDefinition)

/-- What the text of a union type defines. -/
def UnionType.toDefinition (type : UnionType) : UnionDefinition where
  description := readBack (Schema.descriptionLiteral "") type.description
  name := type.name
  directives := type.directives
  members := type.members.keys

/-- What the text of an enum type defines. -/
def EnumType.toDefinition (type : EnumType) : EnumDefinition where
  description := readBack (Schema.descriptionLiteral "") type.description
  name := type.name
  directives := type.directives
  values := type.values.values.map (Node.map EnumValue.toDefinition)

/-- What the text of an input object type defines. -/
def InputObjectType.toDefinition (type : InputObjectType) : InputObjectDefinition where
  description := readBack (Schema.descriptionLiteral "") type.description
  name := type.name
  directives := type.directives
  fields := type.fields.values.map (Node.map (.readBack (Schema.descriptionLiteral "  ")))

/-- What the text of a directive defines. -/
def DirectiveDefinition.asPrinted (directive : DirectiveDefinition) : DirectiveDefinition :=
  { directive with description := readBack (Schema.descriptionLiteral "") directive.description }

/-- What the text of a type defines. -/
def SchemaType.toDefinition : SchemaType → TypeDefinition
  | .scalar type => .scalar (type.map ScalarType.toDefinition)
  | .object type => .object (type.map ObjectLikeType.toDefinition)
  | .interface type => .interface (type.map ObjectLikeType.toDefinition)
  | .union type => .union (type.map UnionType.toDefinition)
  | .enum type => .enum (type.map EnumType.toDefinition)
  | .inputObject type => .inputObject (type.map InputObjectType.toDefinition)

/-- An object type has nothing but a name and perhaps a description. -/
def ObjectLikeType.IsBare (type : ObjectLikeType) : Prop :=
  type.interfaces.keys = [] ∧ type.directives = [] ∧ type.fields.values = []

/-- A type is an object type that has nothing but a name and perhaps a description. -/
def SchemaType.IsBareObject : SchemaType → Prop
  | .object type => type.value.IsBare
  | .scalar _ | .interface _ | .union _ | .enum _ | .inputObject _ => False

instance : DecidablePred SchemaType.IsBareObject
  | .object _ => inferInstanceAs (Decidable (_ = [] ∧ _ = [] ∧ _ = []))
  | .scalar _ | .interface _ | .union _ | .enum _ | .inputObject _ => isFalse id

/-- The descriptions of the fields or values of a type. -/
def SchemaType.memberDescriptions : SchemaType → List (Option String)
  | .scalar _ | .union _ => []
  | .object type | .interface type => type.value.fields.values.map (·.value.description)
  | .enum type => type.value.values.values.map (·.value.description)
  | .inputObject type => type.value.fields.values.map (·.value.description)

/-- A type has the members that it needs to be printed as what it is. -/
def SchemaType.HasMembers : SchemaType → Prop
  | .enum type => type.value.values.values ≠ []
  | .inputObject type => type.value.fields.values ≠ []
  | .scalar _ | .object _ | .interface _ | .union _ => True

instance : DecidablePred SchemaType.HasMembers
  | .enum _ | .inputObject _ => inferInstanceAs (Decidable (¬ _ = []))
  | .scalar _ | .object _ | .interface _ | .union _ => isTrue True.intro

open SchemaGraft.Tree

namespace Grammar

open State Accepts

variable (file : FileId) (limit : Nat)

/-! ## How definitions begin and end -/

/-- What may follow a definition: the end of the input, or a description or word that begins another
one. -/
abbrev EndsDefinition : List Char → Prop := Offers fun kind text =>
  (kind = .endOfInput ∨ kind = .name ∨ kind = .string) ∧ text ≠ "implements"

/-- The line of a definition ends before what may follow. -/
theorem stops_of_endsDefinition {kinds : List TokenKind} (ends : .endOfInput ∉ kinds)
    (name : .name ∉ kinds) (string : .string ∉ kinds) {more : List Char}
    (follow : EndsDefinition more) : Stops kinds ('\n' :: more) := by
  refine stops_of_isPassedOver rfl (follow.mono fun kind text here => ?_)
  rcases here.1 with rfl | rfl | rfl
  · exact ends
  · exact name
  · exact string

theorem accepts_keyword {word : String} (valid : Name.IsValid word) :
    Accepts word.toList EndsWord (keyword word) Nothing := by
  have spells := (isWord_of_isValid valid).spells rfl
  exact whenever_yes (meeting_isAtText_of_offers fun _ ends => offers_of_spells spells ends rfl)
    (of_take spells)

theorem writesStrings_definition : WritesStrings (Schema.descriptionLiteral "") :=
  Schema.writesStrings_descriptionLiteral (.of_all rfl)

/-- A definition: a description on a line of its own, a word that says what is defined, the name,
and what stands behind it. -/
theorem accepts_definition {kind : TreeKind} {word : String} (valid : Name.IsValid word)
    {given : Name} {called : List Char} {naming : Production}
    (reads : Accepts called EndsWord naming (Again (ReadsName file) Name.bare given.bare))
    {chars : List Char} {follows : List Char → Prop} {part : Production}
    {holds : List Tree → Prop} (accepts : Accepts chars follows part holds)
    (ends : ∀ more, follows more → EndsWord (chars ++ more)) (described : Option String) :
    Accepts (describedBy (Schema.descriptionLiteral "") [] ['\n'] described ++
        ([] ++ (word.toList ++ ' ' :: (called ++ chars)))) follows
      (branch kind fun state => part (naming (keyword word (description state))))
      (Branched kind (Then (fun trees =>
          ReadsDescription trees (readBack (Schema.descriptionLiteral "") described))
        (Then (Again (ReadsName file) Name.bare given.bare) holds))) := by
  have gap : ∀ more, EndsWord (' ' :: more) := fun more => (ends_of_isPassedOver rfl more).word
  refine of_branch (accepts_described writesStrings_definition (.of_all rfl) (.of_all rfl) (by simp)
    (.of_all rfl) described
    ((accepts_keyword valid).silently ((reads.andThen accepts ends).passed rfl) fun _ _ => gap _)
    fun more _ => ?_)
  rw [List.append_assoc]
  exact offers_of_spells ((isWord_of_isValid valid).spells rfl) (gap _) rfl

/-! ## Types -/

/-- Trees stand for what the text of a type defines, places aside. -/
abbrev TypeAgain (given : SchemaType) : List Tree → Prop :=
  Again (fun tree again => ReadsDefinition file tree (.type again)) TypeDefinition.bare
    given.toDefinition.bare

/-- Directive applications at the end of a line. -/
theorem accepts_lastDirectives {given : Directives} (writable : Directives.AreWritable given) :
    Accepts ((Schema.printDirectives given).toList ++ ['\n']) EndsDefinition
      (directives true limit)
      (Together (ReadsDirectives file) Directives.bare (Directives.bare given)) :=
  (accepts_directives file limit writable).padded (.of_all rfl) fun _ follow =>
    stops_of_endsDefinition (by decide) (by decide) (by decide) follow

theorem accepts_scalarDefinition {given : Node ScalarType}
    (writable : (ScalarType.toDefinition given.value).IsWritable) :
    Accepts (Schema.printType (.scalar given)).toList EndsDefinition (scalarDefinition limit)
      (TypeAgain file (.scalar given)) := by
  have text : (Schema.printType (.scalar given)).toList =
      describedBy (Schema.descriptionLiteral "") [] ['\n'] given.value.description ++
        ([] ++ ("scalar".toList ++ ' ' ::
        (given.value.name.text.toList ++
          ((Schema.printDirectives given.value.directives).toList ++ ['\n'])))) := by
    rw [Schema.printType, Schema.printTypeBody, String.toList_append, SchemaType.description,
      toList_printDescription]
    simp
  rw [text]
  refine (accepts_definition file (by decide) (accepts_name file writable.name)
    (accepts_lastDirectives file limit writable.directives) (fun more _ => ?_)
    given.value.description).mono ?_
  · rw [List.append_assoc]
    exact (ends_printDirectives _ (ends_of_isPassedOver rfl _)).word
  · rintro trees ⟨start, stop, children, rfl, descriptions, _, told, described, _, directives, rfl,
      ⟨nameTree, name, rfl, named, sameName⟩, ⟨applied, applies, sameApplied⟩⟩
    refine ⟨_, .scalar (.ofLocation ⟨file, start, stop⟩ ⟨_, name, applied⟩), rfl,
      .scalar told (.mk described named applies), ?_⟩
    simp only [SchemaType.toDefinition, TypeDefinition.bare, Node.ofLocation, ScalarDefinition.bare,
      TypeDefinition.scalar.injEq, Node.bare_eq_iff, sameName, sameApplied]
    rfl

/-! ### Object and interface types -/

section ObjectLike

variable {given : ObjectLikeType}

/-- The text of the fields of a type up to the end of its last line. -/
def fieldsText (type : ObjectLikeType) : List Char :=
  if type.fields.isEmpty then ['\n']
  else (Schema.printBraced (type.fields.values.map Schema.printField)).toList

theorem isEmpty_iff_values_eq_nil {κ ν : Type} [BEq κ] (map : OrderedMap κ ν) :
    map.isEmpty = true ↔ map.values = [] := by
  simp [OrderedMap.isEmpty, OrderedMap.values]

/-- The fields, if there are any, stand in braces behind a blank. -/
theorem fieldsText_cases (type : ObjectLikeType) :
    (type.fields.values = [] ∧ fieldsText type = ['\n']) ∨
      (type.fields.values ≠ [] ∧ ∃ rest, fieldsText type = ' ' :: '\x7b' :: rest) := by
  by_cases none : type.fields.isEmpty = true
  · exact .inl ⟨(isEmpty_iff_values_eq_nil _).1 none, by rw [fieldsText, if_pos none]⟩
  · refine .inr ⟨fun empty => none ((isEmpty_iff_values_eq_nil _).2 empty), ?_⟩
    rw [fieldsText, if_neg none, Schema.printBraced, String.toList_append, String.toList_append]
    exact ⟨_, rfl⟩

theorem ends_fieldsText (type : ObjectLikeType) (more : List Char) :
    Ends (fieldsText type ++ more) := by
  rcases fieldsText_cases type with ⟨_, same⟩ | ⟨_, rest, same⟩ <;> rw [same] <;>
    exact ends_of_isPassedOver rfl _

/-- What comes behind the interfaces of a type. -/
theorem offers_afterInterfaces {allowed : TokenKind → String → Prop}
    (sign : allowed .atSign "@") (brace : allowed .leftBrace "\x7b") {more : List Char}
    (bare : given.directives = [] → given.fields.values = [] → Offers allowed ('\n' :: more)) :
    Offers allowed
      (((Schema.printDirectives given.directives).toList ++ fieldsText given) ++ more) := by
  rw [List.append_assoc, toList_printDirectives]
  cases applied : given.directives with
  | cons first rest =>
      rw [List.map_cons, intercalate_cons, toList_printDirective]
      exact (offers_of_punctuation rfl rfl sign _).passed rfl
  | nil =>
      rcases fieldsText_cases given with ⟨none, same⟩ | ⟨some, rest, same⟩
      · rw [same]
        exact bare applied none
      · rw [same]
        exact (offers_of_punctuation rfl rfl brace _).passed rfl

theorem accepts_fields
    (writable : given.toDefinition.IsWritable) :
    Accepts (fieldsText given) (fun more => Stops [.leftBrace] ('\n' :: more))
      (whenAt .leftBrace (fieldsDefinition limit))
      (Together (ReadsFields file) (List.map (Node.bare FieldDefinition.bare))
        (given.toDefinition.fields.map (Node.bare FieldDefinition.bare))) := by
  have fields : given.toDefinition.fields.map (Node.bare FieldDefinition.bare) =
      given.fields.values.map fun field =>
        (field.map Field.toDefinition).bare FieldDefinition.bare := by
    simp [ObjectLikeType.toDefinition, Function.comp_def]
  rw [fields, fieldsText]
  by_cases none : given.fields.isEmpty = true
  · rw [if_pos none, (isEmpty_iff_values_eq_nil _).1 none]
    exact (accepts_group_none (by simp) (yields_fieldDefinition file limit).steady).padded
      (.of_all rfl) fun _ follow => follow
  · rw [if_neg none]
    refine (accepts_fieldsDefinition file limit
      (fun empty => none ((isEmpty_iff_values_eq_nil _).2 empty)) fun field member => ?_).narrow
      fun _ _ => trivial
    exact writable.fields (field.map Field.toDefinition) (List.mem_map_of_mem member)

/-- The text of the interfaces of a type. -/
abbrev interfacesText (type : ObjectLikeType) : List Char :=
  (Schema.printNames " implements " " & " type.interfaces.keys).toList

theorem interfacesText_cases (type : ObjectLikeType) :
    (type.interfaces.keys = [] ∧ interfacesText type = []) ∨
      (type.interfaces.keys ≠ [] ∧
        ∃ rest, interfacesText type = ' ' :: ("implements".toList ++ ' ' :: rest)) := by
  unfold interfacesText
  cases type.interfaces.keys with
  | nil => exact .inl ⟨rfl, rfl⟩
  | cons first rest =>
      rw [toList_printNames]
      exact .inr ⟨List.cons_ne_nil _ _, _, rfl⟩

/-- Trees stand for interfaces, places aside. -/
abbrev InterfacesAgain (type : ObjectLikeType) : List Tree → Prop :=
  Together (ReadsGroup .implementsInterfaces (ReadsNamedType file)) (List.map Name.bare)
    (type.interfaces.keys.map Name.bare)

/-- Where there are interfaces the word in front of them is at hand. -/
theorem hasToken_implements (some : given.interfaces.keys ≠ []) {state : State} {more : List Char}
    (stands : state.StandsBefore (interfacesText given ++ more)) :
    state.HasToken .name "implements" := by
  rcases interfacesText_cases given with ⟨none, _⟩ | ⟨_, rest, same⟩
  · exact absurd none some
  · rw [same, List.cons_append, List.append_assoc] at stands
    have spells : Spells "implements" .name EndsWord :=
      (isWord_of_isValid (by decide)).spells rfl
    exact (stands.passed rfl).hasToken (spells.shows (ends_of_isPassedOver rfl _).word)

/-- The interfaces of a type, however it is found out whether there are any. -/
theorem accepts_listing {listing : Production} {allowed : TokenKind → String → Prop}
    (words : ∀ name ∈ given.interfaces.keys, IsWord .name name.text)
    (none : Accepts [] (Offers allowed) listing Nothing)
    (some : ∀ state : State, state.HasToken .name "implements" →
      listing state = implementsInterfaces state) :
    Accepts (interfacesText given)
      (fun more => Stops [.ampersand] more ∧ (given.interfaces.keys = [] → Offers allowed more))
      listing (InterfacesAgain file given) := by
  by_cases empty : given.interfaces.keys = []
  · rw [interfacesText, InterfacesAgain, empty]
    refine (none.narrow fun _ follow => follow.2 rfl).mono ?_
    rintro trees rfl
    exact ⟨[], .absent, rfl⟩
  · exact ((accepts_interfaces file empty words).narrow fun _ follow => follow.1).congr
      none.toIsSteady fun state more _ stands => some state (hasToken_implements empty stands)

/-- What may follow an object or interface type: nothing that could still be one of its parts. -/
def EndsObjectLike (allowed : TokenKind → String → Prop) (type : ObjectLikeType)
    (more : List Char) : Prop :=
  EndsDefinition more ∧ (type.IsBare → Offers allowed ('\n' :: more))

/-- The parts of an object or interface type behind its name. -/
theorem accepts_objectLikeParts {listing : Production} {allowed : TokenKind → String → Prop}
    (sign : allowed .atSign "@") (brace : allowed .leftBrace "\x7b")
    (none : Accepts [] (Offers allowed) listing Nothing)
    (some : ∀ state : State, state.HasToken .name "implements" →
      listing state = implementsInterfaces state)
    (writable : given.toDefinition.IsWritable) :
    Accepts (interfacesText given ++
        ((Schema.printDirectives given.directives).toList ++ fieldsText given))
      (EndsObjectLike allowed given)
      (sequence [listing, directives true limit, whenAt .leftBrace (fieldsDefinition limit)])
      (Then (InterfacesAgain file given)
        (Then (Together (ReadsDirectives file) Directives.bare (Directives.bare given.directives))
          (Together (ReadsFields file) (List.map (Node.bare FieldDefinition.bare))
            (given.toDefinition.fields.map (Node.bare FieldDefinition.bare))))) := by
  have fields : Accepts (fieldsText given) EndsDefinition
      (whenAt .leftBrace (fieldsDefinition limit)) _ :=
    (accepts_fields file limit writable).narrow fun _ follow =>
      stops_of_endsDefinition (by decide) (by decide) (by decide) follow
  have applied := (accepts_directives file limit writable.directives).andThen fields
    fun more follow => by
      rcases fieldsText_cases given with ⟨_, same⟩ | ⟨_, rest, same⟩ <;> rw [same]
      · exact stops_of_endsDefinition (by decide) (by decide) (by decide) follow
      · exact stops_of_isPassedOver rfl (offers_of_punctuation rfl rfl (by decide) _)
  refine (accepts_listing file writable.interfaces none some).andThen
    (applied.narrow fun _ follow => follow.1) fun more follow => ⟨⟨?_, ?_⟩, fun empty =>
      offers_afterInterfaces sign brace fun free bare => follow.2 ⟨empty, free, bare⟩⟩
  · rw [List.append_assoc]
    exact ends_printDirectives _ (ends_fieldsText given more)
  · refine offers_afterInterfaces (by decide) (by decide) fun _ _ => ?_
    exact (stops_of_endsDefinition (by decide) (by decide) (by decide) follow.1).offers

theorem toList_printObjectLike (keyword : String) (type : ObjectLikeType) :
    (Schema.printObjectLike keyword type).toList = keyword.toList ++ ' ' ::
      (type.name.text.toList ++ (interfacesText type ++
        ((Schema.printDirectives type.directives).toList ++ fieldsText type))) := by
  rw [Schema.printObjectLike, fieldsText]
  split <;> simp

/-- The parts of an object or interface type do not go on with the name. -/
theorem endsWord_objectLikeParts (type : ObjectLikeType) (more : List Char) :
    EndsWord ((interfacesText type ++
      ((Schema.printDirectives type.directives).toList ++ fieldsText type)) ++ more) := by
  rw [List.append_assoc, List.append_assoc]
  rcases interfacesText_cases type with ⟨_, same⟩ | ⟨_, rest, same⟩ <;> rw [same]
  · exact (ends_printDirectives _ (ends_fieldsText type more)).word
  · exact (ends_of_isPassedOver rfl _).word

/-- An object or interface type, however its name and its interfaces are found. -/
theorem accepts_objectLike {kind : TreeKind} {word : String} (valid : Name.IsValid word)
    {naming listing : Production} {allowed : TokenKind → String → Prop}
    (named : Accepts given.name.text.toList EndsWord naming
      (Again (ReadsName file) Name.bare given.name.bare))
    (sign : allowed .atSign "@") (brace : allowed .leftBrace "\x7b")
    (none : Accepts [] (Offers allowed) listing Nothing)
    (some : ∀ state : State, state.HasToken .name "implements" →
      listing state = implementsInterfaces state)
    (writable : given.toDefinition.IsWritable) :
    Accepts (Schema.printDescription "" given.description ++
        Schema.printObjectLike word given).toList (EndsObjectLike allowed given)
      (branch kind (sequence [description, keyword word, naming, listing, directives true limit,
        whenAt .leftBrace (fieldsDefinition limit)]))
      (Branched kind (Together (ReadsObjectLike file) ObjectLikeDefinition.bare
        given.toDefinition.bare)) := by
  have text : (Schema.printDescription "" given.description ++
      Schema.printObjectLike word given).toList =
        describedBy (Schema.descriptionLiteral "") [] ['\n'] given.description ++
          ([] ++ (Schema.printObjectLike word given).toList) := by
    rw [String.toList_append, toList_printDescription]
    simp
  rw [text, toList_printObjectLike]
  refine (accepts_definition file valid named
    (accepts_objectLikeParts file limit sign brace none some writable)
    (fun more _ => endsWord_objectLikeParts given more) given.description).mono ?_
  rintro trees ⟨start, stop, children, rfl, descriptions, _, told, described, _, _, rfl,
    ⟨nameTree, name, rfl, named, sameName⟩, implements, _, rfl, ⟨interfaces, lists, sameInterfaces⟩,
    directives, members, rfl, ⟨applied, applies, sameApplied⟩, ⟨fields, defines, sameFields⟩⟩
  refine ⟨start, stop, children, rfl, ⟨_, name, interfaces, applied, fields⟩,
    by rw [told]; exact .mk described named lists applies defines, ?_⟩
  simp only [ObjectLikeDefinition.bare, sameName, sameInterfaces, sameApplied, sameFields]
  rfl

end ObjectLike

theorem accepts_objectDefinition {given : Node ObjectLikeType}
    (writable : given.value.toDefinition.IsWritable) :
    Accepts (Schema.printType (.object given)).toList
      (EndsObjectLike (fun kind _ => kind ≠ .name) given.value) (objectDefinition limit)
      (TypeAgain file (.object given)) := by
  have listing : IsSteady (choose isAtImplements implementsInterfaces (report .unexpectedName)) :=
    (IsSteady.take.andThen (steady_listedType _).separated).branch.choose (.report _)
  have none : Accepts [] (Offers fun kind _ => kind ≠ .name)
      (whenAt .name (choose isAtImplements implementsInterfaces (report .unexpectedName)))
      Nothing :=
    whenever_no (meeting_of_offers (fun _ offers => offers) fun state kind text has other => by
      rw [has.isAt_eq, beq_eq_false_iff_ne]
      exact other) listing
  have naming : Accepts given.value.name.text.toList EndsWord (nameOr .objectNameExpected) _ :=
    choose_yes (meeting_of_spells (writable.name.spells rfl)) (.report _)
      (accepts_name file writable.name)
  refine (accepts_objectLike file limit (by decide) naming (by simp) (by simp) none
    (fun state has => ?_) writable).mono ?_
  · simp [whenAt, whenever, choose, isAtImplements, has.isAt_eq, has.isAtText_eq]
  · rintro trees ⟨start, stop, children, rfl, definition, reads, same⟩
    exact ⟨_, _, rfl, .object rfl reads, congrArg TypeDefinition.object (Node.bare_eq_iff.2 same)⟩

theorem accepts_interfaceDefinition {given : Node ObjectLikeType}
    (writable : given.value.toDefinition.IsWritable) :
    Accepts (Schema.printType (.interface given)).toList EndsDefinition (interfaceDefinition limit)
      (TypeAgain file (.interface given)) := by
  have none : Accepts [] (Offers fun _ text => text ≠ "implements")
      (whenever isAtImplements implementsInterfaces) Nothing :=
    whenever_no (meeting_of_offers (fun _ offers => offers) fun state kind text has other => by
      rw [isAtImplements, has.isAtText_eq, beq_eq_false_iff_ne]
      exact other) (IsSteady.take.andThen (steady_listedType _).separated).branch
  refine ((accepts_objectLike file limit (by decide) (accepts_name file writable.name) (by simp)
    (by simp) none (fun state has => ?_) writable).narrow
    fun more follow => ⟨follow, fun _ => ?_⟩).mono ?_
  · simp [whenever, choose, isAtImplements, has.isAtText_eq]
  · exact (follow.mono fun _ _ here => here.2).passed rfl
  · rintro trees ⟨start, stop, children, rfl, definition, reads, same⟩
    exact ⟨_, _, rfl, .interface rfl reads,
      congrArg TypeDefinition.interface (Node.bare_eq_iff.2 same)⟩

/-! ### Unions, enums and input objects -/

/-- A definition that has directive applications and one more part behind its name. -/
theorem accepts_applied {kind : TreeKind} {word : String} (valid : Name.IsValid word)
    {given : Name} (named : IsWord .name given.text) {applied : Directives}
    (writable : Directives.AreWritable applied) {description : Option String} {body : String}
    {part : Production} {holds : List Tree → Prop}
    (accepts : Accepts body.toList EndsDefinition part holds)
    (apart : ∀ more, EndsDefinition more → EndsDirectives (body.toList ++ more)) :
    Accepts (Schema.printDescription "" description ++ (word ++ " " ++ given.text ++
        Schema.printDirectives applied ++ body)).toList EndsDefinition
      (branch kind
        (sequence [Grammar.description, keyword word, name, directives true limit, part]))
      (Branched kind (Then (fun trees =>
          ReadsDescription trees (readBack (Schema.descriptionLiteral "") description))
        (Then (Again (ReadsName file) Name.bare given.bare)
          (Then (Together (ReadsDirectives file) Directives.bare (Directives.bare applied))
            holds)))) := by
  have text : (Schema.printDescription "" description ++ (word ++ " " ++ given.text ++
      Schema.printDirectives applied ++ body)).toList =
        describedBy (Schema.descriptionLiteral "") [] ['\n'] description ++
          ([] ++ (word.toList ++ ' ' :: (given.text.toList ++
            ((Schema.printDirectives applied).toList ++ body.toList)))) := by
    rw [String.toList_append, toList_printDescription]
    simp
  have parts := (accepts_directives file limit writable).andThen accepts apart
  rw [text]
  refine accepts_definition file valid (accepts_name file named) parts (fun more follow => ?_)
    description
  rw [List.append_assoc]
  exact (ends_printDirectives _ (apart more follow).toEnds).word

theorem accepts_unionDefinition {given : Node UnionType}
    (writable : given.value.toDefinition.IsWritable) :
    Accepts (Schema.printType (.union given)).toList EndsDefinition (unionDefinition limit)
      (TypeAgain file (.union given)) := by
  have text : Schema.printType (.union given) =
      Schema.printDescription "" given.value.description ++
        ("union" ++ " " ++ given.value.name.text ++
          Schema.printDirectives given.value.directives ++
          (Schema.printNames " = " " | " given.value.members.keys ++ "\n")) := by
    simp [Schema.printType, Schema.printTypeBody, SchemaType.description, String.append_assoc]
  have members : Accepts (Schema.printNames " = " " | " given.value.members.keys ++ "\n").toList
      EndsDefinition (whenAt .equalsSign unionMembers)
      (Together (ReadsGroup .unionMembers (ReadsNamedType file)) (List.map Name.bare)
        (given.value.members.keys.map Name.bare)) := by
    rw [String.toList_append]
    exact (accepts_unionMembers file writable.members).padded (.of_all rfl) fun _ follow =>
      stops_of_endsDefinition (by decide) (by decide) (by decide) follow
  rw [text]
  refine (accepts_applied file limit (by decide) writable.name writable.directives members
    fun more follow => ?_).mono ?_
  · rw [String.toList_append, List.append_assoc]
    cases given.value.members.keys with
    | nil => exact stops_of_endsDefinition (by decide) (by decide) (by decide) follow
    | cons first rest =>
        rw [toList_printNames]
        exact stops_of_isPassedOver rfl (offers_of_punctuation rfl rfl (by decide) _)
  · rintro trees ⟨start, stop, children, rfl, descriptions, _, told, described, _, _, rfl,
      ⟨nameTree, name, rfl, named, sameName⟩, directives, listed, rfl,
      ⟨applied, applies, sameApplied⟩, ⟨members, lists, sameMembers⟩⟩
    refine ⟨_, .union (.ofLocation ⟨file, start, stop⟩ ⟨_, name, applied, members⟩), rfl,
      .union told (.mk described named applies lists), ?_⟩
    simp only [SchemaType.toDefinition, TypeDefinition.bare, Node.ofLocation, UnionDefinition.bare,
      TypeDefinition.union.injEq, Node.bare_eq_iff, sameName, sameApplied, sameMembers]
    rfl

/-- Directive applications may stand in front of braces. -/
theorem endsDirectives_printBraced (members : List String) (more : List Char) :
    EndsDirectives ((Schema.printBraced members).toList ++ more) := by
  rw [Schema.printBraced, String.toList_append, String.toList_append, List.append_assoc,
    List.append_assoc]
  exact stops_of_isPassedOver rfl (offers_of_punctuation rfl rfl (by decide) _)

theorem accepts_enumDefinition {given : Node EnumType} (some : given.value.values.values ≠ [])
    (writable : given.value.toDefinition.IsWritable) :
    Accepts (Schema.printType (.enum given)).toList EndsDefinition (enumDefinition limit)
      (TypeAgain file (.enum given)) := by
  have text : Schema.printType (.enum given) = Schema.printDescription "" given.value.description ++
      ("enum" ++ " " ++ given.value.name.text ++ Schema.printDirectives given.value.directives ++
        Schema.printBraced (given.value.values.values.map Schema.printEnumValue)) := by
    simp [Schema.printType, Schema.printTypeBody, SchemaType.description, String.append_assoc]
  have values : Accepts _ EndsDefinition (whenAt .leftBrace (enumValuesDefinition limit)) _ :=
    (accepts_enumValuesDefinition file limit some fun value member =>
      writable.values (value.map EnumValue.toDefinition) (List.mem_map_of_mem member)).narrow
      fun _ _ => trivial
  rw [text]
  refine (accepts_applied file limit (by decide) writable.name writable.directives values
    fun more _ => endsDirectives_printBraced _ more).mono ?_
  rintro trees ⟨start, stop, children, rfl, descriptions, _, told, described, _, _, rfl,
    ⟨nameTree, name, rfl, named, sameName⟩, directives, members, rfl,
    ⟨applied, applies, sameApplied⟩, ⟨values, defines, sameValues⟩⟩
  refine ⟨_, .enum (.ofLocation ⟨file, start, stop⟩ ⟨_, name, applied, values⟩), rfl,
    .enum told (.mk described named applies defines), ?_⟩
  simp only [SchemaType.toDefinition, TypeDefinition.bare, Node.ofLocation, EnumDefinition.bare,
    TypeDefinition.enum.injEq, Node.bare_eq_iff, sameName, sameApplied, sameValues]
  simp [Node.map, Node.rebuild, EnumType.toDefinition, Function.comp_def]

theorem accepts_inputObjectDefinition {given : Node InputObjectType}
    (some : given.value.fields.values ≠ [])
    (writable : given.value.toDefinition.IsWritable) :
    Accepts (Schema.printType (.inputObject given)).toList EndsDefinition
      (inputObjectDefinition limit) (TypeAgain file (.inputObject given)) := by
  have text : Schema.printType (.inputObject given) =
      Schema.printDescription "" given.value.description ++ ("input" ++ " " ++
        given.value.name.text ++ Schema.printDirectives given.value.directives ++
          Schema.printBraced (given.value.fields.values.map Schema.printInputField)) := by
    simp [Schema.printType, Schema.printTypeBody, SchemaType.description, String.append_assoc]
  have fields : Accepts _ EndsDefinition (whenAt .leftBrace (inputFieldsDefinition limit)) _ :=
    (accepts_inputFieldsDefinition file limit some fun field member =>
      (writable.fields _ (List.mem_map_of_mem member)).of_readBack).narrow fun _ _ => trivial
  rw [text]
  refine (accepts_applied file limit (by decide) writable.name writable.directives fields
    fun more _ => endsDirectives_printBraced _ more).mono ?_
  rintro trees ⟨start, stop, children, rfl, descriptions, _, told, described, _, _, rfl,
    ⟨nameTree, name, rfl, named, sameName⟩, directives, members, rfl,
    ⟨applied, applies, sameApplied⟩, ⟨fields, defines, sameFields⟩⟩
  refine ⟨_, .inputObject (.ofLocation ⟨file, start, stop⟩ ⟨_, name, applied, fields⟩), rfl,
    .inputObject told (.mk described named applies defines), ?_⟩
  simp only [SchemaType.toDefinition, TypeDefinition.bare, Node.ofLocation,
    InputObjectDefinition.bare, TypeDefinition.inputObject.injEq, Node.bare_eq_iff, sameName,
    sameApplied, sameFields]
  simp [Node.map, Node.rebuild, InputObjectType.toDefinition, Function.comp_def]

/-! ## Directives -/

theorem ofText?_print (place : DirectiveLocation) :
    DirectiveLocation.ofText? place.print = some place := by
  cases place <;> rfl

theorem isWord_print (place : DirectiveLocation) : IsWord .name place.print := by
  refine isWord_of_isValid ?_
  cases place <;> decide

theorem accepts_directiveLocation (given : DirectiveLocation) :
    Accepts given.print.toList EndsWord directiveLocation
      (Again ReadsDirectiveLocation id given) := by
  have spells := (isWord_print given).spells rfl
  have offers : ∀ more, EndsWord more →
      Offers (fun _ text => text = given.print) (given.print.toList ++ more) :=
    fun more follow => offers_of_spells spells follow rfl
  have known : Meeting isAtDirectiveLocation true given.print.toList EndsWord := by
    refine meeting_of_offers offers ?_
    rintro state kind text has rfl
    obtain ⟨start, current⟩ := has.current
    simp [isAtDirectiveLocation, current, ofText?_print]
  refine choose_yes (meeting_of_spells spells) (.report _) (choose_yes known (.report _)
    ((branch_take spells .directiveLocation).mono ?_))
  rintro trees ⟨start, stop, place, rfl⟩
  exact ⟨_, given, rfl, .mk (ofText?_print given), rfl⟩

/-- The text of the places where a directive may be applied, up to the end of its line. -/
def placesText (places : List DirectiveLocation) : List Char :=
  [' ', '|', ' '].intercalate (places.map (·.print.toList)) ++ ['\n']

theorem accepts_directiveLocations {given : List DirectiveLocation} (some : given ≠ []) :
    Accepts (placesText given) EndsDefinition
      (choose (isAtEither .name .verticalBar)
        (branch .directiveLocations (separated .verticalBar directiveLocation))
        (report .validDirectiveLocationExpected))
      fun trees => ReadsGroup .directiveLocations ReadsDirectiveLocation trees given := by
  cases given with
  | nil => exact absurd rfl some
  | cons first rest =>
      have steady : IsSteady directiveLocation :=
        (IsSteady.take.branch.choose (.report _)).choose (.report _)
      have begins : ∀ more, EndsWord more →
          Offers (fun kind _ => kind = .name) (first.print.toList ++ more) := fun more ends =>
        offers_of_spells ((isWord_print first).spells rfl) ends rfl
      have each : ∀ place ∈ first :: rest, Accepts place.print.toList EndsWord
          directiveLocation (Again ReadsDirectiveLocation id place) :=
        fun place _ => accepts_directiveLocation place
      have last : Meeting (isAt .verticalBar) false [] (Stops [.verticalBar]) :=
        meeting_isAt_of_stops (by simp)
      have listed := of_separated rfl rfl steady (c := '|') each
        (fun more ends => (begins more ends).mono fun _ _ here => here ▸ by decide)
        last (fun _ => (ends_of_isPassedOver rfl _).word) fun more stops => stops.word
      have placed : Accepts _ EndsDefinition
          (branch .directiveLocations (separated .verticalBar directiveLocation)) _ :=
        (of_branch listed).padded (.of_all rfl : IsGap ['\n'])
          fun more follow => stops_of_endsDefinition (by decide) (by decide) (by decide) follow
      have text : placesText (first :: rest) = first.print.toList ++
          rest.flatMap (fun place => markedText '|' place.print.toList) ++ ['\n'] := by
        rw [placesText, List.map_cons, intercalate_cons, List.flatMap_map]
        rfl
      have offers : ∀ more, EndsDefinition more →
          Offers (fun kind _ => kind = .name) (placesText (first :: rest) ++ more) := by
        intro more _
        rw [text, List.append_assoc, List.append_assoc]
        refine begins _ ?_
        cases rest <;> exact (ends_of_isPassedOver rfl _).word
      have starts : Meeting (isAtEither .name .verticalBar) true (placesText (first :: rest))
          EndsDefinition :=
        meeting_of_offers offers fun state kind _ has here => by
          rw [has.isAtEither_eq, here]
          rfl
      rw [text] at starts ⊢
      refine (choose_yes starts (.report _) placed).mono ?_
      · rintro trees ⟨start, stop, children, rfl, each⟩
        have empty : ReadsAll ReadsDirectiveLocation [] [] := .nil
        obtain ⟨again, all, same⟩ := each.exists_reads empty fun _ _ _ _ => .cons
        rw [List.map_id, List.map_id'] at same
        exact .present (same ▸ all)

/-- The text of the word that makes a directive repeatable. -/
def repeatableText (repeatable : Bool) : List Char :=
  if repeatable then ' ' :: "repeatable".toList else []

/-- The text of a directive behind its arguments. -/
def usageText (directive : DirectiveDefinition) : List Char :=
  repeatableText directive.repeatable ++
    ' ' :: ("on".toList ++ ' ' :: placesText directive.locations)

/-- Behind the arguments of a directive comes a word. -/
theorem stops_usageText {kinds : List TokenKind} (other : .name ∉ kinds)
    (directive : DirectiveDefinition) (more : List Char) :
    Stops kinds (usageText directive ++ more) := by
  have word : ∀ (text : String) (rest : List Char), Name.IsValid text →
      Stops kinds (' ' :: (text.toList ++ ' ' :: rest)) := fun _ rest valid =>
    stops_of_isPassedOver rfl (offers_of_spells ((isWord_of_isValid valid).spells rfl)
      (ends_of_isPassedOver rfl _).word other)
  rw [usageText, repeatableText]
  cases directive.repeatable with
  | true =>
      rw [if_pos rfl, List.append_assoc]
      exact word "repeatable" _ (by decide)
  | false => exact word "on" _ (by decide)

theorem toList_printDirectiveDefinition (given : Node DirectiveDefinition) :
    (Schema.printDirectiveDefinition given).toList =
      describedBy (Schema.descriptionLiteral "") [] ['\n'] given.value.description ++
        ([] ++ ("directive".toList ++ ' ' :: (('@' :: given.value.name.text.toList) ++
          ((Schema.printArgumentDefinitions given.value.arguments).toList ++
            usageText given.value)))) := by
  rw [Schema.printDirectiveDefinition, usageText, repeatableText, placesText]
  cases given.value.repeatable <;> simp [toList_printDescription, Function.comp_def]

theorem accepts_repeatable (repeatable : Bool) :
    Accepts (repeatableText repeatable)
      (fun more => EndsWord more ∧ Offers (fun _ text => text ≠ "repeatable") more)
      (whenever (isAtText "repeatable") (bump .repeatable))
      fun trees => ReadsRepeatable trees repeatable := by
  have spells : Spells "repeatable" .name EndsWord := (isWord_of_isValid (by decide)).spells rfl
  cases repeatable with
  | true =>
      have here : Meeting (isAtText "repeatable") true "repeatable".toList EndsWord :=
        meeting_isAtText_of_offers fun _ ends => offers_of_spells spells ends rfl
      refine (((whenever_yes here (of_bump spells .repeatable)).passed rfl).narrow
        fun _ follow => follow.1).mono ?_
      rintro trees ⟨place, rfl⟩
      exact .present
  | false =>
      refine ((whenever_no (meeting_of_offers (fun _ offers => offers)
        fun state kind text has other => ?_) (.bump _)).narrow fun _ follow => follow.2).mono ?_
      · rw [has.isAtText_eq, beq_eq_false_iff_ne]
        exact other
      · rintro trees rfl
        exact .absent

/-- **A printed directive is read as what it is.** -/
theorem accepts_directiveDefinition {given : Node DirectiveDefinition}
    (writable : given.value.IsWritable) :
    Accepts (Schema.printDirectiveDefinition given).toList EndsDefinition
      (directiveDefinition limit)
      (Again (ReadsDefinition file) Definition.bare
        (.directive ((given.map .asPrinted).bare DirectiveDefinition.bare))) := by
  have on : Spells "on" .name EndsWord := (isWord_of_isValid (by decide)).spells rfl
  have gap : ∀ more, Ends (' ' :: more) := ends_of_isPassedOver rfl
  have sign : Accepts ('@' :: given.value.name.text.toList) EndsWord
      (fun state => name (choose (isAt .atSign) take (report .atSignExpected) state)) _ :=
    (choose_yes (meeting_mark rfl rfl _ _) (.report _) (of_mark rfl rfl)).silently
      (accepts_name file writable.name) fun _ _ => trivial
  have onPlaces := (choose_yes
      (meeting_isAtText_of_offers fun _ ends => offers_of_spells on ends rfl)
      (IsSteady.report .directiveLocationsExpected) (of_take on)).silently
    ((accepts_directiveLocations writable.locations).passed rfl) fun _ _ => (gap _).word
  have usage := (accepts_repeatable given.value.repeatable).andThen
    (onPlaces.passed (c := ' ') rfl) fun more _ => ⟨(gap _).word, by
      rw [List.cons_append, List.append_assoc]
      exact (offers_of_spells on (gap _).word (by decide)).passed rfl⟩
  have behind := (accepts_argumentsDefinition file limit writable.arguments).andThen usage
    fun more _ => stops_usageText (by decide) given.value more
  rw [toList_printDirectiveDefinition]
  refine (accepts_definition file (by decide) sign behind (fun more _ => ?_)
    given.value.description).mono ?_
  · rw [List.append_assoc]
    have behind : Stops [] (usageText given.value ++ more) :=
      stops_usageText (by simp) given.value more
    exact (stops_printArgumentDefinitions (by simp) _ behind).word
  · rintro trees ⟨start, stop, children, rfl, descriptions, _, told, described, _, _, rfl,
      ⟨nameTree, name, rfl, named, sameName⟩, arguments, _, rfl, ⟨inputs, takes, sameInputs⟩,
      words, places, rfl, repeats, lists⟩
    refine ⟨_, .directive (.ofLocation ⟨file, start, stop⟩ ⟨_, name, inputs, _, _⟩), rfl,
      .directive told (.mk described named takes repeats lists writable.locations), ?_⟩
    simp only [Definition.bare, Node.ofLocation, Definition.directive.injEq, Node.bare_eq_iff,
      DirectiveDefinition.bare, sameName, sameInputs]
    rfl

/-! ## Root operations -/

/-- The text of a root operation on a line of its own. -/
def rootText (root : OperationType × Name) : List Char :=
  ' ' :: ' ' :: (root.1.keyword.toList ++ ':' :: ' ' :: (root.2.text.toList ++ ['\n']))

theorem isWord_keyword (operation : OperationType) : IsWord .name operation.keyword := by
  refine isWord_of_isValid ?_
  cases operation <;> decide

theorem accepts_operationType (operation : OperationType) :
    Accepts operation.keyword.toList EndsWord operationType Anything := by
  have spells := (isWord_keyword operation).spells rfl
  have offers : ∀ more, EndsWord more →
      Offers (fun _ text => text = operation.keyword) (operation.keyword.toList ++ more) :=
    fun more follow => offers_of_spells spells follow rfl
  have present : Meeting (fun state => state.current.isSome) true operation.keyword.toList
      EndsWord := meeting_of_offers offers fun state kind text has _ => has.isSome_current
  have known : Meeting (fun state => state.isAtText "query" || state.isAtText "subscription" ||
      state.isAtText "mutation") true operation.keyword.toList EndsWord := by
    refine meeting_of_offers offers ?_
    rintro state kind text has rfl
    rw [has.isAtText_eq, has.isAtText_eq, has.isAtText_eq]
    cases operation <;> rfl
  exact (whenever_yes present (of_branch (choose_yes known (.reject _) (of_take spells)))).mono
    fun _ _ => trivial

theorem accepts_rootOperation {root : OperationType × Name} (word : IsWord .name root.2.text) :
    Accepts (rootText root) (fun _ => True) rootOperation Anything := by
  have named := accepts_colon (IsSteady.report .rootOperationTypeExpected)
    (accepts_namedType .builtIn word)
  have operation : Accepts (root.1.keyword.toList ++ ':' :: ' ' :: root.2.text.toList) EndsWord
      rootOperation _ :=
    of_branch ((accepts_operationType root.1).andThen named fun _ _ =>
      (ends_of_punctuation rfl _).word)
  have line : rootText root = ' ' :: ' ' ::
      ((root.1.keyword.toList ++ ':' :: ' ' :: root.2.text.toList) ++ ['\n']) := by
    simp [rootText]
  rw [line]
  exact (((operation.padded (.of_all rfl) fun more _ =>
    (ends_of_isPassedOver rfl more).word).passed rfl).passed rfl).mono fun _ _ => trivial

theorem offers_rootText (root : OperationType × Name) (more : List Char) :
    Offers (fun kind _ => kind = .name) (rootText root ++ more) := by
  have offers : Offers (fun kind _ => kind = .name) (root.1.keyword.toList ++
      ':' :: (' ' :: (root.2.text.toList ++ '\n' :: more))) :=
    offers_of_spells ((isWord_keyword root.1).spells rfl) (ends_of_punctuation rfl _).word rfl
  have line : rootText root ++ more = ' ' :: ' ' :: (root.1.keyword.toList ++
      ':' :: (' ' :: (root.2.text.toList ++ '\n' :: more))) := by
    simp [rootText]
  rw [line]
  exact (offers.passed rfl).passed rfl

/-- The text of root operations in braces. -/
def rootsText (roots : RootOperations) : List Char :=
  ' ' :: ('\x7b' :: ('\n' :: ([].intercalate (roots.toList.map rootText) ++ ['\x7d']))) ++ ['\n']

theorem toList_printRoots (roots : RootOperations) : (Schema.printRoots roots).toList =
    describedBy (Schema.descriptionLiteral "") [] ['\n'] none ++
      ([] ++ ("schema".toList ++ rootsText roots)) := by
  simp [Schema.printRoots, Schema.printBraced, describedBy, rootsText, intercalate_nil,
    List.flatMap_def, Function.comp_def]
  rfl

theorem accepts_rootOperations {roots : RootOperations} (some : roots.toList ≠ [])
    (words : ∀ root ∈ roots.toList, IsWord .name root.2.text) :
    Accepts (rootsText roots) (fun _ => True)
      (whenAt .leftBrace (sequence [
        take, several (isAt .name) rootOperation .rootOperationExpected, close .brace]))
      Anything := by
  have series : IsSeries (isAt .name) rootOperation [] rootText (fun _ _ => True)
      (fun _ => Anything) roots.toList (Begins '\x7d') :=
    .upTo rfl rfl (.of_all rfl) yields_rootOperation.steady
      (fun root member => accepts_rootOperation (words root member))
      (fun root _ more _ => offers_rootText root more) (by simp)
      (fun state kind text has same => by rw [has.isAt_eq, same, beq_self_eq_true])
      (fun state text has => has.isAt_eq .name) trivial (fun _ _ _ => trivial) fun _ => trivial
  have listed := ((of_several .rootOperationExpected some series).andThen (of_close .brace rfl)
    fun more _ => ⟨more, rfl⟩).passed (c := '\n') rfl
  have braces := whenever_yes (meeting_mark (c := '\x7b') rfl rfl _ _)
    ((of_mark rfl rfl).silently listed fun _ _ => trivial)
  exact ((braces.passed rfl).padded (.of_all rfl) fun _ _ => trivial).mono fun _ _ => trivial

/-- **Printed root operations are read without a problem.** -/
theorem accepts_schemaDefinition {roots : RootOperations} (some : roots.toList ≠ [])
    (words : ∀ root ∈ roots.toList, IsWord .name root.2.text) :
    Accepts (Schema.printRoots roots).toList EndsDefinition (schemaDefinition limit)
      (Again (ReadsDefinition file) Definition.bare
        (.unrelated ⟨.built 0 (.type ""), none, .schema⟩)) := by
  have unapplied : Accepts [] EndsDirectives (directives true limit) Anything := by
    have none : Directives.AreWritable [] := List.forall_mem_nil _
    exact (accepts_directives file limit none).mono fun _ _ => trivial
  have parts : Accepts (rootsText roots) EndsDefinition _ _ :=
    (unapplied.andThen (accepts_rootOperations some words) fun _ _ =>
      stops_of_isPassedOver rfl (offers_of_punctuation rfl rfl (by decide) _)).narrow
        fun _ _ => trivial
  have gap : ∀ more, EndsWord (rootsText roots ++ more) := fun more =>
    (ends_of_isPassedOver (c := ' ') rfl _).word
  have word : Accepts "schema".toList EndsWord (keyword "schema") Nothing :=
    accepts_keyword (by decide)
  rw [toList_printRoots]
  refine (of_branch (accepts_described writesStrings_definition (.of_all rfl) (.of_all rfl)
    (by simp) (.of_all rfl) none (word.silently parts fun more _ => gap more)
    fun more _ => ?_)).mono ?_
  · rw [List.append_assoc]
    exact offers_of_spells ((isWord_of_isValid (by decide)).spells rfl) (gap more) rfl
  · rintro trees ⟨start, stop, children, rfl, _⟩
    exact ⟨_, _, rfl, .schema, rfl⟩

end Grammar

end SchemaGraft
