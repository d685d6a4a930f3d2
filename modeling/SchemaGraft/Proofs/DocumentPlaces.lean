import SchemaGraft.Document.Parse

/-!
# Where the parts of a document lie

Every node and every name of a definition can say where it was read. `Definition.places` lists what
they say, down to the items of list values.

All that is read off the syntax tree of a file lies in that file, and each part begins where some
tree begins (`Tree.isPlaced_of_mem_definitions`). So whoever reports a definition, one of its
members, the type that one refers to or a name in a list can show its place, and never has to fall
back on the place of what it is a part of (`Document.definitions_lieIn`).
-/

set_option autoImplicit false

namespace SchemaGraft

/-! ## Places of definitions -/

/-- The place of a node and those of what is in it. -/
def Node.places {α : Type} (inside : α → List (Option Location)) (node : Node α) :
    List (Option Location) :=
  node.location :: inside node.value

/-- The place of the name that a reference leads to. -/
def TypeReference.places (reference : TypeReference) : List (Option Location) :=
  [reference.innerName.location]

namespace Value

mutual

/-- The places of what is in a value. -/
def places : Value → List (Option Location)
  | null | string _ | float _ | int _ | boolean _ => []
  | enumValue name => [name.location]
  | variableReference name => [name.location]
  | list items => placesOfItems items
  | object fields => placesOfFields fields

/-- The places of the items of a list. -/
def placesOfItems : List (Node Value) → List (Option Location)
  | [] => []
  | ⟨_, location, item⟩ :: rest => location :: (places item ++ placesOfItems rest)

/-- The places of the fields of an object. -/
def placesOfFields : List (Name × Node Value) → List (Option Location)
  | [] => []
  | (name, ⟨_, location, value⟩) :: rest =>
    name.location :: location :: (places value ++ placesOfFields rest)

end

end Value

/-- The places of what is in an argument. -/
def Argument.places (argument : Argument) : List (Option Location) :=
  argument.name.location :: argument.value.places Value.places

/-- The places of what is in the application of a directive. -/
def Directive.places (directive : Directive) : List (Option Location) :=
  directive.name.location :: directive.arguments.flatMap (Node.places Argument.places)

/-- The places of the applications of directives. -/
def Directives.places (directives : Directives) : List (Option Location) :=
  directives.flatMap (Node.places Directive.places)

/-- The places of what is in the definition of an argument or input field. -/
def InputValueDefinition.places (definition : InputValueDefinition) : List (Option Location) :=
  definition.name.location :: (definition.type.places TypeReference.places ++
    definition.default.elim [] (Node.places Value.places) ++
    Directives.places definition.directives)

/-- The places of what is in the definition of a field. -/
def FieldDefinition.places (definition : FieldDefinition) : List (Option Location) :=
  definition.name.location :: (definition.type.places TypeReference.places ++
    definition.arguments.flatMap (Node.places InputValueDefinition.places) ++
    Directives.places definition.directives)

/-- The places of what is in the definition of an enum value. -/
def EnumValueDefinition.places (definition : EnumValueDefinition) : List (Option Location) :=
  definition.name.location :: Directives.places definition.directives

/-- The places of what is in the definition of a scalar type. -/
def ScalarDefinition.places (definition : ScalarDefinition) : List (Option Location) :=
  definition.name.location :: Directives.places definition.directives

/-- The places of what is in the definition of an object or interface type. -/
def ObjectLikeDefinition.places (definition : ObjectLikeDefinition) : List (Option Location) :=
  definition.name.location :: (Directives.places definition.directives ++
    definition.interfaces.map Name.location ++
    definition.fields.flatMap (Node.places FieldDefinition.places))

/-- The places of what is in the definition of a union type. -/
def UnionDefinition.places (definition : UnionDefinition) : List (Option Location) :=
  definition.name.location :: (Directives.places definition.directives ++
    definition.members.map Name.location)

/-- The places of what is in the definition of an enum type. -/
def EnumDefinition.places (definition : EnumDefinition) : List (Option Location) :=
  definition.name.location :: (Directives.places definition.directives ++
    definition.values.flatMap (Node.places EnumValueDefinition.places))

/-- The places of what is in the definition of an input object type. -/
def InputObjectDefinition.places (definition : InputObjectDefinition) : List (Option Location) :=
  definition.name.location :: (Directives.places definition.directives ++
    definition.fields.flatMap (Node.places InputValueDefinition.places))

/-- The places of the definition of a type. -/
def TypeDefinition.places : TypeDefinition → List (Option Location)
  | .scalar definition => definition.places ScalarDefinition.places
  | .object definition => definition.places ObjectLikeDefinition.places
  | .interface definition => definition.places ObjectLikeDefinition.places
  | .union definition => definition.places UnionDefinition.places
  | .enum definition => definition.places EnumDefinition.places
  | .inputObject definition => definition.places InputObjectDefinition.places

/-- The places of what is in the definition of a directive. -/
def DirectiveDefinition.places (definition : DirectiveDefinition) : List (Option Location) :=
  definition.name.location ::
    definition.arguments.flatMap (Node.places InputValueDefinition.places)

/-- The places of what is in the extension of an object type. -/
def ObjectExtension.places (extension : ObjectExtension) : List (Option Location) :=
  extension.name.location :: (Directives.places extension.directives ++
    extension.interfaces.map Name.location ++
    extension.fields.flatMap (Node.places FieldDefinition.places))

/-- The places of what is in the extension of a type of another kind. -/
def OtherExtension.places (extension : OtherExtension) : List (Option Location) :=
  [extension.name.location]

/-- The places of a definition and of what is in it. Of definitions that change nothing only their
own place counts. -/
def Definition.places : Definition → List (Option Location)
  | .type definition => definition.places
  | .directive definition => definition.places DirectiveDefinition.places
  | .objectExtension extension => extension.places ObjectExtension.places
  | .otherExtension extension => extension.places OtherExtension.places
  | .unrelated definition => definition.places fun _ => []

theorem TypeDefinition.location_mem_places (definition : TypeDefinition) :
    definition.location ∈ definition.places := by
  cases definition <;> exact List.mem_cons_self

theorem Definition.location_mem_places (definition : Definition) :
    definition.location ∈ definition.places := by
  cases definition with
  | type definition => exact definition.location_mem_places
  | directive definition | objectExtension extension | otherExtension extension
  | unrelated definition => exact List.mem_cons_self

/-! ## Parts that lie in a file -/

/-- There is a place, and it is in a file. -/
def LiesIn (file : FileId) (location : Option Location) : Prop :=
  location.map (·.file) = some file

/-- A place that is known is not replaced by another one. -/
theorem LiesIn.or_eq {file : FileId} {location : Option Location} (lies : LiesIn file location)
    (other : Option Location) : location.or other = location := by
  cases location with
  | none => cases lies
  | some place => rfl

/-- Every name of a list lies in a file. -/
def NamesLieIn (file : FileId) (names : List Name) : Prop :=
  ∀ name ∈ names, LiesIn file name.location

/-- An argument or input field lies in a file, with its type. -/
structure Node.InputLiesIn (file : FileId) (definition : Node InputValueDefinition) : Prop where
  itself : LiesIn file definition.location
  type : LiesIn file definition.value.type.location

/-- A field lies in a file, with its type and arguments. -/
structure Node.FieldLiesIn (file : FileId) (definition : Node FieldDefinition) : Prop where
  itself : LiesIn file definition.location
  type : LiesIn file definition.value.type.location
  arguments : ∀ argument ∈ definition.value.arguments, argument.InputLiesIn file

/-- What a definition of a type lists lies in a file. -/
def TypeDefinition.PartsLieIn (file : FileId) : TypeDefinition → Prop
  | .object definition | .interface definition =>
    NamesLieIn file definition.value.interfaces ∧
      ∀ field ∈ definition.value.fields, field.FieldLiesIn file
  | .union definition => NamesLieIn file definition.value.members
  | .enum definition => ∀ value ∈ definition.value.values, LiesIn file value.location
  | .inputObject definition => ∀ field ∈ definition.value.fields, field.InputLiesIn file
  | .scalar _ => True

/-- What a definition lists lies in a file. -/
def Definition.PartsLieIn (file : FileId) : Definition → Prop
  | .type definition => definition.PartsLieIn file
  | .objectExtension extension =>
    NamesLieIn file extension.value.interfaces ∧
      ∀ field ∈ extension.value.fields, field.FieldLiesIn file
  | .directive definition => ∀ argument ∈ definition.value.arguments, argument.InputLiesIn file
  | .otherExtension _ | .unrelated _ => True

/-- A definition lies in a file, with all that it lists. -/
structure Definition.LiesInFile (file : FileId) (definition : Definition) : Prop where
  itself : LiesIn file definition.location
  parts : definition.PartsLieIn file

/-! ## Trees that begin at good places -/

/-- A tree and all trees below it begin at places for which something holds. -/
inductive Tree.BeginsAt (good : Nat → Prop) : Tree → Prop where
  | leaf {role : TokenRole} {text : String} {start : Nat} (here : good start) :
      BeginsAt good (.leaf role text start)
  | branch {kind : TreeKind} {start stop : Nat} {children : List Tree} (here : good start)
      (below : ∀ child ∈ children, child.BeginsAt good) :
      BeginsAt good (.branch kind start stop children)

/-- A place is known, is in a file, and something holds for where it begins. -/
def IsPlaced (file : FileId) (good : Nat → Prop) (place : Option Location) : Prop :=
  ∃ start stop, place = some ⟨file, start, stop⟩ ∧ good start

/-- What holds for all places of a list. -/
abbrev ArePlaced (file : FileId) (good : Nat → Prop) (places : List (Option Location)) : Prop :=
  ∀ place ∈ places, IsPlaced file good place

theorem IsPlaced.liesIn {file : FileId} {good : Nat → Prop} {place : Option Location}
    (placed : IsPlaced file good place) : LiesIn file place := by
  obtain ⟨start, stop, rfl, _⟩ := placed
  rfl

namespace Tree

mutual

/-- Every tree begins somewhere. -/
theorem beginsAt_true : (tree : Tree) → tree.BeginsAt fun _ => True
  | .leaf .. => .leaf trivial
  | .branch _ _ _ children => .branch trivial (forall_beginsAt_true children)

theorem forall_beginsAt_true : (trees : List Tree) → ∀ tree ∈ trees, tree.BeginsAt fun _ => True
  | [] => nofun
  | tree :: rest => List.forall_mem_cons.2 ⟨beginsAt_true tree, forall_beginsAt_true rest⟩

end

variable {file : FileId} {good : Nat → Prop}

theorem BeginsAt.children {tree : Tree} (begins : tree.BeginsAt good) :
    ∀ child ∈ tree.children, child.BeginsAt good := by
  cases begins with
  | leaf => nofun
  | branch _ below => exact below

theorem BeginsAt.of_child? {kind : TreeKind} {tree child : Tree} (begins : tree.BeginsAt good)
    (found : tree.child? kind = some child) : child.BeginsAt good :=
  begins.children child (List.mem_of_find?_eq_some found)

theorem BeginsAt.childrenOf {kind : TreeKind} {tree : Tree} (begins : tree.BeginsAt good) :
    ∀ child ∈ tree.childrenOf kind, child.BeginsAt good :=
  fun child member => begins.children child ((List.mem_filter.1 member).1)

/-! ## What is read off a tree -/

theorem arePlaced_node? {α : Type} (inside : α → List (Option Location)) {tree : Tree}
    (begins : tree.BeginsAt good) {value : α} {node : Node α}
    (found : tree.node? file value = some node) (content : ArePlaced file good (inside value)) :
    ArePlaced file good (node.places inside) := by
  cases begins with
  | leaf => cases found
  | branch here _ =>
      cases found
      exact List.forall_mem_cons.2 ⟨⟨_, _, rfl, here⟩, content⟩

theorem isPlaced_nameIn? {trees : List Tree} (begin : ∀ tree ∈ trees, tree.BeginsAt good)
    {name : Name} (found : nameIn? file trees = some name) : IsPlaced file good name.location := by
  simp only [nameIn?, Option.bind_eq_bind, Option.bind_eq_some_iff] at found
  obtain ⟨branch, among, identifier, below, found⟩ := found
  have begins := (begin branch (List.mem_of_find?_eq_some among)).children identifier
    (List.mem_of_find?_eq_some below)
  cases begins with
  | leaf here =>
      cases found
      exact ⟨_, _, rfl, here⟩
  | branch => cases found

theorem isPlaced_name? {tree : Tree} (begins : tree.BeginsAt good) {name : Name}
    (found : tree.name? file = some name) : IsPlaced file good name.location :=
  isPlaced_nameIn? begins.children found

/-- What needs a name is placed if the rest of it is. -/
theorem arePlaced_named? {α : Type} (inside : α → List (Option Location)) {tree : Tree}
    (begins : tree.BeginsAt good) {value : Name → α} {node : Node α}
    (found : ((tree.name? file).bind fun name => tree.node? file (value name)) = some node)
    (content : ∀ {name : Name}, IsPlaced file good name.location →
      ArePlaced file good (inside (value name))) :
    ArePlaced file good (node.places inside) := by
  obtain ⟨name, named, found⟩ := Option.bind_eq_some_iff.1 found
  exact arePlaced_node? inside begins found (content (isPlaced_name? begins named))

/-- What is read off the branches that a branch of a kind holds is placed if what is read off one
of them is. -/
theorem arePlaced_group {α : Type} {inside : α → List (Option Location)} {read : Tree → Option α}
    (each : ∀ {branch : Tree}, branch.BeginsAt good → ∀ {item}, read branch = some item →
      ArePlaced file good (inside item))
    {tree : Tree} (begins : tree.BeginsAt good) (group kind : TreeKind) :
    ArePlaced file good (((tree.child? group).elim [] fun found =>
      (found.childrenOf kind).filterMap read).flatMap inside) := by
  cases found : tree.child? group with
  | none => nofun
  | some listed =>
      intro place member
      obtain ⟨item, member, inside⟩ := List.mem_flatMap.1 member
      obtain ⟨branch, member, read⟩ := List.mem_filterMap.1 member
      exact each ((begins.of_child? found).childrenOf branch member) read place inside

/-! ### Types -/

mutual

theorem isPlaced_typeReference? : {tree : Tree} → tree.BeginsAt good → {reference : TypeReference} →
    typeReference? file tree = some reference → IsPlaced file good reference.innerName.location
  | .leaf .., _, _, found => by cases found
  | .branch kind _ _ children, begins, reference, found => by
      unfold typeReference? at found
      split at found
      · obtain ⟨name, read, rfl⟩ := Option.map_eq_some_iff.1 found
        exact isPlaced_nameIn? begins.children read
      · obtain ⟨item, read, rfl⟩ := Option.map_eq_some_iff.1 found
        have placed : IsPlaced file good item.innerName.location :=
          isPlaced_firstType? begins.children read
        exact placed
      · split at found
        · rename_i named among
          obtain ⟨name, read, rfl⟩ := Option.map_eq_some_iff.1 found
          exact isPlaced_name? (begins.children _ (List.mem_of_find?_eq_some among)) read
        · obtain ⟨item, read, rfl⟩ := Option.map_eq_some_iff.1 found
          have placed : IsPlaced file good item.innerName.location :=
            isPlaced_firstItemType? begins.children read
          exact placed
      · cases found

theorem isPlaced_firstType? : {trees : List Tree} → (∀ tree ∈ trees, tree.BeginsAt good) →
    {reference : TypeReference} → firstType? file trees = some reference →
    IsPlaced file good reference.innerName.location
  | [], _, _, found => by cases found
  | tree :: rest, begin, reference, found => by
      rw [firstType?] at found
      rw [List.forall_mem_cons] at begin
      split at found
      · exact isPlaced_typeReference? begin.1 found
      · exact isPlaced_firstType? begin.2 found

theorem isPlaced_firstItemType? : {trees : List Tree} → (∀ tree ∈ trees, tree.BeginsAt good) →
    {reference : TypeReference} → firstItemType? file trees = some reference →
    IsPlaced file good reference.innerName.location
  | [], _, _, found => by cases found
  | .leaf .. :: rest, begin, reference, found => by
      rw [firstItemType?] at found
      exact isPlaced_firstItemType? (List.forall_mem_cons.1 begin).2 found
  | .branch kind _ _ children :: rest, begin, reference, found => by
      rw [firstItemType?] at found
      rw [List.forall_mem_cons] at begin
      split at found
      · exact isPlaced_firstType? begin.1.children found
      · exact isPlaced_firstItemType? begin.2 found

end

theorem arePlaced_type? {tree : Tree} (begins : tree.BeginsAt good) {type : Node TypeReference}
    (found : tree.type? file = some type) :
    ArePlaced file good (type.places TypeReference.places) := by
  simp only [type?, Option.bind_eq_bind, Option.bind_eq_some_iff] at found
  obtain ⟨branch, among, reference, read, found⟩ := found
  have below := begins.children branch (List.mem_of_find?_eq_some among)
  exact arePlaced_node? _ below found
    (List.forall_mem_singleton.2 (isPlaced_typeReference? below read))

/-! ### Values -/

mutual

theorem arePlaced_value? : {tree : Tree} → tree.BeginsAt good → {value : Node Value} →
    value? file tree = some value → ArePlaced file good (value.places Value.places)
  | .leaf .., _, _, found => by cases found
  | .branch kind start stop children, begins, value, found => by
      unfold value? at found
      dsimp only at found
      obtain ⟨content, read, rfl⟩ := Option.map_eq_some_iff.1 found
      have below := begins.children
      cases begins with
      | branch here _ =>
          refine List.forall_mem_cons.2 ⟨⟨_, _, rfl, here⟩, ?_⟩
          show ArePlaced file good content.places
          cases kind
          case variableReference | enumValue =>
            obtain ⟨name, named, rfl⟩ := Option.map_eq_some_iff.1 read
            exact List.forall_mem_singleton.2 (isPlaced_nameIn? below named)
          case intValue | floatValue | stringValue | booleanValue =>
            obtain ⟨text, _, rfl⟩ := Option.map_eq_some_iff.1 read
            exact fun _ member => absurd member List.not_mem_nil
          case nullValue =>
            cases read
            exact fun _ member => absurd member List.not_mem_nil
          case listValue =>
            cases read
            exact arePlaced_values below
          case objectValue =>
            cases read
            exact arePlaced_valueFields below
          all_goals cases read

theorem arePlaced_values : {trees : List Tree} → (∀ tree ∈ trees, tree.BeginsAt good) →
    ArePlaced file good (Value.placesOfItems (values file trees))
  | [], _ => nofun
  | tree :: rest, begin => by
      rw [List.forall_mem_cons] at begin
      rw [values]
      split
      · rename_i value found
        have first := arePlaced_value? begin.1 found
        exact List.forall_mem_append.2 ⟨first, arePlaced_values begin.2⟩
      · exact arePlaced_values begin.2

theorem arePlaced_firstValue? : {trees : List Tree} → (∀ tree ∈ trees, tree.BeginsAt good) →
    {value : Node Value} → firstValue? file trees = some value →
    ArePlaced file good (value.places Value.places)
  | [], _, _, found => by cases found
  | tree :: rest, begin, value, found => by
      rw [List.forall_mem_cons] at begin
      rw [firstValue?] at found
      split at found
      · exact arePlaced_value? begin.1 found
      · exact arePlaced_firstValue? begin.2 found

theorem arePlaced_valueFields : {trees : List Tree} → (∀ tree ∈ trees, tree.BeginsAt good) →
    ArePlaced file good (Value.placesOfFields (valueFields file trees))
  | [], _ => nofun
  | .leaf .. :: rest, begin => by
      rw [valueFields]
      exact arePlaced_valueFields (List.forall_mem_cons.1 begin).2
  | .branch kind _ _ children :: rest, begin => by
      rw [List.forall_mem_cons] at begin
      unfold valueFields
      split
      · split
        · rename_i name value named found
          have first := arePlaced_firstValue? begin.1.children found
          refine List.forall_mem_cons.2 ⟨isPlaced_nameIn? begin.1.children named, ?_⟩
          exact List.forall_mem_append.2 ⟨first, arePlaced_valueFields begin.2⟩
        · exact arePlaced_valueFields begin.2
      · exact arePlaced_valueFields begin.2

end

/-! ### Members -/

theorem arePlaced_directives {tree : Tree} (begins : tree.BeginsAt good) :
    ArePlaced file good (Directives.places (tree.directives file)) := by
  refine arePlaced_group (fun {branch} begins directive found => ?_) begins _ _
  simp only [directive?, Option.bind_eq_bind, Option.bind_eq_some_iff] at found
  obtain ⟨name, named, found⟩ := found
  refine arePlaced_node? _ begins found (List.forall_mem_cons.2 ⟨isPlaced_name? begins named, ?_⟩)
  refine arePlaced_group (fun {branch} begins argument found => ?_) begins _ _
  simp only [argument?, Option.bind_eq_bind, Option.bind_eq_some_iff] at found
  obtain ⟨name, named, value, given, found⟩ := found
  exact arePlaced_node? _ begins found (List.forall_mem_cons.2
    ⟨isPlaced_name? begins named, arePlaced_firstValue? begins.children given⟩)

theorem arePlaced_default? {tree : Tree} (begins : tree.BeginsAt good)
    {default : Option (Node Value)} (found : tree.default? file = some default) :
    ArePlaced file good (default.elim [] (Node.places Value.places)) := by
  unfold default? at found
  split at found
  · cases found
    nofun
  · rename_i branch child
    obtain ⟨value, read, rfl⟩ := Option.map_eq_some_iff.1 found
    exact arePlaced_firstValue? (begins.of_child? child).children read

theorem arePlaced_inputValue? {tree : Tree} (begins : tree.BeginsAt good)
    {definition : Node InputValueDefinition} (found : tree.inputValue? file = some definition) :
    ArePlaced file good (definition.places InputValueDefinition.places) := by
  simp only [inputValue?, Option.bind_eq_bind, Option.bind_eq_some_iff] at found
  obtain ⟨default, given, name, named, type, typed, found⟩ := found
  refine arePlaced_node? _ begins found (List.forall_mem_cons.2 ⟨isPlaced_name? begins named, ?_⟩)
  exact List.forall_mem_append.2 ⟨List.forall_mem_append.2
    ⟨arePlaced_type? begins typed, arePlaced_default? begins given⟩, arePlaced_directives begins⟩

theorem arePlaced_inputValues (kind : TreeKind) {tree : Tree} (begins : tree.BeginsAt good) :
    ArePlaced file good
      ((tree.inputValues file kind).flatMap (Node.places InputValueDefinition.places)) :=
  arePlaced_group arePlaced_inputValue? begins _ _

theorem arePlaced_fields {tree : Tree} (begins : tree.BeginsAt good) :
    ArePlaced file good ((tree.fields file).flatMap (Node.places FieldDefinition.places)) := by
  refine arePlaced_group (fun {branch} begins definition found => ?_) begins _ _
  simp only [field?, Option.bind_eq_bind, Option.bind_eq_some_iff] at found
  obtain ⟨name, named, type, typed, found⟩ := found
  refine arePlaced_node? _ begins found (List.forall_mem_cons.2 ⟨isPlaced_name? begins named, ?_⟩)
  exact List.forall_mem_append.2 ⟨List.forall_mem_append.2
    ⟨arePlaced_type? begins typed, arePlaced_inputValues _ begins⟩, arePlaced_directives begins⟩

theorem arePlaced_enumValues {tree : Tree} (begins : tree.BeginsAt good) :
    ArePlaced file good
      ((tree.enumValueDefinitions file).flatMap (Node.places EnumValueDefinition.places)) := by
  refine arePlaced_group (fun {branch} begins definition found => ?_) begins _ _
  simp only [enumValueDefinition?, Option.bind_eq_bind, Option.bind_eq_some_iff] at found
  obtain ⟨value, child, name, named, found⟩ := found
  exact arePlaced_node? _ begins found (List.forall_mem_cons.2
    ⟨isPlaced_name? (begins.of_child? child) named, arePlaced_directives begins⟩)

theorem arePlaced_namedTypes (kind : TreeKind) {tree : Tree} (begins : tree.BeginsAt good) :
    ArePlaced file good ((tree.namedTypes file kind).map Name.location) := by
  rw [List.map_eq_flatMap]
  exact arePlaced_group (fun begins name named =>
    List.forall_mem_singleton.2 (isPlaced_name? begins named)) begins _ _

/-! ## Definitions -/

theorem arePlaced_objectLikeDefinition? {tree : Tree} (begins : tree.BeginsAt good)
    {definition : Node ObjectLikeDefinition}
    (found : tree.objectLikeDefinition? file = some definition) :
    ArePlaced file good (definition.places ObjectLikeDefinition.places) := by
  refine arePlaced_named? _ begins found fun named => List.forall_mem_cons.2 ⟨named, ?_⟩
  exact List.forall_mem_append.2 ⟨List.forall_mem_append.2
    ⟨arePlaced_directives begins, arePlaced_namedTypes _ begins⟩, arePlaced_fields begins⟩

/-- **A definition that is read off a tree is placed with all that is in it.** -/
theorem arePlaced_definition? {tree : Tree} (begins : tree.BeginsAt good) {definition : Definition}
    (found : tree.definition? file = some definition) :
    ArePlaced file good definition.places := by
  have nothing : ArePlaced file good [] := fun _ member => absurd member List.not_mem_nil
  have directives : ArePlaced file good (Directives.places (tree.directives file)) :=
    arePlaced_directives begins
  cases tree with
  | leaf role text start => cases found
  | branch kind start stop children =>
      cases kind <;> simp only [definition?] at found <;>
        first | cases found | obtain ⟨node, read, rfl⟩ := Option.map_eq_some_iff.1 found
      case objectDefinition | interfaceDefinition =>
        exact arePlaced_objectLikeDefinition? begins read
      case objectExtension =>
        refine arePlaced_named? ObjectExtension.places begins read fun named =>
          List.forall_mem_cons.2 ⟨named, List.forall_mem_append.2 ⟨?_, arePlaced_fields begins⟩⟩
        exact List.forall_mem_append.2 ⟨directives, arePlaced_namedTypes _ begins⟩
      case scalarDefinition =>
        exact arePlaced_named? ScalarDefinition.places begins read fun named =>
          List.forall_mem_cons.2 ⟨named, directives⟩
      case unionDefinition =>
        refine arePlaced_named? UnionDefinition.places begins read fun named =>
          List.forall_mem_cons.2 ⟨named, ?_⟩
        exact List.forall_mem_append.2 ⟨directives, arePlaced_namedTypes _ begins⟩
      case enumDefinition =>
        refine arePlaced_named? EnumDefinition.places begins read fun named =>
          List.forall_mem_cons.2 ⟨named, ?_⟩
        exact List.forall_mem_append.2 ⟨directives, arePlaced_enumValues begins⟩
      case inputObjectDefinition =>
        refine arePlaced_named? InputObjectDefinition.places begins read fun named =>
          List.forall_mem_cons.2 ⟨named, ?_⟩
        exact List.forall_mem_append.2 ⟨directives, arePlaced_inputValues _ begins⟩
      case directiveDefinition =>
        exact arePlaced_named? DirectiveDefinition.places begins read fun named =>
          List.forall_mem_cons.2 ⟨named, arePlaced_inputValues _ begins⟩
      case fragmentDefinition =>
        simp only [fragment?, Option.bind_eq_bind, Option.bind_eq_some_iff] at read
        obtain ⟨_, _, _, _, read⟩ := read
        exact arePlaced_node? (fun _ => []) begins read nothing
      case operationDefinition.refl | schemaDefinition.refl | schemaExtension.refl =>
        exact arePlaced_node? (fun _ => []) begins rfl nothing
      all_goals
        exact arePlaced_named? OtherExtension.places begins read fun named =>
          List.forall_mem_singleton.2 named

theorem arePlaced_definitions {tree : Tree} (begins : tree.BeginsAt good) :
    ArePlaced file good ((tree.definitions file).flatMap Definition.places) := by
  intro place member
  obtain ⟨definition, member, inside⟩ := List.mem_flatMap.1 member
  obtain ⟨branch, member, found⟩ := List.mem_filterMap.1 member
  exact arePlaced_definition? (begins.children branch member) found place inside

end Tree

/-! ## Documents in a file -/

section Files

variable {file : FileId}

theorem Node.inputLiesIn_of_places {definition : Node InputValueDefinition}
    (lie : ∀ place ∈ definition.places InputValueDefinition.places, LiesIn file place) :
    definition.InputLiesIn file where
  itself := lie _ (by simp [Node.places])
  type := lie _ (by simp [Node.places, InputValueDefinition.places])

theorem Node.fieldLiesIn_of_places {definition : Node FieldDefinition}
    (lie : ∀ place ∈ definition.places FieldDefinition.places, LiesIn file place) :
    definition.FieldLiesIn file where
  itself := lie _ (by simp [Node.places])
  type := lie _ (by simp [Node.places, FieldDefinition.places])
  arguments := by
    intro argument member
    refine argument.inputLiesIn_of_places fun place inside => lie _ (List.mem_cons_of_mem _ ?_)
    simp only [FieldDefinition.places, List.mem_cons, List.mem_append, List.mem_flatMap]
    exact .inr (.inl (.inr ⟨argument, member, inside⟩))

/-- Parts of which all places are in a file lie there one by one. -/
theorem forall_liesIn_flatMap {α : Type} {inside : α → List (Option Location)} {P : α → Prop}
    (each : ∀ {item}, (∀ place ∈ inside item, LiesIn file place) → P item) {items : List α}
    (lie : ∀ place ∈ items.flatMap inside, LiesIn file place) : ∀ item ∈ items, P item :=
  fun item member => each fun place here => lie place (List.mem_flatMap.2 ⟨item, member, here⟩)

/-- Where all places of a definition are in a file, its parts lie there. -/
theorem Definition.liesInFile_of_places {definition : Definition}
    (lie : ∀ place ∈ definition.places, LiesIn file place) : definition.LiesInFile file := by
  have names : ∀ {names : List Name}, (∀ place ∈ names.map Name.location, LiesIn file place) →
      NamesLieIn file names := fun lie name member => lie _ (List.mem_map_of_mem member)
  cases definition with
  | type definition =>
      cases definition with
      | scalar definition => exact ⟨lie _ List.mem_cons_self, trivial⟩
      | object definition | interface definition =>
          simp only [places, TypeDefinition.places, Node.places, ObjectLikeDefinition.places,
            List.forall_mem_cons, List.forall_mem_append] at lie
          obtain ⟨itself, _, ⟨_, interfaces⟩, fields⟩ := lie
          exact ⟨itself, names interfaces,
            forall_liesIn_flatMap Node.fieldLiesIn_of_places fields⟩
      | union definition =>
          simp only [places, TypeDefinition.places, Node.places, UnionDefinition.places,
            List.forall_mem_cons, List.forall_mem_append] at lie
          obtain ⟨itself, _, _, members⟩ := lie
          exact ⟨itself, names members⟩
      | enum definition =>
          simp only [places, TypeDefinition.places, Node.places, EnumDefinition.places,
            List.forall_mem_cons, List.forall_mem_append] at lie
          obtain ⟨itself, _, _, values⟩ := lie
          exact ⟨itself, forall_liesIn_flatMap (fun lie => lie _ List.mem_cons_self) values⟩
      | inputObject definition =>
          simp only [places, TypeDefinition.places, Node.places, InputObjectDefinition.places,
            List.forall_mem_cons, List.forall_mem_append] at lie
          obtain ⟨itself, _, _, fields⟩ := lie
          exact ⟨itself, forall_liesIn_flatMap Node.inputLiesIn_of_places fields⟩
  | objectExtension extension =>
      simp only [places, Node.places, ObjectExtension.places, List.forall_mem_cons,
        List.forall_mem_append] at lie
      obtain ⟨itself, _, ⟨_, interfaces⟩, fields⟩ := lie
      exact ⟨itself, names interfaces, forall_liesIn_flatMap Node.fieldLiesIn_of_places fields⟩
  | directive definition =>
      simp only [places, Node.places, DirectiveDefinition.places, List.forall_mem_cons] at lie
      obtain ⟨itself, _, arguments⟩ := lie
      exact ⟨itself, forall_liesIn_flatMap Node.inputLiesIn_of_places arguments⟩
  | otherExtension extension => exact ⟨lie _ List.mem_cons_self, trivial⟩
  | unrelated definition => exact ⟨lie _ List.mem_cons_self, trivial⟩

end Files

/-- **All that a document holds lies in its file.** -/
theorem Document.definitions_lieIn (limits : ReadingLimits) (file : FileId) (source : SourceFile) :
    ∀ definition ∈ (Document.parse limits file source).document.definitions,
      definition.LiesInFile file := by
  refine forall_liesIn_flatMap Definition.liesInFile_of_places fun place member => ?_
  exact (Tree.arePlaced_definitions (Tree.beginsAt_true _) place member).liesIn

end SchemaGraft
