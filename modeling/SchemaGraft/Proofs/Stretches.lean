import SchemaGraft.Proofs.Reading.Documents
import SchemaGraft.Proofs.Reading.LaidOutTrees

/-!
# Parts of a document as stretches of its text

Every name, node and list of a definition takes up a stretch of the text (`Stretch`). A name is
spelled by its stretch, and what a node holds takes up parts of the stretch of the node. The items
of a list take up parts one behind the other (`Stretch.InRow`). Ranges of bytes are those of
stretches, so they begin and end between characters, lie in one another as the parts of a document
do, and follow one another as the items of a list do (`Stretch.Cut.location_spec`).

For a document that was read this holds of the text that its tree has kept. That text is the source
itself up to the limit on lexemes, whatever mistakes there are, unless some of the source was lost
(`Document.inRow_of_parse`). Behind lost text all places are wrong by as many bytes
(`Document.parse_shifted`).
-/

set_option autoImplicit false

namespace SchemaGraft

/-! ## Stretches -/

/-- A stretch of the text of a file: some characters, those in front of them and those behind
them. -/
structure Stretch where
  file : FileId
  front : List Char
  chars : List Char
  back : List Char

namespace Stretch

/-- The text that a stretch is taken from. -/
def text (stretch : Stretch) : List Char := stretch.front ++ (stretch.chars ++ stretch.back)

/-- The range of bytes of a stretch. -/
def location (stretch : Stretch) : Location :=
  ⟨stretch.file, String.utf8Len stretch.front, String.utf8Len (stretch.front ++ stretch.chars)⟩

/-- A part of a stretch. -/
structure Cut (stretch : Stretch) where
  before : List Char
  part : List Char
  after : List Char
  split : stretch.chars = before ++ (part ++ after)

namespace Cut

variable {stretch : Stretch} (cut : stretch.Cut)

/-- The stretch that a part is. -/
def inside : Stretch :=
  ⟨stretch.file, stretch.front ++ cut.before, cut.part, cut.after ++ stretch.back⟩

/-- What comes behind a part in the same stretch. -/
def later : Stretch :=
  ⟨stretch.file, stretch.front ++ (cut.before ++ cut.part), cut.after, stretch.back⟩

/-- A part of a part is a part. -/
def within (inner : cut.inside.Cut) : stretch.Cut where
  before := cut.before ++ inner.before
  part := inner.part
  after := inner.after ++ cut.after
  split := by
    have part : cut.part = inner.before ++ (inner.part ++ inner.after) := inner.split
    rw [cut.split, part]
    simp only [List.append_assoc]

theorem inside_within (inner : cut.inside.Cut) : (cut.within inner).inside = inner.inside := by
  simp only [inside, within, List.append_assoc]

end Cut

/-- A stretch begins and ends between two characters of its text. -/
theorem isBoundary_location (stretch : Stretch) :
    Text.IsBoundary stretch.text stretch.location.start ∧
      Text.IsBoundary stretch.text stretch.location.stop := by
  refine ⟨Text.isBoundary_append _ _, ?_⟩
  rw [text, ← List.append_assoc]
  exact Text.isBoundary_append _ _

/-- **A part of a stretch is in the same text, its range lies in that of the stretch, and what comes
behind it begins where it ends.** -/
theorem Cut.location_spec {stretch : Stretch} (cut : stretch.Cut) :
    cut.inside.text = stretch.text ∧ cut.later.text = stretch.text ∧
      stretch.location.start ≤ cut.inside.location.start ∧
      cut.inside.location.start ≤ cut.inside.location.stop ∧
      cut.inside.location.stop = cut.later.location.start ∧
      cut.later.location.stop = stretch.location.stop := by
  refine ⟨?_, ?_, ?_⟩
  · simp only [text, inside, cut.split, List.append_assoc]
  · simp only [text, later, cut.split, List.append_assoc]
  · simp only [location, inside, later, cut.split, String.utf8Len_append]
    omega

/-! ### What stretches hold -/

section Fills

variable {α : Type} (fills : α → Stretch → Prop)

/-- A thing takes up a part of a stretch. -/
def Holds (item : α) (stretch : Stretch) : Prop := ∃ cut : stretch.Cut, fills item cut.inside

/-- Things take up parts of a stretch, each behind the one before. -/
def InRow : List α → Stretch → Prop
  | [], _ => True
  | item :: rest, stretch => ∃ cut : stretch.Cut, fills item cut.inside ∧ InRow rest cut.later

variable {fills}

theorem Holds.widen {item : α} {stretch : Stretch} (cut : stretch.Cut)
    (holds : Holds fills item cut.inside) : Holds fills item stretch := by
  obtain ⟨inner, filled⟩ := holds
  exact ⟨cut.within inner, by rwa [cut.inside_within]⟩

theorem InRow.widen {items : List α} {stretch : Stretch} (cut : stretch.Cut)
    (row : InRow fills items cut.inside) : InRow fills items stretch := by
  induction items generalizing stretch with
  | nil => trivial
  | cons item rest ih =>
      obtain ⟨inner, filled, row⟩ := row
      refine ⟨cut.within inner, by rwa [cut.inside_within], ?_⟩
      let further : (cut.within inner).later.Cut := ⟨[], inner.after, cut.after, rfl⟩
      have same : further.inside = inner.later := by
        simp only [further, Cut.inside, Cut.later, Cut.within, List.append_assoc, List.append_nil]
      exact ih further (same ▸ row)

end Fills

end Stretch

open Stretch

/-! ## What fills a stretch -/

/-- A name is spelled by the characters of its range. -/
structure Name.Fills (name : Name) (stretch : Stretch) : Prop where
  isValid : Name.IsValid name.text
  spelled : stretch.chars = name.text.toList
  location : name.location = some stretch.location

/-- A node has the range of a stretch, and what is in the node is in the stretch. -/
def Node.Fills {α : Type} (inside : α → Stretch → Prop) (node : Node α)
    (stretch : Stretch) : Prop :=
  node.location = some stretch.location ∧ inside node.value stretch

/-- The name that a reference leads to is in a stretch. -/
def TypeReference.Within (reference : TypeReference) : Stretch → Prop :=
  Holds Name.Fills reference.innerName

namespace Value

mutual

/-- What is in a value is in a stretch. -/
def Within : Value → Stretch → Prop
  | null, _ | string _, _ | float _, _ | int _, _ | boolean _, _ => True
  | enumValue name, stretch => Holds Name.Fills name stretch
  | variableReference name, stretch => Holds Name.Fills name stretch
  | list items, stretch => ItemsInRow items stretch
  | object fields, stretch => FieldsInRow fields stretch

/-- The items of a list take up parts of a stretch, each behind the one before. -/
def ItemsInRow : List (Node Value) → Stretch → Prop
  | [], _ => True
  | ⟨_, location, item⟩ :: rest, stretch => ∃ cut : stretch.Cut,
    (location = some cut.inside.location ∧ Within item cut.inside) ∧ ItemsInRow rest cut.later

/-- The fields of an object, each with its name and value, take up parts of a stretch, each behind
the one before. -/
def FieldsInRow : List (Name × Node Value) → Stretch → Prop
  | [], _ => True
  | (name, ⟨_, location, value⟩) :: rest, stretch => ∃ cut : stretch.Cut,
    (Holds Name.Fills name cut.inside ∧ ∃ given : cut.inside.Cut,
      location = some given.inside.location ∧ Within value given.inside) ∧
    FieldsInRow rest cut.later

end

end Value

namespace Value

/-- A field of an object takes up a stretch with its name and its value. -/
def FieldFills (field : Name × Node Value) (stretch : Stretch) : Prop :=
  Holds Name.Fills field.1 stretch ∧ Holds (Node.Fills Within) field.2 stretch

theorem itemsInRow_iff {items : List (Node Value)} {stretch : Stretch} :
    ItemsInRow items stretch ↔ InRow (Node.Fills Within) items stretch := by
  induction items generalizing stretch with
  | nil => simp only [ItemsInRow, InRow]
  | cons item rest ih => simp only [ItemsInRow, InRow, Node.Fills, ih]

theorem fieldsInRow_iff {fields : List (Name × Node Value)} {stretch : Stretch} :
    FieldsInRow fields stretch ↔ InRow FieldFills fields stretch := by
  induction fields generalizing stretch with
  | nil => simp only [FieldsInRow, InRow]
  | cons field rest ih => simp only [FieldsInRow, InRow, FieldFills, Holds, Node.Fills, ih]

end Value

/-- What is in an argument is in a stretch. -/
structure Argument.Within (argument : Argument) (stretch : Stretch) : Prop where
  name : Holds Name.Fills argument.name stretch
  value : Holds (Node.Fills Value.Within) argument.value stretch

/-- What is in the application of a directive is in a stretch. -/
structure Directive.Within (directive : Directive) (stretch : Stretch) : Prop where
  name : Holds Name.Fills directive.name stretch
  arguments : InRow (Node.Fills Argument.Within) directive.arguments stretch

/-- The applications of directives are in a stretch. -/
def Directives.Within : Directives → Stretch → Prop := InRow (Node.Fills Directive.Within)

/-- What is in the definition of an argument or input field is in a stretch. -/
structure InputValueDefinition.Within (definition : InputValueDefinition) (stretch : Stretch) :
    Prop where
  name : Holds Name.Fills definition.name stretch
  type : Holds (Node.Fills TypeReference.Within) definition.type stretch
  default : ∀ value ∈ definition.default, Holds (Node.Fills Value.Within) value stretch
  directives : Directives.Within definition.directives stretch

/-- What is in the definition of a field is in a stretch. -/
structure FieldDefinition.Within (definition : FieldDefinition) (stretch : Stretch) : Prop where
  name : Holds Name.Fills definition.name stretch
  arguments : InRow (Node.Fills InputValueDefinition.Within) definition.arguments stretch
  type : Holds (Node.Fills TypeReference.Within) definition.type stretch
  directives : Directives.Within definition.directives stretch

/-- What is in the definition of an enum value is in a stretch. -/
structure EnumValueDefinition.Within (definition : EnumValueDefinition) (stretch : Stretch) :
    Prop where
  name : Holds Name.Fills definition.name stretch
  directives : Directives.Within definition.directives stretch

/-- What is in the definition of a scalar type is in a stretch. -/
structure ScalarDefinition.Within (definition : ScalarDefinition) (stretch : Stretch) : Prop where
  name : Holds Name.Fills definition.name stretch
  directives : Directives.Within definition.directives stretch

/-- Names of types stand in a stretch, each behind the one before. -/
def NamesInRow : List Name → Stretch → Prop := InRow (Holds Name.Fills)

/-- What is in the definition of an object or interface type is in a stretch. -/
structure ObjectLikeDefinition.Within (definition : ObjectLikeDefinition) (stretch : Stretch) :
    Prop where
  name : Holds Name.Fills definition.name stretch
  interfaces : NamesInRow definition.interfaces stretch
  directives : Directives.Within definition.directives stretch
  fields : InRow (Node.Fills FieldDefinition.Within) definition.fields stretch

/-- What is in the definition of a union type is in a stretch. -/
structure UnionDefinition.Within (definition : UnionDefinition) (stretch : Stretch) : Prop where
  name : Holds Name.Fills definition.name stretch
  directives : Directives.Within definition.directives stretch
  members : NamesInRow definition.members stretch

/-- What is in the definition of an enum type is in a stretch. -/
structure EnumDefinition.Within (definition : EnumDefinition) (stretch : Stretch) : Prop where
  name : Holds Name.Fills definition.name stretch
  directives : Directives.Within definition.directives stretch
  values : InRow (Node.Fills EnumValueDefinition.Within) definition.values stretch

/-- What is in the definition of an input object type is in a stretch. -/
structure InputObjectDefinition.Within (definition : InputObjectDefinition) (stretch : Stretch) :
    Prop where
  name : Holds Name.Fills definition.name stretch
  directives : Directives.Within definition.directives stretch
  fields : InRow (Node.Fills InputValueDefinition.Within) definition.fields stretch

/-- What is in the definition of a directive is in a stretch. -/
structure DirectiveDefinition.Within (definition : DirectiveDefinition) (stretch : Stretch) :
    Prop where
  name : Holds Name.Fills definition.name stretch
  arguments : InRow (Node.Fills InputValueDefinition.Within) definition.arguments stretch

/-- What is in the extension of an object type is in a stretch. -/
structure ObjectExtension.Within (extension : ObjectExtension) (stretch : Stretch) : Prop where
  name : Holds Name.Fills extension.name stretch
  interfaces : NamesInRow extension.interfaces stretch
  directives : Directives.Within extension.directives stretch
  fields : InRow (Node.Fills FieldDefinition.Within) extension.fields stretch

/-- The name in the extension of a type of another kind is in a stretch. -/
def OtherExtension.Within (extension : OtherExtension) : Stretch → Prop :=
  Holds Name.Fills extension.name

/-- The name in a definition that changes nothing is in a stretch. -/
def UnrelatedDefinition.Within : UnrelatedDefinition → Stretch → Prop
  | .operation name, stretch => ∀ given ∈ name, Holds Name.Fills given stretch
  | .fragment name, stretch => Holds Name.Fills name stretch
  | .schema, _ | .schemaExtension, _ => True

/-- The definition of a type takes up a stretch. -/
def TypeDefinition.Fills : TypeDefinition → Stretch → Prop
  | .scalar definition => definition.Fills ScalarDefinition.Within
  | .object definition | .interface definition => definition.Fills ObjectLikeDefinition.Within
  | .union definition => definition.Fills UnionDefinition.Within
  | .enum definition => definition.Fills EnumDefinition.Within
  | .inputObject definition => definition.Fills InputObjectDefinition.Within

/-- A definition takes up a stretch. -/
def Definition.Fills : Definition → Stretch → Prop
  | .type definition => definition.Fills
  | .directive definition => definition.Fills DirectiveDefinition.Within
  | .objectExtension extension => extension.Fills ObjectExtension.Within
  | .otherExtension extension => extension.Fills OtherExtension.Within
  | .unrelated definition => definition.Fills UnrelatedDefinition.Within

namespace Tree

variable (file : FileId)

/-- The stretch that a tree stands for. -/
def stretch (tree : Tree) (front back : List Char) : Stretch :=
  ⟨file, front, tree.text.toList, back⟩

/-- The stretch that trees stand for together. -/
def stretchOfList (trees : List Tree) (front back : List Char) : Stretch :=
  ⟨file, front, (textOfList trees).toList, back⟩

/-- What is read off a tree fills the stretch of the tree. -/
def ReadsFilling {α : Type} (read : Tree → Option α) (fills : α → Stretch → Prop) : Prop :=
  ∀ {tree : Tree} {front : List Char} (back : List Char), tree.StandsBehind front →
    ∀ {item : α}, read tree = some item → fills item (tree.stretch file front back)

section Rows

variable {file} {α : Type} {fills : α → Stretch → Prop} {trees : List Tree}
  {front : List Char} (back : List Char)

/-- Trees in a row stand for parts of what they stand for together. -/
theorem exists_cut_of_mem (row : StandInRow trees front) {tree : Tree} (member : tree ∈ trees) :
    ∃ (cut : (stretchOfList file trees front back).Cut) (before after : List Char),
      tree.StandsBehind before ∧ cut.inside = tree.stretch file before after := by
  obtain ⟨first, last, rfl⟩ := List.append_of_mem member
  obtain ⟨_, stands, _⟩ := standInRow_append.1 row
  refine ⟨⟨(textOfList first).toList, tree.text.toList, (textOfList last).toList, ?_⟩, _, _,
    stands, rfl⟩
  rw [stretchOfList, textOfList_append, textOfList, String.toList_append, String.toList_append]

theorem holds_of_mem (row : StandInRow trees front) {tree : Tree} (member : tree ∈ trees)
    {item : α} (each : ∀ {before : List Char} (after : List Char), tree.StandsBehind before →
      fills item (tree.stretch file before after)) :
    Holds fills item (stretchOfList file trees front back) := by
  obtain ⟨cut, before, after, stands, inside⟩ := exists_cut_of_mem back row member
  exact ⟨cut, inside ▸ each after stands⟩

theorem holds_inside_of_mem (row : StandInRow trees front) {tree : Tree} (member : tree ∈ trees)
    {item : α} (each : ∀ {before : List Char} (after : List Char), tree.StandsBehind before →
      Holds fills item (tree.stretch file before after)) :
    Holds fills item (stretchOfList file trees front back) := by
  obtain ⟨cut, before, after, stands, inside⟩ := exists_cut_of_mem back row member
  exact .widen cut (inside ▸ each after stands)

/-- The trees behind the first one. -/
def restCut (tree : Tree) (rest : List Tree) (front back : List Char) :
    (stretchOfList file (tree :: rest) front back).Cut where
  before := tree.text.toList
  part := (textOfList rest).toList
  after := []
  split := by rw [stretchOfList, textOfList, String.toList_append, List.append_nil]

theorem inRow_skip {items : List α} {tree : Tree}
    (row : InRow fills items (stretchOfList file trees (front ++ tree.text.toList) back)) :
    InRow fills items (stretchOfList file (tree :: trees) front back) :=
  .widen (restCut tree trees front back) row

theorem inRow_cons {item : α} {items : List α} {tree : Tree}
    (filled : ∀ back, fills item (tree.stretch file front back))
    (row : InRow fills items (stretchOfList file trees (front ++ tree.text.toList) back)) :
    InRow fills (item :: items) (stretchOfList file (tree :: trees) front back) := by
  have split : (textOfList (tree :: trees)).toList =
      [] ++ (tree.text.toList ++ (textOfList trees).toList) := by
    rw [textOfList, String.toList_append, List.nil_append]
  refine ⟨⟨_, _, _, split⟩, ?_, row⟩
  show fills item ⟨file, front ++ [], _, _⟩
  rw [List.append_nil]
  exact filled _

/-- What is read off trees in a row stands in a row. -/
theorem inRow_filterMap {read : Tree → Option α} (each : ReadsFilling file read fills)
    (row : StandInRow trees front) :
    InRow fills (trees.filterMap read) (stretchOfList file trees front back) := by
  induction trees generalizing front with
  | nil => trivial
  | cons tree rest ih =>
      obtain ⟨stands, row⟩ := row
      cases found : read tree with
      | none =>
          rw [List.filterMap_cons_none found]
          exact inRow_skip back (ih row)
      | some item =>
          rw [List.filterMap_cons_some found]
          exact inRow_cons back (fun back => each back stands found) (ih row)

end Rows

/-! ### What is read off a branch -/

section Branches

variable {file} {α : Type} {fills inside : α → Stretch → Prop} {tree : Tree}
  {front : List Char} {back : List Char}

/-- What fills a tree directly below is held by the tree. -/
theorem StandsBehind.exists_cut (stands : tree.StandsBehind front) {child : Tree}
    (member : child ∈ tree.children) :
    ∃ (cut : (tree.stretch file front back).Cut) (before after : List Char),
      child.StandsBehind before ∧ cut.inside = child.stretch file before after := by
  cases tree with
  | leaf => cases member
  | branch kind start stop children => exact exists_cut_of_mem back stands.2.2 member

theorem fills_node? (stands : tree.StandsBehind front) {value : α} {node : Node α}
    (found : tree.node? file value = some node)
    (content : inside value (tree.stretch file front back)) :
    node.Fills inside (tree.stretch file front back) := by
  cases tree with
  | leaf => cases found
  | branch kind start stop children =>
      obtain ⟨rfl, rfl, _⟩ := stands
      cases found
      exact ⟨rfl, content⟩

/-- A name fills the stretch of its token. -/
theorem fills_nameOfLeaf? (stands : tree.StandsBehind front)
    (identifier : tree.isLeaf .identifier = true) {name : Name}
    (found : tree.nameOfLeaf? file = some name) : name.Fills (tree.stretch file front back) := by
  cases tree with
  | leaf role text start =>
      obtain ⟨rfl, valid⟩ := stands
      cases found
      refine ⟨valid (beq_iff_eq.1 identifier), rfl, ?_⟩
      rw [stretch, Stretch.location, String.utf8Len_append, Tree.text, String.utf8Len_toList]
  | branch => cases found

theorem holds_nameIn? {trees : List Tree} (row : StandInRow trees front) {name : Name}
    (found : nameIn? file trees = some name) :
    Holds Name.Fills name (stretchOfList file trees front back) := by
  simp only [nameIn?, Option.bind_eq_bind, Option.bind_eq_some_iff] at found
  obtain ⟨branch, among, identifier, below, found⟩ := found
  refine holds_inside_of_mem back row (List.mem_of_find?_eq_some among) fun after stands => ?_
  obtain ⟨cut, before, after, stands, inside⟩ :=
    stands.exists_cut (List.mem_of_find?_eq_some below)
  exact ⟨cut, inside ▸ fills_nameOfLeaf? stands (List.find?_some below) found⟩

theorem holds_name? (stands : tree.StandsBehind front) {name : Name}
    (found : tree.name? file = some name) :
    Holds Name.Fills name (tree.stretch file front back) := by
  cases tree with
  | leaf => cases found
  | branch kind start stop children => exact holds_nameIn? stands.2.2 found

/-- What needs a name fills its stretch if the rest of it does. -/
theorem fills_named? (stands : tree.StandsBehind front) {value : Name → α} {node : Node α}
    (found : ((tree.name? file).bind fun name => tree.node? file (value name)) = some node)
    (content : ∀ {name : Name}, Holds Name.Fills name (tree.stretch file front back) →
      inside (value name) (tree.stretch file front back)) :
    node.Fills inside (tree.stretch file front back) := by
  obtain ⟨name, named, found⟩ := Option.bind_eq_some_iff.1 found
  exact fills_node? stands found (content (holds_name? stands named))

/-- What is read off the branches that a branch of a kind holds stands in a row. -/
theorem inRow_group {read : Tree → Option α} (each : ReadsFilling file read fills)
    (stands : tree.StandsBehind front) (group kind : TreeKind) :
    InRow fills ((tree.child? group).elim [] fun found =>
      (found.childrenOf kind).filterMap read) (tree.stretch file front back) := by
  cases found : tree.child? group with
  | none => trivial
  | some listed =>
      obtain ⟨cut, before, after, stands, inside⟩ :=
        stands.exists_cut (List.mem_of_find?_eq_some found)
      refine .widen cut (inside ▸ ?_)
      cases listed with
      | leaf => exact absurd (List.find?_some found) Bool.false_ne_true
      | branch own start stop children =>
          rw [Option.elim_some, childrenOf, List.filterMap_filter]
          refine inRow_filterMap after (fun back stands item found => ?_) stands.2.2
          split_ifs at found
          exact each back stands found

end Branches

/-! ### Types -/

section Types

variable {file}

mutual

theorem within_typeReference? : {tree : Tree} → {front back : List Char} →
    tree.StandsBehind front → {reference : TypeReference} →
    typeReference? file tree = some reference → reference.Within (tree.stretch file front back)
  | .leaf .., _, _, _, _, found => by cases found
  | .branch kind _ _ children, front, back, stands, reference, found => by
      have row := stands.2.2
      unfold typeReference? at found
      split at found
      · obtain ⟨name, read, rfl⟩ := Option.map_eq_some_iff.1 found
        exact holds_nameIn? row read
      · obtain ⟨item, read, rfl⟩ := Option.map_eq_some_iff.1 found
        have within : item.Within (stretchOfList file children front back) :=
          within_firstType? row read
        exact within
      · split at found
        · rename_i named among
          obtain ⟨name, read, rfl⟩ := Option.map_eq_some_iff.1 found
          exact holds_inside_of_mem back row (List.mem_of_find?_eq_some among)
            fun after stands => holds_name? stands read
        · obtain ⟨item, read, rfl⟩ := Option.map_eq_some_iff.1 found
          have within : item.Within (stretchOfList file children front back) :=
            within_firstItemType? row read
          exact within
      · cases found

theorem within_firstType? : {trees : List Tree} → {front back : List Char} →
    StandInRow trees front → {reference : TypeReference} →
    firstType? file trees = some reference →
    reference.Within (stretchOfList file trees front back)
  | [], _, _, _, _, found => by cases found
  | tree :: rest, front, back, row, reference, found => by
      rw [firstType?] at found
      split at found
      · exact holds_inside_of_mem back row List.mem_cons_self
          fun after stands => within_typeReference? stands found
      · exact Holds.widen (restCut tree rest front back) (within_firstType? row.2 found)

theorem within_firstItemType? : {trees : List Tree} → {front back : List Char} →
    StandInRow trees front → {reference : TypeReference} →
    firstItemType? file trees = some reference →
    reference.Within (stretchOfList file trees front back)
  | [], _, _, _, _, found => by cases found
  | .leaf role text start :: rest, front, back, row, reference, found => by
      rw [firstItemType?] at found
      exact Holds.widen (restCut (.leaf role text start) rest front back)
        (within_firstItemType? row.2 found)
  | .branch kind start stop children :: rest, front, back, row, reference, found => by
      rw [firstItemType?] at found
      split at found
      · exact holds_inside_of_mem back row List.mem_cons_self
          fun after stands => within_firstType? stands.2.2 found
      · exact Holds.widen (restCut (.branch kind start stop children) rest front back)
          (within_firstItemType? row.2 found)

end

theorem holds_type? {tree : Tree} {front back : List Char} (stands : tree.StandsBehind front)
    {type : Node TypeReference} (found : tree.type? file = some type) :
    Holds (Node.Fills TypeReference.Within) type (tree.stretch file front back) := by
  simp only [type?, Option.bind_eq_bind, Option.bind_eq_some_iff] at found
  obtain ⟨branch, among, reference, read, found⟩ := found
  obtain ⟨cut, before, after, stands, inside⟩ :=
    stands.exists_cut (List.mem_of_find?_eq_some among)
  exact ⟨cut, inside ▸ fills_node? stands found (within_typeReference? stands read)⟩

end Types

/-! ### Values -/

section Values

variable {file}

mutual

theorem fills_value? : {tree : Tree} → {front back : List Char} → tree.StandsBehind front →
    {value : Node Value} → value? file tree = some value →
    value.Fills Value.Within (tree.stretch file front back)
  | .leaf .., _, _, _, _, found => by cases found
  | .branch kind start stop children, front, back, stands, value, found => by
      unfold value? at found
      dsimp only at found
      obtain ⟨content, read, rfl⟩ := Option.map_eq_some_iff.1 found
      obtain ⟨rfl, rfl, row⟩ := stands
      refine ⟨rfl, ?_⟩
      show content.Within (stretchOfList file children front back)
      cases kind
      case variableReference | enumValue =>
        obtain ⟨name, named, rfl⟩ := Option.map_eq_some_iff.1 read
        exact holds_nameIn? row named
      case intValue | floatValue | stringValue | booleanValue =>
        obtain ⟨text, _, rfl⟩ := Option.map_eq_some_iff.1 read
        trivial
      case nullValue =>
        cases read
        trivial
      case listValue =>
        cases read
        exact Value.itemsInRow_iff.2 (inRow_values row)
      case objectValue =>
        cases read
        exact Value.fieldsInRow_iff.2 (inRow_valueFields row)
      all_goals cases read

theorem inRow_values : {trees : List Tree} → {front back : List Char} →
    StandInRow trees front →
    InRow (Node.Fills Value.Within) (values file trees) (stretchOfList file trees front back)
  | [], _, _, _ => trivial
  | tree :: rest, front, back, row => by
      obtain ⟨stands, row⟩ := row
      rw [values]
      split
      · rename_i value found
        exact inRow_cons back (fun back => fills_value? stands found) (inRow_values row)
      · exact inRow_skip back (inRow_values row)

theorem holds_firstValue? : {trees : List Tree} → {front back : List Char} →
    StandInRow trees front → {value : Node Value} → firstValue? file trees = some value →
    Holds (Node.Fills Value.Within) value (stretchOfList file trees front back)
  | [], _, _, _, _, found => by cases found
  | tree :: rest, front, back, row, value, found => by
      rw [firstValue?] at found
      split at found
      · exact holds_of_mem back row List.mem_cons_self fun after stands => fills_value? stands found
      · exact .widen (restCut tree rest front back) (holds_firstValue? row.2 found)

theorem inRow_valueFields : {trees : List Tree} → {front back : List Char} →
    StandInRow trees front →
    InRow Value.FieldFills (valueFields file trees) (stretchOfList file trees front back)
  | [], _, _, _ => trivial
  | .leaf role text start :: rest, front, back, row => by
      rw [valueFields]
      exact inRow_skip back (inRow_valueFields row.2)
  | .branch kind start stop children :: rest, front, back, row => by
      obtain ⟨stands, row⟩ := row
      unfold valueFields
      split
      · split
        · rename_i name value named found
          refine inRow_cons back (fun back => ?_) (inRow_valueFields row)
          exact ⟨holds_nameIn? stands.2.2 named, holds_firstValue? stands.2.2 found⟩
        · exact inRow_skip back (inRow_valueFields row)
      · exact inRow_skip back (inRow_valueFields row)

end

/-- A value below a tree is held by the tree. -/
theorem holds_firstValue?_children {tree : Tree} {front back : List Char}
    (stands : tree.StandsBehind front) {value : Node Value}
    (found : firstValue? file tree.children = some value) :
    Holds (Node.Fills Value.Within) value (tree.stretch file front back) := by
  cases tree with
  | leaf => cases found
  | branch kind start stop children => exact holds_firstValue? stands.2.2 found

end Values

/-! ### Members -/

section Members

variable {file} {tree : Tree} {front back : List Char} (stands : tree.StandsBehind front)
include stands

theorem within_directives :
    Directives.Within (tree.directives file) (tree.stretch file front back) := by
  refine inRow_group (fun back stands directive found => ?_) stands _ _
  simp only [directive?, Option.bind_eq_bind, Option.bind_eq_some_iff] at found
  obtain ⟨name, named, found⟩ := found
  refine fills_node? stands found ⟨holds_name? stands named, ?_⟩
  refine inRow_group (fun back stands argument found => ?_) stands _ _
  simp only [argument?, Option.bind_eq_bind, Option.bind_eq_some_iff] at found
  obtain ⟨name, named, value, given, found⟩ := found
  exact fills_node? stands found
    ⟨holds_name? stands named, holds_firstValue?_children stands given⟩

theorem holds_default? {default : Option (Node Value)} (found : tree.default? file = some default) :
    ∀ value ∈ default, Holds (Node.Fills Value.Within) value (tree.stretch file front back) := by
  unfold default? at found
  split at found
  · cases found
    nofun
  · rename_i branch child
    obtain ⟨value, read, rfl⟩ := Option.map_eq_some_iff.1 found
    rintro _ ⟨⟩
    obtain ⟨cut, before, after, stands, inside⟩ :=
      stands.exists_cut (List.mem_of_find?_eq_some child)
    exact .widen cut (inside ▸ holds_firstValue?_children stands read)

omit stands in
theorem fills_inputValue? :
    ReadsFilling file (inputValue? file) (Node.Fills InputValueDefinition.Within) := by
  intro tree front back stands definition found
  simp only [inputValue?, Option.bind_eq_bind, Option.bind_eq_some_iff] at found
  obtain ⟨default, given, name, named, type, typed, found⟩ := found
  exact fills_node? stands found ⟨holds_name? stands named, holds_type? stands typed,
    holds_default? stands given, within_directives stands⟩

theorem inRow_inputValues (kind : TreeKind) : InRow (Node.Fills InputValueDefinition.Within)
    (tree.inputValues file kind) (tree.stretch file front back) :=
  inRow_group fills_inputValue? stands _ _

theorem inRow_fields : InRow (Node.Fills FieldDefinition.Within) (tree.fields file)
    (tree.stretch file front back) := by
  refine inRow_group (fun back stands definition found => ?_) stands _ _
  simp only [field?, Option.bind_eq_bind, Option.bind_eq_some_iff] at found
  obtain ⟨name, named, type, typed, found⟩ := found
  exact fills_node? stands found ⟨holds_name? stands named, inRow_inputValues stands _,
    holds_type? stands typed, within_directives stands⟩

theorem inRow_enumValues : InRow (Node.Fills EnumValueDefinition.Within)
    (tree.enumValueDefinitions file) (tree.stretch file front back) := by
  refine inRow_group (fun back stands definition found => ?_) stands _ _
  simp only [enumValueDefinition?, Option.bind_eq_bind, Option.bind_eq_some_iff] at found
  obtain ⟨value, child, name, named, found⟩ := found
  obtain ⟨cut, before, after, below, inside⟩ :=
    stands.exists_cut (List.mem_of_find?_eq_some child)
  exact fills_node? stands found
    ⟨.widen cut (inside ▸ holds_name? below named), within_directives stands⟩

theorem inRow_namedTypes (kind : TreeKind) :
    NamesInRow (tree.namedTypes file kind) (tree.stretch file front back) :=
  inRow_group (fun _ stands _ named => holds_name? stands named) stands _ _

/-! ### Definitions -/

theorem fills_objectLikeDefinition? {definition : Node ObjectLikeDefinition}
    (found : tree.objectLikeDefinition? file = some definition) :
    definition.Fills ObjectLikeDefinition.Within (tree.stretch file front back) :=
  fills_named? stands found fun named =>
    ⟨named, inRow_namedTypes stands _, within_directives stands, inRow_fields stands⟩

/-- **A definition that is read off a tree fills the stretch of the tree.** -/
theorem fills_definition? {definition : Definition}
    (found : tree.definition? file = some definition) :
    definition.Fills (tree.stretch file front back) := by
  have directives : Directives.Within (tree.directives file) (tree.stretch file front back) :=
    within_directives stands
  cases tree with
  | leaf role text start => cases found
  | branch kind start stop children =>
      cases kind <;> simp only [definition?] at found <;>
        first | cases found | obtain ⟨node, read, rfl⟩ := Option.map_eq_some_iff.1 found
      case objectDefinition | interfaceDefinition =>
        exact fills_objectLikeDefinition? stands read
      case objectExtension =>
        exact fills_named? stands read fun named =>
          ⟨named, inRow_namedTypes stands _, directives, inRow_fields stands⟩
      case scalarDefinition =>
        exact fills_named? stands read fun named => ⟨named, directives⟩
      case unionDefinition =>
        exact fills_named? stands read fun named =>
          ⟨named, directives, inRow_namedTypes stands _⟩
      case enumDefinition =>
        exact fills_named? stands read fun named => ⟨named, directives, inRow_enumValues stands⟩
      case inputObjectDefinition =>
        exact fills_named? stands read fun named =>
          ⟨named, directives, inRow_inputValues stands _⟩
      case directiveDefinition =>
        exact fills_named? stands read fun named => ⟨named, inRow_inputValues stands _⟩
      case fragmentDefinition =>
        simp only [fragment?, Option.bind_eq_bind, Option.bind_eq_some_iff] at read
        obtain ⟨child, among, name, named, read⟩ := read
        obtain ⟨cut, before, after, below, inside⟩ :=
          stands.exists_cut (List.mem_of_find?_eq_some among)
        refine fills_node? stands read ?_
        exact Holds.widen cut (inside ▸ holds_name? below named)
      case operationDefinition.refl =>
        exact fills_node? stands rfl fun name named => holds_name? stands named
      case schemaDefinition.refl | schemaExtension.refl =>
        exact fills_node? stands rfl trivial
      all_goals exact fills_named? stands read fun named => named

end Members

/-- The definitions of a document stand in a row. -/
theorem inRow_definitions {tree : Tree} {front back : List Char}
    (stands : tree.StandsBehind front) :
    InRow Definition.Fills (tree.definitions file) (tree.stretch file front back) := by
  cases tree with
  | leaf => trivial
  | branch kind start stop children =>
      exact inRow_filterMap back (fun back stands definition found =>
        fills_definition? stands found) stands.2.2

end Tree

/-! ## Documents -/

/-- **All places in a document are right in the text that its tree has kept.** The definitions stand
one behind the other in what is kept of the source, and everything in them stands in its own part of
them. If no error comes with a loss of text, the same holds in the source, also for the partial
document of a text with errors. -/
theorem Document.inRow_of_parse (limits : ReadingLimits) (file : FileId) (source : SourceFile) :
    let parsed := Document.parse limits file source
    (∃ kept : List Char, kept.Sublist source.text.toList ∧
      InRow Definition.Fills parsed.document.definitions ⟨file, [], kept, []⟩) ∧
    ((∀ error ∈ parsed.errors, error.problem.losesText = false) →
      ∃ stretch : Stretch, stretch.file = file ∧ stretch.text = source.text.toList ∧
        InRow Definition.Fills parsed.document.definitions stretch) := by
  dsimp only
  rw [Document.definitions_parse, Document.errors_parse]
  have laid := SyntaxTree.isLaidOut_ofText limits source.text
  generalize SyntaxTree.ofText limits source.text = read at laid ⊢
  obtain ⟨stands, sublist, whole⟩ := laid
  have row (back : List Char) : InRow Definition.Fills (read.tree.definitions file)
      (read.tree.stretch file [] back) := Tree.inRow_definitions file stands
  refine ⟨⟨_, sublist, row []⟩, fun nothingLost => ?_⟩
  rcases whole with ⟨fault, member, loses⟩ | ⟨back, split⟩
  · exact absurd loses (Bool.eq_false_iff.1 (nothingLost _ (List.mem_map_of_mem member)))
  · exact ⟨read.tree.stretch file [] back, rfl, split, row back⟩

/-- The partial document of a text in which a type is missing behind a comment of two-byte
characters has its places in the text. -/
theorem Document.inRow_of_parse_missing_type :
    let source : SourceFile := ⟨"doc.graphql", "# é\ntype A { a: [Int] b: } enum E { X }"⟩
    let parsed := Document.parse {} (.document 0) source
    parsed.errors.length = 1 ∧ parsed.document.definitions.length = 2 ∧
      ∃ stretch : Stretch, stretch.file = .document 0 ∧ stretch.text = source.text.toList ∧
        InRow Definition.Fills parsed.document.definitions stretch := by
  refine ⟨by decide +kernel, by decide +kernel,
    (Document.inRow_of_parse {} (.document 0) _).2 ?_⟩
  decide +kernel

/-- The name of a type behind a rejected character is said to be where the blank in front of it
is. -/
theorem Document.parse_shifted :
    let source : SourceFile := ⟨"doc.graphql", "? type A"⟩
    let parsed := Document.parse {} (.document 0) source
    (parsed.document.definitions.map fun definition =>
        match definition with
        | .type type => (type.name.text, type.name.location)
        | _ => ("", none)) = [("A", some ⟨.document 0, 6, 7⟩)] ∧
      (source.text.toList.drop 6).take 1 = [' '] := by
  decide +kernel

end SchemaGraft
