import Mathlib.Data.List.Forall2
import SchemaGraft.Proofs.Reading.Lexemes
import SchemaGraft.Proofs.Reading.Trees

/-!
# Trees and what is read off them

Each relation of this file says of a tree and of a part of a document that the one is the syntax of
the other. All trees that tell something are accounted for: the parts of a construct stand in a
fixed order, and where there is a list of items every tree of the list is one item, in the same
order.

There is one exception, and it shows in two of the relations. An argument of a directive or a field
of an object value may lack its value, and then it stands for nothing (`ReadsArguments.bare`,
`ReadsValueFields.bare`).

What is related to a tree is what is read off it (`ReadsValue.value?_eq`,
`ReadsDefinition.definition?_eq` and the lemmas between them).
-/

set_option autoImplicit false

namespace SchemaGraft

open SchemaGraft.Tree

/-- A list of trees stands for a list of items, tree by tree. -/
abbrev ReadsAll {α : Type} (reads : Tree → α → Prop) (trees : List Tree) (items : List α) : Prop :=
  List.Forall₂ reads trees items

/-- Items that are read one by one are read together. -/
theorem ReadsAll.filterMap_eq {α : Type} {reads : Tree → α → Prop} {read : Tree → Option α}
    (each : ∀ tree item, reads tree item → read tree = some item) {trees : List Tree}
    {items : List α} (all : ReadsAll reads trees items) : trees.filterMap read = items := by
  induction all with
  | nil => rfl
  | cons first _ ih => rw [List.filterMap_cons_some (each _ _ first), ih]

/-- What holds of every tree that stands for an item holds of all of them. -/
theorem ReadsAll.forall_tree {α : Type} {reads : Tree → α → Prop} {P : Tree → Prop}
    (each : ∀ tree item, reads tree item → P tree) {trees : List Tree} {items : List α}
    (all : ReadsAll reads trees items) : ∀ tree ∈ trees, P tree := by
  induction all with
  | nil => simp
  | cons first _ ih =>
      rw [List.forall_mem_cons]
      exact ⟨each _ _ first, ih⟩

/-! ## Names and descriptions -/

/-- The tree of a name. -/
inductive ReadsName (file : FileId) : Tree → Name → Prop where
  | mk {start stop place : Nat} {children : List Tree} {text : String}
      (content : telling children = [.leaf .identifier text place])
      (word : IsWord .name text) :
      ReadsName file (.branch .name start stop children)
        ⟨text, some ⟨file, place, place + text.utf8ByteSize⟩⟩

/-- A description, or none. -/
inductive ReadsDescription : List Tree → Option String → Prop where
  | absent : ReadsDescription [] none
  | present {start stop from_ upto place : Nat} {children : List Tree} {text : String}
      (content : telling children = [.branch .stringValue from_ upto [.leaf .part text place]]) :
      ReadsDescription [.branch .description start stop children] (some (Text.stringValue text))

section Names

variable {file : FileId}

theorem ReadsName.inSlot {tree : Tree} {name : Name} (reads : ReadsName file tree name) :
    InSlot [.name] [tree] := by
  cases reads
  simp [InSlot]

/-- The name of a branch is the first one among its trees. -/
theorem ReadsName.nameIn?_eq {trees : List Tree} {tree : Tree} {name : Name}
    (reads : ReadsName file tree name)
    (first : (telling trees).find? (onKind (· == .name)) = some tree) :
    nameIn? file trees = some name := by
  cases reads with
  | mk content word =>
      rw [nameIn?, find?_isBranch, first, Option.bind_eq_bind, Option.bind_some, children,
        find?_identifier, content]
      rfl

theorem ReadsDescription.inSlot {trees : List Tree} {description : Option String}
    (reads : ReadsDescription trees description) : InSlot [.description] trees := by
  cases reads <;> simp [InSlot]

theorem ReadsDescription.description?_eq {tree : Tree} {trees : List Tree}
    {description : Option String} (reads : ReadsDescription trees description)
    (first : tree.child? .description = trees.head?) : tree.description? = description := by
  unfold description?
  rw [first]
  cases reads with
  | absent => rfl
  | present content =>
      rw [List.head?_cons, Option.bind_eq_bind, Option.bind_some, child?_branch, content]
      rfl

end Names

/-! ## Types -/

/-- The tree of a reference to a type. -/
inductive ReadsReference (file : FileId) : Tree → TypeReference → Prop where
  | named {start stop : Nat} {children : List Tree} {tree : Tree} {name : Name}
      (content : telling children = [tree]) (named : ReadsName file tree name) :
      ReadsReference file (.branch .namedType start stop children) (.named name)
  | list {start stop : Nat} {children : List Tree} {tree : Tree} {item : TypeReference}
      (content : telling children = [tree]) (reads : ReadsReference file tree item) :
      ReadsReference file (.branch .listType start stop children) (.list item)
  | nonNull {start stop : Nat} {children : List Tree} {tree : Tree}
      {nullable reference : TypeReference} (content : telling children = [tree])
      (inner : ReadsReference file tree nullable) (wrapped : nullable.nonNull? = some reference) :
      ReadsReference file (.branch .nonNullType start stop children) reference

/-- The tree of the type of something. -/
inductive ReadsType (file : FileId) : Tree → Node TypeReference → Prop where
  | mk {kind : TreeKind} {start stop : Nat} {children : List Tree} {reference : TypeReference}
      (reads : ReadsReference file (.branch kind start stop children) reference) :
      ReadsType file (.branch kind start stop children) (.ofLocation ⟨file, start, stop⟩ reference)

section Types

variable {file : FileId}

theorem ReadsReference.inSlot {tree : Tree} {reference : TypeReference}
    (reads : ReadsReference file tree reference) :
    InSlot [.namedType, .listType, .nonNullType] [tree] := by
  cases reads <;> simp [InSlot]

/-- **The reference to a type is read off its tree.** -/
theorem ReadsReference.typeReference?_eq {tree : Tree} {reference : TypeReference}
    (reads : ReadsReference file tree reference) :
    typeReference? file tree = some reference := by
  induction reads with
  | named content named =>
      rw [typeReference?, named.nameIn?_eq]
      · rfl
      · rw [content]
        exact named.inSlot.find?_eq rfl
  | list content item ih =>
      rw [typeReference?, firstType?_telling, content, firstType?, ih]
      cases item <;> rfl
  | @nonNull start stop children tree nullable reference content inner wrapped ih =>
      rw [typeReference?, find?_isBranch, firstItemType?_telling, content]
      cases inner with
      | named content' named =>
          cases wrapped
          show (nameIn? file _).map _ = _
          rw [named.nameIn?_eq]
          · rfl
          · rw [Tree.children, content']
            exact named.inSlot.find?_eq rfl
      | list content' item =>
          cases wrapped
          rw [typeReference?] at ih
          show (firstType? file _).map _ = _
          obtain ⟨found, read, same⟩ := Option.map_eq_some_iff.1 ih
          cases same
          rw [read]
          rfl
      | @nonNull _ _ _ _ inner _ _ _ wrapped' =>
          -- What is non-null already is not wrapped again.
          cases inner <;> cases wrapped' <;> cases wrapped

theorem ReadsType.inSlot {tree : Tree} {type : Node TypeReference}
    (reads : ReadsType file tree type) : InSlot [.namedType, .listType, .nonNullType] [tree] := by
  cases reads with
  | mk reads => exact reads.inSlot

theorem ReadsType.type?_eq {tree typeTree : Tree} {type : Node TypeReference}
    (reads : ReadsType file typeTree type)
    (first : (telling tree.children).find? isType = some typeTree) :
    tree.type? file = some type := by
  unfold type?
  rw [find?_isType, first]
  cases reads with
  | mk reads =>
      simp only [Option.bind_eq_bind, Option.bind_some, reads.typeReference?_eq]
      rfl

end Types

/-! ## Values -/

/-- A name that is no value of another kind. -/
def IsFreeName (text : String) : Prop := text ≠ "true" ∧ text ≠ "false" ∧ text ≠ "null"

mutual

/-- The tree of a constant value. -/
inductive ReadsValue (file : FileId) : Tree → Node Value → Prop where
  | int {start stop place : Nat} {text : String} (word : IsWord .int text) :
      ReadsValue file (.branch .intValue start stop [.leaf .part text place])
        (.ofLocation ⟨file, start, stop⟩ (.int text))
  | float {start stop place : Nat} {text : String} (word : IsWord .float text) :
      ReadsValue file (.branch .floatValue start stop [.leaf .part text place])
        (.ofLocation ⟨file, start, stop⟩ (.float text))
  | string {start stop place : Nat} {text : String} :
      ReadsValue file (.branch .stringValue start stop [.leaf .part text place])
        (.ofLocation ⟨file, start, stop⟩ (.string (Text.stringValue text)))
  | boolean {start stop place : Nat} {text : String} :
      ReadsValue file (.branch .booleanValue start stop [.leaf .part text place])
        (.ofLocation ⟨file, start, stop⟩ (.boolean (text == "true")))
  | null {start stop : Nat} {children : List Tree} :
      ReadsValue file (.branch .nullValue start stop children)
        (.ofLocation ⟨file, start, stop⟩ .null)
  | enumValue {start stop : Nat} {children : List Tree} {tree : Tree} {name : Name}
      (content : telling children = [tree]) (named : ReadsName file tree name)
      (free : IsFreeName name.text) :
      ReadsValue file (.branch .enumValue start stop children)
        (.ofLocation ⟨file, start, stop⟩ (.enumValue name))
  | list {start stop : Nat} {children trees : List Tree} {items : List (Node Value)}
      (content : telling children = trees) (reads : ReadsValues file trees items) :
      ReadsValue file (.branch .listValue start stop children)
        (.ofLocation ⟨file, start, stop⟩ (.list items))
  | object {start stop : Nat} {children trees : List Tree} {fields : List (Name × Node Value)}
      (content : telling children = trees) (reads : ReadsValueFields file trees fields) :
      ReadsValue file (.branch .objectValue start stop children)
        (.ofLocation ⟨file, start, stop⟩ (.object fields))

/-- The trees of the items of a list value. -/
inductive ReadsValues (file : FileId) : List Tree → List (Node Value) → Prop where
  | nil : ReadsValues file [] []
  | cons {tree : Tree} {trees : List Tree} {item : Node Value} {items : List (Node Value)}
      (first : ReadsValue file tree item) (rest : ReadsValues file trees items) :
      ReadsValues file (tree :: trees) (item :: items)

/-- The trees of the fields of an object value. A field without a value is left out. -/
inductive ReadsValueFields (file : FileId) : List Tree → List (Name × Node Value) → Prop where
  | nil : ReadsValueFields file [] []
  | cons {start stop : Nat} {children trees : List Tree} {nameTree valueTree : Tree} {name : Name}
      {value : Node Value} {fields : List (Name × Node Value)}
      (content : telling children = [nameTree, valueTree])
      (named : ReadsName file nameTree name) (first : ReadsValue file valueTree value)
      (rest : ReadsValueFields file trees fields) :
      ReadsValueFields file (.branch .objectField start stop children :: trees)
        ((name, value) :: fields)
  | bare {start stop : Nat} {children trees : List Tree} {nameTree : Tree} {name : Name}
      {fields : List (Name × Node Value)} (content : telling children = [nameTree])
      (named : ReadsName file nameTree name) (rest : ReadsValueFields file trees fields) :
      ReadsValueFields file (.branch .objectField start stop children :: trees) fields

end

section Values

variable {file : FileId}

theorem ReadsValue.isValue_eq {tree : Tree} {value : Node Value}
    (reads : ReadsValue file tree value) : tree.isValue = true := by
  cases reads <;> rfl

theorem ReadsName.onKind_eq {tree : Tree} {name : Name} (reads : ReadsName file tree name) :
    tree.onKind (· == .name) = true := by
  cases reads
  rfl

theorem ReadsName.isValue_eq {tree : Tree} {name : Name} (reads : ReadsName file tree name) :
    tree.isValue = false := by
  cases reads
  rfl

mutual

/-- **A value is read off its tree.** -/
theorem ReadsValue.value?_eq {tree : Tree} {value : Node Value} :
    ReadsValue file tree value → value? file tree = some value
  | .int _ | .float _ | .string | .boolean | .null => rfl
  | .enumValue content named _ => by
      rw [value?, named.nameIn?_eq]
      · rfl
      · rw [content]
        exact named.inSlot.find?_eq rfl
  | .list content reads => by
      rw [value?, values_telling, content, reads.values_eq]
      rfl
  | .object content reads => by
      rw [value?, valueFields_telling, content, reads.valueFields_eq]
      rfl

theorem ReadsValues.values_eq {trees : List Tree} {items : List (Node Value)} :
    ReadsValues file trees items → values file trees = items
  | .nil => rfl
  | .cons first rest => by rw [values, first.value?_eq, rest.values_eq]

theorem ReadsValueFields.valueFields_eq {trees : List Tree} {fields : List (Name × Node Value)} :
    ReadsValueFields file trees fields → valueFields file trees = fields
  | .nil => rfl
  | .cons content named first rest => by
      rw [valueFields, named.nameIn?_eq, firstValue?_telling, content, firstValue?,
        named.isValue_eq, if_neg Bool.false_ne_true, firstValue?, first.isValue_eq, if_pos rfl,
        first.value?_eq, rest.valueFields_eq]
      rw [content, List.find?_cons, named.onKind_eq]
  | .bare content named rest => by
      rw [valueFields, firstValue?_telling, content, firstValue?, named.isValue_eq,
        if_neg Bool.false_ne_true, firstValue?]
      cases nameIn? file _ <;> exact rest.valueFields_eq

end

end Values

/-! ## Groups -/

/-- A branch of a kind that holds a list of items, or nothing if there are none. -/
inductive ReadsGroup {α : Type} (kind : TreeKind) (reads : Tree → α → Prop) :
    List Tree → List α → Prop where
  | absent : ReadsGroup kind reads [] []
  | present {start stop : Nat} {children : List Tree} {items : List α}
      (all : ReadsAll reads (telling children) items) :
      ReadsGroup kind reads [.branch kind start stop children] items

theorem ReadsGroup.inSlot {α : Type} {kind : TreeKind} {reads : Tree → α → Prop}
    {trees : List Tree} {items : List α} (group : ReadsGroup kind reads trees items) :
    InSlot [kind] trees := by
  cases group <;> simp [InSlot]

/-- All trees of a branch that are items are branches of their kind. -/
theorem ReadsAll.childrenOf_eq {α : Type} {reads : Tree → α → Prop} {item : TreeKind}
    (each : ∀ tree part, reads tree part → tree.onKind (· == item) = true)
    {kind : TreeKind} {start stop : Nat} {children : List Tree} {items : List α}
    (all : ReadsAll reads (telling children) items) :
    (branch kind start stop children).childrenOf item = telling children := by
  rw [childrenOf, Tree.children, filter_isBranch, List.filter_eq_self]
  exact all.forall_tree each

/-- **The items of a group are read off its trees.** -/
theorem ReadsGroup.read_eq {α : Type} {kind item : TreeKind} {reads : Tree → α → Prop}
    {read : Tree → Option α} {tree : Tree} {trees : List Tree} {items : List α}
    (group : ReadsGroup kind reads trees items)
    (each : ∀ tree part, reads tree part →
      tree.onKind (· == item) = true ∧ read tree = some part)
    (first : tree.child? kind = trees.head?) :
    ((tree.child? kind).elim [] fun found => (found.childrenOf item).filterMap read) = items := by
  rw [first]
  cases group with
  | absent => rfl
  | present all =>
      rw [List.head?_cons, Option.elim_some,
        all.childrenOf_eq fun tree part reads => (each tree part reads).1]
      exact all.filterMap_eq fun tree part reads => (each tree part reads).2

/-! ## Directive applications -/

/-- The trees of the arguments that are given to a directive. An argument without a value is left
out. -/
inductive ReadsArguments (file : FileId) : List Tree → List (Node Argument) → Prop where
  | nil : ReadsArguments file [] []
  | cons {start stop : Nat} {children trees : List Tree} {nameTree valueTree : Tree} {name : Name}
      {value : Node Value} {arguments : List (Node Argument)}
      (content : telling children = [nameTree, valueTree])
      (named : ReadsName file nameTree name) (first : ReadsValue file valueTree value)
      (rest : ReadsArguments file trees arguments) :
      ReadsArguments file (.branch .argument start stop children :: trees)
        (.ofLocation ⟨file, start, stop⟩ ⟨name, value⟩ :: arguments)
  | bare {start stop : Nat} {children trees : List Tree} {nameTree : Tree} {name : Name}
      {arguments : List (Node Argument)} (content : telling children = [nameTree])
      (named : ReadsName file nameTree name) (rest : ReadsArguments file trees arguments) :
      ReadsArguments file (.branch .argument start stop children :: trees) arguments

/-- The tree of the application of a directive. -/
inductive ReadsDirective (file : FileId) : Tree → Node Directive → Prop where
  | plain {start stop : Nat} {children : List Tree} {nameTree : Tree} {name : Name}
      (content : telling children = [nameTree]) (named : ReadsName file nameTree name) :
      ReadsDirective file (.branch .directive start stop children)
        (.ofLocation ⟨file, start, stop⟩ ⟨name, []⟩)
  | given {start stop from_ upto : Nat} {children inner : List Tree} {nameTree : Tree}
      {name : Name} {arguments : List (Node Argument)}
      (content : telling children = [nameTree, .branch .arguments from_ upto inner])
      (named : ReadsName file nameTree name)
      (reads : ReadsArguments file (telling inner) arguments) :
      ReadsDirective file (.branch .directive start stop children)
        (.ofLocation ⟨file, start, stop⟩ ⟨name, arguments⟩)

/-- The trees of the directives that are applied to something. -/
abbrev ReadsDirectives (file : FileId) : List Tree → Directives → Prop :=
  ReadsGroup .directives (ReadsDirective file)

section Directives

variable {file : FileId}

theorem ReadsArguments.filterMap_eq {trees : List Tree} {arguments : List (Node Argument)}
    (reads : ReadsArguments file trees arguments) :
    (trees.filter (onKind (· == .argument))).filterMap (argument? file) = arguments := by
  induction reads with
  | nil => rfl
  | cons content named first rest ih =>
      rw [List.filter_cons_of_pos rfl, List.filterMap_cons_some, ih]
      rw [argument?, name?, Tree.children, named.nameIn?_eq, Option.bind_eq_bind, Option.bind_some,
        firstValue?_telling, content, firstValue?, named.isValue_eq, if_neg Bool.false_ne_true,
        firstValue?, first.isValue_eq, if_pos rfl, first.value?_eq]
      · rfl
      · rw [content, List.find?_cons, named.onKind_eq]
  | bare content named rest ih =>
      rw [List.filter_cons_of_pos rfl, List.filterMap_cons_none, ih]
      rw [argument?, name?, Tree.children, named.nameIn?_eq, Option.bind_eq_bind, Option.bind_some,
        firstValue?_telling, content, firstValue?, named.isValue_eq, if_neg Bool.false_ne_true]
      · rfl
      · rw [content, List.find?_cons, named.onKind_eq]

theorem ReadsDirective.directive?_eq {tree : Tree} {directive : Node Directive}
    (reads : ReadsDirective file tree directive) :
    tree.onKind (· == .directive) = true ∧ directive? file tree = some directive := by
  cases reads with
  | plain content named =>
      refine ⟨rfl, ?_⟩
      rw [directive?, name?, Tree.children, named.nameIn?_eq, child?_branch, content,
        List.find?_cons_of_neg, List.find?_nil]
      · rfl
      · cases named
        simp [onKind]
      · rw [content, List.find?_cons, named.onKind_eq]
  | given content named reads =>
      refine ⟨rfl, ?_⟩
      rw [directive?, name?, Tree.children, named.nameIn?_eq, child?_branch, content,
        List.find?_cons_of_neg, List.find?_cons_of_pos rfl, Option.elim_some, childrenOf,
        Tree.children, filter_isBranch, reads.filterMap_eq]
      · rfl
      · cases named
        simp [onKind]
      · rw [content, List.find?_cons, named.onKind_eq]

theorem ReadsDirectives.directives_eq {tree : Tree} {trees : List Tree} {directives : Directives}
    (reads : ReadsDirectives file trees directives)
    (first : tree.child? .directives = trees.head?) : tree.directives file = directives :=
  reads.read_eq (fun _ _ reads => reads.directive?_eq) first

end Directives

end SchemaGraft
