import SchemaGraft.Document.Parse

/-!
# What the parts of a syntax tree tell

A branch of a syntax tree holds more than a document keeps of it: white space, punctuation and words
that only hold the rest together. `Tree.telling` are the trees among some trees that tell something.
Whatever is looked up among the trees of a branch is found among these (`Tree.find?_isBranch` and
the lemmas beside it).

The trees that tell something stand in slots: each part of a construct takes up no tree or one, and
the kinds of the slots differ. So looking for a kind leads to the slot of that kind
(`Tree.InSlot.find?_eq`).
-/

set_option autoImplicit false

namespace SchemaGraft

namespace Tree

/-! ## Trees that tell something -/

/-- Whether a tree tells something that a document keeps: a branch, the text of a name, or the word
that makes a directive repeatable. -/
def tells : Tree → Bool
  | branch .. => true
  | leaf role _ _ =>
    match role with
    | .identifier | .repeatable => true
    | .part | .ignored | .rejected => false

/-- The trees among some trees that tell something. -/
def telling (trees : List Tree) : List Tree := trees.filter tells

@[simp]
theorem telling_nil : telling [] = [] := rfl

@[simp]
theorem telling_append (first second : List Tree) :
    telling (first ++ second) = telling first ++ telling second :=
  List.filter_append _ _

@[simp]
theorem telling_reverse (trees : List Tree) : telling trees.reverse = (telling trees).reverse :=
  List.filter_reverse

theorem telling_cons_of_tells {tree : Tree} (trees : List Tree) (tells : tree.tells = true) :
    telling (tree :: trees) = tree :: telling trees :=
  List.filter_cons_of_pos tells

theorem telling_cons_of_not_tells {tree : Tree} (trees : List Tree) (silent : tree.tells = false) :
    telling (tree :: trees) = telling trees :=
  List.filter_cons_of_neg (by simp [silent])

/-- Whether a tree is a branch of a kind for which something holds. -/
def onKind (holds : TreeKind → Bool) : Tree → Bool
  | branch kind _ _ _ => holds kind
  | leaf .. => false

theorem tells_of_onKind {holds : TreeKind → Bool} {tree : Tree}
    (found : tree.onKind holds = true) : tree.tells = true := by
  cases tree with
  | leaf role text start => cases found
  | branch kind start stop children => rfl

theorem isBranch_eq (kind : TreeKind) : isBranch kind = onKind (· == kind) := by
  funext tree
  cases tree <;> rfl

theorem isType_eq :
    isType = onKind fun kind =>
      kind == .namedType || kind == .listType || kind == .nonNullType := by
  funext tree
  cases tree <;> rfl

/-! ## Looking among the trees that tell something -/

section Lookup

variable {condition : Tree → Bool} (trees : List Tree)
  (telling_of : ∀ tree, condition tree = true → tree.tells = true)
include telling_of

theorem find?_telling : trees.find? condition = (telling trees).find? condition := by
  rw [telling, List.find?_filter]
  congr 1
  funext tree
  cases holds : condition tree with
  | true => simp [telling_of tree holds]
  | false => simp

theorem filter_telling : trees.filter condition = (telling trees).filter condition := by
  rw [telling, List.filter_filter]
  congr 1
  funext tree
  cases holds : condition tree with
  | true => simp [telling_of tree holds]
  | false => simp

theorem any_telling : trees.any condition = (telling trees).any condition := by
  rw [telling, List.any_filter]
  congr 1
  funext tree
  cases holds : condition tree with
  | true => simp [telling_of tree holds]
  | false => simp

end Lookup

theorem find?_isBranch (kind : TreeKind) (trees : List Tree) :
    trees.find? (isBranch kind) = (telling trees).find? (onKind (· == kind)) := by
  rw [isBranch_eq]
  exact find?_telling trees fun _ => tells_of_onKind

theorem find?_isType (trees : List Tree) :
    trees.find? isType = (telling trees).find? isType := by
  rw [isType_eq]
  exact find?_telling trees fun _ => tells_of_onKind

theorem filter_isBranch (kind : TreeKind) (trees : List Tree) :
    trees.filter (isBranch kind) = (telling trees).filter (onKind (· == kind)) := by
  rw [isBranch_eq]
  exact filter_telling trees fun _ => tells_of_onKind

theorem find?_identifier (trees : List Tree) :
    trees.find? (isLeaf .identifier) = (telling trees).find? (isLeaf .identifier) := by
  refine find?_telling trees fun tree found => ?_
  cases tree with
  | branch kind start stop children => rfl
  | leaf role text start =>
      rw [isLeaf, beq_iff_eq] at found
      rw [found]
      rfl

theorem any_repeatable (trees : List Tree) :
    trees.any (isLeaf .repeatable) = (telling trees).any (isLeaf .repeatable) := by
  refine any_telling trees fun tree found => ?_
  cases tree with
  | branch kind start stop children => rfl
  | leaf role text start =>
      rw [isLeaf, beq_iff_eq] at found
      rw [found]
      rfl

/-- The first branch of a kind below a branch. -/
theorem child?_branch (kind own : TreeKind) (start stop : Nat) (children : List Tree) :
    (branch own start stop children).child? kind =
      (telling children).find? (onKind (· == kind)) :=
  find?_isBranch kind children

/-! ### Recursive look-ups -/

section Recursive

variable (file : FileId) (trees : List Tree)

theorem firstType?_telling : firstType? file trees = firstType? file (telling trees) := by
  induction trees with
  | nil => rfl
  | cons tree rest ih =>
      cases silent : tree.tells with
      | true =>
          rw [telling_cons_of_tells _ silent, firstType?, firstType?, ih]
      | false =>
          cases tree with
          | branch kind start stop children => cases silent
          | leaf role text start =>
              rw [telling_cons_of_not_tells _ silent, firstType?, ← ih]
              rfl

theorem firstItemType?_telling :
    firstItemType? file trees = firstItemType? file (telling trees) := by
  induction trees with
  | nil => rfl
  | cons tree rest ih =>
      cases tree with
      | branch kind start stop children =>
          rw [telling_cons_of_tells _ rfl, firstItemType?, firstItemType?, ih]
      | leaf role text start =>
          rw [firstItemType?, ih]
          cases silent : (leaf role text start).tells with
          | true => rw [telling_cons_of_tells _ silent, firstItemType?]
          | false => rw [telling_cons_of_not_tells _ silent]

theorem values_telling : values file trees = values file (telling trees) := by
  induction trees with
  | nil => rfl
  | cons tree rest ih =>
      cases silent : tree.tells with
      | true => rw [telling_cons_of_tells _ silent, values, values, ih]
      | false =>
          cases tree with
          | branch kind start stop children => cases silent
          | leaf role text start =>
              rw [telling_cons_of_not_tells _ silent, values, ← ih]
              rfl

theorem firstValue?_telling : firstValue? file trees = firstValue? file (telling trees) := by
  induction trees with
  | nil => rfl
  | cons tree rest ih =>
      cases silent : tree.tells with
      | true => rw [telling_cons_of_tells _ silent, firstValue?, firstValue?, ih]
      | false =>
          cases tree with
          | branch kind start stop children => cases silent
          | leaf role text start =>
              rw [telling_cons_of_not_tells _ silent, firstValue?, ← ih]
              rfl

theorem valueFields_telling : valueFields file trees = valueFields file (telling trees) := by
  induction trees with
  | nil => rfl
  | cons tree rest ih =>
      cases tree with
      | branch kind start stop children =>
          by_cases field : kind = .objectField
          · subst field
            rw [telling_cons_of_tells _ rfl, valueFields, valueFields, ih]
          · rw [telling_cons_of_tells _ rfl, valueFields, valueFields, ih] <;> exact field
      | leaf role text start =>
          rw [valueFields, ih]
          cases silent : (leaf role text start).tells with
          | true => rw [telling_cons_of_tells _ silent, valueFields]
          | false => rw [telling_cons_of_not_tells _ silent]

end Recursive

/-! ## Slots -/

/-- Some trees are none, or one branch whose kind is among some kinds. -/
def InSlot (kinds : List TreeKind) (trees : List Tree) : Prop :=
  ∀ tree ∈ trees, ∃ kind ∈ kinds, ∃ start stop children, tree = branch kind start stop children

/-- Looking for kinds that a slot has leads to what is in it. -/
theorem InSlot.find?_eq {kinds : List TreeKind} {trees : List Tree} (inSlot : InSlot kinds trees)
    {holds : TreeKind → Bool} (all : kinds.all holds = true) :
    trees.find? (onKind holds) = trees.head? := by
  cases trees with
  | nil => rfl
  | cons tree rest =>
      obtain ⟨kind, member, start, stop, children, rfl⟩ := inSlot tree (by simp)
      rw [List.head?_cons, List.find?_cons_of_pos]
      exact List.all_eq_true.1 all kind member

/-- Looking for other kinds leads past a slot. -/
theorem InSlot.find?_eq_none {kinds : List TreeKind} {trees : List Tree}
    (inSlot : InSlot kinds trees) {holds : TreeKind → Bool} (any : kinds.any holds = false) :
    trees.find? (onKind holds) = none := by
  refine List.find?_eq_none.2 fun tree member found => ?_
  obtain ⟨kind, listed, start, stop, children, rfl⟩ := inSlot tree member
  rw [List.any_eq_false] at any
  exact any kind listed found

end Tree

end SchemaGraft
