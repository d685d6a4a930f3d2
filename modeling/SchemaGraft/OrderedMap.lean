/-!
# Maps that remember the order of insertion

An `OrderedMap` is a list of entries no two of which have the same key. Keys are compared with
`==`, which need not be equality: the keys of a schema are names, and names are compared by their
text alone while each keeps the place where it was written.

* `insert` puts a new key at the end. A key that is already there stays as it was first written,
  and only its value changes.
* `erase` keeps the order of the remaining entries.
* `get?_insert_self` and `get?_insert_of_ne` say what `insert` does to a look-up.
-/

set_option autoImplicit false

namespace SchemaGraft

universe u v

/-- A finite map whose entries stay in the order in which their keys were first inserted. -/
structure OrderedMap (κ : Type u) (ν : Type v) [BEq κ] where
  /-- The entries, oldest first. -/
  entries : List (κ × ν)
  /-- No key occurs twice. -/
  distinct : entries.Pairwise fun earlier later => (earlier.1 == later.1) = false

namespace OrderedMap

variable {κ : Type u} {ν : Type v} [BEq κ]

@[ext]
theorem ext {left right : OrderedMap κ ν} (entries : left.entries = right.entries) :
    left = right := by
  cases left; cases right; cases entries; rfl

/-! ## Reading -/

/-- The map without entries. -/
def empty : OrderedMap κ ν := ⟨[], .nil⟩

instance : EmptyCollection (OrderedMap κ ν) := ⟨empty⟩

instance : Inhabited (OrderedMap κ ν) := ⟨empty⟩

/-- The keys in order. -/
def keys (map : OrderedMap κ ν) : List κ := map.entries.map (·.1)

/-- The values in the order of their keys. -/
def values (map : OrderedMap κ ν) : List ν := map.entries.map (·.2)

/-- The number of entries. -/
def size (map : OrderedMap κ ν) : Nat := map.entries.length

/-- Whether there is no entry. -/
def isEmpty (map : OrderedMap κ ν) : Bool := map.entries.isEmpty

/-- The entry of a key, with the key as it was first inserted. -/
def find? (map : OrderedMap κ ν) (key : κ) : Option (κ × ν) :=
  map.entries.find? fun entry => entry.1 == key

/-- The value of a key. -/
def get? (map : OrderedMap κ ν) (key : κ) : Option ν := (map.find? key).map (·.2)

/-- Whether a key has a value. -/
def contains (map : OrderedMap κ ν) (key : κ) : Bool := map.entries.any fun entry => entry.1 == key

/-! ## Writing -/

/-- Replaces the value of a key in a list of entries, or adds the key at the end. -/
def insertEntry (key : κ) (value : ν) : List (κ × ν) → List (κ × ν)
  | [] => [(key, value)]
  | entry :: rest =>
    if entry.1 == key then (entry.1, value) :: rest else entry :: insertEntry key value rest

theorem fst_of_mem_insertEntry {key : κ} {value : ν} {entries : List (κ × ν)} {entry : κ × ν}
    (member : entry ∈ insertEntry key value entries) :
    entry.1 = key ∨ ∃ old ∈ entries, entry.1 = old.1 := by
  induction entries with
  | nil => simp [insertEntry] at member; simp [member]
  | cons head rest ih =>
    unfold insertEntry at member
    split at member
    · rcases List.mem_cons.1 member with rfl | member
      · exact .inr ⟨head, by simp, rfl⟩
      · exact .inr ⟨entry, by simp [member], rfl⟩
    · rcases List.mem_cons.1 member with rfl | member
      · exact .inr ⟨entry, by simp, rfl⟩
      · rcases ih member with same | ⟨old, old_mem, same⟩
        · exact .inl same
        · exact .inr ⟨old, by simp [old_mem], same⟩

theorem pairwise_insertEntry (key : κ) (value : ν) {entries : List (κ × ν)}
    (distinct : entries.Pairwise fun earlier later => (earlier.1 == later.1) = false) :
    (insertEntry key value entries).Pairwise fun earlier later =>
      (earlier.1 == later.1) = false := by
  induction entries with
  | nil => exact List.pairwise_singleton _ _
  | cons head rest ih =>
    obtain ⟨apart, distinct⟩ := List.pairwise_cons.1 distinct
    unfold insertEntry
    split
    · exact List.pairwise_cons.2 ⟨apart, distinct⟩
    · rename_i other
      refine List.pairwise_cons.2 ⟨fun entry member => ?_, ih distinct⟩
      rcases fst_of_mem_insertEntry member with same | ⟨old, old_mem, same⟩
      · simpa [same] using other
      · simpa [same] using apart old old_mem

/-- Gives a key a value. A key that is already there keeps its place and its spelling. -/
def insert (map : OrderedMap κ ν) (key : κ) (value : ν) : OrderedMap κ ν :=
  ⟨insertEntry key value map.entries, pairwise_insertEntry key value map.distinct⟩

/-- Takes a key out and keeps the order of the others. -/
def erase (map : OrderedMap κ ν) (key : κ) : OrderedMap κ ν :=
  ⟨map.entries.filter fun entry => !(entry.1 == key), map.distinct.filter _⟩

/-- Inserts the entries of a second map after those of a first. -/
def merge (map later : OrderedMap κ ν) : OrderedMap κ ν :=
  later.entries.foldl (fun merged entry => merged.insert entry.1 entry.2) map

/-- Inserts the entries of a list one after the other. -/
def ofList (entries : List (κ × ν)) : OrderedMap κ ν :=
  entries.foldl (fun built entry => built.insert entry.1 entry.2) empty

/-- Changes the value of one key, if it is there. -/
def modify (map : OrderedMap κ ν) (key : κ) (change : ν → ν) : OrderedMap κ ν :=
  match map.find? key with
  | some (stored, value) => map.insert stored (change value)
  | none => map

/-! ## Comparing -/

/-- Whether two maps give the same keys equal values; the order of the entries does not count. -/
def same (equal : ν → ν → Bool) (left right : OrderedMap κ ν) : Bool :=
  left.size == right.size && left.entries.all fun entry =>
    match right.get? entry.1 with
    | some value => equal entry.2 value
    | none => false

/-- Maps are compared without regard to the order of their entries. -/
instance [BEq ν] : BEq (OrderedMap κ ν) := ⟨same (· == ·)⟩

/-! ## What a look-up sees -/

@[simp]
theorem get?_empty (key : κ) : (empty : OrderedMap κ ν).get? key = none := rfl

theorem contains_eq_isSome_get? (map : OrderedMap κ ν) (key : κ) :
    map.contains key = (map.get? key).isSome := by
  rw [Bool.eq_iff_iff]
  simp [contains, get?, find?, List.find?_isSome]

theorem find?_insertEntry_self [ReflBEq κ] (key : κ) (value : ν) (entries : List (κ × ν)) :
    ((insertEntry key value entries).find? fun entry => entry.1 == key).map (·.2) = some value := by
  induction entries with
  | nil => simp [insertEntry]
  | cons head rest ih =>
    unfold insertEntry
    split
    · rename_i same; simp [same]
    · rename_i other; simp [other, ih]

theorem find?_insertEntry_of_ne [PartialEquivBEq κ] {key other : κ} (value : ν)
    (ne : (key == other) = false) (entries : List (κ × ν)) :
    ((insertEntry key value entries).find? fun entry => entry.1 == other).map (·.2) =
      (entries.find? fun entry => entry.1 == other).map (·.2) := by
  induction entries with
  | nil => simp [insertEntry, ne]
  | cons head rest ih =>
    unfold insertEntry
    split
    · rename_i same
      have : (head.1 == other) = false := by
        rw [← Bool.not_eq_true]
        intro meets
        have := PartialEquivBEq.trans (PartialEquivBEq.symm same) meets
        simp [ne] at this
      simp [this]
    · cases meets : head.1 == other <;> simp [meets, ih]

theorem get?_insert_self [ReflBEq κ] (map : OrderedMap κ ν) (key : κ) (value : ν) :
    (map.insert key value).get? key = some value :=
  find?_insertEntry_self key value map.entries

theorem get?_insert_of_ne [PartialEquivBEq κ] (map : OrderedMap κ ν) {key other : κ} (value : ν)
    (ne : (key == other) = false) : (map.insert key value).get? other = map.get? other :=
  find?_insertEntry_of_ne value ne map.entries

end OrderedMap

end SchemaGraft
