import Mathlib.Data.List.Nodup
import Mathlib.Data.List.Perm.Subperm
import SchemaGraft.Json.Basic
import SchemaGraft.Proofs.Equality.Documents
import SchemaGraft.Proofs.OrderedMaps

/-!
# Equality of maps and of JSON values

Two maps are compared one way: they are as long as each other, and what is in the first is looked up
in the second. As no name occurs twice, that says that all look-ups agree (`lookup_eq_iff`). So two
maps of names are equal if and only if each name leads to the same in both
(`Memory.ComparesBy.nameMap`), and the order of their entries does not count.

The objects among JSON values are compared in this way at every depth (`Json.compares`).
-/

set_option autoImplicit false

namespace SchemaGraft

/-! ## Look-ups in lists -/

section LookUps

variable {β : Type}

theorem lookup_eq_some_iff_mem {entries : List (String × β)}
    (distinct : (entries.map (·.1)).Nodup) (text : String) (value : β) :
    entries.lookup text = some value ↔ (text, value) ∈ entries := by
  induction entries with
  | nil => simp
  | cons first rest ih =>
      obtain ⟨name, stored⟩ := first
      rw [List.map_cons, List.nodup_cons] at distinct
      rw [List.lookup_cons]
      by_cases same : text = name
      · subst same
        have unlisted : (text, value) ∉ rest := fun listed =>
          distinct.1 (List.mem_map_of_mem (f := (·.1)) listed)
        simp [unlisted, eq_comm]
      · have ne : (text == name) = false := beq_false_of_ne same
        simp [ne, same, ih distinct.2]

/-- **Look-ups in two lists agree** if these are as long as each other and what is in the first is
found in the second. -/
theorem lookup_eq_iff {left right : List (String × β)} (left_distinct : (left.map (·.1)).Nodup)
    (right_distinct : (right.map (·.1)).Nodup) :
    (fun text => left.lookup text) = (fun text => right.lookup text) ↔
      left.length = right.length ∧ ∀ entry ∈ left, right.lookup entry.1 = some entry.2 := by
  have left_found := @lookup_eq_some_iff_mem _ left left_distinct
  have right_found := @lookup_eq_some_iff_mem _ right right_distinct
  constructor
  · intro agree
    have found : ∀ text value, (text, value) ∈ left ↔ (text, value) ∈ right := by
      intro text value
      rw [← left_found, ← right_found, show left.lookup text = _ from congrFun agree text]
    have perm : left.Perm right :=
      (List.perm_ext_iff_of_nodup left_distinct.of_map right_distinct.of_map).2
        fun entry => found entry.1 entry.2
    exact ⟨perm.length_eq, fun entry listed => (right_found _ _).2 (perm.mem_iff.1 listed)⟩
  · rintro ⟨lengths, found⟩
    have subset : left ⊆ right := fun entry listed => (right_found _ _).1 (found entry listed)
    have perm : left.Perm right :=
      (List.subperm_of_subset left_distinct.of_map subset).perm_of_length_le
        (Nat.le_of_eq lengths.symm)
    funext text
    refine Option.ext fun value => ?_
    rw [left_found, right_found, perm.mem_iff]

end LookUps

/-! ## Maps of names -/

section Maps

variable {ν β : Type} {part : ν → β}

/-- What each name leads to. -/
def NameMap.essence (part : ν → β) (map : NameMap ν) : String → Option β :=
  fun text => (map.get? (.plain text)).map part

/-- Which names are in a set. -/
def NameSet.essence (names : NameSet) : String → Bool := fun text => names.contains (.plain text)

theorem NameMap.essence_text (part : ν → β) (map : NameMap ν) (name : Name) :
    map.essence part name.text = (map.get? name).map part := by
  have same : (Name.plain name.text == name) = true := Name.beq_iff_text_eq.2 rfl
  rw [essence, OrderedMap.get?_congr map same]

/-- The entries of a map, by the texts of their names. -/
def NameMap.parts (part : ν → β) (map : NameMap ν) : List (String × β) :=
  map.labelled.map fun entry => (entry.1, part entry.2)

theorem NameMap.nodup_parts (part : ν → β) (map : NameMap ν) :
    ((map.parts part).map (·.1)).Nodup := by
  rw [parts, List.map_map]
  exact map.texts_eq_labelled ▸ map.nodup_texts

theorem NameMap.lookup_parts (part : ν → β) (map : NameMap ν) (text : String) :
    (map.parts part).lookup text = map.essence part text := by
  refine Option.ext fun value => ?_
  rw [lookup_eq_some_iff_mem (map.nodup_parts part), essence, Option.map_eq_some_iff]
  simp only [parts, labelled, List.map_map, List.mem_map, Function.comp_apply, Prod.mk.injEq,
    OrderedMap.get?_eq_some_iff, Name.beq_iff_text_eq]
  constructor
  · rintro ⟨entry, listed, text_eq, value_eq⟩
    exact ⟨entry.2, ⟨entry.1, listed, text_eq⟩, value_eq⟩
  · rintro ⟨stored, ⟨name, listed, text_eq⟩, value_eq⟩
    exact ⟨(name, stored), listed, text_eq, value_eq⟩

variable [BEq ν] {memory : Memory} {inside : Memory → ν → Prop}

/-- **Maps of names are equal if and only if each name leads to the same in both.** -/
theorem Memory.ComparesBy.nameMap (compares : memory.ComparesBy inside part) :
    memory.ComparesBy (fun memory map => ∀ value ∈ OrderedMap.values map, inside memory value)
      (NameMap.essence part) := by
  constructor
  intro left right left_in right_in
  have agree := lookup_eq_iff (NameMap.nodup_parts part left) (NameMap.nodup_parts part right)
  simp only [NameMap.lookup_parts] at agree
  refine Iff.trans ?_ agree.symm
  show OrderedMap.same (· == ·) left right = true ↔ _
  have length_parts : ∀ map : NameMap ν, (map.parts part).length = map.size := by
    simp [NameMap.parts, NameMap.labelled, OrderedMap.size]
  rw [OrderedMap.same, Bool.and_eq_true, beq_iff_eq, length_parts, length_parts, List.all_eq_true]
  simp only [NameMap.parts, NameMap.labelled, List.map_map, List.forall_mem_map,
    Function.comp_apply, NameMap.essence_text]
  refine and_congr_right fun _ => forall₂_congr fun entry listed => ?_
  have entry_in := left_in entry.2 (List.mem_map_of_mem listed)
  cases found : right.get? entry.1 with
  | none => simp
  | some value =>
      obtain ⟨stored, present, _⟩ := (OrderedMap.get?_eq_some_iff _ _ _).1 found
      have value_in := right_in value (List.mem_map_of_mem (f := (·.2)) present)
      simp [compares.iff entry_in value_in, eq_comm]

/-- Sets are equal if and only if they have the same names. -/
theorem NameSet.compares (memory : Memory) :
    memory.ComparesBy (fun _ _ => True) NameSet.essence := by
  constructor
  intro left right _ _
  have units : memory.ComparesBy (fun _ _ => True) (id : Unit → Unit) := ⟨fun _ _ => by simp⟩
  refine (units.nameMap.iff (fun _ _ => trivial) (fun _ _ => trivial)).trans ?_
  simp only [funext_iff, NameMap.essence, essence, OrderedMap.contains_eq_isSome_get?]
  refine forall_congr' fun text => ?_
  cases left.get? (.plain text) <;> cases right.get? (.plain text) <;> simp

end Maps

/-! ## JSON values -/

/-- What a JSON value says: an object leads from names to values, and a number is what it stands
for. -/
inductive JsonEssence where
  | null
  | bool (value : Bool)
  | number (value : NumberValue)
  | string (text : String)
  | array (items : List JsonEssence)
  | object (fields : String → Option JsonEssence)

namespace Json

mutual

/-- The essence of a value. -/
def essence : Json → JsonEssence
  | null => .null
  | bool value => .bool value
  | number value => .number value.value
  | string text => .string text
  | array items => .array (essenceItems items)
  | object fields => .object fun text => essenceFields text fields

/-- The essences of the items of an array. -/
def essenceItems : List Json → List JsonEssence
  | [] => []
  | item :: rest => essence item :: essenceItems rest

/-- The essence of the value of the field of a name. -/
def essenceFields (text : String) : List (String × Json) → Option JsonEssence
  | [] => none
  | (name, value) :: rest => if text == name then some (essence value) else essenceFields text rest

end

mutual

/-- No object inside a value has two fields of one name. -/
def IsProper : Json → Prop
  | array items => AreItemsProper items
  | object fields => (fields.map (·.1)).Nodup ∧ AreFieldsProper fields
  | null | bool _ | number _ | string _ => True

/-- All items of an array are proper. -/
def AreItemsProper : List Json → Prop
  | [] => True
  | item :: rest => IsProper item ∧ AreItemsProper rest

/-- The values of all fields of an object are proper. -/
def AreFieldsProper : List (String × Json) → Prop
  | [] => True
  | (_, value) :: rest => IsProper value ∧ AreFieldsProper rest

end

theorem AreFieldsProper.of_lookup {fields : List (String × Json)} (proper : AreFieldsProper fields)
    {name : String} {value : Json} (found : fields.lookup name = some value) : value.IsProper := by
  induction fields with
  | nil => cases found
  | cons first rest ih =>
      obtain ⟨stored, other⟩ := first
      rw [List.lookup_cons] at found
      split at found
      · cases found
        exact proper.1
      · exact ih proper.2 found

/-- The fields of an object with their essences. -/
def fieldParts (fields : List (String × Json)) : List (String × JsonEssence) :=
  fields.map fun field => (field.1, field.2.essence)

theorem map_fst_fieldParts (fields : List (String × Json)) :
    (fieldParts fields).map (·.1) = fields.map (·.1) := by
  rw [fieldParts, List.map_map]
  rfl

theorem essenceFields_eq_map (text : String) (fields : List (String × Json)) :
    essenceFields text fields = (fields.lookup text).map essence := by
  induction fields with
  | nil => rfl
  | cons first rest ih =>
      obtain ⟨name, value⟩ := first
      rw [essenceFields, ih, List.lookup_cons]
      cases text == name <;> rfl

theorem lookup_fieldParts (text : String) (fields : List (String × Json)) :
    (fieldParts fields).lookup text = essenceFields text fields := by
  induction fields with
  | nil => rfl
  | cons first rest ih =>
      obtain ⟨name, value⟩ := first
      rw [fieldParts, List.map_cons, List.lookup_cons, essenceFields, ← ih, fieldParts]
      cases text == name <;> rfl

mutual

theorem same_iff_essence (left : Json) {right : Json} (left_proper : left.IsProper)
    (right_proper : right.IsProper) : left.same right = true ↔ left.essence = right.essence := by
  cases left <;> cases right <;>
    simp only [same, essence, reduceCtorEq, Bool.false_eq_true, beq_iff_eq, JsonEssence.bool.injEq,
      JsonEssence.number.injEq, JsonEssence.string.injEq, JsonEssence.array.injEq,
      JsonEssence.object.injEq]
  case number.number left right =>
      show (left.value == right.value) = true ↔ _
      exact beq_iff_eq
  case array.array items others => exact sameItems_iff_essence items left_proper right_proper
  case object.object fields others =>
      obtain ⟨left_distinct, left_proper⟩ := left_proper
      obtain ⟨right_distinct, right_proper⟩ := right_proper
      rw [← map_fst_fieldParts] at left_distinct right_distinct
      have agree := lookup_eq_iff left_distinct right_distinct
      simp only [lookup_fieldParts] at agree
      rw [agree, Bool.and_eq_true, beq_iff_eq,
        sameFields_iff_essence fields left_proper right_proper]
      simp only [fieldParts, List.length_map, List.forall_mem_map]

theorem sameItems_iff_essence (left : List Json) {right : List Json}
    (left_proper : AreItemsProper left) (right_proper : AreItemsProper right) :
    sameItems left right = true ↔ essenceItems left = essenceItems right := by
  cases left with
  | nil => cases right <;> simp [sameItems, essenceItems]
  | cons item rest =>
      cases right with
      | nil => simp [sameItems, essenceItems]
      | cons other others =>
          rw [sameItems, Bool.and_eq_true, same_iff_essence item left_proper.1 right_proper.1,
            sameItems_iff_essence rest left_proper.2 right_proper.2, essenceItems, essenceItems,
            List.cons.injEq]

/-- All fields of an object are found in another one. -/
theorem sameFields_iff_essence (left : List (String × Json)) {right : List (String × Json)}
    (left_proper : AreFieldsProper left) (right_proper : AreFieldsProper right) :
    sameFields left right = true ↔
      ∀ field ∈ left, essenceFields field.1 right = some field.2.essence := by
  cases left with
  | nil => simp [sameFields]
  | cons first rest =>
      obtain ⟨name, value⟩ := first
      rw [sameFields, Bool.and_eq_true, sameFields_iff_essence rest left_proper.2 right_proper,
        List.forall_mem_cons, essenceFields_eq_map]
      refine and_congr_left fun _ => ?_
      cases found : right.lookup name with
      | none => simp
      | some other =>
          have other_proper := AreFieldsProper.of_lookup right_proper found
          rw [Option.map_some, Option.some.injEq, @eq_comm _ other.essence]
          exact same_iff_essence value left_proper.1 other_proper

end

/-- **JSON values are equal if and only if they say the same.** -/
theorem compares (memory : Memory) :
    memory.ComparesBy (fun _ value => value.IsProper) essence :=
  ⟨fun left_proper right_proper => same_iff_essence _ left_proper right_proper⟩

end Json

end SchemaGraft
