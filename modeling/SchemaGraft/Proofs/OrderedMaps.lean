import SchemaGraft.Name

/-!
# What ordered maps hold

An ordered map is looked up by any key that equals a stored one, and answers with the value of the
only entry whose key does (`get?_eq_some_iff`). Inserting a key that is not there adds an entry at
the end (`entries_insert_of_absent`); inserting one that is there changes no key
(`keys_insert_of_present`). A list of entries with different keys is the list of entries of the map
that is made from it (`entries_ofList`).

The keys of a map of names have different texts (`NameMap.nodup_texts`), and a name is in the map
if and only if its text is among theirs (`NameMap.contains_iff`).
-/

set_option autoImplicit false

namespace SchemaGraft

universe u v

namespace OrderedMap

variable {κ : Type u} {ν : Type v} [BEq κ]

/-! ## Looking up -/

theorem find?_congr [PartialEquivBEq κ] (map : OrderedMap κ ν) {key other : κ}
    (same : (key == other) = true) : map.find? key = map.find? other := by
  unfold find?
  congr 1
  funext entry
  rw [Bool.eq_iff_iff]
  exact ⟨fun meets => PartialEquivBEq.trans meets same,
    fun meets => PartialEquivBEq.trans meets (PartialEquivBEq.symm same)⟩

/-- Equal keys have the same value. -/
theorem get?_congr [PartialEquivBEq κ] (map : OrderedMap κ ν) {key other : κ}
    (same : (key == other) = true) : map.get? key = map.get? other := by
  rw [get?, get?, find?_congr map same]

theorem contains_congr [PartialEquivBEq κ] (map : OrderedMap κ ν) {key other : κ}
    (same : (key == other) = true) : map.contains key = map.contains other := by
  rw [contains_eq_isSome_get?, contains_eq_isSome_get?, get?_congr map same]

/-- Two entries with equal keys are one entry. -/
theorem eq_of_key_beq [PartialEquivBEq κ] {entries : List (κ × ν)}
    (distinct : entries.Pairwise fun earlier later => (earlier.1 == later.1) = false)
    {left right : κ × ν} (left_mem : left ∈ entries) (right_mem : right ∈ entries)
    (same : (left.1 == right.1) = true) : left = right := by
  induction entries with
  | nil => cases left_mem
  | cons head rest ih =>
      obtain ⟨apart, distinct⟩ := List.pairwise_cons.1 distinct
      rcases List.mem_cons.1 left_mem with rfl | left_later
      · rcases List.mem_cons.1 right_mem with rfl | right_later
        · rfl
        · rw [apart right right_later] at same
          cases same
      · rcases List.mem_cons.1 right_mem with rfl | right_later
        · have meets := PartialEquivBEq.symm same
          rw [apart left left_later] at meets
          cases meets
        · exact ih distinct left_later right_later

theorem find?_eq_some_iff [EquivBEq κ] (map : OrderedMap κ ν) (key : κ) (entry : κ × ν) :
    map.find? key = some entry ↔ entry ∈ map.entries ∧ (entry.1 == key) = true := by
  constructor
  · intro found
    have meets := List.find?_some (p := fun entry : κ × ν => entry.1 == key) found
    exact ⟨List.mem_of_find?_eq_some found, meets⟩
  · rintro ⟨member, same⟩
    cases found : map.find? key with
    | none => exact absurd same (List.find?_eq_none.1 found entry member)
    | some other =>
        have other_same := List.find?_some (p := fun entry : κ × ν => entry.1 == key) found
        rw [eq_of_key_beq map.distinct (List.mem_of_find?_eq_some found) member
          (PartialEquivBEq.trans other_same (PartialEquivBEq.symm same))]

/-- A key has the value of the entry whose key equals it. -/
theorem get?_eq_some_iff [EquivBEq κ] (map : OrderedMap κ ν) (key : κ) (value : ν) :
    map.get? key = some value ↔
      ∃ stored, (stored, value) ∈ map.entries ∧ (stored == key) = true := by
  simp only [get?, Option.map_eq_some_iff, find?_eq_some_iff, Prod.exists]
  constructor
  · rintro ⟨stored, _, found, rfl⟩
    exact ⟨stored, found⟩
  · rintro ⟨stored, found⟩
    exact ⟨stored, value, found, rfl⟩

theorem get?_of_mem [EquivBEq κ] {map : OrderedMap κ ν} {entry : κ × ν}
    (member : entry ∈ map.entries) : map.get? entry.1 = some entry.2 :=
  (get?_eq_some_iff map entry.1 entry.2).2 ⟨entry.1, member, BEq.rfl⟩

theorem contains_iff_exists_key (map : OrderedMap κ ν) (key : κ) :
    map.contains key = true ↔ ∃ stored ∈ map.keys, (stored == key) = true := by
  simp [contains, keys]

theorem contains_iff_exists_value (map : OrderedMap κ ν) (key : κ) :
    map.contains key = true ↔ ∃ value, map.get? key = some value := by
  rw [contains_eq_isSome_get?, Option.isSome_iff_exists]

theorem contains_of_get? {map : OrderedMap κ ν} {key : κ} {value : ν}
    (found : map.get? key = some value) : map.contains key = true :=
  (contains_iff_exists_value map key).2 ⟨value, found⟩

theorem exists_key_of_get? {map : OrderedMap κ ν} {key : κ} {value : ν}
    (found : map.get? key = some value) : ∃ stored ∈ map.keys, (stored == key) = true :=
  (contains_iff_exists_key map key).1 (contains_of_get? found)

theorem get?_eq_none_iff (map : OrderedMap κ ν) (key : κ) :
    map.get? key = none ↔ map.contains key = false := by
  rw [contains_eq_isSome_get?]
  cases map.get? key <;> simp

/-! ## Inserting -/

theorem insertEntry_of_absent {key : κ} {value : ν} {entries : List (κ × ν)}
    (absent : ∀ entry ∈ entries, (entry.1 == key) = false) :
    insertEntry key value entries = entries ++ [(key, value)] := by
  induction entries with
  | nil => rfl
  | cons head rest ih =>
      have other := absent head (by simp)
      rw [insertEntry, if_neg (by simp [other]),
        ih fun entry member => absent entry (by simp [member])]
      rfl

/-- **A new key is added at the end.** -/
theorem entries_insert_of_absent {map : OrderedMap κ ν} {key : κ} (value : ν)
    (absent : map.contains key = false) :
    (map.insert key value).entries = map.entries ++ [(key, value)] := by
  refine insertEntry_of_absent fun entry member => ?_
  rw [contains, List.any_eq_false] at absent
  simpa using absent entry member

theorem keys_insert_of_absent {map : OrderedMap κ ν} {key : κ} (value : ν)
    (absent : map.contains key = false) : (map.insert key value).keys = map.keys ++ [key] := by
  simp [keys, entries_insert_of_absent value absent]

/-- **A key that is there stays as it was, and so do all others.** -/
theorem keys_insert_of_present {map : OrderedMap κ ν} {key : κ} (value : ν)
    (present : map.contains key = true) : (map.insert key value).keys = map.keys := by
  have replaced : ∀ {entries : List (κ × ν)}, (entries.any fun entry => entry.1 == key) = true →
      (insertEntry key value entries).map (·.1) = entries.map (·.1) := by
    intro entries present
    induction entries with
    | nil => cases present
    | cons head rest ih =>
        unfold insertEntry
        split
        · rfl
        · rename_i other
          rw [List.map_cons, List.map_cons, ih (by simpa [other] using present)]
  exact replaced present

theorem get?_insert [EquivBEq κ] (map : OrderedMap κ ν) (key other : κ) (value : ν) :
    (map.insert key value).get? other =
      if (key == other) = true then some value else map.get? other := by
  split
  · rename_i same
    rw [← get?_congr _ same, get?_insert_self]
  · rename_i ne
    exact get?_insert_of_ne map value (by simpa using ne)

theorem contains_insert [EquivBEq κ] (map : OrderedMap κ ν) (key other : κ) (value : ν) :
    (map.insert key value).contains other = (key == other || map.contains other) := by
  rw [contains_eq_isSome_get?, get?_insert, contains_eq_isSome_get?]
  cases key == other <;> rfl

/-- **Entries with different keys are kept as they are.** -/
theorem entries_ofList {entries : List (κ × ν)}
    (distinct : entries.Pairwise fun earlier later => (earlier.1 == later.1) = false) :
    (ofList entries).entries = entries := by
  have built : ∀ (rest : List (κ × ν)) (map : OrderedMap κ ν),
      ((map.entries ++ rest).Pairwise fun earlier later => (earlier.1 == later.1) = false) →
      (rest.foldl (fun built entry => built.insert entry.1 entry.2) map).entries =
        map.entries ++ rest := by
    intro rest
    induction rest with
    | nil => simp
    | cons head rest ih =>
        intro map distinct
        have absent : map.contains head.1 = false := by
          rw [contains, List.any_eq_false]
          intro entry member
          simpa using (List.pairwise_append.1 distinct).2.2 entry member head (by simp)
        have inserted := entries_insert_of_absent head.2 absent
        rw [List.foldl_cons, ih _ (by simpa [inserted] using distinct), inserted]
        simp
  exact built entries empty distinct

/-! ## Comparing -/

/-- Maps whose entries agree one by one are the same map. -/
theorem same_of_agree [EquivBEq κ] {equal : ν → ν → Bool} {left right : OrderedMap κ ν}
    (size : left.size = right.size)
    (agree : ∀ entry ∈ left.entries, ∃ value, right.get? entry.1 = some value ∧
      equal entry.2 value = true) : same equal left right = true := by
  simp only [same, size, beq_self_eq_true, Bool.true_and, List.all_eq_true]
  intro entry member
  obtain ⟨value, found, equals⟩ := agree entry member
  simp [found, equals]

/-- Maps with the same entries in any order are equal. -/
theorem beq_of_perm [EquivBEq κ] [BEq ν] [ReflBEq ν] {left right : OrderedMap κ ν}
    (same : left.entries.Perm right.entries) : (left == right) = true :=
  same_of_agree same.length_eq fun entry member =>
    ⟨entry.2, get?_of_mem (same.mem_iff.1 member), BEq.rfl⟩

end OrderedMap

/-! ## Maps of names -/

namespace NameMap

variable {ν : Type}

/-- The texts of the keys of a map, in order. -/
def texts (map : NameMap ν) : List String := map.keys.map (·.text)

theorem nodup_texts (map : NameMap ν) : map.texts.Nodup := by
  rw [texts, OrderedMap.keys, List.map_map, List.Nodup, List.pairwise_map]
  refine map.distinct.imp fun {earlier later} apart same => ?_
  rw [Name.beq_iff_text_eq.2 same] at apart
  cases apart

theorem contains_iff (map : NameMap ν) (name : Name) :
    map.contains name = true ↔ name.text ∈ map.texts := by
  simp only [OrderedMap.contains_iff_exists_key, texts, List.mem_map, Name.beq_iff_text_eq]

theorem contains_eq_false_iff (map : NameMap ν) (name : Name) :
    map.contains name = false ↔ name.text ∉ map.texts := by
  rw [← contains_iff, Bool.not_eq_true]

/-- The values of a map in order, each with the text of its name. -/
def labelled (map : NameMap ν) : List (String × ν) :=
  map.entries.map fun entry => (entry.1.text, entry.2)

theorem labelled_eq_zip (map : NameMap ν) : map.labelled = map.texts.zip map.values := by
  rw [labelled, texts, OrderedMap.keys, OrderedMap.values, List.map_map, List.zip_map']
  rfl

theorem texts_eq_labelled (map : NameMap ν) : map.texts = map.labelled.map (·.1) := by
  rw [texts, labelled, OrderedMap.keys, List.map_map, List.map_map]
  rfl

theorem values_eq_labelled (map : NameMap ν) : map.values = map.labelled.map (·.2) := by
  rw [OrderedMap.values, labelled, List.map_map]
  rfl

theorem get?_eq_labelled (map : NameMap ν) (name : Name) :
    map.get? name = (map.labelled.find? (·.1 == name.text)).map (·.2) := by
  rw [labelled, List.find?_map, Option.map_map]
  rfl

/-- The values of a map are what its names have, in their order. -/
theorem values_eq {map : NameMap ν} {names : List Name} {values : List ν}
    (texts : map.texts = names.map (·.text))
    (found : names.map map.get? = values.map some) : map.values = values := by
  have plain : ∀ names : List Name,
      names.map map.get? = (names.map (·.text)).map fun text => map.get? (.plain text) := by
    intro names
    rw [List.map_map]
    exact List.map_congr_left fun name _ => OrderedMap.get?_congr map (Name.beq_iff_text_eq.2 rfl)
  have stored : map.keys.map map.get? = map.values.map some := by
    rw [OrderedMap.keys, OrderedMap.values, List.map_map, List.map_map]
    exact List.map_congr_left fun entry member => OrderedMap.get?_of_mem member
  rw [plain, ← texts, NameMap.texts, ← plain, stored] at found
  exact (List.map_inj_right fun _ _ => Option.some.inj).1 found

/-- What a map has behind the values that another one has too. -/
theorem exists_entries_behind {first map : NameMap ν} {more : List String}
    (texts : map.texts = first.texts ++ more)
    (kept : ∀ {name value}, first.get? name = some value → map.get? name = some value) :
    ∃ behind : List (Name × ν),
      map.labelled = first.labelled ++ behind.map (fun entry => (entry.1.text, entry.2)) ∧
      ∀ entry ∈ behind, entry ∈ map.entries ∧ first.get? entry.1 = none := by
  let behind := map.entries.drop first.texts.length
  have listed : ∀ entry ∈ behind, entry ∈ map.entries := fun _ => List.mem_of_mem_drop
  have names : behind.map (·.1.text) = more := by
    have dropped : map.texts.drop first.texts.length = more := by rw [texts, List.drop_left]
    rw [← dropped, texts_eq_labelled map, labelled, List.map_map, ← List.map_drop]
    rfl
  have values : map.values = first.values ++ behind.map (·.2) := by
    refine @values_eq _ _ (first.keys ++ behind.map (·.1)) _ ?_ ?_
    · rw [texts, List.map_append, List.map_map, ← names]
      rfl
    · rw [List.map_append, List.map_append, OrderedMap.keys, OrderedMap.values, List.map_map,
        List.map_map, List.map_map, List.map_map]
      congr 1
      · exact List.map_congr_left fun entry member => kept (OrderedMap.get?_of_mem member)
      · exact List.map_congr_left fun entry member => OrderedMap.get?_of_mem (listed entry member)
  have lengths : first.texts.length = first.values.length := by
    rw [NameMap.texts, OrderedMap.keys, OrderedMap.values, List.length_map, List.length_map,
      List.length_map]
  have distinct := nodup_texts map
  rw [texts, List.nodup_append] at distinct
  refine ⟨behind, ?_, fun entry member => ⟨listed entry member, ?_⟩⟩
  · rw [labelled_eq_zip, texts, values, List.zip_append lengths, ← labelled_eq_zip, ← names,
      List.zip_map']
  · rw [OrderedMap.get?_eq_none_iff, contains_eq_false_iff]
    intro present
    exact distinct.2.2 _ present _ (names ▸ List.mem_map_of_mem member) rfl

end NameMap

/-! ## Lists without repetitions -/

/-- Listing one more name adds it unless it is there. -/
theorem Name.distinct_append_singleton (names : List Name) (name : Name) :
    Name.distinct (names ++ [name]) =
      if name.text ∈ names.map (·.text) then Name.distinct names
      else Name.distinct names ++ [name] := by
  induction names with
  | nil => rfl
  | cons head rest ih =>
      rw [List.cons_append, Name.distinct, ih, Name.distinct]
      by_cases same : name.text = head.text
      · have beq : (name == head) = true := Name.beq_iff_text_eq.2 same
        have listed : name.text ∈ (head :: rest).map (·.text) := by simp [same]
        rw [if_pos listed]
        split
        · rfl
        · simp [beq]
      · have beq : (name == head) = false := by
          rw [← Bool.not_eq_true, Name.beq_iff_text_eq]
          exact same
        by_cases present : name.text ∈ rest.map (·.text)
        · simp [same, present]
        · simp [same, present, beq]

theorem Name.text_mem_distinct_iff (names : List Name) (text : String) :
    text ∈ (Name.distinct names).map (·.text) ↔ text ∈ names.map (·.text) := by
  induction names with
  | nil => rfl
  | cons head rest ih =>
      by_cases same : text = head.text
      · simp [Name.distinct, same]
      · simp only [Name.distinct, List.map_cons, List.mem_cons, same, false_or, ← ih, List.mem_map,
          List.mem_filter]
        constructor
        · rintro ⟨name, ⟨member, _⟩, rfl⟩
          exact ⟨name, member, rfl⟩
        · rintro ⟨name, member, rfl⟩
          refine ⟨name, ⟨member, ?_⟩, rfl⟩
          rw [Bool.not_eq_true', ← Bool.not_eq_true, Name.beq_iff_text_eq]
          exact same

theorem Name.mem_of_mem_distinct {names : List Name} {name : Name}
    (member : name ∈ Name.distinct names) : name ∈ names := by
  induction names with
  | nil => exact member
  | cons head rest ih =>
      rcases List.mem_cons.1 member with rfl | later
      · exact List.mem_cons_self
      · exact List.mem_cons_of_mem _ (ih (List.mem_filter.1 later).1)

/-- Inserting under a name where the keys are a list without its repetitions. -/
theorem NameMap.keys_insert_of_distinct {ν : Type} {map : NameMap ν} {names : List Name}
    {name : Name} (value : ν) (keys : map.keys = Name.distinct names) :
    OrderedMap.keys (OrderedMap.insert map name value) = Name.distinct (names ++ [name]) := by
  have present_iff : map.contains name = true ↔ name.text ∈ names.map (·.text) := by
    rw [NameMap.contains_iff, NameMap.texts, keys, Name.text_mem_distinct_iff]
  rw [Name.distinct_append_singleton]
  by_cases present : map.contains name = true
  · rw [if_pos (present_iff.1 present), OrderedMap.keys_insert_of_present value present, keys]
  · rw [if_neg fun listed => present (present_iff.2 listed),
      OrderedMap.keys_insert_of_absent value (by simpa using present), keys]

/-- Adding a name to a set that holds a list without its repetitions. -/
theorem NameSet.keys_add_of_distinct {members : NameSet} {names : List Name} {name : Name}
    (keys : members.keys = Name.distinct names) :
    (members.add name).keys = Name.distinct (names ++ [name]) :=
  NameMap.keys_insert_of_distinct () keys

end SchemaGraft
