import Mathlib.Algebra.GroupWithZero.Nat
import Mathlib.Data.List.Induction
import Mathlib.Data.String.Basic
import SchemaGraft.Source
import SchemaGraft.Text.Position

/-!
# Offsets and positions

A place in a text can be given by the bytes before it, by the characters before it, or by a line and
a column. Bytes are counted forward in one pass (`Text.charsWithin`), and the line and the column
are kept up to date from character to character (`LineColumn.after`); no line is ever cut out of the
text.

Still the three agree with the lines that the text has if it is split at every line feed
(`Text.positions_agree`). The step from a place to its line is that the characters before a place
are whole lines and a part of the next one (`Text.exists_lines`).
-/

set_option autoImplicit false

namespace SchemaGraft

namespace Text

/-! ## Places between characters -/

/-- A byte offset lies between two characters, or at an end of the text. -/
def IsBoundary (text : List Char) (offset : Nat) : Prop := (charsBefore? offset text).isSome = true

/-- A byte offset lies inside a character. -/
def IsInside (text : List Char) (offset : Nat) : Prop :=
  ∃ before c after, text = before ++ c :: after ∧ String.utf8Len before < offset ∧
    offset < String.utf8Len before + c.utf8Size

/-- Bytes that begin with those of a character leave some to count behind it. -/
theorem charsBefore?_cons (c : Char) (rest : List Char) (more : Nat) :
    charsBefore? (c.utf8Size + more) (c :: rest) = (charsBefore? more rest).map (c :: ·) := by
  obtain ⟨offset, size⟩ : ∃ offset, c.utf8Size + more = offset + 1 :=
    Nat.exists_eq_succ_of_ne_zero (Nat.add_pos_left c.utf8Size_pos _).ne'
  have left : offset + 1 - c.utf8Size = more := by omega
  rw [size, charsBefore?, if_pos (by omega), left]

/-- As many bytes as some characters have lead behind them. -/
theorem charsBefore?_append (front back : List Char) :
    charsBefore? (String.utf8Len front) (front ++ back) = some front := by
  induction front with
  | nil => simp [charsBefore?]
  | cons c rest ih =>
      rw [String.utf8Len_cons, Nat.add_comm, List.cons_append, charsBefore?_cons, ih]
      rfl

/-- **The characters before an offset are those that have so many bytes.** -/
theorem charsBefore?_eq_some_iff {offset : Nat} {text front : List Char} :
    charsBefore? offset text = some front ↔ front <+: text ∧ String.utf8Len front = offset := by
  constructor
  · intro found
    fun_induction charsBefore? offset text generalizing front with
    | case1 text =>
        cases found
        exact ⟨List.nil_prefix, rfl⟩
    | case2 => cases found
    | case3 offset c rest within ih =>
        obtain ⟨before, inner, rfl⟩ := Option.map_eq_some_iff.1 found
        obtain ⟨isPrefix, size⟩ := ih inner
        refine ⟨List.cons_prefix_cons.2 ⟨rfl, isPrefix⟩, ?_⟩
        rw [String.utf8Len_cons, size]
        omega
    | case4 => cases found
  · rintro ⟨⟨back, rfl⟩, rfl⟩
    exact charsBefore?_append front back

theorem isBoundary_iff {text : List Char} {offset : Nat} :
    IsBoundary text offset ↔ ∃ front, front <+: text ∧ String.utf8Len front = offset := by
  simp only [IsBoundary, Option.isSome_iff_exists, charsBefore?_eq_some_iff]

theorem isBoundary_append (front back : List Char) :
    IsBoundary (front ++ back) (String.utf8Len front) :=
  isBoundary_iff.2 ⟨front, List.prefix_append front back, rfl⟩

/-! ## The last place that is not behind an offset -/

/-- Some characters are those before the last place between two characters that is not behind an
offset. -/
structure IsFloor (text : List Char) (offset : Nat) (front : List Char) : Prop where
  isPrefix : front <+: text
  within : String.utf8Len front ≤ offset
  largest : ∀ other, other <+: text → String.utf8Len other ≤ offset → other <+: front

/-- Of the characters that end within an offset, no more can be counted. -/
theorem exists_isFloor (offset : Nat) (text : List Char) :
    ∃ front, IsFloor text offset front ∧ charsWithin offset text = front.length := by
  fun_induction charsWithin offset text with
  | case1 offset =>
      refine ⟨[], ⟨List.prefix_rfl, Nat.zero_le _, fun other isPrefix _ => isPrefix⟩, rfl⟩
  | case2 offset c rest within ih =>
      obtain ⟨front, ⟨isPrefix, size, largest⟩, count⟩ := ih
      refine ⟨c :: front, ⟨List.cons_prefix_cons.2 ⟨rfl, isPrefix⟩, ?_, ?_⟩, by rw [count]; rfl⟩
      · rw [String.utf8Len_cons]
        omega
      · rintro (_ | ⟨first, other⟩) early little
        · exact List.nil_prefix
        · obtain ⟨rfl, shorter⟩ := List.cons_prefix_cons.1 early
          rw [String.utf8Len_cons] at little
          exact List.cons_prefix_cons.2 ⟨rfl, largest other shorter (by omega)⟩
  | case3 offset c rest beyond =>
      refine ⟨[], ⟨List.nil_prefix, Nat.zero_le _, ?_⟩, rfl⟩
      rintro (_ | ⟨first, other⟩) isPrefix size
      · exact List.prefix_rfl
      · obtain ⟨rfl, _⟩ := List.cons_prefix_cons.1 isPrefix
        rw [String.utf8Len_cons] at size
        omega

section Floors

variable {text front other : List Char} {offset later : Nat}

/-- There is only one last place. -/
theorem IsFloor.eq (floor : IsFloor text offset front) (floor' : IsFloor text offset other) :
    front = other :=
  (floor'.largest front floor.isPrefix floor.within).eq_of_length_le
    (floor.largest other floor'.isPrefix floor'.within).length_le

theorem IsFloor.charsWithin_eq (floor : IsFloor text offset front) :
    charsWithin offset text = front.length := by
  obtain ⟨found, isFloor, count⟩ := exists_isFloor offset text
  rw [count, floor.eq isFloor]

/-- A place between two characters is the last one that is not behind it. -/
theorem isFloor_of_front (isPrefix : front <+: text) :
    IsFloor text (String.utf8Len front) front where
  isPrefix := isPrefix
  within := Nat.le_refl _
  largest := by
    intro other isPrefix' size
    rcases List.prefix_or_prefix_of_prefix isPrefix' isPrefix with shorter | ⟨more, rfl⟩
    · exact shorter
    · rw [String.utf8Len_append] at size
      have none : more = [] := String.utf8Len_eq_zero.1 (by omega)
      simp [none]

theorem charsWithin_of_front (isPrefix : front <+: text) :
    charsWithin (String.utf8Len front) text = front.length :=
  (isFloor_of_front isPrefix).charsWithin_eq

/-- At the end of a text and behind it, the last place is the end. -/
theorem IsFloor.eq_of_le (floor : IsFloor text offset front)
    (beyond : String.utf8Len text ≤ offset) : front = text :=
  floor.isPrefix.eq_of_length_le (floor.largest text List.prefix_rfl beyond).length_le

theorem IsFloor.prefix_of_le (floor : IsFloor text offset front)
    (floor' : IsFloor text later other) (le : offset ≤ later) : front <+: other :=
  floor'.largest front floor.isPrefix (floor.within.trans le)

/-- **An offset is no place between characters if it is behind the text or inside a character.** -/
theorem charsBefore?_eq_none_iff {offset : Nat} {text : List Char} :
    charsBefore? offset text = none ↔
      String.utf8Len text < offset ∨ IsInside text offset := by
  constructor
  · intro absent
    obtain ⟨front, ⟨⟨back, rfl⟩, within, largest⟩, _⟩ := exists_isFloor offset text
    have apart : String.utf8Len front ≠ offset := by
      rintro rfl
      rw [charsBefore?_append] at absent
      cases absent
    cases back with
    | nil =>
        rw [List.append_nil]
        exact .inl (lt_of_le_of_ne within apart)
    | cons c rest =>
        refine .inr ⟨front, c, rest, rfl, lt_of_le_of_ne within apart, ?_⟩
        by_contra size
        have longer := largest (front ++ [c]) ⟨rest, by simp⟩
          (by rw [String.utf8Len_append, String.utf8Len_cons, String.utf8Len_nil]; omega)
        have := longer.length_le
        simp at this
  · intro outside
    cases found : charsBefore? offset text with
    | none => rfl
    | some front =>
        obtain ⟨isPrefix, rfl⟩ := charsBefore?_eq_some_iff.1 found
        rcases outside with beyond | ⟨before, c, after, rfl, above, below⟩
        · exact absurd (String.utf8Len_le_of_prefix isPrefix) (Nat.not_le.2 beyond)
        · exfalso
          have early : before <+: before ++ c :: after := List.prefix_append _ _
          rcases List.prefix_or_prefix_of_prefix early isPrefix with ⟨more, rfl⟩ | shorter
          · rw [List.prefix_append_right_inj] at isPrefix
            cases more with
            | nil => simp at above
            | cons first more =>
                obtain ⟨rfl, _⟩ := List.cons_prefix_cons.1 isPrefix
                rw [String.utf8Len_append, String.utf8Len_cons] at below
                omega
          · exact absurd (String.utf8Len_le_of_prefix shorter) (Nat.not_le.2 above)

end Floors

end Text

/-! ## Lines and columns -/

namespace LineColumn

/-- One place comes before another in the order of lines, and of columns in one line. -/
def IsBefore (position later : LineColumn) : Prop :=
  position.line < later.line ∨ position.line = later.line ∧ position.column < later.column

theorem IsBefore.trans {first second third : LineColumn} (early : first.IsBefore second)
    (late : second.IsBefore third) : first.IsBefore third := by
  unfold IsBefore at *
  omega

theorem IsBefore.irrefl (position : LineColumn) : ¬ position.IsBefore position := by
  unfold IsBefore
  omega

/-- Every character leads to a later place. -/
theorem isBefore_after (position : LineColumn) (c : Char) :
    position.IsBefore (position.after c) := by
  unfold after
  split
  · exact .inl (Nat.lt_succ_self _)
  · exact .inr ⟨rfl, Nat.lt_succ_self _⟩

theorem isBefore_foldl_after {chars : List Char} (some : chars ≠ []) (position : LineColumn) :
    position.IsBefore (chars.foldl after position) := by
  induction chars generalizing position with
  | nil => exact absurd rfl some
  | cons c rest ih =>
      cases rest with
      | nil => exact isBefore_after position c
      | cons next rest => exact (isBefore_after position c).trans (ih (List.cons_ne_nil _ _) _)

/-- A place is on one of some lines, at its end at the most. -/
structure IsOn (position : LineColumn) (lines : List (List Char)) : Prop where
  line_pos : 1 ≤ position.line
  column_pos : 1 ≤ position.column
  onLine : ∃ line, lines[position.line - 1]? = some line ∧ position.column - 1 ≤ line.length

/-- How many characters stand before a place, the line feeds behind earlier lines among them. -/
def charsBefore (position : LineColumn) (lines : List (List Char)) : Nat :=
  ((lines.take (position.line - 1)).map fun line => line.length + 1).sum + (position.column - 1)

end LineColumn

namespace Text

/-- **The characters before a place are whole lines and a part of one more.** How many these are, is
what the line and the column tell. -/
theorem exists_lines (front : List Char) :
    ∃ (lines : List (List Char)) (part : List Char),
      front = lines.flatMap (· ++ ['\n']) ++ part ∧ (∀ line ∈ lines, '\n' ∉ line) ∧ '\n' ∉ part ∧
        front.foldl LineColumn.after .start = ⟨lines.length + 1, part.length + 1⟩ := by
  induction front using List.reverseRecOn with
  | nil => exact ⟨[], [], rfl, nofun, List.not_mem_nil, rfl⟩
  | append_singleton front c ih =>
      obtain ⟨lines, part, split, whole, plain, place⟩ := ih
      rw [List.foldl_append, place, List.foldl_cons, List.foldl_nil]
      by_cases feed : c = '\n'
      · refine ⟨lines ++ [part], [], by simp [split, feed], ?_, List.not_mem_nil, ?_⟩
        · rw [List.forall_mem_append]
          exact ⟨whole, List.forall_mem_singleton.2 plain⟩
        · simp [LineColumn.after, feed, LineColumn.nextLine]
      · refine ⟨lines, part ++ [c], by simp [split], whole, ?_, ?_⟩
        · simp [plain, Ne.symm feed]
        · simp [LineColumn.after, feed, LineColumn.right]

theorem splitOn_flatMap_append {lines : List (List Char)} (whole : ∀ line ∈ lines, '\n' ∉ line)
    (rest : List Char) : (lines.flatMap (· ++ ['\n']) ++ rest).splitOn '\n' =
      lines ++ rest.splitOn '\n' := by
  induction lines with
  | nil => rfl
  | cons line lines ih =>
      obtain ⟨plain, whole⟩ := List.forall_mem_cons.1 whole
      rw [List.flatMap_cons, List.append_assoc, List.append_assoc, List.singleton_append,
        List.splitOn_append_cons_self_of_not_mem plain, ih whole, List.cons_append]

theorem exists_splitOn_append {part : List Char} (plain : '\n' ∉ part) (rest : List Char) :
    ∃ more lines, (part ++ rest).splitOn '\n' = (part ++ more) :: lines := by
  induction part with
  | nil => exact List.exists_cons_of_ne_nil (List.splitOn_ne_nil '\n' rest)
  | cons c part ih =>
      rw [List.mem_cons, not_or] at plain
      obtain ⟨more, lines, split⟩ := ih plain.2
      refine ⟨more, lines, ?_⟩
      rw [List.cons_append, List.splitOn_cons_eq_if_modifyHead, split,
        if_neg (by simpa using Ne.symm plain.1)]
      rfl

/-- The place behind the first characters of a text is on one of its lines, and tells how many they
are. -/
theorem isOn_foldl_after (front back : List Char) :
    let position := front.foldl LineColumn.after .start
    let lines := (front ++ back).splitOn '\n'
    position.IsOn lines ∧ position.charsBefore lines = front.length := by
  obtain ⟨lines, part, rfl, whole, plain, place⟩ := exists_lines front
  obtain ⟨more, others, split⟩ := exists_splitOn_append plain back
  dsimp only
  rw [place, List.append_assoc, splitOn_flatMap_append whole, split]
  refine ⟨⟨Nat.le_add_left _ _, Nat.le_add_left _ _, part ++ more, ?_, ?_⟩, ?_⟩
  · simp
  · simp
  · simp [LineColumn.charsBefore]

theorem lineColumn?_eq_some_iff {text : String} {offset : Nat} {position : LineColumn} :
    lineColumn? text offset = some position ↔ ∃ front, front <+: text.toList ∧
      String.utf8Len front = offset ∧ front.foldl LineColumn.after .start = position := by
  simp only [lineColumn?, Option.map_eq_some_iff, charsBefore?_eq_some_iff, and_assoc]

/-- **Of two places in a text, the earlier one has fewer bytes before it.** -/
theorem lt_iff_isBefore {text front other : List Char} (isPrefix : front <+: text)
    (isPrefix' : other <+: text) : String.utf8Len front < String.utf8Len other ↔
      (front.foldl LineColumn.after .start).IsBefore (other.foldl LineColumn.after .start) := by
  have before : ∀ (front more : List Char), more ≠ [] →
      (front.foldl LineColumn.after .start).IsBefore
        ((front ++ more).foldl LineColumn.after .start) := by
    intro front more some
    rw [List.foldl_append]
    exact LineColumn.isBefore_foldl_after some _
  constructor
  · intro fewer
    rcases List.prefix_or_prefix_of_prefix isPrefix isPrefix' with ⟨more, rfl⟩ | shorter
    · refine before front more ?_
      rintro rfl
      simp at fewer
    · exact absurd (String.utf8Len_le_of_prefix shorter) (Nat.not_le.2 fewer)
  · intro earlier
    rcases List.prefix_or_prefix_of_prefix isPrefix isPrefix' with ⟨more, rfl⟩ | ⟨more, rfl⟩
    · rw [String.utf8Len_append]
      refine Nat.lt_add_of_pos_right (Nat.pos_of_ne_zero fun none => ?_)
      rw [String.utf8Len_eq_zero.1 none, List.append_nil] at earlier
      exact LineColumn.IsBefore.irrefl _ earlier
    · by_cases none : more = []
      · rw [none, List.append_nil] at earlier
        exact absurd earlier (LineColumn.IsBefore.irrefl _)
      · exact absurd (earlier.trans (before other more none)) (LineColumn.IsBefore.irrefl _)

/-! ## All countings agree -/

theorem charOffset_le_length (text : String) (offset : Nat) :
    charOffset text offset ≤ text.length := by
  obtain ⟨front, floor, count⟩ := exists_isFloor offset text.toList
  rw [charOffset, count, ← String.length_toList]
  exact floor.isPrefix.length_le

theorem monotone_charOffset (text : String) : Monotone (charOffset text) := by
  intro offset later le
  obtain ⟨front, floor, count⟩ := exists_isFloor offset text.toList
  obtain ⟨other, floor', count'⟩ := exists_isFloor later text.toList
  rw [charOffset, charOffset, count, count']
  exact (floor.prefix_of_le floor' le).length_le

/-- **Bytes, characters, and lines and columns agree.**

A byte offset has a line and a column unless it is behind the text or inside a character. Then the
line is one of those that the text has if it is split at every line feed, the column is on it, and
the characters before the offset are those of the earlier lines with their line feeds and those to
the left of the column. A later offset has a later line, or a later column of the same line.

Every offset has as many characters before it as the last place between two characters that is not
behind it, which is the end of the text for an offset behind it; never more than the text, and no
fewer than an earlier offset. So the characters of any location are a stretch of the text. -/
theorem positions_agree (text : String) :
    (∀ offset, lineColumn? text offset = none ↔
      text.utf8ByteSize < offset ∨ IsInside text.toList offset) ∧
    (∀ offset position, lineColumn? text offset = some position →
      position.IsOn (text.toList.splitOn '\n') ∧
        charOffset text offset = position.charsBefore (text.toList.splitOn '\n')) ∧
    (∀ offset later position next, lineColumn? text offset = some position →
      lineColumn? text later = some next → (offset < later ↔ position.IsBefore next)) ∧
    (∀ offset, charOffset text offset ≤ text.length ∧
      ∃ front, IsFloor text.toList offset front ∧ charOffset text offset = front.length ∧
        charOffset text (String.utf8Len front) = front.length ∧
        (text.utf8ByteSize ≤ offset → front = text.toList)) ∧
    Monotone (charOffset text) ∧
    ∀ location : Location, location.start ≤ location.stop →
      charOffset text location.start ≤ charOffset text location.stop ∧
        charOffset text location.stop ≤ text.length := by
  refine ⟨?_, ?_, ?_, ?_, monotone_charOffset text, ?_⟩
  · intro offset
    rw [lineColumn?, Option.map_eq_none_iff, charsBefore?_eq_none_iff, String.utf8Len_toList]
  · intro offset position found
    obtain ⟨front, isPrefix, rfl, rfl⟩ := lineColumn?_eq_some_iff.1 found
    rw [charOffset, charsWithin_of_front isPrefix]
    obtain ⟨back, split⟩ := isPrefix
    obtain ⟨isOn, count⟩ := isOn_foldl_after front back
    rw [split] at isOn count
    exact ⟨isOn, count.symm⟩
  · intro offset later position next found found'
    obtain ⟨front, isPrefix, rfl, rfl⟩ := lineColumn?_eq_some_iff.1 found
    obtain ⟨other, isPrefix', rfl, rfl⟩ := lineColumn?_eq_some_iff.1 found'
    exact lt_iff_isBefore isPrefix isPrefix'
  · intro offset
    obtain ⟨front, floor, count⟩ := exists_isFloor offset text.toList
    refine ⟨charOffset_le_length text offset, front, floor, count,
      charsWithin_of_front floor.isPrefix, fun beyond => floor.eq_of_le ?_⟩
    rwa [String.utf8Len_toList]
  · intro location ordered
    exact ⟨monotone_charOffset text ordered, charOffset_le_length text _⟩

/-- In a text of two lines with a character of two bytes. -/
theorem positions_agree_accent :
    let text := "# é\ntype A"
    lineColumn? text 10 = some ⟨2, 6⟩ ∧ charOffset text 10 = 9 ∧
      LineColumn.IsOn ⟨2, 6⟩ (text.toList.splitOn '\n') ∧
      9 = LineColumn.charsBefore ⟨2, 6⟩ (text.toList.splitOn '\n') ∧
      LineColumn.IsBefore ⟨1, 3⟩ ⟨2, 6⟩ ∧
      ∃ front, IsFloor text.toList 3 front ∧ charOffset text 3 = front.length := by
  have early : lineColumn? "# é\ntype A" 2 = some ⟨1, 3⟩ := by decide +kernel
  have late : lineColumn? "# é\ntype A" 10 = some ⟨2, 6⟩ := by decide +kernel
  have count : charOffset "# é\ntype A" 10 = 9 := by decide +kernel
  obtain ⟨_, lines, order, floors, _, _⟩ := positions_agree "# é\ntype A"
  obtain ⟨isOn, same⟩ := lines 10 _ late
  obtain ⟨_, front, floor, inside, _⟩ := floors 3
  rw [count] at same
  exact ⟨late, count, isOn, same, (order 2 10 _ _ early late).1 (by decide), front, floor, inside⟩

end Text

end SchemaGraft
