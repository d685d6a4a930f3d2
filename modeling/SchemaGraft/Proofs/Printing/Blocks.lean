import Mathlib.Data.List.DropRight
import SchemaGraft.Proofs.Printing.Descriptions

/-!
# Which descriptions come back

A description with a line feed is printed as a block, line by line. A block cannot stand for every
text: reading takes blank lines from its ends and the indentation that all lines share, and carriage
returns end lines as line feeds do. Printing loses a line feed at the end, too.

`Text.FitsBlock` says what is left: no carriage return, a first and a last line with something on
them, and some line that begins at the margin. Exactly these texts come back from a block
(`Schema.stringValue_descriptionLiteral_iff`). What is read from a printed description has this
form, so nothing more is lost when it is printed again
(`Schema.stringValue_descriptionLiteral_again`).
-/

set_option autoImplicit false

namespace SchemaGraft

namespace Text

/-! ## Lines -/

/-- A text has no line break in it. -/
def IsLine (line : List Char) : Prop := '\n' ∉ line ∧ '\r' ∉ line

theorem isLine_cons_iff {c : Char} {line : List Char} :
    IsLine (c :: line) ↔ (c ≠ '\n' ∧ c ≠ '\r') ∧ IsLine line := by
  simp only [IsLine, List.mem_cons, not_or, ne_eq, eq_comm (b := c)]
  exact and_and_and_comm

theorem splitLines_ne_nil (chars : List Char) : splitLines chars ≠ [] := by
  fun_induction splitLines chars <;> simp_all

theorem splitLines_cons {c : Char} (other : c ≠ '\n' ∧ c ≠ '\r') {rest line : List Char}
    {lines : List (List Char)} (split : splitLines rest = line :: lines) :
    splitLines (c :: rest) = (c :: line) :: lines := by
  rw [splitLines]
  · simp [other, split]
  · exact fun _ same _ => other.2 same

theorem splitLines_lf (rest : List Char) : splitLines ('\n' :: rest) = [] :: splitLines rest := by
  rw [splitLines]
  · rfl
  · exact fun _ same _ => absurd same (by decide)

theorem isLine_of_mem_splitLines (chars : List Char) : ∀ line ∈ splitLines chars, IsLine line := by
  have blank : IsLine [] := ⟨List.not_mem_nil, List.not_mem_nil⟩
  fun_induction splitLines chars with
  | case1 => simpa using blank
  | case2 rest ih => exact List.forall_mem_cons.2 ⟨blank, ih⟩
  | case3 c rest _ ends ih => exact List.forall_mem_cons.2 ⟨blank, ih⟩
  | case4 c rest _ _ split ih => exact absurd split (splitLines_ne_nil rest)
  | case5 c rest _ other line lines split ih =>
      rw [split, List.forall_mem_cons] at ih
      rw [List.forall_mem_cons, isLine_cons_iff]
      exact ⟨⟨by simpa using other, ih.1⟩, ih.2⟩

theorem splitLines_append {line : List Char} (isLine : IsLine line) (rest : List Char) :
    splitLines (line ++ '\n' :: rest) = line :: splitLines rest := by
  induction line with
  | nil => exact splitLines_lf rest
  | cons c line ih =>
      obtain ⟨other, isLine⟩ := isLine_cons_iff.1 isLine
      exact splitLines_cons other (ih isLine)

theorem splitLines_of_isLine {line : List Char} (isLine : IsLine line) :
    splitLines line = [line] := by
  induction line with
  | nil => rfl
  | cons c line ih =>
      obtain ⟨other, isLine⟩ := isLine_cons_iff.1 isLine
      exact splitLines_cons other (ih isLine)

/-- **Lines that are joined are split into the same lines.** -/
theorem splitLines_joinLines {lines : List (List Char)} (some : lines ≠ [])
    (each : ∀ line ∈ lines, IsLine line) : splitLines (joinLines lines) = lines := by
  induction lines with
  | nil => exact absurd rfl some
  | cons line lines ih =>
      obtain ⟨isLine, others⟩ := List.forall_mem_cons.1 each
      cases lines with
      | nil => exact splitLines_of_isLine isLine
      | cons next lines =>
          rw [joinLines, splitLines_append isLine, ih (List.cons_ne_nil _ _) others]
          exact List.cons_ne_nil _ _

theorem joinLines_cons {line : List Char} {lines : List (List Char)} (some : lines ≠ []) :
    joinLines (line :: lines) = line ++ '\n' :: joinLines lines := by
  rw [joinLines]
  exact some

theorem joinLines_cons_cons (c : Char) (line : List Char) (lines : List (List Char)) :
    joinLines ((c :: line) :: lines) = c :: joinLines (line :: lines) := by
  cases lines <;> rfl

/-- Without carriage returns, lines are only what line feeds stand between. -/
theorem joinLines_splitLines {chars : List Char} (plain : '\r' ∉ chars) :
    joinLines (splitLines chars) = chars := by
  induction chars with
  | nil => rfl
  | cons c rest ih =>
      rw [List.mem_cons, not_or] at plain
      by_cases feed : c = '\n'
      · rw [feed, splitLines_lf, joinLines_cons (splitLines_ne_nil rest), ih plain.2]
        rfl
      · obtain ⟨line, lines, split⟩ := List.exists_cons_of_ne_nil (splitLines_ne_nil rest)
        rw [splitLines_cons ⟨feed, Ne.symm plain.1⟩ split, joinLines_cons_cons, ← split, ih plain.2]

theorem cr_notMem_joinLines {lines : List (List Char)} (each : ∀ line ∈ lines, IsLine line) :
    '\r' ∉ joinLines lines := by
  fun_induction joinLines lines with
  | case1 => exact List.not_mem_nil
  | case2 line => exact (each line (by simp)).2
  | case3 line rest _ ih =>
      obtain ⟨here, others⟩ := List.forall_mem_cons.1 each
      simpa [here.2] using ih others

/-- What is shown as lines are the lines, but for an empty one at the end. -/
theorem splitLines_eq_shownLines {chars : List Char} (plain : '\r' ∉ chars) :
    splitLines chars = shownLines chars ∨ splitLines chars = shownLines chars ++ [[]] := by
  induction chars with
  | nil => exact .inr rfl
  | cons c rest ih =>
      rw [List.mem_cons, not_or] at plain
      by_cases feed : c = '\n'
      · subst feed
        rw [splitLines_lf, shownLines]
        exact (ih plain.2).imp (congrArg _) (congrArg _)
      · obtain ⟨line, lines, split⟩ := List.exists_cons_of_ne_nil (splitLines_ne_nil rest)
        rw [splitLines_cons ⟨feed, Ne.symm plain.1⟩ split]
        rw [shownLines]
        · cases shown : shownLines rest with
          | nil =>
              rw [split, shown] at ih
              exact .inl (by simpa using ih plain.2)
          | cons line' lines' =>
              rw [split, shown] at ih
              simpa using ih plain.2
        · exact fun _ same _ => plain.1 same.symm
        · exact feed

/-! ## Triple quotes -/

/-- No triple quotes are left bare. -/
theorem markQuotes_ne_triple (line more : List Char) :
    markQuotes line ≠ '"' :: '"' :: '"' :: more := by
  fun_cases markQuotes line with
  | case1 rest => exact fun same => absurd (List.cons.inj same).1 (by decide)
  | case2 c rest notTriple =>
      intro same
      obtain ⟨rfl, same⟩ := List.cons.inj same
      have fewer : ∀ chars, rest ≠ '"' :: '"' :: chars := fun chars same => notTriple chars rfl same
      exact Scanned.markQuotes_append_ne fewer (show ([] : List Char).head? ≠ some '"' from nofun)
        more (by rwa [List.append_nil])
  | case3 => exact nofun

/-- **Marked quotes are read as they were.** -/
theorem unmarkQuotes_markQuotes (line : List Char) : unmarkQuotes (markQuotes line) = line := by
  fun_induction markQuotes line with
  | case1 rest ih => rw [unmarkQuotes, ih]
  | case2 c rest notTriple ih =>
      rw [unmarkQuotes, ih]
      exact fun more _ triple => markQuotes_ne_triple rest more triple
  | case3 => rfl

theorem mem_of_mem_markQuotes {c : Char} {line : List Char} (member : c ∈ markQuotes line) :
    c = '\\' ∨ c ∈ line := by
  fun_induction markQuotes line <;> grind

theorem IsLine.markQuotes {line : List Char} (isLine : IsLine line) :
    IsLine (Text.markQuotes line) := by
  constructor
  · exact fun member => (mem_of_mem_markQuotes member).elim (by decide) isLine.1
  · exact fun member => (mem_of_mem_markQuotes member).elim (by decide) isLine.2

theorem mem_of_mem_unmarkQuotes {c : Char} {line : List Char} (member : c ∈ unmarkQuotes line) :
    c ∈ line := by
  fun_induction unmarkQuotes line <;> grind

theorem IsLine.unmarkQuotes {line : List Char} (isLine : IsLine line) :
    IsLine (Text.unmarkQuotes line) :=
  ⟨fun member => isLine.1 (mem_of_mem_unmarkQuotes member),
    fun member => isLine.2 (mem_of_mem_unmarkQuotes member)⟩

theorem indentation_unmarkQuotes (line : List Char) :
    indentation (unmarkQuotes line) = indentation line := by
  fun_induction unmarkQuotes line with
  | case1 rest ih => rfl
  | case2 c rest notMark ih =>
      rw [indentation, indentation, List.takeWhile_cons, List.takeWhile_cons]
      split
      · exact congrArg (· + 1) ih
      · rfl
  | case3 => rfl

theorem isBlankLine_unmarkQuotes (line : List Char) :
    isBlankLine (unmarkQuotes line) = isBlankLine line := by
  fun_induction unmarkQuotes line with
  | case1 rest ih => rfl
  | case2 c rest notMark ih =>
      show (isIndent c && isBlankLine _) = (isIndent c && isBlankLine _)
      rw [ih]
  | case3 => rfl

theorem markQuotes_spec (line : List Char) :
    isBlankLine (markQuotes line) = isBlankLine line ∧
      indentation (markQuotes line) = indentation line := by
  have blank := isBlankLine_unmarkQuotes (markQuotes line)
  have size := indentation_unmarkQuotes (markQuotes line)
  rw [unmarkQuotes_markQuotes] at blank size
  exact ⟨blank.symm, size.symm⟩

/-! ## Indentation and blank lines -/

/-- Blank lines have no part in the common indentation. -/
theorem commonIndentation_append_blank (lines : List (List Char)) {line : List Char}
    (blank : isBlankLine line = true) :
    commonIndentation (lines ++ [line]) = commonIndentation lines := by
  simp [commonIndentation, blank]

/-- **Some line stands at the common indentation.** -/
theorem exists_indentation_eq {lines : List (List Char)} {line : List Char} (member : line ∈ lines)
    (written : isBlankLine line = false) :
    ∃ other ∈ lines, isBlankLine other = false ∧
      indentation other = commonIndentation lines := by
  have listed : indentation line ∈
      (lines.filter fun line => !isBlankLine line).map indentation :=
    List.mem_map_of_mem (List.mem_filter.2 ⟨member, by rw [written]; rfl⟩)
  obtain ⟨least, found⟩ := Option.ne_none_iff_exists'.1
    (fun none => List.ne_nil_of_mem listed (List.min?_eq_none_iff.1 none))
  obtain ⟨other, kept, same⟩ := List.mem_map.1 (List.min?_mem found)
  obtain ⟨present, notBlank⟩ := List.mem_filter.1 kept
  refine ⟨other, present, by simpa using notBlank, ?_⟩
  rw [commonIndentation, found, same]
  rfl

/-- The common indentation is that of a line that stands furthest out. -/
theorem commonIndentation_eq {lines : List (List Char)} {line : List Char} (member : line ∈ lines)
    (written : isBlankLine line = false)
    (least : ∀ other ∈ lines, indentation line ≤ indentation other) :
    commonIndentation lines = indentation line := by
  have found : ((lines.filter fun line => !isBlankLine line).map indentation).min? =
      some (indentation line) := by
    rw [List.min?_eq_some_iff]
    refine ⟨List.mem_map_of_mem (List.mem_filter.2 ⟨member, by rw [written]; rfl⟩), ?_⟩
    intro size listed
    obtain ⟨other, kept, rfl⟩ := List.mem_map.1 listed
    exact least other (List.mem_filter.1 kept).1
  rw [commonIndentation, found]
  rfl

/-- A line keeps what it has beyond the indentation that is taken away. -/
theorem drop_spec {line : List Char} {count : Nat} (within : count ≤ indentation line) :
    isBlankLine (line.drop count) = isBlankLine line ∧
      indentation (line.drop count) = indentation line - count := by
  induction count generalizing line with
  | zero => exact ⟨rfl, rfl⟩
  | succ count ih =>
      cases line with
      | nil => exact absurd within (Nat.not_succ_le_zero _)
      | cons c line =>
          by_cases indents : isIndent c = true
          · have longer : indentation (c :: line) = indentation line + 1 := by
              simp [indentation, indents]
            have same : isBlankLine (c :: line) = isBlankLine line := by
              simp [isBlankLine, indents]
            rw [longer] at within ⊢
            obtain ⟨blank, size⟩ := ih (Nat.le_of_succ_le_succ within)
            rw [List.drop_succ_cons, blank, size, same]
            exact ⟨rfl, (Nat.add_sub_add_right _ _ _).symm⟩
          · have none : indentation (c :: line) = 0 := by simp [indentation, indents]
            rw [none] at within
            exact absurd within (Nat.not_succ_le_zero _)

theorem isBlankLine_drop {line : List Char} (blank : isBlankLine line = true) (count : Nat) :
    isBlankLine (line.drop count) = true :=
  List.all_eq_true.2 fun c member => List.all_eq_true.1 blank c (List.mem_of_mem_drop member)

theorem isLine_of_mem_dedent {lines : List (List Char)} (each : ∀ line ∈ lines, IsLine line) :
    ∀ line ∈ dedent lines, IsLine line := by
  cases lines with
  | nil => exact each
  | cons first rest =>
      rw [List.forall_mem_cons] at each
      rw [dedent, List.forall_mem_cons]
      refine ⟨each.1, fun line member => ?_⟩
      obtain ⟨whole, present, rfl⟩ := List.mem_map.1 member
      exact ⟨fun feed => (each.2 whole present).1 (List.mem_of_mem_drop feed),
        fun feed => (each.2 whole present).2 (List.mem_of_mem_drop feed)⟩

/-- Once the common indentation is taken away, some line begins at the margin. -/
theorem exists_flush {lines : List (List Char)} {line : List Char}
    (member : line ∈ dedent ([] :: lines)) (written : isBlankLine line = false) :
    ∃ other ∈ dedent ([] :: lines), isBlankLine other = false ∧ indentation other = 0 := by
  rw [dedent] at member ⊢
  rcases List.mem_cons.1 member with rfl | dropped
  · cases written
  · obtain ⟨whole, present, rfl⟩ := List.mem_map.1 dropped
    have wholeWritten : isBlankLine whole = false := by
      rw [← Bool.not_eq_true] at written ⊢
      exact fun blank => written (isBlankLine_drop blank _)
    obtain ⟨other, listed, notBlank, same⟩ := exists_indentation_eq present wholeWritten
    obtain ⟨blank, size⟩ := drop_spec (Nat.le_of_eq same.symm)
    refine ⟨_, List.mem_cons_of_mem _ (List.mem_map_of_mem listed), blank.trans notBlank, ?_⟩
    rw [size, same, Nat.sub_self]

theorem append_spec {indent : List Char} (blank : isBlankLine indent = true) (line : List Char) :
    isBlankLine (indent ++ line) = isBlankLine line ∧
      indentation (indent ++ line) = indent.length + indentation line := by
  constructor
  · simp only [isBlankLine, List.all_append] at blank ⊢
    rw [blank, Bool.true_and]
  · rw [indentation, List.takeWhile_append_of_pos (List.all_eq_true.1 blank), List.length_append]
    rfl

/-- A list of lines neither begins nor ends with a blank one. -/
def IsTrimmed (lines : List (List Char)) : Prop :=
  (∀ line ∈ lines.head?, isBlankLine line = false) ∧
    ∀ line ∈ lines.getLast?, isBlankLine line = false

theorem trimEnd_cons (first : List Char) (rest : List (List Char)) :
    trimEnd (first :: rest) = first :: rest.rdropWhile isBlankLine := rfl

/-- Trimming takes blank lines away, from the ends only. -/
theorem trimBlank_spec (lines : List (List Char)) :
    IsTrimmed (trimBlank lines) ∧
      ∀ line ∈ lines, isBlankLine line = false → line ∈ trimBlank lines := by
  unfold trimBlank
  cases begun : lines.dropWhile isBlankLine with
  | nil =>
      refine ⟨⟨nofun, nofun⟩, fun line member written => ?_⟩
      rw [List.dropWhile_eq_nil_iff.1 begun line member] at written
      cases written
  | cons first rest =>
      have written : isBlankLine first = false := by
        have head := List.head?_dropWhile_not isBlankLine lines
        simpa [begun] using head
      have ended := List.rdropWhile_append_rtakeWhile (p := isBlankLine) (l := rest)
      rw [trimEnd_cons]
      refine ⟨⟨by simpa using written, fun line last => ?_⟩, fun line member other => ?_⟩
      · cases kept : rest.rdropWhile isBlankLine with
        | nil =>
            rw [kept] at last
            cases last
            exact written
        | cons second more =>
            have none : rest.rdropWhile isBlankLine ≠ [] := kept ▸ List.cons_ne_nil _ _
            rw [List.getLast?_cons_of_ne_nil none, List.getLast?_eq_some_getLast none] at last
            cases last
            simpa using List.rdropWhile_last_not isBlankLine rest none
      · have split := List.takeWhile_append_dropWhile (p := isBlankLine) (l := lines)
        rw [← split, begun, ← ended] at member
        simp only [List.mem_append, List.mem_cons] at member ⊢
        rcases member with early | here | kept | late
        · rw [List.mem_takeWhile_imp early] at other
          cases other
        · exact .inl here
        · exact .inr kept
        · rw [List.mem_rtakeWhile_imp late] at other
          cases other

theorem mem_of_mem_trimBlank {lines : List (List Char)} {line : List Char}
    (member : line ∈ trimBlank lines) : line ∈ lines := by
  have suffix := List.dropWhile_suffix (l := lines) isBlankLine
  unfold trimBlank at member
  revert suffix member
  generalize lines.dropWhile isBlankLine = kept
  intro member suffix
  cases kept with
  | nil => cases member
  | cons first rest =>
      have shorter := List.rdropWhile_prefix isBlankLine rest
      exact suffix.subset (List.cons_subset_cons first shorter.subset member)

/-- Lines that are changed without their margins changing stay trimmed. -/
theorem IsTrimmed.map {lines : List (List Char)} (trimmed : IsTrimmed lines)
    {change : List Char → List Char}
    (same : ∀ line, isBlankLine (change line) = isBlankLine line) :
    IsTrimmed (lines.map change) := by
  unfold IsTrimmed at trimmed ⊢
  rw [List.head?_map, List.getLast?_map]
  simpa [same] using trimmed

/-- What is trimmed is what stands between blank lines. -/
theorem trimBlank_append {kept : List (List Char)} (trimmed : IsTrimmed kept)
    {before behind : List Char} (blank : isBlankLine before = true)
    (blank' : isBlankLine behind = true) : trimBlank (before :: kept ++ [behind]) = kept := by
  obtain ⟨head, last⟩ := trimmed
  unfold trimBlank
  rw [List.cons_append, List.dropWhile_cons_of_pos blank]
  cases kept with
  | nil =>
      rw [List.nil_append, List.dropWhile_cons_of_pos blank']
      rfl
  | cons first rest =>
      have written : isBlankLine first = false := head first rfl
      rw [List.cons_append, List.dropWhile_cons_of_neg (by simp [written]), trimEnd_cons,
        List.rdropWhile_concat_pos _ _ _ blank', List.rdropWhile_eq_self_iff.2]
      intro some
      simpa using last _ (by rw [List.getLast?_cons_of_ne_nil some,
        List.getLast?_eq_some_getLast some]; rfl)

/-! ## Texts that blocks stand for -/

/-- A text can be written as a block: it has no carriage return, its first and its last line have
something on them, and some line begins at the margin. -/
structure FitsBlock (chars : List Char) : Prop where
  plain : '\r' ∉ chars
  trimmed : IsTrimmed (splitLines chars)
  flush : ∃ line ∈ splitLines chars, isBlankLine line = false ∧ indentation line = 0

/-- **What a block stands for that begins on a new line can be written as a block.** -/
theorem fitsBlock_blockValue {chars : List Char} (some : blockValue ('\n' :: chars) ≠ []) :
    FitsBlock (blockValue ('\n' :: chars)) := by
  have each := isLine_of_mem_dedent (isLine_of_mem_splitLines ('\n' :: chars))
  obtain ⟨trimmed, keeps⟩ := trimBlank_spec (dedent (splitLines ('\n' :: chars)))
  have within : ∀ line ∈ trimBlank (dedent (splitLines ('\n' :: chars))),
      line ∈ dedent (splitLines ('\n' :: chars)) := fun line => mem_of_mem_trimBlank
  unfold blockValue at some ⊢
  rw [splitLines_lf] at each trimmed keeps within some ⊢
  generalize trimBlank (dedent ([] :: splitLines chars)) = kept at trimmed keeps within some ⊢
  have isLine : ∀ line ∈ kept.map unmarkQuotes, IsLine line := by
    intro _ listed
    obtain ⟨line, member, rfl⟩ := List.mem_map.1 listed
    exact (each line (within line member)).unmarkQuotes
  cases kept with
  | nil => exact absurd rfl some
  | cons first rest =>
      have split := splitLines_joinLines (by simp) isLine
      refine ⟨cr_notMem_joinLines isLine, ?_, ?_⟩
      · rw [split]
        exact trimmed.map isBlankLine_unmarkQuotes
      · rw [split]
        obtain ⟨line, member, written, flush⟩ :=
          exists_flush (within first List.mem_cons_self) (trimmed.1 first rfl)
        refine ⟨unmarkQuotes line, List.mem_map_of_mem (keeps line member written), ?_, ?_⟩
        · rw [isBlankLine_unmarkQuotes, written]
        · rw [indentation_unmarkQuotes, flush]

/-- **A text that can be written as a block comes back from it.** -/
theorem blockValue_joinLines {chars indent : List Char} (fits : FitsBlock chars)
    (blank : isBlankLine indent = true) :
    blockValue (joinLines ([] :: (splitLines chars).map (fun line => indent ++ markQuotes line) ++
      [indent])) = chars := by
  have indents : IsLine indent := by
    constructor <;> intro member <;> exact absurd (List.all_eq_true.1 blank _ member) (by decide)
  have each : ∀ line ∈ [] :: (splitLines chars).map (fun line => indent ++ markQuotes line) ++
      [indent], IsLine line := by
    intro line member
    simp only [List.cons_append, List.mem_cons, List.mem_append, List.mem_map,
      List.not_mem_nil, or_false] at member
    rcases member with rfl | ⟨line, listed, rfl⟩ | rfl
    · exact ⟨List.not_mem_nil, List.not_mem_nil⟩
    · have isLine := (isLine_of_mem_splitLines chars line listed).markQuotes
      simp only [IsLine, List.mem_append, not_or]
      exact ⟨⟨indents.1, isLine.1⟩, ⟨indents.2, isLine.2⟩⟩
    · exact indents
  have shared : commonIndentation ((splitLines chars).map (fun line => indent ++ markQuotes line) ++
      [indent]) = indent.length := by
    obtain ⟨line, listed, written, flush⟩ := fits.flush
    have there := append_spec blank (markQuotes line)
    rw [(markQuotes_spec line).1, (markQuotes_spec line).2, written, flush] at there
    rw [commonIndentation_append_blank _ blank,
      commonIndentation_eq (List.mem_map_of_mem listed) there.1, there.2, Nat.add_zero]
    intro other member
    obtain ⟨line, _, rfl⟩ := List.mem_map.1 member
    rw [there.2, (append_spec blank (markQuotes line)).2]
    exact Nat.le_add_right _ _
  have trimmed := fits.trimmed.map fun line => (markQuotes_spec line).1
  have dropped : (splitLines chars).map
      ((fun line => line.drop indent.length) ∘ fun line => indent ++ markQuotes line) =
        (splitLines chars).map markQuotes :=
    List.map_congr_left fun line _ => List.drop_left
  have unmarked : ((splitLines chars).map markQuotes).map unmarkQuotes = splitLines chars := by
    rw [List.map_map]
    exact (List.map_congr_left fun line _ => unmarkQuotes_markQuotes line).trans (List.map_id _)
  rw [blockValue, splitLines_joinLines (by simp) each, List.cons_append, dedent, shared,
    List.map_append, List.map_map, dropped, List.map_singleton, List.drop_length,
    ← List.cons_append, trimBlank_append trimmed rfl rfl, unmarked,
    joinLines_splitLines fits.plain]

end Text

/-! ## Descriptions -/

open Text

theorem blockText_eq (indent : List Char) (lines : List (List Char)) :
    blockText indent lines =
      joinLines ([] :: lines.map (indent ++ ·) ++ [indent]) ++ ['"', '"', '"'] := by
  induction lines with
  | nil => simp [blockText, joinLines]
  | cons line lines ih =>
      rw [blockText, ih, List.map_cons, List.cons_append, List.cons_append, List.cons_append,
        joinLines_cons (List.cons_ne_nil _ _), joinLines_cons (by simp),
        joinLines_cons (by simp)]
      simp

/-- What a string token between triple quotes stands for. -/
theorem stringValue_block {token : String} {chars : List Char}
    (same : token.toList = '"' :: '"' :: '"' :: (chars ++ ['"', '"', '"'])) :
    stringValue token = String.ofList (blockValue chars) := by
  have inside : Text.inner 3 token.toList = chars := by simp [same, Text.inner]
  have block : isBlock token.toList = true := by
    rw [same]
    rfl
  rw [stringValue, if_pos block, inside]

namespace Schema

/-- What is read from a printed description with a line feed. -/
theorem stringValue_descriptionLiteral {text : String} (lines : '\n' ∈ text.toList)
    (indent : String) :
    stringValue (descriptionLiteral indent text) = String.ofList (blockValue (joinLines ([] ::
      (shownLines text.toList).map (fun line => indent.toList ++ markQuotes line) ++
        [indent.toList]))) := by
  have written := toList_descriptionLiteral lines indent
  rw [blockText_eq, blockLines, List.map_map] at written
  exact stringValue_block written

/-- What is read from a printed block can be written as a block. -/
theorem fitsBlock_stringValue {text indent : String} (lines : '\n' ∈ text.toList)
    (some : (stringValue (descriptionLiteral indent text)).toList ≠ []) :
    FitsBlock (stringValue (descriptionLiteral indent text)).toList := by
  rw [stringValue_descriptionLiteral lines, String.toList_ofList, List.cons_append,
    joinLines_cons (by simp)] at some ⊢
  exact fitsBlock_blockValue some

/-- **A description comes back from its print** if it stands on one line or can be written as a
block, and in no other case. -/
theorem stringValue_descriptionLiteral_iff {indent : String}
    (blank : isBlankLine indent.toList = true) (text : String) :
    stringValue (descriptionLiteral indent text) = text ↔
      '\n' ∉ text.toList ∨ FitsBlock text.toList := by
  by_cases lines : '\n' ∈ text.toList
  · constructor
    · intro same
      have fits := @fitsBlock_stringValue text indent lines
      rw [same] at fits
      exact .inr (fits (List.ne_nil_of_mem lines))
    · rintro (line | fits)
      · exact absurd lines line
      · have shown : shownLines text.toList = splitLines text.toList := by
          refine ((splitLines_eq_shownLines fits.plain).resolve_right fun ended => ?_).symm
          have last := fits.trimmed.2 [] (by rw [ended, List.getLast?_concat]; rfl)
          cases last
        rw [stringValue_descriptionLiteral lines, shown, blockValue_joinLines fits blank,
          String.ofList_toList]
  · rw [descriptionLiteral_of_line lines, stringValue_quote]
    exact iff_of_true rfl (.inl lines)

/-- Once a description was printed and read, nothing more is lost. -/
theorem stringValue_descriptionLiteral_again {indent other : String}
    (blank : isBlankLine other.toList = true) (text : String) :
    stringValue (descriptionLiteral other (stringValue (descriptionLiteral indent text))) =
      stringValue (descriptionLiteral indent text) := by
  rw [stringValue_descriptionLiteral_iff blank, Classical.or_iff_not_imp_left, not_not]
  intro lines
  refine fitsBlock_stringValue ?_ (List.ne_nil_of_mem lines)
  by_contra line
  rw [descriptionLiteral_of_line line, stringValue_quote] at lines
  exact line lines

/-- **Which descriptions survive printing.** A description is printed as one string token on lines
of its own; what is read from the token is the description if it stands on one line or can be
written as a block, and something else in every other case. -/
theorem printDescription_survives_iff {indent : String}
    (blank : isBlankLine indent.toList = true) (text : String) :
    ∃ literal, printDescription indent (some text) = indent ++ literal ++ "\n" ∧
      (Spells literal .string fun more => more.head? ≠ some '"') ∧
      (stringValue literal = text ↔ '\n' ∉ text.toList ∨ FitsBlock text.toList) := by
  refine ⟨_, printDescription_some indent text, writesStrings_descriptionLiteral ?_ text,
    stringValue_descriptionLiteral_iff blank text⟩
  intro c member
  have indents := List.all_eq_true.1 blank c member
  simp only [isIndent, Bool.or_eq_true, beq_iff_eq] at indents
  rcases indents with rfl | rfl <;> rfl

theorem printDescription_survives_indented :
    ∃ literal, printDescription "  " (some "Multi\n  line") = "  " ++ literal ++ "\n" ∧
      stringValue literal = "Multi\n  line" := by
  obtain ⟨literal, printed, _, survives⟩ :=
    @printDescription_survives_iff "  " (by decide) "Multi\n  line"
  refine ⟨literal, printed, survives.2 (.inr ⟨by decide, ?_, ?_⟩)⟩
  · exact ⟨by decide, by decide⟩
  · exact ⟨['M', 'u', 'l', 't', 'i'], by decide, by decide, by decide⟩

/-- A line feed at the end of a description is lost. -/
theorem printDescription_loses_lf :
    printDescription "" (some "Hello\nWorld\n") = "\"\"\"\nHello\nWorld\n\"\"\"\n" ∧
      stringValue "\"\"\"\nHello\nWorld\n\"\"\"" = "Hello\nWorld" := by
  decide +kernel

end Schema

end SchemaGraft
