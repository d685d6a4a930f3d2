import SchemaGraft.Proofs.Quoting
import SchemaGraft.Schema.Print

/-!
# Printed descriptions

A description is printed as a quoted string if it stands on one line, and line by line between
triple quotes if not. Either way it is one string token (`Schema.spells_descriptionLiteral`): inside
a block a triple quote is written behind a backslash, which keeps the block from ending there.

**What is read back.** A quoted string stands for the text that was quoted. A block does not always:
reading drops blank lines at its ends and the indentation that its lines share. What the reader
makes of a description is `readBack`, and a description that stands on one line comes back as it is
(`readBack_descriptionLiteral`).
-/

set_option autoImplicit false

namespace SchemaGraft

/-! ## Scanning blocks -/

namespace Scanned

open Text

theorem blockLength?_cons {c : Char} (other : c ≠ '"') (escaping : Bool) (rest : List Char) :
    blockLength? escaping (c :: rest) = (blockLength? (c == '\\') rest).map (· + 1) := by
  cases escaping <;> simp [blockLength?, other]

/-- Fewer than three quotes can be passed over one by one. -/
theorem blockLength?_quote {rest : List Char} (fewer : ∀ more, rest ≠ '"' :: '"' :: more)
    (escaping : Bool) :
    blockLength? escaping ('"' :: rest) = (blockLength? false rest).map (· + 1) := by
  cases rest with
  | nil => cases escaping <;> rfl
  | cons c rest =>
      by_cases quote : c = '"'
      · subst quote
        have other : ∀ more, rest ≠ '"' :: more := fun more same => fewer more (same ▸ rfl)
        have here : blockLength? escaping ('"' :: '"' :: rest) =
            (blockLength? false rest).map (· + 2) := by
          cases escaping <;> cases rest <;> simp_all [blockLength?]
        have next : blockLength? false ('"' :: rest) = (blockLength? false rest).map (· + 1) := by
          cases rest <;> simp_all [blockLength?]
        rw [here, next, Option.map_map]
        rfl
      · cases escaping <;> simp [blockLength?, quote]

theorem blockLength?_marked (escaping : Bool) (rest : List Char) :
    blockLength? escaping ('\\' :: '"' :: '"' :: '"' :: rest) =
      (blockLength? false rest).map (· + 4) := by
  rw [blockLength?_cons (by decide)]
  show ((blockLength? false rest).map (· + 3)).map (· + 1) = _
  rw [Option.map_map]
  rfl

/-- Two quotes come out of marking only where there were no more than two. -/
theorem markQuotes_append_ne {rest more : List Char} (fewer : ∀ chars, rest ≠ '"' :: '"' :: chars)
    (other : more.head? ≠ some '"') (chars : List Char) :
    markQuotes rest ++ more ≠ '"' :: '"' :: chars := by
  intro same
  cases rest with
  | nil =>
      rw [markQuotes, List.nil_append] at same
      exact other (by rw [same]; rfl)
  | cons c rest =>
      have single : markQuotes (c :: rest) = c :: markQuotes rest := by
        rw [markQuotes]
        intro chars first second
        exact fewer _ (by rw [first, second])
      rw [single, List.cons_append, List.cons.injEq] at same
      obtain ⟨rfl, same⟩ := same
      cases rest with
      | nil =>
          rw [markQuotes, List.nil_append] at same
          exact other (by rw [same]; rfl)
      | cons d rest =>
          by_cases quote : d = '"'
          · exact fewer rest (by rw [quote])
          · rw [markQuotes, List.cons_append, List.cons.injEq] at same
            · exact quote same.1
            · intro chars first
              exact absurd first quote

/-- **A line with its triple quotes marked does not end the block that it stands in.** -/
theorem blockLength?_markQuotes (line : List Char) {more : List Char} {count : Nat}
    (other : more.head? ≠ some '"')
    (behind : ∀ escaping, blockLength? escaping more = some count) (escaping : Bool) :
    blockLength? escaping (markQuotes line ++ more) =
      some (count + (markQuotes line).length) := by
  fun_induction markQuotes line generalizing escaping with
  | case1 rest ih =>
      rw [List.cons_append, List.cons_append, List.cons_append, List.cons_append,
        blockLength?_marked, ih]
      simp [Nat.add_assoc]
  | case2 c rest notTriple ih =>
      rw [List.cons_append]
      by_cases quote : c = '"'
      · subst quote
        have fewer : ∀ chars, rest ≠ '"' :: '"' :: chars :=
          fun chars same => notTriple chars rfl same
        rw [blockLength?_quote (markQuotes_append_ne fewer other), ih]
        simp [Nat.add_assoc]
      · rw [blockLength?_cons quote, ih]
        simp [Nat.add_assoc]
  | case3 => exact behind escaping

theorem blockLength?_gap {gap more : List Char} {count : Nat} (passed : IsGap gap)
    (behind : blockLength? false more = some count) :
    blockLength? false (gap ++ more) = some (count + gap.length) := by
  induction gap with
  | nil => exact behind
  | cons c gap ih =>
      rw [isGap_cons_iff] at passed
      have quote : c ≠ '"' := by
        rintro rfl
        exact absurd passed.1 (by decide)
      have backslash : (c == '\\') = false := by
        rw [beq_eq_false_iff_ne]
        rintro rfl
        exact absurd passed.1 (by decide)
      rw [List.cons_append, blockLength?_cons quote, backslash, ih passed.2]
      simp [Nat.add_assoc]

end Scanned

/-- What stands in a block behind the triple quotes that begin it: the lines, each with an
indentation, and the triple quotes that end it. -/
def blockText (indent : List Char) : List (List Char) → List Char
  | [] => '\n' :: (indent ++ ['"', '"', '"'])
  | line :: lines => '\n' :: (indent ++ (line ++ blockText indent lines))

theorem head?_blockText (indent : List Char) (lines : List (List Char)) (more : List Char) :
    (blockText indent lines ++ more).head? ≠ some '"' := by
  cases lines <;> simp [blockText]

/-- **A block of marked lines ends where it should.** -/
theorem Scanned.blockLength?_blockText {indent : List Char} (gap : IsGap indent)
    (lines : List (List Char)) (more : List Char) (escaping : Bool) :
    blockLength? escaping (blockText indent (lines.map Text.markQuotes) ++ more) =
      some (blockText indent (lines.map Text.markQuotes)).length := by
  induction lines generalizing escaping with
  | nil =>
      have closing : blockLength? false ('"' :: '"' :: '"' :: more) = some 3 := rfl
      rw [List.map_nil, blockText, List.cons_append, List.append_assoc,
        blockLength?_cons (by decide)]
      show (blockLength? false (indent ++ '"' :: '"' :: '"' :: more)).map (· + 1) = _
      rw [blockLength?_gap gap closing]
      simp [Nat.add_comm]
  | cons line lines ih =>
      have inside := blockLength?_markQuotes line (head?_blockText _ _ more) ih false
      rw [List.map_cons, blockText, List.cons_append, List.append_assoc, List.append_assoc,
        blockLength?_cons (by decide)]
      show (blockLength? false (indent ++ _)).map (· + 1) = _
      rw [blockLength?_gap gap inside]
      simp [Nat.add_comm, Nat.add_left_comm]

/-! ## Descriptions as string tokens -/

/-- A way of writing texts as string tokens. -/
abbrev WritesStrings (literal : String → String) : Prop :=
  ∀ text, Spells (literal text) .string fun more => more.head? ≠ some '"'

/-- The description that is read from the string token that writes one. -/
def readBack (literal : String → String) (description : Option String) : Option String :=
  description.map fun text => Text.stringValue (literal text)

/-- A description that stands on one line, or none. -/
def IsOneLine (description : Option String) : Prop := ∀ text ∈ description, '\n' ∉ text.toList

instance (description : Option String) : Decidable (IsOneLine description) :=
  inferInstanceAs (Decidable (∀ text ∈ description, '\n' ∉ text.toList))

theorem readBack_quote (description : Option String) :
    readBack Text.quote description = description := by
  simp [readBack, Text.stringValue_quote]

namespace Schema

/-- The string token that writes a description. -/
def descriptionLiteral (indent text : String) : String :=
  if text.toList.contains '\n' then
    "\"\"\"\n" ++ String.join ((Text.blockLines text.toList).map fun line =>
      indent ++ String.ofList line ++ "\n") ++ indent ++ "\"\"\""
  else Text.quote text

theorem printDescription_some (indent text : String) :
    printDescription indent (some text) = indent ++ descriptionLiteral indent text ++ "\n" := by
  rw [printDescription, descriptionLiteral]
  split <;> simp [String.append_assoc]

theorem descriptionLiteral_of_line {text : String} (line : '\n' ∉ text.toList) (indent : String) :
    descriptionLiteral indent text = Text.quote text := by
  rw [descriptionLiteral, if_neg (by simpa using line)]

/-- A description on one line is read back as it is. -/
theorem readBack_descriptionLiteral {description : Option String} (oneLine : IsOneLine description)
    (indent : String) : readBack (descriptionLiteral indent) description = description := by
  cases description with
  | none => rfl
  | some text =>
      rw [readBack, Option.map_some, descriptionLiteral_of_line (oneLine text rfl),
        Text.stringValue_quote]

theorem toList_descriptionLiteral {text : String} (lines : '\n' ∈ text.toList) (indent : String) :
    (descriptionLiteral indent text).toList =
      '"' :: '"' :: '"' :: blockText indent.toList (Text.blockLines text.toList) := by
  have inside : ∀ lines : List (List Char), '\n' :: (lines.flatMap (fun line =>
      indent.toList ++ (line ++ ['\n'])) ++ (indent.toList ++ ['"', '"', '"'])) =
        blockText indent.toList lines := by
    intro lines
    induction lines with
    | nil => rfl
    | cons line lines ih => simp [blockText, ← ih]
  rw [descriptionLiteral, if_pos (by simpa using lines), ← inside]
  simp [List.flatMap_def, Function.comp_def]

theorem exists_toList_descriptionLiteral (indent text : String) :
    ∃ rest, (descriptionLiteral indent text).toList = '"' :: rest := by
  by_cases lines : '\n' ∈ text.toList
  · exact ⟨_, toList_descriptionLiteral lines indent⟩
  · rw [descriptionLiteral_of_line lines]
    exact ⟨_, Text.toList_quote text⟩

/-- **A printed description is one token.** -/
theorem writesStrings_descriptionLiteral {indent : String} (gap : IsGap indent.toList) :
    WritesStrings (descriptionLiteral indent) := by
  intro text
  by_cases lines : '\n' ∈ text.toList
  · refine ⟨rfl, '"', _, toList_descriptionLiteral lines indent, fun more _ => ?_⟩
    have length := Scanned.blockLength?_blockText gap (Text.shownLines text.toList) more false
    show Scanned.afterQuote ('"' :: '"' :: (blockText _ (Text.blockLines text.toList) ++ more)) = _
    rw [Scanned.afterQuote, Text.blockLines, length]
    rfl
  · rw [descriptionLiteral_of_line lines]
    exact spells_quote text

end Schema

end SchemaGraft
