import SchemaGraft.Proofs.Reading.Standing
import SchemaGraft.Token.Quoted
import SchemaGraft.Text.Literal

/-!
# Quoted strings

A text written as a quoted string is one token, and that token stands for the text
(`spells_quote`, `Text.stringValue_quote`). Both follow the characters of the text one by one: what
`escapeChar` makes of a character never ends the string, and `unescape` takes it back.
-/

set_option autoImplicit false

namespace SchemaGraft

namespace Text

/-! ## Escapes by number -/

theorem hexDigitValue_hexDigit : ∀ value < 16, hexDigitValue (hexDigit 'A' value) = value := by
  decide

theorem isHexDigit_hexDigit : ∀ value < 16, isHexDigit (hexDigit 'A' value) = true := by
  decide

theorem hexDigit_ne_quote : ∀ value < 16, (hexDigit 'A' value == '"') = false := by
  decide

/-- Four digits write a number that they have room for. -/
theorem hexValue_fourHexDigits {value : Nat} (small : value < 65536) :
    hexValue (fourHexDigits 'A' value) = value := by
  have digit : ∀ n : Nat, hexDigitValue (hexDigit 'A' (n % 16)) = n % 16 := fun n =>
    hexDigitValue_hexDigit _ (Nat.mod_lt n (by decide))
  simp only [hexValue, fourHexDigits, List.foldl_cons, List.foldl_nil, digit]
  omega

theorem toNat_lt_of_isControl {c : Char} (control : isControl c = true) : c.toNat < 160 := by
  simp only [isControl, Bool.or_eq_true, Bool.and_eq_true, decide_eq_true_eq] at control
  omega

/-! ## Reading what was escaped -/

theorem unescape_escapeChar (c : Char) (rest : List Char) :
    unescape (escapeChar c ++ rest) = c :: unescape rest := by
  unfold escapeChar
  split_ifs with quote backslash lineFeed carriageReturn tab control
  · rw [beq_iff_eq] at quote
    subst quote
    rfl
  · rw [beq_iff_eq] at backslash
    subst backslash
    rfl
  · rw [beq_iff_eq] at lineFeed
    subst lineFeed
    rfl
  · rw [beq_iff_eq] at carriageReturn
    subst carriageReturn
    rfl
  · rw [beq_iff_eq] at tab
    subst tab
    rfl
  · have small : c.toNat < 65536 := lt_trans (toNat_lt_of_isControl control) (by decide)
    show Char.ofNat (hexValue (fourHexDigits 'A' c.toNat)) :: unescape rest = _
    rw [hexValue_fourHexDigits small, Char.ofNat_toNat]
  · have notBackslash : c ≠ '\\' := by simpa using backslash
    rw [List.singleton_append]
    cases rest <;> simp [unescape, notBackslash]

/-- Reading escaped characters gives them back. -/
theorem unescape_escape (chars : List Char) : unescape (escape chars) = chars := by
  induction chars with
  | nil => rfl
  | cons c rest ih => rw [escape, List.flatMap_cons, unescape_escapeChar, ← escape, ih]

theorem head?_escapeChar (c : Char) :
    ∃ first rest, escapeChar c = first :: rest ∧ first ≠ '"' := by
  unfold escapeChar
  split_ifs with quote
  · exact ⟨_, _, rfl, by decide⟩
  · exact ⟨_, _, rfl, by decide⟩
  · exact ⟨_, _, rfl, by decide⟩
  · exact ⟨_, _, rfl, by decide⟩
  · exact ⟨_, _, rfl, by decide⟩
  · exact ⟨_, _, rfl, by decide⟩
  · exact ⟨_, _, rfl, by simpa using quote⟩

theorem toList_quote (text : String) :
    (quote text).toList = '"' :: (escape text.toList ++ ['"']) :=
  String.toList_ofList

/-- A quoted string is no block string. -/
theorem isBlock_quote (text : String) : isBlock (quote text).toList = false := by
  rw [toList_quote, isBlock]
  cases text.toList with
  | nil => rfl
  | cons c rest =>
      obtain ⟨first, more, same, other⟩ := head?_escapeChar c
      simp [escape, same, other]

/-- **A quoted string stands for the text that was quoted.** -/
theorem stringValue_quote (text : String) : stringValue (quote text) = text := by
  have inside : inner 1 (quote text).toList = escape text.toList := by
    rw [toList_quote]
    simp [inner]
  rw [stringValue]
  simp only [isBlock_quote, Bool.false_eq_true, if_false]
  rw [inside, unescape_escape, String.ofList_toList]

end Text

/-! ## Scanning what was escaped -/

namespace Scanned

open Text

/-- Inside a quoted string an escaped character is passed over. -/
theorem quotedLength?_escapeChar {rest : List Char} {count : Nat}
    (behind : quotedLength? false .plain none rest = some (count, none)) (isFirst : Bool)
    (c : Char) : quotedLength? isFirst .plain none (escapeChar c ++ rest) =
      some (count + (escapeChar c).length, none) := by
  unfold escapeChar
  split_ifs with quote backslash lineFeed carriageReturn tab control
  · simp [quotedLength?, isSimpleEscape, behind, endsComment]
  · simp [quotedLength?, isSimpleEscape, behind, endsComment]
  · simp [quotedLength?, isSimpleEscape, behind, endsComment]
  · simp [quotedLength?, isSimpleEscape, behind, endsComment]
  · simp [quotedLength?, isSimpleEscape, behind, endsComment]
  · have small := toNat_lt_of_isControl control
    have digit : ∀ n : Nat, isHexDigit (hexDigit 'A' (n % 16)) = true := fun n =>
      isHexDigit_hexDigit _ (Nat.mod_lt n (by decide))
    have notQuote : ∀ n : Nat, (hexDigit 'A' (n % 16) == '"') = false := fun n =>
      hexDigit_ne_quote _ (Nat.mod_lt n (by decide))
    have number := hexValue_fourHexDigits (lt_trans small (by decide))
    have low : ¬ (0xD800 ≤ c.toNat ∧ c.toNat ≤ 0xDFFF) := by omega
    rw [fourHexDigits] at number ⊢
    simp [quotedLength?, behind, endsComment, digit, notQuote, number, low]
  · simp [quotedLength?, behind, quote, backslash, endsComment, lineFeed, carriageReturn]

theorem quotedLength?_escape (isFirst : Bool) (chars more : List Char) :
    quotedLength? isFirst .plain none (escape chars ++ '"' :: more) =
      some ((escape chars).length + 1, none) := by
  induction chars generalizing isFirst with
  | nil => simp [escape, quotedLength?]
  | cons c rest ih =>
      have split : escape (c :: rest) = escapeChar c ++ escape rest := List.flatMap_cons
      rw [split, List.append_assoc, quotedLength?_escapeChar (ih false), List.length_append]
      congr 2
      omega

theorem afterQuote_escape {chars more : List Char} (ends : more.head? ≠ some '"') :
    afterQuote (escape chars ++ '"' :: more) = token .string ((escape chars).length + 1) := by
  cases chars with
  | nil =>
      cases more with
      | nil => rfl
      | cons d rest =>
          have other : d ≠ '"' := by simpa using ends
          show afterQuote ('"' :: d :: rest) = _
          unfold afterQuote
          split
          · contradiction
          · simp_all
          · rfl
          · simp_all
  | cons c rest =>
      obtain ⟨first, after, same, other⟩ := head?_escapeChar c
      have length := quotedLength?_escape true (c :: rest) more
      have split : escape (c :: rest) = first :: (after ++ escape rest) := by
        rw [escape, List.flatMap_cons, same, ← escape]
        rfl
      rw [split, List.cons_append] at length ⊢
      unfold afterQuote
      split
      · contradiction
      · simp_all
      · simp_all
      · rw [length]

end Scanned

/-- **A quoted text is one token**, unless another quote follows. -/
theorem spells_quote (text : String) :
    Spells (Text.quote text) .string fun more => more.head? ≠ some '"' where
  kept := rfl
  scanned := by
    refine ⟨'"', Text.escape text.toList ++ ['"'], Text.toList_quote text, fun more ends => ?_⟩
    show Scanned.afterQuote _ = _
    rw [List.append_assoc, List.singleton_append, Scanned.afterQuote_escape ends,
      List.length_append, List.length_singleton]

end SchemaGraft
