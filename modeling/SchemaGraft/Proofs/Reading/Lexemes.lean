import Mathlib.Data.List.TakeWhile
import Mathlib.Tactic.SplitIfs
import SchemaGraft.Token.Lexeme

/-!
# The lexemes of a text

Names and numbers are words: where a word ends is decided by the character after it. Whether a text
is a word of some kind does not depend on what comes later, so a word that was read can be written
again in another place (`IsWord`, `Lexeme.isSpelled_lexemes`).

The lexemes of a text come to an end only with the end of the input or with rejected text
(`Supply`).
-/

set_option autoImplicit false

namespace SchemaGraft

/-! ## Words -/

/-- Characters that must not follow a word. -/
def continuesWord (c : Char) : Bool := isNameContinue c || c == '.'

/-- A word may end before some characters. -/
def EndsWord (chars : List Char) : Prop := ∀ c ∈ chars.head?, continuesWord c = false

/-- A text is read as one token of a kind, wherever a word may end after it. -/
def IsWord (kind : TokenKind) (text : String) : Prop :=
  ∃ first rest, text.toList = first :: rest ∧
    ∀ more, EndsWord more → scan first (rest ++ more) = .token kind rest.length

theorem endsWord_nil : EndsWord [] := by simp [EndsWord]

theorem endsWord_cons_iff {c : Char} {rest : List Char} :
    EndsWord (c :: rest) ↔ continuesWord c = false := by
  simp [EndsWord]

/-- What a word may not be followed by is neither a digit nor the beginning of a name. -/
theorem EndsWord.cons_spec {c : Char} {rest : List Char} (ends : EndsWord (c :: rest)) :
    c.isDigit = false ∧ isNameStart c = false ∧ (c == '.') = false := by
  rw [endsWord_cons_iff] at ends
  simp only [continuesWord, isNameContinue, Bool.or_eq_false_iff] at ends
  exact ⟨ends.1.2, ends.1.1, ends.2⟩

/-- Characters that fulfil a condition stay the same before what ends a word. -/
theorem EndsWord.takeWhile_append {condition : Char → Bool}
    (continues : ∀ c, condition c = true → continuesWord c = true) {more : List Char}
    (ends : EndsWord more) {chars : List Char} (all : ∀ c ∈ chars, condition c = true) :
    (chars ++ more).takeWhile condition = chars := by
  rw [List.takeWhile_append_of_pos all]
  cases more with
  | nil => simp
  | cons c rest =>
      rw [List.takeWhile_cons_of_neg, List.append_nil]
      intro holds
      rw [endsWord_cons_iff, continues c holds] at ends
      cases ends

theorem EndsWord.dropWhile_append {condition : Char → Bool}
    (continues : ∀ c, condition c = true → continuesWord c = true) {more : List Char}
    (ends : EndsWord more) {chars : List Char} (all : ∀ c ∈ chars, condition c = true) :
    (chars ++ more).dropWhile condition = more := by
  rw [List.dropWhile_append_of_pos all]
  cases more with
  | nil => rfl
  | cons c rest =>
      rw [List.dropWhile_cons_of_neg]
      intro holds
      rw [endsWord_cons_iff, continues c holds] at ends
      cases ends

theorem continuesWord_of_isDigit (c : Char) (digit : c.isDigit = true) :
    continuesWord c = true := by
  simp [continuesWord, isNameContinue, digit]

theorem continuesWord_of_isNameContinue (c : Char) (continues : isNameContinue c = true) :
    continuesWord c = true := by
  simp [continuesWord, continues]

theorem EndsWord.head?_isDigit {more : List Char} (ends : EndsWord more) :
    ∀ c ∈ more.head?, c.isDigit = false := by
  intro c member
  cases continues : c.isDigit with
  | false => rfl
  | true =>
      have stops := ends c member
      rw [continuesWord_of_isDigit c continues] at stops
      cases stops

/-! ## Numbers -/

/-- Scanning cuts a token off some characters, and would cut off the same one wherever a word may
end after it. `consumed` characters of the token come before these. -/
def CutsNumber (scanRest : List Char → Scanned) (consumed : Nat) (chars : List Char) : Prop :=
  ∀ kind extra, scanRest chars = .token kind extra →
    (kind = .int ∨ kind = .float) ∧ ∃ used rest, chars = used ++ rest ∧
      extra = consumed + used.length ∧
      ∀ more, EndsWord more → scanRest (used ++ more) = .token kind extra

namespace Scanned

theorem token_ne_problem {kind : TokenKind} {extra count : Nat} {reason : LexicalProblem} :
    problem reason count ≠ token kind extra := by
  simp [problem, token]

theorem startsExponent_eq_false {c : Char} (notName : isNameStart c = false) :
    startsExponent c = false := by
  cases starts : startsExponent c with
  | false => rfl
  | true =>
      simp only [startsExponent, Bool.or_eq_true, beq_iff_eq] at starts
      rcases starts with rfl | rfl <;> cases notName

/-- The digits of an exponent are a token as far as they go. -/
theorem exponentDigits_spec {consumed extra : Nat} {chars : List Char} {kind : TokenKind}
    (found : exponentDigits consumed chars = .token kind extra) :
    kind = .float ∧ extra = consumed + (chars.takeWhile Char.isDigit).length ∧
      ∀ more, EndsWord more →
        exponentDigits consumed (chars.takeWhile Char.isDigit ++ more) = .token kind extra := by
  have same : kind = .float ∧ extra = consumed + (chars.takeWhile Char.isDigit).length := by
    unfold exponentDigits at found
    split at found
    · cases found
      exact ⟨rfl, rfl⟩
    · split at found
      · exact absurd found token_ne_problem
      · cases found
        exact ⟨rfl, rfl⟩
  obtain ⟨rfl, rfl⟩ := same
  refine ⟨rfl, rfl, fun more ends => ?_⟩
  have all : ∀ c ∈ chars.takeWhile Char.isDigit, c.isDigit = true :=
    fun _ member => List.mem_takeWhile_imp member
  unfold exponentDigits digitCount
  rw [ends.takeWhile_append continuesWord_of_isDigit all,
    ends.dropWhile_append continuesWord_of_isDigit all]
  cases more with
  | nil => rfl
  | cons c rest =>
      obtain ⟨_, notName, notPoint⟩ := ends.cons_spec
      simp [clashesWithNumber, notName, notPoint]

theorem cutsNumber_exponent (consumed : Nat) (chars : List Char) :
    CutsNumber (exponent consumed) consumed chars := by
  intro kind extra found
  cases chars with
  | nil => exact absurd found token_ne_problem
  | cons c rest =>
      by_cases sign : (c == '+' || c == '-') = true
      · cases rest with
        | nil =>
            simp only [exponent, sign, if_true] at found
            exact absurd found token_ne_problem
        | cons digit rest =>
            by_cases isDigit : digit.isDigit = true
            · simp only [exponent, sign, isDigit, if_true] at found
              obtain ⟨rfl, rfl, again⟩ := exponentDigits_spec found
              refine ⟨.inr rfl, c :: (digit :: rest).takeWhile Char.isDigit,
                (digit :: rest).dropWhile Char.isDigit, by simp, by simp; omega, ?_⟩
              intro more ends
              have digits := again more ends
              rw [List.takeWhile_cons_of_pos isDigit] at digits ⊢
              simp only [exponent, List.cons_append, sign, if_true, isDigit]
              exact digits
            · simp only [exponent, sign, isDigit, if_true] at found
              exact absurd found token_ne_problem
      · by_cases isDigit : c.isDigit = true
        · simp only [exponent, sign, isDigit, if_true] at found
          obtain ⟨rfl, rfl, again⟩ := exponentDigits_spec found
          refine ⟨.inr rfl, (c :: rest).takeWhile Char.isDigit,
            (c :: rest).dropWhile Char.isDigit, by simp, rfl, ?_⟩
          intro more ends
          have digits := again more ends
          rw [List.takeWhile_cons_of_pos isDigit] at digits ⊢
          simp only [exponent, List.cons_append, sign, isDigit, if_true]
          exact digits
        · simp only [exponent, sign, isDigit] at found
          exact absurd found token_ne_problem

/-- A run of digits before something else is cut off there. -/
theorem takeWhile_digits_append {digits rest : List Char}
    (all : ∀ c ∈ digits, c.isDigit = true) (stops : ∀ c ∈ rest.head?, c.isDigit = false) :
    (digits ++ rest).takeWhile Char.isDigit = digits ∧
      (digits ++ rest).dropWhile Char.isDigit = rest := by
  rw [List.takeWhile_append_of_pos all, List.dropWhile_append_of_pos all]
  cases rest with
  | nil => simp
  | cons c rest =>
      have notDigit : ¬ c.isDigit = true := by simp [stops c rfl]
      simp [notDigit]

theorem head?_dropWhile_isDigit (chars : List Char) :
    ∀ c ∈ (chars.dropWhile Char.isDigit).head?, c.isDigit = false := by
  intro c member
  have stops := List.head?_dropWhile_not Char.isDigit chars
  rw [Option.mem_def.1 member] at stops
  simpa using stops

section Fraction

variable (consumed : Nat) {digits : List Char} (some : digits ≠ [])
  (all : ∀ c ∈ digits, c.isDigit = true)
include some all

/-- A fraction may end after its digits. -/
theorem fraction_digits : fraction consumed digits = token .float (consumed + digits.length) := by
  cases digits with
  | nil => exact absurd rfl some
  | cons digit digits =>
      have stops : ∀ c ∈ ([] : List Char).head?, c.isDigit = false := by simp
      obtain ⟨taken, dropped⟩ := takeWhile_digits_append all stops
      rw [List.append_nil] at taken dropped
      have isDigit := all digit (by simp)
      simp only [fraction, isDigit, Bool.not_true, Bool.false_eq_true, if_false, digitCount, taken,
        dropped]

/-- What follows the digits of a fraction. -/
theorem fraction_append {next : Char} (stops : next.isDigit = false) (after : List Char) :
    fraction consumed (digits ++ next :: after) =
      if startsExponent next then exponent (consumed + digits.length + 1) after
      else if clashesWithNumber next then
        problem (.floatSuffix next) (consumed + digits.length + 1)
      else token .float (consumed + digits.length) := by
  cases digits with
  | nil => exact absurd rfl some
  | cons digit digits =>
      have head : ∀ c ∈ (next :: after).head?, c.isDigit = false := by simpa using stops
      obtain ⟨taken, dropped⟩ := takeWhile_digits_append all head
      rw [List.cons_append] at taken dropped ⊢
      have isDigit := all digit (by simp)
      simp only [fraction, isDigit, Bool.not_true, Bool.false_eq_true, if_false, digitCount, taken,
        dropped]

/-- A fraction ends where a word may end. -/
theorem fraction_append_endsWord {more : List Char} (ends : EndsWord more) :
    fraction consumed (digits ++ more) = token .float (consumed + digits.length) := by
  cases more with
  | nil =>
      rw [List.append_nil]
      exact fraction_digits consumed some all
  | cons c rest =>
      obtain ⟨notDigit, notName, notPoint⟩ := ends.cons_spec
      rw [fraction_append consumed some all notDigit]
      simp [startsExponent_eq_false notName, clashesWithNumber, notName, notPoint]

end Fraction

theorem cutsNumber_fraction (consumed : Nat) (chars : List Char) :
    CutsNumber (fraction consumed) consumed chars := by
  intro kind extra found
  by_cases none : chars.takeWhile Char.isDigit = []
  · -- Without a digit there is no fraction.
    cases chars with
    | nil => exact absurd found token_ne_problem
    | cons c rest =>
        have notDigit : c.isDigit = false := by
          by_contra isDigit
          rw [Bool.not_eq_false] at isDigit
          rw [List.takeWhile_cons_of_pos isDigit] at none
          cases none
        simp only [fraction, notDigit, Bool.not_false, if_true] at found
        exact absurd found token_ne_problem
  · have all : ∀ c ∈ chars.takeWhile Char.isDigit, c.isDigit = true :=
      fun _ member => List.mem_takeWhile_imp member
    have split := List.takeWhile_append_dropWhile (p := Char.isDigit) (l := chars)
    cases rest : chars.dropWhile Char.isDigit with
    | nil =>
        rw [← split, rest, List.append_nil, fraction_digits consumed none all] at found
        cases found
        refine ⟨.inr rfl, chars.takeWhile Char.isDigit, [], by rw [← rest, split], rfl, ?_⟩
        exact fun more ends => fraction_append_endsWord consumed none all ends
    | cons next after =>
        have stops := head?_dropWhile_isDigit chars next (by simp [rest])
        rw [← split, rest, fraction_append consumed none all stops] at found
        by_cases exponential : startsExponent next = true
        · rw [if_pos exponential] at found
          obtain ⟨float, used, left, rfl, rfl, again⟩ := cutsNumber_exponent _ _ _ _ found
          refine ⟨float, chars.takeWhile Char.isDigit ++ next :: used, left, ?_, ?_, ?_⟩
          · rw [List.append_assoc, List.cons_append, ← rest, split]
          · simp
            omega
          · intro more ends
            rw [List.append_assoc, List.cons_append, fraction_append consumed none all stops,
              if_pos exponential]
            exact again more ends
        · rw [if_neg exponential] at found
          split at found
          · exact absurd found token_ne_problem
          · cases found
            refine ⟨.inr rfl, chars.takeWhile Char.isDigit, next :: after,
              by rw [← rest, split], rfl, ?_⟩
            exact fun more ends => fraction_append_endsWord consumed none all ends

theorem afterInteger_of_endsWord (isZero : Bool) (consumed : Nat) {more : List Char}
    (ends : EndsWord more) : afterInteger isZero consumed more = token .int consumed := by
  cases more with
  | nil => rfl
  | cons c rest =>
      obtain ⟨notDigit, notName, notPoint⟩ := ends.cons_spec
      simp [afterInteger, notPoint, startsExponent_eq_false notName, notDigit, notName]

theorem cutsNumber_afterInteger (isZero : Bool) (consumed : Nat) (chars : List Char) :
    CutsNumber (afterInteger isZero consumed) consumed chars := by
  intro kind extra found
  have whole : ∀ {kind extra}, token .int consumed = token kind extra →
      (kind = .int ∨ kind = .float) ∧ ∃ used rest, chars = used ++ rest ∧
        extra = consumed + used.length ∧ ∀ more, EndsWord more →
          afterInteger isZero consumed (used ++ more) = token kind extra := by
    intro kind extra same
    cases same
    exact ⟨.inl rfl, [], chars, rfl, rfl, fun more ends =>
      afterInteger_of_endsWord isZero consumed ends⟩
  cases chars with
  | nil => exact whole found
  | cons c rest =>
      by_cases point : (c == '.') = true
      · simp only [afterInteger, point, if_true] at found
        obtain ⟨float, used, left, rfl, rfl, again⟩ := cutsNumber_fraction _ _ _ _ found
        refine ⟨float, c :: used, left, rfl, by simp; omega, fun more ends => ?_⟩
        simp only [afterInteger, List.cons_append, point, if_true]
        exact again more ends
      · by_cases exponential : startsExponent c = true
        · simp only [afterInteger, point, exponential, if_true] at found
          obtain ⟨float, used, left, rfl, rfl, again⟩ := cutsNumber_exponent _ _ _ _ found
          refine ⟨float, c :: used, left, rfl, by simp; omega, fun more ends => ?_⟩
          simp only [afterInteger, List.cons_append, point, exponential, if_true]
          exact again more ends
        · rw [Bool.not_eq_true] at point exponential
          simp only [afterInteger, point, exponential, Bool.false_eq_true, if_false] at found
          split at found
          · exact absurd found token_ne_problem
          · split at found
            · exact absurd found token_ne_problem
            · exact whole found

theorem cutsNumber_afterFirstDigit (digit : Char) (consumed : Nat) (chars : List Char) :
    CutsNumber (afterFirstDigit digit consumed) consumed chars := by
  intro kind extra found
  by_cases zero : (digit == '0') = true
  · simp only [afterFirstDigit, zero, if_true] at found ⊢
    exact cutsNumber_afterInteger _ _ _ _ _ found
  · simp only [afterFirstDigit, zero] at found ⊢
    have all : ∀ c ∈ chars.takeWhile Char.isDigit, c.isDigit = true :=
      fun _ member => List.mem_takeWhile_imp member
    obtain ⟨number, used, left, split, rfl, again⟩ := cutsNumber_afterInteger _ _ _ _ _ found
    refine ⟨number, chars.takeWhile Char.isDigit ++ used, left, ?_, ?_, ?_⟩
    · rw [List.append_assoc, ← split, List.takeWhile_append_dropWhile]
    · simp [digitCount]
      omega
    · intro more ends
      have stops : ∀ c ∈ (used ++ more).head?, c.isDigit = false := by
        cases used with
        | nil => exact ends.head?_isDigit
        | cons c rest =>
            have first := head?_dropWhile_isDigit chars
            rw [split] at first
            simpa using first
      obtain ⟨taken, dropped⟩ := takeWhile_digits_append all stops
      rw [List.append_assoc, digitCount, taken, dropped]
      exact again more ends

theorem cutsNumber_afterMinus (chars : List Char) : CutsNumber afterMinus 0 chars := by
  intro kind extra found
  cases chars with
  | nil => exact absurd found token_ne_problem
  | cons c rest =>
      by_cases isDigit : c.isDigit = true
      · simp only [afterMinus, isDigit, if_true] at found
        obtain ⟨number, used, left, rfl, rfl, again⟩ := cutsNumber_afterFirstDigit _ _ _ _ _ found
        refine ⟨number, c :: used, left, rfl, by simp; omega, fun more ends => ?_⟩
        simp only [afterMinus, List.cons_append, isDigit, if_true]
        exact again more ends
      · simp only [afterMinus, isDigit] at found
        exact absurd found token_ne_problem

end Scanned

/-! ## Tokens of a text -/

theorem TokenKind.ofPunctuation?_ne_word {c : Char} {kind : TokenKind}
    (found : TokenKind.ofPunctuation? c = some kind) :
    kind ≠ .name ∧ kind ≠ .int ∧ kind ≠ .float ∧ kind ≠ .endOfInput := by
  unfold TokenKind.ofPunctuation? at found
  split at found <;> cases found <;> simp

/-- Names do not begin with punctuation. -/
theorem TokenKind.isNameStart_of_ofPunctuation? {c : Char} {kind : TokenKind}
    (found : TokenKind.ofPunctuation? c = some kind) : isNameStart c = false := by
  unfold TokenKind.ofPunctuation? at found
  split at found <;> cases found <;> rfl

/-- What begins with a quote is a string, if it is a token. -/
theorem Scanned.kind_of_afterQuote {chars : List Char} {kind : TokenKind} {extra : Nat}
    (found : Scanned.afterQuote chars = .token kind extra) : kind = .string := by
  unfold Scanned.afterQuote at found
  split at found
  · exact absurd found Scanned.token_ne_problem
  · split at found
    · cases found
      rfl
    · exact absurd found Scanned.token_ne_problem
  · cases found
    rfl
  · split at found
    · cases found
      rfl
    · exact absurd found Scanned.token_ne_problem
    · exact absurd found Scanned.token_ne_problem

/-- A name goes on as far as it can. -/
theorem scan_name {c : Char} {name more : List Char} (plain : TokenKind.ofPunctuation? c = none)
    (starts : isNameStart c = true) (all : ∀ d ∈ name, isNameContinue d = true)
    (ends : EndsWord more) : scan c (name ++ more) = .token .name name.length := by
  unfold scan
  simp only [plain, starts, if_true]
  rw [ends.takeWhile_append continuesWord_of_isNameContinue all]

/-- Whatever is a valid name is read as a name. -/
theorem isWord_of_isValid {text : String} (valid : Name.IsValid text) : IsWord .name text := by
  unfold Name.IsValid Name.isValid at valid
  cases spelled : text.toList with
  | nil => simp [spelled, Name.isValidChars] at valid
  | cons c rest =>
      rw [spelled, Name.isValidChars, Bool.and_eq_true, List.all_eq_true] at valid
      have plain : TokenKind.ofPunctuation? c = none := by
        cases mark : TokenKind.ofPunctuation? c with
        | none => rfl
        | some kind =>
            have other := TokenKind.isNameStart_of_ofPunctuation? mark
            rw [valid.1] at other
            cases other
      exact ⟨c, rest, spelled, fun more ends => scan_name plain valid.1 valid.2 ends⟩

theorem isWord_of_cutsNumber {c : Char} {rest : List Char} {kind : TokenKind} {extra : Nat}
    {scanRest : List Char → Scanned} (same : ∀ chars, scan c chars = scanRest chars)
    (cuts : CutsNumber scanRest 0 rest) (found : scan c rest = .token kind extra) :
    IsWord kind (String.ofList (c :: rest.take extra)) := by
  rw [same] at found
  obtain ⟨_, used, left, rfl, rfl, again⟩ := cuts _ _ found
  refine ⟨c, used, by simp, fun more ends => ?_⟩
  rw [same, again more ends, Nat.zero_add]

/-- **Names and numbers that were read are words.** -/
theorem isWord_of_scan {c : Char} {rest : List Char} {kind : TokenKind} {extra : Nat}
    (found : scan c rest = .token kind extra)
    (word : kind = .name ∨ kind = .int ∨ kind = .float) :
    IsWord kind (String.ofList (c :: rest.take extra)) := by
  have scanned := found
  unfold scan at found
  split at found
  · rename_i punctuation
    cases found
    obtain ⟨name, int, float, _⟩ := TokenKind.ofPunctuation?_ne_word punctuation
    rcases word with rfl | rfl | rfl <;> contradiction
  · rename_i plain
    split_ifs at found with name blank comment quote minus digit point
    · cases found
      have taken :=
        (List.prefix_iff_eq_take.1 (List.takeWhile_prefix isNameContinue (l := rest))).symm
      refine ⟨c, rest.takeWhile isNameContinue, by simp [taken], fun more ends => ?_⟩
      exact scan_name plain name (fun _ member => List.mem_takeWhile_imp member) ends
    · cases found
      rcases word with word | word | word <;> cases word
    · cases found
      rcases word with word | word | word <;> cases word
    · rw [Scanned.kind_of_afterQuote found] at word
      rcases word with word | word | word <;> cases word
    · refine isWord_of_cutsNumber (fun chars => ?_) (Scanned.cutsNumber_afterMinus rest) scanned
      simp only [scan, plain, name, blank, comment, quote, minus, if_true, Bool.false_eq_true,
        if_false]
    · refine isWord_of_cutsNumber (fun chars => ?_)
        (Scanned.cutsNumber_afterFirstDigit c 0 rest) scanned
      simp only [scan, plain, name, blank, comment, quote, minus, digit, if_true,
        Bool.false_eq_true, if_false]
    · split at found
      · exact absurd found Scanned.token_ne_problem
      · cases found
        rcases word with word | word | word <;> cases word
      · exact absurd found Scanned.token_ne_problem
    · exact absurd found Scanned.token_ne_problem

/-- What is scanned is never the end of the input. -/
theorem kind_ne_endOfInput_of_scan {c : Char} {rest : List Char} {kind : TokenKind} {extra : Nat}
    (found : scan c rest = .token kind extra) : kind ≠ .endOfInput := by
  unfold scan at found
  split at found
  · rename_i punctuation
    cases found
    exact (TokenKind.ofPunctuation?_ne_word punctuation).2.2.2
  · rename_i plain
    split_ifs at found
    · cases found
      simp
    · cases found
      simp
    · cases found
      simp
    · rw [Scanned.kind_of_afterQuote found]
      simp
    · obtain ⟨rfl | rfl, _⟩ := Scanned.cutsNumber_afterMinus _ _ _ found <;> simp
    · obtain ⟨rfl | rfl, _⟩ := Scanned.cutsNumber_afterFirstDigit _ _ _ _ _ found <;> simp
    · split at found
      · exact absurd found Scanned.token_ne_problem
      · cases found
        simp
      · exact absurd found Scanned.token_ne_problem
    · exact absurd found Scanned.token_ne_problem

/-- What the grammar passes over does not begin like a name. -/
theorem isNameStart_of_scan {c : Char} {rest : List Char} {kind : TokenKind} {extra : Nat}
    (found : scan c rest = .token kind extra) (ignored : kind.isIgnored = true) :
    isNameStart c = false := by
  unfold scan at found
  split at found
  · rename_i punctuation
    unfold TokenKind.ofPunctuation? at punctuation
    split at punctuation <;> first | rfl | cases punctuation
  · split_ifs at found with name
    · cases found
      cases ignored
    all_goals exact Bool.eq_false_iff.2 name

/-! ## Supplies of lexemes -/

/-- The text of a token is what its kind asks for: names and numbers are words, what is passed over
does not begin like a name, and there is no text at the end of the input. -/
structure Token.IsSpelled (token : Token) : Prop where
  word : token.kind = .name ∨ token.kind = .int ∨ token.kind = .float →
    IsWord token.kind token.text
  ignored : token.kind.isIgnored = true → ∀ c ∈ token.text.toList.head?, isNameStart c = false
  endOfInput : token.kind = .endOfInput → token.text = ""

/-- The grammar sees a token, and it is not the end of the input. -/
structure Token.IsVisible (token : Token) : Prop where
  kept : token.kind.isIgnored = false
  goes_on : token.kind ≠ .endOfInput

/-- What begins like a name is seen. -/
theorem Token.IsSpelled.isVisible {token : Token} (spelled : token.IsSpelled)
    (word : token.text.toList.head?.any isNameStart = true) : token.IsVisible := by
  refine ⟨Bool.eq_false_iff.2 fun ignored => ?_, fun ends => ?_⟩
  · rw [Option.any_eq_true] at word
    obtain ⟨c, first, starts⟩ := word
    rw [spelled.ignored ignored c first] at starts
    cases starts
  · rw [spelled.endOfInput ends] at word
    cases word

/-- Lexemes that come to an end with the end of the input, if no rejected text comes before. -/
inductive Supply : List Lexeme → Prop where
  | last {token : Token} (ends : token.kind = .endOfInput) (spelled : token.IsSpelled) :
      Supply [.token token]
  | token {token : Token} {rest : List Lexeme} (goes_on : token.kind ≠ .endOfInput)
      (spelled : token.IsSpelled) (supply : Supply rest) : Supply (.token token :: rest)
  | rejected {fault : Fault LexicalProblem} {rest : List Lexeme} : Supply (.rejected fault :: rest)

theorem Supply.isSpelled {token : Token} {rest : List Lexeme}
    (supply : Supply (.token token :: rest)) : token.IsSpelled := by
  cases supply <;> assumption

theorem Supply.tail {token : Token} {rest : List Lexeme} (supply : Supply (.token token :: rest))
    (goes_on : token.kind ≠ .endOfInput) : Supply rest := by
  cases supply with
  | last ends => exact absurd ends goes_on
  | token _ _ supply => exact supply

/-- The lexemes where a new one begins, unless the limit was reached. -/
theorem lexemesFrom_cons {allowed : Option Nat} (positive : allowed ≠ some 0) (offset : Nat)
    (c : Char) (rest : List Char) :
    lexemesFrom allowed 0 offset (c :: rest) =
      (scan c rest).finding.lexeme (String.ofList (c :: rest.take (scan c rest).extra)) offset ::
        lexemesFrom (allowed.map (· - 1)) (scan c rest).extra (offset + c.utf8Size) rest := by
  match allowed, positive with
  | none, _ => rfl
  | some (count + 1), _ => rfl

theorem supply_lexemesFrom (allowed : Option Nat) (skip offset : Nat) (chars : List Char) :
    Supply (lexemesFrom allowed skip offset chars) := by
  induction chars generalizing allowed skip offset with
  | nil =>
      unfold lexemesFrom
      split
      · exact .rejected
      · exact .last rfl ⟨by simp, by simp, fun _ => rfl⟩
  | cons c rest ih =>
      cases skip with
      | succ skip => exact ih allowed skip _
      | zero =>
          by_cases reached : allowed = some 0
          · subst reached
            exact .rejected
          · rw [lexemesFrom_cons reached]
            cases found : (scan c rest).finding with
            | problem reason => exact .rejected
            | token kind =>
                have scanned : scan c rest = .token kind (scan c rest).extra := by
                  rw [Scanned.token, ← found]
                refine .token (kind_ne_endOfInput_of_scan scanned) ⟨?_, ?_, ?_⟩ (ih _ _ _)
                · exact isWord_of_scan scanned
                · intro ignored
                  simp [isNameStart_of_scan scanned ignored]
                · exact fun ends => absurd ends (kind_ne_endOfInput_of_scan scanned)

/-- **The lexemes of a text are a supply.** -/
theorem supply_lexemes (limit : Option Nat) (text : String) : Supply (lexemes limit text) :=
  supply_lexemesFrom limit 0 0 text.toList

end SchemaGraft
