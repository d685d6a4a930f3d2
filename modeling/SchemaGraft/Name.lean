import SchemaGraft.Source

/-!
# Names

A name is a letter or underscore followed by letters, digits and underscores, all of them ASCII.
`Name.IsValid` is this rule and `Name.ofText?` is the only way in for text from outside.

A name that was read from a document also knows where it stood. Comparison ignores that, so that
a name written in one place finds what was defined in another.
-/

set_option autoImplicit false

namespace SchemaGraft

/-- Characters that can begin a name. -/
def isNameStart (c : Char) : Bool := c.isAlpha || c == '_'

/-- Characters that can follow the first one of a name. -/
def isNameContinue (c : Char) : Bool := isNameStart c || c.isDigit

/-- A name of a type, field, argument, value or directive. -/
structure Name where
  text : String
  /-- Where the name was read. -/
  location : Option Location

/-- The complaint about a text that is no name. -/
structure InvalidName where
  text : String
  deriving DecidableEq

/-- The sentence that reports a text that is no name. -/
def InvalidName.message (invalid : InvalidName) : String :=
  "`" ++ invalid.text ++ "` is not a valid GraphQL name"

namespace Name

/-- Names are compared by their text alone. -/
instance : BEq Name := ⟨fun left right => left.text == right.text⟩

theorem beq_iff_text_eq {left right : Name} : (left == right) = true ↔ left.text = right.text := by
  show (left.text == right.text) = true ↔ _
  exact beq_iff_eq

instance : ReflBEq Name := ⟨beq_iff_text_eq.2 rfl⟩

instance : PartialEquivBEq Name where
  symm same := beq_iff_text_eq.2 (beq_iff_text_eq.1 same).symm
  trans first second :=
    beq_iff_text_eq.2 ((beq_iff_text_eq.1 first).trans (beq_iff_text_eq.1 second))

instance : EquivBEq Name where

/-- A name that was not read from a document. -/
def plain (text : String) : Name := ⟨text, none⟩

/-- Whether the characters spell a name. -/
def isValidChars : List Char → Bool
  | [] => false
  | first :: rest => isNameStart first && rest.all isNameContinue

/-- Whether a text spells a name. -/
def isValid (text : String) : Bool := isValidChars text.toList

/-- The texts that spell a name. -/
def IsValid (text : String) : Prop := isValid text = true

instance (text : String) : Decidable (IsValid text) := inferInstanceAs (Decidable (_ = true))

/-- A name without a place, if the text spells one. -/
def ofText? (text : String) : Except InvalidName Name :=
  if isValid text then .ok (plain text) else .error ⟨text⟩

/-- Names in the order of their characters, equal ones side by side. -/
def sort (names : List Name) : List Name :=
  names.mergeSort fun left right => decide (left.text ≤ right.text)

/-- The first of each group of equal names. -/
def distinct : List Name → List Name
  | [] => []
  | name :: rest => name :: (distinct rest).filter fun other => !(other == name)

end Name

/-- A map whose keys are names, in the order in which they were added. -/
abbrev NameMap (ν : Type) := OrderedMap Name ν

/-- A set of names in the order in which they were added. -/
abbrev NameSet := OrderedMap Name Unit

namespace NameSet

/-- Adds a name at the end unless it is there. -/
def add (names : NameSet) (name : Name) : NameSet := names.insert name ()

/-- The set of the names of a list, later repetitions left out. -/
def ofList (names : List Name) : NameSet := names.foldl add OrderedMap.empty

end NameSet

end SchemaGraft
