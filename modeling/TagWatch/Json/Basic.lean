/-!
# JSON values

Values keep what their text says as far as a reader can tell it apart: numbers keep their
literal, and objects keep all their members in order, equal names included. The content of a
string is absent when the text spells a surrogate that belongs to no pair, since then it is no
Unicode text; such a string is harmless where nobody asks for its content.
-/

namespace TagWatch

/-- A JSON value. -/
inductive Json where
  | null
  | bool (value : Bool)
  | number (literal : String)
  | string (content : Option String)
  | array (elements : List Json)
  | object (members : List (Option String × Json))
  deriving Repr, Inhabited

namespace Json

/-- The object with the given members. -/
def ofMembers (members : List (String × Json)) : Json :=
  .object (members.map fun m => (some m.1, m.2))

/-- The string with the given content. -/
def ofText (s : String) : Json := .string (some s)

/-- The number that is a natural number. -/
def ofNat (n : Nat) : Json := .number (toString n)

/-- A value that may be missing, which is written as null. -/
def ofOption {α : Type} (f : α → Json) : Option α → Json
  | some a => f a
  | none => .null

end Json

end TagWatch
