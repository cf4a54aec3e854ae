import TagWatch.Json.Basic

/-!
# Printing JSON

Values are printed over several lines, with two blanks for each level. Empty containers stay on
one line.
-/

namespace TagWatch.Json

/-- The text of a character inside a string. -/
def escapeChar (c : Char) : List Char :=
  if c = '"' then ['\\', '"']
  else if c = '\\' then ['\\', '\\']
  else if c = '\n' then ['\\', 'n']
  else if c = '\r' then ['\\', 'r']
  else if c = '\t' then ['\\', 't']
  else if c = '\x08' then ['\\', 'b']
  else if c = '\x0c' then ['\\', 'f']
  else if c.toNat < 0x20 then
    ['\\', 'u', '0', '0', Nat.digitChar (c.toNat / 16), Nat.digitChar (c.toNat % 16)]
  else [c]

/-- A string in quotes. -/
def quote (s : String) : String := String.ofList ('"' :: s.toList.flatMap escapeChar ++ ['"'])

/-- A line break and the blanks of a level. -/
def newline (level : Nat) : String := String.ofList ('\n' :: List.replicate (2 * level) ' ')

/-- Printed parts between two brackets, each on a line of its own. -/
def block (level : Nat) (left right : String) : List String → String
  | [] => left ++ right
  | parts =>
    left ++ newline (level + 1) ++ ("," ++ newline (level + 1)).intercalate parts ++
      newline level ++ right

mutual

/-- The text of a value that stands on a level. -/
def print (level : Nat) : Json → String
  | .null => "null"
  | .bool true => "true"
  | .bool false => "false"
  | .number literal => literal
  | .string content => quote (content.getD "")
  | .array elements => block level "[" "]" (printElements (level + 1) elements)
  | .object members => block level "\x7b" "\x7d" (printMembers (level + 1) members)

/-- The texts of the elements of an array. -/
def printElements (level : Nat) : List Json → List String
  | [] => []
  | v :: rest => print level v :: printElements level rest

/-- The texts of the members of an object. -/
def printMembers (level : Nat) : List (Option String × Json) → List String
  | [] => []
  | (name, v) :: rest =>
    (quote (name.getD "") ++ ": " ++ print level v) :: printMembers level rest

end

/-- The text of a value. -/
def pretty (v : Json) : String := v.print 0

end TagWatch.Json
