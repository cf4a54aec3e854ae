import TagWatch.Json.Basic
import TagWatch.Table
import TagWatch.Text.Numeral

/-!
# Records in JSON

A record is written as an object whose members are its fields, or as an array of its fields in
order. In an object unknown names are ignored and a known name may come only once. An array has
one element for each field, except that a **relaxed** record may leave out the last ones.

`fields?` finds the value of each field; what a missing one means is up to the record.
-/

namespace TagWatch.Json

/-- The names of the members of an object, all of which must be Unicode text. -/
def names? (members : List (Option String × Json)) : Option (List String) :=
  members.mapM Prod.fst

/-- The values under a name. -/
def valuesOf (name : String) (members : List (Option String × Json)) : List Json :=
  members.filterMap fun m => if m.1 = some name then some m.2 else none

/-- The value under a name that may come at most once: absent, missing or present. -/
def single? : List Json → Option (Option Json)
  | [] => some none
  | [v] => some (some v)
  | _ => none

/-- The values of the fields of a record, each of which may be missing. -/
def fields? (relaxed : Bool) (fields : List String) : Json → Option (List (Option Json))
  | .object members => do
    let _ ← names? members
    fields.mapM fun field => single? (valuesOf field members)
  | .array elements =>
    if elements.length = fields.length || (relaxed && elements.length ≤ fields.length) then
      some (elements.map some ++ List.replicate (fields.length - elements.length) none)
    else none
  | _ => none

/-! ## Fields -/

/-- The truth value in a field. -/
def bool? : Json → Option Bool
  | .bool b => some b
  | _ => none

/-- The unsigned 64-bit number in a field. -/
def word? : Json → Option Nat
  | .number literal => Text.word? literal.toList
  | _ => none

/-- The text in a field. -/
def text? : Json → Option String
  | .string content => content
  | _ => none

/-- The list in a field, given how to read its elements. -/
def list? {α : Type} (element : Json → Option α) : Json → Option (List α)
  | .array elements => elements.mapM element
  | _ => none

/-- The entry of a table that a member of an object stands for. -/
def pair? {α : Type} (value : Json → Option α) (m : Option String × Json) :
    Option (String × α) := do
  let name ← m.1
  let a ← value m.2
  return (name, a)

/-- The table in a field, given how to read its values: of equal names the last one counts. -/
def table? {α : Type} (value : Json → Option α) : Json → Option (Table String α)
  | .object members =>
    (members.mapM (pair? value)).map Table.ofList
  | _ => none

/-- A field that must be there. -/
def required {α : Type} (read : Json → Option α) : Option Json → Option α
  | some v => read v
  | none => none

/-- A field that has a default when it is missing. -/
def withDefault {α : Type} (default : α) (read : Json → Option α) : Option Json → Option α
  | some v => read v
  | none => some default

/-- A field that may be missing or null. -/
def nullable {α : Type} (read : Json → Option α) : Option Json → Option (Option α)
  | none => some none
  | some .null => some none
  | some v => (read v).map some

end TagWatch.Json
