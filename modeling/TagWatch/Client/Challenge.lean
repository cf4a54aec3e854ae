import TagWatch.Text.Blank
import TagWatch.Text.Cut

/-!
# Bearer challenges

A registry that wants a token answers with a challenge such as
`Bearer realm="https://auth.example/token",service="registry"`. A parameter is a name directly
followed by an equals sign and a value in double quotes; between parameters anything may stand.
The realm says where to get a token, and is required. Of several parameters of one name the last
one counts.

Headers are ASCII text, so that a name consists of ASCII letters, digits and underscores.
-/

namespace TagWatch

open Text

/-- Where to get a token, and for which service. -/
structure Challenge where
  realm : String
  service : Option String
  deriving Repr, DecidableEq

namespace Challenge

/-- Whether a character may stand in the name of a parameter. -/
def isNameChar (c : Char) : Bool := c.isAlphanum || c = '_'

/-- The value in quotes after an equals sign, and the text after it. -/
def quoted? : List Char → Option (List Char × List Char)
  | '=' :: '"' :: s => cut '"' s
  | _ => none

theorem length_of_quoted? {s value rest : List Char} (h : quoted? s = some (value, rest)) :
    rest.length < s.length := by
  unfold quoted? at h
  split at h
  · obtain ⟨rfl, _⟩ := cut_eq_some_iff.mp h
    simp; omega
  · simp at h

/-- The parameters in a text, in order. The name that is being read is kept in reverse; when no
value follows it, it is no parameter. -/
def scan (name : List Char) : List Char → List (List Char × List Char)
  | [] => []
  | c :: s =>
    if isNameChar c then scan (c :: name) s
    else if name.isEmpty then scan [] s
    else match h : quoted? (c :: s) with
      | some (value, rest) =>
        have : rest.length < s.length + 1 := length_of_quoted? h
        (name.reverse, value) :: scan [] rest
      | none => scan [] s
termination_by s => s.length

/-- The parameters in a text, in order. -/
def parameters (s : List Char) : List (List Char × List Char) := scan [] s

/-- The value of the last parameter of a name. -/
def valueOf? (name : String) (parameters : List (List Char × List Char)) : Option String :=
  (parameters.reverse.find? fun p => p.1 == name.toList).map fun p => String.ofList p.2

/-- Reads the text of a challenge. -/
def read? (header : String) : Option Challenge :=
  match cut ' ' (trim header.toList) with
  | none => none
  | some (scheme, rest) =>
    if lower scheme ≠ "bearer".toList then none
    else
      let found := parameters rest
      (valueOf? "realm" found).map fun realm => ⟨realm, valueOf? "service" found⟩

/-- The address at which to ask for a token to pull an image. -/
def tokenUrl (c : Challenge) (image : String) : String :=
  c.realm ++ (if c.realm.toList.contains '?' then "&" else "?") ++
    "scope=repository:" ++ image ++ ":pull" ++
    (match c.service with
      | some service => "&service=" ++ service
      | none => "")

end Challenge

end TagWatch
