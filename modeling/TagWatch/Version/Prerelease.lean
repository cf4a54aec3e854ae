import TagWatch.Text.Cut
import TagWatch.Text.Numeral

/-!
# Prerelease identifiers

A prerelease is a list of identifiers written with dots between them, such as `rc.1`. An
identifier holds letters, digits and hyphens; one of digits alone is a number and has no leading
zero, so its text is determined by its value.

**Precedence.** Numbers come before words, numbers compare by value and words by their
characters; of two lists that agree as far as the shorter one goes, the shorter one comes first.
A release, which has no identifiers, comes after all its prereleases.
-/

namespace TagWatch

open Text

/-- One part of a prerelease: a number, or a word with at least one character that is no digit. -/
inductive Identifier where
  | number (value : Nat)
  | word (text : List Char)
  deriving Repr, DecidableEq

namespace Identifier

/-- Whether a character may stand in an identifier. -/
def allowed (c : Char) : Bool := c.isAlphanum || c = '-'

/-- Reads one identifier. -/
def read? (s : List Char) : Option Identifier :=
  if s.isEmpty || !s.all allowed then none
  else if !s.all Char.isDigit then some (.word s)
  else match s with
    | '0' :: _ :: _ => none
    | _ => some (.number (digitsValue s))

/-- The text of an identifier. -/
def render : Identifier → List Char
  | number n => Nat.toDigits 10 n
  | word s => s

/-- The order of two identifiers. -/
def cmp : Identifier → Identifier → Ordering
  | number a, number b => compare a b
  | number _, word _ => .lt
  | word _, number _ => .gt
  | word a, word b => compare a b

end Identifier

/-- The identifiers of a prerelease; a release has none. -/
abbrev Prerelease := List Identifier

namespace Prerelease

/-- Reads the identifiers between the dots of a text, all of which must be well formed. -/
def read? (s : List Char) : Option Prerelease := (fields '.' s).mapM Identifier.read?

/-- The text of a prerelease. -/
def render (p : Prerelease) : String := String.ofList (joinWith '.' (p.map Identifier.render))

/-- The precedence of two prereleases. -/
def cmp : Prerelease → Prerelease → Ordering
  | [], [] => .eq
  | [], _ :: _ => .gt
  | _ :: _, [] => .lt
  | a, b => List.compareLex Identifier.cmp a b

end Prerelease

end TagWatch
