import TagWatch.Text.Cut

/-!
# Levels of a version change

A change between two versions is as large as the leftmost number that differs. The same three
levels name how far updates may go: a container whose **scope** is `minor` accepts a change of
level `patch` or `minor`.
-/

namespace TagWatch

/-- The size of a version change, and the largest size that a container accepts. -/
inductive Level where
  | patch
  | minor
  | major
  deriving Repr, DecidableEq, Inhabited

namespace Level

/-- The place of a level in the order patch, minor, major. -/
def rank : Level → Nat
  | patch => 0
  | minor => 1
  | major => 2

instance : LE Level := ⟨fun a b => a.rank ≤ b.rank⟩

instance (a b : Level) : Decidable (a ≤ b) := inferInstanceAs (Decidable (a.rank ≤ b.rank))

/-- The larger of two levels. -/
protected def max (a b : Level) : Level := if a ≤ b then b else a

/-- The word for a level. -/
def name : Level → String
  | patch => "patch"
  | minor => "minor"
  | major => "major"

/-- The level with exactly this name. -/
def ofName? : String → Option Level
  | "patch" => some patch
  | "minor" => some minor
  | "major" => some major
  | _ => none

/-- A word that names no level, in small letters. -/
structure Unknown where
  word : String
  deriving Repr, DecidableEq

/-- The text of the complaint about a word that names no level. -/
def Unknown.message (e : Unknown) : String := "unknown scope '" ++ e.word ++ "'"

/-- The level that a word names, in letters of any case. -/
def read (word : String) : Except Unknown Level :=
  let small := Text.lowerString word
  match ofName? small with
  | some level => .ok level
  | none => .error ⟨small⟩

end Level

end TagWatch
