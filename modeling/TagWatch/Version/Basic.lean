import TagWatch.Version.Prerelease

/-!
# Versions in tags

The tags of an image are looser than semantic versions: `1`, `1.25`, `v2.0.3`, `1.25.3-alpine`,
`3.0.0-rc.1` and `latest` all occur. A tag holds a version when it consists of an optional `v`,
one to three numbers with dots between them and, after a hyphen, an optional **ending**.

**Endings.** An ending that is a numeral is a packaging revision. One that begins with a
prerelease marker, such as `rc.1`, is a prerelease if its identifiers are well formed. Any other
ending names a variant of the image, such as `alpine`.

**Floating tags.** A tag that holds no version is moved from build to build, and so is tracked
by digest.
-/

namespace TagWatch

open Text

/-- What follows the numbers of a tag. -/
inductive Ending where
  | none
  | revision (number : Nat)
  | prerelease (identifiers : Prerelease)
  | variant (text : String)
  deriving Repr, DecidableEq

/-- A version read from a tag. -/
structure Version where
  /-- Whether a `v` stands in front. -/
  prefixed : Bool
  /-- How many numbers are written, one to three. -/
  components : Nat
  major : Nat
  minor : Nat
  patch : Nat
  ending : Ending
  deriving Repr, DecidableEq

/-- Words that begin a prerelease. -/
def prereleaseMarkers : List String :=
  ["alpha", "beta", "rc", "pre", "dev", "preview", "snapshot", "nightly"]

/-- Tags that are moved between builds instead of being replaced. -/
def floatingNames : List String :=
  ["latest", "lts", "stable", "edge", "nightly", "rolling", "current", "mainline", "main",
    "master", "develop", "dev", "beta", "alpha", "next", "insiders"]

/-- Whether a marker may end before this text: at its end, a digit, a dot or a hyphen. -/
def endsMarker : List Char → Bool
  | [] => true
  | c :: _ => c.isDigit || c = '.' || c = '-'

/-- Whether a text begins, in letters of any case, with a complete prerelease marker. -/
def hasMarker (s : List Char) : Bool :=
  prereleaseMarkers.any fun marker => (strip? marker.toList (lower s)).any endsMarker

/-- The ending that a text after the hyphen stands for. -/
def Ending.ofText (s : List Char) : Ending :=
  match signedWord? s with
  | some n => .revision n
  | Option.none =>
    if hasMarker s then
      match Prerelease.read? s with
      | some p => .prerelease p
      | Option.none => .variant (String.ofList s)
    else .variant (String.ofList s)

namespace Version

/-- The prerelease identifiers of a version; a release has none. -/
def prerelease (v : Version) : Prerelease :=
  match v.ending with
  | .prerelease p => p
  | _ => []

/-- The image variant that a version names. -/
def variant (v : Version) : Option String :=
  match v.ending with
  | .variant s => some s
  | _ => none

/-- The packaging revision of a version. -/
def revision (v : Version) : Option Nat :=
  match v.ending with
  | .revision n => some n
  | _ => none

/-- Whether a version is a prerelease. -/
def isPrerelease (v : Version) : Bool := !v.prerelease.isEmpty

/-- The text without the `v` in front, and whether there was one. -/
def dropMark : List Char → Bool × List Char
  | 'v' :: s => (true, s)
  | 'V' :: s => (true, s)
  | s => (false, s)

/-- The version with the given numbers, those not written being zero. -/
def ofNumbers (prefixed : Bool) (ending : Ending) : List Nat → Option Version
  | [a] => some ⟨prefixed, 1, a, 0, 0, ending⟩
  | [a, b] => some ⟨prefixed, 2, a, b, 0, ending⟩
  | [a, b, c] => some ⟨prefixed, 3, a, b, c, ending⟩
  | _ => none

/-- The version whose numbers are written in the first text and whose ending is given. -/
def ofHead (head : List Char) (ending : Ending) : Option Version :=
  let (prefixed, numbers) := dropMark head
  ((fields '.' numbers).mapM word?).bind (ofNumbers prefixed ending)

/-- Reads the version in a tag: the first hyphen parts the numbers from the ending, which must
not be empty and must not contain a line break. -/
def ofChars? (s : List Char) : Option Version :=
  match cut '-' s with
  | none => ofHead s .none
  | some (head, rest) =>
    if rest.isEmpty || rest.contains '\n' then none else ofHead head (Ending.ofText rest)

/-- The version in a tag. -/
def ofTag? (tag : String) : Option Version := ofChars? tag.toList

end Version

/-- The text after the first hyphen of a tag, unless it is empty or of digits alone. -/
def tagSuffix (tag : String) : Option String :=
  match cut '-' tag.toList with
  | none => none
  | some (_, rest) => if rest.all Char.isDigit then none else some (String.ofList rest)

/-- Whether a tag is tracked by digest: a well-known floating name, in letters of any case, or a
text that holds no version. -/
def isFloatingTag (tag : String) : Bool :=
  floatingNames.contains (lowerString tag) || (Version.ofTag? tag).isNone

end TagWatch
