import TagWatch.Level
import TagWatch.Version.Basic

/-!
# The order of versions

Versions compare by their three numbers, then by prerelease precedence, then by packaging
revision, where no revision comes before every revision. The mark in front, the number of
components and the variant do not take part.

A newer version differs from an older one by a change whose level is that of the first number
that differs; a change of prerelease or revision alone is a `patch`.
-/

namespace TagWatch

/-- The order of optional revisions: none comes first. -/
def cmpRevision : Option Nat → Option Nat → Ordering
  | none, none => .eq
  | none, some _ => .lt
  | some _, none => .gt
  | some a, some b => compare a b

namespace Version

/-- The order of versions by number, prerelease and revision. -/
def cmp (a b : Version) : Ordering :=
  (compare a.major b.major).then <| (compare a.minor b.minor).then <|
    (compare a.patch b.patch).then <| (Prerelease.cmp a.prerelease b.prerelease).then <|
      cmpRevision a.revision b.revision

/-- Whether the second version comes strictly after the first. -/
def precedes (a b : Version) : Bool := b.cmp a == .gt

/-- The level of the change from one version to another, if that is newer. -/
def change? (current latest : Version) : Option Level :=
  if !current.precedes latest then none
  else if latest.major ≠ current.major then some .major
  else if latest.minor ≠ current.minor then some .minor
  else some .patch

end Version

end TagWatch
