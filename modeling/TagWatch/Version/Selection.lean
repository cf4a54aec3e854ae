import TagWatch.Version.Order

/-!
# Choosing a tag

A tag is a candidate for a container when it has the shape of the current tag, which means the
same number of components and the same variant, lies inside the scope and is strictly newer.
Prereleases are candidates only if they are asked for or the current tag is one.

Of the candidates the newest is chosen. Tags of equal version are told apart by the mark in
front, which should be there or not as in the current tag, and after that the later one in the
list wins.
-/

namespace TagWatch

/-- A tag together with the version that it holds. -/
structure VersionedTag where
  tag : String
  version : Version
  deriving Repr, DecidableEq

/-- The tag with its version, if it holds one. -/
def VersionedTag.ofTag? (tag : String) : Option VersionedTag :=
  (Version.ofTag? tag).map (⟨tag, ·⟩)

namespace Version

/-- Whether a version lies within a scope around the current one. -/
def within (scope : Level) (current v : Version) : Bool :=
  match scope with
  | .patch => v.major == current.major && v.minor == current.minor
  | .minor => v.major == current.major
  | .major => true

/-- Whether prereleases are considered for the current version. -/
def allowsPrereleases (current : Version) (prereleases : Bool) : Bool :=
  prereleases || current.isPrerelease

/-- Whether a version may replace the current one, leaving the scope aside. -/
def eligible (current : Version) (prereleases : Bool) (v : Version) : Bool :=
  v.components == current.components && v.variant == current.variant
    && (current.allowsPrereleases prereleases || !v.isPrerelease) && current.precedes v

/-- Whether a version may replace the current one. -/
def candidate (current : Version) (scope : Level) (prereleases : Bool) (v : Version) : Bool :=
  current.eligible prereleases v && within scope current v

/-- The order by which candidates are chosen: the version first, then the mark in front. -/
def prefer (current a b : Version) : Ordering :=
  (a.cmp b).then (compare (a.prefixed == current.prefixed) (b.prefixed == current.prefixed))

end Version

/-- The last of the largest elements of a list. -/
def lastMax {α : Type} (cmp : α → α → Ordering) : List α → Option α
  | [] => none
  | a :: rest => some (rest.foldl (fun best b => if cmp best b == .gt then best else b) a)

/-- The tags of a list that may replace the current version, in order. -/
def candidates (current : Version) (scope : Level) (prereleases : Bool) (tags : List String) :
    List VersionedTag :=
  (tags.filterMap VersionedTag.ofTag?).filter fun t => current.candidate scope prereleases t.version

/-- The newest tag of a list, inside the scope, that is newer than the current tag. -/
def latestInScope (currentTag : String) (tags : List String) (scope : Level)
    (prereleases : Bool) : Option String :=
  (Version.ofTag? currentTag).bind fun current =>
    (lastMax (fun a b => current.prefer a.version b.version)
      (candidates current scope prereleases tags)).map (·.tag)

/-- The newest tag of a list that is newer than the current tag, whatever the scope. -/
def latestOverall (currentTag : String) (tags : List String) (prereleases : Bool) :
    Option String :=
  latestInScope currentTag tags .major prereleases

end TagWatch
