import TagWatch.Level
import TagWatch.Registry.Name

/-!
# Keys of checks

Containers that ask the same question share one answer. The question is the image with its
current tag, the scope and whether prereleases count; the registry is kept by its canonical
name, so that all spellings of a registry give one key.
-/

namespace TagWatch

/-- The question that a container asks: equal keys have equal answers within one run. -/
structure Key where
  registry : String
  image : String
  tag : String
  scope : Level
  prereleases : Bool
  deriving Repr, DecidableEq

namespace Key

/-- The key for a registry of any spelling. -/
def make (registry image tag : String) (scope : Level) (prereleases : Bool) : Key :=
  ⟨Registry.canonical registry, image, tag, scope, prereleases⟩

/-- The text that shows a key. -/
def display (k : Key) : String :=
  k.registry ++ "/" ++ k.image ++ ":" ++ k.tag ++ " (" ++ k.scope.name ++
    (if k.prereleases then ", prereleases" else "") ++ ")"

end Key

end TagWatch
