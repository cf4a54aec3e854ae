import TagWatch.Image.Key
import TagWatch.Image.Reference

/-!
# Containers

A container runs an image under a tag and is checked for updates of it. It may override whether
prereleases count for it, and remembers the digest that its tag last pointed at.
-/

namespace TagWatch

/-- A container whose image is watched for updates. -/
structure Container where
  id : String
  name : String
  /-- The registry, as a host or as a canonical name. -/
  registry : String
  image : String
  tag : String
  scope : Level
  /-- Whether prereleases count; the default of the run decides when this is absent. -/
  prereleases : Option Bool
  /-- The last known digest of the current tag. -/
  digest : Option String
  deriving Repr, DecidableEq

namespace Container

/-- The container that runs a given image reference, named by its id. -/
def ofReference? (id reference : String) (scope : Level) : Option Container :=
  (Reference.read? reference).map fun r =>
    { id := id
      name := id
      registry := r.registry
      image := r.image
      tag := r.tag
      scope := scope
      prereleases := none
      digest := r.digest }

/-- The key of a container for a given choice about prereleases. -/
def key (c : Container) (prereleases : Bool) : Key :=
  Key.make c.registry c.image c.tag c.scope prereleases

end Container

end TagWatch
