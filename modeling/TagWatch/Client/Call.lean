import TagWatch.Fetch.Result
import TagWatch.Level
import TagWatch.Program
import TagWatch.Registry.Error

/-!
# Registry clients

A client answers questions about the images of one registry. A `Service` is everything that a
fetch needs of the registries: it makes clients by registry name and answers their calls, and its
state is free, so that a service may be a network, a prepared table or any other behaviour.
-/

namespace TagWatch

/-- What a registry client can be asked. -/
inductive Call where
  /-- Whether the newest tag is found in the list of tags that `allTags` leaves behind. -/
  | usesTagCache
  /-- Whether a tag is tracked by digest. -/
  | isFloating (tag : String)
  /-- The tags of an image. -/
  | allTags (image : String)
  /-- The newest tag of an image that is newer than the current one and inside the scope. -/
  | latest (image tag : String) (scope : Level) (digest : Option String) (prereleases : Bool)
  /-- The newest tag of an image that is newer than the current one. -/
  | latestOverall (image tag : String) (prereleases : Bool)
  /-- What is known about one tag; none when there is no such tag. -/
  | metadata (image tag : String)
  /-- Gives up connections and caches. -/
  | close
  deriving Repr, DecidableEq

/-- The type of the answer to a call. -/
def Call.Answer : Call → Type
  | usesTagCache => Bool
  | isFloating _ => Bool
  | allTags _ => Except RegistryError (List String)
  | latest _ _ _ _ _ => Except RegistryError (Option String)
  | latestOverall _ _ _ => Except RegistryError (Option String)
  | metadata _ _ => Except RegistryError (Option TagMetadata)
  | close => Unit

/-- A client that a service has made. -/
abbrev ClientId := Nat

/-- The registries as seen by a fetch. -/
structure Service (σ : Type) where
  /-- Makes a client for a registry by its canonical name. -/
  connect : String → σ → Except RegistryError ClientId × σ
  /-- A call begins; the answer is the number of milliseconds that it takes. -/
  start : ClientId → Call → σ → Nat × σ
  /-- A call ends with an answer. -/
  answer : ClientId → (call : Call) → σ → call.Answer × σ

end TagWatch
