import TagWatch.Client.Call
import TagWatch.Table
import TagWatch.Version.Selection

/-!
# Prepared answers

A service whose answers are prepared in advance, for rehearsing checks without a network. An
image has a list of tags and, if wanted, fixed answers about its newest tags; what is not fixed
is computed from the list. Calls take a prepared time and may be made to fail, always or a number
of times. The service keeps the calls that each client got, in order.
-/

namespace TagWatch.Prepared

/-- The calls that can be made to fail. -/
inductive Method where
  | allTags
  | latest
  | latestOverall
  | metadata
  deriving Repr, DecidableEq

/-- A failure of a call, a number of times or always. -/
structure Failure where
  error : RegistryError
  times : Option Nat
  deriving Repr, DecidableEq

/-- The answers about one image. -/
structure Image where
  latencyMs : Nat := 0
  tags : Option (List String) := none
  /-- The fixed answer about the newest tag inside the scope. -/
  latest : Option (Option String) := none
  /-- The fixed answer about the newest tag of all. -/
  latestOverall : Option (Option String) := none
  metadata : Table String TagMetadata := .empty
  failures : Table Method Failure := .empty
  deriving Repr, DecidableEq

instance : Inhabited Image := ⟨{}⟩

/-- How the clients of one registry behave. -/
structure RegistryPlan where
  /-- Why no client can be made. -/
  error : Option RegistryError := none
  usesTagCache : Bool := true
  /-- The tags that are tracked by digest, if they are listed. -/
  floating : Option (List String) := none
  deriving Repr, DecidableEq

/-- What a client was asked. -/
structure Transcript where
  registry : String
  calls : List Call
  deriving Repr, DecidableEq

/-- The prepared answers and what was asked so far. -/
structure State where
  images : Table String Image
  registries : Table String RegistryPlan
  /-- One entry for each client that was asked for; its place is the id of the client. -/
  transcripts : List Transcript := []
  deriving Repr, DecidableEq

namespace State

/-- The answers about an image; one that was not prepared has none. -/
def image (s : State) (name : String) : Image := s.images.getD name {}

/-- The behaviour of the clients of a registry. -/
def plan (s : State) (registry : String) : RegistryPlan := s.registries.getD registry {}

/-- The behaviour of a client. -/
def planOf (s : State) (client : ClientId) : RegistryPlan :=
  match s.transcripts[client]? with
  | some t => s.plan t.registry
  | none => {}

/-- The state after a call was noted in the transcript of its client. -/
def note (s : State) (client : ClientId) (call : Call) : State :=
  { s with
    transcripts := s.transcripts.modify client fun t => { t with calls := t.calls ++ [call] } }

/-- The failure of a call on an image, if there is one left, and the state after it. -/
def takeFailure (s : State) (name : String) (method : Method) : Option RegistryError × State :=
  let image := s.image name
  match image.failures.get? method with
  | none => (none, s)
  | some ⟨error, none⟩ => (some error, s)
  | some ⟨_, some 0⟩ => (none, s)
  | some ⟨error, some (left + 1)⟩ =>
    let image := { image with failures := image.failures.set method ⟨error, some left⟩ }
    (some error, { s with images := s.images.set name image })

/-- The answer to a call that may be made to fail. -/
def reply {α : Type} (s : State) (name : String) (method : Method)
    (answer : Image → Except RegistryError α) : Except RegistryError α × State :=
  match s.takeFailure name method with
  | (some error, s) => (.error error, s)
  | (none, s) => (answer (s.image name), s)

end State

namespace Image

/-- The list of tags of an image, which must have been prepared. -/
def listed (name : String) (i : Image) : Except RegistryError (List String) :=
  match i.tags with
  | some tags => .ok tags
  | none => .error (.notFound name)

/-- A fixed answer, or else one that is computed from the list of tags. -/
def answer (name : String) (fixed : Option (Option String))
    (choose : List String → Option String) (i : Image) : Except RegistryError (Option String) :=
  match fixed with
  | some tag => .ok tag
  | none => (i.listed name).map choose

end Image

/-- Makes a client, or fails as planned; the attempt is noted in either case. -/
def connect (registry : String) (s : State) : Except RegistryError ClientId × State :=
  let id := s.transcripts.length
  let s := { s with transcripts := s.transcripts ++ [⟨registry, []⟩] }
  match (s.plan registry).error with
  | some error => (.error error, s)
  | none => (.ok id, s)

/-- A call begins: it is noted, unless it is about the client alone, and takes the time that its
image says. -/
def start (client : ClientId) (call : Call) (s : State) : Nat × State :=
  match call with
  | .usesTagCache => (0, s)
  | .isFloating _ => (0, s)
  | .close => (0, s.note client call)
  | .allTags image => ((s.image image).latencyMs, s.note client call)
  | .latest image _ _ _ _ => ((s.image image).latencyMs, s.note client call)
  | .latestOverall image _ _ => ((s.image image).latencyMs, s.note client call)
  | .metadata image _ => ((s.image image).latencyMs, s.note client call)

/-- A call ends with the prepared answer. -/
def answer (client : ClientId) : (call : Call) → State → call.Answer × State
  | .usesTagCache, s => ((s.planOf client).usesTagCache, s)
  | .isFloating tag, s =>
    (match (s.planOf client).floating with
      | some tags => tags.contains tag
      | none => isFloatingTag tag, s)
  | .allTags image, s => s.reply image .allTags (Image.listed image)
  | .latest image tag scope _ prereleases, s =>
    s.reply image .latest fun i =>
      i.answer image i.latest fun tags => latestInScope tag tags scope prereleases
  | .latestOverall image tag prereleases, s =>
    s.reply image .latestOverall fun i =>
      i.answer image i.latestOverall fun tags => TagWatch.latestOverall tag tags prereleases
  | .metadata image tag, s => s.reply image .metadata fun i => .ok (i.metadata.get? tag)
  | .close, s => ((), s)

/-- The service that gives the prepared answers. -/
def service : Service State := ⟨connect, start, answer⟩

end TagWatch.Prepared
