import TagWatch.Client.Call
import TagWatch.Image.Container

/-!
# Fetching the tags of an image

A fetch answers one key. It looks into the answers of the run, waits for a permit of the
registry, asks a client and keeps the answer:

1. A key that was answered before in the run gets the same answer, without a permit.
2. For a floating tag only its metadata is asked for.
3. A client that finds the newest tag in its list of tags is asked for the list first. Any other
   client is asked for the newest tag, and for the list only if all lists are wanted.
4. Unless the scope is `major`, the newest tag of all is asked for as well; when that fails, it
   counts as absent.

The first failure of any other question ends the fetch. The client is closed and the permit
given back in every case. A failed fetch is not kept, and its result carries the text of the
error.
-/

namespace TagWatch

/-- The question that a fetch answers. -/
structure FetchRequest where
  registry : String
  image : String
  tag : String
  scope : Level
  prereleases : Bool
  /-- The last known digest of the current tag. -/
  digest : Option String
  deriving Repr, DecidableEq

namespace FetchRequest

/-- The key of a request. -/
def key (r : FetchRequest) : Key := Key.make r.registry r.image r.tag r.scope r.prereleases

/-- The request for a key that is known already. -/
def ofKey (k : Key) (digest : Option String) : FetchRequest :=
  ⟨k.registry, k.image, k.tag, k.scope, k.prereleases, digest⟩

/-- The request for a container, given whether prereleases count for it. -/
def ofContainer (c : Container) (prereleases : Bool) : FetchRequest :=
  ⟨c.registry, c.image, c.tag, c.scope, prereleases, c.digest⟩

end FetchRequest

/-- The outcome of a fetch. -/
structure FetchResponse where
  result : FetchResult
  /-- Whether the answer was kept from an earlier fetch of the run. -/
  cacheHit : Bool
  /-- The milliseconds slept for room in the request window. -/
  waited : Nat
  deriving Repr, DecidableEq

/-- The choices that hold for all fetches. -/
structure FetchSettings where
  /-- Whether prereleases count for containers that do not say so themselves. -/
  prereleases : Bool := false
  /-- Whether lists of tags are wanted from every registry. -/
  collectAllTags : Bool := false
  deriving Repr, DecidableEq

/-- Whether prereleases count for a container: its own choice, or else the default. -/
def FetchSettings.prereleasesFor (s : FetchSettings) (c : Container) : Bool :=
  c.prereleases.getD s.prereleases

/-- What a fetch asks of its surroundings. -/
inductive FetchStep where
  /-- The answer kept for a key in the run. -/
  | lookUp (key : Key)
  /-- A permit for a registry; the answer is the time slept for room in the window. -/
  | acquire (registry : String)
  /-- A client for a registry. -/
  | connect (registry : String)
  /-- A call of a client. -/
  | call (client : ClientId) (call : Call)
  /-- The permit is given back. -/
  | release
  /-- An answer is kept for a key. -/
  | remember (key : Key) (result : FetchResult)

/-- The type of the answer to each step. -/
def FetchStep.Answer : FetchStep → Type
  | lookUp _ => Option FetchResult
  | acquire _ => Nat
  | connect _ => Except RegistryError ClientId
  | call _ c => c.Answer
  | release => Unit
  | remember _ _ => Unit

/-- A program whose questions are the steps of a fetch. -/
abbrev FetchProgram := Program FetchStep FetchStep.Answer

namespace FetchProgram

/-! ## Single steps -/

/-- The answer kept for a key. -/
def lookUp (key : Key) : FetchProgram (Option FetchResult) := .ask (.lookUp key) .done

/-- Waits for a permit of a registry. -/
def acquire (registry : String) : FetchProgram Nat := .ask (.acquire registry) .done

/-- Makes a client. -/
def connect (registry : String) : FetchProgram (Except RegistryError ClientId) :=
  .ask (.connect registry) .done

/-- Gives the permit back. -/
def release : FetchProgram Unit := .ask .release .done

/-- Keeps an answer. -/
def remember (key : Key) (result : FetchResult) : FetchProgram Unit :=
  .ask (.remember key result) .done

/-- Asks whether a client answers from a list of tags. -/
def usesTagCache (client : ClientId) : FetchProgram Bool :=
  .ask (.call client .usesTagCache) .done

/-- Asks whether the current tag is floating. -/
def isFloating (client : ClientId) (r : FetchRequest) : FetchProgram Bool :=
  .ask (.call client (.isFloating r.tag)) .done

/-- Asks for the tags of the image. -/
def allTags (client : ClientId) (r : FetchRequest) :
    FetchProgram (Except RegistryError (List String)) :=
  .ask (.call client (.allTags r.image)) .done

/-- Asks for the newest tag inside the scope. -/
def latest (client : ClientId) (r : FetchRequest) :
    FetchProgram (Except RegistryError (Option String)) :=
  .ask (.call client (.latest r.image r.tag r.scope r.digest r.prereleases)) .done

/-- Asks for the newest tag of all. -/
def latestOverall (client : ClientId) (r : FetchRequest) :
    FetchProgram (Except RegistryError (Option String)) :=
  .ask (.call client (.latestOverall r.image r.tag r.prereleases)) .done

/-- Asks for what is known about the current tag. -/
def metadata (client : ClientId) (r : FetchRequest) :
    FetchProgram (Except RegistryError (Option TagMetadata)) :=
  .ask (.call client (.metadata r.image r.tag)) .done

/-- Closes a client. -/
def close (client : ClientId) : FetchProgram Unit := .ask (.call client .close) .done

/-! ## The whole fetch -/

/-- The metadata of a floating tag, which must exist. -/
def askMetadata (client : ClientId) (r : FetchRequest) :
    FetchProgram (Except RegistryError FetchResult) := do
  match ← metadata client r with
  | .error e => return .error e
  | .ok none => return .error (.notFound (r.image ++ ":" ++ r.tag))
  | .ok (some metadata) => return .ok (.ofFloating metadata)

/-- The tags of an image and the newest of them inside the scope. -/
def askTags (settings : FetchSettings) (client : ClientId) (r : FetchRequest) :
    FetchProgram (Except RegistryError (List String × Option String)) := do
  if ← usesTagCache client then
    match ← allTags client r with
    | .error e => return .error e
    | .ok tags =>
      match ← latest client r with
      | .error e => return .error e
      | .ok newest => return .ok (tags, newest)
  else
    match ← latest client r with
    | .error e => return .error e
    | .ok newest =>
      if settings.collectAllTags then
        match ← allTags client r with
        | .error e => return .error e
        | .ok tags => return .ok (tags, newest)
      else return .ok ([], newest)

/-- The newest tag of all; a failure to find it counts as absence. -/
def askOverall (client : ClientId) (r : FetchRequest) (newest : Option String) :
    FetchProgram (Option String) := do
  if r.scope = .major then return newest
  match ← latestOverall client r with
  | .error _ => return none
  | .ok overall => return overall

/-- Asks a client everything that a request needs. -/
def askClient (settings : FetchSettings) (client : ClientId) (r : FetchRequest) :
    FetchProgram (Except RegistryError FetchResult) := do
  if ← isFloating client r then askMetadata client r
  else
    match ← askTags settings client r with
    | .error e => return .error e
    | .ok (tags, newest) =>
      let overall ← askOverall client r newest
      return .ok (.success tags newest overall none)

/-- Makes a client for a registry, asks it and closes it. -/
def askRegistry (settings : FetchSettings) (registry : String) (r : FetchRequest) :
    FetchProgram (Except RegistryError FetchResult) := do
  match ← connect registry with
  | .error e => return .error e
  | .ok client =>
    let outcome ← askClient settings client r
    close client
    return outcome

/-- A fetch that finds no kept answer. -/
def fetchAnew (settings : FetchSettings) (inRun : Bool) (r : FetchRequest) :
    FetchProgram FetchResponse := do
  let waited ← acquire r.key.registry
  let outcome ← askRegistry settings r.key.registry r
  release
  match outcome with
  | .error e => return ⟨.failed e.message, false, waited⟩
  | .ok result =>
    if inRun then remember r.key result
    return ⟨result, false, waited⟩

/-- Fetches the answer to a request, as part of a run or on its own. -/
def fetch (settings : FetchSettings) (inRun : Bool) (r : FetchRequest) :
    FetchProgram FetchResponse := do
  if inRun then
    match ← lookUp r.key with
    | some result => return ⟨result, true, 0⟩
    | none => fetchAnew settings inRun r
  else fetchAnew settings inRun r

end FetchProgram

end TagWatch
