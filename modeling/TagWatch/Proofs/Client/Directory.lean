import TagWatch.Client.Call

/-!
# Services that follow a directory

A `Directory` fixes the answer to every question about a registry. The answer may depend on the
registry, the image, the tag, the scope and the choice about prereleases, but not on a stored
digest. A service follows a directory (`Service.Follows`) when its clients give these answers
whenever they are asked; how long a call takes and what the service keeps to itself is free.

`Service.recorded` is a service that notes the registries for which clients are asked for.
-/

namespace TagWatch

/-- Fixed answers about every registry. -/
structure Directory where
  /-- Why no client can be made for a registry. -/
  refusal : String → Option RegistryError
  /-- What a client of a registry answers. -/
  answer : String → (call : Call) → call.Answer
  digest_irrelevant : ∀ registry image tag scope digest prereleases,
    answer registry (.latest image tag scope digest prereleases) =
      answer registry (.latest image tag scope none prereleases)

namespace Service

variable {σ : Type}

/-- A service gives the answers of a directory, as long as its state is good. -/
structure Follows (service : Service σ) (dir : Directory) where
  Good : σ → Prop
  /-- In a state of the service, a client is one of a registry. -/
  Serves : σ → ClientId → String → Prop
  good_connect : ∀ registry s, Good s → Good (service.connect registry s).2
  good_start : ∀ id call s, Good s → Good (service.start id call s).2
  good_answer : ∀ id call s, Good s → Good (service.answer id call s).2
  serves_connect : ∀ registry s id r, Serves s id r → Serves (service.connect registry s).2 id r
  serves_start : ∀ id' call s id r, Serves s id r → Serves (service.start id' call s).2 id r
  serves_answer : ∀ id' call s id r, Serves s id r → Serves (service.answer id' call s).2 id r
  connected : ∀ registry s, Good s → dir.refusal registry = none →
    ∃ id, (service.connect registry s).1 = .ok id ∧
      Serves (service.connect registry s).2 id registry
  refused : ∀ registry s error, Good s → dir.refusal registry = some error →
    (service.connect registry s).1 = .error error
  answered : ∀ id call s registry, Good s → Serves s id registry →
    (service.answer id call s).1 = dir.answer registry call

/-- A list is a log of the registries for which clients have been asked for. -/
structure Logs (service : Service σ) (log : σ → List String → Prop) : Prop where
  connect : ∀ registry s l, log s l → log (service.connect registry s).2 (l ++ [registry])
  start : ∀ id call s l, log s l → log (service.start id call s).2 l
  answer : ∀ id call s l, log s l → log (service.answer id call s).2 l

/-- Nothing is said about any list. -/
theorem logs_nothing (service : Service σ) : service.Logs fun _ _ => True :=
  ⟨fun _ _ _ _ => trivial, fun _ _ _ _ _ => trivial, fun _ _ _ _ _ => trivial⟩

/-- A service that notes the registries for which clients are asked for. -/
def recorded (service : Service σ) : Service (σ × List String) where
  connect registry s :=
    let (client, s') := service.connect registry s.1
    (client, s', s.2 ++ [registry])
  start id call s :=
    let (ms, s') := service.start id call s.1
    (ms, s', s.2)
  answer id call s :=
    let (answer, s') := service.answer id call s.1
    (answer, s', s.2)

theorem logs_recorded (service : Service σ) : service.recorded.Logs fun s l => s.2 = l :=
  ⟨fun registry _ _ h => congrArg (· ++ [registry]) h, fun _ _ _ _ => id, fun _ _ _ _ => id⟩

/-- Taking notes does not change the answers. -/
def Follows.recorded {service : Service σ} {dir : Directory} (f : service.Follows dir) :
    service.recorded.Follows dir where
  Good s := f.Good s.1
  Serves s := f.Serves s.1
  good_connect registry s := f.good_connect registry s.1
  good_start id call s := f.good_start id call s.1
  good_answer id call s := f.good_answer id call s.1
  serves_connect registry s := f.serves_connect registry s.1
  serves_start id' call s := f.serves_start id' call s.1
  serves_answer id' call s := f.serves_answer id' call s.1
  connected registry s := f.connected registry s.1
  refused registry s := f.refused registry s.1
  answered id call s := f.answered id call s.1

end Service

end TagWatch
