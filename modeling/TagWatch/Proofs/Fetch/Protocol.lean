import TagWatch.Fetch.Fetch

/-!
# A fetch keeps to a protocol, whatever it is answered

A fetch as part of a run looks up its key first, and ends with the answer that it finds. A fetch
that finds none, and every fetch on its own, acquires one permit, asks for one client, calls that
client a handful of times, gives the permit back and keeps its answer unless it failed. `Keeps` says
so of a program, as a precondition: from a point of the protocol, for all answers that it may get,
and with a budget for what the steps cost the limiter, the program reaches its end in an allowed
way.

**Theorem (`FetchProgram.rest_fetch`).** A fetch keeps to the protocol.
-/

namespace TagWatch

/-- How far a fetch has come. -/
inductive Progress where
  /-- It has not looked for a kept answer. -/
  | unbegun
  /-- It has found a kept answer. -/
  | found (result : FetchResult)
  /-- It goes on without a kept answer, and has not asked for a permit. -/
  | missed
  /-- It holds a permit. -/
  | admitted
  /-- It holds a permit and got no client. -/
  | refused
  /-- It holds a permit and has a client. -/
  | served (id : ClientId)
  /-- It has given its permit back. -/
  | finished
  /-- It has given its permit back and kept its answer. -/
  | kept (result : FetchResult)
  deriving DecidableEq

namespace Progress

/-- The beginning of a fetch: on its own it has nothing to look for. -/
def start (inRun : Bool) : Progress := if inRun then unbegun else missed

/-- The registries for which a fetch has asked for a client. -/
def asked (registry : String) : Progress → List String
  | unbegun => []
  | found _ => []
  | missed => []
  | admitted => []
  | refused => [registry]
  | served _ => [registry]
  | finished => [registry]
  | kept _ => [registry]

end Progress

namespace FetchProgram

variable {key : Key} {α β : Type}

/-- A program keeps to the protocol of a fetch. A permit costs three of its budget; a call and the
return of the permit cost two each. -/
def Keeps (key : Key) (post : Progress → Nat → α → Prop) : FetchProgram α → Progress → Nat → Prop
  | .done a, st, n => post st n a
  | .ask (.lookUp k) next, st, n =>
    st = .unbegun ∧ k = key ∧ Keeps key post (next none) .missed n ∧
      ∀ result : FetchResult, Keeps key post (next (some result)) (.found result) n
  | .ask (.acquire r) next, st, n =>
    st = .missed ∧ r = key.registry ∧ 3 ≤ n ∧
      ∀ waited : Nat, Keeps key post (next waited) .admitted (n - 3)
  | .ask (.connect r) next, st, n =>
    st = .admitted ∧ r = key.registry ∧
      (∀ e : RegistryError, Keeps key post (next (.error e)) .refused n) ∧
      ∀ id : ClientId, Keeps key post (next (.ok id)) (.served id) n
  | .ask (.call id _) next, st, n =>
    st = .served id ∧ 2 ≤ n ∧ ∀ answer, Keeps key post (next answer) st (n - 2)
  | .ask .release next, st, n =>
    (st = .refused ∨ ∃ id, st = .served id) ∧ 2 ≤ n ∧ Keeps key post (next ()) .finished (n - 2)
  | .ask (.remember k result) next, st, n =>
    st = .finished ∧ k = key ∧ result.error = none ∧ Keeps key post (next ()) (.kept result) n

/-- One program after another. -/
theorem keeps_bind {post : Progress → Nat → β → Prop} {p : FetchProgram α}
    {g : α → FetchProgram β} {st : Progress} {n : Nat} :
    Keeps key (fun st n a => Keeps key post (g a) st n) p st n →
      Keeps key post (p >>= g) st n := by
  induction p generalizing st n with
  | done a => exact id
  | ask q next ih =>
    cases q with
    | lookUp k =>
      exact fun ⟨hst, hk, hnone, hsome⟩ =>
        ⟨hst, hk, ih none hnone, fun result => ih (some result) (hsome result)⟩
    | acquire r => exact fun ⟨hst, hr, hn, h⟩ => ⟨hst, hr, hn, fun waited => ih waited (h waited)⟩
    | connect r =>
      exact fun ⟨hst, hr, herror, hok⟩ =>
        ⟨hst, hr, fun e => ih (.error e) (herror e), fun id => ih (.ok id) (hok id)⟩
    | call id call => exact fun ⟨hst, hn, h⟩ => ⟨hst, hn, fun answer => ih answer (h answer)⟩
    | release => exact fun ⟨hst, hn, h⟩ => ⟨hst, hn, ih () h⟩
    | remember k result => exact fun ⟨hst, hk, hok, h⟩ => ⟨hst, hk, hok, ih () h⟩

/-! ## The parts of a fetch -/

/-- An answer of a registry that is not a failure holds a result without an error. -/
def Clean (answer : Except RegistryError FetchResult) : Prop :=
  ∀ result, answer = .ok result → result.error = none

theorem clean_error (e : RegistryError) : Clean (.error e) := fun _ h => nomatch h

theorem clean_ok {result : FetchResult} (h : result.error = none) : Clean (.ok result) := by
  rintro _ ⟨⟩
  exact h

variable {settings : FetchSettings} {r : FetchRequest} {id : ClientId} (n : Nat)

theorem keeps_call {post : Progress → Nat → α → Prop} (call : Call)
    {next : (FetchStep.call id call).Answer → FetchProgram α}
    (h : ∀ answer, Keeps key post (next answer) (.served id) n) :
    Keeps key post (.ask (.call id call) next) (.served id) (n + 2) :=
  ⟨rfl, Nat.le_add_left 2 n, h⟩

theorem keeps_askMetadata {post : Progress → Nat → Except RegistryError FetchResult → Prop}
    (h : ∀ answer, Clean answer → post (.served id) n answer) :
    Keeps key post (askMetadata id r) (.served id) (n + 2) := by
  refine keeps_bind (keeps_call n _ fun answer => ?_)
  rcases answer with e | _ | metadata
  · exact h _ (clean_error e)
  · exact h _ (clean_error _)
  · exact h _ (clean_ok rfl)

theorem keeps_askTags
    {post : Progress → Nat → Except RegistryError (List String × Option String) → Prop}
    (h : ∀ m answer, n ≤ m → post (.served id) m answer) :
    Keeps key post (askTags settings id r) (.served id) (n + 6) := by
  refine keeps_bind (keeps_call (n + 4) _ fun uses => ?_)
  cases uses with
  | true =>
    refine keeps_bind (keeps_call (n + 2) _ fun tags => ?_)
    cases tags with
    | error e => exact h (n + 2) _ (by omega)
    | ok tags =>
      refine keeps_bind (keeps_call n _ fun newest => ?_)
      cases newest with
      | error e => exact h n _ (by omega)
      | ok newest => exact h n _ (by omega)
  | false =>
    refine keeps_bind (keeps_call (n + 2) _ fun newest => ?_)
    cases newest with
    | error e => exact h (n + 2) _ (by omega)
    | ok newest =>
      show Keeps key post (if settings.collectAllTags then _ else _) (.served id) (n + 2)
      split
      · refine keeps_bind (keeps_call n _ fun tags => ?_)
        cases tags with
        | error e => exact h n _ (by omega)
        | ok tags => exact h n _ (by omega)
      · exact h (n + 2) _ (by omega)

theorem keeps_askOverall {newest : Option String} {post : Progress → Nat → Option String → Prop}
    (h : ∀ m answer, n ≤ m → post (.served id) m answer) :
    Keeps key post (askOverall id r newest) (.served id) (n + 2) := by
  rw [askOverall]
  split
  · exact h (n + 2) _ (by omega)
  · refine keeps_bind (keeps_call n _ fun overall => ?_)
    cases overall with
    | error e => exact h n _ (by omega)
    | ok overall => exact h n _ (by omega)

/-- What a client is asked costs ten of the budget. -/
theorem keeps_askClient {post : Progress → Nat → Except RegistryError FetchResult → Prop}
    (h : ∀ m answer, n ≤ m → Clean answer → post (.served id) m answer) :
    Keeps key post (askClient settings id r) (.served id) (n + 10) := by
  refine keeps_bind (keeps_call (n + 8) _ fun floating => ?_)
  cases floating with
  | true => exact keeps_askMetadata (n + 6) fun answer => h (n + 6) answer (by omega)
  | false =>
    refine keeps_bind (keeps_askTags (n + 2) fun m listing hm => ?_)
    cases listing with
    | error e => exact h m _ (by omega) (clean_error e)
    | ok found =>
      obtain ⟨m, rfl⟩ := Nat.exists_eq_add_of_le' (show 2 ≤ m by omega)
      refine keeps_bind (keeps_askOverall m fun m' overall hm' => ?_)
      exact h m' _ (by omega) (clean_ok rfl)

/-- From the permit to the outcome, twelve of the budget are enough. -/
theorem keeps_askRegistry {post : Progress → Nat → Except RegistryError FetchResult → Prop}
    (h : ∀ st m answer, (st = .refused ∨ ∃ id, st = .served id) → n ≤ m → Clean answer →
      post st m answer) :
    Keeps key post (askRegistry settings key.registry r) .admitted (n + 12) := by
  refine keeps_bind ⟨rfl, rfl, fun e => ?_, fun id => ?_⟩
  · exact h .refused (n + 12) _ (.inl rfl) (by omega) (clean_error e)
  · refine keeps_bind (keeps_askClient (n + 2) fun m answer hm hclean => ?_)
    obtain ⟨m, rfl⟩ := Nat.exists_eq_add_of_le' (show 2 ≤ m by omega)
    refine keeps_bind (keeps_call m .close fun _ => ?_)
    exact h (.served id) m answer (.inr ⟨id, rfl⟩) (by omega) hclean

/-! ## The whole fetch -/

/-- The budget of a fetch. -/
def budget : Nat := 17

/-- The ways in which a fetch ends. -/
inductive Ends (inRun : Bool) : Progress → FetchResponse → Prop where
  | found (result : FetchResult) : inRun = true → Ends inRun (.found result) ⟨result, true, 0⟩
  | kept (result : FetchResult) (waited : Nat) :
    inRun = true → result.error = none → Ends inRun (.kept result) ⟨result, false, waited⟩
  | failed (e : RegistryError) (waited : Nat) :
    Ends inRun .finished ⟨.failed e.message, false, waited⟩
  | alone (result : FetchResult) (waited : Nat) :
    inRun = false → result.error = none → Ends inRun .finished ⟨result, false, waited⟩

/-- What is left of a fetch that has come to some point of the protocol. -/
abbrev Rest (key : Key) (inRun : Bool) : FetchProgram FetchResponse → Progress → Nat → Prop :=
  Keeps key fun st _ response => Ends inRun st response

theorem rest_fetchAnew (inRun : Bool) :
    Rest r.key inRun (fetchAnew settings inRun r) .missed budget := by
  refine keeps_bind ⟨rfl, rfl, by decide, fun waited => ?_⟩
  refine keeps_bind (keeps_askRegistry 2 fun st m answer hst hm hclean => ?_)
  refine keeps_bind ⟨hst, hm, ?_⟩
  cases answer with
  | error e => exact .failed e waited
  | ok result =>
    have hok := hclean result rfl
    cases inRun with
    | true => exact keeps_bind ⟨rfl, rfl, hok, .kept result waited rfl hok⟩
    | false => exact .alone result waited rfl hok

/-- **A fetch keeps to the protocol**, whatever it is answered. -/
theorem rest_fetch (inRun : Bool) :
    Rest r.key inRun (fetch settings inRun r) (.start inRun) budget := by
  cases inRun with
  | true => exact keeps_bind ⟨rfl, rfl, rest_fetchAnew true, fun result => .found result rfl⟩
  | false => exact rest_fetchAnew false

end FetchProgram

end TagWatch
