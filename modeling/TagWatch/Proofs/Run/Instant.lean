import TagWatch.Proofs.Run.Pool

/-!
# A fetch alone on a service without delay

The clients of some services answer as soon as they are asked (`Service.Instant`). On such a
service a fetch waits for nothing but its permit: from there on it runs to its end in one turn, as
the program that it is, with the service answering its questions (`Service.handler`).

**Theorem (`Pool.run_alone`).** When a fetch that was made alone has an outcome, the answer was kept
from before, or the outcome is that of the part of the fetch after the permit (`afterPermit`), run
once on the state in which the service was left.
-/

namespace TagWatch

open Limit (Ticket)

variable {σ : Type} {service : Service σ}

/-! ## Programs run by a service -/

namespace Service

/-- The calls of a service take no time. -/
def Instant (service : Service σ) : Prop := ∀ id call s, (service.start id call s).1 = 0

/-- A service answers the steps of a fetch that are meant for it. -/
def handler (service : Service σ) : Handler FetchStep FetchStep.Answer σ
  | .connect registry, s => service.connect registry s
  | .call id call, s => service.answer id call (service.start id call s).2
  | .lookUp _, s => (none, s)
  | .acquire _, s => ((0 : Nat), s)
  | .release, s => ((), s)
  | .remember _ _, s => ((), s)

end Service

namespace FetchProgram

variable {α β : Type}

/-- A program that neither looks anything up nor waits for a permit. -/
def Direct : FetchProgram α → Prop
  | .done _ => True
  | .ask (.lookUp _) _ => False
  | .ask (.acquire _) _ => False
  | .ask (.connect _) next => ∀ answer, Direct (next answer)
  | .ask (.call _ _) next => ∀ answer, Direct (next answer)
  | .ask .release next => Direct (next ())
  | .ask (.remember _ _) next => Direct (next ())

theorem Direct.bind {p : FetchProgram α} {g : α → FetchProgram β} (hp : Direct p)
    (hg : ∀ a, Direct (g a)) : Direct (p >>= g) := by
  induction p with
  | done a => exact hg a
  | ask q next ih =>
    cases q with
    | lookUp _ => exact hp
    | acquire _ => exact hp
    | connect _ => exact fun answer => ih answer (hp answer)
    | call _ _ => exact fun answer => ih answer (hp answer)
    | release => exact ih () hp
    | remember _ _ => exact ih () hp

/-- What is left of a fetch once it has its permit. -/
def afterPermit (settings : FetchSettings) (inRun : Bool) (r : FetchRequest)
    (waited : (FetchStep.acquire r.key.registry).Answer) : FetchProgram FetchResponse := do
  let outcome ← askRegistry settings r.key.registry r
  release
  match outcome with
  | .error e => return ⟨.failed e.message, false, waited⟩
  | .ok result =>
    if inRun then remember r.key result
    return ⟨result, false, waited⟩

theorem fetchAnew_eq (settings : FetchSettings) (inRun : Bool) (r : FetchRequest) :
    fetchAnew settings inRun r =
      .ask (.acquire r.key.registry) (afterPermit settings inRun r) := rfl

section Parts

variable (settings : FetchSettings) (id : ClientId) (r : FetchRequest)

theorem direct_askMetadata : Direct (askMetadata id r) := by
  intro answer
  rcases answer with e | _ | metadata
  · trivial
  · trivial
  · trivial

theorem direct_askTags : Direct (askTags settings id r) := by
  intro uses
  cases uses with
  | true =>
    intro tags
    rcases tags with e | tags
    · trivial
    · intro newest
      rcases newest with e | newest
      · trivial
      · trivial
  | false =>
    intro newest
    rcases newest with e | newest
    · trivial
    · show Direct (if settings.collectAllTags then _ else _)
      split
      · intro tags
        rcases tags with e | tags
        · trivial
        · trivial
      · trivial

theorem direct_askOverall (newest : Option String) : Direct (askOverall id r newest) := by
  rw [askOverall]
  split
  · trivial
  · intro overall
    rcases overall with e | overall
    · trivial
    · trivial

theorem direct_askClient : Direct (askClient settings id r) := by
  intro floating
  cases floating with
  | true => exact direct_askMetadata id r
  | false =>
    refine (direct_askTags settings id r).bind fun listing => ?_
    rcases listing with e | ⟨tags, newest⟩
    · trivial
    · exact (direct_askOverall id r newest).bind fun _ => trivial

theorem direct_askRegistry (registry : String) : Direct (askRegistry settings registry r) := by
  intro client
  rcases client with e | id
  · trivial
  · exact (direct_askClient settings id r).bind fun _ _ => trivial

theorem direct_afterPermit (inRun : Bool) (waited : (FetchStep.acquire r.key.registry).Answer) :
    Direct (afterPermit settings inRun r waited) := by
  refine (direct_askRegistry settings r _).bind fun outcome => ?_
  rcases outcome with e | result
  · trivial
  · cases inRun with
    | true => trivial
    | false => trivial

end Parts

end FetchProgram

/-! ## Turns without delay -/

/-- A direct program runs to its end in one turn. -/
theorem goOn_direct (hinstant : service.Instant) (t : Ticket) {p : FetchProgram FetchResponse}
    (hp : p.Direct) (w : World σ) :
    ∃ w', Job.goOn service t p .ready w =
        (⟨t, .done (p.run service.handler w.service).1, .ready⟩, w') ∧
      w'.service = (p.run service.handler w.service).2 := by
  induction p generalizing w with
  | done r => exact ⟨w, by rw [Job.goOn]; rfl, rfl⟩
  | ask q next ih =>
    cases q with
    | lookUp _ => exact hp.elim
    | acquire _ => exact hp.elim
    | connect registry =>
      rw [goOn_connect]
      exact ih _ (hp _) (w.withService (service.connect registry w.service).2)
    | call id call =>
      rcases hstart : service.start id call w.service with ⟨ms, s⟩
      obtain rfl : ms = 0 := by rw [← hinstant id call w.service, hstart]
      rw [goOn_call_zero id call next hstart, Program.run, Service.handler, hstart]
      exact ih _ (hp _) (w.withService (service.answer id call s).2)
    | release =>
      rw [Job.goOn]
      exact ih () hp (w.onLimiter (·.release t))
    | remember key result =>
      rw [Job.goOn]
      exact ih () hp { w with context := w.context.set key result }

/-! ## A fetch alone -/

/-- How a fetch stands that is made alone, when the service was in some state at its beginning. -/
inductive Stage (service : Service σ) (settings : FetchSettings) (inRun : Bool) (r : FetchRequest)
    (s : σ) : Job → σ → Prop
  | begun (t : Ticket) : Stage service settings inRun r s ⟨t, .fetch settings inRun r, .ready⟩ s
  | queued (t : Ticket) :
    Stage service settings inRun r s
      ⟨t, .ask (.acquire r.key.registry) (FetchProgram.afterPermit settings inRun r), .queued⟩ s
  /-- The answer was kept from before. -/
  | kept (t : Ticket) (result : FetchResult) (phase : Phase) :
    Stage service settings inRun r s ⟨t, .done ⟨result, true, 0⟩, phase⟩ s
  | ended (t : Ticket) (waited : (FetchStep.acquire r.key.registry).Answer) (phase : Phase)
    {response : FetchResponse} {s' : σ} :
    (FetchProgram.afterPermit settings inRun r waited).run service.handler s = (response, s') →
      Stage service settings inRun r s ⟨t, .done response, phase⟩ s'

section Alone

variable {settings : FetchSettings} {inRun : Bool} {r : FetchRequest} {s : σ} {w : World σ}

/-- A fetch that waits for its permit goes on waiting, or runs to its end. -/
theorem stage_queued (hinstant : service.Instant) (t : Ticket) {o : Job × World σ}
    (ho : Job.goOn service t
      (.ask (.acquire r.key.registry) (FetchProgram.afterPermit settings inRun r)) .queued w = o) :
    Stage service settings inRun r w.service o.1 o.2.service := by
  rw [goOn_queued] at ho
  cases hgrant : (w.onLimiter (·.turn t)).limiter.grantOf? t with
  | none =>
    rw [hgrant] at ho
    subst ho
    exact .queued t
  | some grant =>
    rw [hgrant] at ho
    obtain ⟨w', hgo, hservice⟩ := goOn_direct hinstant t
      (FetchProgram.direct_afterPermit settings r inRun grant.waited) (w.onLimiter (·.turn t))
    obtain rfl := hgo.symm.trans ho
    exact .ended t grant.waited .ready (Prod.ext rfl hservice.symm)

theorem stage_fetchAnew (hinstant : service.Instant) (t : Ticket) {o : Job × World σ}
    (ho : Job.goOn service t (FetchProgram.fetchAnew settings inRun r) .ready w = o) :
    Stage service settings inRun r w.service o.1 o.2.service := by
  rw [FetchProgram.fetchAnew_eq, goOn_acquire] at ho
  exact stage_queued (w := w.onLimiter (·.ask t r.key.registry)) hinstant t ho

/-- A turn of a fetch that is made alone. -/
theorem Stage.turn (hinstant : service.Instant) {j : Job}
    (h : Stage service settings inRun r s j w.service) :
    Stage service settings inRun r s (j.turn service w).1 (j.turn service w).2.service := by
  generalize hs : w.service = s' at h
  cases h with
  | begun t =>
    subst hs
    cases inRun with
    | false => exact stage_fetchAnew hinstant t rfl
    | true =>
      show Stage service settings true r w.service
        (Job.goOn service t (.ask (.lookUp r.key) _) .ready w).1
        (Job.goOn service t (.ask (.lookUp r.key) _) .ready w).2.service
      rw [Job.goOn]
      cases w.context.get? r.key with
      | none => exact stage_fetchAnew hinstant t rfl
      | some result =>
        show Stage service settings true r w.service
          (Job.goOn service t (.done ⟨result, true, 0⟩) .ready w).1
          (Job.goOn service t (.done ⟨result, true, 0⟩) .ready w).2.service
        rw [Job.goOn]
        exact .kept t result .ready
  | queued t =>
    subst hs
    exact stage_queued hinstant t rfl
  | kept t result phase =>
    subst hs
    rw [Job.turn, Job.goOn]
    exact .kept t result phase
  | ended t waited phase hrun =>
    subst hs
    rw [Job.turn, Job.goOn]
    exact .ended t waited phase hrun

/-- A sweep over the only fetch. -/
theorem Stage.sweep (hinstant : service.Instant) (picked : Job → Bool) {j : Job}
    (h : Stage service settings inRun r s j w.service) :
    ∃ j' w', Pool.sweep service picked [j] w = ([j'], w') ∧
      Stage service settings inRun r s j' w'.service := by
  by_cases hpicked : picked j
  · refine ⟨(j.turn service w).1, (j.turn service w).2, ?_, h.turn hinstant⟩
    rw [Pool.sweep, if_pos hpicked]
    rfl
  · refine ⟨j, w, ?_, h⟩
    rw [Pool.sweep, if_neg hpicked]
    rfl

theorem Stage.runSteps (hinstant : service.Instant) (inRounds : Bool) (fuel : Nat) {j : Job}
    (h : Stage service settings inRun r s j w.service) :
    ∃ j' w', Pool.runSteps service inRounds fuel [j] w = ([j'], w') ∧
      Stage service settings inRun r s j' w'.service := by
  induction fuel generalizing j w with
  | zero => exact ⟨j, w, rfl, h⟩
  | succ fuel ih =>
    rcases hcalled : w.limiter.agenda.called with _ | ⟨first, rest⟩
    · cases halarm : w.limiter.nextAlarm? with
      | none => exact ⟨j, w, by rw [Pool.runSteps, hcalled, halarm], h⟩
      | some alarm =>
        rw [Pool.runSteps, hcalled, halarm]
        exact @ih (w.onLimiter (·.sleepUntil alarm)) j h
    · cases inRounds with
      | true =>
        obtain ⟨j', w', hsweep, h'⟩ :=
          Stage.sweep (w := w.withCalled []) hinstant (fun _ => true) h
        simp only [Pool.runSteps, hcalled, if_true, hsweep]
        exact ih h'
      | false =>
        obtain ⟨j', w', hsweep, h'⟩ :=
          Stage.sweep (w := w.withCalled rest) hinstant (fun j => j.ticket == first) h
        simp only [Pool.runSteps, hcalled, Bool.false_eq_true, if_false, hsweep]
        exact ih h'

/-- **A fetch that was made alone** either had its answer kept from before, or is the part of it
after the permit, run once. -/
theorem Pool.run_alone (hinstant : service.Instant) {response : FetchResponse} {w' : World σ}
    (h : Pool.run service [.fetch settings inRun r] w = ([some response], w')) :
    response.cacheHit = true ∨ ∃ waited,
      (FetchProgram.afterPermit settings inRun r waited).run service.handler w.service =
        (response, w'.service) := by
  have hbegun : Stage service settings inRun r w.service
      ⟨w.nextTicket, .fetch settings inRun r, .ready⟩ w.service := .begun w.nextTicket
  have hjobs : Pool.jobs w.nextTicket [.fetch settings inRun r] =
      [⟨w.nextTicket, .fetch settings inRun r, .ready⟩] := rfl
  rw [run_eq, hjobs] at h
  -- How many steps there are plays no part from here on.
  generalize Pool.steps _ = fuel at h
  obtain ⟨j, w'', hsteps, hstage⟩ := Stage.runSteps (w := w.opened [.fetch settings inRun r])
    hinstant _ fuel hbegun
  rw [hsteps] at h
  obtain ⟨hresponse, rfl⟩ := Prod.ext_iff.mp h
  have hresponse : j.response? = some response := (List.cons.inj hresponse).1
  generalize w''.service = s'' at hstage
  cases hstage with
  | begun t => cases inRun <;> exact nomatch hresponse
  | queued t => exact nomatch hresponse
  | kept t result phase =>
    obtain rfl := Option.some.inj hresponse
    exact .inl rfl
  | ended t waited phase hover =>
    obtain rfl := Option.some.inj hresponse
    exact .inr ⟨waited, hover⟩

end Alone

end TagWatch
