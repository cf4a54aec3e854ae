import TagWatch.Client.Prepared
import TagWatch.Proofs.Run.Inquiries

/-!
# Fetches that share a context

Fetches are made one after another, with pauses between them, and share the context, the limiter and
the service (`occasions`). Some of them are not part of the run.

**Theorem (`occasions_keep_answers`).** A fetch that is made twice in a run is answered from the
context the second time, unless it failed: the answer is the same, no client is asked for, no permit
is taken and no time passes. What failed is asked for again. Clients are asked for once by each
fetch that is not answered from the context, and a fetch outside of the run never is.

A single fetch is a pool of its own. When its key has an answer, the pool does nothing
(`Pool.run_kept`); otherwise it leaves behind what every pool does (`Pool.run_inquiries`).
-/

namespace TagWatch

open Limit (Limiter)
open FetchProgram (Ends)

variable {σ : Type} {service : Service σ} {w : World σ}

/-! ## A single fetch -/

/-- An occasion on which a fetch is made, some time after the one before. -/
structure Occasion where
  /-- The time that passes before it, in milliseconds. -/
  pause : Nat
  settings : FetchSettings
  /-- Whether it is part of the run. -/
  inRun : Bool
  request : FetchRequest

/-- The world when some time has passed. -/
def World.later (w : World σ) (ms : Nat) : World σ := w.onLimiter (·.sleepUntil (w.now + ms))

namespace Occasion

/-- The key that is fetched. -/
def key (v : Occasion) : Key := v.request.key

/-- The outcomes of the fetch, which begins at once, and the world after it. -/
def run (service : Service σ) (v : Occasion) (w : World σ) :
    List (Option FetchResponse) × World σ :=
  Pool.run service [.fetch v.settings v.inRun v.request] w

end Occasion

theorem World.Rested.later (h : w.Rested) (ms : Nat) : (w.later ms).Rested := by
  refine ⟨h.healthy.sleepUntil _, ?_, ?_, h.past⟩
  · refine List.eq_nil_iff_forall_not_mem.mpr fun u hu => ?_
    rcases Limit.Agenda.mem_called_sleepUntil.mp hu with hu | ⟨time, hmem, -⟩
    · exact List.not_mem_nil (h.called ▸ hu)
    · exact List.not_mem_nil (h.alarms ▸ hmem)
  · refine List.eq_nil_iff_forall_not_mem.mpr fun e he => ?_
    exact List.not_mem_nil (h.alarms ▸ (Limit.Agenda.mem_alarms_sleepUntil.mp he).1)

theorem World.Rested.withNextTicket (h : w.Rested) :
    World.Rested { w with nextTicket := w.nextTicket + 1 } :=
  ⟨h.healthy, h.called, h.alarms,
    fun u => ⟨(h.past u).1, fun hg => Nat.lt_succ_of_lt ((h.past u).2 hg)⟩⟩

/-- When nobody is called, dropping all calls changes nothing. -/
theorem World.withCalled_nil (h : w.limiter.agenda.called = []) : w.withCalled [] = w := by
  obtain ⟨⟨rates, ⟨now, called, alarms⟩, lanes, pool, held, grants⟩, ticket, context, service⟩ := w
  obtain rfl : called = [] := h
  rfl

/-- A fetch whose key has an answer does nothing but take a ticket. -/
theorem Pool.run_kept {settings : FetchSettings} {r : FetchRequest} {result : FetchResult}
    (hr : w.Rested) (hget : w.context.get? r.key = some result) :
    Pool.run service [.fetch settings true r] w =
      ([some ⟨result, true, 0⟩], { w with nextTicket := w.nextTicket + 1 }) := by
  let w' : World σ := { w with nextTicket := w.nextTicket + 1 }
  let begun : Job := ⟨w.nextTicket, .fetch settings true r, .ready⟩
  let ended : Job := ⟨w.nextTicket, .done ⟨result, true, 0⟩, .ready⟩
  have hturn : begun.turn service w' = (ended, w') := by
    show Job.goOn service w.nextTicket (.ask (.lookUp r.key) _) .ready w' = _
    rw [Job.goOn, show w'.context.get? r.key = some result from hget]
    show Job.goOn service w.nextTicket (.done ⟨result, true, 0⟩) .ready w' = _
    rw [Job.goOn]
  have hsweep : Pool.sweep service (fun _ => true) [begun] (w'.withCalled []) = ([ended], w') := by
    rw [World.withCalled_nil (w := w') hr.called, sweep_cons, if_pos rfl, hturn]
    rfl
  have hfirst (fuel : Nat) :
      Pool.runSteps service true (fuel + 1) [begun] (w'.withCalled [w.nextTicket]) =
        Pool.runSteps service true fuel
          (Pool.sweep service (fun _ => true) [begun] (w'.withCalled [])).1
          (Pool.sweep service (fun _ => true) [begun] (w'.withCalled [])).2 :=
    rfl
  have hstill (fuel : Nat) : Pool.runSteps service true (fuel + 1) [ended] w' = ([ended], w') := by
    have halarm : w'.limiter.nextAlarm? = none := by
      show (w.limiter.agenda.alarms.map (·.1)).min? = none
      rw [hr.alarms]
      rfl
    simp only [Pool.runSteps, show w'.limiter.agenda.called = [] from hr.called, halarm]
  have hsteps : Pool.runSteps service true (Pool.steps 1) [begun] (w'.withCalled [w.nextTicket]) =
      ([ended], w') := by
    rw [show Pool.steps 1 = 62 + 1 + 1 from rfl, hfirst, hsweep, hstill]
  have hrun := run_eq service [.fetch settings true r] w
  have hopened : w.opened [.fetch settings true r] = w'.withCalled [w.nextTicket] := rfl
  have hjobs : Pool.jobs w.nextTicket [.fetch settings true r] = [begun] := rfl
  rw [hopened, hjobs, List.length_singleton,
    show decide (1 ≤ Pool.roundLimit) = true from rfl, hsteps] at hrun
  exact hrun

/-- What becomes of a single fetch when the registries are noted for which clients are asked for. -/
inductive Occasion.Ends (v : Occasion) (w w' : World (σ × List String)) : FetchResponse → Prop where
  | kept (result : FetchResult) : v.inRun = true → w.context.get? v.key = some result →
    w' = { w with nextTicket := w.nextTicket + 1 } → Ends v w w' ⟨result, true, 0⟩
  | failed (e : RegistryError) (waited : Nat) : (v.inRun = true → w.context.get? v.key = none) →
    w'.service.2 = w.service.2 ++ [v.key.registry] → w'.context = w.context →
    Ends v w w' ⟨.failed e.message, false, waited⟩
  | answered (result : FetchResult) (waited : Nat) : result.error = none →
    (v.inRun = true → w.context.get? v.key = none) →
    w'.service.2 = w.service.2 ++ [v.key.registry] →
    w'.context = (if v.inRun then w.context.set v.key result else w.context) →
    Ends v w w' ⟨result, false, waited⟩

/-- A fetch whose key has no answer, or that is not part of the run. -/
theorem Occasion.ends_anew {v : Occasion} {w : World (σ × List String)} (hr : w.Rested)
    (hanew : v.inRun = true → w.context.get? v.key = none) :
    let o := v.run service.recorded w
    o.2.Rested ∧ ∃ response, o.1 = [some response] ∧ v.Ends w o.2 response := by
  have hmade : Inquiry.IsMadeBy ⟨v.key, v.inRun⟩ (.fetch v.settings v.inRun v.request) :=
    FetchProgram.rest_fetch v.inRun
  obtain ⟨cs, htold⟩ := Pool.run_inquiries service.logs_recorded hr (.cons hmade .nil)
  change Told _ w _ cs (v.run service.recorded w) at htold
  generalize v.run service.recorded w = o at htold ⊢
  obtain ⟨⟨q, st⟩, rfl, hq⟩ := List.map_eq_singleton_iff.mp htold.traced.inquiries
  change q = ⟨v.key, v.inRun⟩ at hq
  obtain ⟨_, _, ⟨response, rfl, hends⟩, hnil, houtcomes⟩ :=
    List.forall₂_cons_left_iff.mp htold.ended
  rw [List.forall₂_nil_left_iff.mp hnil] at houtcomes
  refine ⟨htold.rested, response, houtcomes, ?_⟩
  obtain ⟨asked, hasked, hlogged⟩ := htold.traced.logged
  obtain ⟨entries, hentries, hcontext⟩ := htold.traced.written
  have hservice (h : st.asked q.key.registry = [q.key.registry]) :
      o.2.service.2 = w.service.2 ++ [v.key.registry] := by
    have hone : asked.Perm [v.key.registry] := by
      rw [List.flatMap_singleton, Course.asked, h, hq] at hasked
      exact hasked
    rw [← List.perm_singleton.mp hone]
    exact hlogged _ rfl
  subst hq
  rw [List.flatMap_singleton] at hentries
  cases hends with
  | found result hinRun =>
    -- a kept answer would have been there before, as nobody else is on the way
    have hknown := htold.traced.found _ List.mem_cons_self result rfl
    rw [List.flatMap_singleton] at hknown
    rcases hknown with hget | hmem
    · exact absurd (hget.symm.trans (hanew hinRun)) (Option.some_ne_none result)
    · exact absurd hmem List.not_mem_nil
  | kept result waited hinRun hok =>
    refine .answered result waited hok hanew (hservice rfl) ?_
    change v.inRun = true at hinRun
    rw [if_pos hinRun]
    rw [List.perm_singleton.mp hentries] at hcontext
    exact hcontext
  | failed e waited =>
    rw [List.perm_nil.mp hentries] at hcontext
    exact .failed e waited hanew (hservice rfl) hcontext
  | alone result waited hinRun hok =>
    refine .answered result waited hok hanew (hservice rfl) ?_
    change v.inRun = false at hinRun
    rw [hinRun, if_neg Bool.false_ne_true]
    rw [List.perm_nil.mp hentries] at hcontext
    exact hcontext

/-- **A single fetch.** It comes to an end and leaves the world at rest. -/
theorem Occasion.run_spec (service : Service σ) (v : Occasion) {w : World (σ × List String)}
    (hr : w.Rested) :
    let o := v.run service.recorded w
    o.2.Rested ∧ ∃ response, o.1 = [some response] ∧ v.Ends w o.2 response := by
  by_cases hkept : v.inRun = true ∧ ∃ result, w.context.get? v.key = some result
  · obtain ⟨hinRun, result, hget⟩ := hkept
    have hrun : v.run service.recorded w =
        ([some ⟨result, true, 0⟩], { w with nextTicket := w.nextTicket + 1 }) := by
      rw [run, hinRun]
      exact Pool.run_kept hr hget
    rw [hrun]
    exact ⟨hr.withNextTicket, _, rfl, .kept result hinRun hget rfl⟩
  · refine ends_anew hr fun hinRun => ?_
    cases hget : w.context.get? v.key with
    | none => rfl
    | some result => exact absurd ⟨hinRun, result, hget⟩ hkept

/-! ## Sequences of fetches -/

/-- A fetch that was made, with its outcomes and the worlds in which it began and ended. -/
structure Occurred (σ : Type) where
  occasion : Occasion
  before : World σ
  outcomes : List (Option FetchResponse)
  after : World σ

/-- Whether the fetch was answered from the context. -/
def Occurred.isHit (e : Occurred σ) : Bool := e.outcomes.any fun r? => r?.any (·.cacheHit)

/-- Fetches that are made one after another, and the world after them. -/
def occasions (service : Service σ) : List Occasion → World σ → List (Occurred σ) × World σ
  | [], w => ([], w)
  | v :: vs, w =>
    let before := w.later v.pause
    let (outcomes, after) := v.run service before
    let (rest, w) := occasions service vs after
    (⟨v, before, outcomes, after⟩ :: rest, w)

theorem occasions_cons (service : Service σ) (v : Occasion) (vs : List Occasion) (w : World σ) :
    occasions service (v :: vs) w =
      let o := v.run service (w.later v.pause)
      (⟨v, w.later v.pause, o.1, o.2⟩ :: (occasions service vs o.2).1,
        (occasions service vs o.2).2) :=
  rfl

/-- An answer that is kept is never replaced. -/
theorem Occasion.Ends.get? {v : Occasion} {w w' : World (σ × List String)}
    {response : FetchResponse}
    (h : v.Ends w w' response) {k : Key} {result : FetchResult}
    (hget : w.context.get? k = some result) : w'.context.get? k = some result := by
  cases h with
  | kept result _ _ hw => rw [hw]; exact hget
  | failed e waited _ _ hcontext => rw [hcontext]; exact hget
  | answered result' waited _ hanew _ hcontext =>
    rw [hcontext]
    split
    · next hinRun =>
      rw [Context.get?_set, if_neg]
      · exact hget
      · rintro rfl
        rw [hanew hinRun] at hget
        cases hget
    · exact hget

/-- Once an answer is kept, all fetches of its key in the run get it. -/
theorem occasions_of_kept {vs : List Occasion} {w : World (σ × List String)} (hr : w.Rested)
    {k : Key}
    {result : FetchResult} (hget : w.context.get? k = some result) :
    ∀ e ∈ (occasions service.recorded vs w).1, e.occasion.inRun = true → e.occasion.key = k →
      e.outcomes = [some ⟨result, true, 0⟩] := by
  induction vs generalizing w with
  | nil => exact fun e he => absurd he List.not_mem_nil
  | cons v vs ih =>
    obtain ⟨hrested, response, houtcomes, hends⟩ := v.run_spec service (hr.later v.pause)
    rw [occasions_cons]
    refine List.forall_mem_cons.mpr ⟨fun hinRun hk => ?_, ih hrested (hends.get? hget)⟩
    dsimp only at hinRun hk ⊢
    rw [houtcomes]
    rw [← hk] at hget
    cases hends with
    | kept result' _ hget' _ =>
      obtain rfl := Option.some.inj (hget.symm.trans hget')
      rfl
    | failed e waited hanew _ _ =>
      exact absurd (hget.symm.trans (hanew hinRun)) (Option.some_ne_none _)
    | answered result' waited _ hanew _ _ =>
      exact absurd (hget.symm.trans (hanew hinRun)) (Option.some_ne_none _)

/-- No failure is kept for a run. -/
def Context.Sound (ctx : Context) : Prop :=
  ∀ k result, ctx.get? k = some result → result.error = none

theorem Occasion.Ends.sound {v : Occasion} {w w' : World (σ × List String)}
    {response : FetchResponse}
    (h : v.Ends w w' response) (hsound : w.context.Sound) : w'.context.Sound := by
  cases h with
  | kept result _ _ hw => rw [hw]; exact hsound
  | failed e waited _ _ hcontext => rw [hcontext]; exact hsound
  | answered result waited hok _ _ hcontext =>
    rw [hcontext]
    split
    · intro k result' hget
      rw [Context.get?_set] at hget
      split at hget
      · cases hget
        exact hok
      · exact hsound k result' hget
    · exact hsound

/-- Every fetch of a sequence comes to an end, in a world in which no failure is kept. -/
theorem occasions_ends {vs : List Occasion} {w : World (σ × List String)} (hr : w.Rested)
    (hsound : w.context.Sound) :
    ∀ e ∈ (occasions service.recorded vs w).1, e.before.context.Sound ∧
      ∃ response, e.outcomes = [some response] ∧ e.occasion.Ends e.before e.after response := by
  induction vs generalizing w with
  | nil => exact fun e he => absurd he List.not_mem_nil
  | cons v vs ih =>
    obtain ⟨hrested, response, houtcomes, hends⟩ := v.run_spec service (hr.later v.pause)
    rw [occasions_cons]
    exact List.forall_mem_cons.mpr
      ⟨⟨hsound, response, houtcomes, hends⟩, ih hrested (hends.sound hsound)⟩

/-- An answer that was kept, or was got now, is there for all fetches that follow. -/
theorem occasions_pairwise {vs : List Occasion} {w : World (σ × List String)} (hr : w.Rested) :
    (occasions service.recorded vs w).1.Pairwise fun e e' => ∀ result cacheHit waited,
      e.occasion.inRun = true → e'.occasion.inRun = true → e'.occasion.key = e.occasion.key →
      e.outcomes = [some ⟨result, cacheHit, waited⟩] → result.error = none →
      e'.outcomes = [some ⟨result, true, 0⟩] := by
  induction vs generalizing w with
  | nil => exact .nil
  | cons v vs ih =>
    obtain ⟨hrested, response, houtcomes, hends⟩ := v.run_spec service (hr.later v.pause)
    rw [occasions_cons]
    refine .cons (fun e' he' result cacheHit waited hinRun hinRun' hk hresult hok => ?_)
      (ih hrested)
    dsimp only at hinRun hk hresult
    rw [houtcomes] at hresult
    obtain rfl : response = ⟨result, cacheHit, waited⟩ :=
      Option.some.inj (List.cons.inj hresult).1
    refine occasions_of_kept hrested ?_ e' he' hinRun' hk
    cases hends with
    | kept _ _ hget hw =>
      rw [hw]
      exact hget
    | failed e waited _ _ _ => cases hok
    | answered _ _ _ _ _ hcontext =>
      rw [hcontext, if_pos hinRun, Context.get?_set, if_pos rfl]

/-- Clients are asked for by the fetches that are not answered from the context. -/
theorem occasions_recorded {vs : List Occasion} {w : World (σ × List String)} (hr : w.Rested) :
    (occasions service.recorded vs w).2.service.2 = w.service.2 ++
      ((occasions service.recorded vs w).1.filter fun e => !e.isHit).map
        (·.occasion.key.registry) := by
  induction vs generalizing w with
  | nil => exact (List.append_nil _).symm
  | cons v vs ih =>
    obtain ⟨hrested, response, houtcomes, hends⟩ := v.run_spec service (hr.later v.pause)
    rw [occasions_cons]
    dsimp only
    rw [ih hrested, List.filter_cons, Occurred.isHit, houtcomes]
    cases hends with
    | kept result _ _ hw =>
      rw [hw]
      rfl
    | failed e waited _ hservice _ =>
      rw [hservice, List.append_assoc]
      rfl
    | answered result waited _ _ hservice _ =>
      rw [hservice, List.append_assoc]
      rfl

theorem map_occasion_occasions (service : Service σ) (vs : List Occasion) (w : World σ) :
    (occasions service vs w).1.map (·.occasion) = vs := by
  induction vs generalizing w with
  | nil => rfl
  | cons v vs ih => exact congrArg (v :: ·) (ih _)

/-- **A run asks for each key until it has an answer, and not again.** -/
theorem occasions_keep_answers (service : Service σ) (vs : List Occasion)
    (w : World (σ × List String)) (hr : w.Rested)
    (hsound : ∀ k result, w.context.get? k = some result → result.error = none) :
    let o := occasions service.recorded vs w
    o.1.map (·.occasion) = vs ∧
    (∀ e ∈ o.1, ∃ response, e.outcomes = [some response] ∧
      (response.cacheHit = true → e.occasion.inRun = true ∧ response.waited = 0 ∧
        e.after = { e.before with nextTicket := e.before.nextTicket + 1 }) ∧
      (response.cacheHit = false →
        e.after.service.2 = e.before.service.2 ++ [e.occasion.key.registry]) ∧
      (response.result.error.isSome → response.cacheHit = false ∧
        e.after.context = e.before.context ∧
        ∃ error : RegistryError, response.result = .failed error.message)) ∧
    (o.1.Pairwise fun e e' => ∀ result cacheHit waited,
      e.occasion.inRun = true → e'.occasion.inRun = true → e'.occasion.key = e.occasion.key →
      e.outcomes = [some ⟨result, cacheHit, waited⟩] → result.error = none →
      e'.outcomes = [some ⟨result, true, 0⟩]) ∧
    o.2.service.2 =
      w.service.2 ++ (o.1.filter fun e => !e.isHit).map (·.occasion.key.registry) := by
  intro o
  refine ⟨map_occasion_occasions _ vs w, fun e he => ?_, occasions_pairwise hr,
    occasions_recorded hr⟩
  obtain ⟨hbefore, response, houtcomes, hends⟩ := occasions_ends hr hsound e he
  refine ⟨response, houtcomes, ?_⟩
  cases hends with
  | kept result hinRun hget hw =>
    refine ⟨fun _ => ⟨hinRun, rfl, hw⟩, fun hhit => (nomatch hhit), fun herror => ?_⟩
    rw [show result.error = none from hbefore _ result hget] at herror
    cases herror
  | failed error waited _ hservice hcontext =>
    exact ⟨fun hhit => (nomatch hhit), fun _ => hservice, fun _ => ⟨rfl, hcontext, error, rfl⟩⟩
  | answered result waited hok _ hservice _ =>
    refine ⟨fun hhit => (nomatch hhit), fun _ => hservice, fun herror => ?_⟩
    rw [show result.error = none from hok] at herror
    cases herror

/-- Two spellings of one registry, a registry that cannot be asked, and a fetch outside of the
run. -/
theorem occasions_keep_answers_spellings :
    let s : Prepared.State := ⟨⟨[("nginx", { tags := some ["1.2.3", "1.3.0"] })]⟩,
      ⟨[("ghcr", { error := some (.unsupportedRegistry "ghcr") })]⟩, []⟩
    let nginx (inRun : Bool) (registry : String) : Occasion :=
      ⟨1000, {}, inRun, ⟨registry, "nginx", "1.2.3", .minor, false, none⟩⟩
    let tool : Occasion := ⟨0, {}, true, ⟨"ghcr.io", "tool", "1.0.0", .minor, false, none⟩⟩
    let vs := [nginx true "docker.io", tool, nginx true "Index.Docker.io", tool,
      nginx false "hub.docker.com"]
    let w : World (Prepared.State × List String) := .fresh (.fresh ⟨[]⟩ 1) (s, [])
    (occasions Prepared.service.recorded vs w).1.map (·.isHit) =
        [false, false, true, false, false] ∧
      (occasions Prepared.service.recorded vs w).2.service.2 =
        ["dockerhub", "ghcr", "ghcr", "dockerhub"] := by
  intro s nginx tool vs w
  have hasked : ((occasions Prepared.service.recorded vs w).1.filter fun e => !e.isHit).map
      (·.occasion.key.registry) = ["dockerhub", "ghcr", "ghcr", "dockerhub"] := by decide +kernel
  obtain ⟨-, -, -, hrecorded⟩ := occasions_keep_answers Prepared.service vs w
    (World.rested_fresh _ _ _) fun _ _ h => by cases h
  refine ⟨by decide +kernel, ?_⟩
  rw [hrecorded, hasked]
  rfl

end TagWatch
