import TagWatch.Proofs.Limit.Users

/-!
# Registries do not delay one another

A run of a limiter whose users ask for several registries looks, in the view of one registry, like a
run of the users of that registry alone, each of whose operations begins at the same time as before
(`View.Shared.run`). So what other users do cannot be noticed, as long as the pool of global slots
is never exhausted.

**Theorem (`Users.undisturbed`).** Two runs of a new limiter with the same limits, in which the
users of one registry do the same at the same times, and in which a global slot is free at every
moment, grant the acquisitions of these users at the same times and after the same waits, and count
the same.
-/

namespace TagWatch.Limit

open Workload (Operation)

/-! ## One operation -/

namespace Users

/-- Whether an operation is one of theirs. The counters of all registries are reset together. -/
def own (users : Users) : Operation → Bool
  | .acquire registry _ _ | .spawn registry _ _ => Registry.canonical registry == users.registry
  | .release name | .abort name => users.names name
  | .advance _ => false
  | .resetMetrics => true

/-- Whether the names of an operation are right: the users of the registry ask for permits under
their own names, and nobody else does. -/
def fits (users : Users) : Operation → Bool
  | .acquire registry name _ | .spawn registry name _ =>
    users.names name == (Registry.canonical registry == users.registry)
  | _ => true

end Users

namespace View

variable {v : View} {rates : Rates} {globalConcurrency : Nat} {w w' : Workload} {op : Operation}

/-- An operation of the users of the registry is the same operation in the view. -/
theorem Shared.begun_own (h : Shared v rates globalConcurrency w) (hcalm : w.Calm)
    (hown : v.own op = true) (hfits : v.fits op = true)
    (hnext : ∀ r, op.registry? = some r → v.requests[w.nextTicket]? = some r)
    (hfree : ∀ s ∈ w.awaitingStates op, 0 < s.limiter.pool.free) :
    Shared v rates globalConcurrency (w.begun op) ∧
      v.workload (w.begun op) = (v.workload w).begun op := by
  cases op with
  | acquire registry name timeout =>
    have hr : Registry.canonical registry = v.registry := beq_iff_eq.mp hown
    have hasked := hnext _ rfl
    have ht : v.sees w.nextTicket = true := by rw [sees_next hasked, hr, beq_self_eq_true]
    have hname : v.names name = true := (beq_iff_eq.mp hfits).trans hown
    obtain ⟨hwaited, heq⟩ := h.awaiting hcalm hr hasked hfree
    refine ⟨hwaited.resolve (ht.trans hname.symm), ?_⟩
    show v.workload ((w.awaiting registry timeout).resolve name w.nextTicket) = _
    rw [hwaited.workload_resolve hname ht, heq, number_of_sees ht]
    rfl
  | spawn registry name hold =>
    have hr : Registry.canonical registry = v.registry := beq_iff_eq.mp hown
    have hasked := hnext _ rfl
    have ht : v.sees w.nextTicket = true := by rw [sees_next hasked, hr, beq_self_eq_true]
    exact ⟨h.spawned (beq_iff_eq.mp hfits) hasked hold,
      workload_spawned hr ((beq_iff_eq.mp hfits).trans hown) ht hold⟩
  | release name => exact ⟨h.released name, h.workload_released hown⟩
  | abort name => exact ⟨h.aborted name, h.workload_aborted hown⟩
  | advance ms => cases hown
  | resetMetrics => exact ⟨h.resetMetrics, workload_resetMetrics v w⟩

/-- Of an operation of other users the view shows only that time passes. -/
theorem Shared.begun_of_not_own (h : Shared v rates globalConcurrency w) (hcalm : w.Calm)
    (hown : v.own op = false) (hfits : v.fits op = true)
    (hnext : ∀ r, op.registry? = some r → v.requests[w.nextTicket]? = some r)
    (hfree : ∀ s ∈ w.awaitingStates op, 0 < s.limiter.pool.free) :
    Shared v rates globalConcurrency (w.begun op) ∧
      (v.workload (w.begun op)).waitUntil none (w.begun op).limiter.now =
        (v.workload w).waitUntil none (w.begun op).limiter.now := by
  cases op with
  | acquire registry name timeout =>
    have hr : Registry.canonical registry ≠ v.registry := ne_of_beq_false hown
    have hasked := hnext _ rfl
    have ht : v.sees w.nextTicket = false := by rw [sees_next hasked, beq_false_of_ne hr]
    have hname : v.names name = false := (beq_iff_eq.mp hfits).trans hown
    obtain ⟨hwaited, heq⟩ := h.awaiting_of_ne hcalm hr hasked hfree
    refine ⟨hwaited.resolve (ht.trans hname.symm), ?_⟩
    show (v.workload ((w.awaiting registry timeout).resolve name w.nextTicket)).waitUntil none
      ((w.awaiting registry timeout).resolve name w.nextTicket).limiter.now =
        (v.workload w).waitUntil none
          ((w.awaiting registry timeout).resolve name w.nextTicket).limiter.now
    rw [hwaited.workload_resolve_of_not_sees hname ht, Workload.now_resolve]
    exact heq
  | spawn registry name hold =>
    have hr : Registry.canonical registry ≠ v.registry := ne_of_beq_false hown
    have hasked := hnext _ rfl
    have ht : v.sees w.nextTicket = false := by rw [sees_next hasked, beq_false_of_ne hr]
    have hsame : v.workload (w.begun (.spawn registry name hold)) = v.workload w :=
      workload_spawned_of_ne hr ((beq_iff_eq.mp hfits).trans hown) ht hold
    exact ⟨h.spawned (beq_iff_eq.mp hfits) hasked hold, by rw [hsame]⟩
  | release name =>
    have hsame : v.workload (w.begun (.release name)) = v.workload w :=
      h.workload_released_of_not_names hown
    exact ⟨h.released name, by rw [hsame]⟩
  | abort name =>
    have hsame : v.workload (w.begun (.abort name)) = v.workload w :=
      h.workload_aborted_of_not_names hown
    exact ⟨h.aborted name, by rw [hsame]⟩
  | advance ms =>
    have hstopped : w.Stopped none := .inr hcalm
    have hwaited := h.toPunctual.waited_passUntil hstopped rfl (Nat.le_add_right _ ms)
    exact h.waitUntil_waits hwaited.waits hfree (Nat.le_refl _)
  | resetMetrics => cases hown

/-- **What the users of the registry do is done in the view.** -/
theorem Shared.perform_own (h : Shared v rates globalConcurrency w) (hcalm : w.Calm)
    (hown : v.own op = true) (hfits : v.fits op = true)
    (hnext : ∀ r, op.registry? = some r → v.requests[w.nextTicket]? = some r)
    (hfree : ∀ s ∈ w.performStates op, 0 < s.limiter.pool.free) :
    Shared v rates globalConcurrency (w.perform op) ∧
      v.workload (w.perform op) = (v.workload w).perform op := by
  have hbefore (s : Workload) (hs : s ∈ w.awaitingStates op) : 0 < s.limiter.pool.free :=
    hfree s (List.mem_append_left _ (List.mem_append_left _ hs))
  have hafter (s : Workload) (hs : s ∈ (w.begun op).settleStates none) :
      0 < s.limiter.pool.free :=
    hfree s (List.mem_append_left _ (List.mem_append_right _ hs))
  obtain ⟨hbegun, heq⟩ := h.begun_own hcalm hown hfits hnext hbefore
  obtain ⟨hsettled, hsame⟩ := hbegun.settle hafter
  rw [Workload.perform_eq h.toTended hcalm, Workload.perform_eq h.alone (calm_workload hcalm),
    ← heq]
  exact ⟨hsettled, hsame⟩

/-- **What others do is not seen.** -/
theorem Shared.perform_of_not_own (h : Shared v rates globalConcurrency w) (hcalm : w.Calm)
    (hown : v.own op = false) (hfits : v.fits op = true)
    (hnext : ∀ r, op.registry? = some r → v.requests[w.nextTicket]? = some r)
    (hfree : ∀ s ∈ w.performStates op, 0 < s.limiter.pool.free) :
    Shared v rates globalConcurrency (w.perform op) ∧
      v.workload (w.perform op) =
        (v.workload w).waitUntil none (w.perform op).limiter.now := by
  have hbefore (s : Workload) (hs : s ∈ w.awaitingStates op) : 0 < s.limiter.pool.free :=
    hfree s (List.mem_append_left _ (List.mem_append_left _ hs))
  have hafter (s : Workload) (hs : s ∈ (w.begun op).settleStates none) :
      0 < s.limiter.pool.free :=
    hfree s (List.mem_append_left _ (List.mem_append_right _ hs))
  obtain ⟨hbegun, heq⟩ := h.begun_of_not_own hcalm hown hfits hnext hbefore
  obtain ⟨hsettled, hsame⟩ := hbegun.settle hafter
  rw [Workload.perform_eq h.toTended hcalm, Workload.now_settle, ← heq]
  exact ⟨hsettled, hsame.trans (hbegun.punctual.waitUntil_now none).symm⟩

/-! ## A run -/

end View

/-- The operations of the users in a run, each with the time at which it begins. -/
def Users.steps (users : Users) : Workload → List Operation → List (Nat × Operation)
  | _, [] => []
  | w, op :: ops =>
    if users.own op then (w.limiter.now, op) :: users.steps (w.perform op) ops
    else users.steps (w.perform op) ops

theorem Users.le_of_mem_steps {users : Users} {ops : List Operation} {w : Workload}
    {step : Nat × Operation} (h : step ∈ users.steps w ops) : w.limiter.now ≤ step.1 := by
  induction ops generalizing w with
  | nil => cases h
  | cons op ops ih =>
    have hnow := Workload.now_le_perform w op
    rw [Users.steps] at h
    split at h
    · rcases List.mem_cons.mp h with rfl | h
      · exact Nat.le_refl _
      · exact Nat.le_trans hnow (ih h)
    · exact Nat.le_trans hnow (ih h)

/-- Operations are performed at given times. -/
def Workload.replay (w : Workload) (steps : List (Nat × Operation)) : Workload :=
  steps.foldl (fun w step => (w.waitUntil none step.1).perform step.2) w

/-- A wait before the first of some operations makes no difference in the end. -/
theorem Workload.Punctual.replay_waitUntil {rates : Rates} {globalConcurrency : Nat}
    {w : Workload} {time target : Nat} {steps : List (Nat × Operation)}
    (h : Punctual rates globalConcurrency w) (hcalm : w.Calm) (hnow : w.limiter.now ≤ time)
    (hsteps : ∀ step ∈ steps, time ≤ step.1) (hle : time ≤ target) :
    ((w.waitUntil none time).replay steps).waitUntil none target =
      (w.replay steps).waitUntil none target := by
  cases steps with
  | nil => exact h.waitUntil_waitUntil hcalm hnow hle
  | cons step steps =>
    rw [replay, replay, List.foldl_cons, List.foldl_cons,
      h.waitUntil_waitUntil hcalm hnow (hsteps step List.mem_cons_self)]

namespace View

variable {v : View} {rates : Rates} {globalConcurrency : Nat} {w : Workload}

/-- The view of a workload in which nobody is called does not change at the current time. -/
theorem Shared.waitUntil_now (h : Shared v rates globalConcurrency w) (hcalm : w.Calm) :
    (v.workload w).waitUntil none w.limiter.now = v.workload w :=
  Workload.waitUntil_now (ahead_workload h.ahead) (.inr (calm_workload hcalm))

/-- **In its view a registry is alone.** The view of a run is a run of the users of the registry
alone, who do the same at the same times. -/
theorem Shared.run {ops : List Operation} (h : Shared v rates globalConcurrency w)
    (hcalm : w.Calm) (hfits : ∀ op ∈ ops, v.fits op = true)
    (hrequests : v.requests.drop w.nextTicket = Workload.requested ops)
    (hfree : ∀ s ∈ w.history ops, 0 < s.limiter.pool.free) :
    let w' := ops.foldl Workload.perform w
    Shared v rates globalConcurrency w' ∧ w'.Calm ∧ ∀ target, w'.limiter.now ≤ target →
      (v.workload w').waitUntil none target =
        ((v.workload w).replay (v.steps w ops)).waitUntil none target := by
  induction ops generalizing w with
  | nil => exact ⟨h, hcalm, fun _ _ => rfl⟩
  | cons op ops ih =>
    have hop := hfits op List.mem_cons_self
    rw [Workload.requested_cons] at hrequests
    have hnext (r : String) (hr : op.registry? = some r) : v.requests[w.nextTicket]? = some r := by
      rw [← List.head?_drop, hrequests, hr]
      rfl
    have hlater : v.requests.drop (w.perform op).nextTicket = Workload.requested ops := by
      rw [Workload.nextTicket_perform, ← List.drop_drop, hrequests, List.drop_left]
    have hbefore (s : Workload) (hs : s ∈ w.performStates op) : 0 < s.limiter.pool.free :=
      hfree s (List.mem_append_left _ hs)
    have hrest (hshared : Shared v rates globalConcurrency (w.perform op)) :=
      ih hshared (h.toTended.perform hcalm op).2
        (fun op' hop' => hfits op' (List.mem_cons_of_mem _ hop')) hlater
        fun s hs => hfree s (List.mem_append_right _ hs)
    rw [List.foldl_cons, Users.steps]
    cases hown : v.own op
    · -- in the view time passes, which can be put off until the next operation that is seen
      obtain ⟨hshared, heq⟩ := h.perform_of_not_own hcalm hown hop hnext hbefore
      obtain ⟨hend, hcalm', hsame⟩ := hrest hshared
      refine ⟨hend, hcalm', fun target htarget => ?_⟩
      rw [if_neg Bool.false_ne_true, hsame target htarget, heq]
      exact h.punctual.replay_waitUntil (calm_workload hcalm) (Workload.now_le_perform w op)
        (fun _ => Users.le_of_mem_steps)
        (Nat.le_trans (Workload.now_le_foldl_perform ops _) htarget)
    · obtain ⟨hshared, heq⟩ := h.perform_own hcalm hown hop hnext hbefore
      obtain ⟨hend, hcalm', hsame⟩ := hrest hshared
      refine ⟨hend, hcalm', fun target htarget => ?_⟩
      rw [if_pos rfl, hsame target htarget, heq, Workload.replay, Workload.replay,
        List.foldl_cons, h.waitUntil_now hcalm]

theorem shared_fresh (v : View) (rates : Rates) (globalConcurrency : Nat) :
    Shared v rates globalConcurrency (.fresh (.fresh rates globalConcurrency)) where
  toTended := Workload.tended_fresh rates globalConcurrency
  ahead := fun e he => by cases he
  alone := Workload.tended_fresh rates globalConcurrency
  sorts := sorts_fresh v rates globalConcurrency
  line := rfl
  permits := fun _ _ h => by cases h
  names := fun _ _ h => by cases h

/-! ## Admissions -/

/-- The acquisitions of the registry, in order: when each of them was granted and how long it had
waited for room in the window, or nothing for one that was not granted. -/
def admissions (v : View) (w : Workload) : List (Option (Nat × Nat)) :=
  ((List.range w.nextTicket).filter v.sees).map fun t =>
    (w.limiter.grantOf? t).map fun grant => (grant.time, grant.waited)

/-- The tickets that are seen are numbered one by one. -/
theorem map_number_range (v : View) (n : Ticket) :
    ((List.range n).filter v.sees).map v.number = List.range (v.count n) := by
  induction n with
  | zero => rfl
  | succ n ih =>
    rw [List.range_succ, List.filter_append, List.map_append, ih, count_succ]
    cases hn : v.sees n
    · rw [List.filter_singleton, hn]
      exact List.append_nil _
    · rw [List.filter_singleton, hn, if_pos rfl, List.range_succ, ← number_of_sees hn]
      rfl

/-- The admissions can be read off the view. -/
theorem admissions_eq (v : View) (w : Workload) :
    v.admissions w = (List.range (v.workload w).nextTicket).map fun n =>
      ((v.workload w).limiter.grantOf? n).map fun grant => (grant.time, grant.waited) := by
  rw [show (v.workload w).nextTicket = v.count w.nextTicket from rfl, ← map_number_range,
    List.map_map]
  refine List.map_congr_left fun t ht => ?_
  rw [Function.comp_apply, show (v.workload w).limiter = v.limiter w.limiter from rfl,
    grantOf?_limiter (List.mem_filter.mp ht).2, Option.map_map]
  rfl

/-- A longer run whose view comes of a wait has granted the same by every moment of the shorter
one. -/
theorem Shared.admissions_by {v' : View} {w' : Workload} {moment : Nat}
    (h : Shared v rates globalConcurrency w) (hcalm : w.Calm)
    (hle : w.limiter.now ≤ w'.limiter.now) (hmoment : moment ≤ w.limiter.now)
    (hsame : (v.workload w).waitUntil none w'.limiter.now = v'.workload w') :
    (v.admissions w).map (·.filter (·.1 ≤ moment)) =
      (v'.admissions w').map (·.filter (·.1 ≤ moment)) := by
  have hnext := (Workload.continues_waitUntil (v.workload w) none w'.limiter.now).nextTicket
  obtain ⟨later, hgrants, hlater⟩ := h.punctual.exists_grants_waitUntil (calm_workload hcalm) hle
  rw [hsame] at hnext hgrants
  rw [admissions_eq, admissions_eq, List.map_map, List.map_map, hnext]
  refine List.map_congr_left fun n _ => ?_
  rw [Function.comp_apply, Function.comp_apply, Limiter.grantOf?, Limiter.grantOf?, hgrants,
    List.find?_append]
  cases (v.workload w).limiter.grants.find? (·.ticket == n) with
  | some grant => rfl
  | none =>
    rw [Option.none_or]
    cases hfind : later.find? (·.ticket == n) with
    | none => rfl
    | some grant =>
      have htime := hlater grant (List.mem_of_find?_eq_some hfind)
      refine (Option.filter_eq_none_iff.mpr ?_).symm
      rintro _ ⟨⟩
      exact fun hle' => absurd (of_decide_eq_true hle')
        (Nat.not_le_of_lt (Nat.lt_of_le_of_lt hmoment htime))

end View

/-! ## Two runs -/

namespace Users

/-- The view of the users after some operations. -/
def view (users : Users) (ops : List Operation) : View :=
  { users with requests := Workload.requested ops }

/-- **Registries do not delay one another.** In two runs of a new limiter with the same limits the
users of one registry, who go by names of their own, do the same at the same times. Whatever the
users of other registries do, if at every moment of both runs a global slot is free, the
acquisitions of the registry are granted at the same times and after the same waits, as far as both
runs go; and if both end at the same time, they have granted the same, and the counters of the
registry agree. -/
theorem undisturbed (rates : Rates) (globalConcurrency : Nat) (users : Users)
    (ops ops' : List Operation) (hfits : ∀ op ∈ ops, users.fits op = true)
    (hfits' : ∀ op ∈ ops', users.fits op = true)
    (hfree : ∀ s ∈ (Workload.fresh (.fresh rates globalConcurrency)).history ops,
      0 < s.limiter.pool.free)
    (hfree' : ∀ s ∈ (Workload.fresh (.fresh rates globalConcurrency)).history ops',
      0 < s.limiter.pool.free)
    (hsteps : users.steps (.fresh (.fresh rates globalConcurrency)) ops =
      users.steps (.fresh (.fresh rates globalConcurrency)) ops') :
    let w := ops.foldl Workload.perform (.fresh (.fresh rates globalConcurrency))
    let w' := ops'.foldl Workload.perform (.fresh (.fresh rates globalConcurrency))
    let admissions := (users.view ops).admissions w
    let admissions' := (users.view ops').admissions w'
    (∀ moment, moment ≤ w.limiter.now → moment ≤ w'.limiter.now →
      admissions.map (·.filter (·.1 ≤ moment)) = admissions'.map (·.filter (·.1 ≤ moment))) ∧
    (w.limiter.now = w'.limiter.now → admissions = admissions' ∧
      (w.limiter.lane users.registry).totalRequests =
        (w'.limiter.lane users.registry).totalRequests ∧
      (w.limiter.lane users.registry).waitCount = (w'.limiter.lane users.registry).waitCount) := by
  intro w w' admissions admissions'
  obtain ⟨hshared, hcalm, hrun⟩ :=
    (View.shared_fresh (users.view ops) rates globalConcurrency).run rfl hfits rfl hfree
  obtain ⟨hshared', hcalm', hrun'⟩ :=
    (View.shared_fresh (users.view ops') rates globalConcurrency).run rfl hfits' rfl hfree'
  have hreplay (target : Nat) (h : w.limiter.now ≤ target) (h' : w'.limiter.now ≤ target) :
      ((users.view ops).workload w).waitUntil none target =
        ((users.view ops').workload w').waitUntil none target :=
    (hrun target h).trans ((congrArg (fun steps =>
      ((Workload.fresh (.fresh rates globalConcurrency)).replay steps).waitUntil none target)
        hsteps).trans (hrun' target h').symm)
  have hnow := hshared.waitUntil_now hcalm
  have hnow' := hshared'.waitUntil_now hcalm'
  refine ⟨fun moment hmoment hmoment' => ?_, fun hend => ?_⟩
  · rcases Nat.le_total w.limiter.now w'.limiter.now with hle | hle
    · exact hshared.admissions_by hcalm hle hmoment
        ((hreplay _ hle (Nat.le_refl _)).trans hnow')
    · exact (hshared'.admissions_by hcalm' hle hmoment'
        ((hreplay _ (Nat.le_refl _) hle).symm.trans hnow)).symm
  · have hsame : (users.view ops).workload w = (users.view ops').workload w' := by
      have h := hreplay w'.limiter.now (Nat.le_of_eq hend) (Nat.le_refl _)
      rwa [hnow', ← hend, hnow] at h
    have hlane : (w.limiter.lane users.registry).rename (users.view ops).number =
        (w'.limiter.lane users.registry).rename (users.view ops').number :=
      (View.lane_limiter (users.view ops) w.limiter).symm.trans
        ((congrArg (fun w => w.limiter.lane users.registry) hsame).trans
          (View.lane_limiter (users.view ops') w'.limiter))
    have htotal := congrArg Lane.totalRequests hlane
    have hwaits := congrArg Lane.waitCount hlane
    refine ⟨?_, htotal, hwaits⟩
    show (users.view ops).admissions w = (users.view ops').admissions w'
    rw [View.admissions_eq, View.admissions_eq, hsame]

/-- Two tasks, the second of which waits a minute for room in the window, are not disturbed by two
users of another registry, one of whom keeps its permit while the other one gives up its wait. -/
theorem undisturbed_busy_neighbour :
    let rates : Rates := ⟨[("r", ⟨1, 2, 1⟩), ("s", ⟨1, 2, 1⟩)]⟩
    let users : Users := ⟨"r", fun name => name == "a" || name == "b"⟩
    let ops : List Operation := [.spawn "r" "a" (.forMs 0), .spawn "r" "b" .untilTold,
      .advance 70000]
    let ops' : List Operation := [.spawn "s" "x" .untilTold, .spawn "r" "a" (.forMs 0),
      .spawn "r" "b" .untilTold, .acquire "s" "y" 100, .advance 69900]
    let w := ops.foldl Workload.perform (.fresh (.fresh rates 3))
    let w' := ops'.foldl Workload.perform (.fresh (.fresh rates 3))
    (users.view ops).admissions w = [some (0, 0), some (60000, 60000)] ∧
      (users.view ops').admissions w' = [some (0, 0), some (60000, 60000)] ∧
      (w'.limiter.lane "r").totalRequests = 2 ∧ (w'.limiter.lane "r").waitCount = 1 := by
  intro rates users ops ops' w w'
  obtain ⟨-, hequal⟩ := undisturbed rates 3 users ops ops' (by decide +kernel) (by decide +kernel)
    (by decide +kernel) (by decide +kernel) (by decide +kernel)
  obtain ⟨hadmissions, htotal, hwaits⟩ := hequal (by decide +kernel)
  have halone : (users.view ops).admissions w = [some (0, 0), some (60000, 60000)] ∧
      (w.limiter.lane "r").totalRequests = 2 ∧ (w.limiter.lane "r").waitCount = 1 := by
    decide +kernel
  exact ⟨halone.1, hadmissions.symm.trans halone.1, htotal.symm.trans halone.2.1,
    hwaits.symm.trans halone.2.2⟩

end Users

end TagWatch.Limit
