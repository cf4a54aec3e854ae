import Mathlib.Algebra.Ring.Nat
import TagWatch.Proofs.Run.Interleaving
import TagWatch.Proofs.Run.Job

/-!
# Fetches side by side come to an end

**Theorem (`Pool.run_rested`).** In a world where nobody uses the limiter, fetches that run side by
side all come to an end, whatever the limits are, whatever the service answers and however long it
takes. The limiter is at rest again.

A pool is a `Crew`: every member is in its place, and whoever can go on has been called or is due. A
sweep keeps a crew (`sweep_spec`), because the turn of one member leaves the others alone. Between
the steps nobody outside of the crew uses the limiter (`Running`), so the calls are for members.

**The end.** The load of the agenda and the budgets of the members together get smaller with every
step, so that the steps of a pool are enough (`runSteps_spec`). When nobody is called and no alarm
is set, nobody waits: a ticket that waits would wait for a slot that somebody holds, and whoever
holds one would be waiting for the answer to a call (`Running.over_of_still`).
-/

namespace TagWatch

open Limit (Limiter Ticket Agenda)
open FetchProgram (Rest)

variable {σ : Type} {service : Service σ} {s : Limiter} {w w' w'' : World σ} {n : Nat}
  {ns : List Nat} {j : Job} {js : List Job} {due due' : List Ticket} {picked : Job → Bool}

/-! ## The calls of a fetch -/

/-- A fetch stays in its place when the agenda changes and neither its calls nor its alarms are
lost. -/
theorem Placed.onAgenda {g : Agenda → Agenda} (h : Placed s due n j)
    (hnow : s.agenda.now ≤ (g s.agenda).now)
    (halarms : ∀ time, (time, j.ticket) ∈ s.agenda.alarms →
      (time, j.ticket) ∈ (g s.agenda).alarms ∨
        time ≤ (g s.agenda).now ∧ j.ticket ∈ (g s.agenda).called)
    (hcalled : j.ticket ∈ s.agenda.called ∨ j.ticket ∈ due →
      j.ticket ∈ (g s.agenda).called ∨ j.ticket ∈ due') :
    Placed (s.onAgenda g) due' n j := by
  cases h with
  | ready rest unused heard => exact .ready rest unused (hcalled heard)
  | queued rest waits => exact @Placed.queued (s.onAgenda g) due' _ _ _ _ _ rest waits
  | calling rest holds heard =>
    refine .calling rest holds ?_
    rcases heard with hmem | ⟨hle, hheard⟩
    · exact (halarms _ hmem).imp_right fun h => ⟨h.1, .inl h.2⟩
    · exact .inr ⟨Nat.le_trans hle hnow, hcalled hheard⟩
  | ended done => exact .ended done

/-- Who is due matters only for the fetches that are. -/
theorem Placed.of_due (h : Placed s due n j) (hdue : j.ticket ∈ due → j.ticket ∈ due') :
    Placed s due' n j :=
  @Placed.onAgenda _ _ _ _ _ id h (Nat.le_refl _) (fun _ => .inl) (Or.imp_right hdue)

/-! ## Crews -/

/-- The tickets of some fetches. -/
def tickets (js : List Job) : List Ticket := js.map (·.ticket)

/-- Fetches in their places, where nobody who can go on is forgotten. -/
structure Crew (s : Limiter) (due : List Ticket) (ns : List Nat) (js : List Job) : Prop where
  healthy : s.Healthy
  attentive : s.Attentive due
  placed : List.Forall₂ (Placed s due) ns js
  tickets : (tickets js).Nodup

/-- A ticket that nobody uses and that is not given out again. -/
def World.Past (w : World σ) (u : Ticket) : Prop :=
  w.limiter.Done u ∧ (u ∈ w.limiter.granted → u < w.nextTicket)

/-- A change of a world that leaves alone all fetches but some. -/
structure World.Leaves (w w' : World σ) (ts : List Ticket) : Prop where
  placed : ∀ {n j}, Placed w.limiter [] n j → j.ticket ∉ ts → Placed w'.limiter [] n j
  past : ∀ u ∉ ts, w.Past u → w'.Past u
  nextTicket : w'.nextTicket = w.nextTicket

theorem World.Leaves.refl (w : World σ) (ts : List Ticket) : World.Leaves w w ts :=
  ⟨fun h _ => h, fun _ _ => id, rfl⟩

/-- One fetch goes on, and then some others do. -/
theorem World.Leaves.cons {t : Ticket} {ts : List Ticket}
    (h : Limiter.Concerns w.limiter w'.limiter t) (hnext : w'.nextTicket = w.nextTicket)
    (h' : World.Leaves w' w'' ts) : World.Leaves w w'' (t :: ts) where
  placed hp ht := by
    rw [List.mem_cons, not_or] at ht
    exact h'.placed (hp.concerns h ht.1 fun _ _ => id) ht.2
  past u hu hpast := by
    rw [List.mem_cons, not_or] at hu
    refine h'.past u hu.2 ⟨h.done hu.1 hpast.1, fun hg => ?_⟩
    rw [hnext]
    exact hpast.2 ((h.granted u hu.1).mp hg)
  nextTicket := h'.nextTicket.trans hnext

/-! ## Sweeps -/

/-- The tickets of the fetches that a test picks. -/
def picks (picked : Job → Bool) (js : List Job) : List Ticket := tickets (js.filter picked)

theorem picks_cons_of_pos (h : picked j = true) :
    picks picked (j :: js) = j.ticket :: picks picked js := by
  rw [picks, List.filter_cons_of_pos h]
  rfl

theorem picks_cons_of_neg (h : ¬ picked j = true) : picks picked (j :: js) = picks picked js := by
  rw [picks, List.filter_cons_of_neg h]
  rfl

theorem mem_tickets_of_mem_picks {u : Ticket} (h : u ∈ picks picked js) : u ∈ tickets js :=
  List.map_subset _ (List.filter_subset_self js) h

/-- What the first fetch of a sweep does, which is nothing if it is not picked. -/
structure Begun (w : World σ) (due : List Ticket) (n : Nat) (ns : List Nat) (j : Job)
    (js : List Job) (n' : Nat) (o : Job × World σ) : Prop where
  ticket : o.1.ticket = j.ticket
  placed : Placed o.2.limiter [] n' o.1
  load : o.2.limiter.agenda.load + n' ≤ w.limiter.agenda.load + n
  concerns : Limiter.Concerns w.limiter o.2.limiter j.ticket
  nextTicket : o.2.nextTicket = w.nextTicket
  crew : Crew o.2.limiter due ns js

theorem exists_begun (service : Service σ)
    (h : Crew w.limiter (picks picked (j :: js)) (n :: ns) (j :: js)) :
    ∃ n', Begun w (picks picked js) n ns j js n'
      (if picked j then j.turn service w else (j, w)) := by
  obtain ⟨hj, hjs⟩ := List.forall₂_cons.mp h.placed
  obtain ⟨hticket, htickets⟩ := List.nodup_cons.mp h.tickets
  have hnot : j.ticket ∉ picks picked js := fun hmem => hticket (mem_tickets_of_mem_picks hmem)
  by_cases hp : picked j = true
  · rw [if_pos hp]
    rw [picks_cons_of_pos hp] at hj hjs
    have hwent := hj.turn service h.healthy
    obtain ⟨n', hplaced, hload⟩ := hwent.placed
    refine ⟨n', hwent.ticket, hplaced [], hload, hwent.concerns, hwent.nextTicket, hwent.healthy,
      ?_, ?_, htickets⟩
    · exact (picks_cons_of_pos hp ▸ h.attentive).concerns hwent.concerns hwent.stuck
    · refine forall₂_imp_mem hjs fun n₂ _ j₂ hj₂ hs => ?_
      have htne : j₂.ticket ≠ j.ticket := fun he => hticket (List.mem_map.mpr ⟨j₂, hj₂, he⟩)
      exact hs.concerns hwent.concerns htne fun u hu => List.mem_of_ne_of_mem hu
  · rw [if_neg hp]
    rw [picks_cons_of_neg hp] at hj hjs
    refine ⟨n, rfl, hj.of_due fun hmem => absurd hmem hnot, Nat.le_refl _,
      .refl w.limiter j.ticket, rfl, h.healthy, picks_cons_of_neg hp ▸ h.attentive, hjs, htickets⟩

/-- What a sweep does to a crew. -/
structure Swept (w : World σ) (ns : List Nat) (js : List Job) (ns' : List Nat)
    (o : List Job × World σ) : Prop where
  crew : Crew o.2.limiter [] ns' o.1
  load : o.2.limiter.agenda.load + ns'.sum ≤ w.limiter.agenda.load + ns.sum
  leaves : World.Leaves w o.2 (tickets js)
  tickets : tickets o.1 = tickets js

theorem sweep_cons (w : World σ) :
    Pool.sweep service picked (j :: js) w =
      let o := if picked j then j.turn service w else (j, w)
      (o.1 :: (Pool.sweep service picked js o.2).1, (Pool.sweep service picked js o.2).2) := rfl

theorem sweep_spec (service : Service σ) (h : Crew w.limiter (picks picked js) ns js) :
    ∃ ns', Swept w ns js ns' (Pool.sweep service picked js w) := by
  induction js generalizing ns w with
  | nil =>
    cases h.placed
    exact ⟨[], h, Nat.le_refl _, .refl w [], rfl⟩
  | cons j js ih =>
    cases ns with
    | nil => exact absurd h.placed.length_eq (Nat.succ_ne_zero _).symm
    | cons n ns =>
      obtain ⟨hticket, -⟩ := List.nodup_cons.mp h.tickets
      obtain ⟨n', hb⟩ := exists_begun service h
      obtain ⟨ns', hs⟩ := ih hb.crew
      rw [sweep_cons]
      generalize (if picked j then j.turn service w else (j, w)) = o at hb hs ⊢
      have htickets := congrArg₂ List.cons hb.ticket hs.tickets
      refine ⟨n' :: ns', ⟨hs.crew.healthy, hs.crew.attentive, .cons ?_ hs.crew.placed, ?_⟩, ?_,
        .cons hb.concerns hb.nextTicket hs.leaves, htickets⟩
      · exact hs.leaves.placed hb.placed (hb.ticket ▸ hticket)
      · exact Eq.subst (motive := List.Nodup) htickets.symm h.tickets
      · have hfirst := hb.load
        have hrest := hs.load
        rw [List.sum_cons, List.sum_cons]
        dsimp only
        omega

/-! ## Running pools -/

/-- A crew between the steps of its pool: whoever can go on has been called, and nobody else uses
the limiter. -/
structure Running (w : World σ) (ns : List Nat) (js : List Job) : Prop where
  crew : Crew w.limiter [] ns js
  past : ∀ u ∉ tickets js, w.Past u
  before : ∀ u ∈ tickets js, u < w.nextTicket

/-- Whoever can go on is in the crew. -/
theorem Running.mem_tickets {r : String} {u : Ticket} (h : Running w ns js)
    (hgo : w.limiter.CanGo r u) : u ∈ tickets js := by
  refine Classical.not_not.mp fun hu => ?_
  exact (h.past u hu).1.1 r hgo.mem_tickets

/-- A pool has gone on, and the load and the budgets together have become smaller. -/
structure Stepped (w : World σ) (ns : List Nat) (js : List Job) (ns' : List Nat)
    (o : List Job × World σ) : Prop where
  running : Running o.2 ns' o.1
  load : o.2.limiter.agenda.load + ns'.sum < w.limiter.agenda.load + ns.sum
  nextTicket : o.2.nextTicket = w.nextTicket

/-- Some calls are dropped, and whoever they were for is due to get a turn. -/
theorem Running.dropCalls {called : List Ticket} (h : Running w ns js)
    (hcalled : ∀ u ∈ w.limiter.agenda.called, u ∈ tickets js → u ∈ called ∨ u ∈ picks picked js) :
    Crew (w.withCalled called).limiter (picks picked js) ns js := by
  refine ⟨h.crew.healthy.onAgenda (fun a => { a with called := called }) rfl fun _ => id, ?_, ?_,
    h.crew.tickets⟩
  · refine h.crew.attentive.onAgenda (fun a => { a with called := called }) rfl ?_
    exact fun r u hgo hheard =>
      hcalled u (hheard.resolve_right List.not_mem_nil) (h.mem_tickets hgo)
  · refine forall₂_imp_mem h.crew.placed fun n _ j hj hp => ?_
    refine hp.onAgenda (g := fun a => { a with called := called }) (Nat.le_refl _) (fun _ => .inl)
      fun hheard => ?_
    exact hcalled _ (hheard.resolve_right List.not_mem_nil) (List.mem_map_of_mem hj)

/-- A sweep in which everybody gets a turn whose call is dropped. -/
theorem Running.sweep {called : List Ticket} (h : Running w ns js) (service : Service σ)
    (hcalled : ∀ u ∈ w.limiter.agenda.called, u ∈ tickets js → u ∈ called ∨ u ∈ picks picked js)
    (hlen : called.length < w.limiter.agenda.called.length) :
    ∃ ns', Stepped w ns js ns' (Pool.sweep service picked js (w.withCalled called)) := by
  have hload : (w.withCalled called).limiter.agenda.load < w.limiter.agenda.load :=
    Nat.add_lt_add_right hlen _
  obtain ⟨ns', hs⟩ := sweep_spec service (h.dropCalls hcalled)
  refine ⟨ns', ⟨hs.crew, fun u hu => ?_, fun u hu => ?_⟩, ?_, hs.leaves.nextTicket⟩
  · rw [hs.tickets] at hu
    exact hs.leaves.past u hu (h.past u hu)
  · rw [hs.tickets] at hu
    rw [hs.leaves.nextTicket]
    exact h.before u hu
  · exact Nat.lt_of_le_of_lt hs.load (Nat.add_lt_add_right hload _)

/-- Time passes until an alarm. -/
theorem Running.sleepUntil {time : Nat} {t : Ticket} (h : Running w ns js)
    (halarm : (time, t) ∈ w.limiter.agenda.alarms) :
    Stepped w ns js ns (js, w.onLimiter (·.sleepUntil time)) := by
  have hload : (w.onLimiter (·.sleepUntil time)).limiter.agenda.load < w.limiter.agenda.load :=
    Agenda.load_sleepUntil halarm
  have hnow : (w.limiter.agenda.sleepUntil time).now = max w.limiter.agenda.now time :=
    Limiter.now_sleepUntil w.limiter time
  have hplaced {n : Nat} {j : Job} (hp : Placed w.limiter [] n j) :
      Placed (w.limiter.sleepUntil time) [] n j := by
    refine hp.onAgenda (g := (·.sleepUntil time)) ?_ (fun time' hmem => ?_) ?_
    · rw [hnow]
      exact Nat.le_max_left _ _
    · rw [hnow, Agenda.mem_alarms_sleepUntil, Agenda.mem_called_sleepUntil]
      rcases Nat.lt_or_ge (max w.limiter.agenda.now time) time' with hlt | hle
      · exact .inl ⟨hmem, hlt⟩
      · exact .inr ⟨hle, .inr ⟨time', hmem, hle⟩⟩
    · rw [Agenda.mem_called_sleepUntil]
      exact Or.imp_left .inl
  have hcrew : Crew (w.limiter.sleepUntil time) [] ns js :=
    ⟨h.crew.healthy.sleepUntil time, h.crew.attentive.sleepUntil h.crew.healthy.alarmed time,
      h.crew.placed.imp fun _ _ => hplaced, h.crew.tickets⟩
  exact ⟨⟨hcrew, h.past, h.before⟩, Nat.add_lt_add_right hload _, rfl⟩

/-- What the next step of a pool is. Nobody is called and no alarm is set, or time passes until an
alarm, or some get a turn whose calls are dropped. -/
theorem runSteps_succ_cases (service : Service σ) (inRounds : Bool) (fuel : Nat) (js : List Job)
    (w : World σ) :
    (w.limiter.agenda.called = [] ∧ w.limiter.agenda.alarms = [] ∧
      Pool.runSteps service inRounds (fuel + 1) js w = (js, w)) ∨
    (∃ time t, (time, t) ∈ w.limiter.agenda.alarms ∧
      Pool.runSteps service inRounds (fuel + 1) js w =
        Pool.runSteps service inRounds fuel js (w.onLimiter (·.sleepUntil time))) ∨
    ∃ picked called,
      (∀ u ∈ w.limiter.agenda.called, u ∈ tickets js → u ∈ called ∨ u ∈ picks picked js) ∧
      called.length < w.limiter.agenda.called.length ∧
      Pool.runSteps service inRounds (fuel + 1) js w =
        let o := Pool.sweep service picked js (w.withCalled called)
        Pool.runSteps service inRounds fuel o.1 o.2 := by
  cases hcalled : w.limiter.agenda.called with
  | cons first rest =>
    refine .inr (.inr ?_)
    cases inRounds with
    | true =>
      have hall : picks (fun _ => true) js = tickets js := congrArg tickets (List.filter_true js)
      refine ⟨fun _ => true, [], fun u _ hu => .inr (hall ▸ hu), Nat.succ_pos _, ?_⟩
      simp only [Pool.runSteps, hcalled, if_true]
    | false =>
      refine ⟨(·.ticket == first), rest, fun u hmem hu => ?_, Nat.lt_succ_self _, ?_⟩
      · refine (List.mem_cons.mp hmem).symm.imp_right fun he => ?_
        obtain ⟨j, hj, rfl⟩ := List.mem_map.mp hu
        exact List.mem_map_of_mem (List.mem_filter.mpr ⟨hj, beq_iff_eq.mpr he⟩)
      · simp [Pool.runSteps, hcalled]
  | nil =>
    cases halarm : w.limiter.nextAlarm? with
    | some time =>
      have hmem : time ∈ w.limiter.agenda.alarms.map (·.1) := List.min?_mem halarm
      obtain ⟨⟨time, t⟩, hentry, rfl⟩ := List.mem_map.mp hmem
      refine .inr (.inl ⟨time, t, hentry, ?_⟩)
      simp only [Pool.runSteps, hcalled, halarm]
    | none =>
      have hnone : w.limiter.agenda.alarms = [] :=
        List.map_eq_nil_iff.mp (List.min?_eq_none_iff.mp halarm)
      refine .inl ⟨rfl, hnone, ?_⟩
      simp only [Pool.runSteps, hcalled, halarm]

/-- One step of a pool, unless nobody is called and no alarm is set. -/
theorem Running.step (h : Running w ns js) (service : Service σ) (inRounds : Bool) (fuel : Nat) :
    (w.limiter.agenda.called = [] ∧ w.limiter.agenda.alarms = [] ∧
      Pool.runSteps service inRounds (fuel + 1) js w = (js, w)) ∨
    ∃ ns' o, Stepped w ns js ns' o ∧
      Pool.runSteps service inRounds (fuel + 1) js w =
        Pool.runSteps service inRounds fuel o.1 o.2 := by
  rcases runSteps_succ_cases service inRounds fuel js w with
    hstill | ⟨time, t, halarm, he⟩ | ⟨picked, called, hcover, hlen, he⟩
  · exact .inl hstill
  · exact .inr ⟨ns, _, h.sleepUntil halarm, he⟩
  · obtain ⟨ns', hs⟩ := h.sweep service hcover hlen
    exact .inr ⟨ns', _, hs, he⟩

/-- What a pool leaves behind when nobody is called any more and no alarm is set. -/
structure Ended (w : World σ) (ns : List Nat) (o : List Job × World σ) : Prop where
  running : Running o.2 ns o.1
  nextTicket : o.2.nextTicket = w.nextTicket
  called : o.2.limiter.agenda.called = []
  alarms : o.2.limiter.agenda.alarms = []

/-- Every step costs some of the load and the budgets, so that as many steps as there is of them
are enough. -/
theorem runSteps_spec (service : Service σ) (inRounds : Bool) (fuel : Nat) (h : Running w ns js)
    (hfuel : w.limiter.agenda.load + ns.sum < fuel) :
    ∃ ns', Ended w ns' (Pool.runSteps service inRounds fuel js w) := by
  induction fuel generalizing w ns js with
  | zero => exact absurd hfuel (Nat.not_lt_zero _)
  | succ fuel ih =>
    rcases h.step service inRounds fuel with ⟨hcalled, halarms, he⟩ | ⟨ns', o, hs, he⟩
    · rw [he]
      exact ⟨ns, h, rfl, hcalled, halarms⟩
    · have hlt := hs.load
      obtain ⟨ns'', hend⟩ := ih hs.running (by omega)
      rw [he]
      exact ⟨ns'', hend.running, hend.nextTicket.trans hs.nextTicket, hend.called, hend.alarms⟩

/-! ## The end of a pool -/

/-- When nobody is called and no alarm is set, a fetch waits for its permit or is over. -/
theorem Placed.of_still (h : Placed s [] n j) (hcalled : s.agenda.called = [])
    (halarms : s.agenda.alarms = []) :
    (∃ r, j.ticket ∈ (s.lane r).tickets) ∨ s.Done j.ticket ∧ j.response?.isSome := by
  cases h with
  | ready rest unused heard =>
    rw [hcalled] at heard
    exact absurd heard (by simp)
  | queued rest waits => exact .inl ⟨_, waits⟩
  | calling rest holds heard =>
    rw [hcalled, halarms] at heard
    exact absurd heard (by simp)
  | ended done => exact .inr ⟨done, rfl⟩

theorem Running.of_still (h : Running w ns js) (hcalled : w.limiter.agenda.called = [])
    (halarms : w.limiter.agenda.alarms = []) (hj : j ∈ js) :
    (∃ r, j.ticket ∈ (w.limiter.lane r).tickets) ∨
      w.limiter.Done j.ticket ∧ j.response?.isSome := by
  obtain ⟨i, hi, rfl⟩ := List.getElem_of_mem hj
  have hp := (List.forall₂_iff_get.mp h.crew.placed).2 i (h.crew.placed.length_eq ▸ hi) hi
  exact hp.of_still hcalled halarms

/-- When nobody is called and no alarm is set, no permit is held: whoever held one would be waiting
for an answer. -/
theorem Running.held_of_still (h : Running w ns js) (hcalled : w.limiter.agenda.called = [])
    (halarms : w.limiter.agenda.alarms = []) : w.limiter.held = [] := by
  refine List.eq_nil_iff_forall_not_mem.mpr fun ⟨u, r⟩ hheld => ?_
  by_cases hu : u ∈ tickets js
  · obtain ⟨j, hj, rfl⟩ := List.mem_map.mp hu
    rcases h.of_still hcalled halarms hj with ⟨r', hwaits⟩ | ⟨hdone, -⟩
    · exact h.crew.healthy.orderly.not_held_of_mem_tickets hwaits hheld
    · exact hdone.2 r hheld
  · exact (h.past u hu).1.2 r hheld

/-- When nobody is called and no alarm is set, nobody waits: nothing that a ticket could wait for is
taken. -/
theorem Running.idle_of_still (h : Running w ns js) (hcalled : w.limiter.agenda.called = [])
    (halarms : w.limiter.agenda.alarms = []) (t : Ticket) : w.limiter.Idle t := by
  intro r hwaits
  have hheld := h.held_of_still hcalled halarms
  have hstuck (r : String) (u : Ticket) : ¬ w.limiter.CanGo r u := fun hgo => by
    have hu := h.crew.attentive r u hgo
    rw [hcalled] at hu
    exact absurd hu (by simp)
  obtain ⟨globalConcurrency, hb⟩ := h.crew.healthy.balanced
  rcases Limiter.blocked_reason hb h.crew.healthy.lined hstuck hwaits with
    hlane | ⟨u, wakeAt, waited, hasleep, hlt⟩ | hpool
  · rw [Limiter.heldIn, hheld, Limit.Lane.capacity, List.countP_nil] at hlane
    omega
  · rcases h.crew.healthy.alarmed r u wakeAt waited hasleep with hmem | hle
    · exact List.not_mem_nil (halarms ▸ hmem)
    · exact Nat.not_le_of_lt hlt hle
  · rw [hheld, List.length_nil, Limiter.globalSlots] at hpool
    omega

/-- When nobody is called and no alarm is set, every fetch is over. -/
theorem Running.over_of_still (h : Running w ns js) (hcalled : w.limiter.agenda.called = [])
    (halarms : w.limiter.agenda.alarms = []) (hj : j ∈ js) : j.response?.isSome := by
  rcases h.of_still hcalled halarms hj with ⟨r, hwaits⟩ | ⟨-, hover⟩
  · exact absurd hwaits (h.idle_of_still hcalled halarms j.ticket r)
  · exact hover

/-! ## Whole pools -/

/-- A world in which nobody uses the limiter. -/
structure World.Rested (w : World σ) : Prop where
  healthy : w.limiter.Healthy
  called : w.limiter.agenda.called = []
  alarms : w.limiter.agenda.alarms = []
  past : ∀ u, w.Past u

theorem World.rested_fresh (rates : Rates) (globalConcurrency : Nat) (s : σ) :
    (World.fresh (.fresh rates globalConcurrency) s).Rested where
  healthy := Limiter.healthy_fresh rates globalConcurrency
  called := rfl
  alarms := rfl
  past u := ⟨⟨Limiter.idle_fresh rates globalConcurrency u, fun _ => List.not_mem_nil⟩,
    fun h => absurd h List.not_mem_nil⟩

/-- A world stays at rest when what it keeps changes. -/
theorem World.Rested.withContext (h : w.Rested) (context : Context) :
    World.Rested { w with context := context } :=
  ⟨h.healthy, h.called, h.alarms, h.past⟩

theorem tickets_jobs (first : Ticket) (programs : List (FetchProgram FetchResponse)) :
    tickets (Pool.jobs first programs) = List.range' first programs.length := by
  induction programs generalizing first with
  | nil => rfl
  | cons program programs ih => exact congrArg (first :: ·) (ih (first + 1))

/-- A program keeps to the protocol of a fetch, for some key. -/
def FetchProgram.IsFetch (program : FetchProgram FetchResponse) : Prop :=
  ∃ key inRun, Rest key inRun program (.start inRun) budget

theorem FetchProgram.isFetch_fetch (settings : FetchSettings) (inRun : Bool) (r : FetchRequest) :
    (fetch settings inRun r).IsFetch :=
  ⟨r.key, inRun, rest_fetch inRun⟩

/-- At the beginning of a pool every fetch is in its place. -/
theorem placed_jobs {programs : List (FetchProgram FetchResponse)} (first : Ticket)
    (hfetches : ∀ program ∈ programs, program.IsFetch)
    (htickets : ∀ u ∈ tickets (Pool.jobs first programs), s.Unused u ∧ u ∈ s.agenda.called) :
    List.Forall₂ (Placed s []) (List.replicate programs.length FetchProgram.budget)
      (Pool.jobs first programs) := by
  induction programs generalizing first with
  | nil => exact .nil
  | cons program programs ih =>
    obtain ⟨key, inRun, hrest⟩ := hfetches program List.mem_cons_self
    obtain ⟨hunused, hcalled⟩ := htickets first List.mem_cons_self
    refine .cons (.ready hrest hunused (.inl hcalled)) ?_
    exact ih (first + 1) (fun p hp => hfetches p (List.mem_cons_of_mem _ hp)) fun u hu =>
      htickets u (List.mem_cons_of_mem _ hu)

/-- The world in which the fetches of a pool begin. -/
def World.opened (w : World σ) (programs : List (FetchProgram FetchResponse)) : World σ :=
  { w with nextTicket := w.nextTicket + programs.length }.withCalled
    (tickets (Pool.jobs w.nextTicket programs))

/-- The beginning of a pool. -/
theorem running_jobs {programs : List (FetchProgram FetchResponse)} (hr : w.Rested)
    (hfetches : ∀ program ∈ programs, program.IsFetch) :
    Running (w.opened programs) (List.replicate programs.length FetchProgram.budget)
      (Pool.jobs w.nextTicket programs) := by
  have htickets := tickets_jobs w.nextTicket programs
  have hmem {u : Ticket} : u ∈ tickets (Pool.jobs w.nextTicket programs) ↔
      w.nextTicket ≤ u ∧ u < w.nextTicket + programs.length := by
    rw [htickets, List.mem_range'_1]
  refine ⟨⟨?_, fun r u hgo => ?_, ?_, ?_⟩, fun u hu => ?_, fun u hu => (hmem.mp hu).2⟩
  · exact hr.healthy.onAgenda (fun a => { a with called := _ }) rfl fun _ => id
  · exact absurd hgo.mem_tickets ((hr.past u).1.1 r)
  · refine placed_jobs w.nextTicket hfetches fun u hu => ⟨⟨(hr.past u).1.1, fun hg => ?_⟩, hu⟩
    exact Nat.not_le_of_lt ((hr.past u).2 hg) (hmem.mp hu).1
  · rw [htickets]
    exact List.nodup_range'
  · exact ⟨(hr.past u).1, fun hg => Nat.lt_add_right _ ((hr.past u).2 hg)⟩

theorem run_eq (service : Service σ) (programs : List (FetchProgram FetchResponse)) (w : World σ) :
    Pool.run service programs w =
      let o := Pool.runSteps service (programs.length ≤ Pool.roundLimit)
        (Pool.steps programs.length) (Pool.jobs w.nextTicket programs) (w.opened programs)
      (o.1.map Job.response?, o.2) := by
  rw [Pool.run]
  generalize Pool.steps programs.length = fuel
  rfl

/-- **Fetches side by side come to an end.** In a world at rest all of them get an outcome, whatever
the service does, and the world is at rest again. -/
theorem Pool.run_rested {programs : List (FetchProgram FetchResponse)} (service : Service σ)
    (hr : w.Rested)
    (hfetches : ∀ program ∈ programs, program.IsFetch) :
    let o := Pool.run service programs w
    (∀ outcome ∈ o.1, outcome.isSome) ∧ o.2.Rested ∧
      o.2.nextTicket = w.nextTicket + programs.length := by
  have hrun := running_jobs hr hfetches
  have hfuel : (w.opened programs).limiter.agenda.load +
      (List.replicate programs.length FetchProgram.budget).sum < Pool.steps programs.length := by
    have hlen : (tickets (Pool.jobs w.nextTicket programs)).length = programs.length := by
      rw [tickets_jobs, List.length_range']
    show (tickets (Pool.jobs w.nextTicket programs)).length +
      2 * w.limiter.agenda.alarms.length + _ < _
    rw [hlen, hr.alarms, List.sum_replicate_nat, FetchProgram.budget, Pool.steps, List.length_nil]
    omega
  obtain ⟨ns, hend⟩ := runSteps_spec service (programs.length ≤ Pool.roundLimit)
    (Pool.steps programs.length) hrun hfuel
  rw [run_eq]
  generalize Pool.runSteps service (programs.length ≤ Pool.roundLimit) (Pool.steps programs.length)
    (Pool.jobs w.nextTicket programs) (w.opened programs) = o at hend ⊢
  have hidle := hend.running.idle_of_still hend.called hend.alarms
  have hheld := hend.running.held_of_still hend.called hend.alarms
  refine ⟨fun outcome houtcome => ?_,
    ⟨hend.running.crew.healthy, hend.called, hend.alarms, fun u => ?_⟩, hend.nextTicket⟩
  · obtain ⟨j, hj, rfl⟩ := List.mem_map.mp houtcome
    exact hend.running.over_of_still hend.called hend.alarms hj
  · by_cases hu : u ∈ tickets o.1
    · exact ⟨⟨hidle u, fun r h => List.not_mem_nil (hheld ▸ h)⟩, fun _ => hend.running.before u hu⟩
    · exact hend.running.past u hu

end TagWatch
