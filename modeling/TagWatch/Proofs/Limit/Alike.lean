import Mathlib.Data.List.Forall2
import TagWatch.Proofs.Limit.Brisk

/-!
# Nothing depends on the counters

Two limiters are *alike* (`Limiter.Alike`) if they differ in nothing but their counters.

**Theorem (`Workload.Alike.perform`).** Whatever is done to two workloads that are alike, they stay
alike, and their users are told the same (`Workload.Alike.acquire`, `Workload.Alike.status`).

So it makes no difference to anything but the counters when these are reset: a run leads to limiters
that are alike, whichever resets are inserted into it (`Limiter.alike_run`), and so do the operations
of users (`Workload.alike_run`). No condition of a move reads a counter, so that alike lanes go the
same way through every definition.
-/

namespace TagWatch.Limit

/-! ## Lanes -/

/-- Two lanes differ in their counters at most. -/
structure Lane.Alike (l l' : Lane) : Prop where
  rate : l.rate = l'.rate
  slots : l.slots = l'.slots
  seated : l.seated = l'.seated
  admitting : l.admitting = l'.admitting
  recent : l.recent = l'.recent

namespace Lane

variable {l l' l'' : Lane} {t : Ticket} {now : Nat}

theorem Alike.refl (l : Lane) : l.Alike l := ⟨rfl, rfl, rfl, rfl, rfl⟩

theorem Alike.symm (h : l.Alike l') : l'.Alike l :=
  ⟨h.rate.symm, h.slots.symm, h.seated.symm, h.admitting.symm, h.recent.symm⟩

theorem Alike.trans (h : l.Alike l') (h' : l'.Alike l'') : l.Alike l'' :=
  ⟨h.rate.trans h'.rate, h.slots.trans h'.slots, h.seated.trans h'.seated,
    h.admitting.trans h'.admitting, h.recent.trans h'.recent⟩

theorem Alike.resetCounters (l : Lane) : l.Alike l.resetCounters := ⟨rfl, rfl, rfl, rfl, rfl⟩

/-- Lanes that are alike are one lane with other counters. -/
theorem Alike.exists_counters (h : l.Alike l') :
    ∃ requests waits, l' = { l with totalRequests := requests, waitCount := waits } := by
  refine ⟨l'.totalRequests, l'.waitCount, ?_⟩
  rw [h.rate, h.slots, h.seated, h.admitting, h.recent]

theorem Alike.ask (h : l.Alike l') (t : Ticket) : (l.ask t).Alike (l'.ask t) :=
  { h with slots := congrArg (·.join t) h.slots }

theorem Alike.seat (h : l.Alike l') (t : Ticket) : (l.seat t).Alike (l'.seat t) := by
  obtain ⟨requests, waits, rfl⟩ := h.exists_counters
  unfold Lane.seat
  dsimp only
  split <;> exact ⟨rfl, rfl, rfl, rfl, rfl⟩

theorem Alike.enter (h : l.Alike l') (t : Ticket) : (l.enter t).Alike (l'.enter t) := by
  obtain ⟨requests, waits, rfl⟩ := h.exists_counters
  unfold Lane.enter
  dsimp only
  split
  · split <;> exact ⟨rfl, rfl, rfl, rfl, rfl⟩
  · exact ⟨rfl, rfl, rfl, rfl, rfl⟩

theorem Alike.wake (h : l.Alike l') (now : Nat) (t : Ticket) :
    (l.wake now t).Alike (l'.wake now t) := by
  obtain ⟨requests, waits, rfl⟩ := h.exists_counters
  unfold Lane.wake
  dsimp only
  split
  · split <;> exact ⟨rfl, rfl, rfl, rfl, rfl⟩
  · exact ⟨rfl, rfl, rfl, rfl, rfl⟩

theorem Alike.look (h : l.Alike l') (now : Nat) : (l.look now).Alike (l'.look now) := by
  obtain ⟨requests, waits, rfl⟩ := h.exists_counters
  unfold Lane.look
  dsimp only
  split
  · split
    · exact ⟨rfl, rfl, rfl, rfl, rfl⟩
    · split <;> exact ⟨rfl, rfl, rfl, rfl, rfl⟩
  · exact ⟨rfl, rfl, rfl, rfl, rfl⟩

theorem Alike.grantAt (h : l.Alike l') (now : Nat) : (l.grantAt now).Alike (l'.grantAt now) :=
  { h with admitting := rfl, recent := congrArg (prune now · ++ [now]) h.recent }

theorem Alike.returnSlot (h : l.Alike l') : l.returnSlot.Alike l'.returnSlot :=
  { h with slots := congrArg Gate.restore h.slots }

theorem Alike.holds (h : l.Alike l') (t : Ticket) : l.holds t = l'.holds t := by
  obtain ⟨requests, waits, rfl⟩ := h.exists_counters
  rfl

theorem Alike.heirs (h : l.Alike l') (t : Ticket) : l.heirs t = l'.heirs t := by
  obtain ⟨requests, waits, rfl⟩ := h.exists_counters
  rfl

theorem Alike.isAt (h : l.Alike l') (t : Ticket) (stage : Stage) :
    l.isAt t stage = l'.isAt t stage := by
  obtain ⟨requests, waits, rfl⟩ := h.exists_counters
  rfl

theorem Alike.cancel (h : l.Alike l') (t : Ticket) : (l.cancel t).Alike (l'.cancel t) := by
  obtain ⟨requests, waits, rfl⟩ := h.exists_counters
  have hadmitting : isAdmitting { l with totalRequests := requests, waitCount := waits } t =
      l.isAdmitting t := rfl
  unfold Lane.cancel
  rw [hadmitting]
  dsimp only
  split
  · exact ⟨rfl, rfl, rfl, rfl, rfl⟩
  · split
    · exact ⟨rfl, rfl, rfl, rfl, rfl⟩
    · split <;> exact ⟨rfl, rfl, rfl, rfl, rfl⟩

end Lane

/-! ## Limiters -/

/-- Entries of the same registry whose lanes differ in their counters at most. -/
def AlikeEntry (e e' : String × Lane) : Prop := e.1 = e'.1 ∧ e.2.Alike e'.2

/-- Two limiters differ in their counters at most. -/
structure Limiter.Alike (s s' : Limiter) : Prop where
  rates : s.rates = s'.rates
  agenda : s.agenda = s'.agenda
  lanes : List.Forall₂ AlikeEntry s.lanes.entries s'.lanes.entries
  pool : s.pool = s'.pool
  held : s.held = s'.held
  grants : s.grants = s'.grants

section AlikeEntry

variable {es es' es'' : List (String × Lane)} {l l' : Lane}

theorem AlikeEntry.trans (h : List.Forall₂ AlikeEntry es es')
    (h' : List.Forall₂ AlikeEntry es' es'') : List.Forall₂ AlikeEntry es es'' := by
  induction h generalizing es'' with
  | nil => exact h'
  | cons he _ ih =>
    cases h' with
    | cons he' hrest => exact .cons ⟨he.1.trans he'.1, he.2.trans he'.2⟩ (ih hrest)

theorem AlikeEntry.put (h : List.Forall₂ AlikeEntry es es') (r : String) (hl : l.Alike l') :
    List.Forall₂ AlikeEntry (Table.put r l es) (Table.put r l' es') := by
  induction h with
  | nil => exact .cons ⟨rfl, hl⟩ .nil
  | @cons e e' es es' he hrest ih =>
    obtain ⟨k, a⟩ := e
    obtain ⟨k', a'⟩ := e'
    obtain ⟨rfl, ha⟩ : k = k' ∧ a.Alike a' := he
    by_cases hk : k = r
    · simpa [Table.put, hk] using ⟨⟨rfl, hl⟩, hrest⟩
    · simpa [Table.put, hk] using ⟨⟨rfl, ha⟩, ih⟩

/-- The lanes that are read under a name are alike. -/
theorem AlikeEntry.find (h : List.Forall₂ AlikeEntry es es') (r : String) :
    ((Table.find r es).getD l).Alike ((Table.find r es').getD l) := by
  induction h with
  | nil => exact .refl l
  | @cons e e' es es' he hrest ih =>
    obtain ⟨k, a⟩ := e
    obtain ⟨k', a'⟩ := e'
    obtain ⟨rfl, ha⟩ : k = k' ∧ a.Alike a' := he
    by_cases hk : k = r
    · simpa [Table.find, hk] using ha
    · simpa [Table.find, hk] using ih

theorem AlikeEntry.find?_holds (h : List.Forall₂ AlikeEntry es es') (t : Ticket) :
    (es.find? fun e => e.2.holds t).map (·.1) = (es'.find? fun e => e.2.holds t).map (·.1) := by
  induction h with
  | nil => rfl
  | @cons e e' es es' he hrest ih =>
    obtain ⟨hk, ha⟩ := he
    rw [List.find?_cons, List.find?_cons, ha.holds]
    cases e'.2.holds t with
    | true => exact congrArg some hk
    | false => exact ih

end AlikeEntry

namespace Limiter

variable {s s' s'' : Limiter} {t : Ticket} {r : String}

theorem Alike.refl (s : Limiter) : s.Alike s :=
  ⟨rfl, rfl, List.forall₂_same.mpr fun e _ => ⟨rfl, .refl e.2⟩, rfl, rfl, rfl⟩

theorem Alike.symm (h : s.Alike s') : s'.Alike s where
  rates := h.rates.symm
  agenda := h.agenda.symm
  lanes := h.lanes.flip.imp fun _ _ he => ⟨he.1.symm, he.2.symm⟩
  pool := h.pool.symm
  held := h.held.symm
  grants := h.grants.symm

theorem Alike.trans (h : s.Alike s') (h' : s'.Alike s'') : s.Alike s'' where
  rates := h.rates.trans h'.rates
  agenda := h.agenda.trans h'.agenda
  lanes := AlikeEntry.trans h.lanes h'.lanes
  pool := h.pool.trans h'.pool
  held := h.held.trans h'.held
  grants := h.grants.trans h'.grants

/-- A reset changes nothing but the counters. -/
theorem Alike.resetMetrics (s : Limiter) : s.Alike s.resetMetrics where
  rates := rfl
  agenda := rfl
  lanes := by
    show List.Forall₂ AlikeEntry s.lanes.entries
      (s.lanes.entries.map fun e => (e.1, e.2.resetCounters))
    rw [List.forall₂_map_right_iff, List.forall₂_same]
    intro e _
    exact ⟨rfl, .resetCounters e.2⟩
  pool := rfl
  held := rfl
  grants := rfl

/-! ## Moves -/

theorem Alike.now (h : s.Alike s') : s.now = s'.now := congrArg Agenda.now h.agenda

theorem Alike.lane (h : s.Alike s') (r : String) : (s.lane r).Alike (s'.lane r) := by
  have hfind := AlikeEntry.find (l := Lane.fresh (s.rates.lookup r)) h.lanes r
  rwa [Limiter.lane, Limiter.lane, ← h.rates]

theorem Alike.setLane (h : s.Alike s') (r : String) {l l' : Lane} (hl : l.Alike l') :
    (s.setLane r l).Alike (s'.setLane r l') :=
  { h with lanes := AlikeEntry.put h.lanes r hl }

theorem Alike.onLane (h : s.Alike s') (r : String) (f : Lane → Lane)
    (hf : (f (s.lane r)).Alike (f (s'.lane r))) : (s.onLane r f).Alike (s'.onLane r f) :=
  h.setLane r hf

theorem Alike.onAgenda (h : s.Alike s') (f : Agenda → Agenda) :
    (s.onAgenda f).Alike (s'.onAgenda f) :=
  { h with agenda := congrArg f h.agenda }

theorem Alike.callAll (h : s.Alike s') (next : List Ticket) :
    s.agenda.callAll next = s'.agenda.callAll next :=
  congrArg (·.callAll next) h.agenda

theorem Alike.registryOf? (h : s.Alike s') (t : Ticket) : s.registryOf? t = s'.registryOf? t :=
  AlikeEntry.find?_holds h.lanes t

theorem Alike.grantOf? (h : s.Alike s') (t : Ticket) : s.grantOf? t = s'.grantOf? t := by
  rw [Limiter.grantOf?, Limiter.grantOf?, h.grants]

theorem Alike.isGranted (h : s.Alike s') (t : Ticket) : s.isGranted t = s'.isGranted t := by
  rw [Limiter.isGranted, Limiter.isGranted, h.grantOf?]

theorem Alike.ask (h : s.Alike s') (t : Ticket) (registry : String) :
    (s.ask t registry).Alike (s'.ask t registry) :=
  h.onLane _ (·.ask t) ((h.lane _).ask t)

theorem Alike.seat (h : s.Alike s') (t : Ticket) (r : String) :
    (s.seat t r).Alike (s'.seat t r) :=
  h.onLane r (·.seat t) ((h.lane r).seat t)

theorem Alike.enter (h : s.Alike s') (t : Ticket) (r : String) :
    (s.enter t r).Alike (s'.enter t r) :=
  h.onLane r (·.enter t) ((h.lane r).enter t)

theorem Alike.wake (h : s.Alike s') (t : Ticket) (r : String) :
    (s.wake t r).Alike (s'.wake t r) := by
  unfold Limiter.wake
  rw [← h.now]
  exact h.onLane r (·.wake s.now t) ((h.lane r).wake s.now t)

theorem Alike.look (h : s.Alike s') (t : Ticket) (r : String) :
    (s.look t r).Alike (s'.look t r) := by
  have hlook := (h.lane r).look s.now
  have hset := h.setLane r hlook
  unfold Limiter.look
  rw [← (h.lane r).isAt, ← h.now]
  split
  · dsimp only
    rw [← hlook.admitting]
    split
    · exact { hset with pool := congrArg (·.join t) h.pool }
    · exact hset.onAgenda _
    · exact hset
  · exact h

theorem Alike.grant (h : s.Alike s') (t : Ticket) (r : String) :
    (s.grant t r).Alike (s'.grant t r) := by
  unfold Limiter.grant
  rw [← (h.lane r).admitting, ← h.pool]
  split
  · next u waited _ =>
    split
    · dsimp only
      rw [← (h.lane r).seated, ← h.now]
      have hlane := h.onLane r (·.grantAt s.now) ((h.lane r).grantAt s.now)
      exact { hlane with
        agenda := h.callAll _
        pool := congrArg (·.pass t) h.pool
        held := congrArg (· ++ [(t, r)]) h.held
        grants := by
          show s.grants ++ [⟨t, r, s.now, waited⟩] = s'.grants ++ [⟨t, r, s'.now, waited⟩]
          rw [h.grants, h.now] }
    · exact h
  · exact h

theorem Alike.turn (h : s.Alike s') (t : Ticket) : (s.turn t).Alike (s'.turn t) := by
  have htake := h.onAgenda (·.take t)
  unfold Limiter.turn
  dsimp only
  rw [← htake.registryOf?]
  split
  · next r _ => exact ((((htake.seat t r).enter t r).wake t r).look t r).grant t r
  · exact htake

theorem Alike.release (h : s.Alike s') (t : Ticket) : (s.release t).Alike (s'.release t) := by
  unfold Limiter.release
  rw [← h.held]
  split
  · next registry _ =>
    dsimp only
    rw [← (h.lane registry).slots, ← h.pool]
    have hlane := h.onLane registry (·.returnSlot) (h.lane registry).returnSlot
    exact { hlane with
      agenda := h.callAll _
      pool := congrArg (·.restore) h.pool
      held := congrArg (List.eraseP (·.1 == t)) h.held }
  · exact h

theorem Alike.withdraw (h : s.Alike s') (t : Ticket) (r : String) :
    (s.withdraw t r).Alike (s'.withdraw t r) := by
  unfold Limiter.withdraw
  dsimp only
  rw [← (h.lane r).heirs, ← h.pool]
  have hlane := h.onLane r (·.cancel t) ((h.lane r).cancel t)
  exact { hlane with
    agenda := (h.onAgenda (·.dismiss t)).callAll _
    pool := congrArg (·.leave t) h.pool }

theorem Alike.abandon (h : s.Alike s') (t : Ticket) : (s.abandon t).Alike (s'.abandon t) := by
  unfold Limiter.abandon
  rw [← h.registryOf?]
  split
  · exact h.withdraw t _
  · exact (h.release t).onAgenda _

/-- **Alike limiters stay alike**, and a reset of one of them is not needed for that. -/
theorem Alike.move (h : s.Alike s') (m : Move) : (s.move m).Alike (s'.move m) := by
  cases m with
  | ask t registry => exact h.ask t registry
  | seat t r => exact h.seat t r
  | enter t r => exact h.enter t r
  | wake t r => exact h.wake t r
  | look t r => exact h.look t r
  | grant t r => exact h.grant t r
  | release t => exact h.release t
  | abandon t => exact h.abandon t
  | sleepUntil time => exact h.onAgenda (·.sleepUntil time)
  | resetMetrics => exact ((Alike.resetMetrics s).symm.trans h).trans (.resetMetrics s')
  | plan called alarms => exact h.onAgenda fun a => ⟨a.now, called, alarms⟩

/-- A run leads to the same without its resets, apart from the counters. -/
theorem Alike.run_filter (h : s.Alike s') (moves : List Move) :
    (s.run moves).Alike (s'.run (moves.filter fun m => !m.isReset)) := by
  induction moves generalizing s s' with
  | nil => exact h
  | cons m moves ih =>
    rw [run_cons]
    by_cases hm : m.isReset = true
    · have hreset : m = .resetMetrics := by cases m <;> simp [Move.isReset] at hm ⊢
      rw [List.filter_cons_of_neg (by simp [hm]), hreset]
      exact ih ((Alike.resetMetrics s).symm.trans h)
    · rw [List.filter_cons_of_pos (by simp [hm]), run_cons]
      exact ih (h.move m)

/-- **Resets have no side effects.** Runs that are the same apart from their resets lead to limiters
that are alike. -/
theorem alike_run (s : Limiter) {moves moves' : List Move}
    (h : (moves.filter fun m => !m.isReset) = moves'.filter fun m => !m.isReset) :
    (s.run moves).Alike (s.run moves') := by
  have hmoves := (Alike.refl s).run_filter moves
  rw [h] at hmoves
  exact hmoves.trans ((Alike.refl s).run_filter moves').symm

end Limiter

/-! ## Workloads -/

/-- Two workloads differ in the counters of their limiters at most. -/
structure Workload.Alike (w w' : Workload) : Prop where
  limiter : w.limiter.Alike w'.limiter
  nextTicket : w.nextTicket = w'.nextTicket
  permits : w.permits = w'.permits
  tasks : w.tasks = w'.tasks
  names : w.names = w'.names

namespace Workload

variable {w w' w'' : Workload} {t : Ticket} {awaited : Option Ticket}

theorem Alike.refl (w : Workload) : w.Alike w := ⟨.refl _, rfl, rfl, rfl, rfl⟩

theorem Alike.symm (h : w.Alike w') : w'.Alike w :=
  ⟨h.limiter.symm, h.nextTicket.symm, h.permits.symm, h.tasks.symm, h.names.symm⟩

theorem Alike.trans (h : w.Alike w') (h' : w'.Alike w'') : w.Alike w'' :=
  ⟨h.limiter.trans h'.limiter, h.nextTicket.trans h'.nextTicket, h.permits.trans h'.permits,
    h.tasks.trans h'.tasks, h.names.trans h'.names⟩

theorem Alike.onLimiter (h : w.Alike w') (f : Limiter → Limiter)
    (hf : (f w.limiter).Alike (f w'.limiter)) : (w.onLimiter f).Alike (w'.onLimiter f) :=
  { h with limiter := hf }

theorem Alike.onTask (h : w.Alike w') (t : Ticket) (f : Task → Task) :
    (w.onTask t f).Alike (w'.onTask t f) := by
  unfold Workload.onTask
  rw [← h.tasks]
  exact { h with tasks := rfl }

/-! ## Turns -/

theorem Alike.releaseTime? (h : w.Alike w') : w.releaseTime? = w'.releaseTime? := by
  funext task
  rw [Workload.releaseTime?, Workload.releaseTime?, h.limiter.grantOf?]

theorem Alike.finish (h : w.Alike w') (t : Ticket) : (w.finish t).Alike (w'.finish t) :=
  (h.onTask t _).onLimiter (·.release t) (h.limiter.release t)

theorem Alike.turn (h : w.Alike w') (t : Ticket) : (w.turn t).Alike (w'.turn t) := by
  have hturn := h.onLimiter (·.turn t) (h.limiter.turn t)
  unfold Workload.turn
  dsimp only
  rw [← hturn.tasks, ← hturn.releaseTime?, ← hturn.limiter.now]
  split
  · next time _ =>
    split
    · exact hturn.finish t
    · exact hturn.onLimiter (·.callAt time t) (hturn.limiter.onAgenda (·.callAt time t))
  · exact hturn

theorem Alike.next? (h : w.Alike w') (awaited : Option Ticket) :
    w.next? awaited = w'.next? awaited := by
  rw [Workload.next?, Workload.next?, h.limiter.agenda]

theorem Alike.isGranted (h : w.Alike w') : w.limiter.isGranted = w'.limiter.isGranted :=
  funext h.limiter.isGranted

theorem Alike.takeTurns (h : w.Alike w') (awaited : Option Ticket) (fuel : Nat) :
    (takeTurns awaited fuel w).Alike (takeTurns awaited fuel w') := by
  induction fuel generalizing w w' with
  | zero => exact h
  | succ fuel ih =>
    rw [Workload.takeTurns, Workload.takeTurns, ← h.isGranted, ← h.next?]
    split
    · exact h
    · split
      · exact ih (h.turn _)
      · exact h

theorem Alike.settle (h : w.Alike w') (awaited : Option Ticket) :
    (w.settle awaited).Alike (w'.settle awaited) := by
  unfold Workload.settle
  rw [← h.nextTicket]
  exact h.takeTurns awaited _

theorem Alike.turnOf (h : w.Alike w') (awaited : Option Ticket) :
    (w.turnOf awaited).Alike (w'.turnOf awaited) := by
  unfold Workload.turnOf
  rw [← h.limiter.agenda]
  split
  · split
    · exact h.turn _
    · exact h
  · exact h

/-! ## Time -/

theorem Alike.sleepUntil (h : w.Alike w') (awaited : Option Ticket) (time : Nat) :
    (w.sleepUntil awaited time).Alike (w'.sleepUntil awaited time) := by
  have hsleep := h.onLimiter (·.sleepUntil time) (h.limiter.onAgenda (·.sleepUntil time))
  exact (hsleep.turnOf awaited).settle awaited

theorem Alike.nextAlarm? (h : w.Alike w') : w.limiter.nextAlarm? = w'.limiter.nextAlarm? :=
  congrArg Agenda.nextAlarm? h.limiter.agenda

theorem Alike.passUntil (h : w.Alike w') (awaited : Option Ticket) (time target : Nat) :
    (w.passUntil awaited time target).Alike (w'.passUntil awaited time target) := by
  fun_induction Workload.passUntil awaited w time target generalizing w' with
  | case1 w time hgranted =>
    rw [Workload.passUntil.eq_def awaited w', ← h.isGranted, if_pos hgranted]
    exact h
  | case2 w time hgranted alarm hnext hbetween ih =>
    rw [Workload.passUntil.eq_def awaited w', ← h.isGranted, if_neg hgranted, ← h.nextAlarm?, hnext]
    dsimp only
    rw [dif_pos hbetween]
    exact ih (h.sleepUntil awaited alarm)
  | case3 w time hgranted alarm hnext hnot =>
    rw [Workload.passUntil.eq_def awaited w', ← h.isGranted, if_neg hgranted, ← h.nextAlarm?, hnext]
    dsimp only
    rw [dif_neg hnot]
    exact h.sleepUntil awaited target
  | case4 w time hgranted hnext =>
    rw [Workload.passUntil.eq_def awaited w', ← h.isGranted, if_neg hgranted, ← h.nextAlarm?, hnext]
    exact h.sleepUntil awaited target

/-! ## Operations -/

theorem Alike.keep (h : w.Alike w') (name : String) (t : Ticket) :
    (w.keep name t).Alike (w'.keep name t) := by
  have hset : { w with permits := w.permits.set name t }.Alike
      { w' with permits := w'.permits.set name t } :=
    { h with permits := congrArg (·.set name t) h.permits }
  unfold Workload.keep
  rw [← h.permits] at hset ⊢
  split
  · exact hset.onLimiter (·.release _) (h.limiter.release _)
  · exact hset

theorem Alike.joined (h : w.Alike w') (registry : String) :
    (w.joined registry).Alike (w'.joined registry) := by
  unfold Workload.joined
  rw [← h.nextTicket]
  exact { h with
    limiter := h.limiter.ask w.nextTicket registry
    nextTicket := rfl }

theorem Alike.awaiting (h : w.Alike w') (registry : String) (timeout : Nat) :
    (w.awaiting registry timeout).Alike (w'.awaiting registry timeout) := by
  unfold Workload.awaiting
  rw [← h.nextTicket, ← h.limiter.now]
  exact ((h.joined registry).turn w.nextTicket).passUntil _ _ _

theorem Alike.resolve (h : w.Alike w') (name : String) (t : Ticket) :
    (w.resolve name t).Alike (w'.resolve name t) := by
  unfold Workload.resolve Limiter.isGranted
  rw [← h.limiter.grantOf? t]
  split
  · exact h.keep name t
  · exact h.onLimiter (·.abandon t) (h.limiter.abandon t)

/-- Acquisitions of workloads that are alike have the same outcome. -/
theorem Alike.acquire (h : w.Alike w') (registry name : String) (timeout : Nat) :
    (w.acquire registry name timeout).1.Alike (w'.acquire registry name timeout).1 ∧
      (w.acquire registry name timeout).2 = (w'.acquire registry name timeout).2 := by
  have hwait := h.awaiting registry timeout
  have hend := (hwait.resolve name w.nextTicket).settle none
  have hgrant := hwait.limiter.grantOf? w.nextTicket
  rw [acquire_eq, acquire_eq, ← h.nextTicket]
  exact ⟨hend, hgrant⟩

theorem Alike.spawn (h : w.Alike w') (registry name : String) (hold : Hold) :
    (w.spawn registry name hold).Alike (w'.spawn registry name hold) := by
  have hspawned : (w.spawned registry name hold).Alike (w'.spawned registry name hold) := by
    have hjoined := h.joined registry
    unfold Workload.spawned
    rw [← h.nextTicket, ← h.tasks, ← h.names]
    exact { hjoined with
      limiter := hjoined.limiter.onAgenda (·.call w.nextTicket)
      tasks := rfl
      names := rfl }
  exact hspawned.settle none

theorem Alike.release (h : w.Alike w') (name : String) :
    (w.release name).1.Alike (w'.release name).1 ∧ (w.release name).2 = (w'.release name).2 := by
  unfold Workload.release
  rw [← h.permits]
  split
  · next t _ =>
    dsimp only
    have hdrop : { w with permits := w.permits.filter fun name' _ => name' ≠ name }.Alike
        { w' with permits := w.permits.filter fun name' _ => name' ≠ name } :=
      { h with permits := rfl }
    exact ⟨(hdrop.onLimiter (·.release t) (h.limiter.release t)).settle none, rfl⟩
  · rw [← h.names]
    split
    · next t _ =>
      have htold := h.onTask t fun task => { task with told := true }
      exact ⟨(htold.onLimiter (·.call t) (h.limiter.onAgenda (·.call t))).settle none, rfl⟩
    · exact ⟨h, rfl⟩

theorem Alike.abort (h : w.Alike w') (name : String) : (w.abort name).Alike (w'.abort name) := by
  unfold Workload.abort
  rw [← h.names]
  split
  · next t _ =>
    have hfinished := h.onTask t fun task => { task with finished := true }
    exact (hfinished.onLimiter (·.abandon t) (h.limiter.abandon t)).settle none
  · exact h

theorem Alike.status (h : w.Alike w') (name : String) : w.status name = w'.status name := by
  unfold Workload.status
  rw [← h.names, ← h.tasks]
  simp only [h.limiter.grantOf?]

theorem Alike.resetMetrics (w : Workload) : w.Alike (w.onLimiter (·.resetMetrics)) :=
  { Alike.refl w with limiter := .resetMetrics w.limiter }

/-- **Alike workloads stay alike**, whatever is done to both of them. -/
theorem Alike.perform (h : w.Alike w') (op : Operation) :
    (w.perform op).Alike (w'.perform op) := by
  cases op with
  | acquire registry name timeout => exact (h.acquire registry name timeout).1
  | spawn registry name hold => exact h.spawn registry name hold
  | release name => exact (h.release name).1
  | abort name => exact h.abort name
  | advance ms =>
    show (w.passUntil none _ _).Alike (w'.passUntil none _ _)
    rw [← h.limiter.now]
    exact h.passUntil none _ _
  | resetMetrics => exact ((Alike.resetMetrics w).symm.trans h).trans (.resetMetrics w')

theorem Alike.run_filter (h : w.Alike w') (ops : List Operation) :
    (ops.foldl Workload.perform w).Alike
      ((ops.filter fun op => !op.isReset).foldl Workload.perform w') := by
  induction ops generalizing w w' with
  | nil => exact h
  | cons op ops ih =>
    rw [List.foldl_cons]
    by_cases hop : op.isReset = true
    · have hreset : op = .resetMetrics := by cases op <;> simp [Operation.isReset] at hop ⊢
      rw [List.filter_cons_of_neg (by simp [hop]), hreset]
      exact ih ((Alike.resetMetrics w).symm.trans h)
    · rw [List.filter_cons_of_pos (by simp [hop]), List.foldl_cons]
      exact ih (h.perform op)

/-- **Resets have no side effects.** Operations that are the same apart from their resets lead to
workloads that are alike. -/
theorem alike_run (w : Workload) {ops ops' : List Operation}
    (h : (ops.filter fun op => !op.isReset) = ops'.filter fun op => !op.isReset) :
    (ops.foldl perform w).Alike (ops'.foldl perform w) := by
  have hops := (Alike.refl w).run_filter ops
  rw [h] at hops
  exact hops.trans ((Alike.refl w).run_filter ops').symm

end Workload

end TagWatch.Limit
