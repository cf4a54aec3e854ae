import TagWatch.Limit.Limiter

/-!
# Runs of a limiter

A `Move` is one of the small moves that a limiter is made of, and a run is a list of them in any
order: nothing is said about who gets a turn when. So what holds of every run holds under every
scheduler, and `Workload.exists_run` says that the users of a `Workload` only ever make such runs.

**What a move does** is said once (`Limiter.move_spec`). It lets a ticket join a line, or grants a
permit, or gives one back, or leaves the permits alone and changes lanes only by `LaneMove`s. The
invariants of runs are read off these four cases.

**Tickets.** A run is `Distinct` when every acquisition comes with a ticket of its own.
-/

namespace TagWatch.Limit

/-! ## Lanes and changes of one lane -/

namespace Limiter

/-- A lane after one lane was changed. -/
theorem lane_onLane (s : Limiter) (r r' : String) (f : Lane → Lane) :
    (s.onLane r f).lane r' = if r' = r then f (s.lane r) else s.lane r' := by
  show Table.getD (s.lanes.set r _) r' _ = _
  rw [Table.getD, Table.get?_set]
  split <;> rfl

theorem lane_onLane_self (s : Limiter) (r : String) (f : Lane → Lane) :
    (s.onLane r f).lane r = f (s.lane r) := by
  rw [lane_onLane, if_pos rfl]

theorem lane_onLane_of_ne (s : Limiter) {r r' : String} (h : r' ≠ r) (f : Lane → Lane) :
    (s.onLane r f).lane r' = s.lane r' := by
  rw [lane_onLane, if_neg h]

/-- A lane after the counters of all lanes were reset. -/
theorem lane_resetMetrics (s : Limiter) (r : String) :
    s.resetMetrics.lane r = (s.lane r).resetCounters := by
  show ((s.lanes.mapValues fun _ l => l.resetCounters).get? r).getD _ =
    ((s.lanes.get? r).getD _).resetCounters
  rw [Table.get?_mapValues]
  cases s.lanes.get? r <;> rfl

end Limiter

/-! ## Moves and runs -/

/-- One of the small moves of a limiter. The acquisition of a permit is an `ask`, carried on by
the five moves after it; it ends with `release`, or early with `abandon`. -/
inductive Move where
  | ask (t : Ticket) (registry : String)
  | seat (t : Ticket) (registry : String)
  | enter (t : Ticket) (registry : String)
  | wake (t : Ticket) (registry : String)
  | look (t : Ticket) (registry : String)
  | grant (t : Ticket) (registry : String)
  | release (t : Ticket)
  | abandon (t : Ticket)
  | sleepUntil (time : Nat)
  | resetMetrics
  /-- Who is called, and when, changes in any way. -/
  | plan (called : List Ticket) (alarms : List (Nat × Ticket))

/-- The limiter after a move. -/
def Limiter.move (s : Limiter) : Move → Limiter
  | .ask t registry => s.ask t registry
  | .seat t registry => s.seat t registry
  | .enter t registry => s.enter t registry
  | .wake t registry => s.wake t registry
  | .look t registry => s.look t registry
  | .grant t registry => s.grant t registry
  | .release t => s.release t
  | .abandon t => s.abandon t
  | .sleepUntil time => s.sleepUntil time
  | .resetMetrics => s.resetMetrics
  | .plan called alarms => s.onAgenda fun a => ⟨a.now, called, alarms⟩

/-- The limiter after a list of moves. -/
def Limiter.run (s : Limiter) (moves : List Move) : Limiter := moves.foldl Limiter.move s

@[simp] theorem Limiter.run_cons (s : Limiter) (m : Move) (moves : List Move) :
    s.run (m :: moves) = (s.move m).run moves := rfl

theorem Limiter.run_append (s : Limiter) (moves moves' : List Move) :
    s.run (moves ++ moves') = (s.run moves).run moves' :=
  List.foldl_append

/-- The ticket with which a move begins an acquisition. -/
def Move.asked? : Move → Option Ticket
  | ask t _ => some t
  | _ => none

/-- The tickets with which acquisitions begin in a run, in order. -/
def asked (moves : List Move) : List Ticket := moves.filterMap Move.asked?

/-- Every acquisition of a run comes with a ticket of its own. -/
def Distinct (moves : List Move) : Prop := (asked moves).Nodup

instance (moves : List Move) : Decidable (Distinct moves) :=
  inferInstanceAs (Decidable (asked moves).Nodup)

theorem asked_append (moves moves' : List Move) :
    asked (moves ++ moves') = asked moves ++ asked moves' :=
  List.filterMap_append

theorem asked_cons (m : Move) (moves : List Move) :
    asked (m :: moves) = m.asked?.toList ++ asked moves := by
  rw [asked, List.filterMap_cons]
  cases m.asked? <;> rfl

/-- The last move of a run does not ask with a ticket of an earlier one. -/
theorem Distinct.concat {moves : List Move} {m : Move} (h : Distinct (moves ++ [m])) :
    Distinct moves ∧ ∀ t, m.asked? = some t → t ∉ asked moves := by
  rw [Distinct, asked_append, List.nodup_append] at h
  obtain ⟨hmoves, -, hdisj⟩ := h
  refine ⟨hmoves, ?_⟩
  intro t ht hmem
  exact hdisj t hmem t (by rw [asked_cons, ht]; exact List.mem_cons_self) rfl

/-! ## What a move does -/

/-- A change of one lane in which nobody comes and no permit is granted or given back. -/
inductive LaneMove (now : Nat) (l : Lane) : Lane → Prop where
  | stay : LaneMove now l l
  | seat (t : Ticket) : LaneMove now l (l.seat t)
  | enter (t : Ticket) : LaneMove now l (l.enter t)
  | wake (t : Ticket) : LaneMove now l (l.wake now t)
  | look : LaneMove now l (l.look now)
  | cancel (t : Ticket) : LaneMove now l (l.cancel t)
  | reset : LaneMove now l l.resetCounters

namespace Limiter

/-- A ticket joins the line of a lane. -/
structure Asked (s s' : Limiter) (t : Ticket) (r : String) : Prop where
  rates : s'.rates = s.rates
  lane : ∀ r', s'.lane r' = if r' = r then (s.lane r).ask t else s.lane r'
  pool : s'.pool = s.pool
  held : s'.held = s.held
  grants : s'.grants = s.grants
  now : s'.now = s.now

/-- The permits are left alone, and every lane changes by a `LaneMove`. -/
structure Quiet (s s' : Limiter) : Prop where
  rates : s'.rates = s.rates
  lane : ∀ r, LaneMove s.now (s.lane r) (s'.lane r)
  free : s'.pool.free = s.pool.free
  held : s'.held = s.held
  grants : s'.grants = s.grants
  now : s.now ≤ s'.now

/-- A permit is granted to the ticket at the window lock of a lane. -/
structure Granted (s s' : Limiter) (t : Ticket) (r : String) (waited : Nat) : Prop where
  rates : s'.rates = s.rates
  pooled : (s.lane r).admitting = some ⟨t, .pooled, waited⟩
  admits : s.pool.admits t = true
  lane : ∀ r', s'.lane r' = if r' = r then (s.lane r).grantAt s.now else s.lane r'
  pool : s'.pool = s.pool.pass t
  held : s'.held = s.held ++ [(t, r)]
  grants : s'.grants = s.grants ++ [⟨t, r, s.now, waited⟩]
  agenda : s'.agenda = s.agenda.callAll (s.lane r).seated.head?.toList
  now : s'.now = s.now

/-- A held permit is given back. -/
structure Returned (s s' : Limiter) (t : Ticket) (r : String) : Prop where
  rates : s'.rates = s.rates
  found : s.held.find? (·.1 == t) = some (t, r)
  lane : ∀ r', s'.lane r' = if r' = r then (s.lane r).returnSlot else s.lane r'
  pool : s'.pool = s.pool.restore
  held : s'.held = s.held.eraseP (·.1 == t)
  grants : s'.grants = s.grants
  now : s'.now = s.now

/-- What a move does to a limiter. -/
inductive Effect (s : Limiter) (m : Move) (s' : Limiter) : Prop where
  | asked (t : Ticket) (registry : String) (hm : m = .ask t registry)
    (h : Asked s s' t (Registry.canonical registry)) : Effect s m s'
  | quiet (h : Quiet s s') : Effect s m s'
  | granted (t : Ticket) (r : String) (waited : Nat) (h : Granted s s' t r waited) : Effect s m s'
  | returned (t : Ticket) (r : String) (h : Returned s s' t r) : Effect s m s'

theorem Quiet.refl (s : Limiter) : Quiet s s :=
  ⟨rfl, fun _ => .stay, rfl, rfl, rfl, Nat.le_refl _⟩

/-- Changing one lane by a `LaneMove` leaves the permits alone. -/
theorem quiet_onLane (s : Limiter) (r : String) (f : Lane → Lane)
    (h : LaneMove s.now (s.lane r) (f (s.lane r))) : Quiet s (s.onLane r f) := by
  refine ⟨rfl, fun r' => ?_, rfl, rfl, rfl, Nat.le_refl _⟩
  by_cases hr : r' = r
  · rw [hr, lane_onLane_self]
    exact h
  · rw [lane_onLane_of_ne s hr]
    exact .stay

/-- The time and the permits do not depend on who is called. -/
theorem now_callAll (a : Agenda) (ts : List Ticket) : (a.callAll ts).now = a.now := by
  induction ts generalizing a with
  | nil => rfl
  | cons t ts ih =>
    show ((a.call t).callAll ts).now = a.now
    rw [ih, Agenda.call]
    split <;> rfl

theorem now_callAt (s : Limiter) (time : Nat) (t : Ticket) : (s.callAt time t).now = s.now := by
  show (s.agenda.callAt time t).now = s.agenda.now
  rw [Agenda.callAt]
  split <;> rfl

theorem now_sleepUntil (s : Limiter) (time : Nat) : (s.sleepUntil time).now = max s.now time :=
  now_callAll _ _

theorem quiet_look (s : Limiter) (t : Ticket) (r : String) : Quiet s (s.look t r) := by
  rw [look]
  split
  · have h : Quiet s (s.setLane r ((s.lane r).look s.now)) :=
      quiet_onLane s r (·.look s.now) .look
    dsimp only
    split
    · exact { h with }
    · exact { h with now := Nat.le_of_eq (now_callAt _ _ _).symm }
    · exact h
  · exact .refl s

theorem grant_spec (s : Limiter) (t : Ticket) (r : String) :
    (s.grant t r = s ∧ ∀ waited, (s.lane r).admitting = some ⟨t, .pooled, waited⟩ →
        ¬ s.pool.admits t = true) ∨
      ∃ waited, Granted s (s.grant t r) t r waited := by
  rw [grant]
  split
  · next u waited hadm =>
    split
    · next h =>
      obtain ⟨rfl, hp⟩ := h
      refine .inr ⟨waited, rfl, hadm, hp, fun r' => ?_, rfl, rfl, rfl, rfl, ?_⟩
      · exact lane_onLane s r r' (·.grantAt s.now)
      · exact now_callAll s.agenda _
    · next h =>
      refine .inl ⟨rfl, fun w hw hp => h ?_⟩
      rw [hadm] at hw
      cases hw
      exact ⟨rfl, hp⟩
  · next h => exact .inl ⟨rfl, fun w hw _ => h t w hw⟩

theorem release_spec (s : Limiter) (t : Ticket) :
    (s.held.find? (·.1 == t) = none ∧ s.release t = s) ∨ ∃ r, Returned s (s.release t) t r := by
  rw [release]
  split
  · next u r hfind =>
    have hu := List.find?_some hfind
    obtain rfl : u = t := beq_iff_eq.mp hu
    refine .inr ⟨r, rfl, hfind, fun r' => ?_, rfl, rfl, rfl, ?_⟩
    · exact lane_onLane s r r' (·.returnSlot)
    · exact now_callAll s.agenda _
  · next hfind => exact .inl ⟨hfind, rfl⟩

theorem quiet_withdraw (s : Limiter) (t : Ticket) (r : String) : Quiet s (s.withdraw t r) := by
  have h : Quiet s (s.onLane r (·.cancel t)) := quiet_onLane s r (·.cancel t) (.cancel t)
  exact { h with now := Nat.le_of_eq (now_callAll (s.agenda.dismiss t) _).symm }

theorem abandon_spec (s : Limiter) (t : Ticket) :
    Quiet s (s.abandon t) ∨ ∃ r, Returned s (s.abandon t) t r := by
  rw [abandon]
  split
  · next r _ => exact .inl (quiet_withdraw s t r)
  · rcases release_spec s t with ⟨-, h⟩ | ⟨r, h⟩
    · rw [h]
      exact .inl { Quiet.refl s with }
    · exact .inr ⟨r, { h with }⟩

/-- **What a move does.** A ticket joins a line, or the permits are left alone and lanes change by
`LaneMove`s, or a permit is granted, or one is given back. -/
theorem move_spec (s : Limiter) (m : Move) : Effect s m (s.move m) := by
  cases m with
  | ask t registry =>
    refine .asked t registry rfl ⟨rfl, fun r' => ?_, rfl, rfl, rfl, rfl⟩
    exact lane_onLane s _ r' (·.ask t)
  | seat t r => exact .quiet (quiet_onLane s r (·.seat t) (.seat t))
  | enter t r => exact .quiet (quiet_onLane s r (·.enter t) (.enter t))
  | wake t r => exact .quiet (quiet_onLane s r (·.wake s.now t) (.wake t))
  | look t r => exact .quiet (quiet_look s t r)
  | grant t r =>
    rcases grant_spec s t r with ⟨h, -⟩ | ⟨waited, h⟩
    · rw [show s.move (.grant t r) = s from h]
      exact .quiet (.refl s)
    · exact .granted t r waited h
  | release t =>
    rcases release_spec s t with ⟨-, h⟩ | ⟨r, h⟩
    · rw [show s.move (.release t) = s from h]
      exact .quiet (.refl s)
    · exact .returned t r h
  | abandon t =>
    rcases abandon_spec s t with h | ⟨r, h⟩
    · exact .quiet h
    · exact .returned t r h
  | sleepUntil time =>
    refine .quiet ⟨rfl, fun _ => .stay, rfl, rfl, rfl, ?_⟩
    rw [show s.move (.sleepUntil time) = s.sleepUntil time from rfl, now_sleepUntil]
    exact Nat.le_max_left _ _
  | resetMetrics =>
    refine .quiet ⟨rfl, fun r => ?_, rfl, rfl, rfl, Nat.le_refl _⟩
    rw [show s.move .resetMetrics = s.resetMetrics from rfl, lane_resetMetrics]
    exact .reset
  | plan called alarms => exact .quiet { Quiet.refl s with }

/-! ## Turns are runs -/

/-- A limiter comes from another one by a run in which nothing new is asked for. -/
def Leads (s s' : Limiter) : Prop := ∃ moves, s' = s.run moves ∧ asked moves = []

theorem Leads.refl (s : Limiter) : Leads s s := ⟨[], rfl, rfl⟩

theorem Leads.trans {s s' s'' : Limiter} (h : Leads s s') (h' : Leads s' s'') : Leads s s'' := by
  obtain ⟨moves, rfl, ha⟩ := h
  obtain ⟨moves', rfl, ha'⟩ := h'
  exact ⟨moves ++ moves', (run_append s moves moves').symm, by rw [asked_append, ha, ha']; rfl⟩

/-- A change of who is called is a move. -/
theorem onAgenda_eq_move (s : Limiter) (f : Agenda → Agenda) (h : (f s.agenda).now = s.now) :
    s.onAgenda f = s.move (.plan (f s.agenda).called (f s.agenda).alarms) := by
  show s.onAgenda f = s.onAgenda fun a => ⟨a.now, _, _⟩
  rw [onAgenda, onAgenda, ← show (f s.agenda).now = s.agenda.now from h]

theorem leads_plan (s : Limiter) (f : Agenda → Agenda) (h : (f s.agenda).now = s.now) :
    Leads s (s.onAgenda f) :=
  ⟨[.plan (f s.agenda).called (f s.agenda).alarms], s.onAgenda_eq_move f h, rfl⟩

theorem leads_turn (s : Limiter) (t : Ticket) : Leads s (s.turn t) := by
  have h : Leads s (s.onAgenda (·.take t)) := leads_plan s (·.take t) rfl
  rw [turn]
  split
  · next r _ =>
    exact h.trans ⟨[.seat t r, .enter t r, .wake t r, .look t r, .grant t r], rfl, rfl⟩
  · exact h

theorem leads_release (s : Limiter) (t : Ticket) : Leads s (s.release t) :=
  ⟨[.release t], rfl, rfl⟩

theorem leads_abandon (s : Limiter) (t : Ticket) : Leads s (s.abandon t) :=
  ⟨[.abandon t], rfl, rfl⟩

theorem leads_sleepUntil (s : Limiter) (time : Nat) : Leads s (s.sleepUntil time) :=
  ⟨[.sleepUntil time], rfl, rfl⟩

theorem leads_call (s : Limiter) (t : Ticket) : Leads s (s.call t) :=
  leads_plan s (·.call t) (now_callAll s.agenda [t])

theorem leads_callAt (s : Limiter) (time : Nat) (t : Ticket) : Leads s (s.callAt time t) :=
  leads_plan s (·.callAt time t) (now_callAt s time t)

end Limiter

end TagWatch.Limit
