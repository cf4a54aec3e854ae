import TagWatch.Proofs.Limit.Turn

/-!
# Why an acquisition waits

When nobody can go on, whoever waits in a lane does so for one of three reasons (`Limiter.Blocked`).

**Theorem (`Limiter.Healthy.blocked`).** All slots of the registry are held by permits, or its
window is full and one ticket sleeps until the oldest grant leaves it, or all global slots are held
by permits.

`Limiter.blocked_reason` already tells the three cases apart. What it does not say is that a ticket
sleeps only in front of a full window, which is one more invariant of runs (`Limiter.Full`): the
ticket has seen so when it fell asleep, and the window does not change while the ticket holds its
lock.
-/

namespace TagWatch.Limit

/-! ## Full windows -/

namespace Lane

variable {l l' : Lane} {now : Nat}

/-- A ticket sleeps only while the window has no room. -/
def Full (l : Lane) : Prop :=
  ∀ t wakeAt waited, l.admitting = some ⟨t, .asleep wakeAt, waited⟩ →
    room l.rate ≤ l.recent.length

theorem full_of_awake (h : ∀ t wakeAt waited, l.admitting ≠ some ⟨t, .asleep wakeAt, waited⟩) :
    l.Full :=
  fun t wakeAt waited ha => absurd ha (h t wakeAt waited)

theorem full_fresh (rate : Rate) : (fresh rate).Full :=
  full_of_awake fun _ _ _ h => by cases h

theorem Full.cancel (h : l.Full) (t : Ticket) : (l.cancel t).Full := by
  unfold Lane.cancel
  split
  · exact h
  · split
    · exact h
    · split
      · exact full_of_awake fun _ _ _ h => by cases h
      · exact h

theorem Full.look (h : l.Full) : (l.look now).Full := by
  rcases look_cases l now with he | ⟨t, waited, -, -, he⟩ |
    ⟨t, waited, oldest, rest, -, hfull, hcons, he⟩
  · rwa [he]
  · rw [he]
    exact full_of_awake fun _ _ _ h => by cases h
  · rw [he]
    intro _ _ _ _
    show room l.rate ≤ (oldest :: rest).length
    rw [← hcons]
    exact Nat.le_of_not_lt hfull

theorem Full.laneMove (h : l.Full) (hm : LaneMove now l l') : l'.Full := by
  cases hm with
  | stay => exact h
  | seat t =>
    unfold Lane.seat
    split <;> exact h
  | enter t =>
    rcases enter_cases l t with he | ⟨rest, -, -, he⟩
    · rwa [he]
    · rw [he]
      exact full_of_awake fun _ _ _ h => by cases h
  | wake t =>
    rcases wake_cases l now t with he | ⟨wakeAt, waited, -, -, he⟩
    · rwa [he]
    · rw [he]
      exact full_of_awake fun _ _ _ h => by cases h
  | look => exact h.look
  | cancel t => exact h.cancel t
  | reset => exact h

end Lane

namespace Limiter

variable {s : Limiter} {t : Ticket} {r : String} {rates : Rates} {globalConcurrency wakeAt : Nat}

/-- A ticket of any lane sleeps only while the window has no room. -/
def Full (s : Limiter) : Prop := ∀ r, (s.lane r).Full

theorem full_fresh (rates : Rates) (globalConcurrency : Nat) :
    (fresh rates globalConcurrency).Full :=
  fun r => Lane.full_fresh (rates.lookup r)

theorem Full.move (h : s.Full) (m : Move) : (s.move m).Full := by
  intro r
  cases move_spec s m with
  | asked t registry _ ha =>
    rw [ha.lane r]
    split
    · next hr => exact hr ▸ h r
    · exact h r
  | quiet hq => exact (h r).laneMove (hq.lane r)
  | granted t r' waited hg =>
    rw [hg.lane r]
    split
    · exact Lane.full_of_awake fun _ _ _ h => by cases h
    · exact h r
  | returned t r' hr =>
    rw [hr.lane r]
    split
    · next he => exact he ▸ h r
    · exact h r

theorem Full.run (h : s.Full) (moves : List Move) : (s.run moves).Full := by
  induction moves generalizing s with
  | nil => exact h
  | cons m moves ih => exact ih (h.move m)

/-! ## Sleepers -/

/-- A ticket of a registry sleeps until a moment, for room in the window. -/
def Asleep (s : Limiter) (r : String) (t : Ticket) (wakeAt : Nat) : Prop :=
  ∃ waited, (s.lane r).admitting = some ⟨t, .asleep wakeAt, waited⟩

/-- Whoever sleeps has no global slot, and does not stand in the line for one either. -/
theorem Healthy.not_pooled_of_asleep (h : s.Healthy) (ha : s.Asleep r t wakeAt) :
    s.globalSlotsOf t = 0 ∧ t ∉ s.pool.line := by
  obtain ⟨waited, hadm⟩ := ha
  constructor
  · refine globalSlotsOf_eq_zero fun r' => ?_
    exact h.orderly.not_held_of_mem_tickets (Lane.mem_tickets_of_admitting hadm)
  · exact h.lined.not_mem_line h.orderly hadm Stage.noConfusion

/-- The window of a registry is full, and one ticket sleeps until its oldest grant is a minute
old, when it is going to be called. -/
structure Throttled (s : Limiter) (r : String) (limit : Nat) (sleeper : Ticket) (oldest : Nat)
    (rest : List Nat) : Prop where
  /-- The grants of the last minute, oldest first. -/
  window : ((s.grantTimes r).filter fun g => s.now < g + window) = oldest :: rest
  kept : (s.lane r).recent = oldest :: rest
  full : (oldest :: rest).length = limit
  asleep : ∀ t wakeAt, s.Asleep r t wakeAt ↔ t = sleeper ∧ wakeAt = oldest + Limit.window
  alarm : (oldest + Limit.window, sleeper) ∈ s.agenda.alarms

/-- A ticket that sleeps and cannot go on sleeps in front of a full window. -/
theorem Healthy.throttled (h : s.Healthy) (hf : s.Full) (ha : s.Asleep r t wakeAt)
    (hlt : s.now < wakeAt) :
    ∃ oldest rest, s.Throttled r (Lane.room (s.lane r).rate) t oldest rest := by
  obtain ⟨waited, hadm⟩ := ha
  obtain ⟨-, oldest, rest, hrecent, rfl⟩ := (h.timely r).fits _ hadm
  refine ⟨oldest, rest, ?_, hrecent, ?_, fun u wakeAt => ?_, ?_⟩
  · rw [← (h.timely r).prune_recent, hrecent, Lane.prune_cons_of_lt hlt]
  · rw [← hrecent]
    exact Nat.le_antisymm (h.timely r).short (hf r _ _ _ hadm)
  · rw [Asleep, hadm]
    constructor
    · rintro ⟨waited', he⟩
      cases he
      exact ⟨rfl, rfl⟩
    · rintro ⟨rfl, rfl⟩
      exact ⟨waited, rfl⟩
  · exact (h.alarmed r t _ waited hadm).resolve_right (Nat.not_le_of_lt hlt)

/-! ## Reasons -/

/-- Why an acquisition of a registry waits. -/
inductive Blocked (s : Limiter) (rates : Rates) (globalConcurrency : Nat) (r : String) : Prop where
  /-- All slots of the registry are held by permits. -/
  | slots (h : s.heldIn r = max 1 (rates.lookup r).concurrent)
  /-- The window is full, and one ticket of the registry sleeps. -/
  | window (sleeper : Ticket) (oldest : Nat) (rest : List Nat)
    (h : s.Throttled r (max 1 (rates.lookup r).requestsPerMinute) sleeper oldest rest)
  /-- All global slots are held by permits. -/
  | pool (h : s.held.length = max 1 globalConcurrency)

/-- **Nobody waits without a reason.** When nobody can go on, whoever waits is blocked. -/
theorem Healthy.blocked (h : s.Healthy) (hb : s.Balanced rates globalConcurrency) (hf : s.Full)
    (hn : ∀ r u, ¬ s.CanGo r u) (ht : t ∈ (s.lane r).tickets) :
    s.Blocked rates globalConcurrency r := by
  rcases blocked_reason hb h.lined hn ht with hslots | ⟨u, wakeAt, waited, hadm, hlt⟩ | hpool
  · exact .slots hslots
  · obtain ⟨oldest, rest, hthrottled⟩ := h.throttled hf ⟨waited, hadm⟩ hlt
    rw [hb.rate r] at hthrottled
    exact .window u oldest rest hthrottled
  · exact .pool hpool

/-- Without a permit and without a sleeper there is no reason. -/
theorem not_blocked (hheld : s.held = []) (hawake : ∀ t wakeAt, ¬ s.Asleep r t wakeAt) :
    ¬ s.Blocked rates globalConcurrency r := by
  intro h
  cases h with
  | slots h =>
    rw [heldIn, hheld] at h
    exact absurd h.symm (Nat.ne_of_gt (Nat.le_max_left 1 _))
  | window u oldest rest h => exact hawake u _ ((h.asleep _ _).mpr ⟨rfl, rfl⟩)
  | pool h =>
    rw [hheld] at h
    exact absurd h.symm (Nat.ne_of_gt (Nat.le_max_left 1 _))

end Limiter

end TagWatch.Limit
