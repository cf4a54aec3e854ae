import TagWatch.Proofs.Limit.Progress

/-!
# Nobody sleeps twice

**Theorem (`Limiter.sleeps_once`).** In every run an acquisition sleeps at most once for room in a
window, for a positive time of at most a minute, and the wait that is reported with its grant is
that time, or zero. After its sleep it finds room, and the room is still there when it has waited
for a global slot.

**Sleeps** are seen from outside: one begins with a move after which somebody is asleep who was not
asleep before (`Limiter.newSleeps`). The ticket at the window lock looks at the window again and
again until it finds room, and nothing in a look says how often. But a window is never overfull
(`Lane.Timely`), and when a sleeper wakes up its oldest grant is gone. So a ticket that has slept
finds room, and the time that a ticket has waited tells whether it has slept (`Slept`).
-/

namespace TagWatch.Limit

/-- A sleep for room in a window, until a time. -/
structure Sleep where
  ticket : Ticket
  begun : Nat
  wakeAt : Nat
  deriving Repr, DecidableEq

/-- How long a sleep is to last. -/
def Sleep.length (z : Sleep) : Nat := z.wakeAt - z.begun

/-- The time that a ticket spends in sleeps. -/
def timeAsleep : List Sleep → Ticket → Nat
  | [], _ => 0
  | z :: sleeps, t => (if z.ticket = t then z.length else 0) + timeAsleep sleeps t

section timeAsleep

variable {sleeps : List Sleep} {t : Ticket} {z : Sleep}

theorem timeAsleep_append (sleeps sleeps' : List Sleep) (t : Ticket) :
    timeAsleep (sleeps ++ sleeps') t = timeAsleep sleeps t + timeAsleep sleeps' t := by
  induction sleeps with
  | nil => exact (Nat.zero_add _).symm
  | cons z sleeps ih => rw [List.cons_append, timeAsleep, timeAsleep, ih, Nat.add_assoc]

theorem timeAsleep_eq_zero (h : ∀ z ∈ sleeps, z.ticket ≠ t) : timeAsleep sleeps t = 0 := by
  induction sleeps with
  | nil => rfl
  | cons z sleeps ih =>
    obtain ⟨hz, hsleeps⟩ := List.forall_mem_cons.mp h
    rw [timeAsleep, if_neg hz, ih hsleeps]

theorem timeAsleep_middle (before after : List Sleep) (z : Sleep) :
    timeAsleep (before ++ z :: after) z.ticket =
      timeAsleep before z.ticket + (z.length + timeAsleep after z.ticket) := by
  rw [timeAsleep_append, timeAsleep, if_pos rfl]

theorem length_le_timeAsleep (hz : z ∈ sleeps) : z.length ≤ timeAsleep sleeps z.ticket := by
  obtain ⟨before, after, rfl⟩ := List.append_of_mem hz
  rw [timeAsleep_middle]
  exact Nat.le_trans (Nat.le_add_right _ _) (Nat.le_add_left _ _)

/-- If no ticket sleeps twice, a sleep is all the time that its ticket spends asleep. -/
theorem timeAsleep_of_nodup (hn : (sleeps.map (·.ticket)).Nodup) (hz : z ∈ sleeps) :
    timeAsleep sleeps z.ticket = z.length := by
  obtain ⟨before, after, rfl⟩ := List.append_of_mem hz
  rw [List.map_append, List.map_cons, List.nodup_middle, List.nodup_cons, ← List.map_append] at hn
  have hother (y : Sleep) (hy : y ∈ before ++ after) : y.ticket ≠ z.ticket := fun he =>
    hn.1 (List.mem_map.mpr ⟨y, hy, he⟩)
  rw [timeAsleep_middle, timeAsleep_eq_zero fun y hy => hother y (List.mem_append_left _ hy),
    timeAsleep_eq_zero fun y hy => hother y (List.mem_append_right _ hy), Nat.zero_add,
    Nat.add_zero]

end timeAsleep

/-! ## Sleeps in a lane -/

namespace Lane

variable {now : Nat} {times : List Nat} {l l' : Lane} {t u : Ticket} {z : Sleep}

/-- The ticket that is asleep in a lane, with the time at which it is to wake up. -/
def sleeper? (l : Lane) : Option (Ticket × Nat) :=
  match l.admitting with
  | some ⟨t, .asleep wakeAt, _⟩ => some (t, wakeAt)
  | _ => none

/-- The sleep that begins with a change of a lane, if any. -/
def newSleeps (now : Nat) (l l' : Lane) : List Sleep :=
  match l'.sleeper? with
  | some (t, wakeAt) => if l.sleeper? = some (t, wakeAt) then [] else [⟨t, now, wakeAt⟩]
  | none => []

/-- The time that a ticket has waited at the window lock of a lane. -/
def waitedBy (l : Lane) (t : Ticket) : Nat :=
  match l.admitting with
  | some a => if a.ticket = t then a.waited else 0
  | none => 0

theorem waitedBy_of_admitting {a : Admission} (h : l.admitting = some a) :
    l.waitedBy a.ticket = a.waited := by
  rw [waitedBy, h]
  exact if_pos rfl

theorem waitedBy_eq_zero (h : t ∉ l.admitted) : l.waitedBy t = 0 := by
  rw [waitedBy]
  split
  · next a ha => exact if_neg fun hat => h (mem_admitted_iff.mpr ⟨a, ha, hat⟩)
  · rfl

theorem waitedBy_congr (h : l'.admitting = l.admitting) (t : Ticket) :
    l'.waitedBy t = l.waitedBy t := by
  rw [waitedBy, h]
  rfl

theorem newSleeps_congr (h : l'.admitting = l.admitting) : newSleeps now l l' = [] := by
  have hsleeper : l'.sleeper? = l.sleeper? := by
    rw [sleeper?, h]
    rfl
  rw [newSleeps, hsleeper]
  split
  · next hs => exact if_pos hs
  · rfl

theorem newSleeps_of_awake (h : l'.sleeper? = none) : newSleeps now l l' = [] := by
  rw [newSleeps, h]

/-- A ticket that looks at a full window falls asleep. -/
theorem newSleeps_of_asleep {wakeAt waited waited' : Nat}
    (h : l.admitting = some ⟨t, .looking, waited⟩)
    (h' : l'.admitting = some ⟨t, .asleep wakeAt, waited'⟩) :
    newSleeps now l l' = [⟨t, now, wakeAt⟩] := by
  have hsleeper : l.sleeper? = none := by rw [sleeper?, h]
  have hsleeper' : l'.sleeper? = some (t, wakeAt) := by rw [sleeper?, h']
  rw [newSleeps, hsleeper, hsleeper']
  rfl

theorem newSleeps_enter : newSleeps now l (l.enter t) = [] := by
  rcases enter_cases l t with he | ⟨rest, -, -, he⟩
  · exact newSleeps_congr (congrArg Lane.admitting he)
  · exact newSleeps_of_awake (by rw [he]; rfl)

theorem newSleeps_wake : newSleeps now l (l.wake now t) = [] := by
  rcases wake_cases l now t with he | ⟨wakeAt, waited, -, -, he⟩
  · exact newSleeps_congr (congrArg Lane.admitting he)
  · exact newSleeps_of_awake (by rw [he]; rfl)

theorem newSleeps_cancel : newSleeps now l (l.cancel t) = [] := by
  unfold cancel
  split
  · exact newSleeps_congr rfl
  · split
    · exact newSleeps_congr rfl
    · split
      · exact newSleeps_of_awake rfl
      · exact newSleeps_congr rfl

/-- A look puts a ticket to sleep only if the window is full, and then until the oldest grant leaves
the window. -/
theorem newSleeps_look (l : Lane) (now : Nat) : newSleeps now l (l.look now) = [] ∨
    ∃ t waited oldest rest, l.admitting = some ⟨t, .looking, waited⟩ ∧
      ¬ (prune now l.recent).length < room l.rate ∧ prune now l.recent = oldest :: rest ∧
      newSleeps now l (l.look now) = [⟨t, now, oldest + window⟩] := by
  rcases look_cases l now with he | ⟨t, waited, -, -, he⟩ |
    ⟨t, waited, oldest, rest, hadm, hfull, hcons, he⟩
  · exact .inl (newSleeps_congr (congrArg Lane.admitting he))
  · exact .inl (newSleeps_of_awake (by rw [he]; rfl))
  · exact .inr ⟨t, waited, oldest, rest, hadm, hfull, hcons, newSleeps_of_asleep hadm (by rw [he])⟩

theorem nodup_newSleeps (now : Nat) (l l' : Lane) :
    ((newSleeps now l l').map (·.ticket)).Nodup := by
  rw [newSleeps]
  split
  · split
    · exact List.nodup_nil
    · exact List.nodup_singleton _
  · exact List.nodup_nil

/-- The time that a ticket has waited grows by the sleeps that it begins. -/
theorem waitedBy_laneMove (hn : l.tickets.Nodup) (h : LaneMove now l l') (hu : u ∈ l'.tickets) :
    l'.waitedBy u = l.waitedBy u + timeAsleep (newSleeps now l l') u := by
  have hsame (hadm : l'.admitting = l.admitting) :
      l'.waitedBy u = l.waitedBy u + timeAsleep (newSleeps now l l') u := by
    rw [newSleeps_congr hadm, waitedBy_congr hadm]
    rfl
  cases h with
  | stay => exact hsame rfl
  | seat t => exact hsame admitting_seat
  | enter t =>
    rcases enter_cases l t with he | ⟨rest, hadm, -, he⟩
    · exact hsame (congrArg Lane.admitting he)
    · rw [newSleeps_enter, he, waitedBy, waitedBy, hadm]
      exact ite_self 0
  | wake t =>
    rcases wake_cases l now t with he | ⟨wakeAt, waited, hadm, -, he⟩
    · exact hsame (congrArg Lane.admitting he)
    · rw [newSleeps_wake, he, waitedBy, waitedBy, hadm]
      rfl
  | look =>
    rcases look_cases l now with he | ⟨t, waited, hadm, -, he⟩ |
      ⟨t, waited, oldest, rest, hadm, -, -, he⟩
    · exact hsame (congrArg Lane.admitting he)
    · rw [he, newSleeps_of_awake rfl, waitedBy, waitedBy, hadm]
      rfl
    · have hadm' : (l.look now).admitting =
          some ⟨t, .asleep (oldest + window), waited + (oldest + window - now)⟩ := by rw [he]
      rw [newSleeps_of_asleep hadm hadm', waitedBy, waitedBy, hadm, hadm']
      by_cases htu : t = u
      · simp [timeAsleep, Sleep.length, htu]
      · simp [timeAsleep, htu]
  | cancel t =>
    have hadm {a : Admission} : (l.cancel t).admitting = some a ↔ a.ticket ≠ t ∧ _ :=
      admitting_cancel hn
    cases ha : (l.cancel t).admitting with
    | some a => exact hsame (by rw [ha, (hadm.mp ha).2])
    | none =>
      -- whoever was at the lock has given up, and is not `u`
      rw [tickets_cancel, hn.mem_erase_iff] at hu
      have hnot : u ∉ l.admitted := fun hmem => by
        obtain ⟨a, hla, rfl⟩ := mem_admitted_iff.mp hmem
        rw [hadm.mpr ⟨hu.1, hla⟩] at ha
        cases ha
      rw [newSleeps_cancel, waitedBy_eq_zero hnot, waitedBy, ha]
      rfl
  | reset => exact hsame rfl

/-- Only a look puts a ticket to sleep. -/
theorem newSleeps_laneMove (h : LaneMove now l l') : newSleeps now l l' = [] ∨
    ∃ t waited oldest rest, l.admitting = some ⟨t, .looking, waited⟩ ∧
      ¬ (prune now l.recent).length < room l.rate ∧ prune now l.recent = oldest :: rest ∧
      newSleeps now l l' = [⟨t, now, oldest + window⟩] := by
  cases h with
  | stay => exact .inl (newSleeps_congr rfl)
  | seat t => exact .inl (newSleeps_congr admitting_seat)
  | enter t => exact .inl newSleeps_enter
  | wake t => exact .inl newSleeps_wake
  | look => exact newSleeps_look l now
  | cancel t => exact .inl newSleeps_cancel
  | reset => exact .inl (newSleeps_congr rfl)

/-- **A ticket that falls asleep has not slept before**, and it sleeps for a minute at most. -/
theorem Timely.newSleeps (h : Timely now times l) (hm : LaneMove now l l')
    (hz : z ∈ newSleeps now l l') :
    z.ticket ∈ l.tickets ∧ l.waitedBy z.ticket = 0 ∧ 0 < z.length ∧ z.length ≤ window := by
  rcases newSleeps_laneMove hm with hnone | ⟨t, waited, oldest, rest, hadm, hfull, hcons, hsleep⟩
  · rw [hnone] at hz
    cases hz
  rw [hsleep, List.mem_singleton] at hz
  subst hz
  have hwaited : waited = 0 := Nat.eq_zero_of_not_pos fun hpos => hfull (h.fits _ hadm hpos)
  have hlength : Sleep.length ⟨t, now, oldest + window⟩ = oldest + window - now := rfl
  have holdest : oldest ≤ now := by
    obtain ⟨old, htimes, -⟩ := h.kept_prune
    refine h.past oldest ?_
    rw [htimes, hcons]
    exact List.mem_append_right _ List.mem_cons_self
  have hlt : now < oldest + window := lt_of_prune_eq_cons hcons
  refine ⟨mem_tickets_of_admitting hadm, ?_, ?_, ?_⟩
  · rw [waitedBy_of_admitting hadm]
    exact hwaited
  · omega
  · omega

/-! ## The count of waits -/

/-- A lane counts the sleeps that begin with a change. -/
def Counts (now : Nat) (l l' : Lane) : Prop :=
  l'.waitCount = l.waitCount + (newSleeps now l l').length

theorem counts_of_awake (hcount : l'.waitCount = l.waitCount) (h : newSleeps now l l' = []) :
    Counts now l l' := by
  rw [Counts, h]
  exact hcount

theorem counts_of_same (hcount : l'.waitCount = l.waitCount) (h : l'.admitting = l.admitting) :
    Counts now l l' :=
  counts_of_awake hcount (newSleeps_congr h)

theorem counts_seat : Counts now l (l.seat t) := by
  refine counts_of_same ?_ admitting_seat
  unfold seat
  split <;> rfl

theorem counts_enter : Counts now l (l.enter t) := by
  refine counts_of_awake ?_ newSleeps_enter
  rcases enter_cases l t with he | ⟨rest, -, -, he⟩ <;> rw [he]

theorem counts_wake : Counts now l (l.wake now t) := by
  refine counts_of_awake ?_ newSleeps_wake
  rcases wake_cases l now t with he | ⟨wakeAt, waited, -, -, he⟩ <;> rw [he]

theorem counts_cancel : Counts now l (l.cancel t) := by
  refine counts_of_awake ?_ newSleeps_cancel
  unfold cancel
  split
  · rfl
  · split
    · rfl
    · split <;> rfl

/-- The count goes up by one only before the first sleep, but there is no second one. -/
theorem Timely.counts_look (h : Timely now times l) : Counts now l (l.look now) := by
  rcases look_cases l now with he | ⟨t, waited, -, -, he⟩ |
    ⟨t, waited, oldest, rest, hadm, hfull, -, he⟩
  · rw [he]
    exact counts_of_same rfl rfl
  · rw [he]
    exact counts_of_awake rfl (newSleeps_of_awake rfl)
  · have hwaited : waited = 0 := Nat.eq_zero_of_not_pos fun hpos => hfull (h.fits _ hadm hpos)
    rw [Counts, newSleeps_of_asleep hadm (by rw [he]), he]
    exact if_pos hwaited

end Lane

/-! ## Sleeps of a run -/

namespace Limiter

variable {s s' : Limiter} {m : Move} {t : Ticket} {r : String} {slept : List Sleep}

/-- The sleep in the lane of a registry that begins with a move, if any. -/
def newSleeps (s : Limiter) (r : String) (m : Move) : List Sleep :=
  Lane.newSleeps s.now (s.lane r) ((s.move m).lane r)

/-- The sleeps in the lane of a registry that begin in a run, in order. -/
def sleeps (s : Limiter) (r : String) : List Move → List Sleep
  | [] => []
  | m :: moves => s.newSleeps r m ++ (s.move m).sleeps r moves

theorem sleeps_concat (s : Limiter) (r : String) (moves : List Move) (m : Move) :
    s.sleeps r (moves ++ [m]) = s.sleeps r moves ++ (s.run moves).newSleeps r m := by
  induction moves generalizing s with
  | nil => exact List.append_nil _
  | cons m' moves ih =>
    rw [List.cons_append, sleeps, sleeps, ih, List.append_assoc]
    rfl

theorem Asked.newSleeps {r' : String} (h : Asked s s' t r') (r : String) :
    Lane.newSleeps s.now (s.lane r) (s'.lane r) = [] := by
  rw [h.lane r]
  split
  · next hr => rw [hr]; exact Lane.newSleeps_congr rfl
  · exact Lane.newSleeps_congr rfl

theorem Granted.newSleeps {r' : String} {waited : Nat} (h : Granted s s' t r' waited)
    (r : String) : Lane.newSleeps s.now (s.lane r) (s'.lane r) = [] := by
  rw [h.lane r]
  split
  · exact Lane.newSleeps_of_awake rfl
  · exact Lane.newSleeps_congr rfl

theorem Returned.newSleeps {r' : String} (h : Returned s s' t r') (r : String) :
    Lane.newSleeps s.now (s.lane r) (s'.lane r) = [] := by
  rw [h.lane r]
  split
  · next hr => rw [hr]; exact Lane.newSleeps_congr rfl
  · exact Lane.newSleeps_congr rfl

/-- Only who waits in the lane of a registry falls asleep there. -/
theorem Timely.mem_tickets_of_newSleeps (h : s.Timely) {z : Sleep} (hz : z ∈ s.newSleeps r m) :
    z.ticket ∈ (s.lane r).tickets := by
  rw [Limiter.newSleeps] at hz
  cases move_spec s m with
  | asked t registry _ ha => exact absurd hz (ha.newSleeps r ▸ List.not_mem_nil)
  | quiet hq => exact ((h r).newSleeps (hq.lane r) hz).1
  | granted t r' waited hg => exact absurd hz (hg.newSleeps r ▸ List.not_mem_nil)
  | returned t r' hr => exact absurd hz (hr.newSleeps r ▸ List.not_mem_nil)

/-! ## The invariant of sleeps -/

/-- What the sleeps that began so far have to do with the lane of a registry and its grants. -/
structure Slept (s : Limiter) (r : String) (slept : List Sleep) : Prop where
  once : (slept.map (·.ticket)).Nodup
  bounded : ∀ z ∈ slept, 0 < z.length ∧ z.length ≤ window
  waiting : ∀ t ∈ (s.lane r).tickets, (s.lane r).waitedBy t = timeAsleep slept t
  granted : ∀ g ∈ s.grants, g.registry = r → g.waited = timeAsleep slept g.ticket

theorem slept_fresh (rates : Rates) (globalConcurrency : Nat) (r : String) :
    (fresh rates globalConcurrency).Slept r [] where
  once := List.nodup_nil
  bounded _ h := absurd h List.not_mem_nil
  waiting _ h := absurd h List.not_mem_nil
  granted _ h := absurd h List.not_mem_nil

theorem Slept.not_mem_of_waitedBy (h : s.Slept r slept) (ht : t ∈ (s.lane r).tickets)
    (hzero : (s.lane r).waitedBy t = 0) : ∀ z ∈ slept, z.ticket ≠ t := by
  rintro z hz rfl
  have hle := length_le_timeAsleep hz
  rw [← h.waiting _ ht, hzero] at hle
  exact absurd (h.bounded z hz).1 (Nat.not_lt_of_le hle)

theorem Slept.asked (h : s.Slept r slept) {r' : String} (ha : Asked s s' t r')
    (hidle : s.Idle t) (hnew : ∀ z ∈ slept, z.ticket ≠ t) : s'.Slept r slept := by
  have hwaited (u : Ticket) : (s'.lane r).waitedBy u = (s.lane r).waitedBy u := by
    rw [ha.lane r]
    split
    · next hr => rw [hr]; exact Lane.waitedBy_congr rfl u
    · rfl
  refine ⟨h.once, h.bounded, fun u hu => ?_, ha.grants ▸ h.granted⟩
  rw [hwaited]
  by_cases hut : u = t
  · -- the ticket that asks has not been here before
    subst hut
    rw [timeAsleep_eq_zero hnew, Lane.waitedBy_eq_zero]
    exact fun hmem => hidle r (List.mem_append_right _ (List.mem_append_right _ hmem))
  · refine h.waiting u ?_
    rw [ha.lane r] at hu
    split at hu
    · next hr =>
      exact hr ▸ (List.mem_cons.mp (Lane.tickets_ask.mem_iff.mp hu)).resolve_left hut
    · exact hu

theorem Slept.quiet (h : s.Slept r slept) (ht : s.Timely) (ho : s.Orderly) (hq : Quiet s s') :
    s'.Slept r (slept ++ Lane.newSleeps s.now (s.lane r) (s'.lane r)) := by
  have hnew {z : Sleep} (hz : z ∈ Lane.newSleeps s.now (s.lane r) (s'.lane r)) :=
    (ht r).newSleeps (hq.lane r) hz
  refine ⟨?_, fun z hz => ?_, fun u hu => ?_, fun g hg hr => ?_⟩
  · rw [List.map_append, List.nodup_append]
    refine ⟨h.once, Lane.nodup_newSleeps _ _ _, ?_⟩
    rintro _ ht _ ht' rfl
    obtain ⟨z, hz, hzt⟩ := List.mem_map.mp ht
    obtain ⟨z', hz', rfl⟩ := List.mem_map.mp ht'
    obtain ⟨hmem, hzero, -⟩ := hnew hz'
    exact h.not_mem_of_waitedBy hmem hzero z hz hzt
  · rcases List.mem_append.mp hz with hz | hz
    · exact h.bounded z hz
    · exact (hnew hz).2.2
  · rw [timeAsleep_append, ← h.waiting u (Lane.mem_tickets_of_laneMove (hq.lane r) hu)]
    exact Lane.waitedBy_laneMove (ho.once r) (hq.lane r) hu
  · rw [hq.grants] at hg
    -- whoever falls asleep has not been granted
    have hnone := timeAsleep_eq_zero fun z hz hzg =>
      ho.ungranted (hnew hz).1 (List.mem_map.mpr ⟨g, hg, hzg.symm⟩)
    rw [timeAsleep_append, hnone]
    exact h.granted g hg hr

theorem Slept.grant (h : s.Slept r slept) (ho : s.Orderly) {r' : String} {waited : Nat}
    (hg : Granted s s' t r' waited) : s'.Slept r slept := by
  have hwaited : (s.lane r').waitedBy t = waited := Lane.waitedBy_of_admitting hg.pooled
  refine ⟨h.once, h.bounded, fun u hu => ?_, fun g hmem hr => ?_⟩
  · by_cases hr : r = r'
    · subst hr
      -- whoever stays in the lane is not at the lock
      have hperm := hg.tickets.nodup (ho.once r)
      have hu' : u ∈ (s.lane r).tickets := hg.tickets.mem_iff.mpr (List.mem_cons_of_mem _ hu)
      have hut : u ≠ t := fun he => (List.nodup_cons.mp hperm).1 (he ▸ hu)
      rw [← h.waiting u hu', hg.lane r, if_pos rfl, Lane.waitedBy, Lane.waitedBy, hg.pooled]
      exact (if_neg (Ne.symm hut)).symm
    · rw [hg.lane r, if_neg hr] at hu ⊢
      exact h.waiting u hu
  · rw [hg.grants, List.mem_append, List.mem_singleton] at hmem
    rcases hmem with hmem | rfl
    · exact h.granted g hmem hr
    · obtain rfl : r' = r := hr
      rw [← h.waiting t hg.mem_tickets, hwaited]

theorem Slept.returned (h : s.Slept r slept) {r' : String} (hr : Returned s s' t r') :
    s'.Slept r slept := by
  refine ⟨h.once, h.bounded, fun u hu => ?_, hr.grants ▸ h.granted⟩
  rw [hr.tickets] at hu
  rw [← h.waiting u hu, hr.lane r]
  split
  · next he => rw [he]; exact Lane.waitedBy_congr rfl u
  · rfl

theorem Slept.move (h : s.Slept r slept) (ht : s.Timely) (ho : s.Orderly)
    (hm : ∀ t, m.asked? = some t → s.Idle t ∧ ∀ z ∈ slept, z.ticket ≠ t) :
    (s.move m).Slept r (slept ++ s.newSleeps r m) := by
  rw [Limiter.newSleeps]
  cases move_spec s m with
  | asked t registry hasked ha =>
    obtain ⟨hidle, hnew⟩ := hm t (by rw [hasked]; rfl)
    rw [ha.newSleeps, List.append_nil]
    exact h.asked ha hidle hnew
  | quiet hq => exact h.quiet ht ho hq
  | granted t r' waited hg =>
    rw [hg.newSleeps, List.append_nil]
    exact h.grant ho hg
  | returned t r' hr =>
    rw [hr.newSleeps, List.append_nil]
    exact h.returned hr

/-- Only who has asked falls asleep. -/
theorem mem_asked_of_sleeps (rates : Rates) (globalConcurrency : Nat) {moves : List Move}
    {z : Sleep} (hz : z ∈ (fresh rates globalConcurrency).sleeps r moves) :
    z.ticket ∈ asked moves := by
  induction moves using List.reverseRecOn with
  | nil => cases hz
  | append_singleton moves m ih =>
    rw [asked_append]
    refine List.mem_append_left _ ?_
    rw [sleeps_concat, List.mem_append] at hz
    rcases hz with hz | hz
    · exact ih hz
    · by_contra hnot
      have hidle := ((idle_fresh rates globalConcurrency z.ticket).run hnot).1
      exact hidle r ((timely_run rates globalConcurrency moves).mem_tickets_of_newSleeps hz)

theorem slept_run (rates : Rates) (globalConcurrency : Nat) {moves : List Move}
    (hd : Distinct moves) (r : String) :
    ((fresh rates globalConcurrency).run moves).Slept r
      ((fresh rates globalConcurrency).sleeps r moves) := by
  induction moves using List.reverseRecOn with
  | nil => exact slept_fresh rates globalConcurrency r
  | append_singleton moves m ih =>
    rw [Distinct, asked_append, List.nodup_append] at hd
    obtain ⟨hmoves, -, hdisj⟩ := hd
    rw [sleeps_concat, run_append]
    refine (ih hmoves).move (timely_run rates globalConcurrency moves)
      (orderly_run rates globalConcurrency hmoves) fun t ht => ?_
    have hnot : t ∉ asked moves := fun hmem =>
      hdisj t hmem t (by rw [asked_cons, ht]; exact List.mem_cons_self) rfl
    refine ⟨((idle_fresh rates globalConcurrency t).run hnot).1, fun z hz hzt => hnot ?_⟩
    exact hzt ▸ mem_asked_of_sleeps rates globalConcurrency hz

/-! ## Counters -/

theorem counts_onLane (s : Limiter) (r' : String) (f : Lane → Lane)
    (h : Lane.Counts s.now (s.lane r') (f (s.lane r'))) (r : String) :
    Lane.Counts s.now (s.lane r) ((s.onLane r' f).lane r) := by
  rw [lane_onLane]
  split
  · next hr => exact hr ▸ h
  · exact Lane.counts_of_same rfl rfl

theorem Timely.counts_look (h : s.Timely) (t : Ticket) (r' r : String) :
    Lane.Counts s.now (s.lane r) ((s.look t r').lane r) := by
  have hlane := counts_onLane s r' (·.look s.now) (h r').counts_look r
  rcases look_cases s t r' with ⟨he, -⟩ | ⟨waited, -, ⟨-, he⟩ | ⟨wakeAt, _, -, -, -, he⟩⟩
  · rw [he]
    exact Lane.counts_of_same rfl rfl
  · rw [he]
    exact hlane
  · rw [he]
    exact hlane

theorem counts_release (s : Limiter) (t : Ticket) (r : String) :
    Lane.Counts s.now (s.lane r) ((s.release t).lane r) := by
  rcases release_spec s t with ⟨-, he⟩ | ⟨r', hr⟩
  · rw [he]
    exact Lane.counts_of_same rfl rfl
  · rw [hr.lane r]
    split
    · next he => rw [he]; exact Lane.counts_of_same rfl rfl
    · exact Lane.counts_of_same rfl rfl

/-- **Every sleep is counted**, and nothing else is, unless the counters are reset. -/
theorem Timely.counts_move (h : s.Timely) (hm : m ≠ .resetMetrics) (r : String) :
    Lane.Counts s.now (s.lane r) ((s.move m).lane r) := by
  cases m with
  | ask t registry => exact counts_onLane s _ (·.ask t) (Lane.counts_of_same rfl rfl) r
  | seat t r' => exact counts_onLane s r' (·.seat t) Lane.counts_seat r
  | enter t r' => exact counts_onLane s r' (·.enter t) Lane.counts_enter r
  | wake t r' => exact counts_onLane s r' (·.wake s.now t) Lane.counts_wake r
  | look t r' => exact h.counts_look t r' r
  | grant t r' =>
    rw [show s.move (.grant t r') = s.grant t r' from rfl]
    rcases grant_spec s t r' with ⟨he, -⟩ | ⟨waited, hg⟩
    · rw [he]
      exact Lane.counts_of_same rfl rfl
    · refine Lane.counts_of_awake ?_ (hg.newSleeps r)
      rw [hg.lane r]
      split
      · next he => rw [he]; rfl
      · rfl
  | release t => exact counts_release s t r
  | abandon t =>
    rw [show s.move (.abandon t) = s.abandon t from rfl, abandon]
    split
    · next r' _ => exact counts_onLane s r' (·.cancel t) Lane.counts_cancel r
    · exact counts_release s t r
  | sleepUntil time => exact Lane.counts_of_same rfl rfl
  | resetMetrics => exact absurd rfl hm
  | plan called alarms => exact Lane.counts_of_same rfl rfl

/-! ## At most one sleep -/

theorem lane_look {waited : Nat} (hadm : (s.lane r).admitting = some ⟨t, .looking, waited⟩) :
    (s.look t r).lane r = (s.lane r).look s.now := by
  rcases look_cases s t r with ⟨-, hno⟩ | ⟨w, -, ⟨-, he⟩ | ⟨_, _, -, -, -, he⟩⟩
  · exact absurd hadm (hno waited)
  · rw [he]
    exact lane_onLane_self s r (·.look s.now)
  · rw [he]
    exact lane_onLane_self s r (·.look s.now)

/-- A look finds room, or else the ticket has not slept before and falls asleep. -/
theorem Timely.look_spec (h : s.Timely) {waited : Nat}
    (hadm : (s.lane r).admitting = some ⟨t, .looking, waited⟩) :
    ((s.look t r).lane r).admitting = some ⟨t, .pooled, waited⟩ ∨
      waited = 0 ∧ ∃ z : Sleep, z.ticket = t ∧ z.begun = s.now ∧
        s.newSleeps r (.look t r) = [z] ∧
        ((s.look t r).lane r).admitting = some ⟨t, .asleep z.wakeAt, z.length⟩ := by
  have hlane := lane_look hadm
  rcases look_cases s t r with ⟨-, hno⟩ | ⟨w, hadm', ⟨hpooled, -⟩ | ⟨wakeAt, w', hasleep, hfull, -⟩⟩
  · exact absurd hadm (hno waited)
  · rw [hadm] at hadm'
    cases hadm'
    exact .inl (hlane ▸ hpooled)
  · -- a ticket that has slept finds room
    obtain rfl : waited = 0 :=
      Nat.eq_zero_of_not_pos fun hpos => hfull ((h r).fits _ hadm hpos)
    have hnew : s.newSleeps r (.look t r) = [⟨t, s.now, wakeAt⟩] :=
      Lane.newSleeps_of_asleep hadm ((congrArg Lane.admitting hlane).trans hasleep)
    have hw' : w' = wakeAt - s.now := by
      rcases Lane.look_cases (s.lane r) s.now with he | ⟨_, _, -, -, he⟩ |
        ⟨_, _, oldest, rest, hadm'', -, -, he⟩
      · rw [he, hadm] at hasleep
        cases hasleep
      · rw [he] at hasleep
        cases hasleep
      · rw [hadm] at hadm''
        cases hadm''
        rw [he] at hasleep
        cases hasleep
        exact Nat.zero_add _
    refine .inr ⟨rfl, ⟨t, s.now, wakeAt⟩, rfl, rfl, hnew, ?_⟩
    rw [hlane, hasleep, hw']
    rfl

theorem admitting_wake {wakeAt waited : Nat}
    (hadm : (s.lane r).admitting = some ⟨t, .asleep wakeAt, waited⟩) (hle : wakeAt ≤ s.now) :
    ((s.wake t r).lane r).admitting = some ⟨t, .looking, waited⟩ := by
  rw [wake, lane_onLane_self, Lane.wake, hadm]
  dsimp only
  rw [if_pos ⟨rfl, hle⟩]

/-- The window of a registry keeps to a limit, and no acquisition of it sleeps twice. -/
structure SleepsOnce (s : Limiter) (r : String) (limit : Nat) (slept : List Sleep) : Prop where
  short : (s.lane r).recent.length ≤ limit
  sorted : (s.lane r).recent.Pairwise (· ≤ ·)
  once : (slept.map (·.ticket)).Nodup
  bounded : ∀ z ∈ slept, 0 < z.length ∧ z.length ≤ window
  /-- The wait that is reported is the length of the sleep, or zero if there was none. -/
  reported : ∀ g ∈ s.grants, g.registry = r →
    (∃ z ∈ slept, z.ticket = g.ticket ∧ g.waited = z.length) ∨
      (∀ z ∈ slept, z.ticket ≠ g.ticket) ∧ g.waited = 0
  counted : ∀ m, m ≠ .resetMetrics →
    ((s.move m).lane r).waitCount = (s.lane r).waitCount + (s.newSleeps r m).length
  wakes : ∀ t wakeAt waited, (s.lane r).admitting = some ⟨t, .asleep wakeAt, waited⟩ →
    0 < waited ∧
      (wakeAt ≤ s.now → ((s.wake t r).lane r).admitting = some ⟨t, .looking, waited⟩)
  /-- A look finds room, or else the ticket has not slept before and falls asleep. -/
  looks : ∀ t waited, (s.lane r).admitting = some ⟨t, .looking, waited⟩ →
    ((s.look t r).lane r).admitting = some ⟨t, .pooled, waited⟩ ∨
      waited = 0 ∧ ∃ z : Sleep, z.ticket = t ∧ z.begun = s.now ∧
        s.newSleeps r (.look t r) = [z] ∧
        ((s.look t r).lane r).admitting = some ⟨t, .asleep z.wakeAt, z.length⟩
  /-- While a ticket waits for a global slot there is room for it, and pruning makes no less. -/
  room : ∀ t waited, (s.lane r).admitting = some ⟨t, .pooled, waited⟩ →
    ∀ time, (Lane.prune time (s.lane r).recent).length < limit

theorem sleepsOnce_run (rates : Rates) (globalConcurrency : Nat) {moves : List Move}
    (hd : Distinct moves) (r : String) :
    ((fresh rates globalConcurrency).run moves).SleepsOnce r
      (max 1 (rates.lookup r).requestsPerMinute)
      ((fresh rates globalConcurrency).sleeps r moves) := by
  have ht := timely_run rates globalConcurrency moves
  have hslept := slept_run rates globalConcurrency hd r
  have hlimit : Lane.room (((fresh rates globalConcurrency).run moves).lane r).rate =
      max 1 (rates.lookup r).requestsPerMinute := by
    rw [rate_run]
    rfl
  refine ⟨hlimit ▸ (ht r).short, ?_, hslept.once, hslept.bounded, fun g hg hr => ?_,
    fun m hm => ht.counts_move hm r, fun t wakeAt waited hadm => ⟨((ht r).fits _ hadm).1,
      admitting_wake hadm⟩, fun t waited => ht.look_spec, fun t waited hadm time => ?_⟩
  · obtain ⟨old, htimes, -⟩ := (ht r).kept
    exact (List.pairwise_append.mp (htimes ▸ (ht r).sorted)).2.1
  · rw [hslept.granted g hg hr]
    by_cases hex : ∃ z ∈ (fresh rates globalConcurrency).sleeps r moves, z.ticket = g.ticket
    · obtain ⟨z, hz, hzg⟩ := hex
      exact .inl ⟨z, hz, hzg, hzg ▸ timeAsleep_of_nodup hslept.once hz⟩
    · have hnone : ∀ z ∈ (fresh rates globalConcurrency).sleeps r moves, z.ticket ≠ g.ticket :=
        fun z hz hzg => hex ⟨z, hz, hzg⟩
      exact .inr ⟨hnone, timeAsleep_eq_zero hnone⟩
  · have hroom : (((fresh rates globalConcurrency).run moves).lane r).recent.length < _ :=
      (ht r).fits _ hadm
    exact hlimit ▸ Nat.lt_of_le_of_lt (Lane.length_prune_le time _) hroom

/-- **Nobody sleeps twice.** In every run, and so for whatever the users of a workload do, an
acquisition sleeps at most once for room in the window of its registry, and then finds it. -/
theorem sleeps_once (rates : Rates) (globalConcurrency : Nat) (moves : List Move)
    (hd : Distinct moves) :
    (∀ r, ((fresh rates globalConcurrency).run moves).SleepsOnce r
        (max 1 (rates.lookup r).requestsPerMinute)
        ((fresh rates globalConcurrency).sleeps r moves)) ∧
      ∀ (ops : List Workload.Operation), ∃ moves', Distinct moves' ∧
        (ops.foldl Workload.perform (Workload.fresh (fresh rates globalConcurrency))).limiter =
          (fresh rates globalConcurrency).run moves' ∧
        ∀ r, ((fresh rates globalConcurrency).run moves').SleepsOnce r
          (max 1 (rates.lookup r).requestsPerMinute)
          ((fresh rates globalConcurrency).sleeps r moves') := by
  refine ⟨fun r => sleepsOnce_run rates globalConcurrency hd r, fun ops => ?_⟩
  obtain ⟨moves', hrun, hasked⟩ := Workload.exists_run (fresh rates globalConcurrency) ops
  have hd' : Distinct moves' := by
    rw [Distinct, hasked]
    exact List.nodup_range
  exact ⟨moves', hd', hrun, fun r => sleepsOnce_run rates globalConcurrency hd' r⟩

/-- A limit of zero counts as one: the second ticket sleeps until the first grant is a minute
old. -/
theorem sleeps_once_zero :
    let moves : List Move := [.ask 0 "r", .seat 0 "r", .enter 0 "r", .look 0 "r", .grant 0 "r",
      .sleepUntil 100, .ask 1 "r", .seat 1 "r", .enter 1 "r", .look 1 "r", .sleepUntil 60000,
      .wake 1 "r", .look 1 "r", .grant 1 "r"]
    let start := fresh ⟨[("r", ⟨0, 2, 1⟩)]⟩ 2
    Distinct moves ∧ start.sleeps "r" moves = [⟨1, 100, 60000⟩] ∧
      (start.run moves).grants.map (·.waited) = [0, 59900] ∧
      (start.run moves).SleepsOnce "r" 1 (start.sleeps "r" moves) := by
  have hd : Distinct [.ask 0 "r", .seat 0 "r", .enter 0 "r", .look 0 "r", .grant 0 "r",
      .sleepUntil 100, .ask 1 "r", .seat 1 "r", .enter 1 "r", .look 1 "r", .sleepUntil 60000,
      .wake 1 "r", .look 1 "r", .grant 1 "r"] := by decide
  exact ⟨hd, by decide, by decide, (sleeps_once ⟨[("r", ⟨0, 2, 1⟩)]⟩ 2 _ hd).1 "r"⟩

end Limiter

end TagWatch.Limit
