import TagWatch.Proofs.Limit.Counters

/-!
# Clocks

A clock adds up the time that passes along a run while something is so (`Limiter.timeWhile`). Clocks
that agree whenever time passes (`Limiter.Pauses`) show the same.

**Theorem (`Limiter.spent_run`).** In a brisk run the time that an acquisition spends asleep is the wait
that is reported with its grant: a sleep is as long as it was to be, because nobody is woken up late.
While it lasts, what is left of it is still to be spent (`Lane.remaining`).

**Theorem (`Limiter.clocked_run`).** The time that an acquisition spends with a slot is the time from
getting the slot (`Limiter.slotTime?`) to the grant. It gets its slot once and keeps it.
-/

namespace TagWatch.Limit

/-! ## Sleepers of a lane -/

namespace Lane

variable {l l' : Lane} {t u : Ticket} {now wakeAt : Nat}

/-- Whether a ticket sleeps for room in the window. -/
def isAsleep (l : Lane) (t : Ticket) : Bool := l.sleeper?.any (·.1 == t)

/-- For how long a ticket is still going to sleep. -/
def remaining (l : Lane) (now : Nat) (t : Ticket) : Nat :=
  match l.sleeper? with
  | some (u, wakeAt) => if u = t then wakeAt - now else 0
  | none => 0

theorem sleeper?_eq_some_iff :
    l.sleeper? = some (t, wakeAt) ↔ ∃ waited, l.admitting = some ⟨t, .asleep wakeAt, waited⟩ := by
  rw [sleeper?]
  split
  · next u wakeAt' waited hadm =>
    rw [hadm]
    simp
  · next hno =>
    constructor
    · intro h
      cases h
    · intro h
      obtain ⟨waited, hadm⟩ := h
      exact absurd hadm (hno t wakeAt waited)

theorem sleeper?_congr (h : l'.admitting = l.admitting) : l'.sleeper? = l.sleeper? := by
  rw [sleeper?, sleeper?, h]

theorem isAsleep_iff : l.isAsleep t = true ↔ ∃ wakeAt, l.sleeper? = some (t, wakeAt) := by
  rw [isAsleep]
  cases l.sleeper? with
  | none => simp
  | some e => simp [Prod.ext_iff]

theorem mem_tickets_of_admitted (h : t ∈ l.admitted) : t ∈ l.tickets :=
  List.mem_append_right _ (List.mem_append_right _ h)

theorem mem_admitted_of_isAsleep (h : l.isAsleep t = true) : t ∈ l.admitted := by
  obtain ⟨wakeAt, hsleep⟩ := isAsleep_iff.mp h
  obtain ⟨waited, hadm⟩ := sleeper?_eq_some_iff.mp hsleep
  rw [admitted_of_admitting hadm]
  exact List.mem_singleton_self t

theorem mem_tickets_of_isAsleep (h : l.isAsleep t = true) : t ∈ l.tickets :=
  mem_tickets_of_admitted (mem_admitted_of_isAsleep h)

theorem remaining_congr (h : l'.admitting = l.admitting) (now : Nat) (t : Ticket) :
    l'.remaining now t = l.remaining now t := by
  rw [remaining, remaining, sleeper?_congr h]

theorem remaining_of_sleeper (h : l.sleeper? = some (t, wakeAt)) (now : Nat) (u : Ticket) :
    l.remaining now u = if t = u then wakeAt - now else 0 := by
  rw [remaining, h]

theorem remaining_of_awake (h : ¬ l.isAsleep t = true) (now : Nat) : l.remaining now t = 0 := by
  rw [remaining]
  split
  · next u wakeAt hsleep =>
    apply if_neg
    rintro rfl
    exact h (isAsleep_iff.mpr ⟨wakeAt, hsleep⟩)
  · rfl

theorem remaining_eq_zero (h : t ∉ l.admitted) (now : Nat) : l.remaining now t = 0 :=
  remaining_of_awake (mt mem_admitted_of_isAsleep h) now

theorem remaining_of_none (h : l.sleeper? = none) (now : Nat) (t : Ticket) :
    l.remaining now t = 0 := by
  rw [remaining, h]

/-- The rest of a sleep is longer by the sleeps that begin, and a ticket wakes up when nothing is left
of its sleep. -/
theorem remaining_laneMove (hn : l.tickets.Nodup) (h : LaneMove now l l') (hu : u ∈ l'.tickets) :
    l'.remaining now u = l.remaining now u + timeAsleep (newSleeps now l l') u := by
  have hsame (hadm : l'.admitting = l.admitting) :
      l'.remaining now u = l.remaining now u + timeAsleep (newSleeps now l l') u := by
    rw [newSleeps_congr hadm, remaining_congr hadm]
    rfl
  cases h with
  | stay => exact hsame rfl
  | seat t => exact hsame admitting_seat
  | enter t =>
    rcases enter_cases l t with he | ⟨rest, hadm, -, he⟩
    · exact hsame (congrArg Lane.admitting he)
    · have hbefore : l.sleeper? = none := by rw [sleeper?, hadm]
      have hafter : (l.enter t).sleeper? = none := by rw [he, sleeper?]
      rw [newSleeps_enter, remaining_of_none hbefore, remaining_of_none hafter]
      rfl
  | wake t =>
    rcases wake_cases l now t with he | ⟨wakeAt, waited, hadm, hle, he⟩
    · exact hsame (congrArg Lane.admitting he)
    · have hbefore : l.sleeper? = some (t, wakeAt) := by rw [sleeper?, hadm]
      have hafter : (l.wake now t).sleeper? = none := by rw [he, sleeper?]
      rw [newSleeps_wake, remaining_of_sleeper hbefore, remaining_of_none hafter,
        Nat.sub_eq_zero_of_le hle, ite_self]
      rfl
  | look =>
    rcases look_cases l now with he | ⟨t, waited, hadm, -, he⟩ |
      ⟨t, waited, oldest, rest, hadm, -, -, he⟩
    · exact hsame (congrArg Lane.admitting he)
    · have hbefore : l.sleeper? = none := by rw [sleeper?, hadm]
      have hafter : (l.look now).sleeper? = none := by rw [he, sleeper?]
      rw [newSleeps_of_awake hafter, remaining_of_none hbefore, remaining_of_none hafter]
      rfl
    · have hbefore : l.sleeper? = none := by rw [sleeper?, hadm]
      have hafter : (l.look now).sleeper? = some (t, oldest + window) := by rw [he, sleeper?]
      rw [newSleeps_of_asleep hadm (by rw [he]), remaining_of_none hbefore,
        remaining_of_sleeper hafter, timeAsleep, timeAsleep, Nat.zero_add, Nat.add_zero]
      rfl
  | cancel t =>
    have hadm {a : Admission} : (l.cancel t).admitting = some a ↔ a.ticket ≠ t ∧ _ :=
      admitting_cancel hn
    cases ha : (l.cancel t).admitting with
    | some a => exact hsame (by rw [ha, (hadm.mp ha).2])
    | none =>
      -- whoever was at the lock has given up, and is not `u`
      rw [tickets_cancel, hn.mem_erase_iff] at hu
      have hnot : u ∉ l.admitted := by
        intro hmem
        obtain ⟨a, hla, rfl⟩ := mem_admitted_iff.mp hmem
        rw [hadm.mpr ⟨hu.1, hla⟩] at ha
        cases ha
      have hnot' : u ∉ (l.cancel t).admitted := by
        rw [admitted, ha]
        exact List.not_mem_nil
      rw [newSleeps_cancel, remaining_eq_zero hnot, remaining_eq_zero hnot']
      rfl
  | reset => exact hsame rfl

/-- What a ticket has waited, less what is left of its sleep, does not change by a move in its lane. -/
theorem waitedBy_add_remaining (hn : l.tickets.Nodup) (h : LaneMove now l l')
    (hu : u ∈ l'.tickets) :
    l'.waitedBy u + l.remaining now u = l.waitedBy u + l'.remaining now u := by
  have hwaited := waitedBy_laneMove hn h hu
  have hremaining := remaining_laneMove hn h hu
  omega

/-- Nobody comes to stand in the line of a lane by a move inside it. -/
theorem mem_line_of_laneMove (h : LaneMove now l l') (hu : u ∈ l'.slots.line) :
    u ∈ l.slots.line := by
  cases h with
  | stay => exact hu
  | seat t =>
    by_cases hadmits : l.slots.admits t = true
    · rw [seat_of_admits hadmits] at hu
      exact List.mem_of_mem_erase hu
    · rwa [seat, if_neg hadmits] at hu
  | enter t => rwa [slots_enter] at hu
  | wake t => rwa [slots_wake] at hu
  | look => rwa [slots_look] at hu
  | cancel t =>
    unfold cancel at hu
    split at hu
    · exact List.mem_of_mem_erase hu
    · split at hu
      · exact hu
      · split at hu <;> exact hu
  | reset => exact hu

end Lane

namespace Limiter

variable {s s' : Limiter} {m : Move} {moves : List Move} {r : String} {t u : Ticket} {g : Grant}

/-! ## Clocks -/

section timeWhile

variable {p q q' : Limiter → Prop} [DecidablePred p] [DecidablePred q] [DecidablePred q']

/-- The time that a move takes. -/
def elapsed (s : Limiter) (m : Move) : Nat := (s.move m).now - s.now

/-- The time that passes in a run while something is so. -/
def timeWhile (s : Limiter) (p : Limiter → Prop) [DecidablePred p] : List Move → Nat
  | [] => 0
  | m :: moves => (if p s then s.elapsed m else 0) + (s.move m).timeWhile p moves

theorem timeWhile_concat (s : Limiter) (p : Limiter → Prop) [DecidablePred p] (moves : List Move)
    (m : Move) : s.timeWhile p (moves ++ [m]) =
      s.timeWhile p moves + if p (s.run moves) then (s.run moves).elapsed m else 0 := by
  induction moves generalizing s with
  | nil => exact Nat.add_comm _ _
  | cons m' moves ih =>
    rw [List.cons_append, timeWhile, timeWhile, ih, Nat.add_assoc]
    rfl

/-- The states of a run in which time passes. -/
inductive Pauses : Limiter → List Move → Limiter → Prop
  | here {s : Limiter} {m : Move} (moves : List Move) (h : 0 < s.elapsed m) : Pauses s (m :: moves) s
  | later {s s' : Limiter} (m : Move) {moves : List Move} (h : Pauses (s.move m) moves s') :
    Pauses s (m :: moves) s'

/-- Time that passes in one of two ways is added up. -/
theorem timeWhile_split (hor : ∀ s', s.Pauses moves s' → (p s' ↔ q s' ∨ q' s'))
    (hnot : ∀ s', s.Pauses moves s' → q s' → ¬ q' s') :
    s.timeWhile p moves = s.timeWhile q moves + s.timeWhile q' moves := by
  induction moves generalizing s with
  | nil => rfl
  | cons m moves ih =>
    have hrest := ih (s := s.move m) (fun s' h => hor s' (.later m h))
      (fun s' h => hnot s' (.later m h))
    have hfirst : (if p s then s.elapsed m else 0) =
        (if q s then s.elapsed m else 0) + if q' s then s.elapsed m else 0 := by
      rcases Nat.eq_zero_or_pos (s.elapsed m) with hzero | hpos
      · simp only [hzero, ite_self]
      · have hp := hor s (.here moves hpos)
        have hq := hnot s (.here moves hpos)
        by_cases hqs : q s
        · simp [hp, hqs, hq hqs]
        · simp [hp, hqs]
    rw [timeWhile, timeWhile, timeWhile, hrest, hfirst]
    omega

theorem timeWhile_congr (h : ∀ s', s.Pauses moves s' → (p s' ↔ q s')) :
    s.timeWhile p moves = s.timeWhile q moves := by
  induction moves generalizing s with
  | nil => rfl
  | cons m moves ih =>
    have hrest := ih (s := s.move m) fun s' hs' => h s' (.later m hs')
    rw [timeWhile, timeWhile, hrest]
    rcases Nat.eq_zero_or_pos (s.elapsed m) with hzero | hpos
    · rw [hzero, ite_self, ite_self]
    · rw [if_congr (h s (.here moves hpos)) rfl rfl]

theorem timeWhile_eq_zero_iff :
    s.timeWhile p moves = 0 ↔ ∀ s', s.Pauses moves s' → ¬ p s' := by
  induction moves generalizing s with
  | nil =>
    refine iff_of_true rfl ?_
    intro s' hs'
    cases hs'
  | cons m moves ih =>
    rw [timeWhile, Nat.add_eq_zero_iff, ih]
    constructor
    · intro h s' hs'
      cases hs' with
      | here _ hpos =>
        intro hp
        rw [if_pos hp] at h
        omega
      | later _ hs' => exact h.2 s' hs'
    · intro h
      refine ⟨?_, fun s' hs' => h s' (.later m hs')⟩
      split
      · next hp =>
        by_contra hne
        exact h s (.here moves (Nat.pos_of_ne_zero hne)) hp
      · rfl

end timeWhile

theorem elapsed_of_now (h : (s.move m).now = s.now) : s.elapsed m = 0 := by
  rw [elapsed, h, Nat.sub_self]

/-- Time passes by sleeping only, and nothing changes in the lanes meanwhile. -/
theorem lane_of_elapsed (h : 0 < s.elapsed m) (r : String) : (s.move m).lane r = s.lane r := by
  cases hm : m.takesTime with
  | true =>
    obtain ⟨time, rfl⟩ : ∃ time, m = .sleepUntil time := by
      cases m <;> simp [Move.takesTime] at hm ⊢
    rfl
  | false =>
    rw [elapsed_of_now (now_move hm)] at h
    exact absurd h (Nat.lt_irrefl 0)

/-- What is granted by a move has waited at the window lock with room in the window. -/
theorem mem_grants_move (hg : g ∈ (s.move m).grants) :
    g ∈ s.grants ∨ (s.lane g.registry).admitting = some ⟨g.ticket, .pooled, g.waited⟩ ∧
      g.time = s.now ∧ (s.move m).now = s.now := by
  cases move_spec s m with
  | asked t registry _ ha => exact .inl (ha.grants ▸ hg)
  | quiet hq => exact .inl (hq.grants ▸ hg)
  | granted t r' waited h =>
    rw [h.grants, List.mem_append, List.mem_singleton] at hg
    rcases hg with hg | rfl
    · exact .inl hg
    · exact .inr ⟨h.pooled, rfl, h.now⟩
  | returned t r' hr => exact .inl (hr.grants ▸ hg)

/-! ## The time asleep -/

/-- The time that a ticket spends asleep in a run. -/
def timeSlept (s : Limiter) (r : String) (t : Ticket) (moves : List Move) : Nat :=
  s.timeWhile (fun s => (s.lane r).isAsleep t = true) moves

theorem waitedBy_add_remaining (ho : s.Orderly) (hu : u ∈ ((s.move m).lane r).tickets) :
    ((s.move m).lane r).waitedBy u + (s.lane r).remaining s.now u =
      (s.lane r).waitedBy u + ((s.move m).lane r).remaining s.now u := by
  have hsame (hadm : ((s.move m).lane r).admitting = (s.lane r).admitting) :
      ((s.move m).lane r).waitedBy u + (s.lane r).remaining s.now u =
        (s.lane r).waitedBy u + ((s.move m).lane r).remaining s.now u := by
    rw [Lane.waitedBy_congr hadm, Lane.remaining_congr hadm]
  cases move_spec s m with
  | asked t registry _ ha =>
    apply hsame
    rw [ha.lane r]
    split
    · next hr => rw [hr]; rfl
    · rfl
  | quiet hq => exact Lane.waitedBy_add_remaining (ho.once r) (hq.lane r) hu
  | granted t r' waited hg =>
    by_cases hr : r = r'
    · subst hr
      -- whoever stays in the lane is not at the lock
      have hperm := hg.tickets.nodup (ho.once r)
      have htu : t ≠ u := fun he => (List.nodup_cons.mp hperm).1 (he ▸ hu)
      have hbefore : (s.lane r).sleeper? = none := by rw [Lane.sleeper?, hg.pooled]
      have hlane : (s.move m).lane r = (s.lane r).grantAt s.now := by rw [hg.lane r, if_pos rfl]
      have hafter : ((s.lane r).grantAt s.now).sleeper? = none := rfl
      rw [hlane, Lane.remaining_of_none hbefore, Lane.remaining_of_none hafter, Lane.waitedBy,
        Lane.waitedBy, hg.pooled]
      exact (if_neg htu).symm
    · exact hsame (by rw [hg.lane r, if_neg hr])
  | returned t r' hr =>
    apply hsame
    rw [hr.lane r]
    split
    · next he => rw [he]; rfl
    · rfl

/-- In a brisk run a sleep takes exactly as long as it is to take. -/
theorem elapsed_add_remaining (hb : s.BriskMove m) (r : String) (t : Ticket) :
    (if (s.lane r).isAsleep t = true then s.elapsed m else 0) +
        ((s.move m).lane r).remaining (s.move m).now t =
      ((s.move m).lane r).remaining s.now t := by
  rcases Nat.eq_zero_or_pos (s.elapsed m) with hzero | hpos
  · have hnow : (s.move m).now = s.now :=
      Nat.le_antisymm (Nat.sub_eq_zero_iff_le.mp hzero) (now_le_move s m)
    rw [hzero, ite_self, Nat.zero_add, hnow]
  · rw [lane_of_elapsed hpos r]
    by_cases hasleep : (s.lane r).isAsleep t = true
    · obtain ⟨wakeAt, hsleep⟩ := Lane.isAsleep_iff.mp hasleep
      have hlt : s.now < (s.move m).now := Nat.lt_of_sub_pos hpos
      have hearly : (s.move m).now ≤ wakeAt :=
        (hb hlt).early r t wakeAt (Lane.sleeper?_eq_some_iff.mp hsleep)
      rw [if_pos hasleep, Lane.remaining_of_sleeper hsleep, Lane.remaining_of_sleeper hsleep,
        if_pos rfl, if_pos rfl, elapsed]
      omega
    · rw [if_neg hasleep, Lane.remaining_of_awake hasleep, Lane.remaining_of_awake hasleep]

/-- What the time that tickets have spent asleep so far has to do with what they report. -/
structure Spent (s : Limiter) (r : String) (spent : Ticket → Nat) : Prop where
  waiting : ∀ t ∈ (s.lane r).tickets,
    spent t + (s.lane r).remaining s.now t = (s.lane r).waitedBy t
  granted : ∀ g ∈ s.grants, g.registry = r → spent g.ticket = g.waited

theorem Spent.move {spent : Ticket → Nat} (h : s.Spent r spent) (ho : s.Orderly)
    (hb : s.BriskMove m) (hm : ∀ t, m.asked? = some t → spent t = 0) :
    (s.move m).Spent r
      fun t => spent t + if (s.lane r).isAsleep t = true then s.elapsed m else 0 := by
  constructor
  · intro u hu
    have hclock := elapsed_add_remaining hb r u
    have hmove := waitedBy_add_remaining ho hu
    have hbefore : spent u + (s.lane r).remaining s.now u = (s.lane r).waitedBy u := by
      by_cases hmem : u ∈ (s.lane r).tickets
      · exact h.waiting u hmem
      · rcases waited_or_asked hu with hmem' | ⟨registry, rfl, -⟩
        · exact absurd hmem' hmem
        · have hnot : u ∉ (s.lane r).admitted := mt Lane.mem_tickets_of_admitted hmem
          rw [hm u rfl, Lane.remaining_eq_zero hnot, Lane.waitedBy_eq_zero hnot]
    show spent u + _ + _ = _
    omega
  · intro g hg hr
    show spent g.ticket + _ = _
    have hawake (h : ¬ (s.lane r).isAsleep g.ticket = true) (hspent : spent g.ticket = g.waited) :
        (spent g.ticket + if (s.lane r).isAsleep g.ticket = true then s.elapsed m else 0) =
          g.waited := by
      rw [if_neg h, hspent, Nat.add_zero]
    rcases mem_grants_move hg with hold | ⟨hpooled, -, -⟩
    · refine hawake ?_ (h.granted g hold hr)
      -- whoever has been granted is not in a lane
      intro hasleep
      exact ho.ungranted (Lane.mem_tickets_of_isAsleep hasleep) (List.mem_map_of_mem hold)
    · subst hr
      have hnone : (s.lane g.registry).sleeper? = none := by rw [Lane.sleeper?, hpooled]
      apply hawake
      · rw [Lane.isAsleep, hnone]
        exact Bool.false_ne_true
      · have hwaiting := h.waiting g.ticket (Lane.mem_tickets_of_admitting hpooled)
        rwa [Lane.remaining_of_none hnone, Lane.waitedBy_of_admitting hpooled] at hwaiting

/-- Who does not ask is idle whenever time passes. -/
theorem Idle.pauses (h : s.Idle t) (hm : t ∉ asked moves) (hp : s.Pauses moves s') : s'.Idle t := by
  induction hp with
  | here moves hpos => exact h
  | later m _ ih =>
    rw [asked_cons, List.mem_append, Option.mem_toList] at hm
    exact ih (h.move fun he => hm (.inl he)) fun hmem => hm (.inr hmem)

theorem spent_run (rates : Rates) (globalConcurrency : Nat) (hd : Distinct moves)
    (hb : (fresh rates globalConcurrency).Brisk moves) (r : String) :
    ((fresh rates globalConcurrency).run moves).Spent r
      fun t => (fresh rates globalConcurrency).timeSlept r t moves := by
  induction moves using List.reverseRecOn with
  | nil => exact ⟨fun _ h => absurd h List.not_mem_nil, fun _ h => absurd h List.not_mem_nil⟩
  | append_singleton moves m ih =>
    obtain ⟨hmoves, hnew⟩ := hd.concat
    obtain ⟨hbrisk, hbriskm, -⟩ := brisk_append.mp hb
    rw [run_append]
    simp only [timeSlept, timeWhile_concat]
    apply (ih hmoves hbrisk).move (orderly_run rates globalConcurrency hmoves) hbriskm
    intro t ht
    apply timeWhile_eq_zero_iff.mpr
    intro s' hs' hasleep
    have hidle := (idle_fresh rates globalConcurrency t).pauses (hnew t ht) hs'
    exact hidle r (Lane.mem_tickets_of_isAsleep hasleep)

/-! ## The time with a slot -/

/-- The time that a ticket waits with a slot of a registry in a run. -/
def timeInside (s : Limiter) (r : String) (t : Ticket) (moves : List Move) : Nat :=
  s.timeWhile (fun s => t ∈ (s.lane r).inside) moves

/-- The time at which a ticket gets its slot of a registry in a run. -/
def slotTime? (s : Limiter) (r : String) (t : Ticket) : List Move → Option Nat
  | [] => if t ∈ (s.lane r).inside then some s.now else none
  | m :: moves => if t ∈ (s.lane r).inside then some s.now else (s.move m).slotTime? r t moves

theorem slotTime?_concat (s : Limiter) (r : String) (t : Ticket) (moves : List Move) (m : Move) :
    s.slotTime? r t (moves ++ [m]) = (s.slotTime? r t moves).or
      (if t ∈ (((s.run moves).move m).lane r).inside then some ((s.run moves).move m).now
        else none) := by
  induction moves generalizing s with
  | nil =>
    rw [List.nil_append, slotTime?, slotTime?]
    split <;> rfl
  | cons m' moves ih =>
    rw [List.cons_append, slotTime?, slotTime?]
    split
    · rfl
    · exact ih (s.move m')

/-- Until a ticket gets its slot it does not wait with one. -/
theorem timeInside_eq_zero (h : s.slotTime? r t moves = none) : s.timeInside r t moves = 0 := by
  induction moves generalizing s with
  | nil => rfl
  | cons m moves ih =>
    rw [slotTime?] at h
    split at h
    · cases h
    · next hnot =>
      rw [timeInside, timeWhile, if_neg hnot, Nat.zero_add]
      exact ih h

theorem Idle.slotTime?_eq_none (h : s.Idle t) (hm : t ∉ asked moves) :
    s.slotTime? r t moves = none := by
  have hnot : t ∉ (s.lane r).inside := not_mem_inside (h r)
  induction moves generalizing s with
  | nil => rw [slotTime?, if_neg hnot]
  | cons m moves ih =>
    rw [asked_cons, List.mem_append, Option.mem_toList] at hm
    have hmove : (s.move m).Idle t := h.move fun he => hm (.inl he)
    rw [slotTime?, if_neg hnot]
    exact ih hmove (fun hmem => hm (.inr hmem)) (not_mem_inside (hmove r))

theorem Orderly.not_mem_inside_of_line (h : s.Orderly) (ht : t ∈ (s.lane r).slots.line) :
    t ∉ (s.lane r).inside := by
  have honce := h.once r
  rw [Lane.tickets, List.nodup_append] at honce
  intro hin
  exact honce.2.2 t ht t hin rfl

/-- Whoever stands in the line of a lane after a move has stood there before or has just asked. -/
theorem mem_line_move (hu : u ∈ ((s.move m).lane r).slots.line) :
    u ∈ (s.lane r).slots.line ∨ m.asked? = some u := by
  cases move_spec s m with
  | asked t registry hm ha =>
    rw [ha.lane r] at hu
    split at hu
    · next hr =>
      rcases List.mem_append.mp (show u ∈ _ ++ [t] from hu) with hu | hu
      · exact .inl (hr ▸ hu)
      · right
        rw [hm, List.mem_singleton.mp hu]
        rfl
    · exact .inl hu
  | quiet hq => exact .inl (Lane.mem_line_of_laneMove (hq.lane r) hu)
  | granted t r' waited hg =>
    left
    rw [hg.lane r] at hu
    split at hu
    · next hr => exact hr ▸ hu
    · exact hu
  | returned t r' hr =>
    left
    rw [hr.lane r] at hu
    split at hu
    · next he => exact he ▸ hu
    · exact hu

/-- Whoever waits with a slot after a move has had it before or has stood in the line for it. -/
theorem mem_inside_move (hu : u ∈ ((s.move m).lane r).inside) :
    u ∈ (s.lane r).slots.line ∨ u ∈ (s.lane r).inside := by
  apply List.mem_append.mp
  show u ∈ (s.lane r).tickets
  cases move_spec s m with
  | asked t registry hm ha =>
    rw [ha.lane r] at hu
    split at hu
    · next hr => exact hr ▸ List.mem_append_right _ hu
    · exact List.mem_append_right _ hu
  | quiet hq => exact Lane.mem_tickets_of_laneMove (hq.lane r) (List.mem_append_right _ hu)
  | granted t r' waited hg =>
    by_cases hr : r = r'
    · subst hr
      exact hg.tickets.mem_iff.mpr (List.mem_cons_of_mem _ (List.mem_append_right _ hu))
    · rw [hg.lane r, if_neg hr] at hu
      exact List.mem_append_right _ hu
  | returned t r' hr => exact hr.tickets r ▸ List.mem_append_right _ hu

/-- A ticket got its slot in a run, and has waited with it until a time. -/
def HasWaited (s : Limiter) (r : String) (t : Ticket) (moves : List Move) (time : Nat) : Prop :=
  ∃ begun, s.slotTime? r t moves = some begun ∧ begun + s.timeInside r t moves = time

/-- Since when the tickets of a registry have waited with their slots. -/
structure Clocked (s : Limiter) (r : String) (moves : List Move) : Prop where
  line : ∀ t ∈ ((s.run moves).lane r).slots.line, s.slotTime? r t moves = none
  inside : ∀ t ∈ ((s.run moves).lane r).inside, s.HasWaited r t moves (s.run moves).now
  granted : ∀ g ∈ (s.run moves).grants, g.registry = r → s.HasWaited r g.ticket moves g.time

/-- Time that passes counts for whoever waits with a slot. -/
theorem HasWaited.concat {time : Nat} (h : s.HasWaited r t moves time) (m : Move) :
    s.HasWaited r t (moves ++ [m])
      (time + if t ∈ ((s.run moves).lane r).inside then (s.run moves).elapsed m else 0) := by
  obtain ⟨begun, hslot, htime⟩ := h
  refine ⟨begun, ?_, ?_⟩
  · rw [slotTime?_concat, hslot]
    rfl
  · rw [timeInside, timeWhile_concat, ← Nat.add_assoc, ← timeInside, htime]

theorem hasWaited_of_slot (hnone : s.slotTime? r t moves = none)
    (hnot : t ∉ ((s.run moves).lane r).inside)
    (hin : t ∈ (((s.run moves).move m).lane r).inside) :
    s.HasWaited r t (moves ++ [m]) ((s.run moves).move m).now := by
  refine ⟨((s.run moves).move m).now, ?_, ?_⟩
  · rw [slotTime?_concat, hnone, if_pos hin]
    rfl
  · have hzero := timeInside_eq_zero hnone
    rw [timeInside] at hzero ⊢
    rw [timeWhile_concat, if_neg hnot, hzero]
    rfl

theorem Clocked.concat (h : s.Clocked r moves) (ho : (s.run moves).Orderly)
    (ho' : ((s.run moves).move m).Orderly)
    (hm : ∀ t, m.asked? = some t → s.slotTime? r t moves = none) : s.Clocked r (moves ++ [m]) := by
  have hrun : s.run (moves ++ [m]) = (s.run moves).move m := run_append s moves [m]
  refine ⟨?_, ?_, ?_⟩
  · rw [hrun]
    intro u hu
    have hnone : s.slotTime? r u moves = none := (mem_line_move hu).elim (h.line u) (hm u)
    rw [slotTime?_concat, hnone, if_neg (ho'.not_mem_inside_of_line hu)]
    rfl
  · rw [hrun]
    intro u hu
    rcases mem_inside_move hu with hline | hin
    · exact hasWaited_of_slot (h.line u hline) (ho.not_mem_inside_of_line hline) hu
    · have hlater := (h.inside u hin).concat m
      rwa [if_pos hin, elapsed, Nat.add_sub_cancel' (now_le_move _ m)] at hlater
  · rw [hrun]
    intro g hg hr
    rcases mem_grants_move hg with hold | ⟨hpooled, htime, hnow⟩
    · -- whoever has been granted is not in a lane
      have hnot : g.ticket ∉ ((s.run moves).lane r).inside := by
        intro hin
        exact ho.ungranted (List.mem_append_right _ hin) (List.mem_map_of_mem hold)
      have hlater := (h.granted g hold hr).concat m
      rwa [if_neg hnot] at hlater
    · subst hr
      have hin : g.ticket ∈ ((s.run moves).lane g.registry).inside := by
        rw [Lane.inside, Lane.admitted_of_admitting hpooled]
        exact List.mem_append_right _ (List.mem_singleton_self _)
      have hlater := (h.inside g.ticket hin).concat m
      rwa [if_pos hin, elapsed_of_now hnow, ← htime] at hlater

theorem clocked_run (rates : Rates) (globalConcurrency : Nat) (hd : Distinct moves) (r : String) :
    (fresh rates globalConcurrency).Clocked r moves := by
  induction moves using List.reverseRecOn with
  | nil =>
    exact ⟨fun _ h => absurd h List.not_mem_nil, fun _ h => absurd h List.not_mem_nil,
      fun _ h => absurd h List.not_mem_nil⟩
  | append_singleton moves m ih =>
    obtain ⟨hmoves, hnew⟩ := hd.concat
    have ho' := orderly_run rates globalConcurrency hd
    rw [run_append] at ho'
    apply (ih hmoves).concat (orderly_run rates globalConcurrency hmoves) ho'
    intro t ht
    exact (idle_fresh rates globalConcurrency t).slotTime?_eq_none (hnew t ht)

end Limiter

end TagWatch.Limit
