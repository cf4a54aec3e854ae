import TagWatch.Proofs.Limit.Clock

/-!
# What a reported wait leaves out

An acquisition with a slot waits for the window lock, then for room in the window, and then for a global
slot. The wait that is reported with its grant is the time of its own sleep.

**Theorem (`Limiter.wait_omits_queue`).** In every brisk run, and so for whatever the users of a
workload do, the time from getting a slot to the grant is the reported wait, the time in the queue for
the window lock and the time in the line for a global slot. If global slots are free all that time, the
reported wait falls short of it by exactly the time for which another ticket sleeps at the lock.

So a ticket that a full window holds up behind a sleeper reports a wait of zero, or one that is too
short, and it is not counted unless it falls asleep itself (`Limiter.wait_omits_queue_behind`).

In a brisk run time passes only while nobody can go on (`Limiter.Still`). Then a ticket with a slot is
in one of three places, and if a global slot is free, a queue for a window lock stands behind a sleeper.
-/

namespace TagWatch.Limit

namespace Limiter

variable {s s' : Limiter} {moves : List Move} {r : String} {t u : Ticket} {g : Grant}

/-! ## Still limiters -/

/-- An orderly limiter in which nobody can go on. -/
structure Still (s : Limiter) : Prop where
  orderly : s.Orderly
  lined : s.Lined
  stuck : ∀ r t, ¬ s.CanGo r t

/-- **Time passes in still limiters only.** -/
theorem still_of_pauses (ho : s.Orderly) (hl : s.Lined) (ha : s.Admissible moves)
    (hb : s.Brisk moves) (hp : s.Pauses moves s') : s'.Still := by
  induction hp with
  | here moves hpos => exact ⟨ho, hl, (hb.1 (Nat.lt_of_sub_pos hpos)).stuck⟩
  | later m _ ih => exact ih (ho.move ha.head) (hl.move ho m) ha.tail hb.2

/-- A ticket at the window lock of a still limiter sleeps, or has room and waits for a global slot. -/
theorem Still.mem_admitted_iff (h : s.Still) :
    t ∈ (s.lane r).admitted ↔
      (s.lane r).isAsleep t = true ∨ (s.lane r).isAt t .pooled = true := by
  rw [Lane.mem_admitted_iff, Lane.isAsleep_iff, Lane.isAt_iff]
  simp only [Lane.sleeper?_eq_some_iff]
  constructor
  · intro hadm
    obtain ⟨⟨u, stage, waited⟩, hadm, rfl⟩ := hadm
    cases stage with
    | looking => exact absurd (.look waited hadm) (h.stuck r u)
    | asleep wakeAt => exact .inl ⟨wakeAt, waited, hadm⟩
    | pooled => exact .inr ⟨waited, hadm⟩
  · intro hplace
    rcases hplace with ⟨wakeAt, waited, hadm⟩ | ⟨waited, hadm⟩
    · exact ⟨_, hadm, rfl⟩
    · exact ⟨_, hadm, rfl⟩

/-- Nobody waits for a global slot in a still limiter that has a free one. -/
theorem Still.not_pooled (h : s.Still) (hfree : 0 < s.pool.free) :
    ¬ (s.lane r).isAt t .pooled = true := by
  intro hat
  obtain ⟨waited, hadm⟩ := Lane.isAt_iff.mp hat
  obtain ⟨r', u, hgo⟩ := h.lined.exists_canGo_of_pooled hfree hadm
  exact h.stuck r' u hgo

/-- Whoever waits for the window lock of a still limiter that has a free global slot waits behind a
sleeper. -/
theorem Still.isSome_sleeper? (h : s.Still) (hfree : 0 < s.pool.free)
    (ht : t ∈ (s.lane r).seated) : (s.lane r).sleeper?.isSome = true := by
  cases hadm : (s.lane r).admitting with
  | none =>
    -- the first in the queue could take the lock
    obtain ⟨first, rest, hseat⟩ := List.exists_cons_of_ne_nil (List.ne_nil_of_mem ht)
    exact absurd (.enter rest hadm hseat) (h.stuck r first)
  | some a =>
    have hmem : a.ticket ∈ (s.lane r).admitted := Lane.mem_admitted_iff.mpr ⟨a, hadm, rfl⟩
    rcases h.mem_admitted_iff.mp hmem with hasleep | hpooled
    · obtain ⟨wakeAt, hsleep⟩ := Lane.isAsleep_iff.mp hasleep
      rw [hsleep]
      rfl
    · exact absurd hpooled (h.not_pooled hfree)

/-! ## Where the time goes -/

/-- The time that a ticket waits for the window lock in a run. -/
def timeQueued (s : Limiter) (r : String) (t : Ticket) (moves : List Move) : Nat :=
  s.timeWhile (fun s => t ∈ (s.lane r).seated) moves

/-- The time that a ticket waits for the window lock in a run while another one sleeps there. -/
def timeBehind (s : Limiter) (r : String) (t : Ticket) (moves : List Move) : Nat :=
  s.timeWhile (fun s => t ∈ (s.lane r).seated ∧ (s.lane r).sleeper?.isSome = true) moves

/-- The time that a ticket waits for a global slot in a run. -/
def timePooled (s : Limiter) (r : String) (t : Ticket) (moves : List Move) : Nat :=
  s.timeWhile (fun s => (s.lane r).isAt t .pooled = true) moves

/-- The time that a ticket waits with a slot in a run while no global slot is free. -/
def timeShort (s : Limiter) (r : String) (t : Ticket) (moves : List Move) : Nat :=
  s.timeWhile (fun s => t ∈ (s.lane r).inside ∧ s.pool.free = 0) moves

theorem timeInside_eq (h : ∀ s', s.Pauses moves s' → s'.Still) (r : String) (t : Ticket) :
    s.timeInside r t moves =
      s.timeQueued r t moves + (s.timeSlept r t moves + s.timePooled r t moves) := by
  have hinside : s.timeInside r t moves =
      s.timeQueued r t moves + s.timeWhile (fun s => t ∈ (s.lane r).admitted) moves := by
    apply timeWhile_split
    · intro s' _
      exact List.mem_append
    · intro s' hs' hseat hadm
      have honce := (h s' hs').orderly.once r
      rw [Lane.tickets, List.nodup_append] at honce
      exact (List.nodup_append.mp honce.2.1).2.2 t hseat t hadm rfl
  have hadmitted : s.timeWhile (fun s => t ∈ (s.lane r).admitted) moves =
      s.timeSlept r t moves + s.timePooled r t moves := by
    apply timeWhile_split
    · intro s' hs'
      exact (h s' hs').mem_admitted_iff
    · intro s' _ hasleep hpooled
      obtain ⟨wakeAt, hsleep⟩ := Lane.isAsleep_iff.mp hasleep
      obtain ⟨waited, hadm⟩ := Lane.sleeper?_eq_some_iff.mp hsleep
      obtain ⟨waited', hadm'⟩ := Lane.isAt_iff.mp hpooled
      rw [hadm] at hadm'
      cases hadm'
  rw [hinside, hadmitted]

/-- With free global slots a ticket loses time only while it sleeps or waits behind a sleeper. -/
theorem timeInside_eq_of_free (h : ∀ s', s.Pauses moves s' → s'.Still)
    (hfree : s.timeShort r t moves = 0) :
    s.timeInside r t moves = s.timeBehind r t moves + s.timeSlept r t moves := by
  have hpos (s' : Limiter) (hs' : s.Pauses moves s') (hin : t ∈ (s'.lane r).inside) :
      0 < s'.pool.free := by
    apply Nat.pos_of_ne_zero
    intro hzero
    exact timeWhile_eq_zero_iff.mp hfree s' hs' ⟨hin, hzero⟩
  have hpooled : s.timePooled r t moves = 0 := by
    apply timeWhile_eq_zero_iff.mpr
    intro s' hs' hat
    have hadm : t ∈ (s'.lane r).admitted := (h s' hs').mem_admitted_iff.mpr (.inr hat)
    exact (h s' hs').not_pooled (hpos s' hs' (List.mem_append_right _ hadm)) hat
  have hbehind : s.timeQueued r t moves = s.timeBehind r t moves := by
    apply timeWhile_congr
    intro s' hs'
    constructor
    · intro hseat
      exact ⟨hseat,
        (h s' hs').isSome_sleeper? (hpos s' hs' (List.mem_append_left _ hseat)) hseat⟩
    · exact And.left
  rw [timeInside_eq h, hpooled, hbehind, Nat.add_zero]

/-! ## Reported waits -/

/-- What the wait that is reported with a grant says about the time in which it came about. -/
structure Delay (s : Limiter) (moves : List Move) (g : Grant) : Prop where
  /-- The time inside is all the time from getting the slot to the grant. -/
  whole : s.HasWaited g.registry g.ticket moves g.time
  own : g.waited = s.timeSlept g.registry g.ticket moves
  total : s.timeInside g.registry g.ticket moves =
    s.timeQueued g.registry g.ticket moves + (g.waited + s.timePooled g.registry g.ticket moves)
  /-- With free global slots the wait leaves out the time behind sleepers, and nothing else. -/
  behind : s.timeShort g.registry g.ticket moves = 0 →
    s.timeInside g.registry g.ticket moves =
      s.timeBehind g.registry g.ticket moves + g.waited
  /-- Only who reports a wait has slept, and once. -/
  counted : ((s.sleeps g.registry moves).map (·.ticket)).count g.ticket =
    if g.waited = 0 then 0 else 1

theorem count_sleeps {slept : List Sleep} {limit : Nat} (h : s.SleepsOnce r limit slept)
    (hg : g ∈ s.grants) (hr : g.registry = r) :
    (slept.map (·.ticket)).count g.ticket = if g.waited = 0 then 0 else 1 := by
  rcases h.reported g hg hr with ⟨z, hz, hzg, hwaited⟩ | ⟨hnone, hwaited⟩
  · have hpos := (h.bounded z hz).1
    rw [if_neg (by omega), h.once.count, if_pos (List.mem_map.mpr ⟨z, hz, hzg⟩)]
  · rw [if_pos hwaited, List.count_eq_zero]
    intro hmem
    obtain ⟨z, hz, hzg⟩ := List.mem_map.mp hmem
    exact hnone z hz hzg

theorem delay_run (rates : Rates) (globalConcurrency : Nat) (hd : Distinct moves)
    (hb : (fresh rates globalConcurrency).Brisk moves)
    (hg : g ∈ ((fresh rates globalConcurrency).run moves).grants) :
    (fresh rates globalConcurrency).Delay moves g := by
  have hstill (s' : Limiter) (hs' : (fresh rates globalConcurrency).Pauses moves s') :
      s'.Still :=
    still_of_pauses (orderly_fresh rates globalConcurrency) (lined_fresh rates globalConcurrency)
      ⟨hd, fun t _ => ⟨idle_fresh rates globalConcurrency t, List.not_mem_nil⟩⟩ hb hs'
  have hown : (fresh rates globalConcurrency).timeSlept g.registry g.ticket moves = g.waited :=
    (spent_run rates globalConcurrency hd hb g.registry).granted g hg rfl
  refine ⟨(clocked_run rates globalConcurrency hd g.registry).granted g hg rfl, hown.symm, ?_, ?_,
    count_sleeps (sleepsOnce_run rates globalConcurrency hd g.registry) hg rfl⟩
  · rw [← hown]
    exact timeInside_eq hstill g.registry g.ticket
  · intro hfree
    rw [← hown]
    exact timeInside_eq_of_free hstill hfree

/-- **A reported wait leaves out the queue.** In a brisk run, and so for whatever the users of a
workload do, the wait that is reported with a grant is the time for which its own ticket has slept.
While global slots are free, the time from getting a slot to the grant is that wait and the time in
the queue behind tickets that sleep; and only sleeps are counted. -/
theorem wait_omits_queue (rates : Rates) (globalConcurrency : Nat) (moves : List Move)
    (hd : Distinct moves) (hb : (fresh rates globalConcurrency).Brisk moves) :
    let start := fresh rates globalConcurrency
    (∀ g ∈ (start.run moves).grants, start.Delay moves g) ∧
      ((∀ m ∈ moves, m.isReset = false) → ∀ r,
        ((start.run moves).lane r).waitCount = (start.sleeps r moves).length) ∧
      ∀ ops : List Workload.Operation, ∃ moves', Distinct moves' ∧ start.Brisk moves' ∧
        (ops.foldl Workload.perform (Workload.fresh start)).limiter = start.run moves' ∧
        ∀ g ∈ (start.run moves').grants, start.Delay moves' g := by
  intro start
  refine ⟨fun g hg => delay_run rates globalConcurrency hd hb hg, ?_, ?_⟩
  · intro hreset r
    have hcount := (timely_fresh rates globalConcurrency).waitCount_run hreset r
    rwa [show (start.lane r).waitCount = 0 from rfl, Nat.zero_add] at hcount
  · intro ops
    obtain ⟨moves', hrun, hasked, hbrisk, -⟩ :=
      Workload.exists_brisk_run rates globalConcurrency ops
    have hd' : Distinct moves' := by
      rw [Distinct, hasked]
      exact List.nodup_range
    exact ⟨moves', hd', hbrisk, hrun, fun g hg => delay_run rates globalConcurrency hd' hbrisk hg⟩

/-! ## A queue behind a sleeper -/

/-- A run that takes no time is brisk. -/
theorem brisk_of_now (h : (s.run moves).now = s.now) : s.Brisk moves := by
  induction moves generalizing s with
  | nil => trivial
  | cons m moves ih =>
    have hfirst : s.now ≤ (s.move m).now := now_le_move s m
    have hrest : (s.move m).now ≤ ((s.move m).run moves).now := now_le_run (s.move m) moves
    rw [run_cons] at h
    exact ⟨briskMove_of_now (by omega), ih (by omega)⟩

theorem tickets_of_not_mem_keys (h : r ∉ s.lanes.keys) : (s.lane r).tickets = [] := by
  cases hget : s.lanes.get? r with
  | none =>
    rw [lane, Table.getD, hget]
    rfl
  | some l => exact absurd (List.mem_map_of_mem (Table.mem_of_find_eq_some hget)) h

/-- A limiter with one lane rests while a ticket sleeps in it and nobody stands in its line. -/
theorem rests_of_asleep {wakeAt : Nat} (hasleep : s.Asleep r u wakeAt) (hlt : s.now < wakeAt)
    (hline : (s.lane r).slots.line = []) (hothers : s.lanes.keys = [r]) : s.Rests wakeAt := by
  obtain ⟨waited, hadm⟩ := hasleep
  have hempty (r' : String) (hr : r' ≠ r) : (s.lane r').tickets = [] := by
    apply tickets_of_not_mem_keys
    rw [hothers]
    exact mt List.mem_singleton.mp hr
  constructor
  · intro r' t hgo
    by_cases hr : r' = r
    · subst hr
      cases hgo with
      | seat h =>
        have hmem := Gate.mem_line_of_admits h
        rw [hline] at hmem
        cases hmem
      | enter rest h _ => simp [hadm] at h
      | look waited h => simp [hadm] at h
      | wake wakeAt' waited' h hle =>
        rw [hadm] at h
        cases h
        omega
      | grant waited h _ => simp [hadm] at h
    · have hmem := hgo.mem_tickets
      rw [hempty r' hr] at hmem
      cases hmem
  · intro r' t wakeAt' hasleep'
    obtain ⟨waited', hadm'⟩ := hasleep'
    by_cases hr : r' = r
    · subst hr
      rw [hadm] at hadm'
      cases hadm'
      exact Nat.le_refl _
    · have hmem := Lane.mem_tickets_of_admitting hadm'
      rw [hempty r' hr] at hmem
      cases hmem

/-- Two requests per minute: the third ticket sleeps for a minute and the fourth one waits behind it for
all that time, with eight free global slots, but reports a wait of zero and is not counted. -/
theorem wait_omits_queue_behind :
    let start := fresh ⟨[("r", ⟨2, 4, 1⟩)]⟩ 10
    let before : List Move := [.ask 0 "r", .seat 0 "r", .enter 0 "r", .look 0 "r", .grant 0 "r",
      .ask 1 "r", .seat 1 "r", .enter 1 "r", .look 1 "r", .grant 1 "r",
      .ask 2 "r", .seat 2 "r", .enter 2 "r", .look 2 "r", .ask 3 "r", .seat 3 "r"]
    let after : List Move := [.wake 2 "r", .look 2 "r", .grant 2 "r",
      .enter 3 "r", .look 3 "r", .grant 3 "r"]
    let moves := before ++ .sleepUntil 60000 :: after
    Distinct moves ∧ start.Brisk moves ∧
      (start.run moves).grants.map (·.waited) = [0, 0, 60000, 0] ∧
      start.slotTime? "r" 3 moves = some 0 ∧ start.timeInside "r" 3 moves = 60000 ∧
      start.timeShort "r" 3 moves = 0 ∧ start.timeBehind "r" 3 moves = 60000 ∧
      ((start.run moves).lane "r").waitCount = 1 ∧
      ∀ g ∈ (start.run moves).grants, start.Delay moves g := by
  intro start before after moves
  have hd : Distinct moves := by decide
  have hasleep : (start.run before).Asleep "r" 2 60000 := ⟨60000, by decide⟩
  have hrests : (start.run before).Rests 60000 :=
    rests_of_asleep hasleep (by decide) (by decide) (by decide)
  have hnow : ((start.run before).move (.sleepUntil 60000)).now = 60000 := by decide
  have hpause : (start.run before).BriskMove (.sleepUntil 60000) := by
    intro _
    rw [hnow]
    exact hrests
  have hb : start.Brisk moves :=
    brisk_append.mpr ⟨brisk_of_now (by decide), hpause, brisk_of_now (by decide)⟩
  exact ⟨hd, hb, by decide, by decide, by decide, by decide, by decide, by decide,
    (wait_omits_queue ⟨[("r", ⟨2, 4, 1⟩)]⟩ 10 moves hd hb).1⟩

end Limiter

end TagWatch.Limit
