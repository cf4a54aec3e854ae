import TagWatch.Proofs.Limit.Alike
import TagWatch.Proofs.Limit.Sleep

/-!
# The counters are exact

**Theorem (`Workload.counters_exact`).** Since the counters were last reset, as many permits of a
registry have been granted as it counts requests, and as many sleeps for room in its window have begun
as it counts waits. To reset the counters changes nothing else, now or later.

The two counters go up at different stages of an acquisition, one when it is granted and the other one
when it falls asleep, so that the second one counts sleepers that give up as well. Each of them is
followed by a step lemma for all moves but a reset (`Limiter.countsGrants_move`,
`Limiter.Timely.counts_move`) and by a run lemma for what comes after the last reset
(`Limiter.tallies_run`). That resets do nothing else is `Limiter.alike_run`.
-/

namespace TagWatch.Limit

/-! ## Tables of lanes -/

namespace Limiter

variable {s s' : Limiter} {m : Move} {moves : List Move} {t : Ticket} {r : String}

theorem keys_subset_release (s : Limiter) (t : Ticket) :
    s.lanes.keys ⊆ (s.release t).lanes.keys := by
  unfold release
  split
  · exact Table.keys_subset_set _ _ _
  · exact fun _ hk => hk

/-- A registry that has a lane keeps it. -/
theorem keys_subset_move (s : Limiter) (m : Move) : s.lanes.keys ⊆ (s.move m).lanes.keys := by
  cases m with
  | ask t registry => exact Table.keys_subset_set _ _ _
  | seat t r => exact Table.keys_subset_set _ _ _
  | enter t r => exact Table.keys_subset_set _ _ _
  | wake t r => exact Table.keys_subset_set _ _ _
  | look t r =>
    show s.lanes.keys ⊆ (s.look t r).lanes.keys
    unfold look
    split
    · dsimp only
      split <;> exact Table.keys_subset_set _ _ _
    · exact fun _ hk => hk
  | grant t r =>
    show s.lanes.keys ⊆ (s.grant t r).lanes.keys
    unfold grant
    split
    · split
      · exact Table.keys_subset_set _ _ _
      · exact fun _ hk => hk
    · exact fun _ hk => hk
  | release t => exact keys_subset_release s t
  | abandon t =>
    show s.lanes.keys ⊆ (s.abandon t).lanes.keys
    unfold abandon
    split
    · exact Table.keys_subset_set _ _ _
    · exact keys_subset_release s t
  | sleepUntil time => exact fun _ hk => hk
  | resetMetrics =>
    show s.lanes.keys ⊆ (s.lanes.entries.map _).map Prod.fst
    rw [List.map_map]
    exact fun _ hk => hk
  | plan called alarms => exact fun _ hk => hk

theorem keys_subset_run (s : Limiter) (moves : List Move) :
    s.lanes.keys ⊆ (s.run moves).lanes.keys := by
  induction moves generalizing s with
  | nil => exact fun _ hk => hk
  | cons m moves ih => exact fun _ hk => ih (s.move m) (keys_subset_move s m hk)

/-- A registry that has been asked for has a lane. -/
theorem mem_keys_of_ask {registry : String} (h : .ask t registry ∈ moves) :
    Registry.canonical registry ∈ (s.run moves).lanes.keys := by
  obtain ⟨before, after, rfl⟩ := List.append_of_mem h
  rw [run_append, run_cons]
  apply keys_subset_run
  exact Table.mem_keys_set_self _ _ _

theorem nodup_keys_run (h : s.lanes.keys.Nodup) (moves : List Move) :
    (s.run moves).lanes.keys.Nodup := by
  induction moves generalizing s with
  | nil => exact h
  | cons m moves ih => exact ih (nodup_keys_move h m)

theorem lane_of_mem_entries (h : s.lanes.keys.Nodup) {e : String × Lane}
    (he : e ∈ s.lanes.entries) : s.lane e.1 = e.2 := by
  rw [lane, Table.getD, (Table.mem_entries_iff h).mp he]
  rfl

/-! ## Requests -/

/-- The grants of a run. -/
def grantsIn (s : Limiter) (moves : List Move) : List Grant :=
  (s.run moves).grants.drop s.grants.length

theorem grants_run (s : Limiter) (moves : List Move) :
    (s.run moves).grants = s.grants ++ s.grantsIn moves := by
  obtain ⟨later, hgrants, -⟩ := s.exists_grants_run moves
  rw [grantsIn, hgrants, List.drop_left]

theorem grantsIn_cons (s : Limiter) (m : Move) (moves : List Move) :
    s.grantsIn (m :: moves) = s.grantsIn [m] ++ (s.move m).grantsIn moves := by
  have hall : ((s.move m).run moves).grants = s.grants ++ s.grantsIn (m :: moves) :=
    s.grants_run (m :: moves)
  have hfirst : (s.move m).grants = s.grants ++ s.grantsIn [m] := s.grants_run [m]
  rw [grants_run, hfirst, List.append_assoc] at hall
  exact (List.append_cancel_left hall).symm

/-- The lane of a registry counts the grants that a move adds. -/
def CountsGrants (s : Limiter) (m : Move) (r : String) : Prop :=
  ((s.move m).lane r).totalRequests =
    (s.lane r).totalRequests + (s.grantsIn [m]).countP (·.registry == r)

theorem countsGrants_of_same (hgrants : (s.move m).grants = s.grants)
    (hlane : ((s.move m).lane r).totalRequests = (s.lane r).totalRequests) :
    s.CountsGrants m r := by
  have hnone : s.grantsIn [m] = [] := by
    show (s.move m).grants.drop s.grants.length = []
    rw [hgrants, List.drop_length]
  rw [CountsGrants, hnone, hlane]
  rfl

/-- A change of one lane without a grant. -/
theorem totalRequests_onLane (s : Limiter) (r' : String) (f : Lane → Lane)
    (hf : (f (s.lane r')).totalRequests = (s.lane r').totalRequests) (r : String) :
    ((s.onLane r' f).lane r).totalRequests = (s.lane r).totalRequests := by
  rw [lane_onLane]
  split
  · next hr => rw [hf, hr]
  · rfl

theorem totalRequests_release (s : Limiter) (t : Ticket) (r : String) :
    ((s.release t).lane r).totalRequests = (s.lane r).totalRequests := by
  rcases release_spec s t with ⟨-, he⟩ | ⟨r', hr⟩
  · rw [he]
  · rw [hr.lane r]
    split
    · next he => rw [he]; rfl
    · rfl

theorem grants_release (s : Limiter) (t : Ticket) : (s.release t).grants = s.grants := by
  rcases release_spec s t with ⟨-, he⟩ | ⟨r', hr⟩
  · rw [he]
  · exact hr.grants

theorem totalRequests_look (s : Limiter) (t : Ticket) (r' r : String) :
    ((s.look t r').lane r).totalRequests = (s.lane r).totalRequests := by
  have hlane := s.totalRequests_onLane r' (·.look s.now)
    (by rcases Lane.look_cases (s.lane r') s.now with he | ⟨_, _, -, -, he⟩ |
          ⟨_, _, _, _, -, -, -, he⟩ <;> rw [he]) r
  rcases look_cases s t r' with ⟨he, -⟩ | ⟨waited, -, ⟨-, he⟩ | ⟨wakeAt, _, -, -, -, he⟩⟩
  · rw [he]
  · rw [he]
    exact hlane
  · rw [he]
    exact hlane

/-- A grant counts as one request of its registry. -/
theorem countsGrants_grant (s : Limiter) (t : Ticket) (r' r : String) :
    s.CountsGrants (.grant t r') r := by
  rcases grant_spec s t r' with ⟨he, -⟩ | ⟨waited, hg⟩
  · exact countsGrants_of_same (congrArg Limiter.grants he)
      (congrArg (fun s => (Limiter.lane s r).totalRequests) he)
  · have hnew : s.grantsIn [.grant t r'] = [⟨t, r', s.now, waited⟩] := by
      show (s.grant t r').grants.drop s.grants.length = _
      rw [hg.grants, List.drop_left]
    rw [CountsGrants, hnew, show s.move (.grant t r') = s.grant t r' from rfl, hg.lane r]
    by_cases hr : r = r'
    · simp [hr, Lane.grantAt]
    · simp [hr, Ne.symm hr]

/-- **Every grant is counted**, and nothing else is, unless the counters are reset. -/
theorem countsGrants_move (s : Limiter) (hm : m.isReset = false) (r : String) :
    s.CountsGrants m r := by
  cases m with
  | ask t registry =>
    exact countsGrants_of_same rfl (s.totalRequests_onLane _ (·.ask t) rfl r)
  | seat t r' =>
    have hlane : ((s.lane r').seat t).totalRequests = (s.lane r').totalRequests := by
      unfold Lane.seat
      split <;> rfl
    exact countsGrants_of_same rfl (s.totalRequests_onLane r' (·.seat t) hlane r)
  | enter t r' =>
    have hlane : ((s.lane r').enter t).totalRequests = (s.lane r').totalRequests := by
      rcases Lane.enter_cases (s.lane r') t with he | ⟨rest, -, -, he⟩ <;> rw [he]
    exact countsGrants_of_same rfl (s.totalRequests_onLane r' (·.enter t) hlane r)
  | wake t r' =>
    have hlane : ((s.lane r').wake s.now t).totalRequests = (s.lane r').totalRequests := by
      rcases Lane.wake_cases (s.lane r') s.now t with he | ⟨wakeAt, waited, -, -, he⟩ <;> rw [he]
    exact countsGrants_of_same rfl (s.totalRequests_onLane r' (·.wake s.now t) hlane r)
  | look t r' => exact countsGrants_of_same (quiet_look s t r').grants (s.totalRequests_look t r' r)
  | grant t r' => exact s.countsGrants_grant t r' r
  | release t => exact countsGrants_of_same (s.grants_release t) (s.totalRequests_release t r)
  | abandon t =>
    have habandon : (s.abandon t).grants = s.grants ∧
        ((s.abandon t).lane r).totalRequests = (s.lane r).totalRequests := by
      unfold abandon
      split
      · next r' _ =>
        refine ⟨rfl, s.totalRequests_onLane r' (·.cancel t) ?_ r⟩
        unfold Lane.cancel
        split
        · rfl
        · split
          · rfl
          · split <;> rfl
      · exact ⟨s.grants_release t, s.totalRequests_release t r⟩
    exact countsGrants_of_same habandon.1 habandon.2
  | sleepUntil time => exact countsGrants_of_same rfl rfl
  | resetMetrics => cases hm
  | plan called alarms => exact countsGrants_of_same rfl rfl

/-! ## Runs without resets -/

theorem totalRequests_run (s : Limiter) (h : ∀ m ∈ moves, m.isReset = false) (r : String) :
    ((s.run moves).lane r).totalRequests =
      (s.lane r).totalRequests + (s.grantsIn moves).countP (·.registry == r) := by
  induction moves generalizing s with
  | nil =>
    have hnone : s.grantsIn [] = [] := List.drop_length
    rw [hnone]
    rfl
  | cons m moves ih =>
    obtain ⟨hm, hmoves⟩ := List.forall_mem_cons.mp h
    have hstep : s.CountsGrants m r := s.countsGrants_move hm r
    rw [run_cons, ih (s.move m) hmoves, grantsIn_cons s m moves, List.countP_append, hstep,
      Nat.add_assoc]

theorem Timely.waitCount_run (ht : s.Timely) (h : ∀ m ∈ moves, m.isReset = false) (r : String) :
    ((s.run moves).lane r).waitCount = (s.lane r).waitCount + (s.sleeps r moves).length := by
  induction moves generalizing s with
  | nil => rfl
  | cons m moves ih =>
    obtain ⟨hm, hmoves⟩ := List.forall_mem_cons.mp h
    have hreset : m ≠ .resetMetrics := by
      intro he
      simp [he, Move.isReset] at hm
    have hstep : ((s.move m).lane r).waitCount =
        (s.lane r).waitCount + (s.newSleeps r m).length := ht.counts_move hreset r
    rw [run_cons, ih (ht.move m) hmoves, hstep, sleeps, List.length_append, Nat.add_assoc]

/-! ## Since the last reset -/

/-- The counters of all lanes after a run tell what has happened in that run. -/
structure Tallies (s : Limiter) (moves : List Move) : Prop where
  requests : ∀ e ∈ (s.run moves).lanes.entries,
    e.2.totalRequests = (s.grantsIn moves).countP (·.registry == e.1)
  waits : ∀ e ∈ (s.run moves).lanes.entries, e.2.waitCount = (s.sleeps e.1 moves).length

theorem sinceReset_free (moves : List Move) : ∀ m ∈ sinceReset moves, m.isReset = false := by
  intro m hm
  simpa using List.mem_rtakeWhile_imp hm

theorem untilReset_cases (moves : List Move) :
    untilReset moves = [] ∨ ∃ earlier, untilReset moves = earlier ++ [.resetMetrics] := by
  by_cases h : untilReset moves = []
  · exact .inl h
  · have hlast := List.rdropWhile_last_not (fun m : Move => !m.isReset) moves h
    have hreset : (untilReset moves).getLast h = .resetMetrics := by
      revert hlast
      show ¬ (!((untilReset moves).getLast h).isReset) = true → _
      cases (untilReset moves).getLast h <;> simp [Move.isReset]
    right
    refine ⟨(untilReset moves).dropLast, ?_⟩
    rw [← hreset, List.dropLast_append_getLast]

/-- Right after a reset, and at first, the counters are zero. -/
theorem counters_untilReset (rates : Rates) (globalConcurrency : Nat) (moves : List Move)
    (r : String) :
    (((fresh rates globalConcurrency).run (untilReset moves)).lane r).totalRequests = 0 ∧
      (((fresh rates globalConcurrency).run (untilReset moves)).lane r).waitCount = 0 := by
  rcases untilReset_cases moves with h | ⟨earlier, h⟩
  · rw [h]
    exact ⟨rfl, rfl⟩
  · rw [h, run_append]
    show ((Limiter.resetMetrics _).lane r).totalRequests = 0 ∧
      ((Limiter.resetMetrics _).lane r).waitCount = 0
    rw [lane_resetMetrics]
    exact ⟨rfl, rfl⟩

/-- **The counters are exact** since the last reset. -/
theorem tallies_run (rates : Rates) (globalConcurrency : Nat) (moves : List Move) :
    ((fresh rates globalConcurrency).run (untilReset moves)).Tallies (sinceReset moves) := by
  have hkeys : ((fresh rates globalConcurrency).run (untilReset moves)).lanes.keys.Nodup :=
    nodup_keys_run (orderly_fresh rates globalConcurrency).keys _
  have htimely := timely_run rates globalConcurrency (untilReset moves)
  have hfree := sinceReset_free moves
  constructor
  · intro e he
    rw [← lane_of_mem_entries (nodup_keys_run hkeys _) he, totalRequests_run _ hfree,
      (counters_untilReset rates globalConcurrency moves e.1).1, Nat.zero_add]
  · intro e he
    rw [← lane_of_mem_entries (nodup_keys_run hkeys _) he, htimely.waitCount_run hfree,
      (counters_untilReset rates globalConcurrency moves e.1).2, Nat.zero_add]

end Limiter

namespace Workload

theorem keys_subset_of_continues {w w' : Workload} (h : Continues w w') :
    w.limiter.lanes.keys ⊆ w'.limiter.lanes.keys := by
  obtain ⟨moves, hrun, -⟩ := h.leads
  rw [hrun]
  exact Limiter.keys_subset_run w.limiter moves

theorem mem_keys_joined (w : Workload) (registry : String) :
    Registry.canonical registry ∈ (w.joined registry).limiter.lanes.keys :=
  Table.mem_keys_set_self _ _ _

theorem mem_keys_perform (w : Workload) {op : Operation} {r : String} (h : op.registry? = some r) :
    r ∈ (w.perform op).limiter.lanes.keys := by
  cases op with
  | acquire registry name timeout =>
    obtain rfl : Registry.canonical registry = r := Option.some.inj h
    have hcontinues := continues_acquire w registry name timeout
    exact keys_subset_of_continues hcontinues (mem_keys_joined w registry)
  | spawn registry name hold =>
    obtain rfl : Registry.canonical registry = r := Option.some.inj h
    have hcontinues := continues_spawn w registry name hold
    exact keys_subset_of_continues hcontinues (mem_keys_joined w registry)
  | release name => cases h
  | abort name => cases h
  | advance ms => cases h
  | resetMetrics => cases h

/-- A registry that users ask for has a lane. -/
theorem mem_keys_of_requested (w : Workload) {ops : List Operation} {r : String}
    (h : r ∈ requested ops) : r ∈ (ops.foldl perform w).limiter.lanes.keys := by
  induction ops using List.reverseRecOn with
  | nil => cases h
  | append_singleton ops op ih =>
    rw [List.foldl_append, List.foldl_cons, List.foldl_nil]
    rw [requested, List.filterMap_append, List.mem_append] at h
    rcases h with h | h
    · obtain ⟨moves, hrun, -⟩ := exists_run_perform (ops.foldl perform w) op
      rw [hrun]
      exact Limiter.keys_subset_run _ moves (ih h)
    · exact mem_keys_perform _ (by simpa using h)

/-- **The counters are exact, and resetting them has no side effects.** After every run the counters
of a registry tell the grants and the sleeps since the last reset, and every registry that has been
asked for has counters. Runs that are the same apart from their resets lead to limiters that differ in
nothing but the counters. Both hold of what the users of a workload do as well: since their last reset
its limiter has made a run that the counters tell, and apart from resets the same operations lead to
the same workload, where every task has the same status and the next acquisition the same outcome. -/
theorem counters_exact (rates : Rates) (globalConcurrency : Nat) :
    let start := Limiter.fresh rates globalConcurrency
    (∀ moves,
      (start.run (Limit.untilReset moves)).run (sinceReset moves) = start.run moves ∧
      (start.run (Limit.untilReset moves)).Tallies (sinceReset moves) ∧
      ∀ t registry, .ask t registry ∈ moves →
        Registry.canonical registry ∈ (start.run moves).lanes.keys) ∧
    (∀ moves moves' : List Move,
      (moves.filter fun m => !m.isReset) = (moves'.filter fun m => !m.isReset) →
        (start.run moves).Alike (start.run moves')) ∧
    (∀ ops : List Operation,
      let before := (untilReset ops).foldl perform (fresh start)
      let w := ops.foldl perform (fresh start)
      (∃ moves, w.limiter = before.limiter.run moves ∧ (∀ m ∈ moves, m.isReset = false) ∧
        before.limiter.Tallies moves) ∧
      ∀ r ∈ requested ops, r ∈ w.limiter.lanes.keys) ∧
    ∀ ops ops' : List Operation,
      (ops.filter fun op => !op.isReset) = (ops'.filter fun op => !op.isReset) →
        let w := ops.foldl perform (fresh start)
        let w' := ops'.foldl perform (fresh start)
        w.Alike w' ∧ (∀ name, w.status name = w'.status name) ∧
          ∀ registry name timeout,
            (w.acquire registry name timeout).2 = (w'.acquire registry name timeout).2 := by
  intro start
  refine ⟨?_, ?_, ?_, ?_⟩
  · intro moves
    refine ⟨?_, Limiter.tallies_run rates globalConcurrency moves, ?_⟩
    · rw [← Limiter.run_append, untilReset_append_sinceReset]
    · intro t registry hask
      exact Limiter.mem_keys_of_ask hask
  · intro moves moves' h
    exact Limiter.alike_run start h
  · intro ops
    obtain ⟨moves, hrun, -, -, hreset⟩ := exists_brisk_run rates globalConcurrency ops
    refine ⟨⟨sinceReset moves, ?_, Limiter.sinceReset_free moves, ?_⟩, ?_⟩
    · rw [hreset, ← Limiter.run_append, untilReset_append_sinceReset]
      exact hrun
    · rw [hreset]
      exact Limiter.tallies_run rates globalConcurrency moves
    · intro r hr
      exact mem_keys_of_requested _ hr
  · intro ops ops' h
    have halike := alike_run (fresh start) h
    refine ⟨halike, halike.status, ?_⟩
    intro registry name timeout
    exact (halike.acquire registry name timeout).2

/-- One request per minute: a sleeper that gives up is counted, and a reset while the next one sleeps
makes a difference to the counters only. -/
theorem counters_exact_cancelled :
    let start := Limiter.fresh ⟨[("r", ⟨1, 3, 1⟩)]⟩ 3
    let moves : List Move := [.ask 0 "r", .seat 0 "r", .enter 0 "r", .look 0 "r", .grant 0 "r",
      .ask 1 "r", .seat 1 "r", .enter 1 "r", .look 1 "r", .abandon 1,
      .ask 2 "r", .seat 2 "r", .enter 2 "r", .look 2 "r"]
    let later : List Move := [.sleepUntil 60000, .wake 2 "r", .look 2 "r", .grant 2 "r"]
    let counters (s : Limiter) := ((s.lane "r").totalRequests, (s.lane "r").waitCount)
    counters (start.run moves) = (1, 2) ∧
      counters (start.run (moves ++ later)) = (2, 2) ∧
      counters (start.run (moves ++ .resetMetrics :: later)) = (1, 0) ∧
      (start.run (moves ++ .resetMetrics :: later)).Alike (start.run (moves ++ later)) := by
  intro start moves later counters
  refine ⟨by decide, by decide, by decide, ?_⟩
  exact (counters_exact ⟨[("r", ⟨1, 3, 1⟩)]⟩ 3).2.1 (moves ++ .resetMetrics :: later)
    (moves ++ later) rfl

end Workload

end TagWatch.Limit
