import TagWatch.Proofs.Limit.Capacity
import TagWatch.Proofs.Limit.Workload

/-!
# The window slides over the grants

**Theorem (`Limiter.window_spaced`).** In every run any two grants of a registry between which
there are as many grants as its window has room for lie a minute apart, and the window holds the
grants of the last minute, no more and no less. An acquisition that was given up before its grant
never enters it.

The ticket at the window lock looks at the window, and its grant may come much later, when other
grants have left the window and the time is another. `Lane.Timely` is what survives in between.
The grants that are no longer kept are a minute old, and while a ticket waits for a global slot
the kept ones leave room. Nobody else can fill it, because the ticket holds the lock. So the grant
that lies a windowful of grants back is one of those that are no longer kept.
-/

namespace TagWatch.Limit

/-- Any two times with `n` steps between them lie a window apart. -/
def Spaced (n : Nat) (times : List Nat) : Prop :=
  ∀ i g g', times[i]? = some g → times[i + n]? = some g' → g + window ≤ g'

/-! ## Pruning -/

namespace Lane

variable {now now' g : Nat} {times recent : List Nat} {l l' : Lane} {t : Ticket}

theorem prune_cons_of_le (h : g + window ≤ now) : prune now (g :: recent) = prune now recent :=
  List.dropWhile_cons_of_pos (decide_eq_true h)

theorem prune_cons_of_lt (h : now < g + window) : prune now (g :: recent) = g :: recent := by
  rw [prune, List.dropWhile_cons_of_neg]
  rw [decide_eq_true_eq]
  exact Nat.not_le_of_lt h

/-- What pruning drops is a minute old. -/
theorem exists_expired (now : Nat) (recent : List Nat) :
    ∃ expired, recent = expired ++ prune now recent ∧ ∀ g ∈ expired, g + window ≤ now := by
  induction recent with
  | nil => exact ⟨[], rfl, fun _ h => absurd h List.not_mem_nil⟩
  | cons g recent ih =>
    rcases Nat.lt_or_ge now (g + window) with h | h
    · rw [prune_cons_of_lt h]
      exact ⟨[], rfl, fun _ h => absurd h List.not_mem_nil⟩
    · obtain ⟨expired, heq, hexp⟩ := ih
      rw [prune_cons_of_le h]
      exact ⟨g :: expired, congrArg (g :: ·) heq, List.forall_mem_cons.mpr ⟨h, hexp⟩⟩

/-- What pruning leaves begins with a grant of the last minute. -/
theorem lt_of_prune_eq_cons {rest : List Nat} (h : prune now recent = g :: rest) :
    now < g + window := by
  induction recent with
  | nil => cases h
  | cons g' recent ih =>
    rcases Nat.lt_or_ge now (g' + window) with hlt | hle
    · rw [prune_cons_of_lt hlt] at h
      rwa [← (List.cons.inj h).1]
    · rw [prune_cons_of_le hle] at h
      exact ih h

theorem length_prune_le (now : Nat) (recent : List Nat) :
    (prune now recent).length ≤ recent.length :=
  (List.dropWhile_sublist _).length_le

theorem length_prune_mono (h : now ≤ now') (recent : List Nat) :
    (prune now' recent).length ≤ (prune now recent).length := by
  induction recent with
  | nil => exact Nat.le_refl _
  | cons g recent ih =>
    rcases Nat.lt_or_ge now (g + window) with hlt | hle
    · rw [prune_cons_of_lt hlt]
      exact length_prune_le now' _
    · rw [prune_cons_of_le hle, prune_cons_of_le (Nat.le_trans hle h)]
      exact ih

/-- In a sorted window pruning leaves the grants of the last minute. -/
theorem prune_eq_filter (h : recent.Pairwise (· ≤ ·)) :
    prune now recent = recent.filter fun g => now < g + window := by
  induction recent with
  | nil => rfl
  | cons g recent ih =>
    obtain ⟨hg, hrest⟩ := List.pairwise_cons.mp h
    rcases Nat.lt_or_ge now (g + window) with hlt | hle
    · rw [prune_cons_of_lt hlt, eq_comm, List.filter_eq_self]
      intro a ha
      have hle : g ≤ a := (List.mem_cons.mp ha).elim (fun he => Nat.le_of_eq he.symm) (hg a)
      exact decide_eq_true (Nat.lt_of_lt_of_le hlt (Nat.add_le_add_right hle _))
    · rw [prune_cons_of_le hle, ih hrest, List.filter_cons_of_neg]
      rw [decide_eq_true_eq]
      exact Nat.not_lt_of_le hle

/-! ## The invariant of a lane -/

/-- What the window and the ticket at its lock have to do with each other. A ticket sleeps until
the oldest grant leaves the window; after its sleep, and while it waits for a global slot, the
window has room for it. -/
def Admission.Fits (now room : Nat) (recent : List Nat) (a : Admission) : Prop :=
  match a.stage with
  | .looking => 0 < a.waited → (prune now recent).length < room
  | .asleep wakeAt => 0 < a.waited ∧ ∃ oldest rest, recent = oldest :: rest ∧
      wakeAt = oldest + window
  | .pooled => recent.length < room

/-- The window of a lane fits the times of all grants of its registry. -/
structure Timely (now : Nat) (times : List Nat) (l : Lane) : Prop where
  kept : ∃ old, times = old ++ l.recent ∧ ∀ g ∈ old, g + window ≤ now
  sorted : times.Pairwise (· ≤ ·)
  past : ∀ g ∈ times, g ≤ now
  short : l.recent.length ≤ room l.rate
  spaced : Spaced (room l.rate) times
  fits : ∀ a, l.admitting = some a → Admission.Fits now (room l.rate) l.recent a

theorem timely_fresh (now : Nat) (rate : Rate) : Timely now [] (fresh rate) where
  kept := ⟨[], rfl, fun _ h => absurd h List.not_mem_nil⟩
  sorted := .nil
  past _ h := absurd h List.not_mem_nil
  short := Nat.zero_le _
  spaced i g _ h _ := by simp at h
  fits _ h := by cases h

/-- Time may pass. -/
theorem Timely.mono (h : Timely now times l) (hle : now ≤ now') : Timely now' times l where
  kept := by
    obtain ⟨old, heq, hold⟩ := h.kept
    exact ⟨old, heq, fun g hg => Nat.le_trans (hold g hg) hle⟩
  sorted := h.sorted
  past g hg := Nat.le_trans (h.past g hg) hle
  short := h.short
  spaced := h.spaced
  fits a ha := by
    have hfits := h.fits a ha
    obtain ⟨t, stage, waited⟩ := a
    cases stage with
    | looking => exact fun hw => Nat.lt_of_le_of_lt (length_prune_mono hle _) (hfits hw)
    | asleep wakeAt => exact hfits
    | pooled => exact hfits

/-- Pruning keeps what is said about the window. -/
theorem Timely.kept_prune (h : Timely now times l) :
    ∃ old, times = old ++ prune now l.recent ∧ ∀ g ∈ old, g + window ≤ now := by
  obtain ⟨old, heq, hold⟩ := h.kept
  obtain ⟨expired, hrecent, hexpired⟩ := exists_expired now l.recent
  refine ⟨old ++ expired, by rw [List.append_assoc, ← hrecent, heq], fun g hg => ?_⟩
  rcases List.mem_append.mp hg with hg | hg
  · exact hold g hg
  · exact hexpired g hg

theorem Timely.seat (h : Timely now times l) : Timely now times (l.seat t) := by
  unfold Lane.seat
  split
  · exact { h with }
  · exact h

theorem Timely.enter (h : Timely now times l) : Timely now times (l.enter t) := by
  rcases enter_cases l t with he | ⟨rest, -, -, he⟩
  · rwa [he]
  · rw [he]
    refine { h with fits := fun a ha => ?_ }
    cases ha
    exact fun hw => absurd hw (Nat.lt_irrefl 0)

theorem Timely.wake (h : Timely now times l) : Timely now times (l.wake now t) := by
  rcases wake_cases l now t with he | ⟨wakeAt, waited, hadm, hle, he⟩
  · rwa [he]
  · rw [he]
    refine { h with fits := fun a ha => ?_ }
    cases ha
    -- the oldest grant has left the window, which was not overfull before
    obtain ⟨-, oldest, rest, hrecent, rfl⟩ := h.fits _ hadm
    intro _
    show (prune now l.recent).length < room l.rate
    have hshort := h.short
    rw [hrecent, List.length_cons] at hshort
    rw [hrecent, prune_cons_of_le hle]
    exact Nat.lt_of_le_of_lt (length_prune_le now rest) hshort

theorem Timely.look (h : Timely now times l) : Timely now times (l.look now) := by
  have hshort : (prune now l.recent).length ≤ room l.rate :=
    Nat.le_trans (length_prune_le now _) h.short
  rcases look_cases l now with he | ⟨t, waited, hadm, hroom, he⟩ |
    ⟨t, waited, oldest, rest, hadm, hfull, hcons, he⟩
  · rwa [he]
  · rw [he]
    refine { h with kept := h.kept_prune, short := hshort, fits := fun a ha => ?_ }
    cases ha
    exact hroom
  · rw [he, ← hcons]
    refine { h with kept := h.kept_prune, short := hshort, fits := fun a ha => ?_ }
    cases ha
    have hsleep : 0 < oldest + window - now := Nat.sub_pos_of_lt (lt_of_prune_eq_cons hcons)
    exact ⟨Nat.lt_of_lt_of_le hsleep (Nat.le_add_left _ _), oldest, rest, hcons, rfl⟩

theorem Timely.cancel (h : Timely now times l) : Timely now times (l.cancel t) := by
  unfold Lane.cancel
  split
  · exact { h with }
  · split
    · exact { h with }
    · split
      · exact { h with fits := fun _ ha => by cases ha }
      · exact h

theorem Timely.laneMove (h : Timely now times l) (hm : LaneMove now l l') :
    Timely now times l' := by
  cases hm with
  | stay => exact h
  | seat t => exact h.seat
  | enter t => exact h.enter
  | wake t => exact h.wake
  | look => exact h.look
  | cancel t => exact h.cancel
  | reset => exact { h with }

/-- The grant that comes as many grants after another one as the window has room for comes a
window later. -/
theorem Timely.spaced_grant (h : Timely now times l) (hroom : l.recent.length < room l.rate) :
    Spaced (room l.rate) (times ++ [now]) := by
  obtain ⟨old, heq, hold⟩ := h.kept
  have hlen : times.length = old.length + l.recent.length := by rw [heq, List.length_append]
  intro i g g' hg hg'
  rcases Nat.lt_or_ge (i + room l.rate) times.length with hlt | hge
  · rw [List.getElem?_append_left hlt] at hg'
    rw [List.getElem?_append_left (by omega)] at hg
    exact h.spaced i g g' hg hg'
  · -- the later one is the new grant, so that the earlier one is not kept any more
    have hi : i + room l.rate < (times ++ [now]).length := (List.getElem?_eq_some_iff.mp hg').1
    rw [List.length_append, List.length_singleton] at hi
    have hlast : i + room l.rate = times.length := by omega
    rw [hlast, List.getElem?_concat_length] at hg'
    rw [List.getElem?_append_left (by omega), heq, List.getElem?_append_left (by omega)] at hg
    rw [← Option.some.inj hg']
    exact hold g (List.mem_of_getElem? hg)

theorem Timely.grantAt {waited : Nat} (h : Timely now times l)
    (hadm : l.admitting = some ⟨t, .pooled, waited⟩) :
    Timely now (times ++ [now]) (l.grantAt now) := by
  have hroom : l.recent.length < room l.rate := h.fits _ hadm
  obtain ⟨old, heq, hold⟩ := h.kept_prune
  refine ⟨⟨old, ?_, hold⟩, ?_, ?_, ?_, h.spaced_grant hroom, fun _ ha => by cases ha⟩
  · show times ++ [now] = old ++ (prune now l.recent ++ [now])
    rw [← List.append_assoc, ← heq]
  · refine List.pairwise_append.mpr ⟨h.sorted, List.pairwise_singleton _ now, fun g hg g' hg' => ?_⟩
    rw [List.mem_singleton.mp hg']
    exact h.past g hg
  · intro g hg
    rcases List.mem_append.mp hg with hg | hg
    · exact h.past g hg
    · exact Nat.le_of_eq (List.mem_singleton.mp hg)
  · show (prune now l.recent ++ [now]).length ≤ room l.rate
    rw [List.length_append, List.length_singleton]
    exact Nat.lt_of_le_of_lt (length_prune_le now _) hroom

/-- The window holds the grants of the last minute. -/
theorem Timely.prune_recent (h : Timely now times l) :
    prune now l.recent = times.filter fun g => now < g + window := by
  obtain ⟨old, heq, hold⟩ := h.kept
  have hsorted := h.sorted
  have hnone : old.filter (fun g => now < g + window) = [] :=
    List.filter_eq_nil_iff.mpr fun g hg => by
      rw [decide_eq_true_eq]
      exact Nat.not_lt_of_le (hold g hg)
  rw [heq, List.pairwise_append] at hsorted
  rw [prune_eq_filter hsorted.2.1, heq, List.filter_append, hnone, List.nil_append]

end Lane

/-! ## The invariant of a limiter -/

namespace Limiter

variable {s s' : Limiter} {t : Ticket} {r : String}

/-- The times at which permits of a registry were granted, in order. -/
def grantTimes (s : Limiter) (r : String) : List Nat :=
  (s.grants.filter (·.registry == r)).map (·.time)

/-- The windows of all lanes fit the grants. -/
def Timely (s : Limiter) : Prop := ∀ r, Lane.Timely s.now (s.grantTimes r) (s.lane r)

theorem timely_fresh (rates : Rates) (globalConcurrency : Nat) :
    (fresh rates globalConcurrency).Timely :=
  fun r => Lane.timely_fresh 0 (rates.lookup r)

theorem Granted.grantTimes {waited : Nat} (h : Granted s s' t r waited) (r' : String) :
    s'.grantTimes r' = s.grantTimes r' ++ if r' = r then [s.now] else [] := by
  rw [Limiter.grantTimes, h.grants, List.filter_append, List.map_append, List.filter_singleton]
  by_cases hr : r' = r
  · rw [hr, beq_self_eq_true, if_pos rfl]
    rfl
  · rw [beq_eq_false_iff_ne.mpr (Ne.symm hr), if_neg hr]
    rfl

theorem Timely.grant {waited : Nat} (h : s.Timely) (hg : Granted s s' t r waited) :
    s'.Timely := by
  intro r'
  rw [hg.now, hg.lane r', hg.grantTimes r']
  split
  · next hr => exact hr ▸ (h r).grantAt hg.pooled
  · rw [List.append_nil]
    exact h r'

theorem Timely.move (h : s.Timely) (m : Move) : (s.move m).Timely := by
  cases move_spec s m with
  | asked t registry _ ha =>
    intro r
    rw [ha.now, ha.lane r, grantTimes, ha.grants]
    split
    · next hr => exact hr ▸ { h r with }
    · exact h r
  | quiet hq =>
    intro r
    rw [grantTimes, hq.grants]
    exact ((h r).laneMove (hq.lane r)).mono hq.now
  | granted t r waited hg => exact h.grant hg
  | returned t r hr =>
    intro r'
    rw [hr.now, hr.lane r', grantTimes, hr.grants]
    split
    · next he => exact he ▸ { h r' with }
    · exact h r'

theorem Timely.run (h : s.Timely) (moves : List Move) : (s.run moves).Timely := by
  induction moves generalizing s with
  | nil => exact h
  | cons m moves ih => exact ih (h.move m)

theorem timely_run (rates : Rates) (globalConcurrency : Nat) (moves : List Move) :
    ((fresh rates globalConcurrency).run moves).Timely :=
  (timely_fresh rates globalConcurrency).run moves

theorem rate_run (rates : Rates) (globalConcurrency : Nat) (moves : List Move) (r : String) :
    (((fresh rates globalConcurrency).run moves).lane r).rate = rates.lookup r :=
  ((balanced_fresh rates globalConcurrency).run moves).rate r

/-! ## Windows of runs -/

/-- The grants of a registry keep to a limit: with so many grants between them, two lie a minute
apart, and the window holds those of the last minute. -/
structure Windowed (s : Limiter) (r : String) (limit : Nat) : Prop where
  sorted : (s.grantTimes r).Pairwise (· ≤ ·)
  spaced : Spaced limit (s.grantTimes r)
  window : Lane.prune s.now (s.lane r).recent =
    (s.grantTimes r).filter fun g => s.now < g + window

theorem windowed_run (rates : Rates) (globalConcurrency : Nat) (moves : List Move) (r : String) :
    ((fresh rates globalConcurrency).run moves).Windowed r
      (max 1 (rates.lookup r).requestsPerMinute) := by
  have h := timely_run rates globalConcurrency moves r
  have hspaced := h.spaced
  rw [rate_run] at hspaced
  exact ⟨h.sorted, hspaced, h.prune_recent⟩

/-- An acquisition that was given up before it was granted is never granted. -/
theorem not_granted_of_abandoned (rates : Rates) (globalConcurrency : Nat)
    {before after : List Move} {t : Ticket} (hd : Distinct (before ++ .abandon t :: after))
    (ht : t ∈ asked before) (hnot : t ∉ ((fresh rates globalConcurrency).run before).granted) :
    t ∉ ((fresh rates globalConcurrency).run (before ++ .abandon t :: after)).granted := by
  rw [Distinct, asked_append, List.nodup_append] at hd
  obtain ⟨hbefore, -, hdisj⟩ := hd
  have hafter : t ∉ asked after := fun h => hdisj t ht t h rfl
  have hgives := (orderly_run rates globalConcurrency hbefore).givesBack_abandon t
  have hsame (s : Limiter) : (s.abandon t).granted = s.granted := by
    rcases abandon_spec s t with hq | ⟨r, hr⟩
    · rw [granted, granted, hq.grants]
    · rw [granted, granted, hr.grants]
  rw [run_append, run_cons]
  refine mt (hgives.done.1.run hafter).2.1.mp ?_
  rwa [hsame]

/-- **The window is safe.** In every run, and so for whatever the users of a workload do, a grant
comes a minute or more after the one that lies as many grants back as the limit of the registry
allows in a minute. An acquisition that was given up before its grant, wherever it stood, counts
for nothing. -/
theorem window_spaced (rates : Rates) (globalConcurrency : Nat) (moves : List Move)
    (hd : Distinct moves) :
    (∀ r, ((fresh rates globalConcurrency).run moves).Windowed r
        (max 1 (rates.lookup r).requestsPerMinute)) ∧
      (∀ before t after, moves = before ++ .abandon t :: after → t ∈ asked before →
        t ∉ ((fresh rates globalConcurrency).run before).granted →
        t ∉ ((fresh rates globalConcurrency).run moves).granted) ∧
      ∀ (ops : List Workload.Operation) (r : String), (ops.foldl Workload.perform
          (Workload.fresh (fresh rates globalConcurrency))).limiter.Windowed r
        (max 1 (rates.lookup r).requestsPerMinute) := by
  refine ⟨windowed_run rates globalConcurrency moves, fun before t after heq ht hnot => ?_,
    fun ops r => ?_⟩
  · subst heq
    exact not_granted_of_abandoned rates globalConcurrency hd ht hnot
  · obtain ⟨moves', hrun, -⟩ := Workload.exists_run (fresh rates globalConcurrency) ops
    rw [hrun]
    exact windowed_run rates globalConcurrency moves' r

/-- One request per minute: the second ticket gives up in its sleep, and the third is granted a
minute after the first. -/
theorem window_spaced_sleeper :
    let moves : List Move := [.ask 0 "r", .seat 0 "r", .enter 0 "r", .look 0 "r", .grant 0 "r",
      .ask 1 "r", .seat 1 "r", .enter 1 "r", .look 1 "r", .sleepUntil 100] ++ .abandon 1 ::
      [.ask 2 "r", .seat 2 "r", .enter 2 "r", .look 2 "r", .sleepUntil 60000, .wake 2 "r",
        .look 2 "r", .grant 2 "r"]
    let s := (fresh ⟨[("r", ⟨1, 3, 1⟩)]⟩ 2).run moves
    Distinct moves ∧ s.grantTimes "r" = [0, 60000] ∧ s.Windowed "r" 1 ∧ 1 ∉ s.granted := by
  have hd : Distinct ([.ask 0 "r", .seat 0 "r", .enter 0 "r", .look 0 "r", .grant 0 "r",
      .ask 1 "r", .seat 1 "r", .enter 1 "r", .look 1 "r", .sleepUntil 100] ++ .abandon 1 ::
      [.ask 2 "r", .seat 2 "r", .enter 2 "r", .look 2 "r", .sleepUntil 60000, .wake 2 "r",
        .look 2 "r", .grant 2 "r"]) := by decide
  obtain ⟨hw, habandoned, -⟩ := window_spaced ⟨[("r", ⟨1, 3, 1⟩)]⟩ 2 _ hd
  exact ⟨hd, by decide, hw "r", habandoned _ 1 _ rfl (by decide) (by decide)⟩

end Limiter

end TagWatch.Limit
