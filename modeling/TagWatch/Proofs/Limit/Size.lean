import TagWatch.Proofs.Limit.Capacity
import TagWatch.Proofs.Limit.Counters

/-!
# Which limiters can exist

**Theorem (`Workload.feasible_run_iff`).** After anything that users do, a limiter can exist if and
only if the number of global slots is at most `maxSlots`, and so is the number of slots of every
registry that has been asked for.

The global pool keeps its size, and every lane has the slots that its registry is to have
(`Limiter.Balanced.feasible_iff`). There are lanes for the registries that have been asked for, and
for no others (`Workload.mem_keys_iff`): a ticket that takes its turn waits in a lane, and a permit
has been granted by one. So only a request can open a lane. What only a request can end lasts
through all that users do otherwise (`Limiter.Stable`, `Workload.stable_perform`).
-/

namespace TagWatch.Limit

/-! ## Properties that last -/

/-- A property that nothing can end but a request. -/
structure Limiter.Stable (P : Limiter → Prop) : Prop where
  onAgenda : ∀ s f, P s → P (s.onAgenda f)
  turn : ∀ s t, P s → P (s.turn t)
  release : ∀ s t, P s → P (s.release t)
  abandon : ∀ s t, P s → P (s.abandon t)
  resetMetrics : ∀ s, P s → P s.resetMetrics

namespace Workload

open Limiter (Stable)

variable {P : Limiter → Prop} {w : Workload}

theorem stable_turn (hP : Stable P) (h : P w.limiter) (t : Ticket) : P (w.turn t).limiter := by
  have hturn : P (w.onLimiter (·.turn t)).limiter := hP.turn _ t h
  rw [turn]
  split
  · split
    · exact hP.release _ t hturn
    · next time _ _ => exact hP.onAgenda _ (·.callAt time t) hturn
  · exact hturn

theorem stable_takeTurns (hP : Stable P) (awaited : Option Ticket) (fuel : Nat)
    (h : P w.limiter) : P (takeTurns awaited fuel w).limiter := by
  induction fuel generalizing w with
  | zero => exact h
  | succ fuel ih =>
    rw [takeTurns]
    split
    · exact h
    · split
      · exact ih (stable_turn hP h _)
      · exact h

theorem stable_settle (hP : Stable P) (h : P w.limiter) (awaited : Option Ticket) :
    P (w.settle awaited).limiter :=
  stable_takeTurns hP awaited _ h

theorem stable_sleepUntil (hP : Stable P) (h : P w.limiter) (awaited : Option Ticket)
    (time : Nat) : P (w.sleepUntil awaited time).limiter := by
  have hsleep : P (w.onLimiter (·.sleepUntil time)).limiter := hP.onAgenda _ (·.sleepUntil time) h
  apply stable_settle hP
  unfold turnOf
  split
  · split
    · exact stable_turn hP hsleep _
    · exact hsleep
  · exact hsleep

theorem stable_passUntil (hP : Stable P) (awaited : Option Ticket) (time target : Nat)
    (h : P w.limiter) : P (passUntil awaited w time target).limiter := by
  fun_induction passUntil awaited w time target with
  | case1 => exact h
  | case2 w time _ _ _ _ ih => exact ih (stable_sleepUntil hP h awaited _)
  | case3 => exact stable_sleepUntil hP h awaited _
  | case4 => exact stable_sleepUntil hP h awaited _

theorem stable_keep (hP : Stable P) (h : P w.limiter) (name : String) (t : Ticket) :
    P (w.keep name t).limiter := by
  rw [keep]
  split
  · exact hP.release _ _ h
  · exact h

/-- What users do keeps every property that only a request could end, as long as their own requests
keep it. -/
theorem stable_perform (hP : Stable P) (h : P w.limiter) (op : Operation)
    (hask : ∀ registry, op.registry? = some (Registry.canonical registry) →
      P (w.limiter.ask w.nextTicket registry)) : P (w.perform op).limiter := by
  cases op with
  | acquire registry name timeout =>
    have hjoined : P (w.joined registry).limiter := hask registry rfl
    show P (w.acquire registry name timeout).1.limiter
    have hwait (time target : Nat) := stable_passUntil hP (some w.nextTicket) time target
      (stable_turn hP hjoined w.nextTicket)
    rw [acquire]
    split
    · exact stable_settle hP (stable_keep hP (hwait _ _) name w.nextTicket) none
    · exact stable_settle hP (hP.abandon _ w.nextTicket (hwait _ _)) none
  | spawn registry name hold =>
    have hspawned : P (w.spawned registry name hold).limiter :=
      hP.onAgenda _ (·.call w.nextTicket) (hask registry rfl)
    exact stable_settle hP hspawned none
  | release name =>
    show P (w.release name).1.limiter
    rw [release]
    split
    · exact stable_settle hP (hP.release _ _ h) none
    · split
      · next t _ => exact stable_settle hP (hP.onAgenda _ (·.call t) h) none
      · exact h
  | abort name =>
    show P (w.abort name).limiter
    rw [abort]
    split
    · exact stable_settle hP (hP.abandon _ _ h) none
    · exact h
  | advance ms => exact stable_passUntil hP none _ _ h
  | resetMetrics => exact hP.resetMetrics _ h

end Workload

namespace Limiter

variable {s : Limiter} {t : Ticket} {r : String} {registries : List String}

/-! ## Registries that have a lane -/

/-- There are lanes and permits for these registries only. -/
structure Within (registries : List String) (s : Limiter) : Prop where
  keys : s.lanes.keys ⊆ registries
  held : ∀ p ∈ s.held, p.2 ∈ registries

theorem Within.onLane (h : s.Within registries) (hr : r ∈ registries) (f : Lane → Lane) :
    (s.onLane r f).Within registries := by
  refine ⟨?_, h.held⟩
  intro k hk
  rw [Limiter.onLane, setLane, Table.keys_set] at hk
  split at hk
  · exact h.keys hk
  · rcases List.mem_append.mp hk with hk | hk
    · exact h.keys hk
    · exact List.mem_singleton.mp hk ▸ hr

theorem Within.look (h : s.Within registries) (hr : r ∈ registries) (t : Ticket) :
    (s.look t r).Within registries := by
  have hlane : (s.setLane r ((s.lane r).look s.now)).Within registries := h.onLane hr (·.look s.now)
  unfold Limiter.look
  split
  · dsimp only
    split
    · exact ⟨hlane.keys, hlane.held⟩
    · exact ⟨hlane.keys, hlane.held⟩
    · exact hlane
  · exact h

theorem Within.grant (h : s.Within registries) (hr : r ∈ registries) (t : Ticket) :
    (s.grant t r).Within registries := by
  unfold Limiter.grant
  split
  · split
    · refine ⟨(h.onLane hr (·.grantAt s.now)).keys, ?_⟩
      intro p hp
      rcases List.mem_append.mp hp with hp | hp
      · exact h.held p hp
      · exact List.mem_singleton.mp hp ▸ hr
    · exact h
  · exact h

theorem mem_keys_of_registryOf? (h : s.registryOf? t = some r) : r ∈ s.lanes.keys := by
  obtain ⟨e, he, rfl⟩ := Option.map_eq_some_iff.mp h
  exact List.mem_map.mpr ⟨e, List.mem_of_find?_eq_some he, rfl⟩

theorem Within.turn (h : s.Within registries) (t : Ticket) : (s.turn t).Within registries := by
  have htake : (s.onAgenda (·.take t)).Within registries := ⟨h.keys, h.held⟩
  rw [Limiter.turn]
  split
  · next r hr =>
    have hmem : r ∈ registries := htake.keys (mem_keys_of_registryOf? hr)
    have hseat := htake.onLane hmem (·.seat t)
    have henter := hseat.onLane hmem (·.enter t)
    have hwake := henter.onLane hmem (·.wake s.now t)
    exact (hwake.look hmem t).grant hmem t
  · exact htake

theorem Within.release (h : s.Within registries) (t : Ticket) :
    (s.release t).Within registries := by
  unfold Limiter.release
  split
  · next r hfind =>
    have hr : r ∈ registries := h.held _ (List.mem_of_find?_eq_some hfind)
    refine ⟨(h.onLane hr (·.returnSlot)).keys, ?_⟩
    intro p hp
    exact h.held p (List.mem_of_mem_eraseP hp)
  · exact h

theorem Within.abandon (h : s.Within registries) (t : Ticket) :
    (s.abandon t).Within registries := by
  rw [Limiter.abandon]
  split
  · next r hr =>
    have hcancel := h.onLane (h.keys (mem_keys_of_registryOf? hr)) (·.cancel t)
    exact ⟨hcancel.keys, hcancel.held⟩
  · exact ⟨(h.release t).keys, (h.release t).held⟩

theorem Within.resetMetrics (h : s.Within registries) : s.resetMetrics.Within registries := by
  refine ⟨?_, h.held⟩
  show (s.lanes.entries.map _).map Prod.fst ⊆ registries
  rw [List.map_map]
  exact h.keys

/-- Only a request can open a lane. -/
theorem stable_within (registries : List String) : Stable (Within registries) where
  onAgenda _ _ h := ⟨h.keys, h.held⟩
  turn _ t h := h.turn t
  release _ t h := h.release t
  abandon _ t h := h.abandon t
  resetMetrics _ h := h.resetMetrics

/-! ## Possible sizes -/

theorem max_le_maxSlots_iff {n : Nat} : max 1 n ≤ maxSlots ↔ n ≤ maxSlots := by
  rw [Nat.max_le]
  exact and_iff_right (by decide)

/-- A limiter can exist as long as the global pool and the pools of all lanes are small enough. -/
theorem Balanced.feasible_iff {rates : Rates} {globalConcurrency : Nat}
    (h : s.Balanced rates globalConcurrency) (hn : s.lanes.keys.Nodup) :
    s.feasible = true ↔ globalConcurrency ≤ maxSlots ∧
      ∀ r ∈ s.lanes.keys, (rates.lookup r).concurrent ≤ maxSlots := by
  have hpool : s.pool.free + s.held.length = max 1 globalConcurrency := by
    rw [Nat.add_comm]
    exact h.pool
  have hlane (e : String × Lane) (he : e ∈ s.lanes.entries) :
      Lane.capacity e.2.rate = max 1 (rates.lookup e.1).concurrent := by
    rw [← lane_of_mem_entries hn he, h.rate]
    rfl
  rw [feasible, Bool.and_eq_true, decide_eq_true_eq, List.all_eq_true, hpool, max_le_maxSlots_iff]
  apply and_congr_right'
  constructor
  · intro hall r hr
    obtain ⟨e, he, rfl⟩ := List.mem_map.mp hr
    have hle := of_decide_eq_true (hall e he)
    rwa [hlane e he, max_le_maxSlots_iff] at hle
  · intro hall e he
    rw [decide_eq_true_eq, hlane e he, max_le_maxSlots_iff]
    exact hall e.1 (List.mem_map.mpr ⟨e, he, rfl⟩)

end Limiter

namespace Workload

variable (rates : Rates) (globalConcurrency : Nat) (ops : List Operation)

theorem within_run : (ops.foldl perform (fresh (.fresh rates globalConcurrency))).limiter.Within
    (requested ops) := by
  induction ops using List.reverseRecOn with
  | nil => exact ⟨fun _ hk => hk, fun _ hp => absurd hp List.not_mem_nil⟩
  | append_singleton ops op ih =>
    have hmono : (ops.foldl perform (fresh (.fresh rates globalConcurrency))).limiter.Within
        (requested (ops ++ [op])) := by
      have hsub : requested ops ⊆ requested (ops ++ [op]) := by
        rw [requested, requested, List.filterMap_append]
        exact List.subset_append_left _ _
      exact ⟨fun k hk => hsub (ih.keys hk), fun p hp => hsub (ih.held p hp)⟩
    rw [List.foldl_append, List.foldl_cons, List.foldl_nil]
    apply stable_perform (Limiter.stable_within _) hmono
    intro registry hregistry
    refine hmono.onLane ?_ (·.ask _)
    simp [requested, hregistry]

/-- There are lanes for the registries that users have asked for, and for no others. -/
theorem mem_keys_iff {r : String} :
    r ∈ (ops.foldl perform (fresh (.fresh rates globalConcurrency))).limiter.lanes.keys ↔
      r ∈ requested ops :=
  ⟨fun hr => (within_run rates globalConcurrency ops).keys hr, mem_keys_of_requested _⟩

/-- **Which limiters can exist.** After anything that users do, a limiter can exist if and only if
no pool is configured too large, be it the global one or that of a registry that has been asked
for. -/
theorem feasible_run_iff :
    (ops.foldl perform (fresh (.fresh rates globalConcurrency))).limiter.feasible = true ↔
      globalConcurrency ≤ maxSlots ∧
        ∀ r ∈ requested ops, (rates.lookup r).concurrent ≤ maxSlots := by
  obtain ⟨moves, hrun, -⟩ := exists_run (.fresh rates globalConcurrency) ops
  have hbalanced := (Limiter.balanced_fresh rates globalConcurrency).run moves
  have hkeys : ((Limiter.fresh rates globalConcurrency).run moves).lanes.keys.Nodup :=
    Limiter.nodup_keys_run (Limiter.orderly_fresh rates globalConcurrency).keys moves
  rw [← hrun] at hbalanced hkeys
  rw [hbalanced.feasible_iff hkeys]
  simp only [mem_keys_iff]

end Workload

end TagWatch.Limit
