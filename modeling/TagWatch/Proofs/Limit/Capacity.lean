import Mathlib.Data.List.Nodup
import TagWatch.Proofs.Limit.Tickets

/-!
# Slots are neither lost nor doubled

**Theorem (`Limiter.slots_conserved`).** In every run the permits held for a registry, the tickets
of its lane that hold a slot while they wait and its free slots make up its capacity, and the
permits held overall and the free global slots make up the global capacity. When the tickets are
distinct, whoever is released or abandoned gives back exactly the slots that it has, and has
nothing from then on.

`Balanced` states the two equations. A move inside a lane shifts a ticket between the seats and
the free slots (`Lane.inside_add_free`), a grant turns a seat into a held permit and takes a
global slot along, and a returned permit frees one slot of each kind.
-/

namespace TagWatch.Limit

/-! ## The slots of one lane -/

namespace Lane

variable {l l' : Lane} {t : Ticket} {now : Nat}

theorem inside_add_free_cancel (l : Lane) (t : Ticket) :
    (l.cancel t).inside.length + (l.cancel t).slots.free = l.inside.length + l.slots.free := by
  unfold cancel
  split
  · rfl
  · split
    · next h =>
      have hmem : t ∈ l.seated := List.contains_iff_mem.mp h
      have hpos := List.length_pos_of_mem hmem
      show (l.seated.erase t ++ l.admitted).length + (l.slots.free + 1) =
        (l.seated ++ l.admitted).length + l.slots.free
      rw [List.length_append, List.length_append, List.length_erase_of_mem hmem]
      omega
    · split
      · next h =>
        obtain ⟨a, ha, -⟩ := mem_admitted_iff.mp (isAdmitting_iff.mp h)
        rw [inside, inside, admitted_of_admitting ha]
        show (l.seated ++ []).length + (l.slots.free + 1) =
          (l.seated ++ [a.ticket]).length + l.slots.free
        rw [List.append_nil, List.length_append, List.length_singleton]
        omega
      · rfl

/-- Moves inside a lane neither lose nor double its slots. -/
theorem inside_add_free (h : LaneMove now l l') :
    l'.inside.length + l'.slots.free = l.inside.length + l.slots.free := by
  cases h with
  | stay => rfl
  | seat t =>
    by_cases h : l.slots.admits t = true
    · have hpos := Gate.free_pos_of_admits h
      rw [seat_of_admits h]
      show (l.seated ++ [t] ++ l.admitted).length + (l.slots.free - 1) =
        (l.seated ++ l.admitted).length + l.slots.free
      rw [List.length_append, List.length_append, List.length_append, List.length_singleton]
      omega
    · rw [seat, if_neg h]
  | enter t => rw [inside_enter.length_eq, slots_enter]
  | wake t => rw [inside_wake, slots_wake]
  | look => rw [inside_look, slots_look]
  | cancel t => exact inside_add_free_cancel l t
  | reset => rfl

/-- The limits of a lane are never changed. -/
theorem rate_laneMove (h : LaneMove now l l') : l'.rate = l.rate := by
  cases h with
  | stay => rfl
  | seat t => unfold seat; split <;> rfl
  | enter t => rcases enter_cases l t with h | ⟨_, _, _, h⟩ <;> rw [h]
  | wake t => rcases wake_cases l now t with h | ⟨_, _, _, _, h⟩ <;> rw [h]
  | look =>
    rcases look_cases l now with h | ⟨_, _, _, _, h⟩ | ⟨_, _, _, _, _, _, _, h⟩ <;> rw [h]
  | cancel t =>
    unfold cancel
    split
    · rfl
    · split
      · rfl
      · split <;> rfl
  | reset => rfl

/-- The slot of the ticket at the window lock becomes that of its permit. -/
theorem inside_grantAt {a : Admission} (h : l.admitting = some a) :
    l.inside.length = (l.grantAt now).inside.length + 1 := by
  rw [inside, admitted_of_admitting h, List.length_append]
  show _ = (l.seated ++ []).length + 1
  rw [List.append_nil]
  rfl

end Lane

namespace Limiter

variable {s s' : Limiter} {t : Ticket} {r r' : String} {rates : Rates} {globalConcurrency : Nat}

/-! ## The balance of slots -/

/-- The number of permits that are held for a registry. -/
def heldIn (s : Limiter) (r : String) : Nat := s.held.countP (·.2 == r)

/-- Every slot is in one place: free, with a ticket that waits, or with a permit. -/
structure Balanced (s : Limiter) (rates : Rates) (globalConcurrency : Nat) : Prop where
  configured : s.rates = rates
  rate : ∀ r, (s.lane r).rate = rates.lookup r
  lane : ∀ r, s.heldIn r + (s.lane r).inside.length + (s.lane r).slots.free =
    Lane.capacity (rates.lookup r)
  pool : s.held.length + s.pool.free = globalSlots globalConcurrency

/-- A permit that is given back is taken out of the held ones. -/
theorem Returned.held_split (h : Returned s s' t r) :
    ∃ before after, s.held = before ++ (t, r) :: after ∧ s'.held = before ++ after := by
  obtain ⟨hp, before, after, hheld, hbefore⟩ := List.find?_eq_some_iff_append.mp h.found
  refine ⟨before, after, hheld, ?_⟩
  have hne (e : Ticket × String) (he : e ∈ before) : ¬ (e.1 == t) = true := by
    have hb := hbefore e he
    rwa [Bool.not_eq_true', ← Bool.not_eq_true] at hb
  rw [h.held, hheld, List.eraseP_append_right _ hne]
  exact congrArg (before ++ ·) (List.eraseP_cons_of_pos (beq_self_eq_true t))

theorem balanced_fresh (rates : Rates) (globalConcurrency : Nat) :
    (fresh rates globalConcurrency).Balanced rates globalConcurrency where
  configured := rfl
  rate _ := rfl
  lane _ := Nat.zero_add _
  pool := Nat.zero_add _

theorem Balanced.quiet (h : s.Balanced rates globalConcurrency) (hq : Quiet s s') :
    s'.Balanced rates globalConcurrency := by
  refine ⟨hq.rates.trans h.configured, fun r => ?_, fun r => ?_, ?_⟩
  · rw [Lane.rate_laneMove (hq.lane r)]
    exact h.rate r
  · rw [heldIn, hq.held, Nat.add_assoc, Lane.inside_add_free (hq.lane r), ← Nat.add_assoc]
    exact h.lane r
  · rw [hq.held, hq.free]
    exact h.pool

theorem Balanced.asked (h : s.Balanced rates globalConcurrency) (ha : Asked s s' t r) :
    s'.Balanced rates globalConcurrency := by
  refine ⟨ha.rates.trans h.configured, fun r' => ?_, fun r' => ?_, ?_⟩
  · rw [ha.lane r']
    split
    · next hr => exact hr ▸ h.rate r
    · exact h.rate r'
  · rw [heldIn, ha.held, ha.lane r']
    split
    · next hr => exact hr ▸ h.lane r
    · exact h.lane r'
  · rw [ha.held, ha.pool]
    exact h.pool

theorem Balanced.grant {waited : Nat} (h : s.Balanced rates globalConcurrency)
    (hg : Granted s s' t r waited) : s'.Balanced rates globalConcurrency := by
  refine ⟨hg.rates.trans h.configured, fun r' => ?_, fun r' => ?_, ?_⟩
  · rw [hg.lane r']
    split
    · next hr => exact hr ▸ h.rate r
    · exact h.rate r'
  · have hheld : s'.heldIn r' = s.heldIn r' + if r = r' then 1 else 0 := by
      rw [heldIn, hg.held, List.countP_append, List.countP_singleton]
      simp only [beq_iff_eq]
      rfl
    have hlane := h.lane r'
    rw [hheld, hg.lane r']
    split
    · next hr =>
      subst hr
      rw [if_pos rfl]
      have hinside := @Lane.inside_grantAt _ s.now _ hg.pooled
      show s.heldIn _ + 1 + _ + (s.lane _).slots.free = _
      omega
    · next hr =>
      rw [if_neg (Ne.symm hr)]
      exact hlane
  · have hpos := Gate.free_pos_of_admits hg.admits
    have hpool := h.pool
    rw [hg.held, hg.pool, Gate.pass_of_admits hg.admits, List.length_append,
      List.length_singleton]
    show _ + (s.pool.free - 1) = _
    omega

theorem Balanced.returned (h : s.Balanced rates globalConcurrency) (hr : Returned s s' t r) :
    s'.Balanced rates globalConcurrency := by
  obtain ⟨before, after, hheld, hheld'⟩ := hr.held_split
  refine ⟨hr.rates.trans h.configured, fun r' => ?_, fun r' => ?_, ?_⟩
  · rw [hr.lane r']
    split
    · next he => exact he ▸ h.rate r
    · exact h.rate r'
  · have hcount : s.heldIn r' = s'.heldIn r' + if r = r' then 1 else 0 := by
      rw [heldIn, heldIn, hheld, hheld', List.countP_append, List.countP_append, List.countP_cons]
      simp only [beq_iff_eq]
      omega
    have hlane := h.lane r'
    rw [hcount] at hlane
    rw [hr.lane r']
    split
    · next he =>
      subst he
      rw [if_pos rfl] at hlane
      show s'.heldIn r' + (s.lane r').inside.length + ((s.lane r').slots.free + 1) = _
      omega
    · next he =>
      rw [if_neg (Ne.symm he)] at hlane
      exact hlane
  · have hpool := h.pool
    rw [hheld, List.length_append, List.length_cons] at hpool
    rw [hheld', hr.pool, List.length_append]
    show _ + (s.pool.free + 1) = _
    omega

theorem Balanced.move (h : s.Balanced rates globalConcurrency) (m : Move) :
    (s.move m).Balanced rates globalConcurrency := by
  cases move_spec s m with
  | asked t registry _ ha => exact h.asked ha
  | quiet hq => exact h.quiet hq
  | granted t r waited hg => exact h.grant hg
  | returned t r hr => exact h.returned hr

theorem Balanced.run (h : s.Balanced rates globalConcurrency) (moves : List Move) :
    (s.run moves).Balanced rates globalConcurrency := by
  induction moves generalizing s with
  | nil => exact h
  | cons m moves ih => exact ih (h.move m)

/-! ## Giving slots back -/

/-- The number of slots of a registry that a ticket has, with its permit or while it waits. -/
def slotsOf (s : Limiter) (t : Ticket) (r : String) : Nat :=
  s.held.count (t, r) + (s.lane r).inside.count t

/-- The number of global slots that a ticket has. -/
def globalSlotsOf (s : Limiter) (t : Ticket) : Nat := (s.held.map Prod.fst).count t

/-- A ticket is through: it neither waits nor holds a permit. -/
def Done (s : Limiter) (t : Ticket) : Prop := s.Idle t ∧ ∀ r, (t, r) ∉ s.held

/-- A ticket has given back every slot that it had, once, and is through. -/
structure GivesBack (s s' : Limiter) (t : Ticket) : Prop where
  lane : ∀ r, (s'.lane r).slots.free = (s.lane r).slots.free + s.slotsOf t r
  pool : s'.pool.free = s.pool.free + s.globalSlotsOf t
  done : s'.Done t

theorem not_mem_inside (h : t ∉ (s.lane r).tickets) : t ∉ (s.lane r).inside :=
  fun hi => h (List.mem_append_right _ hi)

theorem globalSlotsOf_eq_zero (h : ∀ r, (t, r) ∉ s.held) : s.globalSlotsOf t = 0 := by
  refine List.count_eq_zero.mpr fun ht => ?_
  obtain ⟨⟨u, r⟩, hheld, rfl⟩ := List.mem_map.mp ht
  exact h r hheld

theorem slotsOf_of_not_held (h : (t, r) ∉ s.held) :
    s.slotsOf t r = (s.lane r).inside.count t := by
  rw [slotsOf, List.count_eq_zero.mpr h, Nat.zero_add]

/-- A ticket that is through has no slot. -/
theorem Done.slotsOf (h : s.Done t) (r : String) : s.slotsOf t r = 0 := by
  rw [slotsOf_of_not_held (h.2 r)]
  exact List.count_eq_zero.mpr (not_mem_inside (h.1 r))

/-- A ticket that is through stays so as long as nobody asks with it. -/
theorem Done.run {moves : List Move} (h : s.Done t) (hm : t ∉ asked moves) :
    (s.run moves).Done t := by
  obtain ⟨hidle, -, hheld⟩ := h.1.run hm
  exact ⟨hidle, fun r ht => h.2 r (hheld r ht)⟩

/-- Releasing a ticket without a permit does nothing. -/
theorem release_of_not_held (h : ∀ r, (t, r) ∉ s.held) : s.release t = s := by
  rcases release_spec s t with ⟨-, hsame⟩ | ⟨r, hr⟩
  · exact hsame
  · exact absurd (List.mem_of_find?_eq_some hr.found) (h r)

/-- Releasing a ticket with a permit gives that permit back. -/
theorem Orderly.returned_release (h : s.Orderly) (hheld : (t, r) ∈ s.held) :
    Returned s (s.release t) t r := by
  rcases release_spec s t with ⟨hnone, -⟩ | ⟨r', hr⟩
  · exact absurd (beq_self_eq_true t) (List.find?_eq_none.mp hnone _ hheld)
  · have hmem := List.mem_of_find?_eq_some hr.found
    have hinj : (t, r') = (t, r) := List.inj_on_of_nodup_map h.heldOnce hmem hheld rfl
    rwa [← (Prod.mk.inj hinj).2]

theorem Orderly.givesBack_release (h : s.Orderly) (hi : s.Idle t) :
    GivesBack s (s.release t) t := by
  by_cases hheld : ∃ r, (t, r) ∈ s.held
  · obtain ⟨r, hheld⟩ := hheld
    have hr := h.returned_release hheld
    obtain ⟨before, after, hsplit, hsplit'⟩ := hr.held_split
    have hnodup := h.heldOnce
    rw [hsplit, List.map_append, List.map_cons, List.nodup_middle, List.nodup_cons,
      ← List.map_append] at hnodup
    have hnot (r' : String) : (t, r') ∉ before ++ after := fun hmem =>
      hnodup.1 (List.mem_map.mpr ⟨_, hmem, rfl⟩)
    refine ⟨fun r' => ?_, ?_, fun r' => ?_, fun r' => hsplit' ▸ hnot r'⟩
    · rw [slotsOf, List.count_eq_zero.mpr (not_mem_inside (hi r')), hr.lane r', hsplit]
      rw [List.perm_middle.count_eq, List.count_cons, List.count_eq_zero.mpr (hnot r')]
      split
      · next he => subst he; simp [Lane.returnSlot, Gate.restore]
      · next he => simp [Ne.symm he]
    · rw [hr.pool, globalSlotsOf, hsplit, List.map_append, List.map_cons, List.perm_middle.count_eq,
        List.count_cons, ← List.map_append, List.count_eq_zero.mpr hnodup.1]
      simp [Gate.restore]
    · rw [hr.tickets]
      exact hi r'
  · have hnot (r : String) : (t, r) ∉ s.held := fun hr => hheld ⟨r, hr⟩
    have hdone : s.Done t := ⟨hi, hnot⟩
    rw [release_of_not_held hnot]
    exact ⟨fun r => by rw [hdone.slotsOf]; rfl, by rw [globalSlotsOf_eq_zero hnot]; rfl, hdone⟩

theorem Orderly.givesBack_withdraw (h : s.Orderly) (ht : t ∈ (s.lane r).tickets) :
    GivesBack s (s.withdraw t r) t := by
  have hnot (r' : String) : (t, r') ∉ s.held := h.not_held_of_mem_tickets ht
  have hlane (r' : String) : (s.withdraw t r).lane r' =
      if r' = r then (s.lane r).cancel t else s.lane r' := lane_onLane s r r' (·.cancel t)
  have hother {r' : String} (hr : r' ≠ r) : t ∉ (s.lane r').tickets :=
    fun ht' => hr (h.apart ht' ht)
  refine ⟨fun r' => ?_, ?_, fun r' => ?_, hnot⟩
  · rw [hlane, slotsOf_of_not_held (hnot r')]
    split
    · next hr => rw [hr, Lane.free_cancel (h.once r)]
    · next hr => rw [List.count_eq_zero.mpr (not_mem_inside (hother hr))]; rfl
  · rw [globalSlotsOf_eq_zero hnot]
    rfl
  · rw [hlane]
    split
    · rw [Lane.tickets_cancel]
      exact (h.once r).not_mem_erase
    · next hr => exact hother hr

/-- **Giving up gives back.** Whatever an abandoned ticket waits for or holds, it gives back its
slots. -/
theorem Orderly.givesBack_abandon (h : s.Orderly) (t : Ticket) : GivesBack s (s.abandon t) t := by
  rw [abandon]
  split
  · next r hr => exact h.givesBack_withdraw (h.registryOf?_eq_some_iff.mp hr)
  · next hr =>
    have hrel := h.givesBack_release (h.registryOf?_eq_none_iff.mp hr)
    exact ⟨hrel.lane, hrel.pool, hrel.done⟩

/-- A ticket has one slot in all, if any. -/
theorem Orderly.slotsOf_le_one (h : s.Orderly) (t : Ticket) (r : String) : s.slotsOf t r ≤ 1 := by
  have hheld : s.held.count (t, r) ≤ 1 := List.nodup_iff_count.mp h.heldOnce.of_map _
  have hinside : (s.lane r).inside.count t ≤ 1 :=
    List.nodup_iff_count.mp ((h.once r).sublist (List.sublist_append_right _ _)) t
  by_cases hmem : (t, r) ∈ s.held
  · have hnot : t ∉ (s.lane r).tickets := fun ht => h.not_held_of_mem_tickets ht hmem
    rw [slotsOf, List.count_eq_zero.mpr (not_mem_inside hnot)]
    exact hheld
  · rw [slotsOf_of_not_held hmem]
    exact hinside

theorem mem_of_slotsOf_pos (h : 0 < s.slotsOf t r) :
    (t, r) ∈ s.held ∨ t ∈ (s.lane r).tickets := by
  by_cases hmem : (t, r) ∈ s.held
  · exact .inl hmem
  · rw [slotsOf_of_not_held hmem] at h
    exact .inr (List.mem_append_right _ (List.count_pos_iff.mp h))

/-- A ticket has slots of one registry only. -/
theorem Orderly.eq_of_slotsOf_pos (h : s.Orderly) (hr : 0 < s.slotsOf t r)
    (hr' : 0 < s.slotsOf t r') : r = r' := by
  rcases mem_of_slotsOf_pos hr with hmem | hmem <;> rcases mem_of_slotsOf_pos hr' with hmem' | hmem'
  · exact (Prod.mk.inj (List.inj_on_of_nodup_map h.heldOnce hmem hmem' rfl)).2
  · exact absurd hmem (h.not_held_of_mem_tickets hmem')
  · exact absurd hmem' (h.not_held_of_mem_tickets hmem)
  · exact h.apart hmem hmem'

/-- When every ticket is through, all slots are free. -/
theorem Balanced.free_of_done (h : s.Balanced rates globalConcurrency) (hd : ∀ t, s.Done t) :
    (∀ r, (s.lane r).slots.free = Lane.capacity (rates.lookup r)) ∧
      s.pool.free = globalSlots globalConcurrency := by
  have hheld : s.held = [] := List.eq_nil_iff_forall_not_mem.mpr fun e he => (hd e.1).2 e.2 he
  have hinside (r : String) : (s.lane r).inside = [] :=
    List.eq_nil_iff_forall_not_mem.mpr fun t ht => not_mem_inside ((hd t).1 r) ht
  constructor
  · intro r
    have hlane := h.lane r
    rw [heldIn, hheld, hinside] at hlane
    simpa using hlane
  · have hpool := h.pool
    rw [hheld] at hpool
    simpa using hpool

/-- **Slots are conserved.** In every run each slot is in one place: free, with a ticket that
waits, or with a held permit; so no cap is exceeded. With distinct tickets, every slot comes back
once: when its permit is released, or when its ticket is abandoned wherever it waits. When all
tickets are through, the full capacity is free. -/
theorem slots_conserved (rates : Rates) (globalConcurrency : Nat) (moves : List Move) :
    let s := (fresh rates globalConcurrency).run moves
    (∀ r, s.heldIn r + (s.lane r).inside.length + (s.lane r).slots.free =
        max 1 (rates.lookup r).concurrent) ∧
      s.held.length + s.pool.free = max 1 globalConcurrency ∧
      (∀ r, s.heldIn r ≤ max 1 (rates.lookup r).concurrent) ∧
      s.held.length ≤ max 1 globalConcurrency ∧
      (Distinct moves →
        (∀ t, GivesBack s (s.abandon t) t) ∧
        (∀ t r, (t, r) ∈ s.held → GivesBack s (s.release t) t) ∧
        (∀ t, (∀ r, (t, r) ∉ s.held) → s.release t = s) ∧
        (∀ t r, s.slotsOf t r ≤ 1) ∧
        (∀ t r r', 0 < s.slotsOf t r → 0 < s.slotsOf t r' → r = r') ∧
        (∀ t moves', s.Done t → t ∉ asked moves' → (s.run moves').Done t) ∧
        ((∀ t ∈ asked moves, s.Done t) →
          (∀ r, (s.lane r).slots.free = max 1 (rates.lookup r).concurrent) ∧
            s.pool.free = max 1 globalConcurrency)) := by
  intro s
  have hb : s.Balanced rates globalConcurrency := (balanced_fresh rates globalConcurrency).run moves
  refine ⟨hb.lane, hb.pool, fun r => ?_, ?_, fun hd => ?_⟩
  · have hlane := hb.lane r
    rw [Lane.capacity] at hlane
    omega
  · have hpool := hb.pool
    rw [globalSlots] at hpool
    omega
  · have ho : s.Orderly := orderly_run rates globalConcurrency hd
    refine ⟨ho.givesBack_abandon, fun t r hheld => ho.givesBack_release ?_,
      fun t hnot => release_of_not_held hnot, ho.slotsOf_le_one,
      fun t r r' hr hr' => ho.eq_of_slotsOf_pos hr hr', fun t moves' hdone hm => hdone.run hm,
      fun hdone => hb.free_of_done fun t => ?_⟩
    · exact fun r' ht => ho.not_held_of_mem_tickets ht hheld
    · by_cases ht : t ∈ asked moves
      · exact hdone t ht
      · -- a ticket that nobody asked with was never there
        have hfresh : (fresh rates globalConcurrency).Done t :=
          ⟨idle_fresh rates globalConcurrency t, fun _ => List.not_mem_nil⟩
        exact hfresh.run ht

/-- Two tickets on a registry with one slot, the first of which is abandoned with its permit. -/
theorem slots_conserved_handover :
    let moves : List Move := [.ask 0 "r", .seat 0 "r", .enter 0 "r", .look 0 "r", .grant 0 "r",
      .ask 1 "r", .abandon 0, .seat 1 "r"]
    let s := (fresh ⟨[("r", ⟨1, 1, 1⟩)]⟩ 1).run moves
    Distinct moves ∧ (s.lane "r").inside = [1] ∧ (s.lane "r").slots.free = 0 ∧
      s.pool.free = 1 ∧ GivesBack s (s.abandon 1) 1 := by
  refine ⟨by decide, by decide, by decide, by decide, ?_⟩
  exact ((slots_conserved _ _ _).2.2.2.2 (by decide)).1 1

end Limiter

end TagWatch.Limit
