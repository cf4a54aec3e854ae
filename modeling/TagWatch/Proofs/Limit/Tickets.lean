import TagWatch.Proofs.Limit.Lane

/-!
# Where a ticket is

A ticket is in one place at most: it waits in one lane, or it holds one permit, or it does
neither. `Orderly` says so of a limiter.

**Theorem (`Limiter.orderly_run`).** Every run with distinct tickets leaves the limiter orderly.

The other half of the story needs no distinct tickets: a ticket that is nowhere stays nowhere as
long as nobody asks with it (`Limiter.Idle.run`). So a ticket that was abandoned gets nothing
any more.
-/

namespace TagWatch.Limit

namespace Limiter

variable {s s' : Limiter} {m : Move} {t u : Ticket} {r r' : String}

/-- The tickets that have been granted, in order. -/
def granted (s : Limiter) : List Ticket := s.grants.map (·.ticket)

theorem isGranted_iff : s.isGranted t = true ↔ t ∈ s.granted := by
  rw [isGranted, grantOf?, List.find?_isSome, granted, List.mem_map]
  simp only [beq_iff_eq]

/-! ## Tickets that wait nowhere -/

/-- A ticket waits in no lane. -/
def Idle (s : Limiter) (t : Ticket) : Prop := ∀ r, t ∉ (s.lane r).tickets

/-- The tickets of a lane after one of them has been granted. -/
theorem Granted.tickets {waited : Nat} (h : Granted s s' t r waited) :
    (s.lane r).tickets.Perm (t :: (s'.lane r).tickets) := by
  rw [h.lane r, if_pos rfl]
  exact Lane.tickets_grantAt h.pooled

theorem Granted.mem_tickets {waited : Nat} (h : Granted s s' t r waited) :
    t ∈ (s.lane r).tickets :=
  h.tickets.mem_iff.mpr List.mem_cons_self

theorem Returned.tickets (h : Returned s s' t r) (r' : String) :
    (s'.lane r').tickets = (s.lane r').tickets := by
  rw [h.lane r']
  split
  · next hr => rw [hr]; rfl
  · rfl

/-- Whoever waits in a lane after a move has waited there before or has just asked. -/
theorem waited_or_asked (h : t ∈ ((s.move m).lane r).tickets) :
    t ∈ (s.lane r).tickets ∨ ∃ registry, m = .ask t registry ∧ r = Registry.canonical registry := by
  cases move_spec s m with
  | asked u registry hm ha =>
    rw [ha.lane r] at h
    split at h
    · next hr =>
      rcases List.mem_cons.mp (Lane.tickets_ask.mem_iff.mp h) with rfl | h
      · exact .inr ⟨registry, hm, hr⟩
      · exact .inl (hr ▸ h)
    · exact .inl h
  | quiet hq => exact .inl (Lane.mem_tickets_of_laneMove (hq.lane r) h)
  | granted u r' waited hg =>
    by_cases hr : r = r'
    · subst hr
      exact .inl (hg.tickets.mem_iff.mpr (List.mem_cons_of_mem _ h))
    · rw [hg.lane r, if_neg hr] at h
      exact .inl h
  | returned u r' hr => exact .inl (hr.tickets r ▸ h)

theorem Idle.move (h : s.Idle t) (hm : m.asked? ≠ some t) : (s.move m).Idle t := by
  intro r ht
  rcases waited_or_asked ht with ht | ⟨registry, rfl, -⟩
  · exact h r ht
  · exact hm rfl

/-- Only a ticket that waits is granted. -/
theorem Idle.granted_move (h : s.Idle t) (m : Move) : t ∈ (s.move m).granted ↔ t ∈ s.granted := by
  rw [granted, granted]
  cases move_spec s m with
  | asked u registry hm ha => rw [ha.grants]
  | quiet hq => rw [hq.grants]
  | granted u r waited hg =>
    have hne : t ≠ u := fun he => h r (he ▸ hg.mem_tickets)
    rw [hg.grants, List.map_append, List.mem_append]
    exact or_iff_left fun hu => hne (List.mem_singleton.mp hu)
  | returned u r hr => rw [hr.grants]

/-- Only a ticket that waits gets hold of a permit. -/
theorem Idle.held_move (h : s.Idle t) (ht : (t, r) ∈ (s.move m).held) : (t, r) ∈ s.held := by
  cases move_spec s m with
  | asked u registry hm ha => exact ha.held ▸ ht
  | quiet hq => exact hq.held ▸ ht
  | granted u r' waited hg =>
    rw [hg.held, List.mem_append, List.mem_singleton] at ht
    rcases ht with ht | ht
    · exact ht
    · obtain ⟨rfl, rfl⟩ := Prod.mk.inj ht
      exact absurd hg.mem_tickets (h r)
  | returned u r' hr => exact List.mem_of_mem_eraseP (hr.held ▸ ht)

/-- A ticket that waits nowhere gets nothing in any run in which nobody asks with it. -/
theorem Idle.run {moves : List Move} (h : s.Idle t) (hm : t ∉ asked moves) :
    (s.run moves).Idle t ∧ (t ∈ (s.run moves).granted ↔ t ∈ s.granted) ∧
      ∀ r, (t, r) ∈ (s.run moves).held → (t, r) ∈ s.held := by
  induction moves generalizing s with
  | nil => exact ⟨h, Iff.rfl, fun _ => id⟩
  | cons m moves ih =>
    rw [asked_cons, List.mem_append, Option.mem_toList, not_or] at hm
    obtain ⟨hhead, htail⟩ := hm
    obtain ⟨hidle, hgranted, hheld⟩ := ih (h.move hhead) htail
    exact ⟨hidle, hgranted.trans (h.granted_move m), fun r ht => h.held_move (hheld r ht)⟩

theorem idle_fresh (rates : Rates) (globalConcurrency : Nat) (t : Ticket) :
    (fresh rates globalConcurrency).Idle t := by
  intro r
  exact List.not_mem_nil

/-! ## Orderly limiters -/

/-- Every ticket waits in one place of one lane at most, and only until it is granted; permits
are held by tickets that were granted, each by its own. -/
structure Orderly (s : Limiter) : Prop where
  keys : s.lanes.keys.Nodup
  once : ∀ r, (s.lane r).tickets.Nodup
  apart : ∀ {t r r'}, t ∈ (s.lane r).tickets → t ∈ (s.lane r').tickets → r = r'
  ungranted : ∀ {t r}, t ∈ (s.lane r).tickets → t ∉ s.granted
  grantedOnce : s.granted.Nodup
  heldOnce : (s.held.map Prod.fst).Nodup
  heldGranted : ∀ {t r}, (t, r) ∈ s.held → ∃ g ∈ s.grants, g.ticket = t ∧ g.registry = r

theorem nodup_keys_onLane (h : s.lanes.keys.Nodup) (r : String) (f : Lane → Lane) :
    (s.onLane r f).lanes.keys.Nodup :=
  Table.nodup_keys_set h r _

theorem nodup_keys_release (h : s.lanes.keys.Nodup) (t : Ticket) :
    (s.release t).lanes.keys.Nodup := by
  rw [release]
  split
  · exact Table.nodup_keys_set h _ _
  · exact h

theorem nodup_keys_move (h : s.lanes.keys.Nodup) (m : Move) : (s.move m).lanes.keys.Nodup := by
  cases m with
  | ask t registry => exact nodup_keys_onLane h _ _
  | seat t r => exact nodup_keys_onLane h r _
  | enter t r => exact nodup_keys_onLane h r _
  | wake t r => exact nodup_keys_onLane h r _
  | look t r =>
    rw [show s.move (.look t r) = s.look t r from rfl, look]
    split
    · dsimp only
      split <;> exact Table.nodup_keys_set h r _
    · exact h
  | grant t r =>
    rw [show s.move (.grant t r) = s.grant t r from rfl, grant]
    split
    · split
      · exact Table.nodup_keys_set h r _
      · exact h
    · exact h
  | release t => exact nodup_keys_release h t
  | abandon t =>
    rw [show s.move (.abandon t) = s.abandon t from rfl, abandon]
    split
    · exact Table.nodup_keys_set h _ _
    · exact nodup_keys_release h t
  | sleepUntil time => exact h
  | resetMetrics =>
    show ((s.lanes.entries.map _).map Prod.fst).Nodup
    rw [List.map_map]
    exact h
  | plan called alarms => exact h

theorem orderly_fresh (rates : Rates) (globalConcurrency : Nat) :
    (fresh rates globalConcurrency).Orderly where
  keys := List.nodup_nil
  once _ := List.nodup_nil
  apart h := absurd h List.not_mem_nil
  ungranted h := absurd h List.not_mem_nil
  grantedOnce := List.nodup_nil
  heldOnce := List.nodup_nil
  heldGranted h := absurd h List.not_mem_nil

/-- A ticket that can be asked with: nobody has used it. -/
def Unused (s : Limiter) (t : Ticket) : Prop := s.Idle t ∧ t ∉ s.granted

theorem Unused.move (h : s.Unused t) (hm : m.asked? ≠ some t) : (s.move m).Unused t :=
  ⟨h.1.move hm, mt (h.1.granted_move m).mp h.2⟩

/-- All acquisitions of a run come with tickets of their own, none of them used before. -/
structure Admissible (s : Limiter) (moves : List Move) : Prop where
  distinct : Distinct moves
  unused : ∀ t ∈ Limit.asked moves, s.Unused t

theorem Admissible.head {moves : List Move} (h : s.Admissible (m :: moves)) :
    ∀ t, m.asked? = some t → s.Unused t :=
  fun t ht => h.unused t (asked_cons m moves ▸ List.mem_append_left _ (Option.mem_toList.mpr ht))

theorem Admissible.tail {moves : List Move} (h : s.Admissible (m :: moves)) :
    (s.move m).Admissible moves := by
  obtain ⟨hd, hu⟩ := h
  rw [Distinct, asked_cons, List.nodup_append] at hd
  obtain ⟨-, htail, hdisj⟩ := hd
  refine ⟨htail, fun t ht => (hu t (asked_cons m moves ▸ List.mem_append_right _ ht)).move ?_⟩
  exact fun he => hdisj t (Option.mem_toList.mpr he) t ht rfl

theorem Orderly.not_held_of_mem_tickets (h : s.Orderly) (ht : t ∈ (s.lane r).tickets) :
    (t, r') ∉ s.held := by
  intro hheld
  obtain ⟨g, hg, rfl, -⟩ := h.heldGranted hheld
  exact h.ungranted ht (List.mem_map.mpr ⟨g, hg, rfl⟩)

theorem Orderly.asked (h : s.Orderly) (ha : Asked s s' t r) (ht : s.Unused t)
    (hk : s'.lanes.keys.Nodup) : s'.Orderly := by
  -- whoever waits now has waited before or is the ticket that asked
  have hmem {u : Ticket} {r' : String} (hu : u ∈ (s'.lane r').tickets) :
      u ∈ (s.lane r').tickets ∨ u = t ∧ r' = r := by
    rw [ha.lane r'] at hu
    split at hu
    · next hr =>
      rcases List.mem_cons.mp (Lane.tickets_ask.mem_iff.mp hu) with hu | hu
      · exact .inr ⟨hu, hr⟩
      · exact .inl (hr ▸ hu)
    · exact .inl hu
  refine ⟨hk, fun r' => ?_, fun {u r₁ r₂} h₁ h₂ => ?_, fun {u r'} hu => ?_, ?_,
    ha.held ▸ h.heldOnce,
    ?_⟩
  · rw [ha.lane r']
    split
    · rw [Lane.tickets_ask.nodup_iff, List.nodup_cons]
      exact ⟨ht.1 r, h.once r⟩
    · exact h.once r'
  · rcases hmem h₁ with h₁ | ⟨rfl, rfl⟩
    · rcases hmem h₂ with h₂ | ⟨rfl, rfl⟩
      · exact h.apart h₁ h₂
      · exact absurd h₁ (ht.1 r₁)
    · rcases hmem h₂ with h₂ | ⟨-, rfl⟩
      · exact absurd h₂ (ht.1 r₂)
      · rfl
  · rw [granted, ha.grants]
    rcases hmem hu with hu | ⟨rfl, -⟩
    · exact h.ungranted hu
    · exact ht.2
  · rw [granted, ha.grants]
    exact h.grantedOnce
  · rw [ha.held, ha.grants]
    exact h.heldGranted

theorem Orderly.quiet (h : s.Orderly) (hq : Quiet s s') (hk : s'.lanes.keys.Nodup) :
    s'.Orderly := by
  have hmem {u : Ticket} {r : String} (hu : u ∈ (s'.lane r).tickets) : u ∈ (s.lane r).tickets :=
    Lane.mem_tickets_of_laneMove (hq.lane r) hu
  refine ⟨hk, fun r => ?_, fun h₁ h₂ => h.apart (hmem h₁) (hmem h₂), fun hu => ?_, ?_,
    hq.held ▸ h.heldOnce, ?_⟩
  · rw [List.nodup_iff_count]
    exact fun u => Nat.le_trans (Lane.count_tickets_le (hq.lane r) u)
      (List.nodup_iff_count.mp (h.once r) u)
  · rw [granted, hq.grants]
    exact h.ungranted (hmem hu)
  · rw [granted, hq.grants]
    exact h.grantedOnce
  · rw [hq.held, hq.grants]
    exact h.heldGranted

theorem Orderly.grant {waited : Nat} (h : s.Orderly) (hg : Granted s s' t r waited)
    (hk : s'.lanes.keys.Nodup) : s'.Orderly := by
  have hmem {u : Ticket} {r' : String} (hu : u ∈ (s'.lane r').tickets) :
      u ∈ (s.lane r').tickets := by
    by_cases hr : r' = r
    · subst hr
      exact hg.tickets.mem_iff.mpr (List.mem_cons_of_mem _ hu)
    · rwa [hg.lane r', if_neg hr] at hu
  have hgranted : s'.granted = s.granted ++ [t] := by
    rw [granted, hg.grants, List.map_append]
    rfl
  have hleft : (t :: (s'.lane r).tickets).Nodup := hg.tickets.nodup (h.once r)
  have hnew : t ∉ s.granted := h.ungranted hg.mem_tickets
  have hnotHeld (r' : String) : (t, r') ∉ s.held := h.not_held_of_mem_tickets hg.mem_tickets
  refine ⟨hk, fun r' => ?_, fun h₁ h₂ => h.apart (hmem h₁) (hmem h₂), fun {u r'} hu => ?_, ?_, ?_,
    fun {u r'} hu => ?_⟩
  · by_cases hr : r' = r
    · rw [hr]
      exact (List.nodup_cons.mp hleft).2
    · rw [hg.lane r', if_neg hr]
      exact h.once r'
  · rw [hgranted, List.mem_append, List.mem_singleton]
    rintro (hu' | rfl)
    · exact h.ungranted (hmem hu) hu'
    · obtain rfl : r' = r := h.apart (hmem hu) hg.mem_tickets
      exact (List.nodup_cons.mp hleft).1 hu
  · rw [hgranted, List.nodup_append]
    refine ⟨h.grantedOnce, List.pairwise_singleton _ t, fun a ha b hb hab => ?_⟩
    exact hnew (List.mem_singleton.mp hb ▸ hab ▸ ha)
  · rw [hg.held, List.map_append, List.nodup_append]
    refine ⟨h.heldOnce, List.pairwise_singleton _ t, fun a ha b hb hab => ?_⟩
    obtain ⟨⟨a, r'⟩, hmem, rfl⟩ := List.mem_map.mp ha
    obtain rfl : b = t := List.mem_singleton.mp hb
    exact hnotHeld r' (hab ▸ hmem)
  · rw [hg.held, List.mem_append, List.mem_singleton] at hu
    rw [hg.grants]
    rcases hu with hu | hu
    · obtain ⟨g, hgm, hgt⟩ := h.heldGranted hu
      exact ⟨g, List.mem_append_left _ hgm, hgt⟩
    · obtain ⟨rfl, rfl⟩ := Prod.mk.inj hu
      exact ⟨_, List.mem_append_right _ (List.mem_singleton_self _), rfl, rfl⟩

theorem Orderly.returned (h : s.Orderly) (hr : Returned s s' t r) (hk : s'.lanes.keys.Nodup) :
    s'.Orderly := by
  refine ⟨hk, fun r' => hr.tickets r' ▸ h.once r', fun {u r₁ r₂} h₁ h₂ => ?_, fun {u r'} hu => ?_,
    ?_, ?_, fun {u r'} hu => ?_⟩
  · rw [hr.tickets] at h₁ h₂
    exact h.apart h₁ h₂
  · rw [hr.tickets] at hu
    rw [granted, hr.grants]
    exact h.ungranted hu
  · rw [granted, hr.grants]
    exact h.grantedOnce
  · rw [hr.held]
    exact h.heldOnce.sublist ((List.eraseP_sublist).map _)
  · rw [hr.held] at hu
    rw [hr.grants]
    exact h.heldGranted (List.mem_of_mem_eraseP hu)

theorem Orderly.move (h : s.Orderly) (hm : ∀ t, m.asked? = some t → s.Unused t) :
    (s.move m).Orderly := by
  have hk := nodup_keys_move h.keys m
  cases move_spec s m with
  | asked t registry hm' ha => exact h.asked ha (hm t (hm' ▸ rfl)) hk
  | quiet hq => exact h.quiet hq hk
  | granted t r waited hg => exact h.grant hg hk
  | returned t r hr => exact h.returned hr hk

/-- **Runs are orderly.** A run whose acquisitions come with tickets of their own, none of them
used before, keeps a limiter orderly. -/
theorem Orderly.run {moves : List Move} (h : s.Orderly) (hd : Distinct moves)
    (hu : ∀ t ∈ Limit.asked moves, s.Unused t) : (s.run moves).Orderly := by
  induction moves generalizing s with
  | nil => exact h
  | cons m moves ih =>
    have hrun : s.Admissible (m :: moves) := ⟨hd, hu⟩
    exact ih (h.move hrun.head) hrun.tail.distinct hrun.tail.unused

/-- **Runs are orderly.** -/
theorem orderly_run (rates : Rates) (globalConcurrency : Nat) {moves : List Move}
    (hd : Distinct moves) : ((fresh rates globalConcurrency).run moves).Orderly :=
  (orderly_fresh rates globalConcurrency).run hd
    fun t _ => ⟨idle_fresh rates globalConcurrency t, List.not_mem_nil⟩

/-! ## Finding the lane of a ticket -/

/-- In an orderly limiter a ticket is found where it waits. -/
theorem Orderly.registryOf?_eq_some_iff (h : s.Orderly) :
    s.registryOf? t = some r ↔ t ∈ (s.lane r).tickets := by
  -- the lane of an entry is the one that is read under its name
  have hlane {e : String × Lane} (he : e ∈ s.lanes.entries) : s.lane e.1 = e.2 := by
    rw [lane, Table.getD, (Table.mem_entries_iff h.keys).mp he]
    rfl
  rw [registryOf?, Option.map_eq_some_iff]
  constructor
  · rintro ⟨e, hfind, rfl⟩
    rw [hlane (List.mem_of_find?_eq_some hfind)]
    have he := List.find?_some hfind
    exact Lane.holds_iff.mp he
  · intro ht
    have hmem : (r, s.lane r) ∈ s.lanes.entries := by
      cases hget : s.lanes.get? r with
      | none =>
        -- nobody waits in a lane that nobody has asked for
        rw [lane, Table.getD, hget] at ht
        exact absurd ht List.not_mem_nil
      | some l =>
        rw [Table.mem_entries_iff h.keys, hget, lane, Table.getD, hget]
        rfl
    cases hfind : s.lanes.entries.find? fun e => e.2.holds t with
    | none => exact absurd (Lane.holds_iff.mpr ht) (List.find?_eq_none.mp hfind _ hmem)
    | some e =>
      have he := List.find?_some hfind
      rw [Lane.holds_iff, ← hlane (List.mem_of_find?_eq_some hfind)] at he
      exact ⟨e, rfl, h.apart he ht⟩

theorem Orderly.registryOf?_eq_none_iff (h : s.Orderly) : s.registryOf? t = none ↔ s.Idle t := by
  rw [Option.eq_none_iff_forall_ne_some]
  exact forall_congr' fun r => not_congr h.registryOf?_eq_some_iff

end Limiter

end TagWatch.Limit
