import TagWatch.Proofs.Limit.Window

/-!
# Who can go on

A ticket can go on when one of its own moves would change the limiter (`Limiter.CanGo`).

**Theorem (`Limiter.blocked_reason`).** When nobody can go on and yet a ticket waits in a lane, all
slots of that lane are held, or the ticket at its window lock sleeps, or all global slots are held.
So nothing that is free is withheld from those who wait for it.

The line for the global slots needs an invariant of its own. It holds the tickets that stand at a
window lock and have room, and nobody else (`Limiter.Lined`).
-/

namespace TagWatch.Limit

namespace Lane

variable {l : Lane} {t u : Ticket} {now waited : Nat} {pool : Gate}

/-- A ticket can go on in a lane, given the time and the global gate. -/
inductive CanGo (l : Lane) (now : Nat) (pool : Gate) (t : Ticket) : Prop where
  | seat (h : l.slots.admits t = true) : CanGo l now pool t
  | enter (rest : List Ticket) (h : l.admitting = none) (hs : l.seated = t :: rest) :
    CanGo l now pool t
  | look (waited : Nat) (h : l.admitting = some ⟨t, .looking, waited⟩) : CanGo l now pool t
  | wake (wakeAt waited : Nat) (h : l.admitting = some ⟨t, .asleep wakeAt, waited⟩)
    (hle : wakeAt ≤ now) : CanGo l now pool t
  | grant (waited : Nat) (h : l.admitting = some ⟨t, .pooled, waited⟩)
    (hp : pool.admits t = true) : CanGo l now pool t

theorem mem_tickets_of_admitting {stage : Stage} (h : l.admitting = some ⟨t, stage, waited⟩) :
    t ∈ l.tickets := by
  rw [tickets, inside, admitted_of_admitting h]
  exact List.mem_append_right _ (List.mem_append_right _ (List.mem_singleton_self _))

theorem CanGo.mem_tickets (h : l.CanGo now pool t) : t ∈ l.tickets := by
  cases h with
  | seat h => exact List.mem_append_left _ (Gate.mem_line_of_admits h)
  | enter rest h hs =>
    refine List.mem_append_right _ (List.mem_append_left _ ?_)
    rw [hs]
    exact List.mem_cons_self
  | look waited h => exact mem_tickets_of_admitting h
  | wake wakeAt waited h hle => exact mem_tickets_of_admitting h
  | grant waited h hp => exact mem_tickets_of_admitting h

/-- With another global gate a ticket can go on if it can pass that gate. -/
theorem CanGo.of_pool {pool' : Gate} {p : Prop} (h : l.CanGo now pool t)
    (hp : pool.admits t = true → pool'.admits t = true ∨ p) : l.CanGo now pool' t ∨ p := by
  cases h with
  | seat h => exact .inl (.seat h)
  | enter rest h hs => exact .inl (.enter rest h hs)
  | look waited h => exact .inl (.look waited h)
  | wake wakeAt waited h hle => exact .inl (.wake wakeAt waited h hle)
  | grant waited h hpool => exact (hp hpool).imp_left fun hpool => .grant waited h hpool

/-- When a slot is given back, the next ticket in line can go on as well. -/
theorem CanGo.of_returnSlot (h : l.returnSlot.CanGo now pool t) :
    l.CanGo now pool t ∨ l.slots.next? = some t := by
  cases h with
  | seat h => exact (Gate.admits_restore_iff.mp h).imp_left .seat
  | enter rest h hs => exact .inl (.enter rest h hs)
  | look waited h => exact .inl (.look waited h)
  | wake wakeAt waited h hle => exact .inl (.wake wakeAt waited h hle)
  | grant waited h hpool => exact .inl (.grant waited h hpool)

theorem admitting_seat : (l.seat t).admitting = l.admitting := by
  unfold seat
  split <;> rfl

theorem admitting_enter {stage : Stage} (hs : stage ≠ .looking) :
    (l.enter t).admitting = some ⟨u, stage, waited⟩ ↔ l.admitting = some ⟨u, stage, waited⟩ := by
  rcases enter_cases l t with h | ⟨rest, hadm, -, h⟩
  · rw [h]
  · rw [h, hadm]
    refine iff_of_false (fun he => ?_) (fun he => by cases he)
    injection he with he
    injection he with _ he _
    exact hs he.symm

theorem admitting_of_wake {stage : Stage} (hs : stage ≠ .looking)
    (h : (l.wake now t).admitting = some ⟨u, stage, waited⟩) :
    l.admitting = some ⟨u, stage, waited⟩ := by
  rcases wake_cases l now t with he | ⟨wakeAt, w, -, -, he⟩
  · rwa [he] at h
  · rw [he] at h
    injection h with h
    injection h with _ h _
    exact absurd h.symm hs

theorem pooled_wake :
    (l.wake now t).admitting = some ⟨u, .pooled, waited⟩ ↔
      l.admitting = some ⟨u, .pooled, waited⟩ := by
  refine ⟨admitting_of_wake Stage.noConfusion, fun h => ?_⟩
  rcases wake_cases l now t with he | ⟨wakeAt, w, hadm, -, -⟩
  · rwa [he]
  · rw [hadm] at h
    cases h

/-- The ticket at the window lock after a ticket gave up. -/
theorem admitting_cancel {a : Admission} (hn : l.tickets.Nodup) :
    (l.cancel t).admitting = some a ↔ a.ticket ≠ t ∧ l.admitting = some a := by
  rw [tickets, inside, ← List.append_assoc, List.nodup_append] at hn
  obtain ⟨-, -, hdisj⟩ := hn
  -- whoever stands in the line or on a seat is not at the lock
  have hne (hmem : t ∈ l.slots.line ++ l.seated) :
      l.admitting = some a ↔ a.ticket ≠ t ∧ l.admitting = some a := by
    refine ⟨fun ha => ⟨fun he => ?_, ha⟩, And.right⟩
    exact hdisj t hmem a.ticket (mem_admitted_iff.mpr ⟨a, ha, rfl⟩) he.symm
  unfold cancel
  simp only [List.contains_iff_mem]
  split
  · next h => exact hne (List.mem_append_left _ h)
  · split
    · next h => exact hne (List.mem_append_right _ h)
    · split
      · next h =>
        obtain ⟨b, hb, hbt⟩ := mem_admitted_iff.mp (isAdmitting_iff.mp h)
        refine iff_of_false (fun h => by cases h) ?_
        rintro ⟨hat, ha⟩
        rw [hb] at ha
        cases ha
        exact hat hbt
      · next h =>
        refine ⟨fun ha => ⟨fun he => ?_, ha⟩, And.right⟩
        exact h (isAdmitting_iff.mpr (mem_admitted_iff.mpr ⟨a, ha, he⟩))

end Lane

namespace Limiter

variable {s s' : Limiter} {m : Move} {t u : Ticket} {r : String}

/-! ## The line for the global slots -/

/-- The line for the global slots holds the tickets that have room in their windows. -/
structure Lined (s : Limiter) : Prop where
  nodup : s.pool.line.Nodup
  mem_iff : ∀ t, t ∈ s.pool.line ↔
    ∃ r waited, (s.lane r).admitting = some ⟨t, .pooled, waited⟩

theorem lined_fresh (rates : Rates) (globalConcurrency : Nat) :
    (fresh rates globalConcurrency).Lined where
  nodup := List.nodup_nil
  mem_iff t := by
    refine iff_of_false List.not_mem_nil ?_
    rintro ⟨r, waited, h⟩
    cases h

/-- The line stays right when neither it nor the tickets that have room change. -/
theorem Lined.congr (h : s.Lined) (hp : s'.pool.line = s.pool.line)
    (ha : ∀ r t waited, (s'.lane r).admitting = some ⟨t, .pooled, waited⟩ ↔
      (s.lane r).admitting = some ⟨t, .pooled, waited⟩) : s'.Lined := by
  refine ⟨hp ▸ h.nodup, fun t => ?_⟩
  rw [hp, h.mem_iff]
  exact exists_congr fun r => exists_congr fun waited => (ha r t waited).symm

theorem Lined.onLane (h : s.Lined) (r : String) (f : Lane → Lane)
    (ha : ∀ t waited, (f (s.lane r)).admitting = some ⟨t, .pooled, waited⟩ ↔
      (s.lane r).admitting = some ⟨t, .pooled, waited⟩) : (s.onLane r f).Lined := by
  refine h.congr rfl fun r' t waited => ?_
  rw [lane_onLane]
  split
  · next hr => rw [hr]; exact ha t waited
  · rfl

/-- A ticket that stands at the lock of its lane and does not wait for a global slot is not in the
line for them. -/
theorem Lined.not_mem_line {stage : Stage} {waited : Nat} (h : s.Lined) (ho : s.Orderly)
    (ha : (s.lane r).admitting = some ⟨t, stage, waited⟩) (hstage : stage ≠ .pooled) :
    t ∉ s.pool.line := by
  intro hmem
  obtain ⟨r', waited', ha'⟩ := (h.mem_iff _).mp hmem
  obtain rfl : r = r' := ho.apart (Lane.mem_tickets_of_admitting ha)
    (Lane.mem_tickets_of_admitting ha')
  rw [ha] at ha'
  injection ha' with ha'
  injection ha' with _ hpooled _
  exact hstage hpooled

/-- What a look at the window does: nothing, unless the ticket stands at it; and then it goes on to
the global slots or falls asleep. -/
theorem look_cases (s : Limiter) (t : Ticket) (r : String) :
    (s.look t r = s ∧ ∀ waited, (s.lane r).admitting ≠ some ⟨t, .looking, waited⟩) ∨
      ∃ waited, (s.lane r).admitting = some ⟨t, .looking, waited⟩ ∧
      ((((s.lane r).look s.now).admitting = some ⟨t, .pooled, waited⟩ ∧
          s.look t r = { s.onLane r (·.look s.now) with pool := s.pool.join t }) ∨
        ∃ wakeAt waited', ((s.lane r).look s.now).admitting = some ⟨t, .asleep wakeAt, waited'⟩ ∧
          ¬ (Lane.prune s.now (s.lane r).recent).length < Lane.room (s.lane r).rate ∧
          s.now < wakeAt ∧ s.look t r = (s.onLane r (·.look s.now)).callAt wakeAt t) := by
  by_cases hat : (s.lane r).isAt t .looking = true
  · obtain ⟨waited, hadm⟩ := Lane.isAt_iff.mp hat
    refine .inr ⟨waited, hadm, ?_⟩
    rw [Limiter.look, if_pos hat]
    rcases Lane.look_cases (s.lane r) s.now with he | ⟨u, w, hadm', -, he⟩ |
      ⟨u, w, oldest, rest, hadm', hfull, hcons, he⟩
    · -- a ticket that looks does not stay where it is
      exfalso
      have hlook := congrArg Lane.admitting he
      rw [Lane.look, hadm] at hlook
      dsimp only at hlook
      split at hlook
      · simp at hlook
      · split at hlook <;> simp at hlook
    · rw [hadm] at hadm'
      cases hadm'
      refine .inl ⟨by rw [he], ?_⟩
      rw [he]
      dsimp only
      rw [← he]
      rfl
    · rw [hadm] at hadm'
      cases hadm'
      refine .inr ⟨oldest + window, _, by rw [he], hfull, Lane.lt_of_prune_eq_cons hcons, ?_⟩
      rw [he]
      dsimp only
      rw [← he]
      rfl
  · refine .inl ⟨?_, fun waited hadm => hat (Lane.isAt_iff.mpr ⟨waited, hadm⟩)⟩
    rw [Limiter.look, if_neg hat]

theorem Lined.look (h : s.Lined) (ho : s.Orderly) (t : Ticket) (r : String) :
    (s.look t r).Lined := by
  rcases look_cases s t r with ⟨he, -⟩ |
    ⟨waited, hadm, ⟨hpooled, he⟩ | ⟨wakeAt, w, hasleep, -, -, he⟩⟩
  · rwa [he]
  · have hnot : t ∉ s.pool.line := h.not_mem_line ho hadm Stage.noConfusion
    have hlane (r' : String) : (s.look t r).lane r' =
        if r' = r then (s.lane r).look s.now else s.lane r' := by
      rw [he]
      exact lane_onLane s r r' (·.look s.now)
    have hline : (s.look t r).pool.line = s.pool.line ++ [t] := by rw [he]; rfl
    refine ⟨?_, fun u => ?_⟩
    · rw [hline, List.nodup_append]
      refine ⟨h.nodup, List.pairwise_singleton _ t, fun a ha b hb hab => ?_⟩
      exact hnot (List.mem_singleton.mp hb ▸ hab ▸ ha)
    · rw [hline, List.mem_append, List.mem_singleton, h.mem_iff]
      constructor
      · rintro (⟨r', w, hr'⟩ | rfl)
        · refine ⟨r', w, ?_⟩
          rw [hlane, if_neg]
          · exact hr'
          · rintro rfl
            rw [hadm] at hr'
            cases hr'
        · exact ⟨r, waited, by rw [hlane, if_pos rfl]; exact hpooled⟩
      · rintro ⟨r', w, hr'⟩
        rw [hlane] at hr'
        split at hr'
        · rw [hpooled] at hr'
          cases hr'
          exact .inr rfl
        · exact .inl ⟨r', w, hr'⟩
  · rw [he]
    refine (h.onLane r (·.look s.now) fun u w' => ?_).congr rfl fun _ _ _ => Iff.rfl
    rw [hasleep, hadm]
    simp

theorem Lined.grant {waited : Nat} (h : s.Lined) (ho : s.Orderly) (hg : Granted s s' t r waited) :
    s'.Lined := by
  have hline : s'.pool.line = s.pool.line.erase t := by rw [hg.pool, Gate.pass_of_admits hg.admits]
  refine ⟨hline ▸ h.nodup.erase t, fun u => ?_⟩
  rw [hline, h.nodup.mem_erase_iff, h.mem_iff]
  constructor
  · rintro ⟨hne, r', w, hr'⟩
    refine ⟨r', w, ?_⟩
    rw [hg.lane r', if_neg]
    · exact hr'
    · rintro rfl
      rw [hg.pooled] at hr'
      cases hr'
      exact hne rfl
  · rintro ⟨r', w, hr'⟩
    rw [hg.lane r'] at hr'
    split at hr'
    · cases hr'
    · next hne =>
      refine ⟨?_, r', w, hr'⟩
      rintro rfl
      exact hne (ho.apart (Lane.mem_tickets_of_admitting hr')
        (Lane.mem_tickets_of_admitting hg.pooled))

theorem Lined.release (h : s.Lined) (t : Ticket) : (s.release t).Lined := by
  rw [Limiter.release]
  split
  · next u r _ =>
    exact (h.onLane r (·.returnSlot) fun _ _ => Iff.rfl).congr rfl fun _ _ _ => Iff.rfl
  · exact h

theorem Lined.withdraw (h : s.Lined) (ho : s.Orderly) (ht : t ∈ (s.lane r).tickets) :
    (s.withdraw t r).Lined := by
  have hlane (r' : String) : (s.withdraw t r).lane r' =
      if r' = r then (s.lane r).cancel t else s.lane r' := lane_onLane s r r' (·.cancel t)
  have hline : (s.withdraw t r).pool.line = s.pool.line.erase t := rfl
  refine ⟨hline ▸ h.nodup.erase t, fun u => ?_⟩
  rw [hline, h.nodup.mem_erase_iff, h.mem_iff]
  constructor
  · rintro ⟨hne, r', w, hr'⟩
    refine ⟨r', w, ?_⟩
    rw [hlane]
    split
    · next hr => exact (Lane.admitting_cancel (ho.once r)).mpr ⟨hne, hr ▸ hr'⟩
    · exact hr'
  · rintro ⟨r', w, hr'⟩
    rw [hlane] at hr'
    split at hr'
    · obtain ⟨hne, hr'⟩ := (Lane.admitting_cancel (ho.once r)).mp hr'
      exact ⟨hne, r, w, hr'⟩
    · next hne =>
      refine ⟨?_, r', w, hr'⟩
      rintro rfl
      exact hne (ho.apart (Lane.mem_tickets_of_admitting hr') ht)

theorem Lined.move (h : s.Lined) (ho : s.Orderly) (m : Move) : (s.move m).Lined := by
  cases m with
  | ask t registry => exact h.onLane _ (·.ask t) fun _ _ => Iff.rfl
  | seat t r => exact h.onLane r (·.seat t) fun _ _ => by rw [Lane.admitting_seat]
  | enter t r => exact h.onLane r (·.enter t) fun _ _ => Lane.admitting_enter Stage.noConfusion
  | wake t r => exact h.onLane r (·.wake s.now t) fun _ _ => Lane.pooled_wake
  | look t r => exact h.look ho t r
  | grant t r =>
    rcases grant_spec s t r with ⟨he, -⟩ | ⟨waited, hg⟩
    · exact (show s.move (.grant t r) = s from he).symm ▸ h
    · exact h.grant ho hg
  | release t => exact h.release t
  | abandon t =>
    show (s.abandon t).Lined
    rw [abandon]
    split
    · next r hr => exact h.withdraw ho (ho.registryOf?_eq_some_iff.mp hr)
    · exact (h.release t).congr rfl fun _ _ _ => Iff.rfl
  | sleepUntil time => exact h.congr rfl fun _ _ _ => Iff.rfl
  | resetMetrics =>
    refine h.congr rfl fun r _ _ => ?_
    rw [show s.move .resetMetrics = s.resetMetrics from rfl, lane_resetMetrics]
    rfl
  | plan called alarms => exact h.congr rfl fun _ _ _ => Iff.rfl

/-! ## Why nobody can go on -/

/-- A ticket of a lane can go on. -/
def CanGo (s : Limiter) (r : String) (t : Ticket) : Prop := (s.lane r).CanGo s.now s.pool t

/-- A free slot of a lane lets somebody in its line go on. -/
theorem exists_canGo_of_line (hfree : 0 < (s.lane r).slots.free)
    (ht : t ∈ (s.lane r).slots.line) : ∃ u, s.CanGo r u := by
  cases hline : (s.lane r).slots.line with
  | nil => exact absurd (hline ▸ ht) List.not_mem_nil
  | cons u rest => exact ⟨u, .seat (Gate.admits_head (by rw [hline]; rfl) hfree)⟩

/-- A free global slot lets somebody in the line for it go on. -/
theorem Lined.exists_canGo_of_pooled {waited : Nat} (h : s.Lined) (hfree : 0 < s.pool.free)
    (ha : (s.lane r).admitting = some ⟨t, .pooled, waited⟩) : ∃ r' u, s.CanGo r' u := by
  have ht : t ∈ s.pool.line := (h.mem_iff t).mpr ⟨r, waited, ha⟩
  cases hline : s.pool.line with
  | nil => exact absurd (hline ▸ ht) List.not_mem_nil
  | cons u rest =>
    obtain ⟨r', w, hu⟩ := (h.mem_iff u).mp (hline ▸ List.mem_cons_self)
    exact ⟨r', u, .grant w hu (Gate.admits_head (by rw [hline]; rfl) hfree)⟩

/-- **Nothing free is withheld.** When nobody can go on and yet a ticket waits in a lane, all slots
of the lane are held, or the ticket at its window lock sleeps, or all global slots are held. -/
theorem blocked_reason {rates : Rates} {globalConcurrency : Nat}
    (hb : s.Balanced rates globalConcurrency) (hl : s.Lined) (hn : ∀ r u, ¬ s.CanGo r u)
    (ht : t ∈ (s.lane r).tickets) :
    s.heldIn r = Lane.capacity (rates.lookup r) ∨
      (∃ u wakeAt waited, (s.lane r).admitting = some ⟨u, .asleep wakeAt, waited⟩ ∧
        s.now < wakeAt) ∨
      s.held.length = globalSlots globalConcurrency := by
  cases hadm : (s.lane r).admitting with
  | none =>
    have hseated : (s.lane r).seated = [] := by
      cases hseat : (s.lane r).seated with
      | nil => rfl
      | cons u rest => exact absurd (.enter rest hadm hseat) (hn r u)
    have hinside : (s.lane r).inside = [] := by
      rw [Lane.inside, hseated, Lane.admitted, hadm]
      rfl
    rw [Lane.tickets, hinside, List.append_nil] at ht
    have hfree : (s.lane r).slots.free = 0 := by
      refine Nat.eq_zero_of_not_pos fun hpos => ?_
      obtain ⟨u, hu⟩ := exists_canGo_of_line hpos ht
      exact hn r u hu
    have hlane := hb.lane r
    rw [hinside, hfree] at hlane
    exact .inl hlane
  | some a =>
    obtain ⟨u, stage, waited⟩ := a
    cases stage with
    | looking => exact absurd (.look waited hadm) (hn r u)
    | asleep wakeAt =>
      refine .inr (.inl ⟨u, wakeAt, waited, rfl, Nat.lt_of_not_le fun hle => ?_⟩)
      exact hn r u (.wake wakeAt waited hadm hle)
    | pooled =>
      have hfree : s.pool.free = 0 := by
        refine Nat.eq_zero_of_not_pos fun hpos => ?_
        obtain ⟨r', v, hv⟩ := hl.exists_canGo_of_pooled hpos hadm
        exact hn r' v hv
      have hpool := hb.pool
      rw [hfree] at hpool
      exact .inr (.inr hpool)

end Limiter

end TagWatch.Limit
