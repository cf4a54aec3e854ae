import TagWatch.Proofs.Limit.Agenda
import TagWatch.Proofs.Limit.Progress

/-!
# Moves concern one ticket

Every move of a ticket and the end of its permit leave all other tickets where they are, and
whoever else can go on because of it is called (`Limiter.Concerns`). So nobody who can go on has to
be looked for: a call is never missed.

**The fee.** A waiting ticket adds to the load of the agenda at most once by an alarm, for its
sleep, and once by a call, for the next one at the window lock. `Lane.fee` is what it may still
add; it tells at the same time whether the ticket waits in a lane (`Lane.fee_pos_iff`).
-/

namespace TagWatch.Limit

/-! ## The fee of a ticket -/

namespace Lane

variable {l : Lane} {t u : Ticket} {now : Nat}

/-- What a waiting ticket may still add to the load of the agenda. -/
def fee (l : Lane) (t : Ticket) : Nat :=
  if t ∈ l.slots.line ∨ t ∈ l.seated then 3
  else match l.admitting with
    | some a => if a.ticket = t then if a.stage = .looking ∧ a.waited = 0 then 3 else 1 else 0
    | none => 0

theorem fee_le (l : Lane) (t : Ticket) : l.fee t ≤ 3 := by
  unfold fee
  repeat' split
  all_goals omega

theorem fee_pos_iff : 0 < l.fee t ↔ t ∈ l.tickets := by
  rw [fee, tickets, inside, ← List.append_assoc, List.mem_append, List.mem_append, mem_admitted_iff]
  split
  · next h => exact iff_of_true (by omega) (.inl h)
  · next h =>
    rw [or_iff_right h]
    cases l.admitting with
    | none =>
      refine iff_of_false (Nat.lt_irrefl 0) ?_
      rintro ⟨b, hb, -⟩
      cases hb
    | some a =>
      by_cases ha : a.ticket = t
      · refine iff_of_true ?_ ⟨a, rfl, ha⟩
        dsimp only
        rw [if_pos ha]
        split <;> omega
      · refine iff_of_false ?_ ?_
        · dsimp only
          rw [if_neg ha]
          exact Nat.lt_irrefl 0
        · rintro ⟨b, hb, hbt⟩
          cases hb
          exact ha hbt

/-- The fee depends on where the ticket is. -/
theorem fee_congr {l' : Lane}
    (h : t ∈ l'.slots.line ∨ t ∈ l'.seated ↔ t ∈ l.slots.line ∨ t ∈ l.seated)
    (ha : l'.admitting = l.admitting) : l'.fee t = l.fee t := by
  rw [fee, fee, ha]
  simp only [h]

theorem fee_ask (h : u ≠ t) : (l.ask t).fee u = l.fee u := by
  refine fee_congr (or_congr_left ?_) rfl
  show u ∈ l.slots.line ++ [t] ↔ _
  rw [List.mem_append, List.mem_singleton, or_iff_left h]

theorem fee_seat : (l.seat t).fee u = l.fee u := by
  by_cases h : l.slots.admits t = true
  · rw [seat_of_admits h]
    refine fee_congr ?_ rfl
    show u ∈ l.slots.line.erase t ∨ u ∈ l.seated ++ [t] ↔ _
    rw [List.mem_append, List.mem_singleton]
    by_cases hu : u = t
    · subst hu
      exact iff_of_true (.inr (.inr rfl)) (.inl (Gate.mem_line_of_admits h))
    · rw [List.mem_erase_of_ne hu, or_iff_left hu]
  · rw [seat, if_neg h]

theorem fee_enter : (l.enter t).fee u = l.fee u := by
  rcases enter_cases l t with h | ⟨rest, hadm, hseat, h⟩
  · rw [h]
  · rw [h, fee, fee, hadm, hseat]
    dsimp only
    by_cases hu : u = t
    · simp [hu]
    · simp only [List.mem_cons, hu, false_or, if_neg (Ne.symm hu)]

theorem fee_wake {times : List Nat} (h : Timely now times l) : (l.wake now t).fee u = l.fee u := by
  rcases wake_cases l now t with he | ⟨wakeAt, waited, hadm, -, he⟩
  · rw [he]
  · -- whoever sleeps has waited
    obtain ⟨hpos, -⟩ := h.fits _ hadm
    have hwaited : ¬ waited = 0 := Nat.ne_of_gt hpos
    rw [he, fee, fee, hadm]
    simp only [hwaited, and_false, if_false, reduceCtorEq]

theorem fee_returnSlot : l.returnSlot.fee u = l.fee u := rfl

theorem fee_of_admitting {stage : Stage} {waited : Nat} (hn : l.tickets.Nodup)
    (h : l.admitting = some ⟨t, stage, waited⟩) :
    l.fee t = if stage = .looking ∧ waited = 0 then 3 else 1 := by
  rw [tickets, inside, ← List.append_assoc, List.nodup_append] at hn
  have hnot : ¬ (t ∈ l.slots.line ∨ t ∈ l.seated) := fun hmem =>
    hn.2.2 t (List.mem_append.mpr hmem) t (mem_admitted_iff.mpr ⟨_, h, rfl⟩) rfl
  rw [fee, if_neg hnot, h]
  exact if_pos rfl

theorem fee_look (h : ∀ a, l.admitting = some a → a.ticket ≠ u) : (l.look now).fee u = l.fee u := by
  have hslots := @slots_look l now
  have hseat : (l.look now).seated = l.seated := by
    rcases look_cases l now with he | ⟨_, _, _, _, he⟩ | ⟨_, _, _, _, _, _, _, he⟩ <;> rw [he]
  have hne (l : Lane) (h : ∀ a, l.admitting = some a → a.ticket ≠ u) :
      l.fee u = if u ∈ l.slots.line ∨ u ∈ l.seated then 3 else 0 := by
    rw [fee]
    cases hadm : l.admitting with
    | none => rfl
    | some a =>
      dsimp only
      rw [if_neg (h a hadm)]
  rw [hne l h, hne (l.look now), hslots, hseat]
  intro a ha hau
  have hmem : u ∈ (l.look now).admitted := mem_admitted_iff.mpr ⟨a, ha, hau⟩
  rw [admitted_look] at hmem
  obtain ⟨b, hb, hbu⟩ := mem_admitted_iff.mp hmem
  exact h b hb hbu

theorem fee_grantAt {a : Admission} (ha : l.admitting = some a) (h : u ≠ a.ticket) :
    (l.grantAt now).fee u = l.fee u := by
  rw [fee, fee, ha]
  dsimp only
  rw [if_neg (Ne.symm h)]
  rfl

end Lane

/-! ## Changes that concern one ticket -/

namespace Limiter

variable {s s' s'' : Limiter} {t u : Ticket} {r r' : String}

/-- A change of a limiter in which one ticket moves: the other ones stay where they are, and those
of them that can go on because of it are called. -/
structure Concerns (s s' : Limiter) (t : Ticket) : Prop where
  now : s'.now = s.now
  fee : ∀ u ≠ t, ∀ r, (s'.lane r).fee u = (s.lane r).fee u
  held : ∀ u ≠ t, ∀ r, (u, r) ∈ s'.held ↔ (u, r) ∈ s.held
  granted : ∀ u ≠ t, u ∈ s'.granted ↔ u ∈ s.granted
  alarms : ∀ e ∈ s.agenda.alarms, e ∈ s'.agenda.alarms
  called : ∀ u ≠ t, u ∈ s.agenda.called → u ∈ s'.agenda.called
  canGo : ∀ u ≠ t, ∀ r, s'.CanGo r u → s.CanGo r u ∨ u ∈ s'.agenda.called

theorem Concerns.refl (s : Limiter) (t : Ticket) : Concerns s s t :=
  ⟨rfl, fun _ _ _ => rfl, fun _ _ _ => Iff.rfl, fun _ _ => Iff.rfl, fun _ => id, fun _ _ => id,
    fun _ _ _ => .inl⟩

theorem Concerns.trans (h : Concerns s s' t) (h' : Concerns s' s'' t) : Concerns s s'' t where
  now := h'.now.trans h.now
  fee u hu r := (h'.fee u hu r).trans (h.fee u hu r)
  held u hu r := (h'.held u hu r).trans (h.held u hu r)
  granted u hu := (h'.granted u hu).trans (h.granted u hu)
  alarms e he := h'.alarms e (h.alarms e he)
  called u hu hc := h'.called u hu (h.called u hu hc)
  canGo u hu r hgo := by
    rcases h'.canGo u hu r hgo with hgo | hc
    · rcases h.canGo u hu r hgo with hgo | hc
      · exact .inl hgo
      · exact .inr (h'.called u hu hc)
    · exact .inr hc

/-- The others wait where they waited. -/
theorem Concerns.mem_tickets_iff (h : Concerns s s' t) (hu : u ≠ t) :
    u ∈ (s'.lane r).tickets ↔ u ∈ (s.lane r).tickets := by
  rw [← Lane.fee_pos_iff, ← Lane.fee_pos_iff, h.fee u hu r]

theorem Concerns.idle (h : Concerns s s' t) (hu : u ≠ t) (hi : s.Idle u) : s'.Idle u :=
  fun r hmem => hi r ((h.mem_tickets_iff hu).mp hmem)

theorem Concerns.done (h : Concerns s s' t) (hu : u ≠ t) (hd : s.Done u) : s'.Done u :=
  ⟨h.idle hu hd.1, fun r hheld => hd.2 r ((h.held u hu r).mp hheld)⟩

theorem Concerns.unused (h : Concerns s s' t) (hu : u ≠ t) (hn : s.Unused u) : s'.Unused u :=
  ⟨h.idle hu hn.1, mt (h.granted u hu).mp hn.2⟩

/-- A change of who is called, by which nobody else is dropped. -/
theorem concerns_onAgenda (s : Limiter) (t : Ticket) (f : Agenda → Agenda)
    (hnow : (f s.agenda).now = s.agenda.now) (ha : ∀ e ∈ s.agenda.alarms, e ∈ (f s.agenda).alarms)
    (hc : ∀ u ≠ t, u ∈ s.agenda.called → u ∈ (f s.agenda).called) :
    Concerns s (s.onAgenda f) t := by
  refine ⟨hnow, fun _ _ _ => rfl, fun _ _ _ => Iff.rfl, fun _ _ => Iff.rfl, ha, hc,
    fun u hu r hgo => .inl ?_⟩
  rw [CanGo, show (s.onAgenda f).now = s.now from hnow] at hgo
  exact hgo

/-- A change of one lane, by which nobody else moves or can go on. -/
theorem concerns_onLane (s : Limiter) (t : Ticket) (r : String) (f : Lane → Lane)
    (hfee : ∀ u ≠ t, (f (s.lane r)).fee u = (s.lane r).fee u)
    (hgo : ∀ u ≠ t, (f (s.lane r)).CanGo s.now s.pool u → (s.lane r).CanGo s.now s.pool u) :
    Concerns s (s.onLane r f) t := by
  refine ⟨rfl, fun u hu r' => ?_, fun _ _ _ => Iff.rfl, fun _ _ => Iff.rfl, fun _ => id,
    fun _ _ => id, fun u hu r' h => .inl ?_⟩
  · rw [lane_onLane]
    split
    · next hr => rw [hr]; exact hfee u hu
    · rfl
  · rw [CanGo, lane_onLane] at h
    split at h
    · next hr => rw [hr]; exact hgo u hu h
    · exact h

theorem concerns_take (s : Limiter) (t : Ticket) : Concerns s (s.onAgenda (·.take t)) t :=
  concerns_onAgenda s t (·.take t) rfl (fun _ => id) fun _ hu => (List.mem_erase_of_ne hu).mpr

theorem concerns_callAt (s : Limiter) (time : Nat) (t : Ticket) :
    Concerns s (s.callAt time t) t := by
  refine concerns_onAgenda s t (·.callAt time t) (now_callAt s time t) (fun e he => ?_)
    fun u _ hc => ?_
  · exact Agenda.mem_alarms_callAt.mpr (.inl he)
  · rwa [Agenda.called_callAt]

theorem concerns_ask (s : Limiter) (t : Ticket) (registry : String) :
    Concerns s (s.ask t registry) t := by
  refine concerns_onLane s t _ (·.ask t) (fun u hu => Lane.fee_ask hu) fun u hu hgo => ?_
  cases hgo with
  | seat h => exact .seat (Gate.admits_of_admits_join hu h)
  | enter rest h hs => exact .enter rest h hs
  | look waited h => exact .look waited h
  | wake wakeAt waited h hle => exact .wake wakeAt waited h hle
  | grant waited h hp => exact .grant waited h hp

theorem concerns_seat (s : Limiter) (t : Ticket) (r : String) : Concerns s (s.seat t r) t := by
  refine concerns_onLane s t r (·.seat t) (fun u _ => Lane.fee_seat) fun u hu hgo => ?_
  by_cases hadmits : (s.lane r).slots.admits t = true
  · rw [Lane.seat_of_admits hadmits, ← Gate.pass_of_admits hadmits] at hgo
    cases hgo with
    | seat h => exact .seat (Gate.admits_of_admits_pass h)
    | enter rest h hs =>
      -- the ticket that took a slot is not the first one unless nobody was seated
      change (s.lane r).seated ++ [t] = u :: rest at hs
      cases hseat : (s.lane r).seated with
      | nil =>
        rw [hseat] at hs
        exact absurd (List.cons.inj hs).1.symm hu
      | cons v seated =>
        rw [hseat] at hs
        exact .enter seated h ((List.cons.inj hs).1 ▸ hseat)
    | look waited h => exact .look waited h
    | wake wakeAt waited h hle => exact .wake wakeAt waited h hle
    | grant waited h hp => exact .grant waited h hp
  · rwa [Lane.seat, if_neg hadmits] at hgo

theorem concerns_enter (s : Limiter) (t : Ticket) (r : String) : Concerns s (s.enter t r) t := by
  refine concerns_onLane s t r (·.enter t) (fun u _ => Lane.fee_enter) fun u hu hgo => ?_
  rcases Lane.enter_cases (s.lane r) t with he | ⟨rest, -, -, he⟩
  · rwa [he] at hgo
  · rw [he] at hgo
    cases hgo with
    | seat h => exact .seat h
    | enter rest h hs => cases h
    | look waited h => cases h; exact absurd rfl hu
    | wake wakeAt waited h hle => cases h
    | grant waited h hp => cases h

theorem concerns_wake (h : s.Timely) (t : Ticket) (r : String) : Concerns s (s.wake t r) t := by
  refine concerns_onLane s t r (·.wake s.now t) (fun u _ => Lane.fee_wake (h r)) fun u hu hgo => ?_
  rcases Lane.wake_cases (s.lane r) s.now t with he | ⟨wakeAt, waited, hadm, -, he⟩
  · rwa [he] at hgo
  · rw [he] at hgo
    cases hgo with
    | seat h => exact .seat h
    | enter rest h hs => cases h
    | look waited h => cases h; exact absurd rfl hu
    | wake wakeAt waited h hle => cases h
    | grant waited h hp => cases h

/-- The line for the global slots gets longer by one ticket. -/
theorem concerns_join (s : Limiter) (t : Ticket) :
    Concerns s { s with pool := s.pool.join t } t := by
  refine ⟨rfl, fun _ _ _ => rfl, fun _ _ _ => Iff.rfl, fun _ _ => Iff.rfl, fun _ => id,
    fun _ _ => id, fun u hu r hgo => ?_⟩
  exact hgo.of_pool fun hp => .inl (Gate.admits_of_admits_join hu hp)

theorem concerns_onLane_look {waited : Nat}
    (hadm : (s.lane r).admitting = some ⟨t, .looking, waited⟩) :
    Concerns s (s.onLane r (·.look s.now)) t := by
  -- before and after it is this ticket that stands at the window lock
  have hat {u : Ticket} {stage : Stage} {w : Nat}
      (h : ((s.lane r).look s.now).admitting = some ⟨u, stage, w⟩) : u = t := by
    have hmem := Lane.mem_admitted_iff.mpr ⟨_, h, rfl⟩
    rw [Lane.admitted_look, Lane.admitted_of_admitting hadm] at hmem
    exact List.mem_singleton.mp hmem
  refine concerns_onLane s t r (·.look s.now) (fun u hu => Lane.fee_look ?_) fun u hu hgo => ?_
  · intro a ha hau
    rw [hadm] at ha
    cases ha
    exact hu hau.symm
  · cases hgo with
    | seat h => exact .seat (by rwa [Lane.slots_look] at h)
    | enter rest h hs =>
      have hnone : ((s.lane r).look s.now).admitted = [] := by rw [Lane.admitted, h]; rfl
      rw [Lane.admitted_look, Lane.admitted_of_admitting hadm] at hnone
      cases hnone
    | look waited h => exact absurd (hat h) hu
    | wake wakeAt waited h hle => exact absurd (hat h) hu
    | grant waited h hp => exact absurd (hat h) hu

theorem concerns_look (s : Limiter) (t : Ticket) (r : String) : Concerns s (s.look t r) t := by
  rcases look_cases s t r with ⟨he, -⟩ | ⟨waited, hadm, ⟨-, he⟩ | ⟨wakeAt, w, -, -, -, he⟩⟩
  · rw [he]
    exact .refl s t
  · rw [he]
    exact (concerns_onLane_look hadm).trans (concerns_join _ t)
  · rw [he]
    exact (concerns_onLane_look hadm).trans (concerns_callAt _ wakeAt t)

theorem concerns_granted {waited : Nat} (hg : Granted s s' t r waited) : Concerns s s' t := by
  have hheld (u : Ticket) (hu : u ≠ t) (r' : String) : (u, r') ∈ s'.held ↔ (u, r') ∈ s.held := by
    rw [hg.held, List.mem_append, List.mem_singleton]
    exact or_iff_left fun he => hu (Prod.mk.inj he).1
  have hgranted (u : Ticket) (hu : u ≠ t) : u ∈ s'.granted ↔ u ∈ s.granted := by
    rw [granted, hg.grants, List.map_append, List.mem_append]
    exact or_iff_left fun he => hu (List.mem_singleton.mp he)
  refine ⟨hg.now, fun u hu r' => ?_, hheld, hgranted, fun e he => ?_, fun u _ hc => ?_,
    fun u hu r' hgo => ?_⟩
  · rw [hg.lane r']
    split
    · next hr => rw [hr]; exact Lane.fee_grantAt hg.pooled hu
    · rfl
  · rwa [hg.agenda, Agenda.alarms_callAll]
  · rw [hg.agenda]
    exact Agenda.mem_called_callAll.mpr (.inl hc)
  · rw [CanGo, hg.now, hg.lane r'] at hgo
    split at hgo
    · next hr =>
      cases hgo with
      | seat h => exact .inl (hr ▸ .seat h)
      | enter rest h hs =>
        -- the first seated ticket may take the window lock, and is called
        refine .inr ?_
        rw [hg.agenda]
        refine Agenda.mem_called_callAll.mpr (.inr (Option.mem_toList.mpr ?_))
        exact congrArg List.head? (show (s.lane r).seated = u :: rest from hs)
      | look waited h => cases h
      | wake wakeAt waited h hle => cases h
      | grant waited h hp => cases h
    · refine hgo.of_pool fun hp => .inl ?_
      rw [hg.pool] at hp
      exact Gate.admits_of_admits_pass hp

theorem concerns_release (s : Limiter) (t : Ticket) : Concerns s (s.release t) t := by
  rcases release_spec s t with ⟨-, he⟩ | ⟨r, hr⟩
  · rw [he]
    exact .refl s t
  · have hagenda : (s.release t).agenda =
        s.agenda.callAll ((s.lane r).slots.next?.toList ++ s.pool.next?.toList) := by
      rw [release, hr.found]
      rfl
    have hcalled {u : Ticket} (hu : u ∈ (s.lane r).slots.next?.toList ++ s.pool.next?.toList) :
        u ∈ (s.release t).agenda.called := by
      rw [hagenda]
      exact Agenda.mem_called_callAll.mpr (.inr hu)
    obtain ⟨before, after, hheld, hheld'⟩ := hr.held_split
    refine ⟨hr.now, fun u _ r' => ?_, fun u hu r' => ?_, fun u _ => ?_, fun e he => ?_,
      fun u _ hc => ?_, fun u _ r' hgo => ?_⟩
    · rw [hr.lane r']
      split
      · next he => rw [he, Lane.fee_returnSlot]
      · rfl
    · rw [hheld, hheld', List.mem_append, List.mem_append, List.mem_cons]
      have hne : ¬ (u, r') = (t, r) := fun he => hu (Prod.mk.inj he).1
      rw [or_iff_right hne]
    · rw [granted, granted, hr.grants]
    · rwa [hagenda, Agenda.alarms_callAll]
    · rw [hagenda]
      exact Agenda.mem_called_callAll.mpr (.inl hc)
    · have hpool (hp : (s.release t).pool.admits u = true) :
          s.pool.admits u = true ∨ u ∈ (s.release t).agenda.called := by
        rw [hr.pool] at hp
        refine (Gate.admits_restore_iff.mp hp).imp_right fun hnext => ?_
        exact hcalled (List.mem_append_right _ (Option.mem_toList.mpr hnext))
      rw [CanGo, hr.now, hr.lane r'] at hgo
      split at hgo
      · next he =>
        subst he
        rcases hgo.of_returnSlot with hgo | hnext
        · exact hgo.of_pool hpool
        · exact .inr (hcalled (List.mem_append_left _ (Option.mem_toList.mpr hnext)))
      · exact hgo.of_pool hpool

theorem concerns_grant (s : Limiter) (t : Ticket) (r : String) : Concerns s (s.grant t r) t := by
  rcases grant_spec s t r with ⟨he, -⟩ | ⟨waited, hg⟩
  · rw [he]
    exact .refl s t
  · exact concerns_granted hg

end Limiter

end TagWatch.Limit
