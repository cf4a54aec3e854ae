import TagWatch.Proofs.Limit.Turn

/-!
# Giving up forgets nobody

A ticket may give up wherever it waits. What it had is then free for somebody else, who is called:
the first ticket that could not pass a gate before, or the next one for the window lock.

**Theorem (`Limiter.Attentive.abandon`).** Whoever can go on because a ticket was given up is
called, and so is whoever was called or is due already.

The moves that `Limiter.Concerns` is about leave all alarms alone. Giving up does not, because the
alarms of the ticket itself are dropped; a sleeper other than that one keeps its own
(`Limiter.Healthy.abandon`).
-/

namespace TagWatch.Limit

/-! ## Leaving a line -/

namespace Gate

variable {g : Gate} {t u : Ticket}

/-- The first ticket that may not pass is the same one after another ticket has passed. -/
theorem next?_pass (h : g.admits t = true) : (g.pass t).next? = g.next? := by
  obtain ⟨before, after, hnot, hline, herase⟩ := List.exists_erase_eq (mem_line_of_admits h)
  have hlt : before.length < g.free := by
    refine Nat.lt_of_not_le fun hle => hnot ?_
    rw [admits_iff, hline, List.take_append_of_le_length hle] at h
    exact List.mem_of_mem_take h
  rw [pass_of_admits h, next?, next?, herase, hline]
  show (before ++ after)[g.free - 1]? = _
  rw [List.getElem?_append_right (Nat.le_sub_one_of_lt hlt),
    List.getElem?_append_right (Nat.le_of_lt hlt)]
  have hsucc : g.free - before.length = (g.free - 1 - before.length) + 1 := by omega
  rw [hsucc, List.getElem?_cons_succ]

/-- A ticket that leaves the line lets only its successor pass. -/
theorem admits_leave (h : (g.leave t).admits u = true) :
    g.admits u = true ∨ g.successor? t = some u := by
  by_cases hadmits : g.admits t = true
  · -- to leave is to pass and to give the slot back
    have hleave : g.leave t = (g.pass t).restore := by
      have hfree : g.free - 1 + 1 = g.free := Nat.sub_add_cancel (free_pos_of_admits hadmits)
      rw [pass_of_admits hadmits, restore, leave, hfree]
    rw [hleave, admits_restore_iff, next?_pass hadmits] at h
    rw [successor?, if_pos hadmits]
    exact h.imp_left admits_of_admits_pass
  · refine .inl ?_
    rw [admits_iff] at *
    have hsplit : g.line.erase t = g.line.take g.free ++ (g.line.drop g.free).erase t := by
      rw [← List.erase_append_right _ hadmits, List.take_append_drop]
    change u ∈ (g.line.erase t).take g.free at h
    rw [hsplit, List.take_append, List.mem_append] at h
    rcases h with h | h
    · exact List.mem_of_mem_take h
    · -- nobody stands behind a line that is not full
      rw [List.length_take] at h
      by_cases hle : g.free ≤ g.line.length
      · rw [Nat.min_eq_left hle, Nat.sub_self] at h
        exact absurd h List.not_mem_nil
      · rw [List.drop_of_length_le (Nat.le_of_not_le hle)] at h
        exact absurd (List.mem_of_mem_take h) List.not_mem_nil

end Gate

/-! ## Giving up in a lane -/

namespace Lane

variable {l : Lane} {t u : Ticket} {now : Nat} {pool : Gate}

/-- The heirs of a seated ticket: the seated one behind it, if it was to go to the window lock, and
the first one in line. -/
theorem mem_heirs_of_seated (hline : ¬ t ∈ l.slots.line) (hseat : t ∈ l.seated) :
    u ∈ l.heirs t ↔
      (∃ rest, l.admitting = none ∧ l.seated = t :: u :: rest) ∨ l.slots.next? = some u := by
  rw [heirs, if_neg (mt List.contains_iff_mem.mp hline), if_pos (List.contains_iff_mem.mpr hseat),
    List.mem_append, Option.mem_toList]
  refine or_congr_left ?_
  split
  · next first second rest hadm hseated =>
    rw [hadm, hseated]
    split
    · next hfirst =>
      rw [List.mem_singleton, hfirst]
      refine ⟨fun hu => ⟨rest, rfl, by rw [hu]⟩, ?_⟩
      rintro ⟨rest', -, hcons⟩
      exact (List.cons.inj (List.cons.inj hcons).2).1.symm
    · next hfirst =>
      refine iff_of_false List.not_mem_nil ?_
      rintro ⟨rest', -, hcons⟩
      exact hfirst (List.cons.inj hcons).1
  · next hno =>
    refine iff_of_false List.not_mem_nil ?_
    rintro ⟨rest, hadm, hseated⟩
    exact hno t u rest hadm hseated

/-- Whoever can go on when a seated ticket gives up could do so before or is its heir. -/
theorem CanGo.of_cancel_seated (hline : ¬ t ∈ l.slots.line) (hseat : t ∈ l.seated)
    (h : (l.cancel t).CanGo now pool u) : l.CanGo now pool u ∨ u ∈ l.heirs t := by
  have hcancel : l.cancel t =
      { l with seated := l.seated.erase t, slots := l.slots.restore } := by
    rw [cancel, if_neg (mt List.contains_iff_mem.mp hline), if_pos (List.contains_iff_mem.mpr hseat)]
  rw [hcancel] at h
  rw [mem_heirs_of_seated hline hseat]
  cases h with
  | seat h => exact (Gate.admits_restore_iff.mp h).imp .seat .inr
  | enter rest h hs =>
    change l.seated.erase t = u :: rest at hs
    obtain ⟨first, behind, hseated⟩ := List.exists_cons_of_ne_nil (List.ne_nil_of_mem hseat)
    rw [hseated] at hs
    by_cases hfirst : first = t
    · -- the first of the seated tickets gives up, so that the second one is next
      rw [hfirst, List.erase_cons_head] at hs
      exact .inr (.inl ⟨rest, h, by rw [hseated, hfirst, hs]⟩)
    · rw [List.erase_cons_tail (by simpa using hfirst)] at hs
      exact .inl (.enter behind h (by rw [hseated, (List.cons.inj hs).1]))
  | look waited h => exact .inl (.look waited h)
  | wake wakeAt waited h hle => exact .inl (.wake wakeAt waited h hle)
  | grant waited h hp => exact .inl (.grant waited h hp)

/-- Whoever can go on when a ticket gives up could do so before or is its heir. -/
theorem CanGo.of_cancel (h : (l.cancel t).CanGo now pool u) :
    l.CanGo now pool u ∨ u ∈ l.heirs t := by
  by_cases hline : t ∈ l.slots.line
  · have hcancel : l.cancel t = { l with slots := l.slots.leave t } := by
      rw [cancel, if_pos (List.contains_iff_mem.mpr hline)]
    rw [hcancel] at h
    rw [heirs, if_pos (List.contains_iff_mem.mpr hline), Option.mem_toList]
    cases h with
    | seat h => exact (Gate.admits_leave h).imp_left .seat
    | enter rest h hs => exact .inl (.enter rest h hs)
    | look waited h => exact .inl (.look waited h)
    | wake wakeAt waited h hle => exact .inl (.wake wakeAt waited h hle)
    | grant waited h hp => exact .inl (.grant waited h hp)
  · by_cases hseat : t ∈ l.seated
    · exact h.of_cancel_seated hline hseat
    · rw [cancel, if_neg (mt List.contains_iff_mem.mp hline),
        if_neg (mt List.contains_iff_mem.mp hseat)] at h
      rw [heirs, if_neg (mt List.contains_iff_mem.mp hline),
        if_neg (mt List.contains_iff_mem.mp hseat)]
      split at h
      · next hadm =>
        rw [if_pos hadm, List.mem_append, Option.mem_toList, Option.mem_toList]
        cases h with
        | seat h => exact (Gate.admits_restore_iff.mp h).imp .seat .inr
        | enter rest h hs => exact .inr (.inl (congrArg List.head? hs))
        | look waited h => cases h
        | wake wakeAt waited h hle => cases h
        | grant waited h hp => cases h
      · exact .inl h

end Lane

namespace Limiter

variable {s : Limiter} {t u : Ticket} {r : String} {due : List Ticket}

/-! ## Giving up a ticket -/

theorem lane_withdraw (s : Limiter) (t : Ticket) (r r' : String) :
    (s.withdraw t r).lane r' = if r' = r then (s.lane r).cancel t else s.lane r' :=
  lane_onLane s r r' (·.cancel t)

theorem now_withdraw (s : Limiter) (t : Ticket) (r : String) : (s.withdraw t r).now = s.now :=
  now_callAll (s.agenda.dismiss t) _

theorem agenda_withdraw (s : Limiter) (t : Ticket) (r : String) :
    (s.withdraw t r).agenda =
      (s.agenda.dismiss t).callAll ((s.pool.successor? t).toList ++ (s.lane r).heirs t) := rfl

theorem mem_alarms_withdraw {e : Nat × Ticket} (he : e ∈ s.agenda.alarms) (hne : e.2 ≠ t) :
    e ∈ (s.withdraw t r).agenda.alarms := by
  rw [agenda_withdraw, Agenda.alarms_callAll]
  exact List.mem_filter.mpr ⟨he, decide_eq_true hne⟩

/-- Whoever can go on when a waiting ticket is withdrawn could do so before or is called. -/
theorem canGo_of_withdraw {r' : String} (h : (s.withdraw t r).CanGo r' u) :
    s.CanGo r' u ∨ u ∈ (s.withdraw t r).agenda.called := by
  have hcalled (hu : u ∈ (s.pool.successor? t).toList ++ (s.lane r).heirs t) :
      u ∈ (s.withdraw t r).agenda.called := by
    rw [agenda_withdraw]
    exact Agenda.mem_called_callAll.mpr (.inr hu)
  have hpool (hp : (s.pool.leave t).admits u = true) :
      s.pool.admits u = true ∨ u ∈ (s.withdraw t r).agenda.called := by
    refine (Gate.admits_leave hp).imp_right fun hsucc => hcalled ?_
    exact List.mem_append_left _ (Option.mem_toList.mpr hsucc)
  rw [CanGo, now_withdraw, lane_withdraw] at h
  split at h
  · next hr =>
    subst hr
    rcases h.of_cancel with h | hheir
    · exact h.of_pool hpool
    · exact .inr (hcalled (List.mem_append_right _ hheir))
  · exact h.of_pool hpool

theorem Healthy.withdraw (h : s.Healthy) (ht : t ∈ (s.lane r).tickets) :
    (s.withdraw t r).Healthy := by
  have hreg : s.registryOf? t = some r := h.orderly.registryOf?_eq_some_iff.mpr ht
  have hmove : s.withdraw t r = s.move (.abandon t) := by
    show _ = s.abandon t
    rw [abandon, hreg]
  have halarmed : (s.withdraw t r).Alarmed := by
    intro r' u wakeAt waited hadm
    -- the ticket itself does not sleep any more
    have hu : u ≠ t := by
      rintro rfl
      exact (h.orderly.givesBack_withdraw ht).done.1 r' (Lane.mem_tickets_of_admitting hadm)
    have hadm' : (s.lane r').admitting = some ⟨u, .asleep wakeAt, waited⟩ := by
      rw [lane_withdraw] at hadm
      split at hadm
      · next hr =>
        rw [hr]
        exact ((Lane.admitting_cancel (h.orderly.once r)).mp hadm).2
      · exact hadm
    rw [now_withdraw]
    exact (h.alarmed r' u wakeAt waited hadm').imp_left fun hmem => mem_alarms_withdraw hmem hu
  rw [hmove] at halarmed ⊢
  exact h.move (.abandon t) (fun u hu => by cases hu) halarmed

/-- A limiter stays healthy when a ticket is dismissed that does not wait. -/
theorem Healthy.dismiss (h : s.Healthy) (hi : s.Idle t) :
    (s.onAgenda (·.dismiss t)).Healthy := by
  refine h.move (.plan (s.agenda.dismiss t).called (s.agenda.dismiss t).alarms)
    (fun u hu => by cases hu) fun r u wakeAt waited hadm => ?_
  have hu : u ≠ t := by
    rintro rfl
    exact hi r (Lane.mem_tickets_of_admitting hadm)
  refine (h.alarmed r u wakeAt waited hadm).imp_left fun hmem => ?_
  exact List.mem_filter.mpr ⟨hmem, decide_eq_true hu⟩

theorem Idle.release (h : s.Idle t) (u : Ticket) : (s.release u).Idle t :=
  h.move (m := .release u) fun hm => by cases hm

/-- A limiter stays healthy when a ticket is given up. -/
theorem Healthy.abandon (h : s.Healthy) (t : Ticket) : (s.abandon t).Healthy := by
  rw [Limiter.abandon]
  split
  · next r hr => exact h.withdraw (h.orderly.registryOf?_eq_some_iff.mp hr)
  · next hr =>
    have hi : s.Idle t := h.orderly.registryOf?_eq_none_iff.mp hr
    exact (h.release t).dismiss (hi.release t)

/-! ## Nobody is forgotten -/

/-- When a ticket moves, nobody else is forgotten. -/
theorem Attentive.moves {s' : Limiter} (h : s.Attentive due) (hc : Concerns s s' t)
    (ht : ∀ r, s'.CanGo r t → t ∈ due) : s'.Attentive due := by
  intro r u hgo
  by_cases hu : u = t
  · rw [hu] at hgo ⊢
    exact .inr (ht r hgo)
  · rcases hc.canGo u hu r hgo with hgo | hcalled
    · exact (h r u hgo).imp_left (hc.called u hu)
    · exact .inl hcalled

/-- Whoever can go on because a permit is given back is called. -/
theorem Attentive.release (h : s.Attentive due) (ho : s.Orderly) (t : Ticket) :
    (s.release t).Attentive due := by
  rcases release_spec s t with ⟨-, he⟩ | ⟨r, hr⟩
  · rwa [he]
  · refine h.moves (concerns_release s t) fun r' hgo => ?_
    -- the ticket that held the permit waits nowhere
    have hmem := hgo.mem_tickets
    rw [hr.tickets] at hmem
    exact absurd (List.mem_of_find?_eq_some hr.found) (ho.not_held_of_mem_tickets hmem)

theorem Attentive.withdraw (h : s.Attentive due) (ho : s.Orderly) (ht : t ∈ (s.lane r).tickets) :
    (s.withdraw t r).Attentive due := by
  intro r' u hgo
  have hu : u ≠ t := by
    rintro rfl
    exact (ho.givesBack_withdraw ht).done.1 r' hgo.mem_tickets
  rcases canGo_of_withdraw hgo with hgo | hcalled
  · refine (h r' u hgo).imp_left fun hcalled => ?_
    rw [agenda_withdraw]
    exact Agenda.mem_called_callAll.mpr (.inl ((List.mem_erase_of_ne hu).mpr hcalled))
  · exact .inl hcalled

/-- **Giving up forgets nobody.** Whoever can go on because a ticket was given up is called. -/
theorem Attentive.abandon (h : s.Attentive due) (ho : s.Orderly) (t : Ticket) :
    (s.abandon t).Attentive due := by
  rw [Limiter.abandon]
  split
  · next r hr => exact h.withdraw ho (ho.registryOf?_eq_some_iff.mp hr)
  · next hr =>
    have hidle : (s.release t).Idle t := (ho.registryOf?_eq_none_iff.mp hr).release t
    refine (h.release ho t).onAgenda (·.dismiss t) rfl fun r u hgo hcalled => ?_
    have hu : u ≠ t := by
      rintro rfl
      exact hidle r hgo.mem_tickets
    exact hcalled.imp_left (List.mem_erase_of_ne hu).mpr

end Limiter

end TagWatch.Limit
