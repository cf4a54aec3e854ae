import TagWatch.Proofs.Limit.Numbers
import TagWatch.Proofs.Limit.Queue

/-!
# Calls in the order of the lines

The tickets for which the slots of a lane are kept have been called, and they were called in the
order of the line (`Limiter.Prompt`). So they take their turns, and with them their slots, in this
order, if turns are taken in the order of the calls.

Nobody else in line is called: a ticket that waits for a slot has no alarm, and it is called when a
slot is kept for it. While a ticket is in its turn this need not hold for that ticket
(`Limiter.PromptBut`), as when it has just joined the line; its turn puts it right
(`Limiter.PromptBut.turn`).
-/

namespace TagWatch.Limit

/-! ## Kept slots -/

namespace Gate

variable {g : Gate} {t u : Ticket}

/-- The tickets for which slots are kept. -/
def kept (g : Gate) : List Ticket := g.line.take g.free

/-- The tickets in line for which no slots are kept. -/
def behind (g : Gate) : List Ticket := g.line.drop g.free

theorem kept_append_behind (g : Gate) : g.kept ++ g.behind = g.line :=
  List.take_append_drop g.free g.line

theorem kept_sublist (g : Gate) : g.kept.Sublist g.line := List.take_sublist _ _

theorem behind_sublist (g : Gate) : g.behind.Sublist g.line := List.drop_sublist _ _

theorem mem_kept_iff : t ∈ g.kept ↔ g.admits t = true := admits_iff.symm

theorem not_admits_of_kept (h : g.kept = []) (t : Ticket) : ¬ g.admits t = true := by
  rw [← mem_kept_iff, h]
  exact List.not_mem_nil

/-- Whoever passes leaves the tickets without slots as they are. -/
theorem behind_pass (h : g.admits t = true) : (g.pass t).behind = g.behind := by
  have hline : (g.pass t).kept ++ (g.pass t).behind = g.kept.erase t ++ g.behind := by
    rw [kept_append_behind, pass_of_admits h, ← List.erase_append_left _ (mem_kept_iff.mpr h),
      kept_append_behind]
  rw [show (g.pass t).kept = g.kept.erase t from take_pass h] at hline
  exact List.append_cancel_left hline

/-- A slot that is given back is kept for the next ticket. -/
theorem kept_restore (g : Gate) : g.restore.kept = g.kept ++ g.next?.toList :=
  List.take_add_one

/-- When no slot is kept, one is kept for a ticket that joins only if nobody is in line. -/
theorem kept_join (h : g.kept = []) (t : Ticket) :
    (g.join t).kept = [] ∨ (g.join t).line = [t] := by
  rcases List.take_eq_nil_iff.mp h with hfree | hline
  · exact .inl (List.take_eq_nil_iff.mpr (.inl hfree))
  · exact .inr (congrArg (· ++ [t]) hline)

theorem behind_eq (g : Gate) : g.behind = g.next?.toList ++ g.restore.behind := by
  have hline : g.kept ++ g.behind = g.kept ++ (g.next?.toList ++ g.restore.behind) := by
    rw [kept_append_behind, ← List.append_assoc, ← kept_restore, kept_append_behind]
    rfl
  exact List.append_cancel_left hline

end Gate

/-! ## Giving up while no slot is kept -/

namespace Lane

variable {l : Lane} {t u : Ticket}

/-- What a ticket leaves behind that gives up while no slot of its lane is kept: at most one slot is
kept then, for an heir, and nobody else in line is an heir. -/
structure Canceled (l : Lane) (t : Ticket) : Prop where
  line : (l.cancel t).slots.line.Sublist l.slots.line
  kept : (l.cancel t).slots.kept = [] ∨ ∃ u, (l.cancel t).slots.kept = [u] ∧ u ∈ l.heirs t
  behind : ∀ u ∈ (l.cancel t).slots.behind, u ∉ l.heirs t

/-- A ticket in line gives up its place only. -/
theorem canceled_of_line (hempty : l.slots.kept = []) (ht : t ∈ l.slots.line) : l.Canceled t := by
  have hcancel : l.cancel t = { l with slots := l.slots.leave t } := by
    rw [cancel, if_pos (List.contains_iff_mem.mpr ht)]
  have hheirs : l.heirs t = [] := by
    rw [heirs, if_pos (List.contains_iff_mem.mpr ht), Gate.successor?,
      if_neg (Gate.not_admits_of_kept hempty t)]
    rfl
  refine ⟨hcancel ▸ List.erase_sublist, .inl ?_, fun u _ hu => ?_⟩
  · rw [hcancel]
    refine List.take_eq_nil_iff.mpr (.inl ?_)
    exact (List.take_eq_nil_iff.mp hempty).resolve_right (List.ne_nil_of_mem ht)
  · rw [hheirs] at hu
    cases hu

/-- The heirs of a ticket that holds a slot: a seated one, and the next one in line. -/
theorem heirs_of_inside (hline : t ∉ l.slots.line) (ht : t ∈ l.inside) :
    ∃ seats, l.heirs t = seats ++ l.slots.next?.toList ∧ ∀ u ∈ seats, u ∈ l.seated := by
  rw [heirs, if_neg (mt List.contains_iff_mem.mp hline)]
  by_cases hseat : t ∈ l.seated
  · rw [if_pos (List.contains_iff_mem.mpr hseat)]
    refine ⟨_, rfl, fun u hu => ?_⟩
    split at hu
    · next first second rest hadm hseated =>
      split at hu
      · obtain rfl := List.mem_singleton.mp hu
        rw [hseated]
        exact List.mem_cons_of_mem _ List.mem_cons_self
      · cases hu
    · cases hu
  · have hadm := isAdmitting_iff.mpr ((List.mem_append.mp ht).resolve_left hseat)
    rw [if_neg (mt List.contains_iff_mem.mp hseat), if_pos hadm]
    exact ⟨_, rfl, fun u hu => List.mem_of_mem_head? (Option.mem_toList.mp hu)⟩

/-- A ticket that holds a slot gives it up. -/
theorem canceled_of_inside (hn : l.tickets.Nodup) (hempty : l.slots.kept = [])
    (ht : t ∈ l.inside) : l.Canceled t := by
  rw [tickets, List.nodup_append] at hn
  obtain ⟨hnline, -, hdisj⟩ := hn
  have hline : t ∉ l.slots.line := fun hline => hdisj t hline t ht rfl
  have hslots : (l.cancel t).slots = l.slots.restore := by
    rw [cancel, if_neg (mt List.contains_iff_mem.mp hline)]
    by_cases hseat : t ∈ l.seated
    · rw [if_pos (List.contains_iff_mem.mpr hseat)]
    · have hadm := isAdmitting_iff.mpr ((List.mem_append.mp ht).resolve_left hseat)
      rw [if_neg (mt List.contains_iff_mem.mp hseat), if_pos hadm]
  obtain ⟨seats, hheirs, hseats⟩ := heirs_of_inside hline ht
  have hbehind := l.slots.behind_eq
  refine ⟨hslots ▸ List.Sublist.refl _, ?_, fun u hu hheir => ?_⟩
  · rw [hslots, Gate.kept_restore, hempty, List.nil_append, hheirs]
    cases l.slots.next? with
    | none => exact .inl rfl
    | some u => exact .inr ⟨u, rfl, List.mem_append_right _ List.mem_cons_self⟩
  · rw [hslots] at hu
    rw [hheirs] at hheir
    have hnbehind := hnline.sublist (Gate.behind_sublist l.slots)
    rw [hbehind, List.nodup_append] at hnbehind
    rcases List.mem_append.mp hheir with hseat | hnext
    · have huline := (Gate.behind_sublist l.slots).mem (hbehind ▸ List.mem_append_right _ hu)
      exact hdisj u huline u (List.mem_append_left _ (hseats u hseat)) rfl
    · exact hnbehind.2.2 u hnext u hu rfl

theorem canceled (hn : l.tickets.Nodup) (hempty : l.slots.kept = []) (ht : t ∈ l.tickets) :
    l.Canceled t :=
  (List.mem_append.mp ht).elim (canceled_of_line hempty) (canceled_of_inside hn hempty)

end Lane

/-! ## Prompt calls -/

namespace Limiter

variable {s s' : Limiter} {t u n : Ticket} {r : String}

/-- In the lines for slots the tickets stand in the order of their numbers, and none of them has an
alarm. -/
structure Queued (s : Limiter) : Prop where
  sorted : ∀ r, (s.lane r).slots.line.Pairwise (· < ·)
  unalarmed : ∀ e ∈ s.agenda.alarms, ∀ r, e.2 ∉ (s.lane r).slots.line

/-- The tickets for which slots are kept are called in the order of the line, and nobody else in
line is called. -/
structure Prompt (s : Limiter) : Prop extends Queued s where
  kept : ∀ r, (s.lane r).slots.kept.Sublist s.agenda.called
  behind : ∀ r, ∀ t ∈ (s.lane r).slots.behind, t ∉ s.agenda.called

/-- As `Prompt`, but for one ticket. -/
structure PromptBut (s : Limiter) (t : Ticket) : Prop extends Queued s where
  kept : ∀ r, ((s.lane r).slots.kept.erase t).Sublist (s.agenda.called.erase t)
  behind : ∀ r, ∀ u ∈ (s.lane r).slots.behind, u ∉ s.agenda.called.erase t

theorem Prompt.but (h : s.Prompt) (t : Ticket) : s.PromptBut t where
  toQueued := h.toQueued
  kept r := (h.kept r).erase t
  behind r u hu hc := h.behind r u hu (List.mem_of_mem_erase hc)

/-- When nobody is called, no slot is kept. -/
theorem Prompt.kept_of_calm (h : s.Prompt) (hcalm : s.agenda.called = []) (r : String) :
    (s.lane r).slots.kept = [] :=
  List.sublist_nil.mp (hcalm ▸ h.kept r)

/-! ## Changes of the agenda -/

/-- Whoever joins no line and calls nobody in line leaves the order of the calls as it is. -/
theorem Prompt.congr (h : s.Prompt) (hslots : ∀ r, (s'.lane r).slots = (s.lane r).slots)
    (hcalled : s.agenda.called.Sublist s'.agenda.called)
    (hnew : ∀ u ∈ s'.agenda.called, u ∈ s.agenda.called ∨ ∀ r, u ∉ (s.lane r).slots.line)
    (halarms : ∀ e ∈ s'.agenda.alarms, e ∈ s.agenda.alarms ∨ ∀ r, e.2 ∉ (s.lane r).slots.line) :
    s'.Prompt where
  sorted r := hslots r ▸ h.sorted r
  unalarmed e he r := by
    rw [hslots r]
    exact (halarms e he).elim (fun he => h.unalarmed e he r) fun hout => hout r
  kept r := hslots r ▸ (h.kept r).trans hcalled
  behind r u hu hc := by
    rw [hslots r] at hu
    exact (hnew u hc).elim (h.behind r u hu) fun hout => hout r ((Gate.behind_sublist _).mem hu)

/-- Tickets are called that wait in no line. -/
theorem Prompt.callAll (h : s.Prompt) {ts : List Ticket}
    (hts : ∀ t ∈ ts, ∀ r, t ∉ (s.lane r).slots.line) : (s.onAgenda (·.callAll ts)).Prompt :=
  h.congr (fun _ => rfl) (Agenda.called_sublist_callAll _ ts)
    (fun u hu => (Agenda.mem_called_callAll.mp hu).imp_right (hts u))
    fun _ he => .inl (Agenda.alarms_callAll s.agenda ts ▸ he)

/-- An alarm is set by a ticket that waits in no line. -/
theorem Prompt.callAt (h : s.Prompt) (time : Nat) (ht : ∀ r, t ∉ (s.lane r).slots.line) :
    (s.callAt time t).Prompt := by
  have hcalled : (s.callAt time t).agenda.called = s.agenda.called := Agenda.called_callAt _ _ _
  refine h.congr (fun _ => rfl) (hcalled ▸ List.Sublist.refl _) (fun u hu => .inl (hcalled ▸ hu))
    fun _ he => (Agenda.mem_alarms_callAt.mp he).imp_right ?_
  rintro rfl
  exact ht

theorem Prompt.sleepUntil (h : s.Prompt) (time : Nat) : (s.sleepUntil time).Prompt := by
  refine h.congr (fun _ => rfl) ?_ (fun u hu => ?_) fun e he => ?_
  · exact Agenda.called_sublist_callAll { s.agenda with
      now := max s.agenda.now time
      alarms := s.agenda.alarms.filter fun e => max s.agenda.now time < e.1 } _
  · rcases Agenda.mem_called_sleepUntil.mp hu with hu | ⟨time', hmem, -⟩
    · exact .inl hu
    · exact .inr (h.unalarmed _ hmem)
  · exact .inl (Agenda.mem_alarms_sleepUntil.mp he).1

theorem Prompt.resetMetrics (h : s.Prompt) : s.resetMetrics.Prompt :=
  h.congr (fun r => by rw [lane_resetMetrics]; rfl) (List.Sublist.refl _) (fun _ => .inl)
    fun _ => .inl

/-- A ticket that waits in no line is dismissed. -/
theorem Prompt.dismiss (h : s.Prompt) (ht : ∀ r, t ∉ (s.lane r).slots.line) :
    (s.onAgenda (·.dismiss t)).Prompt where
  sorted := h.sorted
  unalarmed e he := h.unalarmed e (List.mem_of_mem_filter he)
  kept r := by
    have hkept : t ∉ (s.lane r).slots.kept := fun hk => ht r ((Gate.kept_sublist _).mem hk)
    exact List.erase_of_not_mem hkept ▸ (h.kept r).erase t
  behind r u hu hc := h.behind r u hu (List.mem_of_mem_erase hc)

/-! ## Turns -/

theorem not_mem_line_of_mem_inside (ho : s.Orderly) (ht : t ∈ (s.lane r).inside) (r' : String) :
    t ∉ (s.lane r').slots.line := by
  intro hline
  obtain rfl : r' = r := ho.apart (List.mem_append_left _ hline) (List.mem_append_right _ ht)
  have hn := ho.once r'
  rw [Lane.tickets, List.nodup_append] at hn
  exact hn.2.2 t hline t ht rfl

theorem Idle.not_mem_line (h : s.Idle t) (r : String) : t ∉ (s.lane r).slots.line :=
  fun hline => h r (List.mem_append_left _ hline)

/-- The turn of a ticket that waits nowhere. -/
theorem PromptBut.take (h : s.PromptBut t) (ht : ∀ r, t ∉ (s.lane r).slots.line) :
    (s.onAgenda (·.take t)).Prompt where
  toQueued := ⟨h.sorted, h.unalarmed⟩
  kept r := by
    have hkept : t ∉ (s.lane r).slots.kept := fun hk => ht r ((Gate.kept_sublist _).mem hk)
    exact List.erase_of_not_mem hkept ▸ h.kept r
  behind := h.behind

/-- A turn begins, and its ticket takes the slot that is kept for it. -/
theorem PromptBut.seat (h : s.PromptBut t) (ho : s.Orderly) (ht : t ∈ (s.lane r).tickets) :
    ((s.onAgenda (·.take t)).seat t r).Prompt := by
  have hlane (r' : String) : (((s.onAgenda (·.take t)).seat t r).lane r').slots =
      if r' = r ∧ (s.lane r).slots.admits t = true then (s.lane r).slots.pass t
      else (s.lane r').slots := by
    rw [Limiter.seat, lane_onLane]
    show (if r' = r then (s.lane r).seat t else s.lane r').slots = _
    by_cases hr : r' = r
    · rw [if_pos hr, Lane.seat]
      by_cases hadmits : (s.lane r).slots.admits t = true
      · rw [if_pos hadmits, if_pos ⟨hr, hadmits⟩]
      · rw [if_neg hadmits, if_neg fun he => hadmits he.2, hr]
    · rw [if_neg hr, if_neg fun he => hr he.1]
  have hsub (r' : String) : (((s.onAgenda (·.take t)).seat t r).lane r').slots.line.Sublist
      (s.lane r').slots.line := by
    rw [hlane]
    split
    · next he =>
      rw [he.1, Gate.pass_of_admits he.2]
      exact List.erase_sublist
    · exact List.Sublist.refl _
  refine ⟨⟨fun r' => (h.sorted r').sublist (hsub r'), fun e he r' hline => ?_⟩, fun r' => ?_,
    fun r' u hu => ?_⟩
  · exact h.unalarmed e he r' ((hsub r').mem hline)
  · suffices hkept : (((s.onAgenda (·.take t)).seat t r).lane r').slots.kept =
        (s.lane r').slots.kept.erase t from hkept ▸ h.kept r'
    rw [hlane]
    split
    · next he =>
      rw [he.1]
      exact Gate.take_pass he.2
    · next hnot =>
      -- no slot is kept for the ticket in another lane
      refine (List.erase_of_not_mem fun hk => hnot ?_).symm
      obtain rfl : r' = r :=
        ho.apart (List.mem_append_left _ ((Gate.kept_sublist _).mem hk)) ht
      exact ⟨rfl, Gate.mem_kept_iff.mp hk⟩
  · refine h.behind r' u ?_
    rw [hlane] at hu
    split at hu
    · next he =>
      rw [Gate.behind_pass he.2] at hu
      exact he.1 ▸ hu
    · exact hu

theorem slots_onLane {f : Lane → Lane} (hf : (f (s.lane r)).slots = (s.lane r).slots)
    (r' : String) : ((s.onLane r f).lane r').slots = (s.lane r').slots := by
  rw [lane_onLane]
  split
  · next hr => rw [hf, hr]
  · rfl

theorem Prompt.onLane (h : s.Prompt) {f : Lane → Lane}
    (hf : (f (s.lane r)).slots = (s.lane r).slots) : (s.onLane r f).Prompt :=
  h.congr (slots_onLane hf) (List.Sublist.refl _) (fun _ => .inl) fun _ => .inl

theorem Prompt.look (h : s.Prompt) (ho : s.Orderly) (t : Ticket) (r : String) :
    (s.look t r).Prompt := by
  have hlooked : (s.onLane r (·.look s.now)).Prompt := h.onLane Lane.slots_look
  rcases look_cases s t r with ⟨he, -⟩ | ⟨waited, hadm, ⟨-, he⟩ | ⟨wakeAt, w, -, -, -, he⟩⟩
  · rwa [he]
  · rw [he]
    exact { hlooked with }
  · rw [he]
    -- whoever looks at the window stands in no line
    have hinside : t ∈ (s.lane r).inside :=
      List.mem_append_right _ (Lane.mem_admitted_iff.mpr ⟨_, hadm, rfl⟩)
    refine hlooked.callAt wakeAt fun r' => ?_
    rw [slots_onLane Lane.slots_look]
    exact not_mem_line_of_mem_inside ho hinside r'

theorem Prompt.grant (h : s.Prompt) (ho : s.Orderly) (t : Ticket) (r : String) :
    (s.grant t r).Prompt := by
  rcases grant_spec s t r with ⟨he, -⟩ | ⟨waited, hg⟩
  · rwa [he]
  · refine h.congr (fun r' => ?_) ?_ (fun u hu => ?_) fun e he => ?_
    · rw [hg.lane]
      split
      · next hr => rw [hr]; rfl
      · rfl
    · rw [hg.agenda]
      exact Agenda.called_sublist_callAll _ _
    · rw [hg.agenda] at hu
      refine (Agenda.mem_called_callAll.mp hu).imp_right fun hu => ?_
      have hseat : u ∈ (s.lane r).seated := List.mem_of_mem_head? (Option.mem_toList.mp hu)
      exact not_mem_line_of_mem_inside ho (List.mem_append_left _ hseat)
    · rw [hg.agenda, Agenda.alarms_callAll] at he
      exact .inl he

/-- **A turn puts the calls in order.** -/
theorem PromptBut.turn (h : s.PromptBut t) (hh : s.Healthy) : (s.turn t).Prompt := by
  have htaken : (s.onAgenda (·.take t)).Healthy := hh.onAgenda (·.take t) rfl fun _ => id
  rw [Limiter.turn]
  split
  · next r hr =>
    have hseat := h.seat hh.orderly (hh.orderly.registryOf?_eq_some_iff.mp hr)
    have hwoken := ((htaken.seat t r).enter t r).wake t r
    have hprompt : ((((s.onAgenda (·.take t)).seat t r).enter t r).wake t r).Prompt :=
      (hseat.onLane Lane.slots_enter).onLane Lane.slots_wake
    exact (hprompt.look hwoken.orderly t r).grant (hwoken.look t r).orderly t r
  · next hr => exact h.take (hh.orderly.registryOf?_eq_none_iff.mp hr).not_mem_line

/-- A ticket is called. -/
theorem PromptBut.call (h : s.PromptBut t) : (s.call t).PromptBut t := by
  have hcalled : (s.call t).agenda.called.erase t = s.agenda.called.erase t := by
    show (s.agenda.call t).called.erase t = _
    by_cases ht : t ∈ s.agenda.called
    · rw [Agenda.call, if_pos (List.contains_iff_mem.mpr ht)]
    · rw [Agenda.called_call ht, List.erase_append_right _ ht, List.erase_cons_head,
        List.append_nil, List.erase_of_not_mem ht]
  refine ⟨⟨h.sorted, fun e he => ?_⟩, fun r => ?_, fun r u hu => ?_⟩
  · exact h.unalarmed e (Agenda.alarms_callAll s.agenda [t] ▸ he)
  · rw [hcalled]
    exact h.kept r
  · rw [hcalled]
    exact h.behind r u hu

/-- A ticket joins a line while nobody is called: if a slot is kept for it, it is the first in line,
and its turn is due. -/
theorem Prompt.ask (h : s.Prompt) (hcalm : s.agenda.called = []) (hn : s.Numbered n)
    (registry : String) :
    (s.ask n registry).PromptBut n ∧ (s.ask n registry).GoesFirst n := by
  have hkept (r : String) : ((s.ask n registry).lane r).slots.kept = [] ∨
      ((s.ask n registry).lane r).slots.line = [n] := by
    have hempty := h.kept_of_calm hcalm r
    rw [Limiter.ask, lane_onLane]
    split
    · next hr =>
      rw [hr] at hempty
      exact Gate.kept_join hempty n
    · exact .inl hempty
  have hcalled : (s.ask n registry).agenda.called.erase n = [] := by
    show s.agenda.called.erase n = []
    rw [hcalm, List.erase_nil]
  refine ⟨⟨⟨fun r => ?_, fun e he r hline => ?_⟩, fun r => ?_, fun r u _ hu => ?_⟩,
    fun r hadmits => ?_⟩
  · rw [Limiter.ask, lane_onLane]
    split
    · show ((s.lane _).slots.line ++ [n]).Pairwise (· < ·)
      refine List.pairwise_append.mpr ⟨h.sorted _, List.pairwise_singleton _ n, fun t ht u hu => ?_⟩
      rw [List.mem_singleton.mp hu]
      exact hn.lt_of_mem_tickets (List.mem_append_left _ ht)
    · exact h.sorted r
  · rw [Limiter.ask, lane_onLane] at hline
    split at hline
    · rcases List.mem_append.mp hline with hline | hnew
      · exact h.unalarmed e he _ hline
      · exact Nat.ne_of_lt (hn.below.alarms e he) (List.mem_singleton.mp hnew)
    · exact h.unalarmed e he r hline
  · rw [hcalled, List.sublist_nil]
    rcases hkept r with hnone | hone
    · rw [hnone, List.erase_nil]
    · have hsub := ((Gate.kept_sublist ((s.ask n registry).lane r).slots).erase n)
      rw [hone, List.erase_cons_head] at hsub
      exact List.sublist_nil.mp hsub
  · rw [hcalled] at hu
    exact List.not_mem_nil hu
  · rcases hkept r with hnone | hone
    · exact absurd hadmits (Gate.not_admits_of_kept hnone n)
    · rw [hone]
      rfl

/-! ## Ends of an acquisition -/

theorem line_returnSlot (s : Limiter) (r r' : String) :
    ((s.onLane r (·.returnSlot)).lane r').slots.line = (s.lane r').slots.line := by
  rw [lane_onLane]
  split
  · next hr => rw [hr]; rfl
  · rfl

/-- A slot is given back, and the next ticket in line is called. -/
theorem Prompt.returnSlot (h : s.Prompt) (ho : s.Orderly) (r : String) :
    ((s.onLane r (·.returnSlot)).onAgenda
      (·.callAll (s.lane r).slots.next?.toList)).Prompt := by
  have hbehind := (s.lane r).slots.behind_eq
  have hnext {v : Ticket} (hv : v ∈ (s.lane r).slots.next?.toList) :
      v ∈ (s.lane r).slots.behind := hbehind ▸ List.mem_append_left _ hv
  -- the next ticket in line was not called before
  have hcalled : (s.agenda.callAll (s.lane r).slots.next?.toList).called =
      s.agenda.called ++ (s.lane r).slots.next?.toList := by
    cases hv : (s.lane r).slots.next? with
    | none => exact (List.append_nil _).symm
    | some v => exact Agenda.called_call (h.behind r v (hnext (Option.mem_toList.mpr hv)))
  have hlane (r' : String) : (s.onLane r (·.returnSlot)).lane r' =
      if r' = r then (s.lane r).returnSlot else s.lane r' := lane_onLane s r r' (·.returnSlot)
  refine ⟨⟨fun r' => ?_, fun e he r' => ?_⟩, fun r' => ?_, fun r' u hu => ?_⟩
  · exact (line_returnSlot s r r').symm ▸ h.sorted r'
  · refine (line_returnSlot s r r').symm ▸ h.unalarmed e ?_ r'
    exact Agenda.alarms_callAll s.agenda _ ▸ he
  · show ((s.onLane r (·.returnSlot)).lane r').slots.kept.Sublist
      (s.agenda.callAll (s.lane r).slots.next?.toList).called
    rw [hcalled, hlane]
    split
    · show (s.lane r).slots.restore.kept.Sublist _
      rw [Gate.kept_restore]
      exact (h.kept r).append (List.Sublist.refl _)
    · exact (h.kept r').trans (List.sublist_append_left _ _)
  · show u ∉ (s.agenda.callAll (s.lane r).slots.next?.toList).called
    change u ∈ ((s.onLane r (·.returnSlot)).lane r').slots.behind at hu
    rw [hcalled, List.mem_append]
    rw [hlane] at hu
    split at hu
    · have hnodup : (s.lane r).slots.behind.Nodup :=
        ((ho.once r).sublist (List.sublist_append_left _ _)).sublist (Gate.behind_sublist _)
      rw [hbehind, List.nodup_append] at hnodup
      rintro (hc | hc)
      · exact h.behind r u (hbehind ▸ List.mem_append_right _ hu) hc
      · exact hnodup.2.2 u hc u hu rfl
    · next hr =>
      rintro (hc | hc)
      · exact h.behind r' u hu hc
      · have hline {r : String} (hb : u ∈ (s.lane r).slots.behind) : u ∈ (s.lane r).tickets :=
          List.mem_append_left _ ((Gate.behind_sublist _).mem hb)
        exact hr (ho.apart (hline hu) (hline (hnext hc)))

/-- Whoever waits for a global slot waits in no line of a lane. -/
theorem Healthy.not_mem_line_of_pooled (hh : s.Healthy) (ht : t ∈ s.pool.line) (r : String) :
    t ∉ (s.lane r).slots.line := by
  obtain ⟨r', waited, hadm⟩ := (hh.lined.mem_iff t).mp ht
  have hinside : t ∈ (s.lane r').inside :=
    List.mem_append_right _ (Lane.mem_admitted_iff.mpr ⟨_, hadm, rfl⟩)
  exact not_mem_line_of_mem_inside hh.orderly hinside r

theorem Prompt.release (h : s.Prompt) (hh : s.Healthy) (t : Ticket) : (s.release t).Prompt := by
  rw [Limiter.release]
  split
  · next u r hfind =>
    have hpool : ∀ v ∈ s.pool.next?.toList, ∀ r',
        v ∉ ((s.onLane r (·.returnSlot)).lane r').slots.line := fun v hv r' => by
      rw [line_returnSlot]
      exact hh.not_mem_line_of_pooled (List.mem_of_getElem? (Option.mem_toList.mp hv)) r'
    have hcalled := (h.returnSlot hh.orderly r).callAll hpool
    dsimp only
    rw [Agenda.callAll_append]
    exact { hcalled with }
  · exact h

/-- A ticket gives up while nobody is called. -/
theorem Prompt.withdraw (h : s.Prompt) (hcalm : s.agenda.called = []) (hh : s.Healthy)
    (ht : t ∈ (s.lane r).tickets) : (s.withdraw t r).Prompt := by
  have hempty := h.kept_of_calm hcalm
  have hcancel := Lane.canceled (hh.orderly.once r) (hempty r) ht
  have hlane (r' : String) : ((s.withdraw t r).lane r').slots =
      if r' = r then ((s.lane r).cancel t).slots else (s.lane r').slots := by
    rw [lane_withdraw]
    split <;> rfl
  -- who is called: the next ticket for a global slot, and the heirs in the lane
  have hcalled {u : Ticket} : u ∈ (s.withdraw t r).agenda.called ↔
      s.pool.successor? t = some u ∨ u ∈ (s.lane r).heirs t := by
    rw [agenda_withdraw, Agenda.mem_called_callAll, List.mem_append, Option.mem_toList]
    show u ∈ s.agenda.called.erase t ∨ _ ↔ _
    rw [hcalm, List.erase_nil]
    exact or_iff_right List.not_mem_nil
  have hsub (r' : String) :
      ((s.withdraw t r).lane r').slots.line.Sublist (s.lane r').slots.line := by
    rw [hlane]
    split
    · next hr => exact hr ▸ hcancel.line
    · exact List.Sublist.refl _
  refine ⟨⟨fun r' => (h.sorted r').sublist (hsub r'), fun e he r' hline => ?_⟩, fun r' => ?_,
    fun r' u hu hc => ?_⟩
  · rw [agenda_withdraw, Agenda.alarms_callAll] at he
    exact h.unalarmed e (List.mem_of_mem_filter he) r' ((hsub r').mem hline)
  · rw [hlane]
    split
    · rcases hcancel.kept with hnone | ⟨u, hone, hheir⟩
      · exact hnone ▸ List.nil_sublist _
      · exact hone ▸ List.singleton_sublist.mpr (hcalled.mpr (.inr hheir))
    · exact hempty r' ▸ List.nil_sublist _
  · have hline := (hsub r').mem ((Gate.behind_sublist _).mem hu)
    rcases hcalled.mp hc with hpool | hheir
    · rw [Gate.successor?] at hpool
      split at hpool
      · exact hh.not_mem_line_of_pooled (List.mem_of_getElem? hpool) r' hline
      · cases hpool
    · obtain rfl : r' = r := hh.orderly.apart (List.mem_append_left _ hline)
        (Lane.mem_tickets_of_mem_heirs hheir)
      rw [hlane, if_pos rfl] at hu
      exact hcancel.behind u hu hheir

/-- A ticket is given up while nobody is called. -/
theorem Prompt.abandon (h : s.Prompt) (hcalm : s.agenda.called = []) (hh : s.Healthy)
    (t : Ticket) : (s.abandon t).Prompt := by
  rw [Limiter.abandon]
  split
  · next r hr => exact h.withdraw hcalm hh (hh.orderly.registryOf?_eq_some_iff.mp hr)
  · next hr =>
    have hidle : (s.release t).Idle t := (hh.orderly.registryOf?_eq_none_iff.mp hr).release t
    exact (h.release hh t).dismiss hidle.not_mem_line

/-! ## Who takes the next turn -/

/-- When nobody is called, nobody takes a slot. -/
theorem Prompt.goesFirst_of_calm (h : s.Prompt) (hcalm : s.agenda.called = []) (t : Ticket) :
    s.GoesFirst t :=
  fun r hadmits => absurd hadmits (Gate.not_admits_of_kept (h.kept_of_calm hcalm r) t)

/-- A ticket goes first if only larger ones were called before it. -/
theorem Prompt.goesFirst (h : s.Prompt) (hn : s.agenda.called.Nodup)
    {earlier later : List Ticket} (hcalled : s.agenda.called = earlier ++ t :: later)
    (hearlier : ∀ u ∈ earlier, t ≤ u) : s.GoesFirst t := by
  intro r hadmits
  have hmem : t ∈ (s.lane r).slots.kept := Gate.mem_kept_iff.mpr hadmits
  have hsub : (s.lane r).slots.kept.Sublist (earlier ++ t :: later) := hcalled ▸ h.kept r
  have hsorted : (s.lane r).slots.kept.Pairwise (· < ·) :=
    (h.sorted r).sublist (Gate.kept_sublist _)
  have hnot : t ∉ later := by
    rw [hcalled, List.nodup_append] at hn
    exact (List.nodup_cons.mp hn.2.1).1
  rw [← Gate.kept_append_behind]
  cases hkept : (s.lane r).slots.kept with
  | nil =>
    rw [hkept] at hmem
    cases hmem
  | cons first rest =>
    rw [hkept] at hmem hsub hsorted
    refine congrArg some ?_
    rcases List.mem_cons.mp hmem with he | hrest
    · exact he.symm
    · -- somebody smaller in front would be called before, but only larger ones are
      have hlt : first < t := (List.pairwise_cons.mp hsorted).1 t hrest
      have hfirst : first ∉ earlier := fun hf => Nat.not_le_of_lt hlt (hearlier first hf)
      obtain ⟨front, back, hsplit, hfront, hback⟩ := List.sublist_append_iff.mp hsub
      cases front with
      | cons x front =>
        obtain rfl : first = x := (List.cons.inj hsplit).1
        exact absurd (hfront.mem List.mem_cons_self) hfirst
      | nil =>
        rw [← show first :: rest = back from hsplit] at hback
        cases hback with
        | cons _ hback => exact absurd (hback.mem hmem) hnot
        | cons_cons _ _ => rfl

end Limiter

end TagWatch.Limit
