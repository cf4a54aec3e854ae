import TagWatch.Limit.Agenda

/-!
# Calls and alarms

What calling tickets, setting alarms and letting time pass do to an agenda. Nobody who is called is
forgotten, and an alarm stays until its time has come, when its ticket is called.

**The load.** `Agenda.load` counts a ticket that is called once and an alarm twice, because an alarm
becomes a call. Letting time pass until an alarm makes the load smaller (`load_sleepUntil`).
-/

namespace TagWatch.Limit.Agenda

variable {a : Agenda} {t u : Ticket} {ts : List Ticket} {time : Nat} {e : Nat × Ticket}

theorem mem_called_call : u ∈ (a.call t).called ↔ u ∈ a.called ∨ u = t := by
  rw [call]
  split
  · next h =>
    refine ⟨.inl, fun hu => hu.elim id ?_⟩
    rintro rfl
    exact List.contains_iff_mem.mp h
  · show u ∈ a.called ++ [t] ↔ _
    rw [List.mem_append, List.mem_singleton]

theorem mem_called_callAll : u ∈ (a.callAll ts).called ↔ u ∈ a.called ∨ u ∈ ts := by
  induction ts generalizing a with
  | nil => exact ⟨.inl, fun h => h.elim id fun h => absurd h List.not_mem_nil⟩
  | cons t ts ih =>
    show u ∈ ((a.call t).callAll ts).called ↔ _
    rw [ih, mem_called_call, List.mem_cons, or_assoc]

theorem alarms_callAll (a : Agenda) (ts : List Ticket) : (a.callAll ts).alarms = a.alarms := by
  induction ts generalizing a with
  | nil => rfl
  | cons t ts ih =>
    show ((a.call t).callAll ts).alarms = a.alarms
    rw [ih, call]
    split <;> rfl

theorem length_called_callAll (a : Agenda) (ts : List Ticket) :
    (a.callAll ts).called.length ≤ a.called.length + ts.length := by
  induction ts generalizing a with
  | nil => exact Nat.le_refl _
  | cons t ts ih =>
    have hcall : (a.call t).called.length ≤ a.called.length + 1 := by
      rw [call]
      split
      · exact Nat.le_succ _
      · exact Nat.le_of_eq List.length_append
    have hrest := ih (a.call t)
    show ((a.call t).callAll ts).called.length ≤ a.called.length + (ts.length + 1)
    omega

theorem called_sublist_callAll (a : Agenda) (ts : List Ticket) :
    a.called.Sublist (a.callAll ts).called := by
  induction ts generalizing a with
  | nil => exact List.Sublist.refl _
  | cons t ts ih =>
    refine List.Sublist.trans ?_ (ih (a.call t))
    rw [call]
    split
    · exact List.Sublist.refl _
    · exact List.sublist_append_left _ _

/-- Whoever is called for the first time is called after all others. -/
theorem called_call (h : t ∉ a.called) : (a.call t).called = a.called ++ [t] := by
  rw [call, if_neg (mt List.contains_iff_mem.mp h)]

theorem called_call_of_nil (h : a.called = []) (t : Ticket) : (a.call t).called = [t] := by
  rw [called_call (h ▸ List.not_mem_nil), h, List.nil_append]

theorem callAll_append (a : Agenda) (ts ts' : List Ticket) :
    a.callAll (ts ++ ts') = (a.callAll ts).callAll ts' :=
  List.foldl_append

theorem called_callAt (a : Agenda) (time : Nat) (t : Ticket) :
    (a.callAt time t).called = a.called := by
  rw [callAt]
  split <;> rfl

theorem mem_alarms_callAt : e ∈ (a.callAt time t).alarms ↔ e ∈ a.alarms ∨ e = (time, t) := by
  rw [callAt]
  split
  · next h =>
    refine ⟨.inl, fun he => he.elim id ?_⟩
    rintro rfl
    exact List.contains_iff_mem.mp h
  · show e ∈ a.alarms ++ [(time, t)] ↔ _
    rw [List.mem_append, List.mem_singleton]

theorem mem_due_iff {now : Nat} : u ∈ a.due now ↔ ∃ time, (time, u) ∈ a.alarms ∧ time ≤ now := by
  rw [due, List.mem_map]
  constructor
  · rintro ⟨⟨time, v⟩, he, rfl⟩
    rw [List.mem_filter, decide_eq_true_eq] at he
    exact ⟨time, he⟩
  · rintro ⟨time, hmem, hle⟩
    exact ⟨(time, u), List.mem_filter.mpr ⟨hmem, decide_eq_true hle⟩, rfl⟩

/-- Whoever is called when time has passed was called before or had an alarm for it. -/
theorem mem_called_sleepUntil : u ∈ (a.sleepUntil time).called ↔
    u ∈ a.called ∨ ∃ time', (time', u) ∈ a.alarms ∧ time' ≤ max a.now time := by
  rw [sleepUntil, mem_called_callAll, mem_due_iff]

theorem mem_alarms_sleepUntil :
    e ∈ (a.sleepUntil time).alarms ↔ e ∈ a.alarms ∧ max a.now time < e.1 := by
  rw [sleepUntil, alarms_callAll]
  show e ∈ a.alarms.filter _ ↔ _
  rw [List.mem_filter, decide_eq_true_eq]

/-! ## The load of an agenda -/

/-- The number of calls on an agenda, where an alarm counts as two. -/
def load (a : Agenda) : Nat := a.called.length + 2 * a.alarms.length

theorem load_callAll (a : Agenda) (ts : List Ticket) :
    (a.callAll ts).load ≤ a.load + ts.length := by
  have h := length_called_callAll a ts
  rw [load, load, alarms_callAll]
  omega

theorem load_callAt (a : Agenda) (time : Nat) (t : Ticket) :
    (a.callAt time t).load ≤ a.load + 2 := by
  rw [load, load, called_callAt, callAt]
  split
  · omega
  · show _ + 2 * (a.alarms ++ [(time, t)]).length ≤ _
    rw [List.length_append, List.length_singleton]
    omega

theorem load_take (a : Agenda) (t : Ticket) : (a.take t).load ≤ a.load := by
  have h : (a.called.erase t).length ≤ a.called.length := List.erase_sublist.length_le
  show (a.called.erase t).length + 2 * a.alarms.length ≤ a.called.length + 2 * a.alarms.length
  omega

theorem length_due (a : Agenda) (now : Nat) :
    (a.due now).length + (a.alarms.filter fun e => now < e.1).length = a.alarms.length := by
  have hlater : (fun e : Nat × Ticket => decide (now < e.1)) =
      fun e => decide (¬ decide (e.1 ≤ now) = true) := by
    funext e
    rw [decide_eq_decide, decide_eq_true_eq, Nat.not_le]
  rw [due, List.length_map, hlater, ← List.countP_eq_length_filter, ← List.countP_eq_length_filter]
  exact (List.length_eq_countP_add_countP fun e : Nat × Ticket => decide (e.1 ≤ now)).symm

/-- Time that passes until an alarm makes the load smaller. -/
theorem load_sleepUntil (h : (time, t) ∈ a.alarms) : (a.sleepUntil time).load < a.load := by
  have hdue : t ∈ a.due (max a.now time) :=
    mem_due_iff.mpr ⟨time, h, Nat.le_max_right _ _⟩
  have hpos := List.length_pos_of_mem hdue
  have hlen := length_due a (max a.now time)
  have hload := load_callAll
    { a with now := max a.now time
             alarms := a.alarms.filter fun e => max a.now time < e.1 } (a.due (max a.now time))
  show Agenda.load (callAll _ _) < a.called.length + 2 * a.alarms.length
  refine Nat.lt_of_le_of_lt hload ?_
  show a.called.length + 2 * (a.alarms.filter fun e => max a.now time < e.1).length +
    (a.due (max a.now time)).length < _
  omega

end TagWatch.Limit.Agenda
