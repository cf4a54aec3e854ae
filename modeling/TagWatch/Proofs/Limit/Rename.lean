import Mathlib.Data.List.Basic
import TagWatch.Limit.Lane

/-!
# Other names for tickets

Which ticket an acquisition has plays no part in what happens to it. When all tickets of a lane get
other names, different ones for different tickets, every move of a lane does the same as before
under the new names.
-/

namespace TagWatch.Limit

variable {f : Ticket → Ticket}

/-! ## Gates -/

namespace Gate

/-- A gate with other names for the tickets in line. -/
def rename (g : Gate) (f : Ticket → Ticket) : Gate := ⟨g.free, g.line.map f⟩

theorem contains_map (hf : f.Injective) (ts : List Ticket) (t : Ticket) :
    (ts.map f).contains (f t) = ts.contains t := by
  rw [Bool.eq_iff_iff, List.contains_iff_mem, List.contains_iff_mem, List.mem_map_of_injective hf]

theorem admits_rename (hf : f.Injective) (g : Gate) (t : Ticket) :
    (g.rename f).admits (f t) = g.admits t := by
  rw [admits, admits, rename, ← List.map_take, contains_map hf]

theorem next?_rename (g : Gate) : (g.rename f).next? = g.next?.map f := List.getElem?_map

theorem successor?_rename (hf : f.Injective) (g : Gate) (t : Ticket) :
    (g.rename f).successor? (f t) = (g.successor? t).map f := by
  rw [successor?, successor?, admits_rename hf, next?_rename]
  split <;> rfl

theorem join_rename (g : Gate) (t : Ticket) : (g.rename f).join (f t) = (g.join t).rename f := by
  rw [join, join, rename, rename, List.map_append]
  rfl

theorem pass_rename (hf : f.Injective) (g : Gate) (t : Ticket) :
    (g.rename f).pass (f t) = (g.pass t).rename f := by
  rw [pass, pass, admits_rename hf]
  split
  · rw [rename, rename, List.map_erase hf]
  · rfl

end Gate

/-! ## Lanes -/

/-- An acquisition at the window lock with another name for its ticket. -/
def Admission.rename (a : Admission) (f : Ticket → Ticket) : Admission :=
  { a with ticket := f a.ticket }

namespace Lane

/-- A lane with other names for its tickets. -/
def rename (l : Lane) (f : Ticket → Ticket) : Lane :=
  { l with
    slots := l.slots.rename f
    seated := l.seated.map f
    admitting := l.admitting.map (·.rename f) }

theorem isAt_rename (hf : f.Injective) (l : Lane) (t : Ticket) (stage : Stage) :
    (l.rename f).isAt (f t) stage = l.isAt t stage := by
  rw [isAt, isAt, rename]
  cases l.admitting with
  | none => rfl
  | some a =>
    simp only [Option.map_some, Option.any_some, Admission.rename]
    rw [Bool.eq_iff_iff]
    simp [hf.eq_iff]

theorem isAdmitting_rename (hf : f.Injective) (l : Lane) (t : Ticket) :
    (l.rename f).isAdmitting (f t) = l.isAdmitting t := by
  rw [isAdmitting, isAdmitting, rename]
  cases l.admitting with
  | none => rfl
  | some a =>
    simp only [Option.map_some, Option.any_some, Admission.rename]
    rw [Bool.eq_iff_iff]
    simp [hf.eq_iff]

theorem holds_rename (hf : f.Injective) (l : Lane) (t : Ticket) :
    (l.rename f).holds (f t) = l.holds t := by
  rw [holds, holds, isAdmitting_rename hf]
  show ((l.slots.line.map f).contains (f t) || (l.seated.map f).contains (f t) || _) = _
  rw [Gate.contains_map hf, Gate.contains_map hf]

theorem ask_rename (l : Lane) (t : Ticket) : (l.rename f).ask (f t) = (l.ask t).rename f := by
  rw [ask, ask, rename, rename, Gate.join_rename]

theorem seat_rename (hf : f.Injective) (l : Lane) (t : Ticket) :
    (l.rename f).seat (f t) = (l.seat t).rename f := by
  rw [seat, seat, show (l.rename f).slots = l.slots.rename f from rfl, Gate.admits_rename hf]
  split
  · rw [rename, rename, Gate.pass_rename hf, List.map_append]
    rfl
  · rfl

theorem enter_rename (hf : f.Injective) (l : Lane) (t : Ticket) :
    (l.rename f).enter (f t) = (l.enter t).rename f := by
  obtain ⟨rate, slots, seated, admitting, recent, total, waits⟩ := l
  cases admitting with
  | some a => rfl
  | none =>
    cases seated with
    | nil => rfl
    | cons first rest =>
      simp only [rename, enter, Option.map_none, List.map_cons, hf.eq_iff]
      split <;> rfl

theorem wake_rename (hf : f.Injective) (l : Lane) (now : Nat) (t : Ticket) :
    (l.rename f).wake now (f t) = (l.wake now t).rename f := by
  obtain ⟨rate, slots, seated, admitting, recent, total, waits⟩ := l
  cases admitting with
  | none => rfl
  | some a =>
    obtain ⟨u, stage, waited⟩ := a
    cases stage with
    | looking => rfl
    | pooled => rfl
    | asleep wakeAt =>
      simp only [rename, wake, Option.map_some, Admission.rename, hf.eq_iff]
      split <;> rfl

theorem look_rename (l : Lane) (now : Nat) : (l.rename f).look now = (l.look now).rename f := by
  obtain ⟨rate, slots, seated, admitting, recent, total, waits⟩ := l
  cases admitting with
  | none => rfl
  | some a =>
    obtain ⟨u, stage, waited⟩ := a
    cases stage with
    | asleep wakeAt => rfl
    | pooled => rfl
    | looking =>
      show (if (prune now recent).length < room rate then _ else _ : Lane) =
        (if (prune now recent).length < room rate then _ else _ : Lane).rename f
      by_cases hroom : (prune now recent).length < room rate
      · rw [if_pos hroom, if_pos hroom]
        rfl
      · rw [if_neg hroom, if_neg hroom]
        simp only [rename]
        cases prune now recent <;> rfl

theorem grantAt_rename (l : Lane) (now : Nat) :
    (l.rename f).grantAt now = (l.grantAt now).rename f := rfl

theorem returnSlot_rename (l : Lane) : (l.rename f).returnSlot = l.returnSlot.rename f := rfl

theorem resetCounters_rename (l : Lane) :
    (l.rename f).resetCounters = l.resetCounters.rename f := rfl

theorem cancel_rename (hf : f.Injective) (l : Lane) (t : Ticket) :
    (l.rename f).cancel (f t) = (l.cancel t).rename f := by
  rw [cancel, cancel, isAdmitting_rename hf]
  simp only [rename, Gate.rename, Gate.contains_map hf]
  split
  · simp only [Gate.leave, List.map_erase hf]
  · split
    · simp only [Gate.restore, List.map_erase hf]
    · split <;> rfl

theorem heirs_rename (hf : f.Injective) (l : Lane) (t : Ticket) :
    (l.rename f).heirs (f t) = (l.heirs t).map f := by
  have hnext : (l.rename f).slots.next?.toList = l.slots.next?.toList.map f := by
    rw [show (l.rename f).slots = l.slots.rename f from rfl, Gate.next?_rename,
      Option.toList_map]
  have hline : (l.rename f).slots.line.contains (f t) = l.slots.line.contains t :=
    Gate.contains_map hf l.slots.line t
  have hseated : (l.rename f).seated.contains (f t) = l.seated.contains t :=
    Gate.contains_map hf l.seated t
  rw [heirs, heirs, hline, hseated, isAdmitting_rename hf, hnext]
  split
  · rw [show (l.rename f).slots = l.slots.rename f from rfl, Gate.successor?_rename hf,
      Option.toList_map]
  · split
    · rw [List.map_append]
      congr 1
      -- the next ticket at the window lock
      obtain ⟨rate, slots, seated, admitting, recent, total, waits⟩ := l
      cases admitting with
      | some a => rfl
      | none =>
        cases seated with
        | nil => rfl
        | cons first rest =>
          cases rest with
          | nil => rfl
          | cons second rest =>
            simp only [rename, Option.map_none, List.map_cons, hf.eq_iff]
            split <;> rfl
    · split
      · rw [show (l.rename f).seated = l.seated.map f from rfl, List.head?_map,
          Option.toList_map, List.map_append]
      · rfl

end Lane

end TagWatch.Limit
