import Mathlib.Data.List.Find
import TagWatch.Limit.Workload
import TagWatch.Proofs.Limit.Rename

/-!
# What the users of one registry see

A view of one registry forgets the other ones: their lanes, their tickets on the agenda and in the
line for the global slots, their permits and grants. Their permits still take up global slots, and
in the view these are free. The tickets that are left are numbered anew, in the same order, so that
a view is what a limiter looks like whose other registries are never asked for.

A view sees some tickets and does not see the others (`View.sees`). What happens to a ticket that it
sees happens in the view as well, to the new number of the ticket; what happens to any other ticket
changes nothing there.
-/

namespace TagWatch

/-! ## Parts of a table -/

namespace Table

variable {κ α β : Type} (p : κ → Bool) (f : α → β)

/-- The entries whose keys pass a test, with other values. -/
def part (t : Table κ α) : Table κ β := (t.filter fun k _ => p k).mapValues fun _ a => f a

theorem part_filter (q : κ → Bool) (t : Table κ α) :
    (t.filter fun k _ => q k).part p f = (t.part p f).filter fun k _ => q k := by
  show Table.mk (((t.entries.filter fun e => q e.1).filter fun e => p e.1).map fun e =>
    (e.1, f e.2)) = ⟨((t.entries.filter fun e => p e.1).map fun e => (e.1, f e.2)).filter fun e =>
      q e.1⟩
  rw [List.filter_map, List.filter_filter, List.filter_filter]
  congr 2
  exact List.filter_congr fun e _ => Bool.and_comm _ _

theorem part_filter_of_imp {q : κ → Bool} (h : ∀ k, p k = true → q k = true) (t : Table κ α) :
    (t.filter fun k _ => q k).part p f = t.part p f := by
  show Table.mk (((t.entries.filter fun e => q e.1).filter fun e => p e.1).map fun e =>
    (e.1, f e.2)) = ⟨(t.entries.filter fun e => p e.1).map fun e => (e.1, f e.2)⟩
  rw [List.filter_filter]
  congr 2
  refine List.filter_congr fun e _ => ?_
  cases hp : p e.1
  · rfl
  · rw [h e.1 hp]
    rfl

theorem part_mapValues {g : α → α} {g' : β → β} (h : ∀ a, f (g a) = g' (f a)) (t : Table κ α) :
    (t.mapValues fun _ a => g a).part p f = (t.part p f).mapValues fun _ b => g' b := by
  show Table.mk (((t.entries.map fun e => (e.1, g e.2)).filter fun e => p e.1).map fun e =>
    (e.1, f e.2)) = ⟨((t.entries.filter fun e => p e.1).map fun e => (e.1, f e.2)).map fun e =>
      (e.1, g' e.2)⟩
  rw [List.filter_map, List.map_map, List.map_map]
  congr 1
  exact List.map_congr_left fun e _ => Prod.ext rfl (h e.2)

variable [DecidableEq κ]

theorem get?_filter (t : Table κ α) (k : κ) :
    (t.filter fun k _ => p k).get? k = if p k then t.get? k else none :=
  find_filter p k t.entries

theorem get?_part (t : Table κ α) (k : κ) :
    (t.part p f).get? k = if p k then (t.get? k).map f else none := by
  rw [part, get?_mapValues, get?_filter]
  split <;> rfl

theorem filter_put (k : κ) (a : α) (l : List (κ × α)) :
    (put k a l).filter (fun e => p e.1) =
      if p k then put k a (l.filter fun e => p e.1) else l.filter fun e => p e.1 := by
  induction l with
  | nil => cases hp : p k <;> simp [put, hp]
  | cons e rest ih =>
    by_cases he : e.1 = k
    · subst he
      cases hp : p e.1 <;> simp [put, hp]
    · cases hp : p e.1 <;> cases hk : p k <;> simp [put, hp, hk, he, ih]

theorem map_put (k : κ) (a : α) (l : List (κ × α)) :
    (put k a l).map (fun e => (e.1, f e.2)) = put k (f a) (l.map fun e => (e.1, f e.2)) := by
  induction l with
  | nil => rfl
  | cons e rest ih => by_cases he : e.1 = k <;> simp [put, he, ih]

theorem part_set (t : Table κ α) (k : κ) (a : α) :
    (t.set k a).part p f = if p k then (t.part p f).set k (f a) else t.part p f := by
  show Table.mk (((put k a t.entries).filter fun e => p e.1).map fun e => (e.1, f e.2)) = _
  rw [filter_put]
  split
  · rw [map_put]
    rfl
  · rfl

end Table

namespace Limit

/-! ## Tickets of a view -/

/-- The users of one registry. -/
structure Users where
  registry : String
  /-- The names that they go by. -/
  names : String → Bool

/-- A view of one registry. -/
structure View extends Users where
  /-- The registries of all acquisitions, by ticket. -/
  requests : List String

namespace View

variable (v : View) {t u n : Ticket}

/-- Whether a ticket is one of an acquisition of the registry. -/
def sees (t : Ticket) : Bool := v.requests[t]? == some v.registry

/-- The number of tickets before one that are seen. -/
def count (n : Ticket) : Nat := (v.requests.take n).count v.registry

/-- The new number of a ticket. The tickets that are not seen keep out of the way. -/
def number (t : Ticket) : Ticket := if v.sees t then v.count t else v.requests.length + t

variable {v}

theorem sees_iff : v.sees t = true ↔ v.requests[t]? = some v.registry := beq_iff_eq

theorem count_succ (n : Ticket) : v.count (n + 1) = v.count n + if v.sees n then 1 else 0 := by
  rw [count, count, List.take_add_one, List.count_append, sees]
  congr 1
  cases v.requests[n]? with
  | none => rfl
  | some r => rw [Option.toList_some, List.count_singleton, Option.some_beq_some]

theorem count_mono (h : t ≤ u) : v.count t ≤ v.count u := by
  induction h with
  | refl => exact Nat.le_refl _
  | step _ ih =>
    rw [count_succ]
    exact Nat.le_trans ih (Nat.le_add_right _ _)

theorem number_of_sees (h : v.sees t = true) : v.number t = v.count t := if_pos h

theorem number_lt_of_sees (h : v.sees t = true) (hlt : t < n) : v.number t < v.count n := by
  have hsucc : v.count (t + 1) = v.count t + 1 := by rw [count_succ, if_pos h]
  have hmono : v.count (t + 1) ≤ v.count n := count_mono hlt
  rw [number_of_sees h]
  exact Nat.lt_of_succ_le (Nat.le_trans (Nat.le_of_eq hsucc.symm) hmono)

theorem number_lt_length (h : v.sees t = true) : v.number t < v.requests.length := by
  have ht : t < v.requests.length := (List.getElem?_eq_some_iff.mp (sees_iff.mp h)).1
  have hall := number_lt_of_sees h ht
  refine Nat.lt_of_lt_of_le hall ?_
  rw [count, List.take_length]
  exact List.count_le_length

theorem number_injective (v : View) : v.number.Injective := by
  intro t u h
  cases ht : v.sees t <;> cases hu : v.sees u
  · rw [number, number, ht, hu] at h
    exact Nat.add_left_cancel h
  · have hlt := number_lt_length hu
    rw [number, ht] at h
    exact absurd (h ▸ hlt) (Nat.not_lt_of_le (Nat.le_add_right _ _))
  · have hlt := number_lt_length ht
    rw [h, number, hu] at hlt
    exact absurd hlt (Nat.not_lt_of_le (Nat.le_add_right _ _))
  · rcases Nat.lt_trichotomy t u with hlt | heq | hlt
    · have := number_lt_of_sees ht hlt
      rw [h, number_of_sees hu] at this
      exact absurd this (Nat.lt_irrefl _)
    · exact heq
    · have := number_lt_of_sees hu hlt
      rw [← h, number_of_sees ht] at this
      exact absurd this (Nat.lt_irrefl _)

/-! ## Parts of a list -/

variable {α : Type} {k : α → Ticket} {p : α → α} {x : α} {l l' : List α}

/-- The entries of a list whose tickets are seen, with other numbers for these. -/
def part (v : View) (k : α → Ticket) (p : α → α) (l : List α) : List α :=
  (l.filter fun x => v.sees (k x)).map p

theorem part_append : v.part k p (l ++ l') = v.part k p l ++ v.part k p l' := by
  rw [part, List.filter_append, List.map_append]
  rfl

theorem part_of_sees (h : ∀ x ∈ l, v.sees (k x) = true) : v.part k p l = l.map p := by
  rw [part, List.filter_eq_self.mpr h]

theorem part_of_not_sees (h : ∀ x ∈ l, v.sees (k x) = false) : v.part k p l = [] := by
  rw [part, List.filter_eq_nil_iff.mpr fun x hx => by rw [h x hx]; exact Bool.false_ne_true]
  rfl

theorem part_append_of_sees (h : v.sees (k x) = true) :
    v.part k p (l ++ [x]) = v.part k p l ++ [p x] := by
  rw [part_append, part_of_sees (l := [x]) fun y hy => List.mem_singleton.mp hy ▸ h]
  rfl

theorem part_append_of_not_sees (h : v.sees (k x) = false) :
    v.part k p (l ++ [x]) = v.part k p l := by
  rw [part_append, part_of_not_sees (l := [x]) fun y hy => List.mem_singleton.mp hy ▸ h,
    List.append_nil]

/-- An entry is found in the part under the new number of its ticket. -/
theorem find?_part (hp : ∀ x, k (p x) = v.number (k x)) (ht : v.sees t = true) :
    (v.part k p l).find? (fun x => k x == v.number t) =
      (l.find? fun x => k x == t).map p := by
  rw [part, List.find?_map, List.find?_filter]
  congr 1
  refine List.find?_congr fun x _ => ?_
  rw [Bool.eq_iff_iff]
  simp only [Function.comp_apply, hp, beq_iff_eq, v.number_injective.eq_iff, decide_eq_true_eq]
  exact ⟨And.right, fun h => ⟨h ▸ ht, h⟩⟩

theorem part_eraseP_of_sees (hp : ∀ x, k (p x) = v.number (k x)) (ht : v.sees t = true) :
    v.part k p (l.eraseP fun x => k x == t) =
      (v.part k p l).eraseP fun x => k x == v.number t := by
  rw [part, part, List.eraseP_map, List.eraseP_filter]
  congr 2
  refine congrArg (List.eraseP · l) (funext fun x => ?_)
  rw [Bool.eq_iff_iff]
  simp only [Function.comp_apply, hp, beq_iff_eq, v.number_injective.eq_iff, Bool.and_eq_true]
  exact ⟨fun h => ⟨h, h ▸ ht⟩, And.left⟩

theorem part_eraseP_of_not_sees (ht : v.sees t = false) :
    v.part k p (l.eraseP fun x => k x == t) = v.part k p l := by
  induction l with
  | nil => rfl
  | cons x l ih =>
    rw [List.eraseP_cons]
    by_cases hx : k x = t
    · rw [hx, beq_self_eq_true, cond_true, part, part, List.filter_cons, hx, ht]
      rfl
    · rw [beq_false_of_ne hx, cond_false, part, part, List.filter_cons, List.filter_cons]
      rw [part, part] at ih
      split
      · rw [List.map_cons, List.map_cons, ih]
      · exact ih

theorem part_filter_of_iff {f g : α → Bool}
    (h : ∀ x, v.sees (k x) = true → f x = g (p x)) :
    v.part k p (l.filter f) = (v.part k p l).filter g := by
  rw [part, part, List.filter_map, List.filter_filter, List.filter_filter]
  refine congrArg (List.map p) (List.filter_congr fun x _ => ?_)
  cases hx : v.sees (k x)
  · rw [Bool.false_and, Bool.and_false]
  · rw [Function.comp_apply, h x hx, Bool.and_comm]

theorem part_filter {f g : α → Bool} (h : ∀ x, f x = g (p x)) :
    v.part k p (l.filter f) = (v.part k p l).filter g :=
  part_filter_of_iff fun x _ => h x

theorem part_filter_of_sees {f : α → Bool} (h : ∀ x, v.sees (k x) = true → f x = true) :
    v.part k p (l.filter f) = v.part k p l := by
  rw [part, part, List.filter_filter]
  refine congrArg (List.map p) (List.filter_congr fun x _ => ?_)
  cases hx : v.sees (k x)
  · rfl
  · rw [h x hx]
    rfl

/-! ## Lists of tickets -/

variable {ts : List Ticket}

/-- The tickets of a list that are seen, by their new numbers. -/
def pick (v : View) (ts : List Ticket) : List Ticket := v.part id v.number ts

theorem mem_pick (ht : v.sees t = true) : v.number t ∈ v.pick ts ↔ t ∈ ts := by
  rw [pick, part, List.mem_map_of_injective v.number_injective, List.mem_filter]
  exact and_iff_left ht

theorem contains_pick (ht : v.sees t = true) :
    (v.pick ts).contains (v.number t) = ts.contains t := by
  rw [Bool.eq_iff_iff, List.contains_iff_mem, List.contains_iff_mem, mem_pick ht]

theorem pick_erase (t : Ticket) (ts : List Ticket) :
    v.pick (ts.erase t) = (v.pick ts).erase (v.number t) := by
  rw [pick, part, ← List.erase_filter, List.map_erase v.number_injective]
  rfl

theorem pick_erase_of_not_sees (ht : v.sees t = false) : v.pick (ts.erase t) = v.pick ts := by
  rw [pick, part, ← List.erase_filter, List.erase_of_not_mem]
  · rfl
  · rw [List.mem_filter]
    rintro ⟨-, h⟩
    exact Bool.false_ne_true (ht.symm.trans h)

theorem pick_of_sees (h : ∀ t ∈ ts, v.sees t = true) : v.pick ts = ts.map v.number := part_of_sees h

theorem pick_of_not_sees (h : ∀ t ∈ ts, v.sees t = false) : v.pick ts = [] := part_of_not_sees h

theorem pick_cons_of_sees (ht : v.sees t = true) : v.pick (t :: ts) = v.number t :: v.pick ts := by
  show v.part id v.number ([t] ++ ts) = [v.number t] ++ v.part id v.number ts
  rw [part_append, part_of_sees fun u hu => List.mem_singleton.mp hu ▸ ht]
  rfl

theorem pick_cons_of_not_sees (ht : v.sees t = false) : v.pick (t :: ts) = v.pick ts := by
  show v.part id v.number ([t] ++ ts) = v.part id v.number ts
  rw [part_append, part_of_not_sees fun u hu => List.mem_singleton.mp hu ▸ ht, List.nil_append]

/-! ## Agendas -/

/-- An agenda on which only the tickets that are seen remain. -/
def agenda (v : View) (a : Agenda) : Agenda :=
  ⟨a.now, v.pick a.called, v.part Prod.snd (fun e => (e.1, v.number e.2)) a.alarms⟩

variable {a : Agenda}

theorem agenda_call_of_sees (ht : v.sees t = true) :
    v.agenda (a.call t) = (v.agenda a).call (v.number t) := by
  rw [Agenda.call, Agenda.call, show (v.agenda a).called = v.pick a.called from rfl,
    contains_pick ht]
  split
  · rfl
  · show Agenda.mk a.now (v.pick (a.called ++ [t])) _ = ⟨a.now, v.pick a.called ++ [v.number t], _⟩
    rw [pick, part_append_of_sees (k := id) ht]
    rfl

theorem agenda_call_of_not_sees (ht : v.sees t = false) : v.agenda (a.call t) = v.agenda a := by
  rw [Agenda.call]
  split
  · rfl
  · show Agenda.mk a.now (v.pick (a.called ++ [t])) _ = ⟨a.now, v.pick a.called, _⟩
    rw [pick, part_append_of_not_sees (k := id) ht]
    rfl

theorem agenda_callAll (a : Agenda) (ts : List Ticket) :
    v.agenda (a.callAll ts) = (v.agenda a).callAll (v.pick ts) := by
  induction ts generalizing a with
  | nil => rfl
  | cons t ts ih =>
    show v.agenda ((a.call t).callAll ts) = _
    rw [ih]
    cases ht : v.sees t
    · rw [agenda_call_of_not_sees ht, pick_cons_of_not_sees ht]
    · rw [agenda_call_of_sees ht, pick_cons_of_sees ht]
      rfl

theorem agenda_callAll_of_not_sees (h : ∀ t ∈ ts, v.sees t = false) :
    v.agenda (a.callAll ts) = v.agenda a := by
  rw [agenda_callAll, pick_of_not_sees h]
  rfl

theorem agenda_callAt_of_sees (time : Nat) (ht : v.sees t = true) :
    v.agenda (a.callAt time t) = (v.agenda a).callAt time (v.number t) := by
  have hmem : (time, v.number t) ∈ (v.agenda a).alarms ↔ (time, t) ∈ a.alarms := by
    show _ ∈ v.part _ _ _ ↔ _
    rw [part, List.mem_map]
    constructor
    · rintro ⟨⟨time', u⟩, hu, he⟩
      obtain ⟨rfl, hnumber⟩ := Prod.mk.inj he
      exact v.number_injective hnumber ▸ List.mem_of_mem_filter hu
    · exact fun h => ⟨_, List.mem_filter.mpr ⟨h, ht⟩, rfl⟩
  rw [Agenda.callAt, Agenda.callAt]
  simp only [List.contains_iff_mem, hmem]
  split
  · rfl
  · show Agenda.mk a.now _ (v.part _ _ (a.alarms ++ [(time, t)])) =
      ⟨a.now, _, v.part _ _ a.alarms ++ [(time, v.number t)]⟩
    rw [part_append_of_sees (k := Prod.snd) (x := (time, t)) ht]
    rfl

theorem agenda_callAt_of_not_sees (time : Nat) (ht : v.sees t = false) :
    v.agenda (a.callAt time t) = v.agenda a := by
  rw [Agenda.callAt]
  split
  · rfl
  · show Agenda.mk a.now _ (v.part _ _ (a.alarms ++ [(time, t)])) = ⟨a.now, _, _⟩
    rw [part_append_of_not_sees (k := Prod.snd) (x := (time, t)) ht]

theorem agenda_take (a : Agenda) (t : Ticket) :
    v.agenda (a.take t) = (v.agenda a).take (v.number t) := by
  show Agenda.mk a.now (v.pick (a.called.erase t)) _ = ⟨a.now, (v.pick a.called).erase _, _⟩
  rw [pick_erase]
  rfl

theorem agenda_take_of_not_sees (ht : v.sees t = false) : v.agenda (a.take t) = v.agenda a := by
  show Agenda.mk a.now (v.pick (a.called.erase t)) _ = ⟨a.now, v.pick a.called, _⟩
  rw [pick_erase_of_not_sees ht]
  rfl

theorem agenda_dismiss (a : Agenda) (t : Ticket) :
    v.agenda (a.dismiss t) = (v.agenda a).dismiss (v.number t) := by
  show Agenda.mk a.now (v.pick (a.called.erase t)) (v.part _ _ (a.alarms.filter _)) =
    ⟨a.now, (v.pick a.called).erase _, (v.part _ _ a.alarms).filter _⟩
  rw [pick_erase, part_filter (g := fun e : Nat × Ticket => e.2 ≠ v.number t)]
  exact fun e => decide_eq_decide.mpr (not_congr v.number_injective.eq_iff.symm)

theorem agenda_dismiss_of_not_sees (ht : v.sees t = false) :
    v.agenda (a.dismiss t) = v.agenda a := by
  show Agenda.mk a.now (v.pick (a.called.erase t)) (v.part _ _ (a.alarms.filter _)) =
    ⟨a.now, v.pick a.called, v.part _ _ a.alarms⟩
  rw [pick_erase_of_not_sees ht, part_filter_of_sees]
  intro e he
  refine decide_eq_true fun h => ?_
  rw [h, ht] at he
  cases he

/-- The tickets that are called at a moment. -/
theorem due_agenda (a : Agenda) (moment : Nat) :
    (v.agenda a).due moment = v.pick (a.due moment) := by
  show ((v.part _ _ a.alarms).filter _).map _ = v.part id _ ((a.alarms.filter _).map _)
  rw [← part_filter (f := fun e : Nat × Ticket => e.1 ≤ moment) fun _ => rfl, part, part,
    List.filter_map, List.map_map, List.map_map]
  rfl

theorem agenda_sleepUntil (a : Agenda) (moment : Nat) :
    v.agenda (a.sleepUntil moment) = (v.agenda a).sleepUntil moment := by
  rw [Agenda.sleepUntil, Agenda.sleepUntil, agenda_callAll, due_agenda]
  congr 1
  exact congrArg (Agenda.mk (max a.now moment) (v.pick a.called)) (part_filter fun _ => rfl)

end View

end Limit

end TagWatch
