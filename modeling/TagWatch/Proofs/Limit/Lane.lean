import TagWatch.Proofs.Limit.Gate
import TagWatch.Proofs.Limit.Moves

/-!
# What happens in a lane

The moves of a lane carry its tickets from place to place: from the line to the seats, from there
to the window lock, and out. `Lane.tickets` lists the tickets that wait in a lane, and
`Lane.inside` those of them that hold a slot while they wait. Every move keeps these lists up to
their order, except that a ticket may come (`ask`), give up (`cancel`) or be granted (`grantAt`).
-/

namespace TagWatch.Limit

namespace Lane

variable {l l' : Lane} {t u : Ticket} {now : Nat}

/-- The ticket at the window lock, if any. -/
def admitted (l : Lane) : List Ticket := (l.admitting.map (·.ticket)).toList

/-- The tickets that hold a slot of a lane while they wait. -/
def inside (l : Lane) : List Ticket := l.seated ++ l.admitted

/-- All tickets that wait in a lane. -/
def tickets (l : Lane) : List Ticket := l.slots.line ++ l.inside

theorem admitted_of_admitting {a : Admission} (h : l.admitting = some a) :
    l.admitted = [a.ticket] := by
  rw [admitted, h]
  rfl

theorem mem_admitted_iff : t ∈ l.admitted ↔ ∃ a, l.admitting = some a ∧ a.ticket = t := by
  rw [admitted, Option.mem_toList, Option.map_eq_some_iff]

theorem isAdmitting_iff : l.isAdmitting t = true ↔ t ∈ l.admitted := by
  rw [mem_admitted_iff, isAdmitting]
  cases l.admitting <;> simp

theorem isAt_iff {stage : Stage} :
    l.isAt t stage = true ↔ ∃ waited, l.admitting = some ⟨t, stage, waited⟩ := by
  rw [isAt]
  cases l.admitting with
  | none => exact iff_of_false Bool.false_ne_true fun ⟨_, h⟩ => by cases h
  | some a =>
    obtain ⟨u, stage', waited⟩ := a
    rw [Option.any_some, Bool.and_eq_true, beq_iff_eq, beq_iff_eq]
    constructor
    · rintro ⟨rfl, rfl⟩
      exact ⟨waited, rfl⟩
    · rintro ⟨waited', h⟩
      cases h
      exact ⟨rfl, rfl⟩

theorem holds_iff : l.holds t = true ↔ t ∈ l.tickets := by
  rw [holds, Bool.or_eq_true, Bool.or_eq_true, isAdmitting_iff, List.contains_iff_mem,
    List.contains_iff_mem, tickets, inside, List.mem_append, List.mem_append, or_assoc]

theorem tickets_ask : (l.ask t).tickets.Perm (t :: l.tickets) := by
  show ((l.slots.line ++ [t]) ++ l.inside).Perm (t :: (l.slots.line ++ l.inside))
  rw [List.append_assoc]
  exact List.perm_middle

theorem seat_of_admits (h : l.slots.admits t = true) :
    l.seat t = { l with slots := ⟨l.slots.free - 1, l.slots.line.erase t⟩
                        seated := l.seated ++ [t] } := by
  rw [seat, if_pos h, Gate.pass_of_admits h]

/-- Taking a slot moves a ticket from the line to the seats. -/
theorem tickets_seat : (l.seat t).tickets.Perm l.tickets := by
  by_cases h : l.slots.admits t = true
  · have hline := List.perm_cons_erase (Gate.mem_line_of_admits h)
    rw [seat_of_admits h]
    show (l.slots.line.erase t ++ ((l.seated ++ [t]) ++ l.admitted)).Perm
      (l.slots.line ++ (l.seated ++ l.admitted))
    refine List.Perm.trans ?_ (hline.symm.append_right _)
    rw [List.append_assoc, ← List.append_assoc, List.singleton_append, List.cons_append,
      ← List.append_assoc]
    exact List.perm_middle
  · rw [seat, if_neg h]

theorem enter_cases (l : Lane) (t : Ticket) :
    l.enter t = l ∨ ∃ rest, l.admitting = none ∧ l.seated = t :: rest ∧
      l.enter t = { l with seated := rest, admitting := some ⟨t, .looking, 0⟩ } := by
  unfold enter
  split
  · next first rest hadm hseat =>
    split
    · next h => exact .inr ⟨rest, hadm, h ▸ hseat, rfl⟩
    · exact .inl rfl
  · exact .inl rfl

theorem inside_enter : (l.enter t).inside.Perm l.inside := by
  rcases enter_cases l t with h | ⟨rest, hadm, hseat, h⟩
  · rw [h]
  · rw [h, inside, inside, hseat, show l.admitted = [] by rw [admitted, hadm]; rfl]
    show (rest ++ [t]).Perm (t :: rest ++ [])
    rw [List.append_nil]
    exact List.perm_append_singleton t rest

theorem slots_enter : (l.enter t).slots = l.slots := by
  rcases enter_cases l t with h | ⟨_, _, _, h⟩ <;> rw [h]

theorem wake_cases (l : Lane) (now : Nat) (t : Ticket) :
    l.wake now t = l ∨ ∃ wakeAt waited, l.admitting = some ⟨t, .asleep wakeAt, waited⟩ ∧
      wakeAt ≤ now ∧ l.wake now t = { l with admitting := some ⟨t, .looking, waited⟩ } := by
  unfold wake
  split
  · next u wakeAt waited hadm =>
    split
    · next h =>
      obtain ⟨rfl, hle⟩ := h
      exact .inr ⟨wakeAt, waited, hadm, hle, rfl⟩
    · exact .inl rfl
  · exact .inl rfl

/-- What a look at the window does to the ticket that stands at it. -/
theorem look_cases (l : Lane) (now : Nat) :
    l.look now = l ∨
      (∃ t waited, l.admitting = some ⟨t, .looking, waited⟩ ∧
        (prune now l.recent).length < room l.rate ∧
        l.look now =
          { l with recent := prune now l.recent, admitting := some ⟨t, .pooled, waited⟩ }) ∨
      ∃ t waited oldest rest, l.admitting = some ⟨t, .looking, waited⟩ ∧
        ¬ (prune now l.recent).length < room l.rate ∧ prune now l.recent = oldest :: rest ∧
        l.look now =
          { l with
            recent := oldest :: rest
            admitting := some ⟨t, .asleep (oldest + window), waited + (oldest + window - now)⟩
            waitCount := if waited = 0 then l.waitCount + 1 else l.waitCount } := by
  unfold look
  split
  · next t waited hadm =>
    dsimp only
    split
    · next h => exact .inr (.inl ⟨t, waited, hadm, h, rfl⟩)
    · next h =>
      split
      · next hnil =>
        -- an empty window has room
        rw [hnil] at h
        exact absurd (Nat.le_max_left 1 l.rate.requestsPerMinute) h
      · next oldest rest hcons =>
        refine .inr (.inr ⟨t, waited, oldest, rest, hadm, h, hcons, ?_⟩)
        rw [hcons]
  · exact .inl rfl

theorem admitted_wake : (l.wake now t).admitted = l.admitted := by
  rcases wake_cases l now t with h | ⟨_, _, hadm, _, h⟩
  · rw [h]
  · rw [h, admitted, admitted, hadm]
    rfl

theorem admitted_look : (l.look now).admitted = l.admitted := by
  rcases look_cases l now with h | ⟨_, _, hadm, _, h⟩ | ⟨_, _, _, _, hadm, _, _, h⟩
  · rw [h]
  · rw [h, admitted, admitted, hadm]
    rfl
  · rw [h, admitted, admitted, hadm]
    rfl

theorem inside_wake : (l.wake now t).inside = l.inside := by
  have hseat : (l.wake now t).seated = l.seated := by
    rcases wake_cases l now t with h | ⟨_, _, _, _, h⟩ <;> rw [h]
  rw [inside, inside, admitted_wake, hseat]

theorem slots_wake : (l.wake now t).slots = l.slots := by
  rcases wake_cases l now t with h | ⟨_, _, _, _, h⟩ <;> rw [h]

theorem inside_look : (l.look now).inside = l.inside := by
  have hseat : (l.look now).seated = l.seated := by
    rcases look_cases l now with h | ⟨_, _, _, _, h⟩ | ⟨_, _, _, _, _, _, _, h⟩ <;> rw [h]
  rw [inside, inside, admitted_look, hseat]

theorem slots_look : (l.look now).slots = l.slots := by
  rcases look_cases l now with h | ⟨_, _, _, _, h⟩ | ⟨_, _, _, _, _, _, _, h⟩ <;> rw [h]

theorem erase_admitted (l : Lane) (t : Ticket) :
    l.admitted.erase t = if l.isAdmitting t then [] else l.admitted := by
  rw [admitted, isAdmitting]
  cases l.admitting with
  | none => rfl
  | some a =>
    by_cases h : a.ticket = t
    · simp [h]
    · simp [h]

/-- A ticket that gives up is taken out of the lane, wherever it waits. -/
theorem tickets_cancel (l : Lane) (t : Ticket) : (l.cancel t).tickets = l.tickets.erase t := by
  have herase : l.tickets.erase t =
      if t ∈ l.slots.line then l.slots.line.erase t ++ l.inside
      else l.slots.line ++ if t ∈ l.seated then l.seated.erase t ++ l.admitted
        else l.seated ++ if l.isAdmitting t then [] else l.admitted := by
    rw [tickets, inside, List.erase_append, List.erase_append, erase_admitted]
  rw [herase, cancel]
  simp only [List.contains_iff_mem]
  split
  · rfl
  · split
    · rfl
    · split <;> rfl

/-- A slot that a ticket holds becomes free when it gives up. -/
theorem free_cancel (hn : l.tickets.Nodup) (t : Ticket) :
    (l.cancel t).slots.free = l.slots.free + l.inside.count t := by
  rw [tickets, List.nodup_append] at hn
  obtain ⟨-, hinside, hdisj⟩ := hn
  rw [cancel]
  simp only [List.contains_iff_mem]
  split
  · next h => rw [List.count_eq_zero.mpr fun hi => hdisj t h t hi rfl]; rfl
  · split
    · next h =>
      rw [hinside.count, if_pos (show t ∈ l.inside from List.mem_append_left _ h)]
      rfl
    · next hs =>
      split
      · next h =>
        have hmem : t ∈ l.inside := List.mem_append_right _ (isAdmitting_iff.mp h)
        rw [hinside.count, if_pos hmem]
        rfl
      · next h =>
        rw [List.count_eq_zero.mpr]
        · rfl
        · rw [inside, List.mem_append, ← isAdmitting_iff]
          exact not_or.mpr ⟨hs, h⟩

/-- Nobody comes to wait in a lane by a move inside it. -/
theorem count_tickets_le (h : LaneMove now l l') (t : Ticket) :
    l'.tickets.count t ≤ l.tickets.count t := by
  cases h with
  | stay => exact Nat.le_refl _
  | seat u => exact Nat.le_of_eq (tickets_seat.count_eq t)
  | enter u =>
    rw [tickets, tickets, slots_enter]
    exact Nat.le_of_eq ((inside_enter.append_left _).count_eq t)
  | wake u => exact Nat.le_of_eq (by rw [tickets, tickets, slots_wake, inside_wake])
  | look => exact Nat.le_of_eq (by rw [tickets, tickets, slots_look, inside_look])
  | cancel u => rw [tickets_cancel]; exact List.erase_sublist.count_le t
  | reset => exact Nat.le_refl _

theorem mem_tickets_of_laneMove (h : LaneMove now l l') (ht : t ∈ l'.tickets) : t ∈ l.tickets :=
  List.count_pos_iff.mp (Nat.lt_of_lt_of_le (List.count_pos_iff.mpr ht) (count_tickets_le h t))

/-- The ticket that is granted leaves the lane. -/
theorem tickets_grantAt {a : Admission} (h : l.admitting = some a) :
    l.tickets.Perm (a.ticket :: (l.grantAt now).tickets) := by
  rw [tickets, inside, admitted_of_admitting h]
  show (l.slots.line ++ (l.seated ++ [a.ticket])).Perm
    (a.ticket :: (l.slots.line ++ (l.seated ++ [])))
  rw [List.append_nil, ← List.append_assoc]
  exact List.perm_append_singleton _ _

end Lane

end TagWatch.Limit
