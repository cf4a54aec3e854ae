import TagWatch.Limit.Gate

/-!
# Who may pass a gate

The tickets that may pass are those at the front of the line, as many as slots are free. A ticket
that passes takes its slot along, so that nobody else may pass because of it or any less
(`admits_of_admits_pass`); a slot that is given back lets exactly the first ticket pass that could
not pass before (`admits_restore_iff`).
-/

namespace TagWatch.Limit.Gate

variable {g : Gate} {t u : Ticket}

theorem admits_iff : g.admits t = true ↔ t ∈ g.line.take g.free := by
  rw [admits, List.contains_iff_mem]

theorem mem_line_of_admits (h : g.admits t = true) : t ∈ g.line :=
  List.mem_of_mem_take (admits_iff.mp h)

theorem free_pos_of_admits (h : g.admits t = true) : 0 < g.free := by
  rw [admits_iff] at h
  exact Nat.pos_of_ne_zero fun h0 => by rw [h0] at h; cases h

/-- As long as a slot is free, the head of the line may pass. -/
theorem admits_head (h : g.line.head? = some t) (hf : 0 < g.free) : g.admits t = true := by
  obtain ⟨free, line⟩ := g
  obtain ⟨rest, rfl⟩ := List.head?_eq_some_iff.mp h
  obtain ⟨n, rfl⟩ := Nat.exists_eq_succ_of_ne_zero (Nat.ne_of_gt hf)
  rw [admits_iff]
  exact List.mem_cons_self

theorem pass_of_admits (h : g.admits t = true) : g.pass t = ⟨g.free - 1, g.line.erase t⟩ :=
  if_pos h

/-- The tickets that may pass after one of them has passed. -/
theorem take_pass (h : g.admits t = true) :
    (g.pass t).line.take (g.pass t).free = (g.line.take g.free).erase t := by
  rw [pass_of_admits h, admits_iff] at *
  have hlen : (g.line.take g.free).length ≤ g.free := List.length_take_le _ _
  show (g.line.erase t).take (g.free - 1) = _
  conv => lhs; rw [← List.take_append_drop g.free g.line, List.erase_append_left _ h]
  have herase := List.length_erase_of_mem h
  by_cases hle : g.free ≤ g.line.length
  · rw [List.take_append_of_le_length, List.take_of_length_le]
    · rw [herase, List.length_take]; omega
    · rw [herase, List.length_take]; omega
  · rw [List.drop_of_length_le (by omega), List.append_nil, List.take_of_length_le]
    rw [herase]; omega

/-- Whoever may pass after another ticket has passed could have passed before. -/
theorem admits_of_admits_pass (hu : (g.pass t).admits u = true) : g.admits u = true := by
  by_cases h : g.admits t = true
  · rw [admits_iff, take_pass h] at hu
    exact admits_iff.mpr (List.mem_of_mem_erase hu)
  · rwa [pass, if_neg h] at hu

/-- A ticket that has passed may not pass again. -/
theorem not_admits_pass (hn : g.line.Nodup) : ¬ (g.pass t).admits t = true := by
  intro h
  by_cases ht : g.admits t = true
  · rw [admits_iff, take_pass ht] at h
    exact (hn.sublist (List.take_sublist _ _)).not_mem_erase h
  · rw [pass, if_neg ht] at h
    exact ht h

/-- Joining the line changes nothing for the others. -/
theorem admits_of_admits_join (hne : u ≠ t) (h : (g.join t).admits u = true) :
    g.admits u = true := by
  rw [admits_iff] at *
  change u ∈ (g.line ++ [t]).take g.free at h
  rw [List.take_append, List.mem_append] at h
  rcases h with h | h
  · exact h
  · exact absurd (List.mem_singleton.mp (List.mem_of_mem_take h)) hne

/-- A slot that is given back lets the first ticket pass that could not pass before. -/
theorem admits_restore_iff :
    g.restore.admits u = true ↔ g.admits u = true ∨ g.next? = some u := by
  rw [admits_iff, admits_iff]
  show u ∈ g.line.take (g.free + 1) ↔ _ ∨ g.line[g.free]? = some u
  rw [List.take_add_one, List.mem_append, Option.mem_toList]

end TagWatch.Limit.Gate
