import Mathlib.Data.List.Perm.Subperm
import TagWatch.Proofs.Limit.Cancel

/-!
# Numbered acquisitions

When the tickets are the numbers of the acquisitions in the order in which they were requested, the
agenda never speaks of a number that has not been given out yet, and calls nobody twice
(`Limiter.Numbered`). So there are no more calls than acquisitions.

Whoever is called, or sets an alarm, waits in a lane or was on the agenda before. There is one lemma
for every change of a limiter; that of a move is `Numbered.of_move` together with what the move does
to the agenda.
-/

namespace TagWatch.Limit

namespace Agenda

variable {a : Agenda} {t : Ticket} {ts : List Ticket}

theorem nodup_called_callAll (h : a.called.Nodup) (ts : List Ticket) :
    (a.callAll ts).called.Nodup := by
  induction ts generalizing a with
  | nil => exact h
  | cons t ts ih =>
    show ((a.call t).callAll ts).called.Nodup
    refine ih ?_
    rw [call]
    split
    · exact h
    · next hnot =>
      refine List.nodup_append.mpr ⟨h, List.pairwise_singleton _ t, fun u hu v hv huv => ?_⟩
      rw [List.mem_singleton.mp hv] at huv
      exact hnot (List.contains_iff_mem.mpr (huv ▸ hu))

/-- An agenda speaks only of tickets before a number, and calls none of them twice. -/
structure Below (a : Agenda) (n : Ticket) : Prop where
  once : a.called.Nodup
  called : ∀ t ∈ a.called, t < n
  alarms : ∀ e ∈ a.alarms, e.2 < n

variable {n n' : Ticket}

theorem Below.mono (h : a.Below n) (hn : n ≤ n') : a.Below n' :=
  ⟨h.once, fun t ht => Nat.lt_of_lt_of_le (h.called t ht) hn,
    fun e he => Nat.lt_of_lt_of_le (h.alarms e he) hn⟩

theorem Below.callAll (h : a.Below n) (hts : ∀ t ∈ ts, t < n) : (a.callAll ts).Below n := by
  refine ⟨nodup_called_callAll h.once ts, fun t ht => ?_, ?_⟩
  · exact (mem_called_callAll.mp ht).elim (h.called t) (hts t)
  · rw [alarms_callAll]
    exact h.alarms

theorem Below.call (h : a.Below n) (ht : t < n) : (a.call t).Below n :=
  h.callAll fun _ hu => List.mem_singleton.mp hu ▸ ht

theorem Below.callAt (h : a.Below n) (time : Nat) (ht : t < n) : (a.callAt time t).Below n := by
  refine ⟨?_, fun u hu => ?_, fun e he => ?_⟩
  · rw [called_callAt]
    exact h.once
  · rw [called_callAt] at hu
    exact h.called u hu
  · rcases mem_alarms_callAt.mp he with he | rfl
    · exact h.alarms e he
    · exact ht

theorem Below.take (h : a.Below n) (t : Ticket) : (a.take t).Below n :=
  ⟨h.once.erase t, fun u hu => h.called u (List.mem_of_mem_erase hu), h.alarms⟩

theorem Below.dismiss (h : a.Below n) (t : Ticket) : (a.dismiss t).Below n :=
  ⟨h.once.erase t, fun u hu => h.called u (List.mem_of_mem_erase hu),
    fun e he => h.alarms e (List.mem_of_mem_filter he)⟩

theorem Below.sleepUntil (h : a.Below n) (time : Nat) : (a.sleepUntil time).Below n := by
  rw [Agenda.sleepUntil]
  refine Below.callAll ⟨h.once, h.called, fun e he => h.alarms e (List.mem_of_mem_filter he)⟩ ?_
  intro t ht
  obtain ⟨time', hmem, -⟩ := mem_due_iff.mp ht
  exact h.alarms _ hmem

/-- Different tickets below a number are no more than that number. -/
theorem length_le_of_nodup (hn : ts.Nodup) (h : ∀ t ∈ ts, t < n) : ts.length ≤ n := by
  have hsub : ts ⊆ List.range n := fun t ht => List.mem_range.mpr (h t ht)
  have hle := (List.subperm_of_subset hn hsub).length_le
  rwa [List.length_range] at hle

end Agenda

/-- The heirs of a ticket wait in its lane. -/
theorem Lane.mem_tickets_of_mem_heirs {l : Lane} {t u : Ticket} (h : u ∈ l.heirs t) :
    u ∈ l.tickets := by
  have hline (hu : u ∈ l.slots.line) : u ∈ l.tickets := List.mem_append_left _ hu
  have hnext (hu : l.slots.next? = some u) : u ∈ l.tickets := hline (List.mem_of_getElem? hu)
  have hseat (hu : u ∈ l.seated) : u ∈ l.tickets :=
    List.mem_append_right _ (List.mem_append_left _ hu)
  by_cases hwaits : t ∈ l.slots.line
  · rw [heirs, if_pos (List.contains_iff_mem.mpr hwaits), Option.mem_toList, Gate.successor?] at h
    split at h
    · exact hnext h
    · cases h
  · by_cases hseated : t ∈ l.seated
    · rcases (mem_heirs_of_seated hwaits hseated).mp h with ⟨rest, -, hcons⟩ | h
      · refine hseat ?_
        rw [hcons]
        exact List.mem_cons_of_mem _ List.mem_cons_self
      · exact hnext h
    · rw [heirs, if_neg (mt List.contains_iff_mem.mp hwaits),
        if_neg (mt List.contains_iff_mem.mp hseated)] at h
      split at h
      · rcases List.mem_append.mp h with h | h
        · exact hseat (List.mem_of_mem_head? (Option.mem_toList.mp h))
        · exact hnext (Option.mem_toList.mp h)
      · cases h

namespace Limiter

variable {s s' : Limiter} {m : Move} {t u n : Ticket} {r : String}

/-- The tickets in use are below a number, and so is the agenda. -/
structure Numbered (s : Limiter) (n : Ticket) : Prop where
  unused : ∀ t, n ≤ t → s.Unused t
  below : s.agenda.Below n

theorem numbered_fresh (rates : Rates) (globalConcurrency : Nat) :
    (fresh rates globalConcurrency).Numbered 0 where
  unused t _ := ⟨idle_fresh rates globalConcurrency t, List.not_mem_nil⟩
  below := ⟨List.nodup_nil, fun _ h => absurd h List.not_mem_nil,
    fun _ h => absurd h List.not_mem_nil⟩

theorem Numbered.lt_of_mem_tickets (h : s.Numbered n) (ht : t ∈ (s.lane r).tickets) : t < n :=
  Nat.lt_of_not_le fun hle => (h.unused t hle).1 r ht

theorem Numbered.lt_of_mem_line (h : s.Numbered n) (hl : s.Lined) (ht : t ∈ s.pool.line) :
    t < n := by
  obtain ⟨r, waited, hadm⟩ := (hl.mem_iff t).mp ht
  exact h.lt_of_mem_tickets (Lane.mem_tickets_of_admitting hadm)

theorem Numbered.granted_lt (h : s.Numbered n) (ht : t ∈ s.granted) : t < n :=
  Nat.lt_of_not_le fun hle => (h.unused t hle).2 ht

/-- A move in which nobody asks keeps the numbers if the agenda does. -/
theorem Numbered.of_move (h : s.Numbered n) (m : Move) (hm : m.asked? = none)
    (hb : (s.move m).agenda.Below n) : (s.move m).Numbered n :=
  ⟨fun t ht => (h.unused t ht).move (by rw [hm]; exact (Option.some_ne_none t).symm), hb⟩

theorem Numbered.ask (h : s.Numbered n) (registry : String) :
    (s.ask n registry).Numbered (n + 1) := by
  refine ⟨fun t ht => (h.unused t (Nat.le_of_succ_le ht)).move (m := .ask n registry) ?_,
    h.below.mono (Nat.le_succ n)⟩
  exact fun he => Nat.ne_of_lt ht (Option.some.inj he)

theorem Numbered.onAgenda (h : s.Numbered n) (f : Agenda → Agenda) (hb : (f s.agenda).Below n) :
    (s.onAgenda f).Numbered n :=
  ⟨h.unused, hb⟩

theorem Numbered.look (h : s.Numbered n) (t : Ticket) (r : String) : (s.look t r).Numbered n := by
  refine h.of_move (.look t r) rfl ?_
  show (s.look t r).agenda.Below n
  rcases look_cases s t r with ⟨he, -⟩ | ⟨waited, hadm, ⟨-, he⟩ | ⟨wakeAt, w, -, -, -, he⟩⟩
  · rw [he]
    exact h.below
  · rw [he]
    exact h.below
  · rw [he]
    exact h.below.callAt wakeAt (h.lt_of_mem_tickets (Lane.mem_tickets_of_admitting hadm))

theorem Numbered.grant (h : s.Numbered n) (t : Ticket) (r : String) :
    (s.grant t r).Numbered n := by
  refine h.of_move (.grant t r) rfl ?_
  show (s.grant t r).agenda.Below n
  rcases grant_spec s t r with ⟨he, -⟩ | ⟨waited, hg⟩
  · rw [he]
    exact h.below
  · rw [hg.agenda]
    refine h.below.callAll fun u hu => h.lt_of_mem_tickets (r := r) ?_
    have hseat : u ∈ (s.lane r).seated := List.mem_of_mem_head? (Option.mem_toList.mp hu)
    exact List.mem_append_right _ (List.mem_append_left _ hseat)

theorem Numbered.release (h : s.Numbered n) (hl : s.Lined) (t : Ticket) :
    (s.release t).Numbered n := by
  refine h.of_move (.release t) rfl ?_
  show (s.release t).agenda.Below n
  rw [Limiter.release]
  split
  · next u r _ =>
    refine h.below.callAll fun v hv => ?_
    rcases List.mem_append.mp hv with hv | hv
    · have hline := List.mem_of_getElem? (Option.mem_toList.mp hv)
      exact h.lt_of_mem_tickets (r := r) (List.mem_append_left _ hline)
    · exact h.lt_of_mem_line hl (List.mem_of_getElem? (Option.mem_toList.mp hv))
  · exact h.below

theorem Numbered.abandon (h : s.Numbered n) (hl : s.Lined) (t : Ticket) :
    (s.abandon t).Numbered n := by
  refine h.of_move (.abandon t) rfl ?_
  show (s.abandon t).agenda.Below n
  rw [Limiter.abandon]
  split
  · next r _ =>
    rw [agenda_withdraw]
    refine (h.below.dismiss t).callAll fun u hu => ?_
    rcases List.mem_append.mp hu with hu | hu
    · rw [Option.mem_toList, Gate.successor?] at hu
      split at hu
      · exact h.lt_of_mem_line hl (List.mem_of_getElem? hu)
      · cases hu
    · exact h.lt_of_mem_tickets (Lane.mem_tickets_of_mem_heirs hu)
  · exact (h.release hl t).below.dismiss t

end Limiter

end TagWatch.Limit
