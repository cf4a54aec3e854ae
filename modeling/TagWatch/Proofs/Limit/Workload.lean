import Mathlib.Data.List.Induction
import TagWatch.Limit.Workload
import TagWatch.Proofs.Limit.Moves

/-!
# Workloads make runs

A workload decides who gets a turn when, and so picks one of the runs of its limiter.

**Theorem (`Workload.exists_run`).** Whatever the users of a workload do, its limiter has made a
run in which the acquisitions have the tickets `0`, `1`, `2` and so on.

Everything but a new acquisition `Continues` the run without asking for anything, turn by turn and
moment by moment; `acquire` and `spawn` first let the next ticket join a line.
-/

namespace TagWatch.Limit.Workload

open Limiter (Leads)

/-- What a user of a workload can do. -/
inductive Operation where
  | acquire (registry name : String) (timeout : Nat)
  | spawn (registry name : String) (hold : Hold)
  | release (name : String)
  | abort (name : String)
  | advance (ms : Nat)
  | resetMetrics

/-- The workload after an operation. -/
def perform (w : Workload) : Operation → Workload
  | .acquire registry name timeout => (w.acquire registry name timeout).1
  | .spawn registry name hold => w.spawn registry name hold
  | .release name => (w.release name).1
  | .abort name => w.abort name
  | .advance ms => w.advance ms
  | .resetMetrics => w.onLimiter (·.resetMetrics)

/-- A workload comes from another one while nobody asks for anything new. -/
structure Continues (w w' : Workload) : Prop where
  leads : Leads w.limiter w'.limiter
  nextTicket : w'.nextTicket = w.nextTicket

theorem Continues.refl (w : Workload) : Continues w w := ⟨.refl _, rfl⟩

theorem Continues.trans {w w' w'' : Workload} (h : Continues w w') (h' : Continues w' w'') :
    Continues w w'' :=
  ⟨h.leads.trans h'.leads, h'.nextTicket.trans h.nextTicket⟩

theorem continues_turn (w : Workload) (t : Ticket) : Continues w (w.turn t) := by
  have h : Continues w (w.onLimiter (·.turn t)) := ⟨w.limiter.leads_turn t, rfl⟩
  rw [turn]
  split
  · split
    · exact h.trans ⟨Limiter.leads_release _ t, rfl⟩
    · exact h.trans ⟨Limiter.leads_callAt _ _ t, rfl⟩
  · exact h

theorem continues_takeTurns (awaited : Option Ticket) (fuel : Nat) (w : Workload) :
    Continues w (takeTurns awaited fuel w) := by
  induction fuel generalizing w with
  | zero => exact .refl _
  | succ fuel ih =>
    rw [takeTurns]
    split
    · exact .refl _
    · split
      · exact (continues_turn w _).trans (ih _)
      · exact .refl _

theorem continues_settle (w : Workload) (awaited : Option Ticket) :
    Continues w (w.settle awaited) :=
  continues_takeTurns awaited _ w

theorem continues_turnOf (w : Workload) (awaited : Option Ticket) :
    Continues w (w.turnOf awaited) := by
  unfold turnOf
  split
  · split
    · exact continues_turn w _
    · exact .refl _
  · exact .refl _

theorem continues_sleepUntil (w : Workload) (awaited : Option Ticket) (time : Nat) :
    Continues w (w.sleepUntil awaited time) := by
  have h : Continues w (w.onLimiter (·.sleepUntil time)) :=
    ⟨w.limiter.leads_sleepUntil time, rfl⟩
  exact (h.trans (continues_turnOf _ awaited)).trans (continues_settle _ awaited)

theorem continues_passUntil (awaited : Option Ticket) (w : Workload) (time target : Nat) :
    Continues w (passUntil awaited w time target) := by
  fun_induction passUntil awaited w time target with
  | case1 => exact .refl _
  | case2 w time _ _ _ _ ih => exact (continues_sleepUntil w awaited _).trans ih
  | case3 => exact continues_sleepUntil _ awaited _
  | case4 => exact continues_sleepUntil _ awaited _

theorem continues_keep (w : Workload) (name : String) (t : Ticket) :
    Continues w (w.keep name t) := by
  rw [keep]
  split
  · exact ⟨Limiter.leads_release _ _, rfl⟩
  · exact ⟨.refl _, rfl⟩

/-- The workload in which the next ticket has just joined the line of a registry. -/
def joined (w : Workload) (registry : String) : Workload :=
  { w with nextTicket := w.nextTicket + 1, limiter := w.limiter.ask w.nextTicket registry }

/-- What a workload does after an `ask`, as a run. -/
theorem exists_run_of_joined {w w' : Workload} {registry : String}
    (h : Continues (w.joined registry) w') :
    ∃ moves, w'.limiter = w.limiter.run moves ∧ asked moves = [w.nextTicket] ∧
      w'.nextTicket = w.nextTicket + 1 := by
  obtain ⟨⟨moves, hrun, hasked⟩, hnext⟩ := h
  refine ⟨.ask w.nextTicket registry :: moves, hrun, ?_, hnext⟩
  show w.nextTicket :: asked moves = _
  rw [hasked]

theorem continues_acquire (w : Workload) (registry name : String) (timeout : Nat) :
    Continues (w.joined registry) (w.acquire registry name timeout).1 := by
  have hwait (time target : Nat) : Continues (w.joined registry)
      (((w.joined registry).turn w.nextTicket).passUntil (some w.nextTicket) time target) :=
    (continues_turn _ _).trans (continues_passUntil _ _ _ _)
  rw [acquire]
  split
  · exact ((hwait _ _).trans (continues_keep _ name w.nextTicket)).trans (continues_settle _ none)
  · have habandon (w' : Workload) : Continues w' (w'.onLimiter (·.abandon w.nextTicket)) :=
      ⟨Limiter.leads_abandon _ _, rfl⟩
    exact ((hwait _ _).trans (habandon _)).trans (continues_settle _ none)

/-- The workload in which the next ticket is one of a task that is about to take its first turn. -/
def spawned (w : Workload) (registry name : String) (hold : Hold) : Workload :=
  { w.joined registry with
    limiter := (w.joined registry).limiter.call w.nextTicket
    tasks := w.tasks ++ [⟨w.nextTicket, hold, false, false⟩]
    names := w.names.set name w.nextTicket }

theorem continues_spawn (w : Workload) (registry name : String) (hold : Hold) :
    Continues (w.joined registry) (w.spawn registry name hold) := by
  have h : Continues (w.joined registry) (w.spawned registry name hold) :=
    ⟨Limiter.leads_call _ _, rfl⟩
  exact h.trans (continues_settle _ none)

theorem continues_release (w : Workload) (name : String) : Continues w (w.release name).1 := by
  rw [release]
  split
  · next t _ =>
    have h : Continues w ({ w with permits := w.permits.filter fun name' _ => name' ≠ name }
        |>.onLimiter (·.release t)) := ⟨Limiter.leads_release _ t, rfl⟩
    exact h.trans (continues_settle _ none)
  · split
    · next t _ =>
      have h : Continues w ((w.onTask t fun task => { task with told := true }).onLimiter
          (·.call t)) := ⟨Limiter.leads_call _ t, rfl⟩
      exact h.trans (continues_settle _ none)
    · exact .refl _

theorem continues_abort (w : Workload) (name : String) : Continues w (w.abort name) := by
  rw [abort]
  split
  · next t _ =>
    have h : Continues w ((w.onTask t fun task => { task with finished := true }).onLimiter
        (·.abandon t)) := ⟨Limiter.leads_abandon _ t, rfl⟩
    exact h.trans (continues_settle _ none)
  · exact .refl _

/-- An operation of a workload is a run of its limiter, in which a new acquisition has the next
ticket. -/
theorem exists_run_perform (w : Workload) (op : Operation) :
    ∃ moves, (w.perform op).limiter = w.limiter.run moves ∧
      asked moves = List.range' w.nextTicket ((w.perform op).nextTicket - w.nextTicket) ∧
      w.nextTicket ≤ (w.perform op).nextTicket := by
  have hjoined {registry : String} (h : Continues (w.joined registry) (w.perform op)) :
      ∃ moves, (w.perform op).limiter = w.limiter.run moves ∧
        asked moves = List.range' w.nextTicket ((w.perform op).nextTicket - w.nextTicket) ∧
        w.nextTicket ≤ (w.perform op).nextTicket := by
    obtain ⟨moves, hrun, hasked, hnext⟩ := exists_run_of_joined h
    refine ⟨moves, hrun, ?_, hnext ▸ Nat.le_succ _⟩
    rw [hasked, hnext, Nat.add_sub_cancel_left]
    rfl
  have hother (h : Continues w (w.perform op)) :
      ∃ moves, (w.perform op).limiter = w.limiter.run moves ∧
        asked moves = List.range' w.nextTicket ((w.perform op).nextTicket - w.nextTicket) ∧
        w.nextTicket ≤ (w.perform op).nextTicket := by
    obtain ⟨⟨moves, hrun, hasked⟩, hnext⟩ := h
    refine ⟨moves, hrun, ?_, Nat.le_of_eq hnext.symm⟩
    rw [hasked, hnext, Nat.sub_self]
    rfl
  cases op with
  | acquire registry name timeout => exact hjoined (continues_acquire w registry name timeout)
  | spawn registry name hold => exact hjoined (continues_spawn w registry name hold)
  | release name => exact hother (continues_release w name)
  | abort name => exact hother (continues_abort w name)
  | advance ms => exact hother (continues_passUntil none w _ _)
  | resetMetrics => exact hother ⟨⟨[.resetMetrics], rfl, rfl⟩, rfl⟩

/-- **Workloads make runs.** Whatever the users of a workload do, its limiter has made a run in
which the acquisitions have the tickets `0`, `1`, `2` and so on. -/
theorem exists_run (limiter : Limiter) (ops : List Operation) :
    ∃ moves, (ops.foldl perform (fresh limiter)).limiter = limiter.run moves ∧
      asked moves = List.range (ops.foldl perform (fresh limiter)).nextTicket := by
  induction ops using List.reverseRecOn with
  | nil => exact ⟨[], rfl, rfl⟩
  | append_singleton ops op ih =>
    obtain ⟨moves, hrun, hasked⟩ := ih
    obtain ⟨moves', hrun', hasked', hle⟩ :=
      exists_run_perform (ops.foldl perform (fresh limiter)) op
    rw [List.foldl_append, List.foldl_cons, List.foldl_nil]
    refine ⟨moves ++ moves', by rw [hrun', hrun, Limiter.run_append], ?_⟩
    have h (m n : Nat) : List.range' 0 m ++ List.range' m n = List.range' 0 (m + n) := by
      have happend := @List.range'_append_1 0 m n
      rwa [Nat.zero_add] at happend
    rw [asked_append, hasked, hasked', List.range_eq_range', List.range_eq_range', h,
      Nat.add_sub_cancel' hle]

end TagWatch.Limit.Workload
