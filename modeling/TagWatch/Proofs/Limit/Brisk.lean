import Mathlib.Data.List.DropRight
import TagWatch.Proofs.Limit.Perform

/-!
# Brisk runs

In a run time may pass while somebody could go on, and a sleeper may oversleep. A run is *brisk*
(`Limiter.Brisk`) when neither happens: time passes only while nobody can go on, and no further than
to the end of the next sleep.

**Theorem (`Workload.exists_brisk_run`).** Whatever the users of a workload do, its limiter has made a
brisk run in which the acquisitions have the tickets `0`, `1`, `2` and so on, and in which the counters
are reset when the users reset them.

A workload lets time pass when nobody is called. As no call is lost, nobody can go on then, and as
every sleeper has set an alarm, nobody oversleeps (`Workload.Tended.rests`).
-/

namespace TagWatch.Limit

/-! ## Resets and the passing of time -/

/-- Whether a move starts the counters again. -/
def Move.isReset : Move → Bool
  | resetMetrics => true
  | _ => false

/-- Whether time can pass by a move. -/
def Move.takesTime : Move → Bool
  | sleepUntil _ => true
  | _ => false

/-- A run up to the last reset of the counters. -/
def untilReset (moves : List Move) : List Move := moves.rdropWhile fun m => !m.isReset

/-- A run after the last reset of the counters. -/
def sinceReset (moves : List Move) : List Move := moves.rtakeWhile fun m => !m.isReset

theorem untilReset_append_sinceReset (moves : List Move) :
    untilReset moves ++ sinceReset moves = moves := by
  rw [untilReset, sinceReset, List.rdropWhile, List.rtakeWhile, ← List.reverse_append,
    List.takeWhile_append_dropWhile, List.reverse_reverse]

theorem untilReset_append {moves' : List Move} (moves : List Move)
    (h : ∀ m ∈ moves', m.isReset = false) : untilReset (moves ++ moves') = untilReset moves := by
  induction moves' using List.reverseRecOn with
  | nil => rw [List.append_nil]
  | append_singleton moves' m ih =>
    have hm : m.isReset = false := h m (by simp)
    rw [← List.append_assoc, untilReset, List.rdropWhile_concat_pos _ _ _ (by simp [hm])]
    apply ih
    intro m' hm'
    exact h m' (List.mem_append_left _ hm')

namespace Limiter

variable {s s' s'' : Limiter} {m : Move} {moves moves' : List Move} {tickets tickets' : List Ticket}

/-! ## Brisk runs -/

/-- Nobody can go on, and nobody is to wake up before a given time. -/
structure Rests (s : Limiter) (time : Nat) : Prop where
  stuck : ∀ r t, ¬ s.CanGo r t
  early : ∀ r t wakeAt, s.Asleep r t wakeAt → time ≤ wakeAt

/-- If time passes by a move, nobody could have done anything meanwhile. -/
def BriskMove (s : Limiter) (m : Move) : Prop := s.now < (s.move m).now → s.Rests (s.move m).now

/-- If time passes in a run, nobody could have done anything meanwhile. -/
def Brisk (s : Limiter) : List Move → Prop
  | [] => True
  | m :: moves => s.BriskMove m ∧ (s.move m).Brisk moves

theorem briskMove_of_now (h : (s.move m).now = s.now) : s.BriskMove m := by
  intro hlt
  omega

theorem brisk_append :
    s.Brisk (moves ++ moves') ↔ s.Brisk moves ∧ (s.run moves).Brisk moves' := by
  induction moves generalizing s with
  | nil => exact (true_and _).symm.to_iff
  | cons m moves ih => rw [List.cons_append, Brisk, Brisk, ih, run_cons, and_assoc]

/-- Time passes by sleeping only. -/
theorem now_move (h : m.takesTime = false) : (s.move m).now = s.now := by
  cases m with
  | ask t registry => rfl
  | seat t r => rfl
  | enter t r => rfl
  | wake t r => rfl
  | look t r => exact (concerns_look s t r).now
  | grant t r => exact (concerns_grant s t r).now
  | release t => exact (concerns_release s t).now
  | abandon t => exact now_abandon s t
  | sleepUntil time => cases h
  | resetMetrics => rfl
  | plan called alarms => rfl

/-- A limiter comes from another one by a brisk run without a reset, in which acquisitions begin with
these tickets. -/
def Proceeds (s s' : Limiter) (tickets : List Ticket) : Prop :=
  ∃ moves, s' = s.run moves ∧ asked moves = tickets ∧ s.Brisk moves ∧ ∀ m ∈ moves, m.isReset = false

theorem Proceeds.refl (s : Limiter) : s.Proceeds s [] :=
  ⟨[], rfl, rfl, trivial, fun _ hm => absurd hm List.not_mem_nil⟩

theorem Proceeds.trans (h : s.Proceeds s' tickets) (h' : s'.Proceeds s'' tickets') :
    s.Proceeds s'' (tickets ++ tickets') := by
  obtain ⟨moves, rfl, rfl, hbrisk, hreset⟩ := h
  obtain ⟨moves', rfl, rfl, hbrisk', hreset'⟩ := h'
  refine ⟨moves ++ moves', (run_append s moves moves').symm, asked_append moves moves',
    brisk_append.mpr ⟨hbrisk, hbrisk'⟩, ?_⟩
  intro m hm
  rcases List.mem_append.mp hm with hm | hm
  · exact hreset m hm
  · exact hreset' m hm

/-- Nobody comes later on. -/
theorem Proceeds.further (h : s.Proceeds s' tickets) (h' : s'.Proceeds s'' []) :
    s.Proceeds s'' tickets := by
  have htrans := h.trans h'
  rwa [List.append_nil] at htrans

theorem proceeds_move (hbrisk : s.BriskMove m) (hreset : m.isReset = false) :
    s.Proceeds (s.move m) m.asked?.toList := by
  refine ⟨[m], rfl, ?_, ⟨hbrisk, trivial⟩, ?_⟩
  · rw [asked_cons]
    exact List.append_nil _
  · simpa using hreset

/-- A move that takes no time. -/
theorem proceeds_instant (s : Limiter) (m : Move) (htime : m.takesTime = false)
    (hreset : m.isReset = false) : s.Proceeds (s.move m) m.asked?.toList :=
  proceeds_move (briskMove_of_now (now_move htime)) hreset

theorem proceeds_plan (s : Limiter) (f : Agenda → Agenda) (h : (f s.agenda).now = s.now) :
    s.Proceeds (s.onAgenda f) [] := by
  rw [s.onAgenda_eq_move f h]
  exact s.proceeds_instant (.plan (f s.agenda).called (f s.agenda).alarms) rfl rfl

theorem proceeds_turn (s : Limiter) (t : Ticket) : s.Proceeds (s.turn t) [] := by
  have htake : s.Proceeds (s.onAgenda (·.take t)) [] := s.proceeds_plan (·.take t) rfl
  rw [turn]
  split
  · next r _ =>
    have hseat := htake.further (proceeds_instant _ (.seat t r) rfl rfl)
    have henter := hseat.further (proceeds_instant _ (.enter t r) rfl rfl)
    have hwake := henter.further (proceeds_instant _ (.wake t r) rfl rfl)
    have hlook := hwake.further (proceeds_instant _ (.look t r) rfl rfl)
    exact hlook.further (proceeds_instant _ (.grant t r) rfl rfl)
  · exact htake

end Limiter

namespace Workload

open Limiter (Proceeds)

variable {rates : Rates} {globalConcurrency : Nat} {w w' : Workload} {t : Ticket}
  {awaited : Option Ticket} {time : Nat}

/-! ## Waiting is brisk -/

theorem proceeds_turn (w : Workload) (t : Ticket) :
    w.limiter.Proceeds (w.turn t).limiter [] := by
  have hturn := w.limiter.proceeds_turn t
  rcases turn_cases w t with he | he | ⟨time, he⟩
  · rw [he]
    exact hturn
  · rw [he]
    exact hturn.further (Limiter.proceeds_instant _ (.release t) rfl rfl)
  · rw [he]
    exact hturn.further (Limiter.proceeds_plan _ (·.callAt time t) (Limiter.now_callAt _ time t))

theorem proceeds_turnOf (w : Workload) (awaited : Option Ticket) :
    w.limiter.Proceeds (w.turnOf awaited).limiter [] := by
  unfold turnOf
  split
  · split
    · exact proceeds_turn w _
    · exact .refl _
  · exact .refl _

/-- While nobody is called, nobody can go on, and sleepers have their alarms. -/
theorem Tended.rests (h : Tended rates globalConcurrency w) (hcalm : w.Calm)
    (halarms : ∀ e ∈ w.limiter.agenda.alarms, time ≤ e.1) : w.limiter.Rests time := by
  have hstuck : ∀ r t, ¬ w.limiter.CanGo r t := h.watched.not_canGo ⟨hcalm, rfl⟩
  refine ⟨hstuck, ?_⟩
  intro r t wakeAt hasleep
  obtain ⟨waited, hadm⟩ := hasleep
  rcases h.watched.healthy.alarmed r t wakeAt waited hadm with halarm | hpast
  · exact halarms _ halarm
  · exact absurd (.wake wakeAt waited hadm hpast) (hstuck r t)

theorem Tended.proceeds_sleepUntil (h : Tended rates globalConcurrency w) (hcalm : w.Calm)
    (hnow : w.limiter.now ≤ time) (halarms : ∀ e ∈ w.limiter.agenda.alarms, time ≤ e.1) :
    w.limiter.Proceeds (w.limiter.sleepUntil time) [] := by
  apply Limiter.proceeds_move (m := .sleepUntil time)
  · intro _
    rw [show w.limiter.move (.sleepUntil time) = w.limiter.sleepUntil time from rfl,
      Limiter.now_sleepUntil, Nat.max_eq_right hnow]
    exact h.rests hcalm halarms
  · rfl

theorem Tended.proceeds_step (h : Tended rates globalConcurrency w)
    (hs : WaitStep awaited w w') : w.limiter.Proceeds w'.limiter [] := by
  cases hs with
  | turn t hnext => exact proceeds_turn w t
  | sleep time hcalm hnow halarms =>
    have hsleep := h.proceeds_sleepUntil hcalm hnow halarms
    exact hsleep.further (proceeds_turnOf (w.onLimiter (·.sleepUntil time)) awaited)

/-- **A wait is brisk.** -/
theorem Punctual.proceeds_waits {states : List Workload} (h : Punctual rates globalConcurrency w)
    (hw : Waits awaited w states w') : w.limiter.Proceeds w'.limiter [] := by
  induction hw with
  | stop => exact .refl _
  | step _ hstep _ ih => exact (h.proceeds_step hstep).further (ih (h.step hstep))

/-! ## Operations are brisk -/

/-- Whether an operation starts the counters again. -/
def Operation.isReset : Operation → Bool
  | resetMetrics => true
  | _ => false

/-- Operations up to the last reset of the counters. -/
def untilReset (ops : List Operation) : List Operation := ops.rdropWhile fun op => !op.isReset

/-- The next ticket has joined the line of a registry and taken its first turn. -/
theorem Punctual.turn_joined (h : Punctual rates globalConcurrency w) (registry : String) :
    Punctual rates globalConcurrency ((w.joined registry).turn w.nextTicket) :=
  ⟨h.toTended.turn_joined registry, ahead_turn (w := w.joined registry) h.ahead _⟩

theorem proceeds_joined (w : Workload) (registry : String) :
    w.limiter.Proceeds (w.joined registry).limiter [w.nextTicket] :=
  w.limiter.proceeds_instant (.ask w.nextTicket registry) rfl rfl

theorem Punctual.begun (h : Punctual rates globalConcurrency w) (hcalm : w.Calm)
    (op : Operation) : Punctual rates globalConcurrency (w.begun op) := by
  cases op with
  | acquire registry name timeout =>
    have hwait : Punctual rates globalConcurrency (w.awaiting registry timeout) :=
      (h.turn_joined registry).waits (h.waited_awaiting hcalm registry timeout).waits
    show Punctual rates globalConcurrency
      ((w.awaiting registry timeout).resolve name w.nextTicket)
    unfold resolve
    split
    · refine ⟨hwait.toTended.keep name _, ?_⟩
      unfold keep
      split
      · exact hwait.ahead.release _
      · exact hwait.ahead
    · exact ⟨hwait.toTended.onLimiter (.abandon _), hwait.ahead.abandon _⟩
  | spawn registry name hold =>
    exact ⟨h.toTended.spawned registry name hold, Limiter.Ahead.call h.ahead _⟩
  | release name =>
    refine ⟨h.toTended.released name, ?_⟩
    show (w.released name).limiter.Ahead
    unfold released
    split
    · exact h.ahead.release _
    · split
      · exact h.ahead.call _
      · exact h.ahead
  | abort name =>
    refine ⟨h.toTended.aborted name, ?_⟩
    show (w.aborted name).limiter.Ahead
    unfold aborted
    split
    · exact h.ahead.abandon _
    · exact h.ahead
  | advance ms =>
    exact h.waits (h.waited_passUntil (.inr hcalm) rfl (Nat.le_add_right _ ms)).waits
  | resetMetrics => exact ⟨h.toTended.onLimiter .resetMetrics, h.ahead⟩

theorem Punctual.perform (h : Punctual rates globalConcurrency w) (hcalm : w.Calm)
    (op : Operation) : Punctual rates globalConcurrency (w.perform op) := by
  rw [perform_eq h.toTended hcalm op]
  exact (h.begun hcalm op).waits (waits_settle _ none)

theorem punctual_run (rates : Rates) (globalConcurrency : Nat) (ops : List Operation) :
    Punctual rates globalConcurrency
      (ops.foldl Workload.perform (fresh (.fresh rates globalConcurrency))) := by
  induction ops using List.reverseRecOn with
  | nil => exact ⟨tended_fresh rates globalConcurrency, fun _ he => absurd he List.not_mem_nil⟩
  | append_singleton ops op ih =>
    rw [List.foldl_append]
    exact ih.perform (tended_run rates globalConcurrency ops).2 op

theorem proceeds_resolve (w : Workload) (name : String) (t : Ticket) :
    w.limiter.Proceeds (w.resolve name t).limiter [] := by
  unfold resolve
  split
  · unfold keep
    split
    · exact Limiter.proceeds_instant _ (.release _) rfl rfl
    · exact .refl _
  · exact Limiter.proceeds_instant _ (.abandon _) rfl rfl

theorem Punctual.proceeds_begun (h : Punctual rates globalConcurrency w) (hcalm : w.Calm)
    {op : Operation} (hop : op.isReset = false) :
    w.limiter.Proceeds (w.begun op).limiter
      (List.range' w.nextTicket op.registry?.toList.length) := by
  cases op with
  | acquire registry name timeout =>
    have hfirst := (proceeds_joined w registry).further
      (proceeds_turn (w.joined registry) w.nextTicket)
    have hwait := (h.turn_joined registry).proceeds_waits
      (h.waited_awaiting hcalm registry timeout).waits
    exact (hfirst.further hwait).further (proceeds_resolve _ name _)
  | spawn registry name hold =>
    exact (proceeds_joined w registry).further
      (Limiter.proceeds_plan _ (·.call w.nextTicket) (Limiter.now_callAll _ [w.nextTicket]))
  | release name =>
    show w.limiter.Proceeds (w.released name).limiter []
    unfold released
    split
    · exact Limiter.proceeds_instant _ (.release _) rfl rfl
    · split
      · next t _ =>
        exact Limiter.proceeds_plan _ (·.call t) (Limiter.now_callAll _ [t])
      · exact .refl _
  | abort name =>
    show w.limiter.Proceeds (w.aborted name).limiter []
    unfold aborted
    split
    · exact Limiter.proceeds_instant _ (.abandon _) rfl rfl
    · exact .refl _
  | advance ms =>
    exact h.proceeds_waits (h.waited_passUntil (.inr hcalm) rfl (Nat.le_add_right _ ms)).waits
  | resetMetrics => cases hop

/-- **An operation is brisk.** -/
theorem Punctual.proceeds_perform (h : Punctual rates globalConcurrency w) (hcalm : w.Calm)
    {op : Operation} (hop : op.isReset = false) :
    w.limiter.Proceeds (w.perform op).limiter
      (List.range' w.nextTicket op.registry?.toList.length) := by
  rw [perform_eq h.toTended hcalm op]
  exact (h.proceeds_begun hcalm hop).further
    ((h.begun hcalm op).proceeds_waits (waits_settle _ none))

/-- **Workloads make brisk runs.** Whatever the users of a workload do, its limiter has made a brisk
run in which the acquisitions have the tickets `0`, `1`, `2` and so on; and the part of the run up to
the last reset of the counters comes from the operations up to the last reset. -/
theorem exists_brisk_run (rates : Rates) (globalConcurrency : Nat) (ops : List Operation) :
    let start := Limiter.fresh rates globalConcurrency
    let w := ops.foldl perform (fresh start)
    ∃ moves, w.limiter = start.run moves ∧ asked moves = List.range w.nextTicket ∧
      start.Brisk moves ∧
      ((untilReset ops).foldl perform (fresh start)).limiter = start.run (Limit.untilReset moves) := by
  intro start
  induction ops using List.reverseRecOn with
  | nil => exact ⟨[], rfl, rfl, trivial, rfl⟩
  | append_singleton ops op ih =>
    obtain ⟨moves, hrun, hasked, hbrisk, hreset⟩ := ih
    have hpunctual := punctual_run rates globalConcurrency ops
    have hcalm := (tended_run rates globalConcurrency ops).2
    rw [List.foldl_append, List.foldl_cons, List.foldl_nil]
    cases hop : op.isReset with
    | true =>
      obtain rfl : op = .resetMetrics := by cases op <;> simp [Operation.isReset] at hop ⊢
      refine ⟨moves ++ [.resetMetrics], ?_, ?_, ?_, ?_⟩
      · rw [Limiter.run_append, ← hrun]
        rfl
      · rw [asked_append, hasked]
        exact List.append_nil _
      · exact Limiter.brisk_append.mpr
          ⟨hbrisk, Limiter.briskMove_of_now (Limiter.now_move rfl), trivial⟩
      · rw [untilReset, Limit.untilReset, List.rdropWhile_concat_neg _ _ _ (by simp [hop]),
          List.rdropWhile_concat_neg _ _ _ (by simp [Move.isReset]), List.foldl_append,
          Limiter.run_append, ← hrun]
        rfl
    | false =>
      obtain ⟨moves', hrun', hasked', hbrisk', hreset'⟩ :=
        hpunctual.proceeds_perform hcalm hop
      refine ⟨moves ++ moves', ?_, ?_, ?_, ?_⟩
      · rw [hrun', hrun, Limiter.run_append]
      · rw [asked_append, hasked, hasked', nextTicket_perform, List.range_eq_range',
          List.range_eq_range']
        simpa using @List.range'_append_1 0 _ _
      · rw [hrun] at hbrisk'
        exact Limiter.brisk_append.mpr ⟨hbrisk, hbrisk'⟩
      · rw [untilReset, List.rdropWhile_concat_pos _ _ _ (by simp [hop]), ← untilReset,
          Limit.untilReset_append moves hreset', hreset]

end Workload

end TagWatch.Limit
