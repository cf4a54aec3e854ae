import TagWatch.Proofs.Limit.Waiting

/-!
# Operations, step by step

An operation of a workload changes something at the current time, perhaps after a wait, and then
everybody who is called takes a turn (`Workload.perform_eq`). `Workload.performStates` lists the
states that a workload passes through meanwhile, and `Workload.history` those of many operations.

Before an acquisition waits, its ticket takes a turn; after that turn nobody is called, unless the
ticket has been granted already (`Workload.stopped_turn_joined`).
-/

namespace TagWatch.Limit

namespace Limiter

variable {s : Limiter} {t : Ticket}

/-- A ticket that is not granted in its turn calls nobody. -/
theorem called_turn (hcalm : s.agenda.called = []) (hgranted : ¬ (s.turn t).isGranted t = true) :
    (s.turn t).agenda.called = [] := by
  have htake : (s.onAgenda (·.take t)).agenda.called = [] := by
    show s.agenda.called.erase t = []
    rw [hcalm]
    rfl
  rw [turn] at hgranted ⊢
  split at hgranted
  · next r _ =>
    have hlook : (((((s.onAgenda (·.take t)).seat t r).enter t r).wake t r).look t r).agenda.called
        = [] := by
      rcases look_cases ((((s.onAgenda (·.take t)).seat t r).enter t r).wake t r) t r with
        ⟨he, -⟩ | ⟨waited, -, ⟨-, he⟩ | ⟨wakeAt, w, -, -, -, he⟩⟩
      · rw [he]
        exact htake
      · rw [he]
        exact htake
      · rw [he]
        exact (Agenda.called_callAt _ _ _).trans htake
    rcases grant_spec (((((s.onAgenda (·.take t)).seat t r).enter t r).wake t r).look t r) t r with
      ⟨he, -⟩ | ⟨waited, hg⟩
    · rwa [he]
    · refine absurd (isGranted_iff.mpr ?_) hgranted
      rw [granted, hg.grants, List.map_append]
      exact List.mem_append_right _ (List.mem_singleton_self t)
  · exact htake

theorem isGranted_release (s : Limiter) (t u : Ticket) :
    (s.release t).isGranted u = s.isGranted u := by
  rcases release_spec s t with ⟨-, hr⟩ | ⟨r, hr⟩
  · rw [hr]
  · rw [isGranted, isGranted, grantOf?, grantOf?, hr.grants]

theorem now_abandon (s : Limiter) (t : Ticket) : (s.abandon t).now = s.now := by
  rw [abandon]
  split
  · exact now_withdraw s t _
  · exact (concerns_release s t).now

theorem now_le_move (s : Limiter) (m : Move) : s.now ≤ (s.move m).now := by
  cases move_spec s m with
  | asked _ _ _ h => exact Nat.le_of_eq h.now.symm
  | quiet h => exact h.now
  | granted _ _ _ h => exact Nat.le_of_eq h.now.symm
  | returned _ _ h => exact Nat.le_of_eq h.now.symm

/-- A move grants nothing but at the current time. -/
theorem exists_grants_move (s : Limiter) (m : Move) :
    ∃ later, (s.move m).grants = s.grants ++ later ∧ ∀ grant ∈ later, s.now ≤ grant.time := by
  have hsame (h : (s.move m).grants = s.grants) :
      ∃ later, (s.move m).grants = s.grants ++ later ∧ ∀ grant ∈ later, s.now ≤ grant.time :=
    ⟨[], by rw [h, List.append_nil], fun _ hg => nomatch hg⟩
  cases move_spec s m with
  | asked _ _ _ h => exact hsame h.grants
  | quiet h => exact hsame h.grants
  | granted _ _ _ h =>
    refine ⟨_, h.grants, fun grant hg => ?_⟩
    obtain rfl := List.mem_singleton.mp hg
    exact Nat.le_refl _
  | returned _ _ h => exact hsame h.grants

/-- Time does not go back. -/
theorem now_le_run (s : Limiter) (moves : List Move) : s.now ≤ (s.run moves).now := by
  induction moves generalizing s with
  | nil => exact Nat.le_refl _
  | cons m moves ih => exact Nat.le_trans (now_le_move s m) (ih (s.move m))

/-- What is granted in a run is granted after its beginning. -/
theorem exists_grants_run (s : Limiter) (moves : List Move) :
    ∃ later, (s.run moves).grants = s.grants ++ later ∧ ∀ grant ∈ later, s.now ≤ grant.time := by
  induction moves generalizing s with
  | nil => exact ⟨[], (List.append_nil _).symm, fun _ hg => nomatch hg⟩
  | cons m moves ih =>
    obtain ⟨first, hfirst, hnow⟩ := s.exists_grants_move m
    obtain ⟨rest, hrest, hlater⟩ := ih (s.move m)
    refine ⟨first ++ rest, ?_, fun grant hg => ?_⟩
    · rw [run_cons, hrest, hfirst, List.append_assoc]
    · rcases List.mem_append.mp hg with hg | hg
      · exact hnow grant hg
      · exact Nat.le_trans (now_le_move s m) (hlater grant hg)

end Limiter

namespace Workload

variable {rates : Rates} {globalConcurrency : Nat} {w : Workload} {t : Ticket}

/-! ## The steps of an operation -/

/-- The wait of the next ticket for a permit of a registry. -/
def awaiting (w : Workload) (registry : String) (timeout : Nat) : Workload :=
  ((w.joined registry).turn w.nextTicket).passUntil (some w.nextTicket) w.limiter.now
    (w.limiter.now + timeout)

/-- The end of a wait: a permit is held under a name, or else the ticket is given up. -/
def resolve (w : Workload) (name : String) (t : Ticket) : Workload :=
  if w.limiter.isGranted t then w.keep name t else w.onLimiter (·.abandon t)

/-- The permit of a name is given back, or else its task has been told so. -/
def released (w : Workload) (name : String) : Workload :=
  match w.permits.get? name with
  | some t =>
    { w with permits := w.permits.filter fun name' _ => name' ≠ name }.onLimiter (·.release t)
  | none =>
    match w.names.get? name with
    | some t => (w.onTask t fun task => { task with told := true }).onLimiter (·.call t)
    | none => w

/-- The task of a name is given up. -/
def aborted (w : Workload) (name : String) : Workload :=
  match w.names.get? name with
  | some t => (w.onTask t fun task => { task with finished := true }).onLimiter (·.abandon t)
  | none => w

/-- A workload after an operation and before the turns that follow it. -/
def begun (w : Workload) : Operation → Workload
  | .acquire registry name timeout => (w.awaiting registry timeout).resolve name w.nextTicket
  | .spawn registry name hold => w.spawned registry name hold
  | .release name => w.released name
  | .abort name => w.aborted name
  | .advance ms => w.advance ms
  | .resetMetrics => w.onLimiter (·.resetMetrics)

/-- The states in which an operation waits. -/
def awaitingStates (w : Workload) : Operation → List Workload
  | .acquire registry _ timeout =>
    w.joined registry ::
      passStates (some w.nextTicket) ((w.joined registry).turn w.nextTicket) w.limiter.now
        (w.limiter.now + timeout) ++ [w.awaiting registry timeout]
  | .advance ms => passStates none w w.limiter.now (w.limiter.now + ms)
  | _ => []

/-- The states in which a workload is while an operation is performed. -/
def performStates (w : Workload) (op : Operation) : List Workload :=
  w.awaitingStates op ++ (w.begun op).settleStates none ++ [w.perform op]

/-- An acquisition is a wait and its end, and its outcome is known when the wait is over. -/
theorem acquire_eq (w : Workload) (registry name : String) (timeout : Nat) :
    w.acquire registry name timeout =
      (((w.awaiting registry timeout).resolve name w.nextTicket).settle none,
        (w.awaiting registry timeout).limiter.grantOf? w.nextTicket) := by
  rw [acquire, resolve, Limiter.isGranted]
  split
  · next grant hgrant =>
    rw [show (w.awaiting registry timeout).limiter.grantOf? w.nextTicket = _ from hgrant]
    rfl
  · next hgrant =>
    rw [show (w.awaiting registry timeout).limiter.grantOf? w.nextTicket = _ from hgrant]
    rfl

/-- After an operation everybody who is called takes a turn. -/
theorem perform_eq (h : Tended rates globalConcurrency w) (hcalm : w.Calm) (op : Operation) :
    w.perform op = (w.begun op).settle none := by
  cases op with
  | acquire registry name timeout =>
    show (w.acquire registry name timeout).1 =
      ((w.awaiting registry timeout).resolve name w.nextTicket).settle none
    rw [acquire_eq]
  | spawn registry name hold => rfl
  | release name =>
    show (w.release name).1 = (w.released name).settle none
    rw [release, released]
    cases w.permits.get? name with
    | some t => rfl
    | none =>
      cases w.names.get? name with
      | some t => rfl
      | none => exact (settle_of_stopped (.inr hcalm)).symm
  | abort name =>
    show w.abort name = (w.aborted name).settle none
    rw [abort, aborted]
    cases w.names.get? name with
    | some t => rfl
    | none => exact (settle_of_stopped (.inr hcalm)).symm
  | advance ms =>
    have hadvance : (w.advance ms).Calm := (h.perform hcalm (.advance ms)).2
    exact (settle_of_stopped (.inr hadvance)).symm
  | resetMetrics =>
    have hreset : (w.onLimiter (·.resetMetrics)).Calm := hcalm
    exact (settle_of_stopped (.inr hreset)).symm

theorem Tended.released (h : Tended rates globalConcurrency w) (name : String) :
    Tended rates globalConcurrency (w.released name) := by
  rw [Workload.released]
  split
  · next t _ => exact h.steps (.single (.release t)) rfl rfl
  · split
    · next t ht => exact h.steps (.single (.call t (h.named name t ht))) rfl rfl
    · exact h

theorem Tended.aborted (h : Tended rates globalConcurrency w) (name : String) :
    Tended rates globalConcurrency (w.aborted name) := by
  rw [Workload.aborted]
  split
  · next t _ => exact h.steps (.single (.abandon t)) rfl rfl
  · exact h

/-! ## The first turn of an acquisition -/

/-- Only a ticket that has been granted gives its permit back. -/
theorem turn_of_not_granted (h : ¬ (w.limiter.turn t).isGranted t = true) :
    w.turn t = w.onLimiter (·.turn t) := by
  rw [turn]
  split
  · next time htime =>
    obtain ⟨task, hfind, htask⟩ := Option.bind_eq_some_iff.mp htime
    have hticket := List.find?_some hfind
    refine absurd ?_ h
    show ((w.onLimiter (·.turn t)).limiter.grantOf? t).isSome = true
    rw [releaseTime?, beq_iff_eq.mp hticket] at htask
    cases hgrant : (w.onLimiter (·.turn t)).limiter.grantOf? t with
    | some grant => rfl
    | none =>
      rw [hgrant] at htask
      split at htask <;> cases htask
  · rfl

/-- After the first turn of an acquisition nobody is called before it is granted. -/
theorem stopped_turn_joined (hcalm : w.Calm) (registry : String) :
    ((w.joined registry).turn w.nextTicket).Stopped (some w.nextTicket) := by
  by_cases hgranted : ((w.joined registry).limiter.turn w.nextTicket).isGranted w.nextTicket = true
  · refine .inl ?_
    rw [Option.any_some]
    rcases turn_cases (w.joined registry) w.nextTicket with he | he | ⟨time, he⟩ <;> rw [he]
    · exact hgranted
    · exact (Limiter.isGranted_release _ _ _).trans hgranted
    · exact hgranted
  · rw [turn_of_not_granted hgranted]
    exact .inr (Limiter.called_turn hcalm hgranted)

theorem now_turn_joined (w : Workload) (registry : String) :
    ((w.joined registry).turn w.nextTicket).limiter.now = w.limiter.now :=
  now_turn _ _

/-- The wait of an acquisition. -/
theorem Punctual.waited_awaiting (h : Punctual rates globalConcurrency w) (hcalm : w.Calm)
    (registry : String) (timeout : Nat) :
    Waited (some w.nextTicket) ((w.joined registry).turn w.nextTicket)
      (passStates (some w.nextTicket) ((w.joined registry).turn w.nextTicket) w.limiter.now
        (w.limiter.now + timeout)) (w.limiter.now + timeout) (w.awaiting registry timeout) := by
  have hturn : Punctual rates globalConcurrency ((w.joined registry).turn w.nextTicket) :=
    ⟨h.toTended.turn_joined registry, ahead_turn (w := w.joined registry) h.ahead _⟩
  exact hturn.waited_passUntil (stopped_turn_joined hcalm registry) (now_turn_joined w registry)
    (Nat.le_add_right _ _)

theorem continues_waitUntil (w : Workload) (awaited : Option Ticket) (target : Nat) :
    Continues w (w.waitUntil awaited target) :=
  (continues_settle w awaited).trans (continues_passUntil awaited _ _ target)

/-- What is granted while a workload waits in which nobody is called is granted later. -/
theorem Punctual.exists_grants_waitUntil {target : Nat} (h : Punctual rates globalConcurrency w)
    (hcalm : w.Calm) (hle : w.limiter.now ≤ target) :
    ∃ later, (w.waitUntil none target).limiter.grants = w.limiter.grants ++ later ∧
      ∀ grant ∈ later, w.limiter.now < grant.time := by
  rcases Nat.eq_or_lt_of_le hle with rfl | hlt
  · rw [Workload.waitUntil_now h.ahead (.inr hcalm)]
    exact ⟨[], (List.append_nil _).symm, fun _ hg => nomatch hg⟩
  · -- nothing happens in the first millisecond
    have hsleep : (w.onLimiter (·.sleepUntil (w.limiter.now + 1))).waitUntil none target =
        w.waitUntil none target :=
      waitUntil_sleep h.ahead hcalm Bool.false_ne_true (Nat.le_succ w.limiter.now) hlt h.ahead
    obtain ⟨⟨moves, hrun, -⟩, -⟩ :=
      continues_waitUntil (w.onLimiter (·.sleepUntil (w.limiter.now + 1))) none target
    obtain ⟨later, hgrants, hlater⟩ :=
      (w.limiter.sleepUntil (w.limiter.now + 1)).exists_grants_run moves
    refine ⟨later, ?_, fun grant hg => ?_⟩
    · rw [← hsleep]
      exact (congrArg Limiter.grants hrun).trans hgrants
    · have hnow := hlater grant hg
      rw [Limiter.now_sleepUntil] at hnow
      exact Nat.le_trans (Nat.le_max_right _ _) hnow

/-- The end of a wait takes no time. -/
theorem now_resolve (w : Workload) (name : String) (t : Ticket) :
    (w.resolve name t).limiter.now = w.limiter.now := by
  rw [resolve]
  split
  · rw [keep]
    split
    · exact (Limiter.concerns_release _ _).now
    · rfl
  · exact Limiter.now_abandon w.limiter t

/-! ## Many operations -/

deriving instance DecidableEq for Operation

/-- The registry that an operation asks for. -/
def Operation.registry? : Operation → Option String
  | .acquire registry _ _ | .spawn registry _ _ => some (Registry.canonical registry)
  | _ => none

/-- The registries that some operations ask for, in order. -/
def requested (ops : List Operation) : List String := ops.filterMap Operation.registry?

theorem requested_cons (op : Operation) (ops : List Operation) :
    requested (op :: ops) = op.registry?.toList ++ requested ops := by
  rw [requested, List.filterMap_cons]
  cases op.registry? <;> rfl

/-- Every request takes a ticket. -/
theorem nextTicket_perform (w : Workload) (op : Operation) :
    (w.perform op).nextTicket = w.nextTicket + op.registry?.toList.length := by
  cases op with
  | acquire registry name timeout => exact (continues_acquire w registry name timeout).nextTicket
  | spawn registry name hold => exact (continues_spawn w registry name hold).nextTicket
  | release name => exact (continues_release w name).nextTicket
  | abort name => exact (continues_abort w name).nextTicket
  | advance ms => exact (continues_passUntil none w _ _).nextTicket
  | resetMetrics => rfl

theorem now_le_perform (w : Workload) (op : Operation) :
    w.limiter.now ≤ (w.perform op).limiter.now := by
  obtain ⟨moves, hrun, -⟩ := exists_run_perform w op
  rw [hrun]
  exact Limiter.now_le_run w.limiter moves

theorem now_le_foldl_perform (ops : List Operation) (w : Workload) :
    w.limiter.now ≤ (ops.foldl perform w).limiter.now := by
  induction ops generalizing w with
  | nil => exact Nat.le_refl _
  | cons op ops ih => exact Nat.le_trans (now_le_perform w op) (ih (w.perform op))

/-- The states in which a workload is during some operations. -/
def history : Workload → List Operation → List Workload
  | _, [] => []
  | w, op :: ops => w.performStates op ++ history (w.perform op) ops

end Workload

end TagWatch.Limit
