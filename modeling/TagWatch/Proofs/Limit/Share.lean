import TagWatch.Proofs.Limit.Apart
import TagWatch.Proofs.Limit.Waiting

/-!
# The share of one registry

The view of a workload keeps the tasks and the permits of one registry, whose users have names of
their own. A turn of a task that is seen is its turn in the view, and no other turn can be seen
there; so when the users of a workload wait, the users that are seen wait as well, if they are
alone.

**Theorem (`View.Shared.waitUntil_waits`).** While global slots are free, a wait of the workload
does not change what its view is after a wait until some later moment.
-/

namespace TagWatch.Limit

namespace View

variable {v : View} {w : Workload} {t u : Ticket} {awaited : Option Ticket}

/-! ## Workloads -/

/-- A task with another number. -/
def task (v : View) (task : Task) : Task := { task with ticket := v.number task.ticket }

/-- What is left of a workload. -/
def workload (v : View) (w : Workload) : Workload where
  limiter := v.limiter w.limiter
  nextTicket := v.count w.nextTicket
  permits := w.permits.part v.names v.number
  tasks := v.part Task.ticket v.task w.tasks
  names := w.names.part v.names v.number

theorem workload_onLimiter {f g : Limiter → Limiter}
    (h : v.limiter (f w.limiter) = g (v.limiter w.limiter)) :
    v.workload (w.onLimiter f) = (v.workload w).onLimiter g :=
  congrArg (fun s => { v.workload w with limiter := s }) h

theorem workload_onLimiter_of_eq {f : Limiter → Limiter}
    (h : v.limiter (f w.limiter) = v.limiter w.limiter) :
    v.workload (w.onLimiter f) = v.workload w :=
  workload_onLimiter (g := id) h

/-- The tasks that are seen after a change of one task that leaves its ticket alone. -/
theorem part_onTask {f : Task → Task} (hticket : ∀ task, (f task).ticket = task.ticket)
    (tasks : List Task) (t : Ticket) :
    v.part Task.ticket v.task (tasks.map fun task => if task.ticket = t then f task else task) =
      (tasks.filter fun task => v.sees task.ticket).map fun task =>
        v.task (if task.ticket = t then f task else task) := by
  have hsame : ((fun task : Task => v.sees task.ticket) ∘ fun task =>
      if task.ticket = t then f task else task) = fun task => v.sees task.ticket := by
    funext task
    rw [Function.comp_apply]
    split
    · rw [hticket]
    · rfl
  rw [part, List.filter_map, List.map_map, hsame]
  rfl

theorem workload_onTask {f : Task → Task} (hticket : ∀ task, (f task).ticket = task.ticket)
    (hf : ∀ task, v.task (f task) = f (v.task task)) (w : Workload) (t : Ticket) :
    v.workload (w.onTask t f) = (v.workload w).onTask (v.number t) f := by
  refine congrArg (fun tasks => { v.workload w with tasks := tasks }) ?_
  show v.part Task.ticket v.task (w.tasks.map _) = (v.part Task.ticket v.task w.tasks).map _
  rw [part_onTask hticket, part, List.map_map]
  refine List.map_congr_left fun task _ => ?_
  show v.task (if task.ticket = t then f task else task) =
    if v.number task.ticket = v.number t then f (v.task task) else v.task task
  by_cases ht : task.ticket = t
  · rw [if_pos ht, hf, if_pos (congrArg v.number ht)]
  · rw [if_neg ht, if_neg fun h => ht (v.number_injective h)]

theorem workload_onTask_of_not_sees {f : Task → Task}
    (hticket : ∀ task, (f task).ticket = task.ticket) (ht : v.sees t = false) (w : Workload) :
    v.workload (w.onTask t f) = v.workload w := by
  refine congrArg (fun tasks => { v.workload w with tasks := tasks }) ?_
  show v.part Task.ticket v.task (w.tasks.map _) = v.part Task.ticket v.task w.tasks
  rw [part_onTask hticket, part]
  refine List.map_congr_left fun task htask => ?_
  rw [if_neg]
  rintro rfl
  exact Bool.false_ne_true (ht.symm.trans (List.mem_filter.mp htask).2)

theorem find?_workload (ht : v.sees t = true) (w : Workload) :
    (v.workload w).tasks.find? (·.ticket == v.number t) =
      (w.tasks.find? (·.ticket == t)).map v.task :=
  find?_part (k := Task.ticket) (fun _ => rfl) ht

theorem releaseTime?_workload {task : Task} (ht : v.sees task.ticket = true) (w : Workload) :
    (v.workload w).releaseTime? (v.task task) = w.releaseTime? task := by
  have hgrant : (v.workload w).limiter.grantOf? (v.task task).ticket =
      (w.limiter.grantOf? task.ticket).map fun g => { g with ticket := v.number g.ticket } :=
    grantOf?_limiter ht w.limiter
  rw [Workload.releaseTime?, Workload.releaseTime?, hgrant]
  cases w.limiter.grantOf? task.ticket with
  | none => rfl
  | some grant =>
    rw [Option.map_some, show (v.task task).hold = task.hold from rfl]
    cases task.hold <;> rfl

theorem workload_finish (h : v.Sorts w.limiter) (ht : v.sees t = true)
    (hline : w.limiter.pool.line = []) :
    v.workload (w.finish t) = (v.workload w).finish (v.number t) := by
  rw [Workload.finish, Workload.finish, ← workload_onTask
    (f := fun task => { task with finished := true }) (fun _ => rfl) fun _ => rfl]
  exact workload_onLimiter (limiter_release h ht hline)

theorem workload_finish_of_not_sees (h : v.Sorts w.limiter) (ht : v.sees t = false)
    (hline : w.limiter.pool.line = []) : v.workload (w.finish t) = v.workload w := by
  rw [Workload.finish,
    ← workload_onTask_of_not_sees (f := fun task => { task with finished := true })
    (fun _ => rfl) ht w]
  exact workload_onLimiter_of_eq (limiter_release_of_not_sees h ht hline)

/-! ## Turns -/

theorem Sorts.turn {s : Limiter} (h : v.Sorts s) (t : Ticket) : v.Sorts (s.turn t) :=
  h.leads (s.leads_turn t)

/-- The turn of a ticket that is seen. -/
theorem workload_turn (h : v.Sorts w.limiter) (ho : w.limiter.Orderly) (ht : v.sees t = true)
    (hline : w.limiter.pool.line = []) (hfree : 0 < w.limiter.pool.free) :
    v.workload (w.turn t) = (v.workload w).turn (v.number t) := by
  have hturn : v.workload (w.onLimiter (·.turn t)) =
      (v.workload w).onLimiter (·.turn (v.number t)) :=
    workload_onLimiter (limiter_turn h ho ht hline hfree)
  have hrelease : ((v.workload (w.onLimiter (·.turn t))).tasks.find?
      (·.ticket == v.number t)).bind (v.workload (w.onLimiter (·.turn t))).releaseTime? =
      ((w.onLimiter (·.turn t)).tasks.find? (·.ticket == t)).bind
        (w.onLimiter (·.turn t)).releaseTime? := by
    rw [find?_workload ht]
    cases hfind : (w.onLimiter (·.turn t)).tasks.find? (·.ticket == t) with
    | none => rfl
    | some task =>
      have htask := List.find?_some hfind
      exact releaseTime?_workload ((beq_iff_eq.mp htask).symm ▸ ht) _
  rw [Workload.turn, Workload.turn, ← hturn, hrelease]
  split
  · next time _ =>
    rw [show (v.workload (w.onLimiter (·.turn t))).limiter.now =
      (w.onLimiter (·.turn t)).limiter.now from rfl]
    split
    · exact workload_finish (h.turn t) ht (Limiter.line_turn hline hfree t)
    · exact workload_onLimiter (limiter_callAt ht _ time)
  · rfl

/-- The turn of a ticket that is not seen. -/
theorem workload_turn_of_not_sees (h : v.Sorts w.limiter) (ho : w.limiter.Orderly)
    (ht : v.sees t = false) (hline : w.limiter.pool.line = []) (hfree : 0 < w.limiter.pool.free) :
    v.workload (w.turn t) = v.workload w := by
  have hturn : v.workload (w.onLimiter (·.turn t)) = v.workload w :=
    workload_onLimiter_of_eq (limiter_turn_of_not_sees h ho ht)
  rw [← hturn, Workload.turn]
  split
  · next time _ =>
    split
    · exact workload_finish_of_not_sees (h.turn t) ht (Limiter.line_turn hline hfree t)
    · exact workload_onLimiter_of_eq (limiter_callAt_of_not_sees ht _ time)
  · rfl

/-! ## Who is awaited and whose turn it is -/

/-- The new number of a ticket, if it is seen. -/
def number? (v : View) (t : Ticket) : Option Ticket := if v.sees t then some (v.number t) else none

theorem bind_number?_of_sees (ht : v.sees t = true) :
    (some t).bind v.number? = some (v.number t) :=
  if_pos ht

theorem bind_number?_of_not_sees (ht : v.sees t = false) : (some t).bind v.number? = none := by
  rw [Option.bind_some, number?, ht]
  rfl

/-- Who has been granted in the view was granted. -/
theorem granted_of_workload
    (h : (awaited.bind v.number?).any (v.workload w).limiter.isGranted = true) :
    awaited.any w.limiter.isGranted = true := by
  cases awaited with
  | none => exact h
  | some t =>
    cases ht : v.sees t
    · rw [bind_number?_of_not_sees ht] at h
      cases h
    · rw [bind_number?_of_sees ht] at h
      exact (isGranted_limiter ht w.limiter).symm.trans h

theorem calm_workload (h : w.Calm) : (v.workload w).Calm := by
  show v.pick w.limiter.agenda.called = []
  rw [show w.limiter.agenda.called = [] from h]
  rfl

theorem head?_pick {ts : List Ticket} (h : ts.head? = some t) (ht : v.sees t = true) :
    (v.pick ts).head? = some (v.number t) := by
  obtain ⟨rest, rfl⟩ := List.head?_eq_some_iff.mp h
  rw [pick_cons_of_sees ht]
  rfl

theorem eq_awaited_iff (hu : v.sees u = true) :
    some u = awaited ↔ some (v.number u) = awaited.bind v.number? := by
  cases awaited with
  | none => exact iff_of_false (fun h => by cases h) fun h => by cases h
  | some a =>
    cases ha : v.sees a
    · rw [bind_number?_of_not_sees ha]
      refine iff_of_false (fun h => ?_) fun h => by cases h
      rw [Option.some.inj h, ha] at hu
      cases hu
    · rw [bind_number?_of_sees ha, Option.some_inj, Option.some_inj, v.number_injective.eq_iff]

/-- A ticket that is seen and has the next turn has the next turn in the view. -/
theorem next?_workload (h : w.next? awaited = some t) (ht : v.sees t = true) :
    (v.workload w).next? (awaited.bind v.number?) = some (v.number t) := by
  have hothers : (v.pick w.limiter.agenda.called).filter
      (fun u => some u ≠ awaited.bind v.number?) =
      v.pick (w.limiter.agenda.called.filter fun u => some u ≠ awaited) :=
    (part_filter_of_iff (k := id) fun u hu =>
      decide_eq_decide.mpr (not_congr (eq_awaited_iff hu))).symm
  rw [Workload.next?, Option.or_eq_some_iff] at h ⊢
  show ((v.pick _).filter _).head? = _ ∨ ((v.pick _).filter _).head? = none ∧ (v.pick _).head? = _
  rw [hothers]
  rcases h with h | ⟨hnone, h⟩
  · exact .inl (head?_pick h ht)
  · rw [List.head?_eq_none_iff] at hnone
    exact .inr ⟨by rw [hnone]; rfl, head?_pick h ht⟩

/-- The turn of an awaited ticket that is called. -/
theorem workload_turnOf (h : v.Sorts w.limiter) (ho : w.limiter.Orderly)
    (hline : w.limiter.pool.line = []) (hfree : 0 < w.limiter.pool.free)
    (awaited : Option Ticket) :
    v.workload (w.turnOf awaited) = (v.workload w).turnOf (awaited.bind v.number?) := by
  cases awaited with
  | none => rfl
  | some t =>
    have hcalled (ht : v.sees t = true) :
        (v.workload w).limiter.agenda.called.contains (v.number t) =
          w.limiter.agenda.called.contains t := contains_pick ht
    rw [Workload.turnOf]
    cases ht : v.sees t
    · rw [bind_number?_of_not_sees ht]
      split
      · exact workload_turn_of_not_sees h ho ht hline hfree
      · rfl
    · rw [bind_number?_of_sees ht, Workload.turnOf, hcalled ht]
      split
      · exact workload_turn h ho ht hline hfree
      · rfl

/-! ## Shared limiters -/

theorem line_turn (hline : w.limiter.pool.line = []) (hfree : 0 < w.limiter.pool.free)
    (t : Ticket) : (w.turn t).limiter.pool.line = [] := by
  have hturn : (w.limiter.turn t).pool.line = [] := Limiter.line_turn hline hfree t
  rcases Workload.turn_cases w t with he | he | ⟨time, he⟩
  · rw [he]
    exact hturn
  · rw [he]
    exact Limiter.line_release hturn t
  · rw [he]
    exact hturn

/-- What is known of a limiter that the users of the registry share with others. -/
structure Shared (v : View) (rates : Rates) (globalConcurrency : Nat) (w : Workload) : Prop
    extends w.Punctual rates globalConcurrency where
  alone : (v.workload w).Tended rates globalConcurrency
  sorts : v.Sorts w.limiter
  line : w.limiter.pool.line = []
  permits : ∀ name t, w.permits.get? name = some t → v.sees t = v.names name
  names : ∀ name t, w.names.get? name = some t → v.sees t = v.names name

variable {rates : Rates} {globalConcurrency : Nat} {w' : Workload}

theorem Shared.orderly (h : Shared v rates globalConcurrency w) : w.limiter.Orderly :=
  h.toTended.watched.healthy.orderly

theorem ahead_workload (h : w.limiter.Ahead) : (v.workload w).limiter.Ahead := by
  intro e he
  obtain ⟨e', he', rfl⟩ := List.mem_map.mp he
  exact h e' (List.mem_of_mem_filter he')

theorem Shared.punctual (h : Shared v rates globalConcurrency w) :
    (v.workload w).Punctual rates globalConcurrency :=
  ⟨h.alone, ahead_workload h.ahead⟩

theorem now_workload (v : View) (w : Workload) : (v.workload w).limiter.now = w.limiter.now := rfl

theorem permits_turn (w : Workload) (t : Ticket) : (w.turn t).permits = w.permits := by
  rcases Workload.turn_cases w t with he | he | ⟨time, he⟩ <;> rw [he] <;> rfl

/-- The users stay who they are while they wait. -/
theorem users_step (hs : Workload.WaitStep awaited w w') :
    w'.permits = w.permits ∧ w'.names = w.names := by
  cases hs with
  | turn t => exact ⟨permits_turn w t, Workload.names_turn w t⟩
  | sleep time =>
    unfold Workload.turnOf
    split
    · split
      · exact ⟨permits_turn _ _, Workload.names_turn _ _⟩
      · exact ⟨rfl, rfl⟩
    · exact ⟨rfl, rfl⟩

/-- What is next in the workload is next in the view, or cannot be seen there. -/
theorem Shared.step_workload (h : Shared v rates globalConcurrency w)
    (hfree : 0 < w.limiter.pool.free) (hs : Workload.WaitStep awaited w w') :
    v.workload w' = v.workload w ∨
      Workload.WaitStep (awaited.bind v.number?) (v.workload w) (v.workload w') := by
  cases hs with
  | turn t hnext =>
    cases ht : v.sees t
    · exact .inl (workload_turn_of_not_sees h.sorts h.orderly ht h.line hfree)
    · rw [workload_turn h.sorts h.orderly ht h.line hfree]
      exact .inr (.turn (v.number t) (next?_workload hnext ht))
  | sleep time hcalm hnow halarms =>
    have hslept := h.toTended.onLimiter (.sleepUntil time)
    have hsleep : v.workload (w.onLimiter (·.sleepUntil time)) =
        (v.workload w).onLimiter (·.sleepUntil time) :=
      workload_onLimiter (limiter_sleepUntil v w.limiter time)
    rw [workload_turnOf (h.sorts.leads (w.limiter.leads_sleepUntil time))
      hslept.watched.healthy.orderly h.line hfree, hsleep]
    refine .inr (.sleep time (calm_workload hcalm) hnow fun e he => ?_)
    obtain ⟨e', he', rfl⟩ := List.mem_map.mp he
    exact halarms e' (List.mem_of_mem_filter he')

theorem line_step (hline : w.limiter.pool.line = []) (hfree : 0 < w.limiter.pool.free)
    (hs : Workload.WaitStep awaited w w') : w'.limiter.pool.line = [] := by
  cases hs with
  | turn t => exact line_turn hline hfree t
  | sleep time =>
    unfold Workload.turnOf
    split
    · split
      · exact line_turn (w := w.onLimiter (·.sleepUntil time)) hline hfree _
      · exact hline
    · exact hline

theorem continues_step (hs : Workload.WaitStep awaited w w') : Workload.Continues w w' := by
  cases hs with
  | turn t => exact Workload.continues_turn w t
  | sleep time =>
    have hsleep : Workload.Continues w (w.onLimiter (·.sleepUntil time)) :=
      ⟨w.limiter.leads_sleepUntil time, rfl⟩
    exact hsleep.trans (Workload.continues_turnOf _ awaited)

theorem Shared.step (h : Shared v rates globalConcurrency w) (hfree : 0 < w.limiter.pool.free)
    (hs : Workload.WaitStep awaited w w') : Shared v rates globalConcurrency w' := by
  obtain ⟨hpermits, hnames⟩ := users_step hs
  refine ⟨h.toPunctual.step hs, ?_, h.sorts.leads (continues_step hs).leads,
    line_step h.line hfree hs, hpermits ▸ h.permits, hnames ▸ h.names⟩
  rcases h.step_workload hfree hs with he | hstep
  · rw [he]
    exact h.alone
  · exact (h.punctual.step hstep).toTended

/-- **The users that are seen wait as if they were alone.** -/
theorem Shared.waitUntil_waits {states : List Workload} {target : Nat}
    (h : Shared v rates globalConcurrency w) (hw : Workload.Waits awaited w states w')
    (hfree : ∀ s ∈ states, 0 < s.limiter.pool.free) (htarget : w'.limiter.now ≤ target) :
    Shared v rates globalConcurrency w' ∧
      (v.workload w').waitUntil (awaited.bind v.number?) target =
        (v.workload w).waitUntil (awaited.bind v.number?) target := by
  induction hw with
  | stop => exact ⟨h, rfl⟩
  | @step w w₁ w₂ states hgranted hstep hw ih =>
    have hnow := hfree w List.mem_cons_self
    obtain ⟨hshared, heq⟩ := ih (h.step hnow hstep)
      (fun s hs => hfree s (List.mem_cons_of_mem _ hs)) htarget
    refine ⟨hshared, heq.trans ?_⟩
    rcases h.step_workload hnow hstep with he | hstep'
    · rw [he]
    · exact h.punctual.waitUntil_step (mt granted_of_workload hgranted) hstep'
        (Nat.le_trans hw.now_le htarget)

end View

end TagWatch.Limit
