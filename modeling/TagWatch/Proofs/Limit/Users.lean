import TagWatch.Proofs.Limit.Perform
import TagWatch.Proofs.Limit.Share

/-!
# What users do

Each step of an operation of the users of a registry is the same step in the view of that registry,
and the steps of other users cannot be seen there. Whether a step is seen is a matter of the name
that it is made under: the users of the registry go by names of their own.
-/

namespace TagWatch.Limit

namespace View

open Workload (Tended Punctual Operation)

variable {v : View} {rates : Rates} {globalConcurrency : Nat} {w w' : Workload} {t : Ticket}
  {registry name : String}

/-- Everybody takes a turn who is called. -/
theorem Shared.settle (h : Shared v rates globalConcurrency w)
    (hfree : ∀ s ∈ w.settleStates none, 0 < s.limiter.pool.free) :
    Shared v rates globalConcurrency (w.settle none) ∧
      v.workload (w.settle none) = (v.workload w).settle none := by
  have hcalm : (v.workload (w.settle none)).Calm := calm_workload (h.toTended.settleAll).2
  obtain ⟨hsettled, heq⟩ := h.waitUntil_waits (Workload.waits_settle w none) hfree
    (Nat.le_refl _)
  have hnow := hsettled.punctual.waitUntil_now none
  rw [now_workload, Workload.now_settle] at hnow
  rw [Workload.now_settle, Option.bind_none, hnow, Workload.settle_of_stopped (.inr hcalm)] at heq
  exact ⟨hsettled, heq.trans (h.punctual.waitUntil_now none)⟩

/-! ### Acquisitions -/

/-- The next ticket is seen when it is one of the registry. -/
theorem sees_next (h : v.requests[w.nextTicket]? = some (Registry.canonical registry)) :
    v.sees w.nextTicket = (Registry.canonical registry == v.registry) := by
  rw [sees, h, Option.some_beq_some]

theorem workload_joined (hr : Registry.canonical registry = v.registry)
    (ht : v.sees w.nextTicket = true) :
    v.workload (w.joined registry) = (v.workload w).joined registry := by
  have hcount : v.count (w.nextTicket + 1) = v.count w.nextTicket + 1 := by
    rw [count_succ, if_pos ht]
  have hask := limiter_ask hr w.limiter w.nextTicket
  rw [number_of_sees ht] at hask
  rw [workload, Workload.joined, Workload.joined, hask, hcount]
  rfl

theorem workload_joined_of_not_sees (hr : Registry.canonical registry ≠ v.registry)
    (ht : v.sees w.nextTicket = false) : v.workload (w.joined registry) = v.workload w := by
  have hcount : v.count (w.nextTicket + 1) = v.count w.nextTicket := by
    rw [count_succ, ht]
    rfl
  have hask : v.limiter (w.limiter.ask w.nextTicket registry) = v.limiter w.limiter :=
    limiter_onLane_of_ne hr _
  rw [workload, Workload.joined, hask, hcount]
  rfl

theorem Shared.sorts_joined (h : Shared v rates globalConcurrency w)
    (hnext : v.requests[w.nextTicket]? = some (Registry.canonical registry)) :
    v.Sorts (w.joined registry).limiter := by
  refine h.sorts.ask ?_
  rw [sees_next hnext, beq_iff_eq]

/-- The first turn of an acquisition of the registry. -/
theorem Shared.workload_turn_joined (h : Shared v rates globalConcurrency w)
    (hfree : 0 < w.limiter.pool.free) (hr : Registry.canonical registry = v.registry)
    (hnext : v.requests[w.nextTicket]? = some (Registry.canonical registry)) :
    v.workload ((w.joined registry).turn w.nextTicket) =
      ((v.workload w).joined registry).turn (v.workload w).nextTicket := by
  have ht : v.sees w.nextTicket = true := by rw [sees_next hnext, hr, beq_self_eq_true]
  have ho := (h.toTended.steps_joined registry).watched.healthy.orderly
  rw [workload_turn (h.sorts_joined hnext) ho ht h.line hfree, workload_joined hr ht,
    number_of_sees ht]
  rfl

theorem Shared.workload_turn_joined_of_ne (h : Shared v rates globalConcurrency w)
    (hfree : 0 < w.limiter.pool.free) (hr : Registry.canonical registry ≠ v.registry)
    (hnext : v.requests[w.nextTicket]? = some (Registry.canonical registry)) :
    v.workload ((w.joined registry).turn w.nextTicket) = v.workload w := by
  have ht : v.sees w.nextTicket = false := by rw [sees_next hnext, beq_false_of_ne hr]
  have ho := (h.toTended.steps_joined registry).watched.healthy.orderly
  rw [workload_turn_of_not_sees (h.sorts_joined hnext) ho ht h.line hfree,
    workload_joined_of_not_sees hr ht]

theorem Shared.turn_joined (h : Shared v rates globalConcurrency w)
    (hfree : 0 < w.limiter.pool.free)
    (hnext : v.requests[w.nextTicket]? = some (Registry.canonical registry)) :
    Shared v rates globalConcurrency ((w.joined registry).turn w.nextTicket) := by
  refine ⟨⟨h.toTended.turn_joined registry,
      Workload.ahead_turn (w := w.joined registry) h.ahead _⟩, ?_,
    (h.sorts_joined hnext).leads (Workload.continues_turn _ _).leads,
    line_turn (w := w.joined registry) h.line hfree _, ?_, ?_⟩
  · by_cases hr : Registry.canonical registry = v.registry
    · rw [h.workload_turn_joined hfree hr hnext]
      exact h.alone.turn_joined registry
    · rw [h.workload_turn_joined_of_ne hfree hr hnext]
      exact h.alone
  · rw [permits_turn]
    exact h.permits
  · rw [Workload.names_turn]
    exact h.names

theorem stopped_workload (ht : v.sees t = true) (h : w.Stopped (some t)) :
    (v.workload w).Stopped (some (v.number t)) := by
  rcases h with hgranted | hcalm
  · exact .inl ((isGranted_limiter ht w.limiter).trans hgranted)
  · exact .inr (calm_workload hcalm)

/-- A wait for a permit of the registry. -/
theorem Shared.awaiting (h : Shared v rates globalConcurrency w) (hcalm : w.Calm)
    (hr : Registry.canonical registry = v.registry)
    (hnext : v.requests[w.nextTicket]? = some (Registry.canonical registry)) {timeout : Nat}
    (hfree : ∀ s ∈ w.awaitingStates (.acquire registry name timeout), 0 < s.limiter.pool.free) :
    Shared v rates globalConcurrency (w.awaiting registry timeout) ∧
      v.workload (w.awaiting registry timeout) =
        (v.workload w).awaiting registry timeout := by
  have ht : v.sees w.nextTicket = true := by rw [sees_next hnext, hr, beq_self_eq_true]
  have hfirst : 0 < w.limiter.pool.free := hfree (w.joined registry) List.mem_cons_self
  have hwaited := h.toPunctual.waited_awaiting hcalm registry timeout
  obtain ⟨hshared, heq⟩ := (h.turn_joined hfirst hnext).waitUntil_waits hwaited.waits
    (fun s hs => hfree s (List.mem_cons_of_mem _ (List.mem_append_left _ hs))) hwaited.le
  refine ⟨hshared, ?_⟩
  have hstopped := stopped_workload ht (Workload.stopped_turn_joined hcalm registry)
  -- the wait is over: its ticket has been granted, or the time is up
  have hover : (v.workload (w.awaiting registry timeout)).waitUntil (some (v.number w.nextTicket))
      (w.limiter.now + timeout) = v.workload (w.awaiting registry timeout) := by
    by_cases hgranted : (w.awaiting registry timeout).limiter.isGranted w.nextTicket = true
    · have hview : (some (v.number w.nextTicket)).any
          (v.workload (w.awaiting registry timeout)).limiter.isGranted = true :=
        (isGranted_limiter ht _).trans hgranted
      exact Workload.waitUntil_of_granted hview _
    · have hnow := Workload.waitUntil_now hshared.punctual.ahead
        (stopped_workload ht hwaited.stopped)
      rwa [now_workload, hwaited.lasts hgranted] at hnow
  rw [bind_number?_of_sees ht, hover, Workload.waitUntil_of_stopped hstopped, now_workload,
    Workload.now_turn_joined, h.workload_turn_joined hfirst hr hnext, number_of_sees ht] at heq
  exact heq

/-- A wait for a permit of another registry. -/
theorem Shared.awaiting_of_ne (h : Shared v rates globalConcurrency w) (hcalm : w.Calm)
    (hr : Registry.canonical registry ≠ v.registry)
    (hnext : v.requests[w.nextTicket]? = some (Registry.canonical registry)) {timeout : Nat}
    (hfree : ∀ s ∈ w.awaitingStates (.acquire registry name timeout), 0 < s.limiter.pool.free) :
    Shared v rates globalConcurrency (w.awaiting registry timeout) ∧
      (v.workload (w.awaiting registry timeout)).waitUntil none
          (w.awaiting registry timeout).limiter.now =
        (v.workload w).waitUntil none (w.awaiting registry timeout).limiter.now := by
  have ht : v.sees w.nextTicket = false := by rw [sees_next hnext, beq_false_of_ne hr]
  have hfirst : 0 < w.limiter.pool.free := hfree (w.joined registry) List.mem_cons_self
  have hwaited := h.toPunctual.waited_awaiting hcalm registry timeout
  have hwait := (h.turn_joined hfirst hnext).waitUntil_waits hwaited.waits
    (fun s hs => hfree s (List.mem_cons_of_mem _ (List.mem_append_left _ hs))) (Nat.le_refl _)
  rwa [bind_number?_of_not_sees ht, h.workload_turn_joined_of_ne hfirst hr hnext] at hwait

/-! ### Permits -/

/-- A name comes to stand for a ticket. -/
theorem part_set_of_names (hname : v.names name = true) (table : Table String Ticket)
    (t : Ticket) :
    (table.set name t).part v.names v.number =
      (table.part v.names v.number).set name (v.number t) := by
  rw [Table.part_set, hname, if_pos rfl]

theorem part_set_of_not_names (hname : v.names name = false) (table : Table String Ticket)
    (t : Ticket) : (table.set name t).part v.names v.number = table.part v.names v.number := by
  rw [Table.part_set, hname, if_neg Bool.false_ne_true]

theorem get?_part_of_names (hname : v.names name = true) (table : Table String Ticket) :
    (table.part v.names v.number).get? name = (table.get? name).map v.number := by
  rw [Table.get?_part, hname, if_pos rfl]

/-- A table of tickets by name after a name has come to stand for a ticket. -/
theorem sees_set {table : Table String Ticket}
    (h : ∀ name t, table.get? name = some t → v.sees t = v.names name)
    (ht : v.sees t = v.names name) :
    ∀ name' u, (table.set name t).get? name' = some u → v.sees u = v.names name' := by
  intro name' u hu
  rw [Table.get?_set] at hu
  split at hu
  · next he =>
    cases hu
    rw [he]
    exact ht
  · exact h name' u hu

theorem Shared.workload_keep (h : Shared v rates globalConcurrency w)
    (hname : v.names name = true) (t : Ticket) :
    v.workload (w.keep name t) = (v.workload w).keep name (v.number t) := by
  have hset : v.workload { w with permits := w.permits.set name t } =
      { v.workload w with permits := (v.workload w).permits.set name (v.number t) } :=
    congrArg (fun permits => { v.workload w with permits := permits })
      (part_set_of_names hname w.permits t)
  rw [Workload.keep, Workload.keep, show (v.workload w).permits.get? name =
    (w.permits.get? name).map v.number from get?_part_of_names hname w.permits, ← hset]
  cases hold : w.permits.get? name with
  | none => rfl
  | some old =>
    have hsees : v.sees old = true := (h.permits name old hold).trans hname
    exact workload_onLimiter (limiter_release h.sorts hsees h.line)

theorem Shared.workload_keep_of_not_names (h : Shared v rates globalConcurrency w)
    (hname : v.names name = false) (t : Ticket) :
    v.workload (w.keep name t) = v.workload w := by
  have hset : v.workload { w with permits := w.permits.set name t } = v.workload w :=
    congrArg (fun permits => { v.workload w with permits := permits })
      (part_set_of_not_names hname w.permits t)
  rw [Workload.keep, ← hset]
  cases hold : w.permits.get? name with
  | none => rfl
  | some old =>
    have hsees : v.sees old = false := (h.permits name old hold).trans hname
    exact workload_onLimiter_of_eq (limiter_release_of_not_sees h.sorts hsees h.line)

/-- The permit of a ticket is held under a name. -/
theorem Shared.keep (h : Shared v rates globalConcurrency w) (ht : v.sees t = v.names name) :
    Shared v rates globalConcurrency (w.keep name t) := by
  have hcontinues := Workload.continues_keep w name t
  refine ⟨⟨h.toTended.keep name t, ?_⟩, ?_, h.sorts.leads hcontinues.leads, ?_, ?_, ?_⟩
  · rw [Workload.keep]
    split
    · exact h.ahead.release _
    · exact h.ahead
  · cases hname : v.names name
    · rw [h.workload_keep_of_not_names hname]
      exact h.alone
    · rw [h.workload_keep hname]
      exact h.alone.keep name _
  · rw [Workload.keep]
    split
    · exact Limiter.line_release h.line _
    · exact h.line
  · rw [Workload.keep]
    split
    · exact sees_set h.permits ht
    · exact sees_set h.permits ht
  · rw [Workload.keep]
    split
    · exact h.names
    · exact h.names

theorem Shared.workload_abandon (h : Shared v rates globalConcurrency w) (ht : v.sees t = true) :
    v.workload (w.onLimiter (·.abandon t)) =
      (v.workload w).onLimiter (·.abandon (v.number t)) :=
  workload_onLimiter (limiter_abandon h.sorts h.orderly ht h.line)

theorem Shared.workload_abandon_of_not_sees (h : Shared v rates globalConcurrency w)
    (ht : v.sees t = false) : v.workload (w.onLimiter (·.abandon t)) = v.workload w :=
  workload_onLimiter_of_eq (limiter_abandon_of_not_sees h.sorts h.orderly ht h.line)

/-- A ticket is given up. -/
theorem Shared.abandon (h : Shared v rates globalConcurrency w) (t : Ticket) :
    Shared v rates globalConcurrency (w.onLimiter (·.abandon t)) := by
  refine ⟨⟨h.toTended.onLimiter (.abandon t), h.ahead.abandon t⟩, ?_,
    h.sorts.leads (Limiter.leads_abandon _ t), Limiter.line_abandon h.line t, h.permits, h.names⟩
  cases ht : v.sees t
  · rw [h.workload_abandon_of_not_sees ht]
    exact h.alone
  · rw [h.workload_abandon ht]
    exact h.alone.onLimiter (.abandon _)

theorem Shared.workload_resolve (h : Shared v rates globalConcurrency w)
    (hname : v.names name = true) (ht : v.sees t = true) :
    v.workload (w.resolve name t) = (v.workload w).resolve name (v.number t) := by
  rw [Workload.resolve, Workload.resolve,
    show (v.workload w).limiter.isGranted (v.number t) = w.limiter.isGranted t from
      isGranted_limiter ht w.limiter]
  split
  · exact h.workload_keep hname t
  · exact h.workload_abandon ht

theorem Shared.workload_resolve_of_not_sees (h : Shared v rates globalConcurrency w)
    (hname : v.names name = false) (ht : v.sees t = false) :
    v.workload (w.resolve name t) = v.workload w := by
  rw [Workload.resolve]
  split
  · exact h.workload_keep_of_not_names hname t
  · exact h.workload_abandon_of_not_sees ht

theorem Shared.resolve (h : Shared v rates globalConcurrency w) (ht : v.sees t = v.names name) :
    Shared v rates globalConcurrency (w.resolve name t) := by
  rw [Workload.resolve]
  split
  · exact h.keep ht
  · exact h.abandon t

/-! ### Tasks -/

theorem workload_spawned (hr : Registry.canonical registry = v.registry)
    (hname : v.names name = true) (ht : v.sees w.nextTicket = true) (hold : Hold) :
    v.workload (w.spawned registry name hold) = (v.workload w).spawned registry name hold := by
  have hnumber : v.number w.nextTicket = (v.workload w).nextTicket := number_of_sees ht
  have hjoined : v.workload (w.joined registry) = (v.workload w).joined registry :=
    workload_joined hr ht
  have hcall : v.limiter ((w.joined registry).limiter.call w.nextTicket) =
      ((v.workload w).joined registry).limiter.call (v.workload w).nextTicket := by
    rw [← hjoined, ← hnumber]
    exact limiter_onAgenda (agenda_call_of_sees ht)
  rw [workload, Workload.mk.injEq]
  refine ⟨hcall, congrArg Workload.nextTicket hjoined, rfl, ?_, ?_⟩
  · have htask : v.task ⟨w.nextTicket, hold, false, false⟩ =
        ⟨(v.workload w).nextTicket, hold, false, false⟩ := by rw [task, hnumber]
    refine (part_append_of_sees (k := Task.ticket) ht).trans ?_
    rw [htask]
    rfl
  · refine (part_set_of_names hname w.names w.nextTicket).trans ?_
    rw [hnumber]
    rfl

theorem workload_spawned_of_ne (hr : Registry.canonical registry ≠ v.registry)
    (hname : v.names name = false) (ht : v.sees w.nextTicket = false) (hold : Hold) :
    v.workload (w.spawned registry name hold) = v.workload w := by
  have hjoined : v.workload (w.joined registry) = v.workload w := workload_joined_of_not_sees hr ht
  have hcall : v.limiter ((w.joined registry).limiter.call w.nextTicket) = v.limiter w.limiter :=
    (limiter_onAgenda_of_eq (agenda_call_of_not_sees ht)).trans
      (congrArg Workload.limiter hjoined)
  rw [workload, workload, Workload.mk.injEq]
  refine ⟨hcall, congrArg Workload.nextTicket hjoined, rfl, ?_, ?_⟩
  · exact part_append_of_not_sees (k := Task.ticket) (x := ⟨w.nextTicket, hold, false, false⟩) ht
  · exact part_set_of_not_names hname w.names w.nextTicket

theorem Shared.spawned (h : Shared v rates globalConcurrency w)
    (hname : v.names name = (Registry.canonical registry == v.registry))
    (hnext : v.requests[w.nextTicket]? = some (Registry.canonical registry)) (hold : Hold) :
    Shared v rates globalConcurrency (w.spawned registry name hold) := by
  have hsees := sees_next hnext
  refine ⟨⟨h.toTended.spawned registry name hold, Limiter.Ahead.call h.ahead _⟩, ?_,
    (h.sorts_joined hnext).leads (Limiter.leads_call _ _), h.line, h.permits,
    sees_set h.names (hsees.trans hname.symm)⟩
  by_cases hr : Registry.canonical registry = v.registry
  · rw [hr, beq_self_eq_true] at hname hsees
    rw [workload_spawned hr hname hsees]
    exact h.alone.spawned registry name hold
  · rw [beq_false_of_ne hr] at hname hsees
    rw [workload_spawned_of_ne hr hname hsees]
    exact h.alone

/-! ### Releases and aborts -/

theorem Shared.workload_released (h : Shared v rates globalConcurrency w)
    (hname : v.names name = true) :
    v.workload (w.released name) = (v.workload w).released name := by
  have hpermit := get?_part_of_names hname w.permits
  have htask := get?_part_of_names hname w.names
  rw [Workload.released, Workload.released, show (v.workload w).permits.get? name = _ from hpermit,
    show (v.workload w).names.get? name = _ from htask]
  cases hheld : w.permits.get? name with
  | some t =>
    have ht : v.sees t = true := (h.permits name t hheld).trans hname
    have hdrop : v.workload { w with permits := w.permits.filter fun name' _ => name' ≠ name } =
        { v.workload w with
          permits := (v.workload w).permits.filter fun name' _ => name' ≠ name } :=
      congrArg (fun permits => { v.workload w with permits := permits })
        (Table.part_filter v.names v.number (fun name' => name' ≠ name) w.permits)
    rw [Option.map_some, ← hdrop]
    exact workload_onLimiter (limiter_release h.sorts ht h.line)
  | none =>
    cases hspawned : w.names.get? name with
    | some t =>
      have ht : v.sees t = true := (h.names name t hspawned).trans hname
      rw [Option.map_none, Option.map_some]
      dsimp only
      rw [← workload_onTask (f := fun task => { task with told := true }) (fun _ => rfl)
        fun _ => rfl]
      exact workload_onLimiter (limiter_onAgenda (agenda_call_of_sees ht))
    | none => rfl

theorem Shared.workload_released_of_not_names (h : Shared v rates globalConcurrency w)
    (hname : v.names name = false) : v.workload (w.released name) = v.workload w := by
  rw [Workload.released]
  cases hheld : w.permits.get? name with
  | some t =>
    have ht : v.sees t = false := (h.permits name t hheld).trans hname
    have hdrop : (w.permits.filter fun name' _ => name' ≠ name).part v.names v.number =
        w.permits.part v.names v.number := by
      refine Table.part_filter_of_imp _ _ (fun name' hname' => decide_eq_true ?_) w.permits
      rintro rfl
      exact Bool.false_ne_true (hname.symm.trans hname')
    have hpermits : v.workload { w with permits := w.permits.filter fun name' _ => name' ≠ name } =
        v.workload w := congrArg (fun permits => { v.workload w with permits := permits }) hdrop
    rw [← hpermits]
    exact workload_onLimiter_of_eq (limiter_release_of_not_sees h.sorts ht h.line)
  | none =>
    cases hspawned : w.names.get? name with
    | some t =>
      have ht : v.sees t = false := (h.names name t hspawned).trans hname
      have htold := workload_onTask_of_not_sees (f := fun task => { task with told := true })
        (fun _ => rfl) ht w
      rw [← htold]
      exact workload_onLimiter_of_eq (limiter_onAgenda_of_eq (agenda_call_of_not_sees ht))
    | none => rfl

theorem Shared.released (h : Shared v rates globalConcurrency w) (name : String) :
    Shared v rates globalConcurrency (w.released name) := by
  have htended := h.toTended.released name
  have halone : (v.workload (w.released name)).Tended rates globalConcurrency := by
    cases hname : v.names name
    · rw [h.workload_released_of_not_names hname]
      exact h.alone
    · rw [h.workload_released hname]
      exact h.alone.released name
  rw [Workload.released] at halone htended ⊢
  cases hheld : w.permits.get? name with
  | some t =>
    rw [hheld] at halone htended
    refine ⟨⟨htended, h.ahead.release t⟩, halone, h.sorts.leads (Limiter.leads_release _ t),
      Limiter.line_release h.line t, fun name' u hu => ?_, h.names⟩
    change (w.permits.filter fun name' _ => name' ≠ name).get? name' = some u at hu
    rw [Table.get?_filter (fun name' => name' ≠ name)] at hu
    split at hu
    · exact h.permits name' u hu
    · cases hu
  | none =>
    rw [hheld] at halone htended
    cases hspawned : w.names.get? name with
    | some t =>
      rw [hspawned] at halone htended
      exact ⟨⟨htended, h.ahead.call t⟩, halone, h.sorts.leads (Limiter.leads_call _ t), h.line,
        h.permits, h.names⟩
    | none => exact h

theorem Shared.workload_aborted (h : Shared v rates globalConcurrency w)
    (hname : v.names name = true) :
    v.workload (w.aborted name) = (v.workload w).aborted name := by
  rw [Workload.aborted, Workload.aborted, show (v.workload w).names.get? name = _ from
    get?_part_of_names hname w.names]
  cases hspawned : w.names.get? name with
  | some t =>
    have ht : v.sees t = true := (h.names name t hspawned).trans hname
    rw [Option.map_some]
    dsimp only
    rw [← workload_onTask (f := fun task => { task with finished := true }) (fun _ => rfl)
      fun _ => rfl]
    exact workload_onLimiter (limiter_abandon h.sorts h.orderly ht h.line)
  | none => rfl

theorem Shared.workload_aborted_of_not_names (h : Shared v rates globalConcurrency w)
    (hname : v.names name = false) : v.workload (w.aborted name) = v.workload w := by
  rw [Workload.aborted]
  cases hspawned : w.names.get? name with
  | some t =>
    have ht : v.sees t = false := (h.names name t hspawned).trans hname
    rw [← workload_onTask_of_not_sees (f := fun task => { task with finished := true })
      (fun _ => rfl) ht w]
    exact workload_onLimiter_of_eq (limiter_abandon_of_not_sees h.sorts h.orderly ht h.line)
  | none => rfl

theorem Shared.aborted (h : Shared v rates globalConcurrency w) (name : String) :
    Shared v rates globalConcurrency (w.aborted name) := by
  have htended := h.toTended.aborted name
  have halone : (v.workload (w.aborted name)).Tended rates globalConcurrency := by
    cases hname : v.names name
    · rw [h.workload_aborted_of_not_names hname]
      exact h.alone
    · rw [h.workload_aborted hname]
      exact h.alone.aborted name
  rw [Workload.aborted] at halone htended ⊢
  cases hspawned : w.names.get? name with
  | some t =>
    rw [hspawned] at halone htended
    exact ⟨⟨htended, h.ahead.abandon t⟩, halone, h.sorts.leads (Limiter.leads_abandon _ t),
      Limiter.line_abandon h.line t, h.permits, h.names⟩
  | none => exact h

/-! ### The counters -/

theorem workload_resetMetrics (v : View) (w : Workload) :
    v.workload (w.onLimiter (·.resetMetrics)) = (v.workload w).onLimiter (·.resetMetrics) :=
  workload_onLimiter (limiter_resetMetrics v w.limiter)

theorem Shared.resetMetrics (h : Shared v rates globalConcurrency w) :
    Shared v rates globalConcurrency (w.onLimiter (·.resetMetrics)) := by
  refine ⟨⟨h.toTended.onLimiter .resetMetrics, h.ahead⟩, ?_,
    h.sorts.leads ⟨[.resetMetrics], rfl, rfl⟩, h.line, h.permits, h.names⟩
  rw [workload_resetMetrics]
  exact h.alone.onLimiter .resetMetrics

end View

end TagWatch.Limit
