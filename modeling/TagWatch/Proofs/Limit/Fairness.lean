import TagWatch.Proofs.Limit.Perform
import TagWatch.Proofs.Limit.Prompt
import TagWatch.Proofs.Limit.Queue

/-!
# Permits in the order of the requests

**Theorem (`Workload.granted_in_request_order`).** The permits of one registry are granted in the
order in which they were requested, without those, and only those, whose acquisitions gave up; and
nobody overtakes a ticket that still waits. This holds of every run that keeps the lines for slots,
whoever else asks, releases or gives up meanwhile, and of everything that users of a workload do.
Where two slots are kept at once and the later ticket comes to its slot first, it does not hold
(`Workload.granted_overtaken`).

The first half is the roll of a run (`Limiter.Orderly.roll_run`). For the second half a workload has
to keep the lines, although its turns come in the order of the calls: `Workload.Ordered.perform`
says that each of its operations makes a run that does (`Limiter.Advances`). The invariant is that
whoever has a kept slot is called in the order of the line (`Limiter.Prompt`). The awaited ticket of
an acquisition lets others go first and still comes in order, because it is the last in its line.
-/

namespace TagWatch.Limit

/-! ## Limiters that go on in order -/

namespace Limiter

variable {s s' s'' : Limiter} {t : Ticket} {r : String}
  {new new' : List (Ticket × String)} {gone gone' : List Ticket}

/-- A limiter comes from another one by a run that keeps the lines, in which these acquisitions are
requested and these tickets give up. -/
def Advances (s s' : Limiter) (new : List (Ticket × String)) (gone : List Ticket) : Prop :=
  ∃ moves, s' = s.run moves ∧ requests moves = new ∧ s.KeepsLines moves ∧ s.givenUp moves = gone

theorem Advances.refl (s : Limiter) : s.Advances s [] [] := ⟨[], rfl, rfl, trivial, rfl⟩

theorem Advances.trans (h : s.Advances s' new gone) (h' : s'.Advances s'' new' gone') :
    s.Advances s'' (new ++ new') (gone ++ gone') := by
  obtain ⟨moves, rfl, rfl, hkeeps, rfl⟩ := h
  obtain ⟨moves', rfl, rfl, hkeeps', rfl⟩ := h'
  exact ⟨moves ++ moves', (run_append s moves moves').symm, requests_append moves moves',
    keepsLines_append.mpr ⟨hkeeps, hkeeps'⟩, givenUp_append s moves moves'⟩

/-- Nobody comes or gives up later on. -/
theorem Advances.further (h : s.Advances s' new gone) (h' : s'.Advances s'' [] []) :
    s.Advances s'' new gone := by
  have htrans := h.trans h'
  rwa [List.append_nil, List.append_nil] at htrans

/-- A single move, other than taking a slot. -/
theorem advances_move (s : Limiter) (m : Move) (hkeeps : s.KeepsLine m) :
    s.Advances (s.move m) m.request?.toList (s.givesUp? m).toList := by
  refine ⟨[m], rfl, ?_, ⟨hkeeps, trivial⟩, List.append_nil _⟩
  rw [requests_cons]
  exact List.append_nil _

theorem advances_plan (s : Limiter) (f : Agenda → Agenda) (h : (f s.agenda).now = s.now) :
    s.Advances (s.onAgenda f) [] [] := by
  rw [s.onAgenda_eq_move f h]
  exact s.advances_move (.plan (f s.agenda).called (f s.agenda).alarms) trivial

/-- Whoever takes a turn keeps the line of its lane if it is the first in it. -/
theorem advances_turn (h : s.GoesFirst t) : s.Advances (s.turn t) [] [] := by
  have htake : s.Advances (s.onAgenda (·.take t)) [] [] := advances_plan s (·.take t) rfl
  rw [turn]
  split
  · next r _ =>
    refine htake.trans ⟨[.seat t r, .enter t r, .wake t r, .look t r, .grant t r], rfl, rfl, ?_, rfl⟩
    exact ⟨h r, trivial, trivial, trivial, trivial, trivial⟩
  · exact htake

/-- **The roll of a limiter that goes on.** -/
theorem Advances.roll (h : s.Advances s' new gone) (ho : s.Orderly)
    (hd : (new.map Prod.fst).Nodup) (hu : ∀ t ∈ new.map Prod.fst, s.Unused t) (r : String) :
    s'.roll r = (s.roll r ++ ticketsFor r new).filter (· ∉ gone) := by
  obtain ⟨moves, rfl, rfl, hkeeps, rfl⟩ := h
  rw [map_fst_requests] at hd hu
  exact ho.roll_run ⟨hd, hu⟩ hkeeps r

end Limiter

namespace Workload

open Limiter (Advances)

variable {rates : Rates} {globalConcurrency : Nat} {w w' : Workload} {t : Ticket}
  {awaited : Option Ticket}

/-! ## Turns in order -/

/-- A tended workload in which slots are kept for the tickets that take the next turns. -/
structure Ordered (rates : Rates) (globalConcurrency : Nat) (w : Workload) : Prop
    extends Tended rates globalConcurrency w where
  prompt : w.limiter.Prompt

/-- A workload goes on in order while nobody comes or gives up. -/
structure GoesOn (rates : Rates) (globalConcurrency : Nat) (w w' : Workload) : Prop
    extends Ordered rates globalConcurrency w' where
  advances : w.limiter.Advances w'.limiter [] []

theorem advances_turn (h : w.limiter.GoesFirst t) :
    w.limiter.Advances (w.turn t).limiter [] [] := by
  have hturn := Limiter.advances_turn h
  rcases turn_cases w t with he | he | ⟨time, he⟩
  · rw [he]
    exact hturn
  · rw [he]
    exact hturn.trans (Limiter.advances_move _ (.release t) trivial)
  · rw [he]
    exact hturn.trans (Limiter.advances_plan _ (·.callAt time t) (Limiter.now_callAt _ time t))

/-- The turn of a ticket, also when it is the first one, puts the calls in order. -/
theorem prompt_turn {running : List Ticket}
    (h : Session.Watched rates globalConcurrency ⟨w.limiter, w.nextTicket, running⟩)
    (hbut : w.limiter.PromptBut t) : (w.turn t).limiter.Prompt := by
  have hturn := hbut.turn h.healthy
  have hturned := (h.steps (h.steps_turn t)).healthy
  by_cases hgranted : (w.limiter.turn t).isGranted t = true
  · rcases turn_cases w t with he | he | ⟨time, he⟩
    · rw [he]
      exact hturn
    · rw [he]
      exact hturn.release hturned t
    · -- whoever has been granted waits nowhere
      have hidle : (w.limiter.turn t).Idle t := fun r ht =>
        hturned.orderly.ungranted ht (Limiter.isGranted_iff.mp hgranted)
      rw [he]
      exact hturn.callAt time hidle.not_mem_line
  · rw [turn_of_not_granted hgranted]
    exact hturn

theorem GoesOn.refl (h : Ordered rates globalConcurrency w) :
    GoesOn rates globalConcurrency w w :=
  ⟨h, .refl _⟩

theorem GoesOn.trans {w'' : Workload} (h : GoesOn rates globalConcurrency w w')
    (h' : GoesOn rates globalConcurrency w' w'') : GoesOn rates globalConcurrency w w'' :=
  ⟨h'.toOrdered, h.advances.trans h'.advances⟩

/-- The next turn is due. -/
theorem Ordered.turn (h : Ordered rates globalConcurrency w)
    (ht : t ∈ w.limiter.agenda.called) (hfirst : w.limiter.GoesFirst t) :
    GoesOn rates globalConcurrency w (w.turn t) :=
  ⟨⟨h.toTended.turn ht, prompt_turn h.toTended.watched (h.prompt.but t)⟩, advances_turn hfirst⟩

/-- The awaited ticket, if any, is the latest one. -/
def AwaitsLatest (w : Workload) (awaited : Option Ticket) : Prop :=
  ∀ t, awaited = some t → w.nextTicket = t + 1

/-- Only an awaited ticket lets others go first. -/
theorem next?_split (h : w.next? awaited = some t) :
    ∃ earlier later, w.limiter.agenda.called = earlier ++ t :: later ∧
      ∀ u ∈ earlier, awaited = some u := by
  rw [next?, List.head?_filter, Option.or_eq_some_iff] at h
  rcases h with h | ⟨-, h⟩
  · obtain ⟨-, earlier, later, hcalled, hearlier⟩ := List.find?_eq_some_iff_append.mp h
    refine ⟨earlier, later, hcalled, fun u hu => ?_⟩
    have hsame := hearlier u hu
    rw [Bool.not_eq_true', decide_eq_false_iff_not, not_not] at hsame
    exact hsame.symm
  · obtain ⟨later, hcalled⟩ := List.head?_eq_some_iff.mp h
    exact ⟨[], later, hcalled, fun u hu => absurd hu List.not_mem_nil⟩

theorem Ordered.turn_next (h : Ordered rates globalConcurrency w) (ha : w.AwaitsLatest awaited)
    (hnext : w.next? awaited = some t) : GoesOn rates globalConcurrency w (w.turn t) := by
  have hcalled := called_of_next? hnext
  obtain ⟨earlier, later, hsplit, hearlier⟩ := next?_split hnext
  refine h.turn hcalled (h.prompt.goesFirst h.toTended.watched.numbered.below.once hsplit ?_)
  intro u hu
  have hlt := h.toTended.lt_of_called hcalled
  rw [ha u (hearlier u hu)] at hlt
  exact Nat.le_of_lt_succ hlt

theorem Ordered.takeTurns (h : Ordered rates globalConcurrency w) (ha : w.AwaitsLatest awaited)
    (fuel : Nat) : GoesOn rates globalConcurrency w (takeTurns awaited fuel w) := by
  induction fuel generalizing w with
  | zero => exact .refl h
  | succ fuel ih =>
    rw [Workload.takeTurns]
    split
    · exact .refl h
    · split
      · next t hnext =>
        have hturn := h.turn_next ha hnext
        exact hturn.trans (ih hturn.toOrdered fun u hu => (nextTicket_turn w t).trans (ha u hu))
      · exact .refl h

theorem Ordered.settle (h : Ordered rates globalConcurrency w) (ha : w.AwaitsLatest awaited) :
    GoesOn rates globalConcurrency w (w.settle awaited) :=
  h.takeTurns ha _

theorem awaitsLatest_none (w : Workload) : w.AwaitsLatest none := fun _ h => nomatch h

/-! ## Time -/

theorem Ordered.sleepUntil (h : Ordered rates globalConcurrency w) (ha : w.AwaitsLatest awaited)
    (hcalm : w.Calm) (time : Nat) :
    GoesOn rates globalConcurrency w (w.sleepUntil awaited time) := by
  have hslept : GoesOn rates globalConcurrency w (w.onLimiter (·.sleepUntil time)) :=
    ⟨⟨h.toTended.onLimiter (.sleepUntil time), h.prompt.sleepUntil time⟩,
      Limiter.advances_move _ (.sleepUntil time) trivial⟩
  have hturned : GoesOn rates globalConcurrency (w.onLimiter (·.sleepUntil time))
      ((w.onLimiter (·.sleepUntil time)).turnOf awaited) := by
    unfold Workload.turnOf
    split
    · split
      · next t hc =>
        exact hslept.toOrdered.turn (List.contains_iff_mem.mp hc)
          (h.prompt.goesFirst_of_calm hcalm t)
      · exact .refl hslept.toOrdered
    · exact .refl hslept.toOrdered
  have hnext := (continues_turnOf (w.onLimiter (·.sleepUntil time)) awaited).nextTicket
  exact (hslept.trans hturned).trans
    (hturned.toOrdered.settle fun t ht => hnext.trans (ha t ht))

/-- Time passes in order. -/
theorem Ordered.passUntil (h : Ordered rates globalConcurrency w) (ha : w.AwaitsLatest awaited)
    (hstopped : w.Stopped awaited) (time target : Nat) :
    GoesOn rates globalConcurrency w (passUntil awaited w time target) ∧
      (passUntil awaited w time target).Stopped awaited := by
  have hsleep {w : Workload} (h : Ordered rates globalConcurrency w) (ha : w.AwaitsLatest awaited)
      (hstopped : w.Stopped awaited) (hgranted : ¬ awaited.any w.limiter.isGranted = true)
      (time : Nat) : GoesOn rates globalConcurrency w (w.sleepUntil awaited time) ∧
        (w.sleepUntil awaited time).Stopped awaited :=
    ⟨h.sleepUntil ha (hstopped.resolve_left hgranted) time,
      ((h.toTended.onLimiter (.sleepUntil time)).turnOf awaited).stopped_settle awaited⟩
  fun_induction Workload.passUntil awaited w time target with
  | case1 w time hgranted => exact ⟨.refl h, hstopped⟩
  | case2 w time hgranted alarm _ _ ih =>
    obtain ⟨hslept, hstopped'⟩ := hsleep h ha hstopped hgranted alarm
    have hnext := (continues_sleepUntil w awaited alarm).nextTicket
    obtain ⟨hrest, hend⟩ := ih hslept.toOrdered (fun t ht => hnext.trans (ha t ht)) hstopped'
    exact ⟨hslept.trans hrest, hend⟩
  | case3 w time hgranted => exact hsleep h ha hstopped hgranted _
  | case4 w time hgranted => exact hsleep h ha hstopped hgranted _

/-! ## Operations -/

/-- Somebody is called while nobody else is, and takes the first turn. -/
theorem Ordered.settle_called (ht : Tended rates globalConcurrency w)
    (hcalled : w.limiter.agenda.called = [t]) (hbut : w.limiter.PromptBut t)
    (hfirst : w.limiter.GoesFirst t) :
    GoesOn rates globalConcurrency w (w.settle none) := by
  have hnext : w.next? none = some t := by
    rw [next?, hcalled]
    rfl
  have hmem : t ∈ w.limiter.agenda.called := hcalled ▸ List.mem_singleton_self t
  have hturn : GoesOn rates globalConcurrency w (w.turn t) :=
    ⟨⟨ht.turn hmem, prompt_turn ht.watched hbut⟩, advances_turn hfirst⟩
  have hsettle : (w.turn t).settle none = w.settle none :=
    ht.settle_turn Bool.false_ne_true hnext
  rw [← hsettle]
  exact hturn.trans (hturn.toOrdered.settle (awaitsLatest_none _))

theorem Ordered.release (h : Ordered rates globalConcurrency w) (t : Ticket) :
    GoesOn rates globalConcurrency w (w.onLimiter (·.release t)) :=
  ⟨⟨h.toTended.onLimiter (.release t), h.prompt.release h.toTended.watched.healthy t⟩,
    Limiter.advances_move _ (.release t) trivial⟩

theorem Ordered.keep (h : Ordered rates globalConcurrency w) (name : String) (t : Ticket) :
    GoesOn rates globalConcurrency w (w.keep name t) := by
  refine ⟨⟨h.toTended.keep name t, ?_⟩, ?_⟩
  · rw [Workload.keep]
    split
    · exact h.prompt.release h.toTended.watched.healthy _
    · exact h.prompt
  · rw [Workload.keep]
    split
    · exact Limiter.advances_move _ (.release _) trivial
    · exact .refl _

theorem isSome_acquire (w : Workload) (registry name : String) (timeout : Nat) :
    (w.acquire registry name timeout).2.isSome =
      (w.awaiting registry timeout).limiter.isGranted w.nextTicket := by
  rw [acquire, Limiter.isGranted]
  split
  · next grant hgrant =>
    rw [show (w.awaiting registry timeout).limiter.grantOf? w.nextTicket = _ from hgrant]
  · next hgrant =>
    rw [show (w.awaiting registry timeout).limiter.grantOf? w.nextTicket = _ from hgrant]

/-- The requests for permits of some registries, numbered from a ticket on. -/
def numbered (first : Ticket) (registries : List String) : List (Ticket × String) :=
  (registries.zipIdx first).map Prod.swap

theorem numbered_singleton (first : Ticket) (registry : String) :
    numbered first [registry] = [(first, registry)] := rfl

/-- The ticket that stops waiting without a permit by an operation: that of an acquisition whose
time is over, or that of an aborted task. -/
def givesUp? (w : Workload) : Operation → Option Ticket
  | .acquire registry name timeout =>
    if (w.acquire registry name timeout).2.isSome then none else some w.nextTicket
  | .abort name => (w.names.get? name).filter fun t => (w.limiter.registryOf? t).isSome
  | _ => none

/-- The tickets that stop waiting without a permit by some operations. -/
def givenUp : Workload → List Operation → List Ticket
  | _, [] => []
  | w, op :: ops => (w.givesUp? op).toList ++ (w.perform op).givenUp ops

/-- An operation makes a run that keeps the lines. -/
structure Performs (rates : Rates) (globalConcurrency : Nat) (w : Workload) (op : Operation) :
    Prop extends Ordered rates globalConcurrency (w.perform op) where
  advances : w.limiter.Advances (w.perform op).limiter
    (numbered w.nextTicket op.registry?.toList) (w.givesUp? op).toList

/-- An operation is performed in order if what it does at first is done in order and the turns
after that are. -/
theorem Ordered.performs_of_begun {op : Operation} {new : List (Ticket × String)}
    {gone : List Ticket} (h : Ordered rates globalConcurrency w) (hcalm : w.Calm)
    (hnew : numbered w.nextTicket op.registry?.toList = new)
    (hgone : (w.givesUp? op).toList = gone)
    (hbegun : w.limiter.Advances (w.begun op).limiter new gone)
    (hsettle : GoesOn rates globalConcurrency (w.begun op) ((w.begun op).settle none)) :
    Performs rates globalConcurrency w op := by
  rw [← perform_eq h.toTended hcalm op] at hsettle
  refine ⟨hsettle.toOrdered, ?_⟩
  rw [hnew, hgone]
  exact hbegun.further hsettle.advances

/-- There is nobody of the name that an operation is about. -/
theorem Ordered.performs_nothing {op : Operation} (h : Ordered rates globalConcurrency w)
    (hcalm : w.Calm) (hrequest : op.registry? = none) (hgives : w.givesUp? op = none)
    (hsame : w.begun op = w) : Performs rates globalConcurrency w op := by
  have hnew : numbered w.nextTicket op.registry?.toList = [] := by
    rw [hrequest]
    rfl
  refine h.performs_of_begun hcalm hnew (congrArg Option.toList hgives) ?_ ?_
  · rw [hsame]
    exact .refl _
  · rw [hsame]
    exact h.settle (awaitsLatest_none w)

/-- The next ticket has joined the line of a registry and taken its first turn. -/
theorem Ordered.turn_joined (h : Ordered rates globalConcurrency w) (hcalm : w.Calm)
    (registry : String) :
    Ordered rates globalConcurrency ((w.joined registry).turn w.nextTicket) ∧
      w.limiter.Advances ((w.joined registry).turn w.nextTicket).limiter
        [(w.nextTicket, Registry.canonical registry)] [] := by
  obtain ⟨hbut, hfirst⟩ := h.prompt.ask hcalm h.toTended.watched.numbered registry
  have hturn : (w.joined registry).limiter.Advances
      ((w.joined registry).turn w.nextTicket).limiter [] [] := advances_turn hfirst
  refine ⟨⟨h.toTended.turn_joined registry, ?_⟩, ?_⟩
  · exact prompt_turn (w := w.joined registry) (h.toTended.steps_joined registry).watched hbut
  · exact (Limiter.advances_move w.limiter (.ask w.nextTicket registry) trivial).further hturn

/-- Whoever has requested a permit and has not given up has got it or waits for it. -/
theorem Ordered.waits_of_not_granted {limiter : Limiter} {gone : List Ticket} {registry : String}
    (h : Ordered rates globalConcurrency w) (ho : limiter.Orderly)
    (ha : w.limiter.Advances limiter [(w.nextTicket, registry)] gone)
    (hgone : w.nextTicket ∉ gone) (hgranted : ¬ limiter.isGranted w.nextTicket = true) :
    limiter.registryOf? w.nextTicket = some registry := by
  have hunused : w.limiter.Unused w.nextTicket :=
    h.toTended.watched.numbered.unused _ (Nat.le_refl _)
  have hroll := ha.roll h.toTended.watched.healthy.orderly (List.pairwise_singleton _ _)
    (fun t ht => List.mem_singleton.mp ht ▸ hunused) registry
  have hmem : w.nextTicket ∈ limiter.roll registry := by
    rw [hroll, List.mem_filter, ticketsFor_singleton, if_pos rfl]
    exact ⟨List.mem_append_right _ List.mem_cons_self, decide_eq_true hgone⟩
  refine ho.registryOf?_eq_some_iff.mpr ?_
  rcases List.mem_append.mp hmem with hserved | hqueue
  · have hg := (limiter.served_sublist registry).mem hserved
    exact absurd (Limiter.isGranted_iff.mpr hg) hgranted
  · exact (Lane.queue_perm _).mem_iff.mp hqueue

/-- An acquisition waits in order. -/
theorem Ordered.awaiting (h : Ordered rates globalConcurrency w) (hcalm : w.Calm)
    (registry : String) (timeout : Nat) :
    Ordered rates globalConcurrency (w.awaiting registry timeout) ∧
      w.limiter.Advances (w.awaiting registry timeout).limiter
        [(w.nextTicket, Registry.canonical registry)] [] ∧
      (w.awaiting registry timeout).Stopped (some w.nextTicket) := by
  obtain ⟨hfirst, hjoined⟩ := h.turn_joined hcalm registry
  have hlatest : ((w.joined registry).turn w.nextTicket).AwaitsLatest (some w.nextTicket) := by
    rintro t ⟨⟩
    exact nextTicket_turn _ _
  obtain ⟨hwait, hstopped⟩ := hfirst.passUntil hlatest (stopped_turn_joined hcalm registry)
    w.limiter.now (w.limiter.now + timeout)
  exact ⟨hwait.toOrdered, hjoined.further hwait.advances, hstopped⟩

theorem Ordered.performs_acquire (h : Ordered rates globalConcurrency w) (hcalm : w.Calm)
    (registry name : String) (timeout : Nat) :
    Performs rates globalConcurrency w (.acquire registry name timeout) := by
  obtain ⟨hwait, hadvances, hstopped⟩ := h.awaiting hcalm registry timeout
  have hgives : w.givesUp? (.acquire registry name timeout) =
      if (w.awaiting registry timeout).limiter.isGranted w.nextTicket then none
      else some w.nextTicket := by
    rw [givesUp?, isSome_acquire]
  have hbegun : w.begun (.acquire registry name timeout) =
      (w.awaiting registry timeout).resolve name w.nextTicket := rfl
  have hnew : numbered w.nextTicket
      (Operation.registry? (.acquire registry name timeout)).toList =
        [(w.nextTicket, Registry.canonical registry)] := numbered_singleton _ _
  by_cases hgranted : (w.awaiting registry timeout).limiter.isGranted w.nextTicket = true
  · have hkeep := hwait.keep name w.nextTicket
    rw [resolve, if_pos hgranted] at hbegun
    rw [if_pos hgranted] at hgives
    refine h.performs_of_begun hcalm hnew (congrArg Option.toList hgives) ?_ ?_
    · rw [hbegun]
      exact hadvances.further hkeep.advances
    · rw [hbegun]
      exact hkeep.toOrdered.settle (awaitsLatest_none _)
  · have hhealthy : (w.awaiting registry timeout).limiter.Healthy :=
      hwait.toTended.watched.healthy
    have hreg := h.waits_of_not_granted hhealthy.orderly hadvances List.not_mem_nil hgranted
    have habandon := Limiter.advances_move (w.awaiting registry timeout).limiter
      (.abandon w.nextTicket) trivial
    rw [Limiter.givesUp?, hreg] at habandon
    have hgone : Ordered rates globalConcurrency
        ((w.awaiting registry timeout).onLimiter (·.abandon w.nextTicket)) :=
      ⟨hwait.toTended.onLimiter (.abandon w.nextTicket),
        hwait.prompt.abandon (hstopped.resolve_left hgranted) hhealthy w.nextTicket⟩
    rw [resolve, if_neg hgranted] at hbegun
    rw [if_neg hgranted] at hgives
    refine h.performs_of_begun hcalm hnew (congrArg Option.toList hgives) ?_ ?_
    · rw [hbegun]
      exact hadvances.trans habandon
    · rw [hbegun]
      exact hgone.settle (awaitsLatest_none _)

theorem Ordered.performs_spawn (h : Ordered rates globalConcurrency w) (hcalm : w.Calm)
    (registry name : String) (hold : Hold) :
    Performs rates globalConcurrency w (.spawn registry name hold) := by
  obtain ⟨hbut, hfirst⟩ := h.prompt.ask hcalm h.toTended.watched.numbered registry
  have hcalled : (w.spawned registry name hold).limiter.agenda.called = [w.nextTicket] :=
    Agenda.called_call_of_nil hcalm w.nextTicket
  have hasked := Limiter.advances_move w.limiter (.ask w.nextTicket registry) trivial
  have hspawned : w.limiter.Advances (w.spawned registry name hold).limiter
      [(w.nextTicket, Registry.canonical registry)] [] :=
    hasked.further (Limiter.advances_plan _ (·.call w.nextTicket)
      (Limiter.now_callAll _ [w.nextTicket]))
  have hnew : numbered w.nextTicket (Operation.registry? (.spawn registry name hold)).toList =
      [(w.nextTicket, Registry.canonical registry)] := numbered_singleton _ _
  have hgone : (w.givesUp? (.spawn registry name hold)).toList = [] := rfl
  refine h.performs_of_begun hcalm hnew hgone hspawned ?_
  exact settle_called (h.toTended.spawned registry name hold) hcalled hbut.call hfirst

theorem Ordered.performs_release (h : Ordered rates globalConcurrency w) (hcalm : w.Calm)
    (name : String) : Performs rates globalConcurrency w (.release name) := by
  have htended : Tended rates globalConcurrency (w.begun (.release name)) :=
    h.toTended.released name
  cases hpermit : w.permits.get? name with
  | some t =>
    have hlimiter : (w.begun (.release name)).limiter = w.limiter.release t := by
      rw [begun, released, hpermit]
      rfl
    have hreleased := h.release t
    have hordered : Ordered rates globalConcurrency (w.begun (.release name)) :=
      ⟨htended, hlimiter ▸ hreleased.prompt⟩
    refine h.performs_of_begun hcalm rfl rfl ?_ (hordered.settle (awaitsLatest_none _))
    rw [hlimiter]
    exact hreleased.advances
  | none =>
    cases hname : w.names.get? name with
    | some t =>
      have hlimiter : (w.begun (.release name)).limiter = w.limiter.call t := by
        rw [begun, released, hpermit, hname]
        rfl
      have hcalled : (w.begun (.release name)).limiter.agenda.called = [t] := by
        rw [hlimiter]
        exact Agenda.called_call_of_nil hcalm t
      have hbut : (w.begun (.release name)).limiter.PromptBut t :=
        hlimiter ▸ (h.prompt.but t).call
      refine h.performs_of_begun hcalm rfl rfl ?_ (settle_called htended hcalled hbut ?_)
      · rw [hlimiter]
        exact Limiter.advances_plan _ (·.call t) (Limiter.now_callAll _ [t])
      · rw [hlimiter]
        exact h.prompt.goesFirst_of_calm hcalm t
    | none =>
      refine h.performs_nothing hcalm rfl rfl ?_
      rw [begun, released, hpermit, hname]

theorem Ordered.performs_abort (h : Ordered rates globalConcurrency w) (hcalm : w.Calm)
    (name : String) : Performs rates globalConcurrency w (.abort name) := by
  cases hname : w.names.get? name with
  | some t =>
    have hlimiter : (w.begun (.abort name)).limiter = w.limiter.abandon t := by
      rw [begun, aborted, hname]
      rfl
    have hgives : w.givesUp? (.abort name) = w.limiter.givesUp? (.abandon t) := by
      rw [givesUp?, hname, Option.filter_some, Limiter.givesUp?]
    have hordered : Ordered rates globalConcurrency (w.begun (.abort name)) :=
      ⟨h.toTended.aborted name,
        hlimiter ▸ h.prompt.abandon hcalm h.toTended.watched.healthy t⟩
    refine h.performs_of_begun hcalm rfl (congrArg Option.toList hgives) ?_
      (hordered.settle (awaitsLatest_none _))
    rw [hlimiter]
    exact Limiter.advances_move w.limiter (.abandon t) trivial
  | none =>
    refine h.performs_nothing hcalm rfl ?_ ?_
    · rw [givesUp?, hname]
      rfl
    · rw [begun, aborted, hname]

/-- **Operations are performed in order.** -/
theorem Ordered.perform (h : Ordered rates globalConcurrency w) (hcalm : w.Calm)
    (op : Operation) : Performs rates globalConcurrency w op := by
  cases op with
  | acquire registry name timeout => exact h.performs_acquire hcalm registry name timeout
  | spawn registry name hold => exact h.performs_spawn hcalm registry name hold
  | release name => exact h.performs_release hcalm name
  | abort name => exact h.performs_abort hcalm name
  | advance ms =>
    obtain ⟨hpass, -⟩ := h.passUntil (awaitsLatest_none w) (.inr hcalm) w.limiter.now
      (w.limiter.now + ms)
    exact ⟨hpass.toOrdered, hpass.advances⟩
  | resetMetrics =>
    exact ⟨⟨h.toTended.onLimiter .resetMetrics, h.prompt.resetMetrics⟩,
      Limiter.advances_move w.limiter .resetMetrics trivial⟩

/-- **Workloads keep the lines.** -/
theorem Ordered.performAll (ops : List Operation) (h : Ordered rates globalConcurrency w)
    (hcalm : w.Calm) :
    w.limiter.Advances (ops.foldl Workload.perform w).limiter
      (numbered w.nextTicket (requested ops)) (w.givenUp ops) := by
  induction ops generalizing w with
  | nil => exact .refl _
  | cons op ops ih =>
    have hop := h.perform hcalm op
    have hrest := ih hop.toOrdered (h.toTended.perform hcalm op).2
    have hnumbered : numbered w.nextTicket (requested (op :: ops)) =
        numbered w.nextTicket op.registry?.toList ++
          numbered (w.perform op).nextTicket (requested ops) := by
      rw [requested_cons, numbered, List.zipIdx_append, List.map_append, nextTicket_perform]
      rfl
    rw [hnumbered]
    exact hop.advances.trans hrest

end Workload

end TagWatch.Limit
