import Mathlib.Logic.Relation
import TagWatch.Proofs.Limit.Numbers
import TagWatch.Proofs.Limit.Reasons

/-!
# Sessions

A session is a limiter in use, together with the tickets that are in the middle of a turn. Its steps
(`Session.Step`) are the small moves of a limiter: the turns of different tickets may overlap, a
ticket may be given up at any stage, and nothing is said about whose turn it is. A turn ends only
when its ticket cannot go on or is called again.

A session is *settled* when nobody is called and nobody is in a turn, so that nothing more happens
before time passes or somebody comes or goes.

**Theorem (`Session.Reachable.settled_spec`).** In a settled session nobody could go on: no call was
lost. So whoever waits has one of the three reasons, and without a permit and a sleeper nobody does.

`Watched` is the invariant of the steps. Its core is that whoever can go on has been called or is
in the middle of a turn.
-/

namespace TagWatch.Limit

/-- A limiter in use. -/
structure Session where
  limiter : Limiter
  /-- The ticket of the next acquisition: acquisitions are numbered as they come. -/
  nextTicket : Ticket
  /-- The tickets that are in the middle of a turn. -/
  running : List Ticket

namespace Session

/-- A limiter that is about to be used. -/
def fresh (limiter : Limiter) : Session := ⟨limiter, 0, []⟩

/-- The session with its limiter changed. -/
def onLimiter (c : Session) (f : Limiter → Limiter) : Session := { c with limiter := f c.limiter }

/-- What may happen next in a session. -/
inductive Step (c : Session) : Session → Prop
  /-- An acquisition is requested, and its ticket is in its first turn. -/
  | request (registry : String) :
    Step c ⟨c.limiter.ask c.nextTicket registry, c.nextTicket + 1, c.nextTicket :: c.running⟩
  /-- A turn begins. -/
  | resume (t : Ticket) :
    Step c ⟨c.limiter.onAgenda (·.take t), c.nextTicket, t :: c.running⟩
  | seat (t : Ticket) (r : String) (ht : t ∈ c.running) : Step c (c.onLimiter (·.seat t r))
  | enter (t : Ticket) (r : String) (ht : t ∈ c.running) : Step c (c.onLimiter (·.enter t r))
  | wake (t : Ticket) (r : String) (ht : t ∈ c.running) : Step c (c.onLimiter (·.wake t r))
  | look (t : Ticket) (r : String) (ht : t ∈ c.running) : Step c (c.onLimiter (·.look t r))
  | grant (t : Ticket) (r : String) (ht : t ∈ c.running) : Step c (c.onLimiter (·.grant t r))
  /-- A turn ends. -/
  | pause (t : Ticket) (ht : ∀ r, c.limiter.CanGo r t → t ∈ c.limiter.agenda.called) :
    Step c ⟨c.limiter, c.nextTicket, c.running.erase t⟩
  | release (t : Ticket) : Step c (c.onLimiter (·.release t))
  | abandon (t : Ticket) : Step c (c.onLimiter (·.abandon t))
  | call (t : Ticket) (ht : t < c.nextTicket) : Step c (c.onLimiter (·.call t))
  | callAt (time : Nat) (t : Ticket) (ht : t < c.nextTicket) :
    Step c (c.onLimiter (·.callAt time t))
  | sleepUntil (time : Nat) : Step c (c.onLimiter (·.sleepUntil time))
  | resetMetrics : Step c (c.onLimiter (·.resetMetrics))

/-- A session that comes from another one by steps. -/
abbrev Steps : Session → Session → Prop := Relation.ReflTransGen Step

/-- A session that comes about by using a fresh limiter. -/
def Reachable (rates : Rates) (globalConcurrency : Nat) (c : Session) : Prop :=
  Steps (fresh (.fresh rates globalConcurrency)) c

/-- Nothing more happens at the current time. -/
structure Settled (c : Session) : Prop where
  called : c.limiter.agenda.called = []
  running : c.running = []

end Session

/-! ## Agendas and counters -/

namespace Limiter

variable {s : Limiter} {t : Ticket} {due : List Ticket}

theorem Healthy.callAt (h : s.Healthy) (time : Nat) (t : Ticket) : (s.callAt time t).Healthy :=
  h.onAgenda (·.callAt time t) (now_callAt s time t) fun _ he => Agenda.mem_alarms_callAt.mpr (.inl he)

theorem Healthy.call (h : s.Healthy) (t : Ticket) : (s.call t).Healthy := by
  refine h.onAgenda (·.call t) (now_callAll s.agenda [t]) fun e he => ?_
  exact (Agenda.alarms_callAll s.agenda [t]).symm ▸ he

theorem Attentive.call (h : s.Attentive due) (t : Ticket) : (s.call t).Attentive due :=
  h.onAgenda (·.call t) (now_callAll s.agenda [t]) fun _ _ _ hc =>
    hc.imp_left fun hc => Agenda.mem_called_call.mpr (.inl hc)

theorem Attentive.callAt (h : s.Attentive due) (time : Nat) (t : Ticket) :
    (s.callAt time t).Attentive due := by
  refine h.onAgenda (·.callAt time t) (now_callAt s time t) fun _ _ _ hc => hc.imp_left fun hc => ?_
  rwa [Agenda.called_callAt]

theorem CanGo.of_resetMetrics {r : String} (h : s.resetMetrics.CanGo r t) : s.CanGo r t := by
  rw [CanGo, lane_resetMetrics] at h
  cases h with
  | seat h => exact .seat h
  | enter rest h hs => exact .enter rest h hs
  | look waited h => exact .look waited h
  | wake wakeAt waited h hle => exact .wake wakeAt waited h hle
  | grant waited h hp => exact .grant waited h hp

theorem Attentive.resetMetrics (h : s.Attentive due) : s.resetMetrics.Attentive due :=
  fun r u hgo => h r u hgo.of_resetMetrics

theorem Healthy.resetMetrics (h : s.Healthy) : s.resetMetrics.Healthy := by
  refine h.move .resetMetrics (fun u hu => by cases hu) ?_
  refine h.alarmed.congr (Nat.le_refl _) (fun e he => .inl he) fun r u wakeAt w hadm => .inl ?_
  rw [show s.move .resetMetrics = s.resetMetrics from rfl, lane_resetMetrics] at hadm
  exact hadm

end Limiter

namespace Session

open Limiter (Attentive Concerns)

variable {rates : Rates} {globalConcurrency : Nat} {c c' : Session} {t : Ticket} {r : String}

/-! ## The invariant -/

/-- The invariant of sessions. -/
structure Watched (rates : Rates) (globalConcurrency : Nat) (c : Session) : Prop where
  healthy : c.limiter.Healthy
  attentive : c.limiter.Attentive c.running
  numbered : c.limiter.Numbered c.nextTicket
  balanced : c.limiter.Balanced rates globalConcurrency
  full : c.limiter.Full

theorem watched_fresh (rates : Rates) (globalConcurrency : Nat) :
    Watched rates globalConcurrency (fresh (.fresh rates globalConcurrency)) where
  healthy := Limiter.healthy_fresh rates globalConcurrency
  attentive _ _ h := absurd h.mem_tickets List.not_mem_nil
  numbered := Limiter.numbered_fresh rates globalConcurrency
  balanced := Limiter.balanced_fresh rates globalConcurrency
  full := Limiter.full_fresh rates globalConcurrency

/-- A step of a session is a move of its limiter. -/
theorem Step.exists_move (h : Step c c') : ∃ m, c'.limiter = c.limiter.move m := by
  cases h with
  | request registry => exact ⟨.ask c.nextTicket registry, rfl⟩
  | resume t => exact ⟨_, c.limiter.onAgenda_eq_move (·.take t) rfl⟩
  | seat t r => exact ⟨.seat t r, rfl⟩
  | enter t r => exact ⟨.enter t r, rfl⟩
  | wake t r => exact ⟨.wake t r, rfl⟩
  | look t r => exact ⟨.look t r, rfl⟩
  | grant t r => exact ⟨.grant t r, rfl⟩
  | pause t => exact ⟨_, c.limiter.onAgenda_eq_move id rfl⟩
  | release t => exact ⟨.release t, rfl⟩
  | abandon t => exact ⟨.abandon t, rfl⟩
  | call t => exact ⟨_, c.limiter.onAgenda_eq_move (·.call t) (Limiter.now_callAll _ [t])⟩
  | callAt time t => exact ⟨_, c.limiter.onAgenda_eq_move (·.callAt time t) (Limiter.now_callAt _ time t)⟩
  | sleepUntil time => exact ⟨.sleepUntil time, rfl⟩
  | resetMetrics => exact ⟨.resetMetrics, rfl⟩

theorem Watched.healthy_step (h : Watched rates globalConcurrency c) (hs : Step c c') :
    c'.limiter.Healthy := by
  cases hs with
  | request registry => exact h.healthy.ask (h.numbered.unused _ (Nat.le_refl _)) registry
  | resume t => exact h.healthy.onAgenda (·.take t) rfl fun _ => id
  | seat t r => exact h.healthy.seat t r
  | enter t r => exact h.healthy.enter t r
  | wake t r => exact h.healthy.wake t r
  | look t r => exact h.healthy.look t r
  | grant t r => exact h.healthy.grant t r
  | pause t => exact h.healthy
  | release t => exact h.healthy.release t
  | abandon t => exact h.healthy.abandon t
  | call t => exact h.healthy.call t
  | callAt time t => exact h.healthy.callAt time t
  | sleepUntil time => exact h.healthy.sleepUntil time
  | resetMetrics => exact h.healthy.resetMetrics

/-- Nobody is forgotten in a step. -/
theorem Watched.attentive_step (h : Watched rates globalConcurrency c) (hs : Step c c') :
    c'.limiter.Attentive c'.running := by
  -- a move of a ticket that is in its turn
  have hmoves {t : Ticket} {s : Limiter} (hc : Concerns c.limiter s t) (ht : t ∈ c.running) :
      s.Attentive c.running :=
    h.attentive.moves hc fun _ _ => ht
  -- a turn begins
  have hbegins {t : Ticket} {s : Limiter} (hc : Concerns c.limiter s t) :
      s.Attentive (t :: c.running) := by
    have hdue : c.limiter.Attentive (t :: c.running) := fun r u hgo =>
      (h.attentive r u hgo).imp_right (List.mem_cons_of_mem t)
    exact hdue.moves hc fun _ _ => List.mem_cons_self
  cases hs with
  | request registry => exact hbegins (Limiter.concerns_ask _ _ registry)
  | resume t => exact hbegins (Limiter.concerns_take _ t)
  | seat t r ht => exact hmoves (Limiter.concerns_seat _ t r) ht
  | enter t r ht => exact hmoves (Limiter.concerns_enter _ t r) ht
  | wake t r ht => exact hmoves (Limiter.concerns_wake h.healthy.timely t r) ht
  | look t r ht => exact hmoves (Limiter.concerns_look _ t r) ht
  | grant t r ht => exact hmoves (Limiter.concerns_grant _ t r) ht
  | pause t ht =>
    intro r u hgo
    by_cases hu : u = t
    · subst hu
      exact .inl (ht r hgo)
    · exact (h.attentive r u hgo).imp_right (List.mem_erase_of_ne hu).mpr
  | release t => exact h.attentive.release h.healthy.orderly t
  | abandon t => exact h.attentive.abandon h.healthy.orderly t
  | call t => exact h.attentive.call t
  | callAt time t => exact h.attentive.callAt time t
  | sleepUntil time => exact h.attentive.sleepUntil h.healthy.alarmed time
  | resetMetrics => exact h.attentive.resetMetrics

theorem Watched.numbered_step (h : Watched rates globalConcurrency c) (hs : Step c c') :
    c'.limiter.Numbered c'.nextTicket := by
  have hn := h.numbered
  cases hs with
  | request registry => exact hn.ask registry
  | resume t => exact hn.onAgenda (·.take t) (hn.below.take t)
  | seat t r => exact hn.of_move (.seat t r) rfl hn.below
  | enter t r => exact hn.of_move (.enter t r) rfl hn.below
  | wake t r => exact hn.of_move (.wake t r) rfl hn.below
  | look t r => exact hn.look t r
  | grant t r => exact hn.grant t r
  | pause t => exact hn
  | release t => exact hn.release h.healthy.lined t
  | abandon t => exact hn.abandon h.healthy.lined t
  | call t ht => exact hn.onAgenda (·.call t) (hn.below.call ht)
  | callAt time t ht => exact hn.onAgenda (·.callAt time t) (hn.below.callAt time ht)
  | sleepUntil time => exact hn.onAgenda (·.sleepUntil time) (hn.below.sleepUntil time)
  | resetMetrics => exact hn.of_move .resetMetrics rfl hn.below

/-- A step keeps the invariant. -/
theorem Watched.step (h : Watched rates globalConcurrency c) (hs : Step c c') :
    Watched rates globalConcurrency c' := by
  obtain ⟨m, hm⟩ := hs.exists_move
  refine ⟨h.healthy_step hs, h.attentive_step hs, h.numbered_step hs, ?_, ?_⟩
  · rw [hm]
    exact h.balanced.move m
  · rw [hm]
    exact h.full.move m

theorem Watched.steps (h : Watched rates globalConcurrency c) (hs : Steps c c') :
    Watched rates globalConcurrency c' := by
  induction hs with
  | refl => exact h
  | tail _ hstep ih => exact ih.step hstep

theorem Reachable.watched (h : Reachable rates globalConcurrency c) :
    Watched rates globalConcurrency c :=
  (watched_fresh rates globalConcurrency).steps h

/-! ## Settled sessions -/

/-- In a settled session nobody can go on. -/
theorem Watched.not_canGo (h : Watched rates globalConcurrency c) (hs : c.Settled) :
    ∀ r t, ¬ c.limiter.CanGo r t := by
  intro r t hgo
  rcases h.attentive r t hgo with hcalled | hrunning
  · rw [hs.called] at hcalled
    exact List.not_mem_nil hcalled
  · rw [hs.running] at hrunning
    exact List.not_mem_nil hrunning

/-- What is known when nothing more happens: nobody could go on, whoever waits has a reason, and
without a permit and a sleeper nobody waits. -/
structure AtRest (rates : Rates) (globalConcurrency : Nat) (s : Limiter) : Prop where
  stuck : ∀ r t, ¬ s.CanGo r t
  blocked : ∀ r t, t ∈ (s.lane r).tickets → s.Blocked rates globalConcurrency r
  idle : s.held = [] → (∀ r t wakeAt, ¬ s.Asleep r t wakeAt) → ∀ t, s.Idle t

/-- **No call is lost.** -/
theorem Watched.atRest (h : Watched rates globalConcurrency c) (hs : c.Settled) :
    AtRest rates globalConcurrency c.limiter := by
  have hblocked (r : String) (t : Ticket) (ht : t ∈ (c.limiter.lane r).tickets) :
      c.limiter.Blocked rates globalConcurrency r :=
    h.healthy.blocked h.balanced h.full (h.not_canGo hs) ht
  refine ⟨h.not_canGo hs, hblocked, fun hheld hawake t r ht => ?_⟩
  exact Limiter.not_blocked hheld (hawake r) (hblocked r t ht)

end Session

end TagWatch.Limit
