import TagWatch.Proofs.Limit.Settle

/-!
# Waiting

Workloads wait in turns and sleeps: everybody who is called takes a turn, and then time passes until
the next alarm. How a wait is cut into pieces makes no difference.

**Theorem (`Workload.Punctual.waitUntil_waits`).** Whoever has waited, and then waits until some
moment, has waited until that moment.

A wait may begin in the middle of a moment, and it may sleep until a moment at which nobody is
called: `Workload.waitUntil` gives the same for a workload, for what it is after the next turn
(`Workload.Tended.waitUntil_turn`), and for what it is after a sleep (`Workload.waitUntil_sleep`).
Alarms are set for the future only (`Limiter.Ahead`), so that no sleep is over before it begins.
-/

namespace TagWatch.Limit

/-! ## Time on an agenda -/

namespace Agenda

variable {a : Agenda} {time moment : Nat}

theorem nextAlarm?_eq_some (h : a.nextAlarm? = some moment) :
    (∃ e ∈ a.alarms, e.1 = moment) ∧ ∀ e ∈ a.alarms, moment ≤ e.1 := by
  obtain ⟨hmem, hle⟩ := List.min?_eq_some_iff.mp h
  exact ⟨List.mem_map.mp hmem, fun e he => hle _ (List.mem_map.mpr ⟨e, he, rfl⟩)⟩

theorem nextAlarm?_eq_none (h : a.nextAlarm? = none) : a.alarms = [] :=
  List.map_eq_nil_iff.mp (List.min?_eq_none_iff.mp h)

/-- Before all alarms time passes and nothing else happens. -/
theorem sleepUntil_of_lt (hnow : a.now ≤ time) (h : ∀ e ∈ a.alarms, time < e.1) :
    a.sleepUntil time = { a with now := time } := by
  have hdue : a.due time = [] := by
    rw [due, List.map_eq_nil_iff, List.filter_eq_nil_iff]
    exact fun e he hle => Nat.not_lt_of_le (of_decide_eq_true hle) (h e he)
  have hlater : a.alarms.filter (fun e => time < e.1) = a.alarms :=
    List.filter_eq_self.mpr fun e he => decide_eq_true (h e he)
  rw [sleepUntil, Nat.max_eq_right hnow, hdue]
  exact congrArg (Agenda.mk time a.called) hlater

theorem sleepUntil_sleepUntil (hnow : a.now ≤ time) (h : ∀ e ∈ a.alarms, time < e.1)
    (hle : time ≤ moment) : (a.sleepUntil time).sleepUntil moment = a.sleepUntil moment := by
  rw [sleepUntil_of_lt hnow h, sleepUntil, sleepUntil, Nat.max_eq_right hle,
    Nat.max_eq_right (Nat.le_trans hnow hle)]
  rfl

end Agenda

/-! ## Alarms lie ahead -/

namespace Limiter

variable {s s' : Limiter} {t : Ticket}

/-- All alarms are set for later. -/
def Ahead (s : Limiter) : Prop := ∀ e ∈ s.agenda.alarms, s.now < e.1

theorem Ahead.of_subset (h : s.Ahead) (hnow : s'.now = s.now)
    (hsub : ∀ e ∈ s'.agenda.alarms, e ∈ s.agenda.alarms) : s'.Ahead :=
  fun e he => hnow ▸ h e (hsub e he)

theorem Ahead.call (h : s.Ahead) (t : Ticket) : (s.call t).Ahead :=
  h.of_subset (now_callAll s.agenda [t]) fun _ he =>
    (Agenda.alarms_callAll s.agenda [t]) ▸ he

theorem Ahead.callAt (h : s.Ahead) {time : Nat} (hlt : s.now < time) (t : Ticket) :
    (s.callAt time t).Ahead := by
  intro e he
  rw [now_callAt]
  rcases Agenda.mem_alarms_callAt.mp he with he | rfl
  · exact h e he
  · exact hlt

theorem Ahead.sleepUntil (s : Limiter) (time : Nat) : (s.sleepUntil time).Ahead := by
  intro e he
  rw [now_sleepUntil]
  exact (Agenda.mem_alarms_sleepUntil.mp he).2

theorem Ahead.turn (h : s.Ahead) (t : Ticket) : (s.turn t).Ahead := by
  have htake : (s.onAgenda (·.take t)).Ahead := h.of_subset rfl fun _ => id
  rw [Limiter.turn]
  split
  · next r _ =>
    have hlook : (((((s.onAgenda (·.take t)).seat t r).enter t r).wake t r).look t r).Ahead := by
      rcases look_cases ((((s.onAgenda (·.take t)).seat t r).enter t r).wake t r) t r with
        ⟨he, -⟩ | ⟨waited, -, ⟨-, he⟩ | ⟨wakeAt, w, -, -, hlt, he⟩⟩
      · rw [he]
        exact htake.of_subset rfl fun _ => id
      · rw [he]
        exact htake.of_subset rfl fun _ => id
      · rw [he]
        exact Ahead.callAt (htake.of_subset rfl fun _ => id) hlt t
    generalize (((((s.onAgenda (·.take t)).seat t r).enter t r).wake t r).look t r) = s' at hlook
    rcases grant_spec s' t r with ⟨he, -⟩ | ⟨waited, hg⟩
    · rwa [he]
    · exact hlook.of_subset hg.now fun e he => by rwa [hg.agenda, Agenda.alarms_callAll] at he
  · exact htake

theorem now_turn (s : Limiter) (t : Ticket) : (s.turn t).now = s.now := by
  rw [turn]
  split
  · exact ((concerns_grant _ t _).now).trans (concerns_look _ t _).now
  · rfl

theorem Ahead.release (h : s.Ahead) (t : Ticket) : (s.release t).Ahead := by
  rw [Limiter.release]
  split
  · next u r _ =>
    refine h.of_subset (now_callAll s.agenda _) fun e he => ?_
    exact (Agenda.alarms_callAll s.agenda _) ▸ he
  · exact h

theorem Ahead.abandon (h : s.Ahead) (t : Ticket) : (s.abandon t).Ahead := by
  rw [Limiter.abandon]
  split
  · next r _ =>
    refine h.of_subset (now_withdraw s t r) fun e he => ?_
    rw [agenda_withdraw, Agenda.alarms_callAll] at he
    exact List.mem_of_mem_filter he
  · exact (h.release t).of_subset rfl fun _ => List.mem_of_mem_filter

end Limiter

namespace Workload

variable {rates : Rates} {globalConcurrency : Nat} {w : Workload} {t : Ticket}
  {awaited : Option Ticket}

theorem ahead_turn (h : w.limiter.Ahead) (t : Ticket) : (w.turn t).limiter.Ahead := by
  rw [turn]
  split
  · split
    · exact (h.turn t).release t
    · next hlt => exact (h.turn t).callAt (Nat.lt_of_not_le hlt) t
  · exact h.turn t

theorem now_turn (w : Workload) (t : Ticket) : (w.turn t).limiter.now = w.limiter.now := by
  have hturn : (w.limiter.turn t).now = w.limiter.now := w.limiter.now_turn t
  rcases turn_cases w t with he | he | ⟨time, he⟩
  · rw [he]
    exact hturn
  · rw [he]
    exact (Limiter.concerns_release _ t).now.trans hturn
  · rw [he]
    exact (Limiter.now_callAt _ time t).trans hturn

/-! ## Turns -/

/-- Nobody takes a turn any more: the awaited ticket has been granted, or nobody is called. -/
def Stopped (w : Workload) (awaited : Option Ticket) : Prop :=
  awaited.any w.limiter.isGranted = true ∨ w.Calm

theorem next?_of_calm (h : w.Calm) (awaited : Option Ticket) : w.next? awaited = none := by
  rw [next?, show w.limiter.agenda.called = [] from h]
  rfl

theorem takeTurns_of_stopped (h : w.Stopped awaited) (fuel : Nat) :
    takeTurns awaited fuel w = w := by
  cases fuel with
  | zero => rfl
  | succ fuel =>
    rw [takeTurns]
    split
    · rfl
    · next hgranted => rw [next?_of_calm (h.resolve_left hgranted)]

theorem takeTurns_add (awaited : Option Ticket) (m n : Nat) (w : Workload) :
    takeTurns awaited (m + n) w = takeTurns awaited n (takeTurns awaited m w) := by
  induction m generalizing w with
  | zero => rw [Nat.zero_add, takeTurns]
  | succ m ih =>
    rw [Nat.succ_add, takeTurns, takeTurns]
    split
    · next hgranted => rw [takeTurns_of_stopped (.inl hgranted)]
    · cases hnext : w.next? awaited with
      | some t => exact ih (w.turn t)
      | none => exact (takeTurns_of_stopped (.inr (calm_of_next? hnext)) n).symm

/-- With enough turns nobody takes one any more. -/
theorem Tended.stopped_takeTurns {fuel : Nat} (h : Tended rates globalConcurrency w)
    (hfuel : w.limiter.effort w.nextTicket ≤ fuel) :
    (Workload.takeTurns awaited fuel w).Stopped awaited := by
  induction fuel generalizing w with
  | zero =>
    have hcalm : (Workload.takeTurns none 0 w).Calm := (h.takeTurns hfuel).2 rfl
    exact .inr hcalm
  | succ fuel ih =>
    rw [Workload.takeTurns]
    split
    · next hgranted => exact .inl hgranted
    · cases hnext : w.next? awaited with
      | none => exact .inr (calm_of_next? hnext)
      | some t =>
        have hcalled := called_of_next? hnext
        have hlt := h.effort_turn hcalled
        refine ih (h.turn hcalled) ?_
        rw [nextTicket_turn]
        omega

theorem Tended.effort_le (h : Tended rates globalConcurrency w) :
    w.limiter.effort w.nextTicket ≤ 8 * w.nextTicket :=
  Nat.le_trans (h.watched.numbered.effort_le h.watched.healthy.orderly)
    (Nat.mul_le_mul_right _ (by decide))

theorem Tended.stopped_settle (h : Tended rates globalConcurrency w) (awaited : Option Ticket) :
    (w.settle awaited).Stopped awaited :=
  h.stopped_takeTurns h.effort_le

theorem settle_of_stopped (h : w.Stopped awaited) : w.settle awaited = w :=
  takeTurns_of_stopped h _

/-- Who settles may as well take a turn first. -/
theorem Tended.settle_turn (h : Tended rates globalConcurrency w)
    (hgranted : ¬ awaited.any w.limiter.isGranted = true) (hnext : w.next? awaited = some t) :
    (w.turn t).settle awaited = w.settle awaited := by
  have hone : Workload.takeTurns awaited (1 + 8 * w.nextTicket) w = (w.turn t).settle awaited := by
    rw [Nat.add_comm, Workload.takeTurns, if_neg hgranted, hnext,
      Workload.settle, nextTicket_turn]
  rw [← hone, Nat.add_comm, takeTurns_add, ← Workload.settle]
  exact takeTurns_of_stopped (h.stopped_settle awaited) 1

/-! ## Waiting until a moment -/

/-- Time passes until a moment, or until an awaited ticket has been granted. -/
def waitUntil (w : Workload) (awaited : Option Ticket) (target : Nat) : Workload :=
  (w.settle awaited).passUntil awaited w.limiter.now target

theorem Tended.waitUntil_turn (h : Tended rates globalConcurrency w)
    (hgranted : ¬ awaited.any w.limiter.isGranted = true) (hnext : w.next? awaited = some t)
    (target : Nat) : (w.turn t).waitUntil awaited target = w.waitUntil awaited target := by
  rw [waitUntil, waitUntil, h.settle_turn hgranted hnext, now_turn]

theorem passUntil_of_granted (h : awaited.any w.limiter.isGranted = true) (time target : Nat) :
    w.passUntil awaited time target = w := by
  rw [passUntil, if_pos h]

theorem waitUntil_of_granted (h : awaited.any w.limiter.isGranted = true) (target : Nat) :
    w.waitUntil awaited target = w := by
  rw [waitUntil, settle_of_stopped (.inl h), passUntil_of_granted h]

theorem waitUntil_of_stopped (h : w.Stopped awaited) (target : Nat) :
    w.waitUntil awaited target = w.passUntil awaited w.limiter.now target := by
  rw [waitUntil, settle_of_stopped h]

/-! ## Sleeping -/

variable {time target : Nat}

theorem calm_of_lt (hcalm : w.Calm) (hnow : w.limiter.now ≤ time)
    (hlt : ∀ e ∈ w.limiter.agenda.alarms, time < e.1) :
    (w.onLimiter (·.sleepUntil time)).Calm := by
  show (w.limiter.agenda.sleepUntil time).called = []
  rw [Agenda.sleepUntil_of_lt hnow hlt]
  exact hcalm

theorem turnOf_of_calm (hcalm : w.Calm) (awaited : Option Ticket) : w.turnOf awaited = w := by
  unfold turnOf
  split
  · rw [show w.limiter.agenda.called = [] from hcalm]
    rfl
  · rfl

theorem now_slept (w : Workload) (time : Nat) :
    (w.onLimiter (·.sleepUntil time)).limiter.now = max w.limiter.now time :=
  Limiter.now_sleepUntil _ time

theorem now_turnOf (w : Workload) (awaited : Option Ticket) :
    (w.turnOf awaited).limiter.now = w.limiter.now := by
  unfold turnOf
  split
  · split
    · exact now_turn w _
    · rfl
  · rfl

/-- A wait goes on after a sleep before all alarms. -/
theorem passUntil_of_lt (hgranted : ¬ awaited.any w.limiter.isGranted = true)
    (hnow : w.limiter.now ≤ time) (hle : time ≤ target)
    (hlt : ∀ e ∈ w.limiter.agenda.alarms, time < e.1) :
    (w.onLimiter (·.sleepUntil time)).passUntil awaited time target =
      w.passUntil awaited w.limiter.now target := by
  have hagenda := Agenda.sleepUntil_of_lt hnow hlt
  have hsleep (moment : Nat) (hm : time ≤ moment) :
      (w.onLimiter (·.sleepUntil time)).sleepUntil awaited moment =
        w.sleepUntil awaited moment := by
    have hlimiter : (w.limiter.sleepUntil time).sleepUntil moment = w.limiter.sleepUntil moment :=
      congrArg (fun a => { w.limiter with agenda := a })
        (Agenda.sleepUntil_sleepUntil hnow hlt hm)
    have honce : (w.onLimiter (·.sleepUntil time)).onLimiter (·.sleepUntil moment) =
        w.onLimiter (·.sleepUntil moment) :=
      congrArg (fun s => { w with limiter := s }) hlimiter
    rw [Workload.sleepUntil, Workload.sleepUntil, honce]
  have halarm : (w.onLimiter (·.sleepUntil time)).limiter.nextAlarm? = w.limiter.nextAlarm? := by
    show (w.limiter.agenda.sleepUntil time).nextAlarm? = _
    rw [hagenda]
    rfl
  rw [passUntil, passUntil, if_neg hgranted, halarm,
    if_neg (show ¬ awaited.any (w.onLimiter (·.sleepUntil time)).limiter.isGranted = true from
      hgranted)]
  cases hnext : w.limiter.nextAlarm? with
  | none => exact hsleep target hle
  | some alarm =>
    obtain ⟨⟨e, he, rfl⟩, -⟩ := Agenda.nextAlarm?_eq_some hnext
    have halarm := hlt e he
    dsimp only
    by_cases htarget : e.1 ≤ target
    · rw [dif_pos ⟨halarm, htarget⟩, dif_pos ⟨Nat.lt_of_le_of_lt hnow halarm, htarget⟩,
        hsleep e.1 (Nat.le_of_lt halarm)]
    · rw [dif_neg fun h => htarget h.2, dif_neg fun h => htarget h.2, hsleep target hle]

/-- **Waiting goes on after a sleep.** -/
theorem waitUntil_sleep (ha : w.limiter.Ahead) (hcalm : w.Calm)
    (hgranted : ¬ awaited.any w.limiter.isGranted = true) (hnow : w.limiter.now ≤ time)
    (hle : time ≤ target) (halarms : ∀ e ∈ w.limiter.agenda.alarms, time ≤ e.1) :
    ((w.onLimiter (·.sleepUntil time)).turnOf awaited).waitUntil awaited target =
      w.waitUntil awaited target := by
  have hslept : (w.onLimiter (·.sleepUntil time)).limiter.now = time := by
    rw [now_slept, Nat.max_eq_right hnow]
  rw [waitUntil, now_turnOf, hslept, waitUntil_of_stopped (.inr hcalm)]
  by_cases hlt : ∀ e ∈ w.limiter.agenda.alarms, time < e.1
  · have hcalm' := calm_of_lt hcalm hnow hlt
    rw [turnOf_of_calm hcalm', settle_of_stopped (.inr hcalm')]
    exact passUntil_of_lt hgranted hnow hle hlt
  · -- the sleep is until the next alarm
    obtain ⟨e, he, hge⟩ : ∃ e ∈ w.limiter.agenda.alarms, e.1 ≤ time := by
      simpa only [not_forall, Nat.not_lt, exists_prop] using hlt
    obtain rfl : time = e.1 := Nat.le_antisymm (halarms e he) hge
    have hnext : w.limiter.nextAlarm? = some e.1 :=
      List.min?_eq_some_iff.mpr ⟨List.mem_map.mpr ⟨e, he, rfl⟩, fun m hm => by
        obtain ⟨e', he', rfl⟩ := List.mem_map.mp hm
        exact halarms e' he'⟩
    have hpass : w.passUntil awaited w.limiter.now target =
        (w.sleepUntil awaited e.1).passUntil awaited e.1 target := by
      rw [passUntil, if_neg hgranted, hnext]
      exact dif_pos ⟨ha e he, hle⟩
    exact hpass.symm

/-! ## The states of a wait -/

/-- What may happen next while a ticket is awaited, or while nobody is. -/
inductive WaitStep (awaited : Option Ticket) (w : Workload) : Workload → Prop
  /-- Somebody takes a turn. -/
  | turn (t : Ticket) (hnext : w.next? awaited = some t) : WaitStep awaited w (w.turn t)
  /-- Nobody takes a turn, and time passes until the next alarm or an earlier moment. -/
  | sleep (time : Nat) (hcalm : w.Calm) (hnow : w.limiter.now ≤ time)
    (halarms : ∀ e ∈ w.limiter.agenda.alarms, time ≤ e.1) :
    WaitStep awaited w ((w.onLimiter (·.sleepUntil time)).turnOf awaited)

/-- A wait leads from one workload to another one, and these are the states in which it goes on. -/
inductive Waits (awaited : Option Ticket) : Workload → List Workload → Workload → Prop
  | stop (w : Workload) : Waits awaited w [] w
  | step {w w' w'' : Workload} {states : List Workload}
    (hgranted : ¬ awaited.any w.limiter.isGranted = true) (hstep : WaitStep awaited w w')
    (h : Waits awaited w' states w'') : Waits awaited w (w :: states) w''

/-- The states in which turns begin, of a number of turns. -/
def turnStates (awaited : Option Ticket) : Nat → Workload → List Workload
  | 0, _ => []
  | fuel + 1, w =>
    if awaited.any w.limiter.isGranted then []
    else match w.next? awaited with
      | some t => w :: turnStates awaited fuel (w.turn t)
      | none => []

/-- The states in which turns begin, until nobody is called. -/
def settleStates (w : Workload) (awaited : Option Ticket) : List Workload :=
  turnStates awaited (8 * w.nextTicket) w

/-- The states in which a sleep and the turns after it begin. -/
def sleepStates (w : Workload) (awaited : Option Ticket) (time : Nat) : List Workload :=
  w :: ((w.onLimiter (·.sleepUntil time)).turnOf awaited).settleStates awaited

/-- The states in which sleeps and turns begin while time passes. -/
def passStates (awaited : Option Ticket) (w : Workload) (time target : Nat) : List Workload :=
  if awaited.any w.limiter.isGranted then []
  else match w.limiter.nextAlarm? with
    | some alarm =>
      if _h : time < alarm ∧ alarm ≤ target then
        w.sleepStates awaited alarm ++
          passStates awaited (w.sleepUntil awaited alarm) alarm target
      else w.sleepStates awaited target
    | none => w.sleepStates awaited target
termination_by target - time

theorem Waits.append {w w' w'' : Workload} {states states' : List Workload}
    (h : Waits awaited w states w') (h' : Waits awaited w' states' w'') :
    Waits awaited w (states ++ states') w'' := by
  induction h with
  | stop => exact h'
  | step hgranted hstep _ ih => exact .step hgranted hstep (ih h')

theorem waits_takeTurns (awaited : Option Ticket) (fuel : Nat) (w : Workload) :
    Waits awaited w (turnStates awaited fuel w) (takeTurns awaited fuel w) := by
  induction fuel generalizing w with
  | zero => exact .stop w
  | succ fuel ih =>
    rw [turnStates, takeTurns]
    split
    · exact .stop w
    · next hgranted =>
      cases hnext : w.next? awaited with
      | some t => exact .step hgranted (.turn t hnext) (ih (w.turn t))
      | none => exact .stop w

theorem waits_settle (w : Workload) (awaited : Option Ticket) :
    Waits awaited w (w.settleStates awaited) (w.settle awaited) :=
  waits_takeTurns awaited _ w

theorem waits_sleepUntil (hgranted : ¬ awaited.any w.limiter.isGranted = true) (hcalm : w.Calm)
    (hnow : w.limiter.now ≤ time) (halarms : ∀ e ∈ w.limiter.agenda.alarms, time ≤ e.1) :
    Waits awaited w (w.sleepStates awaited time) (w.sleepUntil awaited time) :=
  .step hgranted (.sleep time hcalm hnow halarms) (waits_settle _ awaited)

/-- A workload that is tended and whose alarms lie ahead. -/
structure Punctual (rates : Rates) (globalConcurrency : Nat) (w : Workload) : Prop
    extends Tended rates globalConcurrency w where
  ahead : w.limiter.Ahead

theorem Punctual.step {w' : Workload} (h : Punctual rates globalConcurrency w)
    (hs : WaitStep awaited w w') : Punctual rates globalConcurrency w' := by
  cases hs with
  | turn t hnext => exact ⟨h.turn (called_of_next? hnext), ahead_turn h.ahead t⟩
  | sleep time =>
    refine ⟨(h.onLimiter (.sleepUntil time)).turnOf awaited, ?_⟩
    have hahead : (w.onLimiter (·.sleepUntil time)).limiter.Ahead := .sleepUntil w.limiter time
    unfold Workload.turnOf
    split
    · split
      · exact ahead_turn hahead _
      · exact hahead
    · exact hahead

theorem Punctual.waits {w' : Workload} {states : List Workload}
    (h : Punctual rates globalConcurrency w) (hw : Waits awaited w states w') :
    Punctual rates globalConcurrency w' := by
  induction hw with
  | stop => exact h
  | step _ hstep _ ih => exact ih (h.step hstep)

theorem now_le_step {w' : Workload} (h : WaitStep awaited w w') :
    w.limiter.now ≤ w'.limiter.now := by
  cases h with
  | turn t => exact Nat.le_of_eq (now_turn w t).symm
  | sleep time =>
    rw [now_turnOf, now_slept]
    exact Nat.le_max_left _ _

theorem Waits.now_le {w' : Workload} {states : List Workload} (h : Waits awaited w states w') :
    w.limiter.now ≤ w'.limiter.now := by
  induction h with
  | stop => exact Nat.le_refl _
  | step _ hstep _ ih => exact Nat.le_trans (now_le_step hstep) ih

theorem now_takeTurns (awaited : Option Ticket) (fuel : Nat) (w : Workload) :
    (takeTurns awaited fuel w).limiter.now = w.limiter.now := by
  induction fuel generalizing w with
  | zero => rfl
  | succ fuel ih =>
    rw [takeTurns]
    split
    · rfl
    · split
      · next t _ => exact (ih (w.turn t)).trans (now_turn w t)
      · rfl

theorem now_settle (w : Workload) (awaited : Option Ticket) :
    (w.settle awaited).limiter.now = w.limiter.now :=
  now_takeTurns awaited _ w

theorem now_sleepUntil (hnow : w.limiter.now ≤ time) (awaited : Option Ticket) :
    (w.sleepUntil awaited time).limiter.now = time := by
  rw [sleepUntil, now_settle, now_turnOf, now_slept, Nat.max_eq_right hnow]

/-- What is known of a wait until a target. -/
structure Waited (awaited : Option Ticket) (w : Workload) (states : List Workload) (target : Nat)
    (w' : Workload) : Prop where
  waits : Waits awaited w states w'
  stopped : w'.Stopped awaited
  le : w'.limiter.now ≤ target
  /-- The wait lasts until the target, unless the awaited ticket was granted before. -/
  lasts : ¬ awaited.any w'.limiter.isGranted = true → w'.limiter.now = target

theorem Punctual.waited_sleepUntil (h : Punctual rates globalConcurrency w)
    (hgranted : ¬ awaited.any w.limiter.isGranted = true) (hstopped : w.Stopped awaited)
    (hnow : w.limiter.now ≤ time) (halarms : ∀ e ∈ w.limiter.agenda.alarms, time ≤ e.1) :
    Waited awaited w (w.sleepStates awaited time) time (w.sleepUntil awaited time) where
  waits := waits_sleepUntil hgranted (hstopped.resolve_left hgranted) hnow halarms
  stopped := ((h.onLimiter (.sleepUntil time)).turnOf awaited).stopped_settle awaited
  le := Nat.le_of_eq (now_sleepUntil hnow awaited)
  lasts _ := now_sleepUntil hnow awaited

/-- Time that passes is a wait. -/
theorem Punctual.waited_passUntil (h : Punctual rates globalConcurrency w)
    (hstopped : w.Stopped awaited) (htime : w.limiter.now = time) (htarget : time ≤ target) :
    Waited awaited w (passStates awaited w time target) target
      (w.passUntil awaited time target) := by
  fun_induction Workload.passUntil awaited w time target with
  | case1 w time hgranted =>
    rw [passStates, if_pos hgranted]
    exact ⟨.stop w, hstopped, htime ▸ htarget, absurd hgranted⟩
  | case2 w time hgranted alarm hnext hbetween ih =>
    have hnow : w.limiter.now ≤ alarm := htime ▸ Nat.le_of_lt hbetween.1
    have halarm := h.waited_sleepUntil hgranted hstopped hnow (Agenda.nextAlarm?_eq_some hnext).2
    obtain ⟨hwaits, hend, hle, hlasts⟩ := ih (h.waits halarm.waits) halarm.stopped
      (now_sleepUntil hnow awaited) hbetween.2
    rw [passStates, if_neg hgranted, hnext]
    dsimp only
    rw [dif_pos hbetween]
    exact ⟨halarm.waits.append hwaits, hend, hle, hlasts⟩
  | case3 w time hgranted alarm hnext hnot =>
    rw [passStates, if_neg hgranted, hnext]
    dsimp only
    rw [dif_neg hnot]
    obtain ⟨⟨e, he, rfl⟩, hfirst⟩ := Agenda.nextAlarm?_eq_some hnext
    have hlate : target < e.1 :=
      Nat.lt_of_not_le fun hle => hnot ⟨htime ▸ h.ahead e he, hle⟩
    exact h.waited_sleepUntil hgranted hstopped (htime ▸ htarget) fun e' he' =>
      Nat.le_of_lt (Nat.lt_of_lt_of_le hlate (hfirst e' he'))
  | case4 w time hgranted hnext =>
    rw [passStates, if_neg hgranted, hnext]
    refine h.waited_sleepUntil hgranted hstopped (htime ▸ htarget) fun e he => ?_
    rw [Agenda.nextAlarm?_eq_none hnext] at he
    cases he

/-! ## Waiting is waiting -/

theorem Punctual.waitUntil_step {w' : Workload} (h : Punctual rates globalConcurrency w)
    (hgranted : ¬ awaited.any w.limiter.isGranted = true) (hs : WaitStep awaited w w')
    (htarget : w'.limiter.now ≤ target) :
    w'.waitUntil awaited target = w.waitUntil awaited target := by
  cases hs with
  | turn t hnext => exact h.waitUntil_turn hgranted hnext target
  | sleep time hcalm hnow halarms =>
    refine waitUntil_sleep h.ahead hcalm hgranted hnow ?_ halarms
    rwa [now_turnOf, now_slept, Nat.max_eq_right hnow] at htarget

/-- **Waiting goes on.** Whoever has waited, and then waits until a moment, has waited until that
moment. -/
theorem Punctual.waitUntil_waits {w' : Workload} {states : List Workload}
    (h : Punctual rates globalConcurrency w) (hw : Waits awaited w states w')
    (htarget : w'.limiter.now ≤ target) :
    w'.waitUntil awaited target = w.waitUntil awaited target := by
  induction hw with
  | stop => rfl
  | step hgranted hstep hw ih =>
    exact (ih (h.step hstep) htarget).trans
      (h.waitUntil_step hgranted hstep (Nat.le_trans hw.now_le htarget))

/-- Who waits until a moment and then until a later one waits until the later one. -/
theorem Punctual.waitUntil_waitUntil (h : Punctual rates globalConcurrency w) (hcalm : w.Calm)
    (hnow : w.limiter.now ≤ time) (hle : time ≤ target) :
    (w.waitUntil none time).waitUntil none target = w.waitUntil none target := by
  have hstopped : w.Stopped none := .inr hcalm
  have hwaited := h.waited_passUntil hstopped rfl hnow
  rw [waitUntil_of_stopped hstopped time]
  exact h.waitUntil_waits hwaited.waits (Nat.le_trans hwaited.le hle)

/-- Who waits until the current moment changes nothing. -/
theorem waitUntil_now (h : w.limiter.Ahead) (hstopped : w.Stopped awaited) :
    w.waitUntil awaited w.limiter.now = w := by
  rw [waitUntil_of_stopped hstopped]
  by_cases hgranted : awaited.any w.limiter.isGranted = true
  · exact passUntil_of_granted hgranted _ _
  · have hsleep : w.sleepUntil awaited w.limiter.now = w := by
      have hsame : w.onLimiter (·.sleepUntil w.limiter.now) = w := by
        have hagenda : w.limiter.agenda.sleepUntil w.limiter.now = w.limiter.agenda :=
          Agenda.sleepUntil_of_lt (Nat.le_refl _) h
        exact congrArg (fun a => { w with limiter := { w.limiter with agenda := a } }) hagenda
      have hcalm := hstopped.resolve_left hgranted
      rw [sleepUntil, hsame, turnOf_of_calm hcalm, settle_of_stopped hstopped]
    rw [passUntil, if_neg hgranted]
    split
    · next alarm _ => rw [dif_neg fun hlt => Nat.not_lt_of_le hlt.2 hlt.1, hsleep]
    · exact hsleep

/-- Who waits until the current moment settles. -/
theorem Punctual.waitUntil_now (h : Punctual rates globalConcurrency w)
    (awaited : Option Ticket) : w.waitUntil awaited w.limiter.now = w.settle awaited := by
  have hstopped := h.stopped_settle awaited
  have hsettled := h.waits (waits_settle w awaited)
  have hnow := Workload.waitUntil_now hsettled.ahead hstopped
  rwa [waitUntil_of_stopped hstopped, now_settle] at hnow

end Workload

end TagWatch.Limit
