import TagWatch.Proofs.Fetch.Protocol
import TagWatch.Proofs.Limit.Turn
import TagWatch.Run.Pool

/-!
# What the turn of a fetch does

Between its turns a fetch has not begun, or waits for a permit, or waits for the answer to a call,
or is over (`Placed`). While it waits, it is in the lane of its registry, or has an alarm, or has
been called: so it will go on. What it is answered plays no part in this.

**Theorem (`Placed.turn`).** A turn of a fetch leaves it in one of these states and does not touch
the other fetches (`Limiter.Concerns`). What it adds to the load of the agenda is paid for by its
budget. There is one lemma for each step of a fetch that does not wait (`GoesOn`); the theorem
follows by induction on the program (`goesOn`).
-/

namespace TagWatch

open Limit (Limiter Ticket)
open FetchProgram (Rest)

variable {σ : Type} {service : Service σ}

/-- The lane in which the fetches of a key wait for their permits. -/
def Key.lane (k : Key) : String := Registry.canonical k.registry

/-- Where the ticket of a fetch is while the fetch is somewhere in its protocol. -/
def Progress.Fits (s : Limiter) (lane : String) (t : Ticket) : Progress → Prop
  | unbegun => s.Unused t
  | found _ => s.Unused t
  | missed => s.Unused t
  | admitted => (t, lane) ∈ s.held
  | refused => (t, lane) ∈ s.held
  | served _ => (t, lane) ∈ s.held
  | finished => s.Done t
  | kept _ => s.Done t

/-- A fetch between its turns, with what is left of its budget: before its first turn, while it
waits for its permit, while it waits for an answer, and when it is over. Some fetches are due to
get a turn. -/
inductive Placed (s : Limiter) (due : List Ticket) : Nat → Job → Prop where
  | ready {key : Key} {inRun : Bool} {n : Nat} {t : Ticket} {program : FetchProgram FetchResponse}
    (rest : Rest key inRun program (.start inRun) n) (unused : s.Unused t)
    (heard : t ∈ s.agenda.called ∨ t ∈ due) : Placed s due n ⟨t, program, .ready⟩
  | queued {key : Key} {inRun : Bool} {n : Nat} {t : Ticket}
    {next : (FetchStep.acquire key.registry).Answer → FetchProgram FetchResponse}
    (rest : ∀ waited : Nat, Rest key inRun (next waited) .admitted n)
    (waits : t ∈ (s.lane key.lane).tickets) :
    Placed s due (n + (s.lane key.lane).fee t) ⟨t, .ask (.acquire key.registry) next, .queued⟩
  | calling {key : Key} {inRun : Bool} {n : Nat} {t : Ticket} {id : ClientId} {call : Call}
    {next : (FetchStep.call id call).Answer → FetchProgram FetchResponse} {doneAt : Nat}
    (rest : ∀ answer, Rest key inRun (next answer) (.served id) n)
    (holds : (t, key.lane) ∈ s.held)
    (heard : (doneAt, t) ∈ s.agenda.alarms ∨
      doneAt ≤ s.now ∧ (t ∈ s.agenda.called ∨ t ∈ due)) :
    Placed s due n ⟨t, .ask (.call id call) next, .calling doneAt⟩
  | ended {t : Ticket} {r : FetchResponse} {phase : Phase} (done : s.Done t) :
    Placed s due 0 ⟨t, .done r, phase⟩

/-- A world with the state of its service replaced. -/
def World.withService (w : World σ) (s : σ) : World σ := { w with service := s }

variable {s s' : Limiter} {w w' : World σ} {t : Ticket} {n : Nat} {key : Key} {inRun : Bool}

/-- What happens to one fetch leaves the others in their places. -/
theorem Placed.concerns {due due' : List Ticket} {j : Job} (h : Placed s due n j)
    (hc : Limiter.Concerns s s' t) (hj : j.ticket ≠ t)
    (hdue : ∀ u ≠ t, u ∈ due → u ∈ due') : Placed s' due' n j := by
  have hheard (hj : j.ticket ≠ t) :
      j.ticket ∈ s.agenda.called ∨ j.ticket ∈ due → j.ticket ∈ s'.agenda.called ∨ j.ticket ∈ due' :=
    Or.imp (hc.called _ hj) (hdue _ hj)
  cases h with
  | ready rest unused heard => exact .ready rest (hc.unused hj unused) (hheard hj heard)
  | queued rest waits =>
    rw [← hc.fee _ hj]
    exact .queued rest ((hc.mem_tickets_iff hj).mpr waits)
  | calling rest holds heard =>
    refine .calling rest ((hc.held _ hj _).mpr holds) ?_
    rw [hc.now]
    exact heard.imp (hc.alarms _) (And.imp_right (hheard hj))
  | ended done => exact .ended (hc.done hj done)

/-! ## One fetch goes on -/

/-- How a fetch has gone on, from a world and with a budget, until it had to wait or was over. -/
structure Went (w : World σ) (t : Ticket) (n : Nat) (o : Job × World σ) : Prop where
  ticket : o.1.ticket = t
  concerns : Limiter.Concerns w.limiter o.2.limiter t
  nextTicket : o.2.nextTicket = w.nextTicket
  healthy : o.2.limiter.Healthy
  stuck : ∀ r, ¬ o.2.limiter.CanGo r t
  placed : ∃ n', (∀ due, Placed o.2.limiter due n' o.1) ∧
    o.2.limiter.agenda.load + n' ≤ w.limiter.agenda.load + n

/-- One more step at the beginning. -/
theorem Went.after {n' : Nat} {o : Job × World σ} (h : Went w' t n' o)
    (hc : Limiter.Concerns w.limiter w'.limiter t)
    (hload : w'.limiter.agenda.load + n' ≤ w.limiter.agenda.load + n)
    (hnext : w'.nextTicket = w.nextTicket) : Went w t n o := by
  obtain ⟨n'', hplaced, hload'⟩ := h.placed
  exact ⟨h.ticket, hc.trans h.concerns, h.nextTicket.trans hnext, h.healthy, h.stuck, n'', hplaced,
    Nat.le_trans hload' hload⟩

/-- A step at the beginning that changes the service alone. -/
theorem Went.withService {s : σ} {o : Job × World σ} (h : Went (w.withService s) t n o) :
    Went w t n o :=
  h.after (.refl w.limiter t) (Nat.le_refl _) rfl

/-- The end of a turn. -/
theorem Went.stop {j : Job} (hh : w.limiter.Healthy) (hj : j.ticket = t)
    (hstuck : ∀ r, ¬ w.limiter.CanGo r t) (hplaced : ∀ due, Placed w.limiter due n j) :
    Went w t n (j, w) :=
  ⟨hj, .refl w.limiter t, rfl, hh, hstuck, n, hplaced, Nat.le_refl _⟩

theorem stuck_of_idle (h : s.Idle t) (r : String) : ¬ s.CanGo r t :=
  fun hgo => h r hgo.mem_tickets

theorem grantOf?_eq_none (h : t ∉ s.granted) : s.grantOf? t = none := by
  cases hgrant : s.grantOf? t with
  | none => rfl
  | some g =>
    refine absurd (Limiter.isGranted_iff.mp ?_) h
    rw [Limiter.isGranted, hgrant]
    rfl

theorem exists_grantOf? (h : t ∈ s.granted) : ∃ g, s.grantOf? t = some g :=
  Option.isSome_iff_exists.mp (Limiter.isGranted_iff.mpr h)

theorem idle_of_held {r : String} (h : s.Orderly) (hheld : (t, r) ∈ s.held) : s.Idle t :=
  fun _ hmem => h.not_held_of_mem_tickets hmem hheld

/-- A ticket that was never granted holds nothing. -/
theorem done_of_unused (h : s.Orderly) (hu : s.Unused t) : s.Done t := by
  refine ⟨hu.1, fun r hheld => hu.2 ?_⟩
  obtain ⟨g, hg, hgt, -⟩ := h.heldGranted hheld
  exact List.mem_map.mpr ⟨g, hg, hgt⟩

/-! ## How a fetch goes on -/

theorem goOn_queued (t : Ticket) (registry : String)
    (next : (FetchStep.acquire registry).Answer → FetchProgram FetchResponse) (w : World σ) :
    Job.goOn service t (.ask (.acquire registry) next) .queued w =
      match (w.onLimiter (·.turn t)).limiter.grantOf? t with
      | some grant => Job.goOn service t (next grant.waited) .ready (w.onLimiter (·.turn t))
      | none => (⟨t, .ask (.acquire registry) next, .queued⟩, w.onLimiter (·.turn t)) := by
  cases hgrant : (w.onLimiter (·.turn t)).limiter.grantOf? t with
  | none => simp only [Job.goOn, if_true, hgrant]
  | some grant => simp only [Job.goOn, if_true, hgrant]

/-- A fetch begins to wait for its permit. -/
theorem goOn_acquire (t : Ticket) (registry : String)
    (next : (FetchStep.acquire registry).Answer → FetchProgram FetchResponse) (w : World σ) :
    Job.goOn service t (.ask (.acquire registry) next) .ready w =
      Job.goOn service t (.ask (.acquire registry) next) .queued
        (w.onLimiter (·.ask t registry)) := by
  rw [Job.goOn, Job.goOn, if_neg Phase.noConfusion, if_pos rfl]

theorem goOn_connect (registry : String)
    (next : (FetchStep.connect registry).Answer → FetchProgram FetchResponse) (phase : Phase) :
    Job.goOn service t (.ask (.connect registry) next) phase w =
      Job.goOn service t (next (service.connect registry w.service).1) .ready
        (w.withService (service.connect registry w.service).2) := by
  rw [Job.goOn]
  rfl

/-- A call without delay is answered at once. -/
theorem goOn_call_zero (id : ClientId) (call : Call)
    (next : (FetchStep.call id call).Answer → FetchProgram FetchResponse) {s : σ}
    (hstart : service.start id call w.service = (0, s)) :
    Job.goOn service t (.ask (.call id call) next) .ready w =
      Job.goOn service t (next (service.answer id call s).1) .ready
        (w.withService (service.answer id call s).2) := by
  rw [Job.goOn, hstart]
  · rfl
  · exact fun _ => Phase.noConfusion

/-- A call that takes its time. -/
theorem goOn_call_pos (id : ClientId) (call : Call)
    (next : (FetchStep.call id call).Answer → FetchProgram FetchResponse) {s : σ} {ms : Nat}
    (hstart : service.start id call w.service = (ms, s)) (hms : ms ≠ 0) :
    Job.goOn service t (.ask (.call id call) next) .ready w =
      (⟨t, .ask (.call id call) next, .calling (w.now + ms)⟩,
        (w.withService s).onLimiter (·.callAt (w.now + ms) t)) := by
  rw [Job.goOn, hstart]
  · exact if_neg hms
  · exact fun _ => Phase.noConfusion

theorem goOn_calling (id : ClientId) (call : Call)
    (next : (FetchStep.call id call).Answer → FetchProgram FetchResponse) (doneAt : Nat) :
    Job.goOn service t (.ask (.call id call) next) (.calling doneAt) w =
      if doneAt ≤ w.now then
        Job.goOn service t (next (service.answer id call w.service).1) .ready
          (w.withService (service.answer id call w.service).2)
      else (⟨t, .ask (.call id call) next, .calling doneAt⟩, w) := by
  rw [Job.goOn]
  rfl

/-- A fetch that waits for its permit gets a turn. -/
theorem went_acquire
    {next : (FetchStep.acquire key.registry).Answer → FetchProgram FetchResponse}
    (hh : w.limiter.Healthy)
    (rest : ∀ waited : Nat, Rest key inRun (next waited) .admitted n)
    (waits : t ∈ (w.limiter.lane key.lane).tickets)
    (ih : ∀ (waited : Nat) (w' : World σ), w'.limiter.Healthy →
      (t, key.lane) ∈ w'.limiter.held → Went w' t n (Job.goOn service t (next waited) .ready w')) :
    Went w t (n + (w.limiter.lane key.lane).fee t)
      (Job.goOn service t (.ask (.acquire key.registry) next) .queued w) := by
  have hturn := Limiter.turn_spec hh waits
  have hh' : (w.onLimiter (·.turn t)).limiter.Healthy := hturn.healthy
  have hload := hturn.load
  rw [goOn_queued]
  rcases hturn.place with hwaits | ⟨hidle, hheld⟩
  · have hnone : (w.onLimiter (·.turn t)).limiter.grantOf? t = none :=
      grantOf?_eq_none (hturn.healthy.orderly.ungranted hwaits)
    rw [hnone]
    have hstop : Went (w.onLimiter (·.turn t)) t (n + ((w.limiter.turn t).lane key.lane).fee t)
        (⟨t, .ask (.acquire key.registry) next, .queued⟩, w.onLimiter (·.turn t)) :=
      Went.stop hh' rfl hturn.stuck fun due => .queued rest hwaits
    refine hstop.after hturn.concerns ?_ rfl
    show (w.limiter.turn t).agenda.load + (n + ((w.limiter.turn t).lane key.lane).fee t) ≤ _
    omega
  · obtain ⟨g, hgrant, hgt, -⟩ := hturn.healthy.orderly.heldGranted hheld
    obtain ⟨grant, hsome⟩ : ∃ grant, (w.onLimiter (·.turn t)).limiter.grantOf? t = some grant :=
      exists_grantOf? (List.mem_map.mpr ⟨g, hgrant, hgt⟩)
    rw [hsome]
    refine (ih grant.waited _ hh' hheld).after hturn.concerns ?_ rfl
    show (w.limiter.turn t).agenda.load + n ≤ _
    omega

/-! ## Steps of a fetch that does not wait -/

/-- However far a fetch has come, it goes on with what is left of it. -/
def GoesOn (service : Service σ) (key : Key) (inRun : Bool) (t : Ticket)
    (program : FetchProgram FetchResponse) : Prop :=
  ∀ (w : World σ) (st : Progress) (n : Nat), w.limiter.Healthy →
    Rest key inRun program st n → st.Fits w.limiter key.lane t →
    Went w t n (Job.goOn service t program .ready w)

theorem goesOn_done (r : FetchResponse) : GoesOn service key inRun t (.done r) := by
  intro w st n hh rest fits
  have hdone : w.limiter.Done t := by
    cases rest with
    | found result _ => exact done_of_unused hh.orderly fits
    | kept result waited _ _ => exact fits
    | failed e waited => exact fits
    | alone result waited _ _ => exact fits
  rw [Job.goOn]
  have hstop : Went w t 0 (⟨t, .done r, .ready⟩, w) :=
    Went.stop hh rfl (stuck_of_idle hdone.1) fun due => .ended hdone
  exact hstop.after (.refl w.limiter t) (Nat.add_le_add_left (Nat.zero_le n) _) rfl

theorem goesOn_lookUp {k : Key}
    {next : (FetchStep.lookUp k).Answer → FetchProgram FetchResponse}
    (hnext : ∀ kept, GoesOn service key inRun t (next kept)) :
    GoesOn service key inRun t (.ask (.lookUp k) next) := by
  intro w st n hh rest fits
  obtain ⟨rfl, rfl, hnone, hsome⟩ := rest
  rw [Job.goOn]
  cases w.context.get? k with
  | none => exact hnext none w .missed n hh hnone fits
  | some result => exact hnext (some result) w (.found result) n hh (hsome result) fits

theorem goesOn_acquire {r : String}
    {next : (FetchStep.acquire r).Answer → FetchProgram FetchResponse}
    (hnext : ∀ waited : Nat, GoesOn service key inRun t (next waited)) :
    GoesOn service key inRun t (.ask (.acquire r) next) := by
  intro w st n hh rest fits
  obtain ⟨rfl, rfl, hn, rest⟩ := rest
  obtain ⟨n, rfl⟩ := Nat.exists_eq_add_of_le' hn
  have hasked : (w.onLimiter (·.ask t key.registry)).limiter.Healthy := hh.ask fits _
  have hwaits : t ∈ ((w.onLimiter (·.ask t key.registry)).limiter.lane key.lane).tickets := by
    show t ∈ ((w.limiter.onLane key.lane (·.ask t)).lane key.lane).tickets
    rw [Limiter.lane_onLane_self]
    exact Limit.Lane.tickets_ask.mem_iff.mpr List.mem_cons_self
  have hrest := went_acquire hasked rest hwaits fun waited w' hh' hheld =>
    hnext waited w' .admitted n hh' (rest waited) hheld
  rw [goOn_acquire]
  refine hrest.after (Limiter.concerns_ask _ t _) ?_ rfl
  have hfee := Limit.Lane.fee_le ((w.onLimiter (·.ask t key.registry)).limiter.lane key.lane) t
  exact Nat.add_le_add_left (Nat.add_le_add_left hfee n) _

theorem goesOn_connect {r : String}
    {next : (FetchStep.connect r).Answer → FetchProgram FetchResponse}
    (hnext : ∀ client : Except RegistryError ClientId, GoesOn service key inRun t (next client)) :
    GoesOn service key inRun t (.ask (.connect r) next) := by
  intro w st n hh rest fits
  obtain ⟨rfl, rfl, herror, hok⟩ := rest
  rw [goOn_connect]
  rcases service.connect key.registry w.service with ⟨client, s⟩
  cases client with
  | error e => exact (hnext (.error e) (w.withService s) .refused n hh (herror e) fits).withService
  | ok id => exact (hnext (.ok id) (w.withService s) (.served id) n hh (hok id) fits).withService

theorem goesOn_call {id : ClientId} {call : Call}
    {next : (FetchStep.call id call).Answer → FetchProgram FetchResponse}
    (hnext : ∀ answer, GoesOn service key inRun t (next answer)) :
    GoesOn service key inRun t (.ask (.call id call) next) := by
  intro w st n hh rest fits
  obtain ⟨rfl, hn, rest⟩ := rest
  obtain ⟨n, rfl⟩ := Nat.exists_eq_add_of_le' hn
  rcases hs : service.start id call w.service with ⟨ms, s⟩
  by_cases hms : ms = 0
  · subst hms
    rw [goOn_call_zero id call next hs]
    have hrest := hnext (service.answer id call s).1 (w.withService (service.answer id call s).2)
      (.served id) n hh (rest _) fits
    exact hrest.after (.refl w.limiter t) (Nat.add_le_add_left (Nat.le_add_right n 2) _) rfl
  · rw [goOn_call_pos id call next hs hms]
    have hcalls := Limiter.concerns_callAt w.limiter (w.now + ms) t
    have hh' : ((w.withService s).onLimiter (·.callAt (w.now + ms) t)).limiter.Healthy :=
      hh.onAgenda (·.callAt (w.now + ms) t) (Limiter.now_callAt w.limiter _ t) hcalls.alarms
    have hidle : (w.limiter.callAt (w.now + ms) t).Idle t :=
      idle_of_held hh'.orderly (show (t, key.lane) ∈ w.limiter.held from fits)
    have hstop : Went ((w.withService s).onLimiter (·.callAt (w.now + ms) t)) t n
        (⟨t, .ask (.call id call) next, .calling (w.now + ms)⟩,
          (w.withService s).onLimiter (·.callAt (w.now + ms) t)) := by
      refine Went.stop hh' rfl (stuck_of_idle hidle) fun due => ?_
      exact .calling rest fits (.inl (Limit.Agenda.mem_alarms_callAt.mpr (.inr rfl)))
    refine hstop.after hcalls ?_ rfl
    have hload := Limit.Agenda.load_callAt w.limiter.agenda (w.now + ms) t
    show (w.limiter.agenda.callAt (w.now + ms) t).load + n ≤ w.limiter.agenda.load + (n + 2)
    omega

theorem goesOn_release {next : FetchStep.release.Answer → FetchProgram FetchResponse}
    (hnext : GoesOn service key inRun t (next ())) :
    GoesOn service key inRun t (.ask .release next) := by
  intro w st n hh rest fits
  obtain ⟨hst, hn, rest⟩ := rest
  obtain ⟨n, rfl⟩ := Nat.exists_eq_add_of_le' hn
  have hheld : (t, key.lane) ∈ w.limiter.held := by
    rcases hst with rfl | ⟨id, rfl⟩
    · exact fits
    · exact fits
  have hdone := (hh.orderly.givesBack_release (idle_of_held hh.orderly hheld)).done
  rw [Job.goOn]
  have hrest := hnext (w.onLimiter (·.release t)) .finished n (hh.release t) rest hdone
  refine hrest.after (Limiter.concerns_release w.limiter t) ?_ rfl
  have hload := Limiter.load_release w.limiter t
  show (w.limiter.release t).agenda.load + n ≤ w.limiter.agenda.load + (n + 2)
  omega

theorem goesOn_remember {k : Key} {result : FetchResult}
    {next : (FetchStep.remember k result).Answer → FetchProgram FetchResponse}
    (hnext : GoesOn service key inRun t (next ())) :
    GoesOn service key inRun t (.ask (.remember k result) next) := by
  intro w st n hh rest fits
  obtain ⟨rfl, rfl, -, rest⟩ := rest
  rw [Job.goOn]
  have hrest := hnext { w with context := w.context.set k result } (.kept result) n hh rest fits
  exact hrest.after (.refl w.limiter t) (Nat.le_refl _) rfl

/-- A fetch that does not wait goes on until it waits or is over. -/
theorem goesOn (service : Service σ) (program : FetchProgram FetchResponse) :
    GoesOn service key inRun t program := by
  induction program with
  | done r => exact goesOn_done r
  | ask q next ih =>
    cases q with
    | lookUp k => exact goesOn_lookUp ih
    | acquire r => exact goesOn_acquire ih
    | connect r => exact goesOn_connect ih
    | call id call => exact goesOn_call ih
    | release => exact goesOn_release (ih ())
    | remember k result => exact goesOn_remember (ih ())

/-- **What the turn of a fetch does.** -/
theorem Placed.turn {due : List Ticket} {j : Job} (service : Service σ)
    (h : Placed w.limiter due n j)
    (hh : w.limiter.Healthy) : Went w j.ticket n (j.turn service w) := by
  cases h with
  | @ready key inRun n t program rest unused _ =>
    refine goesOn service program w (.start inRun) n hh rest ?_
    cases inRun with
    | true => exact unused
    | false => exact unused
  | queued rest waits =>
    exact went_acquire hh rest waits fun waited w' hh' hheld =>
      goesOn service _ w' .admitted _ hh' (rest waited) hheld
  | @calling key inRun n t id call next doneAt rest holds heard =>
    show Went w t n (Job.goOn service t (.ask (.call id call) next) (.calling doneAt) w)
    rw [goOn_calling]
    split
    · have hrest := goesOn service (next (service.answer id call w.service).1)
        (w.withService (service.answer id call w.service).2) (.served id) n hh (rest _) holds
      exact hrest.withService
    · next hlate =>
      -- the fetch was called for nothing, and keeps its alarm
      refine Went.stop hh rfl (stuck_of_idle (idle_of_held hh.orderly holds)) fun due' => ?_
      exact .calling rest holds (.inl (heard.resolve_right fun h => hlate h.1))
  | @ended t r phase done =>
    show Went w t 0 (Job.goOn service t (.done r) phase w)
    rw [Job.goOn]
    exact Went.stop hh rfl (stuck_of_idle done.1) fun due' => .ended done

end TagWatch
