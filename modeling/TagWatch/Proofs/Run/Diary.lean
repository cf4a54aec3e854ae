import TagWatch.Client.Prepared
import TagWatch.Proofs.Fetch.Conversation
import TagWatch.Proofs.Run.Pool

/-!
# What is said while fetches run side by side

The **diary** of a pool notes every call of a client when it begins, and every step of a fetch when
it is answered. It says of each entry which fetch it belongs to and what it does to the world, and
that a client is made and called only while a permit is held.

**Theorem (`Pool.run_diary`).** Every run of fetches in a world at rest has a diary, and what it
notes of each fetch is what the program of the fetch says. This is what its protocol allows
(`fetch_protocol`).

A turn of a fetch is the beginning of its program, from the step that it waits for to the next one
(`Writes`, by induction on the program); what it waits for is noted already if it is a call. A sweep
and a run put turns of several fetches together (`sweep_diary`, `runSteps_diary`), and the notes of
each fetch are found in the diary by its ticket.
-/

namespace TagWatch

open Limit (Limiter Ticket)
open FetchProgram (Rest fetch)

variable {σ : Type} {service : Service σ} {w w' w'' : World σ} {t : Ticket} {n : Nat}

/-! ## Entries -/

/-- An entry in a diary. -/
inductive Note where
  /-- A call of a client begins. -/
  | begun (id : ClientId) (call : Call)
  /-- A step is answered. -/
  | told (event : Event)

/-- What is noted of a step that is answered. -/
def Event.notes (event : Event) : List Note :=
  match event.1 with
  | .call id call => [.begun id call, .told event]
  | _ => [.told event]

/-- A ticket holds a permit. -/
def World.Permits (w : World σ) (t : Ticket) : Prop := ∃ lane, (t, lane) ∈ w.limiter.held

/-- Something happens to the limiter alone, and no permit is lost. -/
structure World.Passes (w w' : World σ) : Prop where
  context : w'.context = w.context
  service : w'.service = w.service
  held : ∀ e ∈ w.limiter.held, e ∈ w'.limiter.held

/-- What is noted for a ticket, and what it does to the world. A client is made and called only
while the ticket holds a permit. -/
inductive Happens (service : Service σ) (t : Ticket) : World σ → Note → World σ → Prop where
  | lookUp (w : World σ) (key : Key) :
    Happens service t w (.told ⟨.lookUp key, w.context.get? key⟩) w
  | acquire {w : World σ} {registry : String} {grant : Limit.Grant} :
    w.limiter.grantOf? t = some grant → (t, Registry.canonical registry) ∈ w.limiter.held →
    Happens service t w (.told ⟨.acquire registry, grant.waited⟩) w
  | connect {w : World σ} {registry : String} :
    (t, Registry.canonical registry) ∈ w.limiter.held →
    Happens service t w (.told ⟨.connect registry, (service.connect registry w.service).1⟩)
      (w.withService (service.connect registry w.service).2)
  | begin {w : World σ} {id : ClientId} {call : Call} : w.Permits t →
    Happens service t w (.begun id call) (w.withService (service.start id call w.service).2)
  | answer {w : World σ} {id : ClientId} {call : Call} : w.Permits t →
    Happens service t w (.told ⟨.call id call, (service.answer id call w.service).1⟩)
      (w.withService (service.answer id call w.service).2)
  | release {w : World σ} : w.Permits t → ¬ (w.onLimiter (·.release t)).Permits t →
    Happens service t w (.told ⟨.release, ()⟩) (w.onLimiter (·.release t))
  | remember (w : World σ) (key : Key) (result : FetchResult) :
    Happens service t w (.told ⟨.remember key result, ()⟩)
      { w with context := w.context.set key result }

/-! ## Diaries -/

/-- The diary of everything that happens from one world to another, where each entry belongs to a
ticket. -/
inductive Diary (service : Service σ) : World σ → List (Ticket × Note) → World σ → Prop where
  | nil (w : World σ) : Diary service w [] w
  | passes {w w' w'' : World σ} {entries : List (Ticket × Note)} : w.Passes w' →
    Diary service w' entries w'' → Diary service w entries w''
  | happens {w w' w'' : World σ} {t : Ticket} {note : Note} {entries : List (Ticket × Note)} :
    Happens service t w note w' → Diary service w' entries w'' →
    Diary service w ((t, note) :: entries) w''

theorem Diary.append {entries entries' : List (Ticket × Note)} (h : Diary service w entries w')
    (h' : Diary service w' entries' w'') : Diary service w (entries ++ entries') w'' := by
  induction h with
  | nil => exact h'
  | passes hp _ ih => exact .passes hp (ih h')
  | happens hn _ ih => exact .happens hn (ih h')

/-- The notes of a ticket in a diary. -/
def notesOf (t : Ticket) (entries : List (Ticket × Note)) : List Note :=
  (entries.filter (·.1 = t)).map (·.2)

theorem notesOf_append (t : Ticket) (entries entries' : List (Ticket × Note)) :
    notesOf t (entries ++ entries') = notesOf t entries ++ notesOf t entries' := by
  simp [notesOf]

theorem notesOf_self (t : Ticket) (notes : List Note) :
    notesOf t (notes.map fun note => (t, note)) = notes := by
  simp [notesOf, List.filter_map, Function.comp_def]

theorem notesOf_eq_nil {entries : List (Ticket × Note)} (h : ∀ e ∈ entries, e.1 ≠ t) :
    notesOf t entries = [] := by
  simpa [notesOf] using h

/-! ## The notes of a fetch -/

/-- What is noted of the step that a fetch waits for: a call has begun. -/
def Job.pending (j : Job) : List Note :=
  match j.program, j.phase with
  | .ask (.call id call) _, .calling _ => [.begun id call]
  | _, _ => []

/-- Between two moments a fetch has noted what it has said. -/
structure Job.Noted (j : Job) (notes : List Note) (j' : Job) : Prop where
  ticket : j'.ticket = j.ticket
  said : ∃ said, j.program.Says said j'.program ∧
    j.pending ++ notes = said.flatMap Event.notes ++ j'.pending

theorem Job.Noted.refl (j : Job) : j.Noted [] j :=
  ⟨rfl, [], .nil _, by simp⟩

theorem Job.Noted.trans {j j' j'' : Job} {notes notes' : List Note} (h : j.Noted notes j')
    (h' : j'.Noted notes' j'') : j.Noted (notes ++ notes') j'' := by
  obtain ⟨said, hsays, hnotes⟩ := h.said
  obtain ⟨said', hsays', hnotes'⟩ := h'.said
  refine ⟨h'.ticket.trans h.ticket, said ++ said', hsays.trans hsays', ?_⟩
  rw [← List.append_assoc, hnotes, List.append_assoc, hnotes', List.flatMap_append,
    List.append_assoc]

/-- A fetch goes on from a world, and what it does is noted. -/
def Wrote (service : Service σ) (w : World σ) (j : Job) (o : Job × World σ) : Prop :=
  ∃ notes, Diary service w (notes.map fun note => (j.ticket, note)) o.2 ∧ j.Noted notes o.1

variable {j : Job} {o : Job × World σ}

/-- The end of a turn, at which a fetch waits for the same step as before. -/
theorem Wrote.stop {program : FetchProgram FetchResponse} {phase phase' : Phase}
    (h : (Job.mk t program phase).pending = (Job.mk t program phase').pending) :
    Wrote service w ⟨t, program, phase⟩ (⟨t, program, phase'⟩, w) :=
  ⟨[], .nil w, rfl, [], .nil _, by simp [h]⟩

theorem Wrote.passes (h : w.Passes w') (hrest : Wrote service w' j o) : Wrote service w j o := by
  obtain ⟨notes, hdiary, hnoted⟩ := hrest
  exact ⟨notes, .passes h hdiary, hnoted⟩

/-- A fetch begins a call. -/
theorem Wrote.begin {id : ClientId} {call : Call}
    {next : (FetchStep.call id call).Answer → FetchProgram FetchResponse} {doneAt : Nat}
    (hrest : Wrote service w' ⟨t, .ask (.call id call) next, .calling doneAt⟩ o)
    (h : Happens service t w (.begun id call) w') :
    Wrote service w ⟨t, .ask (.call id call) next, .ready⟩ o := by
  obtain ⟨notes, hdiary, hticket, said, hsays, hnotes⟩ := hrest
  exact ⟨.begun id call :: notes, .happens h hdiary, hticket, said, hsays, hnotes⟩

/-- The step that a fetch waits for is answered. -/
theorem Wrote.tell {q : FetchStep} {next : q.Answer → FetchProgram FetchResponse} {phase : Phase}
    (answer : q.Answer)
    (hpending : Event.notes ⟨q, answer⟩ =
      (Job.mk t (.ask q next) phase).pending ++ [.told ⟨q, answer⟩])
    (h : Happens service t w (.told ⟨q, answer⟩) w')
    (hrest : Wrote service w' ⟨t, next answer, .ready⟩ o) :
    Wrote service w ⟨t, .ask q next, phase⟩ o := by
  obtain ⟨notes, hdiary, hticket, said, hsays, hnotes⟩ := hrest
  refine ⟨.told ⟨q, answer⟩ :: notes, .happens h hdiary, hticket, _, .cons answer hsays, ?_⟩
  have hready : (Job.mk t (next answer) .ready).pending = [] := by
    simp [Job.pending]
  rw [hready, List.nil_append] at hnotes
  rw [List.flatMap_cons, hpending, hnotes]
  simp

/-! ## Turns -/

/-- However far a fetch has come, what it does as it goes on is noted. -/
def Writes (service : Service σ) (key : Key) (inRun : Bool) (t : Ticket)
    (program : FetchProgram FetchResponse) : Prop :=
  ∀ (w : World σ) (st : Progress) (n : Nat), w.limiter.Healthy →
    Rest key inRun program st n → st.Fits w.limiter key.lane t →
    Wrote service w ⟨t, program, .ready⟩ (Job.goOn service t program .ready w)

variable {key : Key} {inRun : Bool}

theorem passes_turn {r : String} (hh : w.limiter.Healthy) (ht : t ∈ (w.limiter.lane r).tickets) :
    w.Passes (w.onLimiter (·.turn t)) := by
  refine ⟨rfl, rfl, ?_⟩
  rintro ⟨u, r'⟩ hheld
  have hne : u ≠ t := by
    rintro rfl
    exact hh.orderly.not_held_of_mem_tickets ht hheld
  exact ((Limiter.turn_spec hh ht).concerns.held u hne r').mpr hheld

/-- A fetch that waits for its permit gets a turn. -/
theorem wrote_acquire {phase : Phase}
    {next : (FetchStep.acquire key.registry).Answer → FetchProgram FetchResponse}
    (hh : w.limiter.Healthy) (waits : t ∈ (w.limiter.lane key.lane).tickets)
    (ih : ∀ (waited : Nat) (w' : World σ), w'.limiter.Healthy → (t, key.lane) ∈ w'.limiter.held →
      Wrote service w' ⟨t, next waited, .ready⟩ (Job.goOn service t (next waited) .ready w')) :
    Wrote service w ⟨t, .ask (.acquire key.registry) next, phase⟩
      (Job.goOn service t (.ask (.acquire key.registry) next) .queued w) := by
  have hturn := Limiter.turn_spec hh waits
  refine .passes (passes_turn hh waits) ?_
  rw [goOn_queued]
  cases hgrant : (w.onLimiter (·.turn t)).limiter.grantOf? t with
  | none => exact .stop (by cases phase <;> rfl)
  | some grant =>
    have hheld : (t, key.lane) ∈ (w.onLimiter (·.turn t)).limiter.held := by
      rcases hturn.place with hwaits | ⟨-, hheld⟩
      · have hnone := grantOf?_eq_none (hturn.healthy.orderly.ungranted hwaits)
        exact absurd (hgrant.symm.trans hnone) (by simp)
      · exact hheld
    exact .tell (q := FetchStep.acquire key.registry) grant.waited (by cases phase <;> rfl)
      (.acquire hgrant hheld) (ih grant.waited _ hturn.healthy hheld)

theorem writes_acquire {r : String}
    {next : (FetchStep.acquire r).Answer → FetchProgram FetchResponse}
    (hnext : ∀ waited : Nat, Writes service key inRun t (next waited)) :
    Writes service key inRun t (.ask (.acquire r) next) := by
  intro w st n hh rest fits
  obtain ⟨rfl, rfl, -, rest⟩ := rest
  have hasked : (w.onLimiter (·.ask t key.registry)).limiter.Healthy := hh.ask fits _
  have hwaits : t ∈ ((w.onLimiter (·.ask t key.registry)).limiter.lane key.lane).tickets := by
    show t ∈ ((w.limiter.onLane key.lane (·.ask t)).lane key.lane).tickets
    rw [Limiter.lane_onLane_self]
    exact Limit.Lane.tickets_ask.mem_iff.mpr List.mem_cons_self
  have hjoins : w.Passes (w.onLimiter (·.ask t key.registry)) := ⟨rfl, rfl, fun _ => id⟩
  rw [goOn_acquire]
  refine .passes hjoins ?_
  exact wrote_acquire hasked hwaits fun waited w' hh' hheld =>
    hnext waited w' .admitted _ hh' (rest waited) hheld

theorem writes_connect {r : String}
    {next : (FetchStep.connect r).Answer → FetchProgram FetchResponse}
    (hnext : ∀ client : Except RegistryError ClientId, Writes service key inRun t (next client)) :
    Writes service key inRun t (.ask (.connect r) next) := by
  intro w st n hh rest fits
  obtain ⟨rfl, rfl, herror, hok⟩ := rest
  rw [goOn_connect]
  refine .tell (q := FetchStep.connect key.registry) _ rfl (.connect fits) ?_
  rcases service.connect key.registry w.service with ⟨client, s⟩
  cases client with
  | error e => exact hnext (.error e) (w.withService s) .refused n hh (herror e) fits
  | ok id => exact hnext (.ok id) (w.withService s) (.served id) n hh (hok id) fits

/-- A call that was begun is answered. -/
theorem wrote_answer {id : ClientId} {call : Call}
    {next : (FetchStep.call id call).Answer → FetchProgram FetchResponse} {doneAt : Nat}
    (hnext : ∀ answer, Writes service key inRun t (next answer)) (hh : w.limiter.Healthy)
    (rest : ∀ answer, Rest key inRun (next answer) (.served id) n)
    (holds : (t, key.lane) ∈ w.limiter.held) :
    Wrote service w ⟨t, .ask (.call id call) next, .calling doneAt⟩
      (Job.goOn service t (next (service.answer id call w.service).1) .ready
        (w.withService (service.answer id call w.service).2)) :=
  .tell (q := FetchStep.call id call) _ rfl (.answer ⟨_, holds⟩)
    (hnext _ (w.withService (service.answer id call w.service).2) (.served id) n hh (rest _) holds)

theorem writes_call {id : ClientId} {call : Call}
    {next : (FetchStep.call id call).Answer → FetchProgram FetchResponse}
    (hnext : ∀ answer, Writes service key inRun t (next answer)) :
    Writes service key inRun t (.ask (.call id call) next) := by
  intro w st n hh rest fits
  obtain ⟨rfl, -, rest⟩ := rest
  have hbegin : Happens service t w (.begun id call)
      (w.withService (service.start id call w.service).2) := .begin ⟨_, fits⟩
  rcases hs : service.start id call w.service with ⟨ms, s⟩
  rw [hs] at hbegin
  by_cases hms : ms = 0
  · subst hms
    rw [goOn_call_zero id call next hs]
    have hanswer : Wrote service (w.withService s) ⟨t, .ask (.call id call) next, .calling 0⟩ _ :=
      wrote_answer hnext hh rest fits
    exact hanswer.begin hbegin
  · rw [goOn_call_pos id call next hs hms]
    have halarm : (w.withService s).Passes ((w.withService s).onLimiter
        (·.callAt (w.now + ms) t)) := ⟨rfl, rfl, fun _ hheld => hheld⟩
    have hstop : Wrote service _ ⟨t, .ask (.call id call) next, .calling (w.now + ms)⟩ _ :=
      .passes halarm (.stop rfl)
    exact hstop.begin hbegin

theorem writes_release {next : FetchStep.release.Answer → FetchProgram FetchResponse}
    (hnext : Writes service key inRun t (next ())) :
    Writes service key inRun t (.ask .release next) := by
  intro w st n hh rest fits
  obtain ⟨hst, -, rest⟩ := rest
  have hheld : (t, key.lane) ∈ w.limiter.held := by
    rcases hst with rfl | ⟨id, rfl⟩
    · exact fits
    · exact fits
  have hdone := (hh.orderly.givesBack_release (idle_of_held hh.orderly hheld)).done
  rw [Job.goOn]
  refine .tell (q := FetchStep.release) () rfl (.release ⟨_, hheld⟩ ?_)
    (hnext (w.onLimiter (·.release t)) .finished _ (hh.release t) rest hdone)
  rintro ⟨lane, hheld'⟩
  exact hdone.2 lane hheld'

/-- What a fetch does as it goes on is noted. -/
theorem writes (service : Service σ) (program : FetchProgram FetchResponse) :
    Writes service key inRun t program := by
  induction program with
  | done r =>
    intro w st n hh rest fits
    rw [Job.goOn]
    exact .stop rfl
  | ask q next ih =>
    cases q with
    | acquire r => exact writes_acquire ih
    | connect r => exact writes_connect ih
    | call id call => exact writes_call ih
    | release => exact writes_release (ih ())
    | lookUp k =>
      intro w st n hh rest fits
      obtain ⟨rfl, rfl, hnone, hsome⟩ := rest
      rw [Job.goOn]
      refine .tell (q := FetchStep.lookUp k) _ rfl (.lookUp w k) ?_
      cases w.context.get? k with
      | none => exact ih none w .missed n hh hnone fits
      | some result => exact ih (some result) w (.found result) n hh (hsome result) fits
    | remember k result =>
      intro w st n hh rest fits
      obtain ⟨rfl, rfl, -, rest⟩ := rest
      rw [Job.goOn]
      exact .tell (q := FetchStep.remember k result) () rfl (.remember w k result)
        (ih () { w with context := w.context.set k result } (.kept result) n hh rest fits)

/-- What a fetch does in its turn is noted. -/
theorem Placed.wrote {due : List Ticket} (service : Service σ) (h : Placed w.limiter due n j)
    (hh : w.limiter.Healthy) : Wrote service w j (j.turn service w) := by
  cases h with
  | @ready key inRun n t program rest unused _ =>
    refine writes service program w (.start inRun) n hh rest ?_
    cases inRun with
    | true => exact unused
    | false => exact unused
  | queued rest waits =>
    exact wrote_acquire hh waits fun waited w' hh' hheld =>
      writes service _ w' .admitted _ hh' (rest waited) hheld
  | @calling key inRun n t id call next doneAt rest holds heard =>
    show Wrote service w _ (Job.goOn service t (.ask (.call id call) next) (.calling doneAt) w)
    rw [goOn_calling]
    split
    · exact wrote_answer (fun answer => writes service (next answer)) hh rest holds
    · exact .stop rfl
  | @ended t r phase done =>
    show Wrote service w _ (Job.goOn service t (.done r) phase w)
    rw [Job.goOn]
    exact .stop rfl

/-! ## Sweeps and runs -/

variable {ns : List Nat} {js js' js'' : List Job} {picked : Job → Bool}
  {entries entries' : List (Ticket × Note)}

/-- What a diary notes of each of several fetches is what the fetch has said. -/
def Noted (entries : List (Ticket × Note)) (js js' : List Job) : Prop :=
  List.Forall₂ (fun j j' => j.Noted (notesOf j.ticket entries) j') js js'

theorem Noted.refl (js : List Job) : Noted [] js js := by
  refine List.forall₂_same.mpr fun j _ => ?_
  exact .refl j

theorem Noted.trans (h : Noted entries js js') (h' : Noted entries' js' js'') :
    Noted (entries ++ entries') js js'' := by
  induction h generalizing js'' with
  | nil =>
    cases h'
    exact .nil
  | cons hj _ ih =>
    obtain _ | ⟨hj', h'⟩ := h'
    refine .cons ?_ (ih h')
    rw [notesOf_append]
    rw [hj.ticket] at hj'
    exact hj.trans hj'

theorem sweep_diary (service : Service σ) (h : Crew w.limiter (picks picked js) ns js) :
    ∃ entries, Diary service w entries (Pool.sweep service picked js w).2 ∧
      (∀ e ∈ entries, e.1 ∈ tickets js) ∧ Noted entries js (Pool.sweep service picked js w).1 := by
  induction js generalizing ns w with
  | nil => exact ⟨[], .nil w, fun e he => absurd he List.not_mem_nil, .nil⟩
  | cons j js ih =>
    cases ns with
    | nil => exact absurd h.placed.length_eq (Nat.succ_ne_zero _).symm
    | cons n ns =>
      obtain ⟨hticket, -⟩ := List.nodup_cons.mp h.tickets
      obtain ⟨n', hb⟩ := exists_begun service h
      have hwrote : Wrote service w j (if picked j then j.turn service w else (j, w)) := by
        split
        · exact (List.forall₂_cons.mp h.placed).1.wrote service h.healthy
        · exact .stop rfl
      obtain ⟨entries, hdiary, hmem, hnoted⟩ := ih hb.crew
      rw [sweep_cons]
      generalize (if picked j then j.turn service w else (j, w)) = o at hwrote hdiary hnoted ⊢
      obtain ⟨notes, hfirst, hj⟩ := hwrote
      refine ⟨_, hfirst.append hdiary, ?_, .cons ?_ ?_⟩
      · intro e he
        rcases List.mem_append.mp he with he | he
        · obtain ⟨note, -, rfl⟩ := List.mem_map.mp he
          exact List.mem_cons_self
        · exact List.mem_cons_of_mem _ (hmem e he)
      · have hothers : notesOf j.ticket entries = [] := by
          refine notesOf_eq_nil fun e he heq => hticket ?_
          have hown := hmem e he
          rwa [heq] at hown
        rwa [notesOf_append, notesOf_self, hothers, List.append_nil]
      · refine forall₂_imp_mem hnoted fun j' hj' _ _ hnotes => ?_
        have hother : notesOf j'.ticket (notes.map fun note => (j.ticket, note)) = [] := by
          refine notesOf_eq_nil fun e he heq => hticket ?_
          obtain ⟨note, -, rfl⟩ := List.mem_map.mp he
          exact List.mem_map.mpr ⟨j', hj', heq.symm⟩
        rwa [notesOf_append, hother, List.nil_append]

theorem runSteps_diary (service : Service σ) (inRounds : Bool) (fuel : Nat) (h : Running w ns js) :
    ∃ entries, Diary service w entries (Pool.runSteps service inRounds fuel js w).2 ∧
      Noted entries js (Pool.runSteps service inRounds fuel js w).1 := by
  induction fuel generalizing w ns js with
  | zero => exact ⟨[], .nil w, .refl js⟩
  | succ fuel ih =>
    rcases runSteps_succ_cases service inRounds fuel js w with
      ⟨-, -, he⟩ | ⟨time, t, halarm, he⟩ | ⟨picked, called, hcover, hlen, he⟩
    · rw [he]
      exact ⟨[], .nil w, .refl js⟩
    · obtain ⟨entries, hdiary, hnoted⟩ := ih (h.sleepUntil halarm).running
      have hpasses : w.Passes (w.onLimiter (·.sleepUntil time)) := ⟨rfl, rfl, fun _ => id⟩
      rw [he]
      exact ⟨entries, .passes hpasses hdiary, hnoted⟩
    · obtain ⟨first, hfirst, -, hswept⟩ := sweep_diary service (h.dropCalls hcover)
      obtain ⟨ns', hs⟩ := h.sweep service hcover hlen
      obtain ⟨rest, hrest, hnoted⟩ := ih hs.running
      have hpasses : w.Passes (w.withCalled called) := ⟨rfl, rfl, fun _ => id⟩
      rw [he]
      exact ⟨first ++ rest, .passes hpasses (hfirst.append hrest), hswept.trans hnoted⟩

theorem getElem?_jobs (first : Ticket) (programs : List (FetchProgram FetchResponse)) (i : Nat) :
    (Pool.jobs first programs)[i]? =
      programs[i]?.map fun program => ⟨first + i, program, .ready⟩ := by
  induction programs generalizing first i with
  | nil => rfl
  | cons program programs ih =>
    cases i with
    | zero => rfl
    | succ i =>
      rw [Pool.jobs, List.getElem?_cons_succ, List.getElem?_cons_succ, ih]
      simp [Nat.add_assoc, Nat.add_comm 1]

/-- What a fetch has noted, found by its place in the pool. -/
theorem Noted.getElem? {i : Nat} (h : Noted entries js js') (hj : js[i]? = some j) :
    ∃ j', js'[i]? = some j' ∧ j.Noted (notesOf j.ticket entries) j' := by
  induction h generalizing i with
  | nil => cases hj
  | @cons _ j' _ _ hnoted _ ih =>
    cases i with
    | zero =>
      cases hj
      exact ⟨j', rfl, hnoted⟩
    | succ i => exact ih hj

/-- **What is said while fetches run side by side.** A run of fetches in a world at rest has a
diary, in which each fetch has noted what its program says until it ends. -/
theorem Pool.run_diary {programs : List (FetchProgram FetchResponse)} (service : Service σ)
    (hr : w.Rested) (hfetches : ∀ program ∈ programs, program.IsFetch) :
    let o := Pool.run service programs w
    ∃ entries, Diary service w entries o.2 ∧ ∀ i program, programs[i]? = some program →
      ∃ response said, o.1[i]? = some (some response) ∧ program.Says said (.done response) ∧
        notesOf (w.nextTicket + i) entries = said.flatMap Event.notes := by
  obtain ⟨houtcomes, -, -⟩ := Pool.run_rested service hr hfetches
  obtain ⟨entries, hdiary, hnoted⟩ := runSteps_diary service (programs.length ≤ Pool.roundLimit)
    (Pool.steps programs.length) (running_jobs hr hfetches)
  have hopened : w.Passes (w.opened programs) := ⟨rfl, rfl, fun _ => id⟩
  rw [run_eq] at houtcomes ⊢
  refine ⟨entries, .passes hopened hdiary, fun i program hprogram => ?_⟩
  generalize Pool.runSteps service (programs.length ≤ Pool.roundLimit) (Pool.steps programs.length)
    (Pool.jobs w.nextTicket programs) (w.opened programs) = o at houtcomes hdiary hnoted ⊢
  have hjob : (Pool.jobs w.nextTicket programs)[i]? =
      some ⟨w.nextTicket + i, program, .ready⟩ := by
    rw [getElem?_jobs, hprogram, Option.map_some]
  obtain ⟨⟨t', program', phase⟩, hj', hticket, said, hsays, hnotes⟩ := hnoted.getElem? hjob
  have houtcome := houtcomes _ (List.mem_map_of_mem (List.mem_of_getElem? hj'))
  cases program' with
  | ask q next => cases houtcome
  | done response =>
    refine ⟨response, said, ?_, hsays, ?_⟩
    · rw [List.getElem?_map, hj']
      rfl
    · simpa [Job.pending] using hnotes

/-- **The protocol of a fetch.** A fetch says exactly what the protocol allows, and unless its
answer was kept from before its result is an error, a floating tag, or what is known about the tags.
When fetches run side by side in a world at rest, each of them comes to an end, everything that
happens to the service is noted in a diary, and all permits are given back. The notes of each fetch
are those of what it says. -/
theorem fetch_protocol {programs : List (FetchProgram FetchResponse)} (service : Service σ)
    (hr : w.Rested)
    (hfetches : ∀ program ∈ programs, ∃ settings inRun r, program = fetch settings inRun r) :
    (∀ settings inRun r said response,
      (fetch settings inRun r).Says said (.done response) ↔
        r.Protocol settings inRun said response) ∧
    (∀ settings inRun r said response, FetchRequest.Protocol settings inRun r said response →
      response.cacheHit = false → r.Reports response.result) ∧
    let o := Pool.run service programs w
    o.2.Rested ∧ ∃ entries, Diary service w entries o.2 ∧ ∀ i settings inRun r,
      programs[i]? = some (fetch settings inRun r) →
        ∃ response said, o.1[i]? = some (some response) ∧
          r.Protocol settings inRun said response ∧
          notesOf (w.nextTicket + i) entries = said.flatMap Event.notes := by
  have hare : ∀ program ∈ programs, program.IsFetch := by
    intro program hmem
    obtain ⟨settings, inRun, r, rfl⟩ := hfetches program hmem
    exact FetchProgram.isFetch_fetch settings inRun r
  refine ⟨fun settings inRun r said response => FetchProgram.says_fetch_iff,
    fun settings inRun r said response hprotocol hnew => hprotocol.reports hnew,
    (Pool.run_rested service hr hare).2.1, ?_⟩
  obtain ⟨entries, hdiary, hnotes⟩ := Pool.run_diary service hr hare
  refine ⟨entries, hdiary, fun i settings inRun r hprogram => ?_⟩
  obtain ⟨response, said, hresponse, hsays, hsaid⟩ := hnotes i _ hprogram
  exact ⟨response, said, hresponse, FetchProgram.says_fetch_iff.mp hsays, hsaid⟩

/-- A fetch that is not told the newest tag of all, and another one that gets no client. -/
theorem fetch_protocol_without_overall :
    let s : Prepared.State := ⟨⟨[("nginx", {
        tags := some ["1.2.3", "1.3.0", "2.0.0"]
        failures := ⟨[(.latestOverall, ⟨.notFound "nginx", none⟩)]⟩ })]⟩,
      ⟨[("ghcr", { error := some (.unsupportedRegistry "ghcr") })]⟩, []⟩
    let nginx : FetchRequest := ⟨"docker.io", "nginx", "1.2.3", .minor, false, none⟩
    let tool : FetchRequest := ⟨"ghcr.io", "tool", "1.0.0", .minor, false, none⟩
    let w : World Prepared.State := .fresh (.fresh ⟨[]⟩ 1) s
    let o := Pool.run Prepared.service [fetch {} true nginx, fetch {} false tool] w
    let response : FetchResponse :=
      ⟨.success ["1.2.3", "1.3.0", "2.0.0"] (some "1.3.0") none none, false, 0⟩
    o.1[0]? = some (some response) ∧ o.2.Rested ∧
      ∃ entries said, Diary Prepared.service w entries o.2 ∧
        nginx.Protocol {} true said response ∧ notesOf 0 entries = said.flatMap Event.notes := by
  intro s nginx tool w o response
  have hresponse : o.1[0]? = some (some response) := by decide +kernel
  have hfetches : ∀ program ∈ [fetch {} true nginx, fetch {} false tool],
      ∃ settings inRun r, program = fetch settings inRun r := by
    intro program hmem
    rcases List.mem_pair.mp hmem with rfl | rfl
    · exact ⟨{}, true, nginx, rfl⟩
    · exact ⟨{}, false, tool, rfl⟩
  obtain ⟨-, -, hrested, entries, hdiary, hnotes⟩ :=
    fetch_protocol Prepared.service (World.rested_fresh _ _ _) hfetches
  obtain ⟨response', said, hresponse', hprotocol, hsaid⟩ := hnotes 0 {} true nginx rfl
  obtain rfl : response = response' :=
    Option.some.inj (Option.some.inj (hresponse.symm.trans hresponse'))
  exact ⟨hresponse, hrested, entries, said, hdiary, hprotocol, hsaid⟩

end TagWatch
