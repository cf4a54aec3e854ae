import TagWatch.Fetch.Fetch
import TagWatch.Limit.Limiter
import TagWatch.Run.Context

/-!
# Fetches side by side

A pool runs several fetches at once, in virtual time. They share a **world**: the limiter, the
context of the run and the service that answers calls. A fetch goes on until it has to wait for a
permit or for the answer to a call; when nobody is called, time passes until the next moment at
which somebody is.

**Turns.** In a small pool, of at most `roundLimit` fetches, the fetches get their turns in
rounds: when anybody is called, every fetch gets a turn, in the order in which they were given,
and goes on if it can. In a larger pool only the fetches that were called get turns, in the order
of the calls.

Every fetch is called a bounded number of times, so that the number of rounds, turns and moments
is bounded by the number of fetches (`Pool.steps`).
-/

namespace TagWatch

open Limit (Limiter Ticket)

/-- What the fetches of a pool share. -/
structure World (σ : Type) where
  limiter : Limiter
  nextTicket : Ticket
  context : Context
  service : σ

/-- What a fetch is waiting for. -/
inductive Phase where
  /-- Its next step has not begun. -/
  | ready
  /-- A permit. -/
  | queued
  /-- The answer to a call, which is there at this time. -/
  | calling (doneAt : Nat)
  deriving Repr, DecidableEq

/-- A fetch on its way: the ticket that it is called by, what is left of it and what it waits
for. -/
structure Job where
  ticket : Ticket
  program : FetchProgram FetchResponse
  phase : Phase

namespace World

variable {σ : Type}

/-- A world with a limiter and a service, in which nothing was fetched yet. -/
def fresh (limiter : Limiter) (service : σ) : World σ := ⟨limiter, 0, {}, service⟩

/-- The current time. -/
def now (w : World σ) : Nat := w.limiter.now

/-- The world with its limiter changed. -/
def onLimiter (w : World σ) (f : Limiter → Limiter) : World σ :=
  { w with limiter := f w.limiter }

/-- The world with the tickets replaced that are called. -/
def withCalled (w : World σ) (called : List Ticket) : World σ :=
  w.onLimiter (·.onAgenda fun a => { a with called := called })

end World

namespace Job

variable {σ : Type}

/-- The outcome of a fetch that is over. -/
def response? (j : Job) : Option FetchResponse :=
  match j.program with
  | .done r => some r
  | .ask _ _ => none

/-- A fetch goes on until it is over or has to wait. -/
def goOn (service : Service σ) (t : Ticket) :
    FetchProgram FetchResponse → Phase → World σ → Job × World σ
  | .done r, phase, w => (⟨t, .done r, phase⟩, w)
  | .ask (.lookUp key) next, _, w => goOn service t (next (w.context.get? key)) .ready w
  | .ask (.remember key result) next, _, w =>
    goOn service t (next ()) .ready { w with context := w.context.set key result }
  | .ask (.connect registry) next, _, w =>
    let (client, s) := service.connect registry w.service
    goOn service t (next client) .ready { w with service := s }
  | .ask .release next, _, w => goOn service t (next ()) .ready (w.onLimiter (·.release t))
  | .ask (.acquire registry) next, phase, w =>
    let w := if phase = .queued then w else w.onLimiter (·.ask t registry)
    let w := w.onLimiter (·.turn t)
    match w.limiter.grantOf? t with
    | some grant => goOn service t (next grant.waited) .ready w
    | none => (⟨t, .ask (.acquire registry) next, .queued⟩, w)
  | .ask (.call client call) next, .calling doneAt, w =>
    if doneAt ≤ w.now then
      let (answer, s) := service.answer client call w.service
      goOn service t (next answer) .ready { w with service := s }
    else (⟨t, .ask (.call client call) next, .calling doneAt⟩, w)
  | .ask (.call client call) next, _, w =>
    let (ms, s) := service.start client call w.service
    if ms = 0 then
      let (answer, s) := service.answer client call s
      goOn service t (next answer) .ready { w with service := s }
    else
      let w := { w with service := s }
      (⟨t, .ask (.call client call) next, .calling (w.now + ms)⟩,
        w.onLimiter (·.callAt (w.now + ms) t))

/-- The turn of a fetch. -/
def turn (service : Service σ) (j : Job) (w : World σ) : Job × World σ :=
  goOn service j.ticket j.program j.phase w

end Job

namespace Pool

variable {σ : Type}

/-- The number of fetches up to which a pool is served in rounds. -/
def roundLimit : Nat := 30

/-- The fetches that a test picks get a turn, in order. -/
def sweep (service : Service σ) (picked : Job → Bool) : List Job → World σ → List Job × World σ
  | [], w => ([], w)
  | j :: jobs, w =>
    let (j, w) := if picked j then j.turn service w else (j, w)
    let (jobs, w) := sweep service picked jobs w
    (j :: jobs, w)

/-- A number of steps. In each of them everybody gets a turn, or the first ticket that was called
does, or time passes because nobody is called. -/
def runSteps (service : Service σ) (inRounds : Bool) :
    Nat → List Job → World σ → List Job × World σ
  | 0, jobs, w => (jobs, w)
  | fuel + 1, jobs, w =>
    match w.limiter.agenda.called, w.limiter.nextAlarm? with
    | first :: rest, _ =>
      let (jobs, w) :=
        if inRounds then sweep service (fun _ => true) jobs (w.withCalled [])
        else sweep service (·.ticket == first) jobs (w.withCalled rest)
      runSteps service inRounds fuel jobs w
    | [], some alarm => runSteps service inRounds fuel jobs (w.onLimiter (·.sleepUntil alarm))
    | [], none => (jobs, w)

/-- A number of steps in which a number of fetches is over: each waits for one permit, with one
sleep, and for the answers of a handful of calls. -/
def steps (fetches : Nat) : Nat := 32 * (fetches + 1)

/-- Fetches that have not begun, with tickets of their own. -/
def jobs (first : Ticket) : List (FetchProgram FetchResponse) → List Job
  | [] => []
  | program :: programs => ⟨first, program, .ready⟩ :: jobs (first + 1) programs

/-- The outcomes of fetches that run side by side, in their order. -/
def run (service : Service σ) (programs : List (FetchProgram FetchResponse)) (w : World σ) :
    List (Option FetchResponse) × World σ :=
  let started := jobs w.nextTicket programs
  let w := { w with nextTicket := w.nextTicket + programs.length }
  let (finished, w) := runSteps service (programs.length ≤ roundLimit) (steps programs.length)
    started (w.withCalled (started.map (·.ticket)))
  (finished.map Job.response?, w)

end Pool

end TagWatch
