import TagWatch.Limit.Limiter

/-!
# Workloads

A workload is a set of named users of one limiter, in virtual time. A user either holds a permit
directly, or is a task that acquires a permit on its own, holds it for some time or until it is
told to release it, and gives it back.

**Time** moves only by `advance` and while `acquire` waits, from one moment at which somebody is
called to the next; at each moment everybody who is called takes a turn, until nobody is.

**Turns** are taken in the order of the calls. The acquisition that `acquire` waits for is an
exception: when a new moment comes it goes first, and otherwise it goes after everybody else who
is called.
-/

namespace TagWatch.Limit

/-- How long a task keeps its permit. -/
inductive Hold where
  | forMs (ms : Nat)
  | untilTold
  deriving Repr, DecidableEq

/-- A task that uses a permit and gives it back. -/
structure Task where
  ticket : Ticket
  hold : Hold
  /-- Whether it has been told to release its permit. -/
  told : Bool
  /-- Whether it gave its permit back or was aborted. -/
  finished : Bool
  deriving Repr, DecidableEq

/-- Named users of one limiter. -/
structure Workload where
  limiter : Limiter
  nextTicket : Ticket
  /-- The tickets of permits that are held directly, by name. -/
  permits : Table String Ticket
  /-- All tasks that were ever started. -/
  tasks : List Task
  /-- The latest task of each name. -/
  names : Table String Ticket
  deriving Repr, DecidableEq

namespace Workload

/-- A workload without users. -/
def fresh (limiter : Limiter) : Workload := ⟨limiter, 0, .empty, [], .empty⟩

/-- The workload with its limiter changed. -/
def onLimiter (w : Workload) (f : Limiter → Limiter) : Workload :=
  { w with limiter := f w.limiter }

/-- The workload with the task of a ticket changed. -/
def onTask (w : Workload) (t : Ticket) (f : Task → Task) : Workload :=
  { w with tasks := w.tasks.map fun task => if task.ticket = t then f task else task }

/-! ## Turns -/

/-- When a task gives its permit back: absent while it has none or waits to be told. -/
def releaseTime? (w : Workload) (task : Task) : Option Nat :=
  if task.finished then none
  else match w.limiter.grantOf? task.ticket, task.hold with
    | some grant, .forMs ms => some (grant.time + ms)
    | some grant, .untilTold => if task.told then some grant.time else none
    | none, _ => none

/-- A task gives its permit back. -/
def finish (w : Workload) (t : Ticket) : Workload :=
  (w.onTask t fun task => { task with finished := true }).onLimiter (·.release t)

/-- The turn of a ticket. A task that has its permit gives it back when its time has come, or
else is to be called at that time. -/
def turn (w : Workload) (t : Ticket) : Workload :=
  let w := w.onLimiter (·.turn t)
  match (w.tasks.find? (·.ticket == t)).bind w.releaseTime? with
  | some time =>
    if time ≤ w.limiter.now then w.finish t else w.onLimiter (·.callAt time t)
  | none => w

/-- Who takes the next turn: the first ticket that was called, an awaited ticket last. -/
def next? (w : Workload) (awaited : Option Ticket) : Option Ticket :=
  let called := w.limiter.agenda.called
  (called.filter fun t => some t ≠ awaited).head?.or called.head?

/-- A number of turns, until nobody is called or an awaited ticket has been granted. -/
def takeTurns (awaited : Option Ticket) : Nat → Workload → Workload
  | 0, w => w
  | fuel + 1, w =>
    if awaited.any w.limiter.isGranted then w
    else match w.next? awaited with
      | some t => takeTurns awaited fuel (w.turn t)
      | none => w

/-- Everybody who is called takes a turn, until nobody is called or an awaited ticket has been
granted. A ticket is called for the first time, for a slot, for the window lock, for a global
slot, at the end of its sleep, at the end of its hold and when it is told: eight turns for each
are enough. -/
def settle (w : Workload) (awaited : Option Ticket) : Workload :=
  takeTurns awaited (8 * w.nextTicket) w

/-! ## Time -/

/-- An awaited ticket takes its turn, if it is called. -/
def turnOf (w : Workload) (awaited : Option Ticket) : Workload :=
  match awaited with
  | some t => if w.limiter.agenda.called.contains t then w.turn t else w
  | none => w

/-- Time passes until a given moment, which is not to lie after the next alarm. -/
def sleepUntil (w : Workload) (awaited : Option Ticket) (time : Nat) : Workload :=
  ((w.onLimiter (·.sleepUntil time)).turnOf awaited).settle awaited

/-- Time passes from one moment until another or until an awaited ticket has been granted, alarm
by alarm. -/
def passUntil (awaited : Option Ticket) (w : Workload) (time target : Nat) : Workload :=
  if awaited.any w.limiter.isGranted then w
  else match w.limiter.nextAlarm? with
    | some alarm =>
      if _h : time < alarm ∧ alarm ≤ target then
        passUntil awaited (w.sleepUntil awaited alarm) alarm target
      else w.sleepUntil awaited target
    | none => w.sleepUntil awaited target
termination_by target - time

/-! ## Operations -/

/-- Time passes by a number of milliseconds. -/
def advance (w : Workload) (ms : Nat) : Workload :=
  w.passUntil none w.limiter.now (w.limiter.now + ms)

/-- Holds the permit of a ticket under a name; a permit held under that name before is given
back. -/
def keep (w : Workload) (name : String) (t : Ticket) : Workload :=
  let w' := { w with permits := w.permits.set name t }
  match w.permits.get? name with
  | some old => w'.onLimiter (·.release old)
  | none => w'

/-- Waits for a permit of a registry for at most a number of milliseconds and holds it under a
name. -/
def acquire (w : Workload) (registry name : String) (timeout : Nat) :
    Workload × Option Grant :=
  let t := w.nextTicket
  let w := { w with nextTicket := t + 1, limiter := w.limiter.ask t registry }
  let w := (w.turn t).passUntil (some t) w.limiter.now (w.limiter.now + timeout)
  match w.limiter.grantOf? t with
  | some grant => ((w.keep name t).settle none, some grant)
  | none => ((w.onLimiter (·.abandon t)).settle none, none)

/-- Starts a task under a name. -/
def spawn (w : Workload) (registry name : String) (hold : Hold) : Workload :=
  let t := w.nextTicket
  settle
    { w with
      nextTicket := t + 1
      limiter := (w.limiter.ask t registry).call t
      tasks := w.tasks ++ [⟨t, hold, false, false⟩]
      names := w.names.set name t }
    none

/-- Releases the permit held under a name, or else tells the task of that name to release its
permit; the answer is whether there was one of them. -/
def release (w : Workload) (name : String) : Workload × Bool :=
  match w.permits.get? name with
  | some t =>
    let w := { w with permits := w.permits.filter fun name' _ => name' ≠ name }
    ((w.onLimiter (·.release t)).settle none, true)
  | none =>
    match w.names.get? name with
    | some t =>
      let w := w.onTask t fun task => { task with told := true }
      ((w.onLimiter (·.call t)).settle none, true)
    | none => (w, false)

/-- Cancels the task of a name, wherever it waits. -/
def abort (w : Workload) (name : String) : Workload :=
  match w.names.get? name with
  | some t =>
    let w := w.onTask t fun task => { task with finished := true }
    (w.onLimiter (·.abandon t)).settle none
  | none => w

/-- The grant of the task of a name, and whether that task has finished. -/
def status (w : Workload) (name : String) : Option Grant × Bool :=
  match w.names.get? name with
  | some t =>
    (w.limiter.grantOf? t, w.tasks.any fun task => task.ticket == t && task.finished)
  | none => (none, false)

end Workload

end TagWatch.Limit
