import TagWatch.Limit.Lane
import TagWatch.Registry.Name

/-!
# The limiter

The limiter gives out permits to ask a registry. Every registry has a lane of its own, and a gate
with **global slots** is shared by all lanes.

**Admission.** An acquisition, known by its ticket, waits three times, each time in a queue that
is served in order of arrival: for a slot of its lane, then for the window lock of its lane, and,
while it holds that lock, first for room in the window and then for a global slot. The permit is
granted, and enters the window, when the ticket passes the global gate. A limit of zero counts as
one.

**Turns.** Whatever becomes free is kept for the first ticket that waits for it, and that ticket
is called. It goes on only when it gets its turn, and then as far as it can (`turn`). Who gets a
turn when is up to the user of a limiter; the order of the calls is kept on the agenda.

**Capacity.** A pool of slots, be it the global one or that of a lane, holds at most `maxSlots`
slots. A limiter with a larger pool is not `feasible`, and no run on it has an outcome.

**Moves.** The state changes by small moves: `ask` enters a ticket; `seat`, `enter`, `wake`,
`look` and `grant` carry it on; `release` and `withdraw` end it; `sleepUntil` lets time pass. A
move that is not enabled changes nothing.
-/

namespace TagWatch.Limit

/-- The largest number of slots that a pool can have: an eighth of the largest 64-bit number. -/
def maxSlots : Nat := 18446744073709551615 / 8

/-- A permit at the moment when it was granted. -/
structure Grant where
  ticket : Ticket
  registry : String
  /-- When it was granted. -/
  time : Nat
  /-- The time slept for room in the window. -/
  waited : Nat
  deriving Repr, DecidableEq

/-- The state of a limiter. -/
structure Limiter where
  rates : Rates
  agenda : Agenda
  /-- The lanes by canonical registry name, in the order in which they were first asked for. -/
  lanes : Table String Lane
  /-- The global slots and the tickets that wait for one. -/
  pool : Gate
  /-- The permits that have not been given back. -/
  held : List (Ticket × String)
  /-- All grants so far, the oldest first. -/
  grants : List Grant
  deriving Repr, DecidableEq

namespace Limiter

/-- The number of global slots for a configured number. -/
def globalSlots (configured : Nat) : Nat := max 1 configured

/-- A limiter that nobody has used. -/
def fresh (rates : Rates) (globalConcurrency : Nat) : Limiter :=
  ⟨rates, .empty, .empty, .ofSize (globalSlots globalConcurrency), [], []⟩

/-- The current time. -/
def now (s : Limiter) : Nat := s.agenda.now

/-- The lane of a registry, fresh if nobody has asked for it. -/
def lane (s : Limiter) (registry : String) : Lane :=
  s.lanes.getD registry (Lane.fresh (s.rates.lookup registry))

/-- The limiter with the lane of a registry replaced. -/
def setLane (s : Limiter) (registry : String) (l : Lane) : Limiter :=
  { s with lanes := s.lanes.set registry l }

/-- The limiter with the lane of a registry changed. -/
def onLane (s : Limiter) (registry : String) (f : Lane → Lane) : Limiter :=
  s.setLane registry (f (s.lane registry))

/-- The limiter with its agenda changed. -/
def onAgenda (s : Limiter) (f : Agenda → Agenda) : Limiter := { s with agenda := f s.agenda }

/-- The registry in whose lane a ticket waits. -/
def registryOf? (s : Limiter) (t : Ticket) : Option String :=
  (s.lanes.entries.find? fun e => e.2.holds t).map (·.1)

/-- The grant of a ticket, if it has been granted. -/
def grantOf? (s : Limiter) (t : Ticket) : Option Grant := s.grants.find? (·.ticket == t)

/-- Whether a ticket has been granted. -/
def isGranted (s : Limiter) (t : Ticket) : Bool := (s.grantOf? t).isSome

/-- The limits that apply to a registry of any spelling. -/
def rateFor (s : Limiter) (registry : String) : Rate := s.rates.forRegistry registry

/-- Whether the global pool and the pools of all lanes in use have a possible size. -/
def feasible (s : Limiter) : Bool :=
  s.pool.free + s.held.length ≤ maxSlots
    && s.lanes.entries.all fun e => Lane.capacity e.2.rate ≤ maxSlots

/-! ## The agenda -/

/-- A ticket is called. -/
def call (s : Limiter) (t : Ticket) : Limiter := s.onAgenda (·.call t)

/-- A ticket is to be called at a time. -/
def callAt (s : Limiter) (time : Nat) (t : Ticket) : Limiter := s.onAgenda (·.callAt time t)

/-- The earliest moment at which a ticket is to be called. -/
def nextAlarm? (s : Limiter) : Option Nat := s.agenda.nextAlarm?

/-- Time passes until a moment, which is not to lie after the next alarm. -/
def sleepUntil (s : Limiter) (time : Nat) : Limiter := s.onAgenda (·.sleepUntil time)

/-! ## Moves of a ticket -/

/-- A ticket joins the line of a registry of any spelling. -/
def ask (s : Limiter) (t : Ticket) (registry : String) : Limiter :=
  s.onLane (Registry.canonical registry) (·.ask t)

/-- A ticket takes a slot of its lane that is kept for it. -/
def seat (s : Limiter) (t : Ticket) (registry : String) : Limiter :=
  s.onLane registry (·.seat t)

/-- A ticket takes the window lock of its lane if that is free and kept for it. -/
def enter (s : Limiter) (t : Ticket) (registry : String) : Limiter :=
  s.onLane registry (·.enter t)

/-- A sleeper is about to look at the window again once its time has come. -/
def wake (s : Limiter) (t : Ticket) (registry : String) : Limiter :=
  s.onLane registry (·.wake s.now t)

/-- The ticket at the window lock looks at the window. With room it joins the line for a global
slot; otherwise it sets an alarm for the end of its sleep. -/
def look (s : Limiter) (t : Ticket) (registry : String) : Limiter :=
  if (s.lane registry).isAt t .looking then
    let l := (s.lane registry).look s.now
    let s := s.setLane registry l
    match l.admitting with
    | some ⟨_, .pooled, _⟩ => { s with pool := s.pool.join t }
    | some ⟨_, .asleep wakeAt, _⟩ => s.callAt wakeAt t
    | _ => s
  else s

/-- A ticket takes a global slot that is kept for it and gets its permit. The window lock is free
again, and the first ticket that waits for it is called. -/
def grant (s : Limiter) (t : Ticket) (registry : String) : Limiter :=
  match (s.lane registry).admitting with
  | some ⟨u, .pooled, waited⟩ =>
    if u = t ∧ s.pool.admits t then
      let next := (s.lane registry).seated.head?.toList
      let s := s.onLane registry (·.grantAt s.now)
      { s with
        agenda := s.agenda.callAll next
        pool := s.pool.pass t
        held := s.held ++ [(t, registry)]
        grants := s.grants ++ [⟨t, registry, s.now, waited⟩] }
    else s
  | _ => s

/-- The turn of a ticket: it goes on as far as it can at the current time. -/
def turn (s : Limiter) (t : Ticket) : Limiter :=
  let s := s.onAgenda (·.take t)
  match s.registryOf? t with
  | some r => ((((s.seat t r).enter t r).wake t r).look t r).grant t r
  | none => s

/-! ## Ends of an acquisition -/

/-- A held permit is given back, its slot first and then its global slot. -/
def release (s : Limiter) (t : Ticket) : Limiter :=
  match s.held.find? (·.1 == t) with
  | some (_, registry) =>
    let next := (s.lane registry).slots.next?.toList ++ s.pool.next?.toList
    let s := s.onLane registry (·.returnSlot)
    { s with
      agenda := s.agenda.callAll next
      pool := s.pool.restore
      held := s.held.eraseP (·.1 == t) }
  | none => s

/-- A ticket that waits in the lane of a registry gives up, whatever it waits for. It lets go of
its place before the global slots first, then of the window lock, then of its slot. -/
def withdraw (s : Limiter) (t : Ticket) (registry : String) : Limiter :=
  let next := (s.pool.successor? t).toList ++ (s.lane registry).heirs t
  let s := s.onLane registry (·.cancel t)
  { s with agenda := (s.agenda.dismiss t).callAll next, pool := s.pool.leave t }

/-- A ticket is given up: its wait ends, or its permit is given back. -/
def abandon (s : Limiter) (t : Ticket) : Limiter :=
  match s.registryOf? t with
  | some registry => s.withdraw t registry
  | none => (s.release t).onAgenda (·.dismiss t)

/-- The counters of all lanes start again from zero. -/
def resetMetrics (s : Limiter) : Limiter :=
  { s with lanes := s.lanes.mapValues fun _ l => l.resetCounters }

end Limiter

end TagWatch.Limit
