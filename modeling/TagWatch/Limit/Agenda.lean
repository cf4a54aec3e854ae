/-!
# Agendas

An agenda knows the time and who goes on next.

**Calls.** A ticket is *called* when something that it waited for has come about. Called tickets
are to take their turns in the order in which they were called; being called again before one's
turn changes nothing.

**Alarms.** A ticket that waits for a moment sets an *alarm*. When the moment comes, the tickets
with an alarm for it are called, in the order in which they set it.
-/

namespace TagWatch.Limit

/-- An acquisition, from the request on until the permit is given back. -/
abbrev Ticket := Nat

/-- The time, and the tickets that go on now or at a known moment. -/
structure Agenda where
  now : Nat
  /-- Tickets that were called and have not had their turn, in order. -/
  called : List Ticket
  /-- Tickets to be called at a moment, in the order in which they asked for it. -/
  alarms : List (Nat × Ticket)
  deriving Repr, DecidableEq

namespace Agenda

/-- The agenda at time zero with nobody on it. -/
def empty : Agenda := ⟨0, [], []⟩

/-- A ticket is called. -/
def call (a : Agenda) (t : Ticket) : Agenda :=
  if a.called.contains t then a else { a with called := a.called ++ [t] }

/-- Tickets are called one after another. -/
def callAll (a : Agenda) (ts : List Ticket) : Agenda := ts.foldl call a

/-- A ticket sets an alarm, unless it has set the same alarm before. -/
def callAt (a : Agenda) (time : Nat) (t : Ticket) : Agenda :=
  if a.alarms.contains (time, t) then a else { a with alarms := a.alarms ++ [(time, t)] }

/-- A ticket gets its turn. -/
def take (a : Agenda) (t : Ticket) : Agenda := { a with called := a.called.erase t }

/-- A ticket is neither to be called nor to get a turn any more. -/
def dismiss (a : Agenda) (t : Ticket) : Agenda :=
  { a with called := a.called.erase t, alarms := a.alarms.filter (·.2 ≠ t) }

/-- The earliest moment that an alarm is set for. -/
def nextAlarm? (a : Agenda) : Option Nat := (a.alarms.map (·.1)).min?

/-- The tickets with an alarm for a moment or an earlier one. -/
def due (a : Agenda) (moment : Nat) : List Ticket :=
  (a.alarms.filter fun e => e.1 ≤ moment).map (·.2)

/-- Time passes until a moment, and the tickets with an alarm for it are called. The moment is
not to lie after the next alarm. -/
def sleepUntil (a : Agenda) (moment : Nat) : Agenda :=
  let now := max a.now moment
  { a with now := now, alarms := a.alarms.filter fun e => now < e.1 }.callAll (a.due now)

end Agenda

end TagWatch.Limit
