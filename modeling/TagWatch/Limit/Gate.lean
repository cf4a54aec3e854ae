import TagWatch.Limit.Agenda

/-!
# Gates

A gate hands out a number of equal slots in order of arrival. A ticket joins the line in front of
the gate and passes as soon as fewer tickets are before it than slots are free: the free slots
are kept for the tickets in front, so that nobody is overtaken by a later arrival, whoever gets
a turn first.

When a slot is given back, or a ticket leaves the line that could have passed, the first ticket
that could not pass before can pass now: `next?` and `successor?` say which one that is, and it
is for the user of the gate to call it.
-/

namespace TagWatch.Limit

/-- The free slots of a gate and the line in front of it. -/
structure Gate where
  free : Nat
  line : List Ticket
  deriving Repr, DecidableEq

namespace Gate

/-- A gate with a number of slots that nobody has asked for. -/
def ofSize (slots : Nat) : Gate := ⟨slots, []⟩

/-- Whether a ticket in line may pass. -/
def admits (g : Gate) (t : Ticket) : Bool := (g.line.take g.free).contains t

/-- The first ticket in line that may not pass. -/
def next? (g : Gate) : Option Ticket := g.line[g.free]?

/-- The ticket that may pass when another one leaves the line. -/
def successor? (g : Gate) (t : Ticket) : Option Ticket := if g.admits t then g.next? else none

/-- A ticket joins the line. -/
def join (g : Gate) (t : Ticket) : Gate := { g with line := g.line ++ [t] }

/-- A ticket passes, if it may. -/
def pass (g : Gate) (t : Ticket) : Gate :=
  if g.admits t then ⟨g.free - 1, g.line.erase t⟩ else g

/-- A ticket leaves the line without passing. -/
def leave (g : Gate) (t : Ticket) : Gate := { g with line := g.line.erase t }

/-- A slot is given back. -/
def restore (g : Gate) : Gate := { g with free := g.free + 1 }

end Gate

end TagWatch.Limit
