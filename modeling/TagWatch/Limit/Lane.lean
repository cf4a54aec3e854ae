import TagWatch.Limit.Gate
import TagWatch.Limit.Rate

/-!
# Lanes

Every registry has a lane of its own. A ticket in a lane waits for a slot, then for the window
lock, and, while it holds that lock, first for room in the window and then for a global slot.

**The window** holds the times of the grants of the last minute, oldest first. When it is full,
the ticket at the lock sleeps until its oldest entry turns one minute old.

**Turns.** A ticket goes on only by moves of its own: `seat`, `enter`, `wake`, `look` and
`grantAt` are those of one lane. A move that is not enabled changes nothing.
-/

namespace TagWatch.Limit

/-- The length of the request window, in milliseconds. -/
def window : Nat := 60000

/-- Where an acquisition stands that holds the window lock of its lane. -/
inductive Stage where
  /-- About to look at the window. -/
  | looking
  /-- Asleep until a time, because the window is full. -/
  | asleep (wakeAt : Nat)
  /-- Waiting for a global slot. -/
  | pooled
  deriving Repr, DecidableEq

/-- The acquisition that holds the window lock of a lane. -/
structure Admission where
  ticket : Ticket
  stage : Stage
  /-- The time slept so far for window room. -/
  waited : Nat
  deriving Repr, DecidableEq

/-- The state of one registry. -/
structure Lane where
  rate : Rate
  /-- The slots of the registry and the tickets that wait for one. -/
  slots : Gate
  /-- Tickets that hold a slot and wait for the window lock, in order. -/
  seated : List Ticket
  /-- The ticket that holds a slot and the window lock. -/
  admitting : Option Admission
  /-- The times of the latest grants, oldest first. -/
  recent : List Nat
  totalRequests : Nat
  waitCount : Nat
  deriving Repr, DecidableEq

namespace Lane

/-- The number of slots of a lane. -/
def capacity (rate : Rate) : Nat := max 1 rate.concurrent

/-- The number of grants that the window of a lane has room for. -/
def room (rate : Rate) : Nat := max 1 rate.requestsPerMinute

/-- A lane that nobody has used. -/
def fresh (rate : Rate) : Lane := ⟨rate, .ofSize (capacity rate), [], none, [], 0, 0⟩

/-- A window without the grants that are a minute old or older. -/
def prune (now : Nat) (recent : List Nat) : List Nat :=
  recent.dropWhile fun granted => granted + window ≤ now

/-- Whether a ticket holds the window lock and stands at a stage. -/
def isAt (l : Lane) (t : Ticket) (stage : Stage) : Bool :=
  l.admitting.any fun a => a.ticket == t && a.stage == stage

/-- Whether a ticket holds the window lock. -/
def isAdmitting (l : Lane) (t : Ticket) : Bool := l.admitting.any (·.ticket == t)

/-- Whether a ticket waits in a lane. -/
def holds (l : Lane) (t : Ticket) : Bool :=
  l.slots.line.contains t || l.seated.contains t || l.isAdmitting t

/-! ## Moves of a ticket -/

/-- A ticket joins the line for a slot. -/
def ask (l : Lane) (t : Ticket) : Lane := { l with slots := l.slots.join t }

/-- A ticket takes a slot that is kept for it. -/
def seat (l : Lane) (t : Ticket) : Lane :=
  if l.slots.admits t then { l with slots := l.slots.pass t, seated := l.seated ++ [t] } else l

/-- The first seated ticket takes the window lock if it is free. -/
def enter (l : Lane) (t : Ticket) : Lane :=
  match l.admitting, l.seated with
  | none, first :: rest =>
    if first = t then { l with seated := rest, admitting := some ⟨t, .looking, 0⟩ } else l
  | _, _ => l

/-- A ticket whose sleep is over is about to look at the window again. -/
def wake (l : Lane) (now : Nat) (t : Ticket) : Lane :=
  match l.admitting with
  | some ⟨u, .asleep wakeAt, waited⟩ =>
    if u = t ∧ wakeAt ≤ now then { l with admitting := some ⟨u, .looking, waited⟩ } else l
  | _ => l

/-- The ticket at the window lock looks at the window: with room it goes on to the global slots,
and otherwise falls asleep until the oldest grant leaves the window. -/
def look (l : Lane) (now : Nat) : Lane :=
  match l.admitting with
  | some ⟨t, .looking, waited⟩ =>
    let recent := prune now l.recent
    if recent.length < room l.rate then
      { l with recent := recent, admitting := some ⟨t, .pooled, waited⟩ }
    else match recent with
      | [] => { l with recent := recent, admitting := some ⟨t, .pooled, waited⟩ }
      | oldest :: _ =>
        { l with
          recent := recent
          admitting := some ⟨t, .asleep (oldest + window), waited + (oldest + window - now)⟩
          waitCount := if waited = 0 then l.waitCount + 1 else l.waitCount }
  | _ => l

/-- The ticket at the window lock is granted: its time enters the window, and the lock is free. -/
def grantAt (l : Lane) (now : Nat) : Lane :=
  { l with
    admitting := none
    recent := prune now l.recent ++ [now]
    totalRequests := l.totalRequests + 1 }

/-! ## Ends of an acquisition -/

/-- A permit of the lane is given back. -/
def returnSlot (l : Lane) : Lane := { l with slots := l.slots.restore }

/-- A ticket that waits in a lane gives up; a slot that it holds becomes free. -/
def cancel (l : Lane) (t : Ticket) : Lane :=
  if l.slots.line.contains t then { l with slots := l.slots.leave t }
  else if l.seated.contains t then { l with seated := l.seated.erase t, slots := l.slots.restore }
  else if l.isAdmitting t then { l with admitting := none, slots := l.slots.restore }
  else l

/-- The tickets of a lane that can go on because a waiting ticket gives up, in the order in which
it lets go of what it has: the window lock, then the slot. -/
def heirs (l : Lane) (t : Ticket) : List Ticket :=
  if l.slots.line.contains t then (l.slots.successor? t).toList
  else if l.seated.contains t then
    (match l.admitting, l.seated with
      | none, first :: second :: _ => if first = t then [second] else []
      | _, _ => []) ++ l.slots.next?.toList
  else if l.isAdmitting t then l.seated.head?.toList ++ l.slots.next?.toList
  else []

/-- The counters of a lane start again from zero. -/
def resetCounters (l : Lane) : Lane := { l with totalRequests := 0, waitCount := 0 }

end Lane

end TagWatch.Limit
