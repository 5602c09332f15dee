import ScriptHost.Error

/-!
A hand-off queue with a single slot. Callers that find the slot empty are parked
and served strictly in their order of arrival: an item that comes in while a
caller is parked goes straight to the oldest one and never touches the slot. An
item handed to a caller stays with it until the caller looks, or withdraws and
passes the item on.
-/

namespace ScriptHost

/-- `parked` holds the tickets of the waiting callers, oldest first, and `handed` the items
on their way to callers that have not looked yet. `takes` counts how often the slot was
emptied, which is what wakes the callers blocked on a full slot. -/
structure WaitQueue (α : Type) where
  slot : Option α := none
  parked : List Nat := []
  handed : List (Nat × α) := []
  closed : Bool := false
  nextTicket : Nat := 0
  takes : Nat := 0

/-- What a caller learns when it asks for an item, or looks again. -/
inductive Taking (α : Type) where
  | item (a : α)
  | failed (e : ExecutionError)
  | waiting (ticket : Nat)

namespace WaitQueue

variable {α : Type}

def withItem (a : α) : WaitQueue α :=
  { slot := some a }

/-- Hands `a` to the oldest parked caller or else puts it into the slot; refuses it when the
slot is occupied. -/
def offer (q : WaitQueue α) (a : α) : Option (WaitQueue α) :=
  match q.parked, q.slot with
  | t :: rest, _ => some { q with parked := rest, handed := q.handed ++ [(t, a)] }
  | [], none => some { q with slot := some a }
  | [], some _ => none

def emptied (q : WaitQueue α) : WaitQueue α :=
  { q with slot := none, takes := q.takes + 1 }

/-- Takes the slot's item if there is one and the queue is open. -/
def tryTake (q : WaitQueue α) : Option (α × WaitQueue α) :=
  if q.closed then none else q.slot.map fun a => (a, q.emptied)

/-- A new caller: takes the slot's item or is parked. Its token matters only once it would
have to wait. -/
def take (q : WaitQueue α) (cancelled : Bool) : Taking α × WaitQueue α :=
  if q.closed then (.failed .handleQueueClosed, q)
  else
    match q.slot with
    | some a => (.item a, q.emptied)
    | none =>
      if cancelled then (.failed .cancelled, q)
      else
        (.waiting q.nextTicket,
          { q with parked := q.parked ++ [q.nextTicket], nextTicket := q.nextTicket + 1 })

def withoutHanded (q : WaitQueue α) (ticket : Nat) : WaitQueue α :=
  { q with handed := q.handed.filter fun h => h.1 != ticket }

def withoutParked (q : WaitQueue α) (ticket : Nat) : WaitQueue α :=
  { q with parked := q.parked.filter (· != ticket) }

/-- A waiting caller looks again. An item that reached it counts before its token does; a
ticket that is neither parked nor served was failed by closing the queue. -/
def look (q : WaitQueue α) (ticket : Nat) (cancelled : Bool) : Taking α × WaitQueue α :=
  match q.handed.lookup ticket with
  | some a => (.item a, q.withoutHanded ticket)
  | none =>
    if !q.parked.contains ticket then (.failed .handleQueueClosed, q)
    else if cancelled then (.failed .cancelled, q.withoutParked ticket)
    else (.waiting ticket, q)

/-- A waiting caller goes away. An item that already reached it is offered to the others,
and is lost with a panic when nobody takes it and the slot is occupied. -/
def withdraw (q : WaitQueue α) (ticket : Nat) : WaitQueue α × Option Panic :=
  let left := (q.withoutParked ticket).withoutHanded ticket
  match q.handed.lookup ticket with
  | none => (left, none)
  | some a =>
    match left.offer a with
    | some q => (q, none)
    | none => (left, some .twoItems)

/-- Stops serving: parked callers fail and new ones are refused. Items can still be put
back, so that an item that is out can return. -/
def close (q : WaitQueue α) : WaitQueue α :=
  { q with closed := true, parked := [] }

end WaitQueue

end ScriptHost
