import ScriptHost.Permit

/-!
The slot through which commands reach the engine while its prompt reads. One
request at a time is parked here until an idle tick of the engine picks it up.
The permit of a request is taken before it is parked and given back once it has
run, was taken back or was given up.
-/

namespace ScriptHost

structure IdleSlot (ρ : Type) where
  permit : Permit := {}
  parked : Option (Nat × ρ) := none

namespace IdleSlot

variable {ρ : Type}

/-- Whether a request is parked or running. -/
def inFlight (s : IdleSlot ρ) : Bool :=
  s.permit.taken

def setPermit (s : IdleSlot ρ) (permit : Permit) : IdleSlot ρ :=
  { s with permit }

def park (s : IdleSlot ρ) (id : Nat) (r : ρ) : IdleSlot ρ :=
  { s with parked := some (id, r) }

/-- An idle tick takes what is parked; the permit stays taken until it has run. -/
def pickUp (s : IdleSlot ρ) : Option (Nat × ρ) × IdleSlot ρ :=
  (s.parked, { s with parked := none })

def release (s : IdleSlot ρ) : IdleSlot ρ :=
  s.setPermit s.permit.release

/-- Empties the slot. -/
def clear (s : IdleSlot ρ) : IdleSlot ρ :=
  { s with parked := none }.release

/-- Takes a parked request back, but only if it is still `id`. -/
def reclaim (s : IdleSlot ρ) (id : Nat) : Option (ρ × IdleSlot ρ) :=
  match s.parked with
  | some (parked, r) => if parked = id then some (r, s.clear) else none
  | none => none

end IdleSlot

end ScriptHost
