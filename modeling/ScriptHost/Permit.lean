/-!
A single permit with a first-come, first-served line. A permit that is given back
goes to the head of the line at once, even before that caller looks.
-/

namespace ScriptHost

/-- `granted` names the caller that was given the permit and has not looked yet. -/
structure Permit where
  taken : Bool := false
  granted : Option Nat := none
  waiting : List Nat := []
  nextTicket : Nat := 0

namespace Permit

/-- Takes the permit, or joins the line with a ticket. -/
def acquire (p : Permit) : Option Nat × Permit :=
  if p.taken then
    (some p.nextTicket,
      { p with waiting := p.waiting ++ [p.nextTicket], nextTicket := p.nextTicket + 1 })
  else (none, { p with taken := true })

/-- Joins the line. A permit that is free goes to the caller even before it looks. -/
def join (p : Permit) : Nat × Permit :=
  match p.acquire with
  | (some ticket, p) => (ticket, p)
  | (none, p) =>
    (p.nextTicket, { p with granted := some p.nextTicket, nextTicket := p.nextTicket + 1 })

def release (p : Permit) : Permit :=
  match p.waiting with
  | [] => { p with taken := false }
  | t :: rest => { p with granted := some t, waiting := rest }

/-- A caller in the line looks whether it was given the permit. -/
def look (p : Permit) (ticket : Nat) : Option Permit :=
  if p.granted = some ticket then some { p with granted := none } else none

/-- A caller leaves the line. A permit it was already given goes to the next one. -/
def withdraw (p : Permit) (ticket : Nat) : Permit :=
  if p.granted = some ticket then { p with granted := none }.release
  else { p with waiting := p.waiting.filter (· != ticket) }

end Permit

end ScriptHost
