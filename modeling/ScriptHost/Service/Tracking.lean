import ScriptHost.Service.World

/-!
Runspaces. A remote session has a remote frame on the nest; the two stacks are
pushed and popped together. After a direct execution the service asks the engine
which runspace it is in and pushes or pops to match.
-/

namespace ScriptHost.Service

def pushRunspaceMoves (w : World) (t : Thread) (rest : List Activation) (r : Runspace) :
    PushPhase → Moves
  | .looking =>
    if w.baseGone then [(w, t.panic rest .underflow)]
    else [(w, t.goOn (.pushRunspace r (.pushing w.currentRunspace) :: rest))]
  | .pushing previous =>
    [({ w with nest := (w.nest.push .remoteSession).2 },
      t.goOn (.pushRunspace r (.recording previous) :: rest))]
  | .recording previous =>
    [(w.addRunspace r, t.goOn (.pushRunspace r (.publishing previous) :: rest))]
  | .publishing previous =>
    [(w.publish (.runspace { reason := r.pushReason, previous, current := r }),
      t.give rest .unit)]

/-- The base runspace is not popped, and no runspace while a frame is open inside it; but what
was seen may not be so any more when the pop comes to it. -/
def popRunspaceMoves (w : World) (t : Thread) (rest : List Activation)
    (reason : Option RunspaceChangeReason) : PopPhase → Moves
  | .checkingLength =>
    if w.pushed.isEmpty then
      [(w, t.give rest (.popped (.error (.invariantViolation .noPushedRunspace))))]
    else [(w, t.goOn (.popRunspace reason .checkingFrame :: rest))]
  | .checkingFrame =>
    if w.nest.topFrame.kind = .remoteSession then
      [(w, t.goOn (.popRunspace reason .poppingFrame :: rest))]
    else [(w, t.give rest (.popped (.error (.invariantViolation .frameInsideRunspace))))]
  | .poppingFrame =>
    match w.nest.pop with
    | .ok (_, nest) => [({ w with nest }, t.goOn (.popRunspace reason .poppingRunspace :: rest))]
    | .error e => [(w, t.give rest (.popped (.error e)))]
  | .poppingRunspace =>
    match w.pushed with
    | r :: pushed =>
      let w := { w with pushed }
      [(w, t.goOn (.popRunspace reason (.publishing r w.currentRunspace) :: rest))]
    | [] =>
      if w.baseGone then
        [(w, t.give rest (.popped (.error (.invariantViolation .noRunspace))))]
      else [({ w with baseGone := true }, t.panic rest .underflow)]
  | .publishing popped current =>
    [(w.publish
        (.runspace { reason := reason.getD popped.popReason, previous := popped, current }),
      t.give rest (.popped (.ok popped)))]

/-- How many pushed runspaces stay if the runspace `id` is known. -/
def keepFor (w : World) (id : Nat) : Option Nat :=
  if w.baseGone then none else (w.baseRunspace :: w.pushed.reverse).findIdx? (·.id == id)

def trackMoves (w : World) (t : Thread) (rest : List Activation) : TrackPhase → Moves
  | .polling =>
    match w.engine.details with
    | (.ok r, engine) => [({ w with engine }, t.goOn (.track (.comparing r) :: rest))]
    | (.error (.transportBroken _), engine) =>
      [({ w with engine }, t.goOn (.track (.popping 0 (some .sessionClosed)) :: rest))]
    | (.error _, engine) => [({ w with engine }, t.give rest .unit)]
  | .comparing r =>
    if !w.baseGone && w.currentRunspace.id = r.id then [(w, t.give rest .unit)]
    else
      match keepFor w r.id with
      | some keep => [(w, t.goOn (.track (.popping keep none) :: rest))]
      | none => [(w, t.goOn (.pushRunspace r .looking :: rest))]
  | .popping keep reason =>
    if keep < w.pushed.length then
      [(w, t.goOn
        (.popRunspace reason .checkingLength :: .track (.popping keep reason) :: rest))]
    else [(w, t.give rest .unit)]

/-- A refused pop ends the unwinding. -/
def trackReceive (w : World) (t : Thread) (rest : List Activation) (phase : TrackPhase) :
    Outcome → Moves
  | .popped (.ok _) => [(w, t.goOn (.track phase :: rest))]
  | .popped (.error _) => [(w, t.give rest .unit)]
  | _ => []

end ScriptHost.Service
