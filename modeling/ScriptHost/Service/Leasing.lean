import ScriptHost.Service.World

/-!
Waiting for the lease of the innermost frame. A caller whose frame is popped while
it waits asks again on the frame that is innermost then.
-/

namespace ScriptHost.Service

/-- What a caller does with the answer of a frame's queue. -/
def settleLease (w : World) (t : Thread) (rest : List Activation) (token : Option Token)
    (forReading : Bool) (frame : Nat) : Taking Nat × Nest → World × Thread
  | (.item invoker, nest) =>
    ({ w with nest }, t.goOn (.getHandle token forReading (.marking frame invoker) :: rest))
  | (.failed (.channelClosed what), nest) =>
    if (nest.frame frame).isPopped then
      ({ w with nest }, t.goOn (.getHandle token forReading .choosing :: rest))
    else ({ w with nest }, t.give rest (.lease (.error (.channelClosed what))))
  | (.failed e, nest) => ({ w with nest }, t.give rest (.lease (.error e)))
  | (.waiting ticket, nest) =>
    ({ w with nest }, t.goOn (.getHandle token forReading (.waiting frame ticket) :: rest))

def leaseMoves (w : World) (t : Thread) (rest : List Activation) (token : Option Token)
    (forReading : Bool) : LeasePhase → Moves
  | .choosing => [(w, t.goOn (.getHandle token forReading (.asking w.nest.top) :: rest))]
  | .asking frame =>
    [settleLease w t rest token forReading frame (w.nest.ask frame (w.isCancelled token))]
  | .waiting frame ticket =>
    match w.nest.look frame ticket (w.isCancelled token) with
    | (.waiting _, _) => []
    | looked => [settleLease w t rest token forReading frame looked]
  | .marking frame invoker =>
    let (h, nest) := w.nest.lease frame invoker forReading
    [({ w with nest }, t.give rest (.lease (.ok h)))]

end ScriptHost.Service
