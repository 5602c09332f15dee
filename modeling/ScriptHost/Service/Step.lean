import ScriptHost.Service.Execute
import ScriptHost.Service.Leasing
import ScriptHost.Service.Loop
import ScriptHost.Service.Reading
import ScriptHost.Service.Stopping
import ScriptHost.Service.Tracking

/-!
The steps of the service: what the innermost activation of a thread does by
itself, what it does with the outcome of the one above it, and what it does when
a panic unwinds it. Threads take their steps in any order, and a thread that has
several to choose from may take any of them.
-/

namespace ScriptHost.Service

/-- The innermost activation goes on by itself. -/
def proceed (w : World) (self : Nat) (t : Thread) (rest : List Activation) : Activation → Moves
  | .invocation i => invocationMoves w self t rest i
  | .reading read waiting => readingMoves w t rest read waiting
  | .entering phase work => [enterPushed w t rest phase work]
  | .loop id phase => loopMoves w t rest id phase
  | .getHandle token forReading phase => leaseMoves w t rest token forReading phase
  | .exec order phase => execMoves w self t rest order phase
  | .readTask token phase => readTaskMoves w t rest token phase
  | .handleTask token false =>
    if w.isDisposed then [(w, t.give rest (.lease (.error .disposed)))]
    else [(w, t.goOn (.getHandle token false .choosing :: .handleTask token true :: rest))]
  | .starting h order => [invokeLeased w t (.worker h :: rest) h.invoker order]
  | .readWorker h read phase => readWorkerMoves w t rest h read phase
  | .pushRunspace r phase => pushRunspaceMoves w t rest r phase
  | .popRunspace reason phase => popRunspaceMoves w t rest reason phase
  | .track phase => trackMoves w t rest phase
  | .abort phase => abortMoves w t rest phase
  | .dispose phase => disposeMoves w t rest phase
  | .held gate => if w.gates.contains gate then [(w, t.give rest .unit)] else []
  | _ => []

/-- The innermost activation gets the outcome of the one that ended above it. -/
def receive (w : World) (t : Thread) (rest : List Activation) (o : Outcome) : Activation → Moves
  | .invocation i =>
    match o with
    | .action action =>
      let (engine, i) := i.resume w.engine action
      [({ w with engine }, t.goOn (.invocation i :: rest))]
    | _ => [(w, t.goOn (.invocation i :: rest))]
  | .reading read waiting => [(w, t.goOn (.reading read waiting :: rest))]
  | .loop id phase => [(w, t.goOn (.loop id phase :: rest))]
  | .debuggerCommand =>
    match o with
    | .evaluated r => [(w, t.give rest (.debugged (r.map fun output => { output })))]
    | _ => []
  | .leased options =>
    match o with
    | .evaluated r => [completeLeased w t rest options r]
    | _ => []
  | .inLoop loop options =>
    match o with
    | .debugged r => [completeInLoop w t rest loop options r]
    | _ => []
  | .pushed frame h phase => [leavePushed w t rest frame h phase]
  | .request id =>
    match o with
    | .reply r => [(w.setCell id (.deliver (.returned r)), t.give rest .unit)]
    | _ => []
  | .idleRun => [({ w with slot := w.slot.release }, t.give rest .unit)]
  | .exec order phase => execReceive w t rest order phase o
  | .readTask token phase => readTaskReceive w t rest token phase o
  | .handleTask _ _ => [(w, t.give rest o)]
  | .worker h => [releaseThen w h { t with stack := rest }]
  | .readWorker h read phase => readWorkerReceive w t rest h read phase o
  | .track phase => trackReceive w t rest phase o
  | .reentrant =>
    match o with
    | .reply r => [(w.write (.ran r), t.give rest .unit)]
    | _ => []
  | _ => []

/-- A panic unwinds the innermost activation. Only the execution of a request catches it;
what holds a lease or the permit of the idle slot gives it back. -/
def unwound (w : World) (t : Thread) (rest : List Activation) (p : Panic) : Activation → Moves
  | .invocation _ => [(w, { t.panic rest p with depth := t.depth - 1 })]
  | .pushed frame h phase => [leavePushed w t rest frame h phase]
  | .request id => [(w.setCell id (.deliver (.panicked p)), t.give rest .unit)]
  | .idleRun => [({ w with slot := w.slot.release }, t.panic rest p)]
  | .worker h => [releaseThen w h (t.panic rest p)]
  | .readWorker h _ _ => [releaseThen w h (t.panic rest p)]
  | _ => [(w, t.panic rest p)]

/-- The possible next steps of a thread. -/
def Thread.moves (w : World) (self : Nat) (t : Thread) : Moves :=
  match t.stack, t.control with
  | [], _ => []
  | a :: rest, .go => proceed w self t rest a
  | a :: rest, .back o => receive w t rest o a
  | a :: rest, .unwind p => unwound w t rest p a
  | _ :: _, .dropped => []

/-- The worlds one step of thread `k` can lead to. -/
def World.next (w : World) (k : Nat) : List World :=
  match w.threads[k]? with
  | none => []
  | some t => (t.moves w k).map fun m => { m.1 with threads := m.1.threads.set k m.2 }

/-- The activations whose next step takes the lock of the list of loops. -/
def Activation.usesLoops (e : Engine) : Activation → Bool
  | .invocation i =>
    match (i.step e).2 with
    | .call (.debuggerStop _) _ | .call .enterNestedPrompt _ | .call .exitNestedPrompt _ => true
    | _ => false
  | .exec _ .routing | .exec _ (.checkingOwner _) | .loop _ (.leaving _)
  | .abort (.checkingDebugger _) | .abort .checkingPrompt | .abort (.signalling _ _)
  | .dispose .listing => true
  | _ => false

/-- Whether the next step of a thread needs the lock of the list of loops. -/
def Thread.usesLoops (e : Engine) (t : Thread) : Bool :=
  match t.control, t.stack with
  | .go, a :: _ => a.usesLoops e
  | _, _ => false

/-- Whether thread `k` can take its next step: one that needs the list of loops has to wait while
another thread holds it. -/
def World.free (w : World) (k : Nat) : Bool :=
  !(w.loopsHeld && w.threads[k]?.any (·.usesLoops w.engine))

/-- Gives up a task that waits: it leaves every line it stands in. What it started on another
thread goes on. -/
def World.dropTask (w : World) (k : Nat) : World :=
  match w.threads[k]? with
  | none => w
  | some t =>
    let w := match t.stack with
      | .getHandle _ _ (.waiting frame ticket) :: _ =>
        { w with nest := (w.nest.withdraw frame ticket).1 }
      | .exec _ (.queued ticket id) :: _ =>
        { w with slot := w.slot.setPermit (w.slot.permit.withdraw ticket) }.setCell id .abandon
      | _ => w
    { w with threads := w.threads.set k { t with control := .dropped, stack := [] } }

/-- The lease that a finished task left for its caller. -/
def World.leaseOf (w : World) (k : Nat) : Option Handle :=
  match w.threads[k]?.bind Thread.result? with
  | some (.back (.lease (.ok h))) => some h
  | _ => none

/-- Gives back the lease that a finished task left for its caller. -/
def World.releaseLease (w : World) (k : Nat) : World :=
  match w.leaseOf k with
  | none => w
  | some h =>
    let w := (w.release h).1
    { w with threads := w.threads.modify k fun t => { t with control := .dropped } }

end ScriptHost.Service
