import ScriptHost.Service.World

/-!
Commands on their way into the engine: on a leased frame, in a message loop, or
in a frame pushed for them, and what becomes of their results.
-/

namespace ScriptHost.Service

/-- Runs an order on a leased frame. -/
def invokeLeased (w : World) (t : Thread) (rest : List Activation) (invoker : Nat) (o : Order) :
    World × Thread :=
  let below := .leased o.options :: rest
  match w.engine.takeFault .invoke with
  | some (e, engine) => ({ w with engine }, t.give below (.evaluated (.error e)))
  | none =>
    let (engine, i) := w.engine.invoke (w.nest.info invoker) (o.command.prepared o.options)
      o.options.addToHistory (t.depth == 0)
    ({ w with engine }, { t.goOn (.invocation i :: below) with depth := t.depth + 1 })

/-- A debugger takes commands itself; it needs no lease. -/
def commandDebugger (w : World) (t : Thread) (rest : List Activation) (l : MessageLoop)
    (o : Order) : World × Thread :=
  let below := .inLoop l.id o.options :: rest
  match w.engine.takeFault .debuggerCommand with
  | some (e, engine) => ({ w with engine }, t.give below (.debugged (.error e)))
  | none =>
    match w.engine.debuggerCommand (w.nest.info l.frame) (o.command.prepared o.options)
      (t.depth == 0) with
    | (engine, .resume action) =>
      ({ w with engine }, t.give below (.debugged (.ok { resume := some action })))
    | (engine, .invocation i) =>
      ({ w with engine },
        { t.goOn (.invocation i :: .debuggerCommand :: below) with depth := t.depth + 1 })

/-- Runs an order the way the thread of a loop does. -/
def runInLoop (w : World) (t : Thread) (rest : List Activation) (l : MessageLoop) (o : Order) :
    World × Thread :=
  match l.kind with
  | .debuggerStop =>
    if w.operations.runsInDebugger then commandDebugger w t rest l o
    else (w, t.give rest (.reply (.error Operations.refusal)))
  | .nestedPrompt => (w, t.goOn (.entering .pushing (.order o) :: rest))

/-- A runtime error is a reply, not a failure. -/
def reportRuntime (w : World) (t : Thread) (rest : List Activation) (what : String)
    (options : Options) : World × Thread :=
  (if options.writeErrors then w.write (.err what) else w,
    t.give rest (.reply (.ok { errors := [what] })))

def completeLeased (w : World) (t : Thread) (rest : List Activation) (options : Options) :
    Evaluation → World × Thread
  | .ok output => (w, t.give rest (.reply (.ok output)))
  | .error (.runtime what) => reportRuntime w t rest what options
  | .error e => (w, t.give rest (.reply (.error (.ofEngine e))))

/-- A debugger command may be an instruction, which signals the loop it was given to. -/
def completeInLoop (w : World) (t : Thread) (rest : List Activation) (loop : Nat)
    (options : Options) : Except EngineError DebuggerResult → World × Thread
  | .ok d =>
    (match d.resume with
      | some action => (w.signalLoop loop (.resume action)).2
      | none => w,
      t.give rest (.reply (.ok d.output)))
  | .error e =>
    match ExecutionError.ofEngine e with
    | .engineRuntime what => reportRuntime w t rest what options
    | e => (w, t.give rest (.reply (.error e)))

/-- Work that is not done: a request is dropped, an order answered with an error. -/
def refuseWork (w : World) (t : Thread) (rest : List Activation) : PushedWork → World × Thread
  | .request r => (w.setCell r.id .abandon, t.give rest .unit)
  | .order _ => (w, t.give rest (.reply (.error (.invariantViolation .noHandle))))

/-- Pushes a frame, takes its lease, and does the work in it. A frame that is to be popped is
looked at first, and by the time it is popped another one may be innermost. -/
def enterPushed (w : World) (t : Thread) (rest : List Activation) (phase : EnterPhase)
    (work : PushedWork) : World × Thread :=
  let go (phase : EnterPhase) := t.goOn (.entering phase work :: rest)
  match phase with
  | .pushing =>
    let (frame, nest) := w.nest.push .normal
    ({ w with nest }, go (.leasing frame))
  | .leasing frame =>
    match w.nest.tryLease frame false, work with
    | some (h, nest), .request r =>
      invokeLeased { w with nest } t (.request r.id :: .pushed frame h .looking :: rest) h.invoker
        { command := r.command, options := r.options }
    | some (h, nest), .order o =>
      invokeLeased { w with nest } t (.pushed frame h .looking :: rest) h.invoker o
    | none, _ => (w, go (.looking frame))
  | .looking frame => (w, go (if w.nest.top = frame then .popping frame else .refusing))
  | .popping _ => (w.popTop, go .refusing)
  | .refusing => refuseWork w t rest work

/-- Releases a lease and goes on as before, or with the panic of the release. -/
def releaseThen (w : World) (h : Handle) (t : Thread) : World × Thread :=
  match w.release h with
  | (w, none) => (w, t)
  | (w, some p) => (w, t.panic t.stack p)

/-- Leaves a pushed frame, whether its work returned or is unwound: the frame is popped
first, so that its lease cannot reach a caller parked on it. -/
def leavePushed (w : World) (t : Thread) (rest : List Activation) (frame : Nat) (h : Handle) :
    RoomPhase → World × Thread
  | .looking =>
    let phase : RoomPhase := if w.nest.top = frame then .popping else .releasing
    (w, { t with stack := .pushed frame h phase :: rest })
  | .popping => (w.popTop, { t with stack := .pushed frame h .releasing :: rest })
  | .releasing => releaseThen w h { t with stack := rest }

/-- Starts what an idle tick picked up. -/
def runParked (w : World) (t : Thread) (rest : List Activation) : World × Thread :=
  match w.slot.pickUp with
  | (some (_, r), slot) =>
    ({ w with slot }, t.goOn (.entering .pushing (.request r) :: .idleRun :: rest))
  | (none, _) => (w, t.goOn rest)

/-- The token of scripts that the console runs. -/
def reentrantToken : Token := "reentrant"

/-- A line for the console, and what the console makes of it. -/
def writeLine (w : World) (t : Thread) (line : String) : World × Thread :=
  let w := w.write (.out line)
  match w.config.console line with
  | .ignore => (w, t)
  | .hold gate => (w, t.goOn (.held gate :: t.stack))
  | .run script =>
    let order : Order :=
      { command := .ofScript script, options := { token := some reentrantToken } }
    (w, t.goOn (.exec order .checking :: .reentrant :: t.stack))
  | .panic p => (w, t.panic t.stack p)

/-- The service as the engine's host. The calling invocation is the innermost activation of
`t`. -/
def callHost (w : World) (self : Nat) (t : Thread) : HostCall → World × Thread
  | .stateChanged state reason => (w.followInvocation state reason, t)
  | .writeLine line => writeLine w t line
  | .writeErrorLine line => (w.write (.err line), t)
  | .debuggerStop stop =>
    let (id, w) := w.openLoop .debuggerStop self
    (w, t.goOn (.loop id (.opening stop) :: t.stack))
  | .breakpointUpdated update => (w.publish (.breakpoint update), t)
  | .enterNestedPrompt =>
    let (id, w) := w.openLoop .nestedPrompt self
    (w, t.goOn (.loop id .pumping :: t.stack))
  | .exitNestedPrompt => ((w.signalInnermost .nestedPrompt .exitPrompt).2, t)
  | .idle => runParked w t t.stack

/-- One step of an invocation. A sleep beyond the patience of the service lasts until it is
stopped. -/
def invocationMoves (w : World) (self : Nat) (t : Thread) (rest : List Activation)
    (i : Invocation) : Moves :=
  match i.step w.engine with
  | (engine, .advance i) => [({ w with engine }, t.goOn (.invocation i :: rest))]
  | (engine, .call c i) => [callHost { w with engine } self (t.goOn (.invocation i :: rest)) c]
  | (engine, .sleep ms i) =>
    if ms ≤ w.config.patience then [({ w with engine }, t.goOn (.invocation i :: rest))] else []
  | (engine, .finish r) =>
    [({ w with engine }, { t.give rest (.evaluated r) with depth := t.depth - 1 })]
  | (engine, .panic p) => [({ w with engine }, { t.panic rest p with depth := t.depth - 1 })]

end ScriptHost.Service
