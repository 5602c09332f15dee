import ScriptHost.Engine.Invocation

/-!
The engine on one thread with a host that follows a script. Every call of the
engine is logged. A debugger stop, a nested prompt and an idle tick each use up
the next entry of their script, whose steps run inside the call and may enter the
engine again.
-/

namespace ScriptHost.Scripted

inductive Step where
  | invoke (command : Command) (addToHistory : Bool) (frame : FrameInfo)
  | debuggerCommand (command : Command) (frame : FrameInfo)
  | readLine (cancelled : Bool) (frame : FrameInfo)
  | input (line : String)
  | stop
  | subscribe
  | unsubscribe
  | subscribed
  | details
  | stopProcess
  | stepMode (on : Bool)
  | modes (m : DebugModes)
  | configure (o : Operations)
  | pause (o : Operations)
  | stopCommand (o : Operations)
  | runInDebugger (o : Operations) (command : Command) (frame : FrameInfo)

inductive Answer where
  | output (r : Evaluation)
  | debugged (r : Except EngineError DebuggerResult)
  | line (r : Except EngineError String)
  | panicked (p : Panic)
  | refused (e : ExecutionError)
  | runspace (r : Except EngineError Runspace)
  | truth (b : Bool)
  | modes (m : DebugModes)
  | done

inductive LogEntry where
  | call (c : HostCall)
  | inner (a : Answer)

/-- What the host does in one call: it runs steps, feeds a line, cancels the read in
progress, and answers a debugger stop with `action`. -/
structure Reaction where
  action : ResumeAction := .proceed
  input : Option String := none
  cancel : Bool := false
  run : List Step := []

/-- What the thread is in the middle of. A `callback` that answers a debugger stop carries
the action; a `reading` has or has not been cancelled. -/
inductive Activation where
  | invocation (i : Invocation)
  | debugger
  | reading (cancelled : Bool)
  | callback (rest : List Step) (answer : Option ResumeAction)

/-- The thread: `depth` counts the invocations in progress, `stack` holds what it is in the
middle of, innermost first, and `returned` an answer on its way to the top of the stack. -/
structure Machine where
  engine : Engine := {}
  depth : Nat := 0
  stops : List Reaction := []
  nests : List Reaction := []
  idles : List Reaction := []
  log : List LogEntry := []
  stack : List Activation := []
  returned : Option Answer := none

namespace Machine

def give (m : Machine) (a : Answer) : Machine :=
  { m with returned := some a }

def push (m : Machine) (a : Activation) : Machine :=
  { m with stack := a :: m.stack }

def enter (m : Machine) (e : Engine) (i : Invocation) : Machine :=
  { m with engine := e, depth := m.depth + 1 }.push (.invocation i)

def debuggerCommand (m : Machine) (command : Command) (frame : FrameInfo) : Machine :=
  match m.engine.debuggerCommand frame command (m.depth == 0) with
  | (e, .resume action) => { m with engine := e }.give (.debugged (.ok { resume := some action }))
  | (e, .invocation i) => (m.push .debugger).enter e i

def start (m : Machine) : Step → Machine
  | .invoke command addToHistory frame =>
    let (e, i) := m.engine.invoke frame command addToHistory (m.depth == 0)
    m.enter e i
  | .debuggerCommand command frame => m.debuggerCommand command frame
  | .readLine cancelled frame =>
    { m with engine := m.engine.record frame .readLine }.push (.reading cancelled)
  | .input line => { m with engine := m.engine.feed line }.give .done
  | .stop => { m with engine := m.engine.stop }.give .done
  | .subscribe => { m with engine := m.engine.subscribeIdle.2 }.give .done
  | .unsubscribe => { m with engine := m.engine.unsubscribeIdle }.give .done
  | .subscribed => m.give (.truth m.engine.idleSubscribed)
  | .details => { m with engine := m.engine.details.2 }.give (.runspace m.engine.details.1)
  | .stopProcess => { m with engine := m.engine.stopProcess }.give .done
  | .stepMode on => { m with engine := { m.engine with stepMode := on } }.give (.truth on)
  | .modes modes => { m with engine := { m.engine with modes } }.give (.modes modes)
  | .configure o => { m with engine := o.configure m.engine }.give .done
  | .pause o => { m with engine := o.pause m.engine }.give .done
  | .stopCommand o => { m with engine := o.stopCommand m.engine }.give .done
  | .runInDebugger o command frame =>
    if o.runsInDebugger then m.debuggerCommand command frame
    else m.give (.refused Operations.refusal)

/-- Cancels the innermost read in progress. -/
def cancelRead : List Activation → List Activation
  | [] => []
  | .reading _ :: rest => .reading true :: rest
  | a :: rest => a :: cancelRead rest

/-- Enters a call that follows a script. -/
def react (m : Machine) (r : Reaction) (answer : Option ResumeAction) : Machine :=
  { m with
    engine := (r.input.map m.engine.feed).getD m.engine
    stack := .callback r.run answer :: if r.cancel then cancelRead m.stack else m.stack }

/-- The host's part of a call of the engine. -/
def answerCall (m : Machine) (c : HostCall) : Machine :=
  let m := { m with log := m.log ++ [.call c] }
  match c with
  | .debuggerStop _ =>
    let r := m.stops.headD {}
    { m with stops := m.stops.tail }.react r (some r.action)
  | .enterNestedPrompt => { m with nests := m.nests.tail }.react (m.nests.headD {}) none
  | .idle => { m with idles := m.idles.tail }.react (m.idles.headD { cancel := true }) none
  | _ => m

/-- One step of the thread. -/
def step (m : Machine) : Machine :=
  match m.returned, m.stack with
  | some a, .callback _ _ :: _ => { m with returned := none, log := m.log ++ [.inner a] }
  | some (.output r), .debugger :: rest =>
    { m with stack := rest }.give (.debugged (r.map fun output => { output }))
  | some _, .debugger :: rest => { m with stack := rest }
  | some _, _ => m
  | none, .callback (s :: steps) answer :: rest =>
    { m with stack := .callback steps answer :: rest }.start s
  | none, .callback [] (some action) :: .invocation i :: rest =>
    let (e, i) := i.resume m.engine action
    { m with engine := e, stack := .invocation i :: rest }
  | none, .callback [] _ :: rest => { m with stack := rest }
  | none, .invocation i :: rest =>
    match i.step m.engine with
    | (e, .advance i) => { m with engine := e, stack := .invocation i :: rest }
    | (e, .sleep _ i) => { m with engine := e, stack := .invocation i :: rest }
    | (e, .call c i) => { m with engine := e, stack := .invocation i :: rest }.answerCall c
    | (e, .finish r) =>
      { m with engine := e, depth := m.depth - 1, stack := rest }.give (.output r)
    | (e, .panic p) =>
      { m with engine := e, depth := m.depth - 1, stack := rest }.give (.panicked p)
  | none, .reading true :: rest => { m with stack := rest }.give (.line (.error .cancelled))
  | none, .reading false :: rest =>
    match m.engine.input with
    | line :: input =>
      { m with engine := { m.engine with input }, stack := rest }.give (.line (.ok line))
    | [] => if m.engine.idleSubscribed then m.answerCall .idle else m
  | none, .debugger :: rest => { m with stack := rest }
  | none, [] => m

def run : Nat → Machine → Machine
  | 0, m => m
  | fuel + 1, m =>
    match m.returned, m.stack with
    | some _, [] => m
    | _, _ => run fuel m.step

/-- Steps that one command of a script may take. -/
def patience : Nat := 1000000

/-- Performs a step to its end and gives its answer. -/
def perform (m : Machine) (s : Step) : Option Answer × Machine :=
  let m := run patience (m.start s)
  (m.returned, { m with returned := none })

end Machine

end ScriptHost.Scripted
