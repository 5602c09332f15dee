import ScriptHost.Engine.Invocation
import ScriptHost.Nest

/-!
Threads of the service as data. A thread is a stack of activations, each of which
says where it stands; a step of the thread is one step of the innermost one. What
a thread holds, a lease above all, is written in its activations, so that it can
be found there.
-/

namespace ScriptHost.Service

inductive LoopKind where
  | debuggerStop
  | nestedPrompt
  deriving DecidableEq, Repr

def LoopKind.frameKind : LoopKind → FrameKind
  | debuggerStop => .debugger
  | nestedPrompt => .nestedPrompt

/-- What ends a message loop. -/
inductive Signal where
  | resume (action : ResumeAction)
  | exitPrompt
  deriving DecidableEq, Repr

/-- What an activation hands to the one below it when it ends. -/
inductive Outcome where
  | unit
  | action (a : ResumeAction)
  | evaluated (r : Evaluation)
  | debugged (r : Except EngineError DebuggerResult)
  | read (r : Except EngineError String)
  | line (r : Except ExecutionError String)
  | reply (r : Reply)
  | lease (r : Except ExecutionError Handle)
  | popped (r : Except ExecutionError Runspace)

/-- A command with the options of its caller. -/
structure Order where
  command : Command
  options : Options

/-- A debugger stop is announced before the loop is pumped. `emptying` and `leaving` come
after the signal: what was posted meanwhile is still processed. A loop is `popping` when it has
seen its frame innermost and is about to pop it. -/
inductive LoopPhase where
  | opening (stop : DebuggerStop)
  | announcing (stop : DebuggerStop)
  | pumping
  | selecting
  | closing (signal : Signal)
  | emptying (signal : Signal)
  | leaving (signal : Signal)
  | popping (signal : Signal)
  | resuming (action : ResumeAction)

/-- A caller chooses the innermost frame, asks for its lease, and waits. A caller that was
given the invoker has still to mark the frame if it wants to read. -/
inductive LeasePhase where
  | choosing
  | asking (frame : Nat)
  | waiting (frame ticket : Nat)
  | marking (frame invoker : Nat)

/-- Where the execution of an order stands: on its way to a route, waiting on a route, or
past it. -/
inductive ExecPhase where
  | checking
  | routing
  | posted (id : Nat)
  | inline
  | checkingRemote
  | checkingPrompt
  | checkingFlight
  | interrupting
  | acquiring
  | queued (ticket id : Nat)
  | subscribing (id : Nat)
  | parking (id : Nat)
  | checkingReader (id : Nat)
  | reclaiming (id : Nat)
  | awaiting (id : Nat)
  | leasing
  | checkingOwner (h : Handle)
  | checkingPopped (h : Handle)
  | refusing (h : Handle)
  | rerouting (h : Handle)
  | spawning (h : Handle)
  | joining (worker : Nat)
  | finishing (r : Reply)

inductive ReadTaskPhase where
  | checking
  | leasing
  | registering (h : Handle)
  | spawning (h : Handle) (read : Nat)
  | joining (worker : Nat)

/-- The worker of a read holds its lease until what was parked meanwhile has run. -/
inductive ReadWorkerPhase where
  | starting
  | reading
  | ending (r : Except EngineError String)
  | draining (r : Except EngineError String)
  | drained (r : Except EngineError String)
  | releasing (r : Except EngineError String)

inductive PushPhase where
  | looking
  | pushing (previous : Runspace)
  | recording (previous : Runspace)
  | publishing (previous : Runspace)

inductive PopPhase where
  | checkingLength
  | checkingFrame
  | poppingFrame
  | poppingRunspace
  | publishing (popped current : Runspace)

/-- After a direct execution: `comparing` what the engine reports, and popping until `keep`
pushed runspaces are left. -/
inductive TrackPhase where
  | polling
  | comparing (r : Runspace)
  | popping (keep : Nat) (reason : Option RunspaceChangeReason)

inductive AbortPhase where
  | looking
  | checkingDebugger (state : SessionState)
  | marking (inDebugger : Bool)
  | stopping (inDebugger : Bool)
  | checkingPrompt
  | signalling (kind : LoopKind) (signal : Signal)
  | checkingReader
  | interrupting

inductive DisposePhase where
  | marking
  | listing
  | signalling (loops : List (Nat × LoopKind))
  | stopping
  | interrupting

/-- What is run in a frame pushed for it: a request picked up from the idle slot, or a
command of a nested prompt. -/
inductive PushedWork where
  | request (r : Request)
  | order (o : Order)

/-- A frame is pushed for the work and its lease taken. Without the lease the frame is popped
and the work refused. -/
inductive EnterPhase where
  | pushing
  | leasing (frame : Nat)
  | looking (frame : Nat)
  | popping (frame : Nat)
  | refusing

/-- The way out of a pushed frame: its thread looks whether the frame is innermost, pops what is
innermost then, and gives the lease back. -/
inductive RoomPhase where
  | looking
  | popping
  | releasing

inductive Activation where
  | invocation (i : Invocation)
  | reading (read : Nat) (waiting : Bool)
  | debuggerCommand
  | leased (options : Options)
  | inLoop (loop : Nat) (options : Options)
  | entering (phase : EnterPhase) (work : PushedWork)
  | pushed (frame : Nat) (h : Handle) (phase : RoomPhase)
  | request (id : Nat)
  | idleRun
  | loop (id : Nat) (phase : LoopPhase)
  | getHandle (token : Option Token) (forReading : Bool) (phase : LeasePhase)
  | exec (order : Order) (phase : ExecPhase)
  | readTask (token : Option Token) (phase : ReadTaskPhase)
  | handleTask (token : Option Token) (asked : Bool)
  | starting (h : Handle) (order : Order)
  | worker (h : Handle)
  | readWorker (h : Handle) (read : Nat) (phase : ReadWorkerPhase)
  | pushRunspace (r : Runspace) (phase : PushPhase)
  | popRunspace (reason : Option RunspaceChangeReason) (phase : PopPhase)
  | track (phase : TrackPhase)
  | abort (phase : AbortPhase)
  | dispose (phase : DisposePhase)
  | held (gate : String)
  | reentrant

/-- Whether the innermost activation goes on by itself, gets what the one above it left, or
is unwound. A thread that is `dropped` never moves again. -/
inductive Control where
  | go
  | back (o : Outcome)
  | unwind (p : Panic)
  | dropped

/-- `depth` counts the engine's invocations in progress on this thread. -/
structure Thread where
  depth : Nat := 0
  control : Control := .go
  stack : List Activation

namespace Thread

/-- Goes on with another stack. -/
def goOn (t : Thread) (stack : List Activation) : Thread :=
  { t with control := .go, stack }

/-- Ends the innermost activation. -/
def give (t : Thread) (rest : List Activation) (o : Outcome) : Thread :=
  { t with control := .back o, stack := rest }

def panic (t : Thread) (rest : List Activation) (p : Panic) : Thread :=
  { t with control := .unwind p, stack := rest }

/-- What a thread that ended left behind. -/
def result? (t : Thread) : Option Control :=
  if t.stack.isEmpty then some t.control else none

end Thread

end ScriptHost.Service
