import ScriptHost.Error
import ScriptHost.Event
import ScriptHost.Flags
import ScriptHost.Version

/-!
The state of the script engine, and what it does without calling its host. The
engine keeps a journal of what it did and where, a history of commands, the
lines waiting to be read, and the runspaces it entered.
-/

namespace ScriptHost

/-- A frame as the engine sees it. -/
structure FrameInfo where
  id : Nat := 0
  depth : Nat := 0
  kind : FrameKind := .normal
  deriving DecidableEq, Repr

inductive Activity where
  | started (text : String)
  | finished (text : String)
  | debuggerCommand (text : String)
  | resumed (action : ResumeAction)
  | stopProcess
  | readLine
  deriving DecidableEq, Repr

structure JournalEntry where
  activity : Activity
  depth : Nat
  kind : FrameKind
  deriving DecidableEq, Repr

/-- The calls into the engine that can be made to fail. -/
inductive EngineCall where
  | invoke
  | readLine
  | subscribe
  | details
  | debuggerCommand
  deriving DecidableEq, Repr

/-- `entered` holds the remote runspaces, innermost first, on top of `base`. `active` counts
the outermost invocations in progress and `peak` the most there ever were. -/
structure Engine where
  version : Version := .standard
  base : Runspace := { id := 0 }
  entered : List Runspace := []
  nextRunspace : Nat := 1
  transportBroken : Bool := false
  input : List String := []
  stopRequested : Bool := false
  idleSubscribed : Bool := false
  modes : DebugModes := .none
  stepMode : Bool := false
  nextBreakpoint : UInt32 := 1
  history : List String := []
  journal : List JournalEntry := []
  active : Nat := 0
  peak : Nat := 0
  faults : List (EngineCall × EngineError) := []

namespace Engine

def record (e : Engine) (frame : FrameInfo) (activity : Activity) : Engine :=
  { e with journal := e.journal ++ [{ activity, depth := frame.depth, kind := frame.kind }] }

/-- The fault that waits for a call, oldest first, and the engine without it. -/
def takeFault (e : Engine) (call : EngineCall) : Option (EngineError × Engine) :=
  (e.faults.find? (·.1 == call)).map fun f =>
    (f.2, { e with faults := e.faults.eraseP (·.1 == call) })

def feed (e : Engine) (line : String) : Engine :=
  { e with input := e.input ++ [line] }

def stop (e : Engine) : Engine :=
  { e with stopRequested := true }

def subscribeIdle (e : Engine) : Except EngineError Unit × Engine :=
  match e.takeFault .subscribe with
  | some (error, e) => (.error error, e)
  | none => (.ok (), { e with idleSubscribed := true })

def unsubscribeIdle (e : Engine) : Engine :=
  { e with idleSubscribed := false }

/-- The runspace commands go to. -/
def current (e : Engine) : Runspace :=
  e.entered.head?.getD e.base

def freshRunspace (e : Engine) (location : RunspaceLocation) (context : RunspaceContext) :
    Runspace × Engine :=
  ({ id := e.nextRunspace, location, context }, { e with nextRunspace := e.nextRunspace + 1 })

def enterSession (e : Engine) (computer : String) : Engine :=
  let (r, e) := e.freshRunspace (.computer computer) .session
  { e with entered := r :: e.entered }

def exitSession (e : Engine) : Engine :=
  { e with entered := e.entered.tail }

/-- The current runspace. A broken transport is reported once, and leaves the base runspace
alone. -/
def details (e : Engine) : Except EngineError Runspace × Engine :=
  match e.takeFault .details with
  | some (error, e) => (.error error, e)
  | none =>
    if e.transportBroken then
      (.error (.transportBroken "the remote session was closed"),
        { e with transportBroken := false, entered := [] })
    else (.ok e.current, e)

def stopProcess (e : Engine) : Engine :=
  e.record {} .stopProcess

end Engine

namespace Operations

/-- Only the newest engines let the host choose where the debugger stops. -/
def configure (o : Operations) (e : Engine) : Engine :=
  match o with
  | v5 => { e with modes := .scripts }
  | _ => e

def pause (o : Operations) (e : Engine) : Engine :=
  match o with
  | v5 => { e with stepMode := true }
  | _ => e

def stopCommand (o : Operations) (e : Engine) : Engine :=
  match o with
  | v3 => e
  | _ => e.stopProcess

/-- Whether commands can be run while the debugger is stopped. -/
def runsInDebugger : Operations → Bool
  | v3 => false
  | _ => true

def refusal : ExecutionError :=
  .notSupported "executing commands in the debugger requires engine version 4 or later"

end Operations

end ScriptHost
