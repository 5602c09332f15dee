import ScriptHost.Value.Convert

/-!
What can go wrong, by cause. The engine reports one family of errors, a caller
of the host sees another, and code that gives up half-way leaves a panic behind.
Each family has one function that words it.
-/

namespace ScriptHost

/-- Errors of the script engine. -/
inductive EngineError where
  | runtime (what : String)
  | pipelineStopped
  | cancelled
  | transportBroken (what : String)
  | notSupported (what : String)
  | subscription (what : String)
  deriving DecidableEq, Repr

def EngineError.message : EngineError → String
  | runtime what => what
  | pipelineStopped => "The pipeline has been stopped"
  | cancelled => "Operation cancelled"
  | transportBroken what => "Remoting transport broken: " ++ what
  | notSupported what => "Not supported: " ++ what
  | subscription what => "Idle subscription failed: " ++ what

/-- Rules of the host that a caller, or the host itself, did not keep. -/
inductive Violation where
  | basePopped
  | notOnTop (frame : Nat)
  | noHandle
  | unownedLoopFrame
  | noPushedRunspace
  | frameInsideRunspace
  | noRunspace
  | other (what : String)
  deriving DecidableEq, Repr

def Violation.message : Violation → String
  | basePopped => "attempted to pop the base prompt frame"
  | notOnTop frame =>
    "frame F" ++ Decimal.naturalText frame ++ " is not the top of the prompt nest"
  | noHandle => "freshly pushed frame has no handle"
  | unownedLoopFrame => "message loop frame is on top without a running loop"
  | noPushedRunspace => "no pushed runspace to pop"
  | frameInsideRunspace => "cannot pop a runspace while a nested frame is active inside it"
  | noRunspace => "runspace stack is empty"
  | other what => what

/-- Errors of a call to the host. -/
inductive ExecutionError where
  | cancelled
  | engineRuntime (what : String)
  | pipelineStopped
  | invariantViolation (what : Violation)
  | notSupported (what : String)
  | disposed
  | conversion (e : ConversionError)
  | panicked (what : String)
  | channelClosed (what : String)
  deriving DecidableEq, Repr

namespace ExecutionError

def message : ExecutionError → String
  | cancelled => "Operation cancelled"
  | engineRuntime what => "Engine runtime error: " ++ what
  | pipelineStopped => "The pipeline has been stopped"
  | invariantViolation what => "Invariant violated: " ++ what.message
  | notSupported what => "Not supported: " ++ what
  | disposed => "Execution service has been disposed"
  | conversion e => "Conversion error: " ++ e.message
  | panicked what => "Execution panicked: " ++ what
  | channelClosed what => "Channel closed: " ++ what

/-- A cancelled wait and a stopped pipeline both mean that the work did not finish. -/
def isCancellation : ExecutionError → Bool
  | cancelled => true
  | pipelineStopped => true
  | _ => false

def ofEngine : EngineError → ExecutionError
  | .runtime what => engineRuntime what
  | .pipelineStopped => pipelineStopped
  | .cancelled => cancelled
  | .notSupported what => notSupported what
  | .transportBroken what => engineRuntime ("remoting transport broken: " ++ what)
  | .subscription what => engineRuntime ("idle subscription failed: " ++ what)

/-- The queue that hands out the lease of a frame no longer does. -/
def handleQueueClosed : ExecutionError :=
  channelClosed "runspace handle queue"

end ExecutionError

/-- What code leaves behind that stops without a result. -/
inductive Panic where
  | text (s : String)
  | unknown
  deriving DecidableEq, Repr

namespace Panic

def message : Panic → String
  | text s => s
  | unknown => "unknown panic"

def overflow : Panic :=
  text "attempt to add with overflow"

def underflow : Panic :=
  text "attempt to subtract with overflow"

def twoItems : Panic :=
  text "single-slot queue held two items"

def occupiedQueue : Panic :=
  text "runspace handle released into an occupied queue"

end Panic

end ScriptHost
