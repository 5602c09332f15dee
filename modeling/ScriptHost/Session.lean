/-!
The state of a session: whether a command is running, and how the last one
ended. A table says which state may follow which; a change outside the table,
and a change to what already is, does nothing.
-/

namespace ScriptHost

inductive SessionState where
  | notStarted
  | ready
  | running
  | aborting
  | disposed
  deriving DecidableEq, Repr

inductive ExecutionResult where
  | notFinished
  | failed
  | aborted
  | stopped
  | completed
  deriving DecidableEq, Repr

/-- The states of an invocation, as the engine reports them. -/
inductive InvocationState where
  | notStarted
  | running
  | stopping
  | stopped
  | completed
  | failed
  | disconnected
  deriving DecidableEq, Repr

structure SessionChange where
  previous : SessionState
  state : SessionState
  result : ExecutionResult
  reason : Option String
  deriving DecidableEq, Repr

namespace SessionState

def name : SessionState → String
  | notStarted => "NotStarted"
  | ready => "Ready"
  | running => "Running"
  | aborting => "Aborting"
  | disposed => "Disposed"

def all : List SessionState :=
  [notStarted, ready, running, aborting, disposed]

def canBecome : SessionState → SessionState → Bool
  | disposed, _ => false
  | _, disposed => true
  | notStarted, notStarted => true
  | notStarted, ready => true
  | ready, ready => true
  | ready, running => true
  | ready, aborting => true
  | running, ready => true
  | running, running => true
  | running, aborting => true
  | aborting, ready => true
  | aborting, aborting => true
  | _, _ => false

end SessionState

namespace ExecutionResult

def name : ExecutionResult → String
  | notFinished => "NotFinished"
  | failed => "Failed"
  | aborted => "Aborted"
  | stopped => "Stopped"
  | completed => "Completed"

def all : List ExecutionResult :=
  [notFinished, failed, aborted, stopped, completed]

end ExecutionResult

namespace InvocationState

def name : InvocationState → String
  | notStarted => "NotStarted"
  | running => "Running"
  | stopping => "Stopping"
  | stopped => "Stopped"
  | completed => "Completed"
  | failed => "Failed"
  | disconnected => "Disconnected"

def all : List InvocationState :=
  [notStarted, running, stopping, stopped, completed, failed, disconnected]

end InvocationState

/-- The state of the session that an invocation state implies. -/
def InvocationState.implied : InvocationState → SessionState × ExecutionResult
  | notStarted => (.notStarted, .notFinished)
  | running => (.running, .notFinished)
  | stopping => (.aborting, .notFinished)
  | stopped => (.ready, .aborted)
  | completed => (.ready, .completed)
  | failed => (.ready, .failed)
  | disconnected => (.ready, .failed)

structure Session where
  state : SessionState := .notStarted
  result : ExecutionResult := .notFinished
  deriving DecidableEq, Repr

namespace Session

/-- Moves to a state if the table allows it and it is a change, and says what changed. -/
def transition (s : Session) (state : SessionState) (result : ExecutionResult)
    (reason : Option String) : Session × Option SessionChange :=
  if s.state = state ∧ s.result = result then (s, none)
  else if s.state.canBecome state then
    ({ state, result }, some { previous := s.state, state, result, reason })
  else (s, none)

def follow (s : Session) (i : InvocationState) (reason : Option String) :
    Session × Option SessionChange :=
  s.transition i.implied.1 i.implied.2 reason

end Session

end ScriptHost
