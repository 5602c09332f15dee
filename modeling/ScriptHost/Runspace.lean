/-!
Runspaces: the local session of the engine and the remote ones it entered.
-/

namespace ScriptHost

inductive RunspaceLocation where
  | here
  | computer (name : String)
  deriving DecidableEq, Repr

inductive RunspaceContext where
  | session
  | enteredProcess
  | debuggedRunspace
  deriving DecidableEq, Repr

namespace RunspaceContext

def name : RunspaceContext → String
  | session => "Original"
  | enteredProcess => "EnteredProcess"
  | debuggedRunspace => "DebuggedRunspace"

def all : List RunspaceContext :=
  [session, enteredProcess, debuggedRunspace]

end RunspaceContext

structure Runspace where
  id : Nat
  location : RunspaceLocation := .here
  context : RunspaceContext := .session
  deriving DecidableEq, Repr

def Runspace.isRemote (r : Runspace) : Bool :=
  r.location != .here

inductive RunspaceChangeReason where
  | pushedSession
  | poppedSession
  | enteredProcess
  | exitedProcess
  | sessionClosed
  deriving DecidableEq, Repr

def RunspaceChangeReason.name : RunspaceChangeReason → String
  | pushedSession => "PushedSession"
  | poppedSession => "PoppedSession"
  | enteredProcess => "EnteredProcess"
  | exitedProcess => "ExitedProcess"
  | sessionClosed => "SessionClosed"

namespace Runspace

def pushReason (r : Runspace) : RunspaceChangeReason :=
  if r.context = .enteredProcess then .enteredProcess else .pushedSession

def popReason (r : Runspace) : RunspaceChangeReason :=
  if r.context = .enteredProcess then .exitedProcess else .poppedSession

end Runspace

structure RunspaceChange where
  reason : RunspaceChangeReason
  previous : Runspace
  current : Runspace
  deriving DecidableEq, Repr

end ScriptHost
