import ScriptHost.Runspace
import ScriptHost.Session

/-!
Events for those who watch the host, and the bus that hands a copy of each event
to every subscriber.
-/

namespace ScriptHost

/-- What the debugger does next. -/
inductive ResumeAction where
  | proceed
  | stepInto
  | stepOut
  | stepOver
  | stop
  deriving DecidableEq, Repr

namespace ResumeAction

def name : ResumeAction → String
  | proceed => "Continue"
  | stepInto => "StepInto"
  | stepOut => "StepOut"
  | stepOver => "StepOver"
  | stop => "Stop"

def all : List ResumeAction :=
  [proceed, stepInto, stepOut, stepOver, stop]

end ResumeAction

structure DebuggerStop where
  script : Option String
  line : Nat := 1
  column : Nat := 1
  breakpoints : List Nat := []
  deriving DecidableEq, Repr

inductive BreakpointChange where
  | set
  | removed
  | enabled
  | disabled
  deriving DecidableEq, Repr

namespace BreakpointChange

def name : BreakpointChange → String
  | set => "Set"
  | removed => "Removed"
  | enabled => "Enabled"
  | disabled => "Disabled"

def all : List BreakpointChange :=
  [set, removed, enabled, disabled]

end BreakpointChange

structure BreakpointUpdate where
  id : Nat
  kind : BreakpointChange
  script : Option String
  line : Nat
  deriving DecidableEq, Repr

inductive Event where
  | session (change : SessionChange)
  | stop (s : DebuggerStop)
  | breakpoint (u : BreakpointUpdate)
  | runspace (change : RunspaceChange)
  deriving DecidableEq, Repr

/-- The receiving end of a subscription. A closed one takes no more events and keeps the
ones it has. -/
inductive ReceiverStatus where
  | receiving
  | closed
  | dropped
  deriving DecidableEq, Repr

/-- A subscription stays registered until a publication finds its receiver gone. -/
structure Subscription where
  status : ReceiverStatus := .receiving
  registered : Bool := true
  buffer : List Event := []

/-- All subscriptions ever made, in order; their index names them. -/
structure EventBus where
  subscriptions : List Subscription := []

namespace EventBus

def subscribe (b : EventBus) : Nat × EventBus :=
  (b.subscriptions.length, ⟨b.subscriptions ++ [({} : Subscription)]⟩)

def offer (e : Event) (s : Subscription) : Subscription :=
  if s.registered then
    if s.status = .receiving then { s with buffer := s.buffer ++ [e] }
    else { s with registered := false }
  else s

def publish (b : EventBus) (e : Event) : EventBus :=
  ⟨b.subscriptions.map (offer e)⟩

def drop (b : EventBus) (id : Nat) : EventBus :=
  ⟨b.subscriptions.modify id fun s => { s with status := .dropped, buffer := [] }⟩

def close (b : EventBus) (id : Nat) : EventBus :=
  ⟨b.subscriptions.modify id fun s =>
    if s.status = .receiving then { s with status := .closed } else s⟩

/-- Takes everything a subscriber can receive now. -/
def drain (b : EventBus) (id : Nat) : List Event × EventBus :=
  ((b.subscriptions[id]?.map Subscription.buffer).getD [],
    ⟨b.subscriptions.modify id fun s => { s with buffer := [] }⟩)

/-- The subscriptions still registered. -/
def count (b : EventBus) : Nat :=
  (b.subscriptions.filter Subscription.registered).length

end EventBus

end ScriptHost
