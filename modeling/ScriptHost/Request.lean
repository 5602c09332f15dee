import ScriptHost.Command
import ScriptHost.Error

/-!
Requests: a command on its way to whichever thread may drive the engine, and the
cell in which its requester finds the reply. A request ends in one of two ways:
it is executed, and whatever comes of that is the reply, a panic included; or it
is dropped, which the requester sees as a cancellation.
-/

namespace ScriptHost

/-- What a command produced, and the errors it reported without ending. -/
structure Output (α : Type) where
  output : List α := []
  errors : List String := []

def Output.convert (shape : Shape) (o : Output Value) : Except ConversionError (Output Typed) :=
  (o.output.mapM shape.read).map fun output => { output, errors := o.errors }

abbrev Reply := Except ExecutionError (Output Value)

/-- The reply with its output in the type that the caller asked for. -/
def Reply.convert (shape : Shape) (r : Reply) : Except ExecutionError (Output Typed) :=
  match r with
  | .error e => .error e
  | .ok o => (o.convert shape).mapError .conversion

/-- How the execution of a request can end. -/
inductive Ending where
  | returned (r : Reply)
  | panicked (p : Panic)

/-- The reply that the requester gets. -/
def Ending.reply : Ending → Reply
  | returned r => r
  | panicked p => .error (.panicked p.message)

structure Request where
  id : Nat
  command : Command
  options : Options

/-- The requester's side of a request. -/
inductive Cell where
  | waiting
  | replied (r : Reply)
  | dropped

namespace Cell

/-- What the requester sees: nothing yet, or the reply. -/
def poll : Cell → Option Reply
  | waiting => none
  | replied r => some r
  | dropped => some (.error .cancelled)

def deliver (e : Ending) : Cell → Cell
  | waiting => replied e.reply
  | c => c

def abandon : Cell → Cell
  | waiting => dropped
  | c => c

end Cell

end ScriptHost
