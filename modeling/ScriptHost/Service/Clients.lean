import ScriptHost.Service.Schedule

/-!
Those who use the service, as named tasks. After every step of theirs whatever can
happen happens, and then it is seen which tasks have ended.
-/

namespace ScriptHost.Service

namespace Clients

inductive Step where
  | exec (name : String) (order : Order) (shape : Shape)
  | readLine (name : String) (token : Option Token)
  | lease (name : String) (token : Option Token)
  | drop (name : String)
  | release (name : String)
  | input (line : String)
  | cancel (token : Token)
  | openGate (gate : String)
  | abort
  | resume (action : ResumeAction)
  | pause
  | exitPrompt
  | dispose
  | pushRunspace (location : RunspaceLocation) (context : RunspaceContext)
  | popRunspace
  | pushFrame (kind : FrameKind)
  | popFrame
  | unsubscribe
  | ticks (on : Bool)
  | fault (call : EngineCall) (e : EngineError)

/-- A lease as its holder sees it. -/
structure LeaseView where
  depth : Nat
  kind : FrameKind
  popped : Bool

inductive Answer where
  | done
  | unknown
  | truth (b : Bool)
  | lease (v : LeaseView)
  | runspace (r : Runspace)
  | frame (f : FrameInfo)
  | failed (e : ExecutionError)
  | panicked (p : Panic)

/-- What a task ends with. -/
inductive Ended where
  | reply (r : Except ExecutionError (Output Typed))
  | line (r : Except ExecutionError String)
  | lease (r : Except ExecutionError LeaseView)
  | panicked (p : Panic)
  | dropped

end Clients

/-- `shape` is the type into which the output of a task is converted; `reported` says that
its end was seen. -/
structure Task where
  name : String
  thread : Nat
  shape : Shape := .value
  reported : Bool := false

structure Clients where
  world : World
  tasks : List Task := []

namespace Clients

def viewLease (w : World) (h : Handle) : LeaseView :=
  let f := w.nest.frame h.frame
  { depth := f.depth, kind := f.kind, popped := f.isPopped }

/-- How a task ended, if it has. -/
def ended? (w : World) (t : Task) : Option Ended :=
  match w.result? t.thread with
  | some (.back (.reply r)) => some (.reply (r.convert t.shape))
  | some (.back (.line r)) => some (.line r)
  | some (.back (.lease r)) => some (.lease (r.map (viewLease w)))
  | some (.unwind p) => some (.panicked p)
  | some .dropped => some .dropped
  | _ => none

def spawn (c : Clients) (name : String) (a : Activation) (shape : Shape) : Answer × Clients :=
  let (thread, world) := c.world.spawn [a]
  (.done, { world, tasks := c.tasks ++ [{ name, thread, shape }] })

/-- The tasks that have not ended, in the order in which they started. -/
def unfinished (c : Clients) : List Task :=
  c.tasks.filter fun t => !t.reported

def drop (c : Clients) (name : String) : Answer × Clients :=
  match c.unfinished.find? (·.name == name) with
  | some t => (.done, { c with world := c.world.dropTask t.thread })
  | none => (.unknown, c)

/-- Gives back the lease that a task left for its caller. -/
def release (c : Clients) (name : String) : Answer × Clients :=
  let held (t : Task) := if t.name == name then
    (c.world.leaseOf t.thread).map fun h => (t.thread, h) else none
  match c.tasks.findSome? held with
  | some (thread, h) =>
    (.lease (viewLease c.world h), { c with world := c.world.releaseLease thread })
  | none => (.unknown, c)

def popFrame (w : World) : Answer × World :=
  match w.nest.pop with
  | .ok (id, nest) => (.frame (nest.info id), { w with nest })
  | .error e => (.failed e, w)

def popRunspace (w : World) : Answer × World :=
  match w.popRunspace with
  | (some (.back (.popped (.ok r))), w) => (.runspace r, w)
  | (some (.back (.popped (.error e))), w) => (.failed e, w)
  | (some (.unwind p), w) => (.panicked p, w)
  | (_, w) => (.done, w)

/-- The steps that change the world without a task. -/
def act (w : World) : Step → Answer × World
  | .input line => (.done, { w with engine := w.engine.feed line })
  | .cancel token => (.done, { w with cancelled := token :: w.cancelled })
  | .openGate gate => (.done, { w with gates := gate :: w.gates })
  | .abort => (.done, w.abort)
  | .resume action => let (taken, w) := w.resume action; (.truth taken, w)
  | .pause => (.truth w.pause.engine.stepMode, w.pause)
  | .exitPrompt => let (taken, w) := w.exitPrompt; (.truth taken, w)
  | .dispose => (.done, w.dispose)
  | .pushRunspace location context =>
    let (r, engine) := w.engine.freshRunspace location context
    (.done, { w with engine }.pushRunspace r)
  | .popRunspace => popRunspace w
  | .pushFrame kind => (.done, { w with nest := (w.nest.push kind).2 })
  | .popFrame => popFrame w
  | .unsubscribe => (.done, { w with engine := w.engine.unsubscribeIdle })
  | .ticks on => (.done, { w with ticks := on })
  | .fault call e =>
    (.done, { w with engine := { w.engine with faults := w.engine.faults ++ [(call, e)] } })
  | _ => (.done, w)

def perform (c : Clients) : Step → Answer × Clients
  | .exec name order shape => c.spawn name (.exec order .checking) shape
  | .readLine name token => c.spawn name (.readTask token .checking) .value
  | .lease name token => c.spawn name (.handleTask token false) .value
  | .drop name => c.drop name
  | .release name => c.release name
  | step =>
    let (a, world) := act c.world step
    (a, { c with world })

/-- Does one thing, lets everything happen that can, and finds the tasks that ended. -/
def step (c : Clients) (s : Step) : Answer × List (String × Ended) × Clients :=
  let (a, c) := c.perform s
  let world := c.world.settle
  let ended := c.unfinished.filterMap fun t => (ended? world t).map fun e => (t.name, e)
  let tasks := c.tasks.map fun t => { t with reported := t.reported || (ended? world t).isSome }
  (a, ended, { world, tasks })

end Clients

end ScriptHost.Service
