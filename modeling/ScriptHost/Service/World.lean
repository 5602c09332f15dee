import ScriptHost.IdleSlot
import ScriptHost.Service.Thread

/-!
The state that the threads of the service share, and the single steps in which
they change it. Each function here is one step that no other thread can see the
middle of.
-/

namespace ScriptHost.Service

/-- How a console reacts to a line written on it: not at all, by holding the writer until a
gate opens, by running a script on the writer's thread, or by a panic. -/
inductive Reaction where
  | ignore
  | hold (gate : String)
  | run (script : String)
  | panic (p : Panic)

/-- `patience` is the longest sleep, in milliseconds, that is waited out; a longer one ends
only by being stopped. -/
structure Config where
  trackRunspaces : Bool := true
  idleInvocation : Bool := true
  patience : Nat := 10000
  console : String → Reaction := fun _ => .ignore

/-- An open message loop: the thread that runs it, what was posted to it and not yet taken,
and the one signal it can hold. While a loop is `leaving`, its thread holds the lock of the list
of loops. -/
structure MessageLoop where
  id : Nat
  kind : LoopKind
  frame : Nat
  thread : Nat
  requests : List Request := []
  signal : Option Signal := none
  leaving : Bool := false

/-- A prompt that reads a line, until its caller's token is cancelled or the service
interrupts it. -/
structure ActiveRead where
  id : Nat
  frame : Nat
  token : Option Token
  interrupted : Bool := false

/-- What the console was given, and the replies of scripts run from it. -/
inductive ConsoleEntry where
  | out (line : String)
  | err (line : String)
  | ran (r : Reply)

/-- `loops`, `reads` and `pushed` are innermost first. The runspaces are those pushed and the base
runspace under them, unless that is gone too. `cells` holds the requester's side of every request
ever made, and `threads` every thread ever started, named by position. -/
structure World where
  config : Config := {}
  operations : Operations
  engine : Engine
  nest : Nest := .initial
  slot : IdleSlot Request := {}
  session : Session := {}
  bus : EventBus := {}
  loops : List MessageLoop := []
  nextLoop : Nat := 0
  reads : List ActiveRead := []
  nextRead : Nat := 0
  baseRunspace : Runspace
  pushed : List Runspace := []
  baseGone : Bool := false
  cells : List Cell := []
  cancelled : List Token := []
  gates : List String := []
  ticks : Bool := true
  console : List ConsoleEntry := []
  threads : List Thread := []

namespace World

def isCancelled (w : World) (token : Option Token) : Bool :=
  token.any w.cancelled.contains

def isDisposed (w : World) : Bool :=
  w.session.state == .disposed

def publish (w : World) (e : Event) : World :=
  { w with bus := w.bus.publish e }

/-- Changes the session and publishes the change if there is one. -/
def changeSession (w : World) (c : Session × Option SessionChange) : World :=
  { w with
    session := c.1
    bus := match c.2 with
      | some change => w.bus.publish (.session change)
      | none => w.bus }

def setSession (w : World) (state : SessionState) (result : ExecutionResult)
    (reason : Option String) : World :=
  w.changeSession (w.session.transition state result reason)

def followInvocation (w : World) (state : InvocationState) (reason : Option String) : World :=
  w.changeSession (w.session.follow state reason)

def newCell (w : World) : Nat × World :=
  (w.cells.length, { w with cells := w.cells ++ [.waiting] })

def cell (w : World) (id : Nat) : Cell :=
  w.cells[id]?.getD .dropped

def setCell (w : World) (id : Nat) (f : Cell → Cell) : World :=
  { w with cells := w.cells.modify id f }

/-- Gives a lease back, which may panic. -/
def release (w : World) (h : Handle) : World × Option Panic :=
  let (nest, p) := w.nest.release h
  ({ w with nest }, p)

/-- Pops the innermost frame, whichever that is by now. -/
def popTop (w : World) : World :=
  { w with nest := w.nest.popTop }

def findLoop (w : World) (id : Nat) : Option MessageLoop :=
  w.loops.find? (·.id == id)

def hasLoop (w : World) (kind : LoopKind) : Bool :=
  w.loops.any (·.kind == kind)

def ownsFrame (w : World) (frame : Nat) : Bool :=
  w.loops.any (·.frame == frame)

/-- Whether a thread that leaves its loop holds the lock of the list of loops. -/
def loopsHeld (w : World) : Bool :=
  w.loops.any (·.leaving)

def updateLoop (w : World) (id : Nat) (f : MessageLoop → MessageLoop) : World :=
  { w with loops := w.loops.map fun l => if l.id == id then f l else l }

/-- Pushes a frame and registers a loop on it. -/
def openLoop (w : World) (kind : LoopKind) (thread : Nat) : Nat × World :=
  let (frame, nest) := w.nest.push kind.frameKind
  let loop : MessageLoop := { id := w.nextLoop, kind, frame, thread }
  (w.nextLoop, { w with nest, loops := loop :: w.loops, nextLoop := w.nextLoop + 1 })

/-- Removes the loop. -/
def closeLoop (w : World) (l : MessageLoop) : World :=
  { w with loops := w.loops.filter (·.id != l.id) }

/-- A loop holds at most one signal and refuses later ones. -/
def signalLoop (w : World) (id : Nat) (signal : Signal) : Bool × World :=
  match w.findLoop id with
  | some { signal := none, .. } =>
    (true, w.updateLoop id fun l => { l with signal := some signal })
  | _ => (false, w)

/-- Signals the innermost loop of a kind. -/
def signalInnermost (w : World) (kind : LoopKind) (signal : Signal) : Bool × World :=
  match w.loops.find? (·.kind == kind) with
  | some l => w.signalLoop l.id signal
  | none => (false, w)

def isReadCancelled (w : World) (read : Nat) : Bool :=
  match w.reads.find? (·.id == read) with
  | some r => r.interrupted || w.isCancelled r.token
  | none => false

def registerRead (w : World) (frame : Nat) (token : Option Token) : Nat × World :=
  (w.nextRead,
    { w with reads := { id := w.nextRead, frame, token } :: w.reads, nextRead := w.nextRead + 1 })

def unregisterRead (w : World) (read : Nat) : World :=
  { w with reads := w.reads.filter (·.id != read) }

def interruptWhere (w : World) (p : ActiveRead → Bool) : World :=
  { w with reads := w.reads.map fun r => if p r then { r with interrupted := true } else r }

/-- Interrupts the innermost prompt that reads. -/
def interruptInnermost (w : World) : World :=
  w.interruptWhere fun r => w.reads.head?.any (·.id == r.id)

/-- The innermost runspace, of which there is one as long as the base runspace is there. -/
def currentRunspace (w : World) : Runspace :=
  w.pushed.head?.getD w.baseRunspace

/-- Adds a runspace; the first one there is takes the place of the base runspace. -/
def addRunspace (w : World) (r : Runspace) : World :=
  if w.baseGone then { w with baseRunspace := r, baseGone := false }
  else { w with pushed := r :: w.pushed }

def write (w : World) (entry : ConsoleEntry) : World :=
  { w with console := w.console ++ [entry] }

def spawn (w : World) (stack : List Activation) : Nat × World :=
  (w.threads.length, { w with threads := w.threads ++ [{ stack }] })

end World

/-- A thread's possible next states, with the world it leaves. An empty list means that the
thread waits or has ended. -/
abbrev Moves := List (World × Thread)

end ScriptHost.Service
