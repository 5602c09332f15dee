import ScriptHost.Engine
import ScriptHost.WaitQueue

/-!
The prompt nest: a stack of frames, one for each level of nested execution. Every
frame owns a queue with a single lease, its invoker, so that a lease taken at one
depth is never given out again at another. Only frames on the stack give out
leases; a popped frame takes its lease back and keeps it.
-/

namespace ScriptHost

/-- One level of nested execution. The queue holds the frame's invoker, named by the frame
it belongs to; `reading` says that a prompt on this frame waits for input. -/
structure Frame where
  depth : Nat
  kind : FrameKind
  queue : WaitQueue Nat
  reading : Bool := false

instance : Inhabited Frame := ⟨⟨0, .normal, {}, false⟩⟩

namespace Frame

def isAvailable (f : Frame) : Bool :=
  f.queue.slot.isSome

def isPopped (f : Frame) : Bool :=
  f.queue.closed

end Frame

/-- An exclusive lease on a frame's invoker. -/
structure Handle where
  invoker : Nat
  frame : Nat
  forReading : Bool
  deriving DecidableEq, Repr

/-- `frames` holds every frame ever made, named by its position, and `above` the frames on
the stack over the base frame, innermost first. The base frame is frame 0. -/
structure Nest where
  frames : List Frame
  above : List Nat

namespace Nest

def initial : Nest :=
  { frames := [{ depth := 0, kind := .normal, queue := .withItem 0 }], above := [] }

def frame (n : Nest) (id : Nat) : Frame :=
  n.frames[id]?.getD default

def info (n : Nest) (id : Nat) : FrameInfo :=
  { id, depth := (n.frame id).depth, kind := (n.frame id).kind }

def top (n : Nest) : Nat :=
  n.above.head?.getD 0

def topFrame (n : Nest) : Frame :=
  n.frame n.top

/-- The number of frames over the base frame. -/
def depth (n : Nest) : Nat :=
  n.above.length

/-- The frames on the stack, innermost first. -/
def stack (n : Nest) : List Nat :=
  n.above ++ [0]

def update (n : Nest) (id : Nat) (f : Frame → Frame) : Nest :=
  { n with frames := n.frames.modify id f }

def setQueue (n : Nest) (id : Nat) (queue : WaitQueue Nat) : Nest :=
  n.update id fun f => { f with queue }

def setReading (n : Nest) (id : Nat) (reading : Bool) : Nest :=
  n.update id fun f => { f with reading }

/-- Pushes a frame with its lease available. Frames inside a remote frame are remote. -/
def push (n : Nest) (kind : FrameKind) : Nat × Nest :=
  let id := n.frames.length
  let frame : Frame :=
    { depth := n.depth + 1
      kind := if n.topFrame.kind.remote then kind.union .remoteSession else kind
      queue := .withItem id }
  (id, { frames := n.frames ++ [frame], above := id :: n.above })

/-- Pops the innermost frame, but never the base frame. Callers parked on the frame fail
and move on to the frame below. -/
def pop (n : Nest) : Except ExecutionError (Nat × Nest) :=
  match n.above with
  | [] => .error (.invariantViolation .basePopped)
  | id :: above =>
    .ok (id, { n with above }.setQueue id (n.frame id).queue.close)

/-- What is left when the innermost frame is popped, if it can be. -/
def popTop (n : Nest) : Nest :=
  match n.pop with
  | .ok (_, n') => n'
  | .error _ => n

/-- Pops `id`, which has to be the innermost frame. -/
def popFrame (n : Nest) (id : Nat) : Except ExecutionError (Nat × Nest) :=
  if n.top = id then n.pop else .error (.invariantViolation (.notOnTop id))

/-- A caller that took an invoker holds the lease. A lease for reading marks its frame. -/
def lease (n : Nest) (frame invoker : Nat) (forReading : Bool) : Handle × Nest :=
  ({ invoker, frame, forReading }, if forReading then n.setReading frame true else n)

/-- Takes a frame's lease only if it is available now. -/
def tryLease (n : Nest) (frame : Nat) (forReading : Bool) : Option (Handle × Nest) :=
  (n.frame frame).queue.tryTake.map fun (invoker, queue) =>
    (n.setQueue frame queue).lease frame invoker forReading

def ask (n : Nest) (frame : Nat) (cancelled : Bool) : Taking Nat × Nest :=
  let (t, queue) := (n.frame frame).queue.take cancelled
  (t, n.setQueue frame queue)

def look (n : Nest) (frame ticket : Nat) (cancelled : Bool) : Taking Nat × Nest :=
  let (t, queue) := (n.frame frame).queue.look ticket cancelled
  (t, n.setQueue frame queue)

def withdraw (n : Nest) (frame ticket : Nat) : Nest × Option Panic :=
  let (queue, p) := (n.frame frame).queue.withdraw ticket
  (n.setQueue frame queue, p)

/-- The prompt stopped reading while its lease is still held. -/
def endReading (n : Nest) (h : Handle) : Nest :=
  if h.forReading then n.setReading h.frame false else n

/-- Gives a lease back: to the caller parked longest on the frame, or into the slot. -/
def release (n : Nest) (h : Handle) : Nest × Option Panic :=
  let n := n.endReading h
  match (n.frame h.frame).queue.offer h.invoker with
  | some queue => (n.setQueue h.frame queue, none)
  | none => (n, some .occupiedQueue)

end Nest

end ScriptHost
