import ScriptHost.Engine.Scripted
import ScriptHost.Nest

/-!
The callers of a prompt nest, each polled by hand. A caller asks for the lease of
the innermost frame, or of a frame it names; the first kind of caller moves on
when its frame is popped while it waits. A step may push a frame, run further
steps in it and pop it again, whatever those steps did.
-/

namespace ScriptHost.Nest

/-- A caller waiting for a lease. One that `follows` asks again on the innermost frame when
its frame is popped. -/
structure Call where
  frame : Nat
  ticket : Nat
  token : Option Token
  forReading : Bool
  follows : Bool

inductive Step where
  | push (kind : FrameKind)
  | pop
  | popFrame (frame : Nat)
  | get (name : String) (token : Option Token) (forReading : Bool)
  | take (name : String) (frame : Nat) (token : Option Token) (forReading : Bool)
  | tryTake (name : String) (frame : Option Nat) (forReading : Bool)
  | poll (name : String)
  | drop (name : String)
  | cancel (token : Token)
  | release (name : String)
  | invoke (name : String) (command : Command) (addToHistory : Bool)
  | readLine (name : String) (line : Option String)
  | describeFrame (frame : Option Nat)
  | describeHandle (name : String)
  | runPushed (kind : FrameKind) (steps : List Step) (panic : Option String)

/-- A handle as a caller sees it. -/
structure HandleView where
  frame : Nat
  depth : Nat
  invokerDepth : Nat
  popped : Bool
  forReading : Bool

inductive Answer where
  | frame (id : Nat)
  | leased (h : HandleView)
  | handle (h : HandleView)
  | failed (e : ExecutionError)
  | panicked (p : Panic)
  | nothing
  | pending
  | unknown
  | dropped
  | done
  | invoked (a : Scripted.Answer) (log : List Scripted.LogEntry)
  | text (s : String)

/-- A nest with the callers that wait for a lease and the handles that are held, each under
its name. -/
structure Callers where
  nest : Nest := .initial
  engine : Engine := {}
  cancelled : List Token := []
  pending : List (String × Call) := []
  held : List (String × Handle) := []

def frameText (n : Nest) (id : Nat) : String :=
  "FrameContext \x7b id: F" ++ Decimal.naturalText id ++ ", depth: " ++
    Decimal.naturalText (n.frame id).depth ++ ", frame_type: " ++ (n.frame id).kind.text ++ " \x7d"

def boolText (b : Bool) : String :=
  if b then "true" else "false"

def describeFrame (n : Nest) (id : Nat) : String :=
  "PromptNestFrame \x7b context: " ++ n.frameText id ++ ", handle_available: " ++
    boolText (n.frame id).isAvailable ++ ", read_line_busy: " ++ boolText (n.frame id).reading ++
    ", popped: " ++ boolText (n.frame id).isPopped ++ " \x7d"

def describeHandle (n : Nest) (h : Handle) : String :=
  "RunspaceHandle \x7b frame: " ++ n.frameText h.frame ++ ", is_read_line: " ++
    boolText h.forReading ++ " \x7d"

def view (n : Nest) (h : Handle) : HandleView :=
  { frame := h.frame, depth := (n.frame h.frame).depth, invokerDepth := (n.frame h.invoker).depth
    popped := (n.frame h.frame).isPopped, forReading := h.forReading }

namespace Callers

def isCancelled (c : Callers) (token : Option Token) : Bool :=
  token.any c.cancelled.contains

def forget (c : Callers) (name : String) : Callers :=
  { c with pending := c.pending.filter (·.1 != name) }

/-- Releases a handle; the answer is `a` unless the release panics. -/
def releasing (c : Callers) (h : Handle) (a : Answer) : Answer × Callers :=
  match c.nest.release h with
  | (nest, none) => (a, { c with nest })
  | (nest, some p) => (.panicked p, { c with nest })

/-- Keeps a handle under a name; one that was held under it before is dropped. -/
def hold (c : Callers) (name : String) (h : Handle) : Answer × Callers :=
  let answer := Answer.leased (c.nest.view h)
  let kept := { c with held := (name, h) :: c.held.filter (·.1 != name) }
  match c.held.lookup name with
  | none => (answer, kept)
  | some old => kept.releasing old answer

/-- A caller got its item, failed, or has to wait. -/
def settle (c : Callers) (name : String) (call : Call) :
    Taking Nat × Nest → Answer × Callers
  | (.item invoker, nest) =>
    let (h, nest) := nest.lease call.frame invoker call.forReading
    { c with nest }.forget name |>.hold name h
  | (.failed e, nest) => (.failed e, { c with nest }.forget name)
  | (.waiting ticket, nest) =>
    let c := { c with nest }.forget name
    (.pending, { c with pending := c.pending ++ [(name, { call with ticket })] })

def ask (c : Callers) (name : String) (call : Call) : Answer × Callers :=
  c.settle name call (c.nest.ask call.frame (c.isCancelled call.token))

/-- Polls a caller. One whose frame was popped, and that follows, asks again on the
innermost frame. -/
def pollCall (c : Callers) (name : String) (call : Call) : Answer × Callers :=
  match c.nest.look call.frame call.ticket (c.isCancelled call.token) with
  | (.failed (.channelClosed what), nest) =>
    if call.follows && (nest.frame call.frame).isPopped then
      { c with nest }.ask name { call with frame := nest.top }
    else c.settle name call (.failed (.channelClosed what), nest)
  | looked => c.settle name call looked

def poll (c : Callers) (name : String) : Answer × Callers :=
  match c.pending.lookup name with
  | none => (.unknown, c)
  | some call => c.pollCall name call

def drop (c : Callers) (name : String) : Answer × Callers :=
  match c.pending.lookup name with
  | none => (.unknown, c)
  | some call =>
    match c.nest.withdraw call.frame call.ticket with
    | (nest, none) => (.dropped, { c with nest }.forget name)
    | (nest, some p) => (.panicked p, { c with nest }.forget name)

/-- Starts a call. A name stands for one call: one that is pending under it is dropped. -/
def start (c : Callers) (name : String) (call : Call) : Answer × Callers :=
  (c.drop name).2.ask name call

/-- Runs a step of the engine for the holder of a handle. -/
def onEngine (c : Callers) (engine : Engine) (s : Scripted.Step) :
    Scripted.Answer × List Scripted.LogEntry × Callers :=
  let (a, m) := ({ engine } : Scripted.Machine).perform s
  (a.getD .done, m.log, { c with engine := m.engine })

def withHandle (c : Callers) (name : String) (f : Handle → Answer × Callers) : Answer × Callers :=
  match c.held.lookup name with
  | none => (.unknown, c)
  | some h => f h

def popping (c : Callers) : Except ExecutionError (Nat × Nest) → Answer × Callers
  | .ok (id, nest) => (.frame id, { c with nest })
  | .error e => (.failed e, c)

/-- After the steps in a pushed frame: the frame goes first and its lease is given back
then, so that the lease cannot reach a caller parked on the frame. A frame that is not
innermost any more stays. -/
def leavePushed (c : Callers) (frame : Nat) (h : Handle) (a : Answer) : Answer × Callers :=
  (c.popping (c.nest.popFrame frame)).2.releasing h a

mutual
/-- The answers of a step, those of inner steps first, each with the state after it. -/
def step (c : Callers) : Step → List (Answer × Callers)
  | .push kind =>
    let (id, nest) := c.nest.push kind
    [(.frame id, { c with nest })]
  | .pop => [c.popping c.nest.pop]
  | .popFrame id => [c.popping (c.nest.popFrame id)]
  | .get name token forReading =>
    [c.start name { frame := c.nest.top, ticket := 0, token, forReading, follows := true }]
  | .take name frame token forReading =>
    if frame < c.nest.frames.length then
      [c.start name { frame, ticket := 0, token, forReading, follows := false }]
    else [(.unknown, c)]
  | .tryTake name frame forReading =>
    match c.nest.tryLease (frame.getD c.nest.top) forReading with
    | none => [(.nothing, c)]
    | some (h, nest) => [{ c with nest }.hold name h]
  | .poll name => [c.poll name]
  | .drop name => [c.drop name]
  | .cancel token => [(.done, { c with cancelled := token :: c.cancelled })]
  | .release name =>
    [c.withHandle name fun h =>
      { c with held := c.held.filter (·.1 != name) }.releasing h (.handle (c.nest.view h))]
  | .invoke name command addToHistory =>
    [c.withHandle name fun h =>
      let (a, log, c) := c.onEngine c.engine
        (.invoke command addToHistory (c.nest.info h.invoker))
      (.invoked a log, c)]
  | .readLine name line =>
    [c.withHandle name fun h =>
      let (a, _, c) := c.onEngine ((line.map c.engine.feed).getD c.engine)
        (.readLine line.isNone (c.nest.info h.invoker))
      (.invoked a [], c)]
  | .describeFrame frame => [(.text (c.nest.describeFrame (frame.getD c.nest.top)), c)]
  | .describeHandle name =>
    [c.withHandle name fun h => (.text (c.nest.describeHandle h), c)]
  | .runPushed kind inner panic =>
    let (id, nest) := c.nest.push kind
    match nest.tryLease id false with
    | none =>
      let (_, c) := { c with nest }.popping (nest.popFrame id)
      [(.failed (.invariantViolation .noHandle), c)]
    | some (h, nest) =>
      let answers := steps { c with nest } inner
      let last := (answers.getLast?.map Prod.snd).getD { c with nest }
      answers ++ [last.leavePushed id h (match panic with
        | some what => .panicked (.text what)
        | none => .handle (nest.view h))]

def steps (c : Callers) : List Step → List (Answer × Callers)
  | [] => []
  | s :: rest =>
    let answers := c.step s
    answers ++ steps ((answers.getLast?.map Prod.snd).getD c) rest
end

end Callers

end ScriptHost.Nest
