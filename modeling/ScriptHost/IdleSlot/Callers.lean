import ScriptHost.IdleSlot
import ScriptHost.Nest.Callers

/-!
The callers of the idle slot, each polled by hand, over a nest and an engine. A
caller parks a request and leaves, or parks it and waits for the reply; a request
is run in a frame pushed for it. Calls and runs go on in beats, between which any
other caller, run or prompt may have its turn.
-/

namespace ScriptHost.IdleSlot

/-- How a request is run: it reports where it runs, is run by the engine, or ends in a way
given beforehand. -/
inductive Executor where
  | depth
  | invoke
  | canned (e : Ending)

structure Job where
  request : Request
  executor : Executor

/-- What a caller in the line wants the permit for: to park a request and leave, to empty the
slot, or to park a request and wait for its reply. -/
inductive Aim where
  | set (job : Job)
  | clear
  | exec (job : Job)

/-- The request that a caller in the line has with it. -/
def Aim.job? : Aim → Option Job
  | set job | exec job => some job
  | clear => none

/-- A pending call. It waits in the line for the permit; `checking` has parked its request and
looks next whether a prompt still reads, and `awaiting` waits for the reply. -/
inductive Call where
  | queued (ticket : Nat) (aim : Aim)
  | checking (id : Nat) (token : Option Token)
  | awaiting (id : Nat) (token : Option Token)

/-- What a request that leaves its frame has still to give up: the lease of the frame, or, if
that was not to be had, itself. -/
inductive Remnant where
  | lease (h : Handle)
  | request (job : Job)

/-- How far a request has come that was picked up: its frame is to be pushed, the frame's lease
to be taken, its executor is running. After that the frame is to be looked for, then to be
popped, then what remains to be given up. -/
inductive Active where
  | picked (job : Job)
  | entered (job : Job) (frame : Nat)
  | executing (job : Job) (h : Handle)
  | leaving (frame : Nat) (remnant : Remnant)
  | popping (frame : Nat) (remnant : Remnant)
  | gone (remnant : Remnant)
  | left

inductive Step where
  | set (name : String) (command : Command) (executor : Executor) (options : Options)
  | result (name : String)
  | dropResult (name : String)
  | clear (name : String)
  | exec (name : String) (command : Command) (executor : Executor) (options : Options)
  | poll (name : String)
  | drop (name : String)
  | cancel (token : Token)
  | idle
  | reader (on : Bool)
  | push (kind : FrameKind)
  | pop
  | unsubscribe

/-- What happens at once. The first three ask for the permit, and what a caller does then is
named by the caller; what an idle tick does is named by the request it picked up. -/
inductive Beat where
  | set (name : String) (command : Command) (executor : Executor) (options : Options)
  | clear (name : String)
  | exec (name : String) (command : Command) (executor : Executor) (options : Options)
  | grant (name : String)
  | check (name : String)
  | await (name : String)
  | giveUp (name : String)
  | drop (name : String)
  | result (name : String)
  | dropResult (name : String)
  | cancel (token : Token)
  | pick
  | enter (id : Nat)
  | lease (id : Nat)
  | reply (id : Nat)
  | leave (id : Nat)
  | popFrame (id : Nat)
  | giveBack (id : Nat)
  | free (id : Nat)
  | reader (on : Bool)
  | push (kind : FrameKind)
  | pop
  | unsubscribe

inductive Answer where
  | set
  | done
  | pending
  | unknown
  | dropped
  | reply (r : Reply)
  | reclaimed (command : Command) (options : Options)
  | failed (e : ExecutionError)
  | truth (b : Bool)

/-- `cells` holds the requester's side of every request ever made, named by its position, and
`running` the requests that were picked up and still have the permit. -/
structure Callers where
  slot : IdleSlot Job := {}
  running : List (Nat × Active) := []
  nest : Nest := .initial
  engine : Engine := {}
  cells : List Cell := []
  cancelled : List Token := []
  pending : List (String × Call) := []
  results : List (String × Nat) := []
  reader : Option Handle := none

namespace Callers

def isCancelled (c : Callers) (token : Option Token) : Bool :=
  token.any c.cancelled.contains

def forget (c : Callers) (name : String) : Callers :=
  { c with pending := c.pending.filter (·.1 != name) }

def keep (c : Callers) (name : String) (call : Call) : Callers :=
  { c.forget name with pending := (name, call) :: (c.forget name).pending }

def setPermit (c : Callers) (permit : Permit) : Callers :=
  { c with slot := c.slot.setPermit permit }

def setCell (c : Callers) (id : Nat) (f : Cell → Cell) : Callers :=
  { c with cells := c.cells.modify id f }

/-- How far the run of a request has come now. -/
def setActive (c : Callers) (id : Nat) (a : Active) : Callers :=
  { c with running := (id, a) :: c.running.filter (·.1 != id) }

/-- The request that would be made now. -/
def nextJob (c : Callers) (command : Command) (options : Options) (executor : Executor) : Job :=
  { request := { id := c.cells.length, command, options }, executor }

/-- Joins the line with a new request, or to empty the slot. -/
def join (c : Callers) (name : String) (aim : Aim) : Callers :=
  let (ticket, permit) := c.slot.permit.join
  { c.setPermit permit with
    cells := c.cells ++ aim.job?.toList.map fun _ => Cell.waiting }.keep name (.queued ticket aim)

/-- Parks a request; its caller has the permit. -/
def park (c : Callers) (job : Job) : Callers :=
  { c with
    slot := c.slot.park job.request.id job
    engine := if c.engine.idleSubscribed then c.engine else c.engine.subscribeIdle.2 }

/-- A caller that was given the permit does what it came for. -/
def granted (c : Callers) (name : String) : Aim → Answer × Callers
  | .set job => (.set, (c.park job).forget name)
  | .clear => (.set, { c with slot := c.slot.clear }.forget name)
  | .exec job =>
    (.pending, (c.park job).keep name (.checking job.request.id job.request.options.token))

/-- A caller leaves the line, and its request is dropped. -/
def leaveLine (c : Callers) (name : String) (ticket : Nat) (aim : Aim) : Callers :=
  let c := c.setPermit (c.slot.permit.withdraw ticket)
  (aim.job?.elim c fun job => c.setCell job.request.id .abandon).forget name

/-- A caller takes its request back, if that is still parked. -/
def takeBack (c : Callers) (name : String) (id : Nat) (answer : Job → Answer)
    (otherwise : Callers) : Answer × Callers :=
  match c.slot.reclaim id with
  | some (job, slot) => (answer job, ({ c with slot }.setCell id .abandon).forget name)
  | none => (.pending, otherwise)

/-- A caller has its turn, if it is pending. -/
def turn (c : Callers) (name : String) (f : Call → Answer × Callers) : Answer × Callers :=
  (c.pending.lookup name).elim (.unknown, c) f

def grant (c : Callers) (name : String) : Call → Answer × Callers
  | .queued ticket aim =>
    match c.slot.permit.look ticket with
    | some permit => (c.setPermit permit).granted name aim
    | none => (.pending, c)
  | _ => (.pending, c)

/-- After parking: when no prompt reads, the caller takes its request back. -/
def check (c : Callers) (name : String) : Call → Answer × Callers
  | .checking id token =>
    let waiting := c.keep name (.awaiting id token)
    if c.nest.topFrame.reading then (.pending, waiting)
    else
      c.takeBack name id (fun job => .reclaimed job.request.command job.request.options) waiting
  | _ => (.pending, c)

/-- Waits for the reply of a parked request. A cancelled caller takes its request back
unless it was picked up. -/
def await (c : Callers) (name : String) : Call → Answer × Callers
  | .awaiting id token =>
    match (c.cells[id]?.getD .dropped).poll with
    | some r => (.reply r, c.forget name)
    | none =>
      if c.isCancelled token then
        c.takeBack name id (fun _ => .reply (.error .cancelled)) c
      else (.pending, c)
  | _ => (.pending, c)

/-- An executing caller whose token was cancelled leaves the line. -/
def giveUp (c : Callers) (name : String) : Call → Answer × Callers
  | .queued ticket (.exec job) =>
    if c.isCancelled job.request.options.token then
      (.reply (.error .cancelled), c.leaveLine name ticket (.exec job))
    else (.pending, c)
  | _ => (.pending, c)

def drop (c : Callers) (name : String) : Call → Answer × Callers
  | .queued ticket aim => (.dropped, c.leaveLine name ticket aim)
  | _ => (.dropped, c.forget name)

/-- The engine runs a request on the frame of its lease. -/
def invocation (c : Callers) (r : Request) (h : Handle) :
    Option Scripted.Answer × Scripted.Machine :=
  ({ engine := c.engine } : Scripted.Machine).perform
    (.invoke r.command r.options.addToHistory (c.nest.info h.invoker))

/-- Runs a request through the handle of the frame pushed for it, to its end if it has one. -/
def execute (c : Callers) (job : Job) (h : Handle) : Option (Ending × Callers) :=
  match job.executor with
  | .canned e => some (e, c)
  | .depth =>
    some (.returned (.ok { output := [.int (Int64.ofNat (c.nest.frame h.frame).depth),
      .int (Int64.ofNat c.nest.depth), .bool c.nest.topFrame.isAvailable] }), c)
  | .invoke =>
    let c' := { c with engine := (c.invocation job.request h).2.engine }
    match (c.invocation job.request h).1 with
    | some (.output r) => some (.returned (r.mapError .ofEngine), c')
    | some (.panicked p) => some (.panicked p, c')
    | _ => none

/-- An idle tick picks up what is parked. -/
def pick (c : Callers) : Answer × Callers :=
  match c.slot.pickUp with
  | (none, _) => (.done, c)
  | (some (id, job), slot) => (.pending, { c with slot }.setActive id (.picked job))

def enter (c : Callers) (id : Nat) : Active → Callers
  | .picked job =>
    let (frame, nest) := c.nest.push .normal
    { c with nest }.setActive id (.entered job frame)
  | _ => c

/-- Takes the lease of the frame pushed for a request. Without it the request is not run. -/
def lease (c : Callers) (id : Nat) : Active → Callers
  | .entered job frame =>
    match c.nest.tryLease frame false with
    | some (h, nest) => { c with nest }.setActive id (.executing job h)
    | none => c.setActive id (.leaving frame (.request job))
  | _ => c

def reply (c : Callers) (id : Nat) : Active → Callers
  | .executing job h =>
    match c.execute job h with
    | some (ending, c) =>
      (c.setCell id (.deliver ending)).setActive id (.leaving h.frame (.lease h))
    | none => c
  | _ => c

/-- A frame is popped only if it is innermost. -/
def leave (c : Callers) (id : Nat) : Active → Callers
  | .leaving frame remnant =>
    c.setActive id (if c.nest.top = frame then .popping frame remnant else .gone remnant)
  | _ => c

/-- What is innermost by now is popped. -/
def popFrame (c : Callers) (id : Nat) : Active → Callers
  | .popping _ remnant => { c with nest := c.nest.popTop }.setActive id (.gone remnant)
  | _ => c

/-- The frame is gone before its lease is given back, so that nobody gets that lease. -/
def giveBack (c : Callers) (id : Nat) : Active → Callers
  | .gone (.lease h) => { c with nest := (c.nest.release h).1 }.setActive id .left
  | .gone (.request _) => (c.setCell id .abandon).setActive id .left
  | _ => c

def free (c : Callers) (id : Nat) : Active → Callers
  | .left => { c with slot := c.slot.release, running := c.running.filter (·.1 != id) }
  | _ => c

/-- The run of a request goes on, if it is still running. -/
def goOn (c : Callers) (id : Nat) (f : Active → Callers) : Callers :=
  (c.running.lookup id).elim c f

/-- Takes the innermost frame's lease for reading, or gives it up. -/
def setReader (c : Callers) (on : Bool) : Answer × Callers :=
  let taken := if on then c.nest.tryLease c.nest.top true else none
  let nest := (taken.map Prod.snd).getD c.nest
  let nest := (c.reader.map fun h => (nest.release h).1).getD nest
  (.truth taken.isSome, { c with nest, reader := taken.map Prod.fst })

def beat (c : Callers) : Beat → Answer × Callers
  | .set name command executor options =>
    let job := c.nextJob command options executor
    (.pending, { c with
      results := (name, job.request.id) :: c.results.filter (·.1 != name) }.join name (.set job))
  | .clear name => (.pending, c.join name .clear)
  | .exec name command executor options =>
    (.pending, c.join name (.exec (c.nextJob command options executor)))
  | .grant name => c.turn name (c.grant name)
  | .check name => c.turn name (c.check name)
  | .await name => c.turn name (c.await name)
  | .giveUp name => c.turn name (c.giveUp name)
  | .drop name => c.turn name (c.drop name)
  | .result name =>
    match c.results.lookup name with
    | none => (.unknown, c)
    | some id =>
      match (c.cells[id]?.getD .dropped).poll with
      | none => (.pending, c)
      | some r => (.reply r, { c with results := c.results.filter (·.1 != name) })
  | .dropResult name =>
    match c.results.lookup name with
    | none => (.unknown, c)
    | some _ => (.dropped, { c with results := c.results.filter (·.1 != name) })
  | .cancel token => (.done, { c with cancelled := token :: c.cancelled })
  | .pick => c.pick
  | .enter id => (.pending, c.goOn id (c.enter id))
  | .lease id => (.pending, c.goOn id (c.lease id))
  | .reply id => (.pending, c.goOn id (c.reply id))
  | .leave id => (.pending, c.goOn id (c.leave id))
  | .popFrame id => (.pending, c.goOn id (c.popFrame id))
  | .giveBack id => (.pending, c.goOn id (c.giveBack id))
  | .free id => (.done, c.goOn id (c.free id))
  | .reader on => c.setReader on
  | .push kind => (.done, { c with nest := (c.nest.push kind).2 })
  | .pop =>
    match c.nest.pop with
    | .ok (_, nest) => (.done, { c with nest })
    | .error e => (.failed e, c)
  | .unsubscribe => (.done, { c with engine := c.engine.unsubscribeIdle })

/-- Beats in a row, until one has an answer. -/
def beats (c : Callers) : List Beat → Answer × Callers
  | [] => (.pending, c)
  | b :: rest =>
    match c.beat b with
    | (.pending, c) => c.beats rest
    | answered => answered

/-- One poll of a pending call. -/
def polling (name : String) : List Beat :=
  [.grant name, .check name, .await name, .giveUp name]

/-- An idle tick: what is parked runs in a frame of its own, and then the permit is given
back. -/
def ticking (c : Callers) : List Beat :=
  .pick :: c.slot.parked.elim [] fun p =>
    [.enter p.1, .lease p.1, .reply p.1, .leave p.1, .popFrame p.1, .giveBack p.1, .free p.1]

/-- The beats of a step that nothing interrupts. Starting a call polls it once. -/
def beatsOf (c : Callers) : Step → List Beat
  | .set name command executor options =>
    .set name command executor options :: polling name
  | .clear name => .clear name :: polling name
  | .exec name command executor options =>
    .exec name command executor options :: polling name
  | .result name => [.result name]
  | .dropResult name => [.dropResult name]
  | .poll name => polling name
  | .drop name => [.drop name]
  | .cancel token => [.cancel token]
  | .idle => c.ticking
  | .reader on => [.reader on]
  | .push kind => [.push kind]
  | .pop => [.pop]
  | .unsubscribe => [.unsubscribe]

def step (c : Callers) (s : Step) : Answer × Callers :=
  c.beats (c.beatsOf s)

end Callers

end ScriptHost.IdleSlot
