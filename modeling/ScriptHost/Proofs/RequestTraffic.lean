import ScriptHost.Proofs.Turns

/-!
How orders travel. Every move of a thread is one of a few kinds, told apart by what they
do to the requests on their way, to the message loops and to the order that an execution
still has in hand. All other moves are quiet: they leave these alone and only replace the
innermost activation. What is proved later about requests is proved about these kinds.
-/

namespace ScriptHost.Service

/-- The request that an execution has made and names. -/
def ExecPhase.request? : ExecPhase → Option Nat
  | posted id | queued _ id | subscribing id | parking id | checkingReader id | reclaiming id
  | awaiting id => some id
  | _ => none

/-- Whether the order is still with the execution itself, and not on a route or past it. -/
def ExecPhase.owns : ExecPhase → Bool
  | posted _ | inline | checkingReader _ | reclaiming _ | awaiting _ | joining _
  | finishing _ => false
  | _ => true

/-- The signal with which a loop parts, and whether it has locked the list of loops. -/
def LoopPhase.parting? : LoopPhase → Option (Signal × Bool)
  | closing signal | emptying signal | leaving signal => some (signal, false)
  | popping signal => some (signal, true)
  | _ => none

/-- The signal that a loop has taken. -/
def LoopPhase.taken? (phase : LoopPhase) : Option Signal :=
  phase.parting?.map Prod.fst

/-- Whether the loop is registered. -/
def LoopPhase.pumps : LoopPhase → Bool
  | resuming _ => false
  | _ => true

/-- Activations that have no part in how orders travel. -/
def Activation.plain : Activation → Bool
  | .loop _ _ | .request _ | .entering _ _ | .exec _ _ | .starting _ _ | .leased _
  | .inLoop _ _ => false
  | _ => true

/-- What threads share to pass orders on to each other. -/
structure Exchange where
  cells : List Cell
  loops : List MessageLoop
  nextLoop : Nat
  parked : Option (Nat × Request)
  threads : List Thread
  cancelled : List Token

namespace Exchange

def cell (x : Exchange) (id : Nat) : Cell :=
  x.cells[id]?.getD .dropped

def findLoop (x : Exchange) (id : Nat) : Option MessageLoop :=
  x.loops.find? (·.id == id)

def updateLoop (x : Exchange) (id : Nat) (f : MessageLoop → MessageLoop) : Exchange :=
  { x with loops := x.loops.map fun l => if l.id == id then f l else l }

def setCell (x : Exchange) (id : Nat) (f : Cell → Cell) : Exchange :=
  { x with cells := x.cells.modify id f }

/-- Whether a thread that leaves its loop holds the lock of the list of loops. -/
def loopsHeld (x : Exchange) : Bool :=
  x.loops.any (·.leaving)

def newCell (x : Exchange) : Exchange :=
  { x with cells := x.cells ++ [.waiting] }

def spawn (x : Exchange) (a : Activation) : Exchange :=
  { x with threads := x.threads ++ [{ stack := [a] }] }

end Exchange

def World.exchange (w : World) : Exchange :=
  { cells := w.cells, loops := w.loops, nextLoop := w.nextLoop, parked := w.slot.parked
    threads := w.threads, cancelled := w.cancelled }

/-- What a thread begins with when it runs an order in a message loop: the order is refused,
waits for a frame of its own, or was given to the engine. -/
inductive Begins (o : Order) : List Activation → Control → Prop
  | refused (e : ExecutionError) : Begins o [] (.back (.reply (.error e)))
  | entering : Begins o [.entering .pushing (.order o)] .go
  | handed (above : List Activation) (loop : Nat) (control : Control)
      (habove : above.all Activation.plain) :
      Begins o (above ++ [.inLoop loop o.options]) control

/-- Moves of a stack that leave the orders where they are. -/
inductive Still : List Activation → List Activation → Prop
  | plain (a : Activation) (top rest : List Activation) (ha : a.plain)
      (htop : top.all Activation.plain) : Still (a :: rest) (top ++ rest)
  | ended (a : Activation) (rest : List Activation) (hrequest : ∀ id, a ≠ .request id)
      (hentering : ∀ frame work, a ≠ .entering frame work)
      (hexec : ∀ o phase, a ≠ .exec o phase) (hstarting : ∀ h o, a ≠ .starting h o) :
      Still (a :: rest) rest
  | exec (o : Order) (phase phase' : ExecPhase) (above rest : List Activation)
      (habove : above.all Activation.plain) (hphase : phase.owns ∨ phase.request?.isSome)
      (howns : phase'.owns = phase.owns) (hrequest : phase'.request? = phase.request?) :
      Still (.exec o phase :: rest) (above ++ .exec o phase' :: rest)
  | loop (id : Nat) (phase phase' : LoopPhase) (rest : List Activation)
      (hpumps : phase'.pumps = phase.pumps) (hparting : phase'.parting? = phase.parting?) :
      Still (.loop id phase :: rest) (.loop id phase' :: rest)
  | entering (phase phase' : EnterPhase) (work : PushedWork) (rest : List Activation) :
      Still (.entering phase work :: rest) (.entering phase' work :: rest)

/-- How an execution can come to its reply: from its request, from the order it ran inline,
from its worker, or as the reply it kept. -/
inductive Answers (x : Exchange) (control : Control) : ExecPhase → Reply → Prop
  | request (phase : ExecPhase) (id : Nat) (r : Reply) (hid : phase.request? = some id)
      (hr : (x.cell id).poll = some r) : Answers x control phase r
  | inline (r : Reply) (hr : control = .back (.reply r)) : Answers x control .inline r
  | worker (k : Nat) (r : Reply)
      (hr : (x.threads[k]?.bind Thread.result?).bind workerReply? = some r) :
      Answers x control (.joining k) r
  | kept (r : Reply) : Answers x control (.finishing r) r

/-- The kinds of moves: how a thread goes from one control and stack to another, and the
exchange that it leaves. -/
inductive Traffic (x : Exchange) :
    Control → List Activation → Exchange → Control → List Activation → Prop
  | quiet {c c' : Control} {s s' : List Activation} (h : Still s s') : Traffic x c s x c' s'
  | spawnedReader {c c' : Control} {s s' : List Activation} (handle : Handle) (read : Nat)
      (h : Still s s') (hs : ∃ token phase rest, s = .readTask token phase :: rest) :
      Traffic x c s (x.spawn (.readWorker handle read .starting)) c' s'
  | spawned {c c' : Control} (o : Order) (h : Handle) (rest : List Activation) :
      Traffic x c (.exec o (.spawning h) :: rest) (x.spawn (.starting h o))
        c' (.exec o (.joining x.threads.length) :: rest)
  | answered {c : Control} (o : Order) (phase : ExecPhase) (r : Reply) (rest : List Activation)
      (h : Answers x c phase r) : Traffic x c (.exec o phase :: rest) x (.back (.reply r)) rest
  | failed {c c' : Control} (o : Order) (phase : ExecPhase) (rest : List Activation)
      (h : ∀ output, c' ≠ .back (.reply (.ok output))) :
      Traffic x c (.exec o phase :: rest) x c' rest
  | joined {c c' : Control} (o : Order) (worker : Nat) (r : Reply) (above rest : List Activation)
      (habove : above.all Activation.plain) (h : Answers x c (.joining worker) r) :
      Traffic x c (.exec o (.joining worker) :: rest) x
        c' (above ++ .exec o (.finishing r) :: rest)
  | reentered {c c' : Control} (o : Order) (a : Activation) (top rest : List Activation)
      (ha : a.plain) (htop : top.all Activation.plain) :
      Traffic x c (a :: rest) x c' (.exec o .checking :: (top ++ rest))
  | inlined {c c' : Control} (o : Order) (above rest : List Activation) (h : Begins o above c') :
      Traffic x c (.exec o .routing :: rest) x c' (above ++ .exec o .inline :: rest)
  | posted {c' : Control} (o : Order) (l : MessageLoop) (rest : List Activation)
      (hl : l ∈ x.loops) :
      Traffic x .go (.exec o .routing :: rest)
        (x.newCell.updateLoop l.id fun l =>
          { l with requests := l.requests ++ [o.toRequest x.cells.length] })
        c' (.exec o (.posted x.cells.length) :: rest)
  | acquired {c c' : Control} (o : Order) (phase : ExecPhase) (rest : List Activation)
      (howns : phase.owns) (hrequest : phase.request? = some x.cells.length) :
      Traffic x c (.exec o .acquiring :: rest) x.newCell c' (.exec o phase :: rest)
  | turnedAway {c : Control} (o : Order) (rest : List Activation) :
      Traffic x c (.exec o .acquiring :: rest) (x.newCell.setCell x.cells.length .abandon)
        (.back (.reply (.error .cancelled))) rest
  | gaveUp {c : Control} (o : Order) (ticket id : Nat) (rest : List Activation) :
      Traffic x c (.exec o (.queued ticket id) :: rest) (x.setCell id .abandon)
        (.back (.reply (.error .cancelled))) rest
  | parked {c c' : Control} (o : Order) (id : Nat) (rest : List Activation) :
      Traffic x c (.exec o (.parking id) :: rest) { x with parked := some (id, o.toRequest id) }
        c' (.exec o (.checkingReader id) :: rest)
  | reclaimed {c c' : Control} (o : Order) (id : Nat) (r : Request) (above rest : List Activation)
      (hparked : x.parked = some (id, r)) (habove : above.all Activation.plain) :
      Traffic x c (.exec o (.reclaiming id) :: rest)
        { x.setCell id .abandon with parked := none } c' (above ++ .exec o .leasing :: rest)
  | withdrawn {c : Control} (o : Order) (id : Nat) (r : Request) (rest : List Activation)
      (hparked : x.parked = some (id, r)) :
      Traffic x c (.exec o (.awaiting id) :: rest)
        { x.setCell id .abandon with parked := none } (.back (.reply (.error .cancelled))) rest
  | pickedUp {c c' : Control} (id : Nat) (r : Request) (a : Activation)
      (top rest : List Activation) (hparked : x.parked = some (id, r)) (ha : a.plain)
      (htop : top.all Activation.plain) :
      Traffic x c (a :: rest) { x with parked := none }
        c' (.entering .pushing (.request r) :: (top ++ rest))
  | failedRequest {c : Control} (r : Request) (rest : List Activation) :
      Traffic x c (.entering .refusing (.request r) :: rest) (x.setCell r.id .abandon)
        (.back .unit) rest
  | failedOrder {c : Control} (o : Order) (e : ExecutionError) (rest : List Activation) :
      Traffic x c (.entering .refusing (.order o) :: rest) x (.back (.reply (.error e))) rest
  | lost {c : Control} (phase : EnterPhase) (work : PushedWork) (p : Panic)
      (rest : List Activation) : Traffic x c (.entering phase work :: rest) x (.unwind p) rest
  | enteredRequest {c c' : Control} (frame : Nat) (h : Handle) (r : Request)
      (above rest : List Activation) (habove : above.all Activation.plain) :
      Traffic x c (.entering (.leasing frame) (.request r) :: rest) x
        c' (above ++ .leased r.options :: .request r.id :: .pushed frame h .looking :: rest)
  | enteredOrder {c c' : Control} (frame : Nat) (h : Handle) (o : Order)
      (above rest : List Activation) (habove : above.all Activation.plain) :
      Traffic x c (.entering (.leasing frame) (.order o) :: rest) x
        c' (above ++ .leased o.options :: .pushed frame h .looking :: rest)
  | started {c c' : Control} (h : Handle) (o : Order) (above rest : List Activation)
      (habove : above.all Activation.plain) :
      Traffic x c (.starting h o :: rest) x
        c' (above ++ .leased o.options :: .worker h :: rest)
  | unstarted {c : Control} (h : Handle) (o : Order) (p : Panic) (rest : List Activation) :
      Traffic x c (.starting h o :: rest) x (.unwind p) rest
  | returned (r : Reply) (id : Nat) (rest : List Activation) :
      Traffic x (.back (.reply r)) (.request id :: rest)
        (x.setCell id (.deliver (.returned r))) (.back .unit) rest
  | caught (p : Panic) (id : Nat) (rest : List Activation) :
      Traffic x (.unwind p) (.request id :: rest)
        (x.setCell id (.deliver (.panicked p))) (.back .unit) rest
  | opened {c c' : Control} (l : MessageLoop) (phase : LoopPhase) (a : Activation)
      (top rest : List Activation) (hid : l.id = x.nextLoop) (hrequests : l.requests = [])
      (hsignal : l.signal = none) (hpumps : phase.pumps) (hparting : phase.parting? = none)
      (ha : a.plain) (htop : top.all Activation.plain) :
      Traffic x c (a :: rest) { x with loops := l :: x.loops, nextLoop := x.nextLoop + 1 }
        c' (.loop l.id phase :: (top ++ rest))
  | signalled {c c' : Control} {s s' : List Activation} (l : MessageLoop) (signal : Signal)
      (hl : x.findLoop l.id = some l) (hsignal : l.signal = none) (h : Still s s') :
      Traffic x c s (x.updateLoop l.id fun l => { l with signal := some signal }) c' s'
  | consumed {c c' : Control} (l : MessageLoop) (signal : Signal) (rest : List Activation)
      (hl : x.findLoop l.id = some l) (hsignal : l.signal = some signal) :
      Traffic x c (.loop l.id .selecting :: rest)
        (x.updateLoop l.id fun l => { l with signal := none })
        c' (.loop l.id (.closing signal) :: rest)
  | skipped {c c' : Control} (l : MessageLoop) (r : Request) (requests : List Request)
      (phase phase' : LoopPhase) (rest : List Activation) (hl : x.findLoop l.id = some l)
      (hr : l.requests = r :: requests)
      (hcancelled : r.options.token.any x.cancelled.contains = true)
      (hpumps : phase.pumps ∧ phase'.pumps) (hparting : phase'.parting? = phase.parting?) :
      Traffic x c (.loop l.id phase :: rest)
        ((x.updateLoop l.id fun l => { l with requests }).setCell r.id .abandon)
        c' (.loop l.id phase' :: rest)
  | taken {c c' : Control} (l : MessageLoop) (r : Request) (requests : List Request)
      (phase phase' : LoopPhase) (above rest : List Activation)
      (hl : x.findLoop l.id = some l) (hr : l.requests = r :: requests)
      (hcancelled : r.options.token.any x.cancelled.contains = false)
      (hpumps : phase.pumps ∧ phase'.pumps) (hparting : phase'.parting? = phase.parting?)
      (h : Begins (.ofRequest r) above c') :
      Traffic x c (.loop l.id phase :: rest) (x.updateLoop l.id fun l => { l with requests })
        c' (above ++ .request r.id :: .loop l.id phase' :: rest)
  | locked {c c' : Control} (l : MessageLoop) (signal : Signal) (rest : List Activation)
      (hl : x.findLoop l.id = some l) (hr : l.requests = []) :
      Traffic x c (.loop l.id (.leaving signal) :: rest)
        (x.updateLoop l.id fun l => { l with leaving := true })
        c' (.loop l.id (.popping signal) :: rest)
  | closed {c c' : Control} (l : MessageLoop) (signal : Signal) (phase : LoopPhase)
      (above rest : List Activation) (hl : x.findLoop l.id = some l)
      (hphase : phase = .leaving signal ∧ l.requests = [] ∨ phase = .popping signal)
      (habove : above = [] ∨ ∃ action, above = [.loop l.id (.resuming action)]) :
      Traffic x c (.loop l.id phase :: rest)
        { x with loops := x.loops.filter (·.id != l.id) } c' (above ++ rest)

/-- The threads that a move starts: a worker for an order, or a worker for a prompt. -/
theorem Traffic.threads_eq {x x' : Exchange} {c c' : Control} {s s' : List Activation}
    (h : Traffic x c s x' c' s') :
    ∃ new, x'.threads = x.threads ++ new ∧
      (new = [] ∨ (∃ handle read, new = [{ stack := [.readWorker handle read .starting] }]) ∨
        ∃ handle o, new = [{ stack := [.starting handle o] }]) := by
  cases h with
  | spawnedReader handle read h => exact ⟨_, rfl, Or.inr (Or.inl ⟨handle, read, rfl⟩)⟩
  | spawned o h rest => exact ⟨_, rfl, Or.inr (Or.inr ⟨h, o, rfl⟩)⟩
  | _ => exact ⟨[], (List.append_nil _).symm, Or.inl rfl⟩

/-- The next step of a thread looks for the loop to which it posts its order. -/
def Routes (c : Control) (s : List Activation) : Prop :=
  c = .go ∧ ∃ o rest, s = .exec o .routing :: rest

namespace Exchange

def setThread (x : Exchange) (k : Nat) (t : Thread) : Exchange :=
  { x with threads := x.threads.set k t }

/-- The steps of an exchange, by one of its threads or by a client. -/
inductive Next (x : Exchange) : Option Nat → Exchange → Prop
  | move {k : Nat} {t t' : Thread} {x' : Exchange} (ht : x.threads[k]? = some t)
      (hfree : x.loopsHeld = true → ¬Routes t.control t.stack)
      (h : Traffic x t.control t.stack x' t'.control t'.stack) :
      Next x (some k) (x'.setThread k t')
  | called {a : Activation} (h : Entry a) : Next x none (x.spawn a)
  | told (tokens : List Token) : Next x none { x with cancelled := tokens }
  | signalled (l : MessageLoop) (signal : Signal) (hl : x.findLoop l.id = some l)
      (hsignal : l.signal = none) :
      Next x none (x.updateLoop l.id fun l => { l with signal := some signal })
  | dropped {k : Nat} {t : Thread} (ht : x.threads[k]? = some t) (hs : Suspended t.stack)
      (hcontrol : t.control = .go) (t' : Thread) (hs' : t'.stack = [])
      (hcontrol' : t'.control = .dropped) : Next x none (x.setThread k t')
  | leftLine {k : Nat} {t : Thread} {o : Order} {ticket id : Nat} (ht : x.threads[k]? = some t)
      (hs : t.stack = [.exec o (.queued ticket id)]) (t' : Thread) (hs' : t'.stack = [])
      (hcontrol' : t'.control = .dropped) :
      Next x none ((x.setCell id .abandon).setThread k t')
  | returned {k : Nat} {t : Thread} (ht : x.threads[k]? = some t) (hs : t.stack = [])
      (t' : Thread) (hs' : t'.stack = []) (hcontrol' : t'.control = .dropped) :
      Next x none (x.setThread k t')

end Exchange

end ScriptHost.Service
