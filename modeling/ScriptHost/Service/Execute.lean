import ScriptHost.Service.Invoking

/-!
The execution of an order. It takes one of four routes into the engine: an order
is posted to the innermost message loop, or run inline when its thread runs that
loop; it is parked in the idle slot while a prompt reads; or it waits for the
lease of the innermost frame and runs on a worker. An order that comes off its
route is routed again.
-/

namespace ScriptHost.Service

def ended (t : Thread) (rest : List Activation) (r : Reply) : Thread :=
  t.give rest (.reply r)

/-- The direct route. -/
def direct (t : Thread) (rest : List Activation) (o : Order) : Thread :=
  t.goOn (.getHandle o.options.token false .choosing :: .exec o .leasing :: rest)

/-- The route through the idle slot, unless the caller rather interrupts the prompt. -/
def throughIdle (t : Thread) (rest : List Activation) (o : Order) : Thread :=
  t.goOn (.exec o (if o.options.interruptPrompt then .interrupting else .acquiring) :: rest)

def routeMoves (w : World) (self : Nat) (t : Thread) (rest : List Activation) (o : Order) :
    Moves :=
  match w.loops with
  | [] => [(w, t.goOn (.exec o .checkingRemote :: rest))]
  | l :: _ =>
    if l.thread = self then [runInLoop w t (.exec o .inline :: rest) l o]
    else
      let (id, w) := w.newCell
      let r : Request := { id, command := o.command, options := o.options }
      [(w.updateLoop l.id fun l => { l with requests := l.requests ++ [r] },
        t.goOn (.exec o (.posted id) :: rest))]

/-- The reply of a request, once it is there. -/
def replyMoves (w : World) (t : Thread) (rest : List Activation) (id : Nat) : Moves :=
  match (w.cell id).poll with
  | some r => [(w, ended t rest r)]
  | none => []

/-- A caller takes the permit of the idle slot or joins its line; a cancelled caller may
leave instead. -/
def acquireMoves (w : World) (t : Thread) (rest : List Activation) (o : Order) : Moves :=
  let (id, w) := w.newCell
  (match w.slot.permit.acquire with
    | (none, permit) =>
      [({ w with slot := w.slot.setPermit permit }, t.goOn (.exec o (.subscribing id) :: rest))]
    | (some ticket, permit) =>
      [({ w with slot := w.slot.setPermit permit },
        t.goOn (.exec o (.queued ticket id) :: rest))]) ++
  (if w.isCancelled o.options.token then
    [(w.setCell id .abandon, ended t rest (.error .cancelled))] else [])

def queuedMoves (w : World) (t : Thread) (rest : List Activation) (o : Order)
    (ticket id : Nat) : Moves :=
  (match w.slot.permit.look ticket with
    | some permit =>
      [({ w with slot := w.slot.setPermit permit }, t.goOn (.exec o (.subscribing id) :: rest))]
    | none => []) ++
  (if w.isCancelled o.options.token then
    [({ w with slot := w.slot.setPermit (w.slot.permit.withdraw ticket) }.setCell id .abandon,
      ended t rest (.error .cancelled))] else [])

/-- A parked order waits for its reply. Cancelled before it was picked up, it is taken back. -/
def awaitMoves (w : World) (t : Thread) (rest : List Activation) (o : Order) (id : Nat) : Moves :=
  replyMoves w t rest id ++
  (if w.isCancelled o.options.token then
    match w.slot.reclaim id with
    | some (_, slot) =>
      [({ w with slot }.setCell id .abandon, ended t rest (.error .cancelled))]
    | none => []
  else [])

/-- The reply that a worker left behind. -/
def workerReply? : Control → Option Reply
  | .back (.reply r) => some r
  | .unwind p => some (.error (.panicked p.message))
  | _ => none

def joinMoves (w : World) (t : Thread) (rest : List Activation) (o : Order) (worker : Nat) :
    Moves :=
  match (w.threads[worker]?.bind Thread.result?).bind workerReply? with
  | none => []
  | some r =>
    if w.config.trackRunspaces then
      [(w, t.goOn (.track .polling :: .exec o (.finishing r) :: rest))]
    else [(w, ended t rest r)]

def execMoves (w : World) (self : Nat) (t : Thread) (rest : List Activation) (o : Order)
    (phase : ExecPhase) : Moves :=
  let go (phase : ExecPhase) := t.goOn (.exec o phase :: rest)
  match phase with
  | .checking =>
    [(w, if w.isDisposed then ended t rest (.error .disposed) else go .routing)]
  | .routing => routeMoves w self t rest o
  | .posted id =>
    replyMoves w t rest id ++
      if w.isCancelled o.options.token then [(w, ended t rest (.error .cancelled))] else []
  | .checkingRemote =>
    [(w, if w.config.idleInvocation && !w.nest.topFrame.kind.remote then go .checkingPrompt
      else direct t rest o)]
  | .checkingPrompt =>
    [(w, if w.nest.topFrame.reading then throughIdle t rest o else go .checkingFlight)]
  | .checkingFlight =>
    [(w, if w.slot.inFlight then throughIdle t rest o else direct t rest o)]
  | .interrupting => [(w.interruptInnermost, direct t rest o)]
  | .acquiring => acquireMoves w t rest o
  | .queued ticket id => queuedMoves w t rest o ticket id
  | .subscribing id =>
    [(if w.engine.idleSubscribed then w else { w with engine := w.engine.subscribeIdle.2 },
      go (.parking id))]
  | .parking id =>
    [({ w with slot := w.slot.park id { id, command := o.command, options := o.options } },
      go (.checkingReader id))]
  | .checkingReader id =>
    [(w, if w.nest.topFrame.reading then go (.awaiting id) else go (.reclaiming id))]
  | .reclaiming id =>
    match w.slot.reclaim id with
    | some (_, slot) => [({ w with slot }.setCell id .abandon, direct t rest o)]
    | none => [(w, go (.awaiting id))]
  | .awaiting id => awaitMoves w t rest o id
  | .checkingOwner h =>
    [(w, if w.ownsFrame h.frame then go (.rerouting h) else go (.checkingPopped h))]
  | .checkingPopped h =>
    [(w, if (w.nest.frame h.frame).isPopped then go (.rerouting h) else go (.refusing h))]
  | .refusing h =>
    [releaseThen w h (ended t rest (.error (.invariantViolation .unownedLoopFrame)))]
  | .rerouting h => [releaseThen w h (go .routing)]
  | .spawning h =>
    let (worker, w) := w.spawn [.starting h o]
    [(w, go (.joining worker))]
  | .joining worker => joinMoves w t rest o worker
  | .inline => []
  | .leasing => []
  | .finishing _ => []

/-- A lease on the frame of a message loop belongs to the thread of that loop. -/
def execReceive (w : World) (t : Thread) (rest : List Activation) (o : Order) :
    ExecPhase → Outcome → Moves
  | .inline, .reply r => [(w, ended t rest r)]
  | .leasing, .lease (.error e) => [(w, ended t rest (.error e))]
  | .leasing, .lease (.ok h) =>
    [(w, t.goOn (.exec o
      (if (w.nest.frame h.frame).kind.isLoop then .checkingOwner h else .spawning h) :: rest))]
  | .finishing r, .unit => [(w, ended t rest r)]
  | _, _ => []

end ScriptHost.Service
