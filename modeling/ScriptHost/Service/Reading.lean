import ScriptHost.Service.Invoking

/-!
Reading a line at the prompt. The reader holds the lease of its frame, and its
frame is marked, while it waits for input. On an idle tick it runs what is parked
in the idle slot; what is still parked when it ends runs before the lease goes
back.
-/

namespace ScriptHost.Service

def readTaskMoves (w : World) (t : Thread) (rest : List Activation) (token : Option Token)
    (phase : ReadTaskPhase) : Moves :=
  match phase with
  | .checking =>
    if w.isDisposed then [(w, t.give rest (.line (.error .disposed)))]
    else [(w, t.goOn (.getHandle token true .choosing :: .readTask token .leasing :: rest))]
  | .leasing => []
  | .registering h =>
    let (read, w) := w.registerRead h.frame token
    [(w, t.goOn (.readTask token (.spawning h read) :: rest))]
  | .spawning h read =>
    let (worker, w) := w.spawn [.readWorker h read .starting]
    [(w, t.goOn (.readTask token (.joining worker) :: rest))]
  | .joining worker =>
    match w.threads[worker]?.bind Thread.result? with
    | some (.back (.read r)) => [(w, t.give rest (.line (r.mapError .ofEngine)))]
    | some (.unwind p) => [(w, t.give rest (.line (.error (.panicked p.message))))]
    | _ => []

def readTaskReceive (w : World) (t : Thread) (rest : List Activation) (token : Option Token) :
    ReadTaskPhase → Outcome → Moves
  | .leasing, .lease (.ok h) => [(w, t.goOn (.readTask token (.registering h) :: rest))]
  | .leasing, .lease (.error e) => [(w, t.give rest (.line (.error e)))]
  | _, _ => []

/-- A line that is there is taken. An idle tick is worth a step only if the read was
cancelled or a request is parked; after it the reader looks at its token. -/
def readingMoves (w : World) (t : Thread) (rest : List Activation) (read : Nat)
    (waiting : Bool) : Moves :=
  if waiting then
    (match w.engine.input with
      | line :: input =>
        [({ w with engine := { w.engine with input } }, t.give rest (.read (.ok line)))]
      | [] => []) ++
    (if w.ticks && (w.isReadCancelled read || (w.engine.idleSubscribed && w.slot.parked.isSome))
      then
        let looking := .reading read false :: rest
        [if w.engine.idleSubscribed then runParked w t looking else (w, t.goOn looking)]
      else [])
  else if w.isReadCancelled read then [(w, t.give rest (.read (.error .cancelled)))]
  else [(w, t.goOn (.reading read true :: rest))]

def readWorkerMoves (w : World) (t : Thread) (rest : List Activation) (h : Handle) (read : Nat)
    (phase : ReadWorkerPhase) : Moves :=
  let go (phase : ReadWorkerPhase) := t.goOn (.readWorker h read phase :: rest)
  match phase with
  | .starting =>
    match w.engine.takeFault .readLine with
    | some (e, engine) => [({ w with engine }, go (.ending (.error e)))]
    | none =>
      [({ w with engine := w.engine.record (w.nest.info h.invoker) .readLine },
        t.goOn (.reading read false :: .readWorker h read .reading :: rest))]
  | .reading => []
  | .ending r => [({ w with nest := w.nest.endReading h }, go (.draining r))]
  | .draining r => [runParked w t (.readWorker h read (.drained r) :: rest)]
  | .drained r => [(w.unregisterRead read, go (.releasing r))]
  | .releasing r => [releaseThen w h (t.give rest (.read r))]

def readWorkerReceive (w : World) (t : Thread) (rest : List Activation) (h : Handle)
    (read : Nat) : ReadWorkerPhase → Outcome → Moves
  | .reading, .read r => [(w, t.goOn (.readWorker h read (.ending r) :: rest))]
  | .drained r, .unit => [(w, t.goOn (.readWorker h read (.drained r) :: rest))]
  | _, _ => []

end ScriptHost.Service
