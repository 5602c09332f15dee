import ScriptHost.Service.Invoking

/-!
Message loops. A debugger stop or a nested prompt keeps the thread of the engine
in a loop, which runs what other threads post to it until it is signalled. The
loop's frame is on the nest while the loop is registered. What was posted before
the loop left is still processed. A loop that leaves holds the list of loops from
its last look at what was posted until it is removed, and pops its frame meanwhile.
-/

namespace ScriptHost.Service

/-- Takes a posted request. One whose caller gave up is dropped; any other is run, and the
loop goes on with `next`. -/
def processRequest (w : World) (t : Thread) (rest : List Activation) (l : MessageLoop)
    (r : Request) (requests : List Request) (next : LoopPhase) : World × Thread :=
  let w := w.updateLoop l.id fun l => { l with requests }
  if w.isCancelled r.options.token then
    (w.setCell r.id .abandon, t.goOn (.loop l.id next :: rest))
  else
    runInLoop w t (.request r.id :: .loop l.id next :: rest) l
      { command := r.command, options := r.options }

/-- The action that a signal stands for in a debugger. -/
def Signal.action : Signal → ResumeAction
  | resume action => action
  | exitPrompt => .proceed

/-- Removes a loop and goes on without it. -/
def leaveLoop (w : World) (t : Thread) (rest : List Activation) (l : MessageLoop)
    (signal : Signal) : World × Thread :=
  match l.kind with
  | .debuggerStop => (w.closeLoop l, t.goOn (.loop l.id (.resuming signal.action) :: rest))
  | .nestedPrompt => (w.closeLoop l, t.give rest .unit)

/-- Queued work goes before a signal, but work that arrives while the loop waits is taken in
either order. -/
def openLoopMoves (w : World) (t : Thread) (rest : List Activation) (l : MessageLoop) :
    LoopPhase → Moves
  | .opening stop =>
    [(w.setSession .ready .stopped (some "debugger stopped"),
      t.goOn (.loop l.id (.announcing stop) :: rest))]
  | .announcing stop => [(w.publish (.stop stop), t.goOn (.loop l.id .pumping :: rest))]
  | .pumping =>
    match l.requests with
    | [] => [(w, t.goOn (.loop l.id .selecting :: rest))]
    | r :: requests => [processRequest w t rest l r requests .pumping]
  | .selecting =>
    (match l.requests with
      | [] => []
      | r :: requests => [processRequest w t rest l r requests .pumping]) ++
    (match l.signal with
      | none => []
      | some signal =>
        [(w.updateLoop l.id fun l => { l with signal := none },
          t.goOn (.loop l.id (.closing signal) :: rest))])
  | .closing signal =>
    [(w.interruptWhere (·.frame == l.frame), t.goOn (.loop l.id (.emptying signal) :: rest))]
  | .emptying signal =>
    match l.requests with
    | [] => [(w, t.goOn (.loop l.id (.leaving signal) :: rest))]
    | r :: requests => [processRequest w t rest l r requests (.emptying signal)]
  | .leaving signal =>
    if !l.requests.isEmpty then [(w, t.goOn (.loop l.id (.emptying signal) :: rest))]
    else if w.nest.top = l.frame then
      [(w.updateLoop l.id fun l => { l with leaving := true },
        t.goOn (.loop l.id (.popping signal) :: rest))]
    else [leaveLoop w t rest l signal]
  | .popping signal => [leaveLoop w.popTop t rest l signal]
  | .resuming _ => []

/-- A debugger that was told to stop leaves the session ready, any other running. -/
def resumeSession (w : World) (action : ResumeAction) : World :=
  if action = .stop then w.setSession .ready .aborted (some "debugger stopped execution")
  else w.setSession .running .notFinished none

def loopMoves (w : World) (t : Thread) (rest : List Activation) (id : Nat) (phase : LoopPhase) :
    Moves :=
  match phase with
  | .resuming action => [(resumeSession w action, t.give rest (.action action))]
  | phase =>
    match w.findLoop id with
    | some l => openLoopMoves w t rest l phase
    | none => []

end ScriptHost.Service
