import ScriptHost.Service.World

/-!
Stopping what runs. An abort ends the running command, or the debugger stop it is
in, and interrupts a prompt that reads. Disposing of the service ends everything
and is final.
-/

namespace ScriptHost.Service

def abortMoves (w : World) (t : Thread) (rest : List Activation) (phase : AbortPhase) : Moves :=
  let go (phase : AbortPhase) := t.goOn (.abort phase :: rest)
  match phase with
  | .looking =>
    match w.session.state with
    | .aborting => [(w, t.give rest .unit)]
    | .disposed => [(w, t.give rest .unit)]
    | state => [(w, go (.checkingDebugger state))]
  | .checkingDebugger state =>
    let inDebugger := w.hasLoop .debuggerStop
    [(w, go (if state = .running || inDebugger then .marking inDebugger else .checkingReader))]
  | .marking inDebugger =>
    [(w.setSession .aborting .notFinished (some "execution aborted"), go (.stopping inDebugger))]
  | .stopping true =>
    [({ w with engine := w.operations.stopCommand w.engine },
      go (.signalling .debuggerStop (.resume .stop)))]
  | .stopping false => [({ w with engine := w.engine.stop }, go .checkingPrompt)]
  | .checkingPrompt =>
    [(w, go (if w.hasLoop .nestedPrompt then .signalling .nestedPrompt .exitPrompt
      else .checkingReader))]
  | .signalling kind signal => [((w.signalInnermost kind signal).2, go .checkingReader)]
  | .checkingReader =>
    [(w, if w.nest.topFrame.reading then go .interrupting else t.give rest .unit)]
  | .interrupting => [(w.interruptInnermost, t.give rest .unit)]

/-- The signal that makes a loop give up. -/
def LoopKind.lastSignal : LoopKind → Signal
  | debuggerStop => .resume .stop
  | nestedPrompt => .exitPrompt

def disposeMoves (w : World) (t : Thread) (rest : List Activation) (phase : DisposePhase) :
    Moves :=
  let go (phase : DisposePhase) := t.goOn (.dispose phase :: rest)
  match phase with
  | .marking => [(w.setSession .disposed .notFinished (some "disposed"), go .listing)]
  | .listing => [(w, go (.signalling (w.loops.map fun l => (l.id, l.kind))))]
  | .signalling [] => [(w, go .stopping)]
  | .signalling ((id, kind) :: loops) =>
    [((w.signalLoop id kind.lastSignal).2, go (.signalling loops))]
  | .stopping => [({ w with engine := w.engine.stop }, go .interrupting)]
  | .interrupting => [(w.interruptWhere fun _ => true, t.give rest .unit)]

end ScriptHost.Service
