import ScriptHost.Service.Step

/-!
One schedule among all that the steps of the service allow: the oldest thread that
can move goes first, until every thread waits or has ended. A call that returns
at once is run to its end before any other thread moves.
-/

namespace ScriptHost.Service.World

/-- Starts the service on an engine. An engine that cannot say which runspace it is in is
taken to be in a local one. -/
def start (config : Config) (engine : Engine) : Except ExecutionError World :=
  let operations := engine.version.operations
  let engine := operations.configure engine
  let subscribed := if engine.idleSubscribed then (.ok (), engine) else engine.subscribeIdle
  match subscribed with
  | (.error e, _) => .error (.ofEngine e)
  | (.ok (), engine) =>
    let (baseRunspace, engine) := match engine.details with
      | (.ok r, engine) => (r, engine)
      | (.error _, engine) => engine.freshRunspace .here .session
    .ok ({ config, operations, engine, baseRunspace : World }.setSession .ready .notFinished none)

/-- The first of the steps that thread `k` can take. -/
def step? (w : World) (k : Nat) : Option World :=
  if w.free k then (w.next k).head? else none

/-- A step of the oldest thread that can move. -/
def advance (w : World) : Option World :=
  (List.range w.threads.length).findSome? w.step?

/-- Takes steps until no thread can move, but at most `fuel`. -/
def settleWithin : Nat → World → World
  | 0, w => w
  | fuel + 1, w =>
    match w.advance with
    | some w => settleWithin fuel w
    | none => w

/-- Takes steps of thread `k` until it waits or has ended, but at most `fuel`. -/
def followWithin (k : Nat) : Nat → World → World
  | 0, w => w
  | fuel + 1, w =>
    match w.step? k with
    | some w => followWithin k fuel w
    | none => w

def stepLimit : Nat := 1000000

def settle (w : World) : World :=
  w.settleWithin stepLimit

/-- What thread `k` left behind, if it has ended. -/
def result? (w : World) (k : Nat) : Option Control :=
  w.threads[k]?.bind Thread.result?

/-- Runs an activation that never waits, on a thread of its own. -/
def call (w : World) (a : Activation) : Option Control × World :=
  let (k, w) := w.spawn [a]
  let w := w.followWithin k stepLimit
  (w.result? k, w)

def abort (w : World) : World :=
  (w.call (.abort .looking)).2

def dispose (w : World) : World :=
  (w.call (.dispose .marking)).2

/-- Whether a debugger was stopped and took the action. -/
def resume (w : World) (action : ResumeAction) : Bool × World :=
  w.signalInnermost .debuggerStop (.resume action)

/-- Whether a nested prompt was open and took the signal. -/
def exitPrompt (w : World) : Bool × World :=
  w.signalInnermost .nestedPrompt .exitPrompt

def pause (w : World) : World :=
  { w with engine := w.operations.pause w.engine }

def pushRunspace (w : World) (r : Runspace) : World :=
  (w.call (.pushRunspace r .looking)).2

def popRunspace (w : World) : Option Control × World :=
  w.call (.popRunspace none .checkingLength)

/-- Whether a debugger stop or a nested prompt holds the engine's thread. -/
def inLoop (w : World) : Bool :=
  !w.loops.isEmpty

end ScriptHost.Service.World
