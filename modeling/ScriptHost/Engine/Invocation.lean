import ScriptHost.Engine
import ScriptHost.Engine.Job
import ScriptHost.Request

/-!
One invocation of the engine, as a machine that can be left and resumed. The
machine evaluates the jobs of a command one after another, each fed with the
output of the one before. Whenever it needs the host it stops with a call, and
goes on when the host is done; in between the host may start further invocations.
Only the outermost invocation of a thread reports its state to the host.
-/

namespace ScriptHost

/-- What the engine asks of its host. -/
inductive HostCall where
  | stateChanged (state : InvocationState) (reason : Option String)
  | writeLine (line : String)
  | writeErrorLine (line : String)
  | debuggerStop (stop : DebuggerStop)
  | breakpointUpdated (update : BreakpointUpdate)
  | enterNestedPrompt
  | exitNestedPrompt
  | idle

abbrev Evaluation := Except EngineError (Output Value)

/-- Where an invocation stands. `stopped` waits for the debugger's resume action and
`prompting` has just come back from a nested prompt. -/
inductive Phase where
  | opening
  | evaluating
  | rendering (calls : List HostCall)
  | stopped
  | prompting
  | sleeping (milliseconds : Nat)
  | closing (result : Evaluation)
  | ending (result : Evaluation)

/-- An invocation in progress: what it was started with, the jobs to do, and the output and
errors so far. -/
structure Invocation where
  frame : FrameInfo
  text : String
  addToHistory : Bool
  outermost : Bool
  merge : Bool
  todo : List Job
  output : List Value := []
  errors : List String := []
  phase : Phase

/-- What an invocation does next. -/
inductive Move where
  | advance (i : Invocation)
  | call (c : HostCall) (i : Invocation)
  | sleep (milliseconds : Nat) (i : Invocation)
  | finish (result : Evaluation)
  | panic (p : Panic)

/-- The outcome of summing values. -/
inductive Sum where
  | total (n : Int64)
  | notAnInt (found : String)
  | overflow
  deriving DecidableEq, Repr

/-- Adds up integers in order, stopping at the first value that is none and at the first sum
that does not fit. -/
def sumFrom (acc : Int64) : List Value → Sum
  | [] => .total acc
  | .int n :: rest =>
    if Decimal.inWordRange (acc.toInt + n.toInt) then sumFrom (acc + n) rest else .overflow
  | v :: _ => .notAnInt v.typeName

namespace Invocation

def fail (i : Invocation) (e : EngineError) : Invocation :=
  { i with phase := .closing (.error e) }

/-- Goes on with the next job, which gets `output`. -/
def pass (i : Invocation) (output : List Value) : Invocation :=
  { i with output, phase := .evaluating }

/-- The first argument if it is an integer. -/
def leadingInt (arguments : List Value) : Int :=
  match arguments with
  | .int n :: _ => n.toInt
  | _ => 0

/-- A line number: a number of 32 bits, or zero. -/
def lineNumber (n : Int) : Nat :=
  if 0 ≤ n ∧ n < Int.pow 2 32 then n.toNat else 0

def renderCalls (i : Invocation) : List HostCall :=
  i.output.map (fun v => .writeLine v.text) ++
    if i.merge then i.errors.map .writeErrorLine else []

/-- Runs one command of the engine. -/
def runBuiltin (e : Engine) (i : Invocation) (b : Builtin) (arguments : List Value) :
    Engine × Move :=
  match b with
  | .echo => (e, .advance (i.pass (if arguments.isEmpty then i.output else arguments)))
  | .add =>
    match sumFrom 0 (arguments ++ i.output) with
    | .total n => (e, .advance (i.pass [.int n]))
    | .notAnInt found => (e, .advance (i.fail (.runtime ("cannot add a " ++ found ++ " value"))))
    | .overflow => (e, .panic .overflow)
  | .writeError =>
    (e, .advance { i with errors := i.errors ++ [Value.joined arguments], phase := .evaluating })
  | .throw =>
    let what := Value.joined arguments
    (e, .advance (i.fail (.runtime (if what.isEmpty then "ScriptHalted" else what))))
  | .sleep => (e, .advance { i with phase := .sleeping (leadingInt arguments).toNat })
  | .breakpoint =>
    (e, .call (.debuggerStop { script := arguments.head?.map Value.text })
      { i with phase := .stopped })
  | .setBreakpoint =>
    ({ e with nextBreakpoint := e.nextBreakpoint + 1 },
      .call (.breakpointUpdated
          { id := e.nextBreakpoint.toNat, kind := .set, script := none
            line := lineNumber (leadingInt arguments) })
        (i.pass [.int (Int64.ofNat e.nextBreakpoint.toNat)]))
  | .nested => (e, .call .enterNestedPrompt { i with phase := .prompting })
  | .exit => (e, .call .exitNestedPrompt (i.pass i.output))
  | .enterSession =>
    match arguments with
    | [] => (e, .advance (i.fail (.runtime "enter-pssession requires a computer name")))
    | computer :: _ => (e.enterSession computer.text, .advance (i.pass []))
  | .exitSession => (e.exitSession, .advance (i.pass []))
  | .dropSession => ({ e with transportBroken := true }, .advance (i.pass []))
  | .getHistory => (e, .advance (i.pass (e.history.map .str)))
  | .getDepth => (e, .advance (i.pass [.int (Value.clampToWord i.frame.depth)]))

def runJob (e : Engine) (i : Invocation) : Job → Engine × Move
  | .render => (e, .advance { i with output := [], phase := .rendering i.renderCalls })
  | .call name arguments =>
    match Builtin.ofName? name with
    | some b => i.runBuiltin e b arguments
    | none => (e, .advance (i.fail (unknownTerm name)))

/-- The state that the host is told at the end. -/
def finalCall : Evaluation → HostCall
  | .ok _ => .stateChanged .completed none
  | .error .pipelineStopped => .stateChanged .stopped none
  | .error e => .stateChanged .failed (some e.message)

def stopped? (e : Engine) (i : Invocation) (otherwise : Engine × Move) : Engine × Move :=
  if e.stopRequested then (e, .advance (i.fail .pipelineStopped)) else otherwise

/-- One step of an invocation. -/
def step (e : Engine) (i : Invocation) : Engine × Move :=
  match i.phase with
  | .opening => (e, .call (.stateChanged .running none) { i with phase := .evaluating })
  | .evaluating =>
    match i.todo with
    | [] =>
      let result := .ok { output := i.output, errors := i.errors }
      (e, .advance { i with phase := .closing result })
    | job :: todo => i.stopped? e (runJob e { i with todo } job)
  | .rendering [] => (e, .advance { i with phase := .evaluating })
  | .rendering (c :: calls) => (e, .call c { i with phase := .rendering calls })
  | .stopped => (e, .advance i)
  | .prompting => i.stopped? e (e, .advance (i.pass i.output))
  | .sleeping ms => i.stopped? e (e, .sleep ms (i.pass i.output))
  | .closing result =>
    let e := if i.addToHistory then { e with history := e.history ++ [i.text] } else e
    if i.outermost then
      ({ e with active := e.active - 1 },
        .call (finalCall result) { i with phase := .ending result })
    else (e, .advance { i with phase := .ending result })
  | .ending result => (e.record i.frame (.finished i.text), .finish result)

/-- The debugger's answer to a stop. -/
def resume (e : Engine) (i : Invocation) (action : ResumeAction) : Engine × Invocation :=
  (e.record i.frame (.resumed action),
    if action = .stop then i.fail .pipelineStopped else i.pass i.output)

end Invocation

namespace Engine

/-- Starts an invocation. The outermost one of a thread clears an old request to stop. -/
def invoke (e : Engine) (frame : FrameInfo) (c : Command) (addToHistory outermost : Bool) :
    Engine × Invocation :=
  let text := c.visibleText
  let e := e.record frame (.started text)
  let e := if outermost then
      { e with stopRequested := false, active := e.active + 1, peak := max e.peak (e.active + 1) }
    else e
  (e, { frame, text, addToHistory, outermost, merge := c.mergesErrors, todo := c.jobs
        phase := if outermost then .opening else .evaluating })

end Engine

/-- What a command did in a stopped debugger: its output, and how to resume if the command
said so. -/
structure DebuggerResult where
  output : Output Value := {}
  resume : Option ResumeAction := none

/-- The instructions of the debugger. -/
def ResumeAction.ofText? (text : String) : Option ResumeAction :=
  match Text.lower (Text.trim text) with
  | "c" => some proceed
  | "continue" => some proceed
  | "s" => some stepInto
  | "stepinto" => some stepInto
  | "v" => some stepOver
  | "stepover" => some stepOver
  | "o" => some stepOut
  | "stepout" => some stepOut
  | "q" => some stop
  | "quit" => some stop
  | _ => none

/-- A command for a stopped debugger is an instruction, or a command to invoke. -/
inductive DebuggerMove where
  | resume (action : ResumeAction)
  | invocation (i : Invocation)

def Engine.debuggerCommand (e : Engine) (frame : FrameInfo) (c : Command) (outermost : Bool) :
    Engine × DebuggerMove :=
  let e := e.record frame (.debuggerCommand c.visibleText)
  match ResumeAction.ofText? c.visibleText with
  | some action => (e, .resume action)
  | none =>
    let (e, i) := e.invoke frame c false outermost
    (e, .invocation i)

end ScriptHost
