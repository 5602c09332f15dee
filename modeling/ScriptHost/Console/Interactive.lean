import ScriptHost.Console.Prompt
import ScriptHost.Service.Schedule

/-!
The interactive console. It reads a line through the service, runs it as a
command, and prompts again when the command has ended or is suspended in a
debugger stop or a nested prompt. Suspended commands are waited for once no loop
is open. Between two lines typed everything happens that can.
-/

namespace ScriptHost.Console

open Service

/-- What the console does: it is about to prompt, it reads, it waits for a command that was
started at `depth`, or it has ended. -/
inductive Mode where
  | ready
  | reading (thread : Nat)
  | waiting (thread depth : Nat)
  | ended (code : Nat)

/-- `suspended` is innermost first; `screen` and `errors` are what was shown and not yet
taken away. -/
structure Interactive where
  world : World
  subscriber : Nat
  mode : Mode
  suspended : List Nat := []
  screen : String := ""
  errors : String := ""

def lineOf : ConsoleEntry → String
  | .out line => line ++ "\n"
  | _ => ""

def errorLineOf : ConsoleEntry → String
  | .err line => line ++ "\n"
  | _ => ""

/-- The token that ends the prompt when the input ends. -/
def shutdownToken : Token := "shutdown"

namespace Interactive

def say (i : Interactive) (text : String) : Interactive :=
  { i with screen := i.screen ++ text }

def complain (i : Interactive) (text : String) : Interactive :=
  { i with errors := i.errors ++ text ++ "\n" }

/-- Lets everything happen that can, and shows what was written meanwhile. -/
def settle (i : Interactive) : Interactive :=
  let world := i.world.settle
  { i with
    world := { world with console := [] }
    screen := i.screen ++ String.join (world.console.map lineOf)
    errors := i.errors ++ String.join (world.console.map errorLineOf) }

def place (i : Interactive) : PromptPlace :=
  { depth := i.world.nest.depth
    inDebugger := i.world.hasLoop .debuggerStop
    remote := i.world.nest.topFrame.kind.remote }

/-- Shows the prompt and starts to read. -/
def prompt (i : Interactive) : Interactive :=
  match i.mode with
  | .ready =>
    let (thread, world) := i.world.spawn [.readTask (some shutdownToken) .checking]
    { i.say i.place.text with world, mode := .reading thread }.settle
  | _ => i

def reportError (i : Interactive) : ExecutionError → Interactive
  | .pipelineStopped => i.complain "The pipeline has been stopped."
  | e => i.complain e.message

def stopNotice (s : DebuggerStop) : String :=
  "Hit breakpoint at " ++ s.script.getD "<interactive>" ++ ":" ++ Decimal.naturalText s.line ++
    ":" ++ Decimal.naturalText s.column ++ "\n"

/-- The debugger stops among the events that came in since the last look. -/
def takeStops (i : Interactive) : List DebuggerStop × Interactive :=
  let (events, bus) := i.world.bus.drain i.subscriber
  (events.filterMap fun | .stop s => some s | _ => none, { i with world := { i.world with bus } })

def suspend (i : Interactive) (thread : Nat) : Interactive :=
  { i with suspended := thread :: i.suspended, mode := .ready }

/-- Waits for a command. It is done, or it stopped in the debugger, or it opened a nested
prompt; otherwise it keeps the console. -/
def await (i : Interactive) (thread depth : Nat) : Interactive :=
  let i := i.settle
  match i.world.result? thread with
  | some (.back (.reply (.ok _))) => { i with mode := .ready }
  | some (.back (.reply (.error e))) => { i with mode := .ready }.reportError e
  | some (.unwind p) =>
    { i with mode := .ready }.complain ("command task failed: " ++ p.message)
  | _ =>
    match i.takeStops with
    | (stop :: _, i) => (i.say (stopNotice stop)).suspend thread
    | ([], i) =>
      if i.world.hasLoop .nestedPrompt && depth < i.world.nest.depth then i.suspend thread
      else { i with mode := .waiting thread depth }

/-- Leaving a loop lets the commands that it suspended carry on. -/
def carryOn : Nat → Interactive → Interactive
  | 0, i => i
  | n + 1, i =>
    match i.mode, i.world.inLoop, i.suspended with
    | .ready, false, thread :: suspended =>
      carryOn n ({ i with suspended }.await thread i.world.nest.depth)
    | _, _, _ => i

/-- Ends the console: what is suspended is stopped. -/
def leave (i : Interactive) (code : Nat) : Interactive :=
  { i with world := i.world.dispose, mode := .ended code }.settle

def run (i : Interactive) (command : String) : Interactive :=
  let order : Order := { command := .ofScript command, options := .interactive }
  let (thread, world) := i.world.spawn [.exec order .checking]
  let i := { i with world }.await thread i.world.nest.depth
  (i.carryOn i.suspended.length).prompt

/-- Obeys a line: `exit` ends the console, unless a loop is open. -/
def obey (i : Interactive) (line : String) : Interactive :=
  let command := Text.trim line
  if command.isEmpty then i.prompt
  else if Text.sameLetters command "exit" && !i.world.inLoop then i.leave 0
  else i.run command

/-- Looks whether the line has been read. A prompt that was interrupted is shown again. -/
def listen (i : Interactive) : Interactive :=
  match i.mode with
  | .reading thread =>
    match i.world.result? thread with
    | some (.back (.line (.ok line))) => { i with mode := .ready }.obey line
    | some (.back (.line (.error .cancelled))) =>
      if i.world.isCancelled (some shutdownToken) then i.leave 0
      else { i.say "\n" with mode := .ready }.prompt
    | some (.back (.line (.error e))) =>
      { i with mode := .ended 1 }.complain ("Interactive mode failed: " ++ e.message)
    | _ => i
  | _ => i

/-- Starts the console on a service and shows the first prompt. -/
def start (world : World) : Interactive :=
  let (subscriber, bus) := world.bus.subscribe
  { world := { world with bus }, subscriber, mode := .ready : Interactive }.prompt

/-- A line is typed. A console that waits for a command or has ended does not hear it. -/
def type (i : Interactive) (line : String) : Interactive :=
  match i.mode with
  | .reading _ =>
    let engine := i.world.engine.feed line
    { i with world := { i.world with engine } }.settle.listen
  | _ => i

/-- The input ends. -/
def close (i : Interactive) : Interactive :=
  match i.mode with
  | .reading _ =>
    let cancelled := shutdownToken :: i.world.cancelled
    { i with world := { i.world with cancelled } }.settle.listen
  | _ => i

/-- The exit code, once the console has ended. -/
def code? (i : Interactive) : Option Nat :=
  match i.mode with
  | .ended code => some code
  | _ => none

/-- Takes away what the screen shows. -/
def takeScreen (i : Interactive) : String × Interactive :=
  (i.screen, { i with screen := "" })

/-- The screens that a user sees who types these lines and then ends the input: one before
each line and one at the end. -/
def screens (i : Interactive) : List String → List String × Interactive
  | [] =>
    let (now, i) := i.takeScreen
    let (last, i) := i.close.takeScreen
    ([now, last], i)
  | line :: lines =>
    let (now, i) := i.takeScreen
    let (rest, i) := (i.type line).screens lines
    (now :: rest, i)

end Interactive

end ScriptHost.Console
