import ScriptHost.Console.Arguments
import ScriptHost.Console.Interactive

/-!
The console as a program: what its words make it do, what it writes, and how it
exits.
-/

namespace ScriptHost.Console

def versionText : String :=
  "pses-host 0.1.0\n"

def helpText : String :=
  "Interactive console on top of the pipeline execution service\n\n" ++
  "Usage: pses-host [OPTIONS]\n\n" ++
  "Options:\n" ++
  "      --engine-version <ENGINE_VERSION>  Engine version (major.minor) [default: 5.1]\n" ++
  "      --idle-tick-ms <IDLE_TICK_MS>      Idle tick interval in milliseconds [default: 10]\n" ++
  "      --no-idle-invocation               Disable idle invocation\n" ++
  "      --no-runspace-tracking             Disable runspace change tracking\n" ++
  "      --log-file <LOG_FILE>              Log file path [default: pses_host.log]\n" ++
  "  -v, --verbose...                       Increase logging verbosity\n" ++
  "  -c, --command <COMMAND>                Command to execute\n" ++
  "  -h, --help                             Print help\n" ++
  "  -V, --version                          Print version\n"

/-- What a run of the program leaves behind; it has no exit code as long as it runs. -/
structure Result where
  code : Option Nat
  output : String := ""
  errors : String := ""
  deriving DecidableEq, Repr

def UsageError.result (e : UsageError) : Result :=
  match e with
  | .helpRequested => { code := some e.code, output := helpText }
  | .versionRequested => { code := some e.code, output := versionText }
  | e => { code := some e.code, errors := "error: " ++ e.message ++ "\n" }

/-- The log file could not be opened, because of `cause`. -/
def logFailure (path cause : String) : Result :=
  { code := some 1
    errors := "Error: failed to open log file " ++ path ++ "\n\nCaused by:\n    " ++ cause ++ "\n" }

/-- The service that the settings ask for. The console waits out every sleep and takes no
line as a directive. -/
def Settings.service (s : Settings) : Except ExecutionError Service.World :=
  Service.World.start
    { trackRunspaces := s.trackRunspaces, idleInvocation := s.idleInvocation
      patience := Nat.pow 2 63 }
    { version := s.version }

def startFailure (e : ExecutionError) : Result :=
  { code := some 1
    errors := "Error: failed to start the execution service\n\nCaused by:\n    " ++
      e.message ++ "\n" }

/-- Runs one command and exits. The command's own errors do not make the run a failure; an
error of the execution does. -/
def runOnce (world : Service.World) (command : String) : Result :=
  let order : Service.Order := { command := .ofScript command, options := .interactive }
  let (thread, world) := world.spawn [.exec order .checking]
  let world := world.settle
  let output := String.join (world.console.map lineOf)
  let errors := String.join (world.console.map errorLineOf)
  match world.result? thread with
  | some (.back (.reply (.ok _))) => { code := some 0, output, errors }
  | some (.back (.reply (.error e))) =>
    { code := some 1, output, errors := errors ++ e.message ++ "\n" }
  | _ => { code := none, output, errors }

/-- What the words of the command line make the program do. -/
inductive Plan where
  | finish (r : Result)
  | interact (i : Interactive)

/-- `openLog` tries to open the log file and gives the cause if it cannot. -/
def plan (openLog : String → Option String) (words : List String) : Plan :=
  match Settings.ofWords words with
  | .error e => .finish e.result
  | .ok settings =>
    match openLog settings.logFile, settings.service with
    | some cause, _ => .finish (logFailure settings.logFile cause)
    | none, .error e => .finish (startFailure e)
    | none, .ok world =>
      match settings.command with
      | some command => .finish (runOnce world command)
      | none => .interact (.start world)

/-- A run of the program by a user who types these lines, as the screens the user sees and
the result. -/
def session (openLog : String → Option String) (words lines : List String) :
    List String × Result :=
  match plan openLog words with
  | .finish r => (r.output :: lines.map (fun _ => "") ++ [""], r)
  | .interact i =>
    let (screens, i) := i.screens lines
    (screens, { code := i.code?, output := String.join screens, errors := i.errors })

end ScriptHost.Console
