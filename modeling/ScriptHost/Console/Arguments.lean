import ScriptHost.Version

/-!
The command line of the console. Words are read from left to right; the value of
an option may be attached to it or be the next word, and is looked at only when
the next option comes or the words end. Every option but `-v` is given at most
once, and no word stands on its own.
-/

namespace ScriptHost.Console

/-- What the console was asked to do. -/
structure Settings where
  version : Version := .standard
  idleTick : Nat := 10
  idleInvocation : Bool := true
  trackRunspaces : Bool := true
  logFile : String := "pses_host.log"
  verbosity : Nat := 0
  command : Option String := none
  deriving DecidableEq, Repr

/-- The time between two idle ticks, in milliseconds, which is never zero. -/
def Settings.tickInterval (s : Settings) : Nat :=
  max s.idleTick 1

inductive Choice where
  | engineVersion
  | idleTick
  | noIdleInvocation
  | noRunspaceTracking
  | logFile
  | verbose
  | command
  | help
  | version
  deriving DecidableEq, Repr

namespace Choice

def ofLong? : String → Option Choice
  | "engine-version" => some engineVersion
  | "idle-tick-ms" => some idleTick
  | "no-idle-invocation" => some noIdleInvocation
  | "no-runspace-tracking" => some noRunspaceTracking
  | "log-file" => some logFile
  | "verbose" => some verbose
  | "command" => some command
  | "help" => some help
  | "version" => some version
  | _ => none

def ofShort? : Char → Option Choice
  | 'v' => some verbose
  | 'c' => some command
  | 'h' => some help
  | 'V' => some version
  | _ => none

def takesValue : Choice → Bool
  | engineVersion => true
  | idleTick => true
  | logFile => true
  | command => true
  | _ => false

end Choice

/-- Why the words give no settings. Two of these are requests of the user. -/
inductive UsageError where
  | helpRequested
  | versionRequested
  | unknown
  | repeated
  | valueMissing
  | valueUnexpected
  | badVersion (e : VersionError)
  | badNumber
  deriving DecidableEq, Repr

namespace UsageError

def code : UsageError → Nat
  | helpRequested => 0
  | versionRequested => 0
  | _ => 2

def message : UsageError → String
  | helpRequested => "help was asked for"
  | versionRequested => "the version was asked for"
  | unknown => "unexpected argument"
  | repeated => "an option was given twice"
  | valueMissing => "an option needs a value"
  | valueUnexpected => "an option takes no value"
  | badVersion e => e.message
  | badNumber => "invalid number"

end UsageError

/-- A word of the command line. A single `-` and the empty word are plain. -/
inductive Word where
  | escape
  | long (name : String) (value : Option String)
  | short (flags : List Char)
  | plain

def Word.ofString (s : String) : Word :=
  match s.toList with
  | ['-', '-'] => .escape
  | '-' :: '-' :: rest =>
    let name := String.ofList (rest.takeWhile (· != '='))
    match rest.dropWhile (· != '=') with
    | [] => .long name none
    | _ :: value => .long name (some (String.ofList value))
  | '-' :: c :: rest => .short (c :: rest)
  | _ => .plain

/-- Settings on their way: the choices made so far, and one option whose value is still to
come or was not looked at yet. -/
structure Reading where
  settings : Settings := {}
  made : List Choice := []
  pending : Option (Choice × Option String) := none

namespace Reading

def mark (r : Reading) (c : Choice) (settings : Settings) : Reading :=
  { r with settings, made := c :: r.made }

def setValue (r : Reading) (c : Choice) (value : String) : Except UsageError Reading :=
  if r.made.contains c then .error .repeated
  else
    let s := r.settings
    match c with
    | .engineVersion =>
      match Version.parse value with
      | .ok version => .ok (r.mark c { s with version })
      | .error e => .error (.badVersion e)
    | .idleTick =>
      match Decimal.naturalUpTo? (Nat.pow 2 64 - 1) value with
      | some idleTick => .ok (r.mark c { s with idleTick })
      | none => .error .badNumber
    | .logFile => .ok (r.mark c { s with logFile := value })
    | .command => .ok (r.mark c { s with command := some value })
    | _ => .error .valueUnexpected

/-- Looks at the value of the option before. -/
def settle (r : Reading) : Except UsageError Reading :=
  match r.pending with
  | none => .ok r
  | some (_, none) => .error .valueMissing
  | some (c, some value) => { r with pending := none }.setValue c value

/-- Repeating `-v` counts, up to a byte. -/
def setFlag (r : Reading) (c : Choice) : Except UsageError Reading :=
  let s := r.settings
  match c with
  | .help => .error .helpRequested
  | .version => .error .versionRequested
  | .verbose => .ok (r.mark c { s with verbosity := min (s.verbosity + 1) 255 })
  | c =>
    if r.made.contains c then .error .repeated
    else .ok (r.mark c (if c = .noIdleInvocation then { s with idleInvocation := false }
      else { s with trackRunspaces := false }))

/-- An option with the value attached to it, if any. -/
def option (r : Reading) (c : Choice) (value : Option String) : Except UsageError Reading := do
  if c.takesValue then
    let r ← r.settle
    match value with
    | some value => r.setValue c value
    | none => return { r with pending := some (c, none) }
  else if value.isSome then throw .valueUnexpected
  else (← r.settle).setFlag c

/-- Several options of one letter; the first that takes a value gets the rest. -/
def options (r : Reading) : List Char → Except UsageError Reading
  | [] => .ok r
  | letter :: rest =>
    match Choice.ofShort? letter with
    | none => .error .unknown
    | some c =>
      if c.takesValue then
        r.option c (match rest with
          | [] => none
          | '=' :: value => some (String.ofList value)
          | value => some (String.ofList value))
      else
        match r.option c none with
        | .ok r => r.options rest
        | .error e => .error e

def long (r : Reading) (name : String) (value : Option String) : Except UsageError Reading :=
  match Choice.ofLong? name with
  | some c => r.option c value
  | none => .error .unknown

/-- After `--` every word would stand on its own. -/
def words (r : Reading) : List String → Except UsageError Reading
  | [] => r.settle
  | s :: rest =>
    match Word.ofString s, r.pending with
    | .escape, _ => if rest.isEmpty then r.settle else .error .unknown
    | .long name value, _ =>
      match r.long name value with
      | .ok r => r.words rest
      | .error e => .error e
    | .short flags, _ =>
      match r.options flags with
      | .ok r => r.words rest
      | .error e => .error e
    | .plain, some (c, none) => { r with pending := some (c, some s) }.words rest
    | .plain, _ => .error .unknown

end Reading

def Settings.ofWords (words : List String) : Except UsageError Settings :=
  (({} : Reading).words words).map Reading.settings

end ScriptHost.Console
