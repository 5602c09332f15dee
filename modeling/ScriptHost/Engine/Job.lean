import ScriptHost.Command
import ScriptHost.Decimal.Integer
import ScriptHost.Error
import ScriptHost.Text.Blank

/-!
Jobs: the single steps that the stages of a command stand for. Script text is
cut into segments at `|` and each segment into words; a word that reads as a
64-bit number is that number. Parameters go to the last segment of their stage.
-/

namespace ScriptHost

inductive Job where
  | render
  | call (name : String) (arguments : List Value)

namespace Job

def wordValue (w : String) : Value :=
  match Decimal.word? w with
  | some n => .int n
  | none => .str w

def ofSegment (segment : String) : Job :=
  match Text.words segment with
  | [] => call "" []
  | name :: rest => call name (rest.map wordValue)

def withArguments (extra : List Value) : Job → Job
  | render => render
  | call name arguments => call name (arguments ++ extra)

def giveLast (extra : List Value) : List Job → List Job
  | [] => []
  | [j] => [j.withArguments extra]
  | j :: js => j :: giveLast extra js

end Job

/-- The value a parameter passes on; a switch passes none. -/
def Parameter.argument? : Parameter → Option Value
  | named _ value => some value
  | positional value => some value
  | switch _ _ => none

def Stage.jobs (s : Stage) : List Job :=
  if s.isRendering then [.render]
  else
    Job.giveLast (s.parameters.filterMap Parameter.argument?)
      (if s.script then (Text.pieces '|' s.text).map Job.ofSegment else [.call s.text []])

def Command.jobs (c : Command) : List Job :=
  c.stages.flatMap Stage.jobs

/-- Whether the first stage sends its errors to the output. -/
def Command.mergesErrors (c : Command) : Bool :=
  c.stages.head?.any Stage.merge

/-- The commands the engine knows. -/
inductive Builtin where
  | echo
  | add
  | writeError
  | throw
  | sleep
  | breakpoint
  | setBreakpoint
  | nested
  | exit
  | enterSession
  | exitSession
  | dropSession
  | getHistory
  | getDepth
  deriving DecidableEq, Repr

def Builtin.ofName? (name : String) : Option Builtin :=
  match Text.lower name with
  | "echo" => some echo
  | "write-output" => some echo
  | "add" => some add
  | "write-error" => some writeError
  | "throw" => some throw
  | "sleep" => some sleep
  | "breakpoint" => some breakpoint
  | "set-breakpoint" => some setBreakpoint
  | "nested" => some nested
  | "exit" => some exit
  | "enter-pssession" => some enterSession
  | "exit-pssession" => some exitSession
  | "drop-session" => some dropSession
  | "get-history" => some getHistory
  | "get-depth" => some getDepth
  | _ => none

def unknownTerm (name : String) : EngineError :=
  .runtime ("The term '" ++ name ++ "' is not recognized as a name of a cmdlet, function, " ++
    "script file, or executable program.")

end ScriptHost
