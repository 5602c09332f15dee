import ScriptHost.Console.Program

/-!
The command line program: it opens the log file, hands the typed lines to the
console, and shows what the console wrote.
-/

namespace ScriptHost.Console

/-- The cause of a failure in the words of the system. -/
def causeOf : IO.Error → String
  | .noFileOrDirectory _ code details => details ++ " (os error " ++ toString code ++ ")"
  | .permissionDenied _ code details => details ++ " (os error " ++ toString code ++ ")"
  | .inappropriateType _ code details => details ++ " (os error " ++ toString code ++ ")"
  | e => toString e

/-- Makes the log file, or tells why it cannot be made. -/
def openLogFile (path : String) : IO (Option String) := do
  try
    let _ ← IO.FS.Handle.mk path .write
    return none
  catch e => return some (causeOf e)

def Result.display (r : Result) : IO UInt32 := do
  IO.print r.output
  IO.eprint r.errors
  return UInt32.ofNat (r.code.getD 1)

/-- Shows what was written since the last line. -/
def Interactive.display (i : Interactive) : IO Interactive := do
  IO.print i.screen
  IO.eprint i.errors
  (← IO.getStdout).flush
  return { i with screen := "", errors := "" }

partial def converse (input : IO.FS.Stream) (i : Interactive) : IO UInt32 := do
  let i ← i.display
  match i.code? with
  | some code => return UInt32.ofNat code
  | none =>
    let line ← input.getLine
    if line.isEmpty then
      let i ← i.close.display
      return UInt32.ofNat (i.code?.getD 1)
    else converse input (i.type line)

end ScriptHost.Console

open ScriptHost.Console in
def main (words : List String) : IO UInt32 := do
  let cause ← match Settings.ofWords words with
    | .ok settings => openLogFile settings.logFile
    | .error _ => pure none
  match plan (fun _ => cause) words with
  | .finish r => r.display
  | .interact i => converse (← IO.getStdin) i
