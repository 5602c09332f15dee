import ScriptHost.Service.World

/-!
A console that takes some of the lines written on it as directives to the writer.
-/

namespace ScriptHost.Service

/-- The rest of a line that begins with `mark`. -/
def afterMark (mark line : String) : Option String :=
  if mark.toList.isPrefixOf line.toList then
    some (String.ofList (line.toList.drop mark.length))
  else none

/-- The line `@g` holds the writer at gate `g`, `!run s` runs a script, and `!panic s`,
`!static` and `!any` make the writer panic. -/
def Reaction.toDirective (line : String) : Reaction :=
  match afterMark "@" line, afterMark "!run " line, afterMark "!panic " line with
  | some gate, _, _ => .hold gate
  | _, some script, _ => .run script
  | _, _, some what => .panic (.text what)
  | _, _, _ =>
    if line = "!static" then .panic (.text "static panic")
    else if line = "!any" then .panic .unknown
    else .ignore

end ScriptHost.Service
