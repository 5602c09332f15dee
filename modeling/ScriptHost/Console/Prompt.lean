/-!
The prompt, which shows where the next command will run.
-/

namespace ScriptHost.Console

structure PromptPlace where
  depth : Nat
  inDebugger : Bool
  remote : Bool
  deriving DecidableEq, Repr

/-- One mark for every frame, the base frame included. -/
def PromptPlace.text (p : PromptPlace) : String :=
  (if p.remote then "[remote] " else "") ++ (if p.inDebugger then "[DBG]: " else "") ++
    "PS" ++ String.ofList (List.replicate (p.depth + 1) '>') ++ " "

end ScriptHost.Console
