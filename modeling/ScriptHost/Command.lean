import ScriptHost.Text.Case
import ScriptHost.Value

/-!
Commands: pipelines of stages with their parameters, the way a caller wants one
executed, and the shape in which it reaches the engine.
-/

namespace ScriptHost

/-- The name of a cancellation token. -/
abbrev Token := String

inductive Parameter where
  | named (name : String) (value : Value)
  | positional (value : Value)
  | switch (name : String) (on : Bool)

def Parameter.text : Parameter → String
  | named name value => " -" ++ name ++ " " ++ value.text
  | positional value => " " ++ value.text
  | switch name true => " -" ++ name
  | switch name false => " -" ++ name ++ ":$false"

def Parameter.same : Parameter → Parameter → Bool
  | named a v, named b w => a == b && v.same w
  | positional v, positional w => v.same w
  | switch a x, switch b y => a == b && x == y
  | _, _ => false

/-- One stage of a pipeline: the name of a command, or script text that may itself hold
several. With `merge` its errors join its output. -/
structure Stage where
  text : String
  script : Bool := false
  merge : Bool := false
  parameters : List Parameter := []

namespace Stage

def renderingName : String := "Out-Default"

/-- The stage that shows everything reaching it on the host. -/
def rendering : Stage := { text := renderingName }

def isRendering (s : Stage) : Bool :=
  !s.script && Text.sameLetters s.text renderingName

def fullText (s : Stage) : String :=
  s.text ++ String.join (s.parameters.map Parameter.text)

def same (s t : Stage) : Bool :=
  s.text == t.text && s.script == t.script && s.merge == t.merge &&
    s.parameters.length == t.parameters.length &&
    (s.parameters.zip t.parameters).all fun (p, q) => p.same q

end Stage

/-- How a command is executed and where its results go. The token cancels the wait until
the command starts; it does not stop a running command. -/
structure Options where
  writeOutput : Bool := false
  writeErrors : Bool := false
  addToHistory : Bool := false
  interruptPrompt : Bool := false
  token : Option Token := none
  deriving DecidableEq, Repr

/-- Options of a command typed at the prompt. -/
def Options.interactive : Options :=
  { writeOutput := true, writeErrors := true, addToHistory := true }

structure Command where
  stages : List Stage

namespace Command

def ofScript (s : String) : Command :=
  ⟨[{ text := s, script := true }]⟩

def text (c : Command) : String :=
  " | ".intercalate (c.stages.map Stage.fullText)

def same (c d : Command) : Bool :=
  c.stages.length == d.stages.length && (c.stages.zip d.stages).all fun (s, t) => s.same t

def withMergedErrors (c : Command) : Command :=
  match c.stages with
  | [] => c
  | s :: rest => ⟨{ s with merge := true } :: rest⟩

def withRendering (c : Command) : Command :=
  if (c.stages.getLast?).any Stage.isRendering then c else ⟨c.stages ++ [Stage.rendering]⟩

/-- The command as the engine gets it: when output goes to the host, a rendering stage
ends the pipeline, and when errors go there too they join the output. -/
def prepared (c : Command) (o : Options) : Command :=
  if o.writeOutput then
    (if o.writeErrors then c.withMergedErrors else c).withRendering
  else c

/-- The command as its author wrote it, without rendering stages. -/
def visibleText (c : Command) : String :=
  text ⟨c.stages.filter fun s => !s.isRendering⟩

end Command

end ScriptHost
