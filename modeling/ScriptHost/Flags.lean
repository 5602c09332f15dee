/-!
Two sets of flags: what kind of nested execution a frame stands for, and which
scripts the engine's debugger stops in.
-/

namespace ScriptHost

/-- The kind of a frame of the prompt nest. A frame without a flag is a plain one. -/
structure FrameKind where
  nested : Bool := false
  debug : Bool := false
  remote : Bool := false
  deriving DecidableEq, Repr, Inhabited

namespace FrameKind

def normal : FrameKind := {}

def nestedPrompt : FrameKind := { nested := true }

def debugger : FrameKind := { debug := true }

def remoteSession : FrameKind := { remote := true }

def union (a b : FrameKind) : FrameKind :=
  { nested := a.nested || b.nested, debug := a.debug || b.debug, remote := a.remote || b.remote }

def contains (a b : FrameKind) : Bool :=
  (a.nested || !b.nested) && (a.debug || !b.debug) && (a.remote || !b.remote)

/-- Frames in which a message loop runs. -/
def isLoop (k : FrameKind) : Bool :=
  k.debug || k.nested

def ofBits (n : Nat) : FrameKind :=
  { nested := n.testBit 0, debug := n.testBit 1, remote := n.testBit 2 }

def text (k : FrameKind) : String :=
  if k = normal then "Normal"
  else " | ".intercalate ((if k.nested then ["NestedPrompt"] else []) ++
    (if k.debug then ["Debug"] else []) ++ if k.remote then ["Remote"] else [])

end FrameKind

/-- The scripts the debugger stops in. -/
structure DebugModes where
  standard : Bool := false
  localScript : Bool := false
  remoteScript : Bool := false
  deriving DecidableEq, Repr

namespace DebugModes

def none : DebugModes := {}

def scripts : DebugModes := { localScript := true, remoteScript := true }

def union (a b : DebugModes) : DebugModes :=
  { standard := a.standard || b.standard
    localScript := a.localScript || b.localScript
    remoteScript := a.remoteScript || b.remoteScript }

def contains (a b : DebugModes) : Bool :=
  (a.standard || !b.standard) && (a.localScript || !b.localScript) &&
    (a.remoteScript || !b.remoteScript)

def ofBits (n : Nat) : DebugModes :=
  { standard := n.testBit 0, localScript := n.testBit 1, remoteScript := n.testBit 2 }

def bits (m : DebugModes) : Nat :=
  m.standard.toNat + 2 * m.localScript.toNat + 4 * m.remoteScript.toNat

def text (m : DebugModes) : String :=
  if m = none then "DebugModes(None)"
  else "DebugModes(" ++ " | ".intercalate ((if m.standard then ["Default"] else []) ++
    (if m.localScript then ["LocalScript"] else []) ++
    if m.remoteScript then ["RemoteScript"] else []) ++ ")"

end DebugModes

end ScriptHost
