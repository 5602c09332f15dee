/-!
Letter case. Names of commands are compared without regard to the case of the
26 Latin letters; every other character stands for itself.
-/

namespace ScriptHost.Text

def lowerChar (c : Char) : Char :=
  if 'A' ≤ c ∧ c ≤ 'Z' then Char.ofNat (c.toNat + 32) else c

/-- The text with the letters `A` to `Z` made small. -/
def lower (s : String) : String :=
  String.ofList (s.toList.map lowerChar)

def sameLetters (s t : String) : Bool :=
  lower s == lower t

end ScriptHost.Text
