import ScriptHost.Decimal.Integer
import ScriptHost.Text.Blank
import ScriptHost.Text.Quoted

/-!
Versions of the script engine: their text, their order, and the debugger
operations an engine of a version offers.
-/

namespace ScriptHost

structure Version where
  major : UInt16
  minor : UInt16
  deriving DecidableEq, Repr

inductive VersionError where
  | badMajor (text : String)
  | badMinor (text : String)
  deriving DecidableEq, Repr

def VersionError.message : VersionError → String
  | badMajor text => "invalid major version in " ++ Text.quote text
  | badMinor text => "invalid minor version in " ++ Text.quote text

/-- The families of debugger operations. -/
inductive Operations where
  | v3
  | v4
  | v5
  deriving DecidableEq, Repr

def Operations.name : Operations → String
  | v3 => "V3"
  | v4 => "V4"
  | v5 => "V5"

def Operations.all : List Operations :=
  [v3, v4, v5]

namespace Version

def standard : Version := ⟨5, 1⟩

def text (v : Version) : String :=
  Decimal.naturalText v.major.toNat ++ "." ++ Decimal.naturalText v.minor.toNat

def compare (v w : Version) : Ordering :=
  (Ord.compare v.major.toNat w.major.toNat).then (Ord.compare v.minor.toNat w.minor.toNat)

/-- One part of a version: a number of 16 bits, with blanks around it allowed. -/
def part? (s : String) : Option UInt16 :=
  (Decimal.naturalUpTo? 65535 (Text.trim s)).map UInt16.ofNat

/-- Reads `major.minor`; without a point the minor part is zero. -/
def parse (s : String) : Except VersionError Version :=
  let (major, minor) := (Text.splitFirst '.' s).getD (s, "0")
  match part? major, part? minor with
  | none, _ => .error (.badMajor s)
  | some _, none => .error (.badMinor s)
  | some major, some minor => .ok { major, minor }

def operations (v : Version) : Operations :=
  if v.major.toNat ≤ 3 then .v3 else if v.major.toNat = 4 then .v4 else .v5

end Version

end ScriptHost
