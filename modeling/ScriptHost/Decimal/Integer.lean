/-!
Whole numbers in decimal text. `digits` writes a natural number without leading
zeros; the readers take an optional sign and one or more digits, and refuse
everything else, a number outside the wanted range included.
-/

namespace ScriptHost.Decimal

def digitChar (d : Nat) : Char :=
  Char.ofNat (48 + d)

/-- The decimal digits of `n`, most significant first. -/
def digits (n : Nat) : List Char :=
  if n < 10 then [digitChar n] else digits (n / 10) ++ [digitChar (n % 10)]
termination_by n
decreasing_by omega

def digitValue? (c : Char) : Option Nat :=
  if '0' ≤ c ∧ c ≤ '9' then some (c.toNat - 48) else none

/-- The value of a run of digits read after the value `acc`. -/
def valueFrom? (acc : Nat) : List Char → Option Nat
  | [] => some acc
  | c :: cs => (digitValue? c).bind fun d => valueFrom? (10 * acc + d) cs

/-- One or more digits. -/
def unsigned? : List Char → Option Nat
  | [] => none
  | c :: cs => valueFrom? 0 (c :: cs)

/-- Digits with an optional `+` before them. -/
def natural? : List Char → Option Nat
  | '+' :: cs => unsigned? cs
  | cs => unsigned? cs

/-- Digits with an optional sign before them. -/
def integer? : List Char → Option Int
  | '-' :: cs => (unsigned? cs).map fun n => -(n : Int)
  | cs => (natural? cs).map fun n => (n : Int)

/-- The natural number at most `limit` that a text stands for. -/
def naturalUpTo? (limit : Nat) (s : String) : Option Nat :=
  (natural? s.toList).filter (· ≤ limit)

def inWordRange (n : Int) : Bool :=
  -Int.pow 2 63 ≤ n && n < Int.pow 2 63

/-- The signed 64-bit number that a text stands for. -/
def word? (s : String) : Option Int64 :=
  ((integer? s.toList).filter inWordRange).map Int64.ofInt

def integerDigits (n : Int) : List Char :=
  if n < 0 then '-' :: digits n.natAbs else digits n.natAbs

def naturalText (n : Nat) : String :=
  String.ofList (digits n)

def wordText (n : Int64) : String :=
  String.ofList (integerDigits n.toInt)

end ScriptHost.Decimal
