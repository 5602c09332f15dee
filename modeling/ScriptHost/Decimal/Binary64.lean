/-!
Binary floating-point numbers of 64 bits, held as their bit pattern and read as
exact numbers. A finite number is `m * 2 ^ q` with a sign; the other patterns are
the two infinities and the ones that are no number. `nearest` goes back: it
rounds a quotient of natural numbers to the closest pattern, a half to the even
neighbour.
-/

namespace ScriptHost.Decimal

structure Binary64 where
  bits : UInt64
  deriving DecidableEq, Repr

namespace Binary64

inductive Meaning where
  | notANumber
  | infinite (negative : Bool)
  | finite (negative : Bool) (m : Nat) (q : Int)
  deriving DecidableEq, Repr

def fraction (x : Binary64) : Nat :=
  x.bits.toNat % Nat.pow 2 52

def exponent (x : Binary64) : Nat :=
  x.bits.toNat / Nat.pow 2 52 % Nat.pow 2 11

def isNegative (x : Binary64) : Bool :=
  Nat.pow 2 63 ≤ x.bits.toNat

def meaning (x : Binary64) : Meaning :=
  if x.exponent = 2047 then
    if x.fraction = 0 then .infinite x.isNegative else .notANumber
  else if x.exponent = 0 then .finite x.isNegative x.fraction (-1074)
  else .finite x.isNegative (Nat.pow 2 52 + x.fraction) ((x.exponent : Int) - 1075)

/-- The pattern with the given sign and the given lower 63 bits. -/
def ofMagnitude (negative : Bool) (n : Nat) : Binary64 :=
  ⟨UInt64.ofNat ((if negative then Nat.pow 2 63 else 0) + n)⟩

def infinity (negative : Bool) : Binary64 :=
  ofMagnitude negative (2047 * Nat.pow 2 52)

def notANumber : Binary64 :=
  ofMagnitude false (2047 * Nat.pow 2 52 + Nat.pow 2 51)

def zero (negative : Bool) : Binary64 :=
  ofMagnitude negative 0

/-- Divides and rounds to the nearest whole number, a half to the even neighbour. -/
def divideToEven (num den : Nat) : Nat :=
  let low := num / den
  let rest := 2 * (num % den)
  if rest < den || (rest == den && low % 2 == 0) then low else low + 1

/-- `2 ^ q` for `q` of either sign, as a pair of a numerator and a denominator. -/
def powerOfTwo (q : Int) : Nat × Nat :=
  (Nat.pow 2 q.toNat, Nat.pow 2 (-q).toNat)

/-- The exponent at which `num / den` has 53 binary digits, but never below the least
exponent there is. -/
def scaleOf (num den : Nat) : Int :=
  let k : Int := (num.log2 : Int) - (den.log2 : Int)
  let (up, down) := powerOfTwo k
  let q := if num * down < den * up then k - 53 else k - 52
  max q (-1074)

/-- The number with the given sign that is closest to `num / den`. -/
def nearest (negative : Bool) (num den : Nat) : Binary64 :=
  if num = 0 then zero negative
  else
    let q := scaleOf num den
    let (up, down) := powerOfTwo q
    let m := divideToEven (num * down) (den * up)
    let (m, q) := if m = Nat.pow 2 53 then (Nat.pow 2 52, q + 1) else (m, q)
    if 971 < q then infinity negative
    else if m < Nat.pow 2 52 then ofMagnitude negative m
    else ofMagnitude negative ((q + 1075).toNat * Nat.pow 2 52 + (m - Nat.pow 2 52))

def ofInt (n : Int) : Binary64 :=
  nearest (n < 0) n.natAbs 1

/-- Numeric equality: a pattern that is no number differs from itself, and the two zeros
are equal. -/
def equal (x y : Binary64) : Bool :=
  match x.meaning, y.meaning with
  | .notANumber, _ => false
  | _, .notANumber => false
  | .finite _ 0 _, .finite _ 0 _ => true
  | _, _ => x == y

/-- The whole part of `m * 2 ^ q` and whether nothing is left over. -/
def wholePart (m : Nat) (q : Int) : Nat × Bool :=
  let (up, down) := powerOfTwo q
  (m * up / down, m * up % down == 0)

end Binary64

end ScriptHost.Decimal
