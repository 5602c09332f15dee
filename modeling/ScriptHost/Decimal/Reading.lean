import ScriptHost.Decimal.Binary64
import ScriptHost.Decimal.Integer
import ScriptHost.Text.Case

/-!
Reading a binary number from decimal text: an optional sign, then either the
name of a special value in any letter case, or digits with an optional point and
an optional power of ten. The result is the number closest to the exact value.
-/

namespace ScriptHost.Decimal

/-- Digits with an optional point among them: the number without the point, and how many
digits stand after it. At least one digit is needed. -/
def pointed? (cs : List Char) : Option (Nat × Nat) :=
  let whole := cs.takeWhile (· != '.')
  let fraction := (cs.dropWhile (· != '.')).drop 1
  (unsigned? (whole ++ fraction)).map fun n => (n, fraction.length)

/-- `pointed?`, then an optional exponent: the digits and the power of ten. -/
def scaled? (cs : List Char) : Option (Nat × Int) :=
  let isMark (c : Char) := c == 'e' || c == 'E'
  (pointed? (cs.takeWhile fun c => !isMark c)).bind fun (n, places) =>
    match cs.dropWhile fun c => !isMark c with
    | [] => some (n, -(places : Int))
    | _ :: power => (integer? power).map fun p => (n, p - (places : Int))

/-- The number closest to `n * 10 ^ p`. A power far outside the range of the format is not
computed: the result is known to be zero or infinite. -/
def Binary64.nearestDecimal (negative : Bool) (n : Nat) (p : Int) : Binary64 :=
  let size : Int := p + (digits n).length
  if n = 0 || size < -400 then Binary64.zero negative
  else if 400 < size then Binary64.infinity negative
  else Binary64.nearest negative (n * Nat.pow 10 p.toNat) (Nat.pow 10 (-p).toNat)

def Binary64.unsignedOfChars? (negative : Bool) (cs : List Char) : Option Binary64 :=
  let name := Text.lower (String.ofList cs)
  if name == "inf" || name == "infinity" then some (Binary64.infinity negative)
  else if name == "nan" then some Binary64.notANumber
  else (scaled? cs).map fun (n, p) => Binary64.nearestDecimal negative n p

/-- The number that a text stands for. -/
def Binary64.ofText? (s : String) : Option Binary64 :=
  match s.toList with
  | '-' :: cs => Binary64.unsignedOfChars? true cs
  | '+' :: cs => Binary64.unsignedOfChars? false cs
  | cs => Binary64.unsignedOfChars? false cs

end ScriptHost.Decimal
