import ScriptHost.Decimal.Binary64
import ScriptHost.Decimal.Integer

/-!
The shortest decimal text of a binary number: the fewest digits that still lie
in the interval of reals rounding to it, and among those the digits closest to
it. The text is positional whatever the size of the number.
-/

namespace ScriptHost.Decimal

/-- Positive numbers `low / den` ≤ `mid / den` ≤ `high / den`: a value between the two
ends of the interval that rounds to it. The ends belong to it when `closed`. -/
structure Interval where
  low : Nat
  mid : Nat
  high : Nat
  den : Nat
  closed : Bool

/-- The interval of reals that round to `m * 2 ^ q`. Below a power of two the neighbour
is half as far away. -/
def Interval.around (m : Nat) (q : Int) : Interval :=
  let (up, down) := Binary64.powerOfTwo (q - 2)
  let below := if m = Nat.pow 2 52 then 1 else 2
  { low := (4 * m - below) * up
    mid := 4 * m * up
    high := (4 * m + 2) * up
    den := down
    closed := m % 2 == 0 }

/-- The `k` with `10 ^ (k - 1) ≤ num / den < 10 ^ k`, for a positive quotient. -/
def decimalScale (num den : Nat) : Int :=
  if den ≤ num then (digits (num / den)).length
  else 1 - ((digits ((den + num - 1) / num - 1)).length : Int)

/-- `d * 10 ^ s` against the interval: whether it lies in it. -/
def Interval.holds (i : Interval) (d : Nat) (s : Int) : Bool :=
  let value := d * Nat.pow 10 s.toNat * i.den
  let unit := Nat.pow 10 (-s).toNat
  if i.closed then i.low * unit ≤ value && value ≤ i.high * unit
  else i.low * unit < value && value < i.high * unit

/-- The neighbours of the interval's value on the grid `10 ^ s`: the nearer one that lies
in the interval, the upper one on a tie. -/
def Interval.onGrid? (i : Interval) (s : Int) : Option Nat :=
  let num := i.mid * Nat.pow 10 (-s).toNat
  let den := i.den * Nat.pow 10 s.toNat
  let low := num / den
  let upperNearer := den ≤ 2 * (num % den)
  match i.holds low s, i.holds (low + 1) s with
  | false, false => none
  | true, false => some low
  | false, true => some (low + 1)
  | true, true => some (if upperNearer then low + 1 else low)

/-- The first grid of 1, 2, … 17 digits with a point in the interval: that point and the
exponent of the grid. -/
def Interval.shortest (i : Interval) : Nat × Int :=
  let k := decimalScale i.mid i.den
  let tries := (List.range 17).filterMap fun (n : Nat) =>
    let s := k - ((n : Int) + 1)
    (i.onGrid? s).map fun d => (d, s)
  tries.headD
    (i.mid * Nat.pow 10 (-(k - 17)).toNat / (i.den * Nat.pow 10 (k - 17).toNat), k - 17)

/-- Writes `d * 10 ^ s` with a point where it belongs, and without zeros at the end of the
fraction. -/
def positional (d : Nat) (s : Int) : List Char :=
  if 0 ≤ s then digits d ++ List.replicate s.toNat '0'
  else
    let places := (-s).toNat
    let all := digits d
    let all := List.replicate (places + 1 - all.length) '0' ++ all
    let whole := all.take (all.length - places)
    let fraction := (all.drop (all.length - places)).reverse.dropWhile (· == '0')
    if fraction.isEmpty then whole else whole ++ '.' :: fraction.reverse

/-- The shortest text that reads back as the number. -/
def Binary64.text (x : Binary64) : String :=
  let sign (negative : Bool) (body : List Char) :=
    String.ofList (if negative then '-' :: body else body)
  match x.meaning with
  | .notANumber => "NaN"
  | .infinite negative => sign negative "inf".toList
  | .finite negative 0 _ => sign negative ['0']
  | .finite negative m q =>
    let (d, s) := (Interval.around m q).shortest
    sign negative (positional d s)

end ScriptHost.Decimal
