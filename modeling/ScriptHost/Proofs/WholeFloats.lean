import Mathlib.Algebra.Order.Field.Power
import Mathlib.Data.Rat.Cast.Order
import Mathlib.Tactic.FieldSimp
import Mathlib.Tactic.Linarith
import Mathlib.Tactic.NormNum
import Mathlib.Tactic.Positivity
import Mathlib.Tactic.Ring
import ScriptHost.Proofs.WordRange

/-!
Floats as integers. A float that is no whole number, or no number at all, is refused; a whole
number of 64 bits is converted to itself. Beyond 64 bits the nearest end of the range comes out,
so there and only there the conversion loses something.
-/

namespace ScriptHost

namespace Decimal.Binary64

def signOf (negative : Bool) : ℚ :=
  if negative then -1 else 1

/-- The exact number of a pattern by its sign, exponent and fraction. The patterns with the
largest exponent have none. -/
def number? (x : Binary64) : Option ℚ :=
  if x.exponent = 2047 then none
  else if x.exponent = 0 then
    some (signOf x.isNegative * 2 ^ (-1022 : ℤ) * (x.fraction / 2 ^ 52))
  else
    some (signOf x.isNegative * 2 ^ ((x.exponent : ℤ) - 1023) * (1 + x.fraction / 2 ^ 52))

variable {x : Binary64} {m k : ℕ} {q : ℤ} {negative : Bool}

theorem zpow_add_52 (q : ℤ) : (2 : ℚ) ^ (q + 52) = 2 ^ q * 2 ^ 52 := by
  rw [zpow_add₀ two_ne_zero]
  rfl

theorem number?_of_finite (h : x.meaning = .finite negative m q) :
    x.number? = some (signOf negative * (m * 2 ^ q)) := by
  unfold meaning at h
  unfold number?
  split at h
  · split at h <;> cases h
  · next hmax =>
    rw [if_neg hmax]
    split at h
    · next hzero =>
      cases h
      rw [if_pos hzero, show (-1022 : ℤ) = -1074 + 52 by norm_num, zpow_add_52]
      congr 1
      field_simp
    · next hzero =>
      cases h
      rw [if_neg hzero, show (x.exponent : ℤ) - 1023 = x.exponent - 1075 + 52 by ring, zpow_add_52]
      congr 1
      push_cast
      field_simp
      norm_num

theorem number?_eq_none_iff :
    x.number? = none ↔ ∀ negative m q, x.meaning ≠ .finite negative m q := by
  unfold number? meaning
  split
  · split <;> simp
  · split <;> simp

theorem powerOfTwo_pos (q : ℤ) : 0 < (powerOfTwo q).2 :=
  Nat.pow_pos two_pos

theorem zpow_eq_powerOfTwo (q : ℤ) :
    (2 : ℚ) ^ q = ((powerOfTwo q).1 : ℚ) / ((powerOfTwo q).2 : ℚ) := by
  have hcasts : ((powerOfTwo q).1 : ℚ) = 2 ^ q.toNat ∧ ((powerOfTwo q).2 : ℚ) = 2 ^ (-q).toNat :=
    ⟨Nat.cast_pow 2 _, Nat.cast_pow 2 _⟩
  rw [hcasts.1, hcasts.2, ← zpow_natCast, ← zpow_natCast, ← zpow_sub₀ two_ne_zero]
  congr 1
  omega

theorem wholePart_eq_iff : wholePart m q = (k, true) ↔ (m : ℚ) * 2 ^ q = k := by
  have hpos := powerOfTwo_pos q
  have hne : ((powerOfTwo q).2 : ℚ) ≠ 0 := by exact_mod_cast hpos.ne'
  have hwhole : wholePart m q = (k, true) ↔ m * (powerOfTwo q).1 = k * (powerOfTwo q).2 := by
    simp only [wholePart, Prod.mk.injEq, beq_iff_eq]
    constructor
    · rintro ⟨rfl, hrest⟩
      exact (Nat.div_mul_cancel (Nat.dvd_of_mod_eq_zero hrest)).symm
    · intro h
      rw [h]
      exact ⟨Nat.mul_div_cancel k hpos, Nat.mul_mod_left k _⟩
  rw [hwhole, zpow_eq_powerOfTwo, ← mul_div_assoc, div_eq_iff hne]
  exact_mod_cast Iff.rfl

end Decimal.Binary64

namespace Value

open Decimal (Binary64 FitsWord)

variable {x : Binary64} {k : ℤ}

/-- A whole float becomes the nearest integer of 64 bits. -/
theorem wordOfFloat?_eq_some (hx : x.number? = some (k : ℚ)) :
    wordOfFloat? x = some (clampToWord k) := by
  obtain ⟨negative, m, q, hmeaning⟩ : ∃ negative m q, x.meaning = .finite negative m q := by
    by_contra hnone
    push Not at hnone
    rw [Binary64.number?_eq_none_iff.mpr hnone] at hx
    cases hx
  have hvalue : Binary64.signOf negative * (m * 2 ^ q) = (k : ℚ) := by
    rwa [Binary64.number?_of_finite hmeaning, Option.some.injEq] at hx
  have hmagnitude : (m : ℚ) * 2 ^ q = ((if negative then -k else k : ℤ) : ℚ) := by
    cases negative <;> simp [Binary64.signOf] at hvalue ⊢ <;> linarith
  have hnonneg : 0 ≤ (if negative then -k else k) := by
    have hpos : (0 : ℚ) ≤ m * 2 ^ q := by positivity
    rw [hmagnitude] at hpos
    exact_mod_cast hpos
  obtain ⟨n, hn⟩ := Int.eq_ofNat_of_zero_le hnonneg
  have hwhole : Binary64.wholePart m q = (n, true) := by
    rw [Binary64.wholePart_eq_iff, hmagnitude, hn, Int.cast_natCast]
  have hk : (if negative then -(n : ℤ) else n) = k := by
    cases negative <;> simp at hn ⊢ <;> omega
  simp only [wordOfFloat?, hmeaning, hwhole, if_true, hk]

/-- Any other float becomes none. -/
theorem wordOfFloat?_eq_none (hx : ∀ k : ℤ, x.number? ≠ some (k : ℚ)) : wordOfFloat? x = none := by
  unfold wordOfFloat?
  split
  · next negative m q hmeaning =>
    cases hwhole : Binary64.wholePart m q with
    | mk n exact =>
      cases exact with
      | false => rfl
      | true =>
        refine absurd ?_ (hx (if negative then -(n : ℤ) else n))
        rw [Binary64.number?_of_finite hmeaning, Binary64.wholePart_eq_iff.mp hwhole]
        cases negative <;> simp [Binary64.signOf]
  · rfl

theorem toInt_float_of_whole (hx : x.number? = some (k : ℚ)) :
    (float x).toInt = .ok (clampToWord k) := by
  rw [toInt, wordOfFloat?_eq_some hx]

theorem toInt_float_of_other (hx : ∀ k : ℤ, x.number? ≠ some (k : ℚ)) :
    (float x).toInt = .error { expected := "int", found := "float" } := by
  rw [toInt, wordOfFloat?_eq_none hx]
  rfl

theorem clampToWord_eq_iff : (clampToWord k).toInt = k ↔ FitsWord k := by
  rw [toInt_clampToWord, FitsWord]
  omega

/-- A float is refused if it is no whole number and otherwise becomes the integer of 64 bits that
is nearest to it. So it is converted to itself or refused if and only if it is no whole number
beyond 64 bits. -/
theorem float_lossless_iff (x : Binary64) :
    (((float x).toInt = .error { expected := "int", found := "float" } ∨
        ∃ n, (float x).toInt = .ok n ∧ x.number? = some (n.toInt : ℚ)) ↔
      ∀ k : ℤ, x.number? = some (k : ℚ) → FitsWord k) ∧
    ((float x).toInt = .error { expected := "int", found := "float" } ↔
      ∀ k : ℤ, x.number? ≠ some (k : ℚ)) ∧
    ∀ n, (float x).toInt = .ok n ↔
      ∃ k : ℤ, x.number? = some (k : ℚ) ∧ n.toInt = max (-2 ^ 63) (min k (2 ^ 63 - 1)) := by
  by_cases hwhole : ∃ k : ℤ, x.number? = some (k : ℚ)
  · obtain ⟨k, hk⟩ := hwhole
    have hthis : ∀ j : ℤ, x.number? = some (j : ℚ) ↔ j = k := fun j => by
      rw [hk, Option.some.injEq, Int.cast_inj, eq_comm]
    have hok : ∀ n, (float x).toInt = .ok n ↔ n = clampToWord k := fun n => by
      rw [toInt_float_of_whole hk, Except.ok.injEq, eq_comm]
    have hrefused : (float x).toInt ≠ .error { expected := "int", found := "float" } := by
      rw [toInt_float_of_whole hk]
      exact nofun
    refine ⟨?_, ?_, fun n => ?_⟩
    · simp only [hrefused, hok, hthis, false_or, exists_eq_left, forall_eq, clampToWord_eq_iff]
    · exact ⟨fun h => absurd h hrefused, fun h => absurd hk (h k)⟩
    · simp only [hok, hthis, exists_eq_left, ← toInt_clampToWord, Int64.toInt_inj]
  · have hother : ∀ k : ℤ, x.number? ≠ some (k : ℚ) := fun k hk => hwhole ⟨k, hk⟩
    simp [toInt_float_of_other hother, hother]

/-- The float `2 ^ 63` becomes the integer before it. -/
theorem float_beyond_word_changed :
    let x : Binary64 := ⟨0x43E0000000000000⟩
    x.number? = some (2 ^ 63) ∧ (float x).toInt = .ok 9223372036854775807 ∧
      (Int64.toInt 9223372036854775807 : ℚ) ≠ 2 ^ 63 := by
  intro x
  have hfields : x.exponent = 1086 ∧ x.fraction = 0 ∧ x.isNegative = false := by decide
  have hnumber : x.number? = some (2 ^ 63) := by
    rw [Binary64.number?, if_neg (by omega), if_neg (by omega), hfields.1, hfields.2.1,
      hfields.2.2]
    norm_num [Binary64.signOf]
  have hwhole : x.number? = some ((2 ^ 63 : ℤ) : ℚ) := by
    rw [hnumber]
    norm_num
  have hend : clampToWord (2 ^ 63) = 9223372036854775807 := by decide
  have hlast : Int64.toInt 9223372036854775807 = 2 ^ 63 - 1 := by decide
  refine ⟨hnumber, by rw [toInt_float_of_whole hwhole, hend], ?_⟩
  rw [hlast]
  norm_num

end Value

end ScriptHost
