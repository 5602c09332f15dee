import Mathlib.Algebra.Ring.Int.Defs
import ScriptHost.Value.Convert

/-!
The range of the 64-bit integers. Inside it a sum and a conversion are exact; beyond it the end
of the range stands in for a number.
-/

namespace ScriptHost

namespace Decimal

/-- The number is one of 64 bits. -/
def FitsWord (n : Int) : Prop :=
  -2 ^ 63 ≤ n ∧ n < 2 ^ 63

instance (n : Int) : Decidable (FitsWord n) :=
  inferInstanceAs (Decidable (_ ∧ _))

variable {n : Int}

theorem inWordRange_iff : inWordRange n = true ↔ FitsWord n := by
  unfold inWordRange
  rw [Bool.and_eq_true, decide_eq_true_eq, decide_eq_true_eq]
  exact Iff.rfl

theorem fitsWord_toInt (n : Int64) : FitsWord n.toInt :=
  ⟨n.le_toInt, n.toInt_lt⟩

theorem FitsWord.toInt_ofInt (h : FitsWord n) : (Int64.ofInt n).toInt = n :=
  Int64.toInt_ofInt_of_le h.1 h.2

/-- A sum that fits is not wrapped. -/
theorem FitsWord.toInt_add {a b : Int64} (h : FitsWord (a.toInt + b.toInt)) :
    (a + b).toInt = a.toInt + b.toInt := by
  unfold FitsWord at h
  rw [Int64.toInt_add]
  exact Int.bmod_eq_of_le (by omega) (by omega)

end Decimal

namespace Value

theorem toInt_clampToWord (n : Int) :
    (clampToWord n).toInt = max (-2 ^ 63) (min n (2 ^ 63 - 1)) := by
  have hfits : Decimal.FitsWord (max (-2 ^ 63) (min n (2 ^ 63 - 1))) := by
    unfold Decimal.FitsWord
    omega
  exact hfits.toInt_ofInt

end Value

end ScriptHost
