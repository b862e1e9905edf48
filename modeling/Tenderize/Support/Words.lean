import Mathlib.Data.UInt
import Mathlib.Tactic

/-!
# Machine words as natural numbers

Sums and differences of `UInt64` and `UInt32` values that do not wrap.
-/

namespace Tenderize.Support

theorem toNat_add_of_lt {a b : UInt64} (h : a.toNat + b.toNat < 2 ^ 64) :
    (a + b).toNat = a.toNat + b.toNat := by
  rw [UInt64.toNat_add, Nat.mod_eq_of_lt h]

theorem toNat_add_le (a b : UInt64) : (a + b).toNat ≤ a.toNat + b.toNat := by
  rw [UInt64.toNat_add]
  exact Nat.mod_le _ _

theorem sub_eq_of_toNat {a b n : UInt64} (h : a.toNat = b.toNat + n.toNat) : a - n = b := by
  have hle : n ≤ a := by
    rw [UInt64.le_iff_toNat_le]
    omega
  have hsub := UInt64.toNat_sub_of_le _ _ hle
  apply UInt64.toNat_inj.mp
  omega

theorem toNat_sum_of_lt {words : List UInt64} (h : (words.map UInt64.toNat).sum < 2 ^ 64) :
    words.sum.toNat = (words.map UInt64.toNat).sum := by
  induction words with
  | nil => rfl
  | cons word words ih =>
      simp only [List.sum_cons, List.map_cons] at h ⊢
      have htail := ih (by omega)
      rw [toNat_add_of_lt (by omega), htail]

/-! ## Indices -/

theorem toNat_ofNat_index {n : Nat} (h : n < 2 ^ 32) : (UInt32.ofNat n).toNat = n := by
  rw [UInt32.toNat_ofNat']
  exact Nat.mod_eq_of_lt h

theorem toNat_succ_index {i : UInt32} (h : i.toNat + 1 < 2 ^ 32) :
    (i + 1).toNat = i.toNat + 1 := by
  rw [UInt32.toNat_add]
  exact Nat.mod_eq_of_lt h

theorem toNat_pred_index {i : UInt32} (h : 0 < i.toNat) : (i - 1).toNat = i.toNat - 1 := by
  apply UInt32.toNat_sub_of_le
  rw [UInt32.le_iff_toNat_le]
  exact h

end Tenderize.Support
