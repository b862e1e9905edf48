import Mathlib.Tactic

/-!
# Rounding to the nearest multiple

Round to the nearest multiple of a unit, ties to the even one, and, with a unit that grows
with the number, to a fixed number of significant bits.
-/

namespace Tenderize.Support

/-- The multiple of `unit` nearest to `value`, of two the even one. -/
def nearestEven (unit value : Nat) : Nat :=
  if 2 * (value % unit) < unit ∨ 2 * (value % unit) = unit ∧ value / unit % 2 = 0 then
    value / unit * unit
  else (value / unit + 1) * unit

section

variable {unit a b : Nat}

theorem le_nearestEven (unit value : Nat) : value / unit * unit ≤ nearestEven unit value := by
  unfold nearestEven
  split
  · exact le_rfl
  · exact Nat.mul_le_mul_right unit (Nat.le_succ _)

theorem nearestEven_le (unit value : Nat) :
    nearestEven unit value ≤ (value / unit + 1) * unit := by
  unfold nearestEven
  split
  · exact Nat.mul_le_mul_right unit (Nat.le_succ _)
  · exact le_rfl

theorem nearestEven_mono (h : a ≤ b) : nearestEven unit a ≤ nearestEven unit b := by
  rcases (Nat.div_le_div_right h : a / unit ≤ b / unit).lt_or_eq with hlt | heq
  · calc nearestEven unit a ≤ (a / unit + 1) * unit := nearestEven_le unit a
      _ ≤ b / unit * unit := Nat.mul_le_mul_right unit hlt
      _ ≤ nearestEven unit b := le_nearestEven unit b
  · -- between the same two multiples the remainders decide
    have ha := Nat.div_add_mod a unit
    have hb := Nat.div_add_mod b unit
    rw [heq] at ha
    have hrest : a % unit ≤ b % unit := by omega
    unfold nearestEven
    rw [heq]
    split
    · split
      · exact le_rfl
      · exact Nat.mul_le_mul_right unit (Nat.le_succ _)
    · rw [if_neg (by omega)]

end

/-- Round to `bits` significant bits. -/
def roundBits (bits value : Nat) : Nat :=
  if value < 2 ^ bits then value else nearestEven (2 ^ (value.log2 + 1 - bits)) value

section

variable {bits a b : Nat}

/-- A rounded number stays between the powers of two around it. -/
theorem roundBits_between (hbits : 0 < bits) (h : a ≠ 0) :
    2 ^ a.log2 ≤ roundBits bits a ∧ roundBits bits a ≤ 2 ^ (a.log2 + 1) := by
  have hlow := Nat.log2_self_le h
  have hhigh := Nat.lt_log2_self (n := a)
  unfold roundBits
  split
  · exact ⟨hlow, hhigh.le⟩
  · rename_i hlarge
    have hlog : bits ≤ a.log2 := (Nat.le_log2 h).mpr (Nat.not_lt.mp hlarge)
    have hlower : 2 ^ a.log2 = 2 ^ (bits - 1) * 2 ^ (a.log2 + 1 - bits) := by
      rw [← pow_add]
      congr 1
      omega
    have hupper : 2 ^ (a.log2 + 1) = 2 ^ bits * 2 ^ (a.log2 + 1 - bits) := by
      rw [← pow_add]
      congr 1
      omega
    have hunit : 0 < 2 ^ (a.log2 + 1 - bits) := Nat.two_pow_pos _
    constructor
    · refine le_trans ?_ (le_nearestEven _ a)
      rw [hlower]
      apply Nat.mul_le_mul_right
      rw [Nat.le_div_iff_mul_le hunit, ← hlower]
      exact hlow
    · refine le_trans (nearestEven_le _ a) ?_
      rw [hupper]
      apply Nat.mul_le_mul_right
      rw [Nat.succ_le_iff, Nat.div_lt_iff_lt_mul hunit, ← hupper]
      exact hhigh

theorem roundBits_mono (hbits : 0 < bits) (h : a ≤ b) : roundBits bits a ≤ roundBits bits b := by
  rcases Nat.eq_zero_or_pos a with rfl | hpos
  · unfold roundBits
    rw [if_pos (Nat.two_pow_pos _)]
    exact Nat.zero_le _
  have ha : a ≠ 0 := Nat.pos_iff_ne_zero.mp hpos
  have hb : b ≠ 0 := Nat.pos_iff_ne_zero.mp (hpos.trans_le h)
  have hlog : a.log2 ≤ b.log2 := (Nat.le_log2 hb).mpr ((Nat.log2_self_le ha).trans h)
  rcases hlog.lt_or_eq with hlt | heq
  · calc roundBits bits a ≤ 2 ^ (a.log2 + 1) := (roundBits_between hbits ha).2
      _ ≤ 2 ^ b.log2 := Nat.pow_le_pow_right (by decide) hlt
      _ ≤ roundBits bits b := (roundBits_between hbits hb).1
  · have hiff : a < 2 ^ bits ↔ b < 2 ^ bits := by
      rw [← Nat.log2_lt ha, ← Nat.log2_lt hb, heq]
    unfold roundBits
    by_cases hsmall : b < 2 ^ bits
    · rw [if_pos hsmall, if_pos (hiff.mpr hsmall)]
      exact h
    · rw [if_neg hsmall, if_neg (mt hiff.mp hsmall), heq]
      exact nearestEven_mono h

end

end Tenderize.Support
