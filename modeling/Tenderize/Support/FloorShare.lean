import Mathlib.Tactic

/-!
# Shares of a fund, rounded down

A fund of `S` units is divided into `P` shares.  Redeeming `t` shares pays `t * S / P`
units and buying with `a` units mints `a * P / S` shares, both rounded down.  Prices are
compared by cross multiplication, so an empty fund needs no special care.
-/

namespace Tenderize.Support

/-- The price of a share does not fall from `S / P` to `S' / P'`. -/
def PriceKept (S P S' P' : Nat) : Prop :=
  S * P' ≤ S' * P

theorem PriceKept.refl (S P : Nat) : PriceKept S P S P :=
  le_refl _

theorem PriceKept.trans {S P S₁ P₁ S₂ P₂ : Nat} (h₁ : PriceKept S P S₁ P₁)
    (h₂ : PriceKept S₁ P₁ S₂ P₂) (hempty : P₁ = 0 → P₂ = 0) : PriceKept S P S₂ P₂ := by
  unfold PriceKept at *
  rcases Nat.eq_zero_or_pos P₁ with hzero | hpos
  · rw [hempty hzero, Nat.mul_zero]
    exact Nat.zero_le _
  · apply Nat.le_of_mul_le_mul_right _ hpos
    calc S * P₂ * P₁ = S * P₁ * P₂ := by ring
      _ ≤ S₁ * P * P₂ := Nat.mul_le_mul_right _ h₁
      _ = S₁ * P₂ * P := by ring
      _ ≤ S₂ * P₁ * P := Nat.mul_le_mul_right _ h₂
      _ = S₂ * P * P₁ := by ring

/-- Nobody redeems more than the whole fund. -/
theorem redeem_le {S P t : Nat} (ht : t ≤ P) : t * S / P ≤ S := by
  apply Nat.div_le_of_le_mul
  exact Nat.mul_le_mul_right _ ht

theorem redeem_priceKept (S P t : Nat) :
    PriceKept S P (S - t * S / P) (P - t) := by
  unfold PriceKept
  have hfloor := Nat.div_mul_le_self (t * S) P
  rw [Nat.mul_sub, Nat.sub_mul, Nat.mul_comm S t]
  exact Nat.sub_le_sub_left hfloor _

theorem buy_priceKept (S P a : Nat) : PriceKept S P (S + a) (P + a * P / S) := by
  unfold PriceKept
  have hfloor := Nat.div_mul_le_self (a * P) S
  rw [Nat.mul_add, Nat.add_mul, Nat.mul_comm S (a * P / S)]
  exact Nat.add_le_add_left hfloor _

/-- When taking `A` units out of the fund first leaves the payment of `t` shares as it
was: their part of `A` disappears in the rounding. -/
theorem redeem_sub_eq_iff {S Q t A : Nat} (hA : A ≤ S) :
    t * (S - A) / Q = t * S / Q ↔ t * A ≤ t * S % Q := by
  have hle : t * A ≤ t * S := Nat.mul_le_mul_left _ hA
  rw [Nat.mul_sub]
  rcases Nat.eq_zero_or_pos Q with rfl | hQ
  · simpa using hle
  · have hdivmod := Nat.div_add_mod (t * S) Q
    constructor
    · intro heq
      have hfloor := Nat.mul_div_le (t * S - t * A) Q
      rw [heq] at hfloor
      omega
    · intro hrest
      have hsplit : t * S - t * A = t * S % Q - t * A + Q * (t * S / Q) := by omega
      rw [hsplit, Nat.add_mul_div_left _ _ hQ, Nat.div_eq_of_lt]
      · exact Nat.zero_add _
      · have hlt := Nat.mod_lt (t * S) hQ
        omega

/-! ## A group of investors -/

/-- Shares bought with `a` units; the first units into an empty fund buy one share each. -/
def sharesFor (S P a : Nat) : Nat :=
  if S = 0 then a else a * P / S

theorem sharesFor_priceKept (S P a : Nat) : PriceKept S P (S + a) (P + sharesFor S P a) := by
  unfold sharesFor
  split
  · rename_i hS
    unfold PriceKept
    rw [hS, Nat.zero_mul]
    exact Nat.zero_le _
  · exact buy_priceKept S P a

/-- The fund started with `S₀` units and `P₀` shares, of which a group had none.  Now the
group holds `T` of `P` shares, and the fund is worth no less to the others. -/
structure Fair (S₀ P₀ S P T : Nat) : Prop where
  price : PriceKept S₀ P₀ S P
  others : P₀ + T ≤ P
  fund : S₀ ≤ S

namespace Fair

variable {S₀ P₀ S P T T' : Nat}

theorem start (S₀ P₀ : Nat) : Fair S₀ P₀ S₀ P₀ 0 :=
  ⟨PriceKept.refl S₀ P₀, le_refl _, le_refl _⟩

theorem buy (h : Fair S₀ P₀ S P T) {a : Nat} (hT : T' ≤ T + sharesFor S P a) :
    Fair S₀ P₀ (S + a) (P + sharesFor S P a) T' where
  price := by
    rcases Nat.eq_zero_or_pos S₀ with hS₀ | hpos
    · unfold PriceKept
      rw [hS₀, Nat.zero_mul]
      exact Nat.zero_le _
    · apply h.price.trans (sharesFor_priceKept S P a)
      intro hP
      have hS : S ≠ 0 := by
        have hfund := h.fund
        omega
      rw [sharesFor, if_neg hS, hP, Nat.mul_zero, Nat.zero_div]
  others := by
    have hothers := h.others
    omega
  fund := by
    have hfund := h.fund
    omega

theorem redeem (h : Fair S₀ P₀ S P T) {t : Nat} (ht : 0 < t) (hT : T' + t = T) :
    Fair S₀ P₀ (S - t * S / P) (P - t) T' := by
  have hothers := h.others
  have hprice : PriceKept S₀ P₀ (S - t * S / P) (P - t) :=
    h.price.trans (redeem_priceKept S P t) (by omega)
  refine ⟨hprice, by omega, ?_⟩
  rcases Nat.eq_zero_or_pos P₀ with hP₀ | hpos
  · -- without other shares the price of an unowned fund was infinite, so nothing was sold
    rcases Nat.eq_zero_or_pos S₀ with hS₀ | hS₀
    · omega
    · have hnone : S₀ * P ≤ 0 := by
        have hle := h.price
        unfold PriceKept at hle
        rwa [hP₀, Nat.mul_zero] at hle
      have hP := Nat.mul_pos hS₀ (show 0 < P by omega)
      omega
  · apply Nat.le_of_mul_le_mul_right _ hpos
    calc S₀ * P₀ ≤ S₀ * (P - t) := Nat.mul_le_mul_left _ (by omega)
      _ ≤ (S - t * S / P) * P₀ := hprice

end Fair

end Tenderize.Support
