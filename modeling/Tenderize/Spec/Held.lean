import Tenderize.Spec.Books

/-!
# Lamports held by the stake accounts of a validator

The stake accounts of a validator are numbered; `held` adds up the first of them.  As long
as the derived addresses of the validators in question are different, a write to one
stake account changes one term of one such sum.
-/

namespace Tenderize

open Support

namespace Deployment

variable (D : Deployment)

/-- Lamports in the first `n` stake accounts of a validator. -/
def held (stakes : Pubkey → Nat) (validator : Pubkey) (n : Nat) : Nat :=
  ∑ i ∈ Finset.range n, stakes (D.stakeKey validator (UInt32.ofNat i))

/-- Lamports in all stake accounts of a validator. -/
def heldAll (stakes : Pubkey → Nat) (validator : Pubkey) : Nat :=
  D.held stakes validator (2 ^ 32)

/-- The stake addresses of the validators in `W` are different from each other and from
the reserve. -/
structure NoCollision (W : Set Pubkey) : Prop where
  ne_reserve : ∀ v ∈ W, ∀ i, D.stakeKey v i ≠ D.reserveKey
  injective : ∀ v ∈ W, ∀ v' ∈ W, ∀ i i', D.stakeKey v i = D.stakeKey v' i' → v = v' ∧ i = i'

variable {D} {stakes stakes' : Pubkey → Nat} {validator : Pubkey} {n : Nat}

theorem NoCollision.subset {W W' : Set Pubkey} (h : D.NoCollision W) (hsub : W' ⊆ W) :
    D.NoCollision W' where
  ne_reserve v hv := h.ne_reserve v (hsub hv)
  injective v hv v' hv' := h.injective v (hsub hv) v' (hsub hv')

theorem held_congr (hn : n ≤ 2 ^ 32)
    (h : ∀ i : UInt32, i.toNat < n →
      stakes' (D.stakeKey validator i) = stakes (D.stakeKey validator i)) :
    D.held stakes' validator n = D.held stakes validator n := by
  apply Finset.sum_congr rfl
  intro i hi
  rw [Finset.mem_range] at hi
  apply h
  rw [toNat_ofNat_index (by omega)]
  exact hi

theorem held_eq_zero (h : ∀ i, stakes (D.stakeKey validator i) = 0) :
    D.held stakes validator n = 0 :=
  Finset.sum_eq_zero fun _ _ => h _

theorem held_le_held
    (h : ∀ i, stakes (D.stakeKey validator i) ≤ stakes' (D.stakeKey validator i)) :
    D.held stakes validator n ≤ D.held stakes' validator n :=
  Finset.sum_le_sum fun _ _ => h _

variable (D stakes validator) in
theorem held_mono {m : Nat} (h : n ≤ m) : D.held stakes validator n ≤ D.held stakes validator m :=
  Finset.sum_le_sum_of_subset (Finset.range_mono h)

variable (D stakes validator n) in
theorem held_succ :
    D.held stakes validator (n + 1) =
      D.held stakes validator n + stakes (D.stakeKey validator (UInt32.ofNat n)) :=
  Finset.sum_range_succ _ _

/-- Empty accounts at the end do not count. -/
theorem held_eq_of_empty {m : Nat} (hle : m ≤ n) (hn : n ≤ 2 ^ 32)
    (h : ∀ i : UInt32, m ≤ i.toNat → i.toNat < n → stakes (D.stakeKey validator i) = 0) :
    D.held stakes validator n = D.held stakes validator m := by
  symm
  apply Finset.sum_subset (Finset.range_mono hle)
  intro i hi hout
  rw [Finset.mem_range] at hi hout
  have hi' : (UInt32.ofNat i).toNat = i := toNat_ofNat_index (by omega)
  apply h
  · rw [hi']
    omega
  · rw [hi']
    exact hi

/-- Only one of the first `n` accounts was written. -/
theorem held_add_of_others {index : UInt32} (hindex : index.toNat < n) (hn : n ≤ 2 ^ 32)
    (h : ∀ i, i ≠ index → stakes' (D.stakeKey validator i) = stakes (D.stakeKey validator i)) :
    D.held stakes' validator n + stakes (D.stakeKey validator index) =
      D.held stakes validator n + stakes' (D.stakeKey validator index) := by
  have hmem : index.toNat ∈ Finset.range n := Finset.mem_range.mpr hindex
  have hrest : ∑ i ∈ (Finset.range n).erase index.toNat,
        stakes' (D.stakeKey validator (UInt32.ofNat i)) =
      ∑ i ∈ (Finset.range n).erase index.toNat,
        stakes (D.stakeKey validator (UInt32.ofNat i)) := by
    apply Finset.sum_congr rfl
    intro i hi
    rw [Finset.mem_erase, Finset.mem_range] at hi
    apply h
    intro heq
    apply hi.1
    rw [← heq, toNat_ofNat_index (by omega)]
  unfold held
  rw [← Finset.add_sum_erase _ _ hmem, ← Finset.add_sum_erase (Finset.range n)
    (fun i => stakes (D.stakeKey validator (UInt32.ofNat i))) hmem, hrest]
  simp only [UInt32.ofNat_toNat]
  omega

namespace NoCollision

variable {W : Set Pubkey} {v v' : Pubkey} {i j : UInt32} {x : Nat}

theorem update_other (hW : D.NoCollision W) (hv : v ∈ W) (hv' : v' ∈ W) (hne : v' ≠ v) :
    Function.update stakes (D.stakeKey v i) x (D.stakeKey v' j) = stakes (D.stakeKey v' j) := by
  apply Function.update_of_ne
  intro heq
  exact hne (hW.injective v' hv' v hv j i heq).1

theorem update_ne (hW : D.NoCollision W) (hv : v ∈ W) (hne : j ≠ i) :
    Function.update stakes (D.stakeKey v i) x (D.stakeKey v j) = stakes (D.stakeKey v j) := by
  apply Function.update_of_ne
  intro heq
  exact hne (hW.injective v hv v hv j i heq).2

variable (stakes i x) in
theorem held_update (hW : D.NoCollision W) (hv : v ∈ W) (hi : i.toNat < n) (hn : n ≤ 2 ^ 32) :
    D.held (Function.update stakes (D.stakeKey v i) x) v n + stakes (D.stakeKey v i) =
      D.held stakes v n + x := by
  have hothers : ∀ j, j ≠ i → Function.update stakes (D.stakeKey v i) x (D.stakeKey v j) =
      stakes (D.stakeKey v j) := fun j hj => hW.update_ne hv hj
  have h := held_add_of_others hi hn hothers
  rw [Function.update_self] at h
  exact h

end NoCollision

end Deployment

end Tenderize
