import Tenderize.Spec.Updates

/-!
# Token balances

How many tokens of a mint each account holds, and what minting and burning do to it.
-/

namespace Tenderize

open Support

/-- Tokens of the mint that the address holds. -/
def tokensOf (L : Ledger) (mint k : Pubkey) : Nat :=
  if (L k).owner = splTokenId then
    match (L k).data with
    | .tokenAccount t => if t.mint = mint then t.amount.toNat else 0
    | _ => 0
  else 0

/-- Tokens of the mint that a group of accounts holds. -/
def groupTokens (L : Ledger) (mint : Pubkey) (G : Finset Pubkey) : Nat :=
  ∑ k ∈ G, tokensOf L mint k

/-- The mint of a token account. -/
def tokenMint? : AccountData → Option Pubkey
  | .tokenAccount t => some t.mint
  | _ => none

/-- The address holds a token account of the mint. -/
def HoldsMint (L : Ledger) (mint k : Pubkey) : Prop :=
  ∃ t, L.HasTokenAccount k t ∧ t.mint = mint

variable {L L' : Ledger} {mint m k : Pubkey} {t : TokenAccount}

theorem holdsMint_iff :
    HoldsMint L mint k ↔ (L k).owner = splTokenId ∧ tokenMint? (L k).data = some mint := by
  unfold HoldsMint Ledger.HasTokenAccount
  cases (L k).data <;> simp [tokenMint?]

instance : Decidable (HoldsMint L mint k) :=
  decidable_of_iff _ holdsMint_iff.symm

theorem tokensOf_of_has (h : L.HasTokenAccount k t) :
    tokensOf L mint k = if t.mint = mint then t.amount.toNat else 0 := by
  simp [tokensOf, h.1, h.2]

theorem tokensOf_of_owner (h : (L k).owner ≠ splTokenId) : tokensOf L mint k = 0 :=
  if_neg h

theorem tokensOf_of_not (h : ¬HoldsMint L mint k) : tokensOf L mint k = 0 := by
  unfold tokensOf
  split
  · rename_i howner
    split
    · rename_i t hdata
      exact if_neg fun hmint => h ⟨t, ⟨howner, hdata⟩, hmint⟩
    · rfl
  · rfl

theorem tokensOf_congr
    (h : ∀ t, t.mint = mint → (L'.HasTokenAccount k t ↔ L.HasTokenAccount k t)) :
    tokensOf L' mint k = tokensOf L mint k := by
  by_cases hheld : HoldsMint L mint k
  · obtain ⟨t, ht, hmint⟩ := hheld
    rw [tokensOf_of_has ht, tokensOf_of_has ((h t hmint).mpr ht)]
  · rw [tokensOf_of_not hheld]
    apply tokensOf_of_not
    rintro ⟨t, ht, hmint⟩
    exact hheld ⟨t, (h t hmint).mp ht, hmint⟩

/-- Token accounts are the same where owner and data are. -/
theorem hasTokenAccount_congr (howner : (L' k).owner = (L k).owner)
    (hdata : (L' k).data = (L k).data) : L'.HasTokenAccount k t ↔ L.HasTokenAccount k t := by
  unfold Ledger.HasTokenAccount
  rw [howner, hdata]

/-! ## Writing a token account and its mint -/

section Write

variable {account : Pubkey} {t' : TokenAccount} {state state' : Mint}

theorem write_same (ht : L.HasTokenAccount account t) (hm : L.HasMint mint state) :
    ((L.setData account (.tokenAccount t')).setData mint (.mint state')).HasTokenAccount
      account t' := by
  refine ⟨?_, ?_⟩
  · rw [Ledger.setData_owner, Ledger.setData_owner]
    exact ht.1
  · rw [Ledger.setData_of_ne _ _ (hm.ne_token ht).symm, Ledger.setData_data_same]

theorem write_other (hm : L.HasMint mint state) {x : TokenAccount} (hk : k ≠ account) :
    ((L.setData account (.tokenAccount t')).setData mint (.mint state')).HasTokenAccount k x ↔
      L.HasTokenAccount k x := by
  by_cases hkm : k = mint
  · subst hkm
    constructor
    · intro hx
      have hdata := hx.2
      rw [Ledger.setData_data_same] at hdata
      cases hdata
    · intro hx
      have hdata := hx.2
      rw [hm.2] at hdata
      cases hdata
  · apply hasTokenAccount_congr
    · rw [Ledger.setData_owner, Ledger.setData_owner]
    · rw [Ledger.setData_of_ne _ _ hkm, Ledger.setData_of_ne _ _ hk]

theorem write_holdsMint (ht : L.HasTokenAccount account t) (hm : L.HasMint mint state)
    (hmint : t'.mint = t.mint) (h : HoldsMint L m k) :
    HoldsMint ((L.setData account (.tokenAccount t')).setData mint (.mint state')) m k := by
  obtain ⟨x, hx, hxm⟩ := h
  by_cases hk : k = account
  · subst hk
    obtain rfl := hx.unique ht
    exact ⟨t', write_same ht hm, hmint.trans hxm⟩
  · exact ⟨x, (write_other hm hk).mpr hx, hxm⟩

theorem write_tokens (ht : L.HasTokenAccount account t) (hm : L.HasMint mint state)
    (hmint : t'.mint = t.mint) :
    tokensOf ((L.setData account (.tokenAccount t')).setData mint (.mint state')) m k =
      if k = account then if t.mint = m then t'.amount.toNat else 0 else tokensOf L m k := by
  split
  · rename_i hk
    rw [hk, tokensOf_of_has (write_same ht hm), hmint]
  · rename_i hk
    exact tokensOf_congr fun x _ => write_other hm hk

end Write

/-! ## Minting and burning -/

/-- Only tokens of the account's own mint are spent. -/
theorem Spends.tokens {n : UInt64} (h : Spends t t' n) :
    (if t'.mint = m then t'.amount.toNat else 0) =
      (if t.mint = m then t.amount.toNat else 0) - n.toNat := by
  rw [h.mint, h.amount, UInt64.toNat_sub_of_le _ _ h.enough]
  split
  · rfl
  · exact (Nat.zero_sub _).symm

namespace Programs.Lawful

variable {P : Programs} (hP : P.Lawful) {account authority : Pubkey} {n : UInt64}
  {sigs : List Pubkey} {G : Finset Pubkey}

include hP

/-- Tokens can only be minted into an account of their mint. -/
theorem mintTo_mint_eq (h : P.mintTo splTokenId mint account authority n sigs L = .ok L')
    (hk : HoldsMint L m account) : mint = m := by
  obtain ⟨t, -, ht, -, htm, -⟩ := hP.mintTo_ok h
  obtain ⟨x, hx, hxm⟩ := hk
  rw [hx.unique ht] at hxm
  exact htm.symm.trans hxm

theorem mintTo_holdsMint (h : P.mintTo splTokenId mint account authority n sigs L = .ok L')
    (hk : HoldsMint L m k) : HoldsMint L' m k := by
  obtain ⟨t, state, ht, hm, -, -, -, -, -, rfl⟩ := hP.mintTo_ok h
  exact write_holdsMint ht hm rfl hk

theorem mintTo_tokens (h : P.mintTo splTokenId mint account authority n sigs L = .ok L') :
    tokensOf L' m k = tokensOf L m k + if k = account ∧ mint = m then n.toNat else 0 := by
  obtain ⟨t, state, ht, hm, htm, -, -, hfits, -, hL⟩ := hP.mintTo_ok h
  have hmint : ({ t with amount := t.amount + n } : TokenAccount).mint = t.mint := rfl
  rw [hL, write_tokens ht hm hmint, ← htm]
  by_cases hk : k = account
  · rw [if_pos hk, hk, tokensOf_of_has ht]
    by_cases hmm : t.mint = m
    · simp only [hmm, if_true, and_self]
      exact toNat_add_of_lt hfits
    · simp [hmm]
  · simp [hk]

theorem mintTo_groupTokens (h : P.mintTo splTokenId mint account authority n sigs L = .ok L') :
    groupTokens L' m G ≤ groupTokens L m G + n.toNat := by
  have hpoint : ∀ k, tokensOf L' m k ≤ tokensOf L m k + if k = account then n.toNat else 0 := by
    intro k
    rw [hP.mintTo_tokens h]
    by_cases hk : k = account
    · simp only [hk, true_and, if_true]
      split <;> omega
    · simp [hk]
  calc groupTokens L' m G
      ≤ ∑ k ∈ G, (tokensOf L m k + if k = account then n.toNat else 0) :=
        Finset.sum_le_sum fun k _ => hpoint k
    _ = groupTokens L m G + ∑ k ∈ G, if k = account then n.toNat else 0 :=
        Finset.sum_add_distrib
    _ ≤ groupTokens L m G + n.toNat := by
        rw [Finset.sum_ite_eq']
        split <;> omega

theorem burn_tokens (h : P.burn splTokenId account mint authority n sigs L = .ok L') :
    tokensOf L' m k = tokensOf L m k - if k = account then n.toNat else 0 := by
  obtain ⟨t, t', state, ht, hm, -, -, -, hspend, -, rfl⟩ := hP.burn_ok h
  rw [write_tokens ht hm hspend.mint]
  split
  · rename_i hk
    rw [hk, tokensOf_of_has ht, ← hspend.tokens, hspend.mint]
  · rfl

theorem burn_holdsMint (h : P.burn splTokenId account mint authority n sigs L = .ok L')
    (hk : HoldsMint L m k) : HoldsMint L' m k := by
  obtain ⟨t, t', state, ht, hm, -, -, -, hspend, -, rfl⟩ := hP.burn_ok h
  exact write_holdsMint ht hm hspend.mint hk

theorem burn_groupTokens (h : P.burn splTokenId account mint authority n sigs L = .ok L')
    (hG : account ∈ G) : groupTokens L' mint G + n.toNat = groupTokens L mint G := by
  obtain ⟨t, t', state, ht, hm, htm, -, -, hspend, -, hL⟩ := hP.burn_ok h
  have hpoint : ∀ k, tokensOf L mint k =
      tokensOf L' mint k + if k = account then n.toNat else 0 := by
    intro k
    rw [hL, write_tokens ht hm hspend.mint, htm, if_pos rfl]
    split
    · rename_i hk
      have hle := UInt64.le_iff_toNat_le.mp hspend.enough
      rw [hk, tokensOf_of_has ht, if_pos htm, hspend.amount,
        UInt64.toNat_sub_of_le _ _ hspend.enough]
      omega
    · exact (Nat.add_zero _).symm
  unfold groupTokens
  rw [Finset.sum_congr rfl fun k _ => hpoint k, Finset.sum_add_distrib, Finset.sum_ite_eq',
    if_pos hG]

end Programs.Lawful

end Tenderize
