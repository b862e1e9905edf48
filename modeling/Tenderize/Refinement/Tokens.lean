import Tenderize.Refinement.Deposit
import Tenderize.Refinement.Pool
import Tenderize.Spec.Tokens

/-!
# What trades do to token balances

A deposit mints its pool tokens to accounts of the named mint, a withdrawal burns them from
one account.  Token accounts of other mints are only touched on the wrapped-SOL path.
-/

namespace Tenderize

open Support

variable {D : Deployment} {chain : Chain} {s : PoolState} {L L' : Ledger} {m k : Pubkey}
  {G : Finset Pubkey}

/-- The program writes no token accounts. -/
theorem store_tokens {key : Pubkey} {write : AccountData → Except ProgramError AccountData}
    (h : store D.programId key write L = .ok L') (t : TokenAccount) :
    L'.HasTokenAccount k t ↔ L.HasTokenAccount k t := by
  obtain ⟨data, -, howner, rfl⟩ := store_eq_ok.mp h
  by_cases hk : k = key
  · subst hk
    rcases howner with howner | rfl
    · unfold Ledger.HasTokenAccount
      rw [Ledger.setData_owner, howner]
      simp [D.ne_token]
    · apply hasTokenAccount_congr
      · rw [Ledger.setData_owner]
      · rw [Ledger.setData_data_same]
  · apply hasTokenAccount_congr
    · rw [Ledger.setData_owner]
    · rw [L.setData_of_ne _ hk]

theorem holdsMint_congr (h : ∀ t, t.mint = m → (L'.HasTokenAccount k t ↔ L.HasTokenAccount k t)) :
    HoldsMint L' m k ↔ HoldsMint L m k := by
  constructor
  · rintro ⟨t, ht, hmint⟩
    exact ⟨t, (h t hmint).mp ht, hmint⟩
  · rintro ⟨t, ht, hmint⟩
    exact ⟨t, (h t hmint).mpr ht, hmint⟩

theorem groupTokens_congr
    (h : ∀ k t, t.mint = m → (L'.HasTokenAccount k t ↔ L.HasTokenAccount k t)) :
    groupTokens L' m G = groupTokens L m G :=
  Finset.sum_congr rfl fun k _ => tokensOf_congr (h k)

namespace DepositRun

variable {amount poolAmount feeAmount : UInt64} {a : DepositAccounts} {L₁ L₂ L₃ : Ledger}

theorem paid_tokens (h : DepositRun D chain s amount a poolAmount feeAmount L₁ L₂ L₃ L')
    (hm : m ≠ nativeMintId) (k : Pubkey) (t : TokenAccount) (ht : t.mint = m) :
    L₁.HasTokenAccount k t ↔ chain.ledger.HasTokenAccount k t :=
  h.lamports.tokens k t (ht ▸ hm)

theorem holdsMint (h : DepositRun D chain s amount a poolAmount feeAmount L₁ L₂ L₃ L')
    (hm : m ≠ nativeMintId) (hk : HoldsMint chain.ledger m k) : HoldsMint L' m k := by
  obtain ⟨_, hmint⟩ := h.mintUser
  obtain ⟨_, hmintFee⟩ := h.mintFee
  have h₁ := (holdsMint_congr (h.paid_tokens hm k)).mpr hk
  have h₃ := D.lawful.mintTo_holdsMint hmintFee (D.lawful.mintTo_holdsMint hmint h₁)
  exact (holdsMint_congr fun t _ => store_tokens h.store t).mpr h₃

/-- The fee can only be minted under the mint of the fee account. -/
theorem mint_eq (h : DepositRun D chain s amount a poolAmount feeAmount L₁ L₂ L₃ L')
    (hm : m ≠ nativeMintId) (hfee : HoldsMint chain.ledger m s.pool.ownerFeeAccount) :
    a.poolMint.key = m := by
  obtain ⟨_, hmint⟩ := h.mintUser
  obtain ⟨_, hmintFee⟩ := h.mintFee
  have h₁ := (holdsMint_congr (h.paid_tokens hm _)).mpr hfee
  exact D.lawful.mintTo_mint_eq hmintFee (D.lawful.mintTo_holdsMint hmint h₁)

theorem groupTokens_le (h : DepositRun D chain s amount a poolAmount feeAmount L₁ L₂ L₃ L')
    (hm : m ≠ nativeMintId) :
    groupTokens L' m G ≤ groupTokens chain.ledger m G + poolAmount.toNat := by
  obtain ⟨_, hmint⟩ := h.mintUser
  obtain ⟨_, hmintFee⟩ := h.mintFee
  have hpaid : groupTokens L₁ m G = groupTokens chain.ledger m G :=
    groupTokens_congr (h.paid_tokens hm)
  have huser := D.lawful.mintTo_groupTokens (m := m) (G := G) hmint
  have hfee := D.lawful.mintTo_groupTokens (m := m) (G := G) hmintFee
  have hstore : groupTokens L' m G = groupTokens L₃ m G :=
    groupTokens_congr fun k t _ => store_tokens h.store t
  have hle := UInt64.le_iff_toNat_le.mp h.fee_le
  have hsub := UInt64.toNat_sub_of_le _ _ h.fee_le
  omega

end DepositRun

namespace WithdrawRun

variable {n stakeAmount : UInt64} {a : WithdrawAccounts} {L₁ L₂ : Ledger}

theorem kept_tokens (h : WithdrawRun D chain s n a stakeAmount L₁ L₂ L') (k : Pubkey)
    (t : TokenAccount) : L'.HasTokenAccount k t ↔ L₁.HasTokenAccount k t := by
  obtain ⟨_, htransfer⟩ := h.transfer
  obtain ⟨-, -, -, -, rfl⟩ := D.lawful.transfer_ok htransfer
  rw [store_tokens h.store]
  exact hasTokenAccount_congr (L₁.moveLamports_owner _ _ _ _) (L₁.moveLamports_data _ _ _ _)

theorem holdsMint (h : WithdrawRun D chain s n a stakeAmount L₁ L₂ L')
    (hk : HoldsMint chain.ledger m k) : HoldsMint L' m k := by
  obtain ⟨_, hburn⟩ := h.burn
  exact (holdsMint_congr fun t _ => h.kept_tokens k t).mpr (D.lawful.burn_holdsMint hburn hk)

theorem groupTokens_eq (h : WithdrawRun D chain s n a stakeAmount L₁ L₂ L')
    (hG : a.burnFrom.key ∈ G) :
    groupTokens L' a.poolMint.key G + n.toNat =
      groupTokens chain.ledger a.poolMint.key G := by
  obtain ⟨_, hburn⟩ := h.burn
  rw [groupTokens_congr fun k t _ => h.kept_tokens k t]
  exact D.lawful.burn_groupTokens hburn hG

end WithdrawRun

end Tenderize
