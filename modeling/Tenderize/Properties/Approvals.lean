import Tenderize.Refinement.Runs
import Tenderize.Refinement.Tokens
import Tenderize.Reference.Pool

/-!
# Who profits from an approval

Users let the withdraw authority spend from their token accounts and call `Withdraw`,
`Credit` or `Deposit` afterwards.  The program signs for the authority whoever calls, so what
the tokens buy goes to whatever account the caller names.
-/

namespace Tenderize

open Support

variable {D : Deployment} {c : Chain} {s : PoolState} {accounts : List AccountInfo}
  {L' : Ledger} {k : Pubkey}

/-! ## Accounts of the three instructions -/

/-- Pool tokens that a deposit of `amount` lamports gives to the user. -/
def StakePool.calcUserAmount (pool : StakePool) (amount : UInt64) : Option UInt64 := do
  let poolAmount ← pool.calcPoolDepositAmount amount
  let feeAmount ← pool.calcFeeAmount poolAmount
  checkedSub poolAmount feeAmount

section Gains

variable (D) (c : Chain)

/-- The lamports of an account if an instruction gives lamports to nobody: the reserve takes in
what is deposited and pays for what is redeemed. -/
def Deployment.lamportsDue (i : StakePoolInstruction) (k : Pubkey) : Nat :=
  if k = D.reserveKey then
    match i with
    | .deposit amount => (c.ledger k).lamports.toNat + amount.toNat
    | .withdraw n => (c.ledger k).lamports.toNat -
        (((D.stateOf c.ledger).pool.calcLamportsAmount n).getD 0).toNat
    | _ => (c.ledger k).lamports.toNat
  else (c.ledger k).lamports.toNat

end Gains

theorem Deployment.lamportsDue_of_ne {i : StakePoolInstruction} (hk : k ≠ D.reserveKey) :
    D.lamportsDue c i k = (c.ledger k).lamports.toNat :=
  if_neg hk

/-! ## Withdraw -/

section Withdraw

variable {n stakeAmount : UInt64} {a : WithdrawAccounts} {L₁ L₂ : Ledger}

/-- The price goes from the reserve to the target, also if that is the reserve. -/
theorem WithdrawRun.lamports (h : D.Represents c.ledger s)
    (hw : WithdrawRun D c s n a stakeAmount L₁ L₂ L') (k : Pubkey) :
    (L' k).lamports.toNat = D.lamportsDue c (.withdraw n) k +
      if k = a.target.key then stakeAmount.toNat else 0 := by
  obtain ⟨_, hburn⟩ := hw.burn
  obtain ⟨_, htransfer⟩ := hw.transfer
  obtain ⟨t, t', m, -, -, -, -, -, -, -, hL₁⟩ := D.lawful.burn_ok hburn
  obtain ⟨-, -, henough, hfits, hL₂⟩ := D.lawful.transfer_ok htransfer
  obtain ⟨data, -, -, rfl⟩ := store_eq_ok.mp hw.store
  have hsame : ∀ k, (L₁ k).lamports = (c.ledger k).lamports := by
    intro k
    rw [hL₁, Ledger.setData_lamports, Ledger.setData_lamports]
  have hle := UInt64.le_iff_toNat_le.mp henough
  have hdue : D.lamportsDue c (.withdraw n) D.reserveKey =
      (c.ledger D.reserveKey).lamports.toNat - stakeAmount.toNat := by
    simp only [Deployment.lamportsDue, if_true, ← h.eq_stateOf, hw.price, Option.getD_some]
  rw [hsame] at hle
  rw [Ledger.setData_lamports, hL₂]
  by_cases hself : D.reserveKey = a.target.key
  · rw [← hself, L₁.moveLamports_self, hsame]
    by_cases hk : k = D.reserveKey
    · rw [if_pos hk, hk, hdue]
      omega
    · rw [if_neg hk, Deployment.lamportsDue_of_ne hk, Nat.add_zero]
  · by_cases hk : k = D.reserveKey
    · rw [hk, L₁.moveLamports_source _ hself, if_neg hself, hdue, ← hsame]
      exact UInt64.toNat_sub_of_le _ _ henough
    · rw [Deployment.lamportsDue_of_ne hk]
      by_cases htarget : k = a.target.key
      · rw [if_pos htarget, htarget, L₁.moveLamports_target _ hself, ← hsame]
        exact toNat_add_of_lt (hfits hself)
      · rw [if_neg htarget, L₁.moveLamports_of_ne _ hk htarget, hsame, Nat.add_zero]

theorem WithdrawRun.tokens (h : WithdrawRun D c s n a stakeAmount L₁ L₂ L') (m k : Pubkey) :
    tokensOf L' m k =
      tokensOf c.ledger m k - if k = a.burnFrom.key then n.toNat else 0 := by
  obtain ⟨_, hburn⟩ := h.burn
  rw [tokensOf_congr fun t _ => h.kept_tokens k t]
  exact D.lawful.burn_tokens hburn

end Withdraw

/-! ## Credit -/

section Credit

variable {amount : UInt64} {a : CreditAccounts} {credits : List CreditRecord} {L₁ : Ledger}

/-- The credit reserve holds no wrapped SOL, so a credit moves tokens only. -/
theorem CreditRun.lamports (h : D.Represents c.ledger s)
    (hc : CreditRun D c s amount a credits L₁ L') (k : Pubkey) :
    (L' k).lamports = (c.ledger k).lamports := by
  obtain ⟨_, hmove⟩ := hc.move
  obtain ⟨data, -, -, rfl⟩ := store_eq_ok.mp hc.store
  obtain ⟨x, y, -, hy, hxy, -, -, -, hcase⟩ := D.lawful.tokenTransfer_ok hmove
  have hnative : ¬x.isNative.isSome = true := by
    rw [x.native_iff, hxy, hy.unique h.has_credit_reserve, h.wired.reserve_mint]
    exact h.wired.mint_ne_native
  rw [Ledger.setData_lamports]
  rcases hcase with ⟨-, rfl⟩ | ⟨-, -, -, x', -, rfl⟩
  · rfl
  · rw [Ledger.setData_lamports, Ledger.setData_lamports, if_neg hnative]

end Credit

/-! ## Deposit -/

section Deposit

variable {amount poolAmount feeAmount : UInt64} {a : DepositAccounts} {L₁ L₂ L₃ : Ledger}

theorem DepositRun.lamports_le (h : DepositRun D c s amount a poolAmount feeAmount L₁ L₂ L₃ L')
    (k : Pubkey) : (L' k).lamports.toNat ≤ D.lamportsDue c (.deposit amount) k := by
  obtain ⟨_, hmint⟩ := h.mintUser
  obtain ⟨_, hmintFee⟩ := h.mintFee
  obtain ⟨t, m, -, -, -, -, -, -, -, hL₂⟩ := D.lawful.mintTo_ok hmint
  obtain ⟨t', m', -, -, -, -, -, -, -, hL₃⟩ := D.lawful.mintTo_ok hmintFee
  obtain ⟨data, -, -, rfl⟩ := store_eq_ok.mp h.store
  rw [Ledger.setData_lamports, hL₃, Ledger.setData_lamports, Ledger.setData_lamports, hL₂,
    Ledger.setData_lamports, Ledger.setData_lamports]
  by_cases hk : k = D.reserveKey
  · rw [hk, h.lamports.reserve]
    exact (if_pos rfl).ge
  · rw [Deployment.lamportsDue_of_ne hk]
    exact UInt64.le_iff_toNat_le.mp (h.lamports.lamports_le k hk)

/-- The user's share of the new tokens goes to the named account and the fee to the owner. -/
theorem DepositRun.tokens (h : DepositRun D c s amount a poolAmount feeAmount L₁ L₂ L₃ L')
    (m k : Pubkey) : tokensOf L' m k =
      (tokensOf c.ledger m k - if k = a.sourceUser.key then amount.toNat else 0) +
        (if k = a.destUser.key ∧ a.poolMint.key = m then (poolAmount - feeAmount).toNat else 0) +
        if k = s.pool.ownerFeeAccount ∧ a.poolMint.key = m then feeAmount.toNat else 0 := by
  obtain ⟨_, hmint⟩ := h.mintUser
  obtain ⟨_, hmintFee⟩ := h.mintFee
  rw [tokensOf_congr fun t _ => store_tokens h.store t, D.lawful.mintTo_tokens hmintFee,
    D.lawful.mintTo_tokens hmint, h.lamports.taken]

theorem DepositRun.userAmount (h : DepositRun D c s amount a poolAmount feeAmount L₁ L₂ L₃ L') :
    s.pool.calcUserAmount amount = some (poolAmount - feeAmount) := by
  simp [StakePool.calcUserAmount, h.price, h.fee, checkedSub, h.fee_le]

end Deposit

/-! ## All three -/

section

open Reference

def lamportsOf (key : Pubkey) (c : Chain) (L : Ledger) : UInt64 × UInt64 :=
  ((c.ledger key).lamports, (L key).lamports)

end

end Tenderize
