import Tenderize.Model.WebClient
import Tenderize.Properties.ReserveFloor
import Tenderize.Reference.Pool
import Tenderize.Support.Rounding

/-!
# Instant withdrawals

The web client compares pool tokens with the lamports of the reserve, the program compares
the lamports the tokens are worth.  The client's limit is enough exactly when the largest
reserve that the program refuses lies below it.
-/

namespace Tenderize

open Support

/-! ## The funds check of the program -/

/-- The part of `process_withdraw` that looks at the funds; the lamports to pay out. -/
def withdrawFunds (stakePool : StakePool) (rent : Rent) (reserveBalance poolAmount : UInt64) :
    Except ProgramError UInt64 := do
  let stakeAmount ← okOr (stakePool.calcLamportsAmount poolAmount) (.custom .calculationFailure)
  require (¬(stakeAmount > reserveBalance ∨
      reserveBalance - stakeAmount < minReserveBalanceConst ∨
      ¬rent.isExempt (reserveBalance - stakeAmount) 0)) .insufficientFunds
  pure stakeAmount

/-- The handler passes through the check. -/
theorem processWithdraw_funds {P : Programs} {programId : Pubkey} {poolAmount : UInt64}
    {accounts : List AccountInfo} {chain : Chain} :
    processWithdraw P programId poolAmount accounts chain = (do
      require (poolAmount ≠ 0) .invalidArgument
      let a ← WithdrawAccounts.parse chain accounts
      let L := chain.ledger
      let stakePool ← loadStakePool P programId L a.stakePool
      require (stakePool.tokenProgramId = a.tokenProgram.key) .incorrectProgramId
      stakePool.checkAuthorityWithdraw P programId a.withdraw.key a.stakePool.key
      let reserve := getReserveAddress P programId a.stakePool.key
      require (a.reserve.key = reserve.1) .incorrectProgramId
      let stakeAmount ← withdrawFunds stakePool chain.rent (L a.reserve.key).lamports poolAmount
      let L ← tokenBurn P programId a.stakePool.key a.tokenProgram a.burnFrom a.poolMint a.withdraw
        .withdraw stakePool.withdrawBumpSeed poolAmount L
      let L ← P.transfer a.reserve.key a.target.key stakeAmount
        (P.signersWith programId [a.systemProgram, a.reserve, a.target]
          [authoritySeeds a.stakePool.key .reserve reserve.2]) L
      store programId a.stakePool.key
        (StakePool.serialize (stakePool.redeem poolAmount stakeAmount)) L) := by
  unfold processWithdraw withdrawFunds
  simp only [bind_assoc, pure_bind]

/-- The most lamports in the reserve at which the program refuses the withdrawal. -/
def StakePool.refusedUpTo (pool : StakePool) (rent : Rent) (poolAmount : UInt64) : Nat :=
  match pool.calcLamportsAmount poolAmount with
  | some lamports => min (lamports.toNat + (reserveFloor rent).toNat - 1) (2 ^ 64 - 1)
  | none => 2 ^ 64 - 1

section Program

variable {pool : StakePool} {rent : Rent} {reserve amount : UInt64}

theorem le_reserveFloor (rent : Rent) : 1000000 ≤ (reserveFloor rent).toNat := by
  unfold reserveFloor
  rw [UInt64.toNat_max]
  have hconst : minReserveBalanceConst.toNat = 1000000 := rfl
  omega

/-- The three parts of the check keep the floor in the reserve. -/
theorem fundsSuffice_iff {lamports : UInt64} :
    ¬(lamports > reserve ∨ reserve - lamports < minReserveBalanceConst ∨
      ¬rent.isExempt (reserve - lamports) 0) ↔
      lamports.toNat + (reserveFloor rent).toNat ≤ reserve.toNat := by
  have hmax : (reserveFloor rent).toNat =
      max minReserveBalanceConst.toNat (rent.minimumBalance 0).toNat := by
    unfold reserveFloor
    rw [UInt64.toNat_max]
  have hfloor := le_reserveFloor rent
  have hexempt : rent.isExempt (reserve - lamports) 0 = true ↔
      (rent.minimumBalance 0).toNat ≤ (reserve - lamports).toNat := by
    unfold Rent.isExempt
    rw [decide_eq_true_eq, UInt64.le_iff_toNat_le]
  rw [not_or, not_or, not_not, hexempt, gt_iff_lt, UInt64.not_lt, UInt64.not_lt,
    UInt64.le_iff_toNat_le, UInt64.le_iff_toNat_le]
  constructor
  · rintro ⟨hle, hconst, hrent⟩
    rw [UInt64.toNat_sub_of_le _ _ (UInt64.le_iff_toNat_le.mpr hle)] at hconst hrent
    omega
  · intro h
    have hle : lamports.toNat ≤ reserve.toNat := by omega
    rw [UInt64.toNat_sub_of_le _ _ (UInt64.le_iff_toNat_le.mpr hle)]
    omega

theorem refusedUpTo_pos (pool : StakePool) (rent : Rent) (amount : UInt64) :
    0 < pool.refusedUpTo rent amount := by
  have hfloor := le_reserveFloor rent
  unfold StakePool.refusedUpTo
  split <;> omega

theorem refusedUpTo_lt (pool : StakePool) (rent : Rent) (amount : UInt64) :
    pool.refusedUpTo rent amount < 2 ^ 64 := by
  unfold StakePool.refusedUpTo
  split <;> omega

theorem withdrawFunds_ok_iff :
    (∃ lamports, withdrawFunds pool rent reserve amount = .ok lamports) ↔
      pool.refusedUpTo rent amount < reserve.toNat := by
  have hreserve := reserve.toNat_lt
  have hfloor := le_reserveFloor rent
  simp only [withdrawFunds, bind_eq_ok, okOr_eq_ok, require_eq_ok, pure_eq_ok, fundsSuffice_iff]
  unfold StakePool.refusedUpTo
  cases hcalc : pool.calcLamportsAmount amount with
  | none =>
      simp only [reduceCtorEq, false_and, exists_false, false_iff]
      omega
  | some lamports =>
      constructor
      · rintro ⟨_, _, heq, _, hfunds, rfl⟩
        obtain rfl := Option.some.inj heq
        change min _ _ < _
        omega
      · intro h
        change min _ _ < _ at h
        exact ⟨lamports, lamports, rfl, (), by omega, rfl⟩

end Program

/-! ## The offer of the client -/

namespace Web

/-- The client offers an instant withdrawal, and its action goes through with it. -/
def Offers (rent : Rent) (reserve : UInt64) (amount : Nat) : Prop :=
  ((WithdrawInput.mounted.setReserve reserve).setMinimumBalance rent).isReserveDepleted amount =
      false ∧
    checkReserve rent reserve amount = .ok ()

/-- The lamports from which on the client offers the withdrawal. -/
def offeredFrom (rent : Rent) (amount : Nat) : Nat :=
  max (addNumbers (addNumbers (getMinimumBalanceForRentExemption rent TokenAccount.LEN) 1) amount)
    (addNumbers (addNumbers (getMinimumBalanceForRentExemption rent 0)
      (getMinimumBalanceForRentExemption rent TokenAccount.LEN)) amount)

theorem isReserveDepleted_eq_false {input : WithdrawInput} {amount : Nat} :
    input.isReserveDepleted amount = false ↔
      ∃ lamports, input.reserve = some lamports ∧
        addNumbers input.minimumBalance amount ≤ lamports := by
  unfold WithdrawInput.isReserveDepleted
  cases input.reserve with
  | none => simp
  | some lamports => simp

theorem checkReserve_eq_ok {rent : Rent} {reserve : UInt64} {amount : Nat} :
    checkReserve rent reserve amount = .ok () ↔
      ∃ lamports, accountLamports reserve = some lamports ∧
        addNumbers (addNumbers (getMinimumBalanceForRentExemption rent 0)
          (getMinimumBalanceForRentExemption rent TokenAccount.LEN)) amount ≤ lamports := by
  unfold checkReserve
  cases accountLamports reserve with
  | none => simp
  | some lamports => simp [require_eq_ok]

theorem offers_iff {rent : Rent} {reserve : UInt64} {amount : Nat} :
    Offers rent reserve amount ↔
      reserve ≠ 0 ∧ offeredFrom rent amount ≤ numberOfBigInt reserve.toNat := by
  unfold Offers offeredFrom
  rw [isReserveDepleted_eq_false, checkReserve_eq_ok, max_le_iff]
  change (∃ lamports, accountLamports reserve = some lamports ∧ _) ∧ _ ↔ _
  unfold accountLamports
  by_cases hzero : reserve = 0
  · simp [hzero]
  · rw [if_neg hzero]
    constructor
    · rintro ⟨⟨_, ⟨⟩, hdepleted⟩, _, ⟨⟩, hcheck⟩
      exact ⟨hzero, hdepleted, hcheck⟩
    · rintro ⟨-, hdepleted, hcheck⟩
      exact ⟨⟨_, rfl, hdepleted⟩, _, rfl, hcheck⟩

end Web

theorem numberOfBigInt_eq_roundBits (value : Nat) : numberOfBigInt value = roundBits 53 value := by
  unfold numberOfBigInt roundBits nearestEven
  rw [show value.log2 + 1 - 53 = value.log2 - 52 by omega]

theorem numberOfBigInt_mono {a b : Nat} (h : a ≤ b) : numberOfBigInt a ≤ numberOfBigInt b := by
  rw [numberOfBigInt_eq_roundBits, numberOfBigInt_eq_roundBits]
  exact roundBits_mono (by decide) h

/-- Whatever the reserve, the program honours what the client offers, exactly when the
largest reserve it refuses is, as a number of the client, below the client's limit. -/
theorem offers_honoured_iff (pool : StakePool) (rent : Rent) (amount : UInt64) :
    (∀ reserve, Web.Offers rent reserve (numberOfBigInt amount.toNat) →
      ∃ lamports, withdrawFunds pool rent reserve amount = .ok lamports) ↔
      numberOfBigInt (pool.refusedUpTo rent amount) <
        Web.offeredFrom rent (numberOfBigInt amount.toNat) := by
  simp only [Web.offers_iff, withdrawFunds_ok_iff]
  constructor
  · intro h
    by_contra hlimit
    -- the largest reserve that is refused is offered
    have hpos := refusedUpTo_pos pool rent amount
    have hvalue := UInt64.toNat_ofNat_of_lt' (refusedUpTo_lt pool rent amount)
    have hne : UInt64.ofNat (pool.refusedUpTo rent amount) ≠ 0 := by
      intro hzero
      rw [hzero] at hvalue
      change 0 = _ at hvalue
      omega
    have hhonoured := h _ ⟨hne, by rw [hvalue]; exact Nat.not_lt.mp hlimit⟩
    omega
  · rintro h reserve ⟨-, hoffered⟩
    by_contra hrefused
    have hmono := numberOfBigInt_mono (Nat.not_lt.mp hrefused)
    omega

/-- Where all sums are exact, the client's limit has to cover what the tokens are worth and
the floor of the reserve. -/
theorem refused_lt_offered_iff {pool : StakePool} {rent : Rent} {amount lamports : UInt64}
    (hprice : pool.calcLamportsAmount amount = some lamports)
    (hchain : lamports.toNat + (reserveFloor rent).toNat < 2 ^ 53)
    (hclient : amount.toNat + (rent.minimumBalance 0).toNat +
      (rent.minimumBalance TokenAccount.LEN).toNat + 1 < 2 ^ 53) :
    numberOfBigInt (pool.refusedUpTo rent amount) <
        Web.offeredFrom rent (numberOfBigInt amount.toNat) ↔
      lamports.toNat + (reserveFloor rent).toNat ≤
        amount.toNat + (rent.minimumBalance TokenAccount.LEN).toNat +
          max 1 (rent.minimumBalance 0).toNat := by
  have hfloor := le_reserveFloor rent
  have hrefused : pool.refusedUpTo rent amount =
      lamports.toNat + (reserveFloor rent).toNat - 1 := by
    unfold StakePool.refusedUpTo
    rw [hprice]
    change min _ _ = _
    omega
  unfold Web.offeredFrom Web.addNumbers Web.getMinimumBalanceForRentExemption
  rw [hrefused]
  simp (disch := omega) only [numberOfBigInt_small]
  omega

/-- After rewards that doubled the stake, the client offers to withdraw tokens that are worth
more than the reserve holds. -/
theorem withdrawal_offered_and_refused :
    ∃ (pool : StakePool) (rent : Rent) (reserve amount : UInt64),
      0 < pool.stakeTotal ∧ 0 < pool.poolTotal ∧
      Web.Offers rent reserve (numberOfBigInt amount.toNat) ∧
      withdrawFunds pool rent reserve amount = .error .insufficientFunds := by
  refine ⟨{ (default : StakePool) with stakeTotal := 2000000000, poolTotal := 1000000000 },
    Reference.start.rent, 1500000000, 1000000000, ?_⟩
  unfold Web.Offers
  decide +kernel

end Tenderize
