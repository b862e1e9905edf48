import Tenderize.Refinement.Accounts

/-!
# The pool handlers refine the pool steps
-/

namespace Tenderize

open Support

variable {D : Deployment} {chain : Chain} {accounts : List AccountInfo} {s : PoolState}
  {L' : Ledger} (h : D.Represents chain.ledger s) (ha : D.Addressed accounts)

include h ha

theorem processSetOwner_refines
    (hrun : processSetOwner D.programs D.programId accounts chain = .ok L') :
    ∃ s', PoolStep D s .setOwner s' ∧ D.Represents L' s' := by
  simp only [processSetOwner, bind_eq_ok, require_eq_ok] at hrun
  obtain ⟨a, hparse, pool, hload, -, -, fee, -, -, -, hstore⟩ := hrun
  obtain ⟨rest, haccounts⟩ := SetOwnerAccounts.parse_ok hparse
  have hkey := ha.key_eq haccounts
  obtain rfl := h.load_pool hkey hload
  rw [hkey] at hstore
  exact ⟨_, .setOwner a.newOwner.key a.newOwnerFee.key,
    h.store_pool hstore ⟨rfl, rfl, rfl, rfl, rfl, rfl, rfl, rfl⟩⟩

theorem processUpdatePoolBalance_ok
    (hrun : processUpdatePoolBalance D.programs D.programId accounts chain = .ok L') :
    ∃ total, addBalances chain.clock s.reserve s.list.validators = .ok total ∧
      D.Represents L'
        { s with
          pool :=
            { s.pool with stakeTotal := total, lastUpdateEpoch := chain.clock.epoch } } := by
  simp only [processUpdatePoolBalance, bind_eq_ok, require_eq_ok] at hrun
  obtain ⟨a, hparse, pool, hload, list, hlist, -, hreserve, total, htotal, hstore⟩ := hrun
  obtain ⟨rest, haccounts⟩ := UpdatePoolBalanceAccounts.parse_ok hparse
  have hkey := ha.key_eq haccounts
  obtain rfl := h.load_pool hkey hload
  obtain ⟨-, rfl, -⟩ := h.load_list hlist
  rw [hkey] at hreserve hstore
  rw [hreserve] at htotal
  refine ⟨total, ?_, h.store_pool hstore ⟨rfl, rfl, rfl, rfl, rfl, rfl, rfl, rfl⟩⟩
  rw [← h.reserve_eq]
  exact htotal

theorem processUpdatePoolBalance_refines
    (hrun : processUpdatePoolBalance D.programs D.programId accounts chain = .ok L') :
    ∃ s', PoolStep D s .updatePool s' ∧ D.Represents L' s' := by
  obtain ⟨total, hsum, h'⟩ := processUpdatePoolBalance_ok h ha hrun
  exact ⟨_, .updatePool chain.clock total hsum, h'⟩

/-! ## Withdraw -/

/-- The calls and the store a successful `Withdraw` consists of. -/
structure WithdrawRun (D : Deployment) (chain : Chain) (s : PoolState) (n : UInt64)
    (a : WithdrawAccounts) (stakeAmount : UInt64) (L₁ L₂ L' : Ledger) : Prop where
  positive : n ≠ 0
  price : s.pool.calcLamportsAmount n = some stakeAmount
  enough : stakeAmount ≤ s.reserve
  floor : minReserveBalanceConst ≤ s.reserve - stakeAmount ∧
    chain.rent.minimumBalance 0 ≤ s.reserve - stakeAmount
  burn : ∃ sigs, D.programs.burn splTokenId a.burnFrom.key a.poolMint.key D.withdrawKey n sigs
    chain.ledger = .ok L₁
  transfer : ∃ sigs, D.programs.transfer D.reserveKey a.target.key stakeAmount sigs L₁ = .ok L₂
  store : store D.programId D.poolKey (StakePool.serialize (s.pool.redeem n stakeAmount)) L₂ =
    .ok L'

theorem processWithdraw_ok {n : UInt64}
    (hrun : processWithdraw D.programs D.programId n accounts chain = .ok L') :
    ∃ a stakeAmount L₁ L₂, WithdrawAccounts.parse chain accounts = .ok a ∧
      WithdrawRun D chain s n a stakeAmount L₁ L₂ L' := by
  simp only [processWithdraw, bind_eq_ok, require_eq_ok, okOr_eq_ok] at hrun
  obtain ⟨-, hn, a, hparse, pool, hload, -, htoken, _, hwithdraw, -, hreserve, stakeAmount,
    hprice, -, henough, L₁, hburn, L₂, htransfer, hstore⟩ := hrun
  obtain ⟨rest, haccounts⟩ := WithdrawAccounts.parse_ok hparse
  have hkey := ha.key_eq haccounts
  obtain rfl := h.load_pool hkey hload
  rw [hkey] at hreserve hstore hwithdraw
  unfold tokenBurn at hburn
  rw [← htoken, h.wired.token_program, h.withdraw_checked hwithdraw] at hburn
  rw [hreserve] at henough htransfer
  have hbalance : (chain.ledger (getReserveAddress D.programs D.programId D.poolKey).1).lamports =
      s.reserve := h.reserve_eq
  simp only [hbalance, not_or, not_not, Rent.isExempt, decide_eq_true_eq] at henough
  obtain ⟨hle, hconst, hrent⟩ := henough
  exact ⟨a, stakeAmount, L₁, L₂, hparse, hn, hprice, UInt64.not_lt.mp hle,
    ⟨UInt64.not_lt.mp hconst, hrent⟩, ⟨_, hburn⟩, ⟨_, htransfer⟩, hstore⟩

theorem processWithdraw_refines {n : UInt64}
    (hrun : processWithdraw D.programs D.programId n accounts chain = .ok L') :
    ∃ a s', WithdrawAccounts.parse chain accounts = .ok a ∧
      PoolStep D s (.withdraw n a.burnFrom.key a.poolMint.key) s' ∧ D.Represents L' s' := by
  obtain ⟨a, stakeAmount, L₁, L₂, hparse, hw⟩ := processWithdraw_ok h ha hrun
  obtain ⟨_, hburn⟩ := hw.burn
  obtain ⟨_, htransfer⟩ := hw.transfer
  obtain ⟨mint', credit', h₁, hburned⟩ := h.burn hburn
  have h₂ := h₁.transfer htransfer
  have h₃ := h₂.store_pool hw.store ⟨rfl, rfl, rfl, rfl, rfl, rfl, rfl, rfl⟩
  refine ⟨a, _, hparse, .withdraw n stakeAmount a.burnFrom.key a.poolMint.key mint' credit'
    (L₂ D.reserveKey).lamports (D.stakesOf L₂) ?_, h₃⟩
  refine ⟨hw.positive, hw.price, hburned, hw.enough, ?_, ?_⟩
  · have hbefore : (L₁ D.reserveKey).lamports = s.reserve := h₁.reserve_eq
    rw [← hbefore]
    exact D.lawful.transfer_source_le htransfer
  · intro k
    have hstakes : D.stakesOf L₁ = s.stakes := h₁.stakes_eq
    rw [← hstakes]
    exact D.stakesOf_le (D.lawful.transfer_stakes_le htransfer) k

end Tenderize
