import Tenderize.Spec.Books
import Tenderize.Spec.Calls

/-!
# Steps of the pool

What each instruction is for, as a relation between pool states.  `PoolStep` collects
them with a step for everything that happens outside the program.
-/

namespace Tenderize

open Support

namespace PoolState

variable (s : PoolState)

/-! ## Deposits and withdrawals -/

/-- `amount` lamports came into the reserve for `poolAmount` new tokens of `mint`. -/
structure Deposited (amount poolAmount : UInt64) (mint : Pubkey) (mint' : Mint)
    (credit' : TokenAccount) (reserve' : UInt64) : Prop where
  positive : amount ≠ 0
  price : s.pool.calcPoolDepositAmount amount = some poolAmount
  reserve : reserve'.toNat = s.reserve.toNat + amount.toNat
  minted : s.Minted mint poolAmount mint' credit'

/-- `n` tokens of `mint` were burned from `burnFrom` for `stakeAmount` lamports. -/
structure Withdrawn (n stakeAmount : UInt64) (burnFrom mint : Pubkey) (mint' : Mint)
    (credit' : TokenAccount) (reserve' : UInt64) (stakes' : Pubkey → Nat) : Prop where
  positive : n ≠ 0
  price : s.pool.calcLamportsAmount n = some stakeAmount
  burned : s.Burned burnFrom mint n mint' credit'
  enough : stakeAmount ≤ s.reserve
  reserve : s.reserve.toNat ≤ reserve'.toNat + stakeAmount.toNat
  stakes_le : ∀ k, s.stakes k ≤ stakes' k

/-! ## Credits -/

/-- Tokens queued in a list of credits. -/
def queued (credits : List CreditRecord) : Nat :=
  (credits.map (fun credit => credit.tokenAmount.toNat)).sum

end PoolState

/-- Every payment has the price of the pool that earlier payments of the call left,
as far as the loop updates it. -/
def StakePool.Prices (pool : StakePool) : List Payment → Prop
  | [] => True
  | payment :: payments =>
      pool.calcLamportsAmount payment.credit.tokenAmount = some payment.lamports ∧
        StakePool.Prices
          { pool with poolTotal := pool.poolTotal - payment.credit.tokenAmount } payments

/-- The credits that can be paid in order, at the prices of the payment loop, until the
next one would take more than is available. -/
def StakePool.affordable (available : UInt64) :
    StakePool → UInt64 → List CreditRecord → List CreditRecord
  | _, _, [] => []
  | pool, total, credit :: credits =>
      match pool.calcLamportsAmount credit.tokenAmount with
      | none => []
      | some lamports =>
          if total + lamports > available then []
          else
            credit :: StakePool.affordable available
              { pool with poolTotal := pool.poolTotal - credit.tokenAmount }
              (total + lamports) credits

theorem StakePool.affordable_sublist (available : UInt64) (credits : List CreditRecord) :
    ∀ (pool : StakePool) (total : UInt64),
      (pool.affordable available total credits).Sublist credits := by
  induction credits with
  | nil =>
      intro pool total
      exact List.Sublist.refl _
  | cons credit credits ih =>
      intro pool total
      unfold StakePool.affordable
      split
      · exact List.nil_sublist _
      · split
        · exact List.nil_sublist _
        · exact (ih _ _).cons_cons credit

/-- The credits of a list whose target is a system account. -/
def payable (L : Ledger) (credits : List CreditRecord) : List CreditRecord :=
  credits.filter (fun credit => (L credit.solTarget).owner = systemProgramId)

/-- Pool tokens burned by a list of payments. -/
def burnedTokens (paid : List Payment) : Nat :=
  (paid.map (fun payment => payment.credit.tokenAmount.toNat)).sum

namespace PoolState

theorem queued_append (xs ys : List CreditRecord) :
    queued (xs ++ ys) = queued xs + queued ys := by
  simp [queued]

theorem queued_perm {xs ys : List CreditRecord} (h : xs.Perm ys) : queued xs = queued ys :=
  (h.map _).sum_eq

theorem queued_paid (paid : List Payment) :
    queued (paid.map (fun payment => payment.credit)) = burnedTokens paid := by
  simp [queued, burnedTokens, Function.comp_def]

/-- The tokens of the payments left the supply and the credit reserve. -/
structure PaidTokens (s : PoolState) (paid : List Payment) (mint' : Mint)
    (credit' : TokenAccount) (stakes' : Pubkey → Nat) : Prop where
  supply : s.mint.supply.toNat = mint'.supply.toNat + burnedTokens paid
  balance : s.creditReserve.amount.toNat = credit'.amount.toNat + burnedTokens paid
  stakes_le : ∀ k, s.stakes k ≤ stakes' k

/-- The credits in `paid` were redeemed; all of them are among `eligible`. -/
structure Paid (s : PoolState) (eligible : List CreditRecord) (paid : List Payment)
    (credits' : List CreditRecord) (mint' : Mint) (credit' : TokenAccount)
    (stakes' : Pubkey → Nat) : Prop extends s.PaidTokens paid mint' credit' stakes' where
  eligible : (paid.map (fun payment => payment.credit)).Sublist eligible
  prices : s.pool.Prices paid
  credits : ∃ lost, List.Perm s.creditList.credits
    (paid.map (fun payment => payment.credit) ++ credits' ++ lost)

/-! ## Totals -/

/-- The lamports that the reserve and the records account for. -/
def recordedTotal (s : PoolState) : Nat :=
  s.reserve.toNat + (s.list.validators.map (fun r => r.balance.toNat)).sum

/-! ## The environment -/

/-- Donations, rewards and transfers of pool tokens.  When nothing is revived, no
lamports appear in an empty stake account. -/
structure Disturbed (s : PoolState) (D : Deployment) (quiet : Prop) (credit' : TokenAccount)
    (reserve' : UInt64) (stakes' : Pubkey → Nat) : Prop where
  credit_le : s.creditReserve.amount ≤ credit'.amount
  reserve_le : s.reserve ≤ reserve'
  stakes_le : ∀ v i, s.stakes (D.stakeKey v i) ≤ stakes' (D.stakeKey v i)
  quiet : quiet → ∀ v i, s.stakes (D.stakeKey v i) = 0 → stakes' (D.stakeKey v i) = 0

end PoolState

theorem addBalances_ok {clock : Clock} {V : List ValidatorStakeInfo} : ∀ {start total : UInt64},
    addBalances clock start V = .ok total →
      total = UInt64.ofNat (start.toNat + (V.map (fun r => r.balance.toNat)).sum) := by
  induction V with
  | nil =>
      intro start total h
      rw [← Except.ok.inj h]
      simp
  | cons r V ih =>
      intro start total h
      simp only [addBalances, bind_eq_ok, require_eq_ok] at h
      obtain ⟨-, -, hrest⟩ := h
      rw [ih hrest]
      apply UInt64.toNat_inj.mp
      simp only [UInt64.toNat_ofNat', UInt64.toNat_add, List.map_cons, List.sum_cons]
      omega

/-- The pool after `paid` was paid: both totals go down. -/
def StakePool.payOut (pool : StakePool) (paid : List Payment) : StakePool :=
  { pool with
    poolTotal := pool.poolTotal - (paid.map (fun payment => payment.credit.tokenAmount)).sum
    stakeTotal := pool.stakeTotal - (paid.map (fun payment => payment.lamports)).sum }

/-! ## All steps -/

inductive PoolOp where
  | addValidator (validator : Pubkey)
  | removeValidator (validator : Pubkey)
  | updateList
  | updatePool
  | deposit (amount : UInt64) (mint : Pubkey)
  | withdraw (poolAmount : UInt64) (burnFrom mint : Pubkey)
  | setOwner
  | credit (amount : UInt64) (burnFrom : Pubkey)
  | uncredit (amount : UInt64)
  | delegateReserve (instructions : List (Pubkey × DelegateReserveInstruction))
  | mergeStakes (instructions : List MergeStakesInstruction)
  | unstake (instructions : List UnstakeInstruction)
  | payCreditors (eligible : List CreditRecord)
  | outside (quiet : Prop)

namespace PoolOp

/-- The mint a trade names. -/
def mint? : PoolOp → Option Pubkey
  | .deposit _ mint => some mint
  | .withdraw _ _ mint => some mint
  | _ => none

/-- The token account a caller pays from. -/
def burnFrom? : PoolOp → Option Pubkey
  | .withdraw _ burnFrom _ => some burnFrom
  | .credit _ burnFrom => some burnFrom
  | _ => none

end PoolOp

variable (D : Deployment)

inductive PoolStep (s : PoolState) : PoolOp → PoolState → Prop
  | addValidator (validator : Pubkey) (epoch : UInt64) :
      (∀ record ∈ s.list.validators, record.validatorAccount ≠ validator) →
      PoolStep s (.addValidator validator)
        { s with
          list :=
            { s.list with validators := s.list.validators ++ [⟨validator, 0, epoch, 0⟩] } }
  | removeValidator (validator : Pubkey) (validators : List ValidatorStakeInfo) :
      removeRecord validator s.list.validators = .ok validators →
      PoolStep s (.removeValidator validator) { s with list := { s.list with validators } }
  | updateList (epoch : UInt64) (names : List Pubkey) (b : Books) :
      RunList (D.RefreshStep epoch) names s.books b →
      PoolStep s .updateList (s.commit ⟨b, true⟩)
  | updatePool (clock : Clock) (totalBalance : UInt64) :
      addBalances clock s.reserve s.list.validators = .ok totalBalance →
      PoolStep s .updatePool
        { s with
          pool := { s.pool with stakeTotal := totalBalance, lastUpdateEpoch := clock.epoch } }
  | deposit (amount poolAmount : UInt64) (mint : Pubkey) (mint' : Mint)
      (credit' : TokenAccount) (reserve' : UInt64) :
      s.Deposited amount poolAmount mint mint' credit' reserve' →
      PoolStep s (.deposit amount mint)
        { s with
          pool :=
            { s.pool with
              poolTotal := s.pool.poolTotal + poolAmount
              stakeTotal := s.pool.stakeTotal + amount }
          mint := mint'
          creditReserve := credit'
          reserve := reserve' }
  | withdraw (n stakeAmount : UInt64) (burnFrom mint : Pubkey) (mint' : Mint)
      (credit' : TokenAccount) (reserve' : UInt64) (stakes' : Pubkey → Nat) :
      s.Withdrawn n stakeAmount burnFrom mint mint' credit' reserve' stakes' →
      PoolStep s (.withdraw n burnFrom mint)
        { s with
          pool := s.pool.redeem n stakeAmount
          mint := mint'
          creditReserve := credit'
          reserve := reserve'
          stakes := stakes' }
  | setOwner (owner ownerFeeAccount : Pubkey) :
      PoolStep s .setOwner { s with pool := { s.pool with owner, ownerFeeAccount } }
  | credit (amount : UInt64) (burnFrom target cancelAuthority : Pubkey)
      (credits : List CreditRecord) (credit' : TokenAccount) :
      addCredit target cancelAuthority amount s.creditList.credits = .ok credits →
      s.TokensMoved burnFrom s.pool.creditReserve amount credit' →
      PoolStep s (.credit amount burnFrom)
        { s with creditList := { s.creditList with credits }, creditReserve := credit' }
  | uncredit (amount : UInt64) (burnFrom target : Pubkey) (cancelAuthority : AccountInfo)
      (credits : List CreditRecord) (credit' : TokenAccount) :
      removeCredit target cancelAuthority amount s.creditList.credits = .ok credits →
      s.TokensMoved s.pool.creditReserve burnFrom amount credit' →
      PoolStep s (.uncredit amount)
        { s with creditList := { s.creditList with credits }, creditReserve := credit' }
  | delegateReserve (instructions : List (Pubkey × DelegateReserveInstruction)) (b : Batch) :
      RunList D.DelegateStep instructions ⟨s.books, false⟩ b →
      PoolStep s (.delegateReserve instructions) (s.commit b)
  | mergeStakes (instructions : List MergeStakesInstruction) (b : Batch) :
      RunList D.MergeStep instructions ⟨s.books, false⟩ b →
      PoolStep s (.mergeStakes instructions) (s.commit b)
  | unstake (instructions : List UnstakeInstruction) (b : Batch) :
      RunList D.UnstakeStep instructions ⟨s.books, false⟩ b →
      PoolStep s (.unstake instructions) (s.commit b)
  | payCreditors (eligible : List CreditRecord) (paid : List Payment)
      (credits' : List CreditRecord) (mint' : Mint) (credit' : TokenAccount)
      (reserve' : UInt64) (stakes' : Pubkey → Nat) :
      s.Paid eligible paid credits' mint' credit' stakes' →
      PoolStep s (.payCreditors eligible)
        { s with
          pool := s.pool.payOut paid
          creditList := { s.creditList with credits := credits' }
          mint := mint'
          creditReserve := credit'
          reserve := reserve'
          stakes := stakes' }
  | outside (quiet : Prop) (credit' : TokenAccount) (reserve' : UInt64)
      (stakes' : Pubkey → Nat) :
      s.Disturbed D quiet credit' reserve' stakes' →
      PoolStep s (.outside quiet)
        { s with creditReserve := credit', reserve := reserve', stakes := stakes' }

end Tenderize
