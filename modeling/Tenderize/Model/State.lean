import Tenderize.Model.Basic
import Tenderize.Support.Words

/-!
# The records of `state.rs`

The pool, the validator list and the credit list, with the price arithmetic of the
pool.  Machine words are `UInt64` and `UInt32`, so additions and subtractions wrap
exactly where the program, built without overflow checks, wraps.
-/

namespace Tenderize

/-- Fee rate as a ratio. -/
structure Fee where
  denominator : UInt64
  numerator : UInt64
deriving DecidableEq, Inhabited

structure StakePool where
  version : UInt8
  owner : Pubkey
  depositBumpSeed : UInt8
  withdrawBumpSeed : UInt8
  validatorStakeList : Pubkey
  creditList : Pubkey
  poolMint : Pubkey
  ownerFeeAccount : Pubkey
  creditReserve : Pubkey
  tokenProgramId : Pubkey
  stakeTotal : UInt64
  poolTotal : UInt64
  lastUpdateEpoch : UInt64
  fee : Fee
deriving DecidableEq, Inhabited

/-! ## 128-bit intermediate values

`u128` values are natural numbers below `2 ^ 128`. -/

def checkedMul (a b : Nat) : Option Nat :=
  if a * b < 2 ^ 128 then some (a * b) else none

def checkedDiv (a b : Nat) : Option Nat :=
  if b = 0 then none else some (a / b)

/-- `u64::try_from`. -/
def tryFromU64 (a : Nat) : Option UInt64 :=
  if a < 2 ^ 64 then some (UInt64.ofNat a) else none

/-- `x * y / z` through 128 bits, back in 64. -/
def mulDiv (x y z : UInt64) : Option UInt64 := do
  let product ← checkedMul x.toNat y.toNat
  let quotient ← checkedDiv product z.toNat
  tryFromU64 quotient

/-- `u64::checked_sub`. -/
def checkedSub (a b : UInt64) : Option UInt64 :=
  if b ≤ a then some (a - b) else none

namespace StakePool

/-- Length of state data when serialized: the `repr(C)` size, five padding bytes
before `stake_total` included. -/
def LEN : Nat := 272

/-- calculate the pool tokens that should be withdrawn -/
def calcPoolWithdrawAmount (pool : StakePool) (stakeLamports : UInt64) : Option UInt64 :=
  mulDiv stakeLamports pool.poolTotal pool.stakeTotal

/-- calculate the pool tokens that should be minted -/
def calcPoolDepositAmount (pool : StakePool) (stakeLamports : UInt64) : Option UInt64 :=
  if pool.stakeTotal = 0 then some stakeLamports
  else pool.calcPoolWithdrawAmount stakeLamports

/-- calculate lamports amount -/
def calcLamportsAmount (pool : StakePool) (poolTokens : UInt64) : Option UInt64 :=
  mulDiv poolTokens pool.stakeTotal pool.poolTotal

/-- calculate the fee in pool tokens that goes to the owner -/
def calcFeeAmount (pool : StakePool) (poolAmount : UInt64) : Option UInt64 :=
  if pool.fee.denominator = 0 then some 0
  else mulDiv poolAmount pool.fee.numerator pool.fee.denominator

def isInitialized (pool : StakePool) : Bool :=
  pool.version > 0

end StakePool

/-- Max validator count. -/
def maxValidators : Nat := 100

/-- Minimum stake account balance, 0.1 SOL. -/
def minStakeAccountBalance : UInt64 := 100000000

/-- Information about one validator of the pool. -/
structure ValidatorStakeInfo where
  validatorAccount : Pubkey
  balance : UInt64
  lastUpdateEpoch : UInt64
  stakeCount : UInt32
deriving DecidableEq, Inhabited

def ValidatorStakeInfo.LEN : Nat := 56

structure ValidatorStakeList where
  version : UInt8
  validators : List ValidatorStakeInfo
deriving DecidableEq, Inhabited

namespace ValidatorStakeList

def headerLen : Nat := 3

def LEN : Nat := headerLen + ValidatorStakeInfo.LEN * maxValidators

def validatorStakeListVersion : UInt8 := 1

/-- Check if contains validator with particular pubkey. -/
def contains (list : ValidatorStakeList) (validator : Pubkey) : Bool :=
  list.validators.any (fun x => x.validatorAccount = validator)

def isInitialized (list : ValidatorStakeList) : Bool :=
  list.version > 0

end ValidatorStakeList

/-- Maximum credit records. -/
def maxCreditRecords : Nat := 1000

structure CreditRecord where
  /-- User account for receiving sols. -/
  solTarget : Pubkey
  /-- Signature to cancel request. -/
  cancelAuthority : Pubkey
  /-- Amount from reserve. -/
  tokenAmount : UInt64
deriving DecidableEq, Inhabited

def CreditRecord.LEN : Nat := 72

structure CreditList where
  version : UInt8
  credits : List CreditRecord
deriving DecidableEq, Inhabited

namespace CreditList

def headerLen : Nat := 3

def LEN : Nat := headerLen + CreditRecord.LEN * maxCreditRecords

def VERSION : UInt8 := 1

def isInitialized (list : CreditList) : Bool :=
  list.version > 0

end CreditList

/-! ## Price arithmetic on natural numbers -/

/-- The 128-bit product of two words never overflows, so only a zero divisor or a
quotient of 64 bits or more makes the conversion fail. -/
theorem mulDiv_eq_some {x y z r : UInt64} :
    mulDiv x y z = some r ↔
      z.toNat ≠ 0 ∧ r.toNat = x.toNat * y.toNat / z.toNat := by
  have hx := x.toNat_lt
  have hy := y.toNat_lt
  have hr := r.toNat_lt
  have hprod : x.toNat * y.toNat < 2 ^ 128 := by
    calc
      x.toNat * y.toNat < 2 ^ 64 * 2 ^ 64 :=
        Nat.mul_lt_mul'' hx hy
      _ = 2 ^ 128 := by norm_num
  unfold mulDiv checkedMul checkedDiv tryFromU64
  rw [if_pos hprod]
  by_cases hz : z.toNat = 0
  · simp [hz]
  · by_cases hq : x.toNat * y.toNat / z.toNat < 2 ^ 64
    · simp only [Option.bind_eq_bind, Option.bind_some, hz, if_false, hq, if_true,
        Option.some.injEq, ne_eq, not_false_eq_true, true_and]
      constructor
      · intro h
        subst h
        exact UInt64.toNat_ofNat_of_lt' hq
      · intro h
        apply UInt64.toNat_inj.mp
        rw [UInt64.toNat_ofNat_of_lt' hq, h]
    · simp only [Option.bind_eq_bind, Option.bind_some, hz, if_false, hq,
        ne_eq, not_false_eq_true, true_and, false_iff, reduceCtorEq]
      omega

theorem calcLamportsAmount_eq_some {pool : StakePool} {tokens r : UInt64} :
    pool.calcLamportsAmount tokens = some r ↔
      pool.poolTotal.toNat ≠ 0 ∧
        r.toNat = tokens.toNat * pool.stakeTotal.toNat / pool.poolTotal.toNat :=
  mulDiv_eq_some

theorem calcPoolDepositAmount_eq_some {pool : StakePool} {lamports r : UInt64} :
    pool.calcPoolDepositAmount lamports = some r ↔
      (pool.stakeTotal.toNat = 0 ∧ r = lamports) ∨
      (pool.stakeTotal.toNat ≠ 0 ∧
        r.toNat = lamports.toNat * pool.poolTotal.toNat / pool.stakeTotal.toNat) := by
  have hzero : pool.stakeTotal = 0 ↔ pool.stakeTotal.toNat = 0 := by
    rw [← UInt64.toNat_inj]
    rfl
  unfold StakePool.calcPoolDepositAmount StakePool.calcPoolWithdrawAmount
  by_cases hs : pool.stakeTotal = 0
  · simp only [hs, if_true, Option.some.injEq]
    simp [eq_comm]
  · rw [if_neg hs, mulDiv_eq_some]
    have hs' := fun h => hs (hzero.mpr h)
    tauto

end Tenderize
