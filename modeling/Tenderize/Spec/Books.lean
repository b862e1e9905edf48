import Tenderize.Spec.State
import Tenderize.Support.Transition

/-!
# The stake books

The validator records, the reserve and the lamports staked at each address.  Every
handler of the stake accounts is a sequence of the small steps below on these books,
followed by writing the records back or not.
-/

namespace Tenderize

open Support

structure Books where
  validators : List ValidatorStakeInfo
  reserve : UInt64
  stakes : Pubkey → Nat

/-- Books in the middle of a batch, with its `changed` flag. -/
structure Batch where
  books : Books
  changed : Bool

/-- What the scan over one validator's stake accounts has found so far. -/
structure Scan where
  balance : UInt64
  newStakeCount : UInt32
  reserve : UInt64
  stakes : Pubkey → Nat

def PoolState.books (s : PoolState) : Books :=
  ⟨s.list.validators, s.reserve, s.stakes⟩

/-- The pool after a batch: the records count only if they are written back. -/
def PoolState.commit (s : PoolState) (b : Batch) : PoolState :=
  { s with
    list := if b.changed then { s.list with validators := b.books.validators } else s.list
    reserve := b.books.reserve
    stakes := b.books.stakes }

namespace Deployment

variable (D : Deployment)

/-- The books of a ledger, for records that may not be stored yet. -/
def booksOf (validators : List ValidatorStakeInfo) (L : Ledger) : Books :=
  ⟨validators, (L D.reserveKey).lamports, D.stakesOf L⟩

theorem Represents.booksOf_eq {D : Deployment} {L : Ledger} {s : PoolState}
    (h : D.Represents L s) : D.booksOf s.list.validators L = s.books := by
  unfold booksOf PoolState.books
  rw [h.reserve_eq, h.stakes_eq]

/-- The address of the `index`-th stake account of a validator. -/
def stakeKey (validator : Pubkey) (index : UInt32) : Pubkey :=
  (D.programs.findProgramAddress [.key validator, .key D.poolKey, .index index] D.programId).1

/-- `amount` lamports of the reserve were delegated to the validator. -/
structure DelegateStep (instruction : Pubkey × DelegateReserveInstruction) (b b' : Batch) :
    Prop where
  record : ∃ record,
    lookup ValidatorStakeInfo.validatorAccount instruction.1 b.books.validators = some record ∧
    instruction.2.stakeIndex ≤ record.stakeCount ∧
    b'.books.validators = putRecord (record.delegated instruction.2) b.books.validators ∧
    b'.changed = (b.changed || decide (instruction.2.stakeIndex ≥ record.stakeCount))
  moved : D.stakeKey instruction.1 instruction.2.stakeIndex ≠ D.reserveKey →
    instruction.2.amount ≤ b.books.reserve ∧
    b'.books.reserve = b.books.reserve - instruction.2.amount ∧
    b'.books.stakes = Function.update b.books.stakes
      (D.stakeKey instruction.1 instruction.2.stakeIndex)
      (b.books.stakes (D.stakeKey instruction.1 instruction.2.stakeIndex) +
        instruction.2.amount.toNat)

/-- Two stake accounts of the validator were merged, or left alone. -/
inductive MergeStep (instruction : MergeStakesInstruction) (b b' : Batch) : Prop
  | skipped : b' = b → MergeStep instruction b b'
  | merged (record : ValidatorStakeInfo) :
      lookup ValidatorStakeInfo.validatorAccount instruction.validatorAddress
        b.books.validators = some record →
      instruction.mainIndex < instruction.additionalIndex →
      instruction.additionalIndex < record.stakeCount →
      (if instruction.additionalIndex + 1 = record.stakeCount then
        b'.books.validators =
            putRecord { record with stakeCount := record.stakeCount - 1 } b.books.validators ∧
          b'.changed = true
      else b'.books.validators = b.books.validators ∧ b'.changed = b.changed) →
      (D.stakeKey instruction.validatorAddress instruction.mainIndex ≠ D.reserveKey →
        D.stakeKey instruction.validatorAddress instruction.additionalIndex ≠ D.reserveKey →
        b'.books.reserve = b.books.reserve ∧
        b'.books.stakes = Function.update (Function.update b.books.stakes
          (D.stakeKey instruction.validatorAddress instruction.mainIndex)
          (b.books.stakes (D.stakeKey instruction.validatorAddress instruction.mainIndex) +
            b.books.stakes
              (D.stakeKey instruction.validatorAddress instruction.additionalIndex)))
          (D.stakeKey instruction.validatorAddress instruction.additionalIndex) 0) →
      MergeStep instruction b b'

/-- A stake account was deactivated, or part of it split off into a new one. -/
inductive UnstakeStep (instruction : UnstakeInstruction) (b b' : Batch) : Prop
  | deactivated : b' = b → UnstakeStep instruction b b'
  | split (record : ValidatorStakeInfo) (rent : Nat) :
      lookup ValidatorStakeInfo.validatorAccount instruction.validatorAddress
        b.books.validators = some record →
      instruction.sourceIndex < record.stakeCount →
      instruction.splitIndex ≤ record.stakeCount →
      instruction.splitIndex ≠ instruction.sourceIndex →
      (if instruction.splitIndex = record.stakeCount then
        b'.books.validators =
            putRecord { record with stakeCount := record.stakeCount + 1 } b.books.validators ∧
          b'.changed = true
      else b'.books.validators = b.books.validators ∧ b'.changed = b.changed) →
      (D.stakeKey instruction.validatorAddress instruction.sourceIndex ≠ D.reserveKey →
        D.stakeKey instruction.validatorAddress instruction.splitIndex ≠ D.reserveKey →
        b'.books.reserve = b.books.reserve ∧
        b.books.stakes (D.stakeKey instruction.validatorAddress instruction.splitIndex) = 0 ∧
        instruction.amount.toNat ≤
          b.books.stakes (D.stakeKey instruction.validatorAddress instruction.sourceIndex) ∧
        b'.books.stakes = Function.update (Function.update b.books.stakes
          (D.stakeKey instruction.validatorAddress instruction.sourceIndex)
          (b.books.stakes (D.stakeKey instruction.validatorAddress instruction.sourceIndex) -
            instruction.amount.toNat))
          (D.stakeKey instruction.validatorAddress instruction.splitIndex)
          (rent + instruction.amount.toNat)) →
      UnstakeStep instruction b b'

/-! ## Refreshing the records -/

/-- One stake account was scanned: it is live and keeps `kept` lamports, or it holds
no stake. -/
inductive ScanStep (validator : Pubkey) (index : UInt32) (x x' : Scan) : Prop
  | live (free kept : UInt64) :
      x.stakes (D.stakeKey validator index) = kept.toNat + free.toNat →
      x'.reserve.toNat = x.reserve.toNat + free.toNat →
      x'.stakes = Function.update x.stakes (D.stakeKey validator index) kept.toNat →
      x'.balance = x.balance + kept →
      x'.newStakeCount = index + 1 →
      ScanStep validator index x x'
  | empty :
      x.stakes (D.stakeKey validator index) = 0 →
      x.reserve.toNat ≤ x'.reserve.toNat →
      x'.stakes = x.stakes →
      x'.balance = x.balance →
      x'.newStakeCount = x.newStakeCount →
      ScanStep validator index x x'

/-- The records of one validator were recomputed from its stake accounts. -/
structure RefreshStep (epoch : UInt64) (validator : Pubkey) (b b' : Books) : Prop where
  record : ∃ record balance newStakeCount,
    lookup ValidatorStakeInfo.validatorAccount validator b.validators = some record ∧
    b'.validators = putRecord
      { record with balance, stakeCount := newStakeCount, lastUpdateEpoch := epoch }
      b.validators ∧
    ((∀ index, D.stakeKey validator index ≠ D.reserveKey) →
      RunList (fun index => D.ScanStep validator (UInt32.ofNat index))
        (List.range record.stakeCount.toNat) ⟨0, 0, b.reserve, b.stakes⟩
        ⟨balance, newStakeCount, b'.reserve, b'.stakes⟩)

end Deployment

end Tenderize
