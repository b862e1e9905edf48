import Tenderize.Model.Readers
import Tenderize.Support.Slices

/-!
# The planners of the admin client

`delegateReserveBatch`, `mergeAllStakes` and `unstake` of `experiment/tenderize.ts`: what
they read from the chain and the elements they plan from it.  Numbers are read as exact
integers; what the network answers is a parameter.
-/

namespace Tenderize

open Support

/-! ## The chain as the client sees it -/

inductive ActivationState where
  | active
  | inactive
  | activating
  | deactivating
deriving DecidableEq

/-- What `getStakeActivation` answers. -/
structure StakeActivationData where
  state : ActivationState
  active : Nat
deriving DecidableEq

/-- May be unstaked whole. -/
def StakeActivationData.killable (stakeData : StakeActivationData) : Bool :=
  stakeData.active > 0 ∧ (stakeData.state = .active ∨ stakeData.state = .activating)

/-- May be split. -/
def StakeActivationData.splittable (stakeData : StakeActivationData) : Bool :=
  stakeData.active > 0 ∧ stakeData.state = .active

/-- What `getAccountInfo` answers. -/
structure AccountView where
  owner : Pubkey
  lamports : Nat
  data : Buffer

structure Connection where
  /-- `null` for an account that does not exist. -/
  getAccountInfo : Pubkey → Option AccountView
  /-- Throws for an account that is no delegated stake. -/
  getStakeActivation : Pubkey → Except JsError StakeActivationData

def Connection.reader (connection : Connection) : AccountReader :=
  fun key => (connection.getAccountInfo key).map AccountView.data

/-- `==` between two objects that were made separately compares their identity. -/
def sameObject (_ _ : Pubkey) : Bool := false

/-- The test for an account that can be created. -/
def isFree : Option AccountView → Bool
  | none => true
  | some account => sameObject account.owner systemProgramId

/-- `_.chunk`. -/
def chunk {α : Type} (size : Nat) (items : List α) : List (List α) :=
  (List.range ((items.length + size - 1) / size)).map
    (fun i => (items.drop (i * size)).take size)

theorem flatten_chunk {α : Type} {size : Nat} (hsize : 0 < size) (items : List α) :
    (chunk size items).flatten = items := by
  unfold chunk
  rw [flatten_slices]
  apply List.take_of_length_le
  have hround := Nat.lt_div_mul_add hsize (a := items.length + size - 1)
  omega

theorem chunk_part {α : Type} {size : Nat} (hsize : 0 < size) {items part : List α}
    (h : part ∈ chunk size items) : part ≠ [] ∧ part.length ≤ size := by
  obtain ⟨i, hi, rfl⟩ := List.mem_map.mp h
  have hlt := (Nat.le_div_iff_mul_le hsize).mp (List.mem_range.mp hi)
  rw [Nat.succ_mul] at hlt
  refine ⟨List.ne_nil_of_length_pos ?_, List.length_take_le _ _⟩
  rw [List.length_take, List.length_drop]
  omega

namespace TenderizeProgram

variable (P : Programs) (connection : Connection) (this : TenderizeProgram)

/-- The loop that looks for a free account: the last one found, or the next one. -/
def findFree (validator : Pubkey) : List Nat → Nat → Except JsError Nat
  | [], firstFreeIndex => pure firstFreeIndex
  | index :: indices, firstFreeIndex => do
      let stakeAddress ← this.getStakeForValidator P validator index
      findFree validator indices
        (if isFree (connection.getAccountInfo stakeAddress) then index else firstFreeIndex)

/-! ## Delegating the reserve -/

/-- `MIN_STAKE_ACCOUNT_BALANCE` of the client. -/
def minStakeAccountBalance : Int := 1000000000

/-- The loop that looks for an account that began to activate in this epoch. -/
def findActivating (validator : Pubkey) : List Nat → Except JsError (Option Nat)
  | [] => pure none
  | index :: indices => do
      let stakeAddress ← this.getStakeForValidator P validator index
      match connection.getStakeActivation stakeAddress with
      | .ok stakeData =>
          if stakeData.state = .activating ∧ stakeData.active = 0 then pure (some index)
          else findActivating validator indices
      | .error _ => findActivating validator indices

/-- The account a delegation goes to. -/
def delegationIndex (validator : ValidatorInfo) : Except JsError Nat := do
  let indices := List.range validator.stakeCount
  let currentEpochStakeIndex ← this.findActivating P connection validator.votePubkey indices
  match currentEpochStakeIndex with
  | some index => pure index
  | none => this.findFree P connection validator.votePubkey indices validator.stakeCount

/-- The loop over the validators: the planned instructions, each with the validator it is
for, and what is left of the amount. -/
def delegationLoop (targetAmount : Int) :
    List ValidatorInfo → Int →
      Except JsError (List (ValidatorInfo × DepositReserveValidatorParam) × Int)
  | [], amountLeft => pure ([], amountLeft)
  | validator :: validators, amountLeft =>
      if amountLeft < 1 then pure ([], amountLeft)
      else if validator.balance ≥ targetAmount then
        delegationLoop targetAmount validators amountLeft
      else do
        let delegateAmount := min (targetAmount - validator.balance) amountLeft
        let amountLeft := amountLeft - delegateAmount
        let (delegateAmount, amountLeft) :=
          if amountLeft < minStakeAccountBalance then (delegateAmount + amountLeft, 0)
          else (delegateAmount, amountLeft)
        let stakeIndex ← this.delegationIndex P connection validator
        let (planned, amountLeft) ← delegationLoop targetAmount validators amountLeft
        pure ((validator, ⟨validator.votePubkey, delegateAmount, stakeIndex⟩) :: planned,
          amountLeft)

/-- `Math.ceil(total / count)`. -/
def ceilDiv (total count : Int) : Int := -(-total / count)

/-- The average that the delegations aim at. -/
def targetAmount (validators : List ValidatorInfo) (totalAmount : Int) : Int :=
  ceilDiv ((validators.map fun v => (v.balance : Int)).foldl (· + ·) 0 + totalAmount)
    validators.length

/-- The plan of `delegateReserveBatch` for the validators it read. -/
def planDelegations (validators : List ValidatorInfo) (totalAmount : Int) :
    Except JsError (List (ValidatorInfo × DepositReserveValidatorParam)) := do
  require (¬validators.length = 0) (.error "No validator added")
  let (planned, amountLeft) ← this.delegationLoop P connection
    (targetAmount validators totalAmount) validators totalAmount
  require (¬amountLeft > 0) (.error ("Left " ++ toString amountLeft))
  pure planned

/-- The batches that are sent one after the other. -/
def delegateReserveBatch (totalAmount : Int) :
    Except JsError (List (List DepositReserveValidatorParam)) := do
  require (¬totalAmount < minStakeAccountBalance) (.error "Too low delegation")
  let validators ← this.readValidators connection.reader
  let planned ← this.planDelegations P connection validators totalAmount
  pure (chunk 4 (planned.map Prod.snd))

/-! ## Merging -/

/-- The loop over the accounts of a validator that collects the active ones. -/
def findActive (validator : Pubkey) : List Nat → Except JsError (List Nat)
  | [] => pure []
  | i :: indices => do
      let stakeAddress ← this.getStakeForValidator P validator i
      let mergeIndices ← findActive validator indices
      match connection.getStakeActivation stakeAddress with
      | .ok stakeData =>
          pure (if stakeData.state = .active then i :: mergeIndices else mergeIndices)
      | .error _ => pure mergeIndices

/-- The pairs of one validator: its first active account with each other one, from the last
to the second. -/
def mergePairs (validator : Pubkey) (mergeIndices : List Nat) : List StakePair :=
  match mergeIndices with
  | [] => []
  | main :: others => others.reverse.map fun (additional : Nat) => ⟨validator, main, additional⟩

/-- The plan of `mergeAllStakes` for the validators it read. -/
def planMerges : List ValidatorInfo → Except JsError (List StakePair)
  | [] => pure []
  | validator :: validators => do
      let mergeIndices ← this.findActive P connection validator.votePubkey
        (List.range validator.stakeCount)
      let stakePairs ← planMerges validators
      pure (mergePairs validator.votePubkey mergeIndices ++ stakePairs)

def mergeAllStakes : Except JsError (List (List StakePair)) := do
  let validators ← this.readValidators connection.reader
  let stakePairs ← this.planMerges P connection validators
  pure (chunk 4 stakePairs)

/-! ## Unstaking -/

/-- What one turn of the loop over the accounts learns; `none` where it throws and goes on. -/
def stakeAnswer (stakeAddress : Pubkey) : Option (StakeActivationData × Nat) :=
  match connection.getStakeActivation stakeAddress with
  | .ok stakeData => (connection.getAccountInfo stakeAddress).map fun account =>
      (stakeData, account.lamports)
  | .error _ => none

/-- The loop over the accounts; without an amount everything is unstaked. -/
def unstakeLoop (validator : Pubkey) (firstFreeIndex : Nat) :
    List Nat → Option Int → Except JsError (List Unstake)
  | [], _ => pure []
  | i :: indices, amountLeft => do
      let stakeAddress ← this.getStakeForValidator P validator i
      match stakeAnswer connection stakeAddress with
      | none => unstakeLoop validator firstFreeIndex indices amountLeft
      | some (stakeData, stakeAmount) =>
          if amountLeft.all fun (left : Int) => left ≥ stakeAmount then do
            -- kill whole stake
            let unstakes ← unstakeLoop validator firstFreeIndex indices
              (amountLeft.map fun left => left - stakeAmount)
            pure (if stakeData.killable then ⟨validator, i, none, none⟩ :: unstakes else unstakes)
          else
            -- Split stake
            pure (if stakeData.splittable then [⟨validator, i, some firstFreeIndex, amountLeft⟩]
              else [])

/-- The plan of `unstake`. -/
def planUnstake (validator : ValidatorInfo) (amount : Option Int) :
    Except JsError (List Unstake) := do
  let indices := List.range validator.stakeCount
  let firstFreeIndex ← this.findFree P connection validator.votePubkey indices
    validator.stakeCount
  this.unstakeLoop P connection validator.votePubkey firstFreeIndex indices amount

def unstake (validator : ValidatorInfo) (amount : Option Int) :
    Except JsError (List (List Unstake)) := do
  let unstakes ← this.planUnstake P connection validator amount
  pure (chunk 4 unstakes)

end TenderizeProgram

end Tenderize
