import Tenderize.Model.Processor.Credits

/-!
# Stake accounts of the pool

`DelegateReserve`, `MergeStakes` and `Unstake`.  Each runs a batch of sub-instructions
over an in-memory copy of the validator list and writes the list back only when its
`changed` flag was set.
-/

namespace Tenderize

open Support

variable (P : Programs) (programId : Pubkey)

structure DelegateReserveInstruction where
  amount : UInt64
  stakeIndex : UInt32
deriving DecidableEq

structure MergeStakesInstruction where
  validatorAddress : Pubkey
  mainIndex : UInt32
  additionalIndex : UInt32
deriving DecidableEq

structure UnstakeInstruction where
  validatorAddress : Pubkey
  sourceIndex : UInt32
  splitIndex : UInt32
  amount : UInt64
deriving DecidableEq

/-- The variables the three batch loops share. -/
structure BatchState where
  validators : List ValidatorStakeInfo
  changed : Bool
  accounts : List AccountInfo
  ledger : Ledger

/-- Write the list back if the batch changed it. -/
def BatchState.finish (s : BatchState) (list : ValidatorStakeList) (listKey : Pubkey) :
    Except ProgramError Ledger :=
  if s.changed then
    store programId listKey
      (ValidatorStakeList.serialize { list with validators := s.validators }) s.ledger
  else
    .ok s.ledger

/-- The list with the record of its validator replaced. -/
def putRecord (record : ValidatorStakeInfo) (validators : List ValidatorStakeInfo) :
    List ValidatorStakeInfo :=
  updateFirst ValidatorStakeInfo.validatorAccount record.validatorAccount record validators

/-! ## DelegateReserve -/

structure DelegateReserveAccounts where
  stakePool : AccountInfo
  owner : AccountInfo
  validatorStakeList : AccountInfo
  withdraw : AccountInfo
  deposit : AccountInfo
  reserve : AccountInfo
  systemProgram : AccountInfo
  stakeProgram : AccountInfo
  clock : AccountInfo
  stakeHistory : AccountInfo
  stakeConfig : AccountInfo
  rent : AccountInfo
  /-- Vote account and stake account of every sub-instruction. -/
  rest : List AccountInfo

def DelegateReserveAccounts.parse (chain : Chain) (accounts : List AccountInfo) :
    Except ProgramError DelegateReserveAccounts := do
  let (stakePool, accounts) ← nextAccountInfo accounts
  let (owner, accounts) ← nextAccountInfo accounts
  let (validatorStakeList, accounts) ← nextAccountInfo accounts
  let (withdraw, accounts) ← nextAccountInfo accounts
  let (deposit, accounts) ← nextAccountInfo accounts
  let (reserve, accounts) ← nextAccountInfo accounts
  let (systemProgram, accounts) ← nextAccountInfo accounts
  let (stakeProgram, accounts) ← nextAccountInfo accounts
  let (clock, accounts) ← nextAccountInfo accounts
  let (stakeHistory, accounts) ← nextAccountInfo accounts
  let (stakeConfig, accounts) ← nextAccountInfo accounts
  let (rent, accounts) ← nextAccountInfo accounts
  let _ ← Rent.fromAccountInfo chain rent
  pure ⟨stakePool, owner, validatorStakeList, withdraw, deposit, reserve, systemProgram,
    stakeProgram, clock, stakeHistory, stakeConfig, rent, accounts⟩

/-- Create, initialize and delegate a new stake account out of the reserve. -/
def initStake (a : DelegateReserveAccounts) (clock : Clock)
    (depositBumpSeed reserveBump : UInt8) (validatorVote stakeAccount : AccountInfo)
    (stakeBumpSeed : UInt8) (index : UInt32) (lamports : UInt64) (L : Ledger) :
    Except ProgramError Ledger := do
  require (¬lamports < minStakeAccountBalance) .insufficientFunds
  let L ← P.createAccount a.reserve.key stakeAccount.key lamports StakeState.size stakeProgramId
    (P.signersWith programId [a.reserve, stakeAccount]
      [stakeSeeds validatorVote.key a.stakePool.key index stakeBumpSeed,
        authoritySeeds a.stakePool.key .reserve reserveBump]) L
  let L ← P.stakeInitialize stakeAccount.key ⟨a.deposit.key, a.withdraw.key⟩ L
  P.delegateStake clock stakeAccount.key a.deposit.key validatorVote.key
    (P.signersWith programId
      [stakeAccount, a.deposit, validatorVote, a.clock, a.stakeHistory, a.stakeConfig,
        a.stakeProgram]
      [authoritySeeds a.stakePool.key .deposit depositBumpSeed]) L

/-- Add lamports of the reserve to a stake account and delegate it again. -/
def redelegateStake (a : DelegateReserveAccounts) (clock : Clock)
    (depositBumpSeed reserveBump : UInt8) (validatorVote stakeAccount : AccountInfo)
    (lamports : UInt64) (L : Ledger) : Except ProgramError Ledger := do
  let L ← P.transfer a.reserve.key stakeAccount.key lamports
    (P.signersWith programId [a.reserve, stakeAccount, a.systemProgram]
      [authoritySeeds a.stakePool.key .reserve reserveBump]) L
  P.delegateStake clock stakeAccount.key a.deposit.key validatorVote.key
    (P.signersWith programId
      [stakeAccount, a.deposit, validatorVote, a.clock, a.stakeHistory, a.stakeConfig,
        a.stakeProgram]
      [authoritySeeds a.stakePool.key .deposit depositBumpSeed]) L

/-- The record after `amount` lamports were delegated at `stakeIndex`. -/
def ValidatorStakeInfo.delegated (record : ValidatorStakeInfo)
    (instruction : DelegateReserveInstruction) : ValidatorStakeInfo :=
  { record with
    balance := record.balance + instruction.amount
    stakeCount :=
      if instruction.stakeIndex ≥ record.stakeCount then instruction.stakeIndex + 1
      else record.stakeCount }

/-- One sub-instruction of `DelegateReserve`. -/
def delegateOne (a : DelegateReserveAccounts) (clock : Clock)
    (depositBumpSeed reserveBump : UInt8) (lamportsAvailable totalAmount : UInt64)
    (instruction : DelegateReserveInstruction) (s : BatchState) :
    Except ProgramError BatchState := do
  let (validatorVote, accounts) ← nextAccountInfo s.accounts
  let (stakeAccount, accounts) ← nextAccountInfo accounts
  let record ← okOr
    (lookup ValidatorStakeInfo.validatorAccount validatorVote.key s.validators)
    (.custom .validatorNotFound)
  require (¬totalAmount + instruction.amount > lamportsAvailable) .insufficientFunds
  require (¬instruction.stakeIndex > record.stakeCount) (.custom .invalidStakeIndex)
  let stakeBumpSeed ← record.checkValidatorStakeAddress P programId a.stakePool.key
    instruction.stakeIndex stakeAccount.key
  let L ←
    if (s.ledger stakeAccount.key).owner = systemProgramId then
      initStake P programId a clock depositBumpSeed reserveBump validatorVote stakeAccount
        stakeBumpSeed instruction.stakeIndex instruction.amount s.ledger
    else
      redelegateStake P programId a clock depositBumpSeed reserveBump validatorVote stakeAccount
        instruction.amount s.ledger
  pure
    { validators := putRecord (record.delegated instruction) s.validators
      changed := s.changed || instruction.stakeIndex ≥ record.stakeCount
      accounts := accounts
      ledger := L }

def delegateLoop (a : DelegateReserveAccounts) (clock : Clock)
    (depositBumpSeed reserveBump : UInt8) (lamportsAvailable : UInt64) :
    List DelegateReserveInstruction → (totalAmount : UInt64) → BatchState →
      Except ProgramError BatchState
  | [], _, s => .ok s
  | instruction :: instructions, totalAmount, s => do
      let s ← delegateOne P programId a clock depositBumpSeed reserveBump lamportsAvailable
        totalAmount instruction s
      delegateLoop a clock depositBumpSeed reserveBump lamportsAvailable instructions
        (totalAmount + instruction.amount) s

def processDelegateReserve (instructions : List DelegateReserveInstruction)
    (accounts : List AccountInfo) (chain : Chain) : Except ProgramError Ledger := do
  let a ← DelegateReserveAccounts.parse chain accounts
  let stakePool ← loadStakePool P programId chain.ledger a.stakePool
  stakePool.checkOwner a.owner
  let list ← loadValidatorStakeList P chain.ledger stakePool a.validatorStakeList
  stakePool.checkAuthorityDeposit P programId a.deposit.key a.stakePool.key
  stakePool.checkAuthorityWithdraw P programId a.withdraw.key a.stakePool.key
  let reserve := getReserveAddress P programId a.stakePool.key
  require (a.reserve.key = reserve.1) .invalidArgument
  let s ← delegateLoop P programId a chain.clock stakePool.depositBumpSeed reserve.2
    (lamportsAvailable chain a.reserve.key) instructions 0
    ⟨list.validators, false, a.rest, chain.ledger⟩
  s.finish programId list a.validatorStakeList.key

/-! ## MergeStakes -/

structure MergeStakesAccounts where
  stakePool : AccountInfo
  validatorStakeList : AccountInfo
  deposit : AccountInfo
  stakeProgram : AccountInfo
  clock : AccountInfo
  stakeHistory : AccountInfo
  /-- Main and additional stake account of every sub-instruction. -/
  rest : List AccountInfo

def MergeStakesAccounts.parse (accounts : List AccountInfo) :
    Except ProgramError MergeStakesAccounts := do
  let (stakePool, accounts) ← nextAccountInfo accounts
  let (validatorStakeList, accounts) ← nextAccountInfo accounts
  let (deposit, accounts) ← nextAccountInfo accounts
  let (stakeProgram, accounts) ← nextAccountInfo accounts
  let (clock, accounts) ← nextAccountInfo accounts
  let (stakeHistory, accounts) ← nextAccountInfo accounts
  pure ⟨stakePool, validatorStakeList, deposit, stakeProgram, clock, stakeHistory, accounts⟩

/-- Two delegated stakes with different observed credits are left alone. -/
def skipMerge : StakeState → StakeState → Bool
  | .stake _ main, .stake _ additional => main.creditsObserved ≠ additional.creditsObserved
  | _, _ => false

/-- One sub-instruction of `MergeStakes`. -/
def mergeOne (a : MergeStakesAccounts) (clock : Clock) (depositBumpSeed : UInt8)
    (instruction : MergeStakesInstruction) (s : BatchState) :
    Except ProgramError BatchState := do
  let (mainStake, accounts) ← nextAccountInfo s.accounts
  let (additionalStake, accounts) ← nextAccountInfo accounts
  let record ← okOr
    (lookup ValidatorStakeInfo.validatorAccount instruction.validatorAddress s.validators)
    (.custom .validatorNotFound)
  require (¬(instruction.mainIndex ≥ record.stakeCount ∨
      instruction.additionalIndex ≥ record.stakeCount ∨
      instruction.mainIndex ≥ instruction.additionalIndex)) (.custom .invalidStakeIndex)
  let _ ← record.checkValidatorStakeAddress P programId a.stakePool.key instruction.mainIndex
    mainStake.key
  let _ ← record.checkValidatorStakeAddress P programId a.stakePool.key
    instruction.additionalIndex additionalStake.key
  let mainState ← StakeState.deserialize P.layouts (s.ledger mainStake.key).data
  let additionalState ← StakeState.deserialize P.layouts (s.ledger additionalStake.key).data
  if skipMerge mainState additionalState then
    pure { s with accounts := accounts }
  else
    let L ← P.merge clock mainStake.key additionalStake.key a.deposit.key
      (P.signersWith programId
        [a.stakeProgram, mainStake, additionalStake, a.clock, a.stakeHistory, a.deposit]
        [authoritySeeds a.stakePool.key .deposit depositBumpSeed]) s.ledger
    if instruction.additionalIndex + 1 = record.stakeCount then
      pure
        { validators := putRecord { record with stakeCount := record.stakeCount - 1 } s.validators
          changed := true
          accounts := accounts
          ledger := L }
    else
      pure { s with accounts := accounts, ledger := L }

def mergeLoop (a : MergeStakesAccounts) (clock : Clock) (depositBumpSeed : UInt8) :
    List MergeStakesInstruction → BatchState → Except ProgramError BatchState
  | [], s => .ok s
  | instruction :: instructions, s => do
      let s ← mergeOne P programId a clock depositBumpSeed instruction s
      mergeLoop a clock depositBumpSeed instructions s

def processMergeStakes (instructions : List MergeStakesInstruction)
    (accounts : List AccountInfo) (chain : Chain) : Except ProgramError Ledger := do
  let a ← MergeStakesAccounts.parse accounts
  let stakePool ← loadStakePool P programId chain.ledger a.stakePool
  let list ← loadValidatorStakeList P chain.ledger stakePool a.validatorStakeList
  stakePool.checkAuthorityDeposit P programId a.deposit.key a.stakePool.key
  let s ← mergeLoop P programId a chain.clock stakePool.depositBumpSeed instructions
    ⟨list.validators, false, a.rest, chain.ledger⟩
  s.finish programId list a.validatorStakeList.key

/-! ## Unstake -/

structure UnstakeAccounts where
  stakePool : AccountInfo
  owner : AccountInfo
  validatorStakeList : AccountInfo
  deposit : AccountInfo
  systemProgram : AccountInfo
  stakeProgram : AccountInfo
  rent : AccountInfo
  clock : AccountInfo
  stakeHistory : AccountInfo
  /-- Source stake account of every sub-instruction, and the split account if there
  is one. -/
  rest : List AccountInfo

def UnstakeAccounts.parse (chain : Chain) (accounts : List AccountInfo) :
    Except ProgramError UnstakeAccounts := do
  let (stakePool, accounts) ← nextAccountInfo accounts
  let (owner, accounts) ← nextAccountInfo accounts
  let (validatorStakeList, accounts) ← nextAccountInfo accounts
  let (deposit, accounts) ← nextAccountInfo accounts
  let (systemProgram, accounts) ← nextAccountInfo accounts
  let (stakeProgram, accounts) ← nextAccountInfo accounts
  let (rent, accounts) ← nextAccountInfo accounts
  let _ ← Rent.fromAccountInfo chain rent
  let (clock, accounts) ← nextAccountInfo accounts
  let (stakeHistory, accounts) ← nextAccountInfo accounts
  pure ⟨stakePool, owner, validatorStakeList, deposit, systemProgram, stakeProgram, rent, clock,
    stakeHistory, accounts⟩

/-- `deactivate_stake` signed by the deposit authority. -/
def deactivate (a : UnstakeAccounts) (clock : Clock) (depositBumpSeed : UInt8)
    (stakeAccount : AccountInfo) (L : Ledger) : Except ProgramError Ledger :=
  P.deactivateStake clock stakeAccount.key a.deposit.key
    (P.signersWith programId
      [a.stakeProgram, stakeAccount, a.deposit, a.clock, a.stakeHistory]
      [authoritySeeds a.stakePool.key .deposit depositBumpSeed]) L

/-- Split `amount` lamports off into a new stake account and deactivate it. -/
def splitAndDeactivate (a : UnstakeAccounts) (chain : Chain) (depositBumpSeed : UInt8)
    (instruction : UnstakeInstruction) (sourceStake splitStake : AccountInfo)
    (splitBumpSeed : UInt8) (L : Ledger) : Except ProgramError Ledger := do
  let L ← P.createAccount a.owner.key splitStake.key
    (chain.rent.minimumBalance StakeState.size) StakeState.size stakeProgramId
    (P.signersWith programId [a.systemProgram, a.owner, splitStake]
      [stakeSeeds instruction.validatorAddress a.stakePool.key instruction.splitIndex
        splitBumpSeed]) L
  let L ← P.splitOnly sourceStake.key a.deposit.key instruction.amount splitStake.key
    (P.signersWith programId [a.stakeProgram, sourceStake, a.deposit, splitStake]
      [authoritySeeds a.stakePool.key .deposit depositBumpSeed]) L
  deactivate P programId a chain.clock depositBumpSeed splitStake L

/-- One sub-instruction of `Unstake`. -/
def unstakeOne (a : UnstakeAccounts) (chain : Chain) (depositBumpSeed : UInt8)
    (instruction : UnstakeInstruction) (s : BatchState) : Except ProgramError BatchState := do
  let record ← okOr
    (lookup ValidatorStakeInfo.validatorAccount instruction.validatorAddress s.validators)
    (.custom .validatorNotFound)
  require (¬instruction.sourceIndex ≥ record.stakeCount) (.custom .invalidStakeIndex)
  require (¬instruction.splitIndex > record.stakeCount) (.custom .invalidStakeIndex)
  let (sourceStake, accounts) ← nextAccountInfo s.accounts
  let _ ← record.checkValidatorStakeAddress P programId a.stakePool.key instruction.sourceIndex
    sourceStake.key
  if instruction.splitIndex = instruction.sourceIndex then
    -- Deactivate main stake
    let L ← deactivate P programId a chain.clock depositBumpSeed sourceStake s.ledger
    pure { s with accounts := accounts, ledger := L }
  else
    let (splitStake, accounts) ← nextAccountInfo accounts
    let splitBumpSeed ← record.checkValidatorStakeAddress P programId a.stakePool.key
      instruction.splitIndex splitStake.key
    let L ← splitAndDeactivate P programId a chain depositBumpSeed instruction sourceStake
      splitStake splitBumpSeed s.ledger
    if instruction.splitIndex = record.stakeCount then
      pure
        { validators := putRecord { record with stakeCount := record.stakeCount + 1 } s.validators
          changed := true
          accounts := accounts
          ledger := L }
    else
      pure { s with accounts := accounts, ledger := L }

def unstakeLoop (a : UnstakeAccounts) (chain : Chain) (depositBumpSeed : UInt8) :
    List UnstakeInstruction → BatchState → Except ProgramError BatchState
  | [], s => .ok s
  | instruction :: instructions, s => do
      let s ← unstakeOne P programId a chain depositBumpSeed instruction s
      unstakeLoop a chain depositBumpSeed instructions s

def processUnstake (instructions : List UnstakeInstruction) (accounts : List AccountInfo)
    (chain : Chain) : Except ProgramError Ledger := do
  let a ← UnstakeAccounts.parse chain accounts
  let stakePool ← loadStakePool P programId chain.ledger a.stakePool
  stakePool.checkOwner a.owner
  let list ← loadValidatorStakeList P chain.ledger stakePool a.validatorStakeList
  stakePool.checkAuthorityDeposit P programId a.deposit.key a.stakePool.key
  let s ← unstakeLoop P programId a chain stakePool.depositBumpSeed instructions
    ⟨list.validators, false, a.rest, chain.ledger⟩
  s.finish programId list a.validatorStakeList.key

end Tenderize
