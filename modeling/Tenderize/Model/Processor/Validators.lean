import Tenderize.Model.Processor.Common
import Tenderize.Support.FirstMatch

/-!
# The validator list

`AddValidator`, `RemoveValidator` and `UpdateListBalance`.
-/

namespace Tenderize

open Support

variable (P : Programs) (programId : Pubkey)

/-! ## AddValidator and RemoveValidator -/

structure ValidatorAccounts where
  stakePool : AccountInfo
  owner : AccountInfo
  validatorStakeList : AccountInfo
  validator : AccountInfo
  clock : AccountInfo

def ValidatorAccounts.parse (chain : Chain) (accounts : List AccountInfo) :
    Except ProgramError ValidatorAccounts := do
  let (stakePool, accounts) ← nextAccountInfo accounts
  let (owner, accounts) ← nextAccountInfo accounts
  let (validatorStakeList, accounts) ← nextAccountInfo accounts
  let (validator, accounts) ← nextAccountInfo accounts
  let (clock, _) ← nextAccountInfo accounts
  let _ ← Clock.fromAccountInfo chain clock
  pure ⟨stakePool, owner, validatorStakeList, validator, clock⟩

/-- The checks both instructions make before they look at the list. -/
def loadForOwner (chain : Chain) (a : ValidatorAccounts) :
    Except ProgramError ValidatorStakeList := do
  let stakePool ← loadStakePool P programId chain.ledger a.stakePool
  stakePool.checkOwner a.owner
  require (¬stakePool.lastUpdateEpoch < chain.clock.epoch)
    (.custom .stakeListAndPoolOutOfDate)
  loadValidatorStakeList P chain.ledger stakePool a.validatorStakeList

def processAddValidator (accounts : List AccountInfo) (chain : Chain) :
    Except ProgramError Ledger := do
  let a ← ValidatorAccounts.parse chain accounts
  let list ← loadForOwner P programId chain a
  require (¬list.validators.length ≥ maxValidators) (.custom .validatorListOverflow)
  require (¬list.contains a.validator.key) (.custom .validatorAlreadyAdded)
  let record : ValidatorStakeInfo :=
    { validatorAccount := a.validator.key
      balance := 0
      lastUpdateEpoch := chain.clock.epoch
      stakeCount := 0 }
  store programId a.validatorStakeList.key
    (ValidatorStakeList.serialize { list with validators := list.validators ++ [record] })
    chain.ledger

/-- Take the first record of the validator out of the list. -/
def removeRecord (validator : Pubkey) (validators : List ValidatorStakeInfo) :
    Except ProgramError (List ValidatorStakeInfo) :=
  match lookup ValidatorStakeInfo.validatorAccount validator validators with
  | some record => do
      require (¬record.stakeCount > 0) (.custom .validatorHasStakes)
      pure (validators.eraseP (fun item => item.validatorAccount = validator))
  | none => .error (.custom .validatorNotFound)

def processRemoveValidator (accounts : List AccountInfo) (chain : Chain) :
    Except ProgramError Ledger := do
  let a ← ValidatorAccounts.parse chain accounts
  let list ← loadForOwner P programId chain a
  let validators ← removeRecord a.validator.key list.validators
  store programId a.validatorStakeList.key
    (ValidatorStakeList.serialize { list with validators }) chain.ledger

/-! ## UpdateListBalance -/

structure UpdateListBalanceAccounts where
  stakePool : AccountInfo
  validatorStakeList : AccountInfo
  withdraw : AccountInfo
  reserve : AccountInfo
  systemProgram : AccountInfo
  stakeProgram : AccountInfo
  clock : AccountInfo
  stakeHistory : AccountInfo
  /-- Vote accounts, each followed by its stake accounts. -/
  rest : List AccountInfo

def UpdateListBalanceAccounts.parse (chain : Chain) (accounts : List AccountInfo) :
    Except ProgramError UpdateListBalanceAccounts := do
  let (stakePool, accounts) ← nextAccountInfo accounts
  let (validatorStakeList, accounts) ← nextAccountInfo accounts
  let (withdraw, accounts) ← nextAccountInfo accounts
  let (reserve, accounts) ← nextAccountInfo accounts
  let (systemProgram, accounts) ← nextAccountInfo accounts
  let (stakeProgram, accounts) ← nextAccountInfo accounts
  let (clock, accounts) ← nextAccountInfo accounts
  let _ ← Clock.fromAccountInfo chain clock
  let (stakeHistory, accounts) ← nextAccountInfo accounts
  pure ⟨stakePool, validatorStakeList, withdraw, reserve, systemProgram, stakeProgram, clock,
    stakeHistory, accounts⟩

/-- The part of a stake account's balance that is neither rent nor delegated.  The
subtractions wrap. -/
def availableLamports (balance : UInt64) : StakeState → Except ProgramError UInt64
  | .uninitialized => .ok balance
  | .initialized stakeMeta => .ok (balance - stakeMeta.rentExemptReserve)
  | .stake stakeMeta stake =>
      .ok (balance - stakeMeta.rentExemptReserve - stake.delegation.stake)
  | .rewardsPool => .error (.custom .wrongStakeState)

/-- Refresh one stake account: free lamports go to the reserve.  The result is the
balance left in it, when it is a live stake account. -/
def updateStake (a : UpdateListBalanceAccounts) (clock : Clock) (withdrawBumpSeed : UInt8)
    (validatorVote : AccountInfo) (index : UInt32) (stakeBumpSeed : UInt8)
    (stakeAccount : AccountInfo) (L : Ledger) :
    Except ProgramError (Option UInt64 × Ledger) := do
  let balance := (L stakeAccount.key).lamports
  if balance > 0 then
    if (L stakeAccount.key).owner = stakeProgramId then
      let state ← StakeState.deserialize P.layouts (L stakeAccount.key).data
      let available ← availableLamports balance state
      if available > 0 then
        let L ← P.stakeWithdraw clock stakeAccount.key a.withdraw.key a.reserve.key available
          (P.signersWith programId
            [stakeAccount, a.reserve, a.clock, a.stakeHistory, a.withdraw, a.stakeProgram]
            [authoritySeeds a.stakePool.key .withdraw withdrawBumpSeed]) L
        pure (some (balance - available), L)
      else
        pure (some balance, L)
    else
      require ((L stakeAccount.key).owner = systemProgramId) (.custom .wrongStakeState)
      let L ← P.transfer stakeAccount.key a.reserve.key balance
        (P.signersWith programId [a.systemProgram, stakeAccount, a.reserve]
          [stakeSeeds validatorVote.key a.stakePool.key index stakeBumpSeed]) L
      pure (none, L)
  else
    pure (none, L)

/-- The variables of the loop over one validator's stake accounts. -/
structure ScanState where
  record : ValidatorStakeInfo
  newStakeCount : UInt32
  accounts : List AccountInfo
  ledger : Ledger

/-- `for index in 0..stake_count`, with `remaining` indices to go. -/
def scanStakes (a : UpdateListBalanceAccounts) (clock : Clock) (withdrawBumpSeed : UInt8)
    (validatorVote : AccountInfo) :
    (remaining : Nat) → (index : UInt32) → ScanState → Except ProgramError ScanState
  | 0, _, s => .ok s
  | remaining + 1, index, s => do
      let (stakeAccount, accounts) ← nextAccountInfo s.accounts
      let stakeBumpSeed ← s.record.checkValidatorStakeAddress P programId a.stakePool.key index
        stakeAccount.key
      let (kept, L) ← updateStake P programId a clock withdrawBumpSeed validatorVote index
        stakeBumpSeed stakeAccount s.ledger
      match kept with
      | some balance =>
          scanStakes a clock withdrawBumpSeed validatorVote remaining (index + 1)
            ⟨{ s.record with balance := s.record.balance + balance }, index + 1, accounts, L⟩
      | none =>
          scanStakes a clock withdrawBumpSeed validatorVote remaining (index + 1)
            ⟨s.record, s.newStakeCount, accounts, L⟩

/-- Refresh the record of one validator from its stake accounts. -/
def updateValidator (a : UpdateListBalanceAccounts) (clock : Clock) (withdrawBumpSeed : UInt8)
    (validatorVote : AccountInfo) (record : ValidatorStakeInfo) (accounts : List AccountInfo)
    (L : Ledger) : Except ProgramError (ValidatorStakeInfo × List AccountInfo × Ledger) := do
  let s ← scanStakes P programId a clock withdrawBumpSeed validatorVote
    record.stakeCount.toNat 0 ⟨{ record with balance := 0 }, 0, accounts, L⟩
  pure ({ s.record with stakeCount := s.newStakeCount, lastUpdateEpoch := clock.epoch },
    s.accounts, s.ledger)

/-- The loop over the remaining accounts; every round consumes at least one, so `fuel`
is their number. -/
def updateValidators (a : UpdateListBalanceAccounts) (clock : Clock)
    (withdrawBumpSeed : UInt8) :
    (fuel : Nat) → List AccountInfo → List ValidatorStakeInfo → Ledger →
      Except ProgramError (List ValidatorStakeInfo × Ledger)
  | _, [], validators, L => .ok (validators, L)
  | 0, _ :: _, _, _ => .error .programFailedToComplete
  | fuel + 1, validatorVote :: accounts, validators, L =>
      match lookup ValidatorStakeInfo.validatorAccount validatorVote.key validators with
      | some record => do
          let (record, accounts, L) ← updateValidator P programId a clock withdrawBumpSeed
            validatorVote record accounts L
          updateValidators a clock withdrawBumpSeed fuel accounts
            (updateFirst ValidatorStakeInfo.validatorAccount validatorVote.key record validators)
            L
      | none => .error (.custom .validatorNotFound)

def processUpdateListBalance (accounts : List AccountInfo) (chain : Chain) :
    Except ProgramError Ledger := do
  let a ← UpdateListBalanceAccounts.parse chain accounts
  let stakePool ← loadStakePool P programId chain.ledger a.stakePool
  let list ← loadValidatorStakeList P chain.ledger stakePool a.validatorStakeList
  stakePool.checkAuthorityWithdraw P programId a.withdraw.key a.stakePool.key
  require (a.reserve.key = (getReserveAddress P programId a.stakePool.key).1) .invalidArgument
  let (validators, L) ← updateValidators P programId a chain.clock stakePool.withdrawBumpSeed
    a.rest.length a.rest list.validators chain.ledger
  -- `changes` is set by the first round.
  if a.rest ≠ [] then
    store programId a.validatorStakeList.key
      (ValidatorStakeList.serialize { list with validators }) L
  else
    pure L

end Tenderize
