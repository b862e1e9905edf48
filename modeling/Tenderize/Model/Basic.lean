import Mathlib.Logic.Basic

/-!
# Addresses and errors

The addresses of accounts, the seeds of program addresses and the error codes of
`error.rs`, shared by every part of the program.
-/

namespace Tenderize

/-- The 32 bytes of an account address. -/
structure Pubkey where
  bits : BitVec 256
deriving DecidableEq, Inhabited

/-! ## Well-known addresses -/

/-- `system_program::id()`, the all-zero key. -/
def systemProgramId : Pubkey := ⟨0⟩

/-- `stake::id()`, "Stake11111111111111111111111111111111111111". -/
def stakeProgramId : Pubkey :=
  ⟨0x6a1d8179137542a983437bdfe2a7ab2557f535c8a78722b68a49dc000000000⟩

/-- `sysvar::clock::id()`. -/
def clockId : Pubkey :=
  ⟨0x6a7d51718c774c928566398691d5eb68b5eb8a39b4b6d5c73555b2100000000⟩

/-- `sysvar::rent::id()`. -/
def rentId : Pubkey :=
  ⟨0x6a7d517192c5c51218cc94c3d4af17f58daee089ba1fd44e3dbd98a00000000⟩

/-- `spl_token::id()`. -/
def splTokenId : Pubkey :=
  ⟨0x6ddf6e1d765a193d9cbe146ceeb79ac1cb485ed5f5b37913a8cf5857eff00a9⟩

/-- `spl_token::native_mint::id()`. -/
def nativeMintId : Pubkey :=
  ⟨0x69b8857feab8184fb687f634618c035dac439dc1aeb3b5598a0f00000000001⟩

theorem stakeProgramId_ne_system : stakeProgramId ≠ systemProgramId := by decide

theorem splTokenId_ne_system : splTokenId ≠ systemProgramId := by decide

theorem splTokenId_ne_stake : splTokenId ≠ stakeProgramId := by decide

/-! ## Program addresses -/

/-- The literals the processor appends to a pool's key to name one of its addresses. -/
inductive AuthorityType where
  | deposit
  | withdraw
  | reserve
  | temp
deriving DecidableEq

/-- `AUTHORITY_DEPOSIT`, `AUTHORITY_WITHDRAW`, `AUTHORITY_RESERVE` and `TEMP_ACCOUNT`. -/
def AuthorityType.text : AuthorityType → String
  | .deposit => "deposit"
  | .withdraw => "withdraw"
  | .reserve => "reserve"
  | .temp => "temp"

/-- One seed of a program address: the bytes of a key, a literal, the four bytes of
an index or the bump byte. -/
inductive Seed where
  | key (key : Pubkey)
  | authority (type : AuthorityType)
  | index (index : UInt32)
  | bump (bump : UInt8)
deriving DecidableEq

/-! ## Errors -/

/-- `StakePoolError`, in the order of `error.rs`. -/
inductive StakePoolError where
  | alreadyInUse
  | invalidProgramAddress
  | invalidState
  | calculationFailure
  | feeTooHigh
  | wrongAccountMint
  | nonZeroBalance
  | wrongOwner
  | signatureMissing
  | invalidValidatorStakeList
  | invalidFeeAccount
  | wrongPoolMint
  | wrongStakeState
  | userStakeNotActive
  | validatorAlreadyAdded
  | validatorNotFound
  | invalidStakeAccountAddress
  | stakeListOutOfDate
  | stakeListAndPoolOutOfDate
  | unknownValidatorStakeAccount
  | wrongMintingAuthority
  | mintHasInitialSupply
  | accountNotRentExempt
  | validatorListOverflow
  | validatorHasStakes
  | firstDepositIsTooSmall
  | wrongCreditOwner
  | wrongCreditState
  | invalidStakeIndex
  | creditListOverfow
  | unknownCreditor
deriving DecidableEq

/-- The errors an instruction can end with: those of `ProgramError` the processor
returns, its own codes, and the refusals of the runtime and of called programs. -/
inductive ProgramError where
  | custom (error : StakePoolError)
  | invalidArgument
  | invalidAccountData
  | insufficientFunds
  | incorrectProgramId
  | missingRequiredSignature
  | notEnoughAccountKeys
  /-- The runtime found that a program wrote an account it does not own. -/
  | externalAccountDataModified
  /-- `panic!`. -/
  | programFailedToComplete
  /-- A called program refused. -/
  | callFailed
deriving DecidableEq

instance : Coe StakePoolError ProgramError := ⟨.custom⟩

end Tenderize
