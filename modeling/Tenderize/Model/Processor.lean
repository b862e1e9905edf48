import Tenderize.Model.Processor.Pool
import Tenderize.Model.Processor.Credits
import Tenderize.Model.Processor.Validators
import Tenderize.Model.Processor.Stakes

/-!
# The instructions and their dispatch
-/

namespace Tenderize

variable (P : Programs) (programId : Pubkey)

/-- Instructions supported by the StakePool program. -/
inductive StakePoolInstruction where
  | initializePool (init : InitArgs)
  | addValidator
  | removeValidator
  | updateListBalance
  | updatePoolBalance
  | deposit (amount : UInt64)
  | withdraw (poolAmount : UInt64)
  | setStakingAuthority
  | setOwner
  | credit (amount : UInt64)
  | uncredit (amount : UInt64)
  | delegateReserve (instructions : List DelegateReserveInstruction)
  | mergeStakes (instructions : List MergeStakesInstruction)
  | unstake (instructions : List UnstakeInstruction)
  | payCreditors
deriving DecidableEq

/-- The body of `Processor::process` on a decoded instruction. -/
def dispatch (instruction : StakePoolInstruction) (accounts : List AccountInfo)
    (chain : Chain) : Except ProgramError Ledger :=
  match instruction with
  | .initializePool init => processInitialize P programId init accounts chain
  | .addValidator => processAddValidator P programId accounts chain
  | .removeValidator => processRemoveValidator P programId accounts chain
  | .updateListBalance => processUpdateListBalance P programId accounts chain
  | .updatePoolBalance => processUpdatePoolBalance P programId accounts chain
  | .deposit amount => processDeposit P programId amount accounts chain
  | .withdraw poolAmount => processWithdraw P programId poolAmount accounts chain
  -- `panic!("Instruction: SetStakingAuthority")`
  | .setStakingAuthority => .error .programFailedToComplete
  | .setOwner => processSetOwner P programId accounts chain
  | .credit amount => processCredit P programId amount accounts chain
  | .uncredit amount => processUncredit P programId amount accounts chain
  | .delegateReserve instructions =>
      processDelegateReserve P programId instructions accounts chain
  | .mergeStakes instructions => processMergeStakes P programId instructions accounts chain
  | .unstake instructions => processUnstake P programId instructions accounts chain
  | .payCreditors => processPayCreditors P programId accounts chain

end Tenderize
