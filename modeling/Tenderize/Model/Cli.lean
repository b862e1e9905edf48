import Tenderize.Model.Session

/-!
# The admin command line

`run` of `experiment/cli.ts`: find or create the pool and bring it up to date, fill the
reserve, pay the creditors, show what there is and process a command.  The `spl-token` commands
for a new pool and nine tenths of the reserve in floating point are left open.
-/

namespace Tenderize

open Support

namespace TenderizeProgram

variable (P : Programs) (network : Network) (payerAccount : Pubkey) (this : TenderizeProgram)

def deposit (params : DepositParams) : Session Unit :=
  send P network (fun _ => this.depositInstruction P params) [payerAccount]

def delegateReserve (validators : List DepositReserveValidatorParam) : Session Unit :=
  send P network (fun _ => this.delegateReserveInstruction P validators)
    [payerAccount, this.owner]

/-- `delegateReserveBatch`: the batches it plans, sent one after the other. -/
def sendDelegateReserveBatch (totalAmount : Int) : Session Unit := do
  let batches ← network.ask fun connection => this.delegateReserveBatch P connection totalAmount
  forM batches (this.delegateReserve P network payerAccount)

def mergeStakes (stakePairs : List StakePair) : Session Unit :=
  if stakePairs.length = 0 then pure ()
  else send P network (fun _ => this.mergeStakesInstruction P stakePairs) [payerAccount]

/-- `mergeAllStakes`. -/
def sendMergeAllStakes : Session Unit := do
  let batches ← network.ask fun connection => this.mergeAllStakes P connection
  forM batches (this.mergeStakes P network payerAccount)

/-- `unstake`. -/
def sendUnstake (validator : ValidatorInfo) (amount : Option Int) : Session Unit := do
  let batches ← network.ask fun connection => this.unstake P connection validator amount
  forM batches fun unstakes =>
    send P network (fun _ => this.unstakeInstruction P unstakes) [payerAccount, this.owner]

def unstakeAll : Session Unit := do
  let validators ← network.ask fun connection => this.readValidators connection.reader
  forM validators fun validator => this.sendUnstake P network payerAccount validator none

end TenderizeProgram

namespace Cli

inductive Command where
  | show
  | vadd (votes : List Pubkey)
  | vrem (votes : List Pubkey)
  /-- The amount in lamports; zero is none. -/
  | del (amount : Option Int)
  | update
  | unstake (vote : Option Pubkey) (amount : Option Int)

structure Args where
  feeDenominator : Int
  feeNumerator : Int
  /-- In lamports. -/
  minReserve : Int
  command : Command

variable (P : Programs) (network : Network) (payer : Pubkey) (tenderize : TenderizeProgram)

-- `spl-token`, which makes the mint and the token accounts of a new pool
variable (execShellCommands : Session Unit)

def readState : Session (Option State) :=
  network.ask fun connection => tenderize.readState connection.reader

def getAccountInfo (key : Pubkey) : Session (Option AccountView) :=
  network.ask fun connection => pure (connection.getAccountInfo key)

def create (args : Args) : Session (Option State) := do
  execShellCommands
  tenderize.createStakePool P network payer ⟨args.feeDenominator, args.feeNumerator⟩
  readState network tenderize

def refresh : Session Unit := do
  tenderize.sendMergeAllStakes P network payer
  tenderize.updatePool P network payer

/-- The state of the pool, and whether it was updated. -/
def prepare (args : Args) : Session (Option State × Bool) := do
  let state ← readState network tenderize
  let epoch := network.epoch (← get)
  if state.all fun state => state.version = 0 then
    let state ← create P network payer tenderize execShellCommands args
    pure (state, false)
  else if state.any fun state => state.lastEpochUpdate < epoch then
    refresh P network payer tenderize
    let state ← readState network tenderize
    pure (state, true)
  else pure (state, false)

def fillReserve (args : Args) : Session Unit := do
  let reserve ← getAccountInfo network (tenderize.getReserveAddress P)
  let rent := (← get).rent
  let minReserve : Int := max args.minReserve
    ((rent.minimumBalance 0).toNat + (rent.minimumBalance 10000).toNat)
  if reserve.all fun reserve => (reserve.lamports : Int) < minReserve then
    let amount := minReserve - (reserve.map AccountView.lamports).getD 0
    let account ← getAccountInfo network payer
    if ((account.map AccountView.lamports).getD 0 : Int) < amount then
      throw (.error "Not enough fund in your account.")
    else tenderize.deposit P network payer ⟨payer, amount, tenderize.ownersFee⟩
  else pure ()

/-- What is printed has to be there; the lamports of the reserve. -/
def showPool (state : Option State) : Session Nat := do
  let reserve ← getAccountInfo network (tenderize.getReserveAddress P)
  let lamports ← network.ask fun _ => okOr (reserve.map AccountView.lamports) .typeError
  let _ ← network.ask fun _ => okOr state .typeError
  let validators ← network.ask fun connection => tenderize.readValidators connection.reader
  let _ ← network.ask fun _ => validators.mapM (tenderize.validatorBlock P)
  let _ ← network.ask fun connection => tenderize.readCreditors connection.reader
  pure lamports

-- `Math.round(0.9 * lamports)`
variable (nineTenths : Nat → Int)

def processCommand (wasUpdated : Bool) (reserve : Nat) : Command → Session Unit
  | .show => pure ()
  | .vadd votes => tenderize.vadd P network payer votes
  | .vrem votes => tenderize.vrem P network payer votes
  | .del amount =>
      tenderize.sendDelegateReserveBatch P network payer (orElse amount (nineTenths reserve))
  | .update =>
      if wasUpdated then pure ()
      else do
        refresh P network payer tenderize
        let _ ← readState network tenderize
        pure ()
  | .unstake (some vote) amount => do
      let validators ← network.ask fun connection => tenderize.readValidators connection.reader
      match validators.find? fun v => v.votePubkey = vote with
      | none => throw (.error "Invalid validator")
      | some v => tenderize.sendUnstake P network payer v amount
  | .unstake none _ => tenderize.unstakeAll P network payer

/-- At most `fuel` rounds of payments. -/
def run (fuel : Nat) (args : Args) : Session Unit := do
  let (state, wasUpdated) ← prepare P network payer tenderize execShellCommands args
  fillReserve P network payer tenderize args
  let _ ← tenderize.payAllCreditors P network payer fuel
  let reserve ← showPool P network tenderize state
  processCommand P network payer tenderize nineTenths wasUpdated reserve args.command

end Cli

end Tenderize
