import Tenderize.Model.Planner

/-!
# The admin client at work

The methods of `experiment/tenderize.ts` that send transactions, and the commands of
`experiment/cli.ts` that are loops over them.  A method is a computation on the chain: what it
sent before it threw stays done.  Nobody else sends transactions while it runs.
-/

namespace Tenderize

open Support

/-! ## Transactions -/

/-- A method of the client. -/
abbrev Session := EStateM JsError Chain

/-- `SystemProgram.createAccount`. -/
structure CreateAccountParams where
  fromPubkey : Pubkey
  newAccountPubkey : Pubkey
  lamports : UInt64
  space : Nat
  programId : Pubkey

inductive TransactionItem where
  | createAccount (params : CreateAccountParams)
  | program (instruction : TransactionInstruction)

namespace TransactionItem

/-- The keys whose signatures an item asks for. -/
def required : TransactionItem → List Pubkey
  | .createAccount params => [params.fromPubkey, params.newAccountPubkey]
  | .program instruction => signers instruction.keys

/-- The accounts of an instruction: whoever signs the transaction signs all of it. -/
def accounts (signatures : List Pubkey) (keys : List AccountInfo) : List AccountInfo :=
  keys.map fun info => ⟨info.key, info.isSigner || info.key ∈ signatures⟩

def execute (P : Programs) (signatures : List Pubkey) (item : TransactionItem) (c : Chain) :
    Except ProgramError Ledger :=
  match item with
  | .createAccount params =>
      P.createAccount params.fromPubkey params.newAccountPubkey params.lamports params.space
        params.programId signatures c.ledger
  | .program instruction =>
      process P instruction.programId (accounts signatures instruction.keys) instruction.data c

end TransactionItem

/-- The items of a transaction, one after the other. -/
def executeAll (P : Programs) (signatures : List Pubkey) :
    List TransactionItem → Chain → Except ProgramError Chain
  | [], c => .ok c
  | item :: items, c => do
      let L ← item.execute P signatures c
      executeAll P signatures items { c with ledger := L }

structure Network where
  /-- What a node answers in a state of the chain. -/
  connection : Chain → Connection
  /-- `getVoteAccounts`, the current ones. -/
  voteAccounts : Chain → List Pubkey
  /-- `getEpochInfo`. -/
  epoch : Chain → Nat
  /-- The transaction fits into a packet. -/
  fits : List TransactionItem → Bool

namespace Network

variable (network : Network)

/-- What the client reads. -/
def ask {α : Type} (question : Connection → Except JsError α) : Session α := fun c =>
  match question (network.connection c) with
  | .ok answer => .ok answer c
  | .error e => .error e c

/-- All of the transaction is executed, or nothing and the client learns that it failed. -/
def sendAndConfirmTransaction (P : Programs) (items : List TransactionItem)
    (signatures : List Pubkey) : Session Unit := fun c =>
  if ¬items.all fun item => item.required.all (· ∈ signatures) then
    .error (.error "Signature verification failed") c
  else if ¬network.fits items then .error (.error "Transaction too large") c
  else
    match executeAll P signatures items c with
    | .ok c' => .ok () c'
    | .error _ => .error (.error "failed to send transaction") c

end Network

namespace TenderizeProgram

variable (P : Programs) (network : Network) (payerAccount : Pubkey) (this : TenderizeProgram)

/-- Build an instruction and send it as a transaction of its own. -/
def send (instruction : Connection → Except JsError TransactionInstruction)
    (signatures : List Pubkey) : Session Unit := do
  let instruction ← network.ask instruction
  network.sendAndConfirmTransaction P [.program instruction] signatures

/-! ## Creating the pool -/

def stakePoolLength : Nat := 1000 + 4 + 32 + 4 + 4 + 32 + 32 + 32 + 8 + 8 + 8 + 2 * 8

def validatorStakeListLength : Nat := 60000 + 4 + 4 + 1000 * (32 + 8 + 8)

def creditListLength : Nat := 5 + 10000 * (32 + 32 + 32)

/-- An account of the program, with `getMinimumBalanceForRentExemption` for its length. -/
def newAccount (rent : Rent) (key : Pubkey) (length : Nat) : TransactionItem :=
  .createAccount
    { fromPubkey := payerAccount
      newAccountPubkey := key
      lamports := rent.minimumBalance length
      space := length
      programId := this.programId }

def createStakePool (params : CreateStakePoolParams) : Session Unit := do
  let rent := (← get).rent
  let instruction ← network.ask fun _ => this.createStakePoolInstruction params
  network.sendAndConfirmTransaction P
    [this.newAccount payerAccount rent this.stakePool stakePoolLength,
      this.newAccount payerAccount rent this.validatorStakeListAccount validatorStakeListLength,
      this.newAccount payerAccount rent this.creditListAccount creditListLength,
      .program instruction]
    [payerAccount, this.owner, this.stakePool, this.validatorStakeListAccount,
      this.creditListAccount]

/-! ## Validators -/

/-- The data of an instruction without arguments. -/
def tagData (tag : Int) : Except JsError Buffer := do
  let (data, _) ← writeUInt8 (Buffer.alloc 1) tag 0
  pure data

def validatorListKeys (validator : Pubkey) : List AccountInfo :=
  [plainKey this.stakePool, signerKey this.owner, plainKey this.validatorStakeListAccount,
    plainKey validator, plainKey clockId]

def addValidatorInstruction (validator : Pubkey) : Except JsError TransactionInstruction := do
  let data ← tagData 2
  pure { keys := this.validatorListKeys validator, programId := this.programId, data := data }

def addValidator (validator : Pubkey) : Session Unit :=
  send P network (fun _ => this.addValidatorInstruction validator) [payerAccount, this.owner]

def removeValidatorInstruction (validator : Pubkey) : Except JsError TransactionInstruction := do
  let data ← tagData 3
  pure { keys := this.validatorListKeys validator, programId := this.programId, data := data }

def removeValidator (validator : Pubkey) : Session Unit :=
  send P network (fun _ => this.removeValidatorInstruction validator) [payerAccount, this.owner]

/-! ## Creditors -/

def payCreditorsKeys (state : State) : List AccountInfo :=
  [plainKey this.stakePool, plainKey this.creditListAccount,
    plainKey (this.getWithdrawAuthority P), plainKey (this.getReserveAddress P),
    plainKey state.creditReserve, plainKey this.poolMintToken, plainKey rentId, plainKey clockId,
    plainKey systemProgramId, plainKey splTokenId]

/-- The first `maxCount` creditors, or all of them for a count that is not positive. -/
def payCreditorsInstruction (maxCount : Int) (connection : Connection) :
    Except JsError TransactionInstruction := do
  let data ← tagData 15
  let state ← okOr (← this.readState connection.reader) .typeError
  let creditors ← this.readCreditors connection.reader
  let paid := if maxCount ≤ 0 then creditors else creditors.take maxCount.toNat
  pure
    { keys := this.payCreditorsKeys P state ++ paid.map fun creditor => plainKey creditor.target
      programId := this.programId
      data := data }

def payCreditors (maxCount : Int) : Session Unit :=
  send P network (this.payCreditorsInstruction P maxCount) [payerAccount]

/-- The loop of `payAllCreditors` on the creditors that were read last; whether it came to
its end within `fuel` rounds. -/
def payRounds : (fuel : Nat) → List Creditor → Session Bool
  | 0, creditors => pure creditors.isEmpty
  | fuel + 1, creditors => do
      if creditors.length > 0 then
        let oldLength := creditors.length
        this.payCreditors P network payerAccount 30
        let creditors ← network.ask fun connection => this.readCreditors connection.reader
        if creditors.length = oldLength then pure true
        else payRounds fuel creditors
      else pure true

def payAllCreditors (fuel : Nat) : Session Bool := do
  let creditors ← network.ask fun connection => this.readCreditors connection.reader
  this.payRounds P network payerAccount fuel creditors

/-! ## Refreshing -/

def updateListBalanceKeys : List AccountInfo :=
  [plainKey this.stakePool, plainKey this.validatorStakeListAccount,
    plainKey (this.getWithdrawAuthority P), plainKey (this.getReserveAddress P),
    plainKey systemProgramId, plainKey stakeProgramId, plainKey clockId, plainKey stakeHistoryId]

/-- A validator and its stake accounts. -/
def validatorBlock (validator : ValidatorInfo) : Except JsError (List AccountInfo) := do
  let stakes ← (List.range validator.stakeCount).mapM fun (i : Nat) =>
    this.getStakeForValidator P validator.votePubkey i
  pure (plainKey validator.votePubkey :: stakes.map plainKey)

def updateListBalanceInstruction (validators : List ValidatorInfo) :
    Except JsError TransactionInstruction := do
  let data ← tagData 4
  let blocks ← validators.mapM (this.validatorBlock P)
  pure
    { keys := this.updateListBalanceKeys P ++ blocks.flatten
      programId := this.programId
      data := data }

def updateListBalance (validators : List ValidatorInfo) : Session Unit :=
  send P network (fun _ => this.updateListBalanceInstruction P validators) [payerAccount]

def updatePoolBalanceInstruction : Except JsError TransactionInstruction := do
  let data ← tagData 5
  pure
    { keys :=
        [plainKey this.stakePool, plainKey this.validatorStakeListAccount,
          plainKey (this.getReserveAddress P), plainKey clockId]
      programId := this.programId
      data := data }

def updatePoolBalance : Session Unit :=
  send P network (fun _ => this.updatePoolBalanceInstruction P) [payerAccount]

def updatePool : Session Unit := do
  let allValidators ← network.ask fun connection => this.readValidators connection.reader
  forM allValidators fun validator => this.updateListBalance P network payerAccount [validator]
  this.updatePoolBalance P network payerAccount

/-! ## Commands -/

/-- `vadd`: the validators named, or all of the network that are not listed yet. -/
def vadd (votes : List Pubkey) : Session Unit := do
  let validators ←
    if votes.length = 0 then do
      let currentValidators ← network.ask fun connection => this.readValidators connection.reader
      let current := network.voteAccounts (← get)
      pure (current.filter fun v => ¬currentValidators.any fun c => c.votePubkey = v)
    else pure votes
  forM validators (this.addValidator P network payerAccount)

/-- `vrem`: the validators named, or all without stake accounts. -/
def vrem (votes : List Pubkey) : Session Unit := do
  let validators ←
    if votes.length = 0 then do
      let validators ← network.ask fun connection => this.readValidators connection.reader
      pure ((validators.filter fun v => v.stakeCount = 0).map ValidatorInfo.votePubkey)
    else pure votes
  forM validators (this.removeValidator P network payerAccount)

end TenderizeProgram

end Tenderize
