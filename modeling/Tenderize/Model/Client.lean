import Tenderize.Model.Instruction

/-!
# The clients

The instruction builders of the admin client, `experiment/tenderize.ts`, and of the web
client, `src/models/lending`.  Numbers of the clients are integers; a builder that a
`Buffer` or a `BN` refuses throws.
-/

namespace Tenderize

open Support

inductive JsError where
  | rangeError
  | assertionError
  | typeError
  | error (message : String)
deriving DecidableEq

/-! ## Buffers -/

abbrev Buffer := List UInt8

def Buffer.alloc (size : Nat) : Buffer := List.replicate size 0

/-- Write an integer as a little-endian word of `width` bytes, in two's complement; the
buffer and the offset behind the word. -/
def writeWord (width : Nat) (low high : Int) (data : Buffer) (value : Int) (offset : Nat) :
    Except JsError (Buffer × Nat) := do
  require (low ≤ value ∧ value < high ∧ offset + width ≤ data.length) .rangeError
  pure (overwrite data offset (leBytes width (value % 256 ^ width).toNat), offset + width)

def writeUInt8 := writeWord 1 0 (2 ^ 8)

def writeUInt32LE := writeWord 4 0 (2 ^ 32)

def writeBigUInt64LE := writeWord 8 0 (2 ^ 64)

def writeBigInt64LE := writeWord 8 (-2 ^ 63) (2 ^ 63)

/-- `Buffer.copy`: as much of the source as fits behind the offset, and how much that is. -/
def Buffer.copy (source target : Buffer) (offset : Nat) : Buffer × Nat :=
  let count := min source.length (target.length - offset)
  (overwrite target offset (source.take count), count)

structure TransactionInstruction where
  keys : List AccountInfo
  programId : Pubkey
  data : Buffer

/-- An entry of `keys` that does not sign. -/
def plainKey (key : Pubkey) : AccountInfo := ⟨key, false⟩

def signerKey (key : Pubkey) : AccountInfo := ⟨key, true⟩

/-! ## The admin client -/

/-- `SYSVAR_STAKE_HISTORY_PUBKEY`. -/
def stakeHistoryId : Pubkey :=
  ⟨0x6a7d517193584d0feed9bb3431d13206be544281b57b8566cc5375ff4000000⟩

/-- "StakeConfig11111111111111111111111111111111". -/
def stakeConfigId : Pubkey :=
  ⟨0x6a1d817a502050b680791e6ce6db88e1e5b7150f61fc6790a4eb4d100000000⟩

structure TenderizeProgram where
  programId : Pubkey
  stakePool : Pubkey
  owner : Pubkey
  validatorStakeListAccount : Pubkey
  creditListAccount : Pubkey
  poolMintToken : Pubkey
  ownersFee : Pubkey
  creditReserve : Pubkey

structure CreateStakePoolParams where
  feeDenominator : Int
  feeNumerator : Int

structure DepositParams where
  userSource : Pubkey
  amount : Int
  userToken : Pubkey

structure WithdrawParams where
  userTokenSource : Pubkey
  amount : Int
  userSolTarget : Pubkey

structure CreditParams where
  userTokenSource : Pubkey
  amount : Int
  userSolTarget : Pubkey
  cancelAuthority : Pubkey

structure DepositReserveValidatorParam where
  address : Pubkey
  amount : Int
  stakeIndex : Int
deriving DecidableEq

structure StakePair where
  validator : Pubkey
  mainIndex : Int
  additionalIndex : Int
deriving DecidableEq

structure Unstake where
  validator : Pubkey
  sourceIndex : Int
  splitIndex : Option Int
  amount : Option Int
deriving DecidableEq

/-- `if (value)`: neither `undefined` nor zero. -/
def truthy : Option Int → Bool
  | some value => value ≠ 0
  | none => false

/-- `value || other`. -/
def orElse (value : Option Int) (other : Int) : Int :=
  if truthy value then value.getD other else other

namespace TenderizeProgram

variable (P : Programs) (this : TenderizeProgram)

def getReserveAddress : Pubkey :=
  (P.findProgramAddress [.key this.stakePool, .authority .reserve] this.programId).1

def getDepositAuthority : Pubkey :=
  (P.findProgramAddress [.key this.stakePool, .authority .deposit] this.programId).1

def getWithdrawAuthority : Pubkey :=
  (P.findProgramAddress [.key this.stakePool, .authority .withdraw] this.programId).1

def getStakeForValidator (validator : Pubkey) (index : Int) : Except JsError Pubkey := do
  let (indexBuffer, _) ← writeUInt32LE (Buffer.alloc 4) index 0
  pure (P.findProgramAddress
    [.key validator, .key this.stakePool, .index (readU32 indexBuffer)] this.programId).1

def createStakePoolInstruction (params : CreateStakePoolParams) :
    Except JsError TransactionInstruction := do
  let data := Buffer.alloc (1 + 8 + 8)
  let (data, p) ← writeUInt8 data 0 0
  let (data, p) ← writeBigUInt64LE data params.feeDenominator p
  let (data, _) ← writeBigUInt64LE data params.feeNumerator p
  pure
    { keys :=
        [plainKey this.stakePool, signerKey this.owner,
          plainKey this.validatorStakeListAccount, plainKey this.creditListAccount,
          plainKey this.poolMintToken, plainKey this.ownersFee,
          plainKey this.creditReserve, plainKey clockId, plainKey rentId,
          plainKey splTokenId]
      programId := this.programId
      data := data }

/-- The data of an instruction with one amount. -/
def amountData (tag : Int) (amount : Int) : Except JsError Buffer := do
  let data := Buffer.alloc (1 + 8)
  let (data, p) ← writeUInt8 data tag 0
  let (data, _) ← writeBigInt64LE data amount p
  pure data

def depositInstruction (params : DepositParams) : Except JsError TransactionInstruction := do
  let data ← amountData 6 params.amount
  pure
    { keys :=
        [plainKey this.stakePool, plainKey (this.getWithdrawAuthority P),
          plainKey (this.getReserveAddress P), signerKey params.userSource,
          plainKey params.userToken, plainKey this.ownersFee,
          plainKey this.poolMintToken, plainKey rentId, plainKey systemProgramId,
          plainKey splTokenId]
      programId := this.programId
      data := data }

def withdrawInstruction (params : WithdrawParams) : Except JsError TransactionInstruction := do
  let data ← amountData 7 params.amount
  pure
    { keys :=
        [plainKey this.stakePool, plainKey (this.getWithdrawAuthority P),
          plainKey (this.getReserveAddress P), plainKey params.userTokenSource,
          plainKey this.poolMintToken, plainKey params.userSolTarget, plainKey rentId,
          plainKey systemProgramId, plainKey splTokenId]
      programId := this.programId
      data := data }

/-- A credit, or with a negative amount an uncredit. -/
def creditInstruction (params : CreditParams) : Except JsError TransactionInstruction := do
  let data ← amountData (if params.amount ≥ 0 then 10 else 11) |params.amount|
  pure
    { keys :=
        [plainKey this.stakePool, plainKey this.creditListAccount,
          plainKey this.creditReserve, plainKey (this.getWithdrawAuthority P),
          plainKey params.userTokenSource, plainKey params.userSolTarget,
          ⟨params.cancelAuthority, params.amount < 0⟩, plainKey splTokenId]
      programId := this.programId
      data := data }

/-- The body of the loop over the validators. -/
def pushValidator (validator : DepositReserveValidatorParam)
    (out : Buffer × Nat × List AccountInfo) : Except JsError (Buffer × Nat × List AccountInfo) := do
  let (data, p, keys) := out
  let (data, p) ← writeBigUInt64LE data validator.amount p
  let (data, p) ← writeUInt32LE data validator.stakeIndex p
  let stake ← this.getStakeForValidator P validator.address validator.stakeIndex
  pure (data, p, keys ++ [plainKey validator.address, plainKey stake])

def delegateReserveKeys : List AccountInfo :=
  [plainKey this.stakePool, signerKey this.owner, plainKey this.validatorStakeListAccount,
    plainKey (this.getWithdrawAuthority P), plainKey (this.getDepositAuthority P),
    plainKey (this.getReserveAddress P), plainKey systemProgramId,
    plainKey stakeProgramId, plainKey clockId, plainKey stakeHistoryId,
    plainKey stakeConfigId, plainKey rentId]

def delegateReserveInstruction (validators : List DepositReserveValidatorParam) :
    Except JsError TransactionInstruction := do
  let data := Buffer.alloc (1 + 4 + (8 + 4) * validators.length)
  let (data, p) ← writeUInt8 data 12 0
  let (data, p) ← writeUInt32LE data validators.length p
  let (data, _, keys) ← validators.foldlM (fun out validator => this.pushValidator P validator out)
    (data, p, this.delegateReserveKeys P)
  pure { keys := keys, programId := this.programId, data := data }

/-- The body of the loop over the pairs. -/
def pushPair (stakePair : StakePair) (out : Buffer × Nat × List AccountInfo) :
    Except JsError (Buffer × Nat × List AccountInfo) := do
  let (data, p, keys) := out
  let (data, count) := Buffer.copy stakePair.validator.toBytes data p
  let (data, p) ← writeUInt32LE data stakePair.mainIndex (p + count)
  let (data, p) ← writeUInt32LE data stakePair.additionalIndex p
  let mainStake ← this.getStakeForValidator P stakePair.validator stakePair.mainIndex
  let additionalStake ← this.getStakeForValidator P stakePair.validator stakePair.additionalIndex
  pure (data, p, keys ++ [plainKey mainStake, plainKey additionalStake])

def mergeStakesKeys : List AccountInfo :=
  [plainKey this.stakePool, plainKey this.validatorStakeListAccount,
    plainKey (this.getDepositAuthority P), plainKey stakeProgramId, plainKey clockId,
    plainKey stakeHistoryId]

def mergeStakesInstruction (stakePairs : List StakePair) :
    Except JsError TransactionInstruction := do
  let data := Buffer.alloc (1 + 4 + (32 + 4 + 4) * stakePairs.length)
  let (data, p) ← writeUInt8 data 13 0
  let (data, p) ← writeUInt32LE data stakePairs.length p
  let (data, _, keys) ← stakePairs.foldlM (fun out stakePair => this.pushPair P stakePair out)
    (data, p, this.mergeStakesKeys P)
  pure { keys := keys, programId := this.programId, data := data }

/-- The body of the loop over the unstakes. -/
def pushUnstake (unstake : Unstake) (out : Buffer × Nat × List AccountInfo) :
    Except JsError (Buffer × Nat × List AccountInfo) := do
  let (data, p, keys) := out
  let (data, count) := Buffer.copy unstake.validator.toBytes data p
  let (data, p) ← writeUInt32LE data unstake.sourceIndex (p + count)
  let (data, p) ← writeUInt32LE data (orElse unstake.splitIndex unstake.sourceIndex) p
  let (data, p) ← writeBigUInt64LE data (orElse unstake.amount 0) p
  let sourceStake ← this.getStakeForValidator P unstake.validator unstake.sourceIndex
  if truthy unstake.splitIndex then
    let splitStake ← this.getStakeForValidator P unstake.validator
      (unstake.splitIndex.getD unstake.sourceIndex)
    pure (data, p, keys ++ [plainKey sourceStake, plainKey splitStake])
  else pure (data, p, keys ++ [plainKey sourceStake])

def unstakeKeys : List AccountInfo :=
  [plainKey this.stakePool, signerKey this.owner, plainKey this.validatorStakeListAccount,
    plainKey (this.getDepositAuthority P), plainKey systemProgramId, plainKey stakeProgramId,
    plainKey rentId, plainKey clockId, plainKey stakeHistoryId]

def unstakeInstruction (unstakes : List Unstake) : Except JsError TransactionInstruction := do
  let data := Buffer.alloc (1 + 4 + (32 + 4 + 4 + 8) * unstakes.length)
  let (data, p) ← writeUInt8 data 14 0
  let (data, p) ← writeUInt32LE data unstakes.length p
  let (data, _, keys) ← unstakes.foldlM (fun out unstake => this.pushUnstake P unstake out)
    (data, p, this.unstakeKeys P)
  pure { keys := keys, programId := this.programId, data := data }

end TenderizeProgram

/-! ## The web client -/

namespace Web

/-! The addresses of `utils/ids.ts`. -/

def tenderizeProgramId : Pubkey :=
  ⟨0x81fbe38bfb4b43aee91782422d1ab3d3164e8af0ccad5309e7c095dffad02d4⟩

def tenderizedSolMintId : Pubkey :=
  ⟨0xbe185ef7cc42e5f45186f34c2b29f4dd98d0fdf4b209a6640f7559175746a5a8⟩

def stakePoolId : Pubkey :=
  ⟨0xb70d3d7d31999a45c6d9f0f6d6af250f666641e4c527930faf2f4f184e2b3fee⟩

def ownerFeeAccount : Pubkey :=
  ⟨0xe16a97cdd6f283a8f34d7acdcd315006ce7a0db56e7d1150982a7e1d10ab03a4⟩

def reserveAddressPda : Pubkey :=
  ⟨0xfddde41853e2f7836ca009fb728f775e0494cf36edc7c17773d827a0466ccd7f⟩

def withdrawAuthorityPda : Pubkey :=
  ⟨0x4521d05e20425406e55408cd3780eb2920b926cd5ce75f435509e249847ea079⟩

def tempAccountPda : Pubkey :=
  ⟨0xec86303bd2f6891b342a80c6b388bf05fae49b64590a44633a77ecf9b2dd85b0⟩

/-- What the builders read of the pool's state. -/
structure PoolInfo where
  creditList : Pubkey
  creditReserve : Pubkey
  poolMint : Pubkey

/-- `new BN(number)` refuses numbers beyond 53 bits. -/
def bnOfNumber (number : Int) : Except JsError Int := do
  require (|number| < 2 ^ 53) .assertionError
  pure number

/-- `BN.toArray()`: the bytes of the absolute value, highest first, at least one. -/
def bnToArray (num : Int) : List UInt8 :=
  if num = 0 then [0] else ((Nat.digits 256 num.natAbs).map UInt8.ofNat).reverse

/-- The blob that `Layout.uint64` encodes a number to. -/
def uint64Blob (num : Int) : Buffer :=
  let b := (bnToArray num).reverse
  if b.length ≠ 8 then (Buffer.copy b (Buffer.alloc 8) 0).1 else b

/-- Encode the tag and the amount as `struct([u8, uint64])`; a blob of another length than
the layout's is refused. -/
def encodeAmount (tag : Int) (amount : Int) : Except JsError Buffer := do
  let num ← bnOfNumber amount
  let (data, p) ← writeUInt8 (Buffer.alloc (1 + 8)) tag 0
  require ((uint64Blob num).length = 8 ∧ p + 8 ≤ data.length) .rangeError
  pure (overwrite data p (uint64Blob num))

/-- `LendingInstruction.DepositReserveLiquidity`. -/
def depositReserveLiquidity : Int := 6

/-- `LendingInstruction.WithdrawReserveLiquidity`. -/
def withdrawReserveLiquidity : Int := 7

def depositInstruction (params : DepositParams) : Except JsError TransactionInstruction := do
  let data ← encodeAmount depositReserveLiquidity params.amount
  pure
    { keys :=
        [plainKey stakePoolId, plainKey withdrawAuthorityPda, plainKey reserveAddressPda,
          plainKey params.userSource, plainKey params.userToken,
          plainKey ownerFeeAccount, plainKey tenderizedSolMintId, plainKey rentId,
          plainKey systemProgramId, plainKey splTokenId, plainKey tempAccountPda,
          plainKey nativeMintId]
      programId := tenderizeProgramId
      data := data }

def withdrawInstruction (params : WithdrawParams) (tenderize : PoolInfo) :
    Except JsError TransactionInstruction := do
  let data ← encodeAmount withdrawReserveLiquidity params.amount
  pure
    { keys :=
        [plainKey stakePoolId, plainKey withdrawAuthorityPda, plainKey reserveAddressPda,
          plainKey params.userTokenSource, plainKey tenderize.poolMint,
          plainKey params.userSolTarget, plainKey rentId, plainKey systemProgramId,
          plainKey splTokenId]
      programId := tenderizeProgramId
      data := data }

def creditInstruction (params : CreditParams) (tenderize : PoolInfo) :
    Except JsError TransactionInstruction := do
  let data ← encodeAmount 10 params.amount
  pure
    { keys :=
        [plainKey stakePoolId, plainKey tenderize.creditList,
          plainKey tenderize.creditReserve, plainKey withdrawAuthorityPda,
          plainKey params.userTokenSource, plainKey params.userSolTarget,
          plainKey params.cancelAuthority, plainKey splTokenId]
      programId := tenderizeProgramId
      data := data }

end Web

end Tenderize
