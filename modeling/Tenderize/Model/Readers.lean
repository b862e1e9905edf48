import Tenderize.Model.Client

/-!
# The readers of the clients

How the admin client, `experiment/tenderize.ts`, and the web client,
`models/lending/tenderize.ts`, take the data of the pool's accounts apart.
-/

namespace Tenderize

open Support

/-! ## Reading buffers -/

/-- `Buffer.slice`: what of the range lies inside of the buffer. -/
def Buffer.slice (data : Buffer) (start stop : Nat) : Buffer :=
  (data.take stop).drop start

/-- Read a little-endian word of `width` bytes. -/
def readWord (width : Nat) (data : Buffer) (offset : Nat) : Except JsError Nat := do
  require (offset + width ≤ data.length) .rangeError
  pure (leValue ((data.drop offset).take width))

def readUInt8 := readWord 1

def readUInt16LE := readWord 2

def readUInt32LE := readWord 4

def readBigUInt64LE := readWord 8

/-- `new PublicKey`: the bytes of a number, highest first. -/
def newPublicKey (bytes : Buffer) : Except JsError Pubkey := do
  require (leValue bytes.reverse < 2 ^ 256) (.error "Invalid public key input")
  pure ⟨BitVec.ofNat 256 (leValue bytes.reverse)⟩

/-- `Number` of a `BigInt`: numbers of more than 53 bits are rounded to the nearest one with
53 significant bits, ties to the even one. -/
def numberOfBigInt (value : Nat) : Nat :=
  if value < 2 ^ 53 then value
  else
    let unit := 2 ^ (value.log2 - 52)
    let below := value / unit
    if 2 * (value % unit) < unit ∨ 2 * (value % unit) = unit ∧ below % 2 = 0 then below * unit
    else (below + 1) * unit

theorem numberOfBigInt_small {value : Nat} (h : value < 2 ^ 53) : numberOfBigInt value = value :=
  if_pos h

/-- `connection.getAccountInfo`: the data of the accounts that exist. -/
abbrev AccountReader := Pubkey → Option Buffer

/-- The data of an account that has to be there, `account!.data`. -/
def AccountReader.dataOf (getAccountInfo : AccountReader) (key : Pubkey) :
    Except JsError Buffer :=
  okOr (getAccountInfo key) .typeError

/-! ## The pool -/

/-- What the clients list of a pool. -/
structure State where
  version : Nat
  owner : Pubkey
  validatorStakeList : Pubkey
  creditList : Pubkey
  poolMint : Pubkey
  ownerFeeAccount : Pubkey
  creditReserve : Pubkey
  tokenProgram : Pubkey
  stakeTotal : Nat
  poolTotal : Nat
  lastEpochUpdate : Nat
  feeDenominator : Nat
  feeNumerator : Nat
deriving DecidableEq

def parseState (data : Buffer) : Except JsError State := do
  let version ← readUInt8 data 0
  let owner ← newPublicKey (data.slice 1 33)
  -- 2 bytes of bump seeds
  let validatorStakeList ← newPublicKey (data.slice 35 67)
  let creditList ← newPublicKey (data.slice 67 99)
  let poolMint ← newPublicKey (data.slice 99 131)
  let ownerFeeAccount ← newPublicKey (data.slice 131 163)
  let creditReserve ← newPublicKey (data.slice 163 195)
  let tokenProgram ← newPublicKey (data.slice 195 227)
  -- padding
  let stakeTotal ← readBigUInt64LE data 232
  let poolTotal ← readBigUInt64LE data 240
  let lastEpochUpdate ← readBigUInt64LE data 248
  let feeDenominator ← readBigUInt64LE data 256
  let feeNumerator ← readBigUInt64LE data 264
  pure
    { version, owner, validatorStakeList, creditList, poolMint, ownerFeeAccount, creditReserve,
      tokenProgram, stakeTotal, poolTotal, lastEpochUpdate, feeDenominator, feeNumerator }

/-! ## The lists -/

structure ValidatorInfo where
  votePubkey : Pubkey
  balance : Nat
  lastUpdateEpoch : Nat
  stakeCount : Nat
deriving DecidableEq

structure Creditor where
  target : Pubkey
  cancelAuthority : Pubkey
  amount : Nat
deriving DecidableEq

namespace TenderizeProgram

variable (getAccountInfo : AccountReader) (this : TenderizeProgram)

/-- The pool, or `null` where there is none. -/
def readState : Except JsError (Option State) :=
  match getAccountInfo this.stakePool with
  | none => pure none
  | some data => if data.length = 0 then pure none else some <$> parseState data

/-- The body of the loop over the validators. -/
def readValidator (data : Buffer) (i : Nat) : Except JsError ValidatorInfo := do
  let votePubkey ← newPublicKey
    (data.slice (3 + (32 + 8 + 8 + 8) * i) (3 + (32 + 8 + 8 + 8) * i + 32))
  let balance ← readBigUInt64LE data (3 + (32 + 8 + 8 + 8) * i + 32)
  let lastUpdateEpoch ← readBigUInt64LE data (3 + (32 + 8 + 8 + 8) * i + 32 + 8)
  let stakeCount ← readUInt32LE data (3 + (32 + 8 + 8 + 8) * i + 32 + 8 + 8)
  pure ⟨votePubkey, numberOfBigInt balance, numberOfBigInt lastUpdateEpoch, stakeCount⟩

def readValidators : Except JsError (List ValidatorInfo) := do
  let data ← getAccountInfo.dataOf this.validatorStakeListAccount
  let validatorCount ← readUInt16LE data 1
  (List.range validatorCount).mapM (readValidator data)

/-- The loop over the records, with the offset of the next one. -/
def readCreditorsFrom (data : Buffer) : Nat → Nat → Except JsError (List Creditor)
  | 0, _ => pure []
  | count + 1, p => do
      let target ← newPublicKey (data.slice p (p + 32))
      let p := p + 32
      let cancelAuthority ← newPublicKey (data.slice p (p + 32))
      let p := p + 32
      let amount ← readBigUInt64LE data p
      let p := p + 8
      let creditors ← readCreditorsFrom data count p
      pure (⟨target, cancelAuthority, numberOfBigInt amount⟩ :: creditors)

def readCreditors : Except JsError (List Creditor) := do
  let state ← okOr (← this.readState getAccountInfo) .typeError
  let data ← getAccountInfo.dataOf state.creditList
  let count ← readUInt16LE data 1
  readCreditorsFrom data count 3

end TenderizeProgram

/-! ## The layout of the web client -/

namespace Web

/-- The fields of a `BufferLayout.struct` are decoded one behind the other. -/
def blob (span : Nat) (data : Buffer) (offset : Nat) : Buffer × Nat :=
  (data.slice offset (offset + span), offset + span)

def publicKey (data : Buffer) (offset : Nat) : Except JsError (Pubkey × Nat) := do
  let (bytes, offset) := blob 32 data offset
  let key ← newPublicKey bytes
  pure (key, offset)

/-- The two hexadecimal digits of a byte. -/
def hexDigits (byte : UInt8) : List Nat := [byte.toNat / 16, byte.toNat % 16]

/-- `new BN(text, 16)`. -/
def bnOfHex (digits : List Nat) : Nat := digits.foldl (fun value digit => 16 * value + digit) 0

/-- `Layout.uint64`, read as a hexadecimal number, highest byte first. -/
def uint64 (data : Buffer) (offset : Nat) : Nat × Nat :=
  let (bytes, offset) := blob 8 data offset
  (bnOfHex (bytes.reverse.flatMap hexDigits), offset)

/-- `BufferLayout.u8`. -/
def u8 (data : Buffer) (offset : Nat) : Except JsError (Nat × Nat) := do
  let value ← readUInt8 data offset
  pure (value, offset + 1)

/-- `TenderizeLayout.decode`. -/
def tenderizeLayout (data : Buffer) : Except JsError State := do
  let (version, p) ← u8 data 0
  let (owner, p) ← publicKey data p
  let (_, p) := blob 2 data p
  let (validatorStakeList, p) ← publicKey data p
  let (creditList, p) ← publicKey data p
  let (poolMint, p) ← publicKey data p
  let (ownerFeeAccount, p) ← publicKey data p
  let (creditReserve, p) ← publicKey data p
  let (tokenProgram, p) ← publicKey data p
  let (_, p) := blob 5 data p
  let (stakeTotal, p) := uint64 data p
  let (poolTotal, p) := uint64 data p
  let (lastEpochUpdate, p) := uint64 data p
  let (feeDenominator, p) := uint64 data p
  let (feeNumerator, _) := uint64 data p
  pure
    { version, owner, validatorStakeList, creditList, poolMint, ownerFeeAccount, creditReserve,
      tokenProgram, stakeTotal, poolTotal, lastEpochUpdate, feeDenominator, feeNumerator }

end Web

end Tenderize
