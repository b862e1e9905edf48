import Tenderize.Model.Instruction

/-!
# Stored bytes, from `state.rs`

How the pool and its two lists stand in the data of an account.  A record is written
and read by casting a pointer, so its bytes are those of the `repr(C)` struct; what a
write leaves in the padding of a struct is up to the compiler and a parameter here.
A write keeps what it has done to the output when it fails.
-/

namespace Tenderize

open Support

/-! ## Slices -/

/-- `input[index]`; an index outside of the input panics. -/
def byteAt (input : List UInt8) (index : Nat) : Except ProgramError UInt8 :=
  okOr input[index]? .programFailedToComplete

/-- `&input[start..stop]`; a range outside of the input panics. -/
def slice (input : List UInt8) (start stop : Nat) : Except ProgramError (List UInt8) := do
  require (start ≤ stop ∧ stop ≤ input.length) .programFailedToComplete
  pure ((input.take stop).drop start)

/-- A function with a parameter `output: &mut [u8]`. -/
abbrev Output := EStateM ProgramError (List UInt8)

/-- Pass `&mut output[start..stop]` on. -/
def onSlice (start stop : Nat) (write : Output Unit) : Output Unit := do
  let output ← get
  if start ≤ stop ∧ stop ≤ output.length then
    match write.run ((output.take stop).drop start) with
    | .ok _ part => set (overwrite output start part)
    | .error e part =>
        set (overwrite output start part)
        throw e
  else throw .programFailedToComplete

/-- `output[index] = value`. -/
def writeByte (index : Nat) (value : UInt8) : Output Unit := do
  let output ← get
  if index < output.length then set (overwrite output index [value])
  else throw .programFailedToComplete

/-- `copy_from_slice`, which panics when the lengths differ. -/
def copyFromSlice (source : List UInt8) : Output Unit := do
  if (← get).length = source.length then set source
  else throw .programFailedToComplete

/-! ## Structs -/

/-- A `repr(C)` struct: the bytes of a value with those of its padding in between, and
the value that such bytes stand for. -/
structure ReprC (α : Type) extends RawType α where
  padding : Nat
  bytes : α → Vector UInt8 padding → List UInt8
  length_bytes : ∀ value pad, (bytes value pad).length = size
  read_take : ∀ input, read (input.take size) = read input
  read_bytes : ∀ value pad rest, read (bytes value pad ++ rest) = value

namespace ReprC

variable {α : Type} (type : ReprC α)

/-- The value behind a pointer that is cast to one to the struct; the cast of a shorter
input would read behind its end. -/
def load (input : List UInt8) : Except ProgramError α := do
  require (type.size ≤ input.length) .programFailedToComplete
  pure (type.read input)

/-- `*value = *self` through such a pointer. -/
def store (value : α) (pad : Vector UInt8 type.padding) : Output Unit := do
  let output ← get
  if type.size ≤ output.length then set (overwrite output 0 (type.bytes value pad))
  else throw .programFailedToComplete

def deserialize (input : List UInt8) : Except ProgramError α :=
  if input.length < type.size then .error .invalidAccountData
  else type.load input

def serialize (value : α) (pad : Vector UInt8 type.padding) : Output Unit := do
  if (← get).length < type.size then throw .invalidAccountData
  type.store value pad

end ReprC

/-! ## Lists -/

/-- A list in an account: version, count and records. -/
structure ListFormat (α : Type) where
  record : ReprC α
  maxRecords : Nat

namespace ListFormat

variable {α : Type} (format : ListFormat α)

def headerLen : Nat := 3

def LEN : Nat := headerLen + format.record.size * format.maxRecords

/-- The loop over the records that are read. -/
def readRecords (input : List UInt8) : Nat → Nat → Nat → Except ProgramError (List α)
  | 0, _, _ => pure []
  | count + 1, start, stop => do
      let part ← slice input start stop
      let record ← format.record.deserialize part
      let records ← readRecords input count (start + format.record.size)
        (stop + format.record.size)
      pure (record :: records)

def deserialize (input : List UInt8) : Except ProgramError (UInt8 × List α) := do
  require (¬input.length < format.LEN) .invalidAccountData
  let version ← byteAt input 0
  -- an account that was never written
  if version = 0 then pure (0, [])
  else do
    let count ← slice input 1 3
    require (¬leValue count > format.maxRecords) .invalidAccountData
    let records ← format.readRecords input (leValue count) headerLen
      (headerLen + format.record.size)
    pure (version, records)

/-- The loop over the records that are written, with the padding of the record at each
offset. -/
def writeRecords (padding : Nat → Vector UInt8 format.record.padding) :
    List α → Nat → Nat → Output Unit
  | [], _, _ => pure ()
  | record :: records, start, stop => do
      onSlice start stop (format.record.serialize record (padding start))
      writeRecords padding records (start + format.record.size) (stop + format.record.size)

def serialize (version : UInt8) (records : List α)
    (padding : Nat → Vector UInt8 format.record.padding) : Output Unit := do
  if (← get).length < format.LEN then throw .invalidAccountData
  if records.length > format.maxRecords then throw .invalidAccountData
  writeByte 0 version
  onSlice 1 3 (copyFromSlice (leBytes 2 records.length))
  format.writeRecords padding records headerLen (headerLen + format.record.size)

end ListFormat

/-! ## The pool and its lists -/

def readU8 (bytes : List UInt8) : UInt8 := bytes.headD 0

def StakePool.bytes (pool : StakePool) (pad : Vector UInt8 5) : List UInt8 :=
  pool.version :: pool.owner.toBytes ++ pool.depositBumpSeed :: pool.withdrawBumpSeed ::
    (pool.validatorStakeList.toBytes ++ pool.creditList.toBytes ++ pool.poolMint.toBytes ++
      pool.ownerFeeAccount.toBytes ++ pool.creditReserve.toBytes ++
      pool.tokenProgramId.toBytes ++ pad.toList ++ leBytes 8 pool.stakeTotal.toNat ++
      leBytes 8 pool.poolTotal.toNat ++ leBytes 8 pool.lastUpdateEpoch.toNat ++
      leBytes 8 pool.fee.denominator.toNat ++ leBytes 8 pool.fee.numerator.toNat)

def StakePool.read (bytes : List UInt8) : StakePool where
  version := readU8 bytes
  owner := readPubkey (bytes.drop 1)
  depositBumpSeed := readU8 (bytes.drop 33)
  withdrawBumpSeed := readU8 (bytes.drop 34)
  validatorStakeList := readPubkey (bytes.drop 35)
  creditList := readPubkey (bytes.drop 67)
  poolMint := readPubkey (bytes.drop 99)
  ownerFeeAccount := readPubkey (bytes.drop 131)
  creditReserve := readPubkey (bytes.drop 163)
  tokenProgramId := readPubkey (bytes.drop 195)
  -- five bytes of padding align the amounts
  stakeTotal := readU64 (bytes.drop 232)
  poolTotal := readU64 (bytes.drop 240)
  lastUpdateEpoch := readU64 (bytes.drop 248)
  fee := ⟨readU64 (bytes.drop 256), readU64 (bytes.drop 264)⟩

def ValidatorStakeInfo.bytes (info : ValidatorStakeInfo) (pad : Vector UInt8 4) : List UInt8 :=
  info.validatorAccount.toBytes ++ leBytes 8 info.balance.toNat ++
    leBytes 8 info.lastUpdateEpoch.toNat ++ leBytes 4 info.stakeCount.toNat ++ pad.toList

def ValidatorStakeInfo.read (bytes : List UInt8) : ValidatorStakeInfo where
  validatorAccount := readPubkey bytes
  balance := readU64 (bytes.drop 32)
  lastUpdateEpoch := readU64 (bytes.drop 40)
  stakeCount := readU32 (bytes.drop 48)

def CreditRecord.bytes (record : CreditRecord) : List UInt8 :=
  record.solTarget.toBytes ++ record.cancelAuthority.toBytes ++
    leBytes 8 record.tokenAmount.toNat

def CreditRecord.read (bytes : List UInt8) : CreditRecord where
  solTarget := readPubkey bytes
  cancelAuthority := readPubkey (bytes.drop 32)
  tokenAmount := readU64 (bytes.drop 64)

/-! A value is read from the first bytes alone, and from its own bytes as it was. -/

theorem readU8_take {n : Nat} (hn : 1 ≤ n) (bytes : List UInt8) :
    readU8 (bytes.take n) = readU8 bytes := by
  cases bytes with
  | nil => rw [List.take_nil]
  | cons byte bytes =>
      obtain ⟨m, rfl⟩ := Nat.exists_eq_add_of_le' hn
      rfl

theorem readU64_take {n : Nat} (hn : 8 ≤ n) (bytes : List UInt8) :
    readU64 (bytes.take n) = readU64 bytes := by
  unfold readU64
  rw [List.take_take, Nat.min_eq_left hn]

theorem readU32_take {n : Nat} (hn : 4 ≤ n) (bytes : List UInt8) :
    readU32 (bytes.take n) = readU32 bytes := by
  unfold readU32
  rw [List.take_take, Nat.min_eq_left hn]

theorem readPubkey_take {n : Nat} (hn : 32 ≤ n) (bytes : List UInt8) :
    readPubkey (bytes.take n) = readPubkey bytes := by
  unfold readPubkey
  rw [List.take_take, Nat.min_eq_left hn]

theorem readU64_toNat (value : UInt64) (rest : List UInt8) :
    readU64 (leBytes 8 value.toNat ++ rest) = value := by
  rw [readU64_append value.toNat_lt, UInt64.ofNat_toNat]

theorem readU32_toNat (value : UInt32) (rest : List UInt8) :
    readU32 (leBytes 4 value.toNat ++ rest) = value := by
  rw [readU32_append value.toNat_lt, UInt32.ofNat_toNat]

theorem StakePool.length_bytes (pool : StakePool) (pad : Vector UInt8 5) :
    (pool.bytes pad).length = 272 := by
  simp [StakePool.bytes]

theorem StakePool.read_take (input : List UInt8) :
    StakePool.read (input.take 272) = StakePool.read input := by
  simp [StakePool.read, List.drop_take, readU8_take, readPubkey_take, readU64_take]

theorem StakePool.read_bytes (pool : StakePool) (pad : Vector UInt8 5) (rest : List UInt8) :
    StakePool.read (pool.bytes pad ++ rest) = pool := by
  unfold StakePool.read StakePool.bytes
  simp [drop_behind, readU8, readPubkey_append, readU64_toNat]

theorem ValidatorStakeInfo.length_bytes (info : ValidatorStakeInfo) (pad : Vector UInt8 4) :
    (info.bytes pad).length = 56 := by
  simp [ValidatorStakeInfo.bytes]

theorem ValidatorStakeInfo.read_take (input : List UInt8) :
    ValidatorStakeInfo.read (input.take 56) = ValidatorStakeInfo.read input := by
  simp [ValidatorStakeInfo.read, List.drop_take, readPubkey_take, readU64_take, readU32_take]

theorem ValidatorStakeInfo.read_bytes (info : ValidatorStakeInfo) (pad : Vector UInt8 4)
    (rest : List UInt8) : ValidatorStakeInfo.read (info.bytes pad ++ rest) = info := by
  unfold ValidatorStakeInfo.read ValidatorStakeInfo.bytes
  simp [drop_behind, readPubkey_append, readU64_toNat, readU32_toNat]

theorem CreditRecord.length_bytes (record : CreditRecord) : record.bytes.length = 72 := by
  simp [CreditRecord.bytes]

theorem CreditRecord.read_take (input : List UInt8) :
    CreditRecord.read (input.take 72) = CreditRecord.read input := by
  simp [CreditRecord.read, List.drop_take, readPubkey_take, readU64_take]

theorem CreditRecord.read_bytes (record : CreditRecord) (rest : List UInt8) :
    CreditRecord.read (record.bytes ++ rest) = record := by
  unfold CreditRecord.read CreditRecord.bytes
  simp [drop_behind, readPubkey_append, readU64_toNat]

def StakePool.raw : ReprC StakePool where
  size := 272
  read := StakePool.read
  padding := 5
  bytes := StakePool.bytes
  length_bytes := StakePool.length_bytes
  read_take := StakePool.read_take
  read_bytes := StakePool.read_bytes

def ValidatorStakeInfo.raw : ReprC ValidatorStakeInfo where
  size := ValidatorStakeInfo.LEN
  read := ValidatorStakeInfo.read
  padding := 4
  bytes := ValidatorStakeInfo.bytes
  length_bytes := ValidatorStakeInfo.length_bytes
  read_take := ValidatorStakeInfo.read_take
  read_bytes := ValidatorStakeInfo.read_bytes

def CreditRecord.raw : ReprC CreditRecord where
  size := CreditRecord.LEN
  read := CreditRecord.read
  padding := 0
  bytes record _ := record.bytes
  length_bytes record _ := record.length_bytes
  read_take := CreditRecord.read_take
  read_bytes record _ := record.read_bytes

def StakePool.deserializeBytes (input : List UInt8) : Except ProgramError StakePool :=
  StakePool.raw.deserialize input

def StakePool.serializeBytes (pool : StakePool) (pad : Vector UInt8 5) : Output Unit :=
  StakePool.raw.serialize pool pad

def ValidatorStakeList.format : ListFormat ValidatorStakeInfo :=
  ⟨ValidatorStakeInfo.raw, maxValidators⟩

def ValidatorStakeList.deserializeBytes (input : List UInt8) :
    Except ProgramError ValidatorStakeList := do
  let (version, validators) ← format.deserialize input
  pure ⟨version, validators⟩

def ValidatorStakeList.serializeBytes (list : ValidatorStakeList)
    (padding : Nat → Vector UInt8 4) : Output Unit :=
  format.serialize list.version list.validators padding

def CreditList.format : ListFormat CreditRecord := ⟨CreditRecord.raw, maxCreditRecords⟩

def CreditList.deserializeBytes (input : List UInt8) : Except ProgramError CreditList := do
  let (version, credits) ← format.deserialize input
  pure ⟨version, credits⟩

def CreditList.serializeBytes (list : CreditList) : Output Unit :=
  format.serialize list.version list.credits (fun _ => #v[])

end Tenderize
