import Tenderize.Model.Processor
import Tenderize.Support.Bytes

/-!
# Instruction data, from `instruction.rs`

The first byte of the data names the instruction.  The rest is read by casting pointers
into it, so a value of a type is the bytes of that type, little-endian and, in the packed
records of the batch instructions, without gaps.
-/

namespace Tenderize

open Support

/-! ## Values in memory -/

def readU64 (bytes : List UInt8) : UInt64 :=
  UInt64.ofNat (leValue (bytes.take 8))

def readU32 (bytes : List UInt8) : UInt32 :=
  UInt32.ofNat (leValue (bytes.take 4))

/-- The 32 bytes of a key, in the order in which they stand in memory. -/
def Pubkey.toBytes (key : Pubkey) : List UInt8 :=
  (leBytes 32 key.bits.toNat).reverse

def readPubkey (bytes : List UInt8) : Pubkey :=
  ⟨BitVec.ofNat 256 (leValue (bytes.take 32).reverse)⟩

/-- A type that pointers are cast to: its size and the value its bytes stand for. -/
structure RawType (α : Type) where
  size : Nat
  read : List UInt8 → α

def u32Raw : RawType UInt32 := ⟨4, readU32⟩

def u64Raw : RawType UInt64 := ⟨8, readU64⟩

def InitArgs.raw : RawType InitArgs where
  size := 16
  read bytes := ⟨⟨readU64 bytes, readU64 (bytes.drop 8)⟩⟩

def DelegateReserveInstruction.raw : RawType DelegateReserveInstruction where
  size := 12
  read bytes := ⟨readU64 bytes, readU32 (bytes.drop 8)⟩

def MergeStakesInstruction.raw : RawType MergeStakesInstruction where
  size := 40
  read bytes := ⟨readPubkey bytes, readU32 (bytes.drop 32), readU32 (bytes.drop 36)⟩

def UnstakeInstruction.raw : RawType UnstakeInstruction where
  size := 48
  read bytes :=
    ⟨readPubkey bytes, readU32 (bytes.drop 32), readU32 (bytes.drop 36), readU64 (bytes.drop 40)⟩

/-! ## Parsing -/

/-- Unpacks a reference from a bytes buffer. -/
def unpack {α : Type} (type : RawType α) (input : List UInt8) : Except ProgramError α :=
  if input.length < 1 + type.size then .error .invalidAccountData
  else .ok (type.read (input.drop 1))

/-- A count and as many records, copied out of the slice behind it. -/
def unpackSlice {α : Type} (type : RawType α) (input : List UInt8) :
    Except ProgramError (List α) := do
  let count ← unpack u32Raw input
  require (¬input.length < 1 + 4 + count.toNat * type.size) .invalidArgument
  -- `&input[1 + 4]` panics when the data ends with the count
  require (1 + 4 < input.length) .programFailedToComplete
  pure ((List.range count.toNat).map
    (fun k => type.read (input.drop (1 + 4 + k * type.size))))

/-- Deserializes a byte buffer into a `StakePoolInstruction`. -/
def StakePoolInstruction.deserialize (input : List UInt8) :
    Except ProgramError StakePoolInstruction :=
  match input with
  | [] => .error .invalidAccountData
  | tag :: _ =>
      match tag.toNat with
      | 0 => (unpack InitArgs.raw input).map .initializePool
      | 2 => .ok .addValidator
      | 3 => .ok .removeValidator
      | 4 => .ok .updateListBalance
      | 5 => .ok .updatePoolBalance
      | 6 => (unpack u64Raw input).map .deposit
      | 7 => (unpack u64Raw input).map .withdraw
      | 8 => .ok .setStakingAuthority
      | 9 => .ok .setOwner
      | 10 => (unpack u64Raw input).map .credit
      | 11 => (unpack u64Raw input).map .uncredit
      | 12 => (unpackSlice DelegateReserveInstruction.raw input).map .delegateReserve
      | 13 => (unpackSlice MergeStakesInstruction.raw input).map .mergeStakes
      | 14 => (unpackSlice UnstakeInstruction.raw input).map .unstake
      | 15 => .ok .payCreditors
      | _ => .error .invalidAccountData

/-- `Processor::process`. -/
def process (P : Programs) (programId : Pubkey) (accounts : List AccountInfo)
    (input : List UInt8) (chain : Chain) : Except ProgramError Ledger := do
  let instruction ← StakePoolInstruction.deserialize input
  dispatch P programId instruction accounts chain

/-! ## What is read back -/

theorem readU64_append {n : Nat} (h : n < 2 ^ 64) (rest : List UInt8) :
    readU64 (leBytes 8 n ++ rest) = UInt64.ofNat n := by
  unfold readU64
  rw [List.take_left' (length_leBytes 8 n), leValue_leBytes h]

theorem readU32_append {n : Nat} (h : n < 2 ^ 32) (rest : List UInt8) :
    readU32 (leBytes 4 n ++ rest) = UInt32.ofNat n := by
  unfold readU32
  rw [List.take_left' (length_leBytes 4 n), leValue_leBytes h]

@[simp] theorem Pubkey.length_toBytes (key : Pubkey) : key.toBytes.length = 32 := by
  simp [Pubkey.toBytes]

theorem readPubkey_append (key : Pubkey) (rest : List UInt8) :
    readPubkey (key.toBytes ++ rest) = key := by
  unfold readPubkey
  have hlt : key.bits.toNat < 256 ^ 32 := key.bits.isLt
  rw [List.take_left' key.length_toBytes, Pubkey.toBytes, List.reverse_reverse,
    leValue_leBytes hlt, BitVec.ofNat_toNat, BitVec.setWidth_eq]

theorem unpack_append {α : Type} {type : RawType α} {tag : UInt8} {bytes : List UInt8}
    (h : type.size ≤ bytes.length) : unpack type (tag :: bytes) = .ok (type.read bytes) := by
  unfold unpack
  rw [if_neg (by simp; omega)]
  rfl

/-- Records written one after the other are read back in order. -/
theorem unpackSlice_records {α β : Type} {type : RawType α} {tag : UInt8} (items : List β)
    (bytes : β → List UInt8) (value : β → α) (hsize : 0 < type.size) (hitems : items ≠ [])
    (hcount : items.length < 2 ^ 32) (hlength : ∀ x ∈ items, (bytes x).length = type.size)
    (hread : ∀ x ∈ items, ∀ rest, type.read (bytes x ++ rest) = value x) :
    unpackSlice type (tag :: (leBytes 4 items.length ++ items.flatMap bytes)) =
      .ok (items.map value) := by
  have hbody := length_flatMap_of_size hlength
  have hlen : (tag :: (leBytes 4 items.length ++ items.flatMap bytes)).length =
      1 + 4 + items.length * type.size := by
    rw [List.length_cons, List.length_append, length_leBytes, hbody]
    omega
  have hone := List.length_pos_iff.mpr hitems
  have hpos : 0 < items.length * type.size := Nat.mul_pos hone hsize
  have hcounted : unpack u32Raw (tag :: (leBytes 4 items.length ++ items.flatMap bytes)) =
      .ok (UInt32.ofNat items.length) := by
    rw [unpack_append (by simp [u32Raw])]
    exact congrArg _ (readU32_append hcount _)
  simp only [unpackSlice, bind_eq_ok, require_eq_ok, pure_eq_ok]
  refine ⟨_, hcounted, (), ?_, (), ?_, ?_⟩
  · rw [hlen, toNat_ofNat_index hcount]
    exact Nat.lt_irrefl _
  · rw [hlen]
    omega
  rw [toNat_ofNat_index hcount]
  refine List.ext_getElem (by simp) fun k hk _ => ?_
  have hk' : k < items.length := by simpa using hk
  have hdrop : (tag :: (leBytes 4 items.length ++ items.flatMap bytes)).drop
      (1 + 4 + k * type.size) = (items.drop k).flatMap bytes := by
    rw [← List.drop_drop, ← drop_flatMap_of_size hlength k]
    congr 1
  rw [List.getElem_map, List.getElem_map, List.getElem_range, hdrop,
    List.drop_eq_getElem_cons hk', List.flatMap_cons]
  exact hread _ (List.getElem_mem hk') _

end Tenderize
