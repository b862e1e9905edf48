import Tenderize.Model.Client
import Tenderize.Reference.Pool

/-!
# Clients and parser

What the builders of the two clients put into the data of an instruction is what the
program reads from it, and the accounts they push for the elements of a batch are the
ones the handler takes for them.
-/

namespace Tenderize

open Support

variable {P : Programs} {programId : Pubkey}

/-! ## Writing -/

theorem emod_toNat_of_lt {value : Int} {width : Nat} (hlow : 0 ≤ value)
    (hhigh : value < 256 ^ width) : (value % 256 ^ width).toNat = value.toNat := by
  rw [Int.emod_eq_of_lt hlow hhigh]

theorem writeWord_written {width size : Nat} {low high value : Int} (items : Buffer)
    {offset : Nat} (hlow : low ≤ value) (hhigh : value < high) (hnonneg : 0 ≤ value)
    (hvalue : value < 256 ^ width) (hoffset : offset = items.length)
    (hroom : offset + width ≤ size) :
    writeWord width low high (written size items) value offset =
      .ok (written size (items ++ leBytes width value.toNat), offset + width) := by
  have hlength : (written size items).length = size := length_written (by omega)
  simp only [writeWord, bind_eq_ok, require_eq_ok, pure_eq_ok]
  refine ⟨(), ⟨hlow, hhigh, by omega⟩, ?_⟩
  rw [emod_toNat_of_lt hnonneg hvalue, overwrite_written hoffset (by simpa using hroom)]

/-- The tag of an instruction in a new buffer. -/
theorem writeUInt8_alloc {size tag : Nat} (htag : tag < 256) (hsize : 1 ≤ size) :
    writeUInt8 (Buffer.alloc size) tag 0 = .ok (written size (leBytes 1 tag), 1) := by
  have hwrite : writeWord 1 0 (2 ^ 8) (written size []) tag 0 =
      .ok (written size ([] ++ leBytes 1 (tag : Int).toNat), 0 + 1) :=
    writeWord_written [] (by omega) (by omega) (by omega) (by omega) rfl hsize
  rw [Int.toNat_natCast, List.nil_append] at hwrite
  exact hwrite

theorem copy_written {size : Nat} (items : Buffer) {source : Buffer} {offset : Nat}
    (hoffset : offset = items.length) (hroom : offset + source.length ≤ size) :
    Buffer.copy source (written size items) offset =
      (written size (items ++ source), source.length) := by
  have hlength : (written size items).length = size := length_written (by omega)
  have hcount : min source.length ((written size items).length - offset) = source.length := by
    omega
  simp only [Buffer.copy, hcount, List.take_length]
  rw [overwrite_written hoffset hroom]

/-- The word an integer of a client stands for. -/
def word64 (n : Int) : UInt64 := UInt64.ofNat n.toNat

def word32 (n : Int) : UInt32 := UInt32.ofNat n.toNat

theorem toNat_word32 {n : Int} (hlow : 0 ≤ n) (hhigh : n < 2 ^ 32) :
    ((word32 n).toNat : Int) = n := by
  unfold word32
  rw [toNat_ofNat_index (by omega)]
  omega

theorem getStakeForValidator_ok (this : TenderizeProgram) (validator : Pubkey) {index : Int}
    (hlow : 0 ≤ index) (hhigh : index < 2 ^ 32) :
    this.getStakeForValidator P validator index =
      .ok (P.findProgramAddress
        [.key validator, .key this.stakePool, .index (word32 index)] this.programId).1 := by
  have hwrite : writeUInt32LE (Buffer.alloc 4) index 0 =
      .ok (written 4 (leBytes 4 index.toNat), 4) :=
    writeWord_written [] hlow hhigh hlow hhigh rfl le_rfl
  have hread : readU32 (written 4 (leBytes 4 index.toNat)) = word32 index := by
    exact readU32_append (by omega) _
  unfold TenderizeProgram.getStakeForValidator
  rw [hwrite, ← hread]
  rfl

/-! ## One amount -/

/-- Data that names an instruction and holds an amount behind its tag. -/
def AmountData (tag : Nat) (amount : Int) (data : Buffer) : Prop :=
  ∃ bytes, data = UInt8.ofNat tag :: bytes ∧ bytes.length = 8 ∧ leValue bytes = amount.toNat

theorem AmountData.unpack {tag : Nat} {amount : Int} {data : Buffer}
    (h : AmountData tag amount data) : unpack u64Raw data = .ok (word64 amount) := by
  obtain ⟨bytes, rfl, hlength, hvalue⟩ := h
  rw [unpack_append hlength.ge]
  change Except.ok (UInt64.ofNat (leValue (bytes.take 8))) = _
  rw [← hlength, List.take_length, hvalue]
  rfl

/-- The instructions with one amount, by their tags. -/
def amountInstructions : List (Nat × (UInt64 → StakePoolInstruction)) :=
  [(6, .deposit), (7, .withdraw), (10, .credit), (11, .uncredit)]

theorem AmountData.deserialize {tag : Nat} {amount : Int} {data : Buffer}
    (h : AmountData tag amount data) {instruction : UInt64 → StakePoolInstruction}
    (htag : (tag, instruction) ∈ amountInstructions) :
    StakePoolInstruction.deserialize data = .ok (instruction (word64 amount)) := by
  have hamount := h.unpack
  obtain ⟨bytes, rfl, -, -⟩ := h
  simp only [amountInstructions, List.mem_cons, Prod.mk.injEq, List.not_mem_nil, or_false] at htag
  rcases htag with ⟨rfl, rfl⟩ | ⟨rfl, rfl⟩ | ⟨rfl, rfl⟩ | ⟨rfl, rfl⟩ <;>
  · change Except.map _ (Tenderize.unpack u64Raw _) = _
    rw [hamount]
    rfl

theorem amountData_ok {tag : Nat} {amount : Int} (htag : tag < 256) (hlow : 0 ≤ amount)
    (hhigh : amount < 2 ^ 63) :
    ∃ data, TenderizeProgram.amountData tag amount = .ok data ∧ AmountData tag amount data := by
  have hbyte : writeUInt8 (Buffer.alloc 9) tag 0 = .ok (written 9 (leBytes 1 tag), 1) :=
    writeUInt8_alloc htag (by decide)
  have hword : writeBigInt64LE (written 9 (leBytes 1 tag)) amount 1 =
      .ok (written 9 (leBytes 1 tag ++ leBytes 8 amount.toNat), 9) :=
    writeWord_written _ (by omega) hhigh hlow (by omega) (by simp) (by decide)
  refine ⟨leBytes 1 tag ++ leBytes 8 amount.toNat, ?_, leBytes 8 amount.toNat, ?_,
    length_leBytes 8 _, ?_⟩
  · simp only [TenderizeProgram.amountData, bind_eq_ok, pure_eq_ok, Prod.exists]
    refine ⟨_, _, hbyte, _, _, hword, written_full ?_⟩
    simp
  · change UInt8.ofNat (tag % 256) :: leBytes 8 amount.toNat = _
    rw [Nat.mod_eq_of_lt htag]
  · exact leValue_leBytes (by omega)

namespace Web

theorem uint64Blob_spec {num : Int} (hlow : 0 ≤ num) (hhigh : num < 2 ^ 53) :
    (uint64Blob num).length = 8 ∧ leValue (uint64Blob num) = num.toNat := by
  have hbytes : (bnToArray num).reverse.length ≤ 7 ∧
      leValue (bnToArray num).reverse = num.toNat := by
    unfold bnToArray
    split
    · rename_i hzero
      rw [hzero]
      decide
    · have habs : num.natAbs = num.toNat := by omega
      have hdigits : (Nat.digits 256 num.natAbs).length ≤ 7 := by
        rw [Nat.digits_length_le_iff (by decide)]
        omega
      rw [List.reverse_reverse, List.length_map, leValue_digits]
      exact ⟨hdigits, habs⟩
  obtain ⟨hlength, hvalue⟩ := hbytes
  have hpadded : uint64Blob num = written 8 (bnToArray num).reverse := by
    unfold uint64Blob
    rw [if_pos (by omega)]
    have hcopy : Buffer.copy (bnToArray num).reverse (written 8 []) 0 = _ :=
      copy_written [] rfl (by omega)
    exact congrArg Prod.fst hcopy
  rw [hpadded]
  refine ⟨length_written (by omega), ?_⟩
  unfold written
  rw [leValue_append_zeros, hvalue]

theorem encodeAmount_ok {tag : Nat} {amount : Int} (htag : tag < 256) (hlow : 0 ≤ amount)
    (hhigh : amount < 2 ^ 53) :
    ∃ data, encodeAmount tag amount = .ok data ∧ AmountData tag amount data := by
  obtain ⟨hlength, hvalue⟩ := uint64Blob_spec hlow hhigh
  have hbyte : writeUInt8 (Buffer.alloc 9) tag 0 = .ok (written 9 (leBytes 1 tag), 1) :=
    writeUInt8_alloc htag (by decide)
  have hwritten : overwrite (written 9 (leBytes 1 tag)) 1 (uint64Blob amount) =
      leBytes 1 tag ++ uint64Blob amount := by
    rw [overwrite_written (by simp) (by omega)]
    exact written_full (by simp [hlength])
  refine ⟨leBytes 1 tag ++ uint64Blob amount, ?_, uint64Blob amount, ?_, hlength, hvalue⟩
  · simp only [encodeAmount, bnOfNumber, bind_eq_ok, pure_eq_ok, require_eq_ok, Prod.exists]
    refine ⟨amount, ⟨(), by rw [abs_of_nonneg hlow]; exact hhigh, rfl⟩, _, _, hbyte, (), ?_,
      hwritten⟩
    rw [length_written (by simp)]
    exact ⟨hlength, by decide⟩
  · change UInt8.ofNat (tag % 256) :: uint64Blob amount = _
    rw [Nat.mod_eq_of_lt htag]

end Web

/-! ## Batches -/

/-- The packed record of a sub-instruction of `DelegateReserve`. -/
def DepositReserveValidatorParam.bytes (v : DepositReserveValidatorParam) : List UInt8 :=
  leBytes 8 v.amount.toNat ++ leBytes 4 v.stakeIndex.toNat

def DepositReserveValidatorParam.intended (v : DepositReserveValidatorParam) :
    DelegateReserveInstruction :=
  ⟨word64 v.amount, word32 v.stakeIndex⟩

def DepositReserveValidatorParam.InRange (v : DepositReserveValidatorParam) : Prop :=
  (0 ≤ v.amount ∧ v.amount < 2 ^ 63) ∧ 0 ≤ v.stakeIndex ∧ v.stakeIndex < 2 ^ 32

/-- The packed record of a sub-instruction of `MergeStakes`. -/
def StakePair.bytes (pair : StakePair) : List UInt8 :=
  pair.validator.toBytes ++ leBytes 4 pair.mainIndex.toNat ++ leBytes 4 pair.additionalIndex.toNat

def StakePair.intended (pair : StakePair) : MergeStakesInstruction :=
  ⟨pair.validator, word32 pair.mainIndex, word32 pair.additionalIndex⟩

def StakePair.InRange (pair : StakePair) : Prop :=
  (0 ≤ pair.mainIndex ∧ pair.mainIndex < 2 ^ 32) ∧
    0 ≤ pair.additionalIndex ∧ pair.additionalIndex < 2 ^ 32

theorem delegateReserve_read (v : DepositReserveValidatorParam) (h : v.InRange)
    (rest : List UInt8) :
    DelegateReserveInstruction.raw.read (v.bytes ++ rest) = v.intended := by
  obtain ⟨⟨hlow, hhigh⟩, hlow', hhigh'⟩ := h
  have hamount : readU64 (v.bytes ++ rest) = word64 v.amount := by
    unfold DepositReserveValidatorParam.bytes
    rw [List.append_assoc]
    exact readU64_append (by omega) _
  have hindex : readU32 ((v.bytes ++ rest).drop 8) = word32 v.stakeIndex := by
    unfold DepositReserveValidatorParam.bytes
    rw [List.append_assoc, List.drop_left' (length_leBytes 8 _)]
    exact readU32_append (by omega) _
  change DelegateReserveInstruction.mk _ _ = _
  rw [hamount, hindex]
  rfl

theorem mergeStakes_read (pair : StakePair) (h : pair.InRange) (rest : List UInt8) :
    MergeStakesInstruction.raw.read (pair.bytes ++ rest) = pair.intended := by
  obtain ⟨⟨hlow, hhigh⟩, hlow', hhigh'⟩ := h
  have hvalidator : readPubkey (pair.bytes ++ rest) = pair.validator := by
    unfold StakePair.bytes
    rw [List.append_assoc, List.append_assoc]
    exact readPubkey_append _ _
  have hmain : readU32 ((pair.bytes ++ rest).drop 32) = word32 pair.mainIndex := by
    unfold StakePair.bytes
    rw [List.append_assoc, List.append_assoc, List.drop_left' pair.validator.length_toBytes]
    exact readU32_append (by omega) _
  have hadditional : readU32 ((pair.bytes ++ rest).drop 36) = word32 pair.additionalIndex := by
    unfold StakePair.bytes
    rw [List.append_assoc, List.drop_left' (by simp)]
    exact readU32_append (by omega) _
  change MergeStakesInstruction.mk _ _ _ = _
  rw [hvalidator, hmain, hadditional]
  rfl

namespace TenderizeProgram

variable (P) (this : TenderizeProgram)

/-- The address of a stake account of the pool. -/
def stakeAddress (validator : Pubkey) (index : Int) : Pubkey :=
  (P.findProgramAddress [.key validator, .key this.stakePool, .index (word32 index)]
    this.programId).1

/-- The accounts pushed for one validator. -/
def validatorKeys (v : DepositReserveValidatorParam) : List AccountInfo :=
  [plainKey v.address, plainKey (this.stakeAddress P v.address v.stakeIndex)]

/-- The accounts pushed for one pair. -/
def pairKeys (pair : StakePair) : List AccountInfo :=
  [plainKey (this.stakeAddress P pair.validator pair.mainIndex),
    plainKey (this.stakeAddress P pair.validator pair.additionalIndex)]

theorem pushValidator_written {v : DepositReserveValidatorParam} (h : v.InRange) {size : Nat}
    (items : Buffer) (keys : List AccountInfo) (hroom : items.length + v.bytes.length ≤ size) :
    this.pushValidator P v (written size items, items.length, keys) =
      .ok (written size (items ++ v.bytes), (items ++ v.bytes).length,
        keys ++ this.validatorKeys P v) := by
  obtain ⟨⟨hlow, hhigh⟩, hlow', hhigh'⟩ := h
  have hlength : v.bytes.length = 12 := by simp [DepositReserveValidatorParam.bytes]
  have hamount : writeBigUInt64LE (written size items) v.amount items.length =
      .ok (written size (items ++ leBytes 8 v.amount.toNat), items.length + 8) :=
    writeWord_written items hlow (by omega) hlow (by omega) rfl (by omega)
  have hindex : writeUInt32LE (written size (items ++ leBytes 8 v.amount.toNat)) v.stakeIndex
      (items.length + 8) =
      .ok (written size (items ++ leBytes 8 v.amount.toNat ++ leBytes 4 v.stakeIndex.toNat),
        items.length + 8 + 4) :=
    writeWord_written _ hlow' hhigh' hlow' hhigh' (by simp) (by omega)
  simp only [pushValidator, bind_eq_ok, pure_eq_ok, Prod.exists]
  refine ⟨_, _, hamount, _, _, hindex, _, getStakeForValidator_ok this v.address hlow' hhigh', ?_⟩
  simp [DepositReserveValidatorParam.bytes, validatorKeys, stakeAddress, Nat.add_assoc]

theorem pushPair_written {pair : StakePair} (h : pair.InRange) {size : Nat} (items : Buffer)
    (keys : List AccountInfo) (hroom : items.length + pair.bytes.length ≤ size) :
    this.pushPair P pair (written size items, items.length, keys) =
      .ok (written size (items ++ pair.bytes), (items ++ pair.bytes).length,
        keys ++ this.pairKeys P pair) := by
  obtain ⟨⟨hlow, hhigh⟩, hlow', hhigh'⟩ := h
  have hlength : pair.bytes.length = 40 := by simp [StakePair.bytes]
  have hcopy : Buffer.copy pair.validator.toBytes (written size items) items.length =
      (written size (items ++ pair.validator.toBytes), 32) := by
    rw [copy_written items rfl (by simp; omega), Pubkey.length_toBytes]
  have hmain : writeUInt32LE (written size (items ++ pair.validator.toBytes)) pair.mainIndex
      (items.length + 32) =
      .ok (written size (items ++ pair.validator.toBytes ++ leBytes 4 pair.mainIndex.toNat),
        items.length + 32 + 4) :=
    writeWord_written _ hlow hhigh hlow hhigh (by simp) (by omega)
  have hadditional : writeUInt32LE
      (written size (items ++ pair.validator.toBytes ++ leBytes 4 pair.mainIndex.toNat))
      pair.additionalIndex (items.length + 32 + 4) =
      .ok (written size (items ++ pair.validator.toBytes ++ leBytes 4 pair.mainIndex.toNat ++
        leBytes 4 pair.additionalIndex.toNat), items.length + 32 + 4 + 4) :=
    writeWord_written _ hlow' hhigh' hlow' hhigh' (by simp) (by omega)
  simp only [pushPair, hcopy, bind_eq_ok, pure_eq_ok, Prod.exists]
  refine ⟨_, _, hmain, _, _, hadditional, _, getStakeForValidator_ok this _ hlow hhigh, _,
    getStakeForValidator_ok this _ hlow' hhigh', ?_⟩
  simp [StakePair.bytes, pairKeys, stakeAddress, Nat.add_assoc]

/-- The tag and the count of a batch. -/
theorem header_written (size : Nat) {tag count : Nat} (htag : tag < 256) (hcount : count < 2 ^ 32)
    (hsize : 5 ≤ size) :
    writeUInt8 (Buffer.alloc size) tag 0 = .ok (written size (leBytes 1 tag), 1) ∧
      writeUInt32LE (written size (leBytes 1 tag)) count 1 =
        .ok (written size (leBytes 1 tag ++ leBytes 4 count), 5) := by
  refine ⟨writeUInt8_alloc htag (by omega), ?_⟩
  have hwrite : writeWord 4 0 (2 ^ 32) (written size (leBytes 1 tag)) count 1 =
      .ok (written size (leBytes 1 tag ++ leBytes 4 (count : Int).toNat), 1 + 4) :=
    writeWord_written _ (by omega) (by omega) (by omega) (by omega) (by simp) hsize
  rw [Int.toNat_natCast] at hwrite
  exact hwrite

/-- The data of a batch: tag, count and records. -/
def batchData {β : Type} (tag : Nat) (bytes : β → List UInt8) (elements : List β) : List UInt8 :=
  UInt8.ofNat tag :: (leBytes 4 elements.length ++ elements.flatMap bytes)

theorem written_batch {β : Type} {tag size : Nat} {bytes : β → List UInt8} {elements : List β}
    (htag : tag < 256) (hsize : (elements.flatMap bytes).length + 5 = size) :
    written size (leBytes 1 tag ++ leBytes 4 elements.length ++ elements.flatMap bytes) =
      batchData tag bytes elements := by
  have hlength : (leBytes 1 tag ++ leBytes 4 elements.length ++
      elements.flatMap bytes).length = size := by
    rw [List.length_append, List.length_append, length_leBytes, length_leBytes]
    omega
  rw [written_full hlength, List.append_assoc]
  change UInt8.ofNat (tag % 256) :: _ = _
  rw [Nat.mod_eq_of_lt htag]
  rfl

theorem delegateReserveInstruction_ok {validators : List DepositReserveValidatorParam}
    (hcount : validators.length < 2 ^ 32) (hrange : ∀ v ∈ validators, v.InRange) :
    this.delegateReserveInstruction P validators =
      .ok ⟨this.delegateReserveKeys P ++ validators.flatMap (this.validatorKeys P),
        this.programId, batchData 12 DepositReserveValidatorParam.bytes validators⟩ := by
  have hlength : (validators.flatMap DepositReserveValidatorParam.bytes).length =
      validators.length * 12 :=
    length_flatMap_of_size fun v _ => by simp [DepositReserveValidatorParam.bytes]
  obtain ⟨htag, hheader⟩ := header_written (1 + 4 + (8 + 4) * validators.length)
    (by decide : 12 < 256) hcount (by omega)
  have hroom : (leBytes 1 12 ++ leBytes 4 validators.length).length +
      (validators.flatMap DepositReserveValidatorParam.bytes).length ≤
        1 + 4 + (8 + 4) * validators.length := by
    rw [hlength, List.length_append, length_leBytes, length_leBytes]
    omega
  have hloop := foldlM_written (1 + 4 + (8 + 4) * validators.length)
    DepositReserveValidatorParam.bytes (this.validatorKeys P)
    (fun out v => this.pushValidator P v out)
    (fun v hv items keys => this.pushValidator_written P (hrange v hv) items keys)
    (leBytes 1 12 ++ leBytes 4 validators.length) (this.delegateReserveKeys P) hroom
  simp only [delegateReserveInstruction, bind_eq_ok, pure_eq_ok, Prod.exists]
  refine ⟨_, _, htag, _, _, hheader, _, _, _, hloop, ?_⟩
  rw [written_batch (by decide) (by omega)]

theorem mergeStakesInstruction_ok {pairs : List StakePair} (hcount : pairs.length < 2 ^ 32)
    (hrange : ∀ pair ∈ pairs, pair.InRange) :
    this.mergeStakesInstruction P pairs =
      .ok ⟨this.mergeStakesKeys P ++ pairs.flatMap (this.pairKeys P), this.programId,
        batchData 13 StakePair.bytes pairs⟩ := by
  have hlength : (pairs.flatMap StakePair.bytes).length = pairs.length * 40 :=
    length_flatMap_of_size fun pair _ => by simp [StakePair.bytes]
  obtain ⟨htag, hheader⟩ := header_written (1 + 4 + (32 + 4 + 4) * pairs.length)
    (by decide : 13 < 256) hcount (by omega)
  have hroom : (leBytes 1 13 ++ leBytes 4 pairs.length).length +
      (pairs.flatMap StakePair.bytes).length ≤ 1 + 4 + (32 + 4 + 4) * pairs.length := by
    rw [hlength, List.length_append, length_leBytes, length_leBytes]
    omega
  have hloop := foldlM_written (1 + 4 + (32 + 4 + 4) * pairs.length)
    StakePair.bytes (this.pairKeys P) (fun out pair => this.pushPair P pair out)
    (fun pair hpair items keys => this.pushPair_written P (hrange pair hpair) items keys)
    (leBytes 1 13 ++ leBytes 4 pairs.length) (this.mergeStakesKeys P) hroom
  simp only [mergeStakesInstruction, bind_eq_ok, pure_eq_ok, Prod.exists]
  refine ⟨_, _, htag, _, _, hheader, _, _, _, hloop, ?_⟩
  rw [written_batch (by decide) (by omega)]

theorem createStakePoolInstruction_written {params : CreateStakePoolParams}
    (hden : 0 ≤ params.feeDenominator ∧ params.feeDenominator < 2 ^ 64)
    (hnum : 0 ≤ params.feeNumerator ∧ params.feeNumerator < 2 ^ 64) :
    ∃ tx, this.createStakePoolInstruction params = .ok tx ∧
      tx.data = 0 :: (leBytes 8 params.feeDenominator.toNat ++
        leBytes 8 params.feeNumerator.toNat) := by
  obtain ⟨hden, hden'⟩ := hden
  obtain ⟨hnum, hnum'⟩ := hnum
  have htag : writeUInt8 (Buffer.alloc 17) 0 0 = .ok (written 17 (leBytes 1 0), 1) :=
    writeUInt8_alloc (by decide : 0 < 256) (by decide)
  have hfirst : writeBigUInt64LE (written 17 (leBytes 1 0)) params.feeDenominator 1 =
      .ok (written 17 (leBytes 1 0 ++ leBytes 8 params.feeDenominator.toNat), 9) :=
    writeWord_written _ hden (by omega) hden (by omega) rfl (by decide)
  have hsecond : writeBigUInt64LE
      (written 17 (leBytes 1 0 ++ leBytes 8 params.feeDenominator.toNat)) params.feeNumerator 9 =
      .ok (written 17 (leBytes 1 0 ++ leBytes 8 params.feeDenominator.toNat ++
        leBytes 8 params.feeNumerator.toNat), 17) :=
    writeWord_written _ hnum (by omega) hnum (by omega) (by simp) (by decide)
  have hfull : written 17 (leBytes 1 0 ++ leBytes 8 params.feeDenominator.toNat ++
      leBytes 8 params.feeNumerator.toNat) =
      0 :: (leBytes 8 params.feeDenominator.toNat ++ leBytes 8 params.feeNumerator.toNat) :=
    written_full (by simp)
  simp only [createStakePoolInstruction, bind_eq_ok, pure_eq_ok, Prod.exists]
  exact ⟨_, ⟨_, _, htag, _, _, hfirst, _, _, hsecond, rfl⟩, hfull⟩

theorem createStakePoolInstruction_ok {params : CreateStakePoolParams}
    (hden : 0 ≤ params.feeDenominator ∧ params.feeDenominator < 2 ^ 63)
    (hnum : 0 ≤ params.feeNumerator ∧ params.feeNumerator < 2 ^ 63) :
    ∃ tx, this.createStakePoolInstruction params = .ok tx ∧
      tx.data = 0 :: (leBytes 8 params.feeDenominator.toNat ++
        leBytes 8 params.feeNumerator.toNat) :=
  this.createStakePoolInstruction_written ⟨hden.1, by omega⟩ ⟨hnum.1, by omega⟩

end TenderizeProgram

/-! ## Accounts -/

section Accounts

variable {clock : Clock} {depositBump reserveBump : UInt8} {available : UInt64}

theorem delegateOne_accounts {a : DelegateReserveAccounts} {total : UInt64}
    {instruction : DelegateReserveInstruction} {x x' : BatchState}
    (hrun : delegateOne P programId a clock depositBump reserveBump available total instruction x =
      .ok x') : x'.accounts = x.accounts.drop 2 := by
  simp only [delegateOne, bind_eq_ok, Prod.exists, nextAccountInfo_eq_ok] at hrun
  obtain ⟨vote, _, haccounts, stake, rest, rfl, _, _, _, _, _, _, _, _, hrun⟩ := hrun
  rw [haccounts]
  split at hrun <;>
  · obtain ⟨L, -, hrun⟩ := bind_eq_ok.mp hrun
    obtain rfl := pure_eq_ok.mp hrun
    rfl

theorem delegateLoop_accounts {a : DelegateReserveAccounts}
    (instructions : List DelegateReserveInstruction) :
    ∀ {total : UInt64} {x x' : BatchState},
      delegateLoop P programId a clock depositBump reserveBump available instructions total x =
        .ok x' → x'.accounts = x.accounts.drop (instructions.length * 2) := by
  induction instructions with
  | nil =>
      intro total x x' hrun
      obtain rfl := Except.ok.inj hrun
      rfl
  | cons instruction instructions ih =>
      intro total x x' hrun
      simp only [delegateLoop, bind_eq_ok] at hrun
      obtain ⟨x₁, hfirst, hrest⟩ := hrun
      rw [ih hrest, delegateOne_accounts hfirst, List.drop_drop, List.length_cons]
      congr 1
      omega

theorem mergeOne_accounts {a : MergeStakesAccounts} {instruction : MergeStakesInstruction}
    {x x' : BatchState}
    (hrun : mergeOne P programId a clock depositBump instruction x = .ok x') :
    x'.accounts = x.accounts.drop 2 := by
  simp only [mergeOne, bind_eq_ok, Prod.exists, nextAccountInfo_eq_ok] at hrun
  obtain ⟨main, _, haccounts, additional, rest, rfl, _, _, _, _, _, _, _, _, _, _, _, _, hrun⟩ :=
    hrun
  rw [haccounts]
  split at hrun
  · obtain rfl := pure_eq_ok.mp hrun
    rfl
  · obtain ⟨L, -, hrun⟩ := bind_eq_ok.mp hrun
    split at hrun <;> obtain rfl := pure_eq_ok.mp hrun <;> rfl

theorem mergeLoop_accounts {a : MergeStakesAccounts} (instructions : List MergeStakesInstruction) :
    ∀ {x x' : BatchState}, mergeLoop P programId a clock depositBump instructions x = .ok x' →
      x'.accounts = x.accounts.drop (instructions.length * 2) := by
  induction instructions with
  | nil =>
      intro x x' hrun
      obtain rfl := Except.ok.inj hrun
      rfl
  | cons instruction instructions ih =>
      intro x x' hrun
      simp only [mergeLoop, bind_eq_ok] at hrun
      obtain ⟨x₁, hfirst, hrest⟩ := hrun
      rw [ih hrest, mergeOne_accounts hfirst, List.drop_drop, List.length_cons]
      congr 1
      omega

end Accounts

/-! ## Requests -/

/-- A call of one of the builders. -/
inductive Request where
  | createStakePool (params : CreateStakePoolParams)
  | deposit (params : DepositParams)
  | withdraw (params : WithdrawParams)
  | credit (params : CreditParams)
  | delegateReserve (validators : List DepositReserveValidatorParam)
  | mergeStakes (stakePairs : List StakePair)
  | webDeposit (params : DepositParams)
  | webWithdraw (params : WithdrawParams) (tenderize : Web.PoolInfo)
  | webCredit (params : CreditParams) (tenderize : Web.PoolInfo)

namespace Request

variable (P) (this : TenderizeProgram)

def build : Request → Except JsError TransactionInstruction
  | .createStakePool params => this.createStakePoolInstruction params
  | .deposit params => this.depositInstruction P params
  | .withdraw params => this.withdrawInstruction P params
  | .credit params => this.creditInstruction P params
  | .delegateReserve validators => this.delegateReserveInstruction P validators
  | .mergeStakes stakePairs => this.mergeStakesInstruction P stakePairs
  | .webDeposit params => Web.depositInstruction params
  | .webWithdraw params tenderize => Web.withdrawInstruction params tenderize
  | .webCredit params tenderize => Web.creditInstruction params tenderize

/-- The parameters the clients are made for. -/
def InRange : Request → Prop
  | .createStakePool params =>
      (0 ≤ params.feeDenominator ∧ params.feeDenominator < 2 ^ 63) ∧
        0 ≤ params.feeNumerator ∧ params.feeNumerator < 2 ^ 63
  | .deposit params => 0 ≤ params.amount ∧ params.amount < 2 ^ 63
  | .withdraw params => 0 ≤ params.amount ∧ params.amount < 2 ^ 63
  | .credit params => |params.amount| < 2 ^ 63
  | .delegateReserve validators =>
      validators ≠ [] ∧ validators.length < 2 ^ 32 ∧ ∀ v ∈ validators, v.InRange
  | .mergeStakes stakePairs =>
      stakePairs ≠ [] ∧ stakePairs.length < 2 ^ 32 ∧ ∀ pair ∈ stakePairs, pair.InRange
  | .webDeposit params => 0 ≤ params.amount ∧ params.amount < 2 ^ 53
  | .webWithdraw params _ => 0 ≤ params.amount ∧ params.amount < 2 ^ 53
  | .webCredit params _ => 0 ≤ params.amount ∧ params.amount < 2 ^ 53

/-- The instruction a request asks for. -/
def intended : Request → StakePoolInstruction
  | .createStakePool params =>
      .initializePool ⟨⟨word64 params.feeDenominator, word64 params.feeNumerator⟩⟩
  | .deposit params => .deposit (word64 params.amount)
  | .withdraw params => .withdraw (word64 params.amount)
  | .credit params =>
      if params.amount ≥ 0 then .credit (word64 params.amount)
      else .uncredit (word64 (-params.amount))
  | .delegateReserve validators =>
      .delegateReserve (validators.map DepositReserveValidatorParam.intended)
  | .mergeStakes stakePairs => .mergeStakes (stakePairs.map StakePair.intended)
  | .webDeposit params => .deposit (word64 params.amount)
  | .webWithdraw params _ => .withdraw (word64 params.amount)
  | .webCredit params _ => .credit (word64 params.amount)

/-- The accounts of a batch are the fixed ones and those pushed for the elements, and the loop
of the handler, after any number `k` of elements, finds those of the `k`-th next. -/
def TakesPushed (tx : TransactionInstruction) : Request → Prop
  | .delegateReserve validators =>
      tx.keys = this.delegateReserveKeys P ++ validators.flatMap (this.validatorKeys P) ∧
        ∀ chain, ∃ a, DelegateReserveAccounts.parse chain tx.keys = .ok a ∧
          ∀ depositBump reserveBump available total list changed x k v, validators[k]? = some v →
            delegateLoop P this.programId a chain.clock depositBump reserveBump available
              ((validators.take k).map DepositReserveValidatorParam.intended) total
              ⟨list, changed, a.rest, chain.ledger⟩ = .ok x →
            ∃ rest, x.accounts = this.validatorKeys P v ++ rest
  | .mergeStakes stakePairs =>
      tx.keys = this.mergeStakesKeys P ++ stakePairs.flatMap (this.pairKeys P) ∧
        ∃ a, MergeStakesAccounts.parse tx.keys = .ok a ∧
          ∀ (chain : Chain) depositBump list changed x k pair, stakePairs[k]? = some pair →
            mergeLoop P this.programId a chain.clock depositBump
              ((stakePairs.take k).map StakePair.intended)
              ⟨list, changed, a.rest, chain.ledger⟩ = .ok x →
            ∃ rest, x.accounts = this.pairKeys P pair ++ rest
  | _ => True

end Request

/-- What is left of pushed accounts after `k` elements starts with those of the next one. -/
theorem pushed_drop {β : Type} {keys : β → List AccountInfo} {elements : List β}
    (hkeys : ∀ x ∈ elements, (keys x).length = 2) {k : Nat} {e : β} (he : elements[k]? = some e) :
    ∃ rest, (elements.flatMap keys).drop (min k elements.length * 2) = keys e ++ rest := by
  obtain ⟨hk, rfl⟩ := List.getElem?_eq_some_iff.mp he
  have hmin : min k elements.length = k := by omega
  refine ⟨(elements.drop (k + 1)).flatMap keys, ?_⟩
  rw [hmin, drop_flatMap_of_size hkeys k, List.drop_eq_getElem_cons hk, List.flatMap_cons]

section Agreement

variable (this : TenderizeProgram)

theorem delegateReserve_takes (validators : List DepositReserveValidatorParam) (data : Buffer) :
    (Request.delegateReserve validators).TakesPushed P this
      ⟨this.delegateReserveKeys P ++ validators.flatMap (this.validatorKeys P), this.programId,
        data⟩ := by
  refine ⟨rfl, fun chain => ⟨⟨_, _, _, _, _, _, _, _, _, _, _, _, _⟩, rfl, ?_⟩⟩
  intro depositBump reserveBump available total list changed x k v hv hrun
  rw [delegateLoop_accounts _ hrun, List.length_map, List.length_take]
  exact pushed_drop (fun _ _ => rfl) hv

theorem mergeStakes_takes (stakePairs : List StakePair) (data : Buffer) :
    (Request.mergeStakes stakePairs).TakesPushed P this
      ⟨this.mergeStakesKeys P ++ stakePairs.flatMap (this.pairKeys P), this.programId, data⟩ := by
  refine ⟨rfl, ⟨_, _, _, _, _, _, _⟩, rfl, ?_⟩
  intro chain depositBump list changed x k pair hpair hrun
  rw [mergeLoop_accounts _ hrun, List.length_map, List.length_take]
  exact pushed_drop (fun _ _ => rfl) hpair

theorem deserialize_fee {denominator numerator : Int} (hden : denominator.toNat < 2 ^ 64)
    (hnum : numerator.toNat < 2 ^ 64) :
    StakePoolInstruction.deserialize
      (0 :: (leBytes 8 denominator.toNat ++ leBytes 8 numerator.toNat)) =
      .ok (.initializePool ⟨⟨word64 denominator, word64 numerator⟩⟩) := by
  have hfirst : readU64 (leBytes 8 denominator.toNat ++ leBytes 8 numerator.toNat) =
      word64 denominator := readU64_append hden _
  have hsecond : readU64 ((leBytes 8 denominator.toNat ++ leBytes 8 numerator.toNat).drop 8) =
      word64 numerator := by
    rw [List.drop_left' (length_leBytes 8 _)]
    have hread := readU64_append hnum []
    rw [List.append_nil] at hread
    exact hread
  have hparse : ∀ bytes, StakePoolInstruction.deserialize (0 :: bytes) =
      (unpack InitArgs.raw (0 :: bytes)).map .initializePool := fun _ => rfl
  rw [hparse, unpack_append (by simp [InitArgs.raw])]
  change Except.ok (StakePoolInstruction.initializePool ⟨⟨_, _⟩⟩) = _
  rw [hfirst, hsecond]

theorem deserialize_mergeStakes {stakePairs : List StakePair} (hne : stakePairs ≠ [])
    (hcount : stakePairs.length < 2 ^ 32) (hrange : ∀ pair ∈ stakePairs, pair.InRange) :
    StakePoolInstruction.deserialize
        (TenderizeProgram.batchData 13 StakePair.bytes stakePairs) =
      .ok (.mergeStakes (stakePairs.map StakePair.intended)) := by
  have hslice : unpackSlice MergeStakesInstruction.raw
      (TenderizeProgram.batchData 13 StakePair.bytes stakePairs) = _ :=
    unpackSlice_records stakePairs StakePair.bytes StakePair.intended (by decide) hne hcount
      (fun pair _ => by simp [StakePair.bytes, MergeStakesInstruction.raw])
      (fun pair hpair => mergeStakes_read pair (hrange pair hpair))
  exact congrArg (Except.map StakePoolInstruction.mergeStakes) hslice

/-- Every request in range is built, the program reads the instruction it asks for, and the
handlers of the batches take the accounts pushed for each element. -/
theorem clients_agree_with_program (r : Request) (h : r.InRange) :
    ∃ tx, r.build P this = .ok tx ∧
      StakePoolInstruction.deserialize tx.data = .ok r.intended ∧ r.TakesPushed P this tx := by
  cases r with
  | createStakePool params =>
      obtain ⟨⟨hden, hden'⟩, hnum, hnum'⟩ := h
      obtain ⟨tx, hbuild, hdata⟩ := this.createStakePoolInstruction_ok ⟨hden, hden'⟩ ⟨hnum, hnum'⟩
      exact ⟨tx, hbuild, hdata ▸ deserialize_fee (by omega) (by omega), trivial⟩
  | deposit params =>
      obtain ⟨data, hdata, hamount⟩ := amountData_ok (by decide : 6 < 256) h.1 h.2
      exact ⟨_, bind_eq_ok.mpr ⟨data, hdata, rfl⟩, hamount.deserialize (.head _), trivial⟩
  | withdraw params =>
      obtain ⟨data, hdata, hamount⟩ := amountData_ok (by decide : 7 < 256) h.1 h.2
      exact ⟨_, bind_eq_ok.mpr ⟨data, hdata, rfl⟩, hamount.deserialize (.tail _ (.head _)), trivial⟩
  | credit params =>
      have habs : |params.amount| < 2 ^ 63 := h
      by_cases hsign : params.amount ≥ 0
      · rw [abs_of_nonneg hsign] at habs
        obtain ⟨data, hdata, hamount⟩ := amountData_ok (by decide : 10 < 256) hsign habs
        refine ⟨_, bind_eq_ok.mpr ⟨data, ?_, rfl⟩, ?_, trivial⟩
        · rw [if_pos hsign, abs_of_nonneg hsign]
          exact hdata
        · change StakePoolInstruction.deserialize data = .ok (if _ then _ else _)
          rw [if_pos hsign]
          exact hamount.deserialize (.tail _ (.tail _ (.head _)))
      · have hneg : params.amount < 0 := by omega
        rw [abs_of_neg hneg] at habs
        obtain ⟨data, hdata, hamount⟩ := amountData_ok (by decide : 11 < 256)
          (by omega : 0 ≤ -params.amount) habs
        refine ⟨_, bind_eq_ok.mpr ⟨data, ?_, rfl⟩, ?_, trivial⟩
        · rw [if_neg hsign, abs_of_neg hneg]
          exact hdata
        · change StakePoolInstruction.deserialize data = .ok (if _ then _ else _)
          rw [if_neg hsign]
          exact hamount.deserialize (.tail _ (.tail _ (.tail _ (.head _))))
  | delegateReserve validators =>
      obtain ⟨hne, hcount, hrange⟩ := h
      refine ⟨_, this.delegateReserveInstruction_ok P hcount hrange, ?_,
        delegateReserve_takes this validators _⟩
      have hslice : unpackSlice DelegateReserveInstruction.raw
          (TenderizeProgram.batchData 12 DepositReserveValidatorParam.bytes validators) = _ :=
        unpackSlice_records validators DepositReserveValidatorParam.bytes
          DepositReserveValidatorParam.intended (by decide) hne hcount
          (fun v _ => by simp [DepositReserveValidatorParam.bytes, DelegateReserveInstruction.raw])
          (fun v hv => delegateReserve_read v (hrange v hv))
      exact congrArg (Except.map StakePoolInstruction.delegateReserve) hslice
  | mergeStakes stakePairs =>
      obtain ⟨hne, hcount, hrange⟩ := h
      exact ⟨_, this.mergeStakesInstruction_ok P hcount hrange,
        deserialize_mergeStakes hne hcount hrange, mergeStakes_takes this stakePairs _⟩
  | webDeposit params =>
      obtain ⟨data, hdata, hamount⟩ := Web.encodeAmount_ok (by decide : 6 < 256) h.1 h.2
      exact ⟨_, bind_eq_ok.mpr ⟨data, hdata, rfl⟩, hamount.deserialize (.head _), trivial⟩
  | webWithdraw params tenderize =>
      obtain ⟨data, hdata, hamount⟩ := Web.encodeAmount_ok (by decide : 7 < 256) h.1 h.2
      exact ⟨_, bind_eq_ok.mpr ⟨data, hdata, rfl⟩, hamount.deserialize (.tail _ (.head _)), trivial⟩
  | webCredit params tenderize =>
      obtain ⟨data, hdata, hamount⟩ := Web.encodeAmount_ok (by decide : 10 < 256) h.1 h.2
      exact ⟨_, bind_eq_ok.mpr ⟨data, hdata, rfl⟩,
        hamount.deserialize (.tail _ (.tail _ (.head _))), trivial⟩

end Agreement

section

open Reference

/-- The client of the owner of the reference pool. -/
def ownerClient : TenderizeProgram where
  programId := Reference.programId
  stakePool := poolKey
  owner := ownerKey
  validatorStakeListAccount := listKey
  creditListAccount := creditListKey
  poolMintToken := mintKey
  ownersFee := feeKey
  creditReserve := creditReserveKey

theorem clients_agree_with_program_twoStakes :
    ∃ tx, ownerClient.delegateReserveInstruction programs
        [⟨validatorKey, 100000000, 0⟩, ⟨validatorKey, 200000000, 1⟩] = .ok tx ∧
      StakePoolInstruction.deserialize tx.data =
        .ok (.delegateReserve [⟨100000000, 0⟩, ⟨200000000, 1⟩]) := by
  have hrange : (Request.delegateReserve
      [⟨validatorKey, 100000000, 0⟩, ⟨validatorKey, 200000000, 1⟩]).InRange := by
    refine ⟨List.cons_ne_nil _ _, by decide, ?_⟩
    simp [DepositReserveValidatorParam.InRange]
  obtain ⟨tx, hbuild, hparse, -⟩ := clients_agree_with_program (P := programs) ownerClient _ hrange
  exact ⟨tx, hbuild, hparse⟩

end

end Tenderize
