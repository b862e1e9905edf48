import Tenderize.Model.Readers
import Tenderize.Refinement.Storage

/-!
# Stored data and its readers

Lists survive a write and a read, and the readers of the two clients find in the bytes
what the program put there.
-/

namespace Tenderize

open Support

/-! ## Write and read -/

/-- What storing a list in an account of any earlier content promises. -/
structure SurvivesStorage {β : Type} (len limit width : Nat) (version : β → UInt8)
    (count : β → Nat) (serialize : β → Output Unit)
    (deserialize : List UInt8 → Except ProgramError β) : Prop where
  round_trip : ∀ list output, count list ≤ limit → (version list ≠ 0 ∨ count list = 0) →
    len ≤ output.length →
      ∃ output', (serialize list).run output = .ok () output' ∧ deserialize output' = .ok list
  /-- No byte behind the last record changes. -/
  behind : ∀ list output output', (serialize list).run output = .ok () output' →
    output'.length = output.length ∧
      output'.drop (3 + count list * width) = output.drop (3 + count list * width)
  failed : ∀ list output e output', (serialize list).run output = .error e output' →
    output' = output
  /-- An input is refused for its content, never left, and what is read from it is stored
  in it again. -/
  any_input : ∀ input, deserialize input = .error .invalidAccountData ∨
    ∃ list, deserialize input = .ok list ∧ count list ≤ limit ∧
      ∃ output', (serialize list).run input = .ok () output' ∧ deserialize output' = .ok list

section Survives

variable {α β γ : Type} {len limit width : Nat} {version : β → UInt8} {count : β → Nat}
  {serialize : β → Output Unit} {deserialize : List UInt8 → Except ProgramError β}

/-- A list that is written and read through another one. -/
theorem SurvivesStorage.transport
    (h : SurvivesStorage len limit width version count serialize deserialize) (e : γ ≃ β) :
    SurvivesStorage len limit width (fun list => version (e list)) (fun list => count (e list))
      (fun list => serialize (e list)) (fun input => (deserialize input).map e.symm) := by
  have hread : ∀ {input list}, deserialize input = .ok (e list) →
      (deserialize input).map e.symm = .ok list := by
    intro input list hlist
    rw [hlist]
    exact congrArg Except.ok (e.symm_apply_apply list)
  refine ⟨?_, fun list => h.behind (e list), fun list => h.failed (e list), ?_⟩
  · intro list output hcount hversion hlength
    obtain ⟨output', hrun, hlist⟩ := h.round_trip (e list) output hcount hversion hlength
    exact ⟨output', hrun, hread hlist⟩
  · intro input
    rcases h.any_input input with herror | ⟨list, hlist, hlimit, output', hrun, hagain⟩
    · rw [herror]
      exact .inl rfl
    · rw [← e.apply_symm_apply list] at hlist hlimit hrun hagain
      exact .inr ⟨e.symm list, hread hlist, hlimit, output', hrun, hread hagain⟩

theorem ListFormat.survivesStorage (format : ListFormat α) (hlimit : format.maxRecords < 2 ^ 16)
    (padding : Nat → Vector UInt8 format.record.padding) :
    SurvivesStorage format.LEN format.maxRecords format.record.size Prod.fst
      (fun list => list.2.length) (fun list => format.serialize list.1 list.2 padding)
      format.deserialize := by
  have round_trip : ∀ (list : UInt8 × List α) output, list.2.length ≤ format.maxRecords →
      (list.1 ≠ 0 ∨ list.2.length = 0) → format.LEN ≤ output.length →
      ∃ output', (format.serialize list.1 list.2 padding).run output = .ok () output' ∧
        format.deserialize output' = .ok list := by
    intro ⟨version, records⟩ output hcount hzero hlength
    obtain ⟨hwritten, hlen⟩ := format.overwrite_bytes padding version hlength hcount
    refine ⟨_, format.serialize_ok padding version hlength hcount, ?_⟩
    rw [hwritten, format.deserialize_bytes padding version (by omega) hcount hlimit]
    by_cases h : version = 0
    · have hnil : records = [] :=
        List.eq_nil_of_length_eq_zero (hzero.resolve_left fun hne => hne h)
      rw [if_pos h, h, hnil]
    · rw [if_neg h]
  refine ⟨round_trip, ?_, ?_, ?_⟩
  · intro list output output' hrun
    obtain ⟨hlength, hcount, rfl⟩ := format.serialize_eq_ok padding hrun
    obtain ⟨-, hlen⟩ := format.overwrite_bytes padding list.1 hlength hcount
    exact ⟨hlen, List.drop_left' (format.length_bytes padding list.1 list.2)⟩
  · intro list output e output' hrun
    by_cases hroom : output.length < format.LEN ∨ format.maxRecords < list.2.length
    · rw [format.serialize_error padding list.1 hroom] at hrun
      exact (EStateM.Result.error.inj hrun).2.symm
    · rw [format.serialize_ok padding list.1 (by omega) (by omega)] at hrun
      cases hrun
  · intro input
    rcases format.deserialize_cases input with herror | ⟨version, records, hread, hlength, hcount,
      hzero⟩
    · exact .inl herror
    · obtain ⟨output', hrun, hagain⟩ := round_trip (version, records) input hcount
        (hzero.imp_right (congrArg List.length)) hlength
      exact .inr ⟨(version, records), hread, hcount, output', hrun, hagain⟩

end Survives

def ValidatorStakeList.equivProd : ValidatorStakeList ≃ UInt8 × List ValidatorStakeInfo where
  toFun list := (list.version, list.validators)
  invFun list := ⟨list.1, list.2⟩
  left_inv _ := rfl
  right_inv _ := rfl

def CreditList.equivProd : CreditList ≃ UInt8 × List CreditRecord where
  toFun list := (list.version, list.credits)
  invFun list := ⟨list.1, list.2⟩
  left_inv _ := rfl
  right_inv _ := rfl

/-- Both lists of a pool survive a write and a read, whatever the account held before and
whatever the compiler leaves in the padding. -/
theorem stored_lists_survive (padding : Nat → Vector UInt8 4) :
    SurvivesStorage ValidatorStakeList.LEN maxValidators ValidatorStakeInfo.LEN
        ValidatorStakeList.version (fun list => list.validators.length)
        (fun list => list.serializeBytes padding) ValidatorStakeList.deserializeBytes ∧
      SurvivesStorage CreditList.LEN maxCreditRecords CreditRecord.LEN
        CreditList.version (fun list => list.credits.length)
        CreditList.serializeBytes CreditList.deserializeBytes := by
  constructor
  · have h := (ValidatorStakeList.format.survivesStorage (by decide) padding).transport
      ValidatorStakeList.equivProd
    exact h
  · have h := (CreditList.format.survivesStorage (by decide) fun _ => #v[]).transport
      CreditList.equivProd
    exact h

/-! ## Readers -/

section Readers

variable {data : Buffer}

/-- What a client lists of a pool. -/
def State.ofPool (pool : StakePool) : State where
  version := pool.version.toNat
  owner := pool.owner
  validatorStakeList := pool.validatorStakeList
  creditList := pool.creditList
  poolMint := pool.poolMint
  ownerFeeAccount := pool.ownerFeeAccount
  creditReserve := pool.creditReserve
  tokenProgram := pool.tokenProgramId
  stakeTotal := pool.stakeTotal.toNat
  poolTotal := pool.poolTotal.toNat
  lastEpochUpdate := pool.lastUpdateEpoch.toNat
  feeDenominator := pool.fee.denominator.toNat
  feeNumerator := pool.fee.numerator.toNat

def ValidatorInfo.ofRecord (info : ValidatorStakeInfo) : ValidatorInfo :=
  ⟨info.validatorAccount, info.balance.toNat, info.lastUpdateEpoch.toNat, info.stakeCount.toNat⟩

def Creditor.ofRecord (record : CreditRecord) : Creditor :=
  ⟨record.solTarget, record.cancelAuthority, record.tokenAmount.toNat⟩

theorem slice_eq (data : Buffer) (offset width : Nat) :
    data.slice offset (offset + width) = (data.drop offset).take width := by
  rw [Buffer.slice, List.drop_take, Nat.add_sub_cancel_left]

theorem newPublicKey_slice (data : Buffer) (offset : Nat) :
    newPublicKey (data.slice offset (offset + 32)) = .ok (readPubkey (data.drop offset)) := by
  have hlength : (data.slice offset (offset + 32)).reverse.length ≤ 32 := by
    rw [slice_eq, List.length_reverse, List.length_take]
    omega
  have hvalue : leValue (data.slice offset (offset + 32)).reverse < 2 ^ 256 :=
    calc
      leValue (data.slice offset (offset + 32)).reverse
          < 256 ^ (data.slice offset (offset + 32)).reverse.length := leValue_lt _
      _ ≤ 256 ^ 32 := Nat.pow_le_pow_right (by decide) hlength
      _ = 2 ^ 256 := by norm_num
  unfold newPublicKey
  rw [require, if_pos hvalue, slice_eq]
  rfl

theorem readWord_ok {width offset : Nat} (h : offset + width ≤ data.length) :
    readWord width data offset = .ok (leValue ((data.drop offset).take width)) := by
  unfold readWord
  rw [require, if_pos h]
  rfl

/-- A word is below the power of its width. -/
theorem leValue_take_lt (width : Nat) (bytes : List UInt8) :
    leValue (bytes.take width) < 256 ^ width :=
  lt_of_lt_of_le (leValue_lt _) (Nat.pow_le_pow_right (by decide) (List.length_take_le _ _))

theorem toNat_readU64 (bytes : List UInt8) :
    (readU64 bytes).toNat = leValue (bytes.take 8) :=
  UInt64.toNat_ofNat_of_lt' (leValue_take_lt 8 bytes)

theorem toNat_readU32 (bytes : List UInt8) :
    (readU32 bytes).toNat = leValue (bytes.take 4) :=
  UInt32.toNat_ofNat_of_lt' (leValue_take_lt 4 bytes)

theorem readBigUInt64LE_ok {offset : Nat} (h : offset + 8 ≤ data.length) :
    readBigUInt64LE data offset = .ok (readU64 (data.drop offset)).toNat := by
  rw [toNat_readU64]
  exact readWord_ok h

theorem readUInt32LE_ok {offset : Nat} (h : offset + 4 ≤ data.length) :
    readUInt32LE data offset = .ok (readU32 (data.drop offset)).toNat := by
  rw [toNat_readU32]
  exact readWord_ok h

theorem readUInt8_ok {offset : Nat} (h : offset < data.length) :
    readUInt8 data offset = .ok (readU8 (data.drop offset)).toNat := by
  have hword : readUInt8 data offset = .ok (leValue ((data.drop offset).take 1)) := readWord_ok h
  rw [hword, List.drop_eq_getElem_cons h]
  rfl

theorem parseState_eq (h : 272 ≤ data.length) :
    parseState data = .ok (State.ofPool (StakePool.read data)) := by
  have hversion := readUInt8_ok (show 0 < data.length by omega)
  simp only [parseState, bind_eq_ok, pure_eq_ok]
  exact ⟨_, hversion, _, newPublicKey_slice data 1, _, newPublicKey_slice data 35,
    _, newPublicKey_slice data 67, _, newPublicKey_slice data 99, _, newPublicKey_slice data 131,
    _, newPublicKey_slice data 163, _, newPublicKey_slice data 195,
    _, readBigUInt64LE_ok (by omega), _, readBigUInt64LE_ok (by omega),
    _, readBigUInt64LE_ok (by omega), _, readBigUInt64LE_ok (by omega),
    _, readBigUInt64LE_ok (by omega), rfl⟩

namespace Web

/-- The hexadecimal digits of the bytes, highest first, read on from a value. -/
theorem foldl_hexDigits (bytes : List UInt8) :
    ∀ value, (bytes.reverse.flatMap hexDigits).foldl (fun value digit => 16 * value + digit)
      value = value * 256 ^ bytes.length + leValue bytes := by
  induction bytes with
  | nil =>
      intro value
      simp [leValue]
  | cons byte bytes ih =>
      intro value
      rw [List.reverse_cons, List.flatMap_append, List.foldl_append, ih]
      simp only [hexDigits, List.flatMap_cons, List.flatMap_nil, List.append_nil,
        List.foldl_cons, List.foldl_nil, List.length_cons, pow_succ, leValue]
      rw [← mul_assoc]
      omega

theorem uint64_eq (data : Buffer) (offset : Nat) :
    uint64 data offset = ((readU64 (data.drop offset)).toNat, offset + 8) := by
  have hvalue : bnOfHex ((data.slice offset (offset + 8)).reverse.flatMap hexDigits) =
      (readU64 (data.drop offset)).toNat := by
    rw [toNat_readU64, ← slice_eq]
    have hfold := foldl_hexDigits (data.slice offset (offset + 8)) 0
    rw [Nat.zero_mul, Nat.zero_add] at hfold
    exact hfold
  exact congrArg (·, offset + 8) hvalue

theorem publicKey_ok (data : Buffer) (offset : Nat) :
    publicKey data offset = .ok (readPubkey (data.drop offset), offset + 32) := by
  unfold publicKey
  change (newPublicKey (data.slice offset (offset + 32)) >>= _) = _
  rw [newPublicKey_slice]
  rfl

theorem tenderizeLayout_eq (h : 272 ≤ data.length) :
    tenderizeLayout data = .ok (State.ofPool (StakePool.read data)) := by
  have hversion : u8 data 0 = .ok ((readU8 (data.drop 0)).toNat, 1) := by
    unfold u8
    rw [readUInt8_ok (show 0 < data.length by omega)]
    rfl
  simp only [tenderizeLayout, bind_eq_ok, pure_eq_ok, Prod.exists, blob, uint64_eq]
  exact ⟨_, _, hversion, _, _, publicKey_ok data _, _, _, publicKey_ok data _,
    _, _, publicKey_ok data _, _, _, publicKey_ok data _, _, _, publicKey_ok data _,
    _, _, publicKey_ok data _, _, _, publicKey_ok data _, rfl⟩

end Web

namespace TenderizeProgram

/-- The record at each stride of 56 bytes. -/
theorem readValidator_ok {i : Nat} (hroom : 3 + (i + 1) * 56 ≤ data.length)
    (hsmall : (ValidatorStakeInfo.read (data.drop (3 + i * 56))).balance.toNat < 2 ^ 53 ∧
      (ValidatorStakeInfo.read (data.drop (3 + i * 56))).lastUpdateEpoch.toNat < 2 ^ 53) :
    readValidator data i =
      .ok (ValidatorInfo.ofRecord (ValidatorStakeInfo.read (data.drop (3 + i * 56)))) := by
  have hbase : 3 + (32 + 8 + 8 + 8) * i = 3 + i * 56 := by omega
  have hbalance := readBigUInt64LE_ok (show 3 + i * 56 + 32 + 8 ≤ data.length by omega)
  have hepoch := readBigUInt64LE_ok (show 3 + i * 56 + 32 + 8 + 8 ≤ data.length by omega)
  have hcount := readUInt32LE_ok (show 3 + i * 56 + 32 + 8 + 8 + 4 ≤ data.length by omega)
  simp only [ValidatorStakeInfo.read, List.drop_drop] at hsmall
  simp only [readValidator, hbase, bind_eq_ok, pure_eq_ok]
  refine ⟨_, newPublicKey_slice data _, _, hbalance, _, hepoch, _, hcount, ?_⟩
  simp only [ValidatorInfo.ofRecord, ValidatorStakeInfo.read, List.drop_drop]
  rw [numberOfBigInt_small hsmall.1, numberOfBigInt_small hsmall.2]

/-- The records one behind the other, 72 bytes each. -/
theorem readCreditorsFrom_ok {count p : Nat} (hroom : p + count * 72 ≤ data.length)
    (hsmall : ∀ record ∈ CreditList.format.recordsAt data p count,
      record.tokenAmount.toNat < 2 ^ 53) :
    readCreditorsFrom data count p =
      .ok ((CreditList.format.recordsAt data p count).map Creditor.ofRecord) := by
  induction count generalizing p with
  | zero => rfl
  | succ count ih =>
      rw [ListFormat.recordsAt_succ] at hsmall ⊢
      obtain ⟨hfirst, hrest⟩ := List.forall_mem_cons.mp hsmall
      have hamount := readBigUInt64LE_ok (show p + 32 + 32 + 8 ≤ data.length by omega)
      have hcreditors := ih (show p + 72 + count * 72 ≤ data.length by omega) hrest
      simp only [readCreditorsFrom, bind_eq_ok, pure_eq_ok]
      refine ⟨_, newPublicKey_slice data _, _, newPublicKey_slice data _, _, hamount, _,
        hcreditors, ?_⟩
      change _ = Creditor.ofRecord (CreditRecord.read (data.drop p)) :: _
      change (CreditRecord.read (data.drop p)).tokenAmount.toNat < 2 ^ 53 at hfirst
      simp only [CreditRecord.read, List.drop_drop] at hfirst
      simp only [Creditor.ofRecord, CreditRecord.read, List.drop_drop]
      rw [numberOfBigInt_small hfirst]
      rfl

variable {getAccountInfo : AccountReader} {this : TenderizeProgram}

/-- The count of a list that was stored. -/
theorem readUInt16LE_count {α : Type} {format : ListFormat α}
    {padding : Nat → Vector UInt8 format.record.padding} {version : UInt8} {records : List α}
    {output : List UInt8} (hlimit : format.maxRecords < 2 ^ 16)
    (hrun : (format.serialize version records padding).run output = .ok () data) :
    readUInt16LE data 1 = .ok records.length ∧
      3 + records.length * format.record.size ≤ data.length ∧
      format.recordsAt data 3 records.length = records := by
  obtain ⟨hlength, hcount, hdata⟩ := format.serialize_eq_ok padding hrun
  obtain ⟨-, hlen⟩ := format.overwrite_bytes padding version hlength hcount
  rw [← hdata] at hlen
  have hroom : 3 + records.length * format.record.size ≤ format.LEN :=
    ListFormat.LEN_le_of_count hcount
  have hread : ListFormat.countOf data = records.length := by
    rw [hdata]
    exact format.countOf_bytes padding version (Nat.lt_of_le_of_lt hcount hlimit) _
  have hword : readUInt16LE data 1 = .ok (leValue ((data.drop 1).take 2)) :=
    readWord_ok (by omega)
  refine ⟨?_, by omega, ?_⟩
  · rw [hword, ← hread, ListFormat.countOf, List.drop_take]
  · rw [hdata]
    exact format.recordsAt_bytes padding version records _

theorem readValidators_stored {list : ValidatorStakeList} {padding : Nat → Vector UInt8 4}
    {output : List UInt8} (hrun : (list.serializeBytes padding).run output = .ok () data)
    (hdata : getAccountInfo this.validatorStakeListAccount = some data)
    (hsmall : ∀ info ∈ list.validators,
      info.balance.toNat < 2 ^ 53 ∧ info.lastUpdateEpoch.toNat < 2 ^ 53) :
    this.readValidators getAccountInfo = .ok (list.validators.map ValidatorInfo.ofRecord) := by
  obtain ⟨hcount, hroom, hrecords⟩ := readUInt16LE_count (by decide) hrun
  have hloop : (List.range list.validators.length).mapM (readValidator data) =
      .ok ((ValidatorStakeList.format.recordsAt data 3 list.validators.length).map
        ValidatorInfo.ofRecord) := by
    rw [ListFormat.recordsAt, List.map_map]
    refine mapM_ok fun i hi => ?_
    have hmem : ValidatorStakeInfo.read (data.drop (3 + i * 56)) ∈ list.validators := by
      rw [← hrecords]
      exact List.mem_map_of_mem hi
    have hlt := List.mem_range.mp hi
    have hsize : 3 + list.validators.length * 56 ≤ data.length := hroom
    exact readValidator_ok (by omega) (hsmall _ hmem)
  rw [hrecords] at hloop
  simp only [readValidators, bind_eq_ok, AccountReader.dataOf, okOr_eq_ok]
  exact ⟨data, hdata, _, hcount, hloop⟩

theorem readCreditors_stored {pool : StakePool} {list : CreditList} {poolData : Buffer}
    {output : List UInt8} (hrun : list.serializeBytes.run output = .ok () data)
    (hpool : getAccountInfo this.stakePool = some poolData) (hlength : 272 ≤ poolData.length)
    (hread : StakePool.read poolData = pool) (hdata : getAccountInfo pool.creditList = some data)
    (hsmall : ∀ record ∈ list.credits, record.tokenAmount.toNat < 2 ^ 53) :
    this.readCreditors getAccountInfo = .ok (list.credits.map Creditor.ofRecord) := by
  obtain ⟨hcount, hroom, hrecords⟩ := readUInt16LE_count (by decide) hrun
  have hstate : this.readState getAccountInfo = .ok (some (State.ofPool pool)) := by
    unfold readState
    rw [hpool]
    change (if poolData.length = 0 then _ else _) = _
    rw [if_neg (by omega), parseState_eq hlength, hread]
    rfl
  have hloop := readCreditorsFrom_ok hroom (by rwa [hrecords])
  rw [hrecords] at hloop
  simp only [readCreditors, bind_eq_ok, AccountReader.dataOf, okOr_eq_ok]
  exact ⟨_, hstate, _, rfl, data, hdata, _, hcount, hloop⟩

end TenderizeProgram

theorem StakePool.read_stored {pool : StakePool} {pad : Vector UInt8 5} {output : List UInt8}
    (hrun : (pool.serializeBytes pad).run output = .ok () data) :
    272 ≤ data.length ∧ StakePool.read data = pool := by
  have hdata : data = pool.bytes pad ++ output.drop 272 :=
    (StakePool.raw.serialize_eq_ok hrun).2
  have hsize := pool.length_bytes pad
  rw [hdata, List.length_append]
  exact ⟨by omega, pool.read_bytes pad _⟩

/-- What the program stores is what the clients read: both readers of the pool, the reader of
the validators and the reader of the creditors.  Amounts that are converted to a number are
below the largest exact one. -/
theorem client_readers_decode_stored {pool : StakePool} {pad : Vector UInt8 5}
    {validatorList : ValidatorStakeList} {padding : Nat → Vector UInt8 4}
    {creditList : CreditList} {poolOutput listOutput creditOutput : List UInt8}
    {poolData listData creditData : Buffer}
    (hpool : (pool.serializeBytes pad).run poolOutput = .ok () poolData)
    (hlist : (validatorList.serializeBytes padding).run listOutput = .ok () listData)
    (hcredits : creditList.serializeBytes.run creditOutput = .ok () creditData)
    (hvalidators : ∀ info ∈ validatorList.validators,
      info.balance.toNat < 2 ^ 53 ∧ info.lastUpdateEpoch.toNat < 2 ^ 53)
    (hamounts : ∀ record ∈ creditList.credits, record.tokenAmount.toNat < 2 ^ 53)
    {getAccountInfo : AccountReader} {this : TenderizeProgram}
    (hpoolData : getAccountInfo this.stakePool = some poolData)
    (hlistData : getAccountInfo this.validatorStakeListAccount = some listData)
    (hcreditData : getAccountInfo pool.creditList = some creditData) :
    parseState poolData = .ok (State.ofPool pool) ∧
      Web.tenderizeLayout poolData = .ok (State.ofPool pool) ∧
      this.readValidators getAccountInfo =
        .ok (validatorList.validators.map ValidatorInfo.ofRecord) ∧
      this.readCreditors getAccountInfo = .ok (creditList.credits.map Creditor.ofRecord) := by
  obtain ⟨hlength, hread⟩ := StakePool.read_stored hpool
  have hstate := parseState_eq hlength
  have hlayout := Web.tenderizeLayout_eq hlength
  rw [hread] at hstate hlayout
  exact ⟨hstate, hlayout, TenderizeProgram.readValidators_stored hlist hlistData hvalidators,
    TenderizeProgram.readCreditors_stored hcredits hpoolData hlength hread hcreditData hamounts⟩

/-- A pool with two validators and two creditors in accounts that were zeroed before. -/
theorem client_readers_decode_two :
    ∃ (poolData : Buffer) (getAccountInfo : AccountReader),
      getAccountInfo ⟨1⟩ = some poolData ∧
      parseState poolData = .ok ⟨1, ⟨8⟩, ⟨2⟩, ⟨3⟩, ⟨4⟩, ⟨5⟩, ⟨6⟩, ⟨15⟩, 7000000000, 6900000000, 21,
        100, 3⟩ ∧
      Web.tenderizeLayout poolData = parseState poolData ∧
      (TenderizeProgram.mk ⟨9⟩ ⟨1⟩ ⟨8⟩ ⟨2⟩ ⟨3⟩ ⟨4⟩ ⟨5⟩ ⟨6⟩).readValidators getAccountInfo =
        .ok [⟨⟨7⟩, 5000000000, 21, 2⟩, ⟨⟨10⟩, 0, 20, 0⟩] ∧
      (TenderizeProgram.mk ⟨9⟩ ⟨1⟩ ⟨8⟩ ⟨2⟩ ⟨3⟩ ⟨4⟩ ⟨5⟩ ⟨6⟩).readCreditors getAccountInfo =
        .ok [⟨⟨11⟩, ⟨12⟩, 300⟩, ⟨⟨13⟩, ⟨14⟩, 4000000000⟩] := by
  let pool : StakePool :=
    ⟨1, ⟨8⟩, 254, 255, ⟨2⟩, ⟨3⟩, ⟨4⟩, ⟨5⟩, ⟨6⟩, ⟨15⟩, 7000000000, 6900000000, 21, ⟨100, 3⟩⟩
  let pad : Vector UInt8 5 := Vector.replicate 5 0
  let padding : Nat → Vector UInt8 4 := fun _ => Vector.replicate 4 0
  let list : ValidatorStakeList := ⟨1, [⟨⟨7⟩, 5000000000, 21, 2⟩, ⟨⟨10⟩, 0, 20, 0⟩]⟩
  let credits : CreditList := ⟨1, [⟨⟨11⟩, ⟨12⟩, 300⟩, ⟨⟨13⟩, ⟨14⟩, 4000000000⟩]⟩
  obtain ⟨poolData, hpool⟩ :
      ∃ data, (pool.serializeBytes pad).run (List.replicate 272 0) = .ok () data :=
    ⟨_, StakePool.raw.serialize_ok (by rw [List.length_replicate]; exact le_rfl) pool pad⟩
  obtain ⟨listData, hlist⟩ : ∃ data,
      (list.serializeBytes padding).run (List.replicate ValidatorStakeList.LEN 0) = .ok () data :=
    ⟨_, ValidatorStakeList.format.serialize_ok padding 1
      (by rw [List.length_replicate]; exact le_rfl) (by decide)⟩
  obtain ⟨creditData, hcredits⟩ : ∃ data,
      credits.serializeBytes.run (List.replicate CreditList.LEN 0) = .ok () data :=
    ⟨_, CreditList.format.serialize_ok (fun _ => #v[]) 1
      (by rw [List.length_replicate]; exact le_rfl) (by decide)⟩
  let this : TenderizeProgram := ⟨⟨9⟩, ⟨1⟩, ⟨8⟩, ⟨2⟩, ⟨3⟩, ⟨4⟩, ⟨5⟩, ⟨6⟩⟩
  let reader : AccountReader := fun k =>
    if k = ⟨1⟩ then some poolData else if k = ⟨2⟩ then some listData else some creditData
  obtain ⟨hstate, hlayout, hvalidators, hcreditors⟩ :=
    client_readers_decode_stored hpool hlist hcredits (by decide) (by decide)
      (show reader this.stakePool = some poolData from rfl)
      (show reader this.validatorStakeListAccount = some listData from rfl)
      (show reader pool.creditList = some creditData from rfl)
  exact ⟨poolData, reader, rfl, hstate, hlayout.trans hstate.symm, hvalidators, hcreditors⟩

end Readers

end Tenderize
