import Tenderize.Model.Storage

/-!
# What stands in the data of an account

The loops over the records of a list write the bytes of the list in one piece and read
the record at each offset, so a list that was written is the list that is read.
-/

namespace Tenderize

open Support

/-! ## Outputs -/

section Outputs

variable {α β : Type} {output : List UInt8}

theorem run_bind_ok {x : Output α} {f : α → Output β} {a : α} {output' : List UInt8}
    (h : x.run output = .ok a output') : (x >>= f).run output = (f a).run output' := by
  change EStateM.bind x f output = f a output'
  change x output = .ok a output' at h
  unfold EStateM.bind
  rw [h]

theorem onSlice_ok {write : Output Unit} {start stop : Nat} {part : List UInt8}
    (hrange : start ≤ stop ∧ stop ≤ output.length)
    (h : write.run ((output.take stop).drop start) = .ok () part) :
    (onSlice start stop write).run output = .ok () (overwrite output start part) := by
  change (if start ≤ stop ∧ stop ≤ output.length then _ else _ : Output Unit) output = _
  rw [if_pos hrange, h]
  rfl

theorem writeByte_ok {index : Nat} (h : index < output.length) (value : UInt8) :
    (writeByte index value).run output = .ok () (overwrite output index [value]) := by
  change (if index < output.length then _ else _ : Output Unit) output = _
  rw [if_pos h]
  rfl

theorem copyFromSlice_ok {source : List UInt8} (h : output.length = source.length) :
    (copyFromSlice source).run output = .ok () source := by
  change (if output.length = source.length then _ else _ : Output Unit) output = _
  rw [if_pos h]
  rfl

theorem slice_ok {start stop : Nat} (h : start ≤ stop ∧ stop ≤ output.length) :
    slice output start stop = .ok ((output.take stop).drop start) := by
  unfold slice
  rw [require, if_pos h]
  rfl

end Outputs

/-! ## Structs -/

namespace ReprC

variable {α : Type} (type : ReprC α)

theorem deserialize_ok {input : List UInt8} (h : type.size ≤ input.length) :
    type.deserialize input = .ok (type.read input) := by
  unfold deserialize
  rw [if_neg (by omega)]
  unfold load
  rw [require, if_pos h]
  rfl

theorem serialize_ok {output : List UInt8} (h : type.size ≤ output.length) (value : α)
    (pad : Vector UInt8 type.padding) :
    (type.serialize value pad).run output =
      .ok () (overwrite output 0 (type.bytes value pad)) := by
  change (if output.length < type.size then _ else _ : Output Unit) output = _
  rw [if_neg (by omega)]
  change (if type.size ≤ output.length then _ else _ : Output Unit) output = _
  rw [if_pos h]
  rfl

theorem serialize_short {output : List UInt8} (h : output.length < type.size) (value : α)
    (pad : Vector UInt8 type.padding) :
    (type.serialize value pad).run output = .error .invalidAccountData output := by
  change (if output.length < type.size then _ else _ : Output Unit) output = _
  rw [if_pos h]
  rfl

theorem serialize_eq_ok {value : α} {pad : Vector UInt8 type.padding}
    {output output' : List UInt8} (h : (type.serialize value pad).run output = .ok () output') :
    type.size ≤ output.length ∧ output' = type.bytes value pad ++ output.drop type.size := by
  have hroom : type.size ≤ output.length := by
    by_contra hno
    rw [type.serialize_short (Nat.not_le.mp hno)] at h
    cases h
  rw [type.serialize_ok hroom, overwrite_zero, type.length_bytes] at h
  exact ⟨hroom, (EStateM.Result.ok.inj h).2.symm⟩

end ReprC

/-! ## Lists -/

namespace ListFormat

variable {α : Type} (format : ListFormat α)

/-- The values at consecutive offsets. -/
def recordsAt (input : List UInt8) (start count : Nat) : List α :=
  (List.range count).map fun k => format.record.read (input.drop (start + k * format.record.size))

@[simp] theorem length_recordsAt (input : List UInt8) (start count : Nat) :
    (format.recordsAt input start count).length = count := by
  simp [recordsAt]

theorem recordsAt_succ (input : List UInt8) (start count : Nat) :
    format.recordsAt input start (count + 1) =
      format.record.read (input.drop start) ::
        format.recordsAt input (start + format.record.size) count := by
  simp only [recordsAt, List.range_succ_eq_map, List.map_cons, List.map_map, Nat.zero_mul,
    Nat.add_zero, List.cons.injEq, true_and]
  refine List.map_congr_left fun k _ => ?_
  simp only [Function.comp_apply, Nat.succ_mul]
  congr 2
  omega

theorem readRecords_ok {input : List UInt8} {count start : Nat}
    (hroom : start + count * format.record.size ≤ input.length) :
    format.readRecords input count start (start + format.record.size) =
      .ok (format.recordsAt input start count) := by
  induction count generalizing start with
  | zero => rfl
  | succ count ih =>
      rw [Nat.succ_mul] at hroom
      have hpart := slice_ok (show start ≤ start + format.record.size ∧
        start + format.record.size ≤ input.length by omega)
      have hread : format.record.read
          ((input.take (start + format.record.size)).drop start) =
          format.record.read (input.drop start) := by
        rw [List.drop_take, Nat.add_sub_cancel_left, format.record.read_take]
      have hsize : format.record.size ≤
          ((input.take (start + format.record.size)).drop start).length := by
        rw [List.length_drop, List.length_take]
        omega
      have hfirst := format.record.deserialize_ok hsize
      simp only [readRecords, bind_eq_ok, pure_eq_ok]
      refine ⟨_, hpart, _, hfirst, _, ih (by omega), ?_⟩
      rw [hread, recordsAt_succ]

variable (padding : Nat → Vector UInt8 format.record.padding)

/-- The bytes of records, the first of which stands at an offset. -/
def recordBytes : List α → Nat → List UInt8
  | [], _ => []
  | record :: records, start =>
      format.record.bytes record (padding start) ++
        recordBytes records (start + format.record.size)

@[simp] theorem length_recordBytes (records : List α) (start : Nat) :
    (format.recordBytes padding records start).length =
      records.length * format.record.size := by
  induction records generalizing start with
  | nil => simp [recordBytes]
  | cons record records ih =>
      rw [recordBytes, List.length_append, format.record.length_bytes, ih, List.length_cons,
        Nat.succ_mul]
      omega

/-- The loop writes the bytes of the records in one piece. -/
theorem writeRecords_ok {records : List α} {start : Nat} {output : List UInt8}
    (hroom : start + records.length * format.record.size ≤ output.length) :
    (format.writeRecords padding records start (start + format.record.size)).run output =
      .ok () (overwrite output start (format.recordBytes padding records start)) := by
  induction records generalizing start output with
  | nil =>
      rw [recordBytes, overwrite_nil]
      rfl
  | cons record records ih =>
      rw [List.length_cons, Nat.succ_mul] at hroom
      have hsize := format.record.length_bytes record (padding start)
      have hpart : ((output.take (start + format.record.size)).drop start).length =
          format.record.size := by
        rw [List.length_drop, List.length_take]
        omega
      have hrecord := format.record.serialize_ok hpart.ge record (padding start)
      rw [overwrite_all (by omega)] at hrecord
      have hfirst := onSlice_ok (by omega) hrecord
      have hlength : (overwrite output start
          (format.record.bytes record (padding start))).length = output.length :=
        length_overwrite (by omega)
      rw [writeRecords, run_bind_ok hfirst, ih (by omega),
        overwrite_overwrite (by omega) (by omega), recordBytes]

/-- The records that were written are read at their offsets. -/
theorem recordsAt_recordBytes (records : List α) (start : Nat) (rest : List UInt8) :
    ∀ {front : List UInt8}, front.length = start →
      format.recordsAt (front ++ format.recordBytes padding records start ++ rest) start
        records.length = records := by
  induction records generalizing start with
  | nil => exact fun _ => rfl
  | cons record records ih =>
      intro front hfront
      have hrecord := format.record.length_bytes record (padding start)
      have hfront' : (front ++ format.record.bytes record (padding start)).length =
          start + format.record.size := by
        rw [List.length_append]
        omega
      have hrest := ih (start + format.record.size) hfront'
      have hbytes : front ++ format.recordBytes padding (record :: records) start ++ rest =
          front ++ format.record.bytes record (padding start) ++
            format.recordBytes padding records (start + format.record.size) ++ rest := by
        simp [recordBytes]
      rw [List.length_cons, recordsAt_succ, hbytes, hrest, List.append_assoc, List.append_assoc,
        List.drop_left' hfront, format.record.read_bytes]

/-- The bytes of a list. -/
def bytes (version : UInt8) (records : List α) : List UInt8 :=
  version :: leBytes 2 records.length ++ format.recordBytes padding records headerLen

theorem length_bytes (version : UInt8) (records : List α) :
    (format.bytes padding version records).length =
      headerLen + records.length * format.record.size := by
  simp [bytes, headerLen]
  omega

theorem LEN_le_of_count {format : ListFormat α} {count : Nat} (h : count ≤ format.maxRecords) :
    headerLen + count * format.record.size ≤ format.LEN := by
  have hmul := Nat.mul_le_mul_left format.record.size h
  unfold LEN
  rw [Nat.mul_comm count]
  omega

/-- A list within its limit is written in one piece from the start of the output. -/
theorem serialize_ok (version : UInt8) {records : List α} {output : List UInt8}
    (hlength : format.LEN ≤ output.length) (hrecords : records.length ≤ format.maxRecords) :
    (format.serialize version records padding).run output =
      .ok () (overwrite output 0 (format.bytes padding version records)) := by
  have hroom := LEN_le_of_count hrecords
  have hheader : headerLen = 3 := rfl
  have hversion := writeByte_ok (show 0 < output.length by omega) version
  have hlength₁ : (overwrite output 0 [version]).length = output.length :=
    length_overwrite (by simp; omega)
  have hcount : (onSlice 1 3 (copyFromSlice (leBytes 2 records.length))).run
      (overwrite output 0 [version]) =
      .ok () (overwrite output 0 ([version] ++ leBytes 2 records.length)) := by
    have hslice : (((overwrite output 0 [version]).take 3).drop 1).length =
        (leBytes 2 records.length).length := by
      rw [List.length_drop, List.length_take, length_leBytes]
      omega
    have hjoin : overwrite (overwrite output 0 [version]) 1 (leBytes 2 records.length) =
        overwrite output 0 ([version] ++ leBytes 2 records.length) :=
      overwrite_overwrite rfl (by omega)
    rw [onSlice_ok (by omega) (copyFromSlice_ok hslice), hjoin]
  have hlength₂ : (overwrite output 0 ([version] ++ leBytes 2 records.length)).length =
      output.length := length_overwrite (by simp; omega)
  have hrest : headerLen + records.length * format.record.size ≤
      (overwrite output 0 ([version] ++ leBytes 2 records.length)).length := by
    omega
  have hloop := format.writeRecords_ok padding hrest
  rw [overwrite_overwrite (by simp [headerLen]) (by omega)] at hloop
  change (if output.length < format.LEN then _ else _ : Output Unit) output = _
  rw [if_neg (by omega)]
  rw [if_neg (by omega)]
  exact (run_bind_ok hversion).trans ((run_bind_ok hcount).trans hloop)

/-- What a list leaves of the output, and that it fills it no further. -/
theorem overwrite_bytes (version : UInt8) {records : List α} {output : List UInt8}
    (hlength : format.LEN ≤ output.length) (hrecords : records.length ≤ format.maxRecords) :
    overwrite output 0 (format.bytes padding version records) =
        format.bytes padding version records ++
          output.drop (headerLen + records.length * format.record.size) ∧
      (format.bytes padding version records ++
        output.drop (headerLen + records.length * format.record.size)).length =
          output.length := by
  have hroom := LEN_le_of_count hrecords
  have hbytes := format.length_bytes padding version records
  rw [overwrite_zero, hbytes, List.length_append, List.length_drop]
  exact ⟨rfl, by omega⟩

/-- Beyond its limit, or in a short output, nothing is written. -/
theorem serialize_error (version : UInt8) {records : List α} {output : List UInt8}
    (h : output.length < format.LEN ∨ format.maxRecords < records.length) :
    (format.serialize version records padding).run output =
      .error .invalidAccountData output := by
  change (if output.length < format.LEN then _ else _ : Output Unit) output = _
  by_cases hlength : output.length < format.LEN
  · rw [if_pos hlength]
    rfl
  · rw [if_neg hlength]
    change (if format.maxRecords < records.length then _ else _ : Output Unit) output = _
    rw [if_pos (h.resolve_left hlength)]
    rfl

/-- A successful write had room for the list and put it at the start of the output. -/
theorem serialize_eq_ok {version : UInt8} {records : List α} {output output' : List UInt8}
    (h : (format.serialize version records padding).run output = .ok () output') :
    format.LEN ≤ output.length ∧ records.length ≤ format.maxRecords ∧
      output' = format.bytes padding version records ++
        output.drop (headerLen + records.length * format.record.size) := by
  have hroom : format.LEN ≤ output.length ∧ records.length ≤ format.maxRecords := by
    by_contra hno
    rw [format.serialize_error padding version (by omega)] at h
    cases h
  obtain ⟨hlength, hrecords⟩ := hroom
  rw [format.serialize_ok padding version hlength hrecords,
    (format.overwrite_bytes padding version hlength hrecords).1] at h
  exact ⟨hlength, hrecords, (EStateM.Result.ok.inj h).2.symm⟩

/-- The count behind the version byte. -/
def countOf (input : List UInt8) : Nat := leValue ((input.take 3).drop 1)

theorem byteAt_zero {input : List UInt8} (h : 0 < input.length) :
    byteAt input 0 = .ok (readU8 input) := by
  cases input with
  | nil => exact absurd h (Nat.lt_irrefl 0)
  | cons byte input => rfl

/-- The version byte and the count decide what is read from an input of enough bytes. -/
theorem deserialize_eq {input : List UInt8} (h : format.LEN ≤ input.length) :
    format.deserialize input =
      if readU8 input = 0 then .ok (0, [])
      else if format.maxRecords < countOf input then .error .invalidAccountData
      else .ok (readU8 input, format.recordsAt input headerLen (countOf input)) := by
  have hheader : headerLen ≤ input.length := le_trans (Nat.le_add_right _ _) h
  have hversion := byteAt_zero (show 0 < input.length from Nat.lt_of_lt_of_le (by decide) hheader)
  have hcount := slice_ok (show 1 ≤ 3 ∧ 3 ≤ input.length from ⟨by decide, hheader⟩)
  unfold deserialize
  rw [require, if_pos (by omega)]
  change (byteAt input 0 >>= _) = _
  rw [hversion]
  change (if readU8 input = 0 then _ else _) = _
  refine if_congr Iff.rfl rfl ?_
  rw [hcount]
  change (require (¬format.maxRecords < countOf input) _ >>= _) = _
  by_cases hlimit : format.maxRecords < countOf input
  · rw [require, if_neg (by omega), if_pos hlimit]
    rfl
  · have hroom := LEN_le_of_count (Nat.not_lt.mp hlimit)
    rw [require, if_pos hlimit, if_neg hlimit]
    change (format.readRecords input (countOf input) headerLen _ >>= _) = _
    rw [format.readRecords_ok (by omega)]
    rfl

theorem deserialize_short {input : List UInt8} (h : input.length < format.LEN) :
    format.deserialize input = .error .invalidAccountData := by
  unfold deserialize
  rw [require, if_neg (by omega)]
  rfl

/-- Any input is refused, or read as a list within the limit that is empty when its version
is zero. -/
theorem deserialize_cases (input : List UInt8) :
    format.deserialize input = .error .invalidAccountData ∨
      ∃ version records, format.deserialize input = .ok (version, records) ∧
        format.LEN ≤ input.length ∧ records.length ≤ format.maxRecords ∧
        (version ≠ 0 ∨ records = []) := by
  by_cases hlength : format.LEN ≤ input.length
  · rw [format.deserialize_eq hlength]
    by_cases hversion : readU8 input = 0
    · rw [if_pos hversion]
      exact .inr ⟨0, [], rfl, hlength, Nat.zero_le _, .inr rfl⟩
    · rw [if_neg hversion]
      by_cases hlimit : format.maxRecords < countOf input
      · rw [if_pos hlimit]
        exact .inl rfl
      · rw [if_neg hlimit]
        exact .inr ⟨_, _, rfl, hlength, by simpa using hlimit, .inl hversion⟩
  · exact .inl (format.deserialize_short (Nat.not_le.mp hlength))

theorem countOf_bytes (version : UInt8) {records : List α} (h : records.length < 2 ^ 16)
    (rest : List UInt8) :
    countOf (format.bytes padding version records ++ rest) = records.length := by
  have hcount : ((format.bytes padding version records ++ rest).take 3).drop 1 =
      leBytes 2 records.length := by
    unfold bytes
    rw [List.append_assoc, List.take_left' (by simp)]
    rfl
  rw [countOf, hcount, leValue_leBytes h]

/-- The records of a list that was written stand behind its header. -/
theorem recordsAt_bytes (version : UInt8) (records : List α) (rest : List UInt8) :
    format.recordsAt (format.bytes padding version records ++ rest) headerLen records.length =
      records :=
  format.recordsAt_recordBytes padding records headerLen rest (by simp [headerLen])

/-- What was written is read, unless its version says that nothing was written. -/
theorem deserialize_bytes (version : UInt8) {records : List α} {rest : List UInt8}
    (hlength : format.LEN ≤ (format.bytes padding version records ++ rest).length)
    (hrecords : records.length ≤ format.maxRecords) (hlimit : format.maxRecords < 2 ^ 16) :
    format.deserialize (format.bytes padding version records ++ rest) =
      .ok (if version = 0 then (0, []) else (version, records)) := by
  have hread : readU8 (format.bytes padding version records ++ rest) = version := rfl
  have hcount := format.countOf_bytes padding version (Nat.lt_of_le_of_lt hrecords hlimit) rest
  rw [format.deserialize_eq hlength, hread, hcount, format.recordsAt_bytes]
  by_cases hzero : version = 0
  · rw [if_pos hzero, if_pos hzero]
  · rw [if_neg hzero, if_neg (by omega), if_neg hzero]

end ListFormat

/-! ## Decoded data

The ledger keeps the data of an account decoded.  Whatever bytes hold the decoded data,
the functions on bytes do what those on decoded data do. -/

/-- Bytes that hold the decoded data of an account: what stands in the padding and behind
the last record is open. -/
inductive AccountData.Holds : AccountData → List UInt8 → Prop
  | zeroed (len : Nat) : Holds (.zeroed len) (List.replicate len 0)
  | stakePool (pool : StakePool) (pad : Vector UInt8 5) (rest : List UInt8) :
      Holds (.stakePool (pool.bytes pad ++ rest).length pool) (pool.bytes pad ++ rest)
  | validatorStakeList (list : ValidatorStakeList) (padding : Nat → Vector UInt8 4)
      (rest : List UInt8) (h : list.validators.length ≤ maxValidators) :
      Holds
        (.validatorStakeList (ValidatorStakeList.format.bytes padding list.version
          list.validators ++ rest).length list)
        (ValidatorStakeList.format.bytes padding list.version list.validators ++ rest)
  | creditList (list : CreditList) (rest : List UInt8)
      (h : list.credits.length ≤ maxCreditRecords) :
      Holds
        (.creditList (CreditList.format.bytes (fun _ => #v[]) list.version list.credits ++
          rest).length list)
        (CreditList.format.bytes (fun _ => #v[]) list.version list.credits ++ rest)

theorem AccountData.Holds.length {data : AccountData} {bytes : List UInt8}
    (h : data.Holds bytes) : bytes.length = data.len := by
  cases h with
  | zeroed len => simp [AccountData.len]
  | stakePool pool pad rest => rfl
  | validatorStakeList list padding rest h => rfl
  | creditList list rest h => rfl

/-- A write on bytes does what a write on decoded data gives. -/
def Writes (write : Output Unit) (bytes : List UInt8) : Except ProgramError AccountData → Prop
  | .ok data => ∃ bytes', write.run bytes = .ok () bytes' ∧ data.Holds bytes'
  | .error e => write.run bytes = .error e bytes

section Decoded

variable {layouts : Layouts} {data : AccountData} {bytes : List UInt8}

theorem StakePool.serialize_writes (pool : StakePool) (pad : Vector UInt8 5)
    (h : data.Holds bytes) :
    Writes (pool.serializeBytes pad) bytes (pool.serialize data) := by
  have hlength := h.length
  have hsize := pool.length_bytes pad
  unfold StakePool.serialize
  by_cases hshort : data.len < StakePool.LEN
  · rw [if_pos hshort]
    exact StakePool.raw.serialize_short (hlength ▸ hshort) pool pad
  · rw [if_neg hshort]
    have hroom : 272 ≤ bytes.length := hlength ▸ Nat.not_lt.mp hshort
    have hwritten : overwrite bytes 0 (pool.bytes pad) = pool.bytes pad ++ bytes.drop 272 := by
      rw [overwrite_zero, hsize]
    have hlen : (pool.bytes pad ++ bytes.drop 272).length = data.len := by
      rw [List.length_append, List.length_drop]
      omega
    refine ⟨_, StakePool.raw.serialize_ok hroom pool pad, ?_⟩
    change AccountData.Holds _ (overwrite bytes 0 (pool.bytes pad))
    rw [hwritten, ← hlen]
    exact .stakePool pool pad _

theorem StakePool.deserialize_holds {len : Nat} {pool : StakePool}
    (h : (AccountData.stakePool len pool).Holds bytes) :
    StakePool.deserializeBytes bytes =
      StakePool.deserialize layouts (.stakePool len pool) := by
  cases h with
  | stakePool _ pad rest =>
      have hlen : ¬(AccountData.stakePool (pool.bytes pad ++ rest).length pool).len <
          StakePool.LEN := by
        change ¬(pool.bytes pad ++ rest).length < 272
        rw [List.length_append, pool.length_bytes]
        omega
      rw [StakePool.deserialize, if_neg hlen]
      unfold StakePool.deserializeBytes
      rw [StakePool.raw.deserialize_ok (Nat.not_lt.mp hlen)]
      exact congrArg _ (pool.read_bytes pad rest)

/-- The two lists differ in their records and in how the ledger keeps them. -/
theorem ListFormat.serialize_writes {α : Type} (format : ListFormat α) (version : UInt8)
    (records : List α) (padding : Nat → Vector UInt8 format.record.padding)
    (keep : Nat → AccountData)
    (hkeep : records.length ≤ format.maxRecords → ∀ rest,
      (keep (format.bytes padding version records ++ rest).length).Holds
        (format.bytes padding version records ++ rest))
    (h : data.Holds bytes) :
    Writes (format.serialize version records padding) bytes
      (if data.len < format.LEN then .error .invalidAccountData
      else if records.length > format.maxRecords then .error .invalidAccountData
      else .ok (keep data.len)) := by
  have hlength := h.length
  by_cases hshort : data.len < format.LEN
  · rw [if_pos hshort]
    exact format.serialize_error padding _ (.inl (hlength ▸ hshort))
  · rw [if_neg hshort]
    by_cases hlimit : records.length > format.maxRecords
    · rw [if_pos hlimit]
      exact format.serialize_error padding _ (.inr hlimit)
    · rw [if_neg hlimit]
      have hroom : format.LEN ≤ bytes.length := hlength ▸ Nat.not_lt.mp hshort
      have hrecords := Nat.not_lt.mp hlimit
      obtain ⟨hwritten, hlen⟩ := format.overwrite_bytes padding version hroom hrecords
      refine ⟨_, format.serialize_ok padding version hroom hrecords, ?_⟩
      rw [hwritten, ← hlength, ← hlen]
      exact hkeep hrecords _

theorem ValidatorStakeList.serialize_writes (list : ValidatorStakeList)
    (padding : Nat → Vector UInt8 4) (h : data.Holds bytes) :
    Writes (list.serializeBytes padding) bytes (list.serialize data) :=
  format.serialize_writes list.version list.validators padding (.validatorStakeList · list)
    (fun hrecords rest => .validatorStakeList list padding rest hrecords) h

theorem CreditList.serialize_writes (list : CreditList) (h : data.Holds bytes) :
    Writes list.serializeBytes bytes (list.serialize data) :=
  format.serialize_writes list.version list.credits (fun _ => #v[]) (.creditList · list)
    (fun hrecords rest => .creditList list rest hrecords) h

theorem ValidatorStakeList.deserialize_holds {len : Nat} {list : ValidatorStakeList}
    (h : (AccountData.validatorStakeList len list).Holds bytes) :
    ValidatorStakeList.deserializeBytes bytes =
      ValidatorStakeList.deserialize layouts (.validatorStakeList len list) := by
  cases h with
  | validatorStakeList _ padding rest hrecords =>
      unfold ValidatorStakeList.deserialize ValidatorStakeList.deserializeBytes
      by_cases hshort : (format.bytes padding list.version list.validators ++ rest).length <
          ValidatorStakeList.LEN
      · rw [format.deserialize_short hshort]
        exact (if_pos hshort).symm
      · have hread := format.deserialize_bytes padding list.version (Nat.not_lt.mp hshort)
          hrecords (by decide)
        rw [hread, if_neg (show ¬AccountData.len _ < _ from hshort)]
        by_cases hversion : list.version = 0
        · simp [hversion, pure, Except.pure, Bind.bind, Except.bind]
        · simp [hversion, Nat.not_lt.mpr hrecords, pure, Except.pure, Bind.bind, Except.bind]

theorem CreditList.deserialize_holds {len : Nat} {list : CreditList}
    (h : (AccountData.creditList len list).Holds bytes) :
    CreditList.deserializeBytes bytes =
      CreditList.deserialize layouts (.creditList len list) := by
  cases h with
  | creditList _ rest hrecords =>
      unfold CreditList.deserialize CreditList.deserializeBytes
      by_cases hshort : (format.bytes (fun _ => #v[]) list.version list.credits ++
          rest).length < CreditList.LEN
      · rw [format.deserialize_short hshort]
        exact (if_pos hshort).symm
      · have hread := format.deserialize_bytes (fun _ => #v[]) list.version
          (Nat.not_lt.mp hshort) hrecords (by decide)
        rw [hread, if_neg (show ¬AccountData.len _ < _ from hshort)]
        by_cases hversion : list.version = 0
        · simp [hversion, pure, Except.pure, Bind.bind, Except.bind]
        · simp [hversion, Nat.not_lt.mpr hrecords, pure, Except.pure, Bind.bind, Except.bind]

end Decoded

end Tenderize
