import Tenderize.Model.Session
import Tenderize.Support.Stateful
import Tenderize.Properties.Storage
import Tenderize.Properties.Encoding
import Tenderize.Refinement.Runs

/-!
# What the admin client reads and sends

A node shows the bytes of the accounts, from which the client reads the records of the pool,
and a transaction that gets through is a step of a run.
-/

namespace Tenderize

open Support

/-! ## Reading -/

/-- Accounts are shown with the bytes that hold their data. -/
def AccountReader.Shows (getAccountInfo : AccountReader) (L : Ledger) : Prop :=
  ∀ key bytes, (L key).data.Holds bytes → bytes ≠ [] →
    ∃ stored, getAccountInfo key = some stored ∧ (L key).data.Holds stored

def Network.Shows (network : Network) : Prop :=
  ∀ c, (network.connection c).reader.Shows c.ledger

/-- A record as the client lists it; what became a number may have been rounded. -/
def ValidatorInfo.ofStored (info : ValidatorStakeInfo) : ValidatorInfo :=
  ⟨info.validatorAccount, numberOfBigInt info.balance.toNat,
    numberOfBigInt info.lastUpdateEpoch.toNat, info.stakeCount.toNat⟩

def Creditor.ofStored (record : CreditRecord) : Creditor :=
  ⟨record.solTarget, record.cancelAuthority, numberOfBigInt record.tokenAmount.toNat⟩

section Bytes

variable {α : Type} (format : ListFormat α) (padding : Nat → Vector UInt8 format.record.padding)
  (version : UInt8) {records : List α} {rest : List UInt8}

/-- Storing a list where it is stored changes nothing. -/
theorem ListFormat.serialize_stored
    (hlength : format.LEN ≤ (format.bytes padding version records ++ rest).length)
    (hrecords : records.length ≤ format.maxRecords) :
    (format.serialize version records padding).run (format.bytes padding version records ++ rest) =
      .ok () (format.bytes padding version records ++ rest) := by
  rw [format.serialize_ok padding version hlength hrecords, overwrite_zero, List.drop_left]

/-- Bytes of any length that is enough. -/
theorem ListFormat.exists_rest {len : Nat} (hlength : format.LEN ≤ len)
    (hrecords : records.length ≤ format.maxRecords) :
    ∃ rest : List UInt8, (format.bytes padding version records ++ rest).length = len := by
  have hroom := ListFormat.LEN_le_of_count hrecords
  refine ⟨List.replicate (len - (format.bytes padding version records).length) 0, ?_⟩
  rw [List.length_append, List.length_replicate, format.length_bytes]
  omega

end Bytes

namespace TenderizeProgram

variable {data : Buffer} {getAccountInfo : AccountReader} {this : TenderizeProgram}

theorem readValidator_stored {i : Nat} (hroom : 3 + (i + 1) * 56 ≤ data.length) :
    readValidator data i =
      .ok (ValidatorInfo.ofStored (ValidatorStakeInfo.read (data.drop (3 + i * 56)))) := by
  have hbase : 3 + (32 + 8 + 8 + 8) * i = 3 + i * 56 := by omega
  have hbalance := readBigUInt64LE_ok (show 3 + i * 56 + 32 + 8 ≤ data.length by omega)
  have hepoch := readBigUInt64LE_ok (show 3 + i * 56 + 32 + 8 + 8 ≤ data.length by omega)
  have hcount := readUInt32LE_ok (show 3 + i * 56 + 32 + 8 + 8 + 4 ≤ data.length by omega)
  simp only [readValidator, hbase, bind_eq_ok, pure_eq_ok]
  refine ⟨_, newPublicKey_slice data _, _, hbalance, _, hepoch, _, hcount, ?_⟩
  simp only [ValidatorInfo.ofStored, ValidatorStakeInfo.read, List.drop_drop]

theorem readCreditorsFrom_stored {count p : Nat} (hroom : p + count * 72 ≤ data.length) :
    readCreditorsFrom data count p =
      .ok ((CreditList.format.recordsAt data p count).map Creditor.ofStored) := by
  induction count generalizing p with
  | zero => rfl
  | succ count ih =>
      rw [ListFormat.recordsAt_succ]
      have hamount := readBigUInt64LE_ok (show p + 32 + 32 + 8 ≤ data.length by omega)
      have hcreditors := ih (show p + 72 + count * 72 ≤ data.length by omega)
      simp only [readCreditorsFrom, bind_eq_ok, pure_eq_ok]
      refine ⟨_, newPublicKey_slice data _, _, newPublicKey_slice data _, _, hamount, _,
        hcreditors, ?_⟩
      change _ = Creditor.ofStored (CreditRecord.read (data.drop p)) :: _
      simp only [Creditor.ofStored, CreditRecord.read, List.drop_drop]
      rfl

section Represented

variable {D : Deployment} {L : Ledger} {s : PoolState} (h : D.Represents L s)
  (hshows : getAccountInfo.Shows L)

include h hshows

theorem readState_represented (hthis : this.stakePool = D.poolKey) :
    this.readState getAccountInfo = .ok (some (State.ofPool s.pool)) := by
  obtain ⟨-, len, hlen, hdata⟩ := h.has_pool
  have hsize := s.pool.length_bytes (Vector.replicate 5 0)
  have hLEN : StakePool.LEN = 272 := rfl
  have hholds := AccountData.Holds.stakePool s.pool (Vector.replicate 5 0)
    (List.replicate (len - 272) 0)
  have hlength : (s.pool.bytes (Vector.replicate 5 0) ++
      List.replicate (len - 272) (0 : UInt8)).length = len := by
    rw [List.length_append, hsize, List.length_replicate]
    omega
  rw [hlength, ← hdata] at hholds
  obtain ⟨stored, hstored, hbytes⟩ := hshows _ _ hholds
    (List.ne_nil_of_length_pos (by rw [hlength]; omega))
  rw [hdata] at hbytes
  unfold readState
  rw [hthis, hstored]
  change (if stored.length = 0 then _ else _) = _
  have hread : StakePool.read stored = s.pool ∧ stored.length = len := by
    generalize hx : AccountData.stakePool len s.pool = x at hbytes
    cases hbytes with
    | stakePool pool pad rest =>
        obtain ⟨hlen', rfl⟩ := AccountData.stakePool.inj hx
        exact ⟨s.pool.read_bytes pad rest, hlen'.symm⟩
    | _ => cases hx
  rw [if_neg (by omega), parseState_eq (by omega), hread.1]
  rfl

theorem readValidators_represented (hroom : s.list.validators.length ≤ maxValidators)
    (hthis : this.validatorStakeListAccount = s.pool.validatorStakeList) :
    this.readValidators getAccountInfo =
      .ok (s.list.validators.map ValidatorInfo.ofStored) := by
  obtain ⟨-, hlen, len, hdata⟩ := h.has_list
  rw [hdata] at hlen
  change ValidatorStakeList.LEN ≤ len at hlen
  have hpos : 0 < ValidatorStakeList.LEN := by decide
  obtain ⟨rest, hrest⟩ := ValidatorStakeList.format.exists_rest
    (fun _ => Vector.replicate 4 0) s.list.version hlen hroom
  have hholds := AccountData.Holds.validatorStakeList s.list (fun _ => Vector.replicate 4 0) rest
    hroom
  rw [hrest, ← hdata] at hholds
  obtain ⟨stored, hstored, hbytes⟩ := hshows _ _ hholds
    (List.ne_nil_of_length_pos (by rw [hrest]; omega))
  rw [hdata] at hbytes
  obtain ⟨padding, hrun⟩ : ∃ padding, (s.list.serializeBytes padding).run stored =
      .ok () stored := by
    generalize hx : AccountData.validatorStakeList len s.list = x at hbytes
    cases hbytes with
    | validatorStakeList list padding rest hcount =>
        obtain ⟨hlen', rfl⟩ := AccountData.validatorStakeList.inj hx
        exact ⟨padding, ValidatorStakeList.format.serialize_stored padding s.list.version
          (by rw [← hlen']; exact hlen) hcount⟩
    | _ => cases hx
  obtain ⟨hcount, hsize, hrecords⟩ := readUInt16LE_count (by decide) hrun
  have hloop : (List.range s.list.validators.length).mapM (readValidator stored) =
      .ok ((ValidatorStakeList.format.recordsAt stored 3 s.list.validators.length).map
        ValidatorInfo.ofStored) := by
    rw [ListFormat.recordsAt, List.map_map]
    refine mapM_ok fun i hi => ?_
    have hlt := List.mem_range.mp hi
    have hroom' : 3 + s.list.validators.length * 56 ≤ stored.length := hsize
    exact readValidator_stored (by omega)
  rw [hrecords] at hloop
  simp only [readValidators, bind_eq_ok, AccountReader.dataOf, okOr_eq_ok, hthis]
  exact ⟨stored, hstored, _, hcount, hloop⟩

theorem readCreditors_represented (hroom : s.creditList.credits.length ≤ maxCreditRecords)
    (hthis : this.stakePool = D.poolKey) :
    this.readCreditors getAccountInfo = .ok (s.creditList.credits.map Creditor.ofStored) := by
  have hstate := readState_represented h hshows hthis
  obtain ⟨-, hlen, len, hdata⟩ := h.has_credits
  rw [hdata] at hlen
  change CreditList.LEN ≤ len at hlen
  have hpos : 0 < CreditList.LEN := by decide
  obtain ⟨rest, hrest⟩ := CreditList.format.exists_rest (fun _ => #v[]) s.creditList.version
    hlen hroom
  have hholds := AccountData.Holds.creditList s.creditList rest hroom
  rw [hrest, ← hdata] at hholds
  obtain ⟨stored, hstored, hbytes⟩ := hshows _ _ hholds
    (List.ne_nil_of_length_pos (by rw [hrest]; omega))
  rw [hdata] at hbytes
  have hrun : s.creditList.serializeBytes.run stored = .ok () stored := by
    generalize hx : AccountData.creditList len s.creditList = x at hbytes
    cases hbytes with
    | creditList list rest hcount =>
        obtain ⟨hlen', rfl⟩ := AccountData.creditList.inj hx
        exact CreditList.format.serialize_stored (fun _ => #v[]) s.creditList.version
          (by rw [← hlen']; exact hlen) hcount
    | _ => cases hx
  obtain ⟨hcount, hsize, hrecords⟩ := readUInt16LE_count (by decide) hrun
  have hloop := readCreditorsFrom_stored hsize
  rw [hrecords] at hloop
  simp only [readCreditors, bind_eq_ok, AccountReader.dataOf, okOr_eq_ok]
  exact ⟨_, hstate, _, rfl, stored, hstored, _, hcount, hloop⟩

end Represented

end TenderizeProgram

/-! ## Sending -/

/-- The client was set up for the pool. -/
structure TenderizeProgram.Serves (this : TenderizeProgram) (D : Deployment) (pool : StakePool) :
    Prop where
  programId : this.programId = D.programId
  stakePool : this.stakePool = D.poolKey
  owner : this.owner = pool.owner
  list : this.validatorStakeListAccount = pool.validatorStakeList
  credits : this.creditListAccount = pool.creditList
  mint : this.poolMintToken = pool.poolMint

/-- The transaction with this instruction fits into a packet. -/
def Network.Fits (network : Network) (instruction : Except JsError TransactionInstruction) : Prop :=
  ∀ tx, instruction = .ok tx → network.fits [.program tx] = true

section Sending

variable {D : Deployment} {network : Network} {c c' : Chain} {signatures : List Pubkey}

theorem Network.ask_eq_ok {α : Type} {question : Connection → Except JsError α} {answer : α} :
    network.ask question c = .ok answer c' ↔
      question (network.connection c) = .ok answer ∧ c' = c := by
  unfold Network.ask
  split
  · next a ha =>
      rw [ha, Except.ok.injEq, EStateM.Result.ok.injEq, eq_comm (a := c)]
  · next e he => simp [he]

variable (network) in
theorem Network.ask_final {α : Type} (question : Connection → Except JsError α) (c : Chain) :
    finalState (network.ask question c) = c := by
  unfold Network.ask
  split <;> rfl

theorem Network.sendAndConfirmTransaction_eq_ok {P : Programs} {items : List TransactionItem} :
    network.sendAndConfirmTransaction P items signatures c = .ok () c' ↔
      (∀ item ∈ items, ∀ key ∈ item.required, key ∈ signatures) ∧ network.fits items = true ∧
        executeAll P signatures items c = .ok c' := by
  have hsigned : (items.all fun item => item.required.all (· ∈ signatures)) = true ↔
      ∀ item ∈ items, ∀ key ∈ item.required, key ∈ signatures := by
    simp only [List.all_eq_true, decide_eq_true_eq]
  unfold Network.sendAndConfirmTransaction
  rw [← hsigned]
  split
  · next hno => exact iff_of_false nofun (fun h => hno h.1)
  · next hyes =>
      split
      · next hno => exact iff_of_false nofun (fun h => hno h.2.1)
      · next hfits =>
          rw [not_not] at hyes hfits
          rw [iff_true_intro hyes, iff_true_intro hfits, true_and, true_and]
          cases executeAll P signatures items c with
          | ok c'' => simp
          | error e => simp

theorem Network.sendAndConfirmTransaction_error {P : Programs} {items : List TransactionItem}
    {e : JsError} (h : network.sendAndConfirmTransaction P items signatures c = .error e c') :
    c' = c := by
  unfold Network.sendAndConfirmTransaction at h
  split at h
  · exact (EStateM.Result.error.inj h).2.symm
  · split at h
    · exact (EStateM.Result.error.inj h).2.symm
    · split at h
      · cases h
      · exact (EStateM.Result.error.inj h).2.symm

theorem TenderizeProgram.send_eq_ok {P : Programs}
    {instruction : Connection → Except JsError TransactionInstruction} :
    send P network instruction signatures c = .ok () c' ↔
      ∃ tx, instruction (network.connection c) = .ok tx ∧
        (∀ key ∈ signers tx.keys, key ∈ signatures) ∧ network.fits [.program tx] = true ∧
        ∃ L, process P tx.programId (TransactionItem.accounts signatures tx.keys) tx.data c =
          .ok L ∧ c' = { c with ledger := L } := by
  simp only [TenderizeProgram.send, run_bind_eq_ok, Network.ask_eq_ok,
    Network.sendAndConfirmTransaction_eq_ok, List.forall_mem_singleton, executeAll, bind_eq_ok,
    Except.ok.injEq]
  constructor
  · rintro ⟨tx, _, ⟨htx, rfl⟩, hsigned, hfits, L, hrun, rfl⟩
    exact ⟨tx, htx, hsigned, hfits, L, hrun, rfl⟩
  · rintro ⟨tx, htx, hsigned, hfits, L, hrun, rfl⟩
    exact ⟨tx, c, ⟨htx, rfl⟩, hsigned, hfits, L, hrun, rfl⟩

/-- A transaction that failed changed nothing. -/
theorem TenderizeProgram.send_error {P : Programs} {e : JsError}
    {instruction : Connection → Except JsError TransactionInstruction}
    (h : send P network instruction signatures c = .error e c') : c' = c := by
  unfold send at h
  cases hask : network.ask instruction c with
  | error e' t =>
      rw [run_bind_of_error hask] at h
      obtain ⟨-, rfl⟩ := EStateM.Result.error.inj h
      have hfinal := network.ask_final instruction c
      rw [hask] at hfinal
      exact hfinal
  | ok tx t =>
      obtain ⟨-, rfl⟩ := Network.ask_eq_ok.mp hask
      rw [run_bind_of_ok hask] at h
      exact Network.sendAndConfirmTransaction_error h

theorem Network.fits_ok {tx : TransactionInstruction} :
    network.Fits (.ok tx) ↔ network.fits [.program tx] = true := by
  unfold Network.Fits
  simp

/-- An instruction that can be built and signed is sent if it fits, and then executed. -/
theorem TenderizeProgram.send_built {P : Programs} {tx : TransactionInstruction}
    {instruction : Connection → Except JsError TransactionInstruction}
    (hbuild : instruction (network.connection c) = .ok tx)
    (hsigned : ∀ key ∈ signers tx.keys, key ∈ signatures) :
    send P network instruction signatures c = .ok () c' ↔
      network.Fits (.ok tx) ∧
        ∃ L, process P tx.programId (TransactionItem.accounts signatures tx.keys) tx.data c =
          .ok L ∧ c' = { c with ledger := L } := by
  rw [TenderizeProgram.send_eq_ok, Network.fits_ok]
  constructor
  · rintro ⟨tx', htx, -, hfits, hrun⟩
    obtain rfl := Except.ok.inj (hbuild.symm.trans htx)
    exact ⟨hfits, hrun⟩
  · rintro ⟨hfits, hrun⟩
    exact ⟨tx, hbuild, hsigned, hfits, hrun⟩

/-- A transaction gets through if it fits and the program executes it. -/
theorem exists_sent_iff {session : Session Unit} {fits : Prop} {executes : Ledger → Prop}
    (hsend : ∀ c', session c = .ok () c' ↔ fits ∧ ∃ L, executes L ∧ c' = { c with ledger := L }) :
    (∃ c', session c = .ok () c') ↔ (∃ L, executes L) ∧ fits := by
  constructor
  · rintro ⟨c', hrun⟩
    obtain ⟨hfits, L, hL, -⟩ := (hsend c').mp hrun
    exact ⟨⟨L, hL⟩, hfits⟩
  · rintro ⟨⟨L, hL⟩, hfits⟩
    exact ⟨_, (hsend _).mpr ⟨hfits, L, hL, rfl⟩⟩

/-- What the client sends is addressed to its pool. -/
theorem TransactionItem.accounts_addressed {rest : List AccountInfo}
    (hsigned : ∀ key ∈ signatures, ¬D.programs.IsProgramAddress D.programId key)
    (hkeys : ∀ key ∈ signers (plainKey D.poolKey :: rest), key ∈ signatures) :
    D.Addressed (TransactionItem.accounts signatures (plainKey D.poolKey :: rest)) := by
  refine ⟨⟨_, _, rfl, rfl⟩, ?_⟩
  intro info hinfo hsigner
  obtain ⟨entry, hentry, rfl⟩ := List.mem_map.mp hinfo
  rw [Bool.or_eq_true, decide_eq_true_eq] at hsigner
  apply hsigned
  rcases hsigner with hsigner | hsigner
  · exact hkeys _ (List.mem_map.mpr ⟨entry, List.mem_filter.mpr ⟨hentry, hsigner⟩, rfl⟩)
  · exact hsigner

theorem signers_plainKey (keys : List Pubkey) : signers (keys.map plainKey) = [] := by
  simp [signers, plainKey, List.filter_map, Function.comp_def]

/-- Anybody who is not an address of the program may pay for an instruction. -/
theorem TransactionItem.accounts_paid {payer : Pubkey}
    (hpayer : ¬D.programs.IsProgramAddress D.programId payer) (keys : List Pubkey) :
    D.Addressed (TransactionItem.accounts [payer] ((D.poolKey :: keys).map plainKey)) := by
  refine TransactionItem.accounts_addressed ?_ ?_
  · rw [List.forall_mem_singleton]
    exact hpayer
  · rw [← List.map_cons, signers_plainKey]
    exact fun _ hkey => absurd hkey List.not_mem_nil

end Sending

/-! ## A node of the reference network -/

/-- Bytes that hold the data of an account, with zeros wherever they are open. -/
def AccountData.stored : AccountData → Buffer
  | .zeroed len => List.replicate len 0
  | .stakePool len pool =>
      pool.bytes (Vector.replicate 5 0) ++ List.replicate (len - 272) 0
  | .validatorStakeList len list =>
      let bytes := ValidatorStakeList.format.bytes (fun _ => Vector.replicate 4 0) list.version
        list.validators
      bytes ++ List.replicate (len - bytes.length) 0
  | .creditList len list =>
      let bytes := CreditList.format.bytes (fun _ => Vector.replicate 0 0) list.version list.credits
      bytes ++ List.replicate (len - bytes.length) 0
  | _ => []

/-- Where a list fills an account to some length, other bytes of it and zeros do so too. -/
theorem length_append_zeros {bytes bytes' rest : List UInt8} (h : bytes'.length = bytes.length) :
    (bytes' ++ List.replicate ((bytes ++ rest).length - bytes'.length) 0).length =
      (bytes ++ rest).length := by
  rw [List.length_append, List.length_replicate, List.length_append]
  omega

theorem AccountData.Holds.stored {data : AccountData} {bytes : List UInt8} (h : data.Holds bytes) :
    data.Holds data.stored := by
  cases h with
  | zeroed len => exact .zeroed len
  | stakePool pool pad rest =>
      have hlength : (pool.bytes (Vector.replicate 5 0)).length = (pool.bytes pad).length := by
        rw [pool.length_bytes, pool.length_bytes]
      have hholds := AccountData.Holds.stakePool pool (Vector.replicate 5 0)
        (List.replicate ((pool.bytes pad ++ rest).length - 272) 0)
      have hsame : (pool.bytes (Vector.replicate 5 0) ++ List.replicate
          ((pool.bytes pad ++ rest).length - (pool.bytes (Vector.replicate 5 0)).length) 0).length =
          (pool.bytes pad ++ rest).length := length_append_zeros hlength
      rw [pool.length_bytes (Vector.replicate 5 0)] at hsame
      rw [hsame] at hholds
      exact hholds
  | validatorStakeList list padding rest hcount =>
      have hlength : (ValidatorStakeList.format.bytes (fun _ => Vector.replicate 4 0) list.version
          list.validators).length = (ValidatorStakeList.format.bytes padding list.version
          list.validators).length :=
        (ValidatorStakeList.format.length_bytes _ _ _).trans
          (ValidatorStakeList.format.length_bytes _ _ _).symm
      have hholds := AccountData.Holds.validatorStakeList list (fun _ => Vector.replicate 4 0)
        (List.replicate ((ValidatorStakeList.format.bytes padding list.version list.validators ++
          rest).length - (ValidatorStakeList.format.bytes (fun _ => Vector.replicate 4 0)
          list.version list.validators).length) 0) hcount
      rw [length_append_zeros hlength] at hholds
      exact hholds
  | creditList list rest hcount =>
      have hholds := AccountData.Holds.creditList list
        (List.replicate ((CreditList.format.bytes (fun _ => #v[]) list.version list.credits ++
          rest).length - (CreditList.format.bytes (fun _ => #v[]) list.version
          list.credits).length) 0) hcount
      rw [length_append_zeros rfl] at hholds
      exact hholds

namespace Reference

/-- A node that shows every account; any transaction fits, and nobody asks for activations. -/
def node : Network where
  connection c :=
    { getAccountInfo := fun key =>
        some ⟨(c.ledger key).owner, (c.ledger key).lamports.toNat, (c.ledger key).data.stored⟩
      getStakeActivation := fun _ => .error .typeError }
  voteAccounts _ := [validatorKey]
  epoch c := c.clock.epoch.toNat
  fits _ := true

theorem node_shows : node.Shows :=
  fun _ _ _ hholds _ => ⟨_, rfl, hholds.stored⟩

theorem node_fits (instruction : Except JsError TransactionInstruction) :
    node.Fits instruction :=
  fun _ _ => rfl

/-- The keys of a pool that a client is set up with. -/
def clientKeys (pool : StakePool) : List Pubkey :=
  [pool.owner, pool.validatorStakeList, pool.creditList, pool.poolMint]

theorem ownerClient_serves {pool : StakePool}
    (h : clientKeys pool = [ownerKey, listKey, creditListKey, mintKey]) :
    ownerClient.Serves deployment pool := by
  simp only [clientKeys, List.cons.injEq, and_true] at h
  obtain ⟨howner, hlist, hcredits, hmint⟩ := h
  exact ⟨rfl, rfl, howner.symm, hlist.symm, hcredits.symm, hmint.symm⟩

end Reference

end Tenderize
