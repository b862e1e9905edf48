import Tenderize.Reference.Pool
import Tenderize.Refinement.Initialize
import Tenderize.Refinement.Storage

/-!
# What Initialize leaves behind

`Initialize` writes three accounts one after the other and does not ask whether they
are three accounts.
-/

namespace Tenderize

open Support

variable {P : Programs} {programId : Pubkey} {init : InitArgs} {chain : Chain}
  {accounts : List AccountInfo} {a : InitializeAccounts} {L' : Ledger}

/-- The three accounts of a new pool: different ones that decode as an empty pool with the
keys it was given, an empty validator list and an empty credit list. -/
structure WellFormedPool (P : Programs) (a : InitializeAccounts) (L : Ledger) : Prop where
  list_ne_pool : a.validatorStakeList.key ≠ a.stakePool.key
  credits_ne_pool : a.creditList.key ≠ a.stakePool.key
  list_ne_credits : a.validatorStakeList.key ≠ a.creditList.key
  pool : ∃ pool, StakePool.deserialize P.layouts (L a.stakePool.key).data = .ok pool ∧
    pool.isInitialized = true ∧ pool.fee.numerator ≤ pool.fee.denominator ∧
    pool.stakeTotal = 0 ∧ pool.poolTotal = 0 ∧ pool.owner = a.owner.key ∧
    pool.validatorStakeList = a.validatorStakeList.key ∧ pool.creditList = a.creditList.key ∧
    pool.poolMint = a.poolMint.key ∧ pool.ownerFeeAccount = a.ownerFee.key ∧
    pool.creditReserve = a.creditReserve.key ∧ pool.tokenProgramId = a.tokenProgram.key
  list : ∃ list, ValidatorStakeList.deserialize P.layouts (L a.validatorStakeList.key).data =
    .ok list ∧ list.isInitialized = true ∧ list.validators = []
  credits : ∃ list, CreditList.deserialize P.layouts (L a.creditList.key).data = .ok list ∧
    list.isInitialized = true ∧ list.credits = []

/-! ## Stores -/

section Stores

variable {key : Pubkey} {L : Ledger}

/-- A stored list is read back, whatever the account held. -/
theorem store_list_read {list : ValidatorStakeList} (hversion : list.version ≠ 0)
    (hstore : store programId key (ValidatorStakeList.serialize list) L = .ok L') :
    ValidatorStakeList.deserialize P.layouts (L' key).data = .ok list ∧
      ∀ k ≠ key, L' k = L k := by
  obtain ⟨data, hdata, -, rfl⟩ := store_eq_ok.mp hstore
  unfold ValidatorStakeList.serialize at hdata
  rw [ite_error_eq_ok, ite_error_eq_ok] at hdata
  obtain ⟨hlen, hcount, hdata⟩ := hdata
  obtain rfl := Except.ok.inj hdata
  refine ⟨?_, fun k hk => L.setData_of_ne _ hk⟩
  rw [Ledger.setData_data_same]
  refine (if_neg hlen).trans ?_
  simp [hversion, hcount]

theorem store_credits_read {list : CreditList} (hversion : list.version ≠ 0)
    (hstore : store programId key (CreditList.serialize list) L = .ok L') :
    CreditList.deserialize P.layouts (L' key).data = .ok list ∧ ∀ k ≠ key, L' k = L k := by
  obtain ⟨data, hdata, -, rfl⟩ := store_eq_ok.mp hstore
  unfold CreditList.serialize at hdata
  rw [ite_error_eq_ok, ite_error_eq_ok] at hdata
  obtain ⟨hlen, hcount, hdata⟩ := hdata
  obtain rfl := Except.ok.inj hdata
  refine ⟨?_, fun k hk => L.setData_of_ne _ hk⟩
  rw [Ledger.setData_data_same]
  refine (if_neg hlen).trans ?_
  simp [hversion, hcount]

theorem store_pool_read {pool : StakePool}
    (hstore : store programId key (StakePool.serialize pool) L = .ok L') :
    StakePool.deserialize P.layouts (L' key).data = .ok pool ∧ ∀ k ≠ key, L' k = L k := by
  obtain ⟨data, hdata, -, rfl⟩ := store_eq_ok.mp hstore
  unfold StakePool.serialize at hdata
  rw [ite_error_eq_ok] at hdata
  obtain ⟨hlen, hdata⟩ := hdata
  obtain rfl := Except.ok.inj hdata
  refine ⟨?_, fun k hk => L.setData_of_ne _ hk⟩
  rw [Ledger.setData_data_same]
  exact if_neg hlen

end Stores

/-- Read as a list, a pool has the first two bytes of its owner for a count. -/
theorem StakePool.countOf_bytes (pool : StakePool) (pad : Vector UInt8 5) (rest : List UInt8) :
    ListFormat.countOf (pool.bytes pad ++ rest) = leValue (pool.owner.toBytes.take 2) := by
  unfold ListFormat.countOf StakePool.bytes
  rw [List.append_assoc, List.cons_append, List.take_succ_cons, List.drop_succ_cons,
    List.drop_zero, List.take_append_of_le_length (by simp)]

/-- A successful `Initialize` of a zero-filled pool account sets up a pool exactly when it was
given three different accounts. -/
theorem initialize_wellFormed_iff (hparse : InitializeAccounts.parse chain accounts = .ok a)
    (hfresh : ∃ len, (chain.ledger a.stakePool.key).data = .zeroed len)
    (hrun : processInitialize P programId init accounts chain = .ok L') :
    WellFormedPool P a L' ↔
      a.validatorStakeList.key ≠ a.stakePool.key ∧ a.creditList.key ≠ a.stakePool.key ∧
        a.validatorStakeList.key ≠ a.creditList.key := by
  refine ⟨fun h => ⟨h.list_ne_pool, h.credits_ne_pool, h.list_ne_credits⟩, ?_⟩
  rintro ⟨hlp, hcp, hlc⟩
  simp only [processInitialize, bind_eq_ok, require_eq_ok, hparse, Except.ok.injEq] at hrun
  obtain ⟨_, rfl, -, -, pool, hpool, -, -, -, -, _, -, -, -, _, -, -, -, -, -, -, -, -, -, -,
    hfee, _, -, L₁, -, L₂, hlist, L₃, hcredits, hstore⟩ := hrun
  obtain ⟨len, hzero⟩ := hfresh
  have hdefault : pool = default := by
    rw [hzero] at hpool
    unfold StakePool.deserialize at hpool
    rw [ite_error_eq_ok] at hpool
    simpa [eq_comm] using hpool.2
  subst hdefault
  obtain ⟨hlist, -⟩ := store_list_read (P := P)
    (show ValidatorStakeList.validatorStakeListVersion ≠ 0 by decide) hlist
  obtain ⟨hcredits, hframe₃⟩ := store_credits_read (P := P)
    (show CreditList.VERSION ≠ 0 by decide) hcredits
  obtain ⟨hpool', hframe⟩ := store_pool_read (P := P) hstore
  refine ⟨hlp, hcp, hlc, ⟨_, hpool', rfl, UInt64.not_lt.mp hfee, rfl, rfl, rfl, rfl, rfl, rfl, rfl,
    rfl, rfl⟩, ⟨⟨ValidatorStakeList.validatorStakeListVersion, []⟩, ?_, rfl, rfl⟩,
    ⟨⟨CreditList.VERSION, []⟩, ?_, rfl, rfl⟩⟩
  · rw [hframe _ hlp, hframe₃ _ hlc]
    exact hlist
  · rw [hframe _ hcp]
    exact hcredits

section

open Reference

theorem initialize_wellFormed_start :
    ∃ L', processInitialize programs Reference.programId ⟨⟨100, 1⟩⟩ initAccounts start = .ok L' ∧
      WellFormedPool programs
        ⟨plain poolKey, signer ownerKey, plain listKey, plain creditListKey, plain mintKey,
          plain feeKey, plain creditReserveKey, plain clockId, plain rentId, plain splTokenId⟩
        L' := by
  have hok : (processInitialize programs Reference.programId ⟨⟨100, 1⟩⟩ initAccounts
      start).isOk = true := by
    decide +kernel
  cases hrun : processInitialize programs Reference.programId ⟨⟨100, 1⟩⟩ initAccounts start with
  | error e =>
      rw [hrun] at hok
      cases hok
  | ok L' =>
      exact ⟨L', rfl, (initialize_wellFormed_iff rfl ⟨_, rfl⟩ hrun).mpr
        ⟨by decide, by decide, by decide⟩⟩

/-! One account in the place of all three. -/

/-- An owner whose key does not start with zero bytes. -/
def aliasOwner : Pubkey := ⟨BitVec.allOnes 256⟩

def aliasStart : Chain where
  ledger := ((startLedger.set poolKey ⟨1000000000, Reference.programId,
    .zeroed CreditList.LEN⟩).set aliasOwner (wallet 1000000000000)).set creditReserveKey
      { creditReserveAccount with
        data := .tokenAccount
          { mint := mintKey
            owner := aliasOwner
            amount := 0
            delegate := none
            state := .initialized
            isNative := none
            delegatedAmount := 0
            closeAuthority := none
            native_iff := mintKey_not_native } }
  clock := ⟨0⟩
  rent := start.rent

def aliasAccounts : InitializeAccounts :=
  ⟨plain poolKey, signer aliasOwner, plain poolKey, plain poolKey, plain mintKey, plain feeKey,
    plain creditReserveKey, plain clockId, plain rentId, plain splTokenId⟩

/-- The pool that is written last. -/
def aliasPool : StakePool :=
  { (default : StakePool) with
    version := 1
    owner := aliasOwner
    depositBumpSeed := (findAuthorityBumpSeed programs Reference.programId poolKey .deposit).2
    withdrawBumpSeed := (findAuthorityBumpSeed programs Reference.programId poolKey .withdraw).2
    validatorStakeList := poolKey
    creditList := poolKey
    poolMint := mintKey
    ownerFeeAccount := feeKey
    creditReserve := creditReserveKey
    tokenProgramId := splTokenId
    fee := ⟨100, 1⟩ }

/-- `Initialize` succeeds with one account in the three places, and the bytes of the pool that
were written last are not a validator list. -/
theorem initialize_aliased :
    ∃ L', processInitialize programs Reference.programId ⟨⟨100, 1⟩⟩
        [plain poolKey, signer aliasOwner, plain poolKey, plain poolKey, plain mintKey,
          plain feeKey, plain creditReserveKey, plain clockId, plain rentId, plain splTokenId]
        aliasStart = .ok L' ∧
      (∃ len, (L' poolKey).data = .stakePool len aliasPool) ∧
      (∀ bytes, (L' poolKey).data.Holds bytes →
        ValidatorStakeList.deserializeBytes bytes = .error .invalidAccountData) ∧
      ¬WellFormedPool programs aliasAccounts L' := by
  have hok : (processInitialize programs Reference.programId ⟨⟨100, 1⟩⟩
      [plain poolKey, signer aliasOwner, plain poolKey, plain poolKey, plain mintKey,
        plain feeKey, plain creditReserveKey, plain clockId, plain rentId, plain splTokenId]
      aliasStart).map (fun L => (L poolKey).data) =
        .ok (.stakePool CreditList.LEN aliasPool) := by
    decide +kernel
  obtain ⟨L', hrun, hdata⟩ := map_eq_ok.mp hok
  refine ⟨L', hrun, ⟨_, hdata⟩, ?_, fun h => h.list_ne_pool rfl⟩
  intro bytes hbytes
  rw [hdata] at hbytes
  generalize hlen : CreditList.LEN = len at hbytes
  cases hbytes with
  | stakePool _ pad rest =>
      have hroom : ValidatorStakeList.format.LEN ≤ (aliasPool.bytes pad ++ rest).length := by
        rw [← hlen]
        decide
      have hversion : readU8 (aliasPool.bytes pad ++ rest) ≠ 0 :=
        show (1 : UInt8) ≠ 0 by decide
      have hcount : ListFormat.countOf (aliasPool.bytes pad ++ rest) = 65535 := by
        rw [aliasPool.countOf_bytes]
        decide +kernel
      unfold ValidatorStakeList.deserializeBytes
      rw [ListFormat.deserialize_eq _ hroom, if_neg hversion, hcount, if_pos (by decide)]
      rfl

end

end Tenderize
