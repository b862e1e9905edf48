import Tenderize.Properties.Sessions

/-!
# A pool that the client created

`createStakePool` makes the accounts of a pool and initializes them in one transaction.  If it
gets through, a run begins there, the client is set up for the pool, and it reads back a pool
that is empty and has the fee that was asked for.
-/

namespace Tenderize

open Support

variable {D : Deployment} {P : Programs} {network : Network} {payer : Pubkey}
  {this : TenderizeProgram} {c c' : Chain} {signatures : List Pubkey} {L L' : Ledger}

/-! ## New accounts -/

/-- Accounts that were not in use were given to a program, with zeroed space. -/
structure Created (programId : Pubkey) (new : List (Pubkey × Nat)) (L L' : Ledger) : Prop where
  unused : ∀ key ∈ new.map Prod.fst, (L key).owner = systemProgramId
  nodup : (new.map Prod.fst).Nodup
  account : ∀ x ∈ new, (L' x.1).owner = programId ∧ (L' x.1).data = .zeroed x.2
  others : ∀ key, key ∉ new.map Prod.fst →
    (L' key).owner = (L key).owner ∧ (L' key).data = (L key).data

theorem Created.nil (programId : Pubkey) (L : Ledger) : Created programId [] L L where
  unused _ hkey := absurd hkey List.not_mem_nil
  nodup := List.nodup_nil
  account _ hx := absurd hx List.not_mem_nil
  others _ _ := ⟨rfl, rfl⟩

theorem Created.cons {source key programId : Pubkey} {n : UInt64} {space : Nat}
    {new : List (Pubkey × Nat)} {L₁ : Ledger} (hne : programId ≠ systemProgramId)
    (hP : P.Lawful)
    (hcreate : P.createAccount source key n space programId signatures L = .ok L₁)
    (h : Created programId new L₁ L') : Created programId ((key, space) :: new) L L' := by
  obtain ⟨-, -, -, -, hunused, -, rfl⟩ := hP.createAccount_ok hcreate
  have hkey : key ∉ new.map Prod.fst := by
    intro hmem
    have howner := h.unused key hmem
    rw [Ledger.assign_same] at howner
    exact hne howner
  have hothers : ∀ k, k ≠ key →
      (((L.moveLamports source key n).assign key programId space) k).owner = (L k).owner ∧
        (((L.moveLamports source key n).assign key programId space) k).data = (L k).data := by
    intro k hk
    rw [Ledger.assign_of_ne _ _ _ hk, L.moveLamports_owner, L.moveLamports_data]
    exact ⟨rfl, rfl⟩
  constructor
  · intro k hk
    rcases List.mem_cons.mp hk with rfl | hk
    · exact hunused
    · rw [← (hothers k (fun heq => hkey (heq ▸ hk))).1]
      exact h.unused k hk
  · exact List.nodup_cons.mpr ⟨hkey, h.nodup⟩
  · intro x hx
    rcases List.mem_cons.mp hx with rfl | hx
    · rw [(h.others key hkey).1, (h.others key hkey).2, Ledger.assign_same]
      exact ⟨rfl, rfl⟩
    · exact h.account x hx
  · intro k hk
    rw [List.map_cons, List.mem_cons, not_or] at hk
    obtain ⟨howner, hdata⟩ := h.others k hk.2
    obtain ⟨howner', hdata'⟩ := hothers k hk.1
    exact ⟨howner.trans howner', hdata.trans hdata'⟩

/-- A transaction that first creates accounts. -/
theorem executeAll_created (hne : this.programId ≠ systemProgramId) (hP : P.Lawful) {rent : Rent}
    {items : List TransactionItem} (new : List (Pubkey × Nat)) :
    ∀ {c : Chain}, executeAll P signatures
        (new.map (fun x => this.newAccount payer rent x.1 x.2) ++ items) c = .ok c' →
      ∃ L, Created this.programId new c.ledger L ∧
        executeAll P signatures items { c with ledger := L } = .ok c' := by
  induction new with
  | nil => exact fun {c} hrun => ⟨c.ledger, .nil _ _, hrun⟩
  | cons x new ih =>
      intro c hrun
      simp only [List.map_cons, List.cons_append, executeAll, bind_eq_ok] at hrun
      obtain ⟨L₁, hcreate, hrest⟩ := hrun
      obtain ⟨L, hcreated, hitems⟩ := ih hrest
      exact ⟨L, .cons hne hP hcreate hcreated, hitems⟩

/-! ## The instruction -/

namespace TenderizeProgram

def createKeys (this : TenderizeProgram) : List AccountInfo :=
  [plainKey this.stakePool, signerKey this.owner, plainKey this.validatorStakeListAccount,
    plainKey this.creditListAccount, plainKey this.poolMintToken, plainKey this.ownersFee,
    plainKey this.creditReserve, plainKey clockId, plainKey rentId, plainKey splTokenId]

theorem writeWord_range {width : Nat} {low high value : Int} {data data' : Buffer} {p p' : Nat}
    (h : writeWord width low high data value p = .ok (data', p')) : low ≤ value ∧ value < high := by
  simp only [writeWord, bind_eq_ok, require_eq_ok] at h
  obtain ⟨-, ⟨hlow, hhigh, -⟩, -⟩ := h
  exact ⟨hlow, hhigh⟩

/-- What is built asks for the fee, which fits into words. -/
theorem createStakePoolInstruction_eq_ok {params : CreateStakePoolParams}
    {tx : TransactionInstruction} (h : this.createStakePoolInstruction params = .ok tx) :
    (0 ≤ params.feeDenominator ∧ params.feeDenominator < 2 ^ 64) ∧
      (0 ≤ params.feeNumerator ∧ params.feeNumerator < 2 ^ 64) ∧
      tx.programId = this.programId ∧ tx.keys = this.createKeys ∧
      StakePoolInstruction.deserialize tx.data =
        .ok (.initializePool ⟨⟨word64 params.feeDenominator, word64 params.feeNumerator⟩⟩) := by
  have hbuild := h
  simp only [createStakePoolInstruction, bind_eq_ok, pure_eq_ok, Prod.exists] at h
  obtain ⟨_, _, htag, _, _, hfirst, _, _, hsecond, rfl⟩ := h
  obtain ⟨hden, hden'⟩ := writeWord_range hfirst
  obtain ⟨hnum, hnum'⟩ := writeWord_range hsecond
  refine ⟨⟨hden, hden'⟩, ⟨hnum, hnum'⟩, rfl, rfl, ?_⟩
  obtain ⟨tx, htx, hdata⟩ :=
    this.createStakePoolInstruction_written ⟨hden, hden'⟩ ⟨hnum, hnum'⟩
  obtain rfl := Except.ok.inj (hbuild.symm.trans htx)
  rw [hdata]
  exact deserialize_fee (by omega) (by omega)

end TenderizeProgram

/-! ## The pool -/

/-- What the client relies on: the mint was created for the pool, nobody mints wrapped lamports,
and the addresses derived for the pool are not in use. -/
structure Deployment.Unused (D : Deployment) (mint : Pubkey) (L : Ledger) : Prop where
  mint : ∃ m, L.HasMint mint m
  native_mint : ∀ m, L.HasMint nativeMintId m → m.mintAuthority = none
  reserve : (L D.reserveKey).owner = systemProgramId
  stakes : ∀ validator index, (L (D.stakeKey validator index)).owner = systemProgramId

namespace TenderizeProgram

/-- The accounts that the transaction creates. -/
def newAccounts (this : TenderizeProgram) : List (Pubkey × Nat) :=
  [(this.stakePool, stakePoolLength), (this.validatorStakeListAccount, validatorStakeListLength),
    (this.creditListAccount, creditListLength)]

/-- The keys that the client signs with. -/
def createSigners (this : TenderizeProgram) (payer : Pubkey) : List Pubkey :=
  [payer, this.owner, this.stakePool, this.validatorStakeListAccount, this.creditListAccount]

/-- The transaction that the session sends. -/
theorem createStakePool_sent {params : CreateStakePoolParams}
    (h : this.createStakePool P network payer params c = .ok () c') :
    ∃ tx, this.createStakePoolInstruction params = .ok tx ∧
      executeAll P (this.createSigners payer)
        (this.newAccounts.map (fun x => this.newAccount payer c.rent x.1 x.2) ++ [.program tx]) c =
        .ok c' := by
  obtain ⟨c₀, c₁, hget, h⟩ := run_bind_eq_ok.mp h
  obtain ⟨hc₀, hc₁⟩ := EStateM.Result.ok.inj hget
  subst hc₀ hc₁
  obtain ⟨tx, _, hask, hsend⟩ := run_bind_eq_ok.mp h
  obtain ⟨hbuild, rfl⟩ := Network.ask_eq_ok.mp hask
  obtain ⟨-, -, hrun⟩ := Network.sendAndConfirmTransaction_eq_ok.mp hsend
  exact ⟨tx, hbuild, hrun⟩

/-- The accounts of the instruction, with the signatures of the transaction. -/
def createAccounts (this : TenderizeProgram) (payer : Pubkey) : List AccountInfo :=
  TransactionItem.accounts (this.createSigners payer) this.createKeys

/-- A transaction that got through created the accounts and initialized the pool. -/
theorem createStakePool_executed {params : CreateStakePoolParams} (hP : P.Lawful)
    (hne : this.programId ≠ systemProgramId)
    (h : this.createStakePool P network payer params c = .ok () c') :
    ∃ L L', Created this.programId this.newAccounts c.ledger L ∧
      dispatch P this.programId
        (.initializePool ⟨⟨word64 params.feeDenominator, word64 params.feeNumerator⟩⟩)
        (this.createAccounts payer) { c with ledger := L } = .ok L' ∧
      c' = { c with ledger := L' } := by
  obtain ⟨tx, hbuild, hrun⟩ := createStakePool_sent h
  obtain ⟨L, hcreated, hrun⟩ := executeAll_created hne hP this.newAccounts hrun
  obtain ⟨-, -, htx, hinfos, hdecode⟩ := createStakePoolInstruction_eq_ok hbuild
  simp only [executeAll, TransactionItem.execute, process, bind_eq_ok, Except.ok.injEq, htx,
    hinfos, hdecode] at hrun
  obtain ⟨L', ⟨_, rfl, hdispatch⟩, rfl⟩ := hrun
  exact ⟨L, L', hcreated, hdispatch, rfl⟩

theorem createAccounts_parse {a : InitializeAccounts}
    (h : InitializeAccounts.parse c (this.createAccounts payer) = .ok a) :
    a.owner.key = this.owner ∧ a.validatorStakeList.key = this.validatorStakeListAccount ∧
      a.creditList.key = this.creditListAccount ∧ a.poolMint.key = this.poolMintToken ∧
      a.tokenProgram.key = splTokenId := by
  obtain ⟨rest, haccounts⟩ := InitializeAccounts.parse_ok h
  simp only [createAccounts, TransactionItem.accounts, createKeys, List.map_cons,
    List.cons.injEq] at haccounts
  obtain ⟨-, howner, hlist, hcredits, hmint, -, -, -, -, htoken, -⟩ := haccounts
  exact ⟨by rw [← howner]; rfl, by rw [← hlist]; rfl, by rw [← hcredits]; rfl,
    by rw [← hmint]; rfl, by rw [← htoken]; rfl⟩

variable (hpool : this.stakePool = D.poolKey)
  (hkeys : ∀ key ∈ this.createSigners payer, ¬D.programs.IsProgramAddress D.programId key)

include hpool hkeys

theorem freshAccounts_of_created {a : InitializeAccounts} (hunused : D.Unused this.poolMintToken L)
    (hcreated : Created this.programId this.newAccounts L L')
    (hlist : a.validatorStakeList.key = this.validatorStakeListAccount)
    (hcredits : a.creditList.key = this.creditListAccount)
    (hmint : a.poolMint.key = this.poolMintToken) (htoken : a.tokenProgram.key = splTokenId) :
    D.FreshAccounts L' a := by
  have hnodup := hcreated.nodup
  simp only [newAccounts, List.map_cons, List.map_nil, List.nodup_cons, List.mem_cons,
    List.not_mem_nil, or_false, not_or] at hnodup
  obtain ⟨⟨hpl, hpc⟩, hlc, -⟩ := hnodup
  have hdata := hcreated.account
  simp only [newAccounts, List.forall_mem_cons, List.not_mem_nil] at hdata
  obtain ⟨⟨-, hpoolData⟩, ⟨-, hlistData⟩, ⟨-, hcreditsData⟩, -⟩ := hdata
  have hsub : this.newAccounts.map Prod.fst ⊆ this.createSigners payer := by
    simp [newAccounts, createSigners]
  -- nobody has the key of a derived address
  have hderived : ∀ key, D.programs.IsProgramAddress D.programId key →
      (L' key).owner = (L key).owner :=
    fun key hkey => (hcreated.others key fun hmem => hkeys key (hsub hmem) hkey).1
  obtain ⟨m, hm⟩ := hunused.mint
  have hmint' : L'.HasMint this.poolMintToken m := by
    obtain ⟨howner, hdata⟩ := hcreated.others this.poolMintToken (fun hmem => by
      have hsystem := hcreated.unused _ hmem
      rw [hm.1] at hsystem
      exact splTokenId_ne_system hsystem)
    exact ⟨howner.trans hm.1, hdata.trans hm.2⟩
  refine
    { pool_data := ⟨_, hpool ▸ hpoolData⟩
      list_data := ⟨_, hlist ▸ hlistData⟩
      credits_data := ⟨_, hcredits ▸ hcreditsData⟩
      list_ne_pool := by rw [hlist, ← hpool]; exact Ne.symm hpl
      credits_ne_pool := by rw [hcredits, ← hpool]; exact Ne.symm hpc
      list_ne_credits := by rw [hlist, hcredits]; exact hlc
      token_program := htoken
      mint := ⟨m, hmint.symm ▸ hmint'⟩
      native_mint := ?_
      reserve := ?_
      stakes := ?_ }
  · rintro m ⟨howner, hdata⟩
    have hnew : nativeMintId ∉ this.newAccounts.map Prod.fst := by
      intro hmem
      obtain ⟨x, hx, hxkey⟩ := List.mem_map.mp hmem
      have hzero := (hcreated.account x hx).2
      rw [hxkey, hdata] at hzero
      cases hzero
    obtain ⟨howner', hdata'⟩ := hcreated.others _ hnew
    exact hunused.native_mint m ⟨howner'.symm.trans howner, hdata'.symm.trans hdata⟩
  · rw [hderived _ D.reserveKey_isProgramAddress]
    exact hunused.reserve
  · intro validator index
    rw [hderived _ (D.stakeKey_isProgramAddress validator index)]
    exact hunused.stakes validator index

theorem createAccounts_addressed : D.Addressed (this.createAccounts payer) := by
  have hsigners : ∀ key ∈ signers this.createKeys, key ∈ this.createSigners payer := by
    simp [signers, createKeys, createSigners, signerKey, plainKey]
  unfold createAccounts
  unfold createKeys at hsigners ⊢
  rw [hpool] at hsigners ⊢
  exact TransactionItem.accounts_addressed hkeys hsigners

/-- A transaction that got through left a pool that was just initialized. -/
theorem createStakePool_genesis {params : CreateStakePoolParams}
    (hprogram : this.programId = D.programId) (hunused : D.Unused this.poolMintToken c.ledger)
    (h : this.createStakePool D.programs network payer params c = .ok () c') :
    D.Genesis c' ∧ ∃ s, D.Represents c'.ledger s ∧ D.Fresh s ∧ this.Serves D s.pool ∧
      s.pool.fee = ⟨word64 params.feeDenominator, word64 params.feeNumerator⟩ := by
  have hne : this.programId ≠ systemProgramId := by
    rw [hprogram]
    exact D.ne_system
  obtain ⟨L, L', hcreated, hdispatch, rfl⟩ := createStakePool_executed D.lawful hne h
  rw [hprogram] at hdispatch
  obtain ⟨a, hparse, -⟩ := bind_eq_ok.mp
    (show processInitialize D.programs D.programId _ _ _ = _ from hdispatch)
  obtain ⟨howner, hlist, hcredits, hmint, htoken⟩ := createAccounts_parse hparse
  have hfresh := freshAccounts_of_created hpool hkeys hunused hcreated hlist hcredits hmint htoken
  have haddressed := createAccounts_addressed hpool hkeys
  obtain ⟨s, hs, hempty, hnew⟩ := processInitialize_represents hparse hfresh haddressed hdispatch
  refine ⟨⟨_, _, _, a, hparse, hfresh, haddressed, hdispatch⟩, s, hs, hempty, ?_, ?_⟩
  · rw [hnew]
    exact ⟨hprogram, hpool, howner.symm, hlist.symm, hcredits.symm, hmint.symm⟩
  · rw [hnew]
    rfl

end TenderizeProgram

/-- What the client reads of a pool that it just created. -/
structure TenderizeProgram.ReadsNewPool (this : TenderizeProgram) (params : CreateStakePoolParams)
    (getAccountInfo : AccountReader) : Prop where
  state : ∃ state, this.readState getAccountInfo = .ok (some state) ∧ state.version ≠ 0 ∧
    state.owner = this.owner ∧ state.stakeTotal = 0 ∧ state.poolTotal = 0 ∧
    (state.feeDenominator : Int) = params.feeDenominator ∧
    (state.feeNumerator : Int) = params.feeNumerator
  validators : this.readValidators getAccountInfo = .ok []
  creditors : this.readCreditors getAccountInfo = .ok []

theorem toNat_word64 {n : Int} (hlow : 0 ≤ n) (hhigh : n < 2 ^ 64) :
    ((word64 n).toNat : Int) = n := by
  unfold word64
  rw [UInt64.toNat_ofNat_of_lt' (by simpa using (by omega : n.toNat < 2 ^ 64))]
  omega

/-- Where `createStakePool` gets through, a run of the system begins, and the client serves the
new pool and reads it back. -/
theorem createStakePool_opens {params : CreateStakePoolParams}
    (hprogram : this.programId = D.programId) (hpool : this.stakePool = D.poolKey)
    (hkeys : ∀ key ∈ this.createSigners payer, ¬D.programs.IsProgramAddress D.programId key)
    (hunused : D.Unused this.poolMintToken c.ledger)
    (h : this.createStakePool D.programs network payer params c = .ok () c') :
    D.Genesis c' ∧ this.Serves D (D.stateOf c'.ledger).pool ∧
      params.feeNumerator ≤ params.feeDenominator ∧
      ∀ getAccountInfo : AccountReader, getAccountInfo.Shows c'.ledger →
        this.ReadsNewPool params getAccountInfo := by
  obtain ⟨hgenesis, s, hs, hempty, hserves, hfee⟩ :=
    TenderizeProgram.createStakePool_genesis hpool hkeys hprogram hunused h
  obtain ⟨tx, hbuild, -⟩ := TenderizeProgram.createStakePool_sent h
  obtain ⟨⟨hden, hden'⟩, ⟨hnum, hnum'⟩, -⟩ :=
    TenderizeProgram.createStakePoolInstruction_eq_ok hbuild
  have hdenominator := toNat_word64 hden hden'
  have hnumerator := toNat_word64 hnum hnum'
  rw [← hs.eq_stateOf]
  refine ⟨hgenesis, hserves, ?_, fun getAccountInfo hshows => ?_⟩
  · have hle := UInt64.le_iff_toNat_le.mp hs.wired.fee_le
    rw [hfee] at hle
    change (word64 params.feeNumerator).toNat ≤ (word64 params.feeDenominator).toNat at hle
    omega
  · have hstate := TenderizeProgram.readState_represented hs hshows hpool
    have hvalidators := TenderizeProgram.readValidators_represented hs hshows
      (by rw [hempty.validators]; exact Nat.zero_le _) hserves.list
    have hcreditors := TenderizeProgram.readCreditors_represented hs hshows
      (by rw [hempty.credits]; exact Nat.zero_le _) hpool
    rw [hempty.validators, List.map_nil] at hvalidators
    rw [hempty.credits, List.map_nil] at hcreditors
    refine ⟨⟨_, hstate, ?_, hserves.owner.symm, ?_, ?_, ?_, ?_⟩, hvalidators, hcreditors⟩
    · exact (UInt8.lt_iff_toNat_lt.mp (of_decide_eq_true hs.wired.pool_initialized)).ne'
    · change s.pool.stakeTotal.toNat = 0
      rw [hempty.stakeTotal]
      rfl
    · change s.pool.poolTotal.toNat = 0
      rw [hempty.poolTotal]
      rfl
    · change (s.pool.fee.denominator.toNat : Int) = _
      rw [hfee]
      exact hdenominator
    · change (s.pool.fee.numerator.toNat : Int) = _
      rw [hfee]
      exact hnumerator

section

open Reference

/-- The accounts of the pool do not exist yet. -/
def vacant : Chain :=
  { start with
    ledger := fun key =>
      if key ∈ [poolKey, listKey, creditListKey] then wallet 0 else startLedger key }

theorem vacant_of_address {key : Pubkey} (h : 2 ^ 255 ≤ key.bits.toNat) :
    (vacant.ledger key).owner = systemProgramId := by
  change (if _ then wallet 0 else startLedger key).owner = _
  rw [startLedger_of_address h, ite_self]
  rfl

theorem vacant_unused : deployment.Unused mintKey vacant.ledger where
  mint := ⟨⟨some withdrawKey, 0⟩, rfl, rfl⟩
  native_mint m hm := by
    have hnot : (vacant.ledger nativeMintId).owner ≠ splTokenId := by decide
    exact absurd hm.1 hnot
  reserve := vacant_of_address (authorityAddress_ge poolKey .reserve)
  stakes validator index := by
    refine vacant_of_address ?_
    have haddress := stakeAddress_toNat validator poolKey index
    change 2 ^ 255 ≤ (stakeAddress validator poolKey index).bits.toNat
    omega

theorem createStakePool_opens_vacant :
    ∃ c', ownerClient.createStakePool programs node userKey ⟨100, 3⟩ vacant = .ok () c' ∧
      deployment.Genesis c' ∧
      ownerClient.ReadsNewPool ⟨100, 3⟩ (node.connection c').reader := by
  have hsent : EStateM.run' (ownerClient.createStakePool programs node userKey ⟨100, 3⟩) vacant =
      some () := by
    decide +kernel
  have hkeys : ∀ key ∈ ownerClient.createSigners userKey,
      ¬deployment.programs.IsProgramAddress deployment.programId key := by
    intro key hkey
    have hsmall : ∀ key ∈ ownerClient.createSigners userKey, key.bits.toNat < 2 ^ 255 := by decide
    exact not_isProgramAddress (hsmall key hkey)
  cases hrun : ownerClient.createStakePool programs node userKey ⟨100, 3⟩ vacant with
  | error e c' =>
      unfold EStateM.run' EStateM.run at hsent
      rw [hrun] at hsent
      cases hsent
  | ok u c' =>
      obtain ⟨hgenesis, -, -, hreads⟩ :=
        createStakePool_opens rfl rfl hkeys vacant_unused hrun
      exact ⟨c', rfl, hgenesis, hreads _ (node_shows c')⟩

end

end Tenderize
