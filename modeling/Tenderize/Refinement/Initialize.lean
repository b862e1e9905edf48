import Tenderize.Refinement.Accounts

/-!
# Initialize sets up a pool

`Initialize` does not ask for three different accounts, for the SPL token program or
for a pool address nobody used.  `FreshAccounts` is what an honest set-up provides; from
it the handler builds an empty pool.
-/

namespace Tenderize

open Support

namespace Deployment

variable (D : Deployment)

/-- The accounts of a new pool are fresh, and its derived addresses are not in use. -/
structure FreshAccounts (L : Ledger) (a : InitializeAccounts) : Prop where
  pool_data : ∃ len, (L D.poolKey).data = .zeroed len
  list_data : ∃ len, (L a.validatorStakeList.key).data = .zeroed len
  credits_data : ∃ len, (L a.creditList.key).data = .zeroed len
  list_ne_pool : a.validatorStakeList.key ≠ D.poolKey
  credits_ne_pool : a.creditList.key ≠ D.poolKey
  list_ne_credits : a.validatorStakeList.key ≠ a.creditList.key
  token_program : a.tokenProgram.key = splTokenId
  mint : ∃ m, L.HasMint a.poolMint.key m
  native_mint : ∀ m, L.HasMint nativeMintId m → m.mintAuthority = none
  reserve : (L D.reserveKey).owner = systemProgramId
  stakes : ∀ validator index, (L (D.stakeKey validator index)).owner = systemProgramId

/-- A pool nobody deposited into yet. -/
structure Fresh (s : PoolState) : Prop where
  stakeTotal : s.pool.stakeTotal = 0
  poolTotal : s.pool.poolTotal = 0
  validators : s.list.validators = []
  credits : s.creditList.credits = []
  supply : s.mint.supply = 0
  stakes : ∀ validator index, s.stakes (D.stakeKey validator index) = 0

end Deployment

variable {D : Deployment} {chain : Chain} {accounts : List AccountInfo} {L L' : Ledger}

theorem checkPoolTokens_ok {a : InitializeAccounts} {withdrawKey : Pubkey} {m : Mint}
    {t : TokenAccount} {u : Unit} (hmint : L.HasMint a.poolMint.key m)
    (hcredit : L.HasTokenAccount a.creditReserve.key t)
    (hcheck : checkPoolTokens D.programs L a withdrawKey = .ok u) :
    m.mintAuthority = some withdrawKey ∧ m.supply = 0 ∧ t.mint = a.poolMint.key ∧
      t.closeAuthority = none := by
  simp only [checkPoolTokens, bind_eq_ok, require_eq_ok, hmint.2, hcredit.2, Mint.unpack,
    TokenAccount.unpack, Except.ok.injEq] at hcheck
  obtain ⟨-, -, -, -, -, -, _, -, -, -, _, rfl, -, htokens, -, -, -, -, -, hclose, _, rfl, -,
    hauthority, hsupply⟩ := hcheck
  refine ⟨hauthority, ?_, htokens.symm, hclose⟩
  simpa using hsupply

/-- The pool record `Initialize` writes over the zeroed one. -/
def newPool (D : Deployment) (chain : Chain) (init : InitArgs) (a : InitializeAccounts) :
    StakePool :=
  { (default : StakePool) with
    version := programVersion
    owner := a.owner.key
    depositBumpSeed := (findAuthorityBumpSeed D.programs D.programId D.poolKey .deposit).2
    withdrawBumpSeed := (findAuthorityBumpSeed D.programs D.programId D.poolKey .withdraw).2
    validatorStakeList := a.validatorStakeList.key
    creditList := a.creditList.key
    poolMint := a.poolMint.key
    ownerFeeAccount := a.ownerFee.key
    creditReserve := a.creditReserve.key
    tokenProgramId := a.tokenProgram.key
    lastUpdateEpoch := chain.clock.epoch
    fee := init.fee }

/-- The call and the stores a successful `Initialize` consists of. -/
structure InitializeRun (D : Deployment) (chain : Chain) (init : InitArgs)
    (a : InitializeAccounts) (L₁ L₂ L₃ L' : Ledger) : Prop where
  pool_owner : (chain.ledger D.poolKey).owner = D.programId
  fee_le : init.fee.numerator ≤ init.fee.denominator
  tokens : checkPoolTokens D.programs chain.ledger a D.withdrawKey = .ok ()
  setOwner : ∃ sigs, D.programs.setAccountOwner splTokenId a.creditReserve.key D.withdrawKey
    a.owner.key sigs chain.ledger = .ok L₁
  store_list : store D.programId a.validatorStakeList.key
    (ValidatorStakeList.serialize ⟨ValidatorStakeList.validatorStakeListVersion, []⟩) L₁ = .ok L₂
  store_credits : store D.programId a.creditList.key
    (CreditList.serialize ⟨CreditList.VERSION, []⟩) L₂ = .ok L₃
  store_pool : store D.programId D.poolKey (StakePool.serialize (newPool D chain init a)) L₃ =
    .ok L'

theorem processInitialize_ok {init : InitArgs} {a : InitializeAccounts}
    (hparse : InitializeAccounts.parse chain accounts = .ok a)
    (hfresh : D.FreshAccounts chain.ledger a) (ha : D.Addressed accounts)
    (hrun : processInitialize D.programs D.programId init accounts chain = .ok L') :
    ∃ L₁ L₂ L₃, InitializeRun D chain init a L₁ L₂ L₃ L' := by
  simp only [processInitialize, bind_eq_ok, require_eq_ok, hparse, Except.ok.injEq] at hrun
  obtain ⟨_, rfl, -, howner, pool, hpool, -, -, -, -, _, -, -, -, _, -, -, -, -, -, -, -, -, -, -,
    hfee, _, htokens, L₁, hset, L₂, hlist, L₃, hcredits, hstore⟩ := hrun
  obtain ⟨rest, haccounts⟩ := InitializeAccounts.parse_ok hparse
  have hkey := ha.key_eq haccounts
  rw [hkey] at howner hpool htokens hset hstore
  obtain ⟨len, hzero⟩ := hfresh.pool_data
  have hdefault : pool = default := by
    rw [hzero] at hpool
    unfold StakePool.deserialize at hpool
    rw [ite_error_eq_ok] at hpool
    simpa [eq_comm] using hpool.2
  subst hdefault
  rw [hfresh.token_program] at hset
  exact ⟨L₁, L₂, L₃, howner, UInt64.not_lt.mp hfee, htokens, ⟨_, hset⟩, hlist, hcredits, hstore⟩

/-- Only the owner can write into a zeroed account. -/
theorem store_zeroed {key : Pubkey} {len : Nat}
    {write : AccountData → Except ProgramError AccountData}
    (hzero : (L key).data = .zeroed len)
    (hwrites : ∀ data, write (.zeroed len) = .ok data → data ≠ .zeroed len)
    (hstore : store D.programId key write L = .ok L') :
    (L key).owner = D.programId ∧
      ∃ data, write (.zeroed len) = .ok data ∧ L' = L.setData key data := by
  obtain ⟨data, hwrite, howner, rfl⟩ := store_eq_ok.mp hstore
  rw [hzero] at hwrite howner
  exact ⟨howner.resolve_right (hwrites data hwrite), data, hwrite, rfl⟩

theorem store_new_list {key : Pubkey} {len : Nat} {list : ValidatorStakeList}
    (hzero : (L key).data = .zeroed len)
    (hstore : store D.programId key (ValidatorStakeList.serialize list) L = .ok L') :
    (L key).owner = D.programId ∧ ValidatorStakeList.LEN ≤ len ∧
      L' = L.setData key (.validatorStakeList len list) := by
  have hserialize : ∀ data, ValidatorStakeList.serialize list (.zeroed len) = .ok data →
      ValidatorStakeList.LEN ≤ len ∧ data = .validatorStakeList len list := by
    intro data hdata
    unfold ValidatorStakeList.serialize at hdata
    rw [ite_error_eq_ok, ite_error_eq_ok] at hdata
    exact ⟨Nat.le_of_not_lt hdata.1, (Except.ok.inj hdata.2.2).symm⟩
  obtain ⟨howner, data, hdata, rfl⟩ := store_zeroed hzero (by
    intro data hdata
    rw [(hserialize data hdata).2]
    exact nofun) hstore
  obtain ⟨hlen, rfl⟩ := hserialize data hdata
  exact ⟨howner, hlen, rfl⟩

theorem store_new_credits {key : Pubkey} {len : Nat} {list : CreditList}
    (hzero : (L key).data = .zeroed len)
    (hstore : store D.programId key (CreditList.serialize list) L = .ok L') :
    (L key).owner = D.programId ∧ CreditList.LEN ≤ len ∧
      L' = L.setData key (.creditList len list) := by
  have hserialize : ∀ data, CreditList.serialize list (.zeroed len) = .ok data →
      CreditList.LEN ≤ len ∧ data = .creditList len list := by
    intro data hdata
    unfold CreditList.serialize at hdata
    rw [ite_error_eq_ok, ite_error_eq_ok] at hdata
    exact ⟨Nat.le_of_not_lt hdata.1, (Except.ok.inj hdata.2.2).symm⟩
  obtain ⟨howner, data, hdata, rfl⟩ := store_zeroed hzero (by
    intro data hdata
    rw [(hserialize data hdata).2]
    exact nofun) hstore
  obtain ⟨hlen, rfl⟩ := hserialize data hdata
  exact ⟨howner, hlen, rfl⟩

theorem store_new_pool {key : Pubkey} {len : Nat} {pool : StakePool}
    (hzero : (L key).data = .zeroed len)
    (hstore : store D.programId key (StakePool.serialize pool) L = .ok L') :
    StakePool.LEN ≤ len ∧ L' = L.setData key (.stakePool len pool) := by
  obtain ⟨data, hdata, -, rfl⟩ := store_eq_ok.mp hstore
  rw [hzero] at hdata
  unfold StakePool.serialize at hdata
  rw [ite_error_eq_ok] at hdata
  obtain ⟨hlen, hdata⟩ := hdata
  obtain rfl := Except.ok.inj hdata
  exact ⟨Nat.le_of_not_lt hlen, rfl⟩

/-- The ledger after the three stores, in terms of the one before. -/
structure NewAccounts (D : Deployment) (a : InitializeAccounts) (pool : StakePool)
    (t' : TokenAccount) (L L' : Ledger) : Prop where
  pool_account : L'.HasPool D.programId D.poolKey pool
  list_account : L'.HasList D.programId a.validatorStakeList.key
    ⟨ValidatorStakeList.validatorStakeListVersion, []⟩
  credits_account : L'.HasCredits D.programId a.creditList.key ⟨CreditList.VERSION, []⟩
  reserve_account : L'.HasTokenAccount a.creditReserve.key t'
  tokens : ∀ key m, L.HasMint key m → L'.HasMint key m
  owners : ∀ key, (L' key).owner = (L key).owner

theorem InitializeRun.newAccounts {init : InitArgs} {a : InitializeAccounts} {t t' : TokenAccount}
    {L₁ L₂ L₃ : Ledger} (hfresh : D.FreshAccounts chain.ledger a)
    (ht : chain.ledger.HasTokenAccount a.creditReserve.key t)
    (hL₁ : L₁ = chain.ledger.setData a.creditReserve.key (.tokenAccount t'))
    (hrun : InitializeRun D chain init a L₁ L₂ L₃ L') :
    NewAccounts D a (newPool D chain init a) t' chain.ledger L' := by
  obtain ⟨poolLen, hpool⟩ := hfresh.pool_data
  obtain ⟨listLen, hlist⟩ := hfresh.list_data
  obtain ⟨creditsLen, hcredits⟩ := hfresh.credits_data
  have hne : ∀ {key : Pubkey} {len : Nat}, (chain.ledger key).data = .zeroed len →
      key ≠ a.creditReserve.key := by
    rintro key len hzero rfl
    rw [ht.2] at hzero
    cases hzero
  have hlist₁ : (L₁ a.validatorStakeList.key).data = .zeroed listLen := by
    rw [hL₁, Ledger.setData_of_ne _ _ (hne hlist), hlist]
  obtain ⟨hlistOwner, hlistLen, hL₂⟩ := store_new_list hlist₁ hrun.store_list
  have hcredits₂ : (L₂ a.creditList.key).data = .zeroed creditsLen := by
    rw [hL₂, Ledger.setData_of_ne _ _ hfresh.list_ne_credits.symm, hL₁,
      Ledger.setData_of_ne _ _ (hne hcredits), hcredits]
  obtain ⟨hcreditsOwner, hcreditsLen, hL₃⟩ := store_new_credits hcredits₂ hrun.store_credits
  have hpool₃ : (L₃ D.poolKey).data = .zeroed poolLen := by
    rw [hL₃, Ledger.setData_of_ne _ _ hfresh.credits_ne_pool.symm, hL₂,
      Ledger.setData_of_ne _ _ hfresh.list_ne_pool.symm, hL₁,
      Ledger.setData_of_ne _ _ (hne hpool), hpool]
  obtain ⟨hpoolLen, hL'⟩ := store_new_pool hpool₃ hrun.store_pool
  have hpoolOwner : (L₃ D.poolKey).owner = D.programId := by
    rw [hL₃, Ledger.setData_owner, hL₂, Ledger.setData_owner, hL₁, Ledger.setData_owner]
    exact hrun.pool_owner
  have hkeeps : Keeps splTokenId L₁ L' := by
    have h₂ : Keeps splTokenId L₁ L₂ := by
      rw [hL₂]
      exact Keeps.setData _ (by rw [hlistOwner]; exact D.ne_token)
    have h₃ : Keeps splTokenId L₂ L₃ := by
      rw [hL₃]
      exact Keeps.setData _ (by rw [hcreditsOwner]; exact D.ne_token)
    have h' : Keeps splTokenId L₃ L' := by
      rw [hL']
      exact Keeps.setData _ (by rw [hpoolOwner]; exact D.ne_token)
    exact (h₂.trans h₃).trans h'
  refine
    { pool_account := ?_
      list_account := ?_
      credits_account := ?_
      reserve_account := ?_
      tokens := ?_
      owners := ?_ }
  · rw [hL']
    exact ⟨by rw [Ledger.setData_owner, hpoolOwner], poolLen, hpoolLen,
      Ledger.setData_data_same _ _ _⟩
  · unfold Ledger.HasList
    rw [hL', Ledger.setData_of_ne _ _ hfresh.list_ne_pool, hL₃,
      Ledger.setData_of_ne _ _ hfresh.list_ne_credits, hL₂, Ledger.setData_data_same,
      Ledger.setData_owner]
    exact ⟨hlistOwner, hlistLen, listLen, rfl⟩
  · unfold Ledger.HasCredits
    rw [hL', Ledger.setData_of_ne _ _ hfresh.credits_ne_pool, hL₃, Ledger.setData_data_same,
      Ledger.setData_owner]
    exact ⟨hcreditsOwner, hcreditsLen, creditsLen, rfl⟩
  · have htoken : L₁.HasTokenAccount a.creditReserve.key t' := by
      rw [hL₁]
      exact ⟨by rw [Ledger.setData_owner]; exact ht.1, Ledger.setData_data_same _ _ _⟩
    exact htoken.keeps hkeeps
  · intro key m hm
    have hm₁ : L₁.HasMint key m := by
      rw [hL₁]
      exact hm.set_other _ (hm.ne_token ht)
    exact hm₁.keeps hkeeps
  · intro key
    rw [hL', Ledger.setData_owner, hL₃, Ledger.setData_owner, hL₂, Ledger.setData_owner, hL₁,
      Ledger.setData_owner]

/-- A successful `Initialize` on fresh accounts leaves an empty pool. -/
theorem processInitialize_represents {init : InitArgs} {a : InitializeAccounts}
    (hparse : InitializeAccounts.parse chain accounts = .ok a)
    (hfresh : D.FreshAccounts chain.ledger a) (ha : D.Addressed accounts)
    (hrun : processInitialize D.programs D.programId init accounts chain = .ok L') :
    ∃ s, D.Represents L' s ∧ D.Fresh s ∧ s.pool = newPool D chain init a := by
  obtain ⟨L₁, L₂, L₃, hinit⟩ := processInitialize_ok hparse hfresh ha hrun
  obtain ⟨_, hset⟩ := hinit.setOwner
  obtain ⟨t, t', ht, -, -, htmint, -, htowner, htdelegate, htclose, hL₁⟩ :=
    D.lawful.setAccountOwner_ok hset
  obtain ⟨m, hm⟩ := hfresh.mint
  obtain ⟨hauthority, hsupply, hmint, hclose⟩ := checkPoolTokens_ok hm ht hinit.tokens
  have hnew := hinit.newAccounts hfresh ht hL₁
  have hstakes : ∀ validator index, D.stakesOf L' (D.stakeKey validator index) = 0 := by
    intro validator index
    unfold Deployment.stakesOf
    split
    · rfl
    · apply stakeLamports_of_owner
      rw [hnew.owners, hfresh.stakes]
      exact stakeProgramId_ne_system.symm
  refine ⟨⟨newPool D chain init a, ⟨ValidatorStakeList.validatorStakeListVersion, []⟩,
    ⟨CreditList.VERSION, []⟩, m, t', (L' D.reserveKey).lamports, D.stakesOf L'⟩, ?_,
    ⟨rfl, rfl, rfl, rfl, hsupply, hstakes⟩, rfl⟩
  refine
    { wired :=
        { pool_initialized := rfl
          list_initialized := show ValidatorStakeList.validatorStakeListVersion ≠ 0 by decide
          credits_initialized := show CreditList.VERSION ≠ 0 by decide
          list_ne_pool := hfresh.list_ne_pool
          credits_ne_pool := hfresh.credits_ne_pool
          list_ne_credits := hfresh.list_ne_credits
          token_program := hfresh.token_program
          withdraw_bump := D.lawful.authority_address D.poolKey .withdraw D.programId
          fee_le := hinit.fee_le
          mint_authority := hauthority
          mint_ne_native := ?_
          reserve_mint := htmint.trans hmint
          reserve_owner := htowner
          reserve_delegate := htdelegate
          reserve_close := ?_ }
      has_pool := hnew.pool_account
      has_list := hnew.list_account
      has_credits := hnew.credits_account
      has_mint := hnew.tokens _ m hm
      has_credit_reserve := hnew.reserve_account
      reserve_not_token := ?_
      reserve_eq := rfl
      stakes_eq := rfl }
  · intro hnative
    have hnone := hfresh.native_mint m (hnative ▸ hm)
    rw [hauthority] at hnone
    cases hnone
  · rcases htclose with hsame | hnone
    · exact hsame.trans hclose
    · exact hnone
  · rw [hnew.owners, hfresh.reserve]
    exact splTokenId_ne_system.symm

/-- A pool cannot be initialized twice. -/
theorem processInitialize_fails {init : InitArgs} {s : PoolState}
    (h : D.Represents chain.ledger s) (ha : D.Addressed accounts) :
    processInitialize D.programs D.programId init accounts chain ≠ .ok L' := by
  intro hrun
  simp only [processInitialize, bind_eq_ok, require_eq_ok] at hrun
  obtain ⟨a, hparse, -, -, pool, hpool, -, hnew, -⟩ := hrun
  obtain ⟨rest, haccounts⟩ := InitializeAccounts.parse_ok hparse
  obtain ⟨-, len, hlen, hdata⟩ := h.has_pool
  rw [ha.key_eq haccounts, hdata] at hpool
  unfold StakePool.deserialize at hpool
  rw [ite_error_eq_ok] at hpool
  obtain rfl := Except.ok.inj hpool.2
  exact hnew h.wired.pool_initialized

end Tenderize
