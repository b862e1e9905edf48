import Tenderize.Spec.State

/-!
# Updates of the pool state

How the writes of the processor and of the programs it calls move a represented
ledger to the ledger of an updated `PoolState`.
-/

namespace Tenderize

open Support

/-- The second record refers to the same accounts under the same terms. -/
structure StakePool.SameWiring (pool pool' : StakePool) : Prop where
  version : pool.version = pool'.version
  withdrawBumpSeed : pool.withdrawBumpSeed = pool'.withdrawBumpSeed
  validatorStakeList : pool.validatorStakeList = pool'.validatorStakeList
  creditList : pool.creditList = pool'.creditList
  poolMint : pool.poolMint = pool'.poolMint
  creditReserve : pool.creditReserve = pool'.creditReserve
  tokenProgramId : pool.tokenProgramId = pool'.tokenProgramId
  fee : pool.fee = pool'.fee

namespace PoolState

/-- The token account at `key` was written. -/
def putToken (s : PoolState) (key : Pubkey) (account : TokenAccount) : PoolState :=
  { s with creditReserve := if key = s.pool.creditReserve then account else s.creditReserve }

/-- The mint at `key` was written. -/
def putMint (s : PoolState) (key : Pubkey) (mint : Mint) : PoolState :=
  { s with mint := if key = s.pool.poolMint then mint else s.mint }

/-- Lamports moved: the reserve and the stakes are counted again. -/
def recount (s : PoolState) (D : Deployment) (L : Ledger) : PoolState :=
  { s with reserve := (L D.reserveKey).lamports, stakes := D.stakesOf L }

end PoolState

namespace Ledger

variable {programId key : Pubkey} {L L' : Ledger}

theorem HasPool.keeps {pool : StakePool} (h : L.HasPool programId key pool)
    (hk : Keeps programId L L') : L'.HasPool programId key pool := by
  obtain ⟨howner, len, hlen, hdata⟩ := h
  obtain ⟨howner', hdata'⟩ := hk key howner
  exact ⟨howner', len, hlen, hdata'.trans hdata⟩

theorem HasList.keeps {list : ValidatorStakeList} (h : L.HasList programId key list)
    (hk : Keeps programId L L') : L'.HasList programId key list := by
  obtain ⟨howner, hlen, hdata⟩ := h
  obtain ⟨howner', hdata'⟩ := hk key howner
  refine ⟨howner', ?_, ?_⟩
  · rw [hdata']
    exact hlen
  · rw [hdata']
    exact hdata

theorem HasCredits.keeps {list : CreditList} (h : L.HasCredits programId key list)
    (hk : Keeps programId L L') : L'.HasCredits programId key list := by
  obtain ⟨howner, hlen, hdata⟩ := h
  obtain ⟨howner', hdata'⟩ := hk key howner
  refine ⟨howner', ?_, ?_⟩
  · rw [hdata']
    exact hlen
  · rw [hdata']
    exact hdata

theorem HasMint.keeps {mint : Mint} (h : L.HasMint key mint) (hk : Keeps splTokenId L L') :
    L'.HasMint key mint := by
  obtain ⟨howner, hdata⟩ := hk key h.1
  exact ⟨howner, hdata.trans h.2⟩

theorem HasTokenAccount.keeps {account : TokenAccount} (h : L.HasTokenAccount key account)
    (hk : Keeps splTokenId L L') : L'.HasTokenAccount key account := by
  obtain ⟨howner, hdata⟩ := hk key h.1
  exact ⟨howner, hdata.trans h.2⟩

theorem HasTokenAccount.unique {t t' : TokenAccount} (h : L.HasTokenAccount key t)
    (h' : L.HasTokenAccount key t') : t = t' :=
  AccountData.tokenAccount.inj (h.2.symm.trans h'.2)

theorem HasMint.set_other {mint : Mint} {key' : Pubkey} (h : L.HasMint key mint)
    (data : AccountData) (hne : key ≠ key') : (L.setData key' data).HasMint key mint := by
  unfold HasMint
  rw [L.setData_of_ne data hne]
  exact h

theorem HasTokenAccount.set_other {account : TokenAccount} {key' : Pubkey}
    (h : L.HasTokenAccount key account) (data : AccountData) (hne : key ≠ key') :
    (L.setData key' data).HasTokenAccount key account := by
  unfold HasTokenAccount
  rw [L.setData_of_ne data hne]
  exact h

theorem HasMint.unique {m m' : Mint} (h : L.HasMint key m) (h' : L.HasMint key m') : m = m' :=
  AccountData.mint.inj (h.2.symm.trans h'.2)

theorem HasMint.ne_token {m : Mint} {t : TokenAccount} {key' : Pubkey} (h : L.HasMint key m)
    (h' : L.HasTokenAccount key' t) : key ≠ key' := by
  rintro rfl
  have hdata := h.2.symm.trans h'.2
  cases hdata

end Ledger

namespace Deployment.Represents

variable {D : Deployment} {L L' : Ledger} {s : PoolState} (h : D.Represents L s)

include h

/-! ## Calls that write no token account -/

theorem of_keeps (hprogram : Keeps D.programId L L') (htoken : Keeps splTokenId L L')
    (hreserve : (L' D.reserveKey).owner ≠ splTokenId) :
    D.Represents L' (s.recount D L') where
  wired := { h.wired with }
  has_pool := h.has_pool.keeps hprogram
  has_list := h.has_list.keeps hprogram
  has_credits := h.has_credits.keeps hprogram
  has_mint := h.has_mint.keeps htoken
  has_credit_reserve := h.has_credit_reserve.keeps htoken
  reserve_not_token := hreserve
  reserve_eq := rfl
  stakes_eq := rfl

/-- Nothing is recounted when the reserve and the stakes kept their lamports. -/
theorem recount_eq (hreserve : (L' D.reserveKey).lamports = (L D.reserveKey).lamports)
    (hstakes : D.stakesOf L' = D.stakesOf L) : s.recount D L' = s := by
  unfold PoolState.recount
  rw [hreserve, hstakes, h.reserve_eq, h.stakes_eq]

/-! ## Token accounts and mints -/

/-- The token program wrote one of its accounts. -/
theorem of_token_write {key : Pubkey} {data : AccountData} {mint : Mint}
    {creditReserve : TokenAccount} (howner : (L key).owner = splTokenId)
    (hwired : D.Wired { s with mint, creditReserve })
    (hmint : (L.setData key data).HasMint s.pool.poolMint mint)
    (hreserve : (L.setData key data).HasTokenAccount s.pool.creditReserve creditReserve) :
    D.Represents (L.setData key data) { s with mint, creditReserve } := by
  have hprogram : Keeps D.programId L (L.setData key data) := by
    apply Keeps.setData
    rw [howner]
    exact D.ne_token.symm
  exact
    { wired := hwired
      has_pool := h.has_pool.keeps hprogram
      has_list := h.has_list.keeps hprogram
      has_credits := h.has_credits.keeps hprogram
      has_mint := hmint
      has_credit_reserve := hreserve
      reserve_not_token := by
        rw [L.setData_owner]
        exact h.reserve_not_token
      reserve_eq := by
        rw [L.setData_lamports]
        exact h.reserve_eq
      stakes_eq := by
        rw [D.stakesOf_setData]
        exact h.stakes_eq }

/-- A token account of the ledger was written, keeping all but amount and delegate. -/
theorem put_token {key : Pubkey} {t : TokenAccount} (t' : TokenAccount)
    (ht : L.HasTokenAccount key t)
    (hmint : t'.mint = t.mint) (howner : t'.owner = t.owner)
    (hclose : t'.closeAuthority = t.closeAuthority)
    (hdelegate : t'.delegate = t.delegate ∨ t'.delegate = none) :
    D.Represents (L.setData key (.tokenAccount t')) (s.putToken key t') := by
  have hmint' : (L.setData key (.tokenAccount t')).HasMint s.pool.poolMint s.mint :=
    h.has_mint.set_other _ (h.has_mint.ne_token ht)
  by_cases hkey : key = s.pool.creditReserve
  · subst hkey
    obtain rfl : t = s.creditReserve := ht.unique h.has_credit_reserve
    have hput : s.putToken s.pool.creditReserve t' = { s with creditReserve := t' } := by
      simp [PoolState.putToken]
    rw [hput]
    refine h.of_token_write ht.1 ?_ hmint' ⟨?_, L.setData_data_same _ _⟩
    · exact
        { h.wired with
          reserve_mint := hmint.trans h.wired.reserve_mint
          reserve_owner := howner.trans h.wired.reserve_owner
          reserve_delegate := by
            rcases hdelegate with hd | hd
            · exact hd.trans h.wired.reserve_delegate
            · exact hd
          reserve_close := hclose.trans h.wired.reserve_close }
    · rw [L.setData_owner]
      exact ht.1
  · have hput : s.putToken key t' = s := by
      simp [PoolState.putToken, hkey]
    rw [hput]
    exact h.of_token_write ht.1 h.wired hmint'
      (h.has_credit_reserve.set_other _ (Ne.symm hkey))

/-- A mint of the ledger was written, keeping its authority. -/
theorem put_mint {key : Pubkey} {m : Mint} (m' : Mint) (hm : L.HasMint key m)
    (hauthority : m'.mintAuthority = m.mintAuthority) :
    D.Represents (L.setData key (.mint m')) (s.putMint key m') := by
  have hreserve : (L.setData key (.mint m')).HasTokenAccount s.pool.creditReserve
      s.creditReserve :=
    h.has_credit_reserve.set_other _ (hm.ne_token h.has_credit_reserve).symm
  by_cases hkey : key = s.pool.poolMint
  · subst hkey
    obtain rfl : m = s.mint := hm.unique h.has_mint
    have hput : s.putMint s.pool.poolMint m' = { s with mint := m' } := by
      simp [PoolState.putMint]
    rw [hput]
    refine h.of_token_write hm.1 ?_ ⟨?_, L.setData_data_same _ _⟩ hreserve
    · exact { h.wired with mint_authority := hauthority.trans h.wired.mint_authority }
    · rw [L.setData_owner]
      exact hm.1
  · have hput : s.putMint key m' = s := by
      simp [PoolState.putMint, hkey]
    rw [hput]
    exact h.of_token_write hm.1 h.wired (h.has_mint.set_other _ (Ne.symm hkey)) hreserve

/-! ## Stores -/

/-- The program wrote one of its own accounts: the token accounts and all lamports are
as before. -/
theorem store_frame {key : Pubkey} (data : AccountData) (howner : (L key).owner = D.programId) :
    (L.setData key data).HasMint s.pool.poolMint s.mint ∧
      (L.setData key data).HasTokenAccount s.pool.creditReserve s.creditReserve ∧
      ((L.setData key data) D.reserveKey).owner ≠ splTokenId ∧
      ((L.setData key data) D.reserveKey).lamports = s.reserve ∧
      D.stakesOf (L.setData key data) = s.stakes := by
  have htoken : Keeps splTokenId L (L.setData key data) := by
    apply Keeps.setData
    rw [howner]
    exact D.ne_token
  refine ⟨h.has_mint.keeps htoken, h.has_credit_reserve.keeps htoken, ?_, ?_, ?_⟩
  · rw [L.setData_owner]
    exact h.reserve_not_token
  · rw [L.setData_lamports]
    exact h.reserve_eq
  · rw [D.stakesOf_setData]
    exact h.stakes_eq

theorem store_pool {pool : StakePool}
    (hstore : store D.programId D.poolKey (StakePool.serialize pool) L = .ok L')
    (hpool : s.pool.SameWiring pool) :
    D.Represents L' { s with pool } := by
  obtain ⟨howner, len, hlen, hdata⟩ := h.has_pool
  obtain ⟨data, hwrite, -, rfl⟩ := store_eq_ok.mp hstore
  have hfits : ¬(L D.poolKey).data.len < StakePool.LEN := by
    rw [hdata]
    simpa [AccountData.len] using hlen
  have hvalue : data = .stakePool (L D.poolKey).data.len pool := by
    simpa [StakePool.serialize, hfits, eq_comm] using hwrite
  subst hvalue
  obtain ⟨hmint, hcredit, hnot, hreserve, hstakes⟩ :=
    h.store_frame (.stakePool (L D.poolKey).data.len pool) howner
  obtain ⟨hversion, hbump, hlist, hcredits, hmintKey, hcreditKey, htoken, hfee⟩ := hpool
  refine
    { wired := ?_
      has_pool := ⟨?_, _, Nat.le_of_not_lt hfits, L.setData_data_same _ _⟩
      has_list := ?_
      has_credits := ?_
      has_mint := hmintKey ▸ hmint
      has_credit_reserve := hcreditKey ▸ hcredit
      reserve_not_token := hnot
      reserve_eq := hreserve
      stakes_eq := hstakes }
  · have hw := h.wired
    exact
      { hw with
        pool_initialized := by
          have hinit := hw.pool_initialized
          unfold StakePool.isInitialized at hinit ⊢
          rw [← hversion]
          exact hinit
        list_ne_pool := hlist ▸ hw.list_ne_pool
        credits_ne_pool := hcredits ▸ hw.credits_ne_pool
        list_ne_credits := hlist ▸ hcredits ▸ hw.list_ne_credits
        token_program := htoken ▸ hw.token_program
        withdraw_bump := hbump ▸ hw.withdraw_bump
        fee_le := hfee ▸ hw.fee_le
        mint_ne_native := hmintKey ▸ hw.mint_ne_native
        reserve_mint := hmintKey ▸ hw.reserve_mint }
  · rw [L.setData_owner]
    exact howner
  · unfold Ledger.HasList
    rw [← hlist, L.setData_of_ne _ h.wired.list_ne_pool]
    exact h.has_list
  · unfold Ledger.HasCredits
    rw [← hcredits, L.setData_of_ne _ h.wired.credits_ne_pool]
    exact h.has_credits

theorem store_list {list : ValidatorStakeList}
    (hstore : store D.programId s.pool.validatorStakeList (ValidatorStakeList.serialize list) L =
      .ok L') (hversion : list.version = s.list.version) :
    D.Represents L' { s with list } := by
  obtain ⟨howner, hlen, -⟩ := h.has_list
  obtain ⟨data, hwrite, -, rfl⟩ := store_eq_ok.mp hstore
  unfold ValidatorStakeList.serialize at hwrite
  rw [ite_error_eq_ok, ite_error_eq_ok] at hwrite
  obtain ⟨-, -, hvalue⟩ := hwrite
  obtain rfl := Except.ok.inj hvalue
  obtain ⟨hmint, hcredit, hnot, hreserve, hstakes⟩ := h.store_frame
    (.validatorStakeList (L s.pool.validatorStakeList).data.len list) howner
  refine
    { wired := { h.wired with list_initialized := hversion ▸ h.wired.list_initialized }
      has_pool := ?_
      has_list := ⟨?_, ?_, _, L.setData_data_same _ _⟩
      has_credits := ?_
      has_mint := hmint
      has_credit_reserve := hcredit
      reserve_not_token := hnot
      reserve_eq := hreserve
      stakes_eq := hstakes }
  · unfold Ledger.HasPool
    rw [L.setData_of_ne _ h.wired.list_ne_pool.symm]
    exact h.has_pool
  · rw [L.setData_owner]
    exact howner
  · rw [L.setData_data_same]
    exact hlen
  · unfold Ledger.HasCredits
    rw [L.setData_of_ne _ h.wired.list_ne_credits.symm]
    exact h.has_credits

theorem store_credits {creditList : CreditList}
    (hstore : store D.programId s.pool.creditList (CreditList.serialize creditList) L =
      .ok L') (hversion : creditList.version = s.creditList.version) :
    D.Represents L' { s with creditList } := by
  obtain ⟨howner, hlen, -⟩ := h.has_credits
  obtain ⟨data, hwrite, -, rfl⟩ := store_eq_ok.mp hstore
  unfold CreditList.serialize at hwrite
  rw [ite_error_eq_ok, ite_error_eq_ok] at hwrite
  obtain ⟨-, -, hvalue⟩ := hwrite
  obtain rfl := Except.ok.inj hvalue
  obtain ⟨hmint, hcredit, hnot, hreserve, hstakes⟩ := h.store_frame
    (.creditList (L s.pool.creditList).data.len creditList) howner
  refine
    { wired := { h.wired with credits_initialized := hversion ▸ h.wired.credits_initialized }
      has_pool := ?_
      has_list := ?_
      has_credits := ⟨?_, ?_, _, L.setData_data_same _ _⟩
      has_mint := hmint
      has_credit_reserve := hcredit
      reserve_not_token := hnot
      reserve_eq := hreserve
      stakes_eq := hstakes }
  · unfold Ledger.HasPool
    rw [L.setData_of_ne _ h.wired.credits_ne_pool.symm]
    exact h.has_pool
  · unfold Ledger.HasList
    rw [L.setData_of_ne _ h.wired.list_ne_credits]
    exact h.has_list
  · rw [L.setData_owner]
    exact howner
  · rw [L.setData_data_same]
    exact hlen

end Deployment.Represents

end Tenderize
