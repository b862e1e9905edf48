import Tenderize.Spec.Updates

/-!
# Calls as updates of the pool state

What a successful call of the system, token or stake program does to the pool, whatever
accounts it was given.
-/

namespace Tenderize

open Support

namespace PoolState

/-- `n` tokens were burned from `account` under `mint`; the pool's mint and its credit
reserve became `mint'` and `reserve'`. -/
structure Burned (s : PoolState) (account mint : Pubkey) (n : UInt64) (mint' : Mint)
    (reserve' : TokenAccount) : Prop where
  own : mint = s.pool.poolMint → n ≤ s.mint.supply ∧ mint'.supply = s.mint.supply - n
  foreign : mint ≠ s.pool.poolMint → mint'.supply = s.mint.supply
  reserve : account = s.pool.creditReserve →
    mint = s.pool.poolMint ∧ n ≤ s.creditReserve.amount ∧
      reserve'.amount = s.creditReserve.amount - n
  other : account ≠ s.pool.creditReserve → reserve'.amount = s.creditReserve.amount

/-- `n` tokens of `mint` were minted. -/
structure Minted (s : PoolState) (mint : Pubkey) (n : UInt64) (mint' : Mint)
    (reserve' : TokenAccount) : Prop where
  own : mint = s.pool.poolMint → mint'.supply.toNat = s.mint.supply.toNat + n.toNat
  foreign : mint ≠ s.pool.poolMint → mint'.supply = s.mint.supply
  reserve_le : s.creditReserve.amount ≤ reserve'.amount

/-- `n` tokens moved from `source` to `target`. -/
structure TokensMoved (s : PoolState) (source target : Pubkey) (n : UInt64)
    (reserve' : TokenAccount) : Prop where
  same : source = target → reserve' = s.creditReserve
  out : source ≠ target → source = s.pool.creditReserve →
    n ≤ s.creditReserve.amount ∧ reserve'.amount = s.creditReserve.amount - n
  into : source ≠ target → target = s.pool.creditReserve →
    s.creditReserve.amount.toNat + n.toNat < 2 ^ 64 ∧
      reserve'.amount = s.creditReserve.amount + n
  other : source ≠ s.pool.creditReserve → target ≠ s.pool.creditReserve →
    reserve' = s.creditReserve

@[simp] theorem putToken_pool (s : PoolState) (key : Pubkey) (t : TokenAccount) :
    (s.putToken key t).pool = s.pool := rfl

@[simp] theorem putToken_mint (s : PoolState) (key : Pubkey) (t : TokenAccount) :
    (s.putToken key t).mint = s.mint := rfl

@[simp] theorem putMint_pool (s : PoolState) (key : Pubkey) (m : Mint) :
    (s.putMint key m).pool = s.pool := rfl

theorem putToken_creditReserve_same (s : PoolState) (t : TokenAccount) :
    (s.putToken s.pool.creditReserve t).creditReserve = t :=
  if_pos rfl

theorem putToken_of_ne (s : PoolState) {key : Pubkey} (t : TokenAccount)
    (h : key ≠ s.pool.creditReserve) : s.putToken key t = s := by
  simp [putToken, h]

theorem putMint_mint_same (s : PoolState) (m : Mint) :
    (s.putMint s.pool.poolMint m).mint = m :=
  if_pos rfl

theorem putMint_of_ne (s : PoolState) {key : Pubkey} (m : Mint)
    (h : key ≠ s.pool.poolMint) : s.putMint key m = s := by
  simp [putMint, h]

end PoolState

namespace Deployment.Represents

open PoolState

variable {D : Deployment} {L L' : Ledger} {s : PoolState} (h : D.Represents L s)

include h

section Token

variable {account mint source target authority : Pubkey} {n : UInt64} {sigs : List Pubkey}

/-- Lamports that move between token accounts belong neither to the reserve nor to a
stake. -/
theorem of_native_move (native : Bool) (n : UInt64) (hsource : (L source).owner = splTokenId)
    (htarget : (L target).owner = splTokenId) :
    D.Represents (if native then L.moveLamports source target n else L) s := by
  cases native with
  | false => exact h
  | true =>
      have hne : ∀ k, (L k).owner = splTokenId → D.reserveKey ≠ k := by
        rintro k hk rfl
        exact h.reserve_not_token hk
      have hreserve : (L.moveLamports source target n) D.reserveKey = L D.reserveKey :=
        L.moveLamports_of_ne n (hne source hsource) (hne target htarget)
      have hstakes : D.stakesOf (L.moveLamports source target n) = D.stakesOf L := by
        apply D.stakesOf_congr
        intro k _
        by_cases hk : (L k).owner = splTokenId
        · have hnot : (L k).owner ≠ stakeProgramId := by
            rw [hk]
            exact splTokenId_ne_stake
          rw [stakeLamports_of_owner L hnot]
          apply stakeLamports_of_owner
          rw [L.moveLamports_owner]
          exact hnot
        · apply stakeLamports_move_of_ne
          · rintro rfl
            exact hk hsource
          · rintro rfl
            exact hk htarget
      have hmoved := h.of_keeps (Keeps.moveLamports source target n)
        (Keeps.moveLamports source target n) (by rw [hreserve]; exact h.reserve_not_token)
      rw [h.recount_eq (by rw [hreserve]) hstakes] at hmoved
      exact hmoved

theorem burn (hcall : D.programs.burn splTokenId account mint authority n sigs L = .ok L') :
    ∃ mint' reserve', D.Represents L' { s with mint := mint', creditReserve := reserve' } ∧
      s.Burned account mint n mint' reserve' := by
  obtain ⟨t, t', m, ht, hm, htm, -, -, hspend, hsupply, rfl⟩ := D.lawful.burn_ok hcall
  have h₁ := h.put_token t' ht hspend.mint hspend.owner hspend.closeAuthority hspend.delegate
  have hm₁ := hm.set_other (.tokenAccount t') (hm.ne_token ht)
  have h₂ := h₁.put_mint { m with supply := m.supply - n } hm₁ rfl
  refine ⟨((s.putToken account t').putMint mint _).mint, (s.putToken account t').creditReserve,
    h₂, ?_, ?_, ?_, ?_⟩
  · rintro rfl
    obtain rfl := hm.unique h.has_mint
    exact ⟨hsupply, by rw [← putToken_pool s account t', putMint_mint_same]⟩
  · intro hne
    rw [putMint_of_ne (s.putToken account t') _ hne]
    rfl
  · rintro rfl
    obtain rfl := ht.unique h.has_credit_reserve
    refine ⟨htm.symm.trans h.wired.reserve_mint, hspend.enough, ?_⟩
    rw [putToken_creditReserve_same]
    exact hspend.amount
  · intro hne
    rw [putToken_of_ne _ _ hne]

theorem mintTo (hcall : D.programs.mintTo splTokenId mint account authority n sigs L = .ok L') :
    ∃ mint' reserve', D.Represents L' { s with mint := mint', creditReserve := reserve' } ∧
      s.Minted mint n mint' reserve' := by
  obtain ⟨t, m, ht, hm, htm, -, -, hamount, hsupply, rfl⟩ := D.lawful.mintTo_ok hcall
  have h₁ := h.put_token { t with amount := t.amount + n } ht rfl rfl rfl (.inl rfl)
  have hm₁ := hm.set_other (.tokenAccount { t with amount := t.amount + n }) (hm.ne_token ht)
  have h₂ := h₁.put_mint { m with supply := m.supply + n } hm₁ rfl
  refine ⟨((s.putToken account _).putMint mint _).mint, (s.putToken account _).creditReserve,
    h₂, ?_, ?_, ?_⟩
  · rintro rfl
    obtain rfl := hm.unique h.has_mint
    rw [← putToken_pool s account, putMint_mint_same]
    exact toNat_add_of_lt hsupply
  · intro hne
    rw [putMint_of_ne (s.putToken account _) _ hne]
    rfl
  · by_cases hkey : account = s.pool.creditReserve
    · subst hkey
      obtain rfl := ht.unique h.has_credit_reserve
      rw [putToken_creditReserve_same, UInt64.le_iff_toNat_le, toNat_add_of_lt hamount]
      omega
    · rw [putToken_of_ne _ _ hkey]
      exact UInt64.le_refl _

theorem tokenTransfer
    (hcall : D.programs.tokenTransfer splTokenId source target authority n sigs L = .ok L') :
    ∃ reserve', D.Represents L' { s with creditReserve := reserve' } ∧
      s.TokensMoved source target n reserve' := by
  obtain ⟨a, b, ha, hb, -, -, -, -, hcase⟩ := D.lawful.tokenTransfer_ok hcall
  rcases hcase with ⟨rfl, rfl⟩ | ⟨hne, hfits, -, a', hspend, rfl⟩
  · exact ⟨_, h, fun _ => rfl, fun hc => absurd rfl hc, fun hc => absurd rfl hc,
      fun _ _ => rfl⟩
  · have h₀ := h.of_native_move a.isNative.isSome n ha.1 hb.1
    have hkeep : Keeps splTokenId L
        (if a.isNative.isSome then L.moveLamports source target n else L) := by
      split
      · exact Keeps.moveLamports source target n
      · exact Keeps.refl _ L
    have h₁ := h₀.put_token a' (ha.keeps hkeep) hspend.mint hspend.owner
      hspend.closeAuthority hspend.delegate
    have hb₁ := (hb.keeps hkeep).set_other (.tokenAccount a') hne.symm
    have h₂ := h₁.put_token { b with amount := b.amount + n } hb₁ rfl rfl rfl (.inl rfl)
    refine ⟨((s.putToken source a').putToken target _).creditReserve, h₂,
      fun hc => absurd hc hne, ?_, ?_, ?_⟩
    · rintro - rfl
      obtain rfl := ha.unique h.has_credit_reserve
      rw [putToken_of_ne (s.putToken _ a') _ hne.symm, putToken_creditReserve_same]
      exact ⟨hspend.enough, hspend.amount⟩
    · rintro - rfl
      obtain rfl := hb.unique h.has_credit_reserve
      rw [putToken_of_ne s _ hne, putToken_creditReserve_same]
      exact ⟨hfits, rfl⟩
    · intro hs ht
      rw [putToken_of_ne s _ hs, putToken_of_ne s _ ht]

/-- A fresh account of the token program became a token account. -/
theorem initializeAccount {owner : Pubkey} {space : Nat}
    (hfresh : (L account).data = .zeroed space)
    (hcall : D.programs.initializeAccount splTokenId account mint owner L = .ok L') :
    D.Represents L' s := by
  obtain ⟨howner, t, -, -, rfl⟩ := D.lawful.initializeAccount_ok hcall
  have hmint : s.pool.poolMint ≠ account := by
    rintro rfl
    have hdata := hfresh.symm.trans h.has_mint.2
    cases hdata
  have hcredit : s.pool.creditReserve ≠ account := by
    rintro rfl
    have hdata := hfresh.symm.trans h.has_credit_reserve.2
    cases hdata
  exact h.of_token_write howner h.wired (h.has_mint.set_other _ hmint)
    (h.has_credit_reserve.set_other _ hcredit)

/-- A token account other than the credit reserve was closed. -/
theorem closeAccount (hne : account ≠ s.pool.creditReserve)
    (hcall : D.programs.closeAccount splTokenId account target authority sigs L = .ok L') :
    D.Represents L' (s.recount D L') := by
  obtain ⟨-, -, -, t, ht, -, rfl⟩ := D.lawful.closeAccount_ok hcall
  have hkeep : ∀ q, Keeps q L (L.moveLamports account target (L account).lamports) :=
    fun q => Keeps.moveLamports account target _
  have hmoved := h.of_keeps (hkeep _) (hkeep _)
    (by rw [L.moveLamports_owner]; exact h.reserve_not_token)
  have hwritten := hmoved.put_token { t with amount := 0 } (ht.keeps (hkeep _)) rfl rfl rfl
    (.inl rfl)
  rw [putToken_of_ne (s.recount D _) _ hne] at hwritten
  unfold recount at hwritten ⊢
  rw [Ledger.setData_lamports, D.stakesOf_setData]
  exact hwritten

end Token

section Native

variable {source target owner stake authority vote : Pubkey} {n : UInt64} {space : Nat}
  {sigs : List Pubkey} {clock : Clock} {authorized : Authorized}

theorem transfer (hcall : D.programs.transfer source target n sigs L = .ok L') :
    D.Represents L' (s.recount D L') := by
  apply h.of_keeps (D.lawful.transfer_keeps hcall) (D.lawful.transfer_keeps hcall)
  obtain ⟨-, -, -, -, rfl⟩ := D.lawful.transfer_ok hcall
  rw [L.moveLamports_owner]
  exact h.reserve_not_token

theorem createAccount (howner : owner ≠ splTokenId ∨ target ≠ D.reserveKey)
    (hcall : D.programs.createAccount source target n space owner sigs L = .ok L') :
    D.Represents L' (s.recount D L') := by
  apply h.of_keeps (D.lawful.createAccount_keeps D.ne_system hcall)
    (D.lawful.createAccount_keeps splTokenId_ne_system hcall)
  obtain ⟨-, -, -, -, -, -, rfl⟩ := D.lawful.createAccount_ok hcall
  by_cases htarget : D.reserveKey = target
  · rw [← htarget, Ledger.assign_same]
    rcases howner with ho | ht
    · exact ho
    · exact absurd htarget.symm ht
  · rw [Ledger.assign_of_ne _ owner space htarget, L.moveLamports_owner]
    exact h.reserve_not_token

/-- The stake program wrote the data of a stake account. -/
theorem of_stake_write {data : AccountData} (howner : (L stake).owner = stakeProgramId) :
    D.Represents (L.setData stake data) s := by
  have hkeep : ∀ q, q ≠ stakeProgramId → Keeps q L (L.setData stake data) := by
    intro q hq
    apply Keeps.setData
    rw [howner]
    exact hq.symm
  have hwritten := h.of_keeps (hkeep _ D.ne_stake) (hkeep _ splTokenId_ne_stake)
    (by rw [L.setData_owner]; exact h.reserve_not_token)
  rw [h.recount_eq (by rw [L.setData_lamports]) (by rw [D.stakesOf_setData])] at hwritten
  exact hwritten

theorem stakeInitialize (hcall : D.programs.stakeInitialize stake authorized L = .ok L') :
    D.Represents L' s := by
  obtain ⟨howner, data, rfl⟩ := D.lawful.stakeInitialize_ok hcall
  exact h.of_stake_write howner

theorem delegateStake
    (hcall : D.programs.delegateStake clock stake authority vote sigs L = .ok L') :
    D.Represents L' s := by
  obtain ⟨howner, -, data, rfl⟩ := D.lawful.delegateStake_ok hcall
  exact h.of_stake_write howner

theorem deactivateStake
    (hcall : D.programs.deactivateStake clock stake authority sigs L = .ok L') :
    D.Represents L' s := by
  obtain ⟨howner, -, data, rfl⟩ := D.lawful.deactivateStake_ok hcall
  exact h.of_stake_write howner

/-- The stake program moved lamports out of a stake account and wrote stake data. -/
theorem of_stake_move (hkeep : ∀ q, q ≠ stakeProgramId → Keeps q L L')
    (howner : (L' D.reserveKey).owner = (L D.reserveKey).owner) :
    D.Represents L' (s.recount D L') := by
  apply h.of_keeps (hkeep _ D.ne_stake) (hkeep _ splTokenId_ne_stake)
  rw [howner]
  exact h.reserve_not_token

theorem splitOnly
    (hcall : D.programs.splitOnly source authority n target sigs L = .ok L') :
    D.Represents L' (s.recount D L') := by
  apply h.of_stake_move (fun q hq => D.lawful.splitOnly_keeps hq hcall)
  obtain ⟨-, -, -, -, -, -, d₁, d₂, rfl⟩ := D.lawful.splitOnly_ok hcall
  rw [Ledger.setData_owner, Ledger.setData_owner, L.moveLamports_owner]

theorem merge (hcall : D.programs.merge clock target source authority sigs L = .ok L') :
    D.Represents L' (s.recount D L') := by
  apply h.of_stake_move (fun q hq => D.lawful.merge_keeps hq hcall)
  obtain ⟨-, -, -, -, -, d₁, d₂, rfl⟩ := D.lawful.merge_ok hcall
  rw [Ledger.setData_owner, Ledger.setData_owner, L.moveLamports_owner]

theorem stakeWithdraw
    (hcall : D.programs.stakeWithdraw clock stake authority target n sigs L = .ok L') :
    D.Represents L' (s.recount D L') := by
  apply h.of_stake_move (fun q hq => D.lawful.stakeWithdraw_keeps hq hcall)
  obtain ⟨-, -, -, data, rfl⟩ := D.lawful.stakeWithdraw_ok hcall
  rw [Ledger.setData_owner, L.moveLamports_owner]

end Native

end Deployment.Represents

end Tenderize
