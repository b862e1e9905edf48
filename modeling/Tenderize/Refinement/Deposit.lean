import Tenderize.Refinement.Accounts
import Tenderize.Spec.Tokens

/-!
# Deposit refines its pool step

Lamports reach the reserve directly or through the temp account of the wrapped-SOL
path; either way the reserve grows by exactly the amount and only the source pays.
-/

namespace Tenderize

open Support

/-- `amount` lamports of the source came into the reserve and nobody else paid. -/
structure LamportsIn (D : Deployment) (source : Pubkey) (amount : UInt64) (L L' : Ledger) :
    Prop where
  source_pays : amount ≤ (L source).lamports
  source_foreign : D.programs.IsProgramAddress D.programId source →
    (L source).owner = splTokenId
  reserve : (L' D.reserveKey).lamports.toNat = (L D.reserveKey).lamports.toNat + amount.toNat
  others : ∀ k, k ≠ source → (L k).lamports.toNat ≤ (L' k).lamports.toNat
  stakes : D.stakesOf L' = D.stakesOf L
  tokens : ∀ k t, t.mint ≠ nativeMintId → (L'.HasTokenAccount k t ↔ L.HasTokenAccount k t)
  taken : ∀ mint k,
    tokensOf L' mint k = tokensOf L mint k - if k = source then amount.toNat else 0
  lamports_le : ∀ k, k ≠ D.reserveKey → (L' k).lamports ≤ (L k).lamports

variable {D : Deployment} {chain : Chain} {accounts : List AccountInfo} {s : PoolState}
  {amount : UInt64} {sigs : List Pubkey} {L L' : Ledger}

/-! ## System accounts -/

theorem transfer_lamportsIn {source : Pubkey}
    (hsource : ¬D.programs.IsProgramAddress D.programId source)
    (hcall : D.programs.transfer source D.reserveKey amount sigs L = .ok L') :
    LamportsIn D source amount L L' := by
  have hne : source ≠ D.reserveKey := by
    rintro rfl
    exact hsource Deployment.reserveKey_isProgramAddress
  have hstakes := D.stakesOf_transfer_reserve hcall
  have htarget := D.lawful.transfer_target hcall hne
  obtain ⟨-, hsystem, hn, -, rfl⟩ := D.lawful.transfer_ok hcall
  have htokens : ∀ k t, (L.moveLamports source D.reserveKey amount).HasTokenAccount k t ↔
      L.HasTokenAccount k t :=
    fun k t => hasTokenAccount_congr (L.moveLamports_owner _ _ k _) (L.moveLamports_data _ _ k _)
  refine ⟨hn, fun hp => absurd hp hsource, htarget, ?_, hstakes, fun k t _ => htokens k t, ?_, ?_⟩
  · intro k hk
    by_cases hkr : k = D.reserveKey
    · subst hkr
      omega
    · rw [L.moveLamports_of_ne amount hk hkr]
  · intro m k
    rw [tokensOf_congr fun t _ => htokens k t]
    by_cases hk : k = source
    · have hnone : tokensOf L m source = 0 :=
        tokensOf_of_owner (by rw [hsystem]; exact splTokenId_ne_system.symm)
      rw [hk, hnone, Nat.zero_sub]
    · rw [if_neg hk, Nat.sub_zero]
  · intro k hkr
    by_cases hk : k = source
    · subst hk
      rw [L.moveLamports_source amount hne, UInt64.le_iff_toNat_le]
      change ((L k).lamports - amount).toNat ≤ _
      rw [UInt64.toNat_sub_of_le _ _ hn]
      exact Nat.sub_le _ _
    · rw [L.moveLamports_of_ne amount hk hkr]
      exact UInt64.le_refl _

/-! ## Wrapped SOL -/

section Wrapped

variable {a : DepositAccounts} {temp nativeMint : AccountInfo} {withdrawBump reserveBump : UInt8}

/-- The four ledgers of the wrapped path: the temp account created, made a token
account, paid into and closed. -/
structure WrappedRun (D : Deployment) (amount : UInt64) (source temp : Pubkey)
    (rentLamports : UInt64) (L L₁ L₂ L₃ L₄ : Ledger) : Prop where
  create : ∃ sigs, D.programs.createAccount D.reserveKey temp rentLamports TokenAccount.LEN
    splTokenId sigs L = .ok L₁
  initialise : D.programs.initializeAccount splTokenId temp nativeMintId D.withdrawKey L₁ = .ok L₂
  pay : ∃ sigs, D.programs.tokenTransfer splTokenId source temp D.withdrawKey amount sigs L₂ =
    .ok L₃
  close : ∃ sigs, D.programs.closeAccount splTokenId temp D.reserveKey D.withdrawKey sigs L₃ =
    .ok L₄

theorem depositWrapped_ok (hreserve : a.reserve.key = D.reserveKey)
    (hwithdraw : a.withdraw.key = D.withdrawKey) (htoken : a.tokenProgram.key = splTokenId)
    (hrun : depositWrapped D.programs D.programId amount a temp nativeMint withdrawBump
      reserveBump chain = .ok L') :
    ∃ L₁ L₂ L₃, WrappedRun D amount a.sourceUser.key temp.key
      (chain.rent.minimumBalance TokenAccount.LEN) chain.ledger L₁ L₂ L₃ L' := by
  simp only [depositWrapped, bind_eq_ok, require_eq_ok] at hrun
  obtain ⟨-, -, -, -, L₁, hcreate, L₂, hinit, L₃, hpay, hclose⟩ := hrun
  rw [hreserve] at hcreate hclose
  rw [htoken, hwithdraw] at hinit hpay hclose
  exact ⟨L₁, L₂, L₃, ⟨_, hcreate⟩, hinit, ⟨_, hpay⟩, ⟨_, hclose⟩⟩

variable {source tempKey : Pubkey} {rentLamports : UInt64} {L₁ L₂ L₃ L₄ : Ledger}

/-- The temp account starts empty and is not the reserve. -/
theorem WrappedRun.temp_fresh (hw : WrappedRun D amount source tempKey rentLamports L L₁ L₂ L₃ L₄) :
    tempKey ≠ D.reserveKey ∧ (L tempKey).owner = systemProgramId ∧
      (L tempKey).lamports = 0 ∧ rentLamports ≤ (L D.reserveKey).lamports ∧
      L₁ = (L.moveLamports D.reserveKey tempKey rentLamports).assign tempKey splTokenId
        TokenAccount.LEN := by
  obtain ⟨_, hcreate⟩ := hw.create
  obtain ⟨_, hclose⟩ := hw.close
  obtain ⟨-, -, -, hrent, htemp, hempty, hL₁⟩ := D.lawful.createAccount_ok hcreate
  obtain ⟨hne, -⟩ := D.lawful.closeAccount_ok hclose
  exact ⟨hne, htemp, hempty, hrent, hL₁⟩

/-- Tokens of the native mint carry their lamports along. -/
theorem WrappedRun.paid (hw : WrappedRun D amount source tempKey rentLamports L L₁ L₂ L₃ L₄)
    (hsource : (L source).owner ≠ systemProgramId) :
    source ≠ tempKey ∧ (L₂ source).owner = splTokenId ∧ amount ≤ (L₂ source).lamports ∧
      (L₂ tempKey).lamports.toNat + amount.toNat < 2 ^ 64 ∧
      (∀ k, (L₃ k).lamports = ((L₂.moveLamports source tempKey amount) k).lamports) ∧
      ∃ t, L₂.HasTokenAccount source t ∧ t.mint = nativeMintId := by
  obtain ⟨-, htemp, -⟩ := hw.temp_fresh
  have hne : source ≠ tempKey := by
    rintro rfl
    exact hsource htemp
  obtain ⟨_, hpay⟩ := hw.pay
  obtain ⟨howner, t, hmint, -, hL₂⟩ := D.lawful.initializeAccount_ok hw.initialise
  obtain ⟨x, y, hx, hy, hxy, -, -, -, hcase⟩ := D.lawful.tokenTransfer_ok hpay
  have hyt : y = t := by
    have hdata := hy.2
    rw [hL₂, Ledger.setData_data_same] at hdata
    exact (AccountData.tokenAccount.inj hdata).symm
  have hnative : x.isNative.isSome = true := by
    rw [x.native_iff, hxy, hyt, hmint]
  rcases hcase with ⟨heq, -⟩ | ⟨-, -, hlamports, x', -, rfl⟩
  · exact absurd heq hne
  · obtain ⟨hfits, henough⟩ := hlamports hnative
    refine ⟨hne, hx.1, henough, hfits, ?_, x, hx, by rw [hxy, hyt, hmint]⟩
    intro k
    rw [Ledger.setData_lamports, Ledger.setData_lamports, if_pos hnative]

theorem WrappedRun.owner (hw : WrappedRun D amount source tempKey rentLamports L L₁ L₂ L₃ L₄)
    {k : Pubkey} (hk : k ≠ tempKey) :
    (L₂ k).owner = (L k).owner ∧ (L₄ k).owner = (L k).owner := by
  obtain ⟨-, -, -, -, hL₁⟩ := hw.temp_fresh
  obtain ⟨-, t, -, -, hL₂⟩ := D.lawful.initializeAccount_ok hw.initialise
  obtain ⟨_, hpay⟩ := hw.pay
  obtain ⟨_, hclose⟩ := hw.close
  have h₂ : (L₂ k).owner = (L k).owner := by
    rw [hL₂, Ledger.setData_owner, hL₁, Ledger.assign_of_ne _ _ _ hk, L.moveLamports_owner]
  have h₃ : (L₃ k).owner = (L₂ k).owner := by
    obtain ⟨x, y, -, -, -, -, -, -, hcase⟩ := D.lawful.tokenTransfer_ok hpay
    rcases hcase with ⟨-, rfl⟩ | ⟨-, -, -, x', -, rfl⟩
    · rfl
    · rw [Ledger.setData_owner, Ledger.setData_owner]
      split
      · exact L₂.moveLamports_owner _ _ _ _
      · rfl
  have h₄ : (L₄ k).owner = (L₃ k).owner := by
    obtain ⟨-, -, -, t', -, -, rfl⟩ := D.lawful.closeAccount_ok hclose
    rw [Ledger.setData_owner, Ledger.moveLamports_owner]
  exact ⟨h₂, h₄.trans (h₃.trans h₂)⟩

/-- Away from the three accounts involved nothing moves. -/
theorem WrappedRun.lamports_other
    (hw : WrappedRun D amount source tempKey rentLamports L L₁ L₂ L₃ L₄)
    (hsource : (L source).owner ≠ systemProgramId) {k : Pubkey} (hs : k ≠ source)
    (ht : k ≠ tempKey) (hr : k ≠ D.reserveKey) : (L₄ k).lamports = (L k).lamports := by
  obtain ⟨-, -, -, -, hL₁⟩ := hw.temp_fresh
  obtain ⟨-, t, -, -, hL₂⟩ := D.lawful.initializeAccount_ok hw.initialise
  obtain ⟨-, -, -, -, hL₃, -⟩ := hw.paid hsource
  obtain ⟨_, hclose⟩ := hw.close
  obtain ⟨-, -, -, t', -, -, rfl⟩ := D.lawful.closeAccount_ok hclose
  rw [Ledger.setData_lamports, L₃.moveLamports_of_ne _ ht hr, hL₃,
    L₂.moveLamports_of_ne _ hs ht, hL₂, Ledger.setData_lamports, hL₁, Ledger.assign_lamports,
    L.moveLamports_of_ne _ hr ht]

/-- The temp account is left empty, and the source paid. -/
structure WrappedTokens (source tempKey : Pubkey) (amount : UInt64) (L L' : Ledger) : Prop where
  emptied : ∃ t, (L' tempKey).data = .tokenAccount t ∧ t.mint = nativeMintId ∧ t.amount = 0
  paid : ∃ t t', L.HasTokenAccount source t ∧ t.mint = nativeMintId ∧ Spends t t' amount ∧
    (L' source).data = .tokenAccount t'
  others : ∀ k, k ≠ tempKey → k ≠ source → (L' k).data = (L k).data

theorem WrappedRun.wrappedTokens
    (hw : WrappedRun D amount source tempKey rentLamports L L₁ L₂ L₃ L₄)
    (hsource : (L source).owner ≠ systemProgramId) :
    WrappedTokens source tempKey amount L L₄ := by
  obtain ⟨-, -, -, -, hL₁⟩ := hw.temp_fresh
  obtain ⟨-, x, hxmint, -, hL₂⟩ := D.lawful.initializeAccount_ok hw.initialise
  obtain ⟨_, hpay⟩ := hw.pay
  obtain ⟨_, hclose⟩ := hw.close
  obtain ⟨hne, -, -, -, -, y, hy, hymint⟩ := hw.paid hsource
  obtain ⟨a, b, ha, hb, hab, -, -, -, hcase⟩ := D.lawful.tokenTransfer_ok hpay
  obtain ⟨-, -, -, z, hz, -, hL₄⟩ := D.lawful.closeAccount_ok hclose
  have hamint : a.mint = nativeMintId := by rw [ha.unique hy, hymint]
  rcases hcase with ⟨heq, -⟩ | ⟨-, -, -, a', hspend, hL₃⟩
  · exact absurd heq hne
  have hL₂data : ∀ k, k ≠ tempKey → (L₂ k).data = (L k).data := by
    intro k hk
    rw [hL₂, L₁.setData_of_ne _ hk, hL₁, Ledger.assign_of_ne _ _ _ hk, L.moveLamports_data]
  have hL₄data : ∀ k, k ≠ tempKey → (L₄ k).data = (L₃ k).data := by
    intro k hk
    rw [hL₄, Ledger.setData_of_ne _ _ hk, L₃.moveLamports_data]
  refine ⟨⟨_, by rw [hL₄, Ledger.setData_data_same], ?_, rfl⟩, ⟨a, a', ?_, hamint, hspend, ?_⟩, ?_⟩
  · have hzdata := hz.2
    rw [hL₃, Ledger.setData_data_same] at hzdata
    rw [← AccountData.tokenAccount.inj hzdata]
    exact hab.symm.trans hamint
  · exact ⟨(hw.owner hne).1 ▸ ha.1, hL₂data _ hne ▸ ha.2⟩
  · rw [hL₄data _ hne, hL₃, Ledger.setData_of_ne _ _ hne, Ledger.setData_data_same]
  · intro k hk hks
    rw [hL₄data k hk, hL₃, Ledger.setData_of_ne _ _ hk, Ledger.setData_of_ne _ _ hks]
    split
    · rw [L₂.moveLamports_data, hL₂data k hk]
    · exact hL₂data k hk

/-- Only token accounts of the native mint are written. -/
theorem WrappedRun.tokens (hw : WrappedRun D amount source tempKey rentLamports L L₁ L₂ L₃ L₄)
    (hsource : (L source).owner ≠ systemProgramId) {k : Pubkey} {t : TokenAccount}
    (hmint : t.mint ≠ nativeMintId) : L₄.HasTokenAccount k t ↔ L.HasTokenAccount k t := by
  obtain ⟨-, htemp, -, -, -⟩ := hw.temp_fresh
  obtain ⟨⟨z, hz, hzmint, -⟩, ⟨x, x', hx, hxmint, hspend, hx'⟩, hothers⟩ :=
    hw.wrappedTokens hsource
  by_cases hkt : k = tempKey
  · subst hkt
    constructor
    · intro ht
      rw [← AccountData.tokenAccount.inj (hz.symm.trans ht.2)] at hmint
      exact absurd hzmint hmint
    · intro ht
      exact absurd (ht.1.symm.trans htemp) splTokenId_ne_system
  · by_cases hks : k = source
    · subst hks
      constructor
      · intro ht
        rw [← AccountData.tokenAccount.inj (hx'.symm.trans ht.2), hspend.mint] at hmint
        exact absurd hxmint hmint
      · intro ht
        rw [ht.unique hx] at hmint
        exact absurd hxmint hmint
    · exact hasTokenAccount_congr (hw.owner hkt).2 (hothers k hkt hks)

/-- The source pays wrapped SOL and nobody gets any. -/
theorem WrappedRun.taken (hw : WrappedRun D amount source tempKey rentLamports L L₁ L₂ L₃ L₄)
    (hsource : (L source).owner ≠ systemProgramId) (mint k : Pubkey) :
    tokensOf L₄ mint k = tokensOf L mint k - if k = source then amount.toNat else 0 := by
  obtain ⟨-, htemp, -⟩ := hw.temp_fresh
  obtain ⟨hne, -⟩ := hw.paid hsource
  obtain ⟨⟨z, hz, -, hempty⟩, ⟨x, x', hx, -, hspend, hx'⟩, hothers⟩ := hw.wrappedTokens hsource
  by_cases hkt : k = tempKey
  · subst hkt
    have hbefore : tokensOf L mint k = 0 :=
      tokensOf_of_owner (by rw [htemp]; exact splTokenId_ne_system.symm)
    rw [hbefore, Nat.zero_sub]
    unfold tokensOf
    rw [hz]
    simp [hempty]
  · have howner := (hw.owner hkt).2
    by_cases hks : k = source
    · subst hks
      have hafter : L₄.HasTokenAccount k x' := ⟨howner.trans hx.1, hx'⟩
      rw [tokensOf_of_has hafter, tokensOf_of_has hx, if_pos rfl, hspend.tokens]
    · rw [if_neg hks, Nat.sub_zero]
      exact tokensOf_congr fun t _ => hasTokenAccount_congr howner (hothers k hkt hks)

theorem WrappedRun.lamportsIn
    (hw : WrappedRun D amount source tempKey rentLamports L L₁ L₂ L₃ L₄)
    (hsource : (L source).owner ≠ systemProgramId) : LamportsIn D source amount L L₄ := by
  obtain ⟨hne, htemp, hempty, hrent, hL₁⟩ := hw.temp_fresh
  obtain ⟨hst, hsowner, hspays, hfits, hL₃, -⟩ := hw.paid hsource
  have hsr : source ≠ D.reserveKey := by
    rintro rfl
    obtain ⟨_, hcreate⟩ := hw.create
    obtain ⟨-, -, hsystem, -⟩ := D.lawful.createAccount_ok hcreate
    exact hsource hsystem
  have hL₂ : ∀ k, (L₂ k).lamports =
      ((L.moveLamports D.reserveKey tempKey rentLamports) k).lamports := by
    intro k
    obtain ⟨-, t, -, -, heq⟩ := D.lawful.initializeAccount_ok hw.initialise
    rw [heq, Ledger.setData_lamports, hL₁, Ledger.assign_lamports]
  have hsource₂ : (L₂ source).lamports = (L source).lamports := by
    rw [hL₂, L.moveLamports_of_ne _ hsr hst]
  have htemp₂ : (L₂ tempKey).lamports = rentLamports := by
    rw [hL₂, L.moveLamports_target _ hne.symm, hempty]
    exact UInt64.zero_add rentLamports
  have hreserve₃ : (L₃ D.reserveKey).lamports.toNat =
      (L D.reserveKey).lamports.toNat - rentLamports.toNat := by
    rw [hL₃, L₂.moveLamports_of_ne _ hsr.symm hne.symm, hL₂,
      L.moveLamports_source _ hne.symm]
    exact UInt64.toNat_sub_of_le _ _ hrent
  have htemp₃ : (L₃ tempKey).lamports.toNat = rentLamports.toNat + amount.toNat := by
    rw [hL₃, L₂.moveLamports_target _ hst, htemp₂]
    rw [htemp₂] at hfits
    exact toNat_add_of_lt hfits
  obtain ⟨_, hclose⟩ := hw.close
  obtain ⟨-, -, hfits₄, t', -, -, hL₄⟩ := D.lawful.closeAccount_ok hclose
  have hreserve : (L₄ D.reserveKey).lamports.toNat =
      (L D.reserveKey).lamports.toNat + amount.toNat := by
    have hle := UInt64.le_iff_toNat_le.mp hrent
    have hsum := toNat_add_of_lt hfits₄
    rw [hL₄, Ledger.setData_lamports, L₃.moveLamports_target _ hne]
    show ((L₃ D.reserveKey).lamports + (L₃ tempKey).lamports).toNat = _
    omega
  have hsource₄ : (L₄ source).lamports = (L source).lamports - amount := by
    rw [hL₄, Ledger.setData_lamports, L₃.moveLamports_of_ne _ hst hsr, hL₃,
      L₂.moveLamports_source _ hst]
    exact congrArg (· - amount) hsource₂
  have htemp₄ : (L₄ tempKey).lamports = 0 := by
    rw [hL₄, Ledger.setData_lamports, L₃.moveLamports_source _ hne]
    exact UInt64.sub_self _
  have hspays' : amount ≤ (L source).lamports := hsource₂ ▸ hspays
  refine ⟨hspays', ?_, hreserve, ?_, ?_, fun k t hmint => hw.tokens hsource hmint,
    hw.taken hsource, ?_⟩
  · intro _
    rw [← (hw.owner hst).1]
    exact hsowner
  · intro k hk
    by_cases hkt : k = tempKey
    · rw [hkt, hempty]
      exact Nat.zero_le _
    · by_cases hkr : k = D.reserveKey
      · rw [hkr]
        omega
      · rw [hw.lamports_other hsource hk hkt hkr]
  · apply D.stakesOf_congr
    intro k hkr
    by_cases hkt : k = tempKey
    · have howner : (L₄ tempKey).owner = splTokenId := by
        obtain ⟨-, -, -, t'', ht'', -, rfl⟩ := D.lawful.closeAccount_ok hclose
        rw [Ledger.setData_owner, Ledger.moveLamports_owner]
        exact ht''.1
      rw [hkt, stakeLamports_of_owner L₄ (by rw [howner]; exact splTokenId_ne_stake),
        stakeLamports_of_owner L (by rw [htemp]; exact stakeProgramId_ne_system.symm)]
    · obtain ⟨howner₂, howner₄⟩ := hw.owner hkt
      by_cases hks : k = source
      · subst hks
        have hspl : (L k).owner ≠ stakeProgramId := by
          rw [← howner₂, hsowner]
          exact splTokenId_ne_stake
        rw [stakeLamports_of_owner L hspl,
          stakeLamports_of_owner L₄ (by rw [howner₄]; exact hspl)]
      · unfold stakeLamports
        rw [howner₄, hw.lamports_other hsource hks hkt hkr]
  · intro k hkr
    by_cases hkt : k = tempKey
    · rw [hkt, htemp₄]
      exact UInt64.zero_le
    · by_cases hks : k = source
      · rw [hks, hsource₄, UInt64.le_iff_toNat_le, UInt64.toNat_sub_of_le _ _ hspays']
        exact Nat.sub_le _ _
      · rw [hw.lamports_other hsource hks hkt hkr]
        exact UInt64.le_refl _

theorem WrappedRun.represents
    (hw : WrappedRun D amount source tempKey rentLamports L L₁ L₂ L₃ L₄)
    (h : D.Represents L s) (hsource : (L source).owner ≠ systemProgramId) :
    D.Represents L₄ (s.recount D L₄) := by
  obtain ⟨hne, -, -, -, hL₁⟩ := hw.temp_fresh
  obtain ⟨-, -, -, -, -, t, ht, hmint⟩ := hw.paid hsource
  obtain ⟨_, hcreate⟩ := hw.create
  obtain ⟨_, hpay⟩ := hw.pay
  obtain ⟨_, hclose⟩ := hw.close
  have hfresh : (L₁ tempKey).data = .zeroed TokenAccount.LEN := by
    rw [hL₁, Ledger.assign_same]
  have h₁ := h.createAccount (.inr hne) hcreate
  have h₂ := h₁.initializeAccount hfresh hw.initialise
  have htemp : tempKey ≠ s.pool.creditReserve := by
    rintro rfl
    have hdata := hfresh.symm.trans h₁.has_credit_reserve.2
    cases hdata
  have hsourceKey : source ≠ s.pool.creditReserve := by
    rintro rfl
    obtain rfl := ht.unique h₂.has_credit_reserve
    exact h.wired.mint_ne_native (h.wired.reserve_mint.symm.trans hmint)
  obtain ⟨credit', h₃, hmoved⟩ := h₂.tokenTransfer hpay
  rw [hmoved.other hsourceKey htemp] at h₃
  exact h₃.closeAccount htemp hclose

end Wrapped

/-! ## The handler -/

/-- The ledgers of a successful `Deposit`: paid, minted to the user, minted as fee,
stored. -/
structure DepositRun (D : Deployment) (chain : Chain) (s : PoolState) (amount : UInt64)
    (a : DepositAccounts) (poolAmount feeAmount : UInt64) (L₁ L₂ L₃ L' : Ledger) : Prop where
  positive : amount ≠ 0
  price : s.pool.calcPoolDepositAmount amount = some poolAmount
  fee : s.pool.calcFeeAmount poolAmount = some feeAmount
  fee_le : feeAmount ≤ poolAmount
  lamports : LamportsIn D a.sourceUser.key amount chain.ledger L₁
  represents : D.Represents L₁ (s.recount D L₁)
  mintUser : ∃ sigs, D.programs.mintTo splTokenId a.poolMint.key a.destUser.key D.withdrawKey
    (poolAmount - feeAmount) sigs L₁ = .ok L₂
  mintFee : ∃ sigs, D.programs.mintTo splTokenId a.poolMint.key s.pool.ownerFeeAccount
    D.withdrawKey feeAmount sigs L₂ = .ok L₃
  store : store D.programId D.poolKey
    (StakePool.serialize
      { s.pool with
        poolTotal := s.pool.poolTotal + poolAmount
        stakeTotal := s.pool.stakeTotal + amount }) L₃ = .ok L'

theorem depositLamports_ok {a : DepositAccounts} {withdrawBump reserveBump : UInt8}
    (h : D.Represents chain.ledger s) (ha : D.Addressed accounts)
    (hparse : DepositAccounts.parse chain accounts = .ok a)
    (hreserve : a.reserve.key = D.reserveKey) (hwithdraw : a.withdraw.key = D.withdrawKey)
    (htoken : a.tokenProgram.key = splTokenId)
    (hrun : depositLamports D.programs D.programId amount a withdrawBump reserveBump chain =
      .ok L') :
    LamportsIn D a.sourceUser.key amount chain.ledger L' ∧ D.Represents L' (s.recount D L') := by
  obtain ⟨⟨rest, haccounts⟩, hwrapped⟩ := DepositAccounts.parse_ok hparse
  unfold depositLamports at hrun
  cases hcase : a.wrapped with
  | none =>
      rw [hcase] at hrun
      simp only [bind_eq_ok, require_eq_ok] at hrun
      obtain ⟨-, -, htransfer⟩ := hrun
      rw [hreserve] at htransfer
      have hsigner : ¬D.programs.IsProgramAddress D.programId a.sourceUser.key := by
        apply ha.signer _ (D.lawful.transfer_ok htransfer).1
        rw [haccounts]
        simp
      exact ⟨transfer_lamportsIn hsigner htransfer, h.transfer htransfer⟩
  | some pair =>
      obtain ⟨temp, nativeMint⟩ := pair
      rw [hcase] at hrun hwrapped
      have hsource := hwrapped.mp rfl
      obtain ⟨_, _, _, hw⟩ := depositWrapped_ok hreserve hwithdraw htoken hrun
      exact ⟨hw.lamportsIn hsource, hw.represents h hsource⟩

theorem processDeposit_ok (h : D.Represents chain.ledger s) (ha : D.Addressed accounts)
    (hrun : processDeposit D.programs D.programId amount accounts chain = .ok L') :
    ∃ a poolAmount feeAmount L₁ L₂ L₃, DepositAccounts.parse chain accounts = .ok a ∧
      DepositRun D chain s amount a poolAmount feeAmount L₁ L₂ L₃ L' := by
  simp only [processDeposit, bind_eq_ok, require_eq_ok, okOr_eq_ok] at hrun
  obtain ⟨-, hamount, a, hparse, pool, hload, _, hwithdraw, -, hreserve, -, hfee, -, htoken, -, -,
    poolAmount, hprice, feeAmount, hfeeAmount, userAmount, huser, L₁, hlamports, L₂, hmint, L₃,
    hmintFee, hstore⟩ := hrun
  obtain ⟨⟨rest, haccounts⟩, -⟩ := DepositAccounts.parse_ok hparse
  have hkey := ha.key_eq haccounts
  obtain rfl := h.load_pool hkey hload
  rw [hkey] at hreserve hstore hwithdraw
  have hwithdrawKey := h.withdraw_checked hwithdraw
  have htokenKey : a.tokenProgram.key = splTokenId := by
    rw [← htoken]
    exact h.wired.token_program
  obtain ⟨hin, h₁⟩ := depositLamports_ok h ha hparse hreserve hwithdrawKey htokenKey hlamports
  unfold checkedSub at huser
  split at huser
  case isFalse => exact absurd huser (by simp)
  case isTrue hle =>
    obtain rfl := Option.some.inj huser
    unfold tokenMintTo at hmint hmintFee
    rw [htokenKey, hwithdrawKey] at hmint hmintFee
    rw [← hfee] at hmintFee
    exact ⟨a, poolAmount, feeAmount, L₁, L₂, L₃, hparse, hamount, hprice, hfeeAmount, hle, hin,
      h₁, ⟨_, hmint⟩, ⟨_, hmintFee⟩, hstore⟩

theorem processDeposit_refines (h : D.Represents chain.ledger s) (ha : D.Addressed accounts)
    (hrun : processDeposit D.programs D.programId amount accounts chain = .ok L') :
    ∃ a s', DepositAccounts.parse chain accounts = .ok a ∧
      PoolStep D s (.deposit amount a.poolMint.key) s' ∧ D.Represents L' s' := by
  obtain ⟨a, poolAmount, feeAmount, L₁, L₂, L₃, hparse, hd⟩ := processDeposit_ok h ha hrun
  obtain ⟨_, hmint⟩ := hd.mintUser
  obtain ⟨_, hmintFee⟩ := hd.mintFee
  obtain ⟨mint₂, credit₂, h₂, huser⟩ := hd.represents.mintTo hmint
  obtain ⟨mint₃, credit₃, h₃, hfee⟩ := h₂.mintTo hmintFee
  have h₄ := h₃.store_pool hd.store ⟨rfl, rfl, rfl, rfl, rfl, rfl, rfl, rfl⟩
  have hstakes : D.stakesOf L₁ = s.stakes := hd.lamports.stakes.trans h.stakes_eq
  have hsplit : (poolAmount - feeAmount).toNat + feeAmount.toNat = poolAmount.toNat := by
    have hle := UInt64.le_iff_toNat_le.mp hd.fee_le
    rw [UInt64.toNat_sub_of_le _ _ hd.fee_le]
    omega
  unfold PoolState.recount at h₄
  rw [hstakes] at h₄
  refine ⟨a, _, hparse, .deposit amount poolAmount a.poolMint.key mint₃ credit₃
    (L₁ D.reserveKey).lamports ⟨hd.positive, hd.price, ?_, ?_, ?_, ?_⟩, h₄⟩
  · rw [hd.lamports.reserve, h.reserve_eq]
  · intro hown
    have h₂' := huser.own hown
    have h₃' := hfee.own hown
    change mint₂.supply.toNat = s.mint.supply.toNat + _ at h₂'
    change mint₃.supply.toNat = mint₂.supply.toNat + _ at h₃'
    omega
  · intro hforeign
    exact (hfee.foreign hforeign).trans (huser.foreign hforeign)
  · exact UInt64.le_trans huser.reserve_le hfee.reserve_le

end Tenderize
