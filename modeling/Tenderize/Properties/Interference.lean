import Tenderize.Properties.Records
import Tenderize.Reference.Rules

/-!
# One credit after another

Whether a credit goes through depends on the record of its target, on the tokens behind it
and on the room left in the credit reserve.  A credit of somebody else changes all three,
and the record is the one that anybody can change: it is keyed by the target alone and
keeps the cancel authority of whoever wrote it first.
-/

namespace Tenderize

open Support

variable {D : Deployment} {c : Chain} {s : PoolState} {n m : UInt64}
  {accounts : List AccountInfo} {a b : CreditAccounts} {L' : Ledger}

/-! ## The queue -/

section Queue

variable {target cancelAuthority k : Pubkey} {credits credits' : List CreditRecord}

theorem addCredit_iff (hroom : credits.length < maxCreditRecords) :
    (∃ credits', addCredit target cancelAuthority n credits = .ok credits') ↔
      ∀ r, lookup CreditRecord.solTarget target credits = some r →
        cancelAuthority = r.cancelAuthority := by
  unfold addCredit
  cases hfound : lookup CreditRecord.solTarget target credits with
  | none =>
      simp only [bind_eq_ok, require_eq_ok, pure_eq_ok]
      constructor
      · intro _ r hr
        cases hr
      · intro _
        exact ⟨_, (), Nat.not_le.mpr hroom, rfl⟩
  | some r =>
      simp only [bind_eq_ok, require_eq_ok, pure_eq_ok]
      constructor
      · rintro ⟨_, -, hcancel, -⟩ r' hr'
        obtain rfl := Option.some.inj hr'
        exact hcancel
      · intro hcancel
        exact ⟨_, (), hcancel r rfl, rfl⟩

theorem addCredit_length (h : addCredit target cancelAuthority n credits = .ok credits') :
    credits'.length ≤ credits.length + 1 := by
  cases addCredit_effect h with
  | added r _ _ heq =>
      rw [heq, List.length_append, List.length_singleton]
  | changed r r' _ _ heq =>
      rw [heq, length_updateFirst]
      omega
  | left gone hperm =>
      have hlength := hperm.length_eq
      rw [List.length_append] at hlength
      omega

theorem queuedFor_addCredit (h : addCredit target cancelAuthority n credits = .ok credits')
    (k : Pubkey) :
    queuedFor k credits' = queuedFor k credits + if target = k then n else 0 := by
  by_cases hk : target = k
  · subst hk
    rw [if_pos rfl]
    have hself := addCredit_lookup_self h
    unfold queuedFor at hself ⊢
    rw [hself]
    rfl
  · rw [if_neg hk, UInt64.add_zero]
    unfold queuedFor
    rw [addCredit_lookup_of_ne h (Ne.symm hk)]

/-- A record can be cut by what its authority asks for, up to its amount. -/
theorem removeCredit_iff {r : CreditRecord} (info : AccountInfo)
    (hfound : lookup CreditRecord.solTarget target credits = some r)
    (hcancel : info.key = r.cancelAuthority) (hsigner : info.isSigner = true) :
    (∃ credits', removeCredit target info n credits = .ok credits') ↔ n ≤ r.tokenAmount := by
  unfold removeCredit
  simp only [hfound, bind_eq_ok, require_eq_ok]
  constructor
  · rintro ⟨_, -, -, -, -, -, henough, -⟩
    exact UInt64.not_lt.mp henough
  · intro henough
    by_cases hall : n = r.tokenAmount
    · exact ⟨_, (), hcancel, (), hsigner, (), UInt64.not_lt.mpr henough, if_pos hall⟩
    · exact ⟨_, (), hcancel, (), hsigner, (), UInt64.not_lt.mpr henough, if_neg hall⟩

end Queue

/-! ## When a credit goes through -/

/-- The accounts of the pool are the ones it names. -/
structure CreditAccounts.Named (D : Deployment) (s : PoolState) (a : CreditAccounts) : Prop where
  pool : a.stakePool.key = D.poolKey
  token : a.tokenProgram.key = splTokenId
  list : a.creditList.key = s.pool.creditList
  reserve : a.creditReserve.key = s.pool.creditReserve

/-- Whoever signs the transfer of a credit. -/
def Deployment.creditSigners (D : Deployment) (s : PoolState) (a : CreditAccounts) :
    List Pubkey :=
  D.programs.signersWith D.programId [a.burnFrom, a.creditReserve, a.withdraw]
    [authoritySeeds D.poolKey .withdraw s.pool.withdrawBumpSeed]

theorem loadCredits_named (h : D.Represents c.ledger s) (hnamed : a.Named D s)
    (hcount : s.creditList.credits.length ≤ maxCreditRecords) :
    loadCredits D.programs D.programId c.ledger a = .ok (s.pool, s.creditList) := by
  simp only [loadCredits, bind_eq_ok, require_eq_ok, pure_eq_ok]
  refine ⟨s.pool, h.loadStakePool_ok hnamed.pool, (), ?_, s.creditList,
    h.loadCreditList_ok hnamed.list hcount, (), hnamed.reserve, rfl⟩
  rw [hnamed.token]
  exact h.wired.token_program

theorem processCredit_iff (h : D.Represents c.ledger s) (ha : D.Addressed accounts)
    (hparse : CreditAccounts.parse accounts = .ok a)
    (hcount : s.creditList.credits.length ≤ maxCreditRecords) :
    processCredit D.programs D.programId n accounts c = .ok L' ↔
      n ≠ 0 ∧ a.Named D s ∧ (c.ledger a.target.key).owner = systemProgramId ∧
      ∃ credits L₁,
        addCredit a.target.key a.cancelAuthority.key n s.creditList.credits = .ok credits ∧
        D.programs.tokenTransfer splTokenId a.burnFrom.key s.pool.creditReserve a.withdraw.key n
          (D.creditSigners s a) c.ledger = .ok L₁ ∧
        store D.programId s.pool.creditList
          (CreditList.serialize { s.creditList with credits }) L₁ = .ok L' := by
  obtain ⟨rest, haccounts⟩ := CreditAccounts.parse_ok hparse
  have hkey := ha.key_eq haccounts
  simp only [processCredit, bind_eq_ok, require_eq_ok]
  constructor
  · rintro ⟨-, hpositive, a', hparse', result, hload, -, htarget, credits, hadd, L₁, hmove,
      hstore⟩
    obtain rfl := Except.ok.inj (hparse'.symm.trans hparse)
    obtain ⟨rfl, htoken, hlist, hreserve⟩ := loadCredits_ok h hkey hload
    rw [htoken, hreserve, hkey] at hmove
    rw [hlist] at hstore
    exact ⟨hpositive, ⟨hkey, htoken, hlist, hreserve⟩, htarget, credits, L₁, hadd, hmove, hstore⟩
  · rintro ⟨hpositive, hnamed, htarget, credits, L₁, hadd, hmove, hstore⟩
    refine ⟨(), hpositive, a, hparse, _, loadCredits_named h hnamed hcount, (), htarget, credits,
      hadd, L₁, ?_, ?_⟩
    · rw [hnamed.token, hnamed.reserve, hnamed.pool]
      exact hmove
    · rw [hnamed.list]
      exact hstore

/-- The conditions under which a credit goes through. -/
structure Creditable (D : Deployment) (L : Ledger) (s : PoolState) (n : UInt64)
    (a : CreditAccounts) : Prop where
  positive : n ≠ 0
  named : a.Named D s
  target : (L a.target.key).owner = systemProgramId
  cancel : ∀ r, lookup CreditRecord.solTarget a.target.key s.creditList.credits = some r →
    a.cancelAuthority.key = r.cancelAuthority
  signed : a.withdraw.key ∈ D.creditSigners s a
  tokens : ∃ t, L.HasTokenAccount a.burnFrom.key t ∧ t.mint = s.pool.poolMint ∧
    t.CanSpend a.withdraw.key n
  active : s.creditReserve.state = .initialized
  room : a.burnFrom.key ≠ s.pool.creditReserve →
    s.creditReserve.amount.toNat + n.toNat < 2 ^ 64

theorem creditable_iff (hrules : D.programs.TokenRules) (h : D.Represents c.ledger s)
    (ha : D.Addressed accounts) (hparse : CreditAccounts.parse accounts = .ok a)
    (hroom : s.creditList.credits.length < maxCreditRecords) :
    (∃ L', processCredit D.programs D.programId n accounts c = .ok L') ↔
      Creditable D c.ledger s n a := by
  have hreserve := h.has_credit_reserve
  simp only [processCredit_iff h ha hparse hroom.le]
  constructor
  · rintro ⟨L', hpositive, hnamed, htarget, credits, L₁, hadd, hmove, -⟩
    obtain ⟨-, t, r, ht, hr, -, -, hmint, -⟩ := hrules.tokenTransfer_iff.mp hmove
    obtain rfl := hr.unique hreserve
    have hpool : t.mint = s.pool.poolMint := hmint.trans h.wired.reserve_mint
    have hnative : t.mint ≠ nativeMintId := hpool ▸ h.wired.mint_ne_native
    obtain ⟨hsigned, hcan, hstate, hmoved⟩ :=
      (hrules.tokenTransfer_between ht hr hmint hnative).mp hmove
    refine ⟨hpositive, hnamed, htarget, (addCredit_iff hroom).mp ⟨_, hadd⟩, hsigned,
      ⟨t, ht, hpool, hcan⟩, hstate, ?_⟩
    intro hne
    rcases hmoved with ⟨hself, -⟩ | ⟨-, hfits, -⟩
    · exact absurd hself hne
    · exact hfits
  · rintro ⟨hpositive, hnamed, htarget, hcancel, hsigned, ⟨t, ht, hpool, hcan⟩, hstate, hfits⟩
    obtain ⟨credits, hadd⟩ := (addCredit_iff hroom).mpr hcancel
    have hmint : t.mint = s.creditReserve.mint := hpool.trans h.wired.reserve_mint.symm
    have hnative : t.mint ≠ nativeMintId := hpool ▸ h.wired.mint_ne_native
    have hmove : ∃ L₁, D.programs.tokenTransfer splTokenId a.burnFrom.key s.pool.creditReserve
        a.withdraw.key n (D.creditSigners s a) c.ledger = .ok L₁ := by
      simp only [hrules.tokenTransfer_between ht hreserve hmint hnative]
      by_cases hself : a.burnFrom.key = s.pool.creditReserve
      · exact ⟨_, hsigned, hcan, hstate, .inl ⟨hself, rfl⟩⟩
      · exact ⟨_, hsigned, hcan, hstate, .inr ⟨hself, hfits hself, rfl⟩⟩
    obtain ⟨L₁, hmove⟩ := hmove
    obtain ⟨credit', h₁, -⟩ := h.tokenTransfer hmove
    have hlength : credits.length ≤ maxCreditRecords :=
      (addCredit_length hadd).trans hroom
    obtain ⟨L', hstore⟩ := h₁.store_credits_ok { s.creditList with credits } hlength
    exact ⟨L', hpositive, hnamed, htarget, credits, L₁, hadd, hmove, hstore⟩

/-! ## What a credit leaves -/

/-- The credit reserve after a credit. -/
def PoolState.reserveAfter (s : PoolState) (n : UInt64) (a : CreditAccounts) : TokenAccount :=
  if a.burnFrom.key = s.pool.creditReserve then s.creditReserve
  else { s.creditReserve with amount := s.creditReserve.amount + n }

/-- Ledger and pool after a credit. -/
structure Credited (D : Deployment) (L : Ledger) (s : PoolState) (n : UInt64)
    (a : CreditAccounts) (L' : Ledger) (s' : PoolState) : Prop where
  represents : D.Represents L' s'
  pool : s'.pool = s.pool
  queue : addCredit a.target.key a.cancelAuthority.key n s.creditList.credits =
    .ok s'.creditList.credits
  reserve : s'.creditReserve = s.reserveAfter n a
  owners : ∀ k, (L' k).owner = (L k).owner
  tokens : ∀ k t, k ≠ s.pool.creditReserve → L.HasTokenAccount k t →
    L'.HasTokenAccount k (if k = a.burnFrom.key then t.spent a.withdraw.key n else t)

theorem credited (hrules : D.programs.TokenRules) (h : D.Represents c.ledger s)
    (ha : D.Addressed accounts) (hparse : CreditAccounts.parse accounts = .ok a)
    (hroom : s.creditList.credits.length < maxCreditRecords)
    (hrun : processCredit D.programs D.programId n accounts c = .ok L') :
    ∃ s', Credited D c.ledger s n a L' s' := by
  have hable := (creditable_iff hrules h ha hparse hroom).mp ⟨L', hrun⟩
  obtain ⟨hpositive, -, htarget, credits, L₁, hadd, hmove, hstore⟩ :=
    (processCredit_iff h ha hparse hroom.le).mp hrun
  obtain ⟨credit', -, h'⟩ :=
    CreditRun.refines h ⟨hpositive, htarget, hadd, ⟨_, hmove⟩, hstore⟩
  obtain ⟨t, ht, hpool, -⟩ := hable.tokens
  have hreserve := h.has_credit_reserve
  have hmint : t.mint = s.creditReserve.mint := hpool.trans h.wired.reserve_mint.symm
  have hnative : t.mint ≠ nativeMintId := hpool ▸ h.wired.mint_ne_native
  obtain ⟨-, -, -, hmoved⟩ :=
    (hrules.tokenTransfer_between ht hreserve hmint hnative).mp hmove
  obtain ⟨data, -, -, rfl⟩ := store_eq_ok.mp hstore
  -- token accounts are not the credit list, which belongs to the pool program
  have hother : ∀ k t, L₁.HasTokenAccount k t → k ≠ s.pool.creditList := by
    rintro k t hk rfl
    have howner := h'.has_credits.1
    rw [Ledger.setData_owner, hk.1] at howner
    exact D.ne_token howner.symm
  have howners : ∀ k, (L₁ k).owner = (c.ledger k).owner := by
    intro k
    rcases hmoved with ⟨-, rfl⟩ | ⟨-, -, rfl⟩
    · rfl
    · rw [Ledger.setData_owner, Ledger.setData_owner]
  have hreserve₁ : L₁.HasTokenAccount s.pool.creditReserve (s.reserveAfter n a) := by
    refine ⟨(howners _).trans hreserve.1, ?_⟩
    unfold PoolState.reserveAfter
    rcases hmoved with ⟨hself, rfl⟩ | ⟨hne, -, rfl⟩
    · rw [if_pos hself]
      exact hreserve.2
    · rw [if_neg hne, Ledger.setData_data_same]
  have htokens₁ : ∀ k u, k ≠ s.pool.creditReserve → c.ledger.HasTokenAccount k u →
      L₁.HasTokenAccount k (if k = a.burnFrom.key then u.spent a.withdraw.key n else u) := by
    intro k u hk hu
    rcases hmoved with ⟨hself, rfl⟩ | ⟨hne, -, rfl⟩
    · rw [if_neg (fun heq => hk (heq.trans hself))]
      exact hu
    · refine Ledger.HasTokenAccount.set_other ?_ _ hk
      by_cases heq : k = a.burnFrom.key
      · subst heq
        rw [if_pos rfl, hu.unique ht]
        exact ⟨by rw [Ledger.setData_owner]; exact ht.1, Ledger.setData_data_same _ _ _⟩
      · rw [if_neg heq]
        exact hu.set_other _ heq
  refine ⟨_, h', rfl, hadd, ?_, ?_, ?_⟩
  · exact h'.has_credit_reserve.unique (hreserve₁.set_other data (hother _ _ hreserve₁))
  · intro k
    rw [Ledger.setData_owner, howners]
  · intro k u hk hu
    have hk₁ := htokens₁ k u hk hu
    exact hk₁.set_other data (hother _ _ hk₁)

/-! ## A credit after another one -/

section After

variable {L : Ledger} {s' : PoolState}

theorem PoolState.reserveAfter_state (s : PoolState) (n : UInt64) (a : CreditAccounts) :
    (s.reserveAfter n a).state = s.creditReserve.state := by
  unfold PoolState.reserveAfter
  split <;> rfl

theorem PoolState.le_reserveAfter (hable : Creditable D L s m b) :
    s.creditReserve.amount ≤ (s.reserveAfter m b).amount := by
  unfold PoolState.reserveAfter
  split
  · exact UInt64.le_refl _
  · rename_i hne
    rw [UInt64.le_iff_toNat_le]
    change _ ≤ (s.creditReserve.amount + m).toNat
    rw [toNat_add_of_lt (hable.room hne)]
    omega

/-- Whoever could spend from the credit reserve still can after a credit. -/
theorem PoolState.canSpend_reserveAfter {authority : Pubkey} (h : D.Wired s)
    (hable : Creditable D L s m b) (hcan : s.creditReserve.CanSpend authority n) :
    (s.reserveAfter m b).CanSpend authority n := by
  obtain ⟨hstate, henough, hauthority⟩ := hcan
  have hdelegate : (s.reserveAfter m b).delegate = s.creditReserve.delegate := by
    unfold PoolState.reserveAfter
    split <;> rfl
  have howner : (s.reserveAfter m b).owner = s.creditReserve.owner := by
    unfold PoolState.reserveAfter
    split <;> rfl
  refine ⟨(s.reserveAfter_state m b).trans hstate,
    UInt64.le_trans henough (PoolState.le_reserveAfter hable), ?_⟩
  rw [hdelegate, howner, h.reserve_delegate]
  rw [h.reserve_delegate] at hauthority
  exact hauthority

theorem CreditAccounts.Named.of_pool (hnamed : a.Named D s) (hpool : s'.pool = s.pool) :
    a.Named D s' := by
  obtain ⟨hkey, htoken, hlist, hreserve⟩ := hnamed
  rw [← hpool] at hlist hreserve
  exact ⟨hkey, htoken, hlist, hreserve⟩

/-- What a credit of `b` must leave for the one of `a` to go through. -/
structure Passable (L : Ledger) (s : PoolState) (n : UInt64) (a : CreditAccounts) (m : UInt64)
    (b : CreditAccounts) : Prop where
  cancel : b.target.key = a.target.key → a.cancelAuthority.key = b.cancelAuthority.key
  tokens : a.burnFrom.key ≠ s.pool.creditReserve → b.burnFrom.key = a.burnFrom.key →
    ((L.tokenAt a.burnFrom.key).spent b.withdraw.key m).CanSpend a.withdraw.key n
  room : a.burnFrom.key ≠ s.pool.creditReserve → b.burnFrom.key ≠ s.pool.creditReserve →
    s.creditReserve.amount.toNat + m.toNat + n.toNat < 2 ^ 64

theorem Ledger.HasTokenAccount.tokenAt_eq {k : Pubkey} {t : TokenAccount}
    (h : L.HasTokenAccount k t) : L.tokenAt k = t := by
  unfold Ledger.tokenAt
  rw [h.2]

theorem Credited.passable (hB : Credited D L s m b L' s') (hableB : Creditable D L s m b)
    (hable : Creditable D L s n a) (hafter : Creditable D L' s' n a) : Passable L s n a m b := by
  obtain ⟨t, ht, -, -⟩ := hable.tokens
  constructor
  · intro hsame
    have hfound := addCredit_lookup_self hB.queue
    rw [hsame] at hfound
    exact hafter.cancel _ hfound
  · intro hne hsame
    obtain ⟨t', ht', -, hcan⟩ := hafter.tokens
    have hspent := hB.tokens _ t hne ht
    rw [if_pos hsame.symm] at hspent
    rw [ht.tokenAt_eq, hspent.unique ht']
    exact hcan
  · intro hne hneB
    have hroom := hafter.room
    rw [hB.pool, hB.reserve] at hroom
    unfold PoolState.reserveAfter at hroom
    rw [if_neg hneB] at hroom
    have hsum : (s.creditReserve.amount + m).toNat + n.toNat < 2 ^ 64 := hroom hne
    rw [toNat_add_of_lt (hableB.room hneB)] at hsum
    exact hsum

theorem Credited.creditable (hB : Credited D L s m b L' s') (h : D.Represents L s)
    (hableB : Creditable D L s m b) (hable : Creditable D L s n a)
    (hpass : Passable L s n a m b) : Creditable D L' s' n a := by
  obtain ⟨t, ht, hmint, hcan⟩ := hable.tokens
  refine ⟨hable.positive, hable.named.of_pool hB.pool, ?_, ?_, ?_, ?_, ?_, ?_⟩
  · rw [hB.owners]
    exact hable.target
  · intro r hr
    by_cases hsame : b.target.key = a.target.key
    · have hfound := addCredit_lookup_self hB.queue
      rw [hsame, hr] at hfound
      rw [Option.some.inj hfound]
      exact hpass.cancel hsame
    · rw [addCredit_lookup_of_ne hB.queue (Ne.symm hsame)] at hr
      exact hable.cancel r hr
  · have hsigned := hable.signed
    unfold Deployment.creditSigners at hsigned ⊢
    rw [hB.pool]
    exact hsigned
  · rw [hB.pool]
    by_cases hself : a.burnFrom.key = s.pool.creditReserve
    · rw [hself] at ht ⊢
      obtain rfl := ht.unique h.has_credit_reserve
      have hreserve := hB.represents.has_credit_reserve
      rw [hB.pool, hB.reserve] at hreserve
      have hmint' := hB.represents.wired.reserve_mint
      rw [hB.pool, hB.reserve] at hmint'
      exact ⟨_, hreserve, hmint', PoolState.canSpend_reserveAfter h.wired hableB hcan⟩
    · have hafter := hB.tokens _ t hself ht
      by_cases hsame : b.burnFrom.key = a.burnFrom.key
      · rw [if_pos hsame.symm] at hafter
        have hspend := hpass.tokens hself hsame
        rw [ht.tokenAt_eq] at hspend
        exact ⟨_, hafter, (TokenAccount.spent_mint _ _ _).trans hmint, hspend⟩
      · rw [if_neg (Ne.symm hsame)] at hafter
        exact ⟨t, hafter, hmint, hcan⟩
  · rw [hB.reserve, PoolState.reserveAfter_state]
    exact hable.active
  · rw [hB.pool, hB.reserve]
    intro hne
    unfold PoolState.reserveAfter
    split
    · exact hable.room hne
    · rename_i hneB
      change (s.creditReserve.amount + m).toNat + n.toNat < 2 ^ 64
      rw [toNat_add_of_lt (hableB.room hneB)]
      exact hpass.room hne hneB

end After

/-! ## Cancelling -/

/-- The accounts of an `Uncredit` that takes a credit back, signed by its cancel authority. -/
def CreditAccounts.cancelling (D : Deployment) (a : CreditAccounts) : List AccountInfo :=
  [a.stakePool, a.creditList, a.creditReserve, ⟨D.withdrawKey, false⟩, a.burnFrom, a.target,
    ⟨a.cancelAuthority.key, true⟩, a.tokenProgram]

theorem Deployment.Wired.canSpend (h : D.Wired s) (hstate : s.creditReserve.state = .initialized)
    (henough : n ≤ s.creditReserve.amount) : s.creditReserve.CanSpend D.withdrawKey n := by
  refine ⟨hstate, henough, ?_⟩
  rw [h.reserve_delegate, if_neg nofun]
  exact h.reserve_owner.symm

section Cancel

variable {L : Ledger} {s' : PoolState} {sigs : List Pubkey}

/-- The tokens of a credit can go back where they came from. -/
theorem Credited.refund (hrules : D.programs.TokenRules) (hA : Credited D L s n a L' s')
    (h : D.Represents L s) (hable : Creditable D L s n a) (hsigned : D.withdrawKey ∈ sigs) :
    ∃ L₁, D.programs.tokenTransfer splTokenId s.pool.creditReserve a.burnFrom.key D.withdrawKey n
      sigs L' = .ok L₁ := by
  obtain ⟨t, ht, hmint, hstate, henough, -⟩ := hable.tokens
  have h' := hA.represents
  have hreserve := h'.has_credit_reserve
  have hreserveMint := h'.wired.reserve_mint
  have hnative := h'.wired.mint_ne_native
  have hactive : s'.creditReserve.state = .initialized := by
    rw [hA.reserve, PoolState.reserveAfter_state]
    exact hable.active
  rw [hA.pool] at hreserve hreserveMint hnative
  rw [← hreserveMint] at hnative
  by_cases hself : a.burnFrom.key = s.pool.creditReserve
  · rw [hself] at ht ⊢
    obtain rfl := ht.unique h.has_credit_reserve
    have hcan := h'.wired.canSpend hactive (n := n) (by
      rw [hA.reserve]
      exact UInt64.le_trans henough (PoolState.le_reserveAfter hable))
    refine ⟨L', (hrules.tokenTransfer_between hreserve hreserve rfl hnative).mpr
      ⟨hsigned, hcan, hactive, .inl ⟨rfl, rfl⟩⟩⟩
  · have hsource := hA.tokens _ t hself ht
    rw [if_pos rfl] at hsource
    have hamount : s'.creditReserve.amount = s.creditReserve.amount + n := by
      rw [hA.reserve]
      unfold PoolState.reserveAfter
      rw [if_neg hself]
    have hcan := h'.wired.canSpend hactive (n := n) (by
      have hroom := hable.room hself
      rw [hamount, UInt64.le_iff_toNat_le, toNat_add_of_lt hroom]
      omega)
    refine ⟨_, (hrules.tokenTransfer_between hreserve hsource ?_ hnative).mpr
      ⟨hsigned, hcan, ?_, .inr ⟨Ne.symm hself, ?_, rfl⟩⟩⟩
    · rw [TokenAccount.spent_mint, hreserveMint, hmint]
    · rw [TokenAccount.spent_state]
      exact hstate
    · have hle := UInt64.le_iff_toNat_le.mp henough
      have hlt := t.amount.toNat_lt
      rw [TokenAccount.spent_amount, UInt64.toNat_sub_of_le _ _ henough]
      omega

/-- Right after a credit, its cancel authority gets the tokens back unless the amount of
the record wrapped around. -/
theorem Credited.uncredit_iff (hrules : D.programs.TokenRules) (hA : Credited D L s n a L' s')
    (h : D.Represents L s) (hable : Creditable D L s n a)
    (hcount : s'.creditList.credits.length ≤ maxCreditRecords) :
    (∃ LU, processUncredit D.programs D.programId n (a.cancelling D) { c with ledger := L' } =
        .ok LU) ↔ n ≤ queuedFor a.target.key s.creditList.credits + n := by
  have h' : D.Represents ({ c with ledger := L' } : Chain).ledger s' := hA.represents
  have hnamed : a.Named D s' := hable.named.of_pool hA.pool
  have hremove := removeCredit_iff (n := n) ⟨a.cancelAuthority.key, true⟩
    (addCredit_lookup_self hA.queue) rfl rfl
  -- `Uncredit` reads the same accounts, except for the two the cancelling user replaces
  let cancelled : CreditAccounts :=
    { a with withdraw := ⟨D.withdrawKey, false⟩, cancelAuthority := ⟨a.cancelAuthority.key, true⟩ }
  have hnamed' : cancelled.Named D s' := ⟨hnamed.pool, hnamed.token, hnamed.list, hnamed.reserve⟩
  have hload := loadCredits_named h' hnamed' hcount
  rw [← hremove]
  simp only [processUncredit, bind_eq_ok]
  constructor
  · rintro ⟨LU, a', hparse, result, hload', credits, hcredits, -⟩
    obtain rfl : cancelled = a' := Except.ok.inj hparse
    obtain rfl := Except.ok.inj (hload.symm.trans hload')
    exact ⟨credits, hcredits⟩
  · rintro ⟨credits, hcredits⟩
    obtain ⟨L₁, hmove⟩ := hA.refund hrules h hable
      (hA.represents.withdrawKey_signs [cancelled.burnFrom, cancelled.creditReserve,
        cancelled.withdraw])
    rw [← hA.pool] at hmove
    obtain ⟨credit', h₁, -⟩ := hA.represents.tokenTransfer hmove
    obtain ⟨LU, hstore⟩ := h₁.store_credits_ok { s'.creditList with credits }
      ((removeCredit_effect hcredits).length_le hcount)
    refine ⟨LU, cancelled, rfl, _, hload, credits, hcredits, L₁, ?_, ?_⟩
    · rw [hnamed'.token, hnamed'.reserve, hnamed'.pool]
      exact hmove
    · rw [hnamed'.list]
      exact hstore

end Cancel

/-! ## Two users -/

/-- The conditions on two credits under which the one of `b` leaves the one of `a` alone. -/
structure Undisturbed (L : Ledger) (s : PoolState) (n : UInt64) (a : CreditAccounts)
    (m : UInt64) (b : CreditAccounts) : Prop extends Passable L s n a m b where
  queue : n ≤ queuedFor a.target.key s.creditList.credits +
    (if b.target.key = a.target.key then m else 0) + n

/-- With room for both, a credit still goes through after one of somebody else and can be
cancelled by its own authority, exactly if the two do not name different authorities for
one target, do not spend the same tokens and wrap no amount around. -/
theorem credit_undisturbed_iff (hrules : D.programs.TokenRules)
    (hc : (D.system D.Outside).Reachable c)
    (hroom : (D.stateOf c.ledger).creditList.credits.length < maxCreditRecords - 1)
    {accountsA accountsB : List AccountInfo} (haA : D.Addressed accountsA)
    (haB : D.Addressed accountsB) (hparseA : CreditAccounts.parse accountsA = .ok a)
    (hparseB : CreditAccounts.parse accountsB = .ok b) {LA LB : Ledger}
    (hrunA : dispatch D.programs D.programId (.credit n) accountsA c = .ok LA)
    (hrunB : dispatch D.programs D.programId (.credit m) accountsB c = .ok LB) :
    (∃ LAB LU,
      dispatch D.programs D.programId (.credit n) accountsA { c with ledger := LB } = .ok LAB ∧
      dispatch D.programs D.programId (.uncredit n) (a.cancelling D) { c with ledger := LAB } =
        .ok LU) ↔
      Undisturbed c.ledger (D.stateOf c.ledger) n a m b := by
  have h := reachable_represents hc
  have hroom' : (D.stateOf c.ledger).creditList.credits.length < maxCreditRecords := by omega
  have hableA := (creditable_iff hrules h haA hparseA hroom').mp ⟨LA, hrunA⟩
  have hableB := (creditable_iff hrules h haB hparseB hroom').mp ⟨LB, hrunB⟩
  obtain ⟨sB, hB⟩ := credited hrules h haB hparseB hroom' hrunB
  have hlengthB := addCredit_length hB.queue
  have hroomB : sB.creditList.credits.length < maxCreditRecords := by omega
  have hB' : D.Represents ({ c with ledger := LB } : Chain).ledger sB := hB.represents
  have hqueued := queuedFor_addCredit hB.queue a.target.key
  constructor
  · rintro ⟨LAB, LU, hrunAB, hrunU⟩
    have hafter := (creditable_iff hrules hB' haA hparseA hroomB).mp ⟨LAB, hrunAB⟩
    obtain ⟨sAB, hAB⟩ := credited hrules hB' haA hparseA hroomB hrunAB
    have hlengthAB := addCredit_length hAB.queue
    have hcancel := (hAB.uncredit_iff (c := c) hrules hB' hafter (by omega)).mp ⟨LU, hrunU⟩
    rw [hqueued] at hcancel
    exact ⟨hB.passable hableB hableA hafter, hcancel⟩
  · rintro ⟨hpass, hcancel⟩
    rw [← hqueued] at hcancel
    have hafter := hB.creditable h hableB hableA hpass
    obtain ⟨LAB, hrunAB⟩ := (creditable_iff hrules hB' haA hparseA hroomB).mpr hafter
    obtain ⟨sAB, hAB⟩ := credited hrules hB' haA hparseA hroomB hrunAB
    have hlengthAB := addCredit_length hAB.queue
    obtain ⟨LU, hrunU⟩ := (hAB.uncredit_iff (c := c) hrules hB' hafter (by omega)).mpr hcancel
    exact ⟨LAB, LU, hrunAB, hrunU⟩

section

open Reference

/-- A credit that nobody signs: both token accounts approved the withdraw authority. -/
def creditOf (burnFrom target cancelAuthority : Pubkey) : List AccountInfo :=
  [plain poolKey, plain creditListKey, plain creditReserveKey, plain withdrawKey,
    plain burnFrom, plain target, plain cancelAuthority, plain splTokenId]

/-- The user and the owner of the fee account both hold tokens. -/
def twoHolders : List Action :=
  [deposit 100000000 userTokensKey mintKey, deposit 1000000 feeKey mintKey]

/-- What the condition reads of the pool. -/
def queueOf (L : Ledger) : Nat × UInt64 × UInt64 :=
  ((deployment.stateOf L).creditList.credits.length, (deployment.stateOf L).creditReserve.amount,
    queuedFor userKey (deployment.stateOf L).creditList.credits)

theorem credit_undisturbed_iff_friend :
    ∃ c LB LAB LU, execute anything twoHolders = .ok c ∧
      dispatch programs programId (.credit 1000) (creditOf feeKey friendKey friendKey) c =
        .ok LB ∧
      dispatch programs programId (.credit 5000) (creditOf userTokensKey userKey userKey)
        { c with ledger := LB } = .ok LAB ∧
      dispatch programs programId (.uncredit 5000)
        [plain poolKey, plain creditListKey, plain creditReserveKey, plain withdrawKey,
          plain userTokensKey, plain userKey, signer userKey, plain splTokenId]
        { c with ledger := LAB } = .ok LU := by
  have hrun : (do
      let c ← execute anything twoHolders
      let _ ← dispatch programs programId (.credit 5000) (creditOf userTokensKey userKey userKey) c
      let _ ← dispatch programs programId (.credit 1000) (creditOf feeKey friendKey friendKey) c
      pure (queueOf c.ledger)) = .ok (0, 0, 0) := by
    decide +kernel
  simp only [bind_eq_ok, pure_eq_ok] at hrun
  obtain ⟨c, hc, LA, hLA, LB, hLB, hqueue⟩ := hrun
  obtain ⟨hlength, hrest⟩ := Prod.mk.inj hqueue
  obtain ⟨hamount, hqueued⟩ := Prod.mk.inj hrest
  have hroom : (deployment.stateOf c.ledger).creditList.credits.length < maxCreditRecords - 1 := by
    rw [hlength]
    decide
  obtain ⟨LAB, LU, hAB, hU⟩ := (credit_undisturbed_iff tokenRules (execute_anything_reachable hc)
    hroom (addressed_spec (by decide)) (addressed_spec (by decide)) rfl rfl hLA hLB).mpr
    { cancel := fun hsame => absurd hsame (by decide)
      tokens := fun _ hsame => absurd hsame (by decide)
      room := fun _ _ => by
        rw [hamount]
        decide
      queue := by
        change _ ≤ queuedFor userKey _ + _ + _
        rw [hqueued]
        decide }
  exact ⟨c, LB, LAB, LU, hc, hLB, hAB, hU⟩

/-- One token queued for the user under another cancel authority blocks the user's credit. -/
theorem credit_blocked_by_foreign_record :
    ∃ c LA LB, (deployment.system deployment.Outside).Reachable c ∧
      (deployment.stateOf c.ledger).creditList.credits.length < maxCreditRecords - 1 ∧
      deployment.Addressed (creditOf userTokensKey userKey userKey) ∧
      deployment.Addressed (creditOf feeKey userKey friendKey) ∧
      (∀ info ∈ creditOf feeKey userKey friendKey, info.isSigner = false) ∧
      dispatch programs programId (.credit 5000) (creditOf userTokensKey userKey userKey) c =
        .ok LA ∧
      dispatch programs programId (.credit 1) (creditOf feeKey userKey friendKey) c = .ok LB ∧
      dispatch programs programId (.credit 5000) (creditOf userTokensKey userKey userKey)
        { c with ledger := LB } = .error .invalidArgument := by
  have hrun : (do
      let c ← execute anything twoHolders
      let _ ← dispatch programs programId (.credit 5000) (creditOf userTokensKey userKey userKey) c
      let LB ← dispatch programs programId (.credit 1) (creditOf feeKey userKey friendKey) c
      pure ((queueOf c.ledger).1,
        (dispatch programs programId (.credit 5000) (creditOf userTokensKey userKey userKey)
          { c with ledger := LB }).map (fun _ => ()))) =
        .ok (0, .error .invalidArgument) := by
    decide +kernel
  simp only [bind_eq_ok, pure_eq_ok] at hrun
  obtain ⟨c, hc, LA, hLA, LB, hLB, hresult⟩ := hrun
  obtain ⟨hlength, hblocked⟩ := Prod.mk.inj hresult
  refine ⟨c, LA, LB, execute_anything_reachable hc, ?_, addressed_spec (by decide),
    addressed_spec (by decide), by decide, hLA, hLB, map_eq_error.mp hblocked⟩
  change (queueOf c.ledger).1 < _
  rw [hlength]
  decide

end

end Tenderize
