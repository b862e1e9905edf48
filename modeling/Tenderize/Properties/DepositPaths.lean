import Tenderize.Properties.ReserveFloor
import Tenderize.Refinement.Complete
import Tenderize.Refinement.Owners
import Tenderize.Reference.Rules

/-!
# The two ways to deposit

`Deposit` takes lamports from a system account, or wrapped SOL through the temp account.  The
balance check they share counts the lamports that are about to arrive, but on the second way
the reserve has to lend the rent of the temp account before they do.
-/

namespace Tenderize

open Support

/-! ## What minting sees of a ledger -/

/-- The account is neither a mint nor a token account of the mint `m`. -/
def Account.Apart (m : Pubkey) (x : Account) : Prop :=
  x.owner = splTokenId → (∀ t, x.data = .tokenAccount t → t.mint ≠ m) ∧ ∀ y, x.data ≠ .mint y

theorem Account.apart_of_owner {m : Pubkey} {x : Account} (h : x.owner ≠ splTokenId) :
    x.Apart m :=
  fun howner => absurd howner h

theorem Account.apart_of_token {m : Pubkey} {x : Account} {t : TokenAccount}
    (hdata : x.data = .tokenAccount t) (hmint : t.mint ≠ m) : x.Apart m := by
  refine fun _ => ⟨fun t' ht' => ?_, fun y hy => ?_⟩
  · obtain rfl := AccountData.tokenAccount.inj (hdata.symm.trans ht')
    exact hmint
  · cases hdata.symm.trans hy

theorem Ledger.HasPool.apart {m programId key : Pubkey} {pool : StakePool} {L : Ledger}
    (h : L.HasPool programId key pool) : (L key).Apart m := by
  obtain ⟨-, len, -, hdata⟩ := h
  refine fun _ => ⟨fun t ht => ?_, fun y hy => ?_⟩
  · cases hdata.symm.trans ht
  · cases hdata.symm.trans hy

/-- The ledgers differ only in accounts apart from the mint. -/
def MintAlike (m : Pubkey) (L L' : Ledger) : Prop :=
  ∀ k, L' k = L k ∨ (L k).Apart m ∧ (L' k).Apart m

namespace MintAlike

variable {m k : Pubkey} {L L' L'' : Ledger}

theorem symm (h : MintAlike m L L') : MintAlike m L' L :=
  fun k => (h k).imp Eq.symm And.symm

theorem trans (h : MintAlike m L L') (h' : MintAlike m L' L'') : MintAlike m L L'' := by
  intro k
  rcases h k with heq | ⟨hL, hL'⟩
  · rw [← heq]
    exact h' k
  · rcases h' k with heq' | ⟨-, hL''⟩
    · exact .inr ⟨hL, heq' ▸ hL'⟩
    · exact .inr ⟨hL, hL''⟩

theorem eq_of_token {t : TokenAccount} (h : MintAlike m L L') (ht : L.HasTokenAccount k t)
    (hmint : t.mint = m) : L' k = L k :=
  (h k).resolve_right fun hapart => (hapart.1 ht.1).1 t ht.2 hmint

theorem eq_of_mint {y : Mint} (h : MintAlike m L L') (hy : L.HasMint k y) : L' k = L k :=
  (h k).resolve_right fun hapart => (hapart.1 hy.1).2 y hy.2

theorem setData (h : MintAlike m L L') (hk : L' k = L k) (data : AccountData) :
    MintAlike m (L.setData k data) (L'.setData k data) := by
  intro j
  by_cases hj : j = k
  · left
    rw [hj, Ledger.setData, Ledger.setData, Ledger.set_same, Ledger.set_same, hk]
  · rw [L.setData_of_ne data hj, L'.setData_of_ne data hj]
    exact h j

theorem tokensOf_eq (h : MintAlike m L L') (k : Pubkey) : tokensOf L' m k = tokensOf L m k := by
  rcases h k with heq | ⟨hL, hL'⟩
  · unfold tokensOf
    rw [heq]
  · rw [tokensOf_of_not fun ⟨t, ht, hmint⟩ => (hL' ht.1).1 t ht.2 hmint,
      tokensOf_of_not fun ⟨t, ht, hmint⟩ => (hL ht.1).1 t ht.2 hmint]

/-- Tokens that can be minted on one ledger can be minted on the other. -/
theorem mintTo {P : Programs} {rent : Rent} (hP : P.Lawful) (hR : P.WrapRules rent)
    {account authority : Pubkey} {n : UInt64} {sigs : List Pubkey} {L₁ : Ledger}
    (h : MintAlike m L L') (hcall : P.mintTo splTokenId m account authority n sigs L = .ok L₁) :
    ∃ L₁', P.mintTo splTokenId m account authority n sigs L' = .ok L₁' ∧ MintAlike m L₁ L₁' := by
  obtain ⟨t, y, ht, hy, hmint, -, -, -, -, rfl⟩ := hP.mintTo_ok hcall
  have haccount := h.eq_of_token ht hmint
  have hmintKey := h.eq_of_mint hy
  obtain ⟨L₁', hcall'⟩ := hR.mintTo_local hcall haccount hmintKey
  obtain ⟨t', y', ht', hy', -, -, -, -, -, rfl⟩ := hP.mintTo_ok hcall'
  obtain rfl : t' = t := AccountData.tokenAccount.inj (ht'.2.symm.trans (haccount ▸ ht.2))
  obtain rfl : y' = y := AccountData.mint.inj (hy'.2.symm.trans (hmintKey ▸ hy.2))
  have hne : m ≠ account := by
    rintro rfl
    cases ht.2.symm.trans hy.2
  refine ⟨_, hcall', (h.setData haccount _).setData ?_ _⟩
  rw [L'.setData_of_ne _ hne, L.setData_of_ne _ hne, hmintKey]

end MintAlike

/-! ## The reserve belongs to the system program -/

section Reserve

variable {D : Deployment} {W : Set Pubkey} {c c' : Chain}

variable (D W) in
/-- The chain holds a pool with validators in `W`, and the system program the reserve. -/
structure Deployment.HoldsReserve (c : Chain) : Prop where
  pool : D.HoldsPool W c
  owner : (c.ledger D.reserveKey).owner = systemProgramId

theorem holdsReserve_reachable (hW : ∀ v ∈ W, ∀ i, D.stakeKey v i ≠ D.reserveKey)
    (htemp : D.tempKey ≠ D.reserveKey)
    (h : ((D.system D.Outside).restrict (fun _ e => e.AddsIn W)).Reachable c) :
    D.HoldsReserve W c := by
  induction h with
  | @init c hc =>
      obtain ⟨s, hs, hfresh⟩ := Deployment.Genesis.represents hc
      obtain ⟨c₀, init, accounts, a, hparse, haccounts, -, hrun⟩ := hc
      refine ⟨⟨hs.eq_stateOf ▸ hs, ?_⟩, ?_⟩
      · rw [← hs.eq_stateOf, hfresh.validators]
        exact fun v hv => absurd hv List.not_mem_nil
      · rw [processInitialize_owners (T := ∅) hparse haccounts.token_program hrun _ id]
        exact haccounts.reserve
  | @step c c' e _ hstep ih =>
      obtain ⟨⟨hrep, hnames⟩, howner⟩ := ih
      obtain ⟨hevent, hadds⟩ := hstep
      cases e with
      | instruction i accounts =>
          obtain ⟨ha, L', hrun, rfl⟩ := hevent
          obtain ⟨op, s', hpool, h', hmatch⟩ := dispatch_refines False hrep ha i hrun
          refine ⟨⟨h'.eq_stateOf ▸ h', ?_⟩, ?_⟩
          · rw [← h'.eq_stateOf]
            exact hpool.namesEffect.namesIn (hmatch.addsIn hadds) hnames
          · have hstakes : StakesIn {k | k ≠ D.reserveKey} D
                (D.stateOf c.ledger).list.validators :=
              fun r hr i => hW _ (hnames _ (List.mem_map_of_mem hr)) i
            have hkept := dispatch_owners hrep ha htemp hstakes hrun D.reserveKey (· rfl)
            exact hkept.trans howner
      | outside =>
          obtain ⟨s', hpool, h'⟩ := hrep.outside hevent False.elim
          refine ⟨⟨h'.eq_stateOf ▸ h', ?_⟩, ?_⟩
          · rw [← h'.eq_stateOf]
            exact hpool.namesEffect.namesIn (fun v hv => by cases hv) hnames
          · rcases hevent.owners _ D.reserveKey_ownAddress with hsame | ⟨-, hsystem⟩
            · exact hsame.trans howner
            · exact hsystem

end Reserve

/-! ## The accounts of a deposit -/

namespace Deployment

variable (D : Deployment) (s : PoolState)

/-- The accounts of a `Deposit` into the pool, up to the token program. -/
def depositInfos (source : AccountInfo) (dest : Pubkey) : List AccountInfo :=
  [⟨D.poolKey, false⟩, ⟨D.withdrawKey, false⟩, ⟨D.reserveKey, false⟩, source, ⟨dest, false⟩,
    ⟨s.pool.ownerFeeAccount, false⟩, ⟨s.pool.poolMint, false⟩, ⟨rentId, false⟩,
    ⟨systemProgramId, false⟩, ⟨splTokenId, false⟩]

def nativeDeposit (source dest : Pubkey) : List AccountInfo :=
  D.depositInfos s ⟨source, true⟩ dest

def wrappedDeposit (source dest : Pubkey) : List AccountInfo :=
  D.depositInfos s ⟨source, false⟩ dest ++ [⟨D.tempKey, false⟩, ⟨nativeMintId, false⟩]

def depositAccounts (source : AccountInfo) (dest : Pubkey)
    (wrapped : Option (AccountInfo × AccountInfo)) : DepositAccounts :=
  ⟨⟨D.poolKey, false⟩, ⟨D.withdrawKey, false⟩, ⟨D.reserveKey, false⟩, source, ⟨dest, false⟩,
    ⟨s.pool.ownerFeeAccount, false⟩, ⟨s.pool.poolMint, false⟩, ⟨rentId, false⟩,
    ⟨systemProgramId, false⟩, ⟨splTokenId, false⟩, wrapped⟩

/-- Those the program signs for when it signs as the withdraw authority. -/
def withdrawSigners : List Pubkey :=
  D.programs.signersWith D.programId []
    [authoritySeeds D.poolKey .withdraw s.pool.withdrawBumpSeed]

/-- Mint the tokens of a deposit to the user and to the owner. -/
def mintShares (dest : Pubkey) (poolAmount feeAmount : UInt64) (L : Ledger) :
    Except ProgramError Ledger := do
  let L ← D.programs.mintTo splTokenId s.pool.poolMint dest D.withdrawKey
    (poolAmount - feeAmount) (D.withdrawSigners s) L
  D.programs.mintTo splTokenId s.pool.poolMint s.pool.ownerFeeAccount D.withdrawKey feeAmount
    (D.withdrawSigners s) L

end Deployment

/-- The pool after a deposit. -/
def StakePool.deposited (pool : StakePool) (amount poolAmount : UInt64) : StakePool :=
  { pool with
    poolTotal := pool.poolTotal + poolAmount
    stakeTotal := pool.stakeTotal + amount }

section Deposit

variable {D : Deployment} {c : Chain} {s : PoolState} {amount : UInt64} {L' : Ledger}
  {source dest : Pubkey}

theorem mintShares_alike {rent : Rent} (hR : D.programs.WrapRules rent)
    {poolAmount feeAmount : UInt64} {L L₁ L₂ : Ledger} (h : MintAlike s.pool.poolMint L L₁)
    (hmint : D.mintShares s dest poolAmount feeAmount L = .ok L₂) :
    ∃ L₃, D.mintShares s dest poolAmount feeAmount L₁ = .ok L₃ ∧
      MintAlike s.pool.poolMint L₂ L₃ := by
  simp only [Deployment.mintShares, bind_eq_ok] at hmint ⊢
  obtain ⟨L₄, huser, hfee⟩ := hmint
  obtain ⟨L₅, huser', halike⟩ := h.mintTo D.lawful hR huser
  obtain ⟨L₃, hfee', halike'⟩ := halike.mintTo D.lawful hR hfee
  exact ⟨L₃, ⟨L₅, huser', hfee'⟩, halike'⟩

theorem parse_nativeDeposit (hsource : (c.ledger source).owner = systemProgramId) :
    DepositAccounts.parse c (D.nativeDeposit s source dest) =
      .ok (D.depositAccounts s ⟨source, true⟩ dest none) := by
  change (if (c.ledger source).owner ≠ systemProgramId then _ else _) = _
  rw [if_neg (not_not_intro hsource)]
  rfl

theorem parse_wrappedDeposit (hsource : (c.ledger source).owner ≠ systemProgramId) :
    DepositAccounts.parse c (D.wrappedDeposit s source dest) =
      .ok (D.depositAccounts s ⟨source, false⟩ dest
        (some (⟨D.tempKey, false⟩, ⟨nativeMintId, false⟩))) := by
  change (if (c.ledger source).owner ≠ systemProgramId then _ else _) = _
  rw [if_pos hsource]
  rfl

/-- The handler on the accounts of the pool: checks, lamports, tokens and the record. -/
theorem processDeposit_named_iff {accounts : List AccountInfo} {sourceInfo : AccountInfo}
    {wrapped : Option (AccountInfo × AccountInfo)} (h : D.Represents c.ledger s)
    (hparse : DepositAccounts.parse c accounts =
      .ok (D.depositAccounts s sourceInfo dest wrapped)) :
    processDeposit D.programs D.programId amount accounts c = .ok L' ↔
      amount ≠ 0 ∧ ¬s.reserve + amount < minReserveBalance c.rent ∧
      ∃ poolAmount feeAmount, s.pool.calcPoolDepositAmount amount = some poolAmount ∧
        s.pool.calcFeeAmount poolAmount = some feeAmount ∧ feeAmount ≤ poolAmount ∧
        ∃ L₁ L₂, depositLamports D.programs D.programId amount
            (D.depositAccounts s sourceInfo dest wrapped) s.pool.withdrawBumpSeed
            (getReserveAddress D.programs D.programId D.poolKey).2 c = .ok L₁ ∧
          D.mintShares s dest poolAmount feeAmount L₁ = .ok L₂ ∧
          store D.programId D.poolKey (StakePool.serialize (s.pool.deposited amount poolAmount))
            L₂ = .ok L' := by
  simp only [processDeposit, bind_eq_ok, require_eq_ok, okOr_eq_ok, ← h.reserve_eq,
    Deployment.mintShares]
  constructor
  · rintro ⟨-, hpositive, a, hparse', pool, hload, -, -, -, -, -, -, -, -, -, hbalance, poolAmount,
      hprice, feeAmount, hfee, userAmount, huser, L₁, hlamports, L₂, hmint, L₃, hmintFee, hstore⟩
    obtain rfl := Except.ok.inj (hparse'.symm.trans hparse)
    obtain rfl := h.load_pool rfl hload
    unfold checkedSub at huser
    split at huser
    case isFalse => cases huser
    case isTrue hle =>
      obtain rfl := Option.some.inj huser
      exact ⟨hpositive, hbalance, poolAmount, feeAmount, hprice, hfee, hle, L₁, L₃, hlamports,
        ⟨L₂, hmint, hmintFee⟩, hstore⟩
  · rintro ⟨hpositive, hbalance, poolAmount, feeAmount, hprice, hfee, hle, L₁, L₃, hlamports,
      ⟨L₂, hmint, hmintFee⟩, hstore⟩
    refine ⟨(), hpositive, _, hparse, s.pool, h.loadStakePool_ok rfl, (), ?_, (), rfl, (), rfl, (),
      h.wired.token_program, (), hbalance, poolAmount, hprice, feeAmount, hfee,
      poolAmount - feeAmount, if_pos hle, L₁, hlamports, L₂, hmint, L₃, hmintFee, hstore⟩
    exact checkAuthority_eq_ok.mpr h.wired.withdraw_bump

/-! ## Lamports from a system account -/

variable (D) in
/-- A system account that can pay the amount. -/
structure PaysLamports (L : Ledger) (source : Pubkey) (amount : UInt64) : Prop where
  owner : (L source).owner = systemProgramId
  ordinary : ¬D.programs.IsProgramAddress D.programId source
  enough : amount ≤ (L source).lamports

section Native

variable (hS : D.programs.SystemRules) (h : D.Represents c.ledger s)
  (hpays : PaysLamports D c.ledger source amount)

theorem PaysLamports.ne_reserve {L : Ledger} (hpays : PaysLamports D L source amount) :
    source ≠ D.reserveKey := by
  rintro rfl
  exact hpays.ordinary D.reserveKey_isProgramAddress

include hS h hpays in
theorem nativeDeposit_lamports (hbalance : ¬s.reserve + amount < minReserveBalance c.rent)
    {withdrawBump reserveBump : UInt8} {L₁ : Ledger} :
    depositLamports D.programs D.programId amount (D.depositAccounts s ⟨source, true⟩ dest none)
        withdrawBump reserveBump c = .ok L₁ ↔
      s.reserve.toNat + amount.toNat < 2 ^ 64 ∧
        L₁ = c.ledger.moveLamports source D.reserveKey amount := by
  have hconst : ¬(c.ledger D.reserveKey).lamports + amount < minReserveBalanceConst := by
    rw [h.reserve_eq]
    rw [UInt64.not_lt, UInt64.le_iff_toNat_le] at hbalance ⊢
    unfold minReserveBalance at hbalance
    rw [UInt64.toNat_max] at hbalance
    omega
  have hunfold : depositLamports D.programs D.programId amount
      (D.depositAccounts s ⟨source, true⟩ dest none) withdrawBump reserveBump c =
      D.programs.transfer source D.reserveKey amount [source] c.ledger := by
    change (require (¬(c.ledger D.reserveKey).lamports + amount < minReserveBalanceConst) _ >>=
      fun _ => _) = _
    rw [require, if_pos hconst]
    rfl
  rw [hunfold, ← h.reserve_eq]
  constructor
  · intro hcall
    obtain ⟨-, -, -, hfits, rfl⟩ := D.lawful.transfer_ok hcall
    exact ⟨hfits hpays.ne_reserve, rfl⟩
  · rintro ⟨hfits, rfl⟩
    obtain ⟨L', hcall⟩ := hS.transfer_succeeds (List.mem_singleton_self source) hpays.owner
      hpays.enough fun _ => hfits
    obtain ⟨-, -, -, -, rfl⟩ := D.lawful.transfer_ok hcall
    exact hcall

include hpays in
theorem move_alike (howner : (c.ledger D.reserveKey).owner = systemProgramId) (m : Pubkey) :
    MintAlike m c.ledger (c.ledger.moveLamports source D.reserveKey amount) := by
  have hsystem : ∀ k, (c.ledger k).owner = systemProgramId → (c.ledger k).Apart m ∧
      ((c.ledger.moveLamports source D.reserveKey amount) k).Apart m := by
    intro k hk
    have hne : (c.ledger k).owner ≠ splTokenId := hk ▸ splTokenId_ne_system.symm
    refine ⟨Account.apart_of_owner hne, Account.apart_of_owner ?_⟩
    rw [c.ledger.moveLamports_owner]
    exact hne
  intro k
  by_cases hks : k = source
  · exact .inr (hsystem k (hks ▸ hpays.owner))
  · by_cases hkr : k = D.reserveKey
    · exact .inr (hsystem k (hkr ▸ howner))
    · exact .inl (c.ledger.moveLamports_of_ne amount hks hkr)

end Native

/-! ## Wrapped SOL -/

variable (D) in
/-- A wrapped-SOL account with enough SOL that is delegated to the withdraw authority. -/
structure PaysWrapped (L : Ledger) (source : Pubkey) (amount : UInt64) : Prop where
  account : ∃ t, L.HasTokenAccount source t ∧ t.mint = nativeMintId ∧ t.state = .initialized ∧
    t.delegate = some D.withdrawKey ∧ amount ≤ t.amount ∧ amount ≤ t.delegatedAmount
  backed : amount ≤ (L source).lamports

theorem PaysWrapped.owner {L : Ledger} (h : PaysWrapped D L source amount) :
    (L source).owner = splTokenId := by
  obtain ⟨t, ht, -⟩ := h.account
  exact ht.1

theorem PaysWrapped.owner_ne_system {L : Ledger} (h : PaysWrapped D L source amount) :
    (L source).owner ≠ systemProgramId :=
  h.owner ▸ splTokenId_ne_system

/-- The temp account does not exist. -/
def Deployment.TempEmpty (D : Deployment) (L : Ledger) : Prop :=
  L D.tempKey = ⟨0, systemProgramId, .zeroed 0⟩

theorem authority_signs (type : AuthorityType) {infos : List AccountInfo}
    {seeds : List (List Seed)}
    (hmem : authoritySeeds D.poolKey type
      (D.programs.findProgramAddress [.key D.poolKey, .authority type] D.programId).2 ∈ seeds) :
    (D.programs.findProgramAddress [.key D.poolKey, .authority type] D.programId).1 ∈
      D.programs.signersWith D.programId infos seeds := by
  apply List.mem_append_right
  rw [List.mem_filterMap]
  exact ⟨_, hmem, D.lawful.authority_address _ _ _⟩

section Wrapped

variable (hT : D.programs.TokenRules) (hR : D.programs.WrapRules c.rent)
  (h : D.Represents c.ledger s) (hpays : PaysWrapped D c.ledger source amount)
  (htemp : D.tempKey ≠ D.reserveKey) (hempty : D.TempEmpty c.ledger)
  (howner : (c.ledger D.reserveKey).owner = systemProgramId)

/-- The ledger after the temp account was created out of the reserve. -/
structure TempCreated (D : Deployment) (rentLamports : UInt64) (L L₁ : Ledger) : Prop where
  temp : L₁ D.tempKey = ⟨rentLamports, splTokenId, .zeroed TokenAccount.LEN⟩
  reserve : (L₁ D.reserveKey).lamports = (L D.reserveKey).lamports - rentLamports
  others : ∀ k, k ≠ D.tempKey → k ≠ D.reserveKey → L₁ k = L k

include hR h htemp hempty howner in
theorem temp_created (hrent : c.rent.minimumBalance TokenAccount.LEN ≤ s.reserve)
    {sigs : List Pubkey} (hreserve : D.reserveKey ∈ sigs) (hsigned : D.tempKey ∈ sigs) :
    ∃ L₁, D.programs.createAccount D.reserveKey D.tempKey
        (c.rent.minimumBalance TokenAccount.LEN) TokenAccount.LEN splTokenId sigs c.ledger =
          .ok L₁ ∧
      TempCreated D (c.rent.minimumBalance TokenAccount.LEN) c.ledger L₁ := by
  rw [← h.reserve_eq] at hrent
  obtain ⟨L₁, hcreate⟩ : ∃ L₁, D.programs.createAccount D.reserveKey D.tempKey
      (c.rent.minimumBalance TokenAccount.LEN) TokenAccount.LEN splTokenId sigs c.ledger = .ok L₁ :=
    hR.createAccount_succeeds hreserve hsigned howner hrent hempty
  refine ⟨L₁, hcreate, ?_⟩
  obtain ⟨-, -, -, -, -, -, rfl⟩ := D.lawful.createAccount_ok hcreate
  refine ⟨?_, ?_, fun k hk hkr => ?_⟩
  · rw [Ledger.assign_same, c.ledger.moveLamports_target _ htemp.symm, hempty]
    exact congrArg (Account.mk · _ _) (UInt64.zero_add _)
  · rw [Ledger.assign_lamports, c.ledger.moveLamports_source _ htemp.symm]
  · rw [Ledger.assign_of_ne _ _ _ hk, c.ledger.moveLamports_of_ne _ hkr hk]

/-- The ledger after the tokens moved into the temp account `t`. -/
structure TempPaid (D : Deployment) (amount : UInt64) (t : TokenAccount) (L₁ L₃ : Ledger) :
    Prop where
  temp : L₃.HasTokenAccount D.tempKey { t with amount := t.amount + amount }
  lamports : (L₃ D.tempKey).lamports = (L₁ D.tempKey).lamports + amount
  reserve : (L₃ D.reserveKey).lamports = (L₁ D.reserveKey).lamports

include hT hpays htemp hempty howner in
theorem temp_paid {rentLamports : UInt64} {L₁ : Ledger}
    (hL₁ : TempCreated D rentLamports c.ledger L₁) {t : TokenAccount}
    (hmint : t.mint = nativeMintId) (hstate : t.state = .initialized) (hzero : t.amount = 0)
    (hfits : rentLamports.toNat + amount.toNat < 2 ^ 64) {sigs : List Pubkey}
    (hsigned : D.withdrawKey ∈ sigs) :
    ∃ L₃, D.programs.tokenTransfer splTokenId source D.tempKey D.withdrawKey amount sigs
        (L₁.setData D.tempKey (.tokenAccount t)) = .ok L₃ ∧ TempPaid D amount t L₁ L₃ := by
  obtain ⟨x, hx, hxmint, hxstate, hdelegate, henough, happroved⟩ := hpays.account
  have hst : source ≠ D.tempKey := by
    rintro rfl
    exact hpays.owner_ne_system (by rw [hempty])
  have hsr : source ≠ D.reserveKey := by
    rintro rfl
    exact hpays.owner_ne_system howner
  have hnative : x.isNative.isSome = true := x.native_iff.mpr hxmint
  have hcan : x.CanSpend D.withdrawKey amount := by
    refine ⟨hxstate, henough, ?_⟩
    rw [if_pos hdelegate]
    exact happroved
  obtain ⟨L₂, hL₂⟩ : ∃ L₂, L₂ = L₁.setData D.tempKey (.tokenAccount t) := ⟨_, rfl⟩
  have hlamports₂ : ∀ k, (L₂ k).lamports = (L₁ k).lamports := by
    intro k
    rw [hL₂, Ledger.setData_lamports]
  have hsource₂ : L₂ source = c.ledger source := by
    rw [hL₂, Ledger.setData_of_ne _ _ hst, hL₁.others _ hst hsr]
  have hx₂ : L₂.HasTokenAccount source x := by
    unfold Ledger.HasTokenAccount
    rw [hsource₂]
    exact hx
  have htemp₂ : L₂.HasTokenAccount D.tempKey t := by
    rw [hL₂]
    exact ⟨by rw [Ledger.setData_owner, hL₁.temp], Ledger.setData_data_same _ _ _⟩
  have hmove : L₂.TokensMove source D.tempKey x t D.withdrawKey amount
      (((L₂.moveLamports source D.tempKey amount).setData source
        (.tokenAccount (x.spent D.withdrawKey amount))).setData D.tempKey
          (.tokenAccount { t with amount := t.amount + amount })) := by
    refine .inr ⟨hst, ?_, fun _ => ⟨?_, hsource₂ ▸ hpays.backed⟩, by rw [if_pos hnative]⟩
    · rw [hzero]
      change 0 + amount.toNat < 2 ^ 64
      omega
    · rw [hlamports₂, hL₁.temp]
      exact hfits
  rw [← hL₂]
  refine ⟨_, hT.tokenTransfer_iff.mpr ⟨hsigned, x, t, hx₂, htemp₂, hcan, hstate,
    hxmint.trans hmint.symm, hmove⟩, ⟨?_, Ledger.setData_data_same _ _ _⟩, ?_, ?_⟩
  · rw [Ledger.setData_owner, Ledger.setData_owner, Ledger.moveLamports_owner]
    exact htemp₂.1
  · rw [Ledger.setData_lamports, Ledger.setData_lamports, L₂.moveLamports_target _ hst,
      ← hlamports₂]
  · rw [Ledger.setData_lamports, Ledger.setData_lamports,
      L₂.moveLamports_of_ne _ hsr.symm htemp.symm, hlamports₂]

include hT hR h hpays htemp hempty howner in
theorem wrappedDeposit_lamports
    (hrent : c.rent.minimumBalance TokenAccount.LEN ≤ s.reserve)
    (hfits : s.reserve.toNat + amount.toNat < 2 ^ 64) :
    ∃ L₄, depositLamports D.programs D.programId amount
      (D.depositAccounts s ⟨source, false⟩ dest
        (some (⟨D.tempKey, false⟩, ⟨nativeMintId, false⟩))) s.pool.withdrawBumpSeed
      (getReserveAddress D.programs D.programId D.poolKey).2 c = .ok L₄ := by
  have hrent' := UInt64.le_iff_toNat_le.mp hrent
  have hroom : (c.rent.minimumBalance TokenAccount.LEN).toNat + amount.toNat < 2 ^ 64 := by omega
  -- the temp account starts with its rent and no tokens
  obtain ⟨L₁, hcreate, hL₁⟩ := temp_created hR h htemp hempty howner hrent
    (authority_signs .reserve (List.mem_cons_of_mem _ (List.mem_singleton_self _)))
    (authority_signs .temp List.mem_cons_self)
  have htemp₁ : (L₁ D.tempKey).lamports = c.rent.minimumBalance TokenAccount.LEN := by
    rw [hL₁.temp]
  obtain ⟨t, htmint, htowner, htstate, htclose, htamount, hinit⟩ :=
    @Programs.WrapRules.initializeAccount_succeeds _ _ hR D.tempKey D.withdrawKey L₁
      (by rw [hL₁.temp]) (by rw [hL₁.temp]) (htemp₁ ▸ UInt64.le_refl _)
  have hzero : t.amount = 0 := by
    rw [htamount, htemp₁]
    exact UInt64.sub_self _
  obtain ⟨L₃, hpay, hL₃⟩ := temp_paid hT hpays htemp hempty howner hL₁ htmint htstate hzero hroom
    (h.withdrawKey_signs
      [⟨splTokenId, false⟩, ⟨source, false⟩, ⟨D.tempKey, false⟩, ⟨D.withdrawKey, false⟩])
  -- closing it returns the rent as well
  have hsum : (L₃ D.reserveKey).lamports.toNat + (L₃ D.tempKey).lamports.toNat < 2 ^ 64 := by
    rw [hL₃.reserve, hL₃.lamports, hL₁.reserve, htemp₁, toNat_add_of_lt hroom, h.reserve_eq,
      UInt64.toNat_sub_of_le _ _ hrent]
    omega
  have hsigned := h.withdrawKey_signs
    [⟨splTokenId, false⟩, ⟨D.tempKey, false⟩, ⟨D.reserveKey, false⟩, ⟨D.withdrawKey, false⟩]
  rw [← htowner] at hsigned
  obtain ⟨L₄, hclose⟩ := hR.closeAccount_succeeds hL₃.temp htmint htclose hsigned htemp hsum
  rw [show ({ t with amount := t.amount + amount } : TokenAccount).owner = D.withdrawKey from
    htowner] at hclose
  refine ⟨L₄, ?_⟩
  change depositWrapped _ _ _ _ _ _ _ _ _ = _
  simp only [depositWrapped, bind_eq_ok, require_eq_ok]
  exact ⟨(), rfl, (), trivial, L₁, hcreate, _, hinit, L₃, hpay, hclose⟩

include h hpays howner in
/-- Only wrapped SOL moves. -/
theorem wrapped_alike {rentLamports : UInt64} {L₁ L₂ L₃ L₄ : Ledger}
    (hw : WrappedRun D amount source D.tempKey rentLamports c.ledger L₁ L₂ L₃ L₄) :
    MintAlike s.pool.poolMint c.ledger L₄ := by
  have hmint : nativeMintId ≠ s.pool.poolMint := h.wired.mint_ne_native.symm
  have hsource := hpays.owner_ne_system
  obtain ⟨-, htemp, -⟩ := hw.temp_fresh
  obtain ⟨⟨z, hz, hzmint, -⟩, ⟨x, x', hx, hxmint, hspend, hx'⟩, hothers⟩ :=
    hw.wrappedTokens hsource
  have hsystem : ∀ {y : Account}, y.owner = systemProgramId → y.Apart s.pool.poolMint :=
    fun hy => Account.apart_of_owner (hy ▸ splTokenId_ne_system.symm)
  intro k
  by_cases hkt : k = D.tempKey
  · subst hkt
    exact .inr ⟨hsystem htemp, Account.apart_of_token hz (hzmint ▸ hmint)⟩
  · have hkowner := (hw.owner hkt).2
    by_cases hks : k = source
    · subst hks
      exact .inr ⟨Account.apart_of_token hx.2 (hxmint ▸ hmint),
        Account.apart_of_token hx' (by rw [hspend.mint, hxmint]; exact hmint)⟩
    · by_cases hkr : k = D.reserveKey
      · subst hkr
        exact .inr ⟨hsystem howner, hsystem (hkowner.trans howner)⟩
      · left
        have hlamports := hw.lamports_other hsource hks hkt hkr
        have hdata := hothers k hkt hks
        revert hlamports hdata hkowner
        cases c.ledger k
        cases L₄ k
        rintro rfl rfl rfl
        rfl

end Wrapped

/-! ## Both ways -/

variable (D s) in
/-- Lamports that came into the reserve and left the tokens of the pool alone. -/
structure Arrived (amount : UInt64) (L L₁ : Ledger) : Prop where
  represents : D.Represents L₁ (s.recount D L₁)
  reserve : (L₁ D.reserveKey).lamports.toNat = s.reserve.toNat + amount.toNat
  alike : MintAlike s.pool.poolMint L L₁

theorem nativeDeposit_arrived (h : D.Represents c.ledger s)
    (hpays : PaysLamports D c.ledger source amount)
    (howner : (c.ledger D.reserveKey).owner = systemProgramId)
    {withdrawBump reserveBump : UInt8} {L₁ : Ledger}
    (hrun : depositLamports D.programs D.programId amount
      (D.depositAccounts s ⟨source, true⟩ dest none) withdrawBump reserveBump c = .ok L₁) :
    Arrived D s amount c.ledger L₁ := by
  simp only [depositLamports, Deployment.depositAccounts, bind_eq_ok] at hrun
  obtain ⟨-, -, htransfer⟩ := hrun
  have hin := transfer_lamportsIn hpays.ordinary htransfer
  refine ⟨h.transfer htransfer, h.reserve_eq ▸ hin.reserve, ?_⟩
  obtain ⟨-, -, -, -, rfl⟩ := D.lawful.transfer_ok htransfer
  exact move_alike hpays howner _

theorem wrappedDeposit_arrived (h : D.Represents c.ledger s)
    (hpays : PaysWrapped D c.ledger source amount)
    (howner : (c.ledger D.reserveKey).owner = systemProgramId)
    {withdrawBump reserveBump : UInt8} {L₁ : Ledger}
    (hrun : depositLamports D.programs D.programId amount
      (D.depositAccounts s ⟨source, false⟩ dest
        (some (⟨D.tempKey, false⟩, ⟨nativeMintId, false⟩))) withdrawBump reserveBump c = .ok L₁) :
    Arrived D s amount c.ledger L₁ ∧ c.rent.minimumBalance TokenAccount.LEN ≤ s.reserve := by
  obtain ⟨_, _, _, hw⟩ := depositWrapped_ok rfl rfl rfl hrun
  have hsource := hpays.owner_ne_system
  obtain ⟨-, -, -, hrent, -⟩ := hw.temp_fresh
  rw [h.reserve_eq] at hrent
  exact ⟨⟨hw.represents h hsource, h.reserve_eq ▸ (hw.lamportsIn hsource).reserve,
    wrapped_alike h hpays howner hw⟩, hrent⟩

variable (D c s amount dest) in
/-- The pool has a price for the deposit, and its tokens can be minted. -/
def Deployment.GrantsShares : Prop :=
  ∃ poolAmount feeAmount L, s.pool.calcPoolDepositAmount amount = some poolAmount ∧
    s.pool.calcFeeAmount poolAmount = some feeAmount ∧ feeAmount ≤ poolAmount ∧
    D.mintShares s dest poolAmount feeAmount c.ledger = .ok L

theorem mintShares_represents {poolAmount feeAmount : UInt64} {L L₂ : Ledger}
    (h : D.Represents L s) (hmint : D.mintShares s dest poolAmount feeAmount L = .ok L₂) :
    ∃ mint credit, D.Represents L₂ { s with mint := mint, creditReserve := credit } := by
  simp only [Deployment.mintShares, bind_eq_ok] at hmint
  obtain ⟨L₁, huser, hfee⟩ := hmint
  obtain ⟨mint₁, credit₁, h₁, -⟩ := h.mintTo huser
  obtain ⟨mint₂, credit₂, h₂, -⟩ := h₁.mintTo hfee
  exact ⟨mint₂, credit₂, h₂⟩

section Paid

variable {accounts : List AccountInfo} {sourceInfo : AccountInfo}
  {wrapped : Option (AccountInfo × AccountInfo)} (h : D.Represents c.ledger s)
  (hR : D.programs.WrapRules c.rent)
  (hparse : DepositAccounts.parse c accounts =
    .ok (D.depositAccounts s sourceInfo dest wrapped))
  (harrived : ∀ L₁, depositLamports D.programs D.programId amount
      (D.depositAccounts s sourceInfo dest wrapped) s.pool.withdrawBumpSeed
      (getReserveAddress D.programs D.programId D.poolKey).2 c = .ok L₁ →
    Arrived D s amount c.ledger L₁)

include h hR hparse harrived

theorem processDeposit_succeeds_iff :
    (∃ L', processDeposit D.programs D.programId amount accounts c = .ok L') ↔
      amount ≠ 0 ∧ ¬s.reserve + amount < minReserveBalance c.rent ∧
      (∃ L₁, depositLamports D.programs D.programId amount
        (D.depositAccounts s sourceInfo dest wrapped) s.pool.withdrawBumpSeed
        (getReserveAddress D.programs D.programId D.poolKey).2 c = .ok L₁) ∧
      D.GrantsShares c s amount dest := by
  simp only [processDeposit_named_iff h hparse]
  constructor
  · rintro ⟨L', hpositive, hbalance, poolAmount, feeAmount, hprice, hfee, hle, L₁, L₂, hlamports,
      hmint, -⟩
    obtain ⟨L₃, hmint', -⟩ := mintShares_alike hR (harrived L₁ hlamports).alike.symm hmint
    exact ⟨hpositive, hbalance, ⟨L₁, hlamports⟩, poolAmount, feeAmount, L₃, hprice, hfee, hle,
      hmint'⟩
  · rintro ⟨hpositive, hbalance, ⟨L₁, hlamports⟩, poolAmount, feeAmount, L₃, hprice, hfee, hle,
      hmint⟩
    obtain ⟨L₂, hmint', -⟩ := mintShares_alike hR (harrived L₁ hlamports).alike hmint
    obtain ⟨_, _, h₂⟩ := mintShares_represents (s := s.recount D L₁)
      (harrived L₁ hlamports).represents hmint'
    obtain ⟨L', hstore⟩ := h₂.store_pool_ok (s.pool.deposited amount poolAmount)
    exact ⟨L', hpositive, hbalance, poolAmount, feeAmount, hprice, hfee, hle, L₁, L₂, hlamports,
      hmint', hstore⟩

/-- What a deposit leaves does not depend on where the lamports came from. -/
theorem processDeposit_leaves
    (hrun : processDeposit D.programs D.programId amount accounts c = .ok L') :
    (L' D.reserveKey).lamports.toNat = s.reserve.toNat + amount.toNat ∧
    ∃ poolAmount feeAmount L₂, s.pool.calcPoolDepositAmount amount = some poolAmount ∧
      s.pool.calcFeeAmount poolAmount = some feeAmount ∧
      D.mintShares s dest poolAmount feeAmount c.ledger = .ok L₂ ∧
      (D.stateOf L').pool = s.pool.deposited amount poolAmount ∧
      MintAlike s.pool.poolMint L₂ L' := by
  obtain ⟨-, -, poolAmount, feeAmount, hprice, hfee, -, L₁, L₃, hlamports, hmint, hstore⟩ :=
    (processDeposit_named_iff h hparse).mp hrun
  obtain ⟨h₁, hreserve, halike⟩ := harrived L₁ hlamports
  obtain ⟨L₂, hmint₂, halike₂⟩ := mintShares_alike hR halike.symm hmint
  obtain ⟨mint, credit, h₃⟩ := mintShares_represents (s := s.recount D L₁) h₁ hmint
  have h' := h₃.store_pool hstore ⟨rfl, rfl, rfl, rfl, rfl, rfl, rfl, rfl⟩
  refine ⟨?_, poolAmount, feeAmount, L₂, hprice, hfee, hmint₂, ?_, ?_⟩
  · rw [h'.reserve_eq]
    exact hreserve
  · rw [← h'.eq_stateOf]
  · refine halike₂.symm.trans ?_
    obtain ⟨data, -, -, rfl⟩ := store_eq_ok.mp hstore
    intro k
    by_cases hk : k = D.poolKey
    · subst hk
      exact .inr ⟨h₃.has_pool.apart, h'.has_pool.apart⟩
    · exact .inl (L₃.setData_of_ne data hk)

end Paid

variable (D) in
/-- Two deposits both fail, or both succeed and leave the same reserve, totals and tokens. -/
structure Deployment.Agree (mint : Pubkey) (r₁ r₂ : Except ProgramError Ledger) : Prop where
  succeed : (∃ L, r₁ = .ok L) ↔ ∃ L, r₂ = .ok L
  leave : ∀ L₁ L₂, r₁ = .ok L₁ → r₂ = .ok L₂ →
    (L₁ D.reserveKey).lamports = (L₂ D.reserveKey).lamports ∧
    (D.stateOf L₁).pool.stakeTotal = (D.stateOf L₂).pool.stakeTotal ∧
    (D.stateOf L₁).pool.poolTotal = (D.stateOf L₂).pool.poolTotal ∧
    ∀ k, tokensOf L₁ mint k = tokensOf L₂ mint k

variable (D c s amount dest) in
/-- What a deposit needs on both ways. -/
structure Deployment.Accepts : Prop where
  positive : amount ≠ 0
  balance : ¬s.reserve + amount < minReserveBalance c.rent
  fits : s.reserve.toNat + amount.toNat < 2 ^ 64
  shares : D.GrantsShares c s amount dest

section Ways

variable (hR : D.programs.WrapRules c.rent) (h : D.Represents c.ledger s)
  (howner : (c.ledger D.reserveKey).owner = systemProgramId)

include hR h howner

theorem nativeDeposit_iff (dest : Pubkey) (hS : D.programs.SystemRules)
    (hpays : PaysLamports D c.ledger source amount) :
    (∃ L', processDeposit D.programs D.programId amount (D.nativeDeposit s source dest) c =
      .ok L') ↔ D.Accepts c s amount dest := by
  rw [processDeposit_succeeds_iff h hR (parse_nativeDeposit hpays.owner)
    fun _ hrun => nativeDeposit_arrived h hpays howner hrun]
  constructor
  · rintro ⟨hpositive, hbalance, ⟨L₁, hlamports⟩, hshares⟩
    have hfits := ((nativeDeposit_lamports hS h hpays hbalance).mp hlamports).1
    exact ⟨hpositive, hbalance, hfits, hshares⟩
  · rintro ⟨hpositive, hbalance, hfits, hshares⟩
    exact ⟨hpositive, hbalance,
      ⟨_, (nativeDeposit_lamports hS h hpays hbalance).mpr ⟨hfits, rfl⟩⟩, hshares⟩

theorem wrappedDeposit_iff (dest : Pubkey) (hT : D.programs.TokenRules)
    (htemp : D.tempKey ≠ D.reserveKey)
    (hempty : D.TempEmpty c.ledger) (hpays : PaysWrapped D c.ledger source amount) :
    (∃ L', processDeposit D.programs D.programId amount (D.wrappedDeposit s source dest) c =
      .ok L') ↔
      D.Accepts c s amount dest ∧ c.rent.minimumBalance TokenAccount.LEN ≤ s.reserve := by
  rw [processDeposit_succeeds_iff h hR (parse_wrappedDeposit hpays.owner_ne_system)
    fun _ hrun => (wrappedDeposit_arrived h hpays howner hrun).1]
  constructor
  · rintro ⟨hpositive, hbalance, ⟨L₁, hlamports⟩, hshares⟩
    obtain ⟨harrived, hrent⟩ := wrappedDeposit_arrived h hpays howner hlamports
    have hfits : s.reserve.toNat + amount.toNat < 2 ^ 64 := by
      rw [← harrived.reserve]
      exact UInt64.toNat_lt _
    exact ⟨⟨hpositive, hbalance, hfits, hshares⟩, hrent⟩
  · rintro ⟨⟨hpositive, hbalance, hfits, hshares⟩, hrent⟩
    exact ⟨hpositive, hbalance,
      wrappedDeposit_lamports hT hR h hpays htemp hempty howner hrent hfits, hshares⟩

/-- Deposits that get through on both ways leave the same. -/
theorem deposits_leave_same {wallet : Pubkey} (hlamports : PaysLamports D c.ledger wallet amount)
    (hwrapped : PaysWrapped D c.ledger source amount) {L₁ L₂ : Ledger}
    (hnative : processDeposit D.programs D.programId amount (D.nativeDeposit s wallet dest) c =
      .ok L₁)
    (hwrap : processDeposit D.programs D.programId amount (D.wrappedDeposit s source dest) c =
      .ok L₂) :
    (L₁ D.reserveKey).lamports = (L₂ D.reserveKey).lamports ∧
    (D.stateOf L₁).pool = (D.stateOf L₂).pool ∧
    ∀ k, tokensOf L₁ s.pool.poolMint k = tokensOf L₂ s.pool.poolMint k := by
  obtain ⟨hreserve₁, p₁, f₁, M₁, hprice₁, hfee₁, hmint₁, hpool₁, halike₁⟩ :=
    processDeposit_leaves h hR (parse_nativeDeposit hlamports.owner)
      (fun _ hrun => nativeDeposit_arrived h hlamports howner hrun) hnative
  obtain ⟨hreserve₂, p₂, f₂, M₂, hprice₂, hfee₂, hmint₂, hpool₂, halike₂⟩ :=
    processDeposit_leaves h hR (parse_wrappedDeposit hwrapped.owner_ne_system)
      (fun _ hrun => (wrappedDeposit_arrived h hwrapped howner hrun).1) hwrap
  obtain rfl := Option.some.inj (hprice₁.symm.trans hprice₂)
  obtain rfl := Option.some.inj (hfee₁.symm.trans hfee₂)
  obtain rfl := Except.ok.inj (hmint₁.symm.trans hmint₂)
  refine ⟨UInt64.toNat_inj.mp (hreserve₁.trans hreserve₂.symm), hpool₁.trans hpool₂.symm, ?_⟩
  intro k
  rw [halike₁.tokensOf_eq, halike₂.tokensOf_eq]

end Ways

/-- The two ways to deposit agree exactly when the reserve can lend the rent of the temp
account, or the deposit fails for a reason they share. -/
theorem deposit_paths_agree_iff {W : Set Pubkey}
    (hW : ∀ v ∈ W, ∀ i, D.stakeKey v i ≠ D.reserveKey) (htemp : D.tempKey ≠ D.reserveKey)
    (hT : D.programs.TokenRules) (hS : D.programs.SystemRules)
    (hR : D.programs.WrapRules c.rent)
    (hreach : ((D.system D.Outside).restrict (fun _ e => e.AddsIn W)).Reachable c)
    (hempty : D.TempEmpty c.ledger) {wallet : Pubkey}
    (hlamports : PaysLamports D c.ledger wallet amount)
    (hwrapped : PaysWrapped D c.ledger source amount) :
    D.Agree (D.stateOf c.ledger).pool.poolMint
        (processDeposit D.programs D.programId amount
          (D.nativeDeposit (D.stateOf c.ledger) wallet dest) c)
        (processDeposit D.programs D.programId amount
          (D.wrappedDeposit (D.stateOf c.ledger) source dest) c) ↔
      c.rent.minimumBalance TokenAccount.LEN ≤ (c.ledger D.reserveKey).lamports ∨
        ¬D.Accepts c (D.stateOf c.ledger) amount dest := by
  obtain ⟨⟨h, -⟩, howner⟩ := holdsReserve_reachable hW htemp hreach
  have hnative := nativeDeposit_iff hR h howner dest hS hlamports
  have hwrap := wrappedDeposit_iff hR h howner dest hT htemp hempty hwrapped
  rw [h.reserve_eq]
  constructor
  · rintro ⟨hsucceed, -⟩
    rw [hnative, hwrap] at hsucceed
    by_cases haccepts : D.Accepts c (D.stateOf c.ledger) amount dest
    · exact .inl (hsucceed.mp haccepts).2
    · exact .inr haccepts
  · intro hcase
    refine ⟨?_, fun L₁ L₂ h₁ h₂ => ?_⟩
    · rw [hnative, hwrap]
      rcases hcase with hrent | hrefused
      · exact ⟨fun haccepts => ⟨haccepts, hrent⟩, And.left⟩
      · exact ⟨fun haccepts => absurd haccepts hrefused, And.left⟩
    · obtain ⟨hreserve, hpool, htokens⟩ :=
        deposits_leave_same hR h howner hlamports hwrapped h₁ h₂
      exact ⟨hreserve, congrArg _ hpool, congrArg _ hpool, htokens⟩

end Deposit

/-! ## The reserve at its floor -/

section

open Reference

variable {c : Chain}

def wrappedKey : Pubkey := ⟨2006⟩

/-- One wrapped SOL, approved for the withdraw authority. -/
def wrappedSol : Account :=
  ⟨1002039280, splTokenId,
    .tokenAccount
      { mint := nativeMintId
        owner := userKey
        amount := 1000000000
        delegate := some Reference.withdrawKey
        state := .initialized
        isNative := some tokenRent
        delegatedAmount := 1000000000
        closeAuthority := none
        native_iff := by decide }⟩

/-- The user wraps one SOL after the actions. -/
def wrappedAfter (actions : List Action) : Except ProgramError Chain := do
  let c ← execute (fun _ e => decide (e.AddsIn {validatorKey})) actions
  write wrappedKey wrappedSol c

theorem wrappedAfter_reachable {actions : List Action} (h : wrappedAfter actions = .ok c) :
    ((deployment.system deployment.Outside).restrict
      (fun _ e => e.AddsIn {validatorKey})).Reachable c := by
  simp only [wrappedAfter, bind_eq_ok] at h
  obtain ⟨c₀, hrun, hwrite⟩ := h
  have hc₀ := execute_reachable (fun _ _ h => of_decide_eq_true h) hrun
  have hout := write_outside (reachable_represents hc₀.of_restrict) hwrite
  exact .step (e := .outside) hc₀ ⟨hout, by trivial⟩

/-- What the theorem asks of the chain, as far as it can be computed. -/
def canDeposit (c : Chain) : Bool :=
  decide (c.rent.minimumBalance TokenAccount.LEN = tokenRent) &&
    decide (c.ledger deployment.tempKey = ⟨0, systemProgramId, .zeroed 0⟩) &&
    decide ((c.ledger userKey).owner = systemProgramId) &&
    decide (1000000000 ≤ (c.ledger userKey).lamports) &&
    decide (c.ledger wrappedKey = wrappedSol)

theorem canDeposit_spec (h : canDeposit c = true) :
    deployment.programs.WrapRules c.rent ∧ deployment.TempEmpty c.ledger ∧
      PaysLamports deployment c.ledger userKey 1000000000 ∧
      PaysWrapped deployment c.ledger wrappedKey 1000000000 := by
  simp only [canDeposit, Bool.and_eq_true, decide_eq_true_eq] at h
  obtain ⟨⟨⟨⟨hrent, hempty⟩, howner⟩, henough⟩, hwrapped⟩ := h
  refine ⟨wrapRules hrent, hempty, ⟨howner, not_isProgramAddress (by decide), henough⟩, ?_, ?_⟩
  · refine ⟨_, ⟨by rw [hwrapped]; rfl, by rw [hwrapped]; rfl⟩, rfl, rfl, rfl, ?_⟩
    decide
  · rw [hwrapped]
    decide

/-- A deposit of one SOL from the wallet, and one of the wrapped SOL. -/
def fromWallet (c : Chain) : Except ProgramError Ledger :=
  processDeposit programs programId 1000000000
    (deployment.nativeDeposit (deployment.stateOf c.ledger) userKey userTokensKey) c

def fromWrapped (c : Chain) : Except ProgramError Ledger :=
  processDeposit programs programId 1000000000
    (deployment.wrappedDeposit (deployment.stateOf c.ledger) wrappedKey userTokensKey) c

theorem deposit_paths_agree_funded :
    ∃ c L L', wrappedAfter [deposit 100000000 userTokensKey mintKey] = .ok c ∧
      fromWallet c = .ok L ∧ fromWrapped c = .ok L' ∧
      deployment.Agree (deployment.stateOf c.ledger).pool.poolMint (fromWallet c)
        (fromWrapped c) := by
  have hrun : (do
      let c ← wrappedAfter [deposit 100000000 userTokensKey mintKey]
      let _ ← fromWallet c
      let _ ← fromWrapped c
      pure (canDeposit c, decide (c.rent.minimumBalance TokenAccount.LEN ≤
        (c.ledger deployment.reserveKey).lamports))) = .ok (true, true) := by
    decide +kernel
  simp only [bind_eq_ok, pure_eq_ok, Prod.mk.injEq, decide_eq_true_eq] at hrun
  obtain ⟨c, hc, L, hwallet, L', hwrapped, hcan, hrent⟩ := hrun
  obtain ⟨hR, hempty, hlamports, hpays⟩ := canDeposit_spec hcan
  refine ⟨c, L, L', hc, hwallet, hwrapped, ?_⟩
  exact (deposit_paths_agree_iff (noCollision validatorKey).ne_reserve (by decide) tokenRules
    systemRules hR (wrappedAfter_reachable hc) hempty hlamports hpays).mpr (.inl hrent)

/-- `Withdraw` may leave the reserve with less than the rent of the temp account.  One SOL
from a wallet is then taken, one wrapped SOL is not. -/
theorem wrapped_deposit_fails_at_floor :
    ∃ c L, (deployment.system deployment.Outside).Reachable c ∧ deployment.TempEmpty c.ledger ∧
      PaysLamports deployment c.ledger userKey 1000000000 ∧
      PaysWrapped deployment c.ledger wrappedKey 1000000000 ∧
      (c.ledger Reference.reserveKey).lamports = 1000000 ∧
      fromWallet c = .ok L ∧ (∀ L', fromWrapped c ≠ .ok L') ∧
      ¬deployment.Agree (deployment.stateOf c.ledger).pool.poolMint (fromWallet c)
        (fromWrapped c) := by
  have hrun : (do
      let c ← wrappedAfter [deposit 100000000 userTokensKey mintKey,
        withdraw 99000000 userTokensKey mintKey]
      let _ ← fromWallet c
      pure (canDeposit c, (c.ledger Reference.reserveKey).lamports, (fromWrapped c).toBool)) =
        .ok (true, 1000000, false) := by
    decide +kernel
  simp only [bind_eq_ok, pure_eq_ok, Prod.mk.injEq] at hrun
  obtain ⟨c, hc, L, hwallet, hcan, hreserve, hfails⟩ := hrun
  obtain ⟨-, hempty, hlamports, hpays⟩ := canDeposit_spec hcan
  have hnone : ∀ L', fromWrapped c ≠ .ok L' := by
    intro L' hok
    rw [hok] at hfails
    cases hfails
  refine ⟨c, L, (wrappedAfter_reachable hc).of_restrict, hempty, hlamports, hpays, hreserve,
    hwallet, hnone, ?_⟩
  rintro ⟨hsucceed, -⟩
  obtain ⟨L', hok⟩ := hsucceed.mp ⟨L, hwallet⟩
  exact hnone L' hok

end

end Tenderize
