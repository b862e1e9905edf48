import Tenderize.Reference.Pool

/-!
# Opening stake accounts

`DelegateReserve` opens a stake account whenever it names the index after the last one.
Nothing stops it at the largest index: after `2 ^ 32` stake accounts `stake_count` is zero
again.
-/

namespace Tenderize.Reference

open Support

/-- The stake account of the validator under an index. -/
def stakeAccount (index : UInt32) : Pubkey := stakeAddress validatorKey poolKey index

/-- The cheapest stake account under the `n`-th index. -/
def opening (n : Nat) : DelegateReserveInstruction := ⟨minStakeAccountBalance, UInt32.ofNat n⟩

/-- The record `p` belongs to the pool of the deployment. -/
def Wired (p : StakePool) : Prop :=
  p.isInitialized = true ∧ p.owner = ownerKey ∧ p.validatorStakeList = listKey ∧
    p.depositBumpSeed = 255 ∧ p.withdrawBumpSeed = 255

instance (p : StakePool) : Decidable (Wired p) := by
  unfold Wired
  infer_instance

/-- The chain with another ledger. -/
def on (L : Ledger) : Chain := { start with ledger := L }

/-- The ledger after `n` stake accounts were opened out of a reserve of `total` lamports. -/
structure Opened (p : StakePool) (total n : Nat) (L : Ledger) : Prop where
  pool_owner : (L poolKey).owner = programId
  pool_data : (L poolKey).data = .stakePool StakePool.LEN p
  list_owner : (L listKey).owner = programId
  list_data : ∃ balance, (L listKey).data = .validatorStakeList ValidatorStakeList.LEN
    ⟨1, [⟨validatorKey, balance, 0, UInt32.ofNat n⟩]⟩
  reserve_owner : (L reserveKey).owner = systemProgramId
  reserve : (L reserveKey).lamports.toNat + n * 100000000 = total
  fresh : ∀ i : UInt32, n ≤ i.toNat → L (stakeAccount i) = wallet 0
  first : 0 < n → (L (stakeAccount 0)).owner = stakeProgramId ∧
    (L (stakeAccount 0)).lamports = minStakeAccountBalance

/-! ## Addresses -/

theorem stakeAccount_ne_of_lt {key : Pubkey} (h : key.bits.toNat < 2 ^ 255) (index : UInt32) :
    key ≠ stakeAccount index := by
  rintro rfl
  unfold stakeAccount at h
  rw [stakeAddress_toNat] at h
  omega

theorem stakeAccount_ne_reserve (index : UInt32) : stakeAccount index ≠ reserveKey :=
  (noCollision validatorKey).ne_reserve validatorKey rfl index

theorem stakeAccount_injective {i j : UInt32} (h : stakeAccount i = stakeAccount j) : i = j :=
  ((noCollision validatorKey).injective validatorKey rfl validatorKey rfl i j h).2

/-! ## One opening -/

def openingAccounts (index : UInt32) : DelegateReserveAccounts where
  stakePool := plain poolKey
  owner := signer ownerKey
  validatorStakeList := plain listKey
  withdraw := plain withdrawKey
  deposit := plain depositKey
  reserve := plain reserveKey
  systemProgram := plain systemProgramId
  stakeProgram := plain stakeProgramId
  clock := plain clockId
  stakeHistory := plain stakeHistoryKey
  stakeConfig := plain stakeConfigKey
  rent := plain rentId
  rest := [plain validatorKey, plain (stakeAccount index)]

theorem parse_delegateAccounts (c : Chain) (index : UInt32) :
    DelegateReserveAccounts.parse c (delegateAccounts [index]) = .ok (openingAccounts index) := by
  rfl

/-- A stake account was opened: only it and the reserve changed. -/
structure OpenedAt (L : Ledger) (key : Pubkey) (L' : Ledger) : Prop where
  others : ∀ k, k ≠ key → k ≠ reserveKey → L' k = L k
  reserve : L' reserveKey =
    { L reserveKey with lamports := (L reserveKey).lamports - minStakeAccountBalance }
  owner : (L' key).owner = stakeProgramId
  lamports : (L' key).lamports = minStakeAccountBalance

theorem initStake_opens {L : Ledger} (clock : Clock) (index : UInt32)
    (hreserve : (L reserveKey).owner = systemProgramId)
    (henough : minStakeAccountBalance ≤ (L reserveKey).lamports)
    (hfresh : L (stakeAccount index) = wallet 0) :
    ∃ L', initStake programs programId (openingAccounts index) clock 255 255
        (plain validatorKey) (plain (stakeAccount index)) 255 index minStakeAccountBalance L =
        .ok L' ∧ OpenedAt L (stakeAccount index) L' := by
  have hne := stakeAccount_ne_reserve index
  let key := stakeAccount index
  let L₁ := (L.moveLamports reserveKey key minStakeAccountBalance).assign key stakeProgramId
    StakeState.size
  let stakeMeta : Meta := ⟨stakeRent, ⟨depositKey, withdrawKey⟩⟩
  let L₂ := L₁.setData key (.stake (.initialized stakeMeta))
  let L₃ := L₂.setData key
    (.stake (.stake stakeMeta ⟨delegation clock validatorKey stakeMeta minStakeAccountBalance, 0⟩))
  have hL₁ : L₁ key = ⟨minStakeAccountBalance, stakeProgramId, .zeroed StakeState.size⟩ := by
    simp only [L₁, key, Ledger.assign_same, L.moveLamports_target _ hne.symm, hfresh]
    rfl
  have hL₂ : L₂ key = ⟨minStakeAccountBalance, stakeProgramId,
      .stake (.initialized stakeMeta)⟩ := by
    simp only [L₂, Ledger.setData, Ledger.set_same, hL₁]
  have hcreate : createAccount reserveKey key minStakeAccountBalance StakeState.size
      stakeProgramId [key, reserveKey] L = .ok L₁ := by
    unfold createAccount
    rw [checked_eq_ok]
    refine ⟨⟨by simp, by simp, hreserve, henough, ?_, ?_⟩, rfl⟩
    · rw [hfresh]
      rfl
    · rw [hfresh]
      rfl
  have hinit : stakeInitialize key ⟨depositKey, withdrawKey⟩ L₁ = .ok L₂ := by
    unfold stakeInitialize writeStake
    rw [checked_eq_ok, hL₁]
    exact ⟨⟨rfl, rfl, by decide⟩, rfl⟩
  have hdelegate : delegateStake clock key depositKey validatorKey [depositKey] L₂ = .ok L₃ := by
    unfold delegateStake
    rw [hL₂]
    simp only [writeStake, checked_eq_ok]
    exact ⟨⟨by rw [hL₂], by simp, rfl⟩, rfl⟩
  refine ⟨L₃, ?_, ?_⟩
  · simp only [initStake, bind_eq_ok, require_eq_ok]
    exact ⟨(), by decide, L₁, hcreate, L₂, hinit, hdelegate⟩
  · have hkeep : ∀ k, k ≠ key → L₃ k = L.moveLamports reserveKey key minStakeAccountBalance k := by
      intro k hk
      simp only [L₃, L₂, L₁, Ledger.setData_of_ne _ _ hk, Ledger.assign_of_ne _ _ _ hk]
    constructor
    · intro k hk hk'
      rw [hkeep k hk, L.moveLamports_of_ne _ hk' hk]
    · rw [hkeep _ hne.symm, L.moveLamports_source _ hne.symm]
    · simp only [L₃, Ledger.setData_owner]
      rw [hL₂]
    · simp only [L₃, Ledger.setData_lamports]
      rw [hL₂]

variable {p : StakePool} {total n : Nat} {L : Ledger}

theorem saturatingSub_of_le {a b : UInt64} (h : b ≤ a) : saturatingSub a b = a - b :=
  if_pos h

/-- The reserve can pay for one more stake account and keeps its minimum. -/
theorem Opened.available (h : Opened p total n L) (htotal : (n + 2) * 100000000 ≤ total) :
    ¬(0 : UInt64) + minStakeAccountBalance > lamportsAvailable (on L) reserveKey := by
  have hreserve := h.reserve
  have hmin : minStakeAccountBalance.toNat = 100000000 := rfl
  have hkeep : (minReserveBalance start.rent).toNat = 2930160 := by decide
  have hle : minReserveBalance start.rent ≤ (L reserveKey).lamports := by
    rw [UInt64.le_iff_toNat_le, hkeep]
    omega
  have havailable : lamportsAvailable (on L) reserveKey =
      (L reserveKey).lamports - minReserveBalance start.rent := saturatingSub_of_le hle
  rw [UInt64.zero_add, havailable, gt_iff_lt, UInt64.lt_iff_toNat_lt,
    UInt64.toNat_sub_of_le _ _ hle, hkeep]
  omega

theorem delegated_opening (n : Nat) (balance : UInt64) :
    ValidatorStakeInfo.delegated ⟨validatorKey, balance, 0, UInt32.ofNat n⟩ (opening n) =
      ⟨validatorKey, balance + minStakeAccountBalance, 0, UInt32.ofNat (n + 1)⟩ := by
  simp [ValidatorStakeInfo.delegated, opening, UInt32.ofNat_add]

/-- The loop over the only sub-instruction. -/
theorem delegateLoop_opens {L' : Ledger} {balance : UInt64} (h : Opened p total n L)
    (hn : n < 2 ^ 32) (htotal : (n + 2) * 100000000 ≤ total)
    (hopen : initStake programs programId (openingAccounts (UInt32.ofNat n)) start.clock 255 255
      (plain validatorKey) (plain (stakeAccount (UInt32.ofNat n))) 255 (UInt32.ofNat n)
      minStakeAccountBalance L = .ok L') :
    delegateLoop programs programId (openingAccounts (UInt32.ofNat n)) start.clock 255 255
      (lamportsAvailable (on L) reserveKey) [opening n] 0
      ⟨[⟨validatorKey, balance, 0, UInt32.ofNat n⟩], false,
        (openingAccounts (UInt32.ofNat n)).rest, L⟩ =
      .ok ⟨[⟨validatorKey, balance + minStakeAccountBalance, 0, UInt32.ofNat (n + 1)⟩], true, [],
        L'⟩ := by
  have hfresh : (L (stakeAccount (UInt32.ofNat n))).owner = systemProgramId := by
    rw [h.fresh _ (by rw [toNat_ofNat_index hn])]
    rfl
  simp only [delegateLoop, bind_eq_ok]
  refine ⟨_, ?_, rfl⟩
  simp only [delegateOne, bind_eq_ok]
  refine ⟨_, rfl, _, rfl, ⟨validatorKey, balance, 0, UInt32.ofNat n⟩, ?_, (), ?_, (), ?_, 255, ?_,
    ?_⟩
  · rfl
  · exact require_eq_ok.mpr (h.available htotal)
  · exact require_eq_ok.mpr (UInt32.lt_irrefl _)
  · exact checkValidatorStakeAddress_eq_ok.mpr ⟨rfl, rfl⟩
  · change (if (L (stakeAccount (UInt32.ofNat n))).owner = systemProgramId then _ else _) = _
    rw [if_pos hfresh, bind_eq_ok]
    refine ⟨L', hopen, ?_⟩
    rw [pure_eq_ok, delegated_opening]
    simp [putRecord, updateFirst, opening]

/-- The list after one more stake account. -/
def openedList (n : Nat) (balance : UInt64) : AccountData :=
  .validatorStakeList ValidatorStakeList.LEN
    ⟨1, [⟨validatorKey, balance + minStakeAccountBalance, 0, UInt32.ofNat (n + 1)⟩]⟩

theorem OpenedAt.of_lt {L L' : Ledger} {key k : Pubkey} (h : OpenedAt L key L')
    (hk : k.bits.toNat < 2 ^ 255) (hne : k ≠ key) : L' k = L k := by
  apply h.others k hne
  rintro rfl
  have hge := authorityAddress_ge poolKey .reserve
  unfold reserveKey at hk
  omega

theorem dispatch_opens {L' : Ledger} {balance : UInt64} (hp : Wired p)
    (h : Opened p total n L)
    (hdata : (L listKey).data = .validatorStakeList ValidatorStakeList.LEN
      ⟨1, [⟨validatorKey, balance, 0, UInt32.ofNat n⟩]⟩)
    (hn : n < 2 ^ 32) (htotal : (n + 2) * 100000000 ≤ total)
    (hopen : initStake programs programId (openingAccounts (UInt32.ofNat n)) start.clock 255 255
      (plain validatorKey) (plain (stakeAccount (UInt32.ofNat n))) 255 (UInt32.ofNat n)
      minStakeAccountBalance L = .ok L')
    (hopened : OpenedAt L (stakeAccount (UInt32.ofNat n)) L') :
    dispatch programs programId (.delegateReserve [opening n])
      (delegateAccounts [UInt32.ofNat n]) (on L) =
        .ok (L'.setData listKey (openedList n balance)) := by
  obtain ⟨hinit, howner, hlist, hdeposit, hwithdraw⟩ := hp
  have hlistKey : L' listKey = L listKey :=
    hopened.of_lt (by decide) (stakeAccount_ne_of_lt (by decide) _)
  simp only [dispatch, processDelegateReserve, bind_eq_ok, parse_delegateAccounts, require_eq_ok]
  refine ⟨_, rfl, p, ?_, (), ?_, ⟨1, [⟨validatorKey, balance, 0, UInt32.ofNat n⟩]⟩, ?_, (), ?_,
    (), ?_, (), rfl, ⟨[⟨validatorKey, balance + minStakeAccountBalance, 0, UInt32.ofNat (n + 1)⟩],
      true, [], L'⟩, ?_, ?_⟩
  · refine loadStakePool_eq_ok.mpr ⟨h.pool_owner, ?_, hinit⟩
    change StakePool.deserialize _ (L poolKey).data = _
    rw [h.pool_data]
    rfl
  · exact StakePool.checkOwner_eq_ok.mpr ⟨howner.symm, rfl⟩
  · refine loadValidatorStakeList_eq_ok.mpr ⟨hlist.symm, ?_, rfl⟩
    change ValidatorStakeList.deserialize _ (L listKey).data = _
    rw [hdata]
    rfl
  · refine checkAuthority_eq_ok.mpr ?_
    rw [hdeposit]
    rfl
  · refine checkAuthority_eq_ok.mpr ?_
    rw [hwithdraw]
    rfl
  · rw [hdeposit]
    exact delegateLoop_opens h hn htotal hopen
  · refine store_eq_ok.mpr ⟨openedList n balance, ?_, .inl ?_, rfl⟩
    · change ValidatorStakeList.serialize _ (L' listKey).data = _
      rw [hlistKey, hdata]
      rfl
    · change (L' listKey).owner = _
      rw [hlistKey]
      exact h.list_owner

theorem Opened.next {L' : Ledger} (balance : UInt64) (h : Opened p total n L) (hn : n < 2 ^ 32)
    (henough : minStakeAccountBalance ≤ (L reserveKey).lamports)
    (hopened : OpenedAt L (stakeAccount (UInt32.ofNat n)) L') :
    Opened p total (n + 1) (L'.setData listKey (openedList n balance)) := by
  have hindex : (UInt32.ofNat n).toNat = n := toNat_ofNat_index hn
  have hlistKey : L' listKey = L listKey :=
    hopened.of_lt (by decide) (stakeAccount_ne_of_lt (by decide) _)
  have hpoolKey : (L'.setData listKey (openedList n balance)) poolKey = L poolKey := by
    rw [L'.setData_of_ne _ (by decide)]
    exact hopened.of_lt (by decide) (stakeAccount_ne_of_lt (by decide) _)
  have hreserveKey : (L'.setData listKey (openedList n balance)) reserveKey = L' reserveKey :=
    L'.setData_of_ne _ (by decide)
  have hstake : ∀ i, (L'.setData listKey (openedList n balance)) (stakeAccount i) =
      L' (stakeAccount i) :=
    fun i => L'.setData_of_ne _ (stakeAccount_ne_of_lt (by decide) i).symm
  have hold : ∀ i, i ≠ UInt32.ofNat n → L' (stakeAccount i) = L (stakeAccount i) :=
    fun i hi => hopened.others _ (fun heq => hi (stakeAccount_injective heq))
      (stakeAccount_ne_reserve i)
  refine
    { pool_owner := hpoolKey.symm ▸ h.pool_owner
      pool_data := hpoolKey.symm ▸ h.pool_data
      list_owner := ?_
      list_data := ⟨_, L'.setData_data_same _ _⟩
      reserve_owner := ?_
      reserve := ?_
      fresh := ?_
      first := ?_ }
  · rw [Ledger.setData_owner, hlistKey]
    exact h.list_owner
  · rw [hreserveKey, hopened.reserve]
    exact h.reserve_owner
  · have hreserve := h.reserve
    have hmin : minStakeAccountBalance.toNat = 100000000 := rfl
    have hle := UInt64.le_iff_toNat_le.mp henough
    rw [hreserveKey, hopened.reserve]
    change ((L reserveKey).lamports - minStakeAccountBalance).toNat + _ = _
    rw [UInt64.toNat_sub_of_le _ _ henough]
    omega
  · intro i hi
    rw [hstake, hold i (by rintro rfl; omega)]
    exact h.fresh i (by omega)
  · intro _
    rw [hstake]
    by_cases hzero : n = 0
    · subst hzero
      exact ⟨hopened.owner, hopened.lamports⟩
    · have hne : (0 : UInt32) ≠ UInt32.ofNat n := by
        intro heq
        apply hzero
        rw [← hindex, ← heq]
        rfl
      rw [hold 0 hne]
      exact h.first (by omega)

/-- One more stake account can be opened. -/
theorem Opened.step (hp : Wired p) (h : Opened p total n L) (hn : n < 2 ^ 32)
    (htotal : (n + 2) * 100000000 ≤ total) :
    ∃ L', dispatch programs programId (.delegateReserve [opening n])
        (delegateAccounts [UInt32.ofNat n]) (on L) = .ok L' ∧
      Opened p total (n + 1) L' := by
  obtain ⟨balance, hdata⟩ := h.list_data
  have henough : minStakeAccountBalance ≤ (L reserveKey).lamports := by
    have hreserve := h.reserve
    have hmin : minStakeAccountBalance.toNat = 100000000 := rfl
    rw [UInt64.le_iff_toNat_le]
    omega
  obtain ⟨L', hopen, hopened⟩ :=
    initStake_opens start.clock (UInt32.ofNat n) h.reserve_owner henough
    (h.fresh _ (by rw [toNat_ofNat_index hn]))
  exact ⟨_, dispatch_opens hp h hdata hn htotal hopen hopened, h.next balance hn henough hopened⟩

theorem addressed_delegateAccounts (index : UInt32) :
    deployment.Addressed (delegateAccounts [index]) := by
  apply addressed_spec
  simp only [addressed, delegateAccounts, plain, signer]
  simp
  decide

/-- All stake accounts of the validator can be opened, the last one included. -/
theorem opened_reachable {env : Chain → Chain → Prop} (guard : Chain → Event → Prop)
    (hguard : ∀ c n, guard c (.instruction (.delegateReserve [opening n])
      (delegateAccounts [UInt32.ofNat n])))
    (hp : Wired p) (hstart : ((deployment.system env).restrict guard).Reachable (on L))
    (hopened : Opened p total 0 L) (htotal : 429496729700000000 ≤ total) :
    ∀ n ≤ 2 ^ 32, ∃ L', ((deployment.system env).restrict guard).Reachable (on L') ∧
      Opened p total n L' := by
  intro n
  induction n with
  | zero => exact fun _ => ⟨L, hstart, hopened⟩
  | succ n ih =>
      intro hn
      obtain ⟨L₁, hreach, hL₁⟩ := ih (by omega)
      obtain ⟨L₂, hrun, hL₂⟩ := hL₁.step hp (by omega) (by omega)
      have haddressed := addressed_delegateAccounts (UInt32.ofNat n)
      have hstep : deployment.Step env (on L₁) (.instruction (.delegateReserve [opening n])
          (delegateAccounts [UInt32.ofNat n])) (on L₂) := ⟨haddressed, L₂, hrun, rfl⟩
      exact ⟨L₂, .step (e := .instruction _ _) hreach ⟨hstep, hguard _ n⟩, hL₂⟩

/-! ## The start -/

theorem store_others {key k : Pubkey} {write : AccountData → Except ProgramError AccountData}
    {L' : Ledger} (h : store programId key write L = .ok L') (hk : k ≠ key) : L' k = L k := by
  obtain ⟨data, -, -, rfl⟩ := store_eq_ok.mp h
  exact L.setData_of_ne data hk

theorem ne_of_address {k key : Pubkey} (hk : 2 ^ 255 ≤ k.bits.toNat)
    (hkey : key.bits.toNat < 2 ^ 255) : k ≠ key := by
  rintro rfl
  omega

theorem initialized_others {k : Pubkey} (hk : 2 ^ 255 ≤ k.bits.toNat)
    (h : dispatch programs programId (.initializePool ⟨⟨1, 0⟩⟩) initAccounts start = .ok L) :
    L k = startLedger k := by
  obtain ⟨a, hparse, hfresh⟩ := fresh
  obtain ⟨L₁, L₂, L₃, hrun⟩ := processInitialize_ok hparse hfresh (addressed_spec (by decide)) h
  obtain rfl := Except.ok.inj hparse
  obtain ⟨_, hset⟩ := hrun.setOwner
  obtain ⟨_, _, -, -, -, -, -, -, -, -, hL₁⟩ := lawful.setAccountOwner_ok hset
  rw [store_others hrun.store_pool (ne_of_address hk (by decide)),
    store_others hrun.store_credits (ne_of_address hk (by decide)),
    store_others hrun.store_list (ne_of_address hk (by decide)), hL₁,
    Ledger.setData_of_ne _ _ (ne_of_address hk (by decide))]
  rfl

/-- Actions that leave every program address but the reserve alone. -/
inductive Prepares : Action → Prop
  | pay (n : UInt64) : Prepares (.pay userKey reserveKey n)
  | addValidator : Prepares (addValidator validatorKey)
  | updatePool : Prepares updatePool

variable {allowed : Chain → Event → Bool} {c c' : Chain} {action : Action}

theorem Prepares.others {k : Pubkey} (haction : Prepares action) (hk : 2 ^ 255 ≤ k.bits.toNat)
    (hne : k ≠ reserveKey) (h : perform allowed c action = .ok c') :
    c'.ledger k = c.ledger k := by
  have hordinary : ∀ key : Pubkey, key.bits.toNat < 2 ^ 255 → k ≠ key :=
    fun key hkey => ne_of_address hk hkey
  cases haction with
  | pay n =>
      simp only [perform, bind_eq_ok, pure_eq_ok, transfer, checked_eq_ok] at h
      obtain ⟨-, -, L', ⟨-, rfl⟩, rfl⟩ := h
      exact c.ledger.moveLamports_of_ne n (hordinary userKey (by decide)) hne
  | addValidator =>
      obtain ⟨⟨-, L', hrun, rfl⟩, -⟩ := perform_call h
      simp only [dispatch, processAddValidator, bind_eq_ok] at hrun
      obtain ⟨a, hparse, list, -, -, -, -, -, hstore⟩ := hrun
      obtain rfl := Except.ok.inj hparse
      exact store_others hstore (hordinary listKey (by decide))
  | updatePool =>
      obtain ⟨⟨-, L', hrun, rfl⟩, -⟩ := perform_call h
      simp only [dispatch, processUpdatePoolBalance, bind_eq_ok] at hrun
      obtain ⟨a, hparse, pool, -, list, -, -, -, total, -, hstore⟩ := hrun
      obtain rfl := Except.ok.inj hparse
      exact store_others hstore (hordinary poolKey (by decide))

theorem performAll_others {k : Pubkey} (hk : 2 ^ 255 ≤ k.bits.toNat) (hne : k ≠ reserveKey)
    {actions : List Action} (hactions : ∀ action ∈ actions, Prepares action) :
    ∀ {c c' : Chain}, performAll allowed actions c = .ok c' → c'.ledger k = c.ledger k := by
  induction actions with
  | nil =>
      intro c c' h
      rw [Except.ok.inj h]
  | cons action actions ih =>
      intro c c' h
      simp only [performAll, bind_eq_ok] at h
      obtain ⟨c₁, hfirst, hrest⟩ := h
      rw [ih (fun a ha => hactions a (by simp [ha])) hrest]
      exact (hactions action (by simp)).others hk hne hfirst

/-- What the accounts of the pool look like before the first stake account is opened. -/
def preparedAccounts (L : Ledger) : (Pubkey × AccountData) × (Pubkey × AccountData) × Account :=
  (((L poolKey).owner, (L poolKey).data), ((L listKey).owner, (L listKey).data), L reserveKey)

theorem prepared_opened {actions : List Action} {total : UInt64}
    (hactions : ∀ action ∈ actions, Prepares action) (h : execute allowed actions = .ok c)
    (haccounts : preparedAccounts c.ledger =
      ((programId, .stakePool StakePool.LEN p),
        (programId, .validatorStakeList ValidatorStakeList.LEN ⟨1, [⟨validatorKey, 0, 0, 0⟩]⟩),
        wallet total)) :
    Opened p total.toNat 0 c.ledger := by
  simp only [preparedAccounts, Prod.mk.injEq] at haccounts
  obtain ⟨⟨hpool, hpoolData⟩, ⟨hlist, hlistData⟩, hreserve⟩ := haccounts
  refine
    { pool_owner := hpool
      pool_data := hpoolData
      list_owner := hlist
      list_data := ⟨0, hlistData⟩
      reserve_owner := by rw [hreserve]; rfl
      reserve := by rw [hreserve]; rfl
      fresh := ?_
      first := fun hpos => absurd hpos (Nat.lt_irrefl 0) }
  intro i _
  simp only [execute, bind_eq_ok] at h
  obtain ⟨L₀, hinit, hrun⟩ := h
  have haddress : 2 ^ 255 ≤ (stakeAccount i).bits.toNat := by
    unfold stakeAccount
    rw [stakeAddress_toNat]
    omega
  rw [performAll_others haddress (stakeAccount_ne_reserve i) hactions hrun]
  exact (initialized_others haddress hinit).trans (startLedger_of_address haddress)

theorem perform_on (h : perform allowed c action = .ok c') :
    c' = { c with ledger := c'.ledger } := by
  cases action with
  | call instruction accounts =>
      obtain ⟨⟨-, L', -, rfl⟩, -⟩ := perform_call h
      rfl
  | pay source target n =>
      simp only [perform, bind_eq_ok, pure_eq_ok] at h
      obtain ⟨-, -, L', -, rfl⟩ := h
      rfl

theorem execute_on {actions : List Action} (h : execute allowed actions = .ok c) :
    c = on c.ledger := by
  have hall : ∀ (actions : List Action) (c₁ : Chain), performAll allowed actions c₁ = .ok c →
      c = { c₁ with ledger := c.ledger } := by
    intro actions
    induction actions with
    | nil =>
        intro c₁ h
        obtain rfl := Except.ok.inj h
        rfl
    | cons action actions ih =>
        intro c₁ h
        simp only [performAll, bind_eq_ok] at h
        obtain ⟨c₂, hfirst, hrest⟩ := h
        rw [ih c₂ hrest, perform_on hfirst]
  simp only [execute, bind_eq_ok] at h
  obtain ⟨L₀, -, hrun⟩ := h
  exact hall actions { start with ledger := L₀ } hrun

/-! ## The end -/

/-- The record of the pool after `UpdatePoolBalance`, or before for a total of zero. -/
def preparedPool (stakeTotal : UInt64) : StakePool where
  version := programVersion
  owner := ownerKey
  depositBumpSeed := 255
  withdrawBumpSeed := 255
  validatorStakeList := listKey
  creditList := creditListKey
  poolMint := mintKey
  ownerFeeAccount := feeKey
  creditReserve := creditReserveKey
  tokenProgramId := splTokenId
  stakeTotal := stakeTotal
  poolTotal := 0
  lastUpdateEpoch := 0
  fee := ⟨1, 0⟩

theorem wired_preparedPool (stakeTotal : UInt64) : Wired (preparedPool stakeTotal) :=
  ⟨rfl, rfl, rfl, rfl, rfl⟩

/-- All stake accounts are open and the count is zero, so the validator can be removed. -/
theorem Opened.remove {stakeTotal : UInt64}
    (h : Opened (preparedPool stakeTotal) total (2 ^ 32) L) :
    dispatch programs programId .removeValidator (validatorAccounts validatorKey) (on L) =
      .ok (L.setData listKey (.validatorStakeList ValidatorStakeList.LEN ⟨1, []⟩)) := by
  obtain ⟨balance, hdata⟩ := h.list_data
  simp only [dispatch, processRemoveValidator, loadForOwner, bind_eq_ok, require_eq_ok]
  refine ⟨_, rfl, ⟨1, [⟨validatorKey, balance, 0, 0⟩]⟩,
    ⟨preparedPool stakeTotal, ?_, (), ?_, (), ?_, ?_⟩, [], ?_, ?_⟩
  · refine loadStakePool_eq_ok.mpr ⟨h.pool_owner, ?_, rfl⟩
    change StakePool.deserialize _ (L poolKey).data = _
    rw [h.pool_data]
    rfl
  · exact StakePool.checkOwner_eq_ok.mpr ⟨rfl, rfl⟩
  · exact UInt64.lt_irrefl 0
  · refine loadValidatorStakeList_eq_ok.mpr ⟨rfl, ?_, rfl⟩
    change ValidatorStakeList.deserialize _ (L listKey).data = _
    rw [hdata]
    rfl
  · rfl
  · refine store_eq_ok.mpr ⟨.validatorStakeList ValidatorStakeList.LEN ⟨1, []⟩, ?_,
      .inl h.list_owner, rfl⟩
    change ValidatorStakeList.serialize _ (L listKey).data = _
    rw [hdata]
    rfl

theorem stateOf_pool {p : StakePool} {len : Nat}
    (h : (L poolKey).data = .stakePool len p) : (deployment.stateOf L).pool = p := by
  change L.poolAt poolKey = p
  simp [Ledger.poolAt, h]

theorem stateOf_list {p : StakePool} {len len' : Nat} {list : ValidatorStakeList}
    (h : (L poolKey).data = .stakePool len p) (hp : p.validatorStakeList = listKey)
    (hlist : (L listKey).data = .validatorStakeList len' list) :
    (deployment.stateOf L).list = list := by
  change L.listAt (L.poolAt poolKey).validatorStakeList = list
  simp [Ledger.poolAt, Ledger.listAt, h, hp, hlist]

end Tenderize.Reference
