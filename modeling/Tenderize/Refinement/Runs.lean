import Tenderize.Refinement.Pool
import Tenderize.Refinement.Deposit
import Tenderize.Refinement.Credits
import Tenderize.Refinement.Validators
import Tenderize.Refinement.Stakes
import Tenderize.Refinement.Initialize

/-!
# Runs of the program

A run starts with the `Initialize` of a pool.  Its steps are instructions addressed to
that pool, by any caller and with any other accounts, and whatever other programs do in
between.  Every run is simulated by the pool steps.
-/

namespace Tenderize

open Support

inductive Event where
  | instruction (instruction : StakePoolInstruction) (accounts : List AccountInfo)
  | outside

/-- The accounts of an event that is an instruction. -/
def Event.accounts : Event → List AccountInfo
  | .instruction _ accounts => accounts
  | .outside => []

namespace Deployment

variable (D : Deployment)

/-- What can happen between two instructions to the pool: its records are not written,
nobody mints or burns its tokens, and nobody can spend from an address derived for it.
Lamports and tokens may be sent anywhere, stakes may earn rewards, and the runtime collects
accounts without lamports, but no rent from accounts that have some.

Instructions to other pools are such steps as long as they keep away from these records.  The
handlers alone do not ensure that: they take every long enough account of the program whose
first byte is not zero for a stake pool, a list of validators or of credits among them. -/
structure Outside (c c' : Chain) : Prop where
  records : ∀ pool, c.ledger.HasPool D.programId D.poolKey pool →
    ∀ key ∈ [D.poolKey, pool.validatorStakeList, pool.creditList],
      (c'.ledger key).owner = (c.ledger key).owner ∧
        (c'.ledger key).data = (c.ledger key).data
  mints : ∀ key m, c.ledger.HasMint key m → m.mintAuthority = some D.withdrawKey →
    c'.ledger.HasMint key m
  tokens : ∀ key t, c.ledger.HasTokenAccount key t → t.owner = D.withdrawKey →
    t.delegate = none → t.closeAuthority = none →
    ∃ t', c'.ledger.HasTokenAccount key t' ∧ t'.mint = t.mint ∧ t'.owner = t.owner ∧
      t'.delegate = none ∧ t'.closeAuthority = none ∧ t.amount ≤ t'.amount
  lamports : ∀ key, D.OwnAddress key →
    (c.ledger key).lamports ≤ (c'.ledger key).lamports
  owners : ∀ key, D.OwnAddress key →
    (c'.ledger key).owner = (c.ledger key).owner ∨
      (c.ledger key).lamports = 0 ∧ (c'.ledger key).owner = systemProgramId

/-- No lamports appear in a stake account of the pool that holds none. -/
def NoRevival (c c' : Chain) : Prop :=
  ∀ validator index, stakeLamports c.ledger (D.stakeKey validator index) = 0 →
    stakeLamports c'.ledger (D.stakeKey validator index) = 0

/-- The chain right after the pool was initialized on fresh accounts. -/
def Genesis (c : Chain) : Prop :=
  ∃ c₀ init accounts a, InitializeAccounts.parse c₀ accounts = .ok a ∧
    D.FreshAccounts c₀.ledger a ∧ D.Addressed accounts ∧
    dispatch D.programs D.programId (.initializePool init) accounts c₀ = .ok c.ledger

/-- One event of a run. -/
def Step (env : Chain → Chain → Prop) (c : Chain) : Event → Chain → Prop
  | .instruction instruction accounts, c' =>
      D.Addressed accounts ∧
        ∃ L, dispatch D.programs D.programId instruction accounts c = .ok L ∧
          c' = { c with ledger := L }
  | .outside, c' => env c c'

def system (env : Chain → Chain → Prop) : System Chain Event where
  init := D.Genesis
  step := D.Step env

/-- The pool steps as a system. -/
def poolSystem : System PoolState PoolOp where
  init := D.Fresh
  step := PoolStep D

end Deployment

/-- Which pool step an event is. -/
inductive Matches (quiet : Prop) (c : Chain) : Event → PoolState → PoolOp → Prop
  | addValidator {accounts : List AccountInfo} {s : PoolState} {a : ValidatorAccounts} :
      ValidatorAccounts.parse c accounts = .ok a →
      Matches quiet c (.instruction .addValidator accounts) s (.addValidator a.validator.key)
  | removeValidator {accounts : List AccountInfo} {s : PoolState} {a : ValidatorAccounts} :
      ValidatorAccounts.parse c accounts = .ok a →
      Matches quiet c (.instruction .removeValidator accounts) s
        (.removeValidator a.validator.key)
  | updateList {accounts : List AccountInfo} {s : PoolState} :
      Matches quiet c (.instruction .updateListBalance accounts) s .updateList
  | updatePool {accounts : List AccountInfo} {s : PoolState} :
      Matches quiet c (.instruction .updatePoolBalance accounts) s .updatePool
  | deposit {amount : UInt64} {accounts : List AccountInfo} {s : PoolState}
      {a : DepositAccounts} :
      DepositAccounts.parse c accounts = .ok a →
      Matches quiet c (.instruction (.deposit amount) accounts) s (.deposit amount a.poolMint.key)
  | withdraw {n : UInt64} {accounts : List AccountInfo} {s : PoolState} {a : WithdrawAccounts} :
      WithdrawAccounts.parse c accounts = .ok a →
      Matches quiet c (.instruction (.withdraw n) accounts) s
        (.withdraw n a.burnFrom.key a.poolMint.key)
  | setOwner {accounts : List AccountInfo} {s : PoolState} :
      Matches quiet c (.instruction .setOwner accounts) s .setOwner
  | credit {amount : UInt64} {accounts : List AccountInfo} {s : PoolState} {a : CreditAccounts} :
      CreditAccounts.parse accounts = .ok a →
      Matches quiet c (.instruction (.credit amount) accounts) s (.credit amount a.burnFrom.key)
  | uncredit {amount : UInt64} {accounts : List AccountInfo} {s : PoolState} :
      Matches quiet c (.instruction (.uncredit amount) accounts) s (.uncredit amount)
  | delegateReserve {instructions : List DelegateReserveInstruction}
      {accounts : List AccountInfo} {s : PoolState} :
      Matches quiet c (.instruction (.delegateReserve instructions) accounts) s
        (.delegateReserve ((voteKeys (accounts.drop 12)).zip instructions))
  | mergeStakes {instructions : List MergeStakesInstruction} {accounts : List AccountInfo}
      {s : PoolState} :
      Matches quiet c (.instruction (.mergeStakes instructions) accounts) s
        (.mergeStakes instructions)
  | unstake {instructions : List UnstakeInstruction} {accounts : List AccountInfo}
      {s : PoolState} :
      Matches quiet c (.instruction (.unstake instructions) accounts) s (.unstake instructions)
  | payCreditors {accounts : List AccountInfo} {s : PoolState} :
      Matches quiet c (.instruction .payCreditors accounts) s
        (.payCreditors
          (payable c.ledger (s.creditList.credits.take (accounts.drop 10).length)))
  | outside {s : PoolState} : Matches quiet c .outside s (.outside quiet)

/-- The pool mint the accounts of an instruction name. -/
def mintAccount : StakePoolInstruction → List AccountInfo → Option Pubkey
  | .deposit _, accounts => accounts[6]?.map (fun info => info.key)
  | .withdraw _, accounts => accounts[4]?.map (fun info => info.key)
  | _, _ => none

/-- The `burn_from` account of an instruction. -/
def burnFromAccount : StakePoolInstruction → List AccountInfo → Option Pubkey
  | .withdraw _, accounts => accounts[3]?.map (fun info => info.key)
  | .credit _, accounts => accounts[4]?.map (fun info => info.key)
  | _, _ => none

variable {D : Deployment} {c c' : Chain} {s : PoolState}

theorem Matches.mint_eq {quiet : Prop} {instruction : StakePoolInstruction}
    {accounts : List AccountInfo} {op : PoolOp}
    (h : Matches quiet c (.instruction instruction accounts) s op) :
    op.mint? = mintAccount instruction accounts := by
  cases h with
  | deposit hparse =>
      obtain ⟨⟨rest, haccounts⟩, -⟩ := DepositAccounts.parse_ok hparse
      rw [haccounts]
      rfl
  | withdraw hparse =>
      obtain ⟨rest, haccounts⟩ := WithdrawAccounts.parse_ok hparse
      rw [haccounts]
      rfl
  | _ => rfl

theorem Matches.burnFrom_eq {quiet : Prop} {instruction : StakePoolInstruction}
    {accounts : List AccountInfo} {op : PoolOp}
    (h : Matches quiet c (.instruction instruction accounts) s op) :
    op.burnFrom? = burnFromAccount instruction accounts := by
  cases h with
  | withdraw hparse =>
      obtain ⟨rest, haccounts⟩ := WithdrawAccounts.parse_ok hparse
      rw [haccounts]
      rfl
  | credit hparse =>
      obtain ⟨rest, haccounts⟩ := CreditAccounts.parse_ok hparse
      rw [haccounts]
      rfl
  | _ => rfl

/-! ## Outside steps -/

theorem Deployment.Outside.stakes_le (hout : D.Outside c c') (validator : Pubkey)
    (index : UInt32) :
    D.stakesOf c.ledger (D.stakeKey validator index) ≤
      D.stakesOf c'.ledger (D.stakeKey validator index) := by
  have haddress : D.OwnAddress (D.stakeKey validator index) := .stake validator index
  have hlamports := UInt64.le_iff_toNat_le.mp (hout.lamports _ haddress)
  unfold Deployment.stakesOf stakeLamports
  rcases hout.owners _ haddress with howner | ⟨hzero, -⟩
  · rw [howner]
    split_ifs
    · exact le_refl 0
    · exact hlamports
    · exact le_refl 0
  · rw [hzero]
    simp

theorem Deployment.Represents.outside {quiet : Prop} (h : D.Represents c.ledger s)
    (hout : D.Outside c c') (hquiet : quiet → D.NoRevival c c') :
    ∃ s', PoolStep D s (.outside quiet) s' ∧ D.Represents c'.ledger s' := by
  have hw := h.wired
  have hrecords := hout.records _ h.has_pool
  obtain ⟨hpoolOwner, hpoolData⟩ := hrecords D.poolKey (by simp)
  obtain ⟨hlistOwner, hlistData⟩ := hrecords s.pool.validatorStakeList (by simp)
  obtain ⟨hcreditsOwner, hcreditsData⟩ := hrecords s.pool.creditList (by simp)
  obtain ⟨t', ht', hmint, howner, hdelegate, hclose, hamount⟩ :=
    hout.tokens _ _ h.has_credit_reserve hw.reserve_owner hw.reserve_delegate hw.reserve_close
  refine ⟨{ s with
      creditReserve := t', reserve := (c'.ledger D.reserveKey).lamports,
      stakes := D.stakesOf c'.ledger },
    .outside quiet t' _ _ ⟨hamount, ?_, ?_, ?_⟩, ?_⟩
  · rw [← h.reserve_eq]
    exact hout.lamports _ Deployment.reserveKey_ownAddress
  · intro validator index
    rw [← h.stakes_eq]
    exact hout.stakes_le validator index
  · intro hq validator index hzero
    rw [← h.stakes_eq] at hzero
    unfold Deployment.stakesOf at hzero ⊢
    split_ifs at hzero ⊢
    · rfl
    · exact hquiet hq validator index hzero
  · refine
      { wired :=
          { hw with
            reserve_mint := hmint.trans hw.reserve_mint
            reserve_owner := howner.trans hw.reserve_owner
            reserve_delegate := hdelegate
            reserve_close := hclose }
        has_pool := ?_
        has_list := ?_
        has_credits := ?_
        has_mint := hout.mints _ _ h.has_mint hw.mint_authority
        has_credit_reserve := ht'
        reserve_not_token := ?_
        reserve_eq := rfl
        stakes_eq := rfl }
    · unfold Ledger.HasPool
      rw [hpoolOwner, hpoolData]
      exact h.has_pool
    · unfold Ledger.HasList
      rw [hlistOwner, hlistData]
      exact h.has_list
    · unfold Ledger.HasCredits
      rw [hcreditsOwner, hcreditsData]
      exact h.has_credits
    · rcases hout.owners _ D.reserveKey_ownAddress with hsame | ⟨-, hsystem⟩
      · rw [hsame]
        exact h.reserve_not_token
      · rw [hsystem]
        exact splTokenId_ne_system.symm

/-- Time passes. -/
theorem clock_outside (clock : Clock) : D.Outside c { c with clock } where
  records _ _ _ _ := ⟨rfl, rfl⟩
  mints _ _ hmint _ := hmint
  tokens _ t ht _ hdelegate hclose :=
    ⟨t, ht, rfl, rfl, hdelegate, hclose, UInt64.le_refl _⟩
  lamports _ _ := UInt64.le_refl _
  owners _ _ := .inl rfl

/-- Anybody may send lamports from an ordinary account. -/
theorem transfer_outside {source target : Pubkey} {n : UInt64} {sigs : List Pubkey} {L' : Ledger}
    (hsource : ¬D.programs.IsProgramAddress D.programId source)
    (hcall : D.programs.transfer source target n sigs c.ledger = .ok L') :
    D.Outside c { c with ledger := L' } := by
  obtain ⟨-, -, -, hfits, rfl⟩ := D.lawful.transfer_ok hcall
  have hsame : ∀ key, ((c.ledger.moveLamports source target n) key).owner =
      (c.ledger key).owner ∧
      ((c.ledger.moveLamports source target n) key).data = (c.ledger key).data :=
    fun key => ⟨c.ledger.moveLamports_owner source target key n,
      c.ledger.moveLamports_data source target key n⟩
  refine
    { records := fun _ _ key _ => hsame key
      mints := fun key m hm _ => ⟨(hsame key).1.trans hm.1, (hsame key).2.trans hm.2⟩
      tokens := fun key t ht _ hdelegate hclose =>
        ⟨t, ⟨(hsame key).1.trans ht.1, (hsame key).2.trans ht.2⟩, rfl, rfl, hdelegate, hclose,
          UInt64.le_refl _⟩
      lamports := ?_
      owners := fun key _ => .inl (hsame key).1 }
  intro key hkey
  have hne : key ≠ source := by
    rintro rfl
    exact hsource hkey.isProgramAddress
  by_cases htarget : key = target
  · subst htarget
    rw [UInt64.le_iff_toNat_le]
    change _ ≤ ((c.ledger.moveLamports source key n) key).lamports.toNat
    rw [c.ledger.moveLamports_target n hne.symm]
    change _ ≤ ((c.ledger key).lamports + n).toNat
    rw [toNat_add_of_lt (hfits hne.symm)]
    omega
  · change _ ≤ ((c.ledger.moveLamports source target n) key).lamports
    rw [c.ledger.moveLamports_of_ne n hne htarget]
    exact UInt64.le_refl _

/-- Other programs may write whatever they like to accounts that are not the pool's, and the
data of those at its addresses. -/
theorem set_outside {key : Pubkey} (account : Account)
    (hkey : D.OwnAddress key → (c.ledger key).lamports ≤ account.lamports ∧
      account.owner = (c.ledger key).owner) (h : D.Represents c.ledger s)
    (hrecords : key ∉ [D.poolKey, s.pool.validatorStakeList, s.pool.creditList])
    (hmint : ∀ m, c.ledger.HasMint key m → m.mintAuthority ≠ some D.withdrawKey)
    (htoken : ∀ t, c.ledger.HasTokenAccount key t → t.owner ≠ D.withdrawKey) :
    D.Outside c { c with ledger := c.ledger.set key account } := by
  have hsame : ∀ k, k ≠ key → c.ledger.set key account k = c.ledger k :=
    fun k hk => c.ledger.set_of_ne account hk
  have haddress : ∀ k, D.OwnAddress k →
      (c.ledger k).lamports ≤ (c.ledger.set key account k).lamports ∧
        (c.ledger.set key account k).owner = (c.ledger k).owner := by
    intro k hk
    by_cases hne : k = key
    · rw [hne, Ledger.set_same]
      exact hkey (hne ▸ hk)
    · rw [hsame k hne]
      exact ⟨UInt64.le_refl _, rfl⟩
  refine
    { records := ?_
      mints := ?_
      tokens := ?_
      lamports := fun k hk => (haddress k hk).1
      owners := fun k hk => .inl (haddress k hk).2 }
  · intro pool hpool k hk
    obtain ⟨-, _, -, hdata⟩ := h.has_pool
    obtain ⟨-, _, -, hdata'⟩ := hpool
    obtain ⟨-, rfl⟩ := AccountData.stakePool.inj (hdata.symm.trans hdata')
    have hne : k ≠ key := by
      rintro rfl
      exact hrecords hk
    exact ⟨congrArg Account.owner (hsame k hne), congrArg Account.data (hsame k hne)⟩
  · intro k m hm hauthority
    have hne : k ≠ key := by
      rintro rfl
      exact hmint m hm hauthority
    unfold Ledger.HasMint
    change (c.ledger.set key account k).owner = _ ∧ (c.ledger.set key account k).data = _
    rw [hsame k hne]
    exact hm
  · intro k t ht howner hdelegate hclose
    have hne : k ≠ key := by
      rintro rfl
      exact htoken t ht howner
    refine ⟨t, ?_, rfl, rfl, hdelegate, hclose, UInt64.le_refl _⟩
    unfold Ledger.HasTokenAccount
    change (c.ledger.set key account k).owner = _ ∧ (c.ledger.set key account k).data = _
    rw [hsame k hne]
    exact ht

/-- The stake program may rewrite the state of any stake, as it does with a reward. -/
theorem stakeState_outside {key : Pubkey} {old : StakeState} (state : StakeState)
    (h : D.Represents c.ledger s) (hkey : (c.ledger key).data = .stake old) :
    D.Outside c { c with ledger := c.ledger.setData key (.stake state) } := by
  obtain ⟨-, _, -, hpool⟩ := h.has_pool
  obtain ⟨-, -, _, hlist⟩ := h.has_list
  obtain ⟨-, -, _, hcredits⟩ := h.has_credits
  refine set_outside _ (fun _ => ⟨UInt64.le_refl _, rfl⟩) h ?_ ?_ ?_
  -- no record, mint or token account is where a stake is
  · intro hmem
    simp only [List.mem_cons, List.not_mem_nil, or_false] at hmem
    obtain rfl | rfl | rfl := hmem
    · cases hkey.symm.trans hpool
    · cases hkey.symm.trans hlist
    · cases hkey.symm.trans hcredits
  · rintro m ⟨-, hmint⟩
    cases hkey.symm.trans hmint
  · rintro t ⟨-, htoken⟩
    cases hkey.symm.trans htoken

/-! ## Simulation -/

/-- Every instruction that succeeds is a step of the pool. -/
theorem dispatch_refines (quiet : Prop) {accounts : List AccountInfo} {L' : Ledger}
    (h : D.Represents c.ledger s) (ha : D.Addressed accounts)
    (instruction : StakePoolInstruction)
    (hrun : dispatch D.programs D.programId instruction accounts c = .ok L') :
    ∃ op s', PoolStep D s op s' ∧ D.Represents L' s' ∧
      Matches quiet c (.instruction instruction accounts) s op := by
  cases instruction with
  | initializePool init => exact absurd hrun (processInitialize_fails h ha)
  | addValidator =>
      obtain ⟨a, s', hparse, hstep, h'⟩ := processAddValidator_refines h ha hrun
      exact ⟨_, s', hstep, h', .addValidator hparse⟩
  | removeValidator =>
      obtain ⟨a, s', hparse, hstep, h'⟩ := processRemoveValidator_refines h ha hrun
      exact ⟨_, s', hstep, h', .removeValidator hparse⟩
  | updateListBalance =>
      obtain ⟨s', hstep, h'⟩ := processUpdateListBalance_refines h ha hrun
      exact ⟨_, s', hstep, h', .updateList⟩
  | updatePoolBalance =>
      obtain ⟨s', hstep, h'⟩ := processUpdatePoolBalance_refines h ha hrun
      exact ⟨_, s', hstep, h', .updatePool⟩
  | deposit amount =>
      obtain ⟨a, s', hparse, hstep, h'⟩ := processDeposit_refines h ha hrun
      exact ⟨_, s', hstep, h', .deposit hparse⟩
  | withdraw n =>
      obtain ⟨a, s', hparse, hstep, h'⟩ := processWithdraw_refines h ha hrun
      exact ⟨_, s', hstep, h', .withdraw hparse⟩
  | setStakingAuthority => exact nomatch hrun
  | setOwner =>
      obtain ⟨s', hstep, h'⟩ := processSetOwner_refines h ha hrun
      exact ⟨_, s', hstep, h', .setOwner⟩
  | credit amount =>
      obtain ⟨a, s', hparse, hstep, h'⟩ := processCredit_refines h ha hrun
      exact ⟨_, s', hstep, h', .credit hparse⟩
  | uncredit amount =>
      obtain ⟨s', hstep, h'⟩ := processUncredit_refines h ha hrun
      exact ⟨_, s', hstep, h', .uncredit⟩
  | delegateReserve instructions =>
      obtain ⟨-, -, b, hsteps, h'⟩ := processDelegateReserve_refines h ha hrun
      exact ⟨_, _, .delegateReserve _ b hsteps, h', .delegateReserve⟩
  | mergeStakes instructions =>
      obtain ⟨s', hstep, h'⟩ := processMergeStakes_refines h ha hrun
      exact ⟨_, s', hstep, h', .mergeStakes⟩
  | unstake instructions =>
      obtain ⟨s', hstep, h'⟩ := processUnstake_refines h ha hrun
      exact ⟨_, s', hstep, h', .unstake⟩
  | payCreditors =>
      obtain ⟨s', hstep, h'⟩ := processPayCreditors_refines h ha hrun
      exact ⟨_, s', hstep, h', .payCreditors⟩

theorem Deployment.Genesis.represents (h : D.Genesis c) :
    ∃ s, D.Represents c.ledger s ∧ D.Fresh s := by
  obtain ⟨c₀, init, accounts, a, hparse, hfresh, ha, hrun⟩ := h
  obtain ⟨s, hs, hempty, -⟩ := processInitialize_represents hparse hfresh ha hrun
  exact ⟨s, hs, hempty⟩

/-- Runs of the program are simulated by runs of the pool. -/
theorem system_simulation {env : Chain → Chain → Prop} (quiet : Prop)
    (hout : ∀ c c', env c c' → D.Outside c c')
    (hquiet : quiet → ∀ c c', env c c' → D.NoRevival c c') :
    System.Simulation (D.system env) D.poolSystem (fun c s => D.Represents c.ledger s)
      (Matches quiet) where
  init c h := h.represents
  step := by
    intro c e c' s h hstep
    cases e with
    | instruction instruction accounts =>
        obtain ⟨ha, L', hrun, rfl⟩ := hstep
        obtain ⟨op, s', hpool, h', hmatch⟩ := dispatch_refines quiet h ha instruction hrun
        exact ⟨op, s', hpool, h', hmatch⟩
    | outside =>
        obtain ⟨s', hpool, h'⟩ := h.outside (hout c c' hstep) (fun hq => hquiet hq c c' hstep)
        exact ⟨_, s', hpool, h', .outside⟩

/-- An invariant of the guarded pool steps holds in every reachable state. -/
theorem reachable_invariant {env : Chain → Chain → Prop} (quiet : Prop)
    {guard : Chain → Event → Prop} (guard' : PoolState → PoolOp → Prop) (I : PoolState → Prop)
    (hout : ∀ c c', env c c' → D.Outside c c')
    (hquiet : quiet → ∀ c c', env c c' → D.NoRevival c c')
    (hguard : ∀ c e s op, D.Represents c.ledger s → Matches quiet c e s op → guard c e →
      guard' s op)
    (hI : (D.poolSystem.restrict guard').Invariant I)
    (h : ((D.system env).restrict guard).Reachable c) :
    D.Represents c.ledger (D.stateOf c.ledger) ∧ I (D.stateOf c.ledger) := by
  obtain ⟨s, hs, hIs⟩ :=
    ((system_simulation quiet hout hquiet).restrict hguard).invariant hI h
  rw [← hs.eq_stateOf]
  exact ⟨hs, hIs⟩

/-- Every reachable chain holds a pool. -/
theorem reachable_represents (h : (D.system D.Outside).Reachable c) :
    D.Represents c.ledger (D.stateOf c.ledger) := by
  have htrivial : D.poolSystem.Invariant (fun _ => True) :=
    ⟨fun _ _ => trivial, fun _ _ _ _ _ => trivial⟩
  have hout : ∀ c c', D.Outside c c' → D.Outside c c' := fun _ _ h => h
  obtain ⟨s, hs, -⟩ := (system_simulation False hout False.elim).invariant htrivial h
  rw [← hs.eq_stateOf]
  exact hs

theorem Deployment.Step.mono {env env' : Chain → Chain → Prop} (henv : ∀ c c', env c c' → env' c c')
    {e : Event} (h : D.Step env c e c') : D.Step env' c e c' := by
  cases e with
  | instruction instruction accounts => exact h
  | outside => exact henv c c' h

/-- A run among milder programs is a run among any programs. -/
theorem reachable_outside {env : Chain → Chain → Prop}
    (hout : ∀ c c', env c c' → D.Outside c c') (h : (D.system env).Reachable c) :
    (D.system D.Outside).Reachable c := by
  have hinit : ∀ c, (D.system env).init c → (D.system D.Outside).init c := fun _ hc => hc
  exact h.mono hinit (fun _ _ _ hstep => Deployment.Step.mono hout hstep)

end Tenderize
