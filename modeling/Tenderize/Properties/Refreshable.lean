import Tenderize.Properties.StakeRuns
import Tenderize.Reference.Rules

/-!
# Refreshing the whole pool

`UpdateListBalance` has a branch for every account that a stake address can hold, except for
one: a stake account that was merged away and that somebody sent lamports to before the
runtime collected it.  While one of the counted accounts is of that kind, the list cannot be
refreshed as a whole; otherwise the refresh of the list and then of the pool gets through.
-/

namespace Tenderize

open Support

/-- The account was merged away, and lamports were sent to it afterwards. -/
def Account.Refilled (x : Account) : Prop :=
  x.owner = stakeProgramId ∧ x.data = .stake .uninitialized ∧ x.lamports ≠ 0

instance : DecidablePred Account.Refilled := fun _ => instDecidableAnd

variable {D : Deployment} {quiet fits : Prop} {W : Set Pubkey} {c : Chain} {s : PoolState}
  {x : Account}

theorem Deployment.SoundStake.unfilled_iff (h : D.SoundStake False x) :
    D.SoundStake True x ↔ ¬x.Refilled := by
  constructor
  · rintro hsound ⟨howner, hdata, hlamports⟩
    cases hsound with
    | closed hclosed => exact stakeProgramId_ne_system (howner.symm.trans hclosed)
    | merged _ _ hempty => exact hlamports (hempty trivial)
    | live state m hlive =>
        have hstate := AccountData.stake.inj (hlive.data.symm.trans hdata)
        have hmeta := hlive.stakeMeta
        rw [hstate] at hmeta
        cases hmeta
  · intro hunfilled
    cases h with
    | closed howner => exact .closed howner
    | merged howner hdata _ =>
        refine .merged howner hdata fun _ => ?_
        by_contra hlamports
        exact hunfilled ⟨howner, hdata, hlamports⟩
    | live state m hlive => exact .live state m hlive

/-! ## The total -/

/-- A call of UpdatePoolBalance with the accounts of the pool. -/
structure Deployment.RefreshesPool (D : Deployment) (c : Chain) (s : PoolState)
    (accounts : List AccountInfo) (a : UpdatePoolBalanceAccounts) : Prop where
  addressed : D.Addressed accounts
  parsed : UpdatePoolBalanceAccounts.parse c accounts = .ok a
  list : a.validatorStakeList.key = s.pool.validatorStakeList
  reserve : a.reserve.key = D.reserveKey

theorem addBalances_succeeds {clock : Clock} {V : List ValidatorStakeInfo} :
    ∀ {start : UInt64}, (∀ r ∈ V, ¬r.lastUpdateEpoch < clock.epoch) →
      ∃ total, addBalances clock start V = .ok total := by
  induction V with
  | nil => exact fun _ => ⟨_, rfl⟩
  | cons r V ih =>
      intro start hfresh
      rw [List.forall_mem_cons] at hfresh
      obtain ⟨total, hrest⟩ := ih hfresh.2
      simp only [addBalances, bind_eq_ok, require_eq_ok]
      exact ⟨total, (), hfresh.1, hrest⟩

theorem processUpdatePoolBalance_succeeds {accounts : List AccountInfo}
    {a : UpdatePoolBalanceAccounts} (h : D.Represents c.ledger s)
    (hcall : D.RefreshesPool c s accounts a) (hroom : s.list.validators.length ≤ maxValidators)
    (hfresh : ∀ r ∈ s.list.validators, ¬r.lastUpdateEpoch < c.clock.epoch) :
    ∃ L', processUpdatePoolBalance D.programs D.programId accounts c = .ok L' := by
  obtain ⟨rest, haccounts⟩ := UpdatePoolBalanceAccounts.parse_ok hcall.parsed
  have hkey := hcall.addressed.key_eq haccounts
  have hreserve : a.reserve.key =
      (getReserveAddress D.programs D.programId a.stakePool.key).1 := by
    rw [hcall.reserve, hkey]
    rfl
  obtain ⟨total, htotal⟩ : ∃ total, addBalances c.clock (c.ledger a.reserve.key).lamports
      s.list.validators = .ok total := addBalances_succeeds hfresh
  obtain ⟨L', hstore⟩ := h.store_pool_ok
    { s.pool with stakeTotal := total, lastUpdateEpoch := c.clock.epoch }
  rw [← hkey] at hstore
  refine ⟨L', ?_⟩
  simp only [processUpdatePoolBalance, bind_eq_ok, require_eq_ok]
  exact ⟨a, hcall.parsed, s.pool, h.loadStakePool_ok hkey, s.list,
    h.loadValidatorStakeList_ok hcall.list hroom, (), hreserve, total, htotal, hstore⟩

/-! ## Both together -/

/-- Right after every record was refreshed, the total can be taken. -/
theorem updatePool_succeeds_after {accounts : List AccountInfo} {records : List ValidatorStakeInfo}
    {a : UpdateListBalanceAccounts} {accounts' : List AccountInfo} {b : UpdatePoolBalanceAccounts}
    {L' : Ledger} (hS : D.programs.StakeRules) (hW : D.Separate W) (h : D.KeepsList W c)
    (hL : D.SoundStakes False W c.ledger)
    (hall : records.Perm (D.stateOf c.ledger).list.validators)
    (hlist : D.RefreshesList c (D.stateOf c.ledger) records accounts a)
    (hpool : D.RefreshesPool c (D.stateOf c.ledger) accounts' b)
    (hrun : processUpdateListBalance D.programs D.programId accounts c = .ok L') :
    ∃ L'', processUpdatePoolBalance D.programs D.programId accounts' { c with ledger := L' } =
      .ok L'' := by
  obtain ⟨hrep, hlisted, hunique⟩ := h
  have hroom := hunique.validators_length
  have hnamed := hlist.namedBy_eq hrep hS hW hL hlisted hroom ⟨L', hrun⟩
  obtain ⟨V', hafter, hrep'⟩ := processUpdateListBalance_sweeps hrep hlist.addressed hS hW hL
    hlisted (RefreshedTo.nothing hL) hrun
  rw [hnamed, List.nil_append] at hafter
  have hcall : D.RefreshesPool { c with ledger := L' } (PoolState.recount
      { D.stateOf c.ledger with list := { (D.stateOf c.ledger).list with validators := V' } } D L')
      accounts' b :=
    ⟨hpool.addressed, hpool.parsed, hpool.list, hpool.reserve⟩
  refine processUpdatePoolBalance_succeeds hrep' hcall ?_ ?_
  · change V'.length ≤ maxValidators
    rw [hafter.records, Deployment.refreshedIn, List.length_map]
    exact hroom
  · intro r hr
    change r ∈ V' at hr
    rw [hafter.records] at hr
    obtain ⟨r₀, hr₀, rfl⟩ := List.mem_map.mp hr
    rw [if_pos (List.mem_map_of_mem (hall.mem_iff.mpr hr₀))]
    exact UInt64.lt_irrefl _

/-- The whole pool can be refreshed exactly while no counted stake account was filled again
after it was merged away. -/
theorem refresh_succeeds_iff {accounts : List AccountInfo} {records : List ValidatorStakeInfo}
    {a : UpdateListBalanceAccounts} {accounts' : List AccountInfo} {b : UpdatePoolBalanceAccounts}
    (hS : D.programs.StakeRules) (hT : D.programs.SystemRules) (hW : D.Separate W)
    (h : (D.stakeRuns False False W).Reachable c)
    (hbounded : D.Bounded (D.countedKeys (D.stateOf c.ledger).list.validators) c.ledger)
    (hall : records.Perm (D.stateOf c.ledger).list.validators)
    (hlist : D.RefreshesList c (D.stateOf c.ledger) records accounts a)
    (hpool : D.RefreshesPool c (D.stateOf c.ledger) accounts' b) :
    ((∃ L', dispatch D.programs D.programId .updateListBalance accounts c = .ok L') ↔
      ∀ r ∈ (D.stateOf c.ledger).list.validators, ∀ i < r.stakeCount,
        ¬(c.ledger (D.stakeKey r.validatorAccount i)).Refilled) ∧
    ∀ L', dispatch D.programs D.programId .updateListBalance accounts c = .ok L' →
      ∃ L'', dispatch D.programs D.programId .updatePoolBalance accounts' { c with ledger := L' } =
        .ok L'' := by
  have hsound := Deployment.stakeRuns_sound hS hW h
  have hkeeps := Deployment.stakeRuns_list hW.toNoCollision h
  refine ⟨?_, fun L' hrun => updatePool_succeeds_after hS hW hkeeps hsound hall hlist hpool hrun⟩
  obtain ⟨hrep, hlisted, hunique⟩ := hkeeps
  change (∃ L', processUpdateListBalance D.programs D.programId accounts c = .ok L') ↔ _
  rw [processUpdateListBalance_succeeds_iff hrep hlist hS hT hW hsound hbounded hlisted
    hunique.validators_length]
  have hunfilled : ∀ r ∈ (D.stateOf c.ledger).list.validators, ∀ i,
      D.SoundStake True (c.ledger (D.stakeKey r.validatorAccount i)) ↔
        ¬(c.ledger (D.stakeKey r.validatorAccount i)).Refilled :=
    fun r hr i => (hsound _ (hlisted.names r hr) i).unfilled_iff
  constructor
  · intro hsounds r hr i hi
    exact (hunfilled r hr i).mp (hsounds r (hall.mem_iff.mpr hr) i hi)
  · intro hnone r hr i hi
    have hr' := hall.mem_iff.mp hr
    exact (hunfilled r hr' i).mpr (hnone r hr' i hi)

section

open Reference

theorem Reference.separate (validator : Pubkey) : deployment.Separate {validator} where
  toNoCollision := noCollision validator
  ne_authority := fun v _ i type => stakeAddress_ne_authority v i type

/-- Anybody may send lamports to any address. -/
theorem paysIn_tends (actions : List Action) : PaysIn (deployment.Tends False) actions := by
  intro source target n _ hsource c L' hrun
  refine ⟨transfer_outside (not_isProgramAddress hsource) hrun, fun v i => .spared ?_⟩
  refine transfer_spares (D := deployment) ?_ False.elim hrun
  rintro rfl
  rw [stakeKey_eq, stakeAddress_toNat] at hsource
  omega

/-- The events of runs with one validator. -/
def oneValidator (_ : Chain) (e : Event) : Bool := decide (e.AddsIn {validatorKey})

theorem execute_stakeRuns {actions : List Action} (h : execute oneValidator actions = .ok c) :
    (deployment.stakeRuns False False {validatorKey}).Reachable c :=
  execute_reachable_in (paysIn_tends actions)
    (fun _ _ hok => ⟨of_decide_eq_true hok, False.elim, False.elim⟩) h

/-- What a refresh finds: the records, whether the lamports fit, whether an account was filled
again. -/
def refreshView (c : Chain) : Pubkey × List ValidatorStakeInfo × Bool × Bool :=
  let s := deployment.stateOf c.ledger
  (s.pool.validatorStakeList, s.list.validators,
    deployment.Bounded (deployment.countedKeys s.list.validators) c.ledger,
    s.list.validators.any (fun r => (List.range r.stakeCount.toNat).any (fun i =>
      (c.ledger (deployment.stakeKey r.validatorAccount (UInt32.ofNat i))).Refilled)))

theorem unfilled_of_refreshView (h : (refreshView c).2.2.2 = false) :
    ∀ r ∈ (deployment.stateOf c.ledger).list.validators, ∀ i < r.stakeCount,
      ¬(c.ledger (deployment.stakeKey r.validatorAccount i)).Refilled := by
  intro r hr i hi
  simp only [refreshView, List.any_eq_false, List.mem_range, decide_eq_true_eq,
    List.any_eq_true, not_exists, not_and] at h
  have hnone := h r hr i.toNat (UInt32.lt_iff_toNat_lt.mp hi)
  rwa [UInt32.ofNat_toNat] at hnone

/-- The accounts `UpdateListBalance` reads from `refreshAccounts`. -/
def refreshCall (count : Nat) : UpdateListBalanceAccounts where
  stakePool := plain poolKey
  validatorStakeList := plain listKey
  withdraw := plain withdrawKey
  reserve := plain reserveKey
  systemProgram := plain systemProgramId
  stakeProgram := plain stakeProgramId
  clock := plain clockId
  stakeHistory := plain stakeHistoryKey
  rest := plain validatorKey ::
    (List.range count).map (fun i => plain (stakeAddress validatorKey poolKey (UInt32.ofNat i)))

theorem refreshesList_one {r : ValidatorStakeInfo} (hr : r.validatorAccount = validatorKey)
    (hkey : (deployment.stateOf c.ledger).pool.validatorStakeList = listKey)
    (hlist : (deployment.stateOf c.ledger).list.validators = [r]) :
    deployment.RefreshesList c (deployment.stateOf c.ledger)
      (deployment.stateOf c.ledger).list.validators (refreshAccounts r.stakeCount.toNat)
      (refreshCall r.stakeCount.toNat) where
  addressed := by
    refine ⟨⟨_, _, rfl, rfl⟩, fun info hinfo hsigner => ?_⟩
    simp only [refreshAccounts, List.mem_append, List.mem_cons, List.not_mem_nil, or_false,
      List.mem_map] at hinfo
    rcases hinfo with hinfo | ⟨i, -, rfl⟩
    · rcases hinfo with rfl | rfl | rfl | rfl | rfl | rfl | rfl | rfl | rfl <;> cases hsigner
    · cases hsigner
  parsed := rfl
  list := hkey.symm
  withdraw := rfl
  reserve := rfl
  listed := fun _ hmem => hmem
  nodup := by
    rw [hlist]
    exact List.nodup_singleton _
  keys := by
    rw [hlist, List.flatMap_singleton, Deployment.block, hr]
    simp only [refreshCall, List.map_cons, List.map_map]
    rfl

/-- Two stakes are merged, one of which was sent lamports before. -/
def mergedRun : List Action :=
  [.pay userKey reserveKey 1000000000, addValidator validatorKey,
    delegate [⟨100000000, 0⟩, ⟨100000000, 1⟩, ⟨100000000, 2⟩],
    .pay userKey (stakeAddress validatorKey poolKey 1) 1, mergeStakes 0 1]

theorem refresh_succeeds_iff_mergedRun :
    ∃ c L' L'', execute oneValidator mergedRun = .ok c ∧
      dispatch programs programId .updateListBalance (refreshAccounts 3) c = .ok L' ∧
      dispatch programs programId .updatePoolBalance
        [plain poolKey, plain listKey, plain reserveKey, plain clockId] { c with ledger := L' } =
        .ok L'' := by
  have hrun : (execute oneValidator mergedRun).map refreshView =
      .ok (listKey, [⟨validatorKey, 300000000, 0, 3⟩], true, false) := by
    decide +kernel
  obtain ⟨c, hc, hview⟩ := map_eq_ok.mp hrun
  have hunfilled := unfilled_of_refreshView (congrArg (fun view => view.2.2.2) hview)
  simp only [refreshView, Prod.mk.injEq, decide_eq_true_eq] at hview
  obtain ⟨hkey, hlist, hbounded, -⟩ := hview
  have hpool : deployment.RefreshesPool c (deployment.stateOf c.ledger)
      [plain poolKey, plain listKey, plain reserveKey, plain clockId]
      ⟨plain poolKey, plain listKey, plain reserveKey, plain clockId⟩ :=
    ⟨addressed_spec (by decide), rfl, hkey.symm, rfl⟩
  obtain ⟨hiff, hafter⟩ := refresh_succeeds_iff stakeRules systemRules (separate validatorKey)
    (execute_stakeRuns hc) hbounded (.refl _) (refreshesList_one rfl hkey hlist) hpool
  obtain ⟨L', hfirst⟩ := hiff.mpr hunfilled
  obtain ⟨L'', hsecond⟩ := hafter L' hfirst
  exact ⟨c, L', L'', hc, hfirst, hsecond⟩

/-- One lamport, sent to the second stake account right after it was merged into the first. -/
def refilledRun : List Action :=
  [.pay userKey reserveKey 1000000000, addValidator validatorKey,
    delegate [⟨100000000, 0⟩, ⟨100000000, 1⟩, ⟨100000000, 2⟩], mergeStakes 0 1,
    .pay userKey (stakeAddress validatorKey poolKey 1) 1]

theorem refresh_blocked_by_refill :
    ∃ c, (deployment.stakeRuns False False {validatorKey}).Reachable c ∧
      deployment.RefreshesList c (deployment.stateOf c.ledger)
        (deployment.stateOf c.ledger).list.validators (refreshAccounts 3) (refreshCall 3) ∧
      dispatch programs programId .updateListBalance (refreshAccounts 3) c =
        .error .callFailed := by
  have hrun : (execute oneValidator refilledRun).map (fun c =>
        ((refreshView c).1, (refreshView c).2.1,
          (dispatch programs programId .updateListBalance (refreshAccounts 3) c).map
            (fun _ => ()))) =
      .ok (listKey, [⟨validatorKey, 300000000, 0, 3⟩], .error .callFailed) := by
    decide +kernel
  obtain ⟨c, hc, hview⟩ := map_eq_ok.mp hrun
  simp only [refreshView, Prod.mk.injEq] at hview
  obtain ⟨hkey, hlist, hfails⟩ := hview
  exact ⟨c, execute_stakeRuns hc, refreshesList_one rfl hkey hlist, map_eq_error.mp hfails⟩

end

end Tenderize
