import Tenderize.Model.Activation
import Tenderize.Properties.RefreshTotals

/-!
# Unstaked money

`UpdateListBalance` takes what is free in a stake account, and it reads the delegated stake
as not free, also after the delegation ended.  So a validator whose stake was deactivated gets
its accounts emptied, and can be removed, only if none of them is a stake account anymore.
-/

namespace Tenderize

open Support

variable {D : Deployment} {W : Set Pubkey} {c : Chain} {L' : Ledger} {r : ValidatorStakeInfo}
  {share : Delegation.Share} {history : Option StakeHistory} {fix : Bool}

/-- Nothing of the delegation is effective, activating or deactivating in the epoch. -/
def StakeState.Inactive (share : Delegation.Share) (history : Option StakeHistory) (fix : Bool)
    (epoch : UInt64) : StakeState → Prop
  | .stake _ st =>
      st.delegation.stakeActivatingAndDeactivating share epoch history fix = (0, 0, 0)
  | _ => True

variable (D) in
/-- A listed validator all of whose stakes are deactivated. -/
structure Deployment.Unstaked (share : Delegation.Share) (history : Option StakeHistory)
    (fix : Bool) (c : Chain) (r : ValidatorStakeInfo) : Prop where
  listed : r ∈ (D.stateOf c.ledger).list.validators
  inactive : ∀ i < r.stakeCount, ∀ state,
    (c.ledger (D.stakeKey r.validatorAccount i)).data = .stake state →
    state.Inactive share history fix c.clock.epoch

/-! ## Removing a validator -/

/-- A call of RemoveValidator by the owner, while the pool is up to date. -/
structure Deployment.RemovesValidator (D : Deployment) (c : Chain) (v : Pubkey)
    (accounts : List AccountInfo) (a : ValidatorAccounts) : Prop where
  addressed : D.Addressed accounts
  parsed : ValidatorAccounts.parse c accounts = .ok a
  list : a.validatorStakeList.key = (D.stateOf c.ledger).pool.validatorStakeList
  owner : a.owner.key = (D.stateOf c.ledger).pool.owner
  signed : a.owner.isSigner = true
  current : ¬(D.stateOf c.ledger).pool.lastUpdateEpoch < c.clock.epoch
  validator : a.validator.key = v

/-- Such a call succeeds if the record counts no stake accounts. -/
theorem removeValidator_succeeds_iff {v : Pubkey} {accounts : List AccountInfo}
    {a : ValidatorAccounts} (h : D.Represents c.ledger (D.stateOf c.ledger))
    (hroom : (D.stateOf c.ledger).list.validators.length ≤ maxValidators)
    (hcall : D.RemovesValidator c v accounts a)
    (hr : lookup ValidatorStakeInfo.validatorAccount v (D.stateOf c.ledger).list.validators =
      some r) :
    (∃ L', dispatch D.programs D.programId .removeValidator accounts c = .ok L') ↔
      r.stakeCount = 0 := by
  obtain ⟨rest, haccounts⟩ := ValidatorAccounts.parse_ok hcall.parsed
  have hkey := hcall.addressed.key_eq haccounts
  have hload : loadForOwner D.programs D.programId c a = .ok (D.stateOf c.ledger).list := by
    simp only [loadForOwner, StakePool.checkOwner, bind_eq_ok, require_eq_ok]
    exact ⟨_, h.loadStakePool_ok hkey, (), ⟨(), hcall.owner, hcall.signed⟩, (), hcall.current,
      h.loadValidatorStakeList_ok hcall.list hroom⟩
  change (∃ L', processRemoveValidator D.programs D.programId accounts c = .ok L') ↔ _
  simp only [processRemoveValidator, hcall.parsed, hload, ok_bind, removeRecord,
    hcall.validator, hr]
  constructor
  · rintro ⟨L', hrun⟩
    obtain ⟨validators, hremove, -⟩ := bind_eq_ok.mp hrun
    obtain ⟨_, hcount, -⟩ := bind_eq_ok.mp hremove
    rw [require_eq_ok] at hcount
    exact UInt32.le_zero_iff.mp (UInt32.not_lt.mp hcount)
  · intro hcount
    have hlength : ((D.stateOf c.ledger).list.validators.eraseP
        (fun item => item.validatorAccount = v)).length ≤ maxValidators :=
      le_trans (List.length_eraseP_le) hroom
    obtain ⟨L', hstore⟩ := h.store_list_ok { (D.stateOf c.ledger).list with
      validators := (D.stateOf c.ledger).list.validators.eraseP
        (fun item => item.validatorAccount = v) } hlength
    refine ⟨L', ?_⟩
    rw [← hcall.list] at hstore
    have hrequire : require (¬r.stakeCount > 0) (ProgramError.custom .validatorHasStakes) =
        .ok () := by
      rw [require_eq_ok, hcount]
      decide
    rw [hrequire]
    exact hstore

/-! ## What comes back -/

variable (D) in
/-- The list was refreshed, and perhaps the total taken after it. -/
def Deployment.Afterwards (c : Chain) (L' L'' : Ledger) : Prop :=
  L'' = L' ∨ ∃ accounts, D.Addressed accounts ∧
    dispatch D.programs D.programId .updatePoolBalance accounts { c with ledger := L' } = .ok L''

variable (D) in
/-- The counted stake accounts are empty, and so is the record; the owner can remove the
validator. -/
structure Deployment.Returned (r : ValidatorStakeInfo) (c : Chain) (L' : Ledger) : Prop where
  emptied : ∀ i < r.stakeCount, (L' (D.stakeKey r.validatorAccount i)).lamports = 0
  record : lookup ValidatorStakeInfo.validatorAccount r.validatorAccount
      (D.stateOf L').list.validators =
    some { r with balance := 0, stakeCount := 0, lastUpdateEpoch := c.clock.epoch }
  removable : ∀ L'' accounts a, D.Afterwards c L' L'' →
    D.RemovesValidator { c with ledger := L'' } r.validatorAccount accounts a →
    ∃ L, dispatch D.programs D.programId .removeValidator accounts { c with ledger := L'' } = .ok L

theorem Deployment.Afterwards.list_eq {L'' : Ledger} {s : PoolState} (h : D.Represents L' s)
    (hafter : D.Afterwards c L' L'') :
    D.Represents L'' (D.stateOf L'') ∧ (D.stateOf L'').list = s.list := by
  rcases hafter with rfl | ⟨accounts, ha, hrun⟩
  · rw [← h.eq_stateOf]
    exact ⟨h, rfl⟩
  · have h₁ : D.Represents { c with ledger := L' }.ledger s := h
    obtain ⟨total, -, h'⟩ := processUpdatePoolBalance_ok h₁ ha hrun
    rw [← h'.eq_stateOf]
    exact ⟨h', rfl⟩

/-- Nothing is kept, so nothing is written down. -/
theorem Deployment.refreshed_of_nothing_kept {L : Ledger} {epoch : UInt64}
    (h : ∀ i < r.stakeCount, (L (D.stakeKey r.validatorAccount i)).kept = 0) :
    D.refreshed L epoch r = { r with balance := 0, stakeCount := 0, lastUpdateEpoch := epoch } := by
  have hcount := UInt32.toNat_lt r.stakeCount
  have hzero : ∀ i : UInt32, i.toNat < r.stakeCount.toNat →
      (L (D.stakeKey r.validatorAccount i)).kept = 0 :=
    fun i hi => h i (UInt32.lt_iff_toNat_lt.mpr hi)
  have hlive : D.liveBelow L r.validatorAccount r.stakeCount.toNat = 0 :=
    (Deployment.liveBelow_eq_zero_iff (by omega)).mpr hzero
  have hkept : D.keptIn L r.validatorAccount r.stakeCount.toNat = 0 := by
    unfold Deployment.keptIn Deployment.held
    apply Finset.sum_eq_zero
    intro i hi
    rw [Finset.mem_range] at hi
    have hindex : (UInt32.ofNat i).toNat = i := toNat_ofNat_index (by omega)
    exact congrArg UInt64.toNat (hzero (UInt32.ofNat i) (by omega))
  have hbalance : D.keptBelow L r.validatorAccount r.stakeCount.toNat = 0 := by
    apply UInt64.toNat_inj.mp
    rw [Deployment.keptBelow_toNat (by omega), hkept]
    rfl
  rw [Deployment.refreshed, hlive, hbalance]
  rfl

/-- The money of a validator whose stakes are deactivated comes back exactly if none of the
counted accounts is a stake account that holds lamports. -/
theorem unstaked_returned_iff {accounts : List AccountInfo} (hS : D.programs.StakeRules)
    (hW : D.Separate W) (h : (D.stakeRuns False False W).Reachable c)
    (hr : D.Unstaked share history fix c r) (ha : D.Addressed accounts)
    (hrun : dispatch D.programs D.programId .updateListBalance accounts c = .ok L')
    (hnamed : r.validatorAccount ∈ D.namedBy c accounts) :
    D.Collected W (D.stateOf c.ledger).list.validators c.ledger L' ∧
    (D.Returned r c L' ↔ ∀ i < r.stakeCount,
      ¬((c.ledger (D.stakeKey r.validatorAccount i)).owner = stakeProgramId ∧
        (c.ledger (D.stakeKey r.validatorAccount i)).lamports ≠ 0)) := by
  have hsound := Deployment.stakeRuns_sound hS hW h
  obtain ⟨hrep, hlisted, hunique⟩ := Deployment.stakeRuns_list hW.toNoCollision h
  obtain ⟨V', hafter, hrep'⟩ := processUpdateListBalance_sweeps hrep ha hS hW hsound hlisted
    (RefreshedTo.nothing hsound) hrun
  rw [List.nil_append] at hafter
  have hv := hlisted.names r hr.listed
  have hswept : ∀ i < r.stakeCount, D.stakeKey r.validatorAccount i ∈
      D.keysOf (D.namedBy c accounts) (D.stateOf c.ledger).list.validators := by
    intro i hi
    refine mem_keysOf.mpr ⟨r, hr.listed, hnamed, ?_⟩
    exact (Deployment.mem_keysBelow (UInt32.toNat_lt _).le).mpr
      ⟨i, UInt32.lt_iff_toNat_lt.mp hi, rfl⟩
  have hkept : ∀ i < r.stakeCount, (c.ledger (D.stakeKey r.validatorAccount i)).kept = 0 ↔
      ¬((c.ledger (D.stakeKey r.validatorAccount i)).owner = stakeProgramId ∧
        (c.ledger (D.stakeKey r.validatorAccount i)).lamports ≠ 0) := by
    intro i hi
    rw [← (hafter.ledger.unfilled _ hv i (hswept i hi)).kept_ne_zero_iff, not_not]
  refine ⟨hafter.ledger.collected hsound hlisted Deployment.keysOf_subset_stakeAddresses, ?_⟩
  constructor
  · intro hreturned i hi
    rw [← hkept i hi]
    have hleft := hafter.ledger.lamports _ hv i
    rw [if_pos (hswept i hi), hreturned.emptied i hi] at hleft
    exact hleft.symm
  · intro hnone
    have hzero := fun i hi => (hkept i hi).mpr (hnone i hi)
    have hrecord : lookup ValidatorStakeInfo.validatorAccount r.validatorAccount V' =
        some { r with balance := 0, stakeCount := 0, lastUpdateEpoch := c.clock.epoch } := by
      rw [hafter.records, lookup_refreshedIn, lookup_of_mem hlisted.nodup hr.listed,
        Option.map_some, if_pos hnamed, Deployment.refreshed_of_nothing_kept hzero]
    refine ⟨?_, ?_, ?_⟩
    · intro i hi
      rw [hafter.ledger.lamports _ hv i, if_pos (hswept i hi)]
      exact hzero i hi
    · rw [← hrep'.eq_stateOf]
      exact hrecord
    · intro L'' accounts' a hlater hremoves
      obtain ⟨hrep'', hlist⟩ := hlater.list_eq hrep'
      have hvalidators : (D.stateOf L'').list.validators = V' :=
        congrArg ValidatorStakeList.validators hlist
      refine (removeValidator_succeeds_iff (c := { c with ledger := L'' }) hrep'' ?_ hremoves
        (by rw [hvalidators]; exact hrecord)).mpr rfl
      rw [hvalidators, hafter.records, Deployment.refreshedIn, List.length_map]
      exact hunique.validators_length

/-! ## A deactivated stake -/

theorem Deployment.Tends.clock {quiet : Prop} (clock : Clock) :
    D.Tends quiet c { c with clock } where
  toOutside := clock_outside clock
  stakes _ _ := .spared (.of_eq rfl)

instance (state : StakeState) (epoch : UInt64) :
    Decidable (state.Inactive share history fix epoch) := by
  cases state <;> unfold StakeState.Inactive <;> infer_instance

section

open Reference

/-- One stake is opened, deactivated in the next epoch, and the pool is refreshed in the
epoch after it. -/
def deactivatedChain : Except ProgramError Chain := do
  let c ← execute oneValidator
    [.pay userKey reserveKey 1000000000, addValidator validatorKey, delegate [⟨100000000, 0⟩]]
  let c ← performAll oneValidator [unstake 0] { c with clock := ⟨1⟩ }
  performAll oneValidator [.call .updateListBalance (refreshAccounts 1), updatePool]
    { c with clock := ⟨2⟩ }

theorem deactivatedChain_reachable (h : deactivatedChain = .ok c) :
    (deployment.stakeRuns False False {validatorKey}).Reachable c := by
  have hlater : ∀ {c c' : Chain} {clock : Clock} {actions : List Action},
      (deployment.stakeRuns False False {validatorKey}).Reachable c →
      performAll oneValidator actions { c with clock } = .ok c' →
      (deployment.stakeRuns False False {validatorKey}).Reachable c' := by
    intro c c' clock actions hc hrun
    refine performAll_reachable
      (fun _ _ hok => ⟨of_decide_eq_true hok, False.elim, False.elim⟩) (paysIn_tends actions)
      (.step hc (e := .outside) ⟨.clock clock, trivial, False.elim, False.elim⟩) hrun
  simp only [deactivatedChain, bind_eq_ok] at h
  obtain ⟨c₁, hfirst, c₂, hsecond, hthird⟩ := h
  exact hlater (hlater (execute_stakeRuns hfirst) hsecond) hthird

/-- Nothing was staked with the validator.  Counted accounts do not meet the condition: a merge
moves the lamports of one into another of the same validator, and a refresh that empties one
takes it out of the count. -/
theorem unstaked_returned_unused :
    ∃ c L', execute oneValidator [addValidator validatorKey] = .ok c ∧
      dispatch programs programId .updateListBalance (refreshAccounts 0) c = .ok L' ∧
      deployment.Returned ⟨validatorKey, 0, 0, 0⟩ c L' := by
  have hrun : (do
      let c ← execute oneValidator [addValidator validatorKey]
      let _ ← dispatch programs programId .updateListBalance (refreshAccounts 0) c
      pure ((deployment.stateOf c.ledger).list.validators,
        deployment.namedBy c (refreshAccounts 0))) =
        .ok ([⟨validatorKey, 0, 0, 0⟩], [validatorKey]) := by
    decide +kernel
  simp only [bind_eq_ok, pure_eq_ok, Prod.mk.injEq] at hrun
  obtain ⟨c, hc, L', hrefresh, hlist, hnamed⟩ := hrun
  have hnone : ∀ i : UInt32, ¬i < 0 := fun _ => UInt32.not_lt_zero
  have hunstaked : deployment.Unstaked (fun _ _ _ => 0) none true c ⟨validatorKey, 0, 0, 0⟩ := by
    refine ⟨?_, fun i hi => absurd hi (hnone i)⟩
    rw [hlist]
    exact List.mem_singleton_self _
  refine ⟨c, L', hc, hrefresh, ?_⟩
  refine (unstaked_returned_iff stakeRules (separate validatorKey) (execute_stakeRuns hc)
    hunstaked (addressed_spec (by decide)) hrefresh ?_).2.mpr (fun i hi => absurd hi (hnone i))
  rw [hnamed]
  exact List.mem_singleton_self _

/-- Whether the stake account is delegated and inactive in the epoch, long after its entry in
the stake history is gone. -/
def deactivated (epoch : UInt64) (x : Account) : Bool :=
  match x.data with
  | .stake (.stake m st) =>
      decide ((StakeState.stake m st).Inactive (fun _ _ _ => 0) (some ⟨[]⟩) true epoch)
  | _ => false

theorem deactivated_spec {epoch : UInt64} {x : Account} (h : deactivated epoch x = true) :
    (∃ m st, x.data = .stake (.stake m st)) ∧ ∀ state, x.data = .stake state →
      state.Inactive (fun _ _ _ => 0) (some ⟨[]⟩) true epoch := by
  unfold deactivated at h
  split at h
  case h_1 m st hdata =>
    refine ⟨⟨m, st, hdata⟩, fun state hstate => ?_⟩
    rw [hdata] at hstate
    rw [← AccountData.stake.inj hstate]
    exact of_decide_eq_true h
  case h_2 => cases h

/-- The first stake account, the records and what `RemoveValidator` checks. -/
structure RemovalView where
  deactivated : Bool
  lamports : UInt64
  validators : List ValidatorStakeInfo
  list : Pubkey
  owner : Pubkey
  lastUpdateEpoch : UInt64
deriving DecidableEq

def removalView (L : Ledger) : RemovalView :=
  let x := L (deployment.stakeKey validatorKey 0)
  let s := deployment.stateOf L
  ⟨deactivated 2 x, x.lamports, s.list.validators, s.pool.validatorStakeList, s.pool.owner,
    s.pool.lastUpdateEpoch⟩

theorem deactivated_stake_stays :
    ∃ c L' a, (deployment.stakeRuns False False {validatorKey}).Reachable c ∧
      deployment.Unstaked (fun _ _ _ => 0) (some ⟨[]⟩) true c ⟨validatorKey, 100000000, 2, 1⟩ ∧
      (∃ m st, (c.ledger (deployment.stakeKey validatorKey 0)).data = .stake (.stake m st)) ∧
      validatorKey ∈ deployment.namedBy c (refreshAccounts 1) ∧
      dispatch programs programId .updateListBalance (refreshAccounts 1) c = .ok L' ∧
      (L' (deployment.stakeKey validatorKey 0)).lamports = 100000000 ∧
      (deployment.stateOf L').list.validators = [⟨validatorKey, 100000000, 2, 1⟩] ∧
      deployment.RemovesValidator { c with ledger := L' } validatorKey
        (validatorAccounts validatorKey) a ∧
      dispatch programs programId .removeValidator (validatorAccounts validatorKey)
        { c with ledger := L' } = .error (.custom .validatorHasStakes) := by
  have hrun : (do
      let c ← deactivatedChain
      let L' ← dispatch programs programId .updateListBalance (refreshAccounts 1) c
      pure (c.clock.epoch, deployment.namedBy c (refreshAccounts 1), removalView c.ledger,
        removalView L',
        (dispatch programs programId .removeValidator (validatorAccounts validatorKey)
          { c with ledger := L' }).map (fun _ => ()))) =
        .ok (2, [validatorKey],
          ⟨true, 100000000, [⟨validatorKey, 100000000, 2, 1⟩], listKey, ownerKey, 2⟩,
          ⟨true, 100000000, [⟨validatorKey, 100000000, 2, 1⟩], listKey, ownerKey, 2⟩,
          .error (.custom .validatorHasStakes)) := by
    decide +kernel
  simp only [removalView, bind_eq_ok, pure_eq_ok, Prod.mk.injEq, RemovalView.mk.injEq] at hrun
  obtain ⟨c, hc, L', hrefresh, hepoch, hnamed, ⟨hinactive, -, hlist, -⟩,
    ⟨-, hlamports, hlist', hkey, howner, hcurrent⟩, hfails⟩ := hrun
  obtain ⟨hdelegated, hstate⟩ := deactivated_spec hinactive
  refine ⟨c, L', ⟨plain poolKey, signer ownerKey, plain listKey, plain validatorKey,
    plain clockId⟩, deactivatedChain_reachable hc, ⟨?_, ?_⟩, hdelegated, ?_, hrefresh, hlamports,
    hlist', ?_, map_eq_error.mp hfails⟩
  · rw [hlist]
    exact List.mem_singleton_self _
  · intro i hi
    obtain rfl : i = 0 := by
      have hlt := UInt32.lt_iff_toNat_lt.mp hi
      change i.toNat < 1 at hlt
      exact UInt32.toNat_inj.mp (Nat.lt_one_iff.mp hlt)
    rw [hepoch]
    exact hstate
  · rw [hnamed]
    exact List.mem_singleton_self _
  · refine ⟨addressed_spec (by decide), rfl, hkey.symm, howner.symm, rfl, ?_, rfl⟩
    change ¬(deployment.stateOf L').pool.lastUpdateEpoch < c.clock.epoch
    rw [hcurrent, hepoch]
    decide

end

end Tenderize
