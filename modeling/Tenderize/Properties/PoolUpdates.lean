import Tenderize.Properties.Sessions
import Tenderize.Properties.RefreshTotals
import Tenderize.Properties.Refreshable

/-!
# Refreshing the pool from the client

`updatePool` of the client reads the list once and refreshes one validator after the other,
with the stake accounts that the list counted, and then takes the total.  It is a full refresh,
and it gets through unless a counted account was filled again after it was merged away or a
validator has too many accounts for a transaction.
-/

namespace Tenderize

open Support

variable {D : Deployment} {W : Set Pubkey} {network : Network} {payer : Pubkey}
  {this : TenderizeProgram} {c x x' : Chain} {s : PoolState} {r : ValidatorStakeInfo}

/-! ## The instructions -/

/-- The stake account that the client derives is the one of the program. -/
theorem TenderizeProgram.getStakeForValidator_eq {pool : StakePool} (hthis : this.Serves D pool)
    (v : Pubkey) {i : Nat} (hi : i < 2 ^ 32) :
    this.getStakeForValidator D.programs v i = .ok (D.stakeKey v (UInt32.ofNat i)) := by
  rw [getStakeForValidator_ok this v (Int.natCast_nonneg i) (by omega), hthis.stakePool,
    hthis.programId]
  rfl

/-- The accounts of a refresh of one validator. -/
def Deployment.refreshKeys (D : Deployment) (pool : StakePool) (r : ValidatorStakeInfo) :
    List AccountInfo :=
  [plainKey D.poolKey, plainKey pool.validatorStakeList, plainKey D.withdrawKey,
    plainKey D.reserveKey, plainKey systemProgramId, plainKey stakeProgramId, plainKey clockId,
    plainKey stakeHistoryId] ++ (D.block r).map plainKey

theorem signers_refreshKeys (pool : StakePool) : signers (D.refreshKeys pool r) = [] :=
  signers_plainKey ([D.poolKey, pool.validatorStakeList, D.withdrawKey, D.reserveKey,
    systemProgramId, stakeProgramId, clockId, stakeHistoryId] ++ D.block r)

theorem TenderizeProgram.updateListBalanceInstruction_eq {pool : StakePool}
    (hthis : this.Serves D pool) :
    this.updateListBalanceInstruction D.programs [.ofStored r] =
      .ok ⟨D.refreshKeys pool r, D.programId, [4]⟩ := by
  have hstakes : (List.range r.stakeCount.toNat).mapM (fun (i : Nat) =>
      this.getStakeForValidator D.programs r.validatorAccount i) =
      .ok ((List.range r.stakeCount.toNat).map
        fun i => D.stakeKey r.validatorAccount (UInt32.ofNat i)) := by
    refine mapM_ok fun i hi => ?_
    have hlt := r.stakeCount.toNat_lt
    have hi' := List.mem_range.mp hi
    exact getStakeForValidator_eq hthis _ (by omega)
  have hblock : this.validatorBlock D.programs (.ofStored r) =
      .ok ((D.block r).map plainKey) := by
    simp only [validatorBlock, bind_eq_ok]
    exact ⟨_, hstakes, rfl⟩
  have hblocks : [ValidatorInfo.ofStored r].mapM (this.validatorBlock D.programs) =
      .ok [(D.block r).map plainKey] :=
    mapM_ok (g := fun _ => (D.block r).map plainKey) fun info hinfo => by
      rw [List.mem_singleton.mp hinfo, hblock]
  simp only [updateListBalanceInstruction, bind_eq_ok, pure_eq_ok]
  refine ⟨[4], rfl, _, hblocks, ?_⟩
  rw [List.flatten_singleton, updateListBalanceKeys, getWithdrawAuthority, getReserveAddress,
    hthis.stakePool, hthis.list, hthis.programId]
  rfl

theorem TenderizeProgram.updatePoolBalanceInstruction_eq {pool : StakePool}
    (hthis : this.Serves D pool) :
    this.updatePoolBalanceInstruction D.programs =
      .ok ⟨[D.poolKey, pool.validatorStakeList, D.reserveKey, clockId].map plainKey,
        D.programId, [5]⟩ := by
  simp only [updatePoolBalanceInstruction, bind_eq_ok, pure_eq_ok]
  refine ⟨[5], rfl, ?_⟩
  rw [getReserveAddress, hthis.stakePool, hthis.list, hthis.programId]
  rfl

/-! ## The calls -/

theorem updateLists_append {accounts : List AccountInfo} {L : Ledger}
    (hcall : dispatch D.programs D.programId .updateListBalance accounts x = .ok L) :
    ∀ {calls : List (List AccountInfo)} {c : Chain} {names : List Pubkey},
      D.updateLists calls c = .ok (names, x) →
      D.updateLists (calls ++ [accounts]) c =
        .ok (names ++ D.namedBy x accounts, { x with ledger := L }) := by
  intro calls
  induction calls with
  | nil =>
      intro c names hrun
      obtain ⟨rfl, rfl⟩ := Prod.mk.inj (Except.ok.inj hrun)
      simp only [List.nil_append, Deployment.updateLists, bind_eq_ok, pure_eq_ok]
      exact ⟨L, hcall, _, rfl, by simp⟩
  | cons call calls ih =>
      intro c names hrun
      simp only [Deployment.updateLists, bind_eq_ok, pure_eq_ok, Prod.exists, Prod.mk.injEq] at hrun
      obtain ⟨L₁, hfirst, names', x₁, hrest, rfl, rfl⟩ := hrun
      simp only [List.cons_append, Deployment.updateLists, bind_eq_ok, pure_eq_ok]
      exact ⟨L₁, hfirst, _, ih hrest, by simp⟩

/-- The accounts that the client passes for one validator. -/
theorem refreshesList_sent (hr : r ∈ s.list.validators)
    (hpayer : ¬D.programs.IsProgramAddress D.programId payer) :
    ∃ a, D.RefreshesList x s [r]
      (TransactionItem.accounts [payer] (D.refreshKeys s.pool r)) a := by
  refine ⟨_,
    { addressed := TransactionItem.accounts_paid hpayer ([s.pool.validatorStakeList, D.withdrawKey,
        D.reserveKey, systemProgramId, stakeProgramId, clockId, stakeHistoryId] ++ D.block r)
      parsed := rfl
      list := rfl
      withdraw := rfl
      reserve := rfl
      listed := fun _ hmem => List.mem_singleton.mp hmem ▸ hr
      nodup := List.nodup_singleton _
      keys := ?_ }⟩
  simp [Function.comp_def, plainKey]

/-! ## The loop -/

variable (D W c) in
/-- The client has refreshed the validators in `done`. -/
structure RefreshProgress (done : List ValidatorStakeInfo) (x : Chain) : Prop where
  clock : x.clock = c.clock
  reachable : (D.stakeRuns False False W).Reachable x
  pool : (D.stateOf x.ledger).pool = (D.stateOf c.ledger).pool
  calls : ∃ calls, (∀ call ∈ calls, D.Addressed call) ∧
    D.updateLists calls c = .ok (done.map ValidatorStakeInfo.validatorAccount, x)

section Loop

variable {done todo : List ValidatorStakeInfo} (hS : D.programs.StakeRules)
  (hT : D.programs.SystemRules) (hW : D.Separate W) (h : (D.stakeRuns False False W).Reachable c)

include hS hW h

theorem RefreshProgress.refreshed (hx : RefreshProgress D W c done x) :
    RefreshedTo D W False x.clock.epoch (done.map ValidatorStakeInfo.validatorAccount)
      (D.stateOf c.ledger).list.validators c.ledger (D.stateOf x.ledger).list.validators
      x.ledger := by
  obtain ⟨hrep, hlisted, -⟩ := Deployment.stakeRuns_list hW.toNoCollision h
  have hsound := Deployment.stakeRuns_sound hS hW h
  obtain ⟨calls, hcalls, hrun⟩ := hx.calls
  obtain ⟨s', hs', -, hafter⟩ := updateLists_refreshes hS hW hsound hlisted calls hrep
    (RefreshedTo.nothing hsound) hcalls hrun
  rw [← hs'.eq_stateOf, hx.clock]
  exact hafter

omit h in
theorem RefreshProgress.next {accounts : List AccountInfo} {L : Ledger}
    (hx : RefreshProgress D W c done x) (ha : D.Addressed accounts)
    (hnamed : D.namedBy x accounts = [r.validatorAccount])
    (hcall : dispatch D.programs D.programId .updateListBalance accounts x = .ok L) :
    RefreshProgress D W c (done ++ [r]) { x with ledger := L } where
  clock := hx.clock
  reachable := by
    refine .step (e := .instruction .updateListBalance accounts) hx.reachable
      ⟨⟨ha, L, hcall, rfl⟩, ?_, False.elim, False.elim⟩
    intro v hadd
    cases hadd
  pool := by
    obtain ⟨hrep, hlisted, -⟩ := Deployment.stakeRuns_list hW.toNoCollision hx.reachable
    have hsound := Deployment.stakeRuns_sound hS hW hx.reachable
    obtain ⟨V', -, hrep'⟩ := processUpdateListBalance_sweeps hrep ha hS hW hsound hlisted
      (RefreshedTo.nothing hsound) hcall
    rw [← hrep'.eq_stateOf]
    exact hx.pool
  calls := by
    obtain ⟨calls, hcalls, hrun⟩ := hx.calls
    refine ⟨calls ++ [accounts], ?_, ?_⟩
    · intro call hmem
      rcases List.mem_append.mp hmem with hmem | hmem
      · exact hcalls call hmem
      · rw [List.mem_singleton.mp hmem]
        exact ha
    · rw [updateLists_append hcall hrun, hnamed, List.map_append, List.map_singleton]

include hT in
/-- One turn of the loop. -/
theorem updateListBalance_turn
    (hbounded : D.Bounded (D.countedKeys (D.stateOf c.ledger).list.validators) c.ledger)
    (hpayer : ¬D.programs.IsProgramAddress D.programId payer)
    (hthis : this.Serves D (D.stateOf c.ledger).pool)
    (hsplit : (D.stateOf c.ledger).list.validators = done ++ r :: todo)
    (hx : RefreshProgress D W c done x) :
    ((∃ x', this.updateListBalance D.programs network payer [.ofStored r] x = .ok () x') ↔
      (∀ i < r.stakeCount, ¬(c.ledger (D.stakeKey r.validatorAccount i)).Refilled) ∧
        network.Fits (this.updateListBalanceInstruction D.programs [.ofStored r])) ∧
    ∀ x', this.updateListBalance D.programs network payer [.ofStored r] x = .ok () x' →
      RefreshProgress D W c (done ++ [r]) x' := by
  obtain ⟨-, hlisted, -⟩ := Deployment.stakeRuns_list hW.toNoCollision h
  have hsound := Deployment.stakeRuns_sound hS hW h
  obtain ⟨hrep, hlistedx, huniquex⟩ := Deployment.stakeRuns_list hW.toNoCollision hx.reachable
  have hsoundx := Deployment.stakeRuns_sound hS hW hx.reachable
  have hroom := huniquex.validators_length
  have hr : r ∈ (D.stateOf c.ledger).list.validators := by simp [hsplit]
  -- the record of a validator that was not refreshed yet is the one that the client read
  have hunnamed : r.validatorAccount ∉ done.map ValidatorStakeInfo.validatorAccount := by
    have hnodup := hlisted.nodup
    rw [hsplit, List.map_append, List.map_cons, List.nodup_append] at hnodup
    intro hmem
    exact hnodup.2.2 _ hmem _ List.mem_cons_self rfl
  have hrefreshed := hx.refreshed hS hW h
  have hrx : r ∈ (D.stateOf x.ledger).list.validators := by
    rw [hrefreshed.records]
    refine List.mem_map.mpr ⟨r, hr, ?_⟩
    rw [if_neg hunnamed]
  obtain ⟨a, hcall⟩ := refreshesList_sent (x := x) hrx hpayer
  rw [hx.pool] at hcall
  have hqueue : RefreshQueue D W False x.clock.epoch (D.stateOf c.ledger).list.validators c.ledger
      [r] a.rest.length a.rest (done.map ValidatorStakeInfo.validatorAccount)
      (D.stateOf x.ledger).list.validators x.ledger :=
    { refreshed := hrefreshed
      listed := fun _ hmem => List.mem_singleton.mp hmem ▸ hr
      nodup := List.nodup_singleton _
      unnamed := fun _ hmem => List.mem_singleton.mp hmem ▸ hunnamed
      unsigned := (RefreshCall.of_checked hrep hcall.addressed hcall.parsed hcall.withdraw
        hcall.reserve).2
      keys := hcall.keys
      length := le_rfl }
  have hdispatch : (∃ L, dispatch D.programs D.programId .updateListBalance
      (TransactionItem.accounts [payer] (D.refreshKeys (D.stateOf c.ledger).pool r)) x = .ok L) ↔
      ∀ i < r.stakeCount, ¬(c.ledger (D.stakeKey r.validatorAccount i)).Refilled := by
    change (∃ L, processUpdateListBalance D.programs D.programId _ x = .ok L) ↔ _
    rw [processUpdateListBalance_ok_iff hrep hcall hS hW hsoundx hlistedx hroom,
      updateValidators_succeeds_iff hS hT hW hsound (RefreshCall.of_checked hrep hcall.addressed
        hcall.parsed hcall.withdraw hcall.reserve).1 hlisted hbounded [r] hqueue,
      List.forall_mem_singleton]
    exact forall₂_congr fun i _ => (hsound _ (hlisted.names r hr) i).unfilled_iff
  have hbuild := TenderizeProgram.updateListBalanceInstruction_eq (r := r) hthis
  have hsend : ∀ x', this.updateListBalance D.programs network payer [.ofStored r] x = .ok () x' ↔
      network.Fits (this.updateListBalanceInstruction D.programs [.ofStored r]) ∧
        ∃ L, dispatch D.programs D.programId .updateListBalance
          (TransactionItem.accounts [payer] (D.refreshKeys (D.stateOf c.ledger).pool r)) x = .ok L ∧
          x' = { x with ledger := L } := by
    intro x'
    rw [hbuild]
    exact TenderizeProgram.send_built hbuild (by rw [signers_refreshKeys]; simp)
  constructor
  · rw [← hdispatch]
    exact exists_sent_iff hsend
  · intro x' hrun
    obtain ⟨-, L, hL, rfl⟩ := (hsend x').mp hrun
    refine hx.next hS hW hcall.addressed ?_ hL
    exact hcall.namedBy_eq hrep hS hW hsoundx hlistedx hroom ⟨L, hL⟩

/-- After the loop the total can be taken. -/
theorem updatePoolBalance_after (hpayer : ¬D.programs.IsProgramAddress D.programId payer)
    (hthis : this.Serves D (D.stateOf c.ledger).pool)
    (hx : RefreshProgress D W c (D.stateOf c.ledger).list.validators x) :
    ((∃ x', this.updatePoolBalance D.programs network payer x = .ok () x') ↔
      network.Fits (this.updatePoolBalanceInstruction D.programs)) ∧
    ∀ x', this.updatePoolBalance D.programs network payer x = .ok () x' →
      D.FullRefresh c x'.ledger ∧
        (D.stateOf x'.ledger).pool.lastUpdateEpoch = c.clock.epoch := by
  obtain ⟨hrep, -, hunique⟩ := Deployment.stakeRuns_list hW.toNoCollision hx.reachable
  have hbuild := TenderizeProgram.updatePoolBalanceInstruction_eq hthis
  have hnone := signers_plainKey
    [D.poolKey, (D.stateOf c.ledger).pool.validatorStakeList, D.reserveKey, clockId]
  have haddressed := TransactionItem.accounts_paid hpayer
    [(D.stateOf c.ledger).pool.validatorStakeList, D.reserveKey, clockId]
  have hsend : ∀ x', this.updatePoolBalance D.programs network payer x = .ok () x' ↔
      network.Fits (this.updatePoolBalanceInstruction D.programs) ∧
        ∃ L, dispatch D.programs D.programId .updatePoolBalance (TransactionItem.accounts [payer]
          ([D.poolKey, (D.stateOf c.ledger).pool.validatorStakeList, D.reserveKey, clockId].map
            plainKey)) x = .ok L ∧ x' = { x with ledger := L } := by
    intro x'
    rw [hbuild]
    exact TenderizeProgram.send_built hbuild (by rw [hnone]; simp)
  constructor
  · constructor
    · rintro ⟨x', hrun⟩
      exact ((hsend x').mp hrun).1
    · intro hfits
      have hcall : D.RefreshesPool x (D.stateOf x.ledger) _ _ :=
        ⟨haddressed, rfl, by rw [hx.pool]; rfl, rfl⟩
      have hfresh : ∀ r ∈ (D.stateOf x.ledger).list.validators,
          ¬r.lastUpdateEpoch < x.clock.epoch := by
        intro r hr
        rw [(hx.refreshed hS hW h).records] at hr
        obtain ⟨r₀, hr₀, rfl⟩ := List.mem_map.mp hr
        rw [if_pos (List.mem_map_of_mem hr₀)]
        exact UInt64.lt_irrefl _
      obtain ⟨L, hL⟩ :=
        processUpdatePoolBalance_succeeds hrep hcall hunique.validators_length hfresh
      exact ⟨_, (hsend _).mpr ⟨hfits, L, hL, rfl⟩⟩
  · intro x' hrun
    obtain ⟨-, L, hL, rfl⟩ := (hsend x').mp hrun
    obtain ⟨calls, hcalls, hlists⟩ := hx.calls
    refine ⟨⟨calls, _, x, _, hcalls, haddressed, hlists,
      fun r hr => List.mem_map_of_mem hr, hL⟩, ?_⟩
    obtain ⟨total, -, hrep'⟩ := processUpdatePoolBalance_ok hrep haddressed hL
    rw [← hrep'.eq_stateOf]
    exact congrArg Clock.epoch hx.clock

end Loop

/-- The client refreshes the whole pool, and its totals are exact if the accounts that are not
counted hold nothing. -/
theorem updatePool_refreshes (hS : D.programs.StakeRules) (hT : D.programs.SystemRules)
    (hW : D.Separate W) (h : (D.stakeRuns False False W).Reachable c)
    (hbounded : D.Bounded (D.countedKeys (D.stateOf c.ledger).list.validators) c.ledger)
    (hshows : network.Shows) (hpayer : ¬D.programs.IsProgramAddress D.programId payer)
    (hthis : this.Serves D (D.stateOf c.ledger).pool) :
    ((∃ c', this.updatePool D.programs network payer c = .ok () c') ↔
      (∀ r ∈ (D.stateOf c.ledger).list.validators,
        (∀ i < r.stakeCount, ¬(c.ledger (D.stakeKey r.validatorAccount i)).Refilled) ∧
          network.Fits (this.updateListBalanceInstruction D.programs [.ofStored r])) ∧
      network.Fits (this.updatePoolBalanceInstruction D.programs)) ∧
    ∀ c', this.updatePool D.programs network payer c = .ok () c' →
      D.FullRefresh c c'.ledger ∧
      (D.stateOf c'.ledger).pool.lastUpdateEpoch = c.clock.epoch ∧
      ((D.stateOf c'.ledger).Exact D ↔ (D.stateOf c.ledger).AllCounted D) := by
  have hkeeps := Deployment.stakeRuns_list hW.toNoCollision h
  obtain ⟨hrep, hlisted, hunique⟩ := hkeeps
  have hsound := Deployment.stakeRuns_sound hS hW h
  have hread : this.readValidators (network.connection c).reader =
      .ok ((D.stateOf c.ledger).list.validators.map ValidatorInfo.ofStored) :=
    TenderizeProgram.readValidators_represented hrep (hshows c) hunique.validators_length
      hthis.list
  have hsession : ∀ c', this.updatePool D.programs network payer c = .ok () c' ↔
      ∃ x, forM (D.stateOf c.ledger).list.validators (fun r =>
          this.updateListBalance D.programs network payer [.ofStored r]) c = .ok () x ∧
        this.updatePoolBalance D.programs network payer x = .ok () c' := by
    intro c'
    unfold TenderizeProgram.updatePool
    rw [run_bind_of_ok (Network.ask_eq_ok.mpr ⟨hread, rfl⟩), List.forM_map, run_bind_eq_ok]
    constructor
    · rintro ⟨⟨⟩, x, hx, hpool⟩
      exact ⟨x, hx, hpool⟩
    · rintro ⟨x, hx, hpool⟩
      exact ⟨(), x, hx, hpool⟩
  obtain ⟨hloop, hdone⟩ := forM_ok_iff (l := (D.stateOf c.ledger).list.validators)
    (f := fun r => this.updateListBalance D.programs network payer [.ofStored r])
    (I := RefreshProgress D W c) (s := c)
    (p := fun r => (∀ i < r.stakeCount, ¬(c.ledger (D.stakeKey r.validatorAccount i)).Refilled) ∧
      network.Fits (this.updateListBalanceInstruction D.programs [.ofStored r]))
    ⟨rfl, h, rfl, [], fun _ hmem => absurd hmem List.not_mem_nil, rfl⟩
    (fun done r todo x hsplit hx =>
      updateListBalance_turn hS hT hW h hbounded hpayer hthis hsplit hx)
  constructor
  · rw [← hloop]
    constructor
    · rintro ⟨c', hrun⟩
      obtain ⟨x, hx, hpool⟩ := (hsession c').mp hrun
      exact ⟨⟨x, hx⟩,
        (updatePoolBalance_after hS hW h hpayer hthis (hdone x hx)).1.mp ⟨c', hpool⟩⟩
    · rintro ⟨⟨x, hx⟩, hfits⟩
      obtain ⟨c', hpool⟩ :=
        (updatePoolBalance_after hS hW h hpayer hthis (hdone x hx)).1.mpr hfits
      exact ⟨c', (hsession c').mpr ⟨x, hx, hpool⟩⟩
  · intro c' hrun
    obtain ⟨x, hx, hpool⟩ := (hsession c').mp hrun
    obtain ⟨hfull, hepoch⟩ :=
      (updatePoolBalance_after hS hW h hpayer hthis (hdone x hx)).2 c' hpool
    refine ⟨hfull, hepoch, ?_⟩
    exact (hfull.refreshed hS hW ⟨hrep, hlisted, hunique⟩ hsound).exact_iff hW.toNoCollision
      hlisted hsound hbounded

section

open Reference

theorem updatePool_refreshes_mergedRun :
    ∃ c c', execute oneValidator mergedRun = .ok c ∧
      ownerClient.updatePool programs node userKey c = .ok () c' ∧
      deployment.FullRefresh c c'.ledger := by
  have hrun : (execute oneValidator mergedRun).map (fun c =>
      (clientKeys (deployment.stateOf c.ledger).pool, refreshView c)) =
      .ok ([ownerKey, listKey, creditListKey, mintKey],
        listKey, [⟨validatorKey, 300000000, 0, 3⟩], true, false) := by
    decide +kernel
  obtain ⟨c, hc, hview⟩ := map_eq_ok.mp hrun
  obtain ⟨hkeys, hview⟩ := Prod.mk.inj hview
  have hunfilled := unfilled_of_refreshView (congrArg (fun view => view.2.2.2) hview)
  simp only [refreshView, Prod.mk.injEq, decide_eq_true_eq] at hview
  obtain ⟨-, -, hbounded, -⟩ := hview
  have hpayer : ¬deployment.programs.IsProgramAddress deployment.programId userKey :=
    not_isProgramAddress (by decide)
  obtain ⟨hiff, hafter⟩ := updatePool_refreshes stakeRules systemRules (separate validatorKey)
    (execute_stakeRuns hc) hbounded node_shows hpayer (ownerClient_serves hkeys)
  obtain ⟨c', hsession⟩ := hiff.mpr
    ⟨fun r hr => ⟨hunfilled r hr, node_fits _⟩, node_fits _⟩
  exact ⟨c, c', hc, hsession, (hafter c' hsession).1⟩

end

end Tenderize
