import Tenderize.Refinement.Writes
import Tenderize.Properties.Records

/-!
# What only the owner of the pool can do

The owner is checked by five instructions.  So whatever others do, the owner and the fee
account stay, validators are neither listed nor unlisted, and no stake account is opened.  The
rest of what `Initialize` settles nobody can change, not even the owner.
-/

namespace Tenderize

open Support

variable {D : Deployment} {c c' : Chain} {s s' : PoolState} {op : PoolOp} {k : Pubkey}
  {accounts : List AccountInfo} {L L' : Ledger}

/-! ## Steps of the pool -/

/-- The instruction changes the validators or the owner. -/
def PoolOp.Governs : PoolOp → Prop
  | .addValidator _ => True
  | .removeValidator _ => True
  | .setOwner => True
  | _ => False

/-- The pool has the settings of another one.  Its totals, the epoch of its last update, its
owner and the owner's account for fees may be different. -/
def StakePool.SameSettings (pool pool' : StakePool) : Prop :=
  pool' =
    { pool with
      owner := pool'.owner
      ownerFeeAccount := pool'.ownerFeeAccount
      stakeTotal := pool'.stakeTotal
      poolTotal := pool'.poolTotal
      lastUpdateEpoch := pool'.lastUpdateEpoch }

theorem StakePool.SameSettings.trans {pool pool' pool'' : StakePool}
    (h : pool.SameSettings pool') (h' : pool'.SameSettings pool'') :
    pool.SameSettings pool'' := by
  unfold StakePool.SameSettings at h h' ⊢
  rw [h] at h'
  exact h'

theorem PoolStep.sameSettings (h : PoolStep D s op s') : s.pool.SameSettings s'.pool := by
  cases h with
  | delegateReserve instructions b hrun =>
      unfold PoolState.commit
      split <;> rfl
  | mergeStakes instructions b hrun =>
      unfold PoolState.commit
      split <;> rfl
  | unstake instructions b hrun =>
      unfold PoolState.commit
      split <;> rfl
  | _ => rfl

/-- Who owns the pool, where fees go, and the listed validators. -/
def PoolState.government (s : PoolState) : Pubkey × Pubkey × List Pubkey :=
  (s.pool.owner, s.pool.ownerFeeAccount,
    s.list.validators.map ValidatorStakeInfo.validatorAccount)

theorem PoolStep.names_eq (h : PoolStep D s op s') (hop : ¬op.Governs) :
    s'.list.validators.map ValidatorStakeInfo.validatorAccount =
      s.list.validators.map ValidatorStakeInfo.validatorAccount := by
  by_cases hstamps : op.Restamps
  · cases h with
    | updateList epoch names b hrun =>
        exact hrun.unchanged
          (fun b : Books => b.validators.map ValidatorStakeInfo.validatorAccount)
          fun _ _ _ hstep => hstep.names_eq
    | addValidator => exact absurd trivial hop
    | removeValidator => exact absurd trivial hop
    | _ => exact absurd hstamps id
  · have hnames := congrArg (List.map Prod.fst) (h.stamps_eq hstamps)
    simpa only [List.map_map, Function.comp_def, ValidatorStakeInfo.stamp] using hnames

theorem PoolStep.government_eq (h : PoolStep D s op s') (hop : ¬op.Governs) :
    s'.government = s.government := by
  have howner : s'.pool.owner = s.pool.owner ∧
      s'.pool.ownerFeeAccount = s.pool.ownerFeeAccount := by
    cases h with
    | setOwner => exact absurd trivial hop
    | delegateReserve instructions b hrun =>
        unfold PoolState.commit
        split <;> exact ⟨rfl, rfl⟩
    | mergeStakes instructions b hrun =>
        unfold PoolState.commit
        split <;> exact ⟨rfl, rfl⟩
    | unstake instructions b hrun =>
        unfold PoolState.commit
        split <;> exact ⟨rfl, rfl⟩
    | _ => exact ⟨rfl, rfl⟩
  unfold PoolState.government
  rw [howner.1, howner.2, h.names_eq hop]

/-! ## Signatures -/

theorem Matches.owner_signs {quiet : Prop} {instruction : StakePoolInstruction}
    (hmatch : Matches quiet c (.instruction instruction accounts) s op) (hop : op.Governs)
    (h : D.Represents c.ledger s) (ha : D.Addressed accounts)
    (hrun : dispatch D.programs D.programId instruction accounts c = .ok L') :
    s.pool.owner ∈ signers accounts := by
  cases hmatch with
  | addValidator _ =>
      simp only [dispatch, processAddValidator, loadForOwner, bind_eq_ok] at hrun
      obtain ⟨a, hparse, _, ⟨pool, hload, _, howner, -⟩, -⟩ := hrun
      obtain ⟨rest, haccounts⟩ := ValidatorAccounts.parse_ok hparse
      obtain rfl := h.load_pool (ha.key_eq haccounts) hload
      exact StakePool.checkOwner_signs (by simp [haccounts]) howner
  | removeValidator _ =>
      simp only [dispatch, processRemoveValidator, loadForOwner, bind_eq_ok] at hrun
      obtain ⟨a, hparse, _, ⟨pool, hload, _, howner, -⟩, -⟩ := hrun
      obtain ⟨rest, haccounts⟩ := ValidatorAccounts.parse_ok hparse
      obtain rfl := h.load_pool (ha.key_eq haccounts) hload
      exact StakePool.checkOwner_signs (by simp [haccounts]) howner
  | setOwner =>
      simp only [dispatch, processSetOwner, bind_eq_ok] at hrun
      obtain ⟨a, hparse, pool, hload, _, howner, -⟩ := hrun
      obtain ⟨rest, haccounts⟩ := SetOwnerAccounts.parse_ok hparse
      obtain rfl := h.load_pool (ha.key_eq haccounts) hload
      exact StakePool.checkOwner_signs (by simp [haccounts]) howner
  | _ => exact absurd hop id

/-- A stake account is made only by opening it. -/
theorem Deployment.Write.unstaked {opens : Prop} {pays : Set Pubkey}
    (h : D.Write accounts opens pays L L')
    (hopens : ¬opens) (hk : (L k).owner ≠ stakeProgramId) : (L' k).owner ≠ stakeProgramId := by
  have hsame : SameOwners ∅ L L' → (L' k).owner ≠ stakeProgramId := by
    intro howners
    rwa [howners k (Set.notMem_empty k)]
  cases h with
  | store => rwa [L.setData_owner]
  | transfer _ _ _ hcall => exact hsame (D.lawful.transfer_owners hcall)
  | @createAccount _ target _ _ _ _ _ _ _ _ _ hstake _ hcall =>
      obtain ⟨-, -, -, -, -, -, rfl⟩ := D.lawful.createAccount_ok hcall
      by_cases hne : k = target
      · rw [hne, Ledger.assign_same]
        exact fun heq => hopens (hstake heq)
      · rw [Ledger.assign_of_ne _ _ _ hne, L.moveLamports_owner]
        exact hk
  | initializeAccount _ _ hcall => exact hsame (D.lawful.initializeAccount_owners hcall)
  | closeAccount _ _ _ hcall => exact hsame (D.lawful.closeAccount_owners hcall)
  | burn _ _ _ hcall => exact hsame (D.lawful.burn_owners hcall)
  | mintTo _ _ hcall => exact hsame (D.lawful.mintTo_owners hcall)
  | tokenTransfer _ _ _ hcall => exact hsame (D.lawful.tokenTransfer_owners hcall)
  | stakeInitialize _ hcall => exact hsame (D.lawful.stakeInitialize_owners hcall)
  | delegateStake _ hcall => exact hsame (D.lawful.delegateStake_owners hcall)
  | deactivateStake _ hcall => exact hsame (D.lawful.deactivateStake_owners hcall)
  | splitOnly _ _ hcall => exact hsame (D.lawful.splitOnly_owners hcall)
  | merge _ _ hcall => exact hsame (D.lawful.merge_owners hcall)
  | stakeWithdraw _ _ hcall => exact hsame (D.lawful.stakeWithdraw_owners hcall)

/-! ## Runs -/

theorem reachable_government {e : Event} (h : (D.system D.Outside).Reachable c)
    (hstep : (D.system D.Outside).step c e c')
    (howner : (D.stateOf c.ledger).pool.owner ∉ signers e.accounts) :
    (D.stateOf c'.ledger).government = (D.stateOf c.ledger).government := by
  have hout : ∀ c c', D.Outside c c' → D.Outside c c' := fun _ _ hstep => hstep
  have hrep := reachable_represents h
  obtain ⟨op, s', hpool, h', hmatch⟩ :=
    (system_simulation False hout False.elim).step c e c' _ hrep hstep
  rw [← h'.eq_stateOf]
  apply PoolStep.government_eq hpool
  intro hop
  cases e with
  | instruction instruction accounts =>
      obtain ⟨ha, L', hrun, rfl⟩ := hstep
      exact howner (hmatch.owner_signs hop hrep ha hrun)
  | outside =>
      cases hmatch
      exact hop

theorem step_keeps_unstaked {e : Event} (h : (D.system D.Outside).Reachable c)
    (hstep : (D.system D.Outside).step c e c')
    (howner : (D.stateOf c.ledger).pool.owner ∉ signers e.accounts)
    (haddress : D.OwnAddress k)
    (hk : (c.ledger k).owner ≠ stakeProgramId) : (c'.ledger k).owner ≠ stakeProgramId := by
  cases e with
  | instruction instruction accounts =>
      exact (reachable_writes h hstep).keep (I := fun L => (L k).owner ≠ stakeProgramId)
        (fun _ _ hwrite => hwrite.unstaked howner) hk
  | outside =>
      rcases Deployment.Outside.owners hstep k haddress with hsame | ⟨-, hsystem⟩
      · rwa [hsame]
      · rw [hsystem]
        exact stakeProgramId_ne_system.symm

/-- Nobody changes the settings of a pool.  A run of which the owner signs no instruction
leaves the owner, the account for fees and the listed validators as they are, and opens no
stake account. -/
theorem owner_governs {es : List Event} (h : (D.system D.Outside).Reachable c)
    (hrun : (D.system D.Outside).Run es c c') :
    (D.stateOf c.ledger).pool.SameSettings (D.stateOf c'.ledger).pool ∧
    ((∀ e ∈ es, (D.stateOf c.ledger).pool.owner ∉ signers e.accounts) →
      (D.stateOf c'.ledger).government = (D.stateOf c.ledger).government ∧
      ∀ v i, (c.ledger (D.stakeKey v i)).owner ≠ stakeProgramId →
        (c'.ledger (D.stakeKey v i)).owner ≠ stakeProgramId) := by
  have hsub : ∀ x e x', (D.system D.Outside).step x e x' → (D.system D.Outside).step x e x' :=
    fun _ _ _ hstep => hstep
  constructor
  · refine hrun.keeps
      (I := fun x => (D.stateOf c.ledger).pool.SameSettings (D.stateOf x.ledger).pool) hsub h ?_
      (by rfl)
    intro e _ x x' hx hstep hI
    obtain ⟨op, s', hpool, h', -⟩ := Deployment.Step.poolStep (reachable_represents hx) hstep
    rw [← h'.eq_stateOf]
    exact hI.trans hpool.sameSettings
  · intro hsigned
    refine hrun.keeps (I := fun x =>
      (D.stateOf x.ledger).government = (D.stateOf c.ledger).government ∧
        ∀ v i, (c.ledger (D.stakeKey v i)).owner ≠ stakeProgramId →
          (x.ledger (D.stakeKey v i)).owner ≠ stakeProgramId) hsub h ?_
      ⟨rfl, fun _ _ hstake => hstake⟩
    rintro e he x x' hx hstep ⟨hgovernment, hstakes⟩
    -- the owner is still the one whose signature is missing
    have howner : (D.stateOf x.ledger).pool.owner ∉ signers e.accounts := by
      have heq : (D.stateOf x.ledger).pool.owner = _ := congrArg Prod.fst hgovernment
      rw [heq]
      exact hsigned e he
    refine ⟨(reachable_government hx hstep howner).trans hgovernment, fun v i hstake => ?_⟩
    exact step_keeps_unstaked hx hstep howner (.stake v i)
      (hstakes v i hstake)

section

open Reference

/-- After the owner listed a validator, a user withdraws and the pool is refreshed. -/
def ungovernedRun : Except ProgramError (Chain × Chain) := do
  let c ← execute anything [deposit 100000000 userTokensKey mintKey, addValidator validatorKey]
  let c' ← performAll anything [withdraw 1000000 userTokensKey mintKey, updatePool] c
  pure (c, c')

theorem owner_governs_ungovernedRun :
    ∃ c c', ungovernedRun = .ok (c, c') ∧ (deployment.stateOf c'.ledger).pool.poolTotal = 99000000 ∧
      (deployment.stateOf c'.ledger).government = (ownerKey, feeKey, [validatorKey]) := by
  have hrun : ungovernedRun.map (fun x => ((deployment.stateOf x.2.ledger).pool.poolTotal,
      (deployment.stateOf x.1.ledger).government)) =
        .ok (99000000, ownerKey, feeKey, [validatorKey]) := by
    decide +kernel
  obtain ⟨⟨c, c'⟩, hc, hbefore⟩ := map_eq_ok.mp hrun
  obtain ⟨htotal, hgovernment⟩ := Prod.mk.inj hbefore
  have hchains := hc
  simp only [ungovernedRun, bind_eq_ok, pure_eq_ok, Prod.mk.injEq] at hchains
  obtain ⟨c, hc₁, c', hc₂, rfl, rfl⟩ := hchains
  have howner : (deployment.stateOf c.ledger).pool.owner = ownerKey :=
    congrArg Prod.fst hgovernment
  obtain ⟨-, hothers⟩ := owner_governs (execute_anything_reachable hc₁)
    (performAll_run (paysIn_outside _) hc₂)
  obtain ⟨hsame, -⟩ := hothers (by rw [howner]; decide)
  exact ⟨c, c', hc, htotal, hsame.trans hgovernment⟩

end

end Tenderize
