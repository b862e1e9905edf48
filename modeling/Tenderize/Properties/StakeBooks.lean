import Tenderize.Properties.Holdings
import Tenderize.Reference.Openings

/-!
# No stake is orphaned

Every stake account that holds lamports lies below the `stake_count` of a listed validator,
so `RemoveValidator`, which looks only at `stake_count`, drops no stake.  The handlers of the
stake accounts keep this up as long as no `stake_count` runs past the largest index.
-/

namespace Tenderize

open Support

variable {D : Deployment} {W : Set Pubkey} {c : Chain} {s s' : PoolState} {op : PoolOp}
  {fits : Prop}

namespace Deployment

variable (D W) in
/-- Stake accounts with lamports are counted by the record of their validator. -/
def Live (V : List ValidatorStakeInfo) (stakes : Pubkey → Nat) : Prop :=
  ∀ v ∈ W, ∀ i, 0 < stakes (D.stakeKey v i) →
    ∃ r ∈ V, r.validatorAccount = v ∧ i < r.stakeCount

/-- A record that counts no stake account has no balance. -/
def NoBalanceAlone (_ : Pubkey → Nat) (r : ValidatorStakeInfo) : Prop :=
  r.stakeCount = 0 → r.balance = 0

/-! ## Moves -/

theorem Live.of_places {V V' : List ValidatorStakeInfo} {stakes : Pubkey → Nat}
    (h : D.Live W V stakes)
    (hplaces : V'.map ValidatorStakeInfo.place = V.map ValidatorStakeInfo.place) :
    D.Live W V' stakes := by
  intro v hv i hi
  obtain ⟨r, hr, hname, hlt⟩ := h v hv i hi
  obtain ⟨r', hr', hplace⟩ := exists_same_place hplaces.symm hr
  have hname' : r'.validatorAccount = r.validatorAccount := congrArg Prod.fst hplace
  have hcount : r'.stakeCount = r.stakeCount := congrArg Prod.snd hplace
  exact ⟨r', hr', hname'.trans hname, hcount ▸ hlt⟩

theorem Moved.live {v : Pubkey} {r r' : ValidatorStakeInfo} {b b' : Books}
    (h : D.Moved W v r r' b b') (hcounted : D.Counted v r r' b b')
    (hV : Listed W b.validators) (hlive : D.Live W b.validators b.stakes) :
    D.Live W b'.validators b'.stakes := by
  have hlist : b'.validators =
      updateFirst ValidatorStakeInfo.validatorAccount v r' b.validators := by
    rw [h.validators, putRecord, h.name]
  intro v' hv' i hi
  rw [hlist]
  by_cases hne : v' = v
  · subst hne
    refine ⟨r', lookup_mem (lookup_updateFirst_self h.found h.name), h.name, ?_⟩
    apply hcounted.live _ i hi
    intro j hj
    obtain ⟨x, hx, hname, hlt⟩ := hlive v' hv' j hj
    -- the record of the validator is the only one
    have hfound := lookup_of_mem hV.nodup hx
    rw [hname, h.found, Option.some.injEq] at hfound
    exact hfound ▸ hlt
  · rw [h.others v' hv' hne] at hi
    obtain ⟨x, hx, hname, hlt⟩ := hlive v' hv' i hi
    have hfound := lookup_of_mem hV.nodup hx
    rw [hname, ← lookup_updateFirst_of_ne h.name hne] at hfound
    exact ⟨x, lookup_mem hfound, hname, hlt⟩

theorem moveRun_live {b b' : Books} (h : Relation.ReflTransGen (D.MoveStep W fits) b b')
    (hfits : fits) (hV : Listed W b.validators) (hlive : D.Live W b.validators b.stakes) :
    D.Live W b'.validators b'.stakes := by
  induction h with
  | refl => exact hlive
  | tail hrun hstep ih =>
      obtain ⟨v, r, r', hmoved, hcounted⟩ := hstep
      exact hmoved.live (hcounted hfits) (moveRun_listed hrun hV) ih

theorem Restaked.live (h : D.Restaked W fits s s') (hfits : fits)
    (hV : Listed W s.list.validators) (hlive : D.Live W s.list.validators s.stakes) :
    D.Live W s'.list.validators s'.stakes := by
  obtain ⟨b, hrun, hplaces, -, hstakes⟩ := h.moves
  rw [hstakes]
  exact (moveRun_live hrun hfits hV hlive).of_places hplaces

theorem noBalanceAlone_rule (hfits : fits) : D.RecordRule W fits NoBalanceAlone where
  mono _ _ _ _ h := h
  new _ _ _ _ := rfl
  move _ _ _ _ _ _ hcounted h := (hcounted hfits).empty h
  stored _ _ _ _ _ _ _ _ _ h := h

/-! ## The invariant -/

variable (D W) in
structure Booked (s : PoolState) : Prop where
  listed : Listed W s.list.validators
  live : D.Live W s.list.validators s.stakes
  alone : ∀ r ∈ s.list.validators, NoBalanceAlone s.stakes r

end Deployment

open Deployment

/-- The steps of the validator list and the stake accounts; other programs revive no
stake account. -/
inductive PoolOp.Staking : PoolOp → Prop
  | addValidator (v : Pubkey) : Staking (.addValidator v)
  | removeValidator (v : Pubkey) : Staking (.removeValidator v)
  | updateList : Staking .updateList
  | delegateReserve (instructions : List (Pubkey × DelegateReserveInstruction)) :
      Staking (.delegateReserve instructions)
  | mergeStakes (instructions : List MergeStakesInstruction) : Staking (.mergeStakes instructions)
  | unstake (instructions : List UnstakeInstruction) : Staking (.unstake instructions)
  | outside : Staking (.outside True)

theorem PoolStep.live (hW : D.NoCollision W) (hstep : PoolStep D s op s')
    (hstaking : op.Staking) (hfits : op.Fits) (hV : Listed W s.list.validators)
    (hlive : D.Live W s.list.validators s.stakes) :
    D.Live W s'.list.validators s'.stakes := by
  cases hstaking with
  | addValidator v =>
      cases hstep
      intro v' hv' i hi
      obtain ⟨r, hr, hr'⟩ := hlive v' hv' i hi
      exact ⟨r, List.mem_append_left _ hr, hr'⟩
  | removeValidator v =>
      cases hstep with
      | removeValidator _ validators hremove =>
          obtain ⟨r, before, after, hsplit, hcount, rfl⟩ := removeRecord_ok hremove
          intro v' hv' i hi
          obtain ⟨x, hx, hname, hlt⟩ := hlive v' hv' i hi
          have hne : x ≠ r := by
            rintro rfl
            rw [hcount, UInt32.lt_iff_toNat_lt] at hlt
            exact Nat.not_lt_zero _ hlt
          rw [hsplit] at hx
          refine ⟨x, ?_, hname, hlt⟩
          simpa [hne] using hx
  | updateList =>
      cases hstep with
      | updateList epoch names b hrun =>
          exact (restaked_updateList hW hV hrun).live trivial hV hlive
  | delegateReserve instructions =>
      cases hstep with
      | delegateReserve _ b hrun =>
          exact (restaked_delegateReserve hW hV hrun).live hfits hV hlive
  | mergeStakes =>
      cases hstep with
      | mergeStakes instructions b hrun =>
          exact (restaked_mergeStakes hW hV hrun).live trivial hV hlive
  | unstake instructions =>
      cases hstep with
      | unstake _ b hrun =>
          exact (restaked_unstake hW hV hrun).live hfits hV hlive
  | outside =>
      cases hstep with
      | outside _ credit' reserve' stakes' hout =>
          intro v hv i hi
          change 0 < stakes' (D.stakeKey v i) at hi
          apply hlive v hv i
          apply Nat.pos_of_ne_zero
          intro hzero
          rw [hout.quiet trivial v i hzero] at hi
          exact Nat.lt_irrefl 0 hi

theorem PoolStep.booked (hW : D.NoCollision W) (hstep : PoolStep D s op s')
    (hstaking : op.Staking) (hadds : op.AddsIn W) (hfits : op.Fits) (hs : D.Booked W s) :
    D.Booked W s' := by
  have heffect := ListEffect.of_step hW hs.listed hadds hstep
  exact
    { listed := heffect.listed hs.listed
      live := hstep.live hW hstaking hfits hs.listed hs.live
      alone := heffect.records hs.listed (noBalanceAlone_rule hfits) hs.alone }

variable (W) in
/-- Steps that orphan no stake. -/
def PoolOp.Keeping (op : PoolOp) : Prop :=
  op.Staking ∧ op.AddsIn W ∧ op.Fits

theorem booked_invariant (hW : D.NoCollision W) :
    (D.poolSystem.restrict (fun _ op => op.Keeping W)).Invariant (D.Booked W) where
  init s hs := by
    refine ⟨?_, ?_, ?_⟩
    · rw [hs.validators]
      exact ⟨List.nodup_nil, fun r hr => nomatch hr⟩
    · intro v _ i hi
      rw [hs.stakes v i] at hi
      exact absurd hi (Nat.lt_irrefl 0)
    · rw [hs.validators]
      exact fun r hr => nomatch hr
  step s op s' hs hstep := hstep.1.booked hW hstep.2.1 hstep.2.2.1 hstep.2.2.2 hs

/-! ## Runs -/

/-- The six instructions for the validator list and the stake accounts. -/
def Event.Staking : Event → Prop
  | .instruction .addValidator _ => True
  | .instruction .removeValidator _ => True
  | .instruction .updateListBalance _ => True
  | .instruction (.delegateReserve _) _ => True
  | .instruction (.mergeStakes _) _ => True
  | .instruction (.unstake _) _ => True
  | .outside => True
  | _ => False

instance (e : Event) : Decidable e.Staking :=
  match e with
  | .instruction i _ =>
      match i with
      | .addValidator | .removeValidator | .updateListBalance | .delegateReserve _
      | .mergeStakes _ | .unstake _ => instDecidableTrue
      | .initializePool _ | .updatePoolBalance | .deposit _ | .withdraw _ | .setStakingAuthority
      | .setOwner | .credit _ | .uncredit _ | .payCreditors => instDecidableFalse
  | .outside => instDecidableTrue

theorem Matches.staking {e : Event} (hmatch : Matches True c e s op) (h : e.Staking) :
    op.Staking := by
  cases hmatch with
  | addValidator => exact .addValidator _
  | removeValidator => exact .removeValidator _
  | updateList => exact .updateList
  | delegateReserve => exact .delegateReserve _
  | mergeStakes => exact .mergeStakes _
  | unstake => exact .unstake _
  | outside => exact .outside
  | _ => cases h

variable (D) in
/-- Other programs revive no stake account. -/
structure Deployment.Quiet (c c' : Chain) : Prop where
  outside : D.Outside c c'
  noRevival : D.NoRevival c c'

variable (D W) in
/-- Runs of the six instructions on validators in `W`. -/
def Deployment.stakingRuns (fits : Event → Prop) : System Chain Event :=
  (D.system D.Quiet).restrict (fun _ e => e.Staking ∧ e.AddsIn W ∧ fits e)

theorem reachable_booked (hW : D.NoCollision W)
    (h : (D.stakingRuns W Event.Fits).Reachable c) :
    D.Represents c.ledger (D.stateOf c.ledger) ∧ D.Booked W (D.stateOf c.ledger) :=
  reachable_invariant True (fun _ op => op.Keeping W) (D.Booked W)
    (fun _ _ hquiet => hquiet.outside) (fun _ _ _ hquiet => hquiet.noRevival)
    (fun _ _ _ _ _ hmatch hguard =>
      ⟨hmatch.staking hguard.1, hmatch.addsIn hguard.2.1, hmatch.fits hguard.2.2⟩)
    (booked_invariant hW) h

/-- The validator that `RemoveValidator` names. -/
def removedAccount (accounts : List AccountInfo) : Option Pubkey :=
  accounts[3]?.map (fun info => info.key)

theorem removeRecord_found {v : Pubkey} {V V' : List ValidatorStakeInfo}
    (h : removeRecord v V = .ok V') :
    ∃ r, lookup ValidatorStakeInfo.validatorAccount v V = some r ∧ r.stakeCount = 0 := by
  unfold removeRecord at h
  split at h
  · rename_i r hfound
    simp only [bind_eq_ok, require_eq_ok] at h
    obtain ⟨-, hcount, -⟩ := h
    exact ⟨r, hfound, by simpa using hcount⟩
  · cases h

theorem Deployment.Booked.removed {v : Pubkey} {V : List ValidatorStakeInfo}
    (hs : D.Booked W s) (hremove : removeRecord v s.list.validators = .ok V) (i : UInt32) :
    s.stakes (D.stakeKey v i) = 0 := by
  obtain ⟨r, hfound, hcount⟩ := removeRecord_found hremove
  have hname : r.validatorAccount = v := lookup_key hfound
  apply Nat.eq_zero_of_not_pos
  intro hpos
  obtain ⟨x, hx, hxname, hlt⟩ := hs.live v (hname ▸ hs.listed.names r (lookup_mem hfound)) i hpos
  have hsame := lookup_of_mem hs.listed.nodup hx
  rw [hxname, hfound, Option.some.injEq] at hsame
  rw [← hsame, hcount, UInt32.lt_iff_toNat_lt] at hlt
  exact Nat.not_lt_zero _ hlt

/-- In runs of the six instructions that stay below the largest index, every stake account
with lamports is counted by a listed validator, records without stake accounts are empty, and
a removed validator holds no stake. -/
theorem stakes_not_orphaned (hW : D.NoCollision W)
    (h : (D.stakingRuns W Event.Fits).Reachable c) :
    (∀ v ∈ W, ∀ i, 0 < (D.stateOf c.ledger).stakes (D.stakeKey v i) →
        ∃ r ∈ (D.stateOf c.ledger).list.validators,
          r.validatorAccount = v ∧ i < r.stakeCount) ∧
      (∀ r ∈ (D.stateOf c.ledger).list.validators, r.stakeCount = 0 → r.balance = 0) ∧
      ∀ accounts v c', removedAccount accounts = some v →
        (D.stakingRuns W Event.Fits).step c (.instruction .removeValidator accounts) c' →
        ∀ i, (D.stateOf c.ledger).stakes (D.stakeKey v i) = 0 := by
  obtain ⟨hs, hbooked⟩ := reachable_booked hW h
  refine ⟨hbooked.live, hbooked.alone, ?_⟩
  rintro accounts v c' hv ⟨⟨ha, L', hrun, rfl⟩, -⟩
  obtain ⟨a, s', hparse, hstep, -⟩ := processRemoveValidator_refines hs ha hrun
  obtain ⟨rest, haccounts⟩ := ValidatorAccounts.parse_ok hparse
  have hkey : a.validator.key = v := by
    rw [haccounts] at hv
    exact Option.some.inj hv
  cases hstep with
  | removeValidator _ validators hremove =>
      rw [hkey] at hremove
      exact hbooked.removed hremove

section

open Reference

/-- Payments into the reserve revive no stake account. -/
theorem paysIn_quiet {actions : List Action}
    (h : ∀ source target n, .pay source target n ∈ actions → target = Reference.reserveKey) :
    PaysIn deployment.Quiet actions := by
  intro source target n hmem hsource c L' hrun
  refine ⟨transfer_outside (not_isProgramAddress hsource) hrun, ?_⟩
  intro v i hzero
  obtain ⟨-, rfl⟩ := checked_eq_ok.mp hrun
  have hkey : deployment.stakeKey v i ≠ source := by
    rintro rfl
    rw [stakeKey_eq, stakeAddress_toNat] at hsource
    omega
  have hreserve : deployment.stakeKey v i ≠ target := by
    rw [h source target n hmem]
    exact (noCollision v).ne_reserve v rfl i
  change stakeLamports (c.ledger.moveLamports source target n) _ = 0
  unfold stakeLamports at hzero ⊢
  rw [c.ledger.moveLamports_of_ne n hkey hreserve]
  exact hzero

/-- Two stake accounts are opened. -/
def bookedRun : List Action :=
  [.pay userKey Reference.reserveKey 1000000000, addValidator validatorKey,
    delegate [⟨100000000, 0⟩, ⟨200000000, 1⟩]]

theorem paysIn_bookedRun : PaysIn deployment.Quiet bookedRun := by
  apply paysIn_quiet
  intro source target n hmem
  simp only [bookedRun, addValidator, delegate, List.mem_cons, List.not_mem_nil, reduceCtorEq,
    or_false, Action.pay.injEq] at hmem
  exact hmem.2.1

theorem stakes_not_orphaned_bookedRun :
    ∃ c, execute (fun _ e => decide (e.Staking ∧ e.AddsIn {validatorKey} ∧ e.Fits)) bookedRun =
        .ok c ∧
      (deployment.stateOf c.ledger).stakes (deployment.stakeKey validatorKey 1) = 200000000 ∧
      ∃ r ∈ (deployment.stateOf c.ledger).list.validators,
        r.validatorAccount = validatorKey ∧ 1 < r.stakeCount := by
  have hrun : (execute (fun _ e => decide (e.Staking ∧ e.AddsIn {validatorKey} ∧ e.Fits))
      bookedRun).map (fun c =>
        (deployment.stateOf c.ledger).stakes (deployment.stakeKey validatorKey 1)) =
      .ok 200000000 := by
    decide +kernel
  obtain ⟨c, hc, hstake⟩ := map_eq_ok.mp hrun
  have hreach : (deployment.stakingRuns {validatorKey} Event.Fits).Reachable c :=
    execute_reachable_in paysIn_bookedRun (fun _ _ h => of_decide_eq_true h) hc
  refine ⟨c, hc, hstake, ?_⟩
  apply (stakes_not_orphaned (noCollision validatorKey) hreach).1 validatorKey rfl 1
  rw [hstake]
  decide

/-- After the last stake account was opened, `stake_count` is zero. -/
theorem delegateReserve_wraps_count :
    ∃ c, (deployment.stakingRuns {validatorKey} (fun _ => True)).Reachable c ∧
      0 < (deployment.stateOf c.ledger).stakes (deployment.stakeKey validatorKey 0) ∧
      ¬∃ r ∈ (deployment.stateOf c.ledger).list.validators,
        r.validatorAccount = validatorKey ∧ 0 < r.stakeCount := by
  have hrun : (execute (fun _ e => decide (e.Staking ∧ e.AddsIn {validatorKey} ∧ True))
      [.pay userKey Reference.reserveKey 500000000000000000, addValidator validatorKey]).map
        (fun c => preparedAccounts c.ledger) =
      .ok ((programId, .stakePool StakePool.LEN (preparedPool 0)),
        (programId, .validatorStakeList ValidatorStakeList.LEN ⟨1, [⟨validatorKey, 0, 0, 0⟩]⟩),
        wallet 500000000000000000) := by
    decide +kernel
  obtain ⟨c, hc, haccounts⟩ := map_eq_ok.mp hrun
  have hprepared := prepared_opened (by
    rintro action (_ | ⟨_, _ | ⟨_, ⟨⟩⟩⟩)
    exacts [.pay _, .addValidator]) hc haccounts
  have hreach : (deployment.stakingRuns {validatorKey} (fun _ => True)).Reachable
      (on c.ledger) := by
    rw [← execute_on hc]
    refine execute_reachable_in (paysIn_quiet ?_) (fun _ _ h => of_decide_eq_true h) hc
    intro source target n hmem
    simp only [addValidator, List.mem_cons, List.not_mem_nil, reduceCtorEq, or_false,
      Action.pay.injEq] at hmem
    exact hmem.2.1
  obtain ⟨L, hL, hopened⟩ := opened_reachable _ (fun _ _ => ⟨trivial, nofun, trivial⟩)
    (wired_preparedPool 0) hreach hprepared (by decide) (2 ^ 32) le_rfl
  obtain ⟨balance, hdata⟩ := hopened.list_data
  obtain ⟨howner, hlamports⟩ := hopened.first (by decide)
  refine ⟨on L, hL, ?_, ?_⟩
  · change 0 < deployment.stakesOf L (stakeAccount 0)
    rw [deployment.stakesOf_of_ne L (stakeAccount_ne_reserve 0), stakeLamports, howner, hlamports]
    decide
  · change ¬∃ r ∈ (deployment.stateOf L).list.validators, _
    rw [stateOf_list hopened.pool_data rfl hdata]
    rintro ⟨r, hr, -, hpos⟩
    rw [List.mem_singleton.mp hr] at hpos
    change 0 < UInt32.ofNat (2 ^ 32) at hpos
    exact absurd hpos (by decide)

end

end Tenderize
