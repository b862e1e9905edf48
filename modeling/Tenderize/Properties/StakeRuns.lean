import Tenderize.Refinement.StakeAccounts
import Tenderize.Properties.StakeBooks
import Tenderize.Properties.Records

/-!
# Stake accounts in runs

Whatever the instructions do, a stake address holds nothing, a stake account of the pool or
what a merge left behind.  In runs in which nobody sends lamports to what a merge left, every
stake account that holds lamports is counted.
-/

namespace Tenderize

open Support

variable {D : Deployment} {quiet fits : Prop} {W : Set Pubkey} {c c' : Chain}

namespace Deployment

variable (D) in
/-- What other programs do, to the stake accounts of the pool in particular. -/
structure Tends (quiet : Prop) (c c' : Chain) : Prop extends D.Outside c c' where
  stakes : ∀ v i, (c.ledger (D.stakeKey v i)).Tended quiet (c'.ledger (D.stakeKey v i))

theorem Tends.noRevival (h : D.Tends quiet c c') (hq : quiet) : D.NoRevival c c' := by
  intro v i hzero
  unfold stakeLamports at hzero ⊢
  split
  case isFalse => rfl
  case isTrue howner' =>
    cases h.stakes v i with
    | spared hspared =>
        have howner := hspared.owner.symm.trans howner'
        rw [if_pos howner] at hzero
        rw [hspared.quiet hq howner (UInt64.toNat_inj.mp hzero)]
        rfl
    | rewarded m st st' n howner _ hne _ _ _ =>
        rw [if_pos howner] at hzero
        exact absurd (UInt64.toNat_inj.mp hzero) hne
    | collected _ hsystem => exact absurd (howner'.symm.trans hsystem) stakeProgramId_ne_system

variable (D quiet fits W) in
/-- Runs on validators in `W`.  With `quiet` nobody sends lamports to what a merge left, with
`fits` the stake indices stay below the largest one. -/
def stakeRuns : System Chain Event :=
  (D.system (D.Tends quiet)).restrict
    (fun c e => e.AddsIn W ∧ (quiet → ¬e.Revives c) ∧ (fits → e.Fits))

/-- Runs without these restrictions are more runs. -/
theorem stakeRuns_mono {quiet' fits' : Prop} (hq : quiet' → quiet) (hf : fits' → fits)
    (h : (D.stakeRuns quiet fits W).Reachable c) : (D.stakeRuns quiet' fits' W).Reachable c := by
  have hinit : ∀ c, (D.stakeRuns quiet fits W).init c → (D.stakeRuns quiet' fits' W).init c :=
    fun _ hc => hc
  have htends : ∀ c c', D.Tends quiet c c' → D.Tends quiet' c c' :=
    fun _ _ h => ⟨h.toOutside, fun v i => (h.stakes v i).imp hq⟩
  refine h.mono hinit ?_
  rintro c e c' ⟨hstep, hadds, hquiet, hfits⟩
  exact ⟨hstep.mono htends, hadds, fun hq' => hquiet (hq hq'), fun hf' => hfits (hf hf')⟩

/-- The records in runs on validators in `W`. -/
structure KeepsList (D : Deployment) (W : Set Pubkey) (c : Chain) : Prop where
  represents : D.Represents c.ledger (D.stateOf c.ledger)
  listed : Listed W (D.stateOf c.ledger).list.validators
  unique : (D.stateOf c.ledger).KeysUnique

theorem stakeRuns_list (hW : D.NoCollision W) (h : (D.stakeRuns quiet fits W).Reachable c) :
    D.KeepsList W c := by
  have hinit : ∀ c, (D.stakeRuns quiet fits W).init c →
      ((D.system D.Outside).restrict (fun _ e => e.AddsIn W)).init c := fun _ hc => hc
  have hadds := h.mono hinit
    (fun _ _ _ hstep => ⟨Step.mono (fun _ _ htends => htends.toOutside) hstep.1, hstep.2.1⟩)
  obtain ⟨hrep, hcovered⟩ := reachable_covered hW hadds
  exact ⟨hrep, hcovered.listed, (keysUnique_invariant.reachable hadds.of_restrict).2⟩

theorem stakeRuns_sound (hS : D.programs.StakeRules) (hW : D.Separate W)
    (h : (D.stakeRuns quiet fits W).Reachable c) : D.SoundStakes quiet W c.ledger := by
  induction h with
  | init hc =>
      obtain ⟨c₀, init, accounts, a, hparse, hfresh, -, hrun⟩ := hc
      intro v _ i
      refine .closed ?_
      rw [processInitialize_owners (T := ∅) hparse hfresh.token_program hrun _ id]
      exact hfresh.stakes v i
  | @step c c' e hc hstep ih =>
      obtain ⟨hrep, hlisted, -⟩ := stakeRuns_list hW.toNoCollision hc
      obtain ⟨hevent, -, hquiet, -⟩ := hstep
      cases e with
      | instruction i accounts =>
          obtain ⟨ha, L', hrun, rfl⟩ := hevent
          exact dispatch_sound hS hrep ha hW hlisted ih hquiet hrun
      | outside => exact fun v hv i => (ih v hv i).tended (hevent.stakes v i)

/-- What spares the accounts without lamports brings no stake to life. -/
theorem Live.of_sparing {V : List ValidatorStakeInfo} {L L' : Ledger}
    (hlive : D.Live W V (D.stakesOf L))
    (hW : D.NoCollision W) (hL : D.SoundStakes True W L) (h : D.Sparing True W L L') :
    D.Live W V (D.stakesOf L') := by
  intro v hv i hpos
  apply hlive v hv i
  have hspared := h hL v hv i
  have hkey := hW.ne_reserve v hv i
  rw [D.stakesOf_of_ne _ hkey] at hpos ⊢
  unfold stakeLamports at hpos ⊢
  split at hpos
  case isFalse => exact absurd hpos (Nat.lt_irrefl 0)
  case isTrue howner' =>
    have howner := hspared.owner.symm.trans howner'
    rw [if_pos howner]
    apply Nat.pos_of_ne_zero
    intro hzero
    have hzero' := hspared.quiet trivial howner (UInt64.toNat_inj.mp hzero)
    rw [hzero'] at hpos
    exact absurd hpos (Nat.lt_irrefl 0)

end Deployment

open Deployment

theorem PoolStep.list_eq {s s' : PoolState} {op : PoolOp} {e : Event} (hstep : PoolStep D s op s')
    (hmatch : Matches True c e s op) (he : ¬e.Staking) : s'.list = s.list := by
  cases hmatch with
  | updatePool =>
      cases hstep
      rfl
  | deposit =>
      cases hstep
      rfl
  | withdraw =>
      cases hstep
      rfl
  | setOwner =>
      cases hstep
      rfl
  | credit =>
      cases hstep
      rfl
  | uncredit =>
      cases hstep
      rfl
  | payCreditors =>
      cases hstep
      rfl
  | _ => exact absurd trivial he

theorem stakeRuns_live (hS : D.programs.StakeRules) (hW : D.Separate W)
    (h : (D.stakeRuns True True W).Reachable c) :
    D.Live W (D.stateOf c.ledger).list.validators (D.stakesOf c.ledger) := by
  induction h with
  | init hc =>
      obtain ⟨s, hs, hfresh⟩ := hc.represents
      intro v _ i hpos
      rw [hs.stakes_eq, hfresh.stakes v i] at hpos
      exact absurd hpos (Nat.lt_irrefl 0)
  | @step c c' e hc hstep ih =>
      obtain ⟨hrep, hlisted, -⟩ := stakeRuns_list hW.toNoCollision hc
      have hsound := stakeRuns_sound hS hW hc
      obtain ⟨hevent, hadds, hquiet, hfits⟩ := hstep
      cases e with
      | instruction i accounts =>
          obtain ⟨ha, L', hrun, rfl⟩ := hevent
          obtain ⟨op, s', hpool, h', hmatch⟩ := dispatch_refines True hrep ha i hrun
          rw [← h'.eq_stateOf]
          change D.Live W s'.list.validators (D.stakesOf L')
          by_cases he : (Event.instruction i accounts).Staking
          · rw [h'.stakes_eq]
            exact hpool.live hW.toNoCollision (hmatch.staking he) (hmatch.fits (hfits trivial))
              hlisted ih
          · rw [hpool.list_eq hmatch he]
            refine ih.of_sparing hW.toNoCollision hsound ?_
            refine dispatch_sparing hrep ha hW ?_ hquiet hrun
            intro hstakes
            apply he
            cases i <;> trivial
      | outside =>
          obtain ⟨s', hpool, h'⟩ :=
            hrep.outside hevent.toOutside (fun _ => hevent.noRevival trivial)
          rw [← h'.eq_stateOf, h'.stakes_eq]
          exact hpool.live hW.toNoCollision .outside trivial hlisted ih

end Tenderize
