import Tenderize.Refinement.Runs
import Tenderize.Spec.MoveRuns

/-!
# Recorded balances are held

Whatever the records say about a validator, its stake accounts hold at least the recorded
balance.  This is true of every run: records that are not written back only fall behind.
-/

namespace Tenderize

open Support

variable {D : Deployment} {W : Set Pubkey} {c : Chain} {s s' : PoolState} {op : PoolOp}

/-! ## Conditions on events -/

/-- The validator that an instruction adds to the list. -/
def addedAccount : StakePoolInstruction → List AccountInfo → Option Pubkey
  | .addValidator, accounts => accounts[3]?.map (fun info => info.key)
  | _, _ => none

/-- A validator that is added is one of `W`. -/
def Event.AddsIn (W : Set Pubkey) : Event → Prop
  | .instruction i accounts => ∀ v, addedAccount i accounts = some v → v ∈ W
  | .outside => True

/-- No sub-instruction names the largest stake index. -/
def Event.Fits : Event → Prop
  | .instruction (.delegateReserve instructions) _ =>
      ∀ i ∈ instructions, i.stakeIndex.toNat + 1 < 2 ^ 32
  | .instruction (.unstake instructions) _ => ∀ i ∈ instructions, i.splitIndex.toNat + 1 < 2 ^ 32
  | _ => True

instance [DecidablePred (· ∈ W)] (e : Event) : Decidable (e.AddsIn W) := by
  unfold Event.AddsIn
  split
  · rename_i i accounts
    exact match addedAccount i accounts with
      | none => .isTrue nofun
      | some v => decidable_of_iff (v ∈ W) (by simp)
  · infer_instance

instance (e : Event) : Decidable e.Fits := by
  unfold Event.Fits
  split <;> infer_instance

theorem Matches.addsIn {quiet : Prop} {e : Event} (hmatch : Matches quiet c e s op)
    (h : e.AddsIn W) : op.AddsIn W := by
  intro v hop
  cases hmatch with
  | addValidator hparse =>
      cases hop
      obtain ⟨rest, haccounts⟩ := ValidatorAccounts.parse_ok hparse
      apply h
      rw [haccounts]
      rfl
  | _ => cases hop

theorem Matches.fits {quiet : Prop} {e : Event} (hmatch : Matches quiet c e s op)
    (h : e.Fits) : op.Fits := by
  cases hmatch with
  | delegateReserve =>
      intro p hp
      exact h p.2 (List.of_mem_zip hp).2
  | unstake => exact h
  | _ => trivial

/-! ## The invariant -/

variable (D) in
/-- The stake accounts of the validator hold the recorded balance. -/
def Deployment.BalanceHeld (stakes : Pubkey → Nat) (r : ValidatorStakeInfo) : Prop :=
  r.balance.toNat ≤ D.heldAll stakes r.validatorAccount

variable (D W) in
/-- The records are of different validators in `W`, and every balance is held. -/
structure Deployment.Covered (s : PoolState) : Prop where
  listed : Deployment.Listed W s.list.validators
  balance : ∀ r ∈ s.list.validators, D.BalanceHeld s.stakes r

theorem balanceHeld_rule (fits : Prop) : D.RecordRule W fits D.BalanceHeld where
  mono σ σ' r hle h := le_trans h (Deployment.held_le_held hle)
  new σ v epoch := Nat.zero_le _
  move v r r' b b' hmoved _ h := by
    have hname : r.validatorAccount = v := lookup_key hmoved.found
    unfold Deployment.BalanceHeld at h ⊢
    rw [hmoved.name]
    rw [hname] at h
    exact hmoved.covered h
  stored v r r' b b' r₀ hunwritten _ hplace h := by
    have hname : r₀.validatorAccount = v := congrArg Prod.fst hplace
    unfold Deployment.BalanceHeld at h ⊢
    rw [hname] at h ⊢
    exact le_trans h hunwritten.growsAll

theorem PoolStep.covered (hW : D.NoCollision W) (hadds : op.AddsIn W) (h : PoolStep D s op s')
    (hs : D.Covered W s) : D.Covered W s' := by
  have heffect := Deployment.ListEffect.of_step hW hs.listed hadds h
  exact ⟨heffect.listed hs.listed, heffect.records hs.listed (balanceHeld_rule _) hs.balance⟩

theorem covered_invariant (hW : D.NoCollision W) :
    (D.poolSystem.restrict (fun _ op => op.AddsIn W)).Invariant (D.Covered W) where
  init s hs := by
    constructor
    · rw [hs.validators]
      exact ⟨List.nodup_nil, fun r hr => nomatch hr⟩
    · rw [hs.validators]
      exact fun r hr => nomatch hr
  step s op s' hs hstep := hstep.1.covered hW hstep.2 hs

theorem reachable_covered (hW : D.NoCollision W)
    (h : ((D.system D.Outside).restrict (fun _ e => e.AddsIn W)).Reachable c) :
    D.Represents c.ledger (D.stateOf c.ledger) ∧ D.Covered W (D.stateOf c.ledger) :=
  reachable_invariant False (fun _ op => op.AddsIn W) (D.Covered W) (fun _ _ hout => hout)
    False.elim (fun _ _ _ _ _ hmatch hguard => hmatch.addsIn hguard) (covered_invariant hW) h

end Tenderize
