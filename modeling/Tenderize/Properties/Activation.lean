import Tenderize.Model.Activation

/-!
# How a delegation warms up and cools down

Whatever the shares of the epochs are, the parts of a delegation never exceed it, and from the
deactivation on the effective part only shrinks, so that a finished deactivation is final.
-/

namespace Tenderize

namespace Delegation

variable (share : Share) (delegation : Delegation)

/-! ## Warming up -/

/-- The effective stake after one more epoch; the sum may wrap around. -/
def warmed (entry : StakeHistoryEntry) (effective : UInt64) : UInt64 :=
  effective + max (share (delegation.stake - effective) entry.activating entry.effective) 1

section WarmUp

variable (entries : StakeHistory) (prevEpoch : UInt64) (entry : StakeHistoryEntry)
  (effective : UInt64)

theorem warmUp_zero : delegation.warmUp share entries 0 prevEpoch entry effective =
    if entry.activating = 0 then effective
    else if delegation.warmed share entry effective ≥ delegation.stake then delegation.stake
    else delegation.warmed share entry effective := by
  unfold warmUp warmed
  rfl

theorem warmUp_succ (remaining : Nat) :
    delegation.warmUp share entries (remaining + 1) prevEpoch entry effective =
      if entry.activating = 0 then effective
      else if delegation.warmed share entry effective ≥ delegation.stake then delegation.stake
      else if prevEpoch + 1 ≥ delegation.deactivationEpoch then
        delegation.warmed share entry effective
      else
        ((entries.get (prevEpoch + 1)).map fun next =>
          delegation.warmUp share entries remaining (prevEpoch + 1) next
            (delegation.warmed share entry effective)).getD
          (delegation.warmed share entry effective) := by
  rw [warmUp]
  unfold warmed
  cases entries.get (prevEpoch + 1) with
  | none => rfl
  | some next => rfl

end WarmUp

/-- The loop never leaves with more than the delegation. -/
theorem warmUp_le (entries : StakeHistory) (remaining : Nat) :
    ∀ {prevEpoch : UInt64} {entry : StakeHistoryEntry} {effective : UInt64},
      effective ≤ delegation.stake →
      delegation.warmUp share entries remaining prevEpoch entry effective ≤ delegation.stake := by
  induction remaining with
  | zero =>
      intro prevEpoch entry effective h
      rw [warmUp_zero]
      split
      · exact h
      · split
        · exact UInt64.le_refl _
        · next hless => exact UInt64.le_of_lt (UInt64.not_le.mp hless)
  | succ remaining ih =>
      intro prevEpoch entry effective h
      rw [warmUp_succ]
      split
      · exact h
      · split
        · exact UInt64.le_refl _
        · next hless =>
            have hle := UInt64.le_of_lt (UInt64.not_le.mp hless)
            split
            · exact hle
            · cases entries.get (prevEpoch + 1) with
              | none => exact hle
              | some next => exact ih hle

theorem toNat_succ_of_lt {a b : UInt64} (h : a < b) : (a + 1).toNat = a.toNat + 1 := by
  have hb := b.toNat_lt
  have hab := UInt64.lt_iff_toNat_lt.mp h
  rw [UInt64.toNat_add]
  exact Nat.mod_eq_of_lt (by simpa using (by omega : a.toNat + 1 < 2 ^ 64))

/-- The loop stops at the deactivation, however many epochs are left. -/
theorem warmUp_settled (entries : StakeHistory) (remaining : Nat) :
    ∀ {remaining' : Nat} {prevEpoch : UInt64} {entry : StakeHistoryEntry} {effective : UInt64},
      prevEpoch < delegation.deactivationEpoch →
      delegation.deactivationEpoch.toNat ≤ prevEpoch.toNat + 1 + remaining →
      remaining ≤ remaining' →
      delegation.warmUp share entries remaining' prevEpoch entry effective =
        delegation.warmUp share entries remaining prevEpoch entry effective := by
  induction remaining with
  | zero =>
      intro remaining' prevEpoch entry effective hprev hend _
      cases remaining' with
      | zero => rfl
      | succ remaining' =>
          have hstop : prevEpoch + 1 ≥ delegation.deactivationEpoch := by
            rw [ge_iff_le, UInt64.le_iff_toNat_le, toNat_succ_of_lt hprev]
            exact hend
          rw [warmUp_succ, warmUp_zero, if_pos hstop]
  | succ remaining ih =>
      intro remaining' prevEpoch entry effective hprev hend hle
      obtain ⟨remaining', rfl⟩ := Nat.exists_eq_add_of_le' (Nat.le_trans (Nat.le_add_left 1 _) hle)
      rw [warmUp_succ, warmUp_succ]
      by_cases hstop : prevEpoch + 1 ≥ delegation.deactivationEpoch
      · rw [if_pos hstop, if_pos hstop]
      · have hnext : prevEpoch + 1 < delegation.deactivationEpoch := UInt64.not_le.mp hstop
        have hsucc := toNat_succ_of_lt hprev
        rw [if_neg hstop, if_neg hstop]
        cases entries.get (prevEpoch + 1) with
        | none => rfl
        | some next =>
            rw [Option.map_some, Option.map_some, ih hnext (by omega) (Nat.le_of_succ_le_succ hle)]

/-! ## Cooling down -/

/-- The effective stake after one more epoch. -/
def cooled (entry : StakeHistoryEntry) (effective : UInt64) : UInt64 :=
  saturatingSub effective (max (share effective entry.deactivating entry.effective) 1)

theorem cooled_le (entry : StakeHistoryEntry) (effective : UInt64) :
    cooled share entry effective ≤ effective := by
  unfold cooled saturatingSub
  split
  · next hle => exact UInt64.sub_le hle
  · exact UInt64.zero_le

section CoolDown

variable (entries : StakeHistory) (prevEpoch : UInt64) (entry : StakeHistoryEntry)
  (effective : UInt64)

theorem coolDown_zero : coolDown share entries 0 prevEpoch entry effective =
    if entry.deactivating = 0 then effective else cooled share entry effective := by
  have hlast : (if cooled share entry effective = 0 then 0 else cooled share entry effective) =
      cooled share entry effective := by
    split
    · next hzero => exact hzero.symm
    · rfl
  rw [← hlast, coolDown]
  rfl

theorem coolDown_succ (remaining : Nat) :
    coolDown share entries (remaining + 1) prevEpoch entry effective =
      if entry.deactivating = 0 then effective
      else if cooled share entry effective = 0 then 0
      else
        ((entries.get (prevEpoch + 1)).map fun next =>
          coolDown share entries remaining (prevEpoch + 1) next
            (cooled share entry effective)).getD (cooled share entry effective) := by
  rw [coolDown]
  unfold cooled
  cases entries.get (prevEpoch + 1) with
  | none => rfl
  | some next => rfl

end CoolDown

theorem coolDown_le (entries : StakeHistory) (remaining : Nat) :
    ∀ {prevEpoch : UInt64} {entry : StakeHistoryEntry} {effective : UInt64},
      coolDown share entries remaining prevEpoch entry effective ≤ effective := by
  induction remaining with
  | zero =>
      intro prevEpoch entry effective
      rw [coolDown_zero]
      split
      · exact UInt64.le_refl _
      · exact cooled_le share entry effective
  | succ remaining ih =>
      intro prevEpoch entry effective
      rw [coolDown_succ]
      split
      · exact UInt64.le_refl _
      · split
        · exact UInt64.zero_le
        · cases entries.get (prevEpoch + 1) with
          | none => exact cooled_le share entry effective
          | some next => exact UInt64.le_trans ih (cooled_le share entry effective)

/-- Nothing becomes effective again in later epochs. -/
theorem coolDown_antitone (entries : StakeHistory) (remaining : Nat) :
    ∀ {remaining' : Nat} {prevEpoch : UInt64} {entry : StakeHistoryEntry} {effective : UInt64},
      remaining ≤ remaining' →
      coolDown share entries remaining' prevEpoch entry effective ≤
        coolDown share entries remaining prevEpoch entry effective := by
  induction remaining with
  | zero =>
      intro remaining' prevEpoch entry effective _
      cases remaining' with
      | zero => exact UInt64.le_refl _
      | succ remaining' =>
          rw [coolDown_succ, coolDown_zero]
          by_cases hdone : entry.deactivating = 0
          · rw [if_pos hdone, if_pos hdone]
            exact UInt64.le_refl _
          · rw [if_neg hdone, if_neg hdone]
            split
            · exact UInt64.zero_le
            · cases entries.get (prevEpoch + 1) with
              | none => exact UInt64.le_refl _
              | some next => exact coolDown_le share entries remaining'
  | succ remaining ih =>
      intro remaining' prevEpoch entry effective hle
      obtain ⟨remaining', rfl⟩ := Nat.exists_eq_add_of_le' (Nat.le_trans (Nat.le_add_left 1 _) hle)
      rw [coolDown_succ, coolDown_succ]
      split
      · exact UInt64.le_refl _
      · split
        · exact UInt64.le_refl _
        · cases entries.get (prevEpoch + 1) with
          | none => exact UInt64.le_refl _
          | some next => exact ih (Nat.le_of_succ_le_succ hle)

/-! ## The parts of a delegation -/

section Parts

variable (history : Option StakeHistory) (fixStakeDeactivate : Bool) (epoch : UInt64)

def effectiveAt : UInt64 :=
  (delegation.stakeActivatingAndDeactivating share epoch history fixStakeDeactivate).1

def activatingAt : UInt64 :=
  (delegation.stakeActivatingAndDeactivating share epoch history fixStakeDeactivate).2.1

def deactivatingAt : UInt64 :=
  (delegation.stakeActivatingAndDeactivating share epoch history fixStakeDeactivate).2.2

theorem stakeAndActivating_le :
    let parts := delegation.stakeAndActivating share epoch history fixStakeDeactivate
    parts.1.toNat + parts.2.toNat ≤ delegation.stake.toNat := by
  intro parts
  unfold parts stakeAndActivating
  split
  · exact Nat.le_refl _
  · split
    · exact Nat.zero_le _
    · split
      · simp
      · split
        · exact Nat.zero_le _
        · split
          · next entries entry _ =>
              have hle : delegation.warmUp share entries
                  (epoch.toNat - delegation.activationEpoch.toNat - 1) delegation.activationEpoch
                  entry 0 ≤ delegation.stake :=
                delegation.warmUp_le share entries _ UInt64.zero_le
              have hsub := UInt64.toNat_sub_of_le _ _ hle
              have hnat := UInt64.le_iff_toNat_le.mp hle
              simp only [hsub]
              omega
          · exact Nat.le_refl _

/-- What is left effective after the deactivation of `effective`. -/
def leftAt (effective : UInt64) : UInt64 :=
  (history.bind fun entries => (entries.get delegation.deactivationEpoch).map fun entry =>
    coolDown share entries (epoch.toNat - delegation.deactivationEpoch.toNat - 1)
      delegation.deactivationEpoch entry effective).getD 0

/-- Before, in and after the epoch of the deactivation. -/
theorem stakeActivatingAndDeactivating_eq :
    delegation.stakeActivatingAndDeactivating share epoch history fixStakeDeactivate =
      let parts := delegation.stakeAndActivating share epoch history fixStakeDeactivate
      let left := delegation.leftAt share history epoch parts.1
      if epoch < delegation.deactivationEpoch then (parts.1, parts.2, 0)
      else if epoch = delegation.deactivationEpoch then (parts.1, 0, parts.1)
      else (left, 0, left) := by
  have hparts := delegation.stakeAndActivating_le share history fixStakeDeactivate epoch
  have hmin : min (delegation.stakeAndActivating share epoch history fixStakeDeactivate).1
      delegation.stake =
      (delegation.stakeAndActivating share epoch history fixStakeDeactivate).1 := by
    refine if_pos (UInt64.le_iff_toNat_le.mpr ?_)
    exact Nat.le_trans (Nat.le_add_right _ _) hparts
  unfold stakeActivatingAndDeactivating leftAt
  simp only [hmin]
  split
  · rfl
  · split
    · rfl
    · cases history with
      | none => rfl
      | some entries =>
          cases hentry : entries.get delegation.deactivationEpoch with
          | none => simp [hentry]
          | some entry => simp [hentry]

variable {share delegation history fixStakeDeactivate epoch}

theorem leftAt_le {effective : UInt64} :
    delegation.leftAt share history epoch effective ≤ effective := by
  unfold leftAt
  cases history with
  | none => exact UInt64.zero_le
  | some entries =>
      rw [Option.bind_some]
      cases entries.get delegation.deactivationEpoch with
      | none => exact UInt64.zero_le
      | some entry => exact coolDown_le share entries _

theorem leftAt_antitone {epoch' effective : UInt64} (hle : epoch ≤ epoch') :
    delegation.leftAt share history epoch' effective ≤
      delegation.leftAt share history epoch effective := by
  have hnat := UInt64.le_iff_toNat_le.mp hle
  unfold leftAt
  cases history with
  | none => exact UInt64.le_refl _
  | some entries =>
      rw [Option.bind_some, Option.bind_some]
      cases entries.get delegation.deactivationEpoch with
      | none => exact UInt64.le_refl _
      | some entry => exact coolDown_antitone share entries _ (by omega)

/-- From the deactivation on, what had become effective does not depend on the epoch. -/
theorem stakeAndActivating_settled {epoch' : UInt64}
    (hactivation : delegation.isBootstrap = true ∨
      delegation.activationEpoch ≤ delegation.deactivationEpoch)
    (hfix : fixStakeDeactivate = true ∨
      delegation.activationEpoch ≠ delegation.deactivationEpoch)
    (hepoch : delegation.deactivationEpoch ≤ epoch) (hle : epoch ≤ epoch') :
    (delegation.stakeAndActivating share epoch' history fixStakeDeactivate).1 =
      (delegation.stakeAndActivating share epoch history fixStakeDeactivate).1 := by
  unfold stakeAndActivating
  split
  · rfl
  · next hbootstrap =>
      split
      · rfl
      · next hinstant =>
          have hne : delegation.activationEpoch ≠ delegation.deactivationEpoch := by
            intro heq
            rcases hfix with hfix | hfix
            · exact hinstant ⟨hfix, heq⟩
            · exact hfix heq
          have hlt : delegation.activationEpoch < delegation.deactivationEpoch :=
            UInt64.lt_of_le_of_ne (hactivation.resolve_left hbootstrap) hne
          have hlt' := UInt64.lt_iff_toNat_lt.mp hlt
          have hepoch' := UInt64.le_iff_toNat_le.mp hepoch
          have hle' := UInt64.le_iff_toNat_le.mp hle
          have hafter : ∀ t, delegation.deactivationEpoch ≤ t →
              t ≠ delegation.activationEpoch ∧ ¬t < delegation.activationEpoch := by
            intro t ht
            have hlater := UInt64.lt_of_lt_of_le hlt ht
            exact ⟨(UInt64.ne_of_lt hlater).symm, UInt64.not_lt.mpr (UInt64.le_of_lt hlater)⟩
          obtain ⟨hne₁, hnot₁⟩ := hafter epoch hepoch
          obtain ⟨hne₂, hnot₂⟩ := hafter epoch' (UInt64.le_trans hepoch hle)
          rw [if_neg hne₁, if_neg hnot₁, if_neg hne₂, if_neg hnot₂]
          split
          · exact delegation.warmUp_settled share _ _ hlt (by omega) (by omega)
          · rfl

/-- What cools down does not warm up again. -/
theorem effectiveAt_antitone {epoch' : UInt64}
    (hactivation : delegation.isBootstrap = true ∨
      delegation.activationEpoch ≤ delegation.deactivationEpoch)
    (hfix : fixStakeDeactivate = true ∨
      delegation.activationEpoch ≠ delegation.deactivationEpoch)
    (hepoch : delegation.deactivationEpoch ≤ epoch) (hle : epoch ≤ epoch') :
    delegation.effectiveAt share history fixStakeDeactivate epoch' ≤
      delegation.effectiveAt share history fixStakeDeactivate epoch := by
  have hbase : (delegation.stakeAndActivating share epoch' history fixStakeDeactivate).1 =
      (delegation.stakeAndActivating share epoch history fixStakeDeactivate).1 :=
    stakeAndActivating_settled hactivation hfix hepoch hle
  have hepoch' := UInt64.le_trans hepoch hle
  unfold effectiveAt
  rw [stakeActivatingAndDeactivating_eq, stakeActivatingAndDeactivating_eq]
  simp only [UInt64.not_lt.mpr hepoch, UInt64.not_lt.mpr hepoch', if_false, hbase]
  by_cases hat : epoch = delegation.deactivationEpoch
  · rw [if_pos hat]
    split
    · exact UInt64.le_refl _
    · exact leftAt_le
  · have hat' : epoch' ≠ delegation.deactivationEpoch := by
      intro heq
      exact hat (UInt64.le_antisymm (heq ▸ hle) hepoch)
    rw [if_neg hat, if_neg hat']
    exact leftAt_antitone hle

theorem deactivatingAt_before (h : epoch < delegation.deactivationEpoch) :
    delegation.deactivatingAt share history fixStakeDeactivate epoch = 0 := by
  unfold deactivatingAt
  rw [stakeActivatingAndDeactivating_eq]
  simp only [if_pos h]

theorem parts_after (h : delegation.deactivationEpoch ≤ epoch) :
    delegation.activatingAt share history fixStakeDeactivate epoch = 0 ∧
      delegation.deactivatingAt share history fixStakeDeactivate epoch =
        delegation.effectiveAt share history fixStakeDeactivate epoch := by
  unfold effectiveAt activatingAt deactivatingAt
  rw [stakeActivatingAndDeactivating_eq]
  simp only [if_neg (UInt64.not_lt.mpr h)]
  split
  · exact ⟨rfl, rfl⟩
  · exact ⟨rfl, rfl⟩

theorem effectiveAt_add_activatingAt_le :
    (delegation.effectiveAt share history fixStakeDeactivate epoch).toNat +
        (delegation.activatingAt share history fixStakeDeactivate epoch).toNat ≤
      delegation.stake.toNat := by
  have hparts := delegation.stakeAndActivating_le share history fixStakeDeactivate epoch
  simp only at hparts
  unfold effectiveAt activatingAt
  rw [stakeActivatingAndDeactivating_eq]
  simp only
  split
  · exact hparts
  · split
    · exact Nat.le_trans (Nat.add_le_add_left (Nat.zero_le _) _) hparts
    · have hleft : (delegation.leftAt share history epoch
          (delegation.stakeAndActivating share epoch history fixStakeDeactivate).1).toNat ≤
          (delegation.stakeAndActivating share epoch history fixStakeDeactivate).1.toNat :=
        UInt64.le_iff_toNat_le.mp leftAt_le
      exact Nat.le_trans (Nat.add_le_add hleft (Nat.zero_le _)) hparts

end Parts

end Delegation

/-- The effective and the activating part are never more than the delegation, and what is
effective from the deactivation on is deactivating.  Unless it was deactivated in the epoch of
its activation under the old rule, it then only shrinks, and once nothing is left it stays so. -/
theorem deactivation_is_final (share : Delegation.Share) (delegation : Delegation)
    (history : Option StakeHistory) (fix : Bool) :
    (∀ epoch,
      (delegation.effectiveAt share history fix epoch).toNat +
          (delegation.activatingAt share history fix epoch).toNat ≤ delegation.stake.toNat ∧
        (epoch < delegation.deactivationEpoch →
          delegation.deactivatingAt share history fix epoch = 0) ∧
        (delegation.deactivationEpoch ≤ epoch →
          delegation.activatingAt share history fix epoch = 0 ∧
            delegation.deactivatingAt share history fix epoch =
              delegation.effectiveAt share history fix epoch)) ∧
    ((delegation.isBootstrap = true ∨
        delegation.activationEpoch ≤ delegation.deactivationEpoch) →
      (fix = true ∨ delegation.activationEpoch ≠ delegation.deactivationEpoch) →
      ∀ epoch epoch', delegation.deactivationEpoch ≤ epoch → epoch ≤ epoch' →
        delegation.effectiveAt share history fix epoch' ≤
            delegation.effectiveAt share history fix epoch ∧
          (delegation.stakeActivatingAndDeactivating share epoch history fix = (0, 0, 0) →
            delegation.stakeActivatingAndDeactivating share epoch' history fix = (0, 0, 0))) := by
  refine ⟨fun epoch => ⟨Delegation.effectiveAt_add_activatingAt_le,
    Delegation.deactivatingAt_before, Delegation.parts_after⟩, ?_⟩
  intro hactivation hfix epoch epoch' hepoch hle
  have hshrinks : delegation.effectiveAt share history fix epoch' ≤
      delegation.effectiveAt share history fix epoch :=
    Delegation.effectiveAt_antitone hactivation hfix hepoch hle
  refine ⟨hshrinks, fun hnothing => ?_⟩
  have hzero : delegation.effectiveAt share history fix epoch' = 0 := by
    have hnow : delegation.effectiveAt share history fix epoch = 0 := congrArg Prod.fst hnothing
    rw [hnow] at hshrinks
    exact UInt64.le_zero_iff.mp hshrinks
  have hafter : delegation.activatingAt share history fix epoch' = 0 ∧
      delegation.deactivatingAt share history fix epoch' =
        delegation.effectiveAt share history fix epoch' :=
    Delegation.parts_after (UInt64.le_trans hepoch hle)
  exact Prod.ext hzero (Prod.ext hafter.1 (hafter.2.trans hzero))

/-- Half of a part in every epoch. -/
def halfShare : Delegation.Share := fun part _ _ => part / 2

def someHistory : StakeHistory :=
  ⟨[(2, ⟨1000, 100, 0⟩), (3, ⟨1000, 100, 0⟩), (4, ⟨1000, 0, 100⟩), (5, ⟨1000, 0, 100⟩)]⟩

def coolingDelegation : Delegation where
  voterPubkey := ⟨3001⟩
  stake := 100
  activationEpoch := 2
  deactivationEpoch := 4

theorem deactivation_is_final_cooling :
    coolingDelegation.effectiveAt halfShare (some someHistory) false 5 = 38 ∧
      coolingDelegation.effectiveAt halfShare (some someHistory) false 6 ≤ 38 := by
  have hfive : coolingDelegation.effectiveAt halfShare (some someHistory) false 5 = 38 := by
    decide
  obtain ⟨-, hfinal⟩ := deactivation_is_final halfShare coolingDelegation (some someHistory) false
  obtain ⟨hshrinks, -⟩ := hfinal (.inr (by decide)) (.inr (by decide)) 5 6 (by decide) (by decide)
  rw [hfive] at hshrinks
  exact ⟨hfive, hshrinks⟩

-- Under the old rule, a delegation that was deactivated at once has nothing effective in that
-- epoch, but something in the next one.
example : ∃ delegation : Delegation, delegation.activationEpoch = delegation.deactivationEpoch ∧
    delegation.effectiveAt (fun _ total _ => 100 / total)
      (some ⟨[(4, ⟨1000, 1, 50⟩)]⟩) false 4 = 0 ∧
    delegation.effectiveAt (fun _ total _ => 100 / total)
      (some ⟨[(4, ⟨1000, 1, 50⟩)]⟩) false 5 = 98 :=
  ⟨{ coolingDelegation with activationEpoch := 4 }, by decide⟩

end Tenderize
