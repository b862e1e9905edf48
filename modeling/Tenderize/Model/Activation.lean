import Tenderize.Model.Processor.Credits

/-!
# Activation of a delegation

`stake_activating_and_deactivating` from `stake.rs`: how much of a delegation is effective,
activating and deactivating in an epoch.  The stake warms up and cools down along the stake
history; the share of one epoch is computed in floating point, which is left open here.
-/

namespace Tenderize

/-- The totals of the cluster in one epoch. -/
structure StakeHistoryEntry where
  effective : UInt64
  activating : UInt64
  deactivating : UInt64
deriving DecidableEq

/-- The `StakeHistory` sysvar: one entry for each of the last epochs. -/
structure StakeHistory where
  entries : List (UInt64 × StakeHistoryEntry)

def StakeHistory.get (history : StakeHistory) (epoch : UInt64) : Option StakeHistoryEntry :=
  history.entries.lookup epoch

namespace Delegation

/-- `(part as f64 / total as f64 * (effective as f64 * warmup_cooldown_rate)) as u64`, the
part of `part` that changes in an epoch. -/
abbrev Share := (part total effective : UInt64) → UInt64

variable (share : Share) (delegation : Delegation)

def isBootstrap : Bool := delegation.activationEpoch = 18446744073709551615

/-- The loop from the activation epoch on.  There are `remaining` epochs between
`prevEpoch + 1` and the target epoch. -/
def warmUp (history : StakeHistory) :
    (remaining : Nat) → (prevEpoch : UInt64) → (prevClusterStake : StakeHistoryEntry) →
      (currentEffectiveStake : UInt64) → UInt64
  | remaining, prevEpoch, prevClusterStake, currentEffectiveStake =>
      let currentEpoch := prevEpoch + 1
      if prevClusterStake.activating = 0 then currentEffectiveStake
      else
        let newlyEffectiveStake :=
          max (share (delegation.stake - currentEffectiveStake) prevClusterStake.activating
            prevClusterStake.effective) 1
        let currentEffectiveStake := currentEffectiveStake + newlyEffectiveStake
        if currentEffectiveStake ≥ delegation.stake then delegation.stake
        else
          match remaining with
          | 0 => currentEffectiveStake
          | remaining + 1 =>
              if currentEpoch ≥ delegation.deactivationEpoch then currentEffectiveStake
              else
                match history.get currentEpoch with
                | some currentClusterStake =>
                    warmUp history remaining currentEpoch currentClusterStake
                      currentEffectiveStake
                | none => currentEffectiveStake

/-- The pair of effective and activating stake. -/
def stakeAndActivating (targetEpoch : UInt64) (history : Option StakeHistory)
    (fixStakeDeactivate : Bool) : UInt64 × UInt64 :=
  if delegation.isBootstrap then (delegation.stake, 0)
  else if fixStakeDeactivate ∧ delegation.activationEpoch = delegation.deactivationEpoch then
    (0, 0)
  else if targetEpoch = delegation.activationEpoch then (0, delegation.stake)
  else if targetEpoch < delegation.activationEpoch then (0, 0)
  else
    match history.bind (fun history =>
      (history.get delegation.activationEpoch).map (fun entry => (history, entry))) with
    | some (history, entry) =>
        let currentEffectiveStake := warmUp share delegation history
          (targetEpoch.toNat - delegation.activationEpoch.toNat - 1) delegation.activationEpoch
          entry 0
        (currentEffectiveStake, delegation.stake - currentEffectiveStake)
    | none => (delegation.stake, 0)

/-- The loop from the deactivation epoch on. -/
def coolDown (history : StakeHistory) :
    (remaining : Nat) → (prevEpoch : UInt64) → (prevClusterStake : StakeHistoryEntry) →
      (currentEffectiveStake : UInt64) → UInt64
  | remaining, prevEpoch, prevClusterStake, currentEffectiveStake =>
      let currentEpoch := prevEpoch + 1
      if prevClusterStake.deactivating = 0 then currentEffectiveStake
      else
        let newlyNotEffectiveStake :=
          max (share currentEffectiveStake prevClusterStake.deactivating
            prevClusterStake.effective) 1
        let currentEffectiveStake := saturatingSub currentEffectiveStake newlyNotEffectiveStake
        if currentEffectiveStake = 0 then 0
        else
          match remaining with
          | 0 => currentEffectiveStake
          | remaining + 1 =>
              match history.get currentEpoch with
              | some currentClusterStake =>
                  coolDown history remaining currentEpoch currentClusterStake
                    currentEffectiveStake
              | none => currentEffectiveStake

/-- The triple of effective, activating and deactivating stake. -/
def stakeActivatingAndDeactivating (targetEpoch : UInt64) (history : Option StakeHistory)
    (fixStakeDeactivate : Bool) : UInt64 × UInt64 × UInt64 :=
  let (effectiveStake, activatingStake) :=
    stakeAndActivating share delegation targetEpoch history fixStakeDeactivate
  if targetEpoch < delegation.deactivationEpoch then (effectiveStake, activatingStake, 0)
  else if targetEpoch = delegation.deactivationEpoch then
    (effectiveStake, 0, min effectiveStake delegation.stake)
  else
    match history.bind (fun history =>
      (history.get delegation.deactivationEpoch).map (fun entry => (history, entry))) with
    | some (history, entry) =>
        let currentEffectiveStake := coolDown share history
          (targetEpoch.toNat - delegation.deactivationEpoch.toNat - 1)
          delegation.deactivationEpoch entry effectiveStake
        (currentEffectiveStake, 0, currentEffectiveStake)
    | none => (0, 0, 0)

end Delegation

end Tenderize
