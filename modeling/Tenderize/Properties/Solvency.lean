import Tenderize.Properties.Accounting
import Tenderize.Properties.Holdings
import Tenderize.Reference.Openings
import Tenderize.Support.FloorShare

/-!
# Solvency

The lamports behind the pool are those of the reserve and of the stake accounts that the
records count.  `stake_total` never claims more, as long as no `stake_count` runs past the
largest index: a count that wraps to zero lets `RemoveValidator` drop a validator that
still holds stake.
-/

namespace Tenderize

open Support

variable {D : Deployment} {W : Set Pubkey} {c : Chain} {s s' : PoolState} {op : PoolOp}
  {fits : Prop}

namespace Deployment

/-! ## Counted lamports -/

variable (D) in
/-- Lamports in the stake accounts that a record counts. -/
def countedBy (stakes : Pubkey → Nat) (r : ValidatorStakeInfo) : Nat :=
  D.held stakes r.validatorAccount r.stakeCount.toNat

variable (D) in
/-- The reserve and all counted stake accounts. -/
def backing (reserve : UInt64) (stakes : Pubkey → Nat) (V : List ValidatorStakeInfo) : Nat :=
  reserve.toNat + (V.map (D.countedBy stakes)).sum

variable (D) in
/-- The counted stake accounts hold the recorded balance. -/
def BalanceCounted (stakes : Pubkey → Nat) (r : ValidatorStakeInfo) : Prop :=
  r.balance.toNat ≤ D.countedBy stakes r

theorem backing_congr_places {reserve : UInt64} {stakes : Pubkey → Nat}
    {V V' : List ValidatorStakeInfo}
    (h : V'.map ValidatorStakeInfo.place = V.map ValidatorStakeInfo.place) :
    D.backing reserve stakes V' = D.backing reserve stakes V := by
  have hcounted : ∀ V : List ValidatorStakeInfo, V.map (D.countedBy stakes) =
      (V.map ValidatorStakeInfo.place).map (fun p => D.held stakes p.1 p.2.toNat) := by
    intro V
    rw [List.map_map]
    rfl
  unfold backing
  rw [hcounted V', hcounted V, h]

theorem backing_le_of_grows (reserve reserve' : UInt64) {stakes stakes' : Pubkey → Nat}
    {V : List ValidatorStakeInfo}
    (h : ∀ v i, stakes (D.stakeKey v i) ≤ stakes' (D.stakeKey v i)) :
    D.backing reserve stakes V + reserve'.toNat ≤
      D.backing reserve' stakes' V + reserve.toNat := by
  have hsum : (V.map (D.countedBy stakes)).sum ≤ (V.map (D.countedBy stakes')).sum :=
    List.sum_le_sum fun r _ => held_le_held (h r.validatorAccount)
  unfold backing
  omega

/-- A move keeps what is behind the pool. -/
theorem Moved.backing_le {v : Pubkey} {r r' : ValidatorStakeInfo} {b b' : Books}
    (h : D.Moved W v r r' b b') (hcounted : D.Counted v r r' b b')
    (hV : Listed W b.validators) :
    D.backing b.reserve b.stakes b.validators ≤ D.backing b'.reserve b'.stakes b'.validators := by
  have hname : r.validatorAccount = v := lookup_key h.found
  have hothers : ∀ x ∈ b.validators, x.validatorAccount ≠ v →
      D.countedBy b'.stakes x = D.countedBy b.stakes x := by
    intro x hx hne
    exact held_congr (index_le _) fun i _ => h.others _ (hV.names x hx) hne i
  have hsum := sum_updateFirst_of_others hV.nodup h.found hothers r'
  have htotal := hcounted.total
  unfold backing
  rw [h.validators, putRecord, h.name]
  simp only [countedBy, hname, h.name] at hsum
  omega

theorem moveRun_backing_le {b b' : Books} (h : Relation.ReflTransGen (D.MoveStep W fits) b b')
    (hfits : fits) (hV : Listed W b.validators) :
    D.backing b.reserve b.stakes b.validators ≤ D.backing b'.reserve b'.stakes b'.validators := by
  induction h with
  | refl => exact le_rfl
  | tail hrun hstep ih =>
      obtain ⟨v, r, r', hmoved, hcounted⟩ := hstep
      exact le_trans ih (hmoved.backing_le (hcounted hfits) (moveRun_listed hrun hV))

theorem Restaked.backing_le (h : D.Restaked W fits s s') (hfits : fits)
    (hV : Listed W s.list.validators) :
    D.backing s.reserve s.stakes s.list.validators ≤
      D.backing s'.reserve s'.stakes s'.list.validators := by
  obtain ⟨b, hrun, hplaces, hreserve, hstakes⟩ := h.moves
  rw [backing_congr_places hplaces, hreserve, hstakes]
  exact moveRun_backing_le hrun hfits hV

theorem balanceCounted_rule (hfits : fits) : D.RecordRule W fits D.BalanceCounted where
  mono σ σ' r hle h := le_trans h (held_le_held hle)
  new σ v epoch := Nat.zero_le _
  move v r r' b b' hmoved hcounted h := by
    have hname : r.validatorAccount = v := lookup_key hmoved.found
    unfold BalanceCounted countedBy at h ⊢
    rw [hmoved.name]
    rw [hname] at h
    exact (hcounted hfits).balance h
  stored v r r' b b' r₀ hunwritten hsame hplace h := by
    have hname : r₀.validatorAccount = v := congrArg Prod.fst hplace
    have hcount : r₀.stakeCount = r.stakeCount := congrArg Prod.snd hplace
    unfold BalanceCounted countedBy at h ⊢
    rw [hname, hcount] at h ⊢
    exact le_trans h (hunwritten.grows hsame)

/-! ## The invariant -/

variable (D W) in
/-- Every record and `stake_total` claim no more than the counted accounts hold. -/
structure Solvent (s : PoolState) : Prop where
  listed : Listed W s.list.validators
  accounted : s.Accounted
  balance : ∀ r ∈ s.list.validators, D.BalanceCounted s.stakes r
  total : s.pool.stakeTotal.toNat ≤ D.backing s.reserve s.stakes s.list.validators

theorem recordedTotal_le_backing (h : ∀ r ∈ s.list.validators, D.BalanceCounted s.stakes r) :
    s.recordedTotal ≤ D.backing s.reserve s.stakes s.list.validators := by
  have hsum : (s.list.validators.map (fun r => r.balance.toNat)).sum ≤
      (s.list.validators.map (D.countedBy s.stakes)).sum := List.sum_le_sum h
  unfold PoolState.recordedTotal backing
  omega

theorem backing_le_heldAll {reserve : UInt64} {stakes : Pubkey → Nat}
    {V : List ValidatorStakeInfo} :
    D.backing reserve stakes V ≤
      reserve.toNat + (V.map (fun r => D.heldAll stakes r.validatorAccount)).sum := by
  have hsum : (V.map (D.countedBy stakes)).sum ≤
      (V.map (fun r => D.heldAll stakes r.validatorAccount)).sum :=
    List.sum_le_sum fun r _ => D.held_mono _ _ (index_le _)
  unfold backing
  omega

end Deployment

open Deployment

/-- The step is not a payout of the credit queue. -/
def PoolOp.PaysNoCreditors (op : PoolOp) : Prop :=
  ∀ eligible, op ≠ .payCreditors eligible

/-- A withdrawal of pool tokens takes no more than `stake_total`. -/
theorem PoolState.Withdrawn.amount_le {n stakeAmount : UInt64} {burnFrom mint : Pubkey}
    {mint' : Mint}
    {credit' : TokenAccount} {reserve' : UInt64} {stakes' : Pubkey → Nat}
    (h : s.Withdrawn n stakeAmount burnFrom mint mint' credit' reserve' stakes')
    (hown : mint = s.pool.poolMint) (haccounted : s.Accounted) :
    stakeAmount ≤ s.pool.stakeTotal := by
  obtain ⟨hle, -⟩ := h.burned.own hown
  rw [← haccounted, UInt64.le_iff_toNat_le] at hle
  obtain ⟨-, hamount⟩ := calcLamportsAmount_eq_some.mp h.price
  rw [UInt64.le_iff_toNat_le, hamount]
  exact redeem_le hle

theorem PoolStep.total_le_backing (hW : D.NoCollision W) (hstep : PoolStep D s op s')
    (hown : s.TradesOwnMint op) (hadds : op.AddsIn W) (hfits : op.Fits)
    (hpays : op.PaysNoCreditors) (hs : D.Solvent W s) :
    s'.pool.stakeTotal.toNat ≤ D.backing s'.reserve s'.stakes s'.list.validators := by
  have htotal := hs.total
  cases hstep with
  | addValidator v epoch hnew =>
      refine le_trans htotal ?_
      simp [backing]
  | removeValidator v validators hremove =>
      obtain ⟨r, before, after, hsplit, hcount, rfl⟩ := removeRecord_ok hremove
      refine le_trans htotal ?_
      -- The dropped record counts no stake account.
      have hnone : D.countedBy s.stakes r = 0 := by
        unfold countedBy
        rw [hcount]
        rfl
      simp [backing, hsplit, hnone]
  | updateList epoch names b hrun =>
      exact le_trans htotal ((restaked_updateList hW hs.listed hrun).backing_le trivial hs.listed)
  | delegateReserve instructions b hrun =>
      exact le_trans htotal
        ((restaked_delegateReserve hW hs.listed hrun).backing_le hfits hs.listed)
  | mergeStakes instructions b hrun =>
      exact le_trans htotal ((restaked_mergeStakes hW hs.listed hrun).backing_le trivial hs.listed)
  | unstake instructions b hrun =>
      exact le_trans htotal ((restaked_unstake hW hs.listed hrun).backing_le hfits hs.listed)
  | updatePool clock totalBalance hsum =>
      have hrecorded := recordedTotal_le_backing hs.balance
      show totalBalance.toNat ≤ _
      rw [addBalances_ok hsum, UInt64.toNat_ofNat']
      exact le_trans (Nat.mod_le _ _) hrecorded
  | deposit amount poolAmount mint mint' credit' reserve' hd =>
      have hadd := toNat_add_le s.pool.stakeTotal amount
      have hreserve := hd.reserve
      show (s.pool.stakeTotal + amount).toNat ≤ D.backing reserve' s.stakes s.list.validators
      unfold backing at htotal ⊢
      omega
  | withdraw n stakeAmount burnFrom mint mint' credit' reserve' stakes' hw =>
      have hle := hw.amount_le (hown mint rfl) hs.accounted
      have hsub := UInt64.toNat_sub_of_le _ _ hle
      have hle' := UInt64.le_iff_toNat_le.mp hle
      have hreserve := hw.reserve
      have hgrows := backing_le_of_grows (D := D) s.reserve reserve'
        (V := s.list.validators) fun v i => hw.stakes_le (D.stakeKey v i)
      show (s.pool.stakeTotal - stakeAmount).toNat ≤ D.backing reserve' stakes' s.list.validators
      omega
  | payCreditors eligible => exact absurd rfl (hpays eligible)
  | outside quiet credit' reserve' stakes' hout =>
      have hreserve := UInt64.le_iff_toNat_le.mp hout.reserve_le
      have hgrows := backing_le_of_grows (D := D) s.reserve reserve'
        (V := s.list.validators) hout.stakes_le
      show s.pool.stakeTotal.toNat ≤ D.backing reserve' stakes' s.list.validators
      omega
  | _ => exact htotal

variable (W) in
/-- Steps that keep the pool solvent. -/
structure PoolState.Safe (s : PoolState) (op : PoolOp) : Prop where
  own : s.TradesOwnMint op
  adds : op.AddsIn W
  fits : op.Fits
  pays : op.PaysNoCreditors

theorem PoolStep.solvent (hW : D.NoCollision W) (hstep : PoolStep D s op s')
    (hsafe : s.Safe W op) (hs : D.Solvent W s) : D.Solvent W s' := by
  have heffect := ListEffect.of_step hW hs.listed hsafe.adds hstep
  exact
    { listed := heffect.listed hs.listed
      accounted := hstep.accounted hsafe.own hs.accounted
      balance := heffect.records hs.listed (balanceCounted_rule hsafe.fits) hs.balance
      total := hstep.total_le_backing hW hsafe.own hsafe.adds hsafe.fits hsafe.pays hs }

theorem solvent_invariant (hW : D.NoCollision W) :
    (D.poolSystem.restrict (PoolState.Safe W)).Invariant (D.Solvent W) where
  init s hs := by
    refine ⟨?_, ?_, ?_, ?_⟩
    · rw [hs.validators]
      exact ⟨List.nodup_nil, fun r hr => nomatch hr⟩
    · unfold PoolState.Accounted
      rw [hs.poolTotal, hs.supply]
    · rw [hs.validators]
      exact fun r hr => nomatch hr
    · rw [hs.stakeTotal]
      exact Nat.zero_le _
  step s op s' hs hstep := hstep.1.solvent hW hstep.2 hs

/-! ## Runs -/

/-- The event is not a payout of the credit queue. -/
def Event.PaysNoCreditors : Event → Prop
  | .instruction .payCreditors _ => False
  | _ => True

instance (e : Event) : Decidable e.PaysNoCreditors :=
  match e with
  | .instruction i _ =>
      match i with
      | .payCreditors => instDecidableFalse
      | .initializePool _ | .addValidator | .removeValidator | .updateListBalance
      | .updatePoolBalance | .deposit _ | .withdraw _ | .setStakingAuthority | .setOwner
      | .credit _ | .uncredit _ | .delegateReserve _ | .mergeStakes _ | .unstake _ =>
          instDecidableTrue
  | .outside => instDecidableTrue

variable (D W) in
/-- Trades name the pool's mint, validators come from `W`, no sub-instruction names the
largest stake index, and no creditors are paid. -/
structure Deployment.SafeEvent (c : Chain) (e : Event) : Prop where
  own : D.OwnMint c e
  adds : e.AddsIn W
  fits : e.Fits
  pays : e.PaysNoCreditors

theorem Deployment.safeEvent_iff {e : Event} :
    D.SafeEvent W c e ↔ D.OwnMint c e ∧ e.AddsIn W ∧ e.Fits ∧ e.PaysNoCreditors :=
  ⟨fun h => ⟨h.own, h.adds, h.fits, h.pays⟩, fun ⟨hown, hadds, hfits, hpays⟩ =>
    ⟨hown, hadds, hfits, hpays⟩⟩

instance [DecidablePred (· ∈ W)] (e : Event) : Decidable (D.SafeEvent W c e) :=
  decidable_of_iff _ Deployment.safeEvent_iff.symm

theorem Deployment.SafeEvent.step {quiet : Prop} {e : Event} (h : D.Represents c.ledger s)
    (hmatch : Matches quiet c e s op) (hsafe : D.SafeEvent W c e) : s.Safe W op where
  own := hsafe.own.trades h hmatch
  adds := hmatch.addsIn hsafe.adds
  fits := hmatch.fits hsafe.fits
  pays := by
    rintro eligible rfl
    cases hmatch
    exact hsafe.pays

theorem reachable_solvent (hW : D.NoCollision W)
    (h : ((D.system D.Outside).restrict (D.SafeEvent W)).Reachable c) :
    D.Represents c.ledger (D.stateOf c.ledger) ∧ D.Solvent W (D.stateOf c.ledger) :=
  reachable_invariant False (PoolState.Safe W) (D.Solvent W) (fun _ _ hout => hout) False.elim
    (fun _ _ _ _ hs hmatch hguard => hguard.step hs hmatch) (solvent_invariant hW) h

/-- In safe runs every record is held by the stake accounts of its validator, and
`stake_total` by the reserve and the stake accounts of the listed validators. -/
theorem stakeTotal_le_held (hW : D.NoCollision W)
    (h : ((D.system D.Outside).restrict (D.SafeEvent W)).Reachable c) :
    (∀ r ∈ (D.stateOf c.ledger).list.validators,
        r.balance.toNat ≤ D.heldAll (D.stateOf c.ledger).stakes r.validatorAccount) ∧
      (D.stateOf c.ledger).pool.stakeTotal.toNat ≤ (D.stateOf c.ledger).reserve.toNat +
        ((D.stateOf c.ledger).list.validators.map (fun r =>
          D.heldAll (D.stateOf c.ledger).stakes r.validatorAccount)).sum := by
  obtain ⟨-, hsolvent⟩ := reachable_solvent hW h
  constructor
  · intro r hr
    exact le_trans (hsolvent.balance r hr) (D.held_mono _ _ (index_le _))
  · exact le_trans hsolvent.total backing_le_heldAll

section

open Reference

def stakeTotals (c : Chain) : UInt64 × UInt64 × List (Pubkey × UInt64 × UInt32) :=
  ((deployment.stateOf c.ledger).pool.stakeTotal, (deployment.stateOf c.ledger).reserve,
    (deployment.stateOf c.ledger).list.validators.map
      (fun r => (r.validatorAccount, r.balance, r.stakeCount)))

/-- A deposit, two delegations and an update. -/
def solventRun : List Action :=
  [deposit 1000000000 userTokensKey mintKey, addValidator validatorKey,
    delegate [⟨100000000, 0⟩, ⟨200000000, 1⟩], updatePool]

theorem stakeTotal_le_held_solventRun :
    ∃ c, execute (fun c e => decide (deployment.SafeEvent {validatorKey} c e)) solventRun =
        .ok c ∧
      stakeTotals c = (1000000000, 700000000, [(validatorKey, 300000000, 2)]) ∧
      (deployment.stateOf c.ledger).pool.stakeTotal.toNat ≤
        (deployment.stateOf c.ledger).reserve.toNat +
          ((deployment.stateOf c.ledger).list.validators.map (fun r =>
            deployment.heldAll (deployment.stateOf c.ledger).stakes r.validatorAccount)).sum := by
  have hrun : (execute (fun c e => decide (deployment.SafeEvent {validatorKey} c e))
      solventRun).map stakeTotals =
        .ok (1000000000, 700000000, [(validatorKey, 300000000, 2)]) := by
    decide +kernel
  obtain ⟨c, hc, htotals⟩ := map_eq_ok.mp hrun
  refine ⟨c, hc, htotals,
    (stakeTotal_le_held (noCollision validatorKey) (execute_reachable ?_ hc)).2⟩
  intro c e hallowed
  exact of_decide_eq_true hallowed

/-- The runs in question, with sub-instructions of any index. -/
def solvencyEvent (c : Chain) (e : Event) : Prop :=
  deployment.OwnMint c e ∧ e.AddsIn {validatorKey} ∧ e.PaysNoCreditors

instance (c : Chain) (e : Event) : Decidable (solvencyEvent c e) := by
  unfold solvencyEvent
  infer_instance

theorem solvencyEvent_opening (c : Chain) (n : Nat) :
    solvencyEvent c (.instruction (.delegateReserve [opening n])
      (delegateAccounts [UInt32.ofNat n])) :=
  ⟨List.mem_cons_self, nofun, trivial⟩

/-- The stake accounts of a validator whose `stake_count` wrapped to zero are dropped. -/
theorem removeValidator_drops_stakes :
    ∃ c, ((deployment.system deployment.Outside).restrict solvencyEvent).Reachable c ∧
      ¬(deployment.stateOf c.ledger).pool.stakeTotal.toNat ≤
        (deployment.stateOf c.ledger).reserve.toNat +
          ((deployment.stateOf c.ledger).list.validators.map (fun r =>
            deployment.heldAll (deployment.stateOf c.ledger).stakes r.validatorAccount)).sum := by
  have hrun : (execute (fun c e => decide (solvencyEvent c e))
      [.pay userKey reserveKey 500000000000000000, addValidator validatorKey, updatePool]).map
        (fun c => preparedAccounts c.ledger) =
      .ok ((programId, .stakePool StakePool.LEN (preparedPool 500000000000000000)),
        (programId, .validatorStakeList ValidatorStakeList.LEN ⟨1, [⟨validatorKey, 0, 0, 0⟩]⟩),
        wallet 500000000000000000) := by
    decide +kernel
  obtain ⟨c, hc, haccounts⟩ := map_eq_ok.mp hrun
  have hprepared := prepared_opened (by
    rintro action (_ | ⟨_, _ | ⟨_, _ | ⟨_, ⟨⟩⟩⟩⟩)
    exacts [.pay _, .addValidator, .updatePool]) hc haccounts
  have hreach : ((deployment.system deployment.Outside).restrict solvencyEvent).Reachable
      (on c.ledger) := by
    rw [← execute_on hc]
    exact execute_reachable (fun _ _ h => of_decide_eq_true h) hc
  obtain ⟨L, hL, hopened⟩ := opened_reachable solvencyEvent solvencyEvent_opening
    (wired_preparedPool _) hreach hprepared (by decide) (2 ^ 32) le_rfl
  let L' := L.setData listKey (.validatorStakeList ValidatorStakeList.LEN ⟨1, []⟩)
  have hstep : deployment.Step deployment.Outside (on L)
      (.instruction .removeValidator (validatorAccounts validatorKey)) (on L') :=
    ⟨addressed_spec (by decide), L', hopened.remove, rfl⟩
  have hpool : (L' poolKey).data = _ :=
    (congrArg Account.data (L.setData_of_ne _ (by decide))).trans hopened.pool_data
  refine ⟨on L', .step (e := .instruction _ _) hL
    ⟨hstep, List.mem_cons_self, nofun, trivial⟩, ?_⟩
  have hstate := stateOf_pool hpool
  have hlist := stateOf_list hpool rfl (L.setData_data_same listKey _)
  have hreserve := hopened.reserve
  change ¬(deployment.stateOf L').pool.stakeTotal.toNat ≤
    (L' reserveKey).lamports.toNat + ((deployment.stateOf L').list.validators.map _).sum
  rw [hstate, hlist, L.setData_lamports]
  change ¬500000000000000000 ≤ (L reserveKey).lamports.toNat + 0
  change _ + 429496729600000000 = 500000000000000000 at hreserve
  omega

end

end Tenderize
