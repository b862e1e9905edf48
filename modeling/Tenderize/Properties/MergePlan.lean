import Tenderize.Properties.ReservePlan
import Tenderize.Properties.StakeBooks
import Tenderize.Properties.Records
import Tenderize.Model.Storage

/-!
# The plan for merges

`mergeAllStakes` of the admin client plans all merges from one look at the chain, and sends
them four at a time.  Every merge may lower a `stake_count`, so what is left of the plan has
to fit the counts at that time: the accounts that are merged away are named from the last to
the first.
-/

namespace Tenderize

open Support Deployment

variable {D : Deployment} {W : Set Pubkey} {c c' : Chain} {s : PoolState}

/-! ## A plan and the counts it meets -/

/-- The index checks of `process_merge_stakes` for a sub-instruction. -/
def MergeStakesInstruction.IndicesFit (V : List ValidatorStakeInfo)
    (instruction : MergeStakesInstruction) : Prop :=
  ∃ record, lookup ValidatorStakeInfo.validatorAccount instruction.validatorAddress V =
      some record ∧
    ¬(instruction.mainIndex ≥ record.stakeCount ∨
      instruction.additionalIndex ≥ record.stakeCount ∨
      instruction.mainIndex ≥ instruction.additionalIndex)

/-- Every merge fits the counts now, and no later one of the validator reaches up to the
account it merges away. -/
structure PlanFits (V : List ValidatorStakeInfo) (plan : List MergeStakesInstruction) : Prop where
  indices : ∀ p ∈ plan, p.IndicesFit V
  descending : plan.Pairwise fun p q => p.validatorAddress = q.validatorAddress →
    q.additionalIndex < p.additionalIndex

namespace PlanFits

variable {V : List ValidatorStakeInfo} {p : MergeStakesInstruction}
  {plan : List MergeStakesInstruction}

theorem tail (h : PlanFits V (p :: plan)) : PlanFits V plan :=
  ⟨fun q hq => h.indices q (List.mem_cons_of_mem p hq), (List.pairwise_cons.mp h.descending).2⟩

/-- A merge that takes the last account off the count leaves room for the rest of the plan. -/
theorem lowered {record : ValidatorStakeInfo} (h : PlanFits V (p :: plan))
    (hrecord : lookup ValidatorStakeInfo.validatorAccount p.validatorAddress V = some record)
    (hlast : p.additionalIndex + 1 = record.stakeCount) :
    PlanFits (putRecord { record with stakeCount := record.stakeCount - 1 } V) plan := by
  have hname := lookup_key hrecord
  refine ⟨fun q hq => ?_, h.tail.descending⟩
  obtain ⟨other, hother, hfit⟩ := h.tail.indices q hq
  by_cases hsame : q.validatorAddress = p.validatorAddress
  · rw [hsame] at hother
    obtain rfl := Option.some.inj (hrecord.symm.trans hother)
    have hbefore := (List.pairwise_cons.mp h.descending).1 q hq hsame.symm
    unfold MergeStakesInstruction.IndicesFit putRecord
    rw [hsame]
    change ∃ r, lookup ValidatorStakeInfo.validatorAccount p.validatorAddress
      (updateFirst ValidatorStakeInfo.validatorAccount record.validatorAccount _ V) = some r ∧ _
    rw [hname]
    refine ⟨_, lookup_updateFirst_self hrecord rfl, ?_⟩
    have hcount : record.stakeCount - 1 = p.additionalIndex := by
      rw [← hlast]
      exact UInt32.add_sub_cancel _ _
    simp only [hcount, not_or, ge_iff_le, UInt32.not_le] at hfit ⊢
    exact ⟨UInt32.lt_trans hfit.2.2 hbefore, hbefore, hfit.2.2⟩
  · refine ⟨other, ?_, hfit⟩
    rw [← hname] at hsame
    exact (lookup_updateFirst_of_ne (by rfl) hsame).trans hother

/-- No merge names an account that an earlier one merges away. -/
theorem spent (h : PlanFits V plan) :
    plan.Pairwise fun p q => p.validatorAddress = q.validatorAddress →
      p.additionalIndex ≠ q.mainIndex ∧ p.additionalIndex ≠ q.additionalIndex := by
  refine h.descending.imp_of_mem fun {p q} _ hq hlt hsame => ?_
  obtain ⟨record, -, hfit⟩ := h.indices q hq
  simp only [not_or, ge_iff_le, UInt32.not_le] at hfit
  have hadditional := hlt hsame
  exact ⟨(UInt32.ne_of_lt (UInt32.lt_trans hfit.2.2 hadditional)).symm,
    (UInt32.ne_of_lt hadditional).symm⟩

end PlanFits

theorem Deployment.MergeStep.planFits {p : MergeStakesInstruction}
    {plan : List MergeStakesInstruction} {b b' : Batch} (hstep : D.MergeStep p b b')
    (h : PlanFits b.books.validators (p :: plan)) : PlanFits b'.books.validators plan := by
  cases hstep with
  | skipped hsame => exact hsame ▸ h.tail
  | merged record hrecord _ _ hlist _ =>
      split_ifs at hlist with hlast
      · rw [hlist.1]
        exact h.lowered hrecord hlast
      · rw [hlist.1]
        exact h.tail

/-- Any number of merges of a plan leaves the rest of it fitting, whichever were skipped. -/
theorem mergeRun_planFits {done plan : List MergeStakesInstruction} {b b' : Batch}
    (hrun : RunList D.MergeStep done b b') (h : PlanFits b.books.validators (done ++ plan)) :
    PlanFits b'.books.validators plan := by
  induction hrun with
  | nil => exact h
  | cons hfirst _ ih => exact ih (hfirst.planFits h)

/-- The list is written unless no merge changed it. -/
theorem mergeRun_commit {instructions : List MergeStakesInstruction} {b : Batch}
    (hrun : RunList D.MergeStep instructions ⟨s.books, false⟩ b) :
    (s.commit b).list.validators = b.books.validators := by
  have hkept : b.changed = false → b.books.validators = s.list.validators := by
    apply RunList.invariant
      (I := fun x => x.changed = false → x.books.validators = s.list.validators) _ hrun
    · exact fun _ => rfl
    · rintro p _ x x' hx (rfl | ⟨_, _, _, _, hlist, _⟩) hunchanged
      · exact hx hunchanged
      · split_ifs at hlist
        · rw [hlist.2] at hunchanged
          cases hunchanged
        · rw [hlist.1]
          exact hx (hlist.2 ▸ hunchanged)
  unfold PoolState.commit
  split_ifs with hchanged
  · rfl
  · exact (hkept (by simpa using hchanged)).symm

/-! ## The plan of the client -/

namespace TenderizeProgram

variable (P : Programs) (connection : Connection) (this : TenderizeProgram)

theorem findActive_ok (validator : Pubkey) {indices : List Nat}
    (hindices : ∀ i ∈ indices, i < 2 ^ 32) :
    ∃ found, this.findActive P connection validator indices = .ok found ∧
      found.Sublist indices := by
  induction indices with
  | nil => exact ⟨[], rfl, .slnil⟩
  | cons i indices ih =>
      obtain ⟨hi, hrest⟩ := List.forall_mem_cons.mp hindices
      obtain ⟨found, hfound, hsublist⟩ := ih hrest
      have haddress : this.getStakeForValidator P validator i =
          .ok (this.stakeAddress P validator i) :=
        getStakeForValidator_ok (P := P) this validator (Int.natCast_nonneg i) (by omega)
      simp only [findActive, bind_eq_ok]
      cases hactivation : connection.getStakeActivation (this.stakeAddress P validator i) with
      | error e =>
          refine ⟨found, ⟨_, haddress, found, hfound, ?_⟩, hsublist.cons i⟩
          rw [hactivation]
          rfl
      | ok stakeData =>
          refine ⟨if stakeData.state = .active then i :: found else found,
            ⟨_, haddress, found, hfound, ?_⟩, ?_⟩
          · rw [hactivation]
            rfl
          · split_ifs
            · exact hsublist.cons_cons i
            · exact hsublist.cons i

theorem mergePairs_fit (validator : Pubkey) {found : List Nat} {count : Nat}
    (h : found.Sublist (List.range count)) :
    (∀ pair ∈ mergePairs validator found, pair.validator = validator ∧ 0 ≤ pair.mainIndex ∧
        pair.mainIndex < pair.additionalIndex ∧ pair.additionalIndex < count) ∧
      (mergePairs validator found).Pairwise fun p q => q.additionalIndex < p.additionalIndex := by
  have hascending : found.Pairwise (· < ·) := List.pairwise_lt_range.sublist h
  cases found with
  | nil => exact ⟨fun pair hpair => absurd hpair List.not_mem_nil, .nil⟩
  | cons main others =>
      obtain ⟨hmain, hothers⟩ := List.pairwise_cons.mp hascending
      refine ⟨fun pair hpair => ?_, ?_⟩
      · obtain ⟨additional, hadditional, rfl⟩ := List.mem_map.mp hpair
        rw [List.mem_reverse] at hadditional
        have hlow := hmain additional hadditional
        have hhigh := List.mem_range.mp (h.subset (List.mem_cons_of_mem main hadditional))
        exact ⟨rfl, Int.natCast_nonneg main, Int.ofNat_lt.mpr hlow, Int.ofNat_lt.mpr hhigh⟩
      · unfold mergePairs
        rw [List.pairwise_map, List.pairwise_reverse]
        exact hothers.imp fun hlt => Int.ofNat_lt.mpr hlt

/-- The plan takes the accounts of each validator from the last to the first. -/
theorem planMerges_ok {validators : List ValidatorInfo}
    (hcounts : ∀ v ∈ validators, v.stakeCount < 2 ^ 32)
    (hnodup : (validators.map ValidatorInfo.votePubkey).Nodup) :
    ∃ plan, this.planMerges P connection validators = .ok plan ∧
      (∀ pair ∈ plan, ∃ v ∈ validators, pair.validator = v.votePubkey ∧ 0 ≤ pair.mainIndex ∧
        pair.mainIndex < pair.additionalIndex ∧ pair.additionalIndex < v.stakeCount) ∧
      plan.Pairwise fun p q => p.validator = q.validator →
        q.additionalIndex < p.additionalIndex := by
  induction validators with
  | nil => exact ⟨[], rfl, fun pair hpair => absurd hpair List.not_mem_nil, .nil⟩
  | cons v validators ih =>
      obtain ⟨hcount, hcounts'⟩ := List.forall_mem_cons.mp hcounts
      rw [List.map_cons, List.nodup_cons] at hnodup
      obtain ⟨plan, hplan, hindices, hdescending⟩ := ih hcounts' hnodup.2
      have hrange : ∀ i ∈ List.range v.stakeCount, i < 2 ^ 32 :=
        fun i hi => (List.mem_range.mp hi).trans hcount
      obtain ⟨found, hfound, hsublist⟩ := this.findActive_ok P connection v.votePubkey hrange
      obtain ⟨hfirst, hpairs⟩ := mergePairs_fit v.votePubkey hsublist
      refine ⟨mergePairs v.votePubkey found ++ plan, ?_, ?_, ?_⟩
      · simp only [planMerges, bind_eq_ok]
        exact ⟨found, hfound, plan, hplan, rfl⟩
      · intro pair hpair
        rcases List.mem_append.mp hpair with hpair | hpair
        · exact ⟨v, List.mem_cons_self, hfirst pair hpair⟩
        · obtain ⟨w, hw, hfit⟩ := hindices pair hpair
          exact ⟨w, List.mem_cons_of_mem v hw, hfit⟩
      · rw [List.pairwise_append]
        refine ⟨?_, hdescending, ?_⟩
        · refine hpairs.imp ?_
          intro p q hlt _
          exact hlt
        -- pairs of different entries are of different validators
        intro p hp q hq hsame
        obtain ⟨w, hw, hname, -⟩ := hindices q hq
        rw [(hfirst p hp).1, hname] at hsame
        exact absurd (hsame ▸ List.mem_map_of_mem hw) hnodup.1

end TenderizeProgram

/-- The client read the validators of the list with their counts. -/
def SameCounts (validators : List ValidatorInfo) (V : List ValidatorStakeInfo) : Prop :=
  validators.map (fun v => (v.votePubkey, v.stakeCount)) =
    V.map fun r => (r.validatorAccount, r.stakeCount.toNat)

theorem SameCounts.exists_record {validators : List ValidatorInfo} {V : List ValidatorStakeInfo}
    (h : SameCounts validators V) {v : ValidatorInfo} (hv : v ∈ validators) :
    ∃ r ∈ V, r.validatorAccount = v.votePubkey ∧ r.stakeCount.toNat = v.stakeCount := by
  have hmem : (v.votePubkey, v.stakeCount) ∈
      V.map fun r => (r.validatorAccount, r.stakeCount.toNat) := by
    rw [← h]
    exact List.mem_map_of_mem hv
  obtain ⟨r, hr, heq⟩ := List.mem_map.mp hmem
  exact ⟨r, hr, congrArg Prod.fst heq, congrArg Prod.snd heq⟩

theorem SameCounts.votePubkeys {validators : List ValidatorInfo} {V : List ValidatorStakeInfo}
    (h : SameCounts validators V) :
    validators.map ValidatorInfo.votePubkey = V.map ValidatorStakeInfo.validatorAccount := by
  simpa [Function.comp_def] using congrArg (List.map Prod.fst) h

/-- The plan of the client fits the list it was read from. -/
theorem planMerges_fits (P : Programs) (connection : Connection) (this : TenderizeProgram)
    {validators : List ValidatorInfo} {V : List ValidatorStakeInfo}
    (hsame : SameCounts validators V) (hnodup : (V.map ValidatorStakeInfo.validatorAccount).Nodup) :
    ∃ plan, this.planMerges P connection validators = .ok plan ∧
      (∀ pair ∈ plan, pair.InRange) ∧ PlanFits V (plan.map StakePair.intended) := by
  have hcounts : ∀ v ∈ validators, v.stakeCount < 2 ^ 32 := by
    intro v hv
    obtain ⟨r, -, -, hcount⟩ := hsame.exists_record hv
    exact hcount ▸ r.stakeCount.toNat_lt
  obtain ⟨plan, hplan, hindices, hdescending⟩ :=
    this.planMerges_ok P connection hcounts (hsame.votePubkeys ▸ hnodup)
  have hrange : ∀ pair ∈ plan, pair.InRange := by
    intro pair hpair
    obtain ⟨v, hv, -, hlow, hlt, hhigh⟩ := hindices pair hpair
    have hcount := hcounts v hv
    exact ⟨⟨hlow, by omega⟩, by omega, by omega⟩
  have hwords : ∀ pair ∈ plan,
      ((word32 pair.mainIndex).toNat : Int) = pair.mainIndex ∧
        ((word32 pair.additionalIndex).toNat : Int) = pair.additionalIndex := by
    intro pair hpair
    obtain ⟨hmain, hadditional⟩ := hrange pair hpair
    exact ⟨toNat_word32 hmain.1 hmain.2, toNat_word32 hadditional.1 hadditional.2⟩
  refine ⟨plan, hplan, hrange, ?_, ?_⟩
  · intro p hp
    obtain ⟨pair, hpair, rfl⟩ := List.mem_map.mp hp
    obtain ⟨v, hv, hname, hlow, hlt, hhigh⟩ := hindices pair hpair
    obtain ⟨r, hr, hrname, hcount⟩ := hsame.exists_record hv
    obtain ⟨hmain, hadditional⟩ := hwords pair hpair
    refine ⟨r, ?_, ?_⟩
    · change lookup ValidatorStakeInfo.validatorAccount pair.validator V = some r
      rw [hname, ← hrname]
      exact lookup_of_mem hnodup hr
    · change ¬(word32 pair.mainIndex ≥ r.stakeCount ∨ word32 pair.additionalIndex ≥ r.stakeCount ∨
        word32 pair.mainIndex ≥ word32 pair.additionalIndex)
      simp only [ge_iff_le, UInt32.le_iff_toNat_le]
      omega
  · rw [List.pairwise_map]
    refine hdescending.imp_of_mem fun {p q} hp hq hlt hvalidator => ?_
    have hless := hlt hvalidator
    have hp' := (hwords p hp).2
    have hq' := (hwords q hq).2
    change word32 q.additionalIndex < word32 p.additionalIndex
    rw [UInt32.lt_iff_toNat_lt]
    omega

/-! ## Sending the plan -/

section Sending

variable (D) in
/-- The transactions of `mergeStakes` for the chunks of a plan, one after the other, with
whatever `env` does before each. -/
inductive Sends (this : TenderizeProgram) (env : Chain → Chain → Prop) :
    List (List StakePair) → Chain → Chain → Prop
  | nil (c : Chain) : Sends this env [] c c
  | wait {chunks : List (List StakePair)} {c c₁ c' : Chain} :
      env c c₁ → Sends this env chunks c₁ c' → Sends this env chunks c c'
  | send {stakePairs : List StakePair} {chunks : List (List StakePair)} {c c' : Chain}
      {tx : TransactionInstruction} {instruction : StakePoolInstruction} {L : Ledger} :
      this.mergeStakesInstruction D.programs stakePairs = .ok tx →
      StakePoolInstruction.deserialize tx.data = .ok instruction →
      dispatch D.programs D.programId instruction tx.keys c = .ok L →
      Sends this env chunks { c with ledger := L } c' →
      Sends this env (stakePairs :: chunks) c c'

variable {this : TenderizeProgram} {stakePairs : List StakePair} {chunks : List (List StakePair)}

variable (D) in
/-- The rest of the plan can be sent. -/
structure Pending (chunks : List (List StakePair)) (c : Chain) : Prop where
  represents : D.Represents c.ledger (D.stateOf c.ledger)
  built : ∀ stakePairs ∈ chunks, stakePairs ≠ [] ∧ stakePairs.length < 2 ^ 32 ∧
    ∀ pair ∈ stakePairs, pair.InRange
  fits : PlanFits (D.stateOf c.ledger).list.validators (chunks.flatten.map StakePair.intended)

theorem mergeStakes_addressed (hpool : this.stakePool = D.poolKey) :
    D.Addressed (this.mergeStakesKeys D.programs ++
      stakePairs.flatMap (this.pairKeys D.programs)) where
  first := ⟨_, _, rfl, hpool⟩
  unsigned := by
    intro info hinfo hsigner
    simp only [TenderizeProgram.mergeStakesKeys, TenderizeProgram.pairKeys, List.mem_append,
      List.mem_flatMap, List.mem_cons, List.not_mem_nil, or_false] at hinfo
    rcases hinfo with (rfl | rfl | rfl | rfl | rfl | rfl) | ⟨pair, -, rfl | rfl⟩ <;> cases hsigner

theorem Pending.wait (h : Pending D chunks c) (hout : D.Outside c c') : Pending D chunks c' := by
  obtain ⟨s', hstep, h'⟩ := h.represents.outside hout False.elim
  cases hstep with
  | outside _ credit' reserve' stakes' _ =>
      have hlist := congrArg (fun x => x.list.validators) h'.eq_stateOf
      exact ⟨h'.eq_stateOf ▸ h', h.built, hlist ▸ h.fits⟩

section Sent

variable {tx : TransactionInstruction} {instruction : StakePoolInstruction} {L : Ledger}
  (h : Pending D (stakePairs :: chunks) c) (hpool : this.stakePool = D.poolKey)
  (hbuild : this.mergeStakesInstruction D.programs stakePairs = .ok tx)
  (hparse : StakePoolInstruction.deserialize tx.data = .ok instruction)
  (hrun : dispatch D.programs D.programId instruction tx.keys c = .ok L)

include h hpool hbuild hparse hrun

theorem Pending.sent :
    ∃ b, RunList D.MergeStep (stakePairs.map StakePair.intended)
        ⟨(D.stateOf c.ledger).books, false⟩ b ∧
      D.Represents L ((D.stateOf c.ledger).commit b) := by
  obtain ⟨⟨hne, hcount, hrange⟩, -⟩ := List.forall_mem_cons.mp h.built
  obtain rfl := Except.ok.inj (hbuild.symm.trans
    (this.mergeStakesInstruction_ok D.programs hcount hrange))
  obtain rfl := Except.ok.inj (hparse.symm.trans (deserialize_mergeStakes hne hcount hrange))
  exact processMergeStakes_runs h.represents (mergeStakes_addressed hpool) hrun

theorem Pending.send : Pending D chunks { c with ledger := L } := by
  obtain ⟨b, hsteps, h'⟩ := h.sent hpool hbuild hparse hrun
  have hfits : PlanFits b.books.validators (chunks.flatten.map StakePair.intended) := by
    apply mergeRun_planFits hsteps
    rw [← List.map_append]
    exact h.fits
  rw [← mergeRun_commit hsteps] at hfits
  have hlist := congrArg (fun x => x.list.validators) h'.eq_stateOf
  exact ⟨h'.eq_stateOf ▸ h', (List.forall_mem_cons.mp h.built).2, hlist ▸ hfits⟩

end Sent

theorem Sends.pending {env : Chain → Chain → Prop} {done : List (List StakePair)}
    (hrun : Sends D this env done c c') (henv : ∀ c c', env c c' → D.Outside c c')
    (hpool : this.stakePool = D.poolKey) (h : Pending D (done ++ chunks) c) :
    Pending D chunks c' := by
  induction hrun with
  | nil c => exact h
  | wait hwait _ ih => exact ih (h.wait (henv _ _ hwait))
  | send hbuild hparse hdispatch _ ih => exact ih (h.send hpool hbuild hparse hdispatch)

/-- In the loop of the handler the next merge passes the index checks. -/
theorem Pending.next_fits (h : Pending D (stakePairs :: chunks) c) {a : MergeStakesAccounts}
    (ha : a.stakePool.key = D.poolKey) {depositBump : UInt8} {k : Nat} {pair : StakePair}
    (hpair : stakePairs[k]? = some pair) {x : BatchState}
    (hloop : mergeLoop D.programs D.programId a c.clock depositBump
      ((stakePairs.take k).map StakePair.intended)
      ⟨(D.stateOf c.ledger).list.validators, false, a.rest, c.ledger⟩ = .ok x) :
    pair.intended.IndicesFit x.validators := by
  obtain ⟨-, hsteps⟩ := mergeLoop_refines ha _ h.represents hloop
  obtain ⟨hk, rfl⟩ := List.getElem?_eq_some_iff.mp hpair
  have hplan : (stakePairs :: chunks).flatten.map StakePair.intended =
      (stakePairs.take k).map StakePair.intended ++
        (stakePairs.drop k ++ chunks.flatten).map StakePair.intended := by
    rw [List.flatten_cons, ← List.map_append, ← List.append_assoc, List.take_append_drop]
  have hfits := mergeRun_planFits hsteps (hplan ▸ h.fits)
  apply hfits.indices
  rw [List.drop_eq_getElem_cons hk]
  exact List.mem_cons_self

/-- The transactions lose count of no stake. -/
theorem Sends.live (hW : D.NoCollision W) {done : List (List StakePair)}
    (hrun : Sends D this D.Quiet done c c') (hpool : this.stakePool = D.poolKey)
    (h : Pending D done c)
    (hV : Listed W (D.stateOf c.ledger).list.validators)
    (hlive : D.Live W (D.stateOf c.ledger).list.validators (D.stateOf c.ledger).stakes) :
    Listed W (D.stateOf c'.ledger).list.validators ∧
      D.Live W (D.stateOf c'.ledger).list.validators (D.stateOf c'.ledger).stakes := by
  induction hrun with
  | nil c => exact ⟨hV, hlive⟩
  | wait hwait _ ih =>
      obtain ⟨s', hstep, h'⟩ := h.represents.outside hwait.outside fun _ => hwait.noRevival
      have hadds : PoolOp.AddsIn W (.outside True) := fun v hadd => by cases hadd
      have hV' := (ListEffect.of_step hW hV hadds hstep).listed hV
      have hlive' := hstep.live hW .outside trivial hV hlive
      rw [h'.eq_stateOf] at hV' hlive'
      exact ih (h.wait hwait.outside) hV' hlive'
  | send hbuild hparse hdispatch _ ih =>
      obtain ⟨b, hsteps, h'⟩ := h.sent hpool hbuild hparse hdispatch
      have hrestaked := restaked_mergeStakes hW hV hsteps
      have hV' := hrestaked.listed hV
      have hlive' := hrestaked.live trivial hV hlive
      rw [h'.eq_stateOf] at hV' hlive'
      exact ih (h.send hpool hbuild hparse hdispatch) hV' hlive'

end Sending

/-! ## The theorem -/

variable (D) in
/-- Every index of a listed validator that holds stake is below its `stake_count`. -/
def Deployment.StakesCounted (L : Ledger) : Prop :=
  ∀ r ∈ (D.stateOf L).list.validators, ∀ i,
    0 < (D.stateOf L).stakes (D.stakeKey r.validatorAccount i) → i < r.stakeCount

variable (D) in
/-- The listed validators. -/
def Deployment.validatorsOf (L : Ledger) : Set Pubkey :=
  {v | ∃ r ∈ (D.stateOf L).list.validators, r.validatorAccount = v}

theorem Deployment.StakesCounted.live {L : Ledger} (h : D.StakesCounted L) :
    D.Live (D.validatorsOf L) (D.stateOf L).list.validators (D.stateOf L).stakes := by
  rintro _ ⟨r, hr, rfl⟩ i hi
  exact ⟨r, hr, rfl, h r hr i hi⟩

theorem Deployment.Live.stakesCounted {L : Ledger}
    (h : D.Live W (D.stateOf L).list.validators (D.stateOf L).stakes)
    (hV : Listed W (D.stateOf L).list.validators) : D.StakesCounted L := by
  intro r hr i hi
  obtain ⟨r', hr', hname, hlt⟩ := h _ (hV.names r hr) i hi
  have hfound := lookup_of_mem hV.nodup hr'
  rw [hname, lookup_of_mem hV.nodup hr] at hfound
  exact Option.some.inj hfound ▸ hlt

section Plan

variable {this : TenderizeProgram} {connection : Connection} {validators : List ValidatorInfo}

/-- Whatever the network reports as active, every transaction of `mergeAllStakes` is built and
read back, each merge passes the index checks at its turn, no account is named after it was
merged away, and stake stays below the counts. -/
theorem merge_plan_accepted (hrep : D.Represents c.ledger (D.stateOf c.ledger))
    (hnodup : ((D.stateOf c.ledger).list.validators.map
      ValidatorStakeInfo.validatorAccount).Nodup)
    (hpool : this.stakePool = D.poolKey)
    (hread : this.readValidators connection.reader = .ok validators)
    (hsame : SameCounts validators (D.stateOf c.ledger).list.validators) :
    ∃ chunks, this.mergeAllStakes D.programs connection = .ok chunks ∧
      (∀ done stakePairs rest c₁, chunks = done ++ stakePairs :: rest →
        Sends D this D.Outside done c c₁ →
        ∃ tx a, this.mergeStakesInstruction D.programs stakePairs = .ok tx ∧
          StakePoolInstruction.deserialize tx.data =
            .ok (.mergeStakes (stakePairs.map StakePair.intended)) ∧
          MergeStakesAccounts.parse tx.keys = .ok a ∧
          ∀ depositBump k pair x, stakePairs[k]? = some pair →
            mergeLoop D.programs D.programId a c₁.clock depositBump
              ((stakePairs.take k).map StakePair.intended)
              ⟨(D.stateOf c₁.ledger).list.validators, false, a.rest, c₁.ledger⟩ = .ok x →
            pair.intended.IndicesFit x.validators) ∧
      (chunks.flatten.Pairwise fun p q => p.validator = q.validator →
        p.additionalIndex ≠ q.mainIndex ∧ p.additionalIndex ≠ q.additionalIndex) ∧
      ∀ c', D.NoCollision (D.validatorsOf c.ledger) → D.StakesCounted c.ledger →
        Sends D this D.Quiet chunks c c' → D.StakesCounted c'.ledger := by
  obtain ⟨plan, hplan, hrange, hfits⟩ :=
    planMerges_fits D.programs connection this hsame hnodup
  have hflatten : (chunk 4 plan).flatten = plan := flatten_chunk (by decide) plan
  have hpending : Pending D (chunk 4 plan) c := by
    refine ⟨hrep, fun part hpart => ?_, ?_⟩
    · obtain ⟨hne, hlength⟩ := chunk_part (by decide) hpart
      refine ⟨hne, by omega, fun pair hpair => hrange pair ?_⟩
      rw [← hflatten]
      exact List.mem_flatten_of_mem hpart hpair
    · rw [hflatten]
      exact hfits
  refine ⟨chunk 4 plan, ?_, ?_, ?_, ?_⟩
  · simp only [TenderizeProgram.mergeAllStakes, bind_eq_ok]
    exact ⟨validators, hread, plan, hplan, rfl⟩
  · intro done stakePairs rest c₁ hchunks hsends
    have hnext := hsends.pending (fun _ _ hout => hout) hpool (hchunks ▸ hpending)
    obtain ⟨hne, hcount, hpairs⟩ := hnext.built stakePairs List.mem_cons_self
    refine ⟨_, _, this.mergeStakesInstruction_ok D.programs hcount hpairs,
      deserialize_mergeStakes hne hcount hpairs, rfl, ?_⟩
    intro depositBump k pair x hpair hloop
    exact hnext.next_fits hpool hpair hloop
  · rw [hflatten]
    have hspent := hfits.spent
    rw [List.pairwise_map] at hspent
    refine hspent.imp fun {p q} hpq hvalidator => ?_
    obtain ⟨hmain, hadditional⟩ := hpq hvalidator
    exact ⟨fun heq => hmain (congrArg word32 heq), fun heq => hadditional (congrArg word32 heq)⟩
  · intro c' hW hcounted hsends
    have hV : Listed (D.validatorsOf c.ledger) (D.stateOf c.ledger).list.validators :=
      ⟨hnodup, fun r hr => ⟨r, hr, rfl⟩⟩
    obtain ⟨hV', hlive'⟩ := hsends.live hW hpool hpending hV hcounted.live
    exact hlive'.stakesCounted hV'

end Plan

section

open Reference

/-- Six stake accounts are opened. -/
def sixStakes : List Action :=
  [.pay userKey Reference.reserveKey 1000000000, addValidator validatorKey,
    delegate [⟨100000000, 0⟩, ⟨100000000, 1⟩, ⟨100000000, 2⟩, ⟨100000000, 3⟩, ⟨100000000, 4⟩,
      ⟨100000000, 5⟩]]

/-- The network after `sixStakes`: all accounts of the validator are reported active. -/
def sixStakesNetwork : Connection :=
  ⟨fun key =>
      if key = listKey then
        some ⟨Reference.programId, 0,
          [1, 1, 0] ++ ValidatorStakeInfo.bytes ⟨validatorKey, 600000000, 0, 6⟩
            (Vector.replicate 4 0)⟩
      else none,
    fun _ => .ok ⟨.active, 100000000⟩⟩

/-- The first transaction of the plan, and the second one. -/
def firstPairs : List StakePair :=
  [⟨validatorKey, 0, 5⟩, ⟨validatorKey, 0, 4⟩, ⟨validatorKey, 0, 3⟩, ⟨validatorKey, 0, 2⟩]

def lastPairs : List StakePair :=
  [⟨validatorKey, 0, 1⟩]

/-- The stake program pays a reward: the credits that a stake observed change. -/
def observe (key : Pubkey) (credits : UInt64) (c : Chain) : Except ProgramError Chain :=
  match (c.ledger key).data with
  | .stake (.stake stakeMeta stake) =>
      .ok { c with
        ledger := c.ledger.setData key
          (.stake (.stake stakeMeta { stake with creditsObserved := credits })) }
  | _ => .error .invalidArgument

theorem observe_quiet {key : Pubkey} {credits : UInt64}
    (h : deployment.Represents c.ledger s) (hobserve : observe key credits c = .ok c') :
    deployment.Quiet c c' := by
  unfold observe at hobserve
  split at hobserve
  · rename_i hdata
    obtain rfl := Except.ok.inj hobserve
    refine ⟨stakeState_outside _ h hdata, fun v i hzero => ?_⟩
    rw [stakeLamports_setData]
    exact hzero
  · cases hobserve

/-- The transaction for one chunk of the plan. -/
def sendPairs (stakePairs : List StakePair) (c : Chain) : Option Chain := do
  let tx ← (ownerClient.mergeStakesInstruction programs stakePairs).toOption
  let instruction ← (StakePoolInstruction.deserialize tx.data).toOption
  let L ← (dispatch programs Reference.programId instruction tx.keys c).toOption
  pure { c with ledger := L }

theorem sendPairs_sends {env : Chain → Chain → Prop} {stakePairs : List StakePair}
    {chunks : List (List StakePair)} {c₁ : Chain} (hsend : sendPairs stakePairs c = some c₁)
    (hrest : Sends deployment ownerClient env chunks c₁ c') :
    Sends deployment ownerClient env (stakePairs :: chunks) c c' := by
  simp only [sendPairs, Option.bind_eq_bind, Option.bind_eq_some_iff, Option.pure_def,
    Option.some.injEq] at hsend
  obtain ⟨tx, hbuild, instruction, hparse, L, hrun, rfl⟩ := hsend
  exact .send (toOption_eq_some.mp hbuild) (toOption_eq_some.mp hparse) (toOption_eq_some.mp hrun) hrest

/-- The last two accounts are merged away and uncounted.  The one with other credits is left
alone, and the count stays above it while the two below are merged away. -/
theorem merge_plan_accepted_sixStakes :
    ∃ c c₁ c₂ c₃, execute (fun _ e => decide (e.Staking ∧ e.AddsIn {validatorKey} ∧ e.Fits))
        sixStakes = .ok c ∧
      ownerClient.mergeAllStakes programs sixStakesNetwork = .ok [firstPairs, lastPairs] ∧
      observe (stakeAddress validatorKey poolKey 3) 1 c = .ok c₁ ∧
      sendPairs firstPairs c₁ = some c₂ ∧ sendPairs lastPairs c₂ = some c₃ ∧
      (deployment.stateOf c₂.ledger).list.validators.map (fun r => r.stakeCount) = [4] ∧
      (StakePair.intended ⟨validatorKey, 0, 1⟩).IndicesFit
        (deployment.stateOf c₂.ledger).list.validators ∧
      deployment.StakesCounted c₃.ledger := by
  have hrun : (execute (fun _ e => decide (e.Staking ∧ e.AddsIn {validatorKey} ∧ e.Fits))
      sixStakes).map (fun c =>
        ((deployment.stateOf c.ledger).list.validators.map fun r =>
          (r.validatorAccount, r.stakeCount.toNat),
        (observe (stakeAddress validatorKey poolKey 3) 1 c).toOption.bind fun c₁ =>
          (sendPairs firstPairs c₁).bind fun c₂ =>
            (sendPairs lastPairs c₂).map fun _ =>
              (deployment.stateOf c₂.ledger).list.validators.map (fun r => r.stakeCount))) =
      .ok ([(validatorKey, 6)], some [4]) := by
    decide +kernel
  obtain ⟨c, hc, hvalues⟩ := map_eq_ok.mp hrun
  obtain ⟨hcounts, hsent⟩ := Prod.mk.inj hvalues
  simp only [Option.bind_eq_some_iff, Option.map_eq_some_iff] at hsent
  obtain ⟨c₁, hobserve, c₂, hfirst, c₃, hlast, hcount⟩ := hsent
  have hobserve := toOption_eq_some.mp hobserve
  have hread : ownerClient.readValidators sixStakesNetwork.reader =
      .ok [⟨validatorKey, 600000000, 0, 6⟩] := by decide +kernel
  have hplan : ownerClient.mergeAllStakes programs sixStakesNetwork =
      .ok [firstPairs, lastPairs] := by decide +kernel
  have hpays : PaysIn deployment.Quiet sixStakes := by
    apply paysIn_quiet
    intro source target n hmem
    simp only [sixStakes, addValidator, delegate, List.mem_cons, List.not_mem_nil, reduceCtorEq,
      or_false, Action.pay.injEq] at hmem
    exact hmem.2.1
  obtain ⟨hrep, hbooked⟩ := reachable_booked (noCollision validatorKey)
    (execute_reachable_in hpays (fun _ _ h => of_decide_eq_true h) hc)
  obtain ⟨chunks, hchunks, haccepted, -, hcounted⟩ :=
    merge_plan_accepted hrep hbooked.listed.nodup rfl hread hcounts.symm
  obtain rfl := Except.ok.inj (hchunks.symm.trans hplan)
  have hquiet := observe_quiet hrep hobserve
  -- the second transaction, after the reward and the first one
  obtain ⟨tx, a, -, -, -, hfits⟩ := haccepted [firstPairs] lastPairs [] c₂ rfl
    (.wait hquiet.outside (sendPairs_sends hfirst (.nil c₂)))
  have hlisted : deployment.validatorsOf c.ledger ⊆ {validatorKey} := by
    rintro _ ⟨r, hr, rfl⟩
    exact hbooked.listed.names r hr
  exact ⟨c, c₁, c₂, c₃, hc, hplan, hobserve, hfirst, hlast, hcount, hfits 0 0 _ _ rfl rfl,
    hcounted c₃ ((noCollision validatorKey).subset hlisted)
      (hbooked.live.stakesCounted hbooked.listed)
      (.wait hquiet (sendPairs_sends hfirst (sendPairs_sends hlast (.nil c₃))))⟩

end

end Tenderize
