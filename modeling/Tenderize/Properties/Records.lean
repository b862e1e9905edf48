import Tenderize.Refinement.Runs
import Tenderize.Refinement.Complete
import Tenderize.Spec.MoveRuns
import Tenderize.Reference.Pool

/-!
# Keys of the two lists

Handlers look for the first record with a key, but `Uncredit` removes by filter and
`PayCreditors` puts its list together again from three parts.  All of this agrees because no
key occurs twice, in any state a run reaches.
-/

namespace Tenderize

open Support

variable {D : Deployment} {c c' : Chain} {s s' : PoolState} {op : PoolOp}

/-! ## Validator records

A record is stamped with the epoch of its last refresh.  Only three instructions touch the
stamps. -/

def ValidatorStakeInfo.stamp (r : ValidatorStakeInfo) : Pubkey × UInt64 :=
  (r.validatorAccount, r.lastUpdateEpoch)

/-- The instruction adds, removes or refreshes records. -/
def PoolOp.Restamps : PoolOp → Prop
  | .addValidator _ => True
  | .removeValidator _ => True
  | .updateList => True
  | _ => False

section Stamps

variable {v : Pubkey} {r r' : ValidatorStakeInfo} {V : List ValidatorStakeInfo}

theorem putRecord_stamps (hfound : lookup ValidatorStakeInfo.validatorAccount v V = some r)
    (hstamp : r'.stamp = r.stamp) :
    (putRecord r' V).map ValidatorStakeInfo.stamp = V.map ValidatorStakeInfo.stamp := by
  have hold : r.validatorAccount = v := lookup_key hfound
  have hname : r'.validatorAccount = v := (congrArg Prod.fst hstamp).trans hold
  unfold putRecord
  rw [hname]
  exact map_updateFirst_eq hfound hstamp

theorem Deployment.DelegateStep.stamps {instruction : Pubkey × DelegateReserveInstruction}
    {b b' : Batch} (h : D.DelegateStep instruction b b') :
    b'.books.validators.map ValidatorStakeInfo.stamp =
      b.books.validators.map ValidatorStakeInfo.stamp := by
  obtain ⟨record, hfound, -, hvalidators, -⟩ := h.record
  rw [hvalidators]
  exact putRecord_stamps hfound rfl

theorem Deployment.MergeStep.stamps {instruction : MergeStakesInstruction} {b b' : Batch}
    (h : D.MergeStep instruction b b') :
    b'.books.validators.map ValidatorStakeInfo.stamp =
      b.books.validators.map ValidatorStakeInfo.stamp := by
  cases h with
  | skipped hsame => rw [hsame]
  | merged record hfound _ _ hrecord _ =>
      split at hrecord
      · rw [hrecord.1]
        exact putRecord_stamps hfound rfl
      · rw [hrecord.1]

theorem Deployment.UnstakeStep.stamps {instruction : UnstakeInstruction} {b b' : Batch}
    (h : D.UnstakeStep instruction b b') :
    b'.books.validators.map ValidatorStakeInfo.stamp =
      b.books.validators.map ValidatorStakeInfo.stamp := by
  cases h with
  | deactivated hsame => rw [hsame]
  | split record _ hfound _ _ _ hrecord _ =>
      split at hrecord
      · rw [hrecord.1]
        exact putRecord_stamps hfound rfl
      · rw [hrecord.1]

theorem PoolState.commit_stamps {b : Batch}
    (h : b.books.validators.map ValidatorStakeInfo.stamp =
      s.list.validators.map ValidatorStakeInfo.stamp) :
    (s.commit b).list.validators.map ValidatorStakeInfo.stamp =
      s.list.validators.map ValidatorStakeInfo.stamp := by
  unfold PoolState.commit
  split
  · exact h
  · rfl

theorem PoolStep.stamps_eq (h : PoolStep D s op s') (hop : ¬op.Restamps) :
    s'.list.validators.map ValidatorStakeInfo.stamp =
      s.list.validators.map ValidatorStakeInfo.stamp := by
  cases h with
  | addValidator => exact absurd trivial hop
  | removeValidator => exact absurd trivial hop
  | updateList => exact absurd trivial hop
  | delegateReserve instructions b hrun =>
      exact PoolState.commit_stamps (hrun.unchanged _ fun _ _ _ hstep => hstep.stamps)
  | mergeStakes instructions b hrun =>
      exact PoolState.commit_stamps (hrun.unchanged _ fun _ _ _ hstep => hstep.stamps)
  | unstake instructions b hrun =>
      exact PoolState.commit_stamps (hrun.unchanged _ fun _ _ _ hstep => hstep.stamps)
  | _ => rfl

theorem Deployment.RefreshStep.names_eq {epoch : UInt64} {b b' : Books}
    (h : D.RefreshStep epoch v b b') :
    b'.validators.map ValidatorStakeInfo.validatorAccount =
      b.validators.map ValidatorStakeInfo.validatorAccount := by
  obtain ⟨record, balance, count, hfound, hvalidators, -⟩ := h.record
  rw [hvalidators, putRecord]
  rw [← lookup_key hfound] at hfound
  exact map_key_updateFirst hfound rfl

end Stamps

/-- Validators are listed, unlisted one at a time, or stay as they are. -/
inductive NamesEffect (op : PoolOp) (names names' : List Pubkey) : Prop
  | added (v : Pubkey) : op = .addValidator v → v ∉ names → names' = names ++ [v] →
      NamesEffect op names names'
  | fewer : names'.Sublist names → NamesEffect op names names'

theorem NamesEffect.nodup {names names' : List Pubkey} (h : NamesEffect op names names')
    (hnames : names.Nodup) : names'.Nodup := by
  cases h with
  | added v _ hnew heq =>
      rw [heq, List.nodup_append]
      refine ⟨hnames, List.nodup_singleton v, ?_⟩
      intro x hx y hy hxy
      rw [List.mem_singleton.mp hy] at hxy
      exact hnew (hxy ▸ hx)
  | fewer hsub => exact hnames.sublist hsub

theorem NamesEffect.length_le {names names' : List Pubkey} (h : NamesEffect op names names')
    {n : Nat} (hroom : ∀ v, op = .addValidator v → names.length < n) (hnames : names.length ≤ n) :
    names'.length ≤ n := by
  cases h with
  | added v hop _ heq =>
      have hlt := hroom v hop
      rw [heq, List.length_append, List.length_singleton]
      omega
  | fewer hsub => exact le_trans hsub.length_le hnames

theorem PoolStep.namesEffect (h : PoolStep D s op s') :
    NamesEffect op (s.list.validators.map ValidatorStakeInfo.validatorAccount)
      (s'.list.validators.map ValidatorStakeInfo.validatorAccount) := by
  by_cases hop : op.Restamps
  · cases h with
    | addValidator v epoch hnew =>
        refine .added v rfl ?_ (by simp)
        intro hmem
        obtain ⟨r, hr, hname⟩ := List.mem_map.mp hmem
        exact hnew r hr hname
    | removeValidator v validators hremove =>
        obtain ⟨r, before, after, hsplit, -, rfl⟩ := removeRecord_ok hremove
        apply NamesEffect.fewer
        rw [hsplit]
        apply List.Sublist.map
        exact (List.Sublist.refl before).append (List.sublist_cons_self r after)
    | updateList epoch names b hrun =>
        have hnames := hrun.unchanged
          (fun b : Books => b.validators.map ValidatorStakeInfo.validatorAccount)
          fun _ _ _ hstep => hstep.names_eq
        exact .fewer (hnames ▸ List.Sublist.refl _)
    | _ => exact absurd hop id
  · have hnames := congrArg (List.map Prod.fst) (h.stamps_eq hop)
    simp only [List.map_map, Function.comp_def, ValidatorStakeInfo.stamp] at hnames
    exact .fewer (hnames ▸ List.Sublist.refl _)

/-! ## Credit records -/

/-- What a step does to the queue: a new target, a new amount for an old one, or records that
leave it. -/
inductive CreditEffect (credits credits' : List CreditRecord) : Prop
  | added (r : CreditRecord) : (∀ x ∈ credits, x.solTarget ≠ r.solTarget) →
      credits.length < maxCreditRecords → credits' = credits ++ [r] →
      CreditEffect credits credits'
  | changed (r r' : CreditRecord) :
      lookup CreditRecord.solTarget r'.solTarget credits = some r →
      r'.cancelAuthority = r.cancelAuthority →
      credits' = updateFirst CreditRecord.solTarget r'.solTarget r' credits →
      CreditEffect credits credits'
  | left (gone : List CreditRecord) : credits.Perm (credits' ++ gone) →
      CreditEffect credits credits'

section Credits

variable {credits credits' : List CreditRecord} {target : Pubkey} {amount : UInt64}

theorem addCredit_effect {cancelAuthority : Pubkey}
    (h : addCredit target cancelAuthority amount credits = .ok credits') :
    CreditEffect credits credits' := by
  unfold addCredit at h
  split at h
  · rename_i record hfound
    simp only [bind_eq_ok, require_eq_ok, pure_eq_ok] at h
    obtain ⟨-, -, rfl⟩ := h
    have hkey : record.solTarget = target := lookup_key hfound
    refine .changed record { record with tokenAmount := record.tokenAmount + amount } ?_ rfl ?_
    · rw [← hkey] at hfound
      exact hfound
    · rw [← hkey]
  · rename_i hnone
    simp only [bind_eq_ok, require_eq_ok, pure_eq_ok] at h
    obtain ⟨-, hroom, rfl⟩ := h
    exact .added ⟨target, cancelAuthority, amount⟩ (lookup_eq_none_iff.mp hnone)
      (Nat.not_le.mp hroom) rfl

theorem removeCredit_effect {cancelAuthority : AccountInfo}
    (h : removeCredit target cancelAuthority amount credits = .ok credits') :
    CreditEffect credits credits' := by
  unfold removeCredit at h
  split at h
  · rename_i record hfound
    simp only [bind_eq_ok, require_eq_ok] at h
    obtain ⟨-, -, -, -, -, -, h⟩ := h
    split at h
    · obtain rfl := Except.ok.inj h
      exact .left _ (List.filter_append_perm _ credits).symm
    · obtain rfl := Except.ok.inj h
      have hkey : record.solTarget = target := lookup_key hfound
      refine .changed record { record with tokenAmount := record.tokenAmount - amount } ?_ rfl ?_
      · rw [← hkey] at hfound
        exact hfound
      · rw [← hkey]
  · cases h

theorem CreditEffect.refl (credits : List CreditRecord) : CreditEffect credits credits :=
  .left [] (by simp)

theorem PoolStep.creditEffect (h : PoolStep D s op s') :
    CreditEffect s.creditList.credits s'.creditList.credits := by
  cases h with
  | credit amount burnFrom target cancelAuthority credits credit' hadd _ =>
      exact addCredit_effect hadd
  | uncredit amount burnFrom target cancelAuthority credits credit' hremove _ =>
      exact removeCredit_effect hremove
  | payCreditors eligible paid credits' mint' credit' reserve' stakes' hpaid =>
      obtain ⟨lost, hperm⟩ := hpaid.credits
      refine .left (paid.map (fun payment => payment.credit) ++ lost) (hperm.trans ?_)
      rw [List.append_assoc]
      exact List.perm_append_comm_assoc _ _ _
  | _ => exact .refl _

theorem CreditEffect.nodup (h : CreditEffect credits credits')
    (hcredits : (credits.map CreditRecord.solTarget).Nodup) :
    (credits'.map CreditRecord.solTarget).Nodup := by
  cases h with
  | added r hnew _ heq =>
      rw [heq, List.map_append, List.nodup_append]
      refine ⟨hcredits, List.nodup_singleton _, ?_⟩
      intro x hx y hy hxy
      obtain ⟨record, hrecord, rfl⟩ := List.mem_map.mp hx
      rw [List.mem_singleton.mp hy] at hxy
      exact hnew record hrecord hxy
  | changed r r' hfound _ heq =>
      rw [heq, map_key_updateFirst hfound rfl]
      exact hcredits
  | left gone hperm =>
      have hnodup := (hperm.map CreditRecord.solTarget).nodup_iff.mp hcredits
      rw [List.map_append] at hnodup
      exact hnodup.of_append_left

theorem CreditEffect.length_le (h : CreditEffect credits credits')
    (hcredits : credits.length ≤ maxCreditRecords) : credits'.length ≤ maxCreditRecords := by
  cases h with
  | added r _ hroom heq =>
      rw [heq, List.length_append, List.length_singleton]
      omega
  | changed r r' _ _ heq =>
      rw [heq, length_updateFirst]
      exact hcredits
  | left gone hperm =>
      have hlength := hperm.length_eq
      rw [List.length_append] at hlength
      omega

/-- Whoever may cancel a credit stays the same while the record does. -/
theorem CreditEffect.cancelAuthority_eq (h : CreditEffect credits credits')
    (hcredits : (credits.map CreditRecord.solTarget).Nodup) {r r' : CreditRecord}
    (hr : lookup CreditRecord.solTarget target credits = some r)
    (hr' : lookup CreditRecord.solTarget target credits' = some r') :
    r'.cancelAuthority = r.cancelAuthority := by
  have hkey : r'.solTarget = target := lookup_key hr'
  -- an old record under the target is the one that was found
  have hold : r' ∈ credits → r'.cancelAuthority = r.cancelAuthority := by
    intro hmem
    have hfound := lookup_of_mem hcredits hmem
    rw [hkey, hr, Option.some.injEq] at hfound
    rw [hfound]
  cases h with
  | added new hnew _ heq =>
      have hmem := lookup_mem hr'
      rw [heq, List.mem_append, List.mem_singleton] at hmem
      rcases hmem with hmem | rfl
      · exact hold hmem
      · exact absurd ((lookup_key hr).trans hkey.symm) (hnew r (lookup_mem hr))
  | changed old new hfound hsame heq =>
      have hmem := lookup_mem hr'
      rw [heq] at hmem
      rcases mem_updateFirst_of_nodup hcredits hfound rfl hmem with rfl | ⟨hmem, -⟩
      · rw [hkey, hr, Option.some.injEq] at hfound
        rw [hsame, hfound]
      · exact hold hmem
  | left gone hperm =>
      exact hold (hperm.mem_iff.mpr (List.mem_append_left _ (lookup_mem hr')))

end Credits

/-! ## Whole runs -/

/-- No key occurs twice, and both lists fit their accounts. -/
structure PoolState.KeysUnique (s : PoolState) : Prop where
  validators : (s.list.validators.map ValidatorStakeInfo.validatorAccount).Nodup
  credits : (s.creditList.credits.map CreditRecord.solTarget).Nodup
  validators_length : s.list.validators.length ≤ maxValidators
  credits_length : s.creditList.credits.length ≤ maxCreditRecords

theorem PoolStep.keysUnique (h : PoolStep D s op s')
    (hroom : ∀ v, op = .addValidator v → s.list.validators.length < maxValidators)
    (hs : s.KeysUnique) : s'.KeysUnique where
  validators := h.namesEffect.nodup hs.validators
  credits := h.creditEffect.nodup hs.credits
  credits_length := h.creditEffect.length_le hs.credits_length
  validators_length := by
    have hlength := h.namesEffect.length_le (n := maxValidators)
      (by simpa using hroom) (by simpa using hs.validators_length)
    simpa using hlength

/-- `AddValidator` checks that there is room. -/
theorem Matches.room {quiet : Prop} {i : StakePoolInstruction} {accounts : List AccountInfo}
    {L' : Ledger} {v : Pubkey} (h : D.Represents c.ledger s) (ha : D.Addressed accounts)
    (hrun : dispatch D.programs D.programId i accounts c = .ok L')
    (hmatch : Matches quiet c (.instruction i accounts) s (.addValidator v)) :
    s.list.validators.length < maxValidators := by
  cases hmatch with
  | addValidator _ =>
      obtain ⟨-, -, -, hroom, -⟩ := processAddValidator_ok h ha hrun
      exact hroom

/-- A step of a run is a step of the pool that respects the room for validators. -/
theorem Deployment.Step.poolStep {e : Event} (h : D.Represents c.ledger s)
    (hstep : D.Step D.Outside c e c') :
    ∃ op s', PoolStep D s op s' ∧ D.Represents c'.ledger s' ∧
      ∀ v, op = .addValidator v → s.list.validators.length < maxValidators := by
  cases e with
  | instruction i accounts =>
      obtain ⟨ha, L', hrun, rfl⟩ := hstep
      obtain ⟨op, s', hpool, h', hmatch⟩ := dispatch_refines False h ha i hrun
      refine ⟨op, s', hpool, h', ?_⟩
      rintro v rfl
      exact hmatch.room h ha hrun
  | outside =>
      obtain ⟨s', hpool, h'⟩ := h.outside hstep False.elim
      exact ⟨_, s', hpool, h', nofun⟩

theorem keysUnique_invariant : (D.system D.Outside).Invariant
    (fun c => D.Represents c.ledger (D.stateOf c.ledger) ∧ (D.stateOf c.ledger).KeysUnique) where
  init c hc := by
    obtain ⟨s, hs, hfresh⟩ := hc.represents
    rw [← hs.eq_stateOf]
    refine ⟨hs, ?_⟩
    constructor <;> simp [hfresh.validators, hfresh.credits]
  step c e c' hc hstep := by
    obtain ⟨op, s', hpool, h', hroom⟩ := hstep.poolStep hc.1
    rw [← h'.eq_stateOf]
    exact ⟨h', hpool.keysUnique hroom hc.2⟩

/-- In every reachable state the keys of both lists are unique, both lists can be written,
`retain` on a queued target removes one record, and no step changes who may cancel a record
that stays. -/
theorem list_keys_unique (h : (D.system D.Outside).Reachable c) :
    (D.stateOf c.ledger).KeysUnique ∧
    (∃ data, (D.stateOf c.ledger).list.serialize
      (c.ledger (D.stateOf c.ledger).pool.validatorStakeList).data = .ok data) ∧
    (∃ data, (D.stateOf c.ledger).creditList.serialize
      (c.ledger (D.stateOf c.ledger).pool.creditList).data = .ok data) ∧
    (∀ r ∈ (D.stateOf c.ledger).creditList.credits, ∃ before after,
      (D.stateOf c.ledger).creditList.credits = before ++ r :: after ∧
      (D.stateOf c.ledger).creditList.credits.filter
        (fun record => record.solTarget ≠ r.solTarget) = before ++ after) ∧
    ∀ e c', D.Step D.Outside c e c' → ∀ target r r',
      lookup CreditRecord.solTarget target (D.stateOf c.ledger).creditList.credits = some r →
      lookup CreditRecord.solTarget target (D.stateOf c'.ledger).creditList.credits = some r' →
      r'.cancelAuthority = r.cancelAuthority := by
  obtain ⟨hrep, hkeys⟩ := keysUnique_invariant.reachable h
  refine ⟨hkeys, ⟨_, ValidatorStakeList.serialize_ok hrep.has_list.2.1 hkeys.validators_length⟩,
    ⟨_, CreditList.serialize_ok hrep.has_credits.2.1 hkeys.credits_length⟩, ?_, ?_⟩
  · intro r hr
    exact filter_key_of_nodup hkeys.credits (lookup_of_mem hkeys.credits hr)
  · intro e c' hstep target r r' hr hr'
    obtain ⟨op, s', hpool, h', -⟩ := hstep.poolStep hrep
    rw [← h'.eq_stateOf] at hr'
    exact hpool.creditEffect.cancelAuthority_eq hkeys.credits hr hr'

section

open Reference

/-- Two credits for one target, one for another, and a validator. -/
def listedRun : List Action :=
  [deposit 100000000 userTokensKey mintKey, credit 1000000 userTokensKey friendKey,
    credit 2000000 userTokensKey userKey, credit 3000000 userTokensKey friendKey,
    addValidator validatorKey]

def amounts (c : Chain) : List Pubkey × List UInt64 :=
  ((deployment.stateOf c.ledger).list.validators.map (fun r => r.validatorAccount),
    (deployment.stateOf c.ledger).creditList.credits.map (fun r => r.tokenAmount))

theorem list_keys_unique_listedRun :
    ∃ c, execute anything listedRun = .ok c ∧
      amounts c = ([validatorKey], [4000000, 2000000]) ∧
      (deployment.stateOf c.ledger).KeysUnique := by
  have hrun : (do
      let c ← execute anything listedRun
      pure (amounts c)) = .ok ([validatorKey], [4000000, 2000000]) := by
    decide +kernel
  simp only [bind_eq_ok, pure_eq_ok] at hrun
  obtain ⟨c, hc, hamounts⟩ := hrun
  exact ⟨c, hc, hamounts, (list_keys_unique (execute_anything_reachable hc)).1⟩

end

end Tenderize
