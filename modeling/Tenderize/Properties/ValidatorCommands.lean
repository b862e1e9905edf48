import Tenderize.Properties.Sessions
import Tenderize.Properties.Unstaked

/-!
# Adding and removing validators from the client

The commands `vadd` and `vrem` send one transaction for each validator and stop at the first that
fails.  What has to hold for all of them to get through, and what the list is then.
-/

namespace Tenderize

open Support

variable {D : Deployment} {network : Network} {payer v : Pubkey} {this : TenderizeProgram}
  {c c' x x' : Chain} {s : PoolState}

/-! ## The handlers -/

/-- The accounts that the client passes for a change of the list. -/
def Deployment.ownerAccounts (D : Deployment) (payer : Pubkey) (pool : StakePool) (v : Pubkey) :
    List AccountInfo :=
  TransactionItem.accounts [payer, pool.owner]
    [plainKey D.poolKey, signerKey pool.owner, plainKey pool.validatorStakeList, plainKey v,
      plainKey clockId]

/-- The pool was updated in the current epoch. -/
def Deployment.UpToDate (D : Deployment) (c : Chain) : Prop :=
  c.clock.epoch ≤ (D.stateOf c.ledger).pool.lastUpdateEpoch

/-- The validators of the pool. -/
def Deployment.validators (D : Deployment) (c : Chain) : List ValidatorStakeInfo :=
  (D.stateOf c.ledger).list.validators

variable (D) in
/-- Only the list changed. -/
structure ListBecomes (V : List ValidatorStakeInfo) (c c' : Chain) : Prop where
  state : D.stateOf c'.ledger =
    { D.stateOf c.ledger with list := { (D.stateOf c.ledger).list with validators := V } }
  clock : c'.clock = c.clock
  reachable : (D.system D.Outside).Reachable c'

theorem ListBecomes.validators_eq {V : List ValidatorStakeInfo} (h : ListBecomes D V c c') :
    D.validators c' = V := by
  unfold Deployment.validators
  rw [h.state]

theorem ListBecomes.pool_eq {V : List ValidatorStakeInfo} (h : ListBecomes D V c c') :
    (D.stateOf c'.ledger).pool = (D.stateOf c.ledger).pool := by
  rw [h.state]

theorem ListBecomes.upToDate_iff {V : List ValidatorStakeInfo} (h : ListBecomes D V c c') :
    D.UpToDate c' ↔ D.UpToDate c := by
  unfold Deployment.UpToDate
  rw [h.pool_eq, h.clock]

theorem ListBecomes.refl (h : (D.system D.Outside).Reachable c) :
    ListBecomes D (D.validators c) c c :=
  ⟨rfl, rfl, h⟩

theorem ListBecomes.trans {V V' : List ValidatorStakeInfo} (h : ListBecomes D V c x)
    (h' : ListBecomes D V' x c') : ListBecomes D V' c c' where
  state := by rw [h'.state, h.state]
  clock := h'.clock.trans h.clock
  reachable := h'.reachable

/-! ## Changes of the list -/

/-- A change for one validator: when the program lets it through, and what it does. -/
structure ListEdit where
  allowed : List ValidatorStakeInfo → Pubkey → Prop
  apply : List ValidatorStakeInfo → Pubkey → List ValidatorStakeInfo

/-- The change can be made for one validator after the other. -/
def ListEdit.AllowsAll (edit : ListEdit) : List ValidatorStakeInfo → List Pubkey → Prop
  | _, [] => True
  | V, v :: names => edit.allowed V v ∧ edit.AllowsAll (edit.apply V v) names

def adding (epoch : UInt64) : ListEdit where
  allowed V v := v ∉ V.map ValidatorStakeInfo.validatorAccount ∧ V.length < maxValidators
  apply V v := V ++ [⟨v, 0, epoch, 0⟩]

def removing : ListEdit where
  allowed V v := ∃ r ∈ V, r.validatorAccount = v ∧ r.stakeCount = 0
  apply V v := V.filter fun r => r.validatorAccount ≠ v

section Edits

variable {V : List ValidatorStakeInfo} {names : List Pubkey} {epoch : UInt64}

theorem foldl_adding : names.foldl (adding epoch).apply V =
    V ++ names.map fun v => ⟨v, 0, epoch, 0⟩ := by
  induction names generalizing V with
  | nil => simp
  | cons v names ih =>
      rw [List.foldl_cons, ih]
      simp [adding]

theorem adding_allowsAll_iff (hnodup : (V.map ValidatorStakeInfo.validatorAccount).Nodup)
    (hroom : V.length ≤ maxValidators) :
    (adding epoch).AllowsAll V names ↔
      (V.map ValidatorStakeInfo.validatorAccount ++ names).Nodup ∧
        V.length + names.length ≤ maxValidators := by
  induction names generalizing V with
  | nil => simp [ListEdit.AllowsAll, hnodup, hroom]
  | cons v names ih =>
      have hnames : ((adding epoch).apply V v).map ValidatorStakeInfo.validatorAccount =
          V.map ValidatorStakeInfo.validatorAccount ++ [v] := by
        simp [adding]
      have hlength : ((adding epoch).apply V v).length = V.length + 1 := by
        simp [adding]
      have hassoc : V.map ValidatorStakeInfo.validatorAccount ++ v :: names =
          (V.map ValidatorStakeInfo.validatorAccount ++ [v]) ++ names := by simp
      rw [ListEdit.AllowsAll, hassoc, List.length_cons]
      constructor
      · rintro ⟨⟨hnew, hlt⟩, hrest⟩
        have hnodup' : (V.map ValidatorStakeInfo.validatorAccount ++ [v]).Nodup := by
          rw [List.nodup_append]
          refine ⟨hnodup, List.nodup_singleton v, ?_⟩
          rintro a ha b hb rfl
          exact hnew (List.mem_singleton.mp hb ▸ ha)
        rw [ih (by rw [hnames]; exact hnodup') (by omega), hnames, hlength] at hrest
        exact ⟨hrest.1, by omega⟩
      · rintro ⟨hall, hlt⟩
        have hnodup' := hall.of_append_left
        refine ⟨⟨?_, by omega⟩, (ih (by rw [hnames]; exact hnodup') (by omega)).mpr ?_⟩
        · rw [List.nodup_append] at hnodup'
          intro hmem
          exact hnodup'.2.2 v hmem v (List.mem_singleton_self v) rfl
        · rw [hnames, hlength]
          exact ⟨hall, by omega⟩

theorem foldl_removing : names.foldl removing.apply V =
    V.filter fun r => r.validatorAccount ∉ names := by
  induction names generalizing V with
  | nil => simp
  | cons v names ih =>
      rw [List.foldl_cons, ih]
      simp only [removing, List.filter_filter, List.mem_cons, not_or, Bool.decide_and]
      refine List.filter_congr fun r _ => ?_
      exact Bool.and_comm _ _

/-- Different validators without stake accounts can all be removed. -/
theorem removing_allowsAll (hnodup : names.Nodup)
    (hempty : ∀ v ∈ names, removing.allowed V v) : removing.AllowsAll V names := by
  induction names generalizing V with
  | nil => trivial
  | cons v names ih =>
      rw [List.nodup_cons] at hnodup
      rw [List.forall_mem_cons] at hempty
      refine ⟨hempty.1, ih hnodup.2 ?_⟩
      intro w hw
      obtain ⟨r, hr, rfl, hcount⟩ := hempty.2 w hw
      refine ⟨r, List.mem_filter.mpr ⟨hr, ?_⟩, rfl, hcount⟩
      rw [decide_eq_true_eq]
      rintro rfl
      exact hnodup.1 hw

end Edits

theorem removeRecord_eq_ok {V V' : List ValidatorStakeInfo}
    (hnodup : (V.map ValidatorStakeInfo.validatorAccount).Nodup) :
    removeRecord v V = .ok V' ↔
      (∃ r ∈ V, r.validatorAccount = v ∧ r.stakeCount = 0) ∧
        V' = V.filter fun r => r.validatorAccount ≠ v := by
  unfold removeRecord
  cases hfound : lookup ValidatorStakeInfo.validatorAccount v V with
  | none =>
      have hnone := lookup_eq_none_iff.mp hfound
      refine iff_of_false nofun ?_
      rintro ⟨⟨r, hr, hname, -⟩, -⟩
      exact hnone r hr hname
  | some r =>
      have hname : r.validatorAccount = v := lookup_key hfound
      simp only [bind_eq_ok, require_eq_ok, pure_eq_ok, eraseP_key_of_nodup hnodup]
      constructor
      · rintro ⟨-, hcount, rfl⟩
        exact ⟨⟨r, lookup_mem hfound, hname, UInt32.le_zero_iff.mp (UInt32.not_lt.mp hcount)⟩, rfl⟩
      · rintro ⟨⟨r', hr', hname', hcount⟩, rfl⟩
        have hsame := lookup_of_mem hnodup hr'
        rw [hname', hfound, Option.some.injEq] at hsame
        refine ⟨(), ?_, rfl⟩
        rw [hsame, hcount]
        decide

section Handlers

variable (h : (D.system D.Outside).Reachable x)
  (haddressed : D.Addressed (D.ownerAccounts payer (D.stateOf x.ledger).pool v))

variable (payer v) in
include h in
/-- The list loads for the owner while the pool is up to date. -/
theorem loadForOwner_sent (hfresh : D.UpToDate x) :
    ∃ a, ValidatorAccounts.parse x (D.ownerAccounts payer (D.stateOf x.ledger).pool v) = .ok a ∧
      a.validator.key = v ∧
      a.validatorStakeList.key = (D.stateOf x.ledger).pool.validatorStakeList ∧
      loadForOwner D.programs D.programId x a = .ok (D.stateOf x.ledger).list := by
  obtain ⟨hrep, hkeys⟩ := keysUnique_invariant.reachable h
  refine ⟨_, rfl, rfl, rfl, ?_⟩
  simp only [loadForOwner, bind_eq_ok, require_eq_ok]
  exact ⟨_, hrep.loadStakePool_ok rfl, (), StakePool.checkOwner_eq_ok.mpr ⟨rfl, rfl⟩, (),
    UInt64.not_lt.mpr hfresh, hrep.loadValidatorStakeList_ok rfl hkeys.validators_length⟩

include h haddressed

theorem addValidator_succeeds_iff :
    (∃ L, dispatch D.programs D.programId .addValidator
      (D.ownerAccounts payer (D.stateOf x.ledger).pool v) x = .ok L) ↔
      D.UpToDate x ∧ (adding x.clock.epoch).allowed (D.validators x) v := by
  obtain ⟨hrep, hkeys⟩ := keysUnique_invariant.reachable h
  constructor
  · rintro ⟨L, hrun⟩
    obtain ⟨a, hparse, hfresh, hroom, hnew, -⟩ := processAddValidator_ok hrep haddressed hrun
    obtain rfl := Except.ok.inj hparse
    refine ⟨hfresh, ?_, hroom⟩
    intro hmem
    obtain ⟨r, hr, hname⟩ := List.mem_map.mp hmem
    exact hnew r hr hname
  · rintro ⟨hfresh, hnew, hroom⟩
    obtain ⟨a, hparse, hvalidator, hlist, hload⟩ := loadForOwner_sent payer v h hfresh
    obtain ⟨L, hstore⟩ := hrep.store_list_ok { (D.stateOf x.ledger).list with
      validators := D.validators x ++ [⟨v, 0, x.clock.epoch, 0⟩] } (by simpa using hroom)
    refine ⟨L, ?_⟩
    change processAddValidator D.programs D.programId _ x = .ok L
    simp only [processAddValidator, bind_eq_ok, require_eq_ok]
    rw [← hlist] at hstore
    rw [← hvalidator] at hnew hstore
    refine ⟨a, hparse, _, hload, (), Nat.not_le.mpr hroom, (), ?_, hstore⟩
    intro hlisted
    apply hnew
    simp only [ValidatorStakeList.contains, List.any_eq_true, decide_eq_true_eq] at hlisted
    exact List.mem_map.mpr hlisted

theorem addValidator_becomes {L : Ledger}
    (hrun : dispatch D.programs D.programId .addValidator
      (D.ownerAccounts payer (D.stateOf x.ledger).pool v) x = .ok L) :
    ListBecomes D ((adding x.clock.epoch).apply (D.validators x) v) x { x with ledger := L } := by
  obtain ⟨a, hparse, -, -, -, h'⟩ :=
    processAddValidator_ok (reachable_represents h) haddressed hrun
  obtain rfl := Except.ok.inj hparse
  exact ⟨h'.eq_stateOf.symm, rfl, .step (e := .instruction .addValidator _) h
    ⟨haddressed, L, hrun, rfl⟩⟩

theorem removeValidator_sent_iff :
    (∃ L, dispatch D.programs D.programId .removeValidator
      (D.ownerAccounts payer (D.stateOf x.ledger).pool v) x = .ok L) ↔
      D.UpToDate x ∧ removing.allowed (D.validators x) v := by
  obtain ⟨hrep, hkeys⟩ := keysUnique_invariant.reachable h
  constructor
  · rintro ⟨L, hrun⟩
    obtain ⟨a, V, hparse, hfresh, hremove, -⟩ := processRemoveValidator_ok hrep haddressed hrun
    obtain rfl := Except.ok.inj hparse
    exact ⟨hfresh, ((removeRecord_eq_ok hkeys.validators).mp hremove).1⟩
  · rintro ⟨hfresh, hempty⟩
    obtain ⟨a, hparse, hvalidator, hlist, hload⟩ := loadForOwner_sent payer v h hfresh
    have hremove := (removeRecord_eq_ok hkeys.validators).mpr ⟨hempty, rfl⟩
    obtain ⟨L, hstore⟩ := hrep.store_list_ok
      { (D.stateOf x.ledger).list with validators := removing.apply (D.validators x) v }
      (le_trans (List.length_filter_le _ _) hkeys.validators_length)
    refine ⟨L, ?_⟩
    change processRemoveValidator D.programs D.programId _ x = .ok L
    simp only [processRemoveValidator, bind_eq_ok]
    rw [← hlist] at hstore
    rw [← hvalidator] at hremove hstore
    exact ⟨a, hparse, _, hload, _, hremove, hstore⟩

theorem removeValidator_becomes {L : Ledger}
    (hrun : dispatch D.programs D.programId .removeValidator
      (D.ownerAccounts payer (D.stateOf x.ledger).pool v) x = .ok L) :
    ListBecomes D (removing.apply (D.validators x) v) x { x with ledger := L } := by
  obtain ⟨hrep, hkeys⟩ := keysUnique_invariant.reachable h
  obtain ⟨a, V, hparse, -, hremove, h'⟩ := processRemoveValidator_ok hrep haddressed hrun
  obtain rfl := Except.ok.inj hparse
  obtain ⟨-, rfl⟩ := (removeRecord_eq_ok hkeys.validators).mp hremove
  exact ⟨h'.eq_stateOf.symm, rfl, .step (e := .instruction .removeValidator _) h
    ⟨haddressed, L, hrun, rfl⟩⟩

end Handlers

/-! ## One transaction for each validator -/

section Loop

variable {edit : ListEdit} {f : Pubkey → Session Unit} {fits : Pubkey → Prop}

/-- A loop whose turns make one change of the list each. -/
theorem forM_edits
    (hturn : ∀ x v, (D.system D.Outside).Reachable x →
      (D.stateOf x.ledger).pool = (D.stateOf c.ledger).pool → x.clock = c.clock →
      ((∃ x', f v x = .ok () x') ↔ D.UpToDate x ∧ edit.allowed (D.validators x) v ∧ fits v) ∧
        ∀ x', f v x = .ok () x' → ListBecomes D (edit.apply (D.validators x) v) x x') :
    ∀ (names : List Pubkey) {x : Chain}, (D.system D.Outside).Reachable x →
      (D.stateOf x.ledger).pool = (D.stateOf c.ledger).pool → x.clock = c.clock →
      ((∃ x', forM names f x = .ok () x') ↔
        names = [] ∨ D.UpToDate x ∧ edit.AllowsAll (D.validators x) names ∧
          ∀ v ∈ names, fits v) ∧
      ∀ x', forM names f x = .ok () x' →
        ListBecomes D (names.foldl edit.apply (D.validators x)) x x' := by
  intro names
  induction names with
  | nil =>
      intro x h _ _
      refine ⟨iff_of_true ⟨x, rfl⟩ (.inl rfl), ?_⟩
      intro x' hrun
      obtain ⟨-, rfl⟩ := EStateM.Result.ok.inj hrun
      exact .refl h
  | cons v names ih =>
      intro x h hpool hclock
      obtain ⟨hiff, hnext⟩ := hturn x v h hpool hclock
      have hrest : ∀ y, f v x = .ok () y → _ := fun y hy =>
        ih (hnext y hy).reachable ((hnext y hy).pool_eq.trans hpool)
          ((hnext y hy).clock.trans hclock)
      constructor
      · constructor
        · rintro ⟨x', hrun⟩
          obtain ⟨⟨⟩, y, hfirst, hlater⟩ := run_bind_eq_ok.mp hrun
          obtain ⟨hfresh, hallowed, hfits⟩ := hiff.mp ⟨y, hfirst⟩
          refine .inr ⟨hfresh, ?_⟩
          rcases (hrest y hfirst).1.mp ⟨x', hlater⟩ with rfl | ⟨-, hall, hfits'⟩
          · exact ⟨⟨hallowed, trivial⟩, List.forall_mem_singleton.mpr hfits⟩
          · rw [(hnext y hfirst).validators_eq] at hall
            exact ⟨⟨hallowed, hall⟩, List.forall_mem_cons.mpr ⟨hfits, hfits'⟩⟩
        · rintro (hnil | ⟨hfresh, ⟨hallowed, hall⟩, hfits⟩)
          · cases hnil
          · rw [List.forall_mem_cons] at hfits
            obtain ⟨y, hfirst⟩ := hiff.mpr ⟨hfresh, hallowed, hfits.1⟩
            rw [← (hnext y hfirst).validators_eq] at hall
            obtain ⟨x', hlater⟩ := (hrest y hfirst).1.mpr
              (.inr ⟨(hnext y hfirst).upToDate_iff.mpr hfresh, hall, hfits.2⟩)
            exact ⟨x', run_bind_eq_ok.mpr ⟨(), y, hfirst, hlater⟩⟩
      · intro x' hrun
        obtain ⟨⟨⟩, y, hfirst, hlater⟩ := run_bind_eq_ok.mp hrun
        have hlist := (hrest y hfirst).2 x' hlater
        rw [(hnext y hfirst).validators_eq] at hlist
        exact (hnext y hfirst).trans hlist

end Loop

section Commands

variable (hshows : network.Shows) (hpayer : ¬D.programs.IsProgramAddress D.programId payer)
  (howner : ¬D.programs.IsProgramAddress D.programId (D.stateOf c.ledger).pool.owner)
  (h : (D.system D.Outside).Reachable c) (hthis : this.Serves D (D.stateOf c.ledger).pool)

section Turn

variable {tag : UInt8} {instruction : StakePoolInstruction}

include hpayer howner in
theorem ownerAccounts_addressed :
    D.Addressed (D.ownerAccounts payer (D.stateOf c.ledger).pool v) := by
  refine TransactionItem.accounts_addressed ?_ ?_
  · intro key hkey
    rcases List.mem_pair.mp hkey with rfl | rfl
    · exact hpayer
    · exact howner
  · simp [signers, plainKey, signerKey]

include hthis in
/-- The client sends what it built for the owner. -/
theorem TenderizeProgram.send_owner
    {build : Except JsError TransactionInstruction} (hbuild : build =
      .ok ⟨this.validatorListKeys v, this.programId, [tag]⟩)
    (hpool : (D.stateOf x.ledger).pool = (D.stateOf c.ledger).pool)
    (hdecode : StakePoolInstruction.deserialize [tag] = .ok instruction) :
    send D.programs network (fun _ => build) [payer, this.owner] x = .ok () x' ↔
      network.Fits build ∧ ∃ L, dispatch D.programs D.programId instruction
        (D.ownerAccounts payer (D.stateOf x.ledger).pool v) x = .ok L ∧
        x' = { x with ledger := L } := by
  rw [hbuild, TenderizeProgram.send_built rfl (by
    simp [validatorListKeys, signers, plainKey, signerKey])]
  simp only [validatorListKeys, process, hdecode, ok_bind, hpool, Deployment.ownerAccounts,
    hthis.programId, hthis.stakePool, hthis.owner, hthis.list]

end Turn

include hpayer howner hthis in
theorem addValidator_turn (x : Chain) (v : Pubkey) (hx : (D.system D.Outside).Reachable x)
    (hpool : (D.stateOf x.ledger).pool = (D.stateOf c.ledger).pool) (hclock : x.clock = c.clock) :
    ((∃ x', this.addValidator D.programs network payer v x = .ok () x') ↔
      D.UpToDate x ∧ (adding c.clock.epoch).allowed (D.validators x) v ∧
        network.Fits (this.addValidatorInstruction v)) ∧
    ∀ x', this.addValidator D.programs network payer v x = .ok () x' →
      ListBecomes D ((adding c.clock.epoch).apply (D.validators x) v) x x' := by
  have haddressed : D.Addressed (D.ownerAccounts payer (D.stateOf x.ledger).pool v) := by
    rw [hpool]
    exact ownerAccounts_addressed hpayer howner
  have hsend : ∀ x', this.addValidator D.programs network payer v x = .ok () x' ↔ _ :=
    fun x' => TenderizeProgram.send_owner hthis rfl hpool rfl
  rw [← hclock]
  constructor
  · rw [← and_assoc, ← addValidator_succeeds_iff hx haddressed]
    exact exists_sent_iff hsend
  · intro x' hrun
    obtain ⟨-, L, hL, rfl⟩ := (hsend x').mp hrun
    exact addValidator_becomes hx haddressed hL

include hpayer howner hthis in
theorem removeValidator_turn (x : Chain) (v : Pubkey) (hx : (D.system D.Outside).Reachable x)
    (hpool : (D.stateOf x.ledger).pool = (D.stateOf c.ledger).pool) (_ : x.clock = c.clock) :
    ((∃ x', this.removeValidator D.programs network payer v x = .ok () x') ↔
      D.UpToDate x ∧ removing.allowed (D.validators x) v ∧
        network.Fits (this.removeValidatorInstruction v)) ∧
    ∀ x', this.removeValidator D.programs network payer v x = .ok () x' →
      ListBecomes D (removing.apply (D.validators x) v) x x' := by
  have haddressed : D.Addressed (D.ownerAccounts payer (D.stateOf x.ledger).pool v) := by
    rw [hpool]
    exact ownerAccounts_addressed hpayer howner
  have hsend : ∀ x', this.removeValidator D.programs network payer v x = .ok () x' ↔ _ :=
    fun x' => TenderizeProgram.send_owner hthis rfl hpool rfl
  constructor
  · rw [← and_assoc, ← removeValidator_sent_iff hx haddressed]
    exact exists_sent_iff hsend
  · intro x' hrun
    obtain ⟨-, L, hL, rfl⟩ := (hsend x').mp hrun
    exact removeValidator_becomes hx haddressed hL

variable (D) in
/-- The validators that `vadd` has to add. -/
def Deployment.additions (network : Network) (votes : List Pubkey) (c : Chain) : List Pubkey :=
  if votes.length = 0 then
    (network.voteAccounts c).filter fun v =>
      v ∉ (D.validators c).map ValidatorStakeInfo.validatorAccount
  else votes

include hshows h hthis in
theorem readValidators_shown : network.ask
    (fun connection => this.readValidators connection.reader) c =
      .ok ((D.validators c).map ValidatorInfo.ofStored) c := by
  obtain ⟨hrep, hkeys⟩ := keysUnique_invariant.reachable h
  exact Network.ask_eq_ok.mpr ⟨TenderizeProgram.readValidators_represented hrep (hshows c)
    hkeys.validators_length hthis.list, rfl⟩

include hshows h hthis in
theorem vadd_eq (votes : List Pubkey) :
    this.vadd D.programs network payer votes c =
      forM (D.additions network votes c) (this.addValidator D.programs network payer) c := by
  unfold TenderizeProgram.vadd Deployment.additions
  by_cases hvotes : votes.length = 0
  · rw [if_pos hvotes, if_pos hvotes]
    have hnames : ((network.voteAccounts c).filter fun v =>
        ¬((D.validators c).map ValidatorInfo.ofStored).any fun info => info.votePubkey = v) =
        (network.voteAccounts c).filter fun v =>
          v ∉ (D.validators c).map ValidatorStakeInfo.validatorAccount := by
      refine List.filter_congr fun v _ => ?_
      rw [decide_eq_decide, List.any_map, List.any_eq_true, List.mem_map]
      exact not_congr (exists_congr fun r => and_congr_right fun _ => decide_eq_true_iff)
    rw [← hnames]
    exact run_bind_of_ok (readValidators_shown hshows h hthis)
  · rw [if_neg hvotes, if_neg hvotes]
    rfl

include hshows h hthis in
theorem vrem_eq : this.vrem D.programs network payer [] c =
    forM (((D.validators c).filter fun r => r.stakeCount = 0).map
      ValidatorStakeInfo.validatorAccount) (this.removeValidator D.programs network payer) c := by
  unfold TenderizeProgram.vrem
  rw [if_pos List.length_nil]
  have hnames : ((((D.validators c).map ValidatorInfo.ofStored).filter fun info =>
      info.stakeCount = 0).map ValidatorInfo.votePubkey) =
      ((D.validators c).filter fun r => r.stakeCount = 0).map
        ValidatorStakeInfo.validatorAccount := by
    rw [List.filter_map, List.map_map]
    congr 1
    refine List.filter_congr fun r _ => ?_
    rw [Function.comp_apply, decide_eq_decide]
    exact UInt32.toNat_inj (b := 0)
  rw [← hnames]
  exact run_bind_of_ok (readValidators_shown hshows h hthis)

end Commands

/-- `vadd` gets through if there is nothing to add, or the pool is up to date, no validator is
listed twice, and the list has room for all.  It then appends them with empty records. -/
theorem vadd_extends (h : (D.system D.Outside).Reachable c) (hshows : network.Shows)
    (hpayer : ¬D.programs.IsProgramAddress D.programId payer)
    (howner : ¬D.programs.IsProgramAddress D.programId (D.stateOf c.ledger).pool.owner)
    (hthis : this.Serves D (D.stateOf c.ledger).pool) (votes : List Pubkey) :
    ((∃ c', this.vadd D.programs network payer votes c = .ok () c') ↔
      D.additions network votes c = [] ∨
        D.UpToDate c ∧
        ((D.validators c).map ValidatorStakeInfo.validatorAccount ++
          D.additions network votes c).Nodup ∧
        (D.validators c).length + (D.additions network votes c).length ≤ maxValidators ∧
        ∀ v ∈ D.additions network votes c, network.Fits (this.addValidatorInstruction v)) ∧
    ∀ c', this.vadd D.programs network payer votes c = .ok () c' →
      ListBecomes D (D.validators c ++
        (D.additions network votes c).map fun v => ⟨v, 0, c.clock.epoch, 0⟩) c c' := by
  obtain ⟨-, hkeys⟩ := keysUnique_invariant.reachable h
  have hnodup : ((D.validators c).map ValidatorStakeInfo.validatorAccount).Nodup :=
    hkeys.validators
  have hloop := forM_edits (f := this.addValidator D.programs network payer)
    (addValidator_turn hpayer howner hthis) (D.additions network votes c) h rfl rfl
  rw [foldl_adding, adding_allowsAll_iff hnodup hkeys.validators_length,
    and_assoc (a := List.Nodup _)] at hloop
  rw [vadd_eq hshows h hthis]
  exact hloop

/-- `vrem` without arguments gets through if there is nothing to remove or the pool is up to
date.  It then leaves the validators that have stake accounts. -/
theorem vrem_prunes (h : (D.system D.Outside).Reachable c) (hshows : network.Shows)
    (hpayer : ¬D.programs.IsProgramAddress D.programId payer)
    (howner : ¬D.programs.IsProgramAddress D.programId (D.stateOf c.ledger).pool.owner)
    (hthis : this.Serves D (D.stateOf c.ledger).pool) :
    ((∃ c', this.vrem D.programs network payer [] c = .ok () c') ↔
      (∀ r ∈ D.validators c, r.stakeCount ≠ 0) ∨
        D.UpToDate c ∧ ∀ r ∈ D.validators c, r.stakeCount = 0 →
          network.Fits (this.removeValidatorInstruction r.validatorAccount)) ∧
    ∀ c', this.vrem D.programs network payer [] c = .ok () c' →
      ListBecomes D ((D.validators c).filter fun r => r.stakeCount ≠ 0) c c' := by
  obtain ⟨-, hkeys⟩ := keysUnique_invariant.reachable h
  have hnodup : ((D.validators c).map ValidatorStakeInfo.validatorAccount).Nodup :=
    hkeys.validators
  obtain ⟨hiff, hlist⟩ := forM_edits (f := this.removeValidator D.programs network payer)
    (removeValidator_turn hpayer howner hthis)
    (((D.validators c).filter fun r => r.stakeCount = 0).map ValidatorStakeInfo.validatorAccount)
    h rfl rfl
  rw [vrem_eq hshows h hthis]
  have hallowed : removing.AllowsAll (D.validators c)
      (((D.validators c).filter fun r => r.stakeCount = 0).map
        ValidatorStakeInfo.validatorAccount) := by
    refine removing_allowsAll (hnodup.sublist (List.filter_sublist.map _)) ?_
    intro v hv
    obtain ⟨r, hr, rfl⟩ := List.mem_map.mp hv
    rw [List.mem_filter, decide_eq_true_eq] at hr
    exact ⟨r, hr.1, rfl, hr.2⟩
  constructor
  · rw [hiff, iff_true_intro hallowed, true_and, List.map_eq_nil_iff, List.filter_eq_nil_iff,
      List.forall_mem_map]
    simp only [List.mem_filter, decide_eq_true_eq, and_imp, ne_eq]
  · intro c' hrun
    have hafter := hlist c' hrun
    rw [foldl_removing] at hafter
    have hsame : ((D.validators c).filter fun r => r.validatorAccount ∉
        ((D.validators c).filter fun r => r.stakeCount = 0).map
          ValidatorStakeInfo.validatorAccount) =
        (D.validators c).filter fun r => r.stakeCount ≠ 0 := by
      refine List.filter_congr fun r hr => ?_
      rw [decide_eq_decide]
      refine not_congr ⟨?_, ?_⟩
      · intro hmem
        obtain ⟨r', hr', hname⟩ := List.mem_map.mp hmem
        rw [List.mem_filter, decide_eq_true_eq] at hr'
        have hfound := lookup_of_mem hnodup hr'.1
        rw [hname, lookup_of_mem hnodup hr, Option.some.injEq] at hfound
        rw [hfound]
        exact hr'.2
      · intro hcount
        exact List.mem_map_of_mem (List.mem_filter.mpr ⟨hr, decide_eq_true hcount⟩)
    rw [hsame] at hafter
    exact hafter

section

open Reference

/-- What is read off a run before validators are added or removed. -/
def commandView (c : Chain) : List Pubkey × Bool × List ValidatorStakeInfo :=
  (clientKeys (deployment.stateOf c.ledger).pool,
    decide (c.clock.epoch ≤ (deployment.stateOf c.ledger).pool.lastUpdateEpoch),
    deployment.validators c)

theorem served_owner_not_address {pool : StakePool} (h : ownerClient.Serves deployment pool) :
    ¬deployment.programs.IsProgramAddress deployment.programId pool.owner := by
  rw [← h.owner]
  exact not_isProgramAddress (by decide)

theorem vadd_extends_twoNames :
    ∃ c c', execute anything [addValidator validatorKey] = .ok c ∧
      ownerClient.vadd programs node userKey [friendKey, userKey] c = .ok () c' ∧
      deployment.validators c' =
        [⟨validatorKey, 0, 0, 0⟩, ⟨friendKey, 0, 0, 0⟩, ⟨userKey, 0, 0, 0⟩] := by
  have hrun : (execute anything [addValidator validatorKey]).map
      (fun c => (commandView c, c.clock.epoch)) =
      .ok (([ownerKey, listKey, creditListKey, mintKey], true, [⟨validatorKey, 0, 0, 0⟩]), 0) := by
    decide +kernel
  obtain ⟨c, hc, hview⟩ := map_eq_ok.mp hrun
  simp only [commandView, Prod.mk.injEq, decide_eq_true_eq] at hview
  obtain ⟨⟨hkeys, hfresh, hlist⟩, hepoch⟩ := hview
  have hpayer : ¬deployment.programs.IsProgramAddress deployment.programId userKey :=
    not_isProgramAddress (by decide)
  have hthis := ownerClient_serves hkeys
  have howner := served_owner_not_address hthis
  obtain ⟨hiff, hafter⟩ := vadd_extends (execute_anything_reachable hc) node_shows hpayer howner
    hthis [friendKey, userKey]
  have hadditions : deployment.additions node [friendKey, userKey] c = [friendKey, userKey] := rfl
  rw [hadditions, hlist] at hiff hafter
  obtain ⟨c', hsession⟩ := hiff.mpr
    (.inr ⟨hfresh, by decide, by decide, fun v _ => node_fits _⟩)
  refine ⟨c, c', hc, hsession, ?_⟩
  rw [(hafter c' hsession).validators_eq, hepoch]
  rfl

/-- One of two validators has a stake account. -/
def oneStaked : List Action :=
  [.pay userKey Reference.reserveKey 1000000000, addValidator friendKey,
    addValidator validatorKey, delegate [⟨100000000, 0⟩]]

theorem vrem_prunes_oneStaked :
    ∃ c c', execute anything oneStaked = .ok c ∧
      ownerClient.vrem programs node userKey [] c = .ok () c' ∧
      deployment.validators c = [⟨friendKey, 0, 0, 0⟩, ⟨validatorKey, 100000000, 0, 1⟩] ∧
      deployment.validators c' = [⟨validatorKey, 100000000, 0, 1⟩] := by
  have hrun : (execute anything oneStaked).map commandView =
      .ok ([ownerKey, listKey, creditListKey, mintKey], true,
        [⟨friendKey, 0, 0, 0⟩, ⟨validatorKey, 100000000, 0, 1⟩]) := by
    decide +kernel
  obtain ⟨c, hc, hview⟩ := map_eq_ok.mp hrun
  simp only [commandView, Prod.mk.injEq, decide_eq_true_eq] at hview
  obtain ⟨hkeys, hfresh, hlist⟩ := hview
  have hpayer : ¬deployment.programs.IsProgramAddress deployment.programId userKey :=
    not_isProgramAddress (by decide)
  have hthis := ownerClient_serves hkeys
  have howner := served_owner_not_address hthis
  obtain ⟨hiff, hafter⟩ := vrem_prunes (execute_anything_reachable hc) node_shows hpayer howner
    hthis
  obtain ⟨c', hsession⟩ := hiff.mpr (.inr ⟨hfresh, fun r _ _ => node_fits _⟩)
  refine ⟨c, c', hc, hsession, hlist, ?_⟩
  rw [(hafter c' hsession).validators_eq, hlist]
  decide

end

end Tenderize
