import Tenderize.Spec.Moves
import Tenderize.Spec.Steps

/-!
# Runs of stake steps

A handler makes several moves and then writes the records back or leaves the stored ones
alone.  A property of single records holds afterwards if every move keeps it for the record
it replaces and, when nothing is written back, for the stored record of the validator.
`ListEffect` says once what any step of the pool does to the records.
-/

namespace Tenderize

open Support

/-- What the stake accounts of a record are found by. -/
def ValidatorStakeInfo.place (r : ValidatorStakeInfo) : Pubkey × UInt32 :=
  (r.validatorAccount, r.stakeCount)

namespace Deployment

variable (D : Deployment) (W : Set Pubkey)

/-- The validators of a list are different and all in `W`. -/
structure Listed (V : List ValidatorStakeInfo) : Prop where
  nodup : (V.map ValidatorStakeInfo.validatorAccount).Nodup
  names : ∀ r ∈ V, r.validatorAccount ∈ W

/-- One validator moved. -/
def MoveStep (fits : Prop) (b b' : Books) : Prop :=
  ∃ v r r', D.Moved W v r r' b b' ∧ (fits → D.Counted v r r' b b')

/-- A property of a record and its own stake accounts that moves keep, of the record they
replace and of a stored record that is not written. -/
structure RecordRule (fits : Prop) (P : (Pubkey → Nat) → ValidatorStakeInfo → Prop) : Prop where
  mono : ∀ σ σ' r,
    (∀ i, σ (D.stakeKey r.validatorAccount i) ≤ σ' (D.stakeKey r.validatorAccount i)) →
    P σ r → P σ' r
  new : ∀ σ v epoch, P σ ⟨v, 0, epoch, 0⟩
  move : ∀ v r r' b b', D.Moved W v r r' b b' → (fits → D.Counted v r r' b b') →
    P b.stakes r → P b'.stakes r'
  stored : ∀ v r r' b b' r₀, D.Unwritten v r r' b b' → r'.stakeCount = r.stakeCount →
    r₀.place = (v, r.stakeCount) → P b.books.stakes r₀ → P b'.books.stakes r₀

variable {D W} {fits : Prop} {P : (Pubkey → Nat) → ValidatorStakeInfo → Prop}

/-! ## One move -/

section Move

variable {v : Pubkey} {r r' : ValidatorStakeInfo} {b b' : Books}

theorem Moved.names_eq (h : D.Moved W v r r' b b') :
    b'.validators.map ValidatorStakeInfo.validatorAccount =
      b.validators.map ValidatorStakeInfo.validatorAccount := by
  rw [h.validators, putRecord, h.name]
  exact map_key_updateFirst h.found h.name

theorem Listed.of_names_eq {V V' : List ValidatorStakeInfo} (hV : Listed W V)
    (h : V'.map ValidatorStakeInfo.validatorAccount =
      V.map ValidatorStakeInfo.validatorAccount) : Listed W V' where
  nodup := h ▸ hV.nodup
  names := by
    intro r hr
    have hmem : r.validatorAccount ∈ V.map ValidatorStakeInfo.validatorAccount := by
      rw [← h]
      exact List.mem_map_of_mem hr
    obtain ⟨r₀, hr₀, heq⟩ := List.mem_map.mp hmem
    rw [← heq]
    exact hV.names r₀ hr₀

/-- A record after the move is the new one, or one of another validator. -/
theorem Moved.mem (h : D.Moved W v r r' b b') (hV : Listed W b.validators)
    {x : ValidatorStakeInfo} (hx : x ∈ b'.validators) :
    x = r' ∨ x ∈ b.validators ∧ x.validatorAccount ≠ v := by
  rw [h.validators, putRecord, h.name] at hx
  exact mem_updateFirst_of_nodup hV.nodup h.found h.name hx

theorem Moved.records (h : D.Moved W v r r' b b') (hV : Listed W b.validators)
    (hcounted : fits → D.Counted v r r' b b') (hrule : D.RecordRule W fits P)
    (hP : ∀ x ∈ b.validators, P b.stakes x) : ∀ x ∈ b'.validators, P b'.stakes x := by
  intro x hx
  rcases h.mem hV hx with rfl | ⟨hold, hne⟩
  · exact hrule.move v r x b b' h hcounted (hP r (lookup_mem h.found))
  · apply hrule.mono _ _ _ _ (hP x hold)
    intro i
    exact (h.others _ (hV.names x hold) hne i).ge

end Move

/-! ## Runs of moves -/

section Run

variable {b b' : Books}

theorem moveRun_listed (h : Relation.ReflTransGen (D.MoveStep W fits) b b')
    (hV : Listed W b.validators) : Listed W b'.validators := by
  induction h with
  | refl => exact hV
  | tail _ hstep ih =>
      obtain ⟨v, r, r', hmoved, -⟩ := hstep
      exact ih.of_names_eq hmoved.names_eq

theorem moveRun_records (h : Relation.ReflTransGen (D.MoveStep W fits) b b')
    (hV : Listed W b.validators) (hrule : D.RecordRule W fits P)
    (hP : ∀ x ∈ b.validators, P b.stakes x) : ∀ x ∈ b'.validators, P b'.stakes x := by
  induction h with
  | refl => exact hP
  | tail hrun hstep ih =>
      obtain ⟨v, r, r', hmoved, hcounted⟩ := hstep
      exact hmoved.records (moveRun_listed hrun hV) hcounted hrule ih

end Run

/-! ## Batches -/

section Batch

variable {b b' : Batch}

theorem BatchStep.imp {fits' : Prop} (himp : fits' → fits) (h : D.BatchStep W fits b b') :
    D.BatchStep W fits' b b' := by
  rcases h with hsame | ⟨v, r, r', hmoved, hunwritten, hcounted⟩
  · exact .inl hsame
  · exact .inr ⟨v, r, r', hmoved, hunwritten, fun hfits => hcounted (himp hfits)⟩

theorem batchRun_moves (h : Relation.ReflTransGen (D.BatchStep W fits) b b') :
    Relation.ReflTransGen (D.MoveStep W fits) b.books b'.books := by
  induction h with
  | refl => exact .refl
  | tail _ hstep ih =>
      rcases hstep with rfl | ⟨v, r, r', hmoved, -, hcounted⟩
      · exact ih
      · exact ih.tail ⟨v, r, r', hmoved, hcounted⟩

/-- A loop whose every step is a step of a batch. -/
theorem RunList.batchRun {E : Type} {step : E → Batch → Batch → Prop} {es : List E}
    (hstep : ∀ e ∈ es, ∀ b b', (∀ r ∈ b.books.validators, r.validatorAccount ∈ W) →
      step e b b' → D.BatchStep W fits b b')
    (h : RunList step es b b') (hV : Listed W b.books.validators) :
    Relation.ReflTransGen (D.BatchStep W fits) b b' := by
  apply RunList.invariant (I := Relation.ReflTransGen (D.BatchStep W fits) b) _ h .refl
  intro e he x x' hrun hx
  apply hrun.tail
  exact hstep e he x x' (moveRun_listed (batchRun_moves hrun) hV).names hx

/-- A move that is not written back leaves the places of all records. -/
theorem Moved.places_eq {v : Pubkey} {r r' : ValidatorStakeInfo} {b b' : Books}
    (h : D.Moved W v r r' b b') (hcount : r'.stakeCount = r.stakeCount) :
    b'.validators.map ValidatorStakeInfo.place = b.validators.map ValidatorStakeInfo.place := by
  obtain ⟨hname, before, after, hsplit, hupdate⟩ := lookup_eq_some_split h.found
  rw [h.validators, putRecord, h.name, hupdate, hsplit]
  simp [ValidatorStakeInfo.place, h.name, hname, hcount]

theorem batchRun_unchanged (h : Relation.ReflTransGen (D.BatchStep W fits) b b')
    (hunchanged : b'.changed = false) :
    b.changed = false ∧ b'.books.validators.map ValidatorStakeInfo.place =
      b.books.validators.map ValidatorStakeInfo.place := by
  induction h with
  | refl => exact ⟨hunchanged, rfl⟩
  | tail _ hstep ih =>
      rcases hstep with rfl | ⟨v, r, r', hmoved, hunwritten, -⟩
      · exact ih hunchanged
      · obtain ⟨hbefore, hcount⟩ := hunwritten.changed hunchanged
        obtain ⟨hstart, hplaces⟩ := ih hbefore
        rw [hmoved.places_eq hcount]
        exact ⟨hstart, hplaces⟩

/-- Every record has a counterpart in a list with the same places. -/
theorem exists_same_place {V V' : List ValidatorStakeInfo}
    (h : V.map ValidatorStakeInfo.place = V'.map ValidatorStakeInfo.place)
    {r : ValidatorStakeInfo} (hr : r ∈ V) : ∃ r' ∈ V', r'.place = r.place := by
  have hmem : r.place ∈ V.map ValidatorStakeInfo.place := List.mem_map_of_mem hr
  rw [h] at hmem
  exact List.mem_map.mp hmem

/-- The stored records while nothing was written back. -/
theorem batchRun_stored {V₀ : List ValidatorStakeInfo}
    (h : Relation.ReflTransGen (D.BatchStep W fits) b b') (hV : Listed W b.books.validators)
    (hrule : D.RecordRule W fits P)
    (hplaces : V₀.map ValidatorStakeInfo.place = b.books.validators.map ValidatorStakeInfo.place)
    (hP : ∀ x ∈ V₀, P b.books.stakes x) (hunchanged : b'.changed = false) :
    ∀ x ∈ V₀, P b'.books.stakes x := by
  induction h with
  | refl => exact hP
  | @tail m m' hrun hstep ih =>
      rcases hstep with rfl | ⟨v, r, r', hmoved, hunwritten, -⟩
      · exact ih hunchanged
      · obtain ⟨hbefore, hcount⟩ := hunwritten.changed hunchanged
        have hlisted := moveRun_listed (batchRun_moves hrun) hV
        have hsame : V₀.map ValidatorStakeInfo.place =
            m.books.validators.map ValidatorStakeInfo.place := by
          rw [(batchRun_unchanged hrun hbefore).2, hplaces]
        intro x hx
        obtain ⟨y, hy, hyx⟩ := exists_same_place hsame hx
        have hname : y.validatorAccount = x.validatorAccount := congrArg Prod.fst hyx
        by_cases hv : x.validatorAccount = v
        · -- the record of `v` in memory is the one that moves
          have hfound : r = y := by
            have hlookup := lookup_of_mem hlisted.nodup hy
            rw [hname, hv, hmoved.found, Option.some.injEq] at hlookup
            exact hlookup
          apply hrule.stored v r r' m m' x hunwritten hcount _ (ih hbefore x hx)
          rw [← hyx, ← hfound, ValidatorStakeInfo.place, hfound, hname, hv]
        · apply hrule.mono _ _ _ _ (ih hbefore x hx)
          intro i
          have hmem : x.validatorAccount ∈ W := hname ▸ hlisted.names y hy
          exact (hmoved.others _ hmem hv i).ge

end Batch

/-! ## Handlers -/

variable (D W) in
/-- The stake accounts of the pool were moved by a handler: a batch, or a refresh that
always writes its records back. -/
def Restaked (fits : Prop) (s s' : PoolState) : Prop :=
  ∃ b : Batch, s' = s.commit b ∧
    (Relation.ReflTransGen (D.BatchStep W fits) ⟨s.books, false⟩ b ∨
      b.changed = true ∧ Relation.ReflTransGen (D.MoveStep W fits) s.books b.books)

section Handlers

variable {s s' : PoolState}

theorem restaked_delegateReserve {instructions : List (Pubkey × DelegateReserveInstruction)}
    {b : Batch} (hW : D.NoCollision W) (hV : Listed W s.list.validators)
    (h : RunList D.DelegateStep instructions ⟨s.books, false⟩ b) :
    D.Restaked W (∀ p ∈ instructions, p.2.stakeIndex.toNat + 1 < 2 ^ 32) s (s.commit b) := by
  refine ⟨b, rfl, .inl (RunList.batchRun ?_ h hV)⟩
  intro p hp x x' hnames hstep
  exact (hstep.batchStep hW hnames).imp fun hfits => hfits p hp

theorem restaked_mergeStakes {instructions : List MergeStakesInstruction}
    {b : Batch} (hW : D.NoCollision W) (hV : Listed W s.list.validators)
    (h : RunList D.MergeStep instructions ⟨s.books, false⟩ b) :
    D.Restaked W True s (s.commit b) := by
  refine ⟨b, rfl, .inl (RunList.batchRun ?_ h hV)⟩
  intro instruction _ x x' hnames hstep
  exact hstep.batchStep hW hnames

theorem restaked_unstake {instructions : List UnstakeInstruction}
    {b : Batch} (hW : D.NoCollision W) (hV : Listed W s.list.validators)
    (h : RunList D.UnstakeStep instructions ⟨s.books, false⟩ b) :
    D.Restaked W (∀ i ∈ instructions, i.splitIndex.toNat + 1 < 2 ^ 32) s (s.commit b) := by
  refine ⟨b, rfl, .inl (RunList.batchRun ?_ h hV)⟩
  intro instruction hmem x x' hnames hstep
  exact (hstep.batchStep hW hnames).imp fun hfits => hfits instruction hmem

theorem restaked_updateList {epoch : UInt64} {names : List Pubkey} {b : Books}
    (hW : D.NoCollision W) (hV : Listed W s.list.validators)
    (h : RunList (D.RefreshStep epoch) names s.books b) :
    D.Restaked W True s (s.commit ⟨b, true⟩) := by
  refine ⟨⟨b, true⟩, rfl, .inr ⟨rfl, ?_⟩⟩
  apply RunList.invariant (I := Relation.ReflTransGen (D.MoveStep W True) s.books) _ h .refl
  intro v _ x x' hrun hstep
  obtain ⟨r, r', hmoved, hcounted⟩ := hstep.moved hW (moveRun_listed hrun hV).names
  exact hrun.tail ⟨v, r, r', hmoved, fun _ => hcounted⟩

/-- The books in memory at the end: what is stored has their places, reserve and stakes. -/
theorem Restaked.moves (h : D.Restaked W fits s s') :
    ∃ b, Relation.ReflTransGen (D.MoveStep W fits) s.books b ∧
      s'.list.validators.map ValidatorStakeInfo.place =
        b.validators.map ValidatorStakeInfo.place ∧
      s'.reserve = b.reserve ∧ s'.stakes = b.stakes := by
  obtain ⟨b, rfl, hrun | ⟨hchanged, hrun⟩⟩ := h
  · refine ⟨b.books, batchRun_moves hrun, ?_, rfl, rfl⟩
    unfold PoolState.commit
    split
    · rfl
    · rename_i hunchanged
      exact (batchRun_unchanged hrun (by simpa using hunchanged)).2.symm
  · refine ⟨b.books, hrun, ?_, rfl, rfl⟩
    simp [PoolState.commit, hchanged]

theorem Restaked.listed (h : D.Restaked W fits s s') (hV : Listed W s.list.validators) :
    Listed W s'.list.validators := by
  obtain ⟨b, hrun, hplaces, -, -⟩ := h.moves
  apply (moveRun_listed hrun hV).of_names_eq
  have hnames := congrArg (List.map Prod.fst) hplaces
  simpa [ValidatorStakeInfo.place, Function.comp_def] using hnames

theorem Restaked.records (h : D.Restaked W fits s s') (hV : Listed W s.list.validators)
    (hrule : D.RecordRule W fits P)
    (hP : ∀ x ∈ s.list.validators, P s.stakes x) :
    ∀ x ∈ s'.list.validators, P s'.stakes x := by
  obtain ⟨b, rfl, hrun | ⟨hchanged, hrun⟩⟩ := h
  · by_cases hchanged : b.changed = true
    · simp only [PoolState.commit, hchanged, if_true]
      exact moveRun_records (batchRun_moves hrun) hV hrule hP
    · rw [Bool.not_eq_true] at hchanged
      simp only [PoolState.commit, hchanged, Bool.false_eq_true, if_false]
      exact batchRun_stored hrun hV hrule rfl hP hchanged
  · simp only [PoolState.commit, hchanged, if_true]
    exact moveRun_records hrun hV hrule hP

end Handlers

/-! ## All steps -/

variable (D W) in
/-- What a step does to the records and the stake accounts. -/
inductive ListEffect (fits : Prop) (s s' : PoolState) : Prop
  | added (v : Pubkey) (epoch : UInt64) : v ∈ W →
      (∀ r ∈ s.list.validators, r.validatorAccount ≠ v) →
      s'.list.validators = s.list.validators ++ [⟨v, 0, epoch, 0⟩] →
      s'.reserve = s.reserve → s'.stakes = s.stakes → ListEffect fits s s'
  | removed (r : ValidatorStakeInfo) (before after : List ValidatorStakeInfo) :
      s.list.validators = before ++ r :: after → r.stakeCount = 0 →
      s'.list.validators = before ++ after →
      s'.reserve = s.reserve → s'.stakes = s.stakes → ListEffect fits s s'
  | restaked : D.Restaked W fits s s' → ListEffect fits s s'
  | kept : s'.list.validators = s.list.validators →
      (∀ v i, s.stakes (D.stakeKey v i) ≤ s'.stakes (D.stakeKey v i)) → ListEffect fits s s'

end Deployment

/-- A validator that is added is one of `W`. -/
def PoolOp.AddsIn (W : Set Pubkey) (op : PoolOp) : Prop :=
  ∀ v, op = .addValidator v → v ∈ W

/-- No sub-instruction uses the largest stake index as a new one. -/
def PoolOp.Fits : PoolOp → Prop
  | .delegateReserve instructions => ∀ p ∈ instructions, p.2.stakeIndex.toNat + 1 < 2 ^ 32
  | .unstake instructions => ∀ i ∈ instructions, i.splitIndex.toNat + 1 < 2 ^ 32
  | _ => True

theorem removeRecord_ok {v : Pubkey} {V V' : List ValidatorStakeInfo}
    (h : removeRecord v V = .ok V') :
    ∃ r before after, V = before ++ r :: after ∧ r.stakeCount = 0 ∧ V' = before ++ after := by
  unfold removeRecord at h
  split at h
  · rename_i r hfound
    simp only [bind_eq_ok, require_eq_ok, pure_eq_ok] at h
    obtain ⟨-, hcount, rfl⟩ := h
    have hkey : r.validatorAccount = v := lookup_key hfound
    obtain ⟨x, before, after, hbefore, hx, hsplit, herase⟩ :=
      List.exists_of_eraseP (p := fun item : ValidatorStakeInfo => item.validatorAccount = v)
        (lookup_mem hfound) (by simpa using hkey)
    have hxr : x = r := by
      have hlookup : lookup ValidatorStakeInfo.validatorAccount v V = some x := by
        unfold lookup
        rw [hsplit, List.find?_append, List.find?_eq_none.mpr hbefore, List.find?_cons, hx]
        rfl
      rw [hfound] at hlookup
      exact (Option.some.inj hlookup).symm
    refine ⟨r, before, after, hxr ▸ hsplit, ?_, herase⟩
    simpa using hcount
  · cases h

namespace Deployment

variable {D : Deployment} {W : Set Pubkey} {fits : Prop} {s s' : PoolState} {op : PoolOp}
  {P : (Pubkey → Nat) → ValidatorStakeInfo → Prop}

theorem ListEffect.of_step (hW : D.NoCollision W) (hV : Listed W s.list.validators)
    (hadds : op.AddsIn W) (h : PoolStep D s op s') : D.ListEffect W op.Fits s s' := by
  cases h with
  | addValidator v epoch hnew => exact .added v epoch (hadds v rfl) hnew rfl rfl rfl
  | removeValidator v validators hremove =>
      obtain ⟨r, before, after, hsplit, hcount, hafter⟩ := removeRecord_ok hremove
      exact .removed r before after hsplit hcount hafter rfl rfl
  | updateList epoch names b hrun => exact .restaked (restaked_updateList hW hV hrun)
  | delegateReserve instructions b hrun =>
      exact .restaked (restaked_delegateReserve hW hV hrun)
  | mergeStakes instructions b hrun => exact .restaked (restaked_mergeStakes hW hV hrun)
  | unstake instructions b hrun => exact .restaked (restaked_unstake hW hV hrun)
  | withdraw n stakeAmount burnFrom mint mint' credit' reserve' stakes' hw =>
      exact .kept rfl fun v i => hw.stakes_le _
  | payCreditors eligible paid credits' mint' credit' reserve' stakes' hp =>
      exact .kept rfl fun v i => hp.stakes_le _
  | outside quiet credit' reserve' stakes' hout => exact .kept rfl hout.stakes_le
  | _ => exact .kept rfl fun v i => le_rfl

theorem ListEffect.listed (h : D.ListEffect W fits s s') (hV : Listed W s.list.validators) :
    Listed W s'.list.validators := by
  cases h with
  | added v epoch hv hnew hlist _ _ =>
      rw [hlist]
      constructor
      · rw [List.map_append, List.nodup_append]
        refine ⟨hV.nodup, by simp, ?_⟩
        intro a ha b hb
        obtain ⟨r, hr, rfl⟩ := List.mem_map.mp ha
        obtain rfl : b = v := by simpa using hb
        exact hnew r hr
      · intro r hr
        rcases List.mem_append.mp hr with hold | hnew
        · exact hV.names r hold
        · rw [List.mem_singleton.mp hnew]
          exact hv
  | removed r before after hsplit _ hlist _ _ =>
      have hsub : (before ++ after).Sublist (before ++ r :: after) :=
        (List.Sublist.refl before).append (List.sublist_cons_self r after)
      rw [hlist]
      constructor
      · refine List.Nodup.sublist ?_ hV.nodup
        rw [hsplit]
        exact hsub.map _
      · intro x hx
        apply hV.names
        rw [hsplit]
        exact hsub.subset hx
  | restaked h => exact h.listed hV
  | kept hlist _ =>
      rw [hlist]
      exact hV

theorem ListEffect.records (h : D.ListEffect W fits s s') (hV : Listed W s.list.validators)
    (hrule : D.RecordRule W fits P) (hP : ∀ x ∈ s.list.validators, P s.stakes x) :
    ∀ x ∈ s'.list.validators, P s'.stakes x := by
  cases h with
  | added v epoch _ _ hlist _ hstakes =>
      rw [hlist, hstakes]
      intro x hx
      rcases List.mem_append.mp hx with hold | hnew
      · exact hP x hold
      · rw [List.mem_singleton.mp hnew]
        exact hrule.new _ _ _
  | removed r before after hsplit _ hlist _ hstakes =>
      rw [hlist, hstakes]
      intro x hx
      apply hP x
      rw [hsplit]
      rcases List.mem_append.mp hx with hbefore | hafter
      · exact List.mem_append_left _ hbefore
      · exact List.mem_append_right _ (List.mem_cons_of_mem _ hafter)
  | restaked h => exact h.records hV hrule hP
  | kept hlist hstakes =>
      rw [hlist]
      intro x hx
      exact hrule.mono _ _ _ (hstakes _) (hP x hx)

end Deployment

end Tenderize
