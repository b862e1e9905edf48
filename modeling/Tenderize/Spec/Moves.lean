import Tenderize.Spec.Held

/-!
# What a stake step does to one validator

Every small step on the books replaces the record of one validator and moves lamports
between its stake accounts and the reserve.  `Moved` says what that means for all stake
accounts of the validator, `Counted` what it means for those below `stake_count`, and
`Unwritten` what it means for a record that is not written back.  The invariants of the
stake books follow from these three.
-/

namespace Tenderize

open Support

namespace Deployment

variable (D : Deployment) (W : Set Pubkey)

/-- The record `r` of the validator became `r'`. -/
structure Moved (v : Pubkey) (r r' : ValidatorStakeInfo) (b b' : Books) : Prop where
  found : lookup ValidatorStakeInfo.validatorAccount v b.validators = some r
  name : r'.validatorAccount = v
  validators : b'.validators = putRecord r' b.validators
  others : ∀ v' ∈ W, v' ≠ v → ∀ i, b'.stakes (D.stakeKey v' i) = b.stakes (D.stakeKey v' i)
  covered : r.balance.toNat ≤ D.heldAll b.stakes v → r'.balance.toNat ≤ D.heldAll b'.stakes v

/-- The stake accounts below `stake_count` and the reserve keep what they had together,
and no stake is left above it. -/
structure Counted (v : Pubkey) (r r' : ValidatorStakeInfo) (b b' : Books) : Prop where
  total : b.reserve.toNat + D.held b.stakes v r.stakeCount.toNat ≤
    b'.reserve.toNat + D.held b'.stakes v r'.stakeCount.toNat
  balance : r.balance.toNat ≤ D.held b.stakes v r.stakeCount.toNat →
    r'.balance.toNat ≤ D.held b'.stakes v r'.stakeCount.toNat
  live : (∀ i, 0 < b.stakes (D.stakeKey v i) → i < r.stakeCount) →
    ∀ i, 0 < b'.stakes (D.stakeKey v i) → i < r'.stakeCount
  empty : (r.stakeCount = 0 → r.balance = 0) → r'.stakeCount = 0 → r'.balance = 0

/-- What a batch that does not write its records back leaves behind. -/
structure Unwritten (v : Pubkey) (r r' : ValidatorStakeInfo) (b b' : Batch) : Prop where
  changed : b'.changed = false → b.changed = false ∧ r'.stakeCount = r.stakeCount
  grows : r'.stakeCount = r.stakeCount →
    D.held b.books.stakes v r.stakeCount.toNat ≤ D.held b'.books.stakes v r.stakeCount.toNat
  growsAll : D.heldAll b.books.stakes v ≤ D.heldAll b'.books.stakes v

/-- A step of a batch: nothing, or a move that counts every stake account as long as the
highest index it uses `fits` below the largest one. -/
def BatchStep (fits : Prop) (b b' : Batch) : Prop :=
  b' = b ∨ ∃ v r r', D.Moved W v r r' b.books b'.books ∧ D.Unwritten v r r' b b' ∧
    (fits → D.Counted v r r' b.books b'.books)

/-- The stake accounts of the validator below index `top` gained `gain` lamports. -/
structure Gained (v : Pubkey) (top gain : Nat) (b b' : Books) : Prop where
  others : ∀ v' ∈ W, v' ≠ v → ∀ i, b'.stakes (D.stakeKey v' i) = b.stakes (D.stakeKey v' i)
  above : ∀ i, top ≤ i.toNat → b'.stakes (D.stakeKey v i) = b.stakes (D.stakeKey v i)
  held : ∀ n, top ≤ n → n ≤ 2 ^ 32 → D.held b'.stakes v n = D.held b.stakes v n + gain
  reserve : b.reserve.toNat ≤ b'.reserve.toNat + gain

variable {D W} {v : Pubkey} {r r' : ValidatorStakeInfo} {top gain : Nat}

theorem index_le (i : UInt32) : i.toNat ≤ 2 ^ 32 :=
  Nat.le_of_lt i.toNat_lt

theorem Gained.covered {b b' : Books} (h : D.Gained W v top gain b b') (htop : top ≤ 2 ^ 32)
    (hbalance : r'.balance.toNat ≤ r.balance.toNat + gain)
    (hcovered : r.balance.toNat ≤ D.heldAll b.stakes v) :
    r'.balance.toNat ≤ D.heldAll b'.stakes v := by
  have hheld := h.held (2 ^ 32) htop le_rfl
  unfold heldAll at hcovered ⊢
  omega

theorem Gained.counted {b b' : Books} (h : D.Gained W v top gain b b')
    (hcount : r.stakeCount.toNat ≤ r'.stakeCount.toNat) (htop : top ≤ r'.stakeCount.toNat)
    (hpos : 0 < top) (hbalance : r'.balance.toNat ≤ r.balance.toNat + gain) :
    D.Counted v r r' b b' where
  total := by
    have hheld := h.held _ htop (index_le _)
    have hmono := D.held_mono b.stakes v hcount
    have hreserve := h.reserve
    omega
  balance := by
    intro hold
    have hheld := h.held _ htop (index_le _)
    have hmono := D.held_mono b.stakes v hcount
    omega
  live := by
    intro hold i hi
    rw [UInt32.lt_iff_toNat_lt]
    by_contra hout
    rw [h.above i (by omega)] at hi
    have hlt := UInt32.lt_iff_toNat_lt.mp (hold i hi)
    omega
  empty := by
    intro _ hzero
    rw [hzero] at htop
    have : (0 : UInt32).toNat = 0 := rfl
    omega

/-- The last stake account was emptied and is not counted any more. -/
theorem Counted.drop_last {b b' : Books} (h : D.Counted v r r b b') (hpos : 1 < r.stakeCount.toNat)
    (hlast : b'.stakes (D.stakeKey v (r.stakeCount - 1)) = 0) :
    D.Counted v r { r with stakeCount := r.stakeCount - 1 } b b' := by
  have hcount : (r.stakeCount - 1).toNat = r.stakeCount.toNat - 1 := toNat_pred_index (by omega)
  have hheld : D.held b'.stakes v r.stakeCount.toNat =
      D.held b'.stakes v (r.stakeCount - 1).toNat := by
    have hsucc : r.stakeCount.toNat = (r.stakeCount - 1).toNat + 1 := by omega
    rw [hsucc, held_succ, UInt32.ofNat_toNat, hlast, Nat.add_zero]
  constructor
  case total =>
      have htotal := h.total
      rw [hheld] at htotal
      exact htotal
  case balance =>
      intro hold
      have hbalance := h.balance hold
      rw [hheld] at hbalance
      exact hbalance
  case live =>
      intro hold i hi
      have hlt := UInt32.lt_iff_toNat_lt.mp (h.live hold i hi)
      change i < r.stakeCount - 1
      rw [UInt32.lt_iff_toNat_lt, hcount]
      have hne : i.toNat ≠ r.stakeCount.toNat - 1 := by
        intro heq
        rw [← hcount] at heq
        rw [UInt32.toNat_inj.mp heq, hlast] at hi
        omega
      omega
  case empty =>
      intro _ hzero
      change r.stakeCount - 1 = 0 at hzero
      rw [hzero] at hcount
      have : (0 : UInt32).toNat = 0 := rfl
      omega

theorem Gained.unwritten {b b' : Batch} (h : D.Gained W v top gain b.books b'.books)
    (htop : top ≤ 2 ^ 32)
    (hchanged : b'.changed = false → b.changed = false ∧ r'.stakeCount = r.stakeCount)
    (hcount : r'.stakeCount = r.stakeCount → top ≤ r.stakeCount.toNat) :
    D.Unwritten v r r' b b' where
  changed := hchanged
  grows := by
    intro hsame
    rw [h.held _ (hcount hsame) (index_le _)]
    exact Nat.le_add_right _ _
  growsAll := by
    unfold heldAll
    rw [h.held _ htop le_rfl]
    exact Nat.le_add_right _ _

theorem lookup_mem_names {V : List ValidatorStakeInfo}
    (hnames : ∀ r ∈ V, r.validatorAccount ∈ W)
    (h : lookup ValidatorStakeInfo.validatorAccount v V = some r) : v ∈ W := by
  rw [← lookup_key h]
  exact hnames r (lookup_mem h)

/-! ## DelegateReserve -/

variable {b b' : Batch}

theorem delegated_count_ge (r : ValidatorStakeInfo) (instruction : DelegateReserveInstruction)
    (hfits : instruction.stakeIndex.toNat + 1 < 2 ^ 32) :
    r.stakeCount.toNat ≤ (r.delegated instruction).stakeCount.toNat ∧
      instruction.stakeIndex.toNat + 1 ≤ (r.delegated instruction).stakeCount.toNat := by
  unfold ValidatorStakeInfo.delegated
  by_cases hnew : instruction.stakeIndex ≥ r.stakeCount
  · have hle := UInt32.le_iff_toNat_le.mp hnew
    rw [if_pos hnew, toNat_succ_index hfits]
    omega
  · have hlt := UInt32.lt_iff_toNat_lt.mp (UInt32.not_le.mp hnew)
    rw [if_neg hnew]
    exact ⟨le_rfl, hlt⟩

theorem delegated_count_eq_iff (r : ValidatorStakeInfo)
    (instruction : DelegateReserveInstruction)
    (hindex : instruction.stakeIndex ≤ r.stakeCount) :
    (r.delegated instruction).stakeCount = r.stakeCount ↔
      instruction.stakeIndex < r.stakeCount := by
  unfold ValidatorStakeInfo.delegated
  by_cases hnew : instruction.stakeIndex ≥ r.stakeCount
  · have heq : instruction.stakeIndex = r.stakeCount := UInt32.le_antisymm hindex hnew
    rw [if_pos hnew, heq]
    simp
  · rw [if_neg hnew]
    simpa using UInt32.not_le.mp hnew

theorem DelegateStep.gained {instruction : DelegateReserveInstruction} (hW : D.NoCollision W)
    (hv : v ∈ W) (h : D.DelegateStep (v, instruction) b b') :
    D.Gained W v (instruction.stakeIndex.toNat + 1) instruction.amount.toNat
      b.books b'.books := by
  obtain ⟨hle, hreserve, hstakes⟩ := h.moved (hW.ne_reserve v hv _)
  dsimp only at hle hreserve hstakes
  constructor
  case others =>
      intro v' hv' hne i
      rw [hstakes]
      exact hW.update_other hv hv' hne
  case above =>
      intro i hi
      rw [hstakes]
      apply hW.update_ne hv
      rintro rfl
      omega
  case held =>
      intro n htop hn
      have hupdate := hW.held_update b.books.stakes instruction.stakeIndex
        (b.books.stakes (D.stakeKey v instruction.stakeIndex) + instruction.amount.toNat) hv htop
        hn
      rw [hstakes]
      omega
  case reserve =>
      have hsub := UInt64.toNat_sub_of_le _ _ hle
      rw [hreserve]
      omega

theorem DelegateStep.replaced {pair : Pubkey × DelegateReserveInstruction}
    (hW : D.NoCollision W) (hnames : ∀ r ∈ b.books.validators, r.validatorAccount ∈ W)
    (h : D.DelegateStep pair b b') :
    ∃ r, D.Moved W pair.1 r (r.delegated pair.2) b.books b'.books ∧
      pair.2.stakeIndex ≤ r.stakeCount ∧
      b'.changed = (b.changed || decide (pair.2.stakeIndex ≥ r.stakeCount)) := by
  obtain ⟨r, hfound, hindex, hput, hflag⟩ := h.record
  have hgained := h.gained hW (lookup_mem_names hnames hfound)
  have hname : r.validatorAccount = pair.1 := lookup_key hfound
  refine ⟨r, ⟨hfound, hname, hput, hgained.others, ?_⟩, hindex, hflag⟩
  exact hgained.covered pair.2.stakeIndex.toNat_lt (toNat_add_le _ _)

theorem DelegateStep.batchStep {pair : Pubkey × DelegateReserveInstruction}
    (hW : D.NoCollision W) (hnames : ∀ r ∈ b.books.validators, r.validatorAccount ∈ W)
    (h : D.DelegateStep pair b b') :
    D.BatchStep W (pair.2.stakeIndex.toNat + 1 < 2 ^ 32) b b' := by
  obtain ⟨r, hmoved, hindex, hflag⟩ := h.replaced hW hnames
  have hgained := h.gained hW (lookup_mem_names hnames hmoved.found)
  right
  refine ⟨pair.1, r, r.delegated pair.2, hmoved, ?_, ?_⟩
  · apply hgained.unwritten pair.2.stakeIndex.toNat_lt
    · intro hunchanged
      rw [hflag, Bool.or_eq_false_iff, decide_eq_false_iff_not] at hunchanged
      rw [delegated_count_eq_iff r pair.2 hindex]
      exact ⟨hunchanged.1, UInt32.not_le.mp hunchanged.2⟩
    · intro hsame
      exact UInt32.lt_iff_toNat_lt.mp ((delegated_count_eq_iff r pair.2 hindex).mp hsame)
  · intro hfits
    obtain ⟨hcount, hlast⟩ := delegated_count_ge r pair.2 hfits
    exact hgained.counted hcount hlast (Nat.succ_pos _) (toNat_add_le _ _)

/-! ## MergeStakes -/

/-- Moving all lamports of one stake account into a lower one. -/
theorem gained_of_merge {main additional : UInt32} {b b' : Books} (hW : D.NoCollision W)
    (hv : v ∈ W) (hlt : main < additional) (hreserve : b'.reserve = b.reserve)
    (hstakes : b'.stakes = Function.update (Function.update b.stakes (D.stakeKey v main)
      (b.stakes (D.stakeKey v main) + b.stakes (D.stakeKey v additional)))
      (D.stakeKey v additional) 0) :
    D.Gained W v (additional.toNat + 1) 0 b b' := by
  have hlt' := UInt32.lt_iff_toNat_lt.mp hlt
  constructor
  case others =>
      intro v' hv' hne i
      rw [hstakes, hW.update_other hv hv' hne, hW.update_other hv hv' hne]
  case above =>
      intro i hi
      have hmain : i ≠ main := by
        rintro rfl
        omega
      have hadditional : i ≠ additional := by
        rintro rfl
        omega
      rw [hstakes, hW.update_ne hv hadditional, hW.update_ne hv hmain]
  case held =>
      intro n htop hn
      have hmain := hW.held_update b.stakes main
        (b.stakes (D.stakeKey v main) + b.stakes (D.stakeKey v additional)) hv
        (show main.toNat < n by omega) hn
      have hadditional := hW.held_update
        (Function.update b.stakes (D.stakeKey v main)
          (b.stakes (D.stakeKey v main) + b.stakes (D.stakeKey v additional)))
        additional 0 hv htop hn
      rw [hW.update_ne hv (UInt32.ne_of_lt hlt).symm] at hadditional
      rw [hstakes]
      omega
  case reserve => rw [hreserve, Nat.add_zero]

theorem MergeStep.batchStep {instruction : MergeStakesInstruction} (hW : D.NoCollision W)
    (hnames : ∀ r ∈ b.books.validators, r.validatorAccount ∈ W)
    (h : D.MergeStep instruction b b') : D.BatchStep W True b b' := by
  cases h with
  | skipped hsame => exact .inl hsame
  | merged r hfound hlt hcount hrecord hmoved =>
      have hv := lookup_mem_names hnames hfound
      obtain ⟨hreserve, hstakes⟩ := hmoved (hW.ne_reserve _ hv _) (hW.ne_reserve _ hv _)
      have hgained := gained_of_merge hW hv hlt hreserve hstakes
      have hlt' := UInt32.lt_iff_toNat_lt.mp hlt
      have hcount' := UInt32.lt_iff_toNat_lt.mp hcount
      have htop := instruction.additionalIndex.toNat_lt
      have hname : r.validatorAccount = instruction.validatorAddress := lookup_key hfound
      have hcounted : D.Counted instruction.validatorAddress r r b.books b'.books :=
        hgained.counted le_rfl hcount' (Nat.succ_pos _) (Nat.le_add_right _ _)
      right
      split_ifs at hrecord with hlast
      · have hindex : r.stakeCount - 1 = instruction.additionalIndex := by
          rw [← hlast, UInt32.add_sub_cancel]
        have hempty : b'.books.stakes
            (D.stakeKey instruction.validatorAddress (r.stakeCount - 1)) = 0 := by
          rw [hindex, hstakes, Function.update_self]
        refine ⟨instruction.validatorAddress, r, { r with stakeCount := r.stakeCount - 1 },
          ?_, ?_, ?_⟩
        · exact ⟨hfound, hname, hrecord.1, hgained.others,
            hgained.covered htop (Nat.le_add_right _ _)⟩
        · apply hgained.unwritten htop
          · intro hunchanged
            rw [hrecord.2] at hunchanged
            cases hunchanged
          · exact fun _ => hcount'
        · intro _
          exact hcounted.drop_last (by omega) hempty
      · refine ⟨instruction.validatorAddress, r, r, ?_, ?_, fun _ => hcounted⟩
        · refine ⟨hfound, hname, ?_, hgained.others,
            hgained.covered htop (Nat.le_add_right _ _)⟩
          rw [hrecord.1, putRecord, hname, updateFirst_self hfound]
        · apply hgained.unwritten htop
          · intro hunchanged
            rw [hrecord.2] at hunchanged
            exact ⟨hunchanged, rfl⟩
          · exact fun _ => hcount'

/-! ## Unstake -/

/-- Splitting lamports off into an empty stake account that was given its rent. -/
theorem gained_of_split {source split : UInt32} {amount rent : Nat} {b b' : Books}
    (hW : D.NoCollision W) (hv : v ∈ W) (hne : split ≠ source)
    (hreserve : b'.reserve = b.reserve) (hempty : b.stakes (D.stakeKey v split) = 0)
    (hamount : amount ≤ b.stakes (D.stakeKey v source))
    (hstakes : b'.stakes = Function.update (Function.update b.stakes (D.stakeKey v source)
      (b.stakes (D.stakeKey v source) - amount)) (D.stakeKey v split) (rent + amount)) :
    D.Gained W v (max source.toNat split.toNat + 1) rent b b' := by
  constructor
  case others =>
      intro v' hv' hne i
      rw [hstakes, hW.update_other hv hv' hne, hW.update_other hv hv' hne]
  case above =>
      intro i hi
      have hsource : i ≠ source := by
        rintro rfl
        omega
      have hsplit : i ≠ split := by
        rintro rfl
        omega
      rw [hstakes, hW.update_ne hv hsplit, hW.update_ne hv hsource]
  case held =>
      intro n htop hn
      have hsource := hW.held_update b.stakes source
        (b.stakes (D.stakeKey v source) - amount) hv (show source.toNat < n by omega) hn
      have hsplit := hW.held_update
        (Function.update b.stakes (D.stakeKey v source)
          (b.stakes (D.stakeKey v source) - amount))
        split (rent + amount) hv (show split.toNat < n by omega) hn
      rw [hW.update_ne hv hne, hempty] at hsplit
      rw [hstakes]
      omega
  case reserve =>
      rw [hreserve]
      exact Nat.le_add_right _ _

theorem UnstakeStep.batchStep {instruction : UnstakeInstruction} (hW : D.NoCollision W)
    (hnames : ∀ r ∈ b.books.validators, r.validatorAccount ∈ W)
    (h : D.UnstakeStep instruction b b') :
    D.BatchStep W (instruction.splitIndex.toNat + 1 < 2 ^ 32) b b' := by
  cases h with
  | deactivated hsame => exact .inl hsame
  | split r rent hfound hsource hsplit hne hrecord hmoved =>
      have hv := lookup_mem_names hnames hfound
      obtain ⟨hreserve, hempty, hamount, hstakes⟩ :=
        hmoved (hW.ne_reserve _ hv _) (hW.ne_reserve _ hv _)
      have hgained := gained_of_split hW hv hne hreserve hempty hamount hstakes
      have hsource' := UInt32.lt_iff_toNat_lt.mp hsource
      have hsplit' := UInt32.le_iff_toNat_le.mp hsplit
      have hname : r.validatorAccount = instruction.validatorAddress := lookup_key hfound
      have htop : max instruction.sourceIndex.toNat instruction.splitIndex.toNat + 1 ≤ 2 ^ 32 := by
        have := instruction.sourceIndex.toNat_lt
        have := instruction.splitIndex.toNat_lt
        omega
      right
      split_ifs at hrecord with hnew
      · refine ⟨instruction.validatorAddress, r, { r with stakeCount := r.stakeCount + 1 },
          ?_, ?_, ?_⟩
        · exact ⟨hfound, hname, hrecord.1, hgained.others,
            hgained.covered htop (Nat.le_add_right _ _)⟩
        · apply hgained.unwritten htop
          · intro hunchanged
            rw [hrecord.2] at hunchanged
            cases hunchanged
          · intro hsame
            change r.stakeCount + 1 = r.stakeCount at hsame
            simp at hsame
        · intro hfits
          rw [hnew] at hfits hgained
          have hcount := toNat_succ_index hfits
          apply hgained.counted
          · change r.stakeCount.toNat ≤ (r.stakeCount + 1).toNat
            omega
          · change _ ≤ (r.stakeCount + 1).toNat
            omega
          · exact Nat.succ_pos _
          · exact Nat.le_add_right _ _
      · have hlt : instruction.splitIndex.toNat < r.stakeCount.toNat :=
          UInt32.lt_iff_toNat_lt.mp (UInt32.lt_of_le_of_ne hsplit hnew)
        have hcount : max instruction.sourceIndex.toNat instruction.splitIndex.toNat + 1 ≤
            r.stakeCount.toNat := by omega
        refine ⟨instruction.validatorAddress, r, r, ?_, ?_, ?_⟩
        · refine ⟨hfound, hname, ?_, hgained.others,
            hgained.covered htop (Nat.le_add_right _ _)⟩
          rw [hrecord.1, putRecord, hname, updateFirst_self hfound]
        · apply hgained.unwritten htop
          · intro hunchanged
            rw [hrecord.2] at hunchanged
            exact ⟨hunchanged, rfl⟩
          · exact fun _ => hcount
        · intro _
          exact hgained.counted le_rfl hcount (Nat.succ_pos _) (Nat.le_add_right _ _)

/-! ## Refreshing the records -/

variable (D W) in
/-- The scan has seen the first `k` stake accounts: what it has added up is there, and the
accounts from the `k`-th on are as they were. -/
structure Scanned (v : Pubkey) (reserve : UInt64) (stakes : Pubkey → Nat) (k : Nat) (x : Scan) :
    Prop where
  balance : x.balance.toNat ≤ D.held x.stakes v k
  total : reserve.toNat + D.held stakes v k ≤ x.reserve.toNat + D.held x.stakes v k
  later : ∀ i, k ≤ i.toNat → x.stakes (D.stakeKey v i) = stakes (D.stakeKey v i)
  others : ∀ v' ∈ W, v' ≠ v → ∀ i, x.stakes (D.stakeKey v' i) = stakes (D.stakeKey v' i)
  live : ∀ i, i.toNat < k → 0 < x.stakes (D.stakeKey v i) → i < x.newStakeCount
  count : x.newStakeCount.toNat ≤ k
  empty : x.newStakeCount = 0 → x.balance = 0

theorem scanned_zero {reserve : UInt64} {stakes : Pubkey → Nat} :
    D.Scanned W v reserve stakes 0 ⟨0, 0, reserve, stakes⟩ where
  balance := Nat.zero_le _
  total := le_rfl
  later _ _ := rfl
  others _ _ _ _ := rfl
  live _ hi := absurd hi (Nat.not_lt_zero _)
  count := le_rfl
  empty _ := rfl

theorem ScanStep.scanned {reserve : UInt64} {stakes : Pubkey → Nat} {k : Nat} {x x' : Scan}
    (hW : D.NoCollision W) (hv : v ∈ W) (hk : k + 1 < 2 ^ 32)
    (h : D.ScanStep v (UInt32.ofNat k) x x') (hx : D.Scanned W v reserve stakes k x) :
    D.Scanned W v reserve stakes (k + 1) x' := by
  have hindex : (UInt32.ofNat k).toNat = k := toNat_ofNat_index (by omega)
  have hhere := hx.later (UInt32.ofNat k) hindex.ge
  have hsucc := D.held_succ stakes v k
  have hsucc' := D.held_succ x'.stakes v k
  have hbalance := hx.balance
  have htotal := hx.total
  cases h with
  | live free kept hsplit hreserve hstakes hadd hcount =>
      have hat : x'.stakes (D.stakeKey v (UInt32.ofNat k)) = kept.toNat := by
        rw [hstakes, Function.update_self]
      have hne : ∀ i, i.toNat ≠ k →
          x'.stakes (D.stakeKey v i) = x.stakes (D.stakeKey v i) := by
        intro i hi
        rw [hstakes]
        apply hW.update_ne hv
        rintro rfl
        exact hi hindex
      have hbelow : D.held x'.stakes v k = D.held x.stakes v k :=
        held_congr (by omega) fun i hi => hne i (by omega)
      have hnew : x'.newStakeCount.toNat = k + 1 := by
        rw [hcount, toNat_succ_index (by omega), hindex]
      constructor
      case balance =>
          have hle := toNat_add_le x.balance kept
          rw [hadd]
          omega
      case total => omega
      case later =>
          intro i hi
          rw [hne i (by omega), hx.later i (by omega)]
      case others =>
          intro v' hv' hdiff i
          rw [hstakes, hW.update_other hv hv' hdiff, hx.others v' hv' hdiff]
      case live =>
          intro i hi _
          rw [UInt32.lt_iff_toNat_lt]
          omega
      case count => exact hnew.le
      case empty =>
          intro hzero
          rw [hzero] at hnew
          have : (0 : UInt32).toNat = 0 := rfl
          omega
  | empty hzero hreserve hstakes hkeep hcount =>
      rw [hstakes] at hsucc'
      constructor
      case balance =>
          rw [hkeep, hstakes]
          omega
      case total =>
          rw [hstakes]
          omega
      case later =>
          intro i hi
          rw [hstakes, hx.later i (by omega)]
      case others =>
          intro v' hv' hdiff i
          rw [hstakes, hx.others v' hv' hdiff]
      case live =>
          intro i hi hpos
          rw [hstakes] at hpos
          rw [hcount]
          apply hx.live i _ hpos
          have hne : i.toNat ≠ k := by
            intro heq
            rw [← hindex] at heq
            rw [UInt32.toNat_inj.mp heq, hzero] at hpos
            omega
          omega
      case count =>
          rw [hcount]
          exact Nat.le_succ_of_le hx.count
      case empty =>
          rw [hcount, hkeep]
          exact hx.empty

theorem RefreshStep.moved {epoch : UInt64} {b b' : Books} (hW : D.NoCollision W)
    (hnames : ∀ r ∈ b.validators, r.validatorAccount ∈ W) (h : D.RefreshStep epoch v b b') :
    ∃ r r', D.Moved W v r r' b b' ∧ D.Counted v r r' b b' := by
  obtain ⟨r, balance, newStakeCount, hfound, hput, hscan⟩ := h.record
  have hv := lookup_mem_names hnames hfound
  have hlt := r.stakeCount.toNat_lt
  have hscanned : D.Scanned W v b.reserve b.stakes r.stakeCount.toNat
      ⟨balance, newStakeCount, b'.reserve, b'.stakes⟩ :=
    RunList.range_invariant (I := D.Scanned W v b.reserve b.stakes)
      (fun k hk _ _ hx hstep => hstep.scanned hW hv (by omega) hx)
      (hscan (hW.ne_reserve v hv)) scanned_zero
  obtain ⟨hbalance, htotal, hlater, hothers, hlive, hcount, hempty⟩ := hscanned
  dsimp only at hbalance htotal hlater hothers hlive hcount hempty
  -- nothing is held between the new count and the old one
  have hheld : D.held b'.stakes v r.stakeCount.toNat = D.held b'.stakes v newStakeCount.toNat := by
    apply held_eq_of_empty hcount hlt.le
    intro i hi hlast
    by_contra hpos
    have hbelow := UInt32.lt_iff_toNat_lt.mp (hlive i hlast (Nat.pos_of_ne_zero hpos))
    omega
  have hname : r.validatorAccount = v := lookup_key hfound
  refine ⟨r, ⟨r.validatorAccount, balance, epoch, newStakeCount⟩,
    ⟨hfound, hname, hput, hothers, ?_⟩, ?_⟩
  · intro _
    exact le_trans hbalance (D.held_mono _ _ hlt.le)
  · constructor
    case total =>
        rw [hheld] at htotal
        exact htotal
    case balance =>
        intro _
        rw [hheld] at hbalance
        exact hbalance
    case live =>
        intro hold i hi
        apply hlive i _ hi
        by_contra hout
        rw [hlater i (by omega)] at hi
        exact hout (UInt32.lt_iff_toNat_lt.mp (hold i hi))
    case empty => exact fun _ => hempty

end Deployment

end Tenderize
