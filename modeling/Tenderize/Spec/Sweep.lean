import Tenderize.Spec.StakeAccounts

/-!
# Sweeping the stake accounts

A refresh leaves in every stake account what belongs to the stake and moves the rest to
the reserve.  What it leaves depends on the account alone, so a refresh can be described
by the set of accounts it went through: sweeping an account twice, or in another order,
makes no difference.
-/

namespace Tenderize

open Support

namespace Account

/-- The rent and the delegation of a stake account. -/
def kept (x : Account) : UInt64 :=
  match x.data with
  | .stake state => if x.owner = stakeProgramId then UInt64.ofNat state.reserved else 0
  | _ => 0

/-- Lamports that do not belong to a stake. -/
def free (x : Account) : UInt64 :=
  x.lamports - x.kept

def swept (x : Account) : Account :=
  { x with lamports := x.kept }

variable (x : Account)

@[simp] theorem swept_kept : x.swept.kept = x.kept :=
  rfl

@[simp] theorem swept_free : x.swept.free = 0 :=
  UInt64.sub_self _

@[simp] theorem swept_swept : x.swept.swept = x.swept :=
  rfl

theorem kept_of_owner {x : Account} (h : x.owner ≠ stakeProgramId) : x.kept = 0 := by
  unfold kept
  split
  · rw [if_neg h]
  · rfl

end Account

variable {D : Deployment} {quiet : Prop} {W : Set Pubkey} {L L' : Ledger} {x : Account}

/-! ## Sound accounts -/

namespace Deployment

theorem LiveStake.kept_toNat {state : StakeState} {m : Meta} (h : D.LiveStake state m x) :
    x.kept.toNat = state.reserved := by
  have hlt : state.reserved < 2 ^ 64 := h.covered.trans_lt (UInt64.toNat_lt x.lamports)
  unfold Account.kept
  rw [h.data]
  simp only [h.owner, if_true]
  rw [UInt64.toNat_ofNat']
  exact Nat.mod_eq_of_lt hlt

namespace SoundStake

theorem kept_le (h : D.SoundStake quiet x) : x.kept ≤ x.lamports := by
  cases h with
  | closed howner =>
      rw [Account.kept_of_owner (by rw [howner]; exact stakeProgramId_ne_system.symm)]
      exact UInt64.zero_le
  | merged howner hdata _ =>
      have hzero : x.kept = 0 := by
        simp [Account.kept, hdata, howner, StakeState.reserved]
      rw [hzero]
      exact UInt64.zero_le
  | live state m hlive =>
      rw [UInt64.le_iff_toNat_le, hlive.kept_toNat]
      exact hlive.covered

theorem kept_add_free (h : D.SoundStake quiet x) :
    x.kept.toNat + x.free.toNat = x.lamports.toNat := by
  have hle := h.kept_le
  have hsub := UInt64.toNat_sub_of_le _ _ hle
  rw [UInt64.le_iff_toNat_le] at hle
  unfold Account.free
  omega

/-- What stays in an account is more than nothing exactly for live stakes. -/
theorem kept_ne_zero_iff (h : D.SoundStake True x) :
    x.kept ≠ 0 ↔ x.owner = stakeProgramId ∧ x.lamports ≠ 0 := by
  constructor
  · intro hkept
    cases h with
    | closed howner =>
        refine absurd (Account.kept_of_owner ?_) hkept
        rw [howner]
        exact stakeProgramId_ne_system.symm
    | merged howner hdata _ =>
        refine absurd ?_ hkept
        simp [Account.kept, hdata, howner, StakeState.reserved]
    | live state m hlive => exact ⟨hlive.owner, hlive.lamports_ne_zero⟩
  · rintro ⟨howner, hlamports⟩ hkept
    cases h with
    | closed hsystem => exact stakeProgramId_ne_system (howner.symm.trans hsystem)
    | merged _ _ hzero => exact hlamports (hzero trivial)
    | live state m hlive =>
        have hpos := hlive.reserved_pos
        rw [← hlive.kept_toNat, hkept] at hpos
        exact absurd hpos (Nat.lt_irrefl 0)

theorem swept (h : D.SoundStake quiet x) : D.SoundStake quiet x.swept := by
  cases h with
  | closed howner => exact .closed howner
  | merged howner hdata hzero =>
      refine .merged howner hdata (fun _ => ?_)
      change x.kept = 0
      simp [Account.kept, hdata, howner, StakeState.reserved]
  | live state m hlive =>
      refine .live state m
        ⟨hlive.owner, hlive.data, hlive.stakeMeta, hlive.withdrawer, hlive.rent, ?_⟩
      change _ ≤ x.kept.toNat
      rw [hlive.kept_toNat]

end SoundStake

end Deployment

/-! ## Sweeping a set of accounts -/

namespace Deployment

variable (D W)

/-- The lamports of the reserve and of the accounts in `keys` fit into a word. -/
def Bounded (keys : Finset Pubkey) (L : Ledger) : Prop :=
  (L D.reserveKey).lamports.toNat + ∑ k ∈ keys, (L k).lamports.toNat < 2 ^ 64

instance : DecidablePred (D.Bounded keys) := fun _ => Nat.decLt _ _

/-- The free lamports of the accounts in `keys` went to the reserve.  An account without
lamports may have been collected on the way. -/
structure SweptTo (quiet : Prop) (keys : Finset Pubkey) (L L' : Ledger) : Prop where
  reserve : (L' D.reserveKey).lamports.toNat =
    (L D.reserveKey).lamports.toNat + ∑ k ∈ keys, (L k).free.toNat
  kept : ∀ v ∈ W, ∀ i, (L' (D.stakeKey v i)).kept = (L (D.stakeKey v i)).kept
  lamports : ∀ v ∈ W, ∀ i, (L' (D.stakeKey v i)).lamports =
    if D.stakeKey v i ∈ keys then (L (D.stakeKey v i)).kept else (L (D.stakeKey v i)).lamports
  owner : ∀ v ∈ W, ∀ i, (L' (D.stakeKey v i)).owner = (L (D.stakeKey v i)).owner ∨
    (L (D.stakeKey v i)).lamports = 0
  sound : D.SoundStakes quiet W L'
  /-- An account that was merged away and filled again cannot be swept. -/
  unfilled : ∀ v ∈ W, ∀ i, D.stakeKey v i ∈ keys → D.SoundStake True (L (D.stakeKey v i))

/-- The first `n` stake addresses of a validator. -/
def keysBelow (v : Pubkey) (n : Nat) : Finset Pubkey :=
  (Finset.range n).image (fun i => D.stakeKey v (UInt32.ofNat i))

variable {D W} {keys : Finset Pubkey} {v : Pubkey} {i : UInt32} {n : Nat}

theorem mem_keysBelow (hn : n ≤ 2 ^ 32) {k : Pubkey} :
    k ∈ D.keysBelow v n ↔ ∃ i : UInt32, i.toNat < n ∧ D.stakeKey v i = k := by
  unfold keysBelow
  simp only [Finset.mem_image, Finset.mem_range]
  constructor
  · rintro ⟨i, hi, rfl⟩
    refine ⟨UInt32.ofNat i, ?_, rfl⟩
    rw [toNat_ofNat_index (by omega)]
    exact hi
  · rintro ⟨i, hi, rfl⟩
    refine ⟨i.toNat, hi, ?_⟩
    rw [UInt32.ofNat_toNat]

theorem keysBelow_mono {m : Nat} (h : m ≤ n) : D.keysBelow v m ⊆ D.keysBelow v n :=
  Finset.image_subset_image (Finset.range_mono h)

theorem keysBelow_succ :
    D.keysBelow v (n + 1) = insert (D.stakeKey v (UInt32.ofNat n)) (D.keysBelow v n) := by
  unfold keysBelow
  rw [Finset.range_add_one, Finset.image_insert]

namespace SweptTo

theorem nothing (h : D.SoundStakes quiet W L) : D.SweptTo W quiet ∅ L L where
  reserve := by simp
  kept _ _ _ := rfl
  lamports _ _ _ := by simp
  owner _ _ _ := .inl rfl
  sound := h
  unfilled _ _ _ hmem := absurd hmem (Finset.notMem_empty _)

theorem free_eq (h : D.SweptTo W quiet keys L L') (hv : v ∈ W) :
    (L' (D.stakeKey v i)).free =
      if D.stakeKey v i ∈ keys then 0 else (L (D.stakeKey v i)).free := by
  unfold Account.free
  rw [h.lamports v hv i, h.kept v hv i]
  split
  · exact UInt64.sub_self _
  · rfl

/-- Whether an account was filled again does not change along the way. -/
theorem unfilled_of (h : D.SweptTo W quiet keys L L') (hL : D.SoundStakes False W L)
    (hv : v ∈ W) (hnow : D.SoundStake True (L' (D.stakeKey v i))) :
    D.SoundStake True (L (D.stakeKey v i)) := by
  by_cases hmem : D.stakeKey v i ∈ keys
  · exact h.unfilled v hv i hmem
  cases hL v hv i with
  | closed howner => exact .closed howner
  | merged howner hdata _ =>
      refine .merged howner hdata (fun _ => ?_)
      by_contra hlamports
      have howner' := (h.owner v hv i).resolve_right hlamports
      have hkept : (L (D.stakeKey v i)).kept = 0 := by
        simp [Account.kept, hdata, howner, StakeState.reserved]
      refine (hnow.kept_ne_zero_iff.mpr ⟨howner'.trans howner, ?_⟩) ?_
      · rw [h.lamports v hv i, if_neg hmem]
        exact hlamports
      · rw [h.kept v hv i]
        exact hkept
  | live state m hlive => exact .live state m hlive

/-- An account that was not filled again is not filled along the way. -/
theorem unfilled_at (h : D.SweptTo W quiet keys L L') (hv : v ∈ W)
    (hbefore : D.SoundStake True (L (D.stakeKey v i))) :
    D.SoundStake True (L' (D.stakeKey v i)) := by
  cases h.sound v hv i with
  | closed howner => exact .closed howner
  | merged howner hdata _ =>
      refine .merged howner hdata (fun _ => ?_)
      have hkept : (L (D.stakeKey v i)).kept = 0 := by
        rw [← h.kept v hv i]
        simp [Account.kept, hdata, howner, StakeState.reserved]
      rw [h.lamports v hv i]
      split
      · exact hkept
      · by_contra hlamports
        have howner' := (h.owner v hv i).resolve_right hlamports
        exact hbefore.kept_ne_zero_iff.mpr ⟨howner'.symm.trans howner, hlamports⟩ hkept
  | live state m hlive => exact .live state m hlive

/-- One more account is swept. -/
theorem sweep (h : D.SweptTo W quiet keys L L') (hW : D.NoCollision W)
    (hL : D.SoundStakes False W L) (hv : v ∈ W)
    (hnow : D.SoundStake True (L' (D.stakeKey v i)))
    (hfits : (L' D.reserveKey).lamports.toNat + (L' (D.stakeKey v i)).free.toNat < 2 ^ 64) :
    D.SweptTo W quiet (insert (D.stakeKey v i) keys) L
      (L'.moveLamports (D.stakeKey v i) D.reserveKey (L' (D.stakeKey v i)).free) := by
  have hne := hW.ne_reserve v hv i
  have hself : (L'.moveLamports (D.stakeKey v i) D.reserveKey (L' (D.stakeKey v i)).free)
      (D.stakeKey v i) = (L' (D.stakeKey v i)).swept := by
    rw [L'.moveLamports_source _ hne]
    unfold Account.swept Account.free
    rw [sub_sub_cancel]
  have hother : ∀ v' ∈ W, ∀ i', D.stakeKey v' i' ≠ D.stakeKey v i →
      (L'.moveLamports (D.stakeKey v i) D.reserveKey (L' (D.stakeKey v i)).free)
        (D.stakeKey v' i') = L' (D.stakeKey v' i') :=
    fun v' hv' i' hdifferent =>
      L'.moveLamports_of_ne _ hdifferent (hW.ne_reserve v' hv' i')
  refine ⟨?_, ?_, ?_, ?_, ?_, ?_⟩
  · rw [L'.moveLamports_target _ hne]
    change ((L' D.reserveKey).lamports + (L' (D.stakeKey v i)).free).toNat = _
    rw [toNat_add_of_lt hfits, h.reserve, h.free_eq hv]
    by_cases hmem : D.stakeKey v i ∈ keys
    · rw [Finset.insert_eq_of_mem hmem, if_pos hmem]
      rfl
    · rw [Finset.sum_insert hmem, if_neg hmem]
      omega
  · intro v' hv' i'
    by_cases hsame : D.stakeKey v' i' = D.stakeKey v i
    · rw [hsame, hself, Account.swept_kept, h.kept v hv i]
    · rw [hother v' hv' i' hsame, h.kept v' hv' i']
  · intro v' hv' i'
    by_cases hsame : D.stakeKey v' i' = D.stakeKey v i
    · rw [hsame, hself, if_pos (Finset.mem_insert_self _ _)]
      exact h.kept v hv i
    · rw [hother v' hv' i' hsame, h.lamports v' hv' i']
      simp only [Finset.mem_insert, hsame, false_or]
  · intro v' hv' i'
    rw [Ledger.moveLamports_owner]
    exact h.owner v' hv' i'
  · intro v' hv' i'
    by_cases hsame : D.stakeKey v' i' = D.stakeKey v i
    · rw [hsame, hself]
      exact (h.sound v hv i).swept
    · rw [hother v' hv' i' hsame]
      exact h.sound v' hv' i'
  · intro v' hv' i' hmem
    rcases Finset.mem_insert.mp hmem with hsame | hold
    · rw [hsame]
      exact h.unfilled_of hL hv hnow
    · exact h.unfilled v' hv' i' hold

/-- The lamports of all accounts to sweep bound what the reserve can hold. -/
theorem room {all : Finset Pubkey} (h : D.SweptTo W quiet keys L L')
    (hL : D.SoundStakes False W L) (hbounded : D.Bounded all L)
    (hall : ∀ k ∈ all, ∃ v ∈ W, ∃ i, D.stakeKey v i = k)
    (hkeys : insert (D.stakeKey v i) keys ⊆ all) (hv : v ∈ W) :
    (L' D.reserveKey).lamports.toNat + (L' (D.stakeKey v i)).free.toNat < 2 ^ 64 := by
  have hfree : ∑ k ∈ all, (L k).free.toNat ≤ ∑ k ∈ all, (L k).lamports.toNat := by
    apply Finset.sum_le_sum
    intro k hk
    obtain ⟨v, hv, i, rfl⟩ := hall k hk
    have hsum := (hL v hv i).kept_add_free
    omega
  have hle : ∑ k ∈ insert (D.stakeKey v i) keys, (L k).free.toNat ≤
      ∑ k ∈ all, (L k).free.toNat :=
    Finset.sum_le_sum_of_subset hkeys
  unfold Bounded at hbounded
  rw [h.reserve, h.free_eq hv]
  by_cases hmem : D.stakeKey v i ∈ keys
  · rw [Finset.insert_eq_of_mem hmem] at hle
    rw [if_pos hmem]
    change _ + _ + 0 < _
    omega
  · rw [Finset.sum_insert hmem] at hle
    rw [if_neg hmem]
    omega

/-- Writes that leave the stake addresses and the balance of the reserve alone. -/
theorem congr {L'' : Ledger} (h : D.SweptTo W quiet keys L L')
    (hreserve : (L'' D.reserveKey).lamports = (L' D.reserveKey).lamports)
    (hsame : ∀ v ∈ W, ∀ i, L'' (D.stakeKey v i) = L' (D.stakeKey v i)) :
    D.SweptTo W quiet keys L L'' where
  reserve := by
    rw [hreserve]
    exact h.reserve
  kept v hv i := by
    rw [hsame v hv i]
    exact h.kept v hv i
  lamports v hv i := by
    rw [hsame v hv i]
    exact h.lamports v hv i
  owner v hv i := by
    rw [hsame v hv i]
    exact h.owner v hv i
  sound v hv i := by
    rw [hsame v hv i]
    exact h.sound v hv i
  unfilled := h.unfilled

end SweptTo

/-! ## What a refresh writes down -/

variable (D) (L) (v)

/-- Lamports that belong to the first `n` stakes of a validator. -/
def keptBelow : Nat → UInt64
  | 0 => 0
  | n + 1 => keptBelow n + (L (D.stakeKey v (UInt32.ofNat n))).kept

/-- One more than the last live stake among the first `n`. -/
def liveBelow : Nat → Nat
  | 0 => 0
  | n + 1 => if (L (D.stakeKey v (UInt32.ofNat n))).kept = 0 then liveBelow n else n + 1

/-- The record a refresh writes. -/
def refreshed (epoch : UInt64) (r : ValidatorStakeInfo) : ValidatorStakeInfo :=
  { r with
    balance := D.keptBelow L r.validatorAccount r.stakeCount.toNat
    stakeCount := UInt32.ofNat (D.liveBelow L r.validatorAccount r.stakeCount.toNat)
    lastUpdateEpoch := epoch }

/-- The records after a refresh of the validators in `names`. -/
def refreshedIn (epoch : UInt64) (names : List Pubkey) (V : List ValidatorStakeInfo) :
    List ValidatorStakeInfo :=
  V.map (fun r => if r.validatorAccount ∈ names then D.refreshed L epoch r else r)

/-- The stake addresses that a refresh of the validators in `names` goes through. -/
def keysOf (names : List Pubkey) (V : List ValidatorStakeInfo) : Finset Pubkey :=
  (V.filter (fun r => r.validatorAccount ∈ names)).toFinset.biUnion
    (fun r => D.keysBelow r.validatorAccount r.stakeCount.toNat)

/-- All the stake addresses that are counted. -/
def countedKeys (V : List ValidatorStakeInfo) : Finset Pubkey :=
  D.keysOf (V.map ValidatorStakeInfo.validatorAccount) V

variable {D L v}

variable (D L v) in
theorem liveBelow_le (n : Nat) : D.liveBelow L v n ≤ n := by
  induction n with
  | zero => exact le_refl 0
  | succ n ih =>
      unfold liveBelow
      split
      · exact Nat.le_succ_of_le ih
      · exact le_refl _

/-- Beyond the last live stake nothing is kept. -/
theorem kept_of_liveBelow_le {n i : Nat} (hi : D.liveBelow L v n ≤ i) (hn : i < n) :
    (L (D.stakeKey v (UInt32.ofNat i))).kept = 0 := by
  induction n with
  | zero => exact absurd hn (Nat.not_lt_zero i)
  | succ n ih =>
      unfold liveBelow at hi
      split at hi
      case isTrue hzero =>
        rcases Nat.lt_succ_iff_lt_or_eq.mp hn with hlt | rfl
        · exact ih hi hlt
        · exact hzero
      case isFalse => omega

/-- The last live stake is live. -/
theorem kept_ne_zero_of_liveBelow {n : Nat} (hpos : D.liveBelow L v n ≠ 0) :
    (L (D.stakeKey v (UInt32.ofNat (D.liveBelow L v n - 1)))).kept ≠ 0 := by
  induction n with
  | zero => exact absurd rfl hpos
  | succ n ih =>
      unfold liveBelow at hpos ⊢
      split
      case isTrue hzero =>
        rw [if_pos hzero] at hpos
        exact ih hpos
      case isFalse hlive => exact hlive

theorem liveBelow_eq_zero_iff (hn : n ≤ 2 ^ 32) :
    D.liveBelow L v n = 0 ↔ ∀ i : UInt32, i.toNat < n → (L (D.stakeKey v i)).kept = 0 := by
  constructor
  · intro hzero i hi
    have hkept := kept_of_liveBelow_le (D := D) (L := L) (v := v) (n := n) (i := i.toNat)
      (by rw [hzero]; exact Nat.zero_le _) hi
    rwa [UInt32.ofNat_toNat] at hkept
  · intro hall
    by_contra hpos
    have hle := liveBelow_le D L v n
    apply kept_ne_zero_of_liveBelow hpos
    apply hall
    rw [toNat_ofNat_index (by omega)]
    omega

theorem keptBelow_liveBelow (n : Nat) :
    D.keptBelow L v (D.liveBelow L v n) = D.keptBelow L v n := by
  induction n with
  | zero => rfl
  | succ n ih =>
      unfold liveBelow
      split
      case isTrue hzero =>
        rw [ih]
        change _ = D.keptBelow L v n + _
        rw [hzero, UInt64.add_zero]
      case isFalse => rfl

theorem liveBelow_liveBelow (n : Nat) :
    D.liveBelow L v (D.liveBelow L v n) = D.liveBelow L v n := by
  induction n with
  | zero => rfl
  | succ n ih =>
      conv_rhs => unfold liveBelow
      conv_lhs =>
        arg 4
        unfold liveBelow
      split
      case isTrue => exact ih
      case isFalse hlive =>
        unfold liveBelow
        rw [if_neg hlive]

theorem refreshed_stakeCount_toNat (epoch : UInt64) (r : ValidatorStakeInfo) :
    (D.refreshed L epoch r).stakeCount.toNat =
      D.liveBelow L r.validatorAccount r.stakeCount.toNat := by
  have hle := liveBelow_le D L r.validatorAccount r.stakeCount.toNat
  have hlt := UInt32.toNat_lt r.stakeCount
  exact toNat_ofNat_index (by omega)

/-- A second refresh writes the same record. -/
theorem refreshed_refreshed (epoch : UInt64) (r : ValidatorStakeInfo) :
    D.refreshed L epoch (D.refreshed L epoch r) = D.refreshed L epoch r := by
  change ({ r with
      balance := D.keptBelow L r.validatorAccount (D.refreshed L epoch r).stakeCount.toNat
      stakeCount := UInt32.ofNat
        (D.liveBelow L r.validatorAccount (D.refreshed L epoch r).stakeCount.toNat)
      lastUpdateEpoch := epoch } : ValidatorStakeInfo) = _
  rw [refreshed_stakeCount_toNat, keptBelow_liveBelow, liveBelow_liveBelow]
  rfl

end Deployment

end Tenderize
