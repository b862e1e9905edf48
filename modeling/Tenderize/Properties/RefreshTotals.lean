import Tenderize.Properties.Refreshable
import Tenderize.Properties.Delegation

/-!
# The totals of a full refresh

Calls of `UpdateListBalance` that name every listed validator, followed by
`UpdatePoolBalance`, write down what the counted stake accounts hold, whatever the calls and
their order are.  The totals are those of all stake accounts if the uncounted ones hold
nothing.
-/

namespace Tenderize

open Support

variable {D : Deployment} {quiet : Prop} {W : Set Pubkey} {c c' : Chain} {L L' : Ledger}
  {V : List ValidatorStakeInfo} {v : Pubkey} {n : Nat}

/-! ## Sums over stake addresses -/

namespace Deployment

theorem sum_keysBelow (hW : D.NoCollision W) (hv : v ∈ W) (hn : n ≤ 2 ^ 32) (f : Pubkey → Nat) :
    ∑ k ∈ D.keysBelow v n, f k = D.held f v n := by
  apply Finset.sum_image
  intro i hi j hj heq
  rw [Finset.mem_coe, Finset.mem_range] at hi hj
  have hindex := congrArg UInt32.toNat (hW.injective v hv v hv _ _ heq).2
  rwa [toNat_ofNat_index (by omega), toNat_ofNat_index (by omega)] at hindex

theorem sum_countedKeys (hW : D.NoCollision W) (hV : Listed W V) (f : Pubkey → Nat) :
    ∑ k ∈ D.countedKeys V, f k =
      (V.map (fun r => D.held f r.validatorAccount r.stakeCount.toNat)).sum := by
  have hall : V.filter (fun r => r.validatorAccount ∈ V.map ValidatorStakeInfo.validatorAccount) =
      V := by
    rw [List.filter_eq_self]
    exact fun r hr => decide_eq_true (List.mem_map_of_mem hr)
  have hsums : ∀ r ∈ V, ∑ k ∈ D.keysBelow r.validatorAccount r.stakeCount.toNat, f k =
      D.held f r.validatorAccount r.stakeCount.toNat :=
    fun r hr => sum_keysBelow hW (hV.names r hr) (UInt32.toNat_lt _).le f
  unfold countedKeys keysOf
  rw [hall, Finset.sum_biUnion, Finset.sum_congr rfl
    (fun r hr => hsums r (List.mem_toFinset.mp hr)), List.sum_toFinset _ hV.nodup.of_map]
  -- the stake accounts of two validators are different ones
  intro r hr r' hr' hne
  rw [Finset.mem_coe, List.mem_toFinset] at hr hr'
  rw [Function.onFun, Finset.disjoint_left]
  intro k hk hk'
  obtain ⟨i, -, rfl⟩ := (mem_keysBelow (UInt32.toNat_lt _).le).mp hk
  obtain ⟨i', -, heq⟩ := (mem_keysBelow (UInt32.toNat_lt _).le).mp hk'
  have hname := (hW.injective _ (hV.names r' hr') _ (hV.names r hr) _ _ heq).1
  exact hne (List.inj_on_of_nodup_map hV.nodup hr hr' hname.symm)

variable (D L) in
/-- What the first `n` stake accounts of a validator keep in a sweep. -/
def keptIn (v : Pubkey) (n : Nat) : Nat := D.held (fun k => (L k).kept.toNat) v n

theorem keptBelow_toNat (h : D.keptIn L v n < 2 ^ 64) :
    (D.keptBelow L v n).toNat = D.keptIn L v n := by
  unfold keptIn at h ⊢
  induction n with
  | zero => rfl
  | succ n ih =>
      rw [held_succ] at h ⊢
      have hbelow := ih (by omega)
      rw [keptBelow, toNat_add_of_lt (by omega), hbelow]

/-! ## What a sweep leaves -/

theorem SweptTo.stakeLamports_eq {keys : Finset Pubkey} (h : D.SweptTo W quiet keys L L')
    (hv : v ∈ W) (i : UInt32) :
    stakeLamports L' (D.stakeKey v i) =
      if D.stakeKey v i ∈ keys then (L (D.stakeKey v i)).kept.toNat
      else stakeLamports L (D.stakeKey v i) := by
  have hlamports := h.lamports v hv i
  unfold stakeLamports
  by_cases hmem : D.stakeKey v i ∈ keys
  · rw [if_pos hmem] at hlamports ⊢
    by_cases howner : (L' (D.stakeKey v i)).owner = stakeProgramId
    · rw [if_pos howner, hlamports]
    · rw [if_neg howner, ← h.kept v hv i, Account.kept_of_owner howner]
      rfl
  · rw [if_neg hmem] at hlamports ⊢
    rw [hlamports]
    rcases h.owner v hv i with hsame | hempty
    · rw [hsame]
    · rw [hempty]
      simp

/-- The stake accounts of a validator that was swept: what they keep, and the uncounted
ones. -/
theorem SweptTo.heldAll_eq (hW : D.NoCollision W) (hV : Listed W V)
    (h : D.SweptTo W quiet (D.countedKeys V) L L') {r : ValidatorStakeInfo} (hr : r ∈ V) :
    D.heldAll (D.stakesOf L') r.validatorAccount =
      D.keptIn L r.validatorAccount r.stakeCount.toNat +
        ∑ i ∈ Finset.Ico r.stakeCount.toNat (2 ^ 32),
          D.stakesOf L (D.stakeKey r.validatorAccount (UInt32.ofNat i)) := by
  have hv := hV.names r hr
  have hcount := UInt32.toNat_lt r.stakeCount
  have hcounted : ∀ i < 2 ^ 32, D.stakeKey r.validatorAccount (UInt32.ofNat i) ∈ D.countedKeys V ↔
      i < r.stakeCount.toNat := by
    intro i hi
    constructor
    · intro hmem
      obtain ⟨r', hr', -, hbelow⟩ := mem_keysOf.mp hmem
      obtain ⟨j, hj, heq⟩ := (mem_keysBelow (UInt32.toNat_lt _).le).mp hbelow
      obtain ⟨hname, rfl⟩ := hW.injective _ (hV.names r' hr') _ hv _ _ heq
      rw [toNat_ofNat_index hi] at hj
      rwa [List.inj_on_of_nodup_map hV.nodup hr' hr hname] at hj
    · intro hlt
      refine mem_keysOf.mpr ⟨r, hr, List.mem_map_of_mem hr, ?_⟩
      exact (mem_keysBelow hcount.le).mpr ⟨_, by rwa [toNat_ofNat_index hi], rfl⟩
  unfold heldAll held keptIn
  rw [← Finset.sum_range_add_sum_Ico _ hcount.le]
  congr 1
  · apply Finset.sum_congr rfl
    intro i hi
    rw [Finset.mem_range] at hi
    rw [D.stakesOf_of_ne _ (hW.ne_reserve _ hv _), h.stakeLamports_eq hv,
      if_pos ((hcounted i (by omega)).mpr hi)]
  · apply Finset.sum_congr rfl
    intro i hi
    rw [Finset.mem_Ico] at hi
    have hne := hW.ne_reserve _ hv (UInt32.ofNat i)
    rw [D.stakesOf_of_ne _ hne, D.stakesOf_of_ne _ hne, h.stakeLamports_eq hv, if_neg]
    rw [hcounted i hi.2]
    omega

variable (D V) in
/-- The addresses of all stake accounts of the listed validators. -/
def stakeAddresses : Finset Pubkey :=
  V.toFinset.biUnion (fun r => D.keysBelow r.validatorAccount (2 ^ 32))

variable (D W V) in
/-- Lamports were only moved from stake addresses of listed validators to the reserve. -/
structure Collected (L L' : Ledger) : Prop where
  conserved : (L' D.reserveKey).lamports.toNat +
      ∑ k ∈ D.stakeAddresses V, (L' k).lamports.toNat =
    (L D.reserveKey).lamports.toNat + ∑ k ∈ D.stakeAddresses V, (L k).lamports.toNat
  taken : ∀ v ∈ W, ∀ i, (L' (D.stakeKey v i)).lamports ≤ (L (D.stakeKey v i)).lamports
  others : ∀ v ∈ W, ∀ i, D.stakeKey v i ∉ D.stakeAddresses V →
    (L' (D.stakeKey v i)).lamports = (L (D.stakeKey v i)).lamports

theorem keysOf_subset_stakeAddresses {names : List Pubkey} :
    D.keysOf names V ⊆ D.stakeAddresses V := by
  intro k hk
  obtain ⟨r, hr, -, hbelow⟩ := mem_keysOf.mp hk
  exact Finset.mem_biUnion.mpr ⟨r, List.mem_toFinset.mpr hr,
    keysBelow_mono (UInt32.toNat_lt r.stakeCount).le hbelow⟩

theorem SweptTo.collected {keys : Finset Pubkey} (h : D.SweptTo W quiet keys L L')
    (hL : D.SoundStakes False W L) (hV : Listed W V) (hkeys : keys ⊆ D.stakeAddresses V) :
    D.Collected W V L L' where
  conserved := by
    have hsplit : ∀ k ∈ D.stakeAddresses V, (L k).lamports.toNat =
        (L' k).lamports.toNat + if k ∈ keys then (L k).free.toNat else 0 := by
      intro k hk
      obtain ⟨r, hr, hbelow⟩ := Finset.mem_biUnion.mp hk
      obtain ⟨i, -, rfl⟩ := (mem_keysBelow le_rfl).mp hbelow
      have hv := hV.names r (List.mem_toFinset.mp hr)
      rw [h.lamports _ hv i]
      split
      · exact (hL _ hv i).kept_add_free.symm
      · rfl
    rw [Finset.sum_congr rfl hsplit, Finset.sum_add_distrib, Finset.sum_ite_mem,
      Finset.inter_eq_right.mpr hkeys, h.reserve]
    omega
  taken v hv i := by
    rw [h.lamports v hv i]
    split
    · exact (hL v hv i).kept_le
    · exact UInt64.le_refl _
  others v hv i hout := by
    rw [h.lamports v hv i, if_neg (fun hmem => hout (hkeys hmem))]

end Deployment

/-! ## Calls in one epoch -/

variable (D) in
/-- Calls of `UpdateListBalance` one after the other, and the validators they name. -/
def Deployment.updateLists : List (List AccountInfo) → Chain →
    Except ProgramError (List Pubkey × Chain)
  | [], c => .ok ([], c)
  | accounts :: calls, c => do
      let L ← dispatch D.programs D.programId .updateListBalance accounts c
      let (names, c') ← Deployment.updateLists calls { c with ledger := L }
      pure (D.namedBy c accounts ++ names, c')

theorem updateLists_refreshes {L₀ : Ledger} {V₀ : List ValidatorStakeInfo}
    (hS : D.programs.StakeRules) (hW : D.Separate W) (hL₀ : D.SoundStakes False W L₀)
    (hV₀ : Deployment.Listed W V₀) (calls : List (List AccountInfo)) :
    ∀ {c : Chain} {s : PoolState} {names named : List Pubkey}, D.Represents c.ledger s →
      RefreshedTo D W quiet c.clock.epoch names V₀ L₀ s.list.validators c.ledger →
      (∀ accounts ∈ calls, D.Addressed accounts) → D.updateLists calls c = .ok (named, c') →
      ∃ s', D.Represents c'.ledger s' ∧
        s'.list = { s.list with validators := s'.list.validators } ∧
        RefreshedTo D W quiet c.clock.epoch (names ++ named) V₀ L₀ s'.list.validators
          c'.ledger := by
  induction calls with
  | nil =>
      intro c s names named hrep hbefore _ hrun
      obtain ⟨rfl, rfl⟩ := Prod.mk.inj (Except.ok.inj hrun)
      refine ⟨s, hrep, rfl, ?_⟩
      rw [List.append_nil]
      exact hbefore
  | cons accounts calls ih =>
      intro c s names named hrep hbefore haddressed hrun
      simp only [Deployment.updateLists, bind_eq_ok, pure_eq_ok, Prod.exists, Prod.mk.injEq]
        at hrun
      obtain ⟨L₁, hcall, names₁, c₁, hrest, rfl, rfl⟩ := hrun
      rw [List.forall_mem_cons] at haddressed
      obtain ⟨V', hnext, hrep'⟩ := processUpdateListBalance_sweeps hrep haddressed.1 hS hW hL₀
        hV₀ hbefore hcall
      obtain ⟨s', hs', hlist, hafter⟩ :=
        ih (c := { c with ledger := L₁ }) hrep' hnext haddressed.2 hrest
      rw [List.append_assoc] at hafter
      exact ⟨s', hs', hlist, hafter⟩

/-! ## Full refreshes -/

variable (D) in
/-- Calls that name every listed validator, in any order and as often as they like, and then
the total. -/
def Deployment.FullRefresh (c : Chain) (L' : Ledger) : Prop :=
  ∃ calls names c' accounts, (∀ call ∈ calls, D.Addressed call) ∧ D.Addressed accounts ∧
    D.updateLists calls c = .ok (names, c') ∧
    (∀ r ∈ (D.stateOf c.ledger).list.validators, r.validatorAccount ∈ names) ∧
    dispatch D.programs D.programId .updatePoolBalance accounts c' = .ok L'

/-- Every record, and the total, is what the stake accounts and the reserve hold. -/
structure PoolState.Exact (s : PoolState) (D : Deployment) : Prop where
  balances : ∀ r ∈ s.list.validators, r.balance.toNat = D.heldAll s.stakes r.validatorAccount
  total : s.pool.stakeTotal.toNat = s.reserve.toNat +
    (s.list.validators.map (fun r => D.heldAll s.stakes r.validatorAccount)).sum

/-- The stake accounts of listed validators that hold lamports are counted. -/
def PoolState.AllCounted (s : PoolState) (D : Deployment) : Prop :=
  ∀ r ∈ s.list.validators, ∀ i, r.stakeCount ≤ i → s.stakes (D.stakeKey r.validatorAccount i) = 0

/-- What full refreshes of `c` end in. -/
structure Refreshed (D : Deployment) (W : Set Pubkey) (c : Chain) (s : PoolState) : Prop where
  list : s.list =
    { (D.stateOf c.ledger).list with
      validators :=
        (D.stateOf c.ledger).list.validators.map (D.refreshed c.ledger c.clock.epoch) }
  total : s.pool.stakeTotal = UInt64.ofNat s.recordedTotal
  swept : ∃ L, D.SweptTo W False (D.countedKeys (D.stateOf c.ledger).list.validators) c.ledger L ∧
    s.reserve = (L D.reserveKey).lamports ∧ s.stakes = D.stakesOf L

theorem Deployment.FullRefresh.refreshed (hS : D.programs.StakeRules) (hW : D.Separate W)
    (hkeeps : D.KeepsList W c) (hL : D.SoundStakes False W c.ledger)
    (h : D.FullRefresh c L') : Refreshed D W c (D.stateOf L') := by
  obtain ⟨hrep, hlisted, -⟩ := hkeeps
  obtain ⟨calls, names, c', accounts, hcalls, ha, hrun, hall, hpool⟩ := h
  obtain ⟨s', hs', hlist, hafter⟩ := updateLists_refreshes hS hW hL hlisted calls hrep
    (RefreshedTo.nothing hL) hcalls hrun
  obtain ⟨total, hsum, h'⟩ := processUpdatePoolBalance_ok hs' ha hpool
  rw [List.nil_append] at hafter
  have hkeys : D.keysOf names (D.stateOf c.ledger).list.validators =
      D.countedKeys (D.stateOf c.ledger).list.validators := by
    apply Finset.Subset.antisymm keysOf_subset
    intro k hk
    obtain ⟨r, hr, -, hbelow⟩ := mem_keysOf.mp hk
    exact mem_keysOf.mpr ⟨r, hr, hall r hr, hbelow⟩
  have hrecords : s'.list.validators =
      (D.stateOf c.ledger).list.validators.map (D.refreshed c.ledger c.clock.epoch) := by
    rw [hafter.records, Deployment.refreshedIn]
    exact List.map_congr_left fun r hr => if_pos (hall r hr)
  rw [← h'.eq_stateOf]
  refine ⟨?_, addBalances_ok hsum, c'.ledger, ?_, hs'.reserve_eq.symm, hs'.stakes_eq.symm⟩
  · rw [← hrecords]
    exact hlist
  · rw [← hkeys]
    exact hafter.ledger

namespace Refreshed

variable {s s₁ s₂ : PoolState}

theorem reserve_toNat (h : Refreshed D W c s) :
    s.reserve.toNat = (c.ledger D.reserveKey).lamports.toNat +
      ∑ k ∈ D.countedKeys (D.stateOf c.ledger).list.validators, (c.ledger k).free.toNat := by
  obtain ⟨L, hswept, hreserve, -⟩ := h.swept
  rw [hreserve]
  exact hswept.reserve

/-- The calls and their order make no difference. -/
theorem unique (h₁ : Refreshed D W c s₁) (h₂ : Refreshed D W c s₂) :
    s₁.list = s₂.list ∧ s₁.reserve = s₂.reserve ∧
      s₁.pool.stakeTotal = s₂.pool.stakeTotal := by
  have hlist := h₁.list.trans h₂.list.symm
  have hreserve : s₁.reserve = s₂.reserve :=
    UInt64.toNat_inj.mp (h₁.reserve_toNat.trans h₂.reserve_toNat.symm)
  refine ⟨hlist, hreserve, ?_⟩
  rw [h₁.total, h₂.total, PoolState.recordedTotal, PoolState.recordedTotal, hlist, hreserve]

section Exact

variable (h : Refreshed D W c s) (hW : D.NoCollision W)
  (hV : Deployment.Listed W (D.stateOf c.ledger).list.validators)
  (hL : D.SoundStakes False W c.ledger)
  (hbounded : D.Bounded (D.countedKeys (D.stateOf c.ledger).list.validators) c.ledger)

include hW hV hL hbounded

/-- What the records keep and what went to the reserve is what the accounts held. -/
theorem keptSum_lt :
    (c.ledger D.reserveKey).lamports.toNat +
      ∑ k ∈ D.countedKeys (D.stateOf c.ledger).list.validators, (c.ledger k).free.toNat +
      ((D.stateOf c.ledger).list.validators.map (fun r =>
        D.keptIn c.ledger r.validatorAccount r.stakeCount.toNat)).sum <
    2 ^ 64 := by
  have hkept := Deployment.sum_countedKeys hW hV (fun k => (c.ledger k).kept.toNat)
  have hsum : ∑ k ∈ D.countedKeys (D.stateOf c.ledger).list.validators,
      ((c.ledger k).kept.toNat + (c.ledger k).free.toNat) =
      ∑ k ∈ D.countedKeys (D.stateOf c.ledger).list.validators, (c.ledger k).lamports.toNat := by
    apply Finset.sum_congr rfl
    intro k hk
    obtain ⟨v, hv, i, rfl⟩ := keysOf_stakes hV k hk
    exact (hL v hv i).kept_add_free
  rw [Finset.sum_add_distrib, hkept] at hsum
  unfold Deployment.Bounded at hbounded
  unfold Deployment.keptIn
  omega

theorem balance_toNat {r : ValidatorStakeInfo} (hr : r ∈ (D.stateOf c.ledger).list.validators) :
    (D.refreshed c.ledger c.clock.epoch r).balance.toNat =
      D.keptIn c.ledger r.validatorAccount r.stakeCount.toNat := by
  apply Deployment.keptBelow_toNat
  have hlt := keptSum_lt hW hV hL hbounded
  have hle := List.single_le_sum (fun _ _ => Nat.zero_le _) _
    (List.mem_map_of_mem (f := fun r : ValidatorStakeInfo =>
      D.keptIn c.ledger r.validatorAccount r.stakeCount.toNat) hr)
  omega

include h

theorem total_toNat : s.pool.stakeTotal.toNat = s.recordedTotal := by
  rw [h.total, UInt64.toNat_ofNat']
  apply Nat.mod_eq_of_lt
  have hlt := keptSum_lt hW hV hL hbounded
  have hbalances : s.list.validators.map (fun r => r.balance.toNat) =
      (D.stateOf c.ledger).list.validators.map (fun r =>
        D.keptIn c.ledger r.validatorAccount r.stakeCount.toNat) := by
    rw [h.list, List.map_map]
    exact List.map_congr_left fun r hr => balance_toNat hW hV hL hbounded hr
  rw [PoolState.recordedTotal, h.reserve_toNat, hbalances]
  omega

theorem exact_iff : s.Exact D ↔ (D.stateOf c.ledger).AllCounted D := by
  obtain ⟨L, hswept, -, hstakes⟩ := h.swept
  -- a record misses what the uncounted accounts of its validator hold
  have hrecord : ∀ r ∈ (D.stateOf c.ledger).list.validators,
      (D.refreshed c.ledger c.clock.epoch r).balance.toNat =
          D.heldAll s.stakes r.validatorAccount ↔
        ∀ i, r.stakeCount ≤ i →
          (D.stateOf c.ledger).stakes (D.stakeKey r.validatorAccount i) = 0 := by
    intro r hr
    rw [balance_toNat hW hV hL hbounded hr, hstakes, hswept.heldAll_eq hW hV hr,
      Nat.left_eq_add, Finset.sum_eq_zero_iff]
    constructor
    · intro hzero i hi
      have hi' := hzero i.toNat (Finset.mem_Ico.mpr ⟨UInt32.le_iff_toNat_le.mp hi, i.toNat_lt⟩)
      rwa [UInt32.ofNat_toNat] at hi'
    · intro hzero i hi
      rw [Finset.mem_Ico] at hi
      apply hzero
      rw [UInt32.le_iff_toNat_le, toNat_ofNat_index hi.2]
      exact hi.1
  constructor
  · intro hexact r hr
    refine (hrecord r hr).mp (hexact.balances (D.refreshed c.ledger c.clock.epoch r) ?_)
    rw [h.list]
    exact List.mem_map_of_mem hr
  · intro hcounted
    have hbalances : ∀ r ∈ s.list.validators,
        r.balance.toNat = D.heldAll s.stakes r.validatorAccount := by
      intro r hr
      rw [h.list] at hr
      obtain ⟨r₀, hr₀, rfl⟩ := List.mem_map.mp hr
      exact (hrecord r₀ hr₀).mpr (hcounted r₀ hr₀)
    refine ⟨hbalances, ?_⟩
    rw [h.total_toNat hW hV hL hbounded, PoolState.recordedTotal,
      List.map_congr_left hbalances]

end Exact

end Refreshed

/-- Full refreshes write down the exact totals, whatever the calls are, if the uncounted stake
accounts hold nothing. -/
theorem full_refresh_exact_iff (hS : D.programs.StakeRules) (hW : D.Separate W)
    (h : (D.stakeRuns False False W).Reachable c)
    (hbounded : D.Bounded (D.countedKeys (D.stateOf c.ledger).list.validators) c.ledger) :
    (∀ calls names c', (∀ accounts ∈ calls, D.Addressed accounts) →
      D.updateLists calls c = .ok (names, c') →
      D.Collected W (D.stateOf c.ledger).list.validators c.ledger c'.ledger ∧
      ∀ r ∈ (D.stateOf c.ledger).list.validators, r.validatorAccount ∉ names →
        lookup ValidatorStakeInfo.validatorAccount r.validatorAccount
          (D.stateOf c'.ledger).list.validators = some r) ∧
    (∀ L₁ L₂, D.FullRefresh c L₁ → D.FullRefresh c L₂ →
      (D.stateOf L₁).list = (D.stateOf L₂).list ∧
      (D.stateOf L₁).reserve = (D.stateOf L₂).reserve ∧
      (D.stateOf L₁).pool.stakeTotal = (D.stateOf L₂).pool.stakeTotal) ∧
    ∀ L', D.FullRefresh c L' →
      ((D.stateOf L').Exact D ↔ (D.stateOf c.ledger).AllCounted D) := by
  have hsound := Deployment.stakeRuns_sound hS hW h
  have hkeeps := Deployment.stakeRuns_list hW.toNoCollision h
  have hlisted := hkeeps.listed
  refine ⟨?_, ?_, ?_⟩
  · intro calls names c' hcalls hrun
    obtain ⟨s', hs', -, hafter⟩ := updateLists_refreshes hS hW hsound hlisted calls
      hkeeps.represents (RefreshedTo.nothing hsound) hcalls hrun
    refine ⟨hafter.ledger.collected hsound hlisted Deployment.keysOf_subset_stakeAddresses, ?_⟩
    intro r hr hnot
    rw [← hs'.eq_stateOf, hafter.records, lookup_refreshedIn, lookup_of_mem hlisted.nodup hr,
      Option.map_some, List.nil_append, if_neg hnot]
  · intro L₁ L₂ h₁ h₂
    exact (h₁.refreshed hS hW hkeeps hsound).unique (h₂.refreshed hS hW hkeeps hsound)
  · intro L' hfull
    exact (hfull.refreshed hS hW hkeeps hsound).exact_iff hW.toNoCollision hlisted hsound hbounded

/-- While nobody sends lamports to what a merge left and the indices fit, all stake accounts
with lamports are counted. -/
theorem stakeRuns_allCounted (hS : D.programs.StakeRules) (hW : D.Separate W)
    (h : (D.stakeRuns True True W).Reachable c) : (D.stateOf c.ledger).AllCounted D := by
  obtain ⟨-, hlisted, -⟩ := Deployment.stakeRuns_list hW.toNoCollision h
  intro r hr i hi
  by_contra hne
  obtain ⟨r', hr', hname, hlt⟩ :=
    stakeRuns_live hS hW h _ (hlisted.names r hr) i (Nat.pos_of_ne_zero hne)
  rw [List.inj_on_of_nodup_map hlisted.nodup hr' hr hname] at hlt
  exact absurd hi (UInt32.not_le.mpr hlt)

section

open Reference

instance (c : Chain) (e : Event) : Decidable (e.Revives c) :=
  match e with
  | .instruction i accounts =>
      match i with
      | .withdraw _ => inferInstanceAs (Decidable (∃ info, accounts[5]? = some info ∧ _ ∧ _))
      | .initializePool _ | .addValidator | .removeValidator | .updateListBalance
      | .updatePoolBalance | .deposit _ | .setStakingAuthority | .setOwner | .credit _
      | .uncredit _ | .delegateReserve _ | .mergeStakes _ | .unstake _ | .payCreditors =>
          instDecidableFalse
  | .outside => instDecidableFalse

/-- The accounts of `UpdatePoolBalance`. -/
def poolAccounts : List AccountInfo :=
  [plain poolKey, plain listKey, plain reserveKey, plain clockId]

/-- Refresh the validator with each of the calls, then the pool; the ledger and the names. -/
def refreshWith (calls : List (List AccountInfo)) (c : Chain) :
    Except ProgramError (List Pubkey × Ledger) := do
  let x ← deployment.updateLists calls c
  let L ← dispatch programs programId .updatePoolBalance poolAccounts x.2
  pure (x.1, L)

theorem refreshWith_full {calls : List (List AccountInfo)} {names : List Pubkey}
    (hcalls : ∀ accounts ∈ calls, addressed accounts = true)
    (hlist : (deployment.stateOf c.ledger).list.validators.map
      ValidatorStakeInfo.validatorAccount ⊆ names)
    (h : refreshWith calls c = .ok (names, L')) : deployment.FullRefresh c L' := by
  simp only [refreshWith, bind_eq_ok, pure_eq_ok, Prod.mk.injEq, Prod.exists] at h
  obtain ⟨_, c', hrun, L₁, hpool, rfl, rfl⟩ := h
  refine ⟨calls, _, c', poolAccounts, fun accounts hmem => addressed_spec (hcalls accounts hmem),
    addressed_spec (by decide), hrun, ?_, hpool⟩
  exact fun r hr => hlist (List.mem_map_of_mem hr)

/-- The record, the reserve, the total and the lamports of the first two stake accounts. -/
def refreshTotals (L : Ledger) : List ValidatorStakeInfo × UInt64 × UInt64 × Nat :=
  let s := deployment.stateOf L
  (s.list.validators, s.reserve, s.pool.stakeTotal, deployment.held s.stakes validatorKey 2)

/-- The events of runs with one validator, whose stake accounts nobody revives. -/
def quietly (c : Chain) (e : Event) : Bool :=
  decide (e.AddsIn {validatorKey} ∧ ¬e.Revives c ∧ e.Fits)

def quietRun : List Action :=
  [deposit 1000000000 userTokensKey mintKey, addValidator validatorKey,
    delegate [⟨100000000, 0⟩, ⟨100000000, 1⟩, ⟨100000000, 2⟩], mergeStakes 0 1]

theorem full_refresh_exact_quietRun :
    ∃ c L', execute quietly quietRun = .ok c ∧
      refreshWith [refreshAccounts 3, refreshAccounts 3] c =
        .ok ([validatorKey, validatorKey], L') ∧
      (deployment.stateOf L').Exact deployment := by
  have hrun : (do
      let c ← execute quietly quietRun
      let x ← refreshWith [refreshAccounts 3, refreshAccounts 3] c
      pure (x.1, refreshView c)) =
        .ok ([validatorKey, validatorKey], listKey, [⟨validatorKey, 300000000, 0, 3⟩], true,
          false) := by
    decide +kernel
  simp only [bind_eq_ok, pure_eq_ok, Prod.exists] at hrun
  obtain ⟨c, hc, names, L', hrefresh, hresult⟩ := hrun
  simp only [refreshView, Prod.mk.injEq, decide_eq_true_eq] at hresult
  obtain ⟨rfl, -, hlist, hbounded, -⟩ := hresult
  have hquiet : (deployment.stakeRuns True True {validatorKey}).Reachable c := by
    refine execute_reachable_in (paysIn_instructions ?_) (fun _ _ hok => ?_) hc
    · simp [quietRun, deposit, addValidator, delegate, mergeStakes]
    · obtain ⟨hadds, hrevives, hfits⟩ := of_decide_eq_true hok
      exact ⟨hadds, fun _ => hrevives, fun _ => hfits⟩
  have hcounted := stakeRuns_allCounted stakeRules (separate validatorKey) hquiet
  obtain ⟨-, -, hexact⟩ := full_refresh_exact_iff stakeRules (separate validatorKey)
    (Deployment.stakeRuns_mono False.elim False.elim hquiet) hbounded
  refine ⟨c, L', hc, hrefresh, (hexact L' ?_).mpr hcounted⟩
  refine refreshWith_full (by decide) ?_ hrefresh
  rw [hlist]
  decide

/-- A withdrawal to the account that was just merged away, which is no longer counted. -/
def revivedRun : List Action :=
  [deposit 1000000000 userTokensKey mintKey, addValidator validatorKey,
    delegate [⟨100000000, 0⟩, ⟨100000000, 1⟩], mergeStakes 0 1,
    withdrawTo 5000000 (stakeAddress validatorKey poolKey 1)]

theorem full_refresh_misses_revived :
    ∃ c L', ((deployment.system (fun _ _ => False)).restrict
        (fun _ e => e.AddsIn {validatorKey})).Reachable c ∧
      deployment.FullRefresh c L' ∧
      (∃ r ∈ (deployment.stateOf L').list.validators,
        r.balance.toNat < deployment.heldAll (deployment.stateOf L').stakes r.validatorAccount) ∧
      (deployment.stateOf L').pool.stakeTotal.toNat < (deployment.stateOf L').reserve.toNat +
        ((deployment.stateOf L').list.validators.map (fun r =>
          deployment.heldAll (deployment.stateOf L').stakes r.validatorAccount)).sum := by
  have hrun : (do
      let c ← execute oneValidator revivedRun
      let x ← refreshWith [refreshAccounts 1] c
      pure ((x.1, (deployment.stateOf c.ledger).list.validators.map
        ValidatorStakeInfo.validatorAccount), refreshTotals x.2)) =
        .ok (([validatorKey], [validatorKey]), [⟨validatorKey, 200000000, 0, 1⟩], 795000000,
          995000000, 205000000) := by
    decide +kernel
  simp only [bind_eq_ok, pure_eq_ok, Prod.exists] at hrun
  obtain ⟨c, hc, names, L', hrefresh, hresult⟩ := hrun
  simp only [refreshTotals, Prod.mk.injEq] at hresult
  obtain ⟨⟨rfl, hlist⟩, hrecords, hreserve, htotal, hheld⟩ := hresult
  have hmono : deployment.held (deployment.stateOf L').stakes validatorKey 2 ≤
      deployment.heldAll (deployment.stateOf L').stakes validatorKey :=
    Deployment.held_mono _ _ _ (by norm_num)
  rw [hheld] at hmono
  refine ⟨c, L', ?_, ?_, ?_, ?_⟩
  · refine execute_reachable_in (paysIn_instructions ?_) (fun _ _ hok => of_decide_eq_true hok) hc
    simp [revivedRun, deposit, addValidator, delegate, mergeStakes, withdrawTo]
  · refine refreshWith_full (by decide) ?_ hrefresh
    rw [hlist]
    decide
  · rw [hrecords]
    refine ⟨_, List.mem_singleton_self _, lt_of_lt_of_le ?_ hmono⟩
    decide
  · rw [hrecords, hreserve, htotal, List.map_singleton, List.sum_singleton]
    have hless : (995000000 : UInt64).toNat < (795000000 : UInt64).toNat + 205000000 := by decide
    exact lt_of_lt_of_le hless (Nat.add_le_add_left hmono _)

end

end Tenderize
