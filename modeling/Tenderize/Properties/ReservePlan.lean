import Tenderize.Model.Planner
import Tenderize.Support.Greedy
import Tenderize.Properties.Encoding

/-!
# The plan for the reserve

`delegateReserveBatch` hands the reserve out along the list of validators, each up to the
rounded-up average.
-/

namespace Tenderize

open Support

/-- Stake counts are read as words of 32 bits. -/
def ValidatorInfo.InRange (v : ValidatorInfo) : Prop := v.stakeCount < 2 ^ 32

namespace TenderizeProgram

variable (P : Programs) (connection : Connection) (this : TenderizeProgram)

/-! ## Indices -/

theorem findFree_le (validator : Pubkey) {indices : List Nat} {count : Nat}
    (hindices : ∀ i ∈ indices, i ≤ count ∧ i < 2 ^ 32) :
    ∀ {free : Nat}, free ≤ count →
      ∃ index, this.findFree P connection validator indices free = .ok index ∧ index ≤ count := by
  induction indices with
  | nil => exact fun hfree => ⟨_, rfl, hfree⟩
  | cons i indices ih =>
      intro free hfree
      obtain ⟨hi, hrest⟩ := List.forall_mem_cons.mp hindices
      have haddress := getStakeForValidator_ok (P := P) this validator
        (Int.natCast_nonneg i) (by omega)
      simp only [findFree, haddress]
      refine ih hrest ?_
      split
      · exact hi.1
      · exact hfree

theorem findActivating_ok (validator : Pubkey) {indices : List Nat}
    (hindices : ∀ i ∈ indices, i < 2 ^ 32) :
    ∃ found, this.findActivating P connection validator indices = .ok found ∧
      ∀ i ∈ found, i ∈ indices := by
  induction indices with
  | nil => exact ⟨none, rfl, by simp⟩
  | cons i indices ih =>
      obtain ⟨hi, hrest⟩ := List.forall_mem_cons.mp hindices
      have haddress := getStakeForValidator_ok (P := P) this validator
        (Int.natCast_nonneg i) (by omega)
      obtain ⟨found, hfound, hmem⟩ := ih hrest
      have hlater : ∀ j ∈ found, j ∈ i :: indices := fun j hj => List.mem_cons_of_mem _ (hmem j hj)
      simp only [findActivating, haddress, ok_bind]
      split
      · split
        · exact ⟨some i, rfl, by simp⟩
        · exact ⟨found, hfound, hlater⟩
      · exact ⟨found, hfound, hlater⟩

/-- A delegation goes to an account of the validator or to the next one. -/
theorem delegationIndex_ok {v : ValidatorInfo} (h : v.InRange) :
    ∃ index, this.delegationIndex P connection v = .ok index ∧ index ≤ v.stakeCount := by
  have hindices : ∀ i ∈ List.range v.stakeCount, i ≤ v.stakeCount ∧ i < 2 ^ 32 := by
    intro i hi
    have hlt := List.mem_range.mp hi
    exact ⟨hlt.le, hlt.trans h⟩
  obtain ⟨found, hfound, hmem⟩ :=
    findActivating_ok P connection this v.votePubkey fun i hi => (hindices i hi).2
  unfold delegationIndex
  simp only [hfound]
  cases found with
  | some index => exact ⟨index, rfl, (hindices index (hmem index rfl)).1⟩
  | none => exact findFree_le P connection this v.votePubkey hindices le_rfl

/-! ## Shares -/

/-- What a validator lacks to the target. -/
def deficit (target : Int) (v : ValidatorInfo) : Int := target - v.balance

/-- The loop hands the amount out along the list. -/
theorem delegationLoop_allot (target : Int) {validators : List ValidatorInfo}
    (hrange : ∀ v ∈ validators, v.InRange) :
    ∀ amountLeft, ∃ planned,
      this.delegationLoop P connection target validators amountLeft =
        .ok (planned, (allot minStakeAccountBalance (deficit target) validators amountLeft).2) ∧
      planned.map (fun p => (p.1, p.2.amount)) =
        (allot minStakeAccountBalance (deficit target) validators amountLeft).1 ∧
      ∀ p ∈ planned, p.2.address = p.1.votePubkey ∧ 0 ≤ p.2.stakeIndex ∧
        p.2.stakeIndex ≤ p.1.stakeCount := by
  induction validators with
  | nil => exact fun amountLeft => ⟨[], rfl, rfl, by simp⟩
  | cons v validators ih =>
      intro amountLeft
      obtain ⟨hv, hrest⟩ := List.forall_mem_cons.mp hrange
      unfold delegationLoop allot
      by_cases hnone : amountLeft < 1
      · rw [if_pos hnone, if_pos hnone]
        exact ⟨[], rfl, rfl, by simp⟩
      · rw [if_neg hnone, if_neg hnone]
        have hfull : (v.balance : Int) ≥ target ↔ deficit target v ≤ 0 := by
          unfold deficit
          omega
        by_cases hneed : deficit target v ≤ 0
        · rw [if_pos (hfull.mpr hneed), if_pos hneed]
          exact ih hrest amountLeft
        · rw [if_neg (fun h => hneed (hfull.mp h)), if_neg hneed]
          obtain ⟨index, hindex, hle⟩ := delegationIndex_ok P connection this hv
          have hindexed : ∀ amount : Int, ∀ p ∈ [(v, (⟨v.votePubkey, amount, index⟩ :
              DepositReserveValidatorParam))], p.2.address = p.1.votePubkey ∧
              0 ≤ p.2.stakeIndex ∧ p.2.stakeIndex ≤ p.1.stakeCount := by
            intro amount p hp
            obtain rfl := List.mem_singleton.mp hp
            exact ⟨rfl, Int.natCast_nonneg index, Int.ofNat_le.mpr hle⟩
          by_cases hlast : amountLeft < deficit target v + minStakeAccountBalance
          · have hfold : amountLeft - min (target - v.balance) amountLeft <
                minStakeAccountBalance := by
              unfold deficit minStakeAccountBalance at *
              omega
            obtain ⟨planned, hloop, hplanned, -⟩ := ih hrest 0
            rw [allot_none _ (by decide)] at hloop hplanned
            obtain rfl := List.map_eq_nil_iff.mp hplanned
            rw [if_pos hlast]
            refine ⟨[(v, ⟨v.votePubkey, amountLeft, index⟩)], ?_, rfl, hindexed amountLeft⟩
            have hall : min (target - v.balance) amountLeft +
                (amountLeft - min (target - v.balance) amountLeft) = amountLeft := by
              omega
            simp only [if_pos hfold, hindex, hloop, hall]
            rfl
          · have hshare : min (target - v.balance) amountLeft = deficit target v := by
              unfold deficit minStakeAccountBalance at *
              omega
            have hkeep : ¬amountLeft - deficit target v < minStakeAccountBalance := by
              omega
            obtain ⟨planned, hloop, hplanned, hindices⟩ := ih hrest (amountLeft - deficit target v)
            rw [if_neg hlast]
            refine ⟨(v, ⟨v.votePubkey, deficit target v, index⟩) :: planned, ?_, ?_, ?_⟩
            · simp only [hshare, if_neg hkeep, hindex, hloop]
              rfl
            · rw [List.map_cons, hplanned]
            · exact List.forall_mem_cons.mpr
                ⟨hindexed (deficit target v) _ List.mem_cons_self, hindices⟩

/-! ## Enough need -/

theorem le_mul_ceilDiv (total : Int) {count : Int} (h : 0 < count) :
    total ≤ count * ceilDiv total count := by
  have hfloor : count * (-total / count) ≤ -total := Int.mul_ediv_self_le (by omega)
  unfold ceilDiv
  rw [mul_neg]
  omega

theorem foldl_add (xs : List Int) : ∀ start, xs.foldl (· + ·) start = start + xs.sum := by
  intro start
  induction xs generalizing start with
  | nil => simp
  | cons x xs ih =>
      rw [List.foldl_cons, ih, List.sum_cons, add_assoc]

/-- Against the rounded-up average the validators lack at least the amount. -/
theorem le_needs (validators : List ValidatorInfo) (hne : validators ≠ []) (totalAmount : Int) :
    totalAmount ≤ needs (deficit (targetAmount validators totalAmount)) validators := by
  have hcount : 0 < (validators.length : Int) := by
    have hpos := List.length_pos_iff.mpr hne
    omega
  have hsum : ∀ target : Int, (validators.map (deficit target)).sum =
      validators.length * target - (validators.map fun v => (v.balance : Int)).sum := by
    intro target
    clear hne hcount
    induction validators with
    | nil => simp
    | cons v validators ih =>
        simp only [List.map_cons, List.sum_cons, ih, List.length_cons, deficit]
        push_cast
        ring
  have htarget : targetAmount validators totalAmount =
      ceilDiv ((validators.map fun v => (v.balance : Int)).sum + totalAmount)
        validators.length := by
    rw [targetAmount, foldl_add, zero_add]
  have hceil := le_mul_ceilDiv
    ((validators.map fun v => (v.balance : Int)).sum + totalAmount) hcount
  rw [← htarget] at hceil
  calc
    totalAmount
        ≤ validators.length * targetAmount validators totalAmount -
            (validators.map fun v => (v.balance : Int)).sum := by omega
    _ = (validators.map (deficit (targetAmount validators totalAmount))).sum := (hsum _).symm
    _ ≤ needs (deficit (targetAmount validators totalAmount)) validators := sum_le_needs _

end TenderizeProgram

open TenderizeProgram

/-! ## The plan -/

/-- The whole amount is handed out, each validator gets at most one positive share, none that
lacks nothing gets one, and who gets one ends less than the least stake above the target. -/
structure DistributesExactly (validators : List ValidatorInfo) (totalAmount : Int)
    (planned : List (ValidatorInfo × DepositReserveValidatorParam)) : Prop where
  sum : (planned.map fun p => p.2.amount).sum = totalAmount
  positive : ∀ p ∈ planned, 0 < p.2.amount
  once : (planned.map Prod.fst).Sublist validators
  address : ∀ p ∈ planned, p.2.address = p.1.votePubkey
  index : ∀ p ∈ planned, 0 ≤ p.2.stakeIndex ∧ p.2.stakeIndex ≤ p.1.stakeCount
  lacking : ∀ p ∈ planned, p.1.balance < targetAmount validators totalAmount
  bounded : ∀ p ∈ planned, p.1.balance + p.2.amount <
    targetAmount validators totalAmount + TenderizeProgram.minStakeAccountBalance

section Plan

variable {P : Programs} {connection : Connection} {this : TenderizeProgram}
  {validators : List ValidatorInfo} {totalAmount : Int}

/-- The plan for any validators hands out the whole amount. -/
theorem reserve_distributed_exactly (hne : validators ≠ [])
    (hcounts : ∀ v ∈ validators, v.stakeCount < 2 ^ 32)
    (htotal : TenderizeProgram.minStakeAccountBalance ≤ totalAmount) :
    ∃ planned, this.planDelegations P connection validators totalAmount = .ok planned ∧
      DistributesExactly validators totalAmount planned := by
  have hleast : 0 < TenderizeProgram.minStakeAccountBalance := by decide
  obtain ⟨planned, hloop, hshares, hplaces⟩ := delegationLoop_allot P connection this
    (targetAmount validators totalAmount) hcounts totalAmount
  have hnothing := allot_exhausts hleast validators (by omega)
    (le_needs validators hne totalAmount)
  have hsum := allot_sum TenderizeProgram.minStakeAccountBalance
    (deficit (targetAmount validators totalAmount)) validators totalAmount
  have hsub := allot_sublist TenderizeProgram.minStakeAccountBalance
    (deficit (targetAmount validators totalAmount)) validators totalAmount
  have hshare : ∀ p ∈ planned, 0 < deficit (targetAmount validators totalAmount) p.1 ∧
      0 < p.2.amount ∧ p.2.amount < deficit (targetAmount validators totalAmount) p.1 +
        TenderizeProgram.minStakeAccountBalance := by
    intro p hp
    have hmem : (p.1, p.2.amount) ∈ (allot TenderizeProgram.minStakeAccountBalance
        (deficit (targetAmount validators totalAmount)) validators totalAmount).1 := by
      rw [← hshares]
      exact List.mem_map_of_mem hp
    exact allot_share hleast hmem
  rw [hnothing] at hloop hsum
  rw [← hshares, List.map_map] at hsum hsub
  refine ⟨planned, ?_, ?_⟩
  · simp only [planDelegations, bind_eq_ok, require_eq_ok, pure_eq_ok, Prod.exists]
    exact ⟨(), fun h => hne (List.length_eq_zero_iff.mp h), planned, 0, hloop, (), by decide, rfl⟩
  · refine
      { sum := by rw [← hsum, add_zero]; rfl
        positive := fun p hp => (hshare p hp).2.1
        once := hsub
        address := fun p hp => (hplaces p hp).1
        index := fun p hp => (hplaces p hp).2
        lacking := ?_
        bounded := ?_ }
    · intro p hp
      have hneed := (hshare p hp).1
      unfold deficit at hneed
      omega
    · intro p hp
      have hbound := (hshare p hp).2.2
      unfold deficit at hbound
      omega

variable (P connection this) in
/-- The search for an account that began to activate in this epoch finds none, so the planned
instruction opens a new one. -/
def NoneActivating (v : ValidatorInfo) : Prop :=
  this.findActivating P connection v.votePubkey (List.range v.stakeCount) = .ok none

/-- The planned amounts for new stake accounts are at least the minimum of the program exactly
when every validator that lacks less than it, and needs a new account, is the one that takes
what is left of the amount. -/
theorem planned_openings_accepted_iff
    {planned : List (ValidatorInfo × DepositReserveValidatorParam)}
    (hcounts : ∀ v ∈ validators, v.stakeCount < 2 ^ 32)
    (htotal : TenderizeProgram.minStakeAccountBalance ≤ totalAmount)
    (hplan : this.planDelegations P connection validators totalAmount = .ok planned) :
    (∀ p ∈ planned, NoneActivating P connection this p.1 →
        (Tenderize.minStakeAccountBalance.toNat : Int) ≤ p.2.amount) ↔
      ∀ before v after, validators = before ++ v :: after → NoneActivating P connection this v →
        v.balance < targetAmount validators totalAmount →
        targetAmount validators totalAmount - v.balance < Tenderize.minStakeAccountBalance.toNat →
        totalAmount < needs (deficit (targetAmount validators totalAmount)) (before ++ [v]) +
          TenderizeProgram.minStakeAccountBalance := by
  obtain ⟨planned', hloop, hshares, -⟩ := delegationLoop_allot P connection this
    (targetAmount validators totalAmount) hcounts totalAmount
  simp only [planDelegations, bind_eq_ok, require_eq_ok, pure_eq_ok, Prod.exists, hloop,
    Except.ok.injEq, Prod.mk.injEq] at hplan
  obtain ⟨-, -, _, _, ⟨rfl, rfl⟩, -, -, rfl⟩ := hplan
  have hlow : (Tenderize.minStakeAccountBalance.toNat : Int) ≤
      TenderizeProgram.minStakeAccountBalance := by
    decide
  have hiff := allot_large_iff (deficit (targetAmount validators totalAmount)) (by decide) hlow
    (NoneActivating P connection this) validators (.inr htotal)
  rw [← hshares] at hiff
  simp only [List.forall_mem_map, deficit, sub_pos] at hiff
  exact hiff

end Plan

section

open Reference

/-- A client that finds no stake account yet. -/
def noStakes : Connection := ⟨fun _ => none, fun _ => .error (.error "not found")⟩

theorem reserve_distributed_exactly_twoValidators :
    ∃ planned, ownerClient.planDelegations programs noStakes
        [⟨validatorKey, 500000000, 0, 0⟩, ⟨friendKey, 2000000000, 0, 1⟩] 3000000000 =
          .ok planned ∧
      DistributesExactly [⟨validatorKey, 500000000, 0, 0⟩, ⟨friendKey, 2000000000, 0, 1⟩]
        3000000000 planned :=
  reserve_distributed_exactly (List.cons_ne_nil _ _) (by decide) (by decide)

/-- A validator that is almost full comes after one that takes everything. -/
theorem planned_openings_accepted_smallDeficit :
    ∃ planned, ownerClient.planDelegations programs noStakes
        [⟨validatorKey, 0, 0, 0⟩, ⟨friendKey, 1900000000, 0, 0⟩] 2000000000 = .ok planned ∧
      planned.map (fun p => p.2.amount) = [2000000000] ∧
      ∀ p ∈ planned, NoneActivating programs noStakes ownerClient p.1 →
        (Tenderize.minStakeAccountBalance.toNat : Int) ≤ p.2.amount := by
  have hplan : ownerClient.planDelegations programs noStakes
      [⟨validatorKey, 0, 0, 0⟩, ⟨friendKey, 1900000000, 0, 0⟩] 2000000000 =
        .ok [(⟨validatorKey, 0, 0, 0⟩, ⟨validatorKey, 2000000000, 0⟩)] := by
    decide +kernel
  refine ⟨_, hplan, rfl, (planned_openings_accepted_iff (by decide) (by decide) hplan).mpr ?_⟩
  intro before v after hsplit _ _ hsmall
  cases before with
  | nil =>
      obtain ⟨rfl, -⟩ := List.cons.inj hsplit
      exact absurd hsmall (by decide)
  | cons w before =>
      obtain ⟨rfl, hrest⟩ := List.cons.inj hsplit
      cases before with
      | nil =>
          obtain ⟨rfl, -⟩ := List.cons.inj hrest
          decide
      | cons w' before => simp at hrest

/-- A validator that is almost full gets a share the program does not open an account for. -/
theorem planned_opening_too_small :
    ∃ planned, ownerClient.planDelegations programs noStakes
        [⟨validatorKey, 1900000000, 0, 0⟩, ⟨friendKey, 0, 0, 0⟩] 2000000000 = .ok planned ∧
      (⟨validatorKey, 1900000000, 0, 0⟩, ⟨validatorKey, 50000000, 0⟩) ∈ planned ∧
      NoneActivating programs noStakes ownerClient ⟨validatorKey, 1900000000, 0, 0⟩ ∧
      ∀ a clock depositBump reserveBump vote stake stakeBump L,
        initStake programs Reference.programId a clock depositBump reserveBump vote stake
          stakeBump 0 (word64 50000000) L = .error .insufficientFunds := by
  refine ⟨[(⟨validatorKey, 1900000000, 0, 0⟩, ⟨validatorKey, 50000000, 0⟩),
    (⟨friendKey, 0, 0, 0⟩, ⟨friendKey, 1950000000, 0⟩)], by decide +kernel,
    List.mem_cons_self, rfl, ?_⟩
  intro a clock depositBump reserveBump vote stake stakeBump L
  have hsmall : ¬¬word64 50000000 < Tenderize.minStakeAccountBalance := by decide
  unfold initStake
  rw [require, if_neg hsmall]
  rfl

end

end Tenderize
