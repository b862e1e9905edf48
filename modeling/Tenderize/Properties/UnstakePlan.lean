import Tenderize.Properties.ReservePlan

/-!
# The plan for an unstake

`unstake` of the admin client walks over the stake accounts of a validator and takes them
off the requested amount, whether it plans to unstake them or not.
-/

namespace Tenderize

open Support

/-! ## The walk over the accounts -/

/-- An account the network answered for. -/
structure StakeAnswer where
  index : Nat
  stakeData : StakeActivationData
  lamports : Nat

namespace StakeAnswer

def whole (validator : Pubkey) (a : StakeAnswer) : Unstake := ⟨validator, a.index, none, none⟩

def splitOff (validator : Pubkey) (free : Nat) (a : StakeAnswer) (amount : Int) : Unstake :=
  ⟨validator, a.index, some free, some amount⟩

/-- What is unstaked: whole accounts, and what is split off the one in which the walk ends. -/
def walk : List StakeAnswer → Int → List StakeAnswer × Option (StakeAnswer × Int)
  | [], _ => ([], none)
  | a :: answers, left =>
      if left ≥ a.lamports then
        let rest := walk answers (left - a.lamports)
        (if a.stakeData.killable then a :: rest.1 else rest.1, rest.2)
      else ([], if a.stakeData.splittable then some (a, left) else none)

/-- The lamports of accounts. -/
def total (answers : List StakeAnswer) : Int := (answers.map fun a => (a.lamports : Int)).sum

/-- The lamports a walk unstakes. -/
def released (w : List StakeAnswer × Option (StakeAnswer × Int)) : Int :=
  total w.1 + (w.2.map Prod.snd).getD 0

@[simp] theorem total_nil : total [] = 0 := rfl

theorem total_cons (a : StakeAnswer) (answers : List StakeAnswer) :
    total (a :: answers) = a.lamports + total answers := by
  simp [total]

theorem total_nonneg (answers : List StakeAnswer) : 0 ≤ total answers := by
  induction answers with
  | nil => exact le_rfl
  | cons a answers ih =>
      rw [total_cons]
      omega

theorem released_cons (a : StakeAnswer) (w : List StakeAnswer × Option (StakeAnswer × Int)) :
    released (a :: w.1, w.2) = a.lamports + released w := by
  unfold released
  rw [total_cons, add_assoc]

theorem released_le (answers : List StakeAnswer) {left : Int} (h : 0 ≤ left) :
    released (walk answers left) ≤ left := by
  induction answers generalizing left with
  | nil => simpa [walk, released] using h
  | cons a answers ih =>
      unfold walk
      split_ifs with hfits hkill hsplit
      · have hrest : released (walk answers (left - a.lamports)) ≤ left - a.lamports :=
          ih (by omega)
        change released (a :: (walk answers (left - a.lamports)).1,
          (walk answers (left - a.lamports)).2) ≤ left
        rw [released_cons]
        omega
      · have hrest : released (walk answers (left - a.lamports)) ≤ left - a.lamports :=
          ih (by omega)
        exact hrest.trans (by omega)
      · simp [released]
      · simpa [released] using h

/-- The accounts a request covers are unstaked, the one it ends in can be split, and behind
accounts that make it up exactly comes none that would be split. -/
def Fits (answers : List StakeAnswer) (amount : Int) : Prop :=
  ∀ before a after, answers = before ++ a :: after → 0 < a.lamports →
    (total before + a.lamports ≤ amount → a.stakeData.killable = true) ∧
    (total before < amount → amount < total before + a.lamports →
      a.stakeData.splittable = true) ∧
    (total before = amount → a.stakeData.splittable = false)

theorem fits_cons {a : StakeAnswer} {answers : List StakeAnswer} {amount : Int} :
    Fits (a :: answers) amount ↔
      (0 < a.lamports → (a.lamports ≤ amount → a.stakeData.killable = true) ∧
        (0 < amount → amount < a.lamports → a.stakeData.splittable = true) ∧
        (0 = amount → a.stakeData.splittable = false)) ∧
      Fits answers (amount - a.lamports) := by
  constructor
  · intro h
    refine ⟨fun hpos => ?_, fun before b after heq hpos => ?_⟩
    · have hhead := h [] a answers rfl hpos
      simpa using hhead
    · obtain ⟨h₁, h₂, h₃⟩ := h (a :: before) b after (by rw [heq]; rfl) hpos
      rw [total_cons] at h₁ h₂ h₃
      exact ⟨fun hb => h₁ (by omega), fun hb hb' => h₂ (by omega) (by omega),
        fun hb => h₃ (by omega)⟩
  · rintro ⟨hhead, htail⟩ before b after heq hpos
    cases before with
    | nil =>
        obtain ⟨rfl, rfl⟩ := List.cons.inj heq
        simpa using hhead hpos
    | cons c before =>
        obtain ⟨rfl, hanswers⟩ := List.cons.inj heq
        obtain ⟨h₁, h₂, h₃⟩ := htail before b after hanswers hpos
        rw [total_cons]
        exact ⟨fun hb => h₁ (by omega), fun hb hb' => h₂ (by omega) (by omega),
          fun hb => h₃ (by omega)⟩

/-- Accounts behind the end of the request do not matter. -/
theorem fits_of_neg (answers : List StakeAnswer) {amount : Int} (h : amount < 0) :
    Fits answers amount := by
  intro before a after _ hpos
  have hbefore := total_nonneg before
  exact ⟨fun hb => absurd hb (by omega), fun hb => absurd hb (by omega),
    fun hb => absurd hb (by omega)⟩

/-- The walk unstakes the request, the split not being empty, exactly when the accounts fit
it. -/
theorem released_eq_iff (answers : List StakeAnswer) {left : Int} (hleft : 0 ≤ left)
    (henough : left ≤ total (answers.filter fun a => a.stakeData.splittable)) :
    (released (walk answers left) = left ∧ ∀ p ∈ (walk answers left).2, 0 < p.2) ↔
      Fits answers left := by
  induction answers generalizing left with
  | nil =>
      have hzero : left = 0 := le_antisymm henough hleft
      subst hzero
      exact iff_of_true ⟨rfl, by simp [walk]⟩ fun before a after h => by simp at h
  | cons a answers ih =>
      rw [fits_cons]
      by_cases hfits : left ≥ a.lamports
      · -- the account is taken off the amount
        have hrest : left - a.lamports ≤
            total (answers.filter fun a => a.stakeData.splittable) := by
          rw [List.filter_cons] at henough
          split_ifs at henough
          · rw [total_cons] at henough
            omega
          · omega
        have hih := ih (by omega) hrest
        have hbound : released (walk answers (left - a.lamports)) ≤ left - a.lamports :=
          released_le answers (by omega)
        unfold walk
        rw [if_pos hfits, ← hih]
        by_cases hkill : a.stakeData.killable
        · simp only [if_pos hkill, released_cons]
          constructor
          · rintro ⟨heq, hpos⟩
            exact ⟨fun _ => ⟨fun _ => hkill, fun _ _ => by omega, fun _ => by omega⟩,
              by omega, hpos⟩
          · rintro ⟨-, heq, hpos⟩
            exact ⟨by omega, hpos⟩
        · simp only [if_neg hkill]
          change (released (walk answers (left - a.lamports)) = left ∧ _) ↔ _
          constructor
          · rintro ⟨heq, hpos⟩
            have hzero : (a.lamports : Int) = 0 := by omega
            exact ⟨fun h => absurd h (by omega), by omega, hpos⟩
          · rintro ⟨hhead, heq, hpos⟩
            have hzero : a.lamports = 0 := by
              by_contra hne
              exact hkill ((hhead (by omega)).1 hfits)
            exact ⟨by omega, hpos⟩
      · -- the walk ends here
        have hpos : 0 < a.lamports := by omega
        unfold walk
        rw [if_neg hfits]
        by_cases hsplit : a.stakeData.splittable
        · rw [if_pos hsplit]
          constructor
          · rintro ⟨-, hpositive⟩
            have hamount : 0 < left := hpositive (a, left) rfl
            exact ⟨fun _ => ⟨fun h => absurd h hfits, fun _ _ => hsplit, fun h => by omega⟩,
              fits_of_neg _ (by omega)⟩
          · rintro ⟨hhead, -⟩
            have hne : left ≠ 0 := by
              intro hzero
              rw [(hhead hpos).2.2 hzero.symm] at hsplit
              cases hsplit
            refine ⟨by simp [released], ?_⟩
            intro p hp
            obtain rfl := Option.some.inj hp
            change 0 < left
            omega
        · rw [if_neg hsplit]
          constructor
          · rintro ⟨heq, -⟩
            have hzero : 0 = left := heq
            refine ⟨fun _ => ⟨fun h => absurd h hfits, fun h => by omega, fun _ => ?_⟩,
              fits_of_neg _ (by omega)⟩
            simpa using hsplit
          · rintro ⟨hhead, -⟩
            have hzero : left = 0 := by
              by_contra hne
              exact hsplit ((hhead hpos).2.1 (by omega) (by omega))
            exact ⟨hzero.symm, by simp⟩

theorem walk_mem (answers : List StakeAnswer) (left : Int) {a : StakeAnswer}
    (h : a ∈ (walk answers left).1) : a ∈ answers := by
  induction answers generalizing left with
  | nil => exact h
  | cons b answers ih =>
      unfold walk at h
      split_ifs at h with hfits hkill
      · exact (List.mem_cons.mp h).elim (fun heq => heq ▸ List.mem_cons_self)
          fun hrest => List.mem_cons_of_mem _ (ih _ hrest)
      · exact List.mem_cons_of_mem _ (ih _ h)
      all_goals cases h

end StakeAnswer

/-! ## The plan -/

namespace TenderizeProgram

variable (P : Programs) (connection : Connection) (this : TenderizeProgram)

/-- The accounts of a validator the network answers for. -/
def answers (validator : Pubkey) (indices : List Nat) : List StakeAnswer :=
  indices.filterMap fun (i : Nat) =>
    (stakeAnswer connection (this.stakeAddress P validator i)).map fun answer =>
      ⟨i, answer.1, answer.2⟩

/-- The unstakes of a walk. -/
def unstakesOf (validator : Pubkey) (free : Nat)
    (w : List StakeAnswer × Option (StakeAnswer × Int)) : List Unstake :=
  w.1.map (StakeAnswer.whole validator) ++
    (w.2.map fun p => p.1.splitOff validator free p.2).toList

theorem unstakeLoop_walk (validator : Pubkey) (free : Nat) {indices : List Nat}
    (hindices : ∀ i ∈ indices, i < 2 ^ 32) :
    ∀ left : Int, this.unstakeLoop P connection validator free indices (some left) =
      .ok (unstakesOf validator free
        (StakeAnswer.walk (this.answers P connection validator indices) left)) := by
  induction indices with
  | nil => exact fun left => rfl
  | cons i indices ih =>
      intro left
      obtain ⟨hi, hrest⟩ := List.forall_mem_cons.mp hindices
      have haddress : this.getStakeForValidator P validator i =
          .ok (this.stakeAddress P validator i) :=
        getStakeForValidator_ok (P := P) this validator (Int.natCast_nonneg i) (by omega)
      unfold unstakeLoop answers
      rw [haddress, ok_bind]
      cases hanswer : stakeAnswer connection (this.stakeAddress P validator i) with
      | none =>
          simp only [List.filterMap_cons, hanswer, Option.map_none]
          exact ih hrest left
      | some answer =>
          obtain ⟨stakeData, stakeAmount⟩ := answer
          simp only [List.filterMap_cons, hanswer, Option.map_some, StakeAnswer.walk]
          by_cases hfits : left ≥ stakeAmount
          · have hloop := ih hrest (left - stakeAmount)
            rw [if_pos (by simpa using hfits), if_pos hfits, hloop]
            by_cases hkill : stakeData.killable
            · simp only [if_pos hkill]
              rfl
            · simp only [if_neg hkill]
              rfl
          · rw [if_neg (by simpa using hfits), if_neg hfits]
            by_cases hsplit : stakeData.splittable
            · rw [if_pos hsplit, if_pos hsplit]
              rfl
            · rw [if_neg hsplit, if_neg hsplit]
              rfl

/-- The lamports of an account, as the network answers. -/
def lamportsOf (key : Pubkey) : Int :=
  ((connection.getAccountInfo key).map AccountView.lamports).getD 0

theorem lamportsOf_answer {validator : Pubkey} {indices : List Nat} {a : StakeAnswer}
    (h : a ∈ this.answers P connection validator indices) :
    lamportsOf connection (this.stakeAddress P validator a.index) = a.lamports := by
  obtain ⟨i, -, hi⟩ := List.mem_filterMap.mp h
  obtain ⟨answer, hanswer, rfl⟩ := Option.map_eq_some_iff.mp hi
  unfold stakeAnswer at hanswer
  split at hanswer
  · obtain ⟨account, haccount, rfl⟩ := Option.map_eq_some_iff.mp hanswer
    change lamportsOf connection (this.stakeAddress P validator i) = account.lamports
    rw [lamportsOf, haccount]
    rfl
  · cases hanswer

/-- The lamports an unstake takes out of its account: the amount of a split, or all. -/
def unstaked (u : Unstake) : Int :=
  match u.splitIndex with
  | some _ => u.amount.getD 0
  | none => lamportsOf connection (this.stakeAddress P u.validator u.sourceIndex)

/-- A plan unstakes exactly the requested amount, with at most one split that is not empty. -/
structure MeetsRequest (amount : Int) (unstakes : List Unstake) : Prop where
  sum : (unstakes.map (this.unstaked P connection)).sum = amount
  split : ∀ u ∈ unstakes, u.splitIndex.isSome → ∃ n, u.amount = some n ∧ 0 < n
  once : (unstakes.filter fun u => u.splitIndex.isSome).length ≤ 1

theorem sum_unstakesOf (validator : Pubkey) (free : Nat)
    {w : List StakeAnswer × Option (StakeAnswer × Int)} {indices : List Nat}
    (hw : ∀ a ∈ w.1, a ∈ this.answers P connection validator indices) :
    ((unstakesOf validator free w).map (this.unstaked P connection)).sum =
      StakeAnswer.released w := by
  have hwhole : (w.1.map (StakeAnswer.whole validator)).map (this.unstaked P connection) =
      w.1.map fun a => (a.lamports : Int) := by
    rw [List.map_map]
    exact List.map_congr_left fun a ha => this.lamportsOf_answer P connection (hw a ha)
  unfold unstakesOf StakeAnswer.released StakeAnswer.total
  rw [List.map_append, List.sum_append, hwhole]
  cases w.2 with
  | none => rfl
  | some p => simp [unstaked, StakeAnswer.splitOff]

theorem splits_unstakesOf (validator : Pubkey) (free : Nat)
    (w : List StakeAnswer × Option (StakeAnswer × Int)) :
    (unstakesOf validator free w).filter (fun u => u.splitIndex.isSome) =
      (w.2.map fun p => p.1.splitOff validator free p.2).toList := by
  have hwhole : (w.1.map (StakeAnswer.whole validator)).filter (fun u => u.splitIndex.isSome) =
      [] := by
    rw [List.filter_eq_nil_iff]
    intro u hu
    obtain ⟨a, -, rfl⟩ := List.mem_map.mp hu
    exact Bool.false_ne_true
  unfold unstakesOf
  rw [List.filter_append, hwhole, List.nil_append]
  cases w.2 with
  | none => rfl
  | some p => rfl

theorem meetsRequest_iff (validator : Pubkey) (free : Nat) (amount : Int)
    {w : List StakeAnswer × Option (StakeAnswer × Int)} {indices : List Nat}
    (hw : ∀ a ∈ w.1, a ∈ this.answers P connection validator indices) :
    this.MeetsRequest P connection amount (unstakesOf validator free w) ↔
      StakeAnswer.released w = amount ∧ ∀ p ∈ w.2, 0 < p.2 := by
  have hsplits := splits_unstakesOf validator free w
  constructor
  · rintro ⟨hsum, hsplit, -⟩
    refine ⟨(this.sum_unstakesOf P connection validator free hw) ▸ hsum, ?_⟩
    intro p hp
    have hmem : p.1.splitOff validator free p.2 ∈ unstakesOf validator free w := by
      apply List.mem_of_mem_filter (p := fun u => u.splitIndex.isSome)
      rw [hsplits, hp]
      exact List.mem_singleton_self _
    obtain ⟨n, hn, hpos⟩ := hsplit _ hmem rfl
    exact (Option.some.inj hn) ▸ hpos
  · rintro ⟨hreleased, hpositive⟩
    refine ⟨(this.sum_unstakesOf P connection validator free hw).trans hreleased, ?_, ?_⟩
    · intro u hu hsome
      have hmem : u ∈ (w.2.map fun p => p.1.splitOff validator free p.2).toList := by
        rw [← hsplits]
        exact List.mem_filter.mpr ⟨hu, hsome⟩
      obtain ⟨p, hp, rfl⟩ := Option.map_eq_some_iff.mp (Option.mem_toList.mp hmem)
      exact ⟨p.2, rfl, hpositive p hp⟩
    · rw [hsplits]
      cases w.2 with
      | none => exact Nat.zero_le 1
      | some p => exact le_rfl

end TenderizeProgram

section Request

variable {P : Programs} {connection : Connection} {this : TenderizeProgram} {v : ValidatorInfo}
  {amount : Int}

/-- With enough lamports in active accounts, the plan of `unstake` meets the request exactly
when the accounts fit it in the order of their indices. -/
theorem unstake_meets_request_iff (hcount : v.stakeCount < 2 ^ 32) (hamount : 0 < amount)
    (henough : amount ≤ StakeAnswer.total
      ((this.answers P connection v.votePubkey (List.range v.stakeCount)).filter
        fun a => a.stakeData.splittable)) :
    ∃ unstakes, this.planUnstake P connection v (some amount) = .ok unstakes ∧
      (this.MeetsRequest P connection amount unstakes ↔
        StakeAnswer.Fits
          (this.answers P connection v.votePubkey (List.range v.stakeCount)) amount) := by
  have hindices : ∀ i ∈ List.range v.stakeCount, i ≤ v.stakeCount ∧ i < 2 ^ 32 := by
    intro i hi
    have hlt := List.mem_range.mp hi
    exact ⟨hlt.le, hlt.trans hcount⟩
  obtain ⟨free, hfree, -⟩ :=
    TenderizeProgram.findFree_le P connection this v.votePubkey hindices le_rfl
  have hloop := this.unstakeLoop_walk P connection v.votePubkey free
    (fun i hi => (hindices i hi).2) amount
  refine ⟨TenderizeProgram.unstakesOf v.votePubkey free (StakeAnswer.walk
    (this.answers P connection v.votePubkey (List.range v.stakeCount)) amount), ?_, ?_⟩
  · simp only [TenderizeProgram.planUnstake, bind_eq_ok]
    exact ⟨free, hfree, hloop⟩
  · rw [this.meetsRequest_iff P connection v.votePubkey free amount
      (fun a ha => StakeAnswer.walk_mem _ _ ha)]
    exact StakeAnswer.released_eq_iff _ hamount.le henough

end Request

section

open Reference

/-- Every account is active and has two SOL. -/
def allActive : Connection :=
  ⟨fun _ => some ⟨stakeProgramId, 2000000000, []⟩, fun _ => .ok ⟨.active, 1000000000⟩⟩

/-- One account is taken whole and one is split. -/
theorem unstake_meets_request_wholeAndSplit :
    ∃ unstakes, ownerClient.planUnstake programs allActive ⟨validatorKey, 4000000000, 0, 2⟩
        (some 2500000000) = .ok unstakes ∧
      unstakes.length = 2 ∧ ownerClient.MeetsRequest programs allActive 2500000000 unstakes := by
  have hfits : StakeAnswer.Fits (ownerClient.answers programs allActive validatorKey [0, 1])
      2500000000 := by
    change StakeAnswer.Fits [⟨0, ⟨.active, 1000000000⟩, 2000000000⟩,
      ⟨1, ⟨.active, 1000000000⟩, 2000000000⟩] 2500000000
    rw [StakeAnswer.fits_cons, StakeAnswer.fits_cons]
    refine ⟨fun _ => ⟨fun _ => rfl, fun _ h => absurd h (by decide),
      fun h => absurd h (by decide)⟩, fun _ => ⟨fun h => absurd h (by decide), fun _ _ => rfl,
      fun h => absurd h (by decide)⟩, StakeAnswer.fits_of_neg _ (by decide)⟩
  have henough : (2500000000 : Int) ≤ StakeAnswer.total
      ((ownerClient.answers programs allActive validatorKey (List.range 2)).filter
        fun a => a.stakeData.splittable) := by decide +kernel
  have hlength : (ownerClient.planUnstake programs allActive ⟨validatorKey, 4000000000, 0, 2⟩
      (some 2500000000)).map List.length = .ok 2 := by decide +kernel
  obtain ⟨unstakes, hplan, hiff⟩ := unstake_meets_request_iff
    (v := ⟨validatorKey, 4000000000, 0, 2⟩) (by decide) (by decide) henough
  rw [hplan] at hlength
  exact ⟨unstakes, hplan, Except.ok.inj hlength, hiff.mpr hfits⟩

/-- The first account is being deactivated, the others are active; each has two SOL. -/
def firstDeactivating : Connection :=
  ⟨fun _ => some ⟨stakeProgramId, 2000000000, []⟩, fun key =>
    if key = ownerClient.stakeAddress programs validatorKey 0 then .ok ⟨.deactivating, 1000000000⟩
    else .ok ⟨.active, 1000000000⟩⟩

/-- The account that is being deactivated counts for the request. -/
theorem unstake_counts_deactivating :
    (2000000000 : Int) ≤ StakeAnswer.total
        ((ownerClient.answers programs firstDeactivating validatorKey (List.range 2)).filter
          fun a => a.stakeData.splittable) ∧
      ownerClient.planUnstake programs firstDeactivating ⟨validatorKey, 4000000000, 0, 2⟩
        (some 2000000000) = .ok [⟨validatorKey, 1, some 2, some 0⟩] ∧
      ¬ownerClient.MeetsRequest programs firstDeactivating 2000000000
        [⟨validatorKey, 1, some 2, some 0⟩] := by
  refine ⟨by decide +kernel, by decide +kernel, ?_⟩
  intro h
  exact absurd h.sum (by decide +kernel)

end

end Tenderize
