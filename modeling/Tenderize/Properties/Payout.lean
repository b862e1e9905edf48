import Tenderize.Reference.Pool
import Tenderize.Support.FloorShare

/-!
# PayCreditors against single withdrawals

The payment loop takes paid tokens off `pool_total` as it goes and paid lamports off
`stake_total` only at the end.  It therefore agrees with one `Withdraw` after the other
exactly when that difference disappears in the rounding of every payment.
-/

namespace Tenderize

open Support PoolState

namespace StakePool

/-- One withdrawal after the other, each at the price of the pool the last one left. -/
def Withdrawals : StakePool → List Payment → StakePool → Prop
  | pool, [], pool' => pool' = pool
  | pool, payment :: payments, pool' =>
      pool.calcLamportsAmount payment.credit.tokenAmount = some payment.lamports ∧
        (pool.redeem payment.credit.tokenAmount payment.lamports).Withdrawals payments pool'

instance decidableWithdrawals :
    (pool : StakePool) → (paid : List Payment) → (pool' : StakePool) →
      Decidable (pool.Withdrawals paid pool')
  | pool, [], pool' => inferInstanceAs (Decidable (pool' = pool))
  | pool, payment :: payments, pool' =>
      have := decidableWithdrawals
        (pool.redeem payment.credit.tokenAmount payment.lamports) payments pool'
      inferInstanceAs (Decidable (_ ∧ _))

/-- The part of every credit in the lamports paid before it is lost in rounding. -/
def PricesAgree : StakePool → Nat → List CreditRecord → Prop
  | _, _, [] => True
  | pool, before, credit :: credits =>
      credit.tokenAmount.toNat * before ≤
          credit.tokenAmount.toNat * pool.stakeTotal.toNat % pool.poolTotal.toNat ∧
        PricesAgree { pool with poolTotal := pool.poolTotal - credit.tokenAmount }
          (before +
            credit.tokenAmount.toNat * pool.stakeTotal.toNat / pool.poolTotal.toNat) credits

instance decidablePricesAgree :
    (pool : StakePool) → (before : Nat) → (credits : List CreditRecord) →
      Decidable (pool.PricesAgree before credits)
  | _, _, [] => inferInstanceAs (Decidable True)
  | pool, before, credit :: credits =>
      have := decidablePricesAgree
        { pool with poolTotal := pool.poolTotal - credit.tokenAmount }
        (before + credit.tokenAmount.toNat * pool.stakeTotal.toNat / pool.poolTotal.toNat)
        credits
      inferInstanceAs (Decidable (_ ∧ _))

variable {pool : StakePool}

theorem calcLamportsAmount_sub_iff {t A lamports : UInt64}
    (hprice : pool.calcLamportsAmount t = some lamports) (hA : A ≤ pool.stakeTotal) :
    ({ pool with stakeTotal := pool.stakeTotal - A } : StakePool).calcLamportsAmount t =
        some lamports ↔
      t.toNat * A.toNat ≤ t.toNat * pool.stakeTotal.toNat % pool.poolTotal.toNat := by
  obtain ⟨hpool, hlamports⟩ := calcLamportsAmount_eq_some.mp hprice
  have hsub := UInt64.toNat_sub_of_le _ _ hA
  rw [calcLamportsAmount_eq_some, ← redeem_sub_eq_iff (UInt64.le_iff_toNat_le.mp hA),
    hlamports, hsub]
  constructor
  · rintro ⟨-, heq⟩
    exact heq.symm
  · intro heq
    exact ⟨hpool, heq.symm⟩

/-- The loop's payments are withdrawals from a pool that already lost `A` lamports. -/
theorem withdrawals_iff (paid : List Payment) : ∀ (pool pool' : StakePool) (A : UInt64),
    pool.Prices paid → burnedTokens paid ≤ pool.poolTotal.toNat → A ≤ pool.stakeTotal →
    (({ pool with stakeTotal := pool.stakeTotal - A } : StakePool).Withdrawals paid pool' ↔
      pool.PricesAgree A.toNat (paid.map (fun payment => payment.credit)) ∧
        pool' =
          { pool with
            stakeTotal :=
              pool.stakeTotal - A - (paid.map (fun payment => payment.lamports)).sum
            poolTotal := pool.poolTotal -
              (paid.map (fun payment => payment.credit.tokenAmount)).sum }) := by
  induction paid with
  | nil =>
      intro pool pool' A _ _ _
      simp [Withdrawals, PricesAgree]
  | cons payment paid ih =>
      intro pool pool' A hprices hburned hA
      obtain ⟨hprice, hprices⟩ := hprices
      obtain ⟨hpool, hlamports⟩ := calcLamportsAmount_eq_some.mp hprice
      simp only [burnedTokens, List.map_cons, List.sum_cons] at hburned
      rw [Withdrawals, calcLamportsAmount_sub_iff hprice hA, List.map_cons, PricesAgree, and_assoc]
      apply and_congr_right
      intro hagree
      have hA' := UInt64.le_iff_toNat_le.mp hA
      have ht : payment.credit.tokenAmount ≤ pool.poolTotal := by
        rw [UInt64.le_iff_toNat_le]
        omega
      have hle : payment.lamports.toNat ≤ pool.stakeTotal.toNat - A.toNat := by
        rw [hlamports, ← (redeem_sub_eq_iff hA').mpr hagree]
        exact redeem_le (UInt64.le_iff_toNat_le.mp ht)
      have hsum : (A + payment.lamports).toNat = A.toNat + payment.lamports.toNat := by
        apply toNat_add_of_lt
        have hlt := pool.stakeTotal.toNat_lt
        omega
      have hnext := ih _ pool' (A + payment.lamports) hprices
        (by
          have hsub := UInt64.toNat_sub_of_le _ _ ht
          show burnedTokens paid ≤ (pool.poolTotal - payment.credit.tokenAmount).toNat
          unfold burnedTokens
          omega)
        (by
          rw [UInt64.le_iff_toNat_le, hsum]
          show _ ≤ pool.stakeTotal.toNat
          omega)
      rw [hsum, hlamports] at hnext
      simp only [redeem, List.map_cons, List.sum_cons, ← sub_sub] at hnext ⊢
      exact hnext

/-- Lamports of a list of payments. -/
def paidLamports (paid : List Payment) : Nat :=
  (paid.map (fun payment => payment.lamports.toNat)).sum

/-- Withdrawals of tokens the pool has cost no more than the pool and keep its price. -/
theorem Withdrawals.totals (paid : List Payment) : ∀ {pool pool' : StakePool},
    pool.Withdrawals paid pool' → burnedTokens paid ≤ pool.poolTotal.toNat →
    pool.stakeTotal.toNat = pool'.stakeTotal.toNat + paidLamports paid ∧
      pool.poolTotal.toNat = pool'.poolTotal.toNat + burnedTokens paid ∧
      PriceKept pool.stakeTotal.toNat pool.poolTotal.toNat pool'.stakeTotal.toNat
        pool'.poolTotal.toNat := by
  induction paid with
  | nil =>
      rintro pool pool' rfl _
      exact ⟨rfl, rfl, PriceKept.refl _ _⟩
  | cons payment paid ih =>
      rintro pool pool' ⟨hprice, hrest⟩ hburned
      obtain ⟨hpool, hlamports⟩ := calcLamportsAmount_eq_some.mp hprice
      simp only [burnedTokens, paidLamports, List.map_cons, List.sum_cons] at hburned ⊢
      have ht : payment.credit.tokenAmount.toNat ≤ pool.poolTotal.toNat := by omega
      have hl : payment.lamports.toNat ≤ pool.stakeTotal.toNat := by
        rw [hlamports]
        exact redeem_le ht
      have hP := UInt64.toNat_sub_of_le _ _ (UInt64.le_iff_toNat_le.mpr ht)
      have hS := UInt64.toNat_sub_of_le _ _ (UInt64.le_iff_toNat_le.mpr hl)
      have hkept := redeem_priceKept pool.stakeTotal.toNat pool.poolTotal.toNat
        payment.credit.tokenAmount.toNat
      rw [← hlamports, ← hP, ← hS] at hkept
      obtain ⟨hstake, htokens, hprices⟩ := ih hrest (by
        show _ ≤ (pool.poolTotal - payment.credit.tokenAmount).toNat
        unfold burnedTokens
        omega)
      change (pool.stakeTotal - payment.lamports).toNat = _ at hstake
      change (pool.poolTotal - payment.credit.tokenAmount).toNat = _ at htokens
      unfold burnedTokens at htokens
      unfold paidLamports at hstake
      refine ⟨by omega, by omega, hkept.trans hprices ?_⟩
      intro hzero
      change (pool.poolTotal - payment.credit.tokenAmount).toNat = 0 at hzero
      omega

end StakePool

/-- The payments are those of single withdrawals, they come out of `stake_total`, and the
price seen by the remaining holders does not fall. -/
structure PaysLikeWithdrawals (pool : StakePool) (paid : List Payment) (pool' : StakePool) :
    Prop where
  withdrawals : pool.Withdrawals paid pool'
  no_wrap : pool.stakeTotal.toNat = pool'.stakeTotal.toNat + StakePool.paidLamports paid
  price : PriceKept pool.stakeTotal.toNat pool.poolTotal.toNat pool'.stakeTotal.toNat
    pool'.poolTotal.toNat

/-- The credits `PayCreditors` is going to pay: those named by a user account, with a
system account as target, as far as the reserve goes. -/
def Deployment.settles (D : Deployment) (c : Chain) (users : List AccountInfo) :
    List CreditRecord :=
  (D.stateOf c.ledger).pool.affordable (lamportsAvailable c D.reserveKey) 0
    (payable c.ledger ((D.stateOf c.ledger).creditList.credits.take users.length))

theorem payCreditors_like_withdrawals_iff {D : Deployment} {c : Chain}
    {accounts : List AccountInfo} {paid : List Payment} {L' : Ledger}
    (h : D.Represents c.ledger (D.stateOf c.ledger)) (ha : D.Addressed accounts)
    (hrun : payCreditors D.programs D.programId accounts c = .ok (paid, L'))
    (htokens : queued (D.settles c (accounts.drop 10)) ≤
      (D.stateOf c.ledger).pool.poolTotal.toNat) :
    PaysLikeWithdrawals (D.stateOf c.ledger).pool paid (D.stateOf L').pool ↔
      (D.stateOf c.ledger).pool.PricesAgree 0 (D.settles c (accounts.drop 10)) := by
  obtain ⟨lost, credits', mint', credit', reserve', stakes', hplan, hpaid, h'⟩ :=
    payCreditors_ok h ha hrun
  have hsettled : paid.map (fun payment => payment.credit) = D.settles c (accounts.drop 10) :=
    hplan.settled
  rw [← hsettled, queued_paid] at htokens
  have hiff := StakePool.withdrawals_iff paid (D.stateOf c.ledger).pool
    ((D.stateOf c.ledger).pool.payOut paid) 0 hpaid.prices htokens
    (UInt64.le_iff_toNat_le.mpr (Nat.zero_le _))
  rw [hsettled] at hiff
  simp only [sub_zero, StakePool.payOut, and_true] at hiff
  rw [← h'.eq_stateOf]
  constructor
  · intro hpays
    exact hiff.mp hpays.withdrawals
  · intro hagree
    have hwithdrawals := hiff.mpr hagree
    obtain ⟨hstake, -, hprice⟩ := StakePool.Withdrawals.totals paid hwithdrawals htokens
    exact ⟨hwithdrawals, hstake, hprice⟩

section

open Reference

/-- A deposit and credits of `t₁` and `t₂` tokens. -/
def twoCredits (t₁ t₂ : UInt64) : Except ProgramError Chain :=
  execute anything
    [deposit 100000000 userTokensKey mintKey, credit t₁ userTokensKey friendKey,
      credit t₂ userTokensKey validatorKey]

/-- What the two creditors get, whether the tokens were there, and whether the payments are
those of two withdrawals. -/
def payTwoCredits (t₁ t₂ : UInt64) :
    Except ProgramError (List UInt64 × Bool × Bool) := do
  let c ← twoCredits t₁ t₂
  let accounts := payAccounts [friendKey, validatorKey]
  let (paid, L) ← payCreditors programs programId accounts c
  let pool := (deployment.stateOf c.ledger).pool
  pure (paid.map (fun payment => payment.lamports),
    queued (deployment.settles c (accounts.drop 10)) ≤ pool.poolTotal.toNat,
    pool.Withdrawals paid (deployment.stateOf L).pool)

/-- The second of two equal creditors gets more than the first. -/
theorem payCreditors_overpays :
    ∃ c paid L', (deployment.system deployment.Outside).Reachable c ∧
      deployment.Addressed (payAccounts [friendKey, validatorKey]) ∧
      payCreditors programs programId (payAccounts [friendKey, validatorKey]) c =
        .ok (paid, L') ∧
      queued (deployment.settles c ((payAccounts [friendKey, validatorKey]).drop 10)) ≤
        (deployment.stateOf c.ledger).pool.poolTotal.toNat ∧
      paid.map (fun payment => payment.lamports) = [10000000, 11111111] ∧
      ¬PaysLikeWithdrawals (deployment.stateOf c.ledger).pool paid
        (deployment.stateOf L').pool := by
  have hrun : payTwoCredits 10000000 10000000 = .ok ([10000000, 11111111], true, false) := by
    decide +kernel
  simp only [payTwoCredits, bind_eq_ok, pure_eq_ok, Prod.exists, Prod.mk.injEq,
    decide_eq_true_eq, decide_eq_false_iff_not] at hrun
  obtain ⟨c, hc, paid, L', hpay, hlamports, htokens, hnot⟩ := hrun
  exact ⟨c, paid, L', execute_anything_reachable hc, addressed_spec (by decide), hpay, htokens,
    hlamports, fun hpays => hnot hpays.withdrawals⟩

/-- One token each: the difference is lost in rounding. -/
theorem payCreditors_like_withdrawals_one_token :
    ∃ c paid L', twoCredits 1 1 = .ok c ∧
      payCreditors programs programId (payAccounts [friendKey, validatorKey]) c =
        .ok (paid, L') ∧
      paid.length = 2 ∧
      PaysLikeWithdrawals (deployment.stateOf c.ledger).pool paid
        (deployment.stateOf L').pool := by
  have hrun : payTwoCredits 1 1 = .ok ([1, 1], true, true) := by decide +kernel
  simp only [payTwoCredits, bind_eq_ok, pure_eq_ok, Prod.exists, Prod.mk.injEq,
    decide_eq_true_eq] at hrun
  obtain ⟨c, hc, paid, L', hpay, hlamports, htokens, hwithdrawals⟩ := hrun
  have h := reachable_represents (execute_anything_reachable hc)
  have hiff := payCreditors_like_withdrawals_iff h (addressed_spec (by decide)) hpay htokens
  have hlength := congrArg List.length hlamports
  rw [List.length_map] at hlength
  refine ⟨c, paid, L', hc, hpay, hlength, hiff.mpr ?_⟩
  have hagree : (twoCredits 1 1).map (fun c => decide
      ((deployment.stateOf c.ledger).pool.PricesAgree 0
        (deployment.settles c ((payAccounts [friendKey, validatorKey]).drop 10)))) =
        .ok true := by
    decide +kernel
  rw [hc] at hagree
  simpa [Except.map] using hagree

end

end Tenderize
