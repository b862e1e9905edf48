import Tenderize.Properties.Accounting

/-!
# What a deposit buys

A pool without tokens must be worth nothing, or the first deposit buys nothing.
`UpdatePoolBalance` counts lamports that anybody sent to the reserve, so the two totals can
get out of step before the first deposit; and a deposit below the price of a token is rounded
down to none.
-/

namespace Tenderize

open Support PoolState

variable {D : Deployment} {c c' : Chain} {s s' : PoolState} {op : PoolOp}

/-! ## Conditions on events -/

/-- The credits that a call of `PayCreditors` can pay. -/
def Deployment.namedCredits (D : Deployment) (c : Chain) (accounts : List AccountInfo) :
    List CreditRecord :=
  payable c.ledger
    ((D.stateOf c.ledger).creditList.credits.take (accounts.drop 10).length)

/-- A deposit is worth a token, a pool without tokens is not updated to hold lamports, and
several creditors are not paid the last tokens in one call. -/
def Deployment.Worthwhile (D : Deployment) (c : Chain) : Event → Prop
  | .instruction (.deposit amount) _ =>
      (D.stateOf c.ledger).pool.stakeTotal.toNat ≤
        amount.toNat * (D.stateOf c.ledger).pool.poolTotal.toNat
  | .instruction .updatePoolBalance _ =>
      (D.stateOf c.ledger).pool.poolTotal = 0 → (D.stateOf c.ledger).recordedTotal = 0
  | .instruction .payCreditors accounts =>
      (D.namedCredits c accounts).length ≤ 1 ∨
        queued (D.namedCredits c accounts) < (D.stateOf c.ledger).pool.poolTotal.toNat
  | _ => True

instance (e : Event) : Decidable (D.Worthwhile c e) := by
  unfold Deployment.Worthwhile
  split <;> infer_instance

/-- The same condition on pool steps. -/
def PoolState.Worthwhile (s : PoolState) : PoolOp → Prop
  | .deposit amount _ => s.pool.stakeTotal.toNat ≤ amount.toNat * s.pool.poolTotal.toNat
  | .updatePool => s.pool.poolTotal = 0 → s.recordedTotal = 0
  | .payCreditors eligible =>
      eligible.length ≤ 1 ∨ queued eligible < s.pool.poolTotal.toNat
  | _ => True

theorem Deployment.Worthwhile.step {quiet : Prop} {e : Event} (h : D.Represents c.ledger s)
    (hmatch : Matches quiet c e s op) (hguard : D.Worthwhile c e) : s.Worthwhile op := by
  cases hmatch with
  | deposit =>
      unfold Deployment.Worthwhile at hguard
      rw [← h.eq_stateOf] at hguard
      exact hguard
  | updatePool =>
      unfold Deployment.Worthwhile at hguard
      rw [← h.eq_stateOf] at hguard
      exact hguard
  | payCreditors =>
      unfold Deployment.Worthwhile Deployment.namedCredits at hguard
      rw [← h.eq_stateOf] at hguard
      exact hguard
  | _ => trivial

/-! ## The invariant -/

/-- `pool_total` is the supply, and a pool without tokens is worth nothing. -/
structure PoolState.Founded (s : PoolState) : Prop where
  accounted : s.Accounted
  empty : s.pool.poolTotal = 0 → s.pool.stakeTotal = 0

theorem poolAmount_pos {pool : StakePool} {amount poolAmount : UInt64} (hamount : amount ≠ 0)
    (hprice : pool.calcPoolDepositAmount amount = some poolAmount)
    (hworth : pool.stakeTotal.toNat ≤ amount.toNat * pool.poolTotal.toNat) :
    0 < poolAmount.toNat := by
  rcases calcPoolDepositAmount_eq_some.mp hprice with ⟨-, rfl⟩ | ⟨hne, hshares⟩
  · apply Nat.pos_of_ne_zero
    intro hzero
    exact hamount (UInt64.toNat_inj.mp hzero)
  · rw [hshares]
    exact Nat.div_pos hworth (Nat.pos_of_ne_zero hne)

/-- Redeeming all tokens takes the whole fund. -/
theorem redeem_all {pool : StakePool} {n lamports : UInt64}
    (hprice : pool.calcLamportsAmount n = some lamports) (hall : n = pool.poolTotal) :
    lamports = pool.stakeTotal := by
  obtain ⟨hne, hlamports⟩ := calcLamportsAmount_eq_some.mp hprice
  apply UInt64.toNat_inj.mp
  rw [hlamports, hall, Nat.mul_div_cancel_left _ (Nat.pos_of_ne_zero hne)]

theorem eq_of_sub_eq_zero {a b : UInt64} (h : a - b = 0) : b = a := by
  have hadd : a - b + b = 0 + b := congrArg (· + b) h
  rw [UInt64.sub_add_cancel, UInt64.zero_add] at hadd
  exact hadd.symm

/-- One creditor alone is paid at the price of a withdrawal. -/
theorem payOut_founded {eligible : List CreditRecord} {paid : List Payment}
    {credits' : List CreditRecord} {mint' : Mint} {credit' : TokenAccount}
    {stakes' : Pubkey → Nat} (h : s.Paid eligible paid credits' mint' credit' stakes')
    (hlength : eligible.length ≤ 1) (hempty : s.pool.poolTotal = 0 → s.pool.stakeTotal = 0)
    (hzero : (s.pool.payOut paid).poolTotal = 0) : (s.pool.payOut paid).stakeTotal = 0 := by
  have hshort := h.eligible.length_le
  rw [List.length_map] at hshort
  match paid, h with
  | [], _ =>
      simp only [StakePool.payOut, List.map_nil, List.sum_nil, UInt64.sub_zero] at hzero ⊢
      exact hempty hzero
  | [payment], h =>
      obtain ⟨hprice, -⟩ := h.prices
      simp only [StakePool.payOut, List.map_cons, List.map_nil, List.sum_singleton] at hzero ⊢
      rw [redeem_all hprice (eq_of_sub_eq_zero hzero)]
      exact UInt64.sub_self _
  | _ :: _ :: _, _ =>
      simp only [List.length_cons] at hshort
      omega

theorem payCreditors_founded {eligible : List CreditRecord} {paid : List Payment}
    {credits' : List CreditRecord} {mint' : Mint} {credit' : TokenAccount}
    {stakes' : Pubkey → Nat} (h : s.Paid eligible paid credits' mint' credit' stakes')
    (hworth : s.Worthwhile (.payCreditors eligible)) (hs : s.Founded)
    (hzero : (s.pool.payOut paid).poolTotal = 0) : (s.pool.payOut paid).stakeTotal = 0 := by
  rcases hworth with hlength | hsome
  · exact payOut_founded h hlength hs.empty hzero
  · -- Tokens are left: the loop burns at most what is queued for the named creditors.
    have hburned : burnedTokens paid ≤ queued eligible := by
      rw [← queued_paid]
      exact (h.eligible.map _).sum_le_sum (fun _ _ => Nat.zero_le _)
    have hsupply := h.supply
    have hmint : (s.pool.payOut paid).poolTotal = mint'.supply := by
      show s.pool.poolTotal - _ = mint'.supply
      rw [hs.accounted]
      exact h.supply_eq
    rw [← hs.accounted, ← hmint, hzero, UInt64.toNat_zero] at hsupply
    omega

theorem PoolStep.founded (hstep : PoolStep D s op s') (hown : s.TradesOwnMint op)
    (hworth : s.Worthwhile op) (hs : s.Founded) : s'.Founded := by
  refine ⟨hstep.accounted hown hs.accounted, ?_⟩
  have haccounted := hstep.accounted hown hs.accounted
  cases hstep with
  | updatePool clock totalBalance hsum =>
      intro hzero
      have htotal := addBalances_ok hsum
      have hempty : s.recordedTotal = 0 := hworth hzero
      show totalBalance = 0
      unfold PoolState.recordedTotal at hempty
      rw [htotal, hempty]
      rfl
  | deposit amount poolAmount mint mint' credit' reserve' hd =>
      intro hzero
      have hsupply := hd.minted.own (hown mint rfl)
      have hpos := poolAmount_pos hd.positive hd.price hworth
      have hnone : mint'.supply = 0 := haccounted.symm.trans hzero
      rw [hnone, UInt64.toNat_zero] at hsupply
      omega
  | withdraw n stakeAmount burnFrom mint mint' credit' reserve' stakes' hw =>
      intro hzero
      show s.pool.stakeTotal - stakeAmount = 0
      rw [redeem_all hw.price (eq_of_sub_eq_zero hzero)]
      exact UInt64.sub_self _
  | payCreditors eligible paid credits' mint' credit' reserve' stakes' hp =>
      exact payCreditors_founded hp hworth hs
  | _ => exact hs.empty

theorem founded_invariant :
    (D.poolSystem.restrict (fun s op => s.TradesOwnMint op ∧ s.Worthwhile op)).Invariant
      PoolState.Founded where
  init s hs := by
    refine ⟨?_, fun _ => hs.stakeTotal⟩
    unfold PoolState.Accounted
    rw [hs.poolTotal, hs.supply]
  step s op s' h hstep := PoolStep.founded hstep.1 hstep.2.1 hstep.2.2 h

/-- Runs of worthwhile deposits under the pool's own mint. -/
def Deployment.worthwhileRuns (D : Deployment) : System Chain Event :=
  (D.system D.Outside).restrict (fun c e => D.OwnMint c e ∧ D.Worthwhile c e)

theorem reachable_founded (h : D.worthwhileRuns.Reachable c) :
    D.Represents c.ledger (D.stateOf c.ledger) ∧ (D.stateOf c.ledger).Founded :=
  reachable_invariant False (fun s op => s.TradesOwnMint op ∧ s.Worthwhile op)
    PoolState.Founded (fun _ _ hout => hout) False.elim
    (fun _ _ _ _ hs hmatch hguard =>
      ⟨hguard.1.trades hs hmatch, hguard.2.step hs hmatch⟩) founded_invariant h

theorem deposit_mints {amount : UInt64} {accounts : List AccountInfo}
    (h : D.Represents c.ledger (D.stateOf c.ledger))
    (hown : D.OwnMint c (.instruction (.deposit amount) accounts))
    (hworth : D.Worthwhile c (.instruction (.deposit amount) accounts))
    (hstep : D.Step D.Outside c (.instruction (.deposit amount) accounts) c') :
    (D.stateOf c.ledger).mint.supply < (D.stateOf c'.ledger).mint.supply := by
  obtain ⟨ha, L', hrun, rfl⟩ := hstep
  obtain ⟨a, s', hparse, hpool, h'⟩ := processDeposit_refines h ha hrun
  have hmatch : Matches False c (.instruction (.deposit amount) accounts)
      (D.stateOf c.ledger) _ := .deposit hparse
  have hmint := hown.trades h hmatch
  rw [← h'.eq_stateOf]
  cases hpool with
  | deposit _ poolAmount _ mint' credit' reserve' hd =>
      have hsupply := hd.minted.own (hmint _ rfl)
      have hpos := poolAmount_pos hd.positive hd.price (hworth.step h hmatch)
      show _ < mint'.supply
      rw [UInt64.lt_iff_toNat_lt]
      omega

/-- In runs of worthwhile deposits a pool without tokens is worth nothing, and every deposit
mints tokens. -/
theorem deposits_buy_tokens (h : D.worthwhileRuns.Reachable c) :
    ¬(0 < (D.stateOf c.ledger).pool.stakeTotal ∧ (D.stateOf c.ledger).pool.poolTotal = 0) ∧
      ∀ amount accounts c',
        D.worthwhileRuns.step c (.instruction (.deposit amount) accounts) c' →
        (D.stateOf c.ledger).mint.supply < (D.stateOf c'.ledger).mint.supply := by
  obtain ⟨hs, hfounded⟩ := reachable_founded h
  constructor
  · rintro ⟨hpos, hzero⟩
    rw [hfounded.empty hzero] at hpos
    exact absurd hpos (UInt64.lt_irrefl 0)
  · intro amount accounts c' hstep
    exact deposit_mints hs hstep.2.1 hstep.2.2 hstep.1

section

open Reference

def totals (c : Chain) : UInt64 × UInt64 × UInt64 :=
  ((deployment.stateOf c.ledger).pool.stakeTotal,
    (deployment.stateOf c.ledger).pool.poolTotal, (deployment.stateOf c.ledger).mint.supply)

def worthwhile (c : Chain) (e : Event) : Bool :=
  decide (deployment.OwnMint c e ∧ deployment.Worthwhile c e)

theorem worthwhile_spec (c : Chain) (e : Event) (h : worthwhile c e = true) :
    deployment.OwnMint c e ∧ deployment.Worthwhile c e := by
  simpa [worthwhile] using h

/-- A donation after the first deposit raises the price of a token. -/
def donatedRun : List Action :=
  [deposit 100000000 userTokensKey mintKey, .pay userKey reserveKey 100000000, updatePool]

theorem deposits_buy_tokens_donatedRun :
    ∃ c c', execute worthwhile donatedRun = .ok c ∧
      perform worthwhile c (deposit 10 userTokensKey mintKey) = .ok c' ∧
      totals c = (200000000, 100000000, 100000000) ∧
      totals c' = (200000010, 100000005, 100000005) ∧
      (deployment.stateOf c.ledger).mint.supply < (deployment.stateOf c'.ledger).mint.supply := by
  have hrun : (do
      let c ← execute worthwhile donatedRun
      let c' ← perform worthwhile c (deposit 10 userTokensKey mintKey)
      pure (totals c, totals c')) =
        .ok ((200000000, 100000000, 100000000), (200000010, 100000005, 100000005)) := by
    decide +kernel
  simp only [bind_eq_ok, pure_eq_ok, Prod.mk.injEq] at hrun
  obtain ⟨c, hc, c', hc', htotals, htotals'⟩ := hrun
  refine ⟨c, c', hc, hc', htotals, htotals', ?_⟩
  obtain ⟨hstep, hallowed⟩ := perform_call hc'
  exact (deposits_buy_tokens (execute_reachable worthwhile_spec hc)).2 _ _ _
    ⟨hstep, worthwhile_spec _ _ hallowed⟩

/-- A donation before the first deposit leaves nothing to buy. -/
theorem deposit_after_donation :
    ∃ c c' accounts, (deployment.system deployment.Outside).Reachable c ∧
      (deployment.system deployment.Outside).step c
        (.instruction (.deposit 500000000) accounts) c' ∧
      (0 < (deployment.stateOf c.ledger).pool.stakeTotal ∧
        (deployment.stateOf c.ledger).pool.poolTotal = 0) ∧
      ¬(deployment.stateOf c.ledger).mint.supply <
        (deployment.stateOf c'.ledger).mint.supply := by
  have hrun : (do
      let c ← execute anything [.pay userKey reserveKey 100000000, updatePool]
      let c' ← perform anything c (deposit 500000000 userTokensKey mintKey)
      pure (totals c, totals c')) =
        .ok ((100000000, 0, 0), (600000000, 0, 0)) := by
    decide +kernel
  simp only [bind_eq_ok, pure_eq_ok, Prod.mk.injEq] at hrun
  obtain ⟨c, hc, c', hc', htotals, htotals'⟩ := hrun
  simp only [totals, Prod.mk.injEq] at htotals htotals'
  obtain ⟨hstake, hpool, hsupply⟩ := htotals
  obtain ⟨-, -, hsupply'⟩ := htotals'
  refine ⟨c, c', _, execute_anything_reachable hc, (perform_call hc').1, ?_, ?_⟩
  · rw [hstake, hpool]
    decide
  · rw [hsupply, hsupply']
    decide

end

end Tenderize
