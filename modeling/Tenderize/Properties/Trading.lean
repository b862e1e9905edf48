import Tenderize.Properties.Accounting
import Tenderize.Refinement.Tokens
import Tenderize.Support.FloorShare

/-!
# Trading with the pool

Deposits and withdrawals in any order.  Every rounding is in favour of the pool, so the
price of a pool token never falls, and a group of traders that starts with no tokens never
takes out more lamports than it brought.
-/

namespace Tenderize

open Support

variable {D : Deployment} {K : Finset Pubkey} {c c' : Chain}

/-- Lamports in the reserve and in the stake accounts of `K`. -/
def PoolState.heldBy (s : PoolState) (K : Finset Pubkey) : Nat :=
  s.reserve.toNat + ∑ k ∈ K, s.stakes k

/-- One successful instruction of a trader. -/
inductive Trade where
  | deposit (amount : UInt64)
  | withdraw (n lamports : UInt64) (burnFrom : Pubkey)

namespace Trade

def deposited : Trade → Nat
  | .deposit amount => amount.toNat
  | .withdraw _ _ _ => 0

def withdrawn : Trade → Nat
  | .deposit _ => 0
  | .withdraw _ lamports _ => lamports.toNat

/-- A withdrawal burns tokens of the group. -/
def BurnsFrom (G : Finset Pubkey) : Trade → Prop
  | .deposit _ => True
  | .withdraw _ _ burnFrom => burnFrom ∈ G

end Trade

namespace Deployment

variable (D K)

/-- A trade, by any user and with any accounts, after which the pool's lamports are still
below `2 ^ 64`.  Withdrawals burn tokens of the pool's mint. -/
def TradeStep : Trade → Chain → Chain → Prop
  | .deposit amount, c, c' =>
      (∃ accounts, D.Step D.Outside c (.instruction (.deposit amount) accounts) c') ∧
        (D.stateOf c'.ledger).heldBy K < 2 ^ 64
  | .withdraw n lamports burnFrom, c, c' =>
      (∃ accounts, D.Step D.Outside c (.instruction (.withdraw n) accounts) c' ∧
        mintAccount (.withdraw n) accounts = some (D.stateOf c.ledger).pool.poolMint ∧
        burnFromAccount (.withdraw n) accounts = some burnFrom) ∧
        (D.stateOf c.ledger).pool.calcLamportsAmount n = some lamports ∧
        (D.stateOf c'.ledger).heldBy K < 2 ^ 64

/-- What trades start from and keep: the mint's supply is `pool_total`, the fee account is
one of the pool's mint, as `Initialize` and `SetOwner` check, and the pool holds its
`stake_total`. -/
structure Trading (c : Chain) : Prop where
  represents : D.Represents c.ledger (D.stateOf c.ledger)
  supply : (D.stateOf c.ledger).Accounted
  fee : HoldsMint c.ledger (D.stateOf c.ledger).pool.poolMint
    (D.stateOf c.ledger).pool.ownerFeeAccount
  held : (D.stateOf c.ledger).pool.stakeTotal.toNat ≤ (D.stateOf c.ledger).heldBy K

/-- The totals move by exactly what was traded. -/
def TotalsMove : Trade → Chain → Chain → Prop
  | .deposit amount, c, c' =>
      (D.stateOf c'.ledger).pool.stakeTotal.toNat =
          (D.stateOf c.ledger).pool.stakeTotal.toNat + amount.toNat ∧
        ∃ poolAmount, (D.stateOf c.ledger).pool.calcPoolDepositAmount amount = some poolAmount ∧
          (D.stateOf c'.ledger).pool.poolTotal.toNat =
            (D.stateOf c.ledger).pool.poolTotal.toNat + poolAmount.toNat
  | .withdraw n lamports _, c, c' =>
      (D.stateOf c.ledger).pool.stakeTotal.toNat =
          (D.stateOf c'.ledger).pool.stakeTotal.toNat + lamports.toNat ∧
        (D.stateOf c.ledger).pool.calcLamportsAmount n = some lamports ∧
        (D.stateOf c.ledger).pool.poolTotal.toNat =
          (D.stateOf c'.ledger).pool.poolTotal.toNat + n.toNat

end Deployment

/-! ## One trade -/

open Deployment

theorem sharesFor_eq {pool : StakePool} {amount poolAmount : UInt64}
    (h : pool.calcPoolDepositAmount amount = some poolAmount) :
    poolAmount.toNat =
      sharesFor pool.stakeTotal.toNat pool.poolTotal.toNat amount.toNat := by
  unfold sharesFor
  rcases calcPoolDepositAmount_eq_some.mp h with ⟨hzero, rfl⟩ | ⟨hne, hshares⟩
  · rw [if_pos hzero]
  · rw [if_neg hne, hshares]

/-- A deposit of the group or of anybody else. -/
theorem Deployment.Trading.deposit {amount : UInt64} {accounts : List AccountInfo}
    (h : D.Trading K c) (hstep : D.Step D.Outside c (.instruction (.deposit amount) accounts) c')
    (hbound : (D.stateOf c'.ledger).heldBy K < 2 ^ 64) :
    D.Trading K c' ∧ D.TotalsMove (.deposit amount) c c' ∧
      (D.stateOf c'.ledger).pool.poolMint = (D.stateOf c.ledger).pool.poolMint ∧
      ∀ G, groupTokens c'.ledger (D.stateOf c.ledger).pool.poolMint G ≤
        groupTokens c.ledger (D.stateOf c.ledger).pool.poolMint G +
          sharesFor (D.stateOf c.ledger).pool.stakeTotal.toNat
            (D.stateOf c.ledger).pool.poolTotal.toNat amount.toNat := by
  obtain ⟨ha, L', hrun, rfl⟩ := hstep
  have hs := h.represents
  have hnative := hs.wired.mint_ne_native
  obtain ⟨a, poolAmount, feeAmount, L₁, L₂, L₃, hparse, hd⟩ := processDeposit_ok hs ha hrun
  obtain ⟨a', s', hparse', hpool, h'⟩ := processDeposit_refines hs ha hrun
  obtain rfl : a' = a := Except.ok.inj (hparse'.symm.trans hparse)
  have hown := hd.mint_eq hnative h.fee
  have hacc : s'.Accounted := hpool.accounted (by
    intro mint hmint
    rw [← Option.some.inj hmint]
    exact hown) h.supply
  have hs' := h'.eq_stateOf
  rw [← hs'] at hbound
  cases hpool with
  | deposit _ x mint mint' credit' reserve' hdeposit =>
      obtain rfl : x = poolAmount :=
        Option.some.inj (hdeposit.price.symm.trans hd.price)
      have hsupply := hdeposit.minted.own hown
      have hlt := mint'.supply.toNat_lt
      have hreserve := hdeposit.reserve
      have hheld := h.held
      change reserve'.toNat + ∑ k ∈ K, (D.stateOf c.ledger).stakes k < 2 ^ 64 at hbound
      have hstake : ((D.stateOf c.ledger).pool.stakeTotal + amount).toNat =
          (D.stateOf c.ledger).pool.stakeTotal.toNat + amount.toNat := by
        apply toNat_add_of_lt
        unfold PoolState.heldBy at hheld
        omega
      have htotal : ((D.stateOf c.ledger).pool.poolTotal + x).toNat =
          (D.stateOf c.ledger).pool.poolTotal.toNat + x.toNat := by
        have hacc₀ := h.supply
        unfold PoolState.Accounted at hacc₀
        apply toNat_add_of_lt
        rw [hacc₀]
        omega
      refine ⟨⟨?_, ?_, ?_, ?_⟩, ⟨?_, x, hd.price, ?_⟩, ?_, ?_⟩
      · exact hs' ▸ h'
      · exact hs' ▸ hacc
      · rw [← hs']
        exact hd.holdsMint hnative h.fee
      · rw [← hs']
        change ((D.stateOf c.ledger).pool.stakeTotal + amount).toNat ≤
          reserve'.toNat + ∑ k ∈ K, (D.stateOf c.ledger).stakes k
        unfold PoolState.heldBy at hheld
        omega
      · rw [← hs']
        exact hstake
      · rw [← hs']
        exact htotal
      · rw [← hs']
      · intro G
        rw [← sharesFor_eq hd.price]
        exact hd.groupTokens_le hnative

/-- A withdrawal of tokens of the pool's mint. -/
theorem Deployment.Trading.withdraw {n lamports : UInt64} {burnFrom : Pubkey}
    {accounts : List AccountInfo} (h : D.Trading K c)
    (hstep : D.Step D.Outside c (.instruction (.withdraw n) accounts) c')
    (hmint : mintAccount (.withdraw n) accounts = some (D.stateOf c.ledger).pool.poolMint)
    (hburn : burnFromAccount (.withdraw n) accounts = some burnFrom)
    (hprice : (D.stateOf c.ledger).pool.calcLamportsAmount n = some lamports) :
    D.Trading K c' ∧ D.TotalsMove (.withdraw n lamports burnFrom) c c' ∧
      (D.stateOf c'.ledger).pool.poolMint = (D.stateOf c.ledger).pool.poolMint ∧
      0 < n.toNat ∧
      ∀ G, burnFrom ∈ G →
        groupTokens c'.ledger (D.stateOf c.ledger).pool.poolMint G + n.toNat =
          groupTokens c.ledger (D.stateOf c.ledger).pool.poolMint G := by
  obtain ⟨ha, L', hrun, rfl⟩ := hstep
  have hs := h.represents
  obtain ⟨a, stakeAmount, L₁, L₂, hparse, hw⟩ := processWithdraw_ok hs ha hrun
  obtain ⟨a', s', hparse', hpool, h'⟩ := processWithdraw_refines hs ha hrun
  obtain rfl : a' = a := Except.ok.inj (hparse'.symm.trans hparse)
  have hmatch : Matches False c (.instruction (.withdraw n) accounts) (D.stateOf c.ledger) _ :=
    .withdraw hparse
  have hown : a'.poolMint.key = (D.stateOf c.ledger).pool.poolMint :=
    Option.some.inj (hmatch.mint_eq.trans hmint)
  have hfrom : a'.burnFrom.key = burnFrom := Option.some.inj (hmatch.burnFrom_eq.trans hburn)
  obtain rfl : stakeAmount = lamports := Option.some.inj (hw.price.symm.trans hprice)
  have hacc : s'.Accounted := hpool.accounted (by
    intro mint hm
    rw [← Option.some.inj hm]
    exact hown) h.supply
  have hs' := h'.eq_stateOf
  have hpositive : n.toNat ≠ 0 := fun hzero => hw.positive (UInt64.toNat_inj.mp hzero)
  cases hpool with
  | withdraw _ x _ _ mint' credit' reserve' stakes' hwithdrawn =>
      obtain rfl : x = stakeAmount := Option.some.inj (hwithdrawn.price.symm.trans hprice)
      obtain ⟨hle, -⟩ := hwithdrawn.burned.own hown
      have hacc₀ := h.supply
      unfold PoolState.Accounted at hacc₀
      rw [← hacc₀] at hle
      have hle' := UInt64.le_iff_toNat_le.mp hle
      have htotal := UInt64.toNat_sub_of_le _ _ hle
      obtain ⟨-, hlamports⟩ := calcLamportsAmount_eq_some.mp hprice
      have hpaid : x.toNat ≤ (D.stateOf c.ledger).pool.stakeTotal.toNat := by
        rw [hlamports]
        exact redeem_le hle'
      have hstake := UInt64.toNat_sub_of_le _ _ (UInt64.le_iff_toNat_le.mpr hpaid)
      have hsum : ∑ k ∈ K, (D.stateOf c.ledger).stakes k ≤ ∑ k ∈ K, stakes' k :=
        Finset.sum_le_sum fun k _ => hwithdrawn.stakes_le k
      refine ⟨⟨?_, ?_, ?_, ?_⟩, ⟨?_, hprice, ?_⟩, ?_, Nat.pos_of_ne_zero hpositive, ?_⟩
      · exact hs' ▸ h'
      · exact hs' ▸ hacc
      · rw [← hs']
        exact hw.holdsMint h.fee
      · have hheld := h.held
        have hreserve := hwithdrawn.reserve
        rw [← hs']
        change ((D.stateOf c.ledger).pool.stakeTotal - x).toNat ≤
          reserve'.toNat + ∑ k ∈ K, stakes' k
        unfold PoolState.heldBy at hheld
        omega
      · rw [← hs']
        change _ = ((D.stateOf c.ledger).pool.stakeTotal - x).toNat + x.toNat
        omega
      · rw [← hs']
        change _ = ((D.stateOf c.ledger).pool.poolTotal - n).toNat + n.toNat
        omega
      · rw [← hs']
        rfl
      · intro G hG
        rw [← hown]
        exact hw.groupTokens_eq (hfrom ▸ hG)

/-- The price of a pool token does not fall. -/
theorem priceKept_of_totalsMove {t : Trade} (h : D.TotalsMove t c c') :
    PriceKept (D.stateOf c.ledger).pool.stakeTotal.toNat (D.stateOf c.ledger).pool.poolTotal.toNat
      (D.stateOf c'.ledger).pool.stakeTotal.toNat
      (D.stateOf c'.ledger).pool.poolTotal.toNat := by
  cases t with
  | deposit amount =>
      obtain ⟨hstake, x, hx, htotal⟩ := h
      rw [hstake, htotal, sharesFor_eq hx]
      exact sharesFor_priceKept _ _ _
  | withdraw n lamports burnFrom =>
      obtain ⟨hstake, hprice, htotal⟩ := h
      obtain ⟨-, hlamports⟩ := calcLamportsAmount_eq_some.mp hprice
      have hkept := redeem_priceKept (D.stateOf c.ledger).pool.stakeTotal.toNat
        (D.stateOf c.ledger).pool.poolTotal.toNat n.toNat
      rw [← hlamports] at hkept
      have hS : (D.stateOf c'.ledger).pool.stakeTotal.toNat =
          (D.stateOf c.ledger).pool.stakeTotal.toNat - lamports.toNat := by omega
      have hP : (D.stateOf c'.ledger).pool.poolTotal.toNat =
          (D.stateOf c.ledger).pool.poolTotal.toNat - n.toNat := by omega
      rw [hS, hP]
      exact hkept

theorem Deployment.Trading.totalsMove {t : Trade} (h : D.Trading K c)
    (hstep : D.TradeStep K t c c') : D.TotalsMove t c c' := by
  cases t with
  | deposit amount =>
      obtain ⟨⟨accounts, hrun⟩, hbound⟩ := hstep
      exact (h.deposit hrun hbound).2.1
  | withdraw n lamports burnFrom =>
      obtain ⟨⟨accounts, hrun, hown, hfrom⟩, hprice, -⟩ := hstep
      exact (h.withdraw hrun hown hfrom hprice).2.1

/-! ## Runs of trades -/

def totalDeposited (trades : List Trade) : Nat :=
  (trades.map Trade.deposited).sum

def totalWithdrawn (trades : List Trade) : Nat :=
  (trades.map Trade.withdrawn).sum

variable (D K) in
/-- The chain after the trades `done` of a group that holds the accounts `G`. -/
structure Deployment.Traded (G : Finset Pubkey) (c₀ : Chain) (done : List Trade) (c : Chain) :
    Prop where
  trading : D.Trading K c
  mint : (D.stateOf c.ledger).pool.poolMint = (D.stateOf c₀.ledger).pool.poolMint
  lamports : (D.stateOf c.ledger).pool.stakeTotal.toNat + totalWithdrawn done =
    (D.stateOf c₀.ledger).pool.stakeTotal.toNat + totalDeposited done
  fair : groupTokens c₀.ledger (D.stateOf c₀.ledger).pool.poolMint G = 0 →
    (∀ t ∈ done, t.BurnsFrom G) →
    Fair (D.stateOf c₀.ledger).pool.stakeTotal.toNat (D.stateOf c₀.ledger).pool.poolTotal.toNat
      (D.stateOf c.ledger).pool.stakeTotal.toNat (D.stateOf c.ledger).pool.poolTotal.toNat
      (groupTokens c.ledger (D.stateOf c₀.ledger).pool.poolMint G)

section Runs

variable {G : Finset Pubkey} {c₀ : Chain} {done : List Trade} {t : Trade}

theorem Deployment.Traded.start (h : D.Trading K c₀) : D.Traded K G c₀ [] c₀ where
  trading := h
  mint := rfl
  lamports := rfl
  fair hnone _ := by
    rw [hnone]
    exact Fair.start _ _

theorem Deployment.Traded.step (h : D.Traded K G c₀ done c) (hstep : D.TradeStep K t c c') :
    D.Traded K G c₀ (done ++ [t]) c' := by
  have hlamports := h.lamports
  cases t with
  | deposit amount =>
      obtain ⟨⟨accounts, hrun⟩, hbound⟩ := hstep
      obtain ⟨h', ⟨hstake, x, hx, htotal⟩, hmint, htokens⟩ := h.trading.deposit hrun hbound
      refine ⟨h', hmint.trans h.mint, ?_, ?_⟩
      · simp only [totalWithdrawn, totalDeposited, List.map_append, List.sum_append,
          List.map_cons, List.map_nil, List.sum_singleton, Trade.withdrawn,
          Trade.deposited] at hlamports ⊢
        omega
      · intro hnone hburns
        have hfair := h.fair hnone fun t ht => hburns t (List.mem_append_left _ ht)
        have hG := htokens G
        rw [h.mint] at hG
        rw [hstake, htotal, sharesFor_eq hx]
        exact hfair.buy hG
  | withdraw n lamports burnFrom =>
      obtain ⟨⟨accounts, hrun, hown, hfrom⟩, hprice, -⟩ := hstep
      obtain ⟨h', ⟨hstake, -, htotal⟩, hmint, hpos, htokens⟩ :=
        h.trading.withdraw hrun hown hfrom hprice
      refine ⟨h', hmint.trans h.mint, ?_, ?_⟩
      · simp only [totalWithdrawn, totalDeposited, List.map_append, List.sum_append,
          List.map_cons, List.map_nil, List.sum_singleton, Trade.withdrawn,
          Trade.deposited] at hlamports ⊢
        omega
      · intro hnone hburns
        have hfair := h.fair hnone fun t ht => hburns t (List.mem_append_left _ ht)
        have hG := htokens G (hburns (.withdraw n lamports burnFrom) (by simp))
        rw [h.mint] at hG
        obtain ⟨-, hlam⟩ := calcLamportsAmount_eq_some.mp hprice
        have hredeem := hfair.redeem hpos hG
        rw [← hlam] at hredeem
        have hS : (D.stateOf c'.ledger).pool.stakeTotal.toNat =
            (D.stateOf c.ledger).pool.stakeTotal.toNat - lamports.toNat := by omega
        have hP : (D.stateOf c'.ledger).pool.poolTotal.toNat =
            (D.stateOf c.ledger).pool.poolTotal.toNat - n.toNat := by omega
        rw [hS, hP]
        exact hredeem

/-- Whatever was traded before, a trade keeps the price and moves the totals without
wrapping; and a group that starts with no tokens and makes all the trades withdraws no more
than it deposited. -/
theorem trades_extract_nothing {trades : List Trade} (h : D.Trading K c₀)
    (hrun : RunList (D.TradeStep K) trades c₀ c) :
    (∀ t c', D.TradeStep K t c c' →
      PriceKept (D.stateOf c.ledger).pool.stakeTotal.toNat
          (D.stateOf c.ledger).pool.poolTotal.toNat
          (D.stateOf c'.ledger).pool.stakeTotal.toNat
          (D.stateOf c'.ledger).pool.poolTotal.toNat ∧
        D.TotalsMove t c c') ∧
      ∀ G, groupTokens c₀.ledger (D.stateOf c₀.ledger).pool.poolMint G = 0 →
        (∀ t ∈ trades, t.BurnsFrom G) → totalWithdrawn trades ≤ totalDeposited trades := by
  have htraded : ∀ G, D.Traded K G c₀ trades c := fun G =>
    RunList.history_invariant (fun done t c c' hdone hstep => hdone.step hstep) hrun []
      (Traded.start h)
  constructor
  · intro t c' hstep
    have hmove := (htraded ∅).trading.totalsMove hstep
    exact ⟨priceKept_of_totalsMove hmove, hmove⟩
  · intro G hnone hburns
    have hfund := ((htraded G).fair hnone hburns).fund
    have hlamports := (htraded G).lamports
    omega

end Runs

section

open Reference

/-- Initialize, a deposit and a withdrawal, with what a trader needs to know. -/
def tradeRun : Except ProgramError (Chain × Chain × Chain) := do
  let c₀ ← execute anything []
  let c₁ ← perform anything c₀ (deposit 100000000 userTokensKey mintKey)
  let c₂ ← perform anything c₁ (withdraw 1000000 userTokensKey mintKey)
  pure (c₀, c₁, c₂)

theorem trades_extract_nothing_tradeRun :
    ∃ c₀ c₁ c₂, tradeRun = .ok (c₀, c₁, c₂) ∧ deployment.Trading ∅ c₀ ∧
      RunList (deployment.TradeStep ∅)
        [.deposit 100000000, .withdraw 1000000 1000000 userTokensKey] c₀ c₂ ∧
      totalWithdrawn [.deposit 100000000, .withdraw 1000000 1000000 userTokensKey] ≤
        totalDeposited [.deposit 100000000, .withdraw 1000000 1000000 userTokensKey] := by
  have hrun : tradeRun.map (fun cs =>
      (decide ((deployment.stateOf cs.1.ledger).pool.poolTotal =
          (deployment.stateOf cs.1.ledger).mint.supply ∧
        (deployment.stateOf cs.1.ledger).pool.stakeTotal = 0 ∧
        HoldsMint cs.1.ledger mintKey feeKey ∧
        (deployment.stateOf cs.1.ledger).pool.poolMint = mintKey ∧
        (deployment.stateOf cs.1.ledger).pool.ownerFeeAccount = feeKey ∧
        tokensOf cs.1.ledger mintKey userTokensKey = 0 ∧
        (deployment.stateOf cs.2.1.ledger).pool.poolMint = mintKey),
        (deployment.stateOf cs.2.1.ledger).pool.calcLamportsAmount 1000000)) =
      .ok (true, some 1000000) := by decide +kernel
  obtain ⟨⟨c₀, c₁, c₂⟩, hcs, hfacts⟩ := map_eq_ok.mp hrun
  obtain ⟨hdecide, hprice⟩ := Prod.mk.inj hfacts
  obtain ⟨hsupply, hzero, hfee, hmint, hfeeKey, htokens, hmint₁⟩ := of_decide_eq_true hdecide
  have hsteps := hcs
  simp only [tradeRun, bind_eq_ok, pure_eq_ok, Prod.mk.injEq] at hsteps
  obtain ⟨c₀, hinit, c₁, hdeposit, c₂, hwithdraw, rfl, rfl, rfl⟩ := hsteps
  have hbound : ∀ c : Chain, (deployment.stateOf c.ledger).heldBy ∅ < 2 ^ 64 := by
    intro c
    rw [PoolState.heldBy, Finset.sum_empty, Nat.add_zero]
    exact UInt64.toNat_lt _
  have htrading : deployment.Trading ∅ c₀ := by
    refine ⟨reachable_represents (execute_anything_reachable hinit), hsupply, ?_, ?_⟩
    · rw [hmint, hfeeKey]
      exact hfee
    · rw [hzero]
      exact Nat.zero_le _
  have htrades : RunList (deployment.TradeStep ∅)
      [.deposit 100000000, .withdraw 1000000 1000000 userTokensKey] c₀ c₂ :=
    .cons ⟨⟨_, (perform_call hdeposit).1⟩, hbound c₁⟩
      (.cons ⟨⟨_, (perform_call hwithdraw).1, congrArg some hmint₁.symm, rfl⟩, hprice,
        hbound c₂⟩ (.nil c₂))
  refine ⟨c₀, c₁, c₂, hcs, htrading, htrades, ?_⟩
  apply (trades_extract_nothing htrading htrades).2 {userTokensKey}
  · rw [groupTokens, Finset.sum_singleton, hmint]
    exact htokens
  · simp [Trade.BurnsFrom]

end

end Tenderize
