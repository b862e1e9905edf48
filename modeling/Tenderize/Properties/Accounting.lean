import Tenderize.Reference.Pool

/-!
# The pool counts its tokens

`pool_total` follows the supply of the pool's mint as long as every deposit and every
withdrawal names that mint.  The handlers do not ask for it.
-/

namespace Tenderize

open Support PoolState

variable {D : Deployment} {c c' : Chain} {s s' : PoolState} {op : PoolOp}

/-- A deposit or withdrawal names the pool's own mint. -/
def Deployment.OwnMint (D : Deployment) (c : Chain) : Event → Prop
  | .instruction instruction accounts =>
      mintAccount instruction accounts ∈ [none, some (D.stateOf c.ledger).pool.poolMint]
  | .outside => True

instance (e : Event) : Decidable (D.OwnMint c e) :=
  match e with
  | .instruction instruction accounts =>
      inferInstanceAs (Decidable
        (mintAccount instruction accounts ∈ [none, some (D.stateOf c.ledger).pool.poolMint]))
  | .outside => instDecidableTrue

/-- The same condition on pool steps. -/
def PoolState.TradesOwnMint (s : PoolState) (op : PoolOp) : Prop :=
  ∀ mint, op.mint? = some mint → mint = s.pool.poolMint

theorem Deployment.OwnMint.trades {quiet : Prop} {e : Event} (h : D.Represents c.ledger s)
    (hmatch : Matches quiet c e s op) (hguard : D.OwnMint c e) : s.TradesOwnMint op := by
  intro mint hmint
  cases e with
  | instruction instruction accounts =>
      change mintAccount instruction accounts ∈ _ at hguard
      rw [← hmatch.mint_eq, hmint, ← h.eq_stateOf] at hguard
      simpa using hguard
  | outside =>
      cases hmatch
      cases hmint

/-! ## The invariant -/

def PoolState.Accounted (s : PoolState) : Prop :=
  s.pool.poolTotal = s.mint.supply

theorem burnedTokens_eq (paid : List Payment) :
    burnedTokens paid =
      ((paid.map (fun payment => payment.credit.tokenAmount)).map UInt64.toNat).sum := by
  simp [burnedTokens, Function.comp_def]

theorem PoolState.PaidTokens.supply_eq {paid : List Payment} {mint' : Mint}
    {credit' : TokenAccount} {stakes' : Pubkey → Nat}
    (h : s.PaidTokens paid mint' credit' stakes') :
    s.mint.supply - (paid.map (fun payment => payment.credit.tokenAmount)).sum =
      mint'.supply := by
  have hsupply := h.supply
  have hlt := s.mint.supply.toNat_lt
  rw [burnedTokens_eq] at hsupply
  apply sub_eq_of_toNat
  rw [toNat_sum_of_lt (by omega)]
  exact hsupply

theorem PoolStep.accounted (hstep : PoolStep D s op s') (hown : s.TradesOwnMint op)
    (h : s.Accounted) : s'.Accounted := by
  unfold PoolState.Accounted at h ⊢
  cases hstep with
  | deposit amount poolAmount mint mint' credit' reserve' hd =>
      have hsupply := hd.minted.own (hown mint rfl)
      have hlt := mint'.supply.toNat_lt
      show s.pool.poolTotal + poolAmount = mint'.supply
      apply UInt64.toNat_inj.mp
      rw [h, toNat_add_of_lt (by omega), hsupply]
  | withdraw n stakeAmount burnFrom mint mint' credit' reserve' stakes' hw =>
      obtain ⟨-, hsupply⟩ := hw.burned.own (hown mint rfl)
      show s.pool.poolTotal - n = mint'.supply
      rw [h, hsupply]
  | payCreditors eligible paid credits' mint' credit' reserve' stakes' hp =>
      show s.pool.poolTotal - _ = mint'.supply
      rw [h]
      exact hp.supply_eq
  | _ => exact h

theorem accounted_invariant :
    (D.poolSystem.restrict PoolState.TradesOwnMint).Invariant PoolState.Accounted where
  init s hs := by
    unfold PoolState.Accounted
    rw [hs.poolTotal, hs.supply]
  step s op s' h hstep := PoolStep.accounted hstep.1 hstep.2 h

theorem reachable_accounted (h : ((D.system D.Outside).restrict D.OwnMint).Reachable c) :
    D.Represents c.ledger (D.stateOf c.ledger) ∧ (D.stateOf c.ledger).Accounted :=
  reachable_invariant False PoolState.TradesOwnMint PoolState.Accounted (fun _ _ hout => hout)
    False.elim (fun _ _ _ _ hs hmatch hguard => hguard.trades hs hmatch) accounted_invariant h

/-! ## Redeeming burns -/

/-- Tokens for which an instruction pays lamports out of the reserve. -/
def Deployment.redeemed (D : Deployment) (c : Chain) : Event → Option Nat
  | .instruction (.withdraw n) _ => some n.toNat
  | .instruction .payCreditors accounts =>
      match payCreditors D.programs D.programId accounts c with
      | .ok (paid, _) => some (burnedTokens paid)
      | .error _ => none
  | _ => none

theorem redeemed_burns {e : Event} {n : Nat} (h : D.Represents c.ledger (D.stateOf c.ledger))
    (hown : D.OwnMint c e) (hstep : D.Step D.Outside c e c') (hn : D.redeemed c e = some n) :
    (D.stateOf c.ledger).mint.supply.toNat = (D.stateOf c'.ledger).mint.supply.toNat + n := by
  unfold Deployment.redeemed at hn
  split at hn
  case h_1 poolAmount accounts =>
    obtain ⟨ha, L', hrun, rfl⟩ := hstep
    obtain ⟨a, s', hparse, hpool, h'⟩ := processWithdraw_refines h ha hrun
    obtain rfl := Option.some.inj hn
    rw [← h'.eq_stateOf]
    have hmatch : Matches False c (.instruction (.withdraw poolAmount) accounts)
        (D.stateOf c.ledger) _ := .withdraw hparse
    have hmint := hown.trades h hmatch
    cases hpool with
    | withdraw _ stakeAmount _ _ mint' credit' reserve' stakes' hw =>
        obtain ⟨hle, hsupply⟩ := hw.burned.own (hmint _ rfl)
        have hle' := UInt64.le_iff_toNat_le.mp hle
        have hsub := UInt64.toNat_sub_of_le _ _ hle
        show _ = mint'.supply.toNat + _
        rw [hsupply]
        omega
  case h_2 accounts =>
    split at hn
    case h_1 paid L₁ hpay =>
      obtain ⟨ha, L', hrun, rfl⟩ := hstep
      obtain rfl := Option.some.inj hn
      obtain ⟨lost, credits', mint', credit', reserve', stakes', -, hp, h'⟩ :=
        payCreditors_ok h ha hpay
      have hL : L' = L₁ := by
        simp only [dispatch, processPayCreditors, hpay] at hrun
        exact (Except.ok.inj hrun).symm
      rw [hL, ← h'.eq_stateOf]
      exact hp.supply
    case h_2 => cases hn
  case h_3 => cases hn

/-- In runs that trade under the pool's own mint, `pool_total` is its supply; whatever is
redeemed is burned, and `pool_total` never wraps below zero. -/
theorem poolTotal_eq_supply (h : ((D.system D.Outside).restrict D.OwnMint).Reachable c) :
    (D.stateOf c.ledger).pool.poolTotal = (D.stateOf c.ledger).mint.supply ∧
      ∀ e c' n, ((D.system D.Outside).restrict D.OwnMint).step c e c' →
        D.redeemed c e = some n →
        (D.stateOf c.ledger).mint.supply.toNat =
            (D.stateOf c'.ledger).mint.supply.toNat + n ∧
          (D.stateOf c.ledger).pool.poolTotal.toNat =
            (D.stateOf c'.ledger).pool.poolTotal.toNat + n := by
  obtain ⟨hs, hacc⟩ := reachable_accounted h
  refine ⟨hacc, ?_⟩
  intro e c' n hstep hn
  obtain ⟨-, hacc'⟩ := reachable_accounted (.step h hstep)
  have hsupply := redeemed_burns hs hstep.2 hstep.1 hn
  refine ⟨hsupply, ?_⟩
  rw [hacc, hacc']
  exact hsupply

section

open Reference

def totalAndSupply (c : Chain) : UInt64 × UInt64 :=
  ((deployment.stateOf c.ledger).pool.poolTotal, (deployment.stateOf c.ledger).mint.supply)

/-- An honest deposit and withdrawal. -/
def ownMintRun : List Action :=
  [deposit 100000000 userTokensKey mintKey, withdraw 1000000 userTokensKey mintKey]

theorem poolTotal_eq_supply_ownMintRun :
    ∃ c, execute (fun c e => decide (deployment.OwnMint c e)) ownMintRun = .ok c ∧
      totalAndSupply c = (99000000, 99000000) ∧
      (deployment.stateOf c.ledger).pool.poolTotal =
        (deployment.stateOf c.ledger).mint.supply := by
  have hrun : (execute (fun c e => decide (deployment.OwnMint c e)) ownMintRun).map
      totalAndSupply = .ok (99000000, 99000000) := by decide +kernel
  obtain ⟨c, hc, htotals⟩ := map_eq_ok.mp hrun
  refine ⟨c, hc, htotals, (poolTotal_eq_supply (execute_reachable ?_ hc)).1⟩
  intro c e hallowed
  simpa using hallowed

/-- Tokens of another mint buy lamports of the reserve. -/
theorem withdraw_foreign_mint :
    ∃ c, (deployment.system deployment.Outside).Reachable c ∧
      (deployment.stateOf c.ledger).pool.poolTotal ≠
        (deployment.stateOf c.ledger).mint.supply := by
  have hrun : (execute anything [deposit 100000000 userTokensKey mintKey,
      withdraw 1000000 otherTokensKey otherMintKey]).map totalAndSupply =
        .ok (99000000, 100000000) := by decide +kernel
  obtain ⟨c, hc, htotals⟩ := map_eq_ok.mp hrun
  refine ⟨c, execute_anything_reachable hc, ?_⟩
  obtain ⟨htotal, hsupply⟩ := Prod.mk.inj htotals
  rw [htotal, hsupply]
  decide

end

end Tenderize
