import Tenderize.Refinement.Accounts

/-!
# The credit handlers refine the pool steps
-/

namespace Tenderize

open Support

variable {D : Deployment} {chain : Chain} {accounts : List AccountInfo} {s : PoolState}
  {amount : UInt64} {L' : Ledger}

/-! ## The queue -/

/-- Tokens queued for the target. -/
def queuedFor (target : Pubkey) (credits : List CreditRecord) : UInt64 :=
  ((lookup CreditRecord.solTarget target credits).map (fun r => r.tokenAmount)).getD 0

section Queue

variable {target cancelAuthority k : Pubkey} {n : UInt64} {credits credits' : List CreditRecord}

theorem addCredit_lookup_self
    (h : addCredit target cancelAuthority n credits = .ok credits') :
    lookup CreditRecord.solTarget target credits' =
      some ⟨target, cancelAuthority, queuedFor target credits + n⟩ := by
  unfold addCredit at h
  unfold queuedFor
  cases hfound : lookup CreditRecord.solTarget target credits with
  | none =>
      simp only [hfound, bind_eq_ok, require_eq_ok, pure_eq_ok] at h
      obtain ⟨-, -, rfl⟩ := h
      rw [lookup_append_self hfound rfl]
      simp
  | some r =>
      simp only [hfound, bind_eq_ok, require_eq_ok, pure_eq_ok] at h
      obtain ⟨-, hcancel, rfl⟩ := h
      have hkey : r.solTarget = target := lookup_key hfound
      refine (lookup_updateFirst_self hfound ?_).trans ?_
      · exact hkey
      · rw [hcancel, ← hkey]
        rfl

theorem addCredit_lookup_of_ne
    (h : addCredit target cancelAuthority n credits = .ok credits') (hne : k ≠ target) :
    lookup CreditRecord.solTarget k credits' = lookup CreditRecord.solTarget k credits := by
  unfold addCredit at h
  cases hfound : lookup CreditRecord.solTarget target credits with
  | none =>
      simp only [hfound, bind_eq_ok, require_eq_ok, pure_eq_ok] at h
      obtain ⟨-, -, rfl⟩ := h
      exact lookup_append_of_ne hne.symm
  | some r =>
      simp only [hfound, bind_eq_ok, require_eq_ok, pure_eq_ok] at h
      obtain ⟨-, -, rfl⟩ := h
      have hkey : r.solTarget = target := lookup_key hfound
      refine lookup_updateFirst_of_ne ?_ hne
      exact hkey

end Queue

/-! ## Credit and Uncredit -/

theorem loadCredits_ok {a : CreditAccounts} {result : StakePool × CreditList}
    (h : D.Represents chain.ledger s) (hkey : a.stakePool.key = D.poolKey)
    (hload : loadCredits D.programs D.programId chain.ledger a = .ok result) :
    result = (s.pool, s.creditList) ∧ a.tokenProgram.key = splTokenId ∧
      a.creditList.key = s.pool.creditList ∧ a.creditReserve.key = s.pool.creditReserve := by
  simp only [loadCredits, bind_eq_ok, require_eq_ok, pure_eq_ok] at hload
  obtain ⟨pool, hpool, -, htoken, list, hlist, -, hreserve, rfl⟩ := hload
  obtain rfl := h.load_pool hkey hpool
  obtain ⟨hlistKey, rfl⟩ := h.load_credits hlist
  exact ⟨rfl, by rw [← htoken]; exact h.wired.token_program, hlistKey, hreserve⟩

/-- The call and the store a successful `Credit` consists of. -/
structure CreditRun (D : Deployment) (chain : Chain) (s : PoolState) (amount : UInt64)
    (a : CreditAccounts) (credits : List CreditRecord) (L₁ L' : Ledger) : Prop where
  positive : amount ≠ 0
  target : (chain.ledger a.target.key).owner = systemProgramId
  queue : addCredit a.target.key a.cancelAuthority.key amount s.creditList.credits = .ok credits
  move : ∃ sigs, D.programs.tokenTransfer splTokenId a.burnFrom.key s.pool.creditReserve
    a.withdraw.key amount sigs chain.ledger = .ok L₁
  store : store D.programId s.pool.creditList
    (CreditList.serialize { s.creditList with credits }) L₁ = .ok L'

theorem processCredit_ok (h : D.Represents chain.ledger s) (ha : D.Addressed accounts)
    (hrun : processCredit D.programs D.programId amount accounts chain = .ok L') :
    ∃ a credits L₁, CreditAccounts.parse accounts = .ok a ∧
      CreditRun D chain s amount a credits L₁ L' := by
  simp only [processCredit, bind_eq_ok, require_eq_ok] at hrun
  obtain ⟨-, hamount, a, hparse, result, hload, -, htarget, credits, hcredits, L₁, hmove,
    hstore⟩ := hrun
  obtain ⟨rest, haccounts⟩ := CreditAccounts.parse_ok hparse
  obtain ⟨rfl, htoken, hlist, hreserve⟩ := loadCredits_ok h (ha.key_eq haccounts) hload
  rw [htoken, hreserve] at hmove
  rw [hlist] at hstore
  exact ⟨a, credits, L₁, hparse, hamount, htarget, hcredits, ⟨_, hmove⟩, hstore⟩

theorem CreditRun.refines {a : CreditAccounts} {credits : List CreditRecord} {L₁ : Ledger}
    (h : D.Represents chain.ledger s) (hc : CreditRun D chain s amount a credits L₁ L') :
    ∃ credit', PoolStep D s (.credit amount a.burnFrom.key)
        { s with creditList := { s.creditList with credits }, creditReserve := credit' } ∧
      D.Represents L'
        { s with creditList := { s.creditList with credits }, creditReserve := credit' } := by
  obtain ⟨_, hmove⟩ := hc.move
  obtain ⟨credit', h₁, hmoved⟩ := h.tokenTransfer hmove
  exact ⟨credit', .credit amount a.burnFrom.key a.target.key a.cancelAuthority.key credits
    credit' hc.queue hmoved, h₁.store_credits hc.store rfl⟩

theorem processCredit_refines (h : D.Represents chain.ledger s) (ha : D.Addressed accounts)
    (hrun : processCredit D.programs D.programId amount accounts chain = .ok L') :
    ∃ a s', CreditAccounts.parse accounts = .ok a ∧
      PoolStep D s (.credit amount a.burnFrom.key) s' ∧ D.Represents L' s' := by
  obtain ⟨a, credits, L₁, hparse, hc⟩ := processCredit_ok h ha hrun
  obtain ⟨credit', hstep, h'⟩ := hc.refines h
  exact ⟨a, _, hparse, hstep, h'⟩

theorem processUncredit_refines (h : D.Represents chain.ledger s) (ha : D.Addressed accounts)
    (hrun : processUncredit D.programs D.programId amount accounts chain = .ok L') :
    ∃ s', PoolStep D s (.uncredit amount) s' ∧ D.Represents L' s' := by
  simp only [processUncredit, bind_eq_ok] at hrun
  obtain ⟨a, hparse, result, hload, credits, hcredits, L₁, hmove, hstore⟩ := hrun
  obtain ⟨rest, haccounts⟩ := CreditAccounts.parse_ok hparse
  obtain ⟨rfl, htoken, hlist, hreserve⟩ := loadCredits_ok h (ha.key_eq haccounts) hload
  rw [htoken, hreserve] at hmove
  rw [hlist] at hstore
  obtain ⟨credit', h₁, hmoved⟩ := h.tokenTransfer hmove
  exact ⟨_, .uncredit amount a.burnFrom.key a.target.key a.cancelAuthority credits credit'
    hcredits hmoved, h₁.store_credits hstore rfl⟩

/-! ## PayCreditors -/

section Pay

variable {a : PayCreditorsAccounts} {reserveBump : UInt8} {available : UInt64}

/-- The accounts of the payment loop after the checks of the handler. -/
structure PayAccounts (D : Deployment) (s : PoolState) (a : PayCreditorsAccounts) : Prop where
  token : a.tokenProgram.key = splTokenId
  withdraw : a.withdraw.key = D.withdrawKey
  reserve : a.reserve.key = D.reserveKey
  credit : a.creditReserve.key = s.pool.creditReserve
  list : a.creditList.key = s.pool.creditList

theorem PayAccounts.of_pool {s' : PoolState} (hacc : PayAccounts D s a)
    (hpool : s'.pool = s.pool) : PayAccounts D s' a := by
  obtain ⟨htoken, hwithdraw, hreserve, hcredit, hlist⟩ := hacc
  rw [← hpool] at hcredit hlist
  exact ⟨htoken, hwithdraw, hreserve, hcredit, hlist⟩

theorem payCredit_ok {user : AccountInfo} {credit : CreditRecord} {stakeAmount : UInt64}
    {x x' : PayState} (hacc : PayAccounts D s a)
    (hrun : payCredit D.programs D.programId a reserveBump user credit stakeAmount x = .ok x') :
    ∃ L₁,
      (∃ sigs, D.programs.burn splTokenId s.pool.creditReserve a.poolMint.key D.withdrawKey
        credit.tokenAmount sigs x.ledger = .ok L₁) ∧
      (∃ sigs, D.programs.transfer D.reserveKey credit.solTarget stakeAmount sigs L₁ =
        .ok x'.ledger) ∧
      x' =
        { x with
          stakePool :=
            { x.stakePool with poolTotal := x.stakePool.poolTotal - credit.tokenAmount }
          totalAmount := x.totalAmount + stakeAmount
          ledger := x'.ledger
          paid := x.paid ++ [⟨credit, stakeAmount⟩] } := by
  simp only [payCredit, tokenBurn, bind_eq_ok, pure_eq_ok] at hrun
  obtain ⟨L₁, hburn, L₂, htransfer, rfl⟩ := hrun
  rw [hacc.token, hacc.credit, hacc.withdraw] at hburn
  rw [hacc.reserve] at htransfer
  exact ⟨L₁, ⟨_, hburn⟩, ⟨_, htransfer⟩, rfl⟩

theorem payCredit_owner {user : AccountInfo} {credit : CreditRecord} {stakeAmount : UInt64}
    {x x' : PayState} (hacc : PayAccounts D s a)
    (hrun : payCredit D.programs D.programId a reserveBump user credit stakeAmount x = .ok x')
    (k : Pubkey) : (x'.ledger k).owner = (x.ledger k).owner := by
  obtain ⟨L₁, ⟨_, hburn⟩, ⟨_, htransfer⟩, -⟩ := payCredit_ok hacc hrun
  obtain ⟨t, t', m, -, -, -, -, -, -, -, hL₁⟩ := D.lawful.burn_ok hburn
  obtain ⟨-, -, -, -, hL₂⟩ := D.lawful.transfer_ok htransfer
  rw [hL₂, Ledger.moveLamports_owner, hL₁, Ledger.setData_owner, Ledger.setData_owner]

/-- The named credits with a system account as their target cannot all be paid. -/
def RunsShort (available : UInt64) (L : Ledger) (pool : StakePool) (total : UInt64)
    (users : List AccountInfo) (credits : List CreditRecord) : Prop :=
  pool.affordable available total (payable L (credits.take users.length)) ≠
    payable L (credits.take users.length)

/-- What a run of the payment loop did: it paid `paid`, skipped the credits whose target
is not a system account, put back at most one credit and left `rest`. -/
structure PayPlan (available : UInt64) (users : List AccountInfo) (credits : List CreditRecord)
    (x x' : PayState) (rest : List CreditRecord) (paid : List Payment)
    (lost : List CreditRecord) : Prop where
  pool : x'.stakePool =
    { x.stakePool with
      poolTotal := x.stakePool.poolTotal -
        (paid.map (fun payment => payment.credit.tokenAmount)).sum }
  total : x'.totalAmount =
    x.totalAmount + (paid.map (fun payment => payment.lamports)).sum
  record : x'.paid = x.paid ++ paid
  prices : x.stakePool.Prices paid
  settled : paid.map (fun payment => payment.credit) =
    x.stakePool.affordable available x.totalAmount
      (payable x.ledger (credits.take users.length))
  perm : List.Perm (x.credits ++ x.invalidCredits ++ credits)
    (paid.map (fun payment => payment.credit) ++
      (x'.credits ++ rest ++ x'.invalidCredits) ++ lost)
  lost_iff : lost = [] ↔ credits.length ≤ users.length ∨
    RunsShort available x.ledger x.stakePool x.totalAmount users credits
  untouched : paid = [] → x'.ledger = x.ledger
  idle : paid = [] → lost = [] → x.credits = [] → payable x.ledger x.invalidCredits = [] →
    ∀ n, x.stakePool.affordable available x.totalAmount
      (payable x.ledger ((x'.credits ++ rest ++ x'.invalidCredits).take n)) = []

theorem payable_take {L : Ledger} {credits : List CreditRecord} (h : payable L credits = [])
    (n : Nat) : payable L (credits.take n) = [] := by
  rw [← List.sublist_nil, ← h]
  exact (List.take_sublist n credits).filter _

theorem payable_congr {L L' : Ledger} (h : ∀ k, (L' k).owner = (L k).owner)
    (credits : List CreditRecord) : payable L' credits = payable L credits := by
  unfold payable
  simp only [h]

namespace PayPlan

variable {user : AccountInfo} {users : List AccountInfo} {credit : CreditRecord}
  {credits rest lost : List CreditRecord} {x x' : PayState} {paid : List Payment}

theorem finished (users : List AccountInfo) (x : PayState) :
    PayPlan available users [] x x [] [] [] := by
  have hidle : x.credits = [] → payable x.ledger x.invalidCredits = [] →
      ∀ n, x.stakePool.affordable available x.totalAmount
        (payable x.ledger ((x.credits ++ [] ++ x.invalidCredits).take n)) = [] := by
    intro hcredits hinvalid n
    rw [hcredits, List.append_nil, List.nil_append, payable_take hinvalid]
    rfl
  refine ⟨?_, ?_, ?_, trivial, ?_, ?_, ?_, fun _ => rfl, fun _ _ => hidle⟩ <;>
    simp [StakePool.affordable, payable]

/-- The users ran out: the credit taken with the missing user is gone. -/
theorem dropped (credit : CreditRecord) (rest : List CreditRecord) (x : PayState) :
    PayPlan available [] (credit :: rest) x x rest [] [credit] := by
  have hperm : List.Perm (x.credits ++ x.invalidCredits ++ credit :: rest)
      (x.credits ++ rest ++ x.invalidCredits ++ [credit]) := by
    have hmove : List.Perm (x.invalidCredits ++ credit :: rest)
        (rest ++ x.invalidCredits ++ [credit]) :=
      List.perm_append_comm.trans (List.perm_append_singleton _ _).symm
    simpa only [List.append_assoc] using hmove.append_left x.credits
  refine ⟨?_, ?_, ?_, trivial, ?_, hperm, ?_, fun _ => rfl, nofun⟩ <;>
    simp [StakePool.affordable, payable, RunsShort]

/-- The reserve cannot pay the next credit: it goes back first. -/
theorem stopped (hprice : x.stakePool.calcLamportsAmount credit.tokenAmount = some amount)
    (howner : (x.ledger credit.solTarget).owner = systemProgramId)
    (hshort : available < x.totalAmount + amount) :
    PayPlan available (user :: users) (credit :: credits) x
      { x with credits := x.credits ++ [credit] } credits [] [] := by
  have hpayable : payable x.ledger ((credit :: credits).take (user :: users).length) =
      credit :: payable x.ledger (credits.take users.length) := by
    simp [payable, howner]
  have hnone : x.stakePool.affordable available x.totalAmount
      (credit :: payable x.ledger (credits.take users.length)) = [] := by
    simp [StakePool.affordable, hprice, hshort]
  have hruns : RunsShort available x.ledger x.stakePool x.totalAmount (user :: users)
      (credit :: credits) := by
    unfold RunsShort
    rw [hpayable, hnone]
    exact nofun
  refine ⟨by simp, by simp, by simp, trivial, ?_, ?_, by simp [hruns], fun _ => rfl, ?_⟩
  · rw [hpayable, hnone]
    rfl
  · have hmove : List.Perm (x.invalidCredits ++ credit :: credits)
        (credit :: credits ++ x.invalidCredits) := List.perm_append_comm
    simpa using hmove.append_left x.credits
  · -- the credit that was put back comes first and is still too large
    intro _ _ hcredits _ n
    change x.stakePool.affordable available x.totalAmount
      (payable x.ledger ((x.credits ++ [credit] ++ credits ++ x.invalidCredits).take n)) = []
    rw [hcredits]
    cases n with
    | zero => rfl
    | succ n => simp [payable, howner, StakePool.affordable, hprice, hshort]

/-- A credit whose target is not a system account is set aside. -/
theorem skipped (howner : (x.ledger credit.solTarget).owner ≠ systemProgramId)
    (h : PayPlan available users credits
      { x with invalidCredits := x.invalidCredits ++ [credit] } x' rest paid lost) :
    PayPlan available (user :: users) (credit :: credits) x x' rest paid lost := by
  have hpayable : payable x.ledger ((credit :: credits).take (user :: users).length) =
      payable x.ledger (credits.take users.length) := by
    simp [payable, howner]
  refine ⟨h.pool, h.total, h.record, h.prices, ?_, ?_, h.lost_iff.trans (or_congr ?_ ?_),
    h.untouched, ?_⟩
  · rw [hpayable]
    exact h.settled
  · refine List.Perm.trans ?_ h.perm
    simp
  · simp
  · unfold RunsShort
    rw [hpayable]
  · intro hpaid hlost hcredits hinvalid
    apply h.idle hpaid hlost hcredits
    change payable x.ledger (x.invalidCredits ++ [credit]) = []
    unfold payable at hinvalid ⊢
    rw [List.filter_append, hinvalid]
    simp [howner]

/-- A credit is paid and the loop goes on with the pool it left. -/
theorem payed {x₁ : PayState}
    (hprice : x.stakePool.calcLamportsAmount credit.tokenAmount = some amount)
    (howner : (x.ledger credit.solTarget).owner = systemProgramId)
    (henough : ¬available < x.totalAmount + amount)
    (hsame : ∀ k, (x₁.ledger k).owner = (x.ledger k).owner)
    (hx₁ : x₁ =
      { x with
        stakePool :=
          { x.stakePool with poolTotal := x.stakePool.poolTotal - credit.tokenAmount }
        totalAmount := x.totalAmount + amount
        ledger := x₁.ledger
        paid := x.paid ++ [⟨credit, amount⟩] })
    (h : PayPlan available users credits x₁ x' rest paid lost) :
    PayPlan available (user :: users) (credit :: credits) x x' rest (⟨credit, amount⟩ :: paid)
      lost := by
  have hpayable : payable x.ledger ((credit :: credits).take (user :: users).length) =
      credit :: payable x₁.ledger (credits.take users.length) := by
    rw [payable_congr hsame]
    simp [payable, howner]
  have hsettled : x.stakePool.affordable available x.totalAmount
      (credit :: payable x₁.ledger (credits.take users.length)) =
      credit :: x₁.stakePool.affordable available x₁.totalAmount
        (payable x₁.ledger (credits.take users.length)) := by
    rw [hx₁]
    simp [StakePool.affordable, hprice, henough]
  refine ⟨?_, ?_, ?_, ⟨hprice, ?_⟩, ?_, ?_, h.lost_iff.trans (or_congr ?_ ?_), nofun, nofun⟩
  · rw [h.pool, hx₁]
    simp [sub_sub]
  · rw [h.total, hx₁]
    simp [add_assoc]
  · rw [h.record, hx₁]
    simp
  · have hprices := h.prices
    rw [hx₁] at hprices
    exact hprices
  · rw [hpayable, hsettled, ← h.settled]
    rfl
  · have hp := h.perm
    rw [hx₁] at hp
    simp only [List.map_cons, List.cons_append]
    refine List.Perm.trans ?_ (hp.cons credit)
    exact List.perm_middle
  · simp
  · unfold RunsShort
    rw [hpayable, hsettled]
    simp

end PayPlan

theorem payLoop_plan (hacc : PayAccounts D s a) (users : List AccountInfo) :
    ∀ {credits : List CreditRecord} {x x' : PayState} {rest : List CreditRecord},
      payLoop D.programs D.programId a reserveBump available users credits x = .ok (x', rest) →
      ∃ paid lost, PayPlan available users credits x x' rest paid lost := by
  induction users with
  | nil =>
      intro credits x x' rest hrun
      cases credits with
      | nil =>
          simp only [payLoop, pure_eq_ok, Prod.mk.injEq] at hrun
          obtain ⟨rfl, rfl⟩ := hrun
          exact ⟨[], [], PayPlan.finished [] x⟩
      | cons credit credits =>
          simp only [payLoop, pure_eq_ok, Prod.mk.injEq] at hrun
          obtain ⟨rfl, rfl⟩ := hrun
          exact ⟨[], [credit], PayPlan.dropped credit credits x⟩
  | cons user users ih =>
      intro credits x x' rest hrun
      cases credits with
      | nil =>
          simp only [payLoop, pure_eq_ok, Prod.mk.injEq] at hrun
          obtain ⟨rfl, rfl⟩ := hrun
          exact ⟨[], [], PayPlan.finished (user :: users) x⟩
      | cons credit credits =>
          simp only [payLoop, bind_eq_ok, require_eq_ok] at hrun
          obtain ⟨-, hkey, hrun⟩ := hrun
          rw [hkey] at hrun
          split at hrun
          case isTrue howner =>
            obtain ⟨paid, lost, hplan⟩ := ih hrun
            exact ⟨paid, lost, hplan.skipped howner⟩
          case isFalse howner =>
            simp only [bind_eq_ok, okOr_eq_ok] at hrun
            obtain ⟨stakeAmount, hprice, hrun⟩ := hrun
            have hsystem := not_not.mp howner
            split at hrun
            case isTrue hshort =>
              simp only [pure_eq_ok, Prod.mk.injEq] at hrun
              obtain ⟨rfl, rfl⟩ := hrun
              exact ⟨[], [], PayPlan.stopped hprice hsystem hshort⟩
            case isFalse henough =>
              simp only [bind_eq_ok] at hrun
              obtain ⟨x₁, hpay, hrun⟩ := hrun
              obtain ⟨paid, lost, hplan⟩ := ih hrun
              obtain ⟨-, -, -, hx₁⟩ := payCredit_ok hacc hpay
              exact ⟨_ :: paid, lost, hplan.payed hprice hsystem henough
                (payCredit_owner hacc hpay) hx₁⟩

/-! ### Tokens and lamports -/

theorem payCredit_tokens {s₀ : PoolState} {user : AccountInfo} {credit : CreditRecord}
    {stakeAmount : UInt64} {x x' : PayState} (hacc : PayAccounts D s₀ a)
    (h : D.Represents x.ledger s₀)
    (hrun : payCredit D.programs D.programId a reserveBump user credit stakeAmount x = .ok x') :
    ∃ mint' credit' reserve' stakes',
      D.Represents x'.ledger
        { s₀ with
          mint := mint', creditReserve := credit', reserve := reserve', stakes := stakes' } ∧
      s₀.PaidTokens [⟨credit, stakeAmount⟩] mint' credit' stakes' := by
  obtain ⟨L₁, ⟨_, hburn⟩, ⟨_, htransfer⟩, -⟩ := payCredit_ok hacc hrun
  obtain ⟨mint', credit', h₁, hburned⟩ := h.burn hburn
  obtain ⟨hmint, henough, hamount⟩ := hburned.reserve rfl
  obtain ⟨hsupply, hsupply'⟩ := hburned.own hmint
  have h₂ := h₁.transfer htransfer
  refine ⟨mint', credit', _, _, h₂, ?_, ?_, ?_⟩
  · have hle := UInt64.le_iff_toNat_le.mp hsupply
    have hsub := UInt64.toNat_sub_of_le _ _ hsupply
    simp only [burnedTokens, List.map_cons, List.map_nil, List.sum_cons, List.sum_nil]
    rw [hsupply']
    omega
  · have hle := UInt64.le_iff_toNat_le.mp henough
    have hsub := UInt64.toNat_sub_of_le _ _ henough
    simp only [burnedTokens, List.map_cons, List.map_nil, List.sum_cons, List.sum_nil]
    rw [hamount]
    omega
  · intro k
    have hstakes : D.stakesOf L₁ = s₀.stakes := h₁.stakes_eq
    rw [← hstakes]
    exact D.stakesOf_le (D.lawful.transfer_stakes_le htransfer) k

theorem PoolState.PaidTokens.trans {s₀ : PoolState} {payment : Payment} {paid : List Payment}
    {mint₁ mint₂ : Mint} {credit₁ credit₂ : TokenAccount} {reserve₁ : UInt64}
    {stakes₁ stakes₂ : Pubkey → Nat} (h₁ : s₀.PaidTokens [payment] mint₁ credit₁ stakes₁)
    (h₂ : PoolState.PaidTokens
      { s₀ with
        mint := mint₁, creditReserve := credit₁, reserve := reserve₁, stakes := stakes₁ }
      paid mint₂ credit₂ stakes₂) :
    s₀.PaidTokens (payment :: paid) mint₂ credit₂ stakes₂ := by
  obtain ⟨hs₁, hb₁, hk₁⟩ := h₁
  obtain ⟨hs₂, hb₂, hk₂⟩ := h₂
  simp only [burnedTokens, List.map_cons, List.map_nil, List.sum_cons, List.sum_nil]
    at hs₁ hb₁ hs₂ hb₂ ⊢
  refine ⟨?_, ?_, fun k => (hk₁ k).trans (hk₂ k)⟩
  · simp only [burnedTokens, List.map_cons, List.sum_cons]
    omega
  · simp only [burnedTokens, List.map_cons, List.sum_cons]
    omega

theorem payLoop_tokens (users : List AccountInfo) :
    ∀ {credits : List CreditRecord} {x x' : PayState} {rest : List CreditRecord}
      {s₀ : PoolState}, D.Represents x.ledger s₀ → PayAccounts D s₀ a →
      payLoop D.programs D.programId a reserveBump available users credits x = .ok (x', rest) →
      ∃ paid mint' credit' reserve' stakes', x'.paid = x.paid ++ paid ∧
        D.Represents x'.ledger
          { s₀ with
            mint := mint', creditReserve := credit', reserve := reserve', stakes := stakes' } ∧
        s₀.PaidTokens paid mint' credit' stakes' := by
  induction users with
  | nil =>
      intro credits x x' rest s₀ h hacc hrun
      cases credits <;>
      · simp only [payLoop, pure_eq_ok, Prod.mk.injEq] at hrun
        obtain ⟨rfl, -⟩ := hrun
        exact ⟨[], _, _, _, _, by simp, h, rfl, rfl, fun _ => le_refl _⟩
  | cons user users ih =>
      intro credits x x' rest s₀ h hacc hrun
      cases credits with
      | nil =>
          simp only [payLoop, pure_eq_ok, Prod.mk.injEq] at hrun
          obtain ⟨rfl, -⟩ := hrun
          exact ⟨[], _, _, _, _, by simp, h, rfl, rfl, fun _ => le_refl _⟩
      | cons credit credits =>
          simp only [payLoop, bind_eq_ok, require_eq_ok] at hrun
          obtain ⟨-, -, hrun⟩ := hrun
          split at hrun
          case isTrue =>
            exact ih (x := { x with invalidCredits := x.invalidCredits ++ [credit] }) h hacc hrun
          case isFalse =>
            simp only [bind_eq_ok, okOr_eq_ok] at hrun
            obtain ⟨stakeAmount, -, hrun⟩ := hrun
            split at hrun
            case isTrue =>
              simp only [pure_eq_ok, Prod.mk.injEq] at hrun
              obtain ⟨rfl, -⟩ := hrun
              exact ⟨[], _, _, _, _, by simp, h, rfl, rfl, fun _ => le_refl _⟩
            case isFalse =>
              simp only [bind_eq_ok] at hrun
              obtain ⟨x₁, hpay, hrun⟩ := hrun
              obtain ⟨mint₁, credit₁, reserve₁, stakes₁, h₁, ht₁⟩ :=
                payCredit_tokens hacc h hpay
              obtain ⟨paid, mint₂, credit₂, reserve₂, stakes₂, hpaid, h₂, ht₂⟩ :=
                ih h₁ (hacc.of_pool rfl) hrun
              obtain ⟨-, -, -, hx₁⟩ := payCredit_ok hacc hpay
              refine ⟨⟨credit, stakeAmount⟩ :: paid, mint₂, credit₂, reserve₂, stakes₂, ?_, h₂,
                ht₁.trans ht₂⟩
              rw [hpaid, hx₁]
              simp

/-- Payments to others leave the reserve, and their sum was checked after each of them. -/
theorem payLoop_reserve (hacc : PayAccounts D s a) (users : List AccountInfo) :
    ∀ {credits : List CreditRecord} {x x' : PayState} {rest : List CreditRecord},
      (∀ user ∈ users, user.key ≠ D.reserveKey) →
      payLoop D.programs D.programId a reserveBump available users credits x = .ok (x', rest) →
      ∃ spent : Nat,
        (x.ledger D.reserveKey).lamports.toNat = (x'.ledger D.reserveKey).lamports.toNat + spent ∧
        x'.totalAmount = x.totalAmount + UInt64.ofNat spent ∧
        (spent = 0 ∨ x'.totalAmount ≤ available) := by
  have hnothing : ∀ x : PayState, ∃ spent : Nat,
      (x.ledger D.reserveKey).lamports.toNat = (x.ledger D.reserveKey).lamports.toNat + spent ∧
      x.totalAmount = x.totalAmount + UInt64.ofNat spent ∧
      (spent = 0 ∨ x.totalAmount ≤ available) :=
    fun x => ⟨0, rfl, (UInt64.add_zero _).symm, .inl rfl⟩
  induction users with
  | nil =>
      intro credits x x' rest _ hrun
      cases credits <;>
      · simp only [payLoop, pure_eq_ok, Prod.mk.injEq] at hrun
        obtain ⟨rfl, -⟩ := hrun
        exact hnothing x
  | cons user users ih =>
      intro credits x x' rest husers hrun
      have husers' : ∀ user ∈ users, user.key ≠ D.reserveKey :=
        fun user hmem => husers user (List.mem_cons_of_mem _ hmem)
      cases credits with
      | nil =>
          simp only [payLoop, pure_eq_ok, Prod.mk.injEq] at hrun
          obtain ⟨rfl, -⟩ := hrun
          exact hnothing x
      | cons credit credits =>
          simp only [payLoop, bind_eq_ok, require_eq_ok] at hrun
          obtain ⟨-, hkey, hrun⟩ := hrun
          split at hrun
          case isTrue =>
            exact ih (x := { x with invalidCredits := x.invalidCredits ++ [credit] }) husers' hrun
          case isFalse =>
            simp only [bind_eq_ok, okOr_eq_ok] at hrun
            obtain ⟨stakeAmount, -, hrun⟩ := hrun
            split at hrun
            case isTrue =>
              simp only [pure_eq_ok, Prod.mk.injEq] at hrun
              obtain ⟨rfl, -⟩ := hrun
              exact hnothing x
            case isFalse hchecked =>
              simp only [bind_eq_ok] at hrun
              obtain ⟨x₁, hpay, hrun⟩ := hrun
              obtain ⟨spent, hreserve, htotal, hbound⟩ := ih husers' hrun
              obtain ⟨L₁, ⟨_, hburn⟩, ⟨_, htransfer⟩, hx₁⟩ := payCredit_ok hacc hpay
              have hother : D.reserveKey ≠ credit.solTarget := by
                rw [← hkey]
                exact (husers user List.mem_cons_self).symm
              obtain ⟨t, t', m, -, -, -, -, -, -, -, hL₁⟩ := D.lawful.burn_ok hburn
              obtain ⟨hle, hsource⟩ := D.lawful.transfer_source htransfer hother
              have hbefore : (L₁ D.reserveKey).lamports = (x.ledger D.reserveKey).lamports := by
                rw [hL₁, Ledger.setData_lamports, Ledger.setData_lamports]
              rw [hbefore] at hle hsource
              have hsub := UInt64.toNat_sub_of_le _ _ hle
              have hle' := UInt64.le_iff_toNat_le.mp hle
              have htotal₁ : x₁.totalAmount = x.totalAmount + stakeAmount := by rw [hx₁]
              rw [hsource, hsub] at hreserve
              refine ⟨stakeAmount.toNat + spent, by omega, ?_, .inr ?_⟩
              · rw [htotal, htotal₁, UInt64.ofNat_add, UInt64.ofNat_toNat, UInt64.add_assoc]
              · rcases hbound with rfl | hbound
                · have hsame : x'.totalAmount = x₁.totalAmount :=
                    htotal.trans (UInt64.add_zero _)
                  rw [hsame, htotal₁]
                  exact UInt64.not_lt.mp hchecked
                · exact hbound

/-! ### The handler -/

theorem loadPayCreditors_ok {result : StakePool × CreditList} (h : D.Represents chain.ledger s)
    (hkey : a.stakePool.key = D.poolKey)
    (hload : loadPayCreditors D.programs D.programId chain a = .ok result) :
    result = (s.pool, s.creditList) ∧ PayAccounts D s a ∧
      chain.clock.epoch ≤ s.pool.lastUpdateEpoch := by
  simp only [loadPayCreditors, bind_eq_ok, require_eq_ok, pure_eq_ok] at hload
  obtain ⟨pool, hpool, -, htoken, list, hlist, -, hcredit, _, hwithdraw, _, hreserve, _, hfresh,
    rfl⟩ := hload
  obtain rfl := h.load_pool hkey hpool
  obtain ⟨hlistKey, rfl⟩ := h.load_credits hlist
  rw [hkey] at hwithdraw hreserve
  refine ⟨rfl, ⟨?_, h.withdraw_checked hwithdraw, hreserve, hcredit, hlistKey⟩,
    UInt64.not_lt.mp hfresh⟩
  rw [← htoken]
  exact h.wired.token_program

/-- What a successful `PayCreditors` did. -/
structure PayRun (D : Deployment) (chain : Chain) (s : PoolState) (users : List AccountInfo)
    (paid : List Payment) (lost credits' : List CreditRecord) (reserve' : UInt64) (L' : Ledger) :
    Prop where
  settled : paid.map (fun payment => payment.credit) =
    s.pool.affordable (lamportsAvailable chain D.reserveKey) 0
      (payable chain.ledger (s.creditList.credits.take users.length))
  perm : List.Perm s.creditList.credits
    (paid.map (fun payment => payment.credit) ++ credits' ++ lost)
  lost_iff : lost = [] ↔ s.creditList.credits.length ≤ users.length ∨
    RunsShort (lamportsAvailable chain D.reserveKey) chain.ledger s.pool 0 users
      s.creditList.credits
  fresh : chain.clock.epoch ≤ s.pool.lastUpdateEpoch
  spent : (∀ user ∈ users, user.key ≠ D.reserveKey) →
    ∃ n : Nat, s.reserve.toNat = reserve'.toNat + n ∧
      n ≤ (lamportsAvailable chain D.reserveKey).toNat
  untouched : paid = [] → ∀ k, (L' k).owner = (chain.ledger k).owner ∧
    (L' k).lamports = (chain.ledger k).lamports
  idle : paid = [] → lost = [] → ∀ n,
    s.pool.affordable (lamportsAvailable chain D.reserveKey) 0
      (payable chain.ledger (credits'.take n)) = []

theorem payCreditors_ok {paid : List Payment} (h : D.Represents chain.ledger s)
    (ha : D.Addressed accounts)
    (hrun : payCreditors D.programs D.programId accounts chain = .ok (paid, L')) :
    ∃ lost credits' mint' credit' reserve' stakes',
      PayRun D chain s (accounts.drop 10) paid lost credits' reserve' L' ∧
      s.Paid (payable chain.ledger (s.creditList.credits.take (accounts.drop 10).length)) paid
        credits' mint' credit' stakes' ∧
      D.Represents L'
        { s with
          pool := s.pool.payOut paid
          creditList := { s.creditList with credits := credits' }
          mint := mint'
          creditReserve := credit'
          reserve := reserve'
          stakes := stakes' } := by
  simp only [payCreditors, bind_eq_ok, pure_eq_ok, Prod.mk.injEq, Prod.exists] at hrun
  obtain ⟨a, hparse, pool, list, hload, x, rest, hloop, L₁, hlist, L₂, hpool, hpaid, rfl⟩ := hrun
  have haccounts := PayCreditorsAccounts.parse_ok hparse
  obtain ⟨hresult, hacc, hfresh⟩ := loadPayCreditors_ok h (ha.key_eq haccounts) hload
  obtain ⟨rfl, rfl⟩ := Prod.mk.inj hresult
  have husers : accounts.drop 10 = a.users := by
    rw [haccounts]
    rfl
  rw [hacc.reserve] at hloop
  obtain ⟨paid₁, lost, hplan⟩ := payLoop_plan hacc a.users hloop
  obtain ⟨paid₂, mint', credit', reserve', stakes', hpaid₂, h₁, htokens⟩ :=
    payLoop_tokens a.users h hacc hloop
  have hpaid₁ := hplan.record
  simp only [List.nil_append] at hpaid₁ hpaid₂
  obtain rfl : paid = paid₁ := by rw [← hpaid, hpaid₁]
  obtain rfl : paid = paid₂ := by rw [← hpaid, hpaid₂]
  have hperm := hplan.perm
  simp only [List.nil_append] at hperm
  rw [husers]
  have heligible : (paid.map (fun payment => payment.credit)).Sublist
      (payable chain.ledger (s.creditList.credits.take a.users.length)) := by
    rw [hplan.settled]
    exact StakePool.affordable_sublist _ _ _ _
  have hspent : (∀ user ∈ a.users, user.key ≠ D.reserveKey) →
      ∃ n : Nat, s.reserve.toNat = reserve'.toNat + n ∧
        n ≤ (lamportsAvailable chain D.reserveKey).toNat := by
    intro hothers
    obtain ⟨n, hreserve, htotal, hbound⟩ := payLoop_reserve hacc a.users hothers hloop
    have hafter : (x.ledger D.reserveKey).lamports = reserve' := h₁.reserve_eq
    rw [h.reserve_eq, hafter] at hreserve
    refine ⟨n, hreserve, ?_⟩
    rcases hbound with rfl | hbound
    · exact Nat.zero_le _
    · have hlt : n < UInt64.size := by
        have hreserve' := s.reserve.toNat_lt_size
        omega
      have hsum : x.totalAmount.toNat = n := by
        rw [htotal, UInt64.zero_add]
        exact UInt64.toNat_ofNat_of_lt' hlt
      rw [← hsum]
      exact UInt64.le_iff_toNat_le.mp hbound
  have huntouched : paid = [] → ∀ k, (L₂ k).owner = (chain.ledger k).owner ∧
      (L₂ k).lamports = (chain.ledger k).lamports := by
    intro hnone k
    obtain ⟨_, -, -, hL₁⟩ := store_eq_ok.mp hlist
    obtain ⟨_, -, -, hL₂⟩ := store_eq_ok.mp hpool
    rw [← hL₂, ← hL₁, hplan.untouched hnone]
    simp
  refine ⟨lost, x.credits ++ rest ++ x.invalidCredits, mint', credit', reserve', stakes',
    ⟨hplan.settled, hperm, hplan.lost_iff, hfresh, hspent, huntouched,
      fun hnone hkept => hplan.idle hnone hkept rfl rfl⟩,
    ⟨htokens, heligible, hplan.prices, lost, hperm⟩, ?_⟩
  rw [hacc.list] at hlist
  rw [ha.key_eq haccounts] at hpool
  have h₂ := h₁.store_credits hlist rfl
  have hpoolTotal : ({ x.stakePool with
      stakeTotal := x.stakePool.stakeTotal - x.totalAmount } : StakePool) =
      s.pool.payOut paid := by
    rw [hplan.pool, hplan.total]
    simp [StakePool.payOut]
  rw [hpoolTotal] at hpool
  exact h₂.store_pool hpool ⟨rfl, rfl, rfl, rfl, rfl, rfl, rfl, rfl⟩

theorem processPayCreditors_refines (h : D.Represents chain.ledger s)
    (ha : D.Addressed accounts)
    (hrun : processPayCreditors D.programs D.programId accounts chain = .ok L') :
    ∃ s', PoolStep D s (.payCreditors
        (payable chain.ledger (s.creditList.credits.take (accounts.drop 10).length))) s' ∧
      D.Represents L' s' := by
  simp only [processPayCreditors, bind_eq_ok, pure_eq_ok, Prod.exists] at hrun
  obtain ⟨paid, L₁, hpay, rfl⟩ := hrun
  obtain ⟨lost, credits', mint', credit', reserve', stakes', -, hpaid, h'⟩ :=
    payCreditors_ok h ha hpay
  exact ⟨_, .payCreditors _ paid credits' mint' credit' reserve' stakes' hpaid, h'⟩

end Pay

end Tenderize
