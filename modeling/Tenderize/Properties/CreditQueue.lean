import Tenderize.Reference.Pool

/-!
# The queue of credits

What happens to the records of the credit list and to the tokens behind them.
-/

namespace Tenderize

open Support PoolState

variable {D : Deployment} {chain : Chain} {accounts : List AccountInfo} {s s' : PoolState}
  {L' : Ledger}

/-! ## PayCreditors and the records -/

/-- Every record is either paid or still there, and the queue shrinks by the tokens that
were burned. -/
structure CreditsConserved (before after : PoolState) (paid : List Payment) : Prop where
  records : List.Perm before.creditList.credits
    (paid.map (fun payment => payment.credit) ++ after.creditList.credits)
  tokens : ∃ burned,
    before.mint.supply.toNat = after.mint.supply.toNat + burned ∧
    before.creditReserve.amount.toNat = after.creditReserve.amount.toNat + burned ∧
    queued before.creditList.credits = queued after.creditList.credits + burned

/-- The loop drops the record it has just taken when the user accounts end first, unless
it stopped before at a record it could not afford. -/
theorem payCreditors_conserves_iff {paid : List Payment} (h : D.Represents chain.ledger s)
    (ha : D.Addressed accounts)
    (hrun : payCreditors D.programs D.programId accounts chain = .ok (paid, L')) :
    CreditsConserved s (D.stateOf L') paid ↔
      s.creditList.credits.length ≤ (accounts.drop 10).length ∨
        RunsShort (lamportsAvailable chain D.reserveKey) chain.ledger s.pool 0
          (accounts.drop 10) s.creditList.credits := by
  obtain ⟨lost, credits', mint', credit', reserve', stakes', hplan, hpaid, h'⟩ :=
    payCreditors_ok h ha hrun
  rw [← h'.eq_stateOf, ← hplan.lost_iff]
  constructor
  · intro hconserved
    have hlength := hconserved.records.length_eq
    have hsplit := hplan.perm.length_eq
    simp only [List.length_append, List.length_map] at hlength hsplit
    apply List.eq_nil_of_length_eq_zero
    omega
  · intro hnone
    have hperm := hplan.perm
    rw [hnone, List.append_nil] at hperm
    refine ⟨hperm, burnedTokens paid, hpaid.supply, hpaid.balance, ?_⟩
    rw [queued_perm hperm, queued_append, queued_paid, Nat.add_comm]

section

open Reference

/-- One deposit and one credit. -/
def oneCredit : Except ProgramError Chain :=
  execute anything [deposit 100000000 userTokensKey mintKey, credit 1000000 userTokensKey friendKey]

/-- `PayCreditors` after `oneCredit`, with the number of records before and after. -/
def payOneCredit (users : List Pubkey) : Except ProgramError (Nat × Nat × Nat) := do
  let c ← oneCredit
  let (paid, L) ← payCreditors programs programId (payAccounts users) c
  pure ((deployment.stateOf c.ledger).creditList.credits.length, paid.length,
    (deployment.stateOf L).creditList.credits.length)

/-- Without a user account the only record disappears unpaid. -/
theorem payCreditors_drops_record :
    ∃ c paid L', (deployment.system deployment.Outside).Reachable c ∧
      deployment.Addressed (payAccounts []) ∧
      payCreditors programs programId (payAccounts []) c = .ok (paid, L') ∧
      ¬CreditsConserved (deployment.stateOf c.ledger) (deployment.stateOf L') paid := by
  have hrun : payOneCredit [] = .ok (1, 0, 0) := by decide +kernel
  simp only [payOneCredit, bind_eq_ok, pure_eq_ok, Prod.exists, Prod.mk.injEq] at hrun
  obtain ⟨c, hc, paid, L', hpay, hbefore, hpaid, hafter⟩ := hrun
  refine ⟨c, paid, L', execute_anything_reachable hc, addressed_spec (by decide), hpay, ?_⟩
  intro hconserved
  have hlength := hconserved.records.length_eq
  rw [List.length_append, List.length_map] at hlength
  omega

/-- With the account of its target the same record is paid. -/
theorem payCreditors_pays_record :
    ∃ c paid L', oneCredit = .ok c ∧
      payCreditors programs programId (payAccounts [friendKey]) c = .ok (paid, L') ∧
      paid.length = 1 ∧
      CreditsConserved (deployment.stateOf c.ledger) (deployment.stateOf L') paid := by
  have hrun : payOneCredit [friendKey] = .ok (1, 1, 0) := by decide +kernel
  simp only [payOneCredit, bind_eq_ok, pure_eq_ok, Prod.exists, Prod.mk.injEq] at hrun
  obtain ⟨c, hc, paid, L', hpay, hbefore, hpaid, -⟩ := hrun
  refine ⟨c, paid, L', hc, hpay, hpaid, ?_⟩
  have h := reachable_represents (execute_anything_reachable hc)
  apply (payCreditors_conserves_iff h (addressed_spec (by decide)) hpay).mpr
  left
  rw [hbefore]
  decide

end

/-! ## The tokens behind the queue -/

/-- The credit reserve holds every queued token. -/
def PoolState.Backed (s : PoolState) : Prop :=
  queued s.creditList.credits ≤ s.creditReserve.amount.toNat

/-- No caller pays from the credit reserve. -/
def PoolState.PaysFromElsewhere (s : PoolState) (op : PoolOp) : Prop :=
  op.burnFrom? ≠ some s.pool.creditReserve

theorem queued_updateFirst {target : Pubkey} {record : CreditRecord}
    {credits : List CreditRecord} (new : CreditRecord)
    (hrecord : lookup CreditRecord.solTarget target credits = some record) :
    queued (updateFirst CreditRecord.solTarget target new credits) + record.tokenAmount.toNat =
      queued credits + new.tokenAmount.toNat :=
  sum_updateFirst (fun credit => credit.tokenAmount.toNat) hrecord _

theorem queued_addCredit_le {target cancelAuthority : Pubkey} {amount : UInt64}
    {credits credits' : List CreditRecord}
    (h : addCredit target cancelAuthority amount credits = .ok credits') :
    queued credits' ≤ queued credits + amount.toNat := by
  unfold addCredit at h
  split at h
  case h_1 record hrecord =>
    simp only [bind_eq_ok, require_eq_ok, pure_eq_ok] at h
    obtain ⟨-, -, rfl⟩ := h
    have hsum := queued_updateFirst
      { record with tokenAmount := record.tokenAmount + amount } hrecord
    have hadd := toNat_add_le record.tokenAmount amount
    simp only at hsum
    omega
  case h_2 =>
    simp only [bind_eq_ok, require_eq_ok, pure_eq_ok] at h
    obtain ⟨-, -, rfl⟩ := h
    rw [queued_append]
    simp [queued]

theorem queued_filter_add_le {target : Pubkey} {record : CreditRecord}
    {credits : List CreditRecord}
    (hrecord : lookup CreditRecord.solTarget target credits = some record) :
    queued (credits.filter (fun record => record.solTarget ≠ target)) +
      record.tokenAmount.toNat ≤ queued credits := by
  obtain ⟨hkey, before, after, rfl, -⟩ := lookup_eq_some_split hrecord
  have hle : ∀ credits : List CreditRecord,
      queued (credits.filter (fun record => record.solTarget ≠ target)) ≤ queued credits := by
    intro credits
    exact (List.filter_sublist.map _).sum_le_sum (fun _ _ => Nat.zero_le _)
  have hbefore := hle before
  have hafter := hle after
  rw [List.filter_append, queued_append, queued_append]
  have hhead : queued ((record :: after).filter (fun record => record.solTarget ≠ target)) =
      queued (after.filter (fun record => record.solTarget ≠ target)) := by
    rw [List.filter_cons_of_neg (by simp [hkey])]
  have hcons : queued (record :: after) = record.tokenAmount.toNat + queued after := by
    simp [queued]
  omega

theorem queued_removeCredit_le {target : Pubkey} {cancelAuthority : AccountInfo}
    {amount : UInt64} {credits credits' : List CreditRecord}
    (h : removeCredit target cancelAuthority amount credits = .ok credits') :
    queued credits' + amount.toNat ≤ queued credits := by
  unfold removeCredit at h
  split at h
  case h_2 => cases h
  case h_1 record hrecord =>
    simp only [bind_eq_ok, require_eq_ok] at h
    obtain ⟨-, -, -, -, -, hle, h⟩ := h
    split at h
    case isTrue hall =>
      obtain rfl := Except.ok.inj h
      rw [hall]
      exact queued_filter_add_le hrecord
    case isFalse =>
      obtain rfl := Except.ok.inj h
      have hle' := UInt64.not_lt.mp hle
      have hsum := queued_updateFirst
        { record with tokenAmount := record.tokenAmount - amount } hrecord
      have hsub := UInt64.toNat_sub_of_le _ _ hle'
      have hnat := UInt64.le_iff_toNat_le.mp hle'
      simp only at hsum
      omega

theorem PoolStep.backed {op : PoolOp} (hstep : PoolStep D s op s')
    (hpays : s.PaysFromElsewhere op) (h : s.Backed) : s'.Backed := by
  unfold PoolState.Backed at h ⊢
  cases hstep with
  | deposit amount poolAmount mint mint' credit' reserve' hd =>
      exact h.trans (UInt64.le_iff_toNat_le.mp hd.minted.reserve_le)
  | withdraw n stakeAmount burnFrom mint mint' credit' reserve' stakes' hw =>
      have hother := hw.burned.other (fun heq => hpays (congrArg some heq))
      show _ ≤ credit'.amount.toNat
      rw [hother]
      exact h
  | credit amount burnFrom target cancelAuthority credits credit' hadd hmoved =>
      have hne : burnFrom ≠ s.pool.creditReserve := fun heq => hpays (congrArg some heq)
      obtain ⟨hfits, hamount⟩ := hmoved.into hne rfl
      have hqueued := queued_addCredit_le hadd
      show queued credits ≤ credit'.amount.toNat
      rw [hamount, toNat_add_of_lt hfits]
      omega
  | uncredit amount burnFrom target cancelAuthority credits credit' hremove hmoved =>
      have hqueued := queued_removeCredit_le hremove
      show queued credits ≤ credit'.amount.toNat
      by_cases hself : s.pool.creditReserve = burnFrom
      · rw [hmoved.same hself]
        omega
      · obtain ⟨hle, hamount⟩ := hmoved.out hself rfl
        have hsub := UInt64.toNat_sub_of_le _ _ hle
        rw [hamount]
        omega
  | payCreditors eligible paid credits' mint' credit' reserve' stakes' hp =>
      obtain ⟨lost, hperm⟩ := hp.credits
      have hqueued := queued_perm hperm
      rw [queued_append, queued_append, queued_paid] at hqueued
      have hbalance := hp.balance
      show queued credits' ≤ credit'.amount.toNat
      omega
  | outside quiet credit' reserve' stakes' hd =>
      exact h.trans (UInt64.le_iff_toNat_le.mp hd.credit_le)
  | _ => exact h

theorem backed_invariant :
    (D.poolSystem.restrict PoolState.PaysFromElsewhere).Invariant PoolState.Backed where
  init s hs := by
    unfold PoolState.Backed
    rw [hs.credits]
    exact Nat.zero_le _
  step s op s' h hstep := PoolStep.backed hstep.1 hstep.2 h

/-- The `burn_from` account of a `Credit` or `Withdraw` is not the credit reserve. -/
def Deployment.PaysFromElsewhere (D : Deployment) (c : Chain) : Event → Prop
  | .instruction instruction accounts =>
      burnFromAccount instruction accounts ≠ some (D.stateOf c.ledger).pool.creditReserve
  | .outside => True

instance (e : Event) : Decidable (D.PaysFromElsewhere chain e) :=
  match e with
  | .instruction instruction accounts =>
      inferInstanceAs (Decidable
        (burnFromAccount instruction accounts ≠ some (D.stateOf chain.ledger).pool.creditReserve))
  | .outside => instDecidableTrue

theorem Deployment.PaysFromElsewhere.pays {quiet : Prop} {e : Event} {op : PoolOp}
    (h : D.Represents chain.ledger s) (hmatch : Matches quiet chain e s op)
    (hguard : D.PaysFromElsewhere chain e) : s.PaysFromElsewhere op := by
  cases e with
  | instruction instruction accounts =>
      change burnFromAccount instruction accounts ≠ _ at hguard
      rw [← hmatch.burnFrom_eq, ← h.eq_stateOf] at hguard
      exact hguard
  | outside =>
      cases hmatch
      exact nofun

/-- In runs whose callers pay from their own accounts, the credit reserve backs the queue
and every `Credit` brings its tokens. -/
theorem credit_reserve_backs_queue {c : Chain}
    (h : ((D.system D.Outside).restrict D.PaysFromElsewhere).Reachable c) :
    queued (D.stateOf c.ledger).creditList.credits ≤
        (D.stateOf c.ledger).creditReserve.amount.toNat ∧
      ∀ amount accounts c',
        ((D.system D.Outside).restrict D.PaysFromElsewhere).step c
          (.instruction (.credit amount) accounts) c' →
        (D.stateOf c'.ledger).creditReserve.amount.toNat =
          (D.stateOf c.ledger).creditReserve.amount.toNat + amount.toNat := by
  obtain ⟨hs, hbacked⟩ := reachable_invariant False PoolState.PaysFromElsewhere PoolState.Backed
    (fun _ _ hout => hout) False.elim (fun _ _ _ _ hs hmatch hguard => hguard.pays hs hmatch)
    backed_invariant h
  refine ⟨hbacked, ?_⟩
  rintro amount accounts c' ⟨⟨ha, L', hrun, rfl⟩, hguard⟩
  obtain ⟨a, s', hparse, hpool, h'⟩ := processCredit_refines hs ha hrun
  have hmatch : Matches False c (.instruction (.credit amount) accounts)
      (D.stateOf c.ledger) _ := .credit hparse
  have hpays := hguard.pays hs hmatch
  rw [← h'.eq_stateOf]
  cases hpool with
  | credit _ _ target cancelAuthority credits credit' hadd hmoved =>
      have hne : a.burnFrom.key ≠ (D.stateOf c.ledger).pool.creditReserve :=
        fun heq => hpays (congrArg some heq)
      obtain ⟨hfits, hamount⟩ := hmoved.into hne rfl
      show credit'.amount.toNat = _
      rw [hamount, toNat_add_of_lt hfits]

section

open Reference

def queueAndReserve (c : Chain) : Nat × UInt64 :=
  (queued (deployment.stateOf c.ledger).creditList.credits,
    (deployment.stateOf c.ledger).creditReserve.amount)

theorem credit_reserve_backs_oneCredit :
    ∃ c, execute (fun c e => decide (deployment.PaysFromElsewhere c e))
        [deposit 100000000 userTokensKey mintKey, credit 1000000 userTokensKey friendKey] =
          .ok c ∧
      queueAndReserve c = (1000000, 1000000) ∧
      queued (deployment.stateOf c.ledger).creditList.credits ≤
        (deployment.stateOf c.ledger).creditReserve.amount.toNat := by
  have hrun : (execute (fun c e => decide (deployment.PaysFromElsewhere c e))
      [deposit 100000000 userTokensKey mintKey, credit 1000000 userTokensKey friendKey]).map
        queueAndReserve = .ok (1000000, 1000000) := by decide +kernel
  obtain ⟨c, hc, hvalues⟩ := map_eq_ok.mp hrun
  refine ⟨c, hc, hvalues, (credit_reserve_backs_queue (execute_reachable ?_ hc)).1⟩
  intro c e hallowed
  simpa using hallowed

/-- A `Credit` from the credit reserve to itself queues tokens that are not there. -/
theorem credit_from_reserve :
    ∃ c, (deployment.system deployment.Outside).Reachable c ∧
      (deployment.stateOf c.ledger).creditReserve.amount.toNat <
        queued (deployment.stateOf c.ledger).creditList.credits := by
  have hrun : (execute anything [deposit 100000000 userTokensKey mintKey,
      credit 1000000 userTokensKey friendKey, credit 1000000 creditReserveKey friendKey]).map
        queueAndReserve = .ok (2000000, 1000000) := by decide +kernel
  obtain ⟨c, hc, hvalues⟩ := map_eq_ok.mp hrun
  refine ⟨c, execute_anything_reachable hc, ?_⟩
  obtain ⟨hqueued, hreserve⟩ := Prod.mk.inj hvalues
  rw [hqueued, hreserve]
  decide

end

/-! ## Who spends the credit reserve -/

/-- Instructions that redeem or return queued tokens. -/
def StakePoolInstruction.SpendsCredits : StakePoolInstruction → Prop
  | .uncredit _ => True
  | .payCreditors => True
  | _ => False

/-- A `Withdraw` that burns from the credit reserve. -/
def WithdrawsCredits (creditReserve : Pubkey) (instruction : StakePoolInstruction)
    (accounts : List AccountInfo) : Prop :=
  (∃ n, instruction = .withdraw n) ∧
    burnFromAccount instruction accounts = some creditReserve

theorem PoolStep.creditReserve_le {op : PoolOp} (hstep : PoolStep D s op s')
    (huncredit : ∀ amount, op ≠ .uncredit amount) (hpay : ∀ eligible, op ≠ .payCreditors eligible)
    (hwithdraw : ∀ n mint, op ≠ .withdraw n s.pool.creditReserve mint) :
    s.creditReserve.amount ≤ s'.creditReserve.amount := by
  cases hstep with
  | deposit amount poolAmount mint mint' credit' reserve' hd => exact hd.minted.reserve_le
  | withdraw n stakeAmount burnFrom mint mint' credit' reserve' stakes' hw =>
      have hne : burnFrom ≠ s.pool.creditReserve := by
        rintro rfl
        exact hwithdraw n mint rfl
      exact UInt64.le_of_eq (hw.burned.other hne).symm
  | credit amount burnFrom target cancelAuthority credits credit' hadd hmoved =>
      show s.creditReserve.amount ≤ credit'.amount
      by_cases hself : burnFrom = s.pool.creditReserve
      · rw [hmoved.same hself]
        exact UInt64.le_refl _
      · obtain ⟨hfits, hamount⟩ := hmoved.into hself rfl
        rw [hamount, UInt64.le_iff_toNat_le, toNat_add_of_lt hfits]
        omega
  | uncredit amount => exact absurd rfl (huncredit amount)
  | payCreditors eligible => exact absurd rfl (hpay eligible)
  | outside quiet credit' reserve' stakes' hd => exact hd.credit_le
  | _ => exact UInt64.le_refl _

theorem PoolStep.withdraw_creditReserve_lt {n : UInt64} {mint : Pubkey}
    (hstep : PoolStep D s (.withdraw n s.pool.creditReserve mint) s') :
    s'.creditReserve.amount < s.creditReserve.amount := by
  cases hstep with
  | withdraw _ stakeAmount _ _ mint' credit' reserve' stakes' hw =>
      obtain ⟨-, hle, hamount⟩ := hw.burned.reserve rfl
      have hpositive : n.toNat ≠ 0 := fun hzero => hw.positive (UInt64.toNat_inj.mp hzero)
      have hsub := UInt64.toNat_sub_of_le _ _ hle
      have hnat := UInt64.le_iff_toNat_le.mp hle
      show credit'.amount < s.creditReserve.amount
      rw [hamount, UInt64.lt_iff_toNat_lt]
      omega

/-- Besides `Uncredit` and `PayCreditors`, exactly a `Withdraw` that names the credit
reserve as `burn_from` spends it. -/
theorem credit_reserve_kept_iff {instruction : StakePoolInstruction}
    (h : D.Represents chain.ledger s) (ha : D.Addressed accounts)
    (hother : ¬instruction.SpendsCredits)
    (hrun : dispatch D.programs D.programId instruction accounts chain = .ok L') :
    s.creditReserve.amount ≤ (D.stateOf L').creditReserve.amount ↔
      ¬WithdrawsCredits s.pool.creditReserve instruction accounts := by
  obtain ⟨op, s', hstep, h', hmatch⟩ := dispatch_refines False h ha instruction hrun
  rw [← h'.eq_stateOf]
  constructor
  · rintro hle ⟨⟨n, rfl⟩, hburn⟩
    rw [← hmatch.burnFrom_eq] at hburn
    cases hmatch with
    | withdraw hparse =>
        rw [Option.some.inj hburn] at hstep
        exact absurd hle (UInt64.not_le.mpr hstep.withdraw_creditReserve_lt)
  · intro hnot
    apply hstep.creditReserve_le
    · rintro _ rfl
      cases hmatch
      exact hother trivial
    · rintro eligible rfl
      cases hmatch
      exact hother trivial
    · intro n mint hop
      have hburn := hmatch.burnFrom_eq
      rw [hop] at hburn
      cases hmatch with
      | withdraw hparse => exact hnot ⟨⟨_, rfl⟩, hburn.symm⟩
      | _ => cases hop

section

open Reference

/-- The balance of the credit reserve before and after one more action. -/
def reserveAfterCredit (instruction : StakePoolInstruction) (accounts : List AccountInfo) :
    Except ProgramError (UInt64 × UInt64) := do
  let c ← oneCredit
  let L ← dispatch programs programId instruction accounts c
  pure ((deployment.stateOf c.ledger).creditReserve.amount,
    (deployment.stateOf L).creditReserve.amount)

/-- A `Withdraw` redeems the tokens of the creditors for somebody else. -/
theorem withdraw_from_reserve :
    ∃ c L', (deployment.system deployment.Outside).Reachable c ∧
      deployment.Addressed (withdrawAccounts creditReserveKey mintKey) ∧
      dispatch programs programId (.withdraw 1000000)
        (withdrawAccounts creditReserveKey mintKey) c = .ok L' ∧
      (deployment.stateOf L').creditReserve.amount <
        (deployment.stateOf c.ledger).creditReserve.amount := by
  have hrun : reserveAfterCredit (.withdraw 1000000)
      (withdrawAccounts creditReserveKey mintKey) = .ok (1000000, 0) := by decide +kernel
  simp only [reserveAfterCredit, bind_eq_ok, pure_eq_ok, Prod.mk.injEq] at hrun
  obtain ⟨c, hc, L', hrun, hbefore, hafter⟩ := hrun
  refine ⟨c, L', execute_anything_reachable hc, addressed_spec (by decide), hrun, ?_⟩
  rw [hbefore, hafter]
  decide

theorem credit_reserve_kept_userWithdraw :
    ∃ c L', oneCredit = .ok c ∧
      dispatch programs programId (.withdraw 1000000)
        (withdrawAccounts userTokensKey mintKey) c = .ok L' ∧
      (deployment.stateOf c.ledger).creditReserve.amount ≤
        (deployment.stateOf L').creditReserve.amount := by
  have hrun : reserveAfterCredit (.withdraw 1000000) (withdrawAccounts userTokensKey mintKey) =
      .ok (1000000, 1000000) := by decide +kernel
  have hpool : oneCredit.map (fun c => (deployment.stateOf c.ledger).pool.creditReserve) =
      .ok creditReserveKey := by decide +kernel
  simp only [reserveAfterCredit, bind_eq_ok, pure_eq_ok, Prod.mk.injEq] at hrun
  obtain ⟨c, hc, L', hrun, -, -⟩ := hrun
  refine ⟨c, L', hc, hrun, ?_⟩
  have h := reachable_represents (execute_anything_reachable hc)
  have hother : ¬StakePoolInstruction.SpendsCredits (.withdraw 1000000) := not_false
  apply (credit_reserve_kept_iff h (addressed_spec (by decide)) hother hrun).mpr
  rintro ⟨-, hburn⟩
  obtain ⟨c', hc', hkey⟩ := map_eq_ok.mp hpool
  obtain rfl := Except.ok.inj (hc.symm.trans hc')
  rw [hkey] at hburn
  exact absurd hburn (by decide)

end

end Tenderize
