import Tenderize.Properties.Sessions
import Tenderize.Properties.Payout
import Tenderize.Properties.Records

/-!
# Paying all creditors from the client

`payAllCreditors` of the client pays the first thirty creditors again and again, until the queue
is empty or has the length that it had before.  The program drops the record after the last one
that it was given a user account for, so a queue of more than thirty loses a record in the first
round, unless the reserve runs short.
-/

namespace Tenderize

open Support PoolState

variable {D : Deployment} {network : Network} {payer : Pubkey} {this : TenderizeProgram}
  {c c' x x' x'' : Chain} {s : PoolState} {paid paid' : List Payment}
  {lost lost' : List CreditRecord}

namespace Deployment

/-- The queue of credits. -/
def queue (D : Deployment) (c : Chain) : List CreditRecord :=
  (D.stateOf c.ledger).creditList.credits

/-- The user accounts of the next round. -/
def users (D : Deployment) (c : Chain) : List AccountInfo :=
  (D.queue c).take 30 |>.map fun record => plainKey record.solTarget

/-- The reserve does not cover the next round. -/
def ShortOfFunds (D : Deployment) (c : Chain) : Prop :=
  RunsShort (lamportsAvailable c D.reserveKey) c.ledger (D.stateOf c.ledger).pool 0 (D.users c)
    (D.queue c)

theorem queue_le_users : (D.queue c).length ≤ (D.users c).length ↔ (D.queue c).length ≤ 30 := by
  simp [users]

end Deployment

/-! ## The instruction -/

/-- The accounts that the client passes. -/
def Deployment.payKeys (D : Deployment) (pool : StakePool) (users : List Pubkey) : List Pubkey :=
  [pool.creditList, D.withdrawKey, D.reserveKey, pool.creditReserve, pool.poolMint, rentId,
    clockId, systemProgramId, splTokenId] ++ users

theorem TenderizeProgram.payCreditorsInstruction_eq {connection : Connection}
    (h : D.Represents c.ledger s) (hshows : connection.reader.Shows c.ledger)
    (hroom : s.creditList.credits.length ≤ maxCreditRecords) (hthis : this.Serves D s.pool) :
    this.payCreditorsInstruction D.programs 30 connection =
      .ok ⟨(D.poolKey :: D.payKeys s.pool
        ((s.creditList.credits.take 30).map CreditRecord.solTarget)).map plainKey,
        D.programId, [15]⟩ := by
  have hstate := readState_represented h hshows hthis.stakePool
  have hcreditors := readCreditors_represented h hshows hroom hthis.stakePool
  simp only [payCreditorsInstruction, bind_eq_ok, pure_eq_ok, okOr_eq_ok]
  refine ⟨[15], rfl, _, hstate, _, rfl, _, hcreditors, ?_⟩
  rw [if_neg (by decide), payCreditorsKeys, getWithdrawAuthority, getReserveAddress,
    hthis.stakePool, hthis.credits, hthis.mint, hthis.programId, ← List.map_take, List.map_map,
    Deployment.payKeys, List.map_cons, List.map_append, List.map_map]
  rfl

/-! ## One round -/

variable (D) in
/-- What happened to the queue: `paid` was paid and burned, `lost` is in no list any more. -/
structure PaysOut (c : Chain) (paid : List Payment) (lost : List CreditRecord) (c' : Chain) :
    Prop where
  records : List.Perm (D.queue c)
    (paid.map (fun payment => payment.credit) ++ D.queue c' ++ lost)
  supply : (D.stateOf c.ledger).mint.supply.toNat =
    (D.stateOf c'.ledger).mint.supply.toNat + burnedTokens paid
  balance : (D.stateOf c.ledger).creditReserve.amount.toNat =
    (D.stateOf c'.ledger).creditReserve.amount.toNat + burnedTokens paid

theorem PaysOut.refl (c : Chain) : PaysOut D c [] [] c :=
  ⟨by simp, rfl, rfl⟩

theorem PaysOut.trans (h : PaysOut D c paid lost x) (h' : PaysOut D x paid' lost' c') :
    PaysOut D c (paid ++ paid') (lost ++ lost') c' where
  records := by
    have hrest :=
      (h'.records.append_left (paid.map fun payment => payment.credit)).append_right lost
    refine h.records.trans (hrest.trans ?_)
    simp only [List.map_append, List.append_assoc]
    exact List.Perm.append_left _ (List.Perm.append_left _ (List.Perm.append_left _
      List.perm_append_comm))
  supply := by
    have hfirst := h.supply
    have hsecond := h'.supply
    simp only [burnedTokens, List.map_append, List.sum_append] at hfirst hsecond ⊢
    omega
  balance := by
    have hfirst := h.balance
    have hsecond := h'.balance
    simp only [burnedTokens, List.map_append, List.sum_append] at hfirst hsecond ⊢
    omega

theorem PaysOut.length_eq (h : PaysOut D c paid lost c') :
    (D.queue c).length = paid.length + (D.queue c').length + lost.length := by
  have hlength := h.records.length_eq
  rwa [List.length_append, List.length_append, List.length_map] at hlength

/-- The client keeps its pool. -/
theorem TenderizeProgram.Serves.payOut {pool : StakePool} (h : this.Serves D pool) :
    this.Serves D (pool.payOut paid) :=
  ⟨h.programId, h.stakePool, h.owner, h.list, h.credits, h.mint⟩

/-- The accounts of the next round. -/
def Deployment.roundAccounts (D : Deployment) (payer : Pubkey) (c : Chain) : List AccountInfo :=
  TransactionItem.accounts [payer] ((D.poolKey :: D.payKeys (D.stateOf c.ledger).pool
    (((D.queue c).take 30).map CreditRecord.solTarget)).map plainKey)

section Rounds

variable (hshows : network.Shows) (hpayer : ¬D.programs.IsProgramAddress D.programId payer)

section Round

variable (h : (D.system D.Outside).Reachable x) (hthis : this.Serves D (D.stateOf x.ledger).pool)

include hshows h hthis

theorem payCreditors_sent : this.payCreditors D.programs network payer 30 x = .ok () x' ↔
    network.Fits (this.payCreditorsInstruction D.programs 30 (network.connection x)) ∧
      ∃ L, dispatch D.programs D.programId .payCreditors (D.roundAccounts payer x) x = .ok L ∧
        x' = { x with ledger := L } := by
  obtain ⟨hrep, hkeys⟩ := keysUnique_invariant.reachable h
  have hbuild := TenderizeProgram.payCreditorsInstruction_eq hrep (hshows x)
    hkeys.credits_length hthis
  rw [hbuild]
  exact TenderizeProgram.send_built hbuild (by rw [signers_plainKey]; simp)

include hpayer in
theorem payCreditors_round
    (hrun : this.payCreditors D.programs network payer 30 x = .ok () x') :
    (D.system D.Outside).Reachable x' ∧ this.Serves D (D.stateOf x'.ledger).pool ∧
      ∃ paid lost, PaysOut D x paid lost x' ∧
        (lost = [] ↔ (D.queue x).length ≤ 30 ∨ D.ShortOfFunds x) ∧
        (paid = [] → lost = [] → D.settles x' (D.users x') = []) := by
  have hrep := reachable_represents h
  obtain ⟨-, L, hdispatch, rfl⟩ := (payCreditors_sent hshows h hthis).mp hrun
  have haddressed : D.Addressed (D.roundAccounts payer x) :=
    TransactionItem.accounts_paid hpayer _
  refine ⟨.step (e := .instruction .payCreditors (D.roundAccounts payer x)) h
    ⟨haddressed, L, hdispatch, rfl⟩, ?_⟩
  change processPayCreditors D.programs D.programId _ x = .ok L at hdispatch
  simp only [processPayCreditors, bind_eq_ok, pure_eq_ok, Prod.exists] at hdispatch
  obtain ⟨paid, L, hpay, rfl⟩ := hdispatch
  obtain ⟨lost, credits', mint', credit', reserve', stakes', hplan, hpaid, h'⟩ :=
    payCreditors_ok hrep haddressed hpay
  -- the handler only counts the user accounts
  have husers : ((D.roundAccounts payer x).drop 10).length = (D.users x).length := by
    simp [Deployment.roundAccounts, TransactionItem.accounts, Deployment.payKeys,
      Deployment.users]
  have hlost := hplan.lost_iff
  unfold RunsShort at hlost
  rw [husers] at hlost
  rw [← Deployment.queue_le_users]
  refine ⟨?_, paid, lost, ⟨?_, ?_, ?_⟩, hlost, ?_⟩
  · rw [← h'.eq_stateOf]
    exact hthis.payOut
  · unfold Deployment.queue
    rw [← h'.eq_stateOf]
    exact hplan.perm
  · rw [← h'.eq_stateOf]
    exact hpaid.supply
  · rw [← h'.eq_stateOf]
    exact hpaid.balance
  · -- nobody is paid, so price, reserve and owners are those of the round
    rintro rfl hkept
    have hsame := hplan.untouched rfl
    have havailable : lamportsAvailable { x with ledger := L } D.reserveKey =
        lamportsAvailable x D.reserveKey := by
      unfold lamportsAvailable
      rw [(hsame D.reserveKey).2]
    have hpool : (D.stateOf x.ledger).pool.payOut [] = (D.stateOf x.ledger).pool := by
      simp [StakePool.payOut]
    unfold Deployment.settles
    rw [havailable, payable_congr fun k => (hsame k).1, ← h'.eq_stateOf]
    change ((D.stateOf x.ledger).pool.payOut []).affordable _ _ _ = []
    rw [hpool]
    exact hplan.idle rfl hkept _

/-- The client learns who is in the queue. -/
theorem readCreditors_shown : network.ask
    (fun connection => this.readCreditors connection.reader) x =
      .ok ((D.queue x).map Creditor.ofStored) x := by
  obtain ⟨hrep, hkeys⟩ := keysUnique_invariant.reachable h
  exact Network.ask_eq_ok.mpr ⟨TenderizeProgram.readCreditors_represented hrep (hshows x)
    hkeys.credits_length hthis.stakePool, rfl⟩

end Round

/-! ## All rounds -/

variable (D) in
/-- What came of a queue, if the rounds ended in `c'` or one of them failed there. -/
structure RoundsDone (c : Chain) (paid : List Payment) (lost : List CreditRecord) (c' : Chain) :
    Prop extends PaysOut D c paid lost c' where
  reachable : (D.system D.Outside).Reachable c'
  kept : (D.queue c).length ≤ 30 → lost = []

variable (D) in
/-- The rounds ended in `c'`, where another one would pay nobody. -/
structure RoundsEnded (c : Chain) (paid : List Payment) (lost : List CreditRecord) (c' : Chain) :
    Prop extends RoundsDone D c paid lost c' where
  dropped : 30 < (D.queue c).length → ¬D.ShortOfFunds c → lost ≠ []
  stuck : D.settles c' (D.users c') = []

theorem RoundsEnded.of_empty (h : (D.system D.Outside).Reachable x) (hempty : D.queue x = []) :
    RoundsEnded D x [] [] x where
  toPaysOut := .refl x
  reachable := h
  kept _ := rfl
  dropped hlong := by simp [hempty] at hlong
  stuck := by
    change (D.stateOf x.ledger).pool.affordable _ 0 (payable _ ((D.queue x).take _)) = []
    rw [hempty, List.take_nil]
    rfl

theorem RoundsDone.after (hpays : PaysOut D x paid lost x')
    (hlost : lost = [] ↔ (D.queue x).length ≤ 30 ∨ D.ShortOfFunds x)
    (hrest : RoundsDone D x' paid' lost' x'') :
    RoundsDone D x (paid ++ paid') (lost ++ lost') x'' where
  toPaysOut := hpays.trans hrest.toPaysOut
  reachable := hrest.reachable
  kept hshort := by
    have hlength := hpays.length_eq
    rw [hlost.mpr (.inl hshort), hrest.kept (by omega), List.append_nil]

include hshows hpayer

/-- The rounds from any point of the loop on. -/
theorem payRounds_outcome : ∀ (fuel : Nat) {x : Chain}, (D.system D.Outside).Reachable x →
    this.Serves D (D.stateOf x.ledger).pool → (D.queue x).length ≤ fuel →
    (∃ x' paid lost, this.payRounds D.programs network payer fuel
        ((D.queue x).map Creditor.ofStored) x = .ok true x' ∧ RoundsEnded D x paid lost x') ∨
      ∃ e x' paid lost, this.payRounds D.programs network payer fuel
        ((D.queue x).map Creditor.ofStored) x = .error e x' ∧ RoundsDone D x paid lost x' := by
  intro fuel
  induction fuel with
  | zero =>
      intro x h hthis hfuel
      have hempty := List.eq_nil_of_length_eq_zero (Nat.le_zero.mp hfuel)
      refine .inl ⟨x, [], [], ?_, .of_empty h hempty⟩
      rw [hempty]
      rfl
  | succ fuel ih =>
      intro x h hthis hfuel
      unfold TenderizeProgram.payRounds
      rw [List.length_map]
      by_cases hempty : D.queue x = []
      · refine .inl ⟨x, [], [], ?_, .of_empty h hempty⟩
        rw [hempty]
        rfl
      · rw [if_pos (List.length_pos_iff.mpr hempty)]
        cases hpay : this.payCreditors D.programs network payer 30 x with
        | error e y =>
            obtain rfl := TenderizeProgram.send_error hpay
            exact .inr ⟨e, y, [], [], run_bind_of_error hpay, .refl y, h, fun _ => rfl⟩
        | ok a y =>
            obtain ⟨hy, hthisy, paid, lost, hpays, hlost, hidle⟩ :=
              payCreditors_round hshows hpayer h hthis hpay
            rw [run_bind_of_ok hpay, run_bind_of_ok (readCreditors_shown hshows hy hthisy),
              List.length_map]
            have hlength := hpays.length_eq
            have hdropped : 30 < (D.queue x).length → ¬D.ShortOfFunds x → lost ≠ [] := by
              intro hlong hfunds hnone
              rcases hlost.mp hnone with hshort | hshort
              · omega
              · exact hfunds hshort
            by_cases hsame : (D.queue y).length = (D.queue x).length
            · -- nobody was paid and nothing was dropped
              obtain rfl : paid = [] := List.eq_nil_of_length_eq_zero (by omega)
              obtain rfl : lost = [] := List.eq_nil_of_length_eq_zero (by omega)
              rw [if_pos hsame]
              exact .inl ⟨y, [], [], rfl, ⟨hpays, hy, fun _ => rfl⟩, hdropped, hidle rfl rfl⟩
            · rw [if_neg hsame]
              rcases ih hy hthisy (by omega) with
                ⟨x', paid', lost', hrest, hended⟩ | ⟨e, x', paid', lost', hrest, hdone⟩
              · refine .inl ⟨x', paid ++ paid', lost ++ lost', hrest,
                  .after hpays hlost hended.toRoundsDone, ?_, hended.stuck⟩
                intro hlong hfunds hnone
                exact hdropped hlong hfunds (List.append_eq_nil_iff.mp hnone).1
              · exact .inr ⟨e, x', paid ++ paid', lost ++ lost', hrest, .after hpays hlost hdone⟩

end Rounds

/-- Paying all creditors ends, or one of its transactions fails.  In both cases every record is
paid, still queued or dropped, and a queue of at most thirty drops none.  At the end a longer
queue that the reserve covered has dropped some, and another round would pay nobody. -/
theorem payAllCreditors_outcome (h : (D.system D.Outside).Reachable c) (hshows : network.Shows)
    (hpayer : ¬D.programs.IsProgramAddress D.programId payer)
    (hthis : this.Serves D (D.stateOf c.ledger).pool) {fuel : Nat}
    (hfuel : (D.queue c).length ≤ fuel) :
    (∃ c' paid lost, this.payAllCreditors D.programs network payer fuel c = .ok true c' ∧
        RoundsEnded D c paid lost c') ∨
      ∃ e c' paid lost, this.payAllCreditors D.programs network payer fuel c = .error e c' ∧
        RoundsDone D c paid lost c' := by
  unfold TenderizeProgram.payAllCreditors
  rw [run_bind_of_ok (readCreditors_shown hshows h hthis)]
  exact payRounds_outcome hshows hpayer fuel h hthis hfuel

section

open Reference

/-- A deposit and three credits. -/
def threeCredits : List Action :=
  [deposit 100000000 userTokensKey mintKey, credit 1000000 userTokensKey friendKey,
    credit 2000000 userTokensKey userKey, credit 3000000 userTokensKey validatorKey]

/-- The keys of the pool, the number of credits, and how many a round leaves. -/
def roundView : Except ProgramError (List Pubkey × Nat × Nat) := do
  let c ← execute anything threeCredits
  let L ← dispatch programs programId .payCreditors (deployment.roundAccounts userKey c) c
  pure (clientKeys (deployment.stateOf c.ledger).pool, (deployment.queue c).length,
    (deployment.queue { c with ledger := L }).length)

theorem payAllCreditors_outcome_threeCredits :
    ∃ c c' paid, execute anything threeCredits = .ok c ∧
      ownerClient.payAllCreditors programs node userKey 3 c = .ok true c' ∧
      deployment.queue c' = [] ∧ paid.length = 3 ∧ PaysOut deployment c paid [] c' := by
  have hrun : roundView = .ok ([ownerKey, listKey, creditListKey, mintKey], 3, 0) := by
    decide +kernel
  simp only [roundView, bind_eq_ok, pure_eq_ok, Prod.mk.injEq] at hrun
  obtain ⟨c, hc, L, hround, hkeys, hbefore, hafter⟩ := hrun
  have hreachable := execute_anything_reachable hc
  have hthis := ownerClient_serves hkeys
  have hpayer : ¬deployment.programs.IsProgramAddress deployment.programId userKey :=
    not_isProgramAddress (by decide)
  have hpay : ownerClient.payCreditors programs node userKey 30 c = .ok () { c with ledger := L } :=
    (payCreditors_sent node_shows hreachable hthis).mpr ⟨node_fits _, L, hround, rfl⟩
  have hempty := List.eq_nil_of_length_eq_zero hafter
  obtain ⟨hreachable', hthis', -⟩ :=
    payCreditors_round node_shows hpayer hreachable hthis hpay
  have hsession : ownerClient.payAllCreditors programs node userKey 3 c =
      .ok true { c with ledger := L } := by
    unfold TenderizeProgram.payAllCreditors
    rw [run_bind_of_ok (readCreditors_shown node_shows hreachable hthis)]
    unfold TenderizeProgram.payRounds
    rw [List.length_map, if_pos (by omega), run_bind_of_ok hpay,
      run_bind_of_ok (readCreditors_shown node_shows hreachable' hthis'), List.length_map,
      if_neg (by omega), hempty]
    rfl
  rcases payAllCreditors_outcome hreachable node_shows hpayer hthis (le_of_eq hbefore) with
    ⟨c', paid, lost, hended, hdone⟩ | ⟨e, c', paid, lost, herror, -⟩
  · obtain ⟨-, rfl⟩ := EStateM.Result.ok.inj (hsession.symm.trans hended)
    obtain rfl := hdone.kept (by omega)
    have hlength := hdone.length_eq
    rw [hbefore, hafter] at hlength
    refine ⟨c, _, paid, hc, hsession, hempty, ?_, hdone.toPaysOut⟩
    simpa using hlength.symm
  · cases hsession.symm.trans herror

end

end Tenderize
