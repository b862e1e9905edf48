import Tenderize.Properties.Records
import Tenderize.Properties.Holdings
import Tenderize.Reference.Pool

/-!
# The floor of the reserve

`Withdraw`, `DelegateReserve` and `PayCreditors` take lamports out of the reserve.  Each
compares what it takes with the reserve it found, and the two batch handlers add their
amounts up with wrapping arithmetic.  The sums cannot wrap as long as every amount really
leaves the reserve.
-/

namespace Tenderize

open Support

variable {D : Deployment} {W : Set Pubkey} {c c' : Chain} {s s' : PoolState} {op : PoolOp}
  {accounts : List AccountInfo} {L' : Ledger}

/-- What the reserve has to keep: `MIN_RESERVE_BALANCE` and the rent of an empty account. -/
def reserveFloor (rent : Rent) : UInt64 :=
  max minReserveBalanceConst (rent.minimumBalance 0)

/-- The rents of an empty account and of a token account add up without overflow. -/
def Rent.Fits (rent : Rent) : Prop :=
  (rent.minimumBalance 0).toNat + (rent.minimumBalance TokenAccount.LEN).toNat < 2 ^ 64

instance (rent : Rent) : Decidable rent.Fits :=
  inferInstanceAs (Decidable (_ < _))

theorem reserveFloor_le_minReserveBalance {rent : Rent} (h : rent.Fits) :
    (reserveFloor rent).toNat ≤ (minReserveBalance rent).toNat := by
  unfold reserveFloor minReserveBalance
  rw [UInt64.toNat_max, UInt64.toNat_max, toNat_add_of_lt h]
  omega

/-- Taking no more than what is available above the minimum leaves the floor. -/
theorem floor_kept {rent : Rent} (hrent : rent.Fits) {before after : UInt64} {n : Nat}
    (hsplit : before.toNat = after.toNat + n)
    (hn : n ≤ (saturatingSub before (minReserveBalance rent)).toNat)
    (hfloor : reserveFloor rent ≤ before) : reserveFloor rent ≤ after := by
  have hle := reserveFloor_le_minReserveBalance hrent
  rw [UInt64.le_iff_toNat_le] at hfloor ⊢
  unfold saturatingSub at hn
  split at hn
  · rename_i henough
    have hsub := UInt64.toNat_sub_of_le _ _ henough
    have henough' := UInt64.le_iff_toNat_le.mp henough
    omega
  · have hzero : (0 : UInt64).toNat = 0 := rfl
    omega

/-! ## Steps of the books -/

section Books

variable (hW : ∀ v ∈ W, ∀ i, D.stakeKey v i ≠ D.reserveKey)

theorem lookup_mem_keys {v : Pubkey} {r : ValidatorStakeInfo} {V : List ValidatorStakeInfo}
    (hfound : lookup ValidatorStakeInfo.validatorAccount v V = some r) :
    v ∈ V.map ValidatorStakeInfo.validatorAccount :=
  List.mem_map.mpr ⟨r, lookup_mem hfound, lookup_key hfound⟩

theorem names_eq_of_stamps {V V' : List ValidatorStakeInfo}
    (h : V'.map ValidatorStakeInfo.stamp = V.map ValidatorStakeInfo.stamp) :
    V'.map ValidatorStakeInfo.validatorAccount = V.map ValidatorStakeInfo.validatorAccount := by
  have hnames := congrArg (List.map Prod.fst) h
  simpa [ValidatorStakeInfo.stamp, Function.comp_def] using hnames

variable (W) in
/-- The validators of the list are in `W`. -/
def NamesIn (V : List ValidatorStakeInfo) : Prop :=
  ∀ v ∈ V.map ValidatorStakeInfo.validatorAccount, v ∈ W

include hW

theorem Deployment.DelegateStep.reserve_add {p : Pubkey × DelegateReserveInstruction}
    {b b' : Batch} (h : D.DelegateStep p b b') (hnames : NamesIn W b.books.validators) :
    b.books.reserve.toNat = b'.books.reserve.toNat + p.2.amount.toNat := by
  obtain ⟨record, hfound, -⟩ := h.record
  obtain ⟨hle, hreserve, -⟩ := h.moved (hW _ (hnames _ (lookup_mem_keys hfound)) _)
  have hsub := UInt64.toNat_sub_of_le _ _ hle
  have hle' := UInt64.le_iff_toNat_le.mp hle
  rw [hreserve]
  omega

theorem Deployment.MergeStep.reserve_eq {instruction : MergeStakesInstruction} {b b' : Batch}
    (h : D.MergeStep instruction b b') (hnames : NamesIn W b.books.validators) :
    b'.books.reserve = b.books.reserve := by
  cases h with
  | skipped hsame => rw [hsame]
  | merged record hfound _ _ _ hmoved =>
      have hv := hnames _ (lookup_mem_keys hfound)
      exact (hmoved (hW _ hv _) (hW _ hv _)).1

theorem Deployment.UnstakeStep.reserve_eq {instruction : UnstakeInstruction} {b b' : Batch}
    (h : D.UnstakeStep instruction b b') (hnames : NamesIn W b.books.validators) :
    b'.books.reserve = b.books.reserve := by
  cases h with
  | deactivated hsame => rw [hsame]
  | split record _ hfound _ _ _ _ hmoved =>
      have hv := hnames _ (lookup_mem_keys hfound)
      exact (hmoved (hW _ hv _) (hW _ hv _)).1

theorem Deployment.RefreshStep.reserve_le {epoch : UInt64} {v : Pubkey} {b b' : Books}
    (h : D.RefreshStep epoch v b b') (hnames : NamesIn W b.validators) :
    b.reserve.toNat ≤ b'.reserve.toNat := by
  obtain ⟨record, balance, count, hfound, -, hscan⟩ := h.record
  have hrun := hscan fun index => hW _ (hnames _ (lookup_mem_keys hfound)) index
  refine hrun.invariant (I := fun x => b.reserve.toNat ≤ x.reserve.toNat) ?_ le_rfl
  intro index _ x x' hx hstep
  cases hstep with
  | live free kept _ hreserve _ _ _ => omega
  | empty _ hreserve _ _ _ => omega

theorem delegateRun_reserve {pairs : List (Pubkey × DelegateReserveInstruction)} {b b' : Batch}
    (h : RunList D.DelegateStep pairs b b') (hnames : NamesIn W b.books.validators) :
    b.books.reserve.toNat =
      b'.books.reserve.toNat + (pairs.map (fun p => p.2.amount.toNat)).sum := by
  have hinv := h.history_invariant
    (I := fun done x => NamesIn W x.books.validators ∧
      b.books.reserve.toNat = x.books.reserve.toNat +
        (done.map (fun p => p.2.amount.toNat)).sum) ?_ [] ⟨hnames, rfl⟩
  · exact hinv.2
  rintro done p x x' ⟨hx, hsum⟩ hstep
  have hadd := hstep.reserve_add hW hx
  constructor
  · unfold NamesIn
    rw [names_eq_of_stamps hstep.stamps]
    exact hx
  · simp only [List.map_append, List.map_cons, List.map_nil, List.sum_append, List.sum_cons,
      List.sum_nil]
    omega

end Books

/-! ## Handlers that take nothing -/

/-- The instruction takes lamports out of the reserve. -/
def PoolOp.Spends : PoolOp → Prop
  | .withdraw _ _ _ => True
  | .delegateReserve _ => True
  | .payCreditors _ => True
  | _ => False

/-- A run that keeps the validators and never lowers the reserve in one step. -/
theorem RunList.reserve_le {E B : Type} {step : E → B → B → Prop}
    {V : B → List ValidatorStakeInfo} {R : B → Nat}
    (hnames : ∀ e b b', step e b b' →
      (V b').map ValidatorStakeInfo.validatorAccount =
        (V b).map ValidatorStakeInfo.validatorAccount)
    (hreserve : ∀ e b b', step e b b' → NamesIn W (V b) → R b ≤ R b')
    {es : List E} {b b' : B} (h : RunList step es b b') (hb : NamesIn W (V b)) : R b ≤ R b' := by
  have hinv := h.invariant (I := fun x => NamesIn W (V x) ∧ R b ≤ R x) ?_ ⟨hb, le_rfl⟩
  · exact hinv.2
  rintro e _ x x' ⟨hx, hle⟩ hstep
  refine ⟨?_, le_trans hle (hreserve e x x' hstep hx)⟩
  unfold NamesIn
  rw [hnames e x x' hstep]
  exact hx

theorem PoolStep.reserve_le (hW : ∀ v ∈ W, ∀ i, D.stakeKey v i ≠ D.reserveKey)
    (h : PoolStep D s op s') (hop : ¬op.Spends) (hnames : NamesIn W s.list.validators) :
    s.reserve.toNat ≤ s'.reserve.toNat := by
  cases h with
  | withdraw => exact absurd trivial hop
  | delegateReserve => exact absurd trivial hop
  | payCreditors => exact absurd trivial hop
  | updateList epoch names b hrun =>
      exact RunList.reserve_le (V := Books.validators)
        (R := fun b => b.reserve.toNat) (fun _ _ _ hstep => hstep.names_eq)
        (fun _ _ _ hstep hin => hstep.reserve_le hW hin) hrun hnames
  | mergeStakes instructions b hrun =>
      exact RunList.reserve_le (V := fun b : Batch => b.books.validators)
        (R := fun b => b.books.reserve.toNat)
        (fun _ _ _ hstep => names_eq_of_stamps hstep.stamps)
        (fun _ _ _ hstep hin => (congrArg UInt64.toNat (hstep.reserve_eq hW hin)).ge) hrun hnames
  | unstake instructions b hrun =>
      exact RunList.reserve_le (V := fun b : Batch => b.books.validators)
        (R := fun b => b.books.reserve.toNat)
        (fun _ _ _ hstep => names_eq_of_stamps hstep.stamps)
        (fun _ _ _ hstep hin => (congrArg UInt64.toNat (hstep.reserve_eq hW hin)).ge) hrun hnames
  | deposit amount poolAmount mint mint' credit' reserve' hdeposit =>
      have hreserve := hdeposit.reserve
      change s.reserve.toNat ≤ reserve'.toNat
      omega
  | outside quiet credit' reserve' stakes' hout =>
      exact UInt64.le_iff_toNat_le.mp hout.reserve_le
  | _ => exact le_rfl

/-! ## Handlers that spend -/

section Spending

variable (h : D.Represents c.ledger s) (ha : D.Addressed accounts) (hrent : c.rent.Fits)
  (hfloor : reserveFloor c.rent ≤ s.reserve)

theorem Deployment.Represents.available_eq (h : D.Represents c.ledger s) :
    lamportsAvailable c D.reserveKey = saturatingSub s.reserve (minReserveBalance c.rent) := by
  unfold lamportsAvailable
  rw [h.reserve_eq]

include h ha

theorem withdraw_floor {n : UInt64}
    (hrun : processWithdraw D.programs D.programId n accounts c = .ok L') :
    reserveFloor c.rent ≤ (L' D.reserveKey).lamports := by
  obtain ⟨a, stakeAmount, L₁, L₂, -, hw⟩ := processWithdraw_ok h ha hrun
  obtain ⟨hconst, hempty⟩ := hw.floor
  obtain ⟨_, hburn⟩ := hw.burn
  obtain ⟨_, htransfer⟩ := hw.transfer
  obtain ⟨t, t', m, -, -, -, -, -, -, -, hL₁⟩ := D.lawful.burn_ok hburn
  have hbefore : (L₁ D.reserveKey).lamports = s.reserve := by
    rw [hL₁, Ledger.setData_lamports, Ledger.setData_lamports, h.reserve_eq]
  have hleft := D.lawful.transfer_source_le htransfer
  rw [hbefore] at hleft
  obtain ⟨data, -, -, rfl⟩ := store_eq_ok.mp hw.store
  have hsub := UInt64.toNat_sub_of_le _ _ hw.enough
  rw [UInt64.le_iff_toNat_le] at hconst hempty ⊢
  unfold reserveFloor
  rw [UInt64.toNat_max, Ledger.setData_lamports]
  omega

include hrent hfloor

theorem delegateReserve_floor {instructions : List DelegateReserveInstruction}
    (hW : ∀ v ∈ W, ∀ i, D.stakeKey v i ≠ D.reserveKey) (hnames : NamesIn W s.list.validators)
    (hrun : processDelegateReserve D.programs D.programId instructions accounts c = .ok L') :
    reserveFloor c.rent ≤ (L' D.reserveKey).lamports := by
  obtain ⟨hlength, htotal, b, hsteps, h'⟩ := processDelegateReserve_refines h ha hrun
  have hsplit := delegateRun_reserve hW hsteps hnames
  have hamounts : ((voteKeys (accounts.drop 12)).zip instructions).map
      (fun p => p.2.amount.toNat) =
      (instructions.map (fun i => i.amount)).map UInt64.toNat := by
    conv_rhs => rw [← List.map_snd_zip hlength]
    simp only [List.map_map]
    rfl
  rw [hamounts] at hsplit
  change s.reserve.toNat = b.books.reserve.toNat + _ at hsplit
  have hafter : (L' D.reserveKey).lamports = b.books.reserve := h'.reserve_eq
  rw [hafter]
  refine floor_kept hrent hsplit ?_ hfloor
  rw [← h.available_eq]
  rcases htotal with rfl | htotal
  · exact Nat.zero_le _
  · have hlt := s.reserve.toNat_lt
    rw [← toNat_sum_of_lt (by omega)]
    exact UInt64.le_iff_toNat_le.mp htotal

theorem payCreditors_floor (hothers : ∀ user ∈ accounts.drop 10, user.key ≠ D.reserveKey)
    (hrun : processPayCreditors D.programs D.programId accounts c = .ok L') :
    reserveFloor c.rent ≤ (L' D.reserveKey).lamports := by
  simp only [processPayCreditors, bind_eq_ok, pure_eq_ok, Prod.exists] at hrun
  obtain ⟨paid, L₁, hpay, rfl⟩ := hrun
  obtain ⟨_, _, _, _, reserve', _, hpayRun, -, h'⟩ := payCreditors_ok h ha hpay
  obtain ⟨n, hsplit, hn⟩ := hpayRun.spent hothers
  have hafter : (L₁ D.reserveKey).lamports = reserve' := h'.reserve_eq
  rw [h.available_eq] at hn
  rw [hafter]
  exact floor_kept hrent hsplit hn hfloor

end Spending

/-! ## Whole runs -/

variable (D) in
/-- Other programs act while the rent sysvar stays as it is. -/
def Deployment.FixedRent (c c' : Chain) : Prop :=
  D.Outside c c' ∧ c'.rent = c.rent

variable (D) in
/-- No user account of a `PayCreditors` is the reserve. -/
def Deployment.PaysOthers : Event → Prop
  | .instruction .payCreditors accounts => ∀ user ∈ accounts.drop 10, user.key ≠ D.reserveKey
  | _ => True

variable (D W) in
/-- Runs in which the reserve is not one of its own creditors. -/
def Deployment.payingOthers : System Chain Event :=
  (D.system D.FixedRent).restrict (fun _ e => e.AddsIn W ∧ D.PaysOthers e)

theorem NamesEffect.namesIn {V V' : List ValidatorStakeInfo}
    (h : NamesEffect op (V.map ValidatorStakeInfo.validatorAccount)
      (V'.map ValidatorStakeInfo.validatorAccount))
    (hadds : op.AddsIn W) (hV : NamesIn W V) : NamesIn W V' := by
  intro v hv
  cases h with
  | added new hop _ heq =>
      rw [heq, List.mem_append, List.mem_singleton] at hv
      rcases hv with hold | rfl
      · exact hV v hold
      · exact hadds v hop
  | fewer hsub => exact hV v (hsub.subset hv)

theorem Matches.not_spends {quiet : Prop} {i : StakePoolInstruction}
    (h : Matches quiet c (.instruction i accounts) s op)
    (hwithdraw : ∀ n, i ≠ .withdraw n) (hdelegate : ∀ l, i ≠ .delegateReserve l)
    (hpay : i ≠ .payCreditors) : ¬op.Spends := by
  cases h <;> simp_all [PoolOp.Spends]

variable (D W) in
/-- The chain holds a pool whose validators are in `W`. -/
def Deployment.HoldsPool (c : Chain) : Prop :=
  D.Represents c.ledger (D.stateOf c.ledger) ∧ NamesIn W (D.stateOf c.ledger).list.validators

theorem dispatch_floor {i : StakePoolInstruction}
    (hW : ∀ v ∈ W, ∀ i, D.stakeKey v i ≠ D.reserveKey) (h : D.Represents c.ledger s)
    (hnames : NamesIn W s.list.validators) (ha : D.Addressed accounts)
    (hguard : D.PaysOthers (.instruction i accounts))
    (hrun : dispatch D.programs D.programId i accounts c = .ok L') (hrent : c.rent.Fits)
    (hfloor : reserveFloor c.rent ≤ s.reserve) :
    reserveFloor c.rent ≤ (L' D.reserveKey).lamports := by
  cases i with
  | withdraw n => exact withdraw_floor h ha hrun
  | delegateReserve instructions =>
      exact delegateReserve_floor h ha hrent hfloor hW hnames hrun
  | payCreditors => exact payCreditors_floor h ha hrent hfloor hguard hrun
  | _ =>
      obtain ⟨op, s', hstep, h', hmatch⟩ := dispatch_refines False h ha _ hrun
      have hop := hmatch.not_spends nofun nofun nofun
      have hle := hstep.reserve_le hW hop hnames
      rw [h'.reserve_eq]
      rw [UInt64.le_iff_toNat_le] at hfloor ⊢
      omega

theorem payingOthers_step {e : Event}
    (hW : ∀ v ∈ W, ∀ i, D.stakeKey v i ≠ D.reserveKey) (hc : D.HoldsPool W c)
    (hstep : (D.payingOthers W).step c e c') :
    D.HoldsPool W c' ∧ c'.rent = c.rent ∧
      (c.rent.Fits → reserveFloor c.rent ≤ (c.ledger D.reserveKey).lamports →
        reserveFloor c.rent ≤ (c'.ledger D.reserveKey).lamports) := by
  obtain ⟨h, hnames⟩ := hc
  obtain ⟨hevent, hadds, hothers⟩ := hstep
  cases e with
  | instruction i accounts =>
      obtain ⟨ha, L', hrun, rfl⟩ := hevent
      obtain ⟨op, s', hpool, h', hmatch⟩ := dispatch_refines False h ha i hrun
      refine ⟨?_, rfl, fun hrent hfloor => ?_⟩
      · unfold Deployment.HoldsPool
        rw [← h'.eq_stateOf]
        exact ⟨h', hpool.namesEffect.namesIn (hmatch.addsIn hadds) hnames⟩
      · rw [h.reserve_eq] at hfloor
        exact dispatch_floor hW h hnames ha hothers hrun hrent hfloor
  | outside =>
      obtain ⟨hout, hrent⟩ := hevent
      obtain ⟨s', hpool, h'⟩ := h.outside hout False.elim
      refine ⟨?_, hrent, fun _ hfloor => ?_⟩
      · unfold Deployment.HoldsPool
        rw [← h'.eq_stateOf]
        exact ⟨h', hpool.namesEffect.namesIn (fun v hv => nomatch hv) hnames⟩
      · exact UInt64.le_trans hfloor (hout.lamports _ D.reserveKey_ownAddress)

theorem payingOthers_holdsPool (hW : ∀ v ∈ W, ∀ i, D.stakeKey v i ≠ D.reserveKey)
    (h : (D.payingOthers W).Reachable c) : D.HoldsPool W c := by
  induction h with
  | init hc =>
      obtain ⟨s, hs, hfresh⟩ := Deployment.Genesis.represents hc
      unfold Deployment.HoldsPool
      rw [← hs.eq_stateOf, hfresh.validators]
      exact ⟨hs, fun v hv => nomatch hv⟩
  | step _ hstep ih => exact (payingOthers_step hW ih hstep).1

/-- Once the reserve holds the floor, it holds the floor in every later state. -/
theorem reserve_floor_kept (hW : ∀ v ∈ W, ∀ i, D.stakeKey v i ≠ D.reserveKey)
    (h : (D.payingOthers W).Reachable c) (hrent : c.rent.Fits)
    (hfloor : reserveFloor c.rent ≤ (c.ledger D.reserveKey).lamports)
    (hlater : Relation.ReflTransGen (fun x x' => ∃ e, (D.payingOthers W).step x e x') c c') :
    reserveFloor c.rent ≤ (c'.ledger D.reserveKey).lamports := by
  have hinv : D.HoldsPool W c' ∧ c'.rent = c.rent ∧
      reserveFloor c.rent ≤ (c'.ledger D.reserveKey).lamports := by
    induction hlater with
    | refl => exact ⟨payingOthers_holdsPool hW h, rfl, hfloor⟩
    | tail _ hstep ih =>
        obtain ⟨hpool, hsame, hold⟩ := ih
        obtain ⟨e, hstep⟩ := hstep
        obtain ⟨hpool', hsame', hkept⟩ := payingOthers_step hW hpool hstep
        rw [hsame] at hkept hsame'
        exact ⟨hpool', hsame', hkept hrent hold⟩
  exact hinv.2.2

section

open Reference

instance (e : Event) : Decidable (D.PaysOthers e) :=
  match e with
  | .instruction i accounts =>
      match i with
      | .payCreditors => inferInstanceAs (Decidable (∀ user ∈ accounts.drop 10, user.key ≠ _))
      | .initializePool _ | .addValidator | .removeValidator | .updateListBalance
      | .updatePoolBalance | .deposit _ | .withdraw _ | .setStakingAuthority | .setOwner
      | .credit _ | .uncredit _ | .delegateReserve _ | .mergeStakes _ | .unstake _ =>
          instDecidableTrue
  | .outside => instDecidableTrue

/-- The events of runs with one validator in which the reserve is not paid. -/
def paysOthers (_ : Chain) (e : Event) : Bool :=
  decide (e.AddsIn {validatorKey} ∧ deployment.PaysOthers e)

theorem paysIn_fixedRent (actions : List Action) : PaysIn deployment.FixedRent actions :=
  fun _ _ _ _ hsource _ _ hrun => ⟨transfer_outside (not_isProgramAddress hsource) hrun, rfl⟩

/-- The floor, and the lamports of the reserve before and after. -/
def floors (c c' : Chain) : UInt64 × UInt64 × UInt64 :=
  (reserveFloor c.rent, (c.ledger reserveKey).lamports, (c'.ledger reserveKey).lamports)

theorem reserve_floor_kept_paidCreditor :
    ∃ c c', execute paysOthers [deposit 100000000 userTokensKey mintKey,
        credit 1000000 userTokensKey friendKey] = .ok c ∧
      perform paysOthers c (.call .payCreditors (payAccounts [friendKey])) = .ok c' ∧
      floors c c' = (1000000, 100000000, 99000000) ∧
      reserveFloor c.rent ≤ (c'.ledger reserveKey).lamports := by
  have hrun : (do
      let c ← execute paysOthers [deposit 100000000 userTokensKey mintKey,
        credit 1000000 userTokensKey friendKey]
      let c' ← perform paysOthers c (.call .payCreditors (payAccounts [friendKey]))
      pure (floors c c', decide c.rent.Fits)) =
        .ok ((1000000, 100000000, 99000000), true) := by
    decide +kernel
  simp only [bind_eq_ok, pure_eq_ok, Prod.mk.injEq, decide_eq_true_eq] at hrun
  obtain ⟨c, hc, c', hpay, hfloors, hfits⟩ := hrun
  refine ⟨c, c', hc, hpay, hfloors, ?_⟩
  have hguard : ∀ c e, paysOthers c e = true →
      e.AddsIn {validatorKey} ∧ deployment.PaysOthers e := fun _ _ h => of_decide_eq_true h
  have hreachable : (deployment.payingOthers {validatorKey}).Reachable c :=
    execute_reachable_in (paysIn_fixedRent _) hguard hc
  have hstep := perform_step (paysIn_fixedRent [.call .payCreditors (payAccounts [friendKey])])
    List.mem_cons_self hguard hpay
  apply reserve_floor_kept (noCollision validatorKey).ne_reserve hreachable hfits _ (.single hstep)
  have hbefore : (reserveFloor c.rent, (c.ledger reserveKey).lamports) = (1000000, 100000000) :=
    congrArg (fun x => (x.1, x.2.1)) hfloors
  obtain ⟨hfloor, hreserve⟩ := Prod.mk.inj hbefore
  change _ ≤ (c.ledger reserveKey).lamports
  rw [hfloor, hreserve]
  decide

/-- A user account with 2^63 + 2^62 lamports to deposit. -/
def richUser : Account := wallet 13835058055282163712

/-- The tokens of that user, approved without a limit. -/
def openApproval : Account :=
  ⟨2039280, splTokenId,
    .tokenAccount
      { mint := mintKey
        owner := userKey
        amount := 0
        delegate := some withdrawKey
        state := .initialized
        isNative := none
        delegatedAmount := 18446744073709551615
        closeAuthority := none
        native_iff := mintKey_not_native }⟩

/-- The user deposits everything and credits 2^62 tokens to the reserve and 2^63 tokens to
the friend. -/
def reserveCredited : Except ProgramError Chain := do
  let c ← execute anything []
  let c ← write userKey richUser c
  let c ← write userTokensKey openApproval c
  performAll anything
    [deposit 13835058055282163712 userTokensKey mintKey,
      credit 4611686018427387904 userTokensKey reserveKey,
      credit 9223372036854775808 userTokensKey friendKey] c

/-- What the accounts of the run hold together. -/
def heldLamports (L : Ledger) : Nat :=
  ((reserveKey :: rows.map Prod.fst).map (fun k => (L k).lamports.toNat)).sum

theorem reserveCredited_reachable (h : reserveCredited = .ok c) :
    (deployment.system deployment.FixedRent).Reachable c := by
  simp only [reserveCredited, bind_eq_ok] at h
  obtain ⟨c₀, hstart, c₁, hwallet, c₂, happroval, hrest⟩ := h
  have hwrite : ∀ {c c' : Chain} {key : Pubkey} {account : Account},
      ((deployment.system deployment.FixedRent).restrict (fun _ _ => True)).Reachable c →
      write key account c = .ok c' →
      ((deployment.system deployment.FixedRent).restrict (fun _ _ => True)).Reachable c' := by
    intro c c' key account hc hrun
    have hpool := reachable_represents (reachable_outside (fun _ _ h => h.1) hc.of_restrict)
    have hout := write_outside hpool hrun
    simp only [write, bind_eq_ok, pure_eq_ok] at hrun
    obtain ⟨-, -, rfl⟩ := hrun
    exact .step (e := .outside) hc ⟨⟨hout, rfl⟩, trivial⟩
  have hall : ∀ c e, anything c e = true → (fun _ _ => True : Chain → Event → Prop) c e :=
    fun _ _ _ => trivial
  have h₀ := execute_reachable_in (paysIn_fixedRent []) hall hstart
  exact (performAll_reachable hall (paysIn_fixedRent _) (hwrite (hwrite h₀ hwallet) happroval)
    hrest).of_restrict

/-- A payment of the reserve to itself leaves its lamports in place but is counted, so that
the sum of the next payment wraps and the whole reserve is paid out. -/
theorem payCreditors_empties_reserve :
    ∃ c L', (deployment.system deployment.FixedRent).Reachable c ∧ c.rent.Fits ∧
      heldLamports c.ledger < 2 ^ 64 ∧
      deployment.Addressed (payAccounts [reserveKey, friendKey]) ∧
      dispatch programs programId .payCreditors (payAccounts [reserveKey, friendKey]) c =
        .ok L' ∧
      reserveFloor c.rent ≤ (c.ledger reserveKey).lamports ∧ (L' reserveKey).lamports = 0 ∧
      ¬reserveFloor c.rent ≤ (L' reserveKey).lamports := by
  have hrun : (do
      let c ← reserveCredited
      let L' ← dispatch programs programId .payCreditors (payAccounts [reserveKey, friendKey]) c
      pure (floors c { c with ledger := L' }, decide c.rent.Fits,
        decide (heldLamports c.ledger < 2 ^ 64))) =
        .ok ((1000000, 13835058055282163712, 0), true, true) := by
    decide +kernel
  simp only [bind_eq_ok, pure_eq_ok, Prod.mk.injEq, decide_eq_true_eq, floors] at hrun
  obtain ⟨c, hc, L', hpay, ⟨hfloor, hbefore, hafter⟩, hfits, hheld⟩ := hrun
  refine ⟨c, L', reserveCredited_reachable hc, hfits, hheld, addressed_spec (by decide), hpay, ?_,
    hafter, ?_⟩
  · rw [hfloor, hbefore]
    decide
  · rw [hfloor, hafter]
    decide

end

end Tenderize
