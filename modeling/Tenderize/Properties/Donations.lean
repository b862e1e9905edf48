import Tenderize.Spec.MoveRuns
import Tenderize.Properties.Bystanders
import Tenderize.Properties.DepositPaths

/-!
# Lamports sent to an address of the pool

The program opens token and stake accounts at addresses derived from seeds, and the system
program opens no account where there are lamports already.  Anybody can send lamports to such
an address first.  Whatever happens then, they stay there: no instruction spends them before
the address is counted as a stake account, and it is never counted.
-/

namespace Tenderize

open Support Deployment

variable {D : Deployment} {c c' : Chain} {s s' : PoolState} {op : PoolOp} {k v : Pubkey}
  {n : UInt64} {accounts : List AccountInfo} {pays : Set Pubkey} {L L' : Ledger}
  {es : List Event}

/-! ## Stake accounts that are counted -/

theorem Deployment.countedIn_compl {V : List ValidatorStakeInfo} :
    D.CountedIn {k}ᶜ V ↔
      ∀ r ∈ V, ∀ i, D.stakeKey r.validatorAccount i = k → r.stakeCount ≤ i := by
  constructor
  · intro hV r hr i hi
    exact UInt32.not_lt.mp fun hlt => hV r hr i hlt hi
  · intro hV r hr i hlt hi
    exact UInt32.not_le.mpr hlt (hV r hr i hi)

theorem Deployment.MergeStep.countedIn {instruction : MergeStakesInstruction} {b b' : Batch}
    (h : D.MergeStep instruction b b') (hb : D.CountedIn pays b.books.validators) :
    D.CountedIn pays b'.books.validators := by
  cases h with
  | skipped hsame => rwa [hsame]
  | merged record hfound _ hindex hrecord _ =>
      split at hrecord
      · rw [hrecord.1]
        refine CountedIn.put hb fun i hi => hb record (lookup_mem hfound) i ?_
        -- the index of the merged account is counted, so there is one to take off
        have hone : 1 ≤ record.stakeCount := by
          rw [UInt32.lt_iff_toNat_lt] at hindex
          rw [UInt32.le_iff_toNat_le, UInt32.toNat_one]
          omega
        have hfewer := UInt32.lt_iff_toNat_lt.mp hi
        change _ < (record.stakeCount - 1).toNat at hfewer
        rw [UInt32.toNat_sub_of_le _ _ hone, UInt32.toNat_one] at hfewer
        rw [UInt32.lt_iff_toNat_lt]
        omega
      · rwa [hrecord.1]

theorem PoolState.commit_countedIn {b : Batch} (hs : D.CountedIn pays s.list.validators)
    (hb : D.CountedIn pays b.books.validators) :
    D.CountedIn pays (s.commit b).list.validators := by
  unfold PoolState.commit
  split
  · exact hb
  · exact hs

/-- The step may write another number of stake accounts to a record of a validator than it
found, and a larger one. -/
def PoolOp.Recounts : PoolOp → Prop
  | .updateList => True
  | .delegateReserve _ => True
  | .unstake _ => True
  | _ => False

theorem PoolStep.countedIn (h : PoolStep D s op s') (hop : ¬op.Recounts)
    (hs : D.CountedIn pays s.list.validators) : D.CountedIn pays s'.list.validators := by
  cases h with
  | addValidator validator epoch _ =>
      intro r hr
      rcases List.mem_append.mp hr with hold | hnew
      · exact hs r hold
      · obtain rfl := List.mem_singleton.mp hnew
        exact fun i hi => absurd hi UInt32.not_lt_zero
  | removeValidator validator validators hremove =>
      obtain ⟨r, before, after, hsplit, -, rfl⟩ := removeRecord_ok hremove
      intro r' hr'
      apply hs
      rw [hsplit]
      rcases List.mem_append.mp hr' with hbefore | hafter
      · exact List.mem_append_left _ hbefore
      · exact List.mem_append_right _ (List.mem_cons_of_mem _ hafter)
  | updateList => exact absurd trivial hop
  | delegateReserve => exact absurd trivial hop
  | unstake => exact absurd trivial hop
  | mergeStakes instructions b hrun =>
      refine PoolState.commit_countedIn hs ?_
      exact RunList.invariant (I := fun b : Batch => D.CountedIn pays b.books.validators)
        (fun _ _ _ _ hb hstep => hstep.countedIn hb) hrun hs
  | _ => exact hs

/-! ## Accounts that stay occupied -/

/-- A system account with at least `n` lamports, where nothing can be opened. -/
structure Ledger.Occupied (L : Ledger) (k : Pubkey) (n : UInt64) : Prop where
  owner : (L k).owner = systemProgramId
  positive : n ≠ 0
  lamports : n ≤ (L k).lamports

theorem Ledger.Occupied.ne_zero (h : L.Occupied k n) : (L k).lamports ≠ 0 := by
  intro hzero
  have hle := h.lamports
  rw [hzero] at hle
  exact h.positive (UInt64.le_zero_iff.mp hle)

theorem Ledger.Occupied.of_le (h : L.Occupied k n) (howner : (L' k).owner = systemProgramId)
    (hle : (L k).lamports ≤ (L' k).lamports) : L'.Occupied k n :=
  ⟨howner, h.positive, UInt64.le_trans h.lamports hle⟩

theorem Deployment.Writes.occupied {opens : Prop} (h : D.Writes accounts opens {k}ᶜ L L')
    (hL : L.Occupied k n) : L'.Occupied k n := by
  refine h.keep (I := fun L => L.Occupied k n) ?_ hL
  intro L L' hwrite hoccupied
  obtain ⟨howner, -, hle⟩ := hwrite.wallet (Set.notMem_compl_iff.mpr rfl)
    (fun _ => hoccupied.ne_zero) hoccupied.owner
  exact hoccupied.of_le howner hle

theorem Ledger.Occupied.ne_target {source target owner : Pubkey} {m : UInt64} {space : Nat}
    {sigs : List Pubkey} (h : L.Occupied k n)
    (hcall : D.programs.createAccount source target m space owner sigs L = .ok L') :
    target ≠ k := by
  obtain ⟨-, -, -, -, -, hempty, -⟩ := D.lawful.createAccount_ok hcall
  rintro rfl
  exact h.ne_zero hempty

/-! ## Batches -/

/-- The index is smaller than that of every stake account of the validator at the address. -/
def Deployment.Below (D : Deployment) (k v : Pubkey) (index : UInt32) : Prop :=
  ∀ i, D.stakeKey v i = k → index < i

theorem Deployment.CountedIn.below {V : List ValidatorStakeInfo} {r : ValidatorStakeInfo}
    {index : UInt32} (hV : D.CountedIn {k}ᶜ V)
    (hfound : lookup ValidatorStakeInfo.validatorAccount v V = some r)
    (hindex : index ≤ r.stakeCount) (hne : D.stakeKey v index ≠ k) : D.Below k v index := by
  intro i hi
  have hcount := countedIn_compl.mp hV r (lookup_mem hfound) i (lookup_key hfound ▸ hi)
  refine UInt32.lt_of_le_of_ne (UInt32.le_trans hindex hcount) ?_
  rintro rfl
  exact hne hi

/-- A record that counts one more account, and not the one at the address. -/
theorem Deployment.CountedIn.extend {V : List ValidatorStakeInfo} {r r' : ValidatorStakeInfo}
    {index : UInt32} (hV : D.CountedIn {k}ᶜ V)
    (hfound : lookup ValidatorStakeInfo.validatorAccount v V = some r)
    (hname : r'.validatorAccount = v) (hbelow : D.Below k v index)
    (hcount : r'.stakeCount = index + 1 ∨ r'.stakeCount = r.stakeCount) :
    D.CountedIn {k}ᶜ (putRecord r' V) := by
  refine hV.put ?_
  intro i hi
  rw [hname]
  rcases hcount with hmore | hsame
  · intro heq
    have hindex := UInt32.lt_iff_toNat_lt.mp (hbelow i heq)
    rw [hmore, UInt32.lt_iff_toNat_lt, UInt32.toNat_add, UInt32.toNat_one] at hi
    omega
  · rw [hsame] at hi
    have hcounted := hV r (lookup_mem hfound) i hi
    rwa [lookup_key hfound] at hcounted

section Delegate

variable {a : DelegateReserveAccounts} {clock : Clock} {depositBump reserveBump : UInt8}
  {available : UInt64}

theorem delegateOne_occupied (hpool : a.stakePool.key = D.poolKey) {total : UInt64}
    {instruction : DelegateReserveInstruction} {x x' : BatchState} (hx : x.ledger.Occupied k n)
    (hV : D.CountedIn {k}ᶜ x.validators)
    (hrun : delegateOne D.programs D.programId a clock depositBump reserveBump available total
      instruction x = .ok x') :
    D.CountedIn {k}ᶜ x'.validators ∧
      ∃ vote stake, x.accounts = vote :: stake :: x'.accounts ∧
        D.Below k vote.key instruction.stakeIndex := by
  simp only [delegateOne, bind_eq_ok, require_eq_ok, okOr_eq_ok, Prod.exists,
    nextAccountInfo_eq_ok, checkValidatorStakeAddress_eq_ok, hpool] at hrun
  obtain ⟨vote, _, haccounts, stake, rest, rfl, record, hrecord, -, -, -, hindex, _, ⟨hkey, -⟩,
    hrun⟩ := hrun
  have hname : record.validatorAccount = vote.key := lookup_key hrecord
  have hstake : stake.key = D.stakeKey vote.key instruction.stakeIndex := by
    rw [← hname]
    exact hkey
  have hput : stake.key ≠ k ∧ x'.accounts = rest ∧
      x'.validators = putRecord (record.delegated instruction) x.validators := by
    split at hrun
    · simp only [initStake, bind_eq_ok, pure_eq_ok] at hrun
      obtain ⟨L, ⟨_, -, L₁, hcreate, -⟩, rfl⟩ := hrun
      exact ⟨hx.ne_target hcreate, rfl, rfl⟩
    · next howner =>
        simp only [bind_eq_ok, pure_eq_ok] at hrun
        obtain ⟨L, -, rfl⟩ := hrun
        refine ⟨?_, rfl, rfl⟩
        rintro rfl
        exact howner hx.owner
  obtain ⟨hnew, rfl, hvalidators⟩ := hput
  rw [hstake] at hnew
  rw [hvalidators]
  have hbelow := hV.below hrecord (UInt32.not_lt.mp hindex) hnew
  refine ⟨hV.extend hrecord hname hbelow ?_, vote, stake, haccounts, hbelow⟩
  unfold ValidatorStakeInfo.delegated
  split
  · exact .inl rfl
  · exact .inr rfl

theorem delegateLoop_occupied (hpool : a.stakePool.key = D.poolKey)
    (hreserve : a.reserve.key ≠ k) (instructions : List DelegateReserveInstruction) :
    ∀ {total : UInt64} {x x' : BatchState}, x.ledger.Occupied k n →
      D.CountedIn {k}ᶜ x.validators →
      delegateLoop D.programs D.programId a clock depositBump reserveBump available instructions
        total x = .ok x' →
      D.CountedIn {k}ᶜ x'.validators ∧
        ∀ p ∈ (voteKeys x.accounts).zip instructions, D.Below k p.1 p.2.stakeIndex := by
  induction instructions with
  | nil =>
      intro total x x' _ hV hrun
      obtain rfl := Except.ok.inj hrun
      exact ⟨hV, by simp⟩
  | cons instruction instructions ih =>
      intro total x x' hx hV hrun
      simp only [delegateLoop, bind_eq_ok] at hrun
      obtain ⟨x₁, hone, hrest⟩ := hrun
      obtain ⟨hV₁, vote, stake, haccounts, hbelow⟩ := delegateOne_occupied hpool hx hV hone
      have hwrites : D.Writes (a.reserve :: x.accounts) True {k}ᶜ x.ledger x₁.ledger :=
        (delegateOne_writes trivial hpool List.mem_cons_self hreserve
          (List.subset_cons_self _ _) hone).1
      obtain ⟨hV', hlater⟩ := ih (hwrites.occupied hx) hV₁ hrest
      refine ⟨hV', ?_⟩
      rw [haccounts, voteKeys, List.zip_cons_cons, List.forall_mem_cons]
      exact ⟨hbelow, hlater⟩

end Delegate

section Unstake

variable {a : UnstakeAccounts} {depositBump : UInt8}

theorem unstakeOne_occupied (hpool : a.stakePool.key = D.poolKey)
    {instruction : UnstakeInstruction} {x x' : BatchState} (hx : x.ledger.Occupied k n)
    (hV : D.CountedIn {k}ᶜ x.validators)
    (hrun : unstakeOne D.programs D.programId a c depositBump instruction x = .ok x') :
    D.CountedIn {k}ᶜ x'.validators ∧
      D.Below k instruction.validatorAddress instruction.sourceIndex ∧
      D.Below k instruction.validatorAddress instruction.splitIndex := by
  simp only [unstakeOne, bind_eq_ok, require_eq_ok, okOr_eq_ok, Prod.exists,
    nextAccountInfo_eq_ok, checkValidatorStakeAddress_eq_ok, hpool] at hrun
  obtain ⟨record, hrecord, -, hsource, -, hsplit, source, rest, -, _, -, hrun⟩ := hrun
  have hname : record.validatorAccount = instruction.validatorAddress := lookup_key hrecord
  have hle : instruction.splitIndex ≤ record.stakeCount := UInt32.not_lt.mp hsplit
  have hlt : instruction.sourceIndex < record.stakeCount := UInt32.not_le.mp hsource
  have hcounted := hV record (lookup_mem hrecord) instruction.sourceIndex hlt
  rw [hname] at hcounted
  have hbelowSource := hV.below hrecord (UInt32.le_of_lt hlt) hcounted
  split at hrun
  · next heq =>
      simp only [bind_eq_ok, pure_eq_ok] at hrun
      obtain ⟨L, -, rfl⟩ := hrun
      exact ⟨hV, hbelowSource, heq ▸ hbelowSource⟩
  · simp only [bind_eq_ok, Prod.exists, nextAccountInfo_eq_ok, checkValidatorStakeAddress_eq_ok,
      splitAndDeactivate] at hrun
    obtain ⟨split, rest', rfl, _, ⟨hkey, -⟩, L, ⟨L₁, hcreate, -⟩, hrun⟩ := hrun
    have hstake : split.key = D.stakeKey instruction.validatorAddress instruction.splitIndex := by
      rw [← hname]
      exact hkey
    have hbelow := hV.below hrecord hle (hstake ▸ hx.ne_target hcreate)
    refine ⟨?_, hbelowSource, hbelow⟩
    split at hrun
    · next hnew =>
        obtain rfl := pure_eq_ok.mp hrun
        exact hV.extend hrecord hname hbelow (.inl (congrArg (· + 1) hnew.symm))
    · obtain rfl := pure_eq_ok.mp hrun
      exact hV

theorem unstakeLoop_occupied (hpool : a.stakePool.key = D.poolKey) (howner : a.owner.key ≠ k)
    (instructions : List UnstakeInstruction) :
    ∀ {x x' : BatchState}, x.ledger.Occupied k n → D.CountedIn {k}ᶜ x.validators →
      unstakeLoop D.programs D.programId a c depositBump instructions x = .ok x' →
      D.CountedIn {k}ᶜ x'.validators ∧
        ∀ i ∈ instructions, D.Below k i.validatorAddress i.sourceIndex ∧
          D.Below k i.validatorAddress i.splitIndex := by
  induction instructions with
  | nil =>
      intro x x' _ hV hrun
      obtain rfl := Except.ok.inj hrun
      exact ⟨hV, by simp⟩
  | cons instruction instructions ih =>
      intro x x' hx hV hrun
      simp only [unstakeLoop, bind_eq_ok] at hrun
      obtain ⟨x₁, hone, hrest⟩ := hrun
      obtain ⟨hV₁, hbelow⟩ := unstakeOne_occupied hpool hx hV hone
      have hwrites : D.Writes (a.owner :: x.accounts) True {k}ᶜ x.ledger x₁.ledger :=
        (unstakeOne_writes trivial hpool List.mem_cons_self howner
          (List.subset_cons_self _ _) hone).1
      obtain ⟨hV', hlater⟩ := ih (hwrites.occupied hx) hV₁ hrest
      exact ⟨hV', List.forall_mem_cons.mpr ⟨hbelow, hlater⟩⟩

end Unstake

/-! ## Instructions -/

section Instructions

variable (h : D.Represents c.ledger s) (ha : D.Addressed accounts) (hreserve : D.reserveKey ≠ k)
  (hk : c.ledger.Occupied k n) (hV : D.CountedIn {k}ᶜ s.list.validators)

include h ha hreserve hk hV

theorem processDelegateReserve_occupied {instructions : List DelegateReserveInstruction}
    (hrun : processDelegateReserve D.programs D.programId instructions accounts c = .ok L') :
    (∃ s', D.Represents L' s' ∧ D.CountedIn {k}ᶜ s'.list.validators) ∧
      ∀ p ∈ (voteKeys (accounts.drop 12)).zip instructions, D.Below k p.1 p.2.stakeIndex := by
  simp only [processDelegateReserve, bind_eq_ok, require_eq_ok] at hrun
  obtain ⟨a, hparse, pool, hload, _, -, list, hlist, _, -, _, -, _, hreserveKey, x, hloop,
    hfinish⟩ := hrun
  have haccounts := DelegateReserveAccounts.parse_ok hparse
  have hpool := ha.key_eq haccounts
  have hrest : accounts.drop 12 = a.rest := by
    rw [haccounts]
    rfl
  obtain rfl := h.load_pool hpool hload
  obtain ⟨hlistKey, rfl, -⟩ := h.load_list hlist
  rw [hpool] at hreserveKey
  obtain ⟨h₁, -⟩ := delegateLoop_refines hpool hreserveKey instructions h hloop
  obtain ⟨hV', hbelow⟩ := delegateLoop_occupied hpool (hreserveKey ▸ hreserve) instructions hk hV
    hloop
  rw [hrest]
  exact ⟨⟨_, BatchState.finish_refines h₁ hlistKey hfinish, PoolState.commit_countedIn hV hV'⟩,
    hbelow⟩

theorem processUnstake_occupied (haddress : D.programs.IsProgramAddress D.programId k)
    {instructions : List UnstakeInstruction}
    (hrun : processUnstake D.programs D.programId instructions accounts c = .ok L') :
    (∃ s', D.Represents L' s' ∧ D.CountedIn {k}ᶜ s'.list.validators) ∧
      ∀ i ∈ instructions, D.Below k i.validatorAddress i.sourceIndex ∧
        D.Below k i.validatorAddress i.splitIndex := by
  simp only [processUnstake, bind_eq_ok] at hrun
  obtain ⟨a, hparse, pool, hload, _, hcheck, list, hlist, _, -, x, hloop, hfinish⟩ := hrun
  have haccounts := UnstakeAccounts.parse_ok hparse
  have hpool := ha.key_eq haccounts
  obtain rfl := h.load_pool hpool hload
  obtain ⟨hlistKey, rfl, -⟩ := h.load_list hlist
  have hunsigned : ¬D.programs.IsProgramAddress D.programId a.owner.key :=
    ha.unsigned a.owner (by simp [haccounts]) (StakePool.checkOwner_eq_ok.mp hcheck).2
  have howner : a.owner.key ≠ k := by
    rintro rfl
    exact hunsigned haddress
  have hne : a.owner.key ≠ D.reserveKey := by
    intro heq
    rw [heq] at hunsigned
    exact hunsigned reserveKey_isProgramAddress
  obtain ⟨h₁, -⟩ := unstakeLoop_refines hpool hne instructions h hloop
  obtain ⟨hV', hbelow⟩ := unstakeLoop_occupied hpool howner instructions hk hV hloop
  exact ⟨⟨_, BatchState.finish_refines h₁ hlistKey hfinish, PoolState.commit_countedIn hV hV'⟩,
    hbelow⟩

omit hreserve hk in
theorem processUpdateListBalance_uncounted
    (hrun : processUpdateListBalance D.programs D.programId accounts c = .ok L') :
    ∃ s', D.Represents L' s' ∧ D.CountedIn {k}ᶜ s'.list.validators := by
  simp only [processUpdateListBalance, bind_eq_ok, require_eq_ok, Prod.exists] at hrun
  obtain ⟨a, hparse, pool, hload, list, hlist, _, -, _, hreserveKey, V', L₁, hupdate, hstore⟩ :=
    hrun
  have haccounts := UpdateListBalanceAccounts.parse_ok hparse
  have hpool := ha.key_eq haccounts
  obtain rfl := h.load_pool hpool hload
  obtain ⟨hlistKey, rfl, -⟩ := h.load_list hlist
  rw [hpool] at hreserveKey
  obtain ⟨h₁, -⟩ := updateValidators_refines hpool hreserveKey _ h hupdate
  have hwrites : D.Writes accounts True {k}ᶜ c.ledger L₁ ∧ D.CountedIn {k}ᶜ V' :=
    updateValidators_writes hpool (by simp [haccounts]) _
      (fun info hinfo => by simp [haccounts, hinfo]) hV hupdate
  split at hstore
  · rw [hlistKey] at hstore
    exact ⟨_, h₁.store_list hstore rfl, hwrites.2⟩
  · obtain rfl := Except.ok.inj hstore
    exact ⟨_, h₁, hV⟩

theorem dispatch_occupied (haddress : D.programs.IsProgramAddress D.programId k)
    {instruction : StakePoolInstruction}
    (hrun : dispatch D.programs D.programId instruction accounts c = .ok L') :
    L'.Occupied k n ∧ ∃ s', D.Represents L' s' ∧ D.CountedIn {k}ᶜ s'.list.validators := by
  have hsigners : ∀ key ∈ signers accounts, key ≠ k := by
    rintro key hkey rfl
    simp only [signers, List.mem_map, List.mem_filter] at hkey
    obtain ⟨info, ⟨hmem, hsigner⟩, rfl⟩ := hkey
    exact ha.unsigned info hmem hsigner haddress
  refine ⟨(dispatch_writes h ha hsigners hreserve hV hrun).occupied hk, ?_⟩
  obtain ⟨op, s', hpool, h', hmatch⟩ := dispatch_refines False h ha instruction hrun
  by_cases hop : op.Recounts
  · cases hmatch with
    | updateList => exact processUpdateListBalance_uncounted h ha hV hrun
    | delegateReserve => exact (processDelegateReserve_occupied h ha hreserve hk hV hrun).1
    | unstake => exact (processUnstake_occupied h ha hreserve hk hV haddress hrun).1
    | _ => exact absurd hop id
  · exact ⟨s', h', hpool.countedIn hop hV⟩

end Instructions

/-! ## Runs -/

variable (D k n) in
/-- There are lamports at the address, and it is not that of a stake account of the pool. -/
structure Deployment.Blocked (c : Chain) : Prop where
  occupied : c.ledger.Occupied k n
  uncounted : D.CountedIn {k}ᶜ (D.stateOf c.ledger).list.validators

theorem Deployment.Blocked.run (hb : D.Blocked k n c)
    (haddress : D.OwnAddress k) (hreserve : D.reserveKey ≠ k)
    (h : (D.system D.Outside).Reachable c) (hrun : (D.system D.Outside).Run es c c') :
    D.Blocked k n c' := by
  refine hrun.keeps (fun _ _ _ hstep => hstep) h ?_ hb
  intro e _ x x' hx hstep hbx
  have hrep := reachable_represents hx
  cases e with
  | instruction instruction accounts =>
      obtain ⟨ha, L', hdispatch, rfl⟩ := hstep
      obtain ⟨hoccupied, s', h', hV'⟩ := dispatch_occupied hrep ha hreserve hbx.occupied
        hbx.uncounted haddress.isProgramAddress hdispatch
      rw [h'.eq_stateOf] at hV'
      exact ⟨hoccupied, hV'⟩
  | outside =>
      have hout : D.Outside x x' := hstep
      constructor
      · have howner : (x'.ledger k).owner = (x.ledger k).owner := by
          rcases hout.owners k haddress with hsame | ⟨hzero, -⟩
          · exact hsame
          · exact absurd hzero hbx.occupied.ne_zero
        exact hbx.occupied.of_le (howner.trans hbx.occupied.owner) (hout.lamports k haddress)
      · obtain ⟨s', hpool, h'⟩ := hrep.outside hout False.elim
        have hV' := hpool.countedIn id hbx.uncounted
        rwa [h'.eq_stateOf] at hV'

/-- Deposits of wrapped SOL need the temporary account. -/
theorem processDeposit_source {amount : UInt64} (ha : D.Addressed accounts)
    (hk : c.ledger.Occupied D.tempKey n)
    (hrun : processDeposit D.programs D.programId amount accounts c = .ok L') :
    ∃ source, accounts[3]? = some source ∧ (c.ledger source.key).owner = systemProgramId := by
  simp only [processDeposit, bind_eq_ok, require_eq_ok] at hrun
  obtain ⟨-, -, a, hparse, pool, -, _, -, -, -, -, -, -, -, -, -, _, -, _, -, _, -, L₁, hlamports,
    -⟩ := hrun
  obtain ⟨⟨rest, haccounts⟩, hwrapped⟩ := DepositAccounts.parse_ok hparse
  refine ⟨a.sourceUser, by rw [haccounts]; rfl, ?_⟩
  by_contra hsource
  obtain ⟨⟨temp, nativeMint⟩, hsome⟩ := Option.isSome_iff_exists.mp (hwrapped.mpr hsource)
  simp only [depositLamports, hsome, depositWrapped, bind_eq_ok, require_eq_ok] at hlamports
  obtain ⟨-, htemp, -, -, L₂, hcreate, -⟩ := hlamports
  rw [ha.key_eq haccounts] at htemp
  exact hk.ne_target hcreate htemp

/-- Lamports that somebody sends to the address of the temporary token account stay there, and
from then on no deposit of wrapped SOL succeeds. -/
theorem wrappedDeposits_blocked (h : (D.system D.Outside).Reachable c)
    (hreserve : D.reserveKey ≠ D.tempKey) (hblocked : D.Blocked D.tempKey n c)
    (hrun : (D.system D.Outside).Run es c c') :
    n ≤ (c'.ledger D.tempKey).lamports ∧
    ∀ amount accounts c'',
      (D.system D.Outside).step c' (.instruction (.deposit amount) accounts) c'' →
      ∃ source, accounts[3]? = some source ∧
        (c'.ledger source.key).owner = systemProgramId := by
  have hlater := hblocked.run (.authority .temp) hreserve h hrun
  refine ⟨hlater.occupied.lamports, ?_⟩
  rintro amount accounts c'' ⟨ha, L', hdeposit, -⟩
  exact processDeposit_source ha hlater.occupied hdeposit

section

open Reference

/-- The user sends one lamport to the address of the temporary account, wraps one SOL and
deposits from the wallet; the chains before and after this deposit. -/
def occupiedTempRun : Except ProgramError (Chain × Chain) := do
  let c₀ ← execute anything
    [deposit 100000000 userTokensKey mintKey, .pay userKey deployment.tempKey 1]
  let c ← write wrappedKey wrappedSol c₀
  let c' ← performAll anything [deposit 1000000 userTokensKey mintKey] c
  pure (c, c')

theorem wrappedDeposits_blocked_occupiedTempRun :
    ∃ c c', occupiedTempRun = .ok (c, c') ∧ deployment.Blocked deployment.tempKey 1 c ∧
      1 ≤ (c'.ledger deployment.tempKey).lamports ∧ c'.ledger wrappedKey = wrappedSol ∧
      ∀ L', fromWrapped c' ≠ .ok L' := by
  have hrun : occupiedTempRun.map (fun x => (x.1.ledger deployment.tempKey,
      (deployment.stateOf x.1.ledger).list.validators, x.2.ledger wrappedKey)) =
      .ok (Reference.wallet 1, [], wrappedSol) := by
    decide +kernel
  obtain ⟨⟨c, c'⟩, hc, hfound⟩ := map_eq_ok.mp hrun
  simp only [Prod.mk.injEq] at hfound
  obtain ⟨htemp, hvalidators, hwrapped⟩ := hfound
  have hchains := hc
  simp only [occupiedTempRun, bind_eq_ok, pure_eq_ok, Prod.mk.injEq] at hchains
  obtain ⟨c₀, hc₀, c, hwrite, c', hc', rfl, rfl⟩ := hchains
  have hstart := execute_anything_reachable hc₀
  have hreachable : (deployment.system deployment.Outside).Reachable c :=
    .step (e := .outside) hstart (write_outside (reachable_represents hstart) hwrite)
  have hblocked : deployment.Blocked deployment.tempKey 1 c := by
    refine ⟨⟨by rw [htemp]; rfl, by decide, by rw [htemp]; decide⟩, ?_⟩
    rw [hvalidators]
    exact fun r hr => absurd hr List.not_mem_nil
  obtain ⟨hlamports, hdeposits⟩ := wrappedDeposits_blocked hreachable (by decide) hblocked
    (performAll_run (paysIn_outside _) hc')
  refine ⟨c, c', hc, hblocked, hlamports, hwrapped, ?_⟩
  intro L' hok
  have haddressed : deployment.Addressed (deployment.wrappedDeposit
      (deployment.stateOf c'.ledger) wrappedKey userTokensKey) := by
    refine ⟨⟨_, _, rfl, rfl⟩, ?_⟩
    simp [wrappedDeposit, depositInfos]
  obtain ⟨source, hsource, howner⟩ := hdeposits 1000000000 _ { c' with ledger := L' }
    ⟨haddressed, L', hok, rfl⟩
  obtain rfl : _ = source := Option.some.inj hsource
  rw [hwrapped] at howner
  exact absurd howner (by decide)

end

/-- Lamports that somebody sends to the address of a stake account that is not open yet stay
there, and the validator never gets a stake account with this index or a higher one. -/
theorem newStakes_blocked {i : UInt32} (h : (D.system D.Outside).Reachable c)
    (hreserve : D.reserveKey ≠ D.stakeKey v i) (hblocked : D.Blocked (D.stakeKey v i) n c)
    (hrun : (D.system D.Outside).Run es c c') :
    n ≤ (c'.ledger (D.stakeKey v i)).lamports ∧
    (∀ r ∈ (D.stateOf c'.ledger).list.validators, r.validatorAccount = v → r.stakeCount ≤ i) ∧
    (∀ instructions accounts c'',
      (D.system D.Outside).step c' (.instruction (.delegateReserve instructions) accounts) c'' →
      ∀ p ∈ (voteKeys (accounts.drop 12)).zip instructions, p.1 = v → p.2.stakeIndex < i) ∧
    ∀ instructions accounts c'',
      (D.system D.Outside).step c' (.instruction (.unstake instructions) accounts) c'' →
      ∀ p ∈ instructions, p.validatorAddress = v → p.sourceIndex < i ∧ p.splitIndex < i := by
  have haddress : D.programs.IsProgramAddress D.programId (D.stakeKey v i) :=
    stakeKey_isProgramAddress v i
  have hlater := hblocked.run (.stake v i) hreserve h hrun
  have hrep := reachable_represents (hrun.reachable (fun _ _ _ hstep => hstep) h)
  refine ⟨hlater.occupied.lamports, ?_, ?_, ?_⟩
  · rintro r hr rfl
    exact countedIn_compl.mp hlater.uncounted r hr i rfl
  · rintro instructions accounts c'' ⟨ha, L', hdelegate, -⟩ p hp rfl
    exact (processDelegateReserve_occupied hrep ha hreserve hlater.occupied hlater.uncounted
      hdelegate).2 p hp i rfl
  · rintro instructions accounts c'' ⟨ha, L', hunstake, -⟩ p hp rfl
    obtain ⟨hsource, hsplit⟩ := (processUnstake_occupied hrep ha hreserve hlater.occupied
      hlater.uncounted haddress hunstake).2 p hp
    exact ⟨hsource i rfl, hsplit i rfl⟩

section

open Reference

/-- The user sends one lamport to the address of the second stake account of the validator
before the owner opens the first one. -/
def squattedRun : Except ProgramError (Chain × Chain) := do
  let c ← execute anything
    [.pay userKey reserveKey 1000000000, addValidator validatorKey,
      .pay userKey (deployment.stakeKey validatorKey 1) 1]
  let c' ← performAll anything [delegate [⟨100000000, 0⟩]] c
  pure (c, c')

theorem newStakes_blocked_squattedRun :
    ∃ c c', squattedRun = .ok (c, c') ∧
      deployment.Blocked (deployment.stakeKey validatorKey 1) 1 c ∧
      (deployment.stateOf c'.ledger).list.validators = [⟨validatorKey, 100000000, 0, 1⟩] ∧
      1 ≤ (c'.ledger (deployment.stakeKey validatorKey 1)).lamports ∧
      ∀ c'', ¬(deployment.system deployment.Outside).step c'
        (delegate [⟨100000000, 1⟩]).event c'' := by
  have hrun : squattedRun.map (fun x => (x.1.ledger (deployment.stakeKey validatorKey 1),
      (deployment.stateOf x.1.ledger).list.validators,
      (deployment.stateOf x.2.ledger).list.validators)) =
      .ok (Reference.wallet 1, [⟨validatorKey, 0, 0, 0⟩], [⟨validatorKey, 100000000, 0, 1⟩]) := by
    decide +kernel
  obtain ⟨⟨c, c'⟩, hc, hfound⟩ := map_eq_ok.mp hrun
  simp only [Prod.mk.injEq] at hfound
  obtain ⟨hstake, hbefore, hafter⟩ := hfound
  have hchains := hc
  simp only [squattedRun, bind_eq_ok, pure_eq_ok, Prod.mk.injEq] at hchains
  obtain ⟨c, hc₁, c', hc₂, rfl, rfl⟩ := hchains
  have hblocked : deployment.Blocked (deployment.stakeKey validatorKey 1) 1 c := by
    refine ⟨⟨by rw [hstake]; rfl, by decide, by rw [hstake]; decide⟩, ?_⟩
    rw [hbefore]
    intro r hr i hi
    obtain rfl := List.mem_singleton.mp hr
    exact absurd hi UInt32.not_lt_zero
  obtain ⟨hlamports, -, hdelegations, -⟩ := newStakes_blocked (execute_anything_reachable hc₁)
    (by decide) hblocked (performAll_run (paysIn_outside _) hc₂)
  refine ⟨c, c', hc, hblocked, hafter, hlamports, ?_⟩
  intro c'' hstep
  have hindex := hdelegations _ _ c'' hstep (validatorKey, ⟨100000000, 1⟩)
    (List.mem_singleton.mpr rfl) rfl
  exact absurd hindex (by decide)

end

end Tenderize
