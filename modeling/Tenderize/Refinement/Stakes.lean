import Tenderize.Refinement.Accounts

/-!
# The batch handlers refine the pool steps

Each round of a batch is one small step on the books.  The rounds are chained with
`RunList`, and the end of the batch commits the books.
-/

namespace Tenderize

open Support

variable {D : Deployment} {chain : Chain} {accounts : List AccountInfo} {s : PoolState}
  {L L' : Ledger}

/-- The loop variables of a batch as books. -/
def BatchState.batch (D : Deployment) (x : BatchState) : Batch :=
  ⟨D.booksOf x.validators x.ledger, x.changed⟩

theorem BatchState.finish_refines {x : BatchState} {key : Pubkey}
    (h : D.Represents x.ledger (s.recount D x.ledger)) (hkey : key = s.pool.validatorStakeList)
    (hrun : x.finish D.programId s.list key = .ok L') :
    D.Represents L' (s.commit (x.batch D)) := by
  unfold BatchState.finish at hrun
  unfold PoolState.commit
  rw [hkey] at hrun
  by_cases hchanged : x.changed = true
  · rw [if_pos hchanged] at hrun
    rw [if_pos (show (x.batch D).changed = true from hchanged)]
    exact h.store_list hrun rfl
  · rw [if_neg hchanged] at hrun
    rw [if_neg (show ¬(x.batch D).changed = true from hchanged)]
    obtain rfl := Except.ok.inj hrun
    exact h

/-! ## DelegateReserve -/

section Delegate

variable {a : DelegateReserveAccounts} {clock : Clock} {depositBump reserveBump : UInt8}
  {vote stakeAccount : AccountInfo} {stakeBump : UInt8} {index : UInt32} {amount : UInt64}

/-- `amount` lamports went from the reserve to the stake account at `key`. -/
structure PoolState.Staked (s : PoolState) (key : Pubkey) (amount : UInt64)
    (reserve' : UInt64) (stakes' : Pubkey → Nat) : Prop where
  enough : amount ≤ s.reserve
  reserve : reserve' = s.reserve - amount
  stakes : stakes' = Function.update s.stakes key (s.stakes key + amount.toNat)

theorem initStake_refines (h : D.Represents L s) (hreserve : a.reserve.key = D.reserveKey)
    (hrun : initStake D.programs D.programId a clock depositBump reserveBump vote stakeAccount
      stakeBump index amount L = .ok L') :
    ∃ reserve' stakes', D.Represents L' { s with reserve := reserve', stakes := stakes' } ∧
      (stakeAccount.key ≠ D.reserveKey →
        s.Staked stakeAccount.key amount reserve' stakes') := by
  simp only [initStake, bind_eq_ok, require_eq_ok, hreserve] at hrun
  obtain ⟨-, -, L₁, hcreate, L₂, hinit, hdelegate⟩ := hrun
  have h₁ := h.createAccount (.inl splTokenId_ne_stake.symm) hcreate
  refine ⟨_, _, (h₁.stakeInitialize hinit).delegateStake hdelegate, fun hne => ?_⟩
  obtain ⟨henough, hpaid⟩ := D.lawful.createAccount_source hcreate hne.symm
  have hstakes := D.lawful.createAccount_stakes hcreate
  rw [if_pos rfl] at hstakes
  obtain ⟨-, -, -, -, htarget, -, -⟩ := D.lawful.createAccount_ok hcreate
  have hzero : s.stakes stakeAccount.key = 0 := by
    rw [← h.stakes_eq, D.stakesOf_of_ne L hne]
    apply stakeLamports_of_owner
    rw [htarget]
    exact stakeProgramId_ne_system.symm
  rw [h.reserve_eq] at henough hpaid
  refine ⟨henough, hpaid, ?_⟩
  rw [hzero, Nat.zero_add, ← h.stakes_eq]
  apply D.stakesOf_update hne
  intro k _
  rw [hstakes]

theorem redelegateStake_refines (h : D.Represents L s)
    (hreserve : a.reserve.key = D.reserveKey)
    (hrun : redelegateStake D.programs D.programId a clock depositBump reserveBump vote
      stakeAccount amount L = .ok L') :
    ∃ reserve' stakes', D.Represents L' { s with reserve := reserve', stakes := stakes' } ∧
      (stakeAccount.key ≠ D.reserveKey →
        s.Staked stakeAccount.key amount reserve' stakes') := by
  simp only [redelegateStake, bind_eq_ok, hreserve] at hrun
  obtain ⟨L₁, htransfer, hdelegate⟩ := hrun
  have h₁ := h.transfer htransfer
  refine ⟨_, _, h₁.delegateStake hdelegate, fun hne => ?_⟩
  obtain ⟨henough, hpaid⟩ := D.lawful.transfer_source htransfer hne.symm
  obtain ⟨howner₁, -⟩ := D.lawful.delegateStake_ok hdelegate
  have howner : (L stakeAccount.key).owner = stakeProgramId := by
    obtain ⟨-, -, -, -, rfl⟩ := D.lawful.transfer_ok htransfer
    rw [L.moveLamports_owner] at howner₁
    exact howner₁
  have hstakes := D.lawful.transfer_stakes htransfer
  rw [if_pos ⟨hne.symm, howner⟩] at hstakes
  rw [h.reserve_eq] at henough hpaid
  refine ⟨henough, hpaid, ?_⟩
  rw [← h.stakes_eq]
  apply D.stakesOf_update hne
  intro k _
  rw [hstakes, D.stakesOf_of_ne L hne]

/-- The vote accounts of a batch, which come in pairs with the stake accounts. -/
def voteKeys : List AccountInfo → List Pubkey
  | vote :: _ :: rest => vote.key :: voteKeys rest
  | _ => []

theorem delegateOne_refines {available total : UInt64} {instruction : DelegateReserveInstruction}
    {x x' : BatchState} (h : D.Represents x.ledger s) (hpool : a.stakePool.key = D.poolKey)
    (hreserve : a.reserve.key = D.reserveKey)
    (hrun : delegateOne D.programs D.programId a clock depositBump reserveBump available total
      instruction x = .ok x') :
    D.Represents x'.ledger (s.recount D x'.ledger) ∧
      ∃ vote stakeAccount, x.accounts = vote :: stakeAccount :: x'.accounts ∧
        D.DelegateStep (vote.key, instruction) (x.batch D) (x'.batch D) := by
  simp only [delegateOne, bind_eq_ok, require_eq_ok, okOr_eq_ok, Prod.exists,
    nextAccountInfo_eq_ok, checkValidatorStakeAddress_eq_ok] at hrun
  obtain ⟨vote, _, haccounts, stakeAccount, rest, rfl, record, hrecord, -, -, -, hindex, bump,
    ⟨hkey, -⟩, hrun⟩ := hrun
  have hkey' : stakeAccount.key = D.stakeKey vote.key instruction.stakeIndex := by
    rw [hkey, hpool, ← lookup_key hrecord]
    rfl
  have hstaked : ∃ L₁ reserve' stakes',
      x' = ⟨putRecord (record.delegated instruction) x.validators,
        x.changed || instruction.stakeIndex ≥ record.stakeCount, rest, L₁⟩ ∧
      D.Represents L₁ { s with reserve := reserve', stakes := stakes' } ∧
      (stakeAccount.key ≠ D.reserveKey →
        s.Staked stakeAccount.key instruction.amount reserve' stakes') := by
    split at hrun <;> simp only [bind_eq_ok, pure_eq_ok] at hrun
    · obtain ⟨L₁, hcalls, rfl⟩ := hrun
      obtain ⟨reserve', stakes', h₁⟩ := initStake_refines h hreserve hcalls
      exact ⟨L₁, reserve', stakes', rfl, h₁⟩
    · obtain ⟨L₁, hcalls, rfl⟩ := hrun
      obtain ⟨reserve', stakes', h₁⟩ := redelegateStake_refines h hreserve hcalls
      exact ⟨L₁, reserve', stakes', rfl, h₁⟩
  obtain ⟨L₁, reserve', stakes', rfl, h₁, hmoved⟩ := hstaked
  refine ⟨?_, vote, stakeAccount, haccounts, ⟨record, hrecord, ?_, rfl, rfl⟩, fun hne => ?_⟩
  · exact h₁.of_keeps (Keeps.refl _ _) (Keeps.refl _ _) h₁.reserve_not_token
  · exact UInt32.not_lt.mp hindex
  · rw [hkey'] at hmoved
    obtain ⟨henough, hpaid, hstakes⟩ := hmoved hne
    simp only [BatchState.batch, Deployment.booksOf, h.reserve_eq, h.stakes_eq]
    refine ⟨henough, ?_, ?_⟩
    · rw [h₁.reserve_eq]
      exact hpaid
    · rw [h₁.stakes_eq]
      exact hstakes

theorem delegateLoop_refines {available : UInt64} (hpool : a.stakePool.key = D.poolKey)
    (hreserve : a.reserve.key = D.reserveKey) (instructions : List DelegateReserveInstruction) :
    ∀ {total : UInt64} {x x' : BatchState} {s : PoolState}, D.Represents x.ledger s →
      delegateLoop D.programs D.programId a clock depositBump reserveBump available instructions
        total x = .ok x' →
      D.Represents x'.ledger (s.recount D x'.ledger) ∧
        instructions.length ≤ (voteKeys x.accounts).length ∧
        RunList D.DelegateStep ((voteKeys x.accounts).zip instructions) (x.batch D)
          (x'.batch D) := by
  induction instructions with
  | nil =>
      intro total x x' s h hrun
      obtain rfl := Except.ok.inj hrun
      rw [h.recount_eq rfl rfl, List.zip_nil_right]
      exact ⟨h, Nat.zero_le _, .nil _⟩
  | cons instruction instructions ih =>
      intro total x x' s h hrun
      simp only [delegateLoop, bind_eq_ok] at hrun
      obtain ⟨x₁, hone, hrun⟩ := hrun
      obtain ⟨h₁, vote, stakeAccount, haccounts, hstep⟩ :=
        delegateOne_refines h hpool hreserve hone
      obtain ⟨h₂, hlength, htail⟩ := ih h₁ hrun
      rw [haccounts]
      refine ⟨h₂, ?_, .cons hstep htail⟩
      simpa [voteKeys] using hlength

/-- The last sub-instruction checked the sum of all amounts. -/
theorem delegateLoop_total {available : UInt64} (instructions : List DelegateReserveInstruction) :
    ∀ {total : UInt64} {x x' : BatchState},
      delegateLoop D.programs D.programId a clock depositBump reserveBump available instructions
        total x = .ok x' →
      instructions = [] ∨ total + (instructions.map (fun i => i.amount)).sum ≤ available := by
  induction instructions with
  | nil => exact fun _ => .inl rfl
  | cons instruction instructions ih =>
      intro total x x' hrun
      simp only [delegateLoop, bind_eq_ok] at hrun
      obtain ⟨x₁, hone, hrun⟩ := hrun
      rw [List.map_cons, List.sum_cons, ← UInt64.add_assoc]
      rcases ih hrun with rfl | hrest
      · simp only [delegateOne, bind_eq_ok, require_eq_ok, Prod.exists] at hone
        obtain ⟨_, _, -, _, _, -, _, -, -, hchecked, -⟩ := hone
        right
        rw [List.map_nil, List.sum_nil, UInt64.add_zero]
        exact UInt64.not_lt.mp hchecked
      · exact .inr hrest

end Delegate

theorem processDelegateReserve_refines {instructions : List DelegateReserveInstruction}
    (h : D.Represents chain.ledger s) (ha : D.Addressed accounts)
    (hrun : processDelegateReserve D.programs D.programId instructions accounts chain = .ok L') :
    instructions.length ≤ (voteKeys (accounts.drop 12)).length ∧
      (instructions = [] ∨ (instructions.map (fun i => i.amount)).sum ≤
        lamportsAvailable chain D.reserveKey) ∧
      ∃ b, RunList D.DelegateStep ((voteKeys (accounts.drop 12)).zip instructions)
          ⟨s.books, false⟩ b ∧
        D.Represents L' (s.commit b) := by
  simp only [processDelegateReserve, bind_eq_ok, require_eq_ok] at hrun
  obtain ⟨a, hparse, pool, hload, _, -, list, hlist, _, -, _, -, _, hreserve, x, hloop, hfinish⟩ :=
    hrun
  have haccounts := DelegateReserveAccounts.parse_ok hparse
  have hkey := ha.key_eq haccounts
  have hrest : accounts.drop 12 = a.rest := by
    rw [haccounts]
    rfl
  obtain rfl := h.load_pool hkey hload
  obtain ⟨hlistKey, rfl, -⟩ := h.load_list hlist
  rw [hkey] at hreserve
  obtain ⟨h₁, hlength, hsteps⟩ := delegateLoop_refines hkey hreserve instructions h hloop
  have htotal := delegateLoop_total instructions hloop
  rw [UInt64.zero_add, hreserve] at htotal
  unfold BatchState.batch at hsteps
  rw [h.booksOf_eq] at hsteps
  rw [hrest]
  exact ⟨hlength, htotal, x.batch D, hsteps, BatchState.finish_refines h₁ hlistKey hfinish⟩

/-! ## MergeStakes -/

section Merge

variable {a : MergeStakesAccounts} {clock : Clock} {depositBump : UInt8}

theorem mergeOne_refines {instruction : MergeStakesInstruction} {x x' : BatchState}
    (h : D.Represents x.ledger s) (hpool : a.stakePool.key = D.poolKey)
    (hrun : mergeOne D.programs D.programId a clock depositBump instruction x = .ok x') :
    D.Represents x'.ledger (s.recount D x'.ledger) ∧
      D.MergeStep instruction (x.batch D) (x'.batch D) := by
  simp only [mergeOne, bind_eq_ok, require_eq_ok, okOr_eq_ok, Prod.exists,
    nextAccountInfo_eq_ok, checkValidatorStakeAddress_eq_ok] at hrun
  obtain ⟨mainStake, _, -, additionalStake, rest, -, record, hrecord, -, hindex, _, ⟨hmain, -⟩, _,
    ⟨hadditional, -⟩, mainState, -, additionalState, -, hrun⟩ := hrun
  have hvalidator := lookup_key hrecord
  have hmain' : mainStake.key = D.stakeKey instruction.validatorAddress instruction.mainIndex := by
    rw [hmain, hpool, ← hvalidator]
    rfl
  have hadditional' : additionalStake.key =
      D.stakeKey instruction.validatorAddress instruction.additionalIndex := by
    rw [hadditional, hpool, ← hvalidator]
    rfl
  split at hrun
  case isTrue =>
    simp only [pure_eq_ok] at hrun
    subst hrun
    rw [h.recount_eq rfl rfl]
    exact ⟨h, .skipped rfl⟩
  case isFalse =>
    simp only [bind_eq_ok] at hrun
    obtain ⟨L₁, hcall, hrun⟩ := hrun
    rw [hmain', hadditional'] at hcall
    obtain ⟨hmainLt, hadditionalLt⟩ : instruction.mainIndex < instruction.additionalIndex ∧
        instruction.additionalIndex < record.stakeCount := by
      simp only [not_or, ge_iff_le, UInt32.not_le] at hindex
      exact ⟨hindex.2.2, hindex.2.1⟩
    have hledger : x'.ledger = L₁ := by
      split at hrun <;> simp only [pure_eq_ok] at hrun <;> subst hrun <;> rfl
    refine ⟨?_, .merged record hrecord hmainLt hadditionalLt ?_ ?_⟩
    · rw [hledger]
      exact h.merge hcall
    · split at hrun
      case isTrue hlast =>
        simp only [pure_eq_ok] at hrun
        subst hrun
        rw [if_pos hlast]
        exact ⟨rfl, rfl⟩
      case isFalse hlast =>
        simp only [pure_eq_ok] at hrun
        subst hrun
        rw [if_neg hlast]
        exact ⟨rfl, rfl⟩
    · intro hmainNe hadditionalNe
      obtain ⟨-, hstakes⟩ := D.lawful.merge_stakes hcall
      simp only [BatchState.batch, Deployment.booksOf, hledger]
      refine ⟨D.lawful.merge_of_ne hcall hadditionalNe.symm hmainNe.symm, ?_⟩
      rw [D.stakesOf_of_ne _ hmainNe, D.stakesOf_of_ne _ hadditionalNe]
      exact D.stakesOf_update_update hmainNe hadditionalNe hstakes

theorem mergeLoop_refines (hpool : a.stakePool.key = D.poolKey)
    (instructions : List MergeStakesInstruction) :
    ∀ {x x' : BatchState} {s : PoolState}, D.Represents x.ledger s →
      mergeLoop D.programs D.programId a clock depositBump instructions x = .ok x' →
      D.Represents x'.ledger (s.recount D x'.ledger) ∧
        RunList D.MergeStep instructions (x.batch D) (x'.batch D) := by
  induction instructions with
  | nil =>
      intro x x' s h hrun
      obtain rfl := Except.ok.inj hrun
      rw [h.recount_eq rfl rfl]
      exact ⟨h, .nil _⟩
  | cons instruction instructions ih =>
      intro x x' s h hrun
      simp only [mergeLoop, bind_eq_ok] at hrun
      obtain ⟨x₁, hone, hrun⟩ := hrun
      obtain ⟨h₁, hstep⟩ := mergeOne_refines h hpool hone
      obtain ⟨h₂, htail⟩ := ih h₁ hrun
      exact ⟨h₂, .cons hstep htail⟩

end Merge

/-- The loop of the handler as steps over its batch, and what is stored at the end. -/
theorem processMergeStakes_runs {instructions : List MergeStakesInstruction}
    (h : D.Represents chain.ledger s) (ha : D.Addressed accounts)
    (hrun : processMergeStakes D.programs D.programId instructions accounts chain = .ok L') :
    ∃ b, RunList D.MergeStep instructions ⟨s.books, false⟩ b ∧ D.Represents L' (s.commit b) := by
  simp only [processMergeStakes, bind_eq_ok] at hrun
  obtain ⟨a, hparse, pool, hload, list, hlist, _, -, x, hloop, hfinish⟩ := hrun
  have hkey := ha.key_eq (MergeStakesAccounts.parse_ok hparse)
  obtain rfl := h.load_pool hkey hload
  obtain ⟨hlistKey, rfl, -⟩ := h.load_list hlist
  obtain ⟨h₁, hsteps⟩ := mergeLoop_refines hkey instructions h hloop
  unfold BatchState.batch at hsteps
  rw [h.booksOf_eq] at hsteps
  exact ⟨x.batch D, hsteps, BatchState.finish_refines h₁ hlistKey hfinish⟩

theorem processMergeStakes_refines {instructions : List MergeStakesInstruction}
    (h : D.Represents chain.ledger s) (ha : D.Addressed accounts)
    (hrun : processMergeStakes D.programs D.programId instructions accounts chain = .ok L') :
    ∃ s', PoolStep D s (.mergeStakes instructions) s' ∧ D.Represents L' s' := by
  obtain ⟨b, hsteps, h'⟩ := processMergeStakes_runs h ha hrun
  exact ⟨_, .mergeStakes instructions b hsteps, h'⟩

/-! ## Unstake -/

section Unstake

variable {a : UnstakeAccounts} {depositBump : UInt8} {instruction : UnstakeInstruction}

theorem splitAndDeactivate_refines {sourceStake splitStake : AccountInfo} {splitBump : UInt8}
    (h : D.Represents L s) (howner : a.owner.key ≠ D.reserveKey)
    (hrun : splitAndDeactivate D.programs D.programId a chain depositBump instruction sourceStake
      splitStake splitBump L = .ok L') :
    ∃ reserve' stakes', D.Represents L' { s with reserve := reserve', stakes := stakes' } ∧
      ∃ rent : Nat, sourceStake.key ≠ D.reserveKey → splitStake.key ≠ D.reserveKey →
        reserve' = s.reserve ∧ s.stakes splitStake.key = 0 ∧
        instruction.amount.toNat ≤ s.stakes sourceStake.key ∧
        stakes' = Function.update (Function.update s.stakes sourceStake.key
          (s.stakes sourceStake.key - instruction.amount.toNat)) splitStake.key
          (rent + instruction.amount.toNat) := by
  simp only [splitAndDeactivate, deactivate, bind_eq_ok] at hrun
  obtain ⟨L₁, hcreate, L₂, hsplit, hdeactivate⟩ := hrun
  have h₁ := h.createAccount (.inl splTokenId_ne_stake.symm) hcreate
  have h₂ := h₁.splitOnly hsplit
  refine ⟨_, _, h₂.deactivateStake hdeactivate,
    (chain.rent.minimumBalance StakeState.size).toNat, fun hsource htarget => ?_⟩
  have hcreated := D.lawful.createAccount_stakes hcreate
  rw [if_pos rfl] at hcreated
  obtain ⟨hne, hle, hmoved⟩ := D.lawful.splitOnly_stakes hsplit
  rw [hcreated, Function.update_of_ne hne] at hle
  rw [hcreated, Function.update_of_ne hne, Function.update_self] at hmoved
  have hstakes : stakeLamports L₂ = Function.update (Function.update (stakeLamports L)
      sourceStake.key (stakeLamports L sourceStake.key - instruction.amount.toNat))
      splitStake.key
      ((chain.rent.minimumBalance StakeState.size).toNat + instruction.amount.toNat) := by
    rw [hmoved, Function.update_comm hne, Function.update_idem, Function.update_comm hne]
  obtain ⟨-, -, -, -, hnew, -, -⟩ := D.lawful.createAccount_ok hcreate
  rw [← h.stakes_eq, ← h.reserve_eq, D.stakesOf_of_ne L hsource, D.stakesOf_of_ne L htarget]
  refine ⟨?_, ?_, hle, D.stakesOf_update_update hsource htarget hstakes⟩
  · rw [D.lawful.splitOnly_of_ne hsplit hsource.symm htarget.symm,
      D.lawful.createAccount_of_ne hcreate howner.symm htarget.symm]
  · apply stakeLamports_of_owner
    rw [hnew]
    exact stakeProgramId_ne_system.symm

theorem unstakeOne_refines {x x' : BatchState} (h : D.Represents x.ledger s)
    (hpool : a.stakePool.key = D.poolKey) (howner : a.owner.key ≠ D.reserveKey)
    (hrun : unstakeOne D.programs D.programId a chain depositBump instruction x = .ok x') :
    D.Represents x'.ledger (s.recount D x'.ledger) ∧
      D.UnstakeStep instruction (x.batch D) (x'.batch D) := by
  simp only [unstakeOne, bind_eq_ok, require_eq_ok, okOr_eq_ok, Prod.exists,
    nextAccountInfo_eq_ok, checkValidatorStakeAddress_eq_ok] at hrun
  obtain ⟨record, hrecord, -, hsourceIndex, -, hsplitIndex, sourceStake, rest, -, _,
    ⟨hsource, -⟩, hrun⟩ := hrun
  have hvalidator := lookup_key hrecord
  have hsource' : sourceStake.key =
      D.stakeKey instruction.validatorAddress instruction.sourceIndex := by
    rw [hsource, hpool, ← hvalidator]
    rfl
  split at hrun
  case isTrue =>
    simp only [bind_eq_ok, pure_eq_ok, deactivate] at hrun
    obtain ⟨L₁, hcall, rfl⟩ := hrun
    have h₁ := h.deactivateStake hcall
    refine ⟨h₁.of_keeps (Keeps.refl _ _) (Keeps.refl _ _) h₁.reserve_not_token,
      .deactivated ?_⟩
    simp only [BatchState.batch, Deployment.booksOf, h.reserve_eq, h.stakes_eq, h₁.reserve_eq,
      h₁.stakes_eq]
  case isFalse hdifferent =>
    simp only [bind_eq_ok, Prod.exists, nextAccountInfo_eq_ok,
      checkValidatorStakeAddress_eq_ok] at hrun
    obtain ⟨splitStake, rest', -, _, ⟨hsplit, -⟩, L₁, hcalls, hrun⟩ := hrun
    have hsplit' : splitStake.key =
        D.stakeKey instruction.validatorAddress instruction.splitIndex := by
      rw [hsplit, hpool, ← hvalidator]
      rfl
    obtain ⟨reserve', stakes', h₁, rent, hmoved⟩ :=
      splitAndDeactivate_refines h howner hcalls
    rw [hsource', hsplit'] at hmoved
    have hledger : x'.ledger = L₁ := by
      split at hrun <;> simp only [pure_eq_ok] at hrun <;> subst hrun <;> rfl
    refine ⟨?_, .split record rent hrecord (UInt32.not_le.mp hsourceIndex)
      (UInt32.not_lt.mp hsplitIndex) hdifferent ?_ ?_⟩
    · rw [hledger]
      exact h₁.of_keeps (Keeps.refl _ _) (Keeps.refl _ _) h₁.reserve_not_token
    · split at hrun
      case isTrue hlast =>
        simp only [pure_eq_ok] at hrun
        subst hrun
        rw [if_pos hlast]
        exact ⟨rfl, rfl⟩
      case isFalse hlast =>
        simp only [pure_eq_ok] at hrun
        subst hrun
        rw [if_neg hlast]
        exact ⟨rfl, rfl⟩
    · intro hsourceNe hsplitNe
      simp only [BatchState.batch, Deployment.booksOf, hledger, h.reserve_eq, h.stakes_eq,
        h₁.reserve_eq, h₁.stakes_eq]
      exact hmoved hsourceNe hsplitNe

theorem unstakeLoop_refines (hpool : a.stakePool.key = D.poolKey)
    (howner : a.owner.key ≠ D.reserveKey) (instructions : List UnstakeInstruction) :
    ∀ {x x' : BatchState} {s : PoolState}, D.Represents x.ledger s →
      unstakeLoop D.programs D.programId a chain depositBump instructions x = .ok x' →
      D.Represents x'.ledger (s.recount D x'.ledger) ∧
        RunList D.UnstakeStep instructions (x.batch D) (x'.batch D) := by
  induction instructions with
  | nil =>
      intro x x' s h hrun
      obtain rfl := Except.ok.inj hrun
      rw [h.recount_eq rfl rfl]
      exact ⟨h, .nil _⟩
  | cons instruction instructions ih =>
      intro x x' s h hrun
      simp only [unstakeLoop, bind_eq_ok] at hrun
      obtain ⟨x₁, hone, hrun⟩ := hrun
      obtain ⟨h₁, hstep⟩ := unstakeOne_refines h hpool howner hone
      obtain ⟨h₂, htail⟩ := ih h₁ hrun
      exact ⟨h₂, .cons hstep htail⟩

end Unstake

theorem processUnstake_refines {instructions : List UnstakeInstruction}
    (h : D.Represents chain.ledger s) (ha : D.Addressed accounts)
    (hrun : processUnstake D.programs D.programId instructions accounts chain = .ok L') :
    ∃ s', PoolStep D s (.unstake instructions) s' ∧ D.Represents L' s' := by
  simp only [processUnstake, bind_eq_ok] at hrun
  obtain ⟨a, hparse, pool, hload, _, hcheck, list, hlist, _, -, x, hloop, hfinish⟩ := hrun
  have haccounts := UnstakeAccounts.parse_ok hparse
  have hkey := ha.key_eq haccounts
  obtain rfl := h.load_pool hkey hload
  obtain ⟨hlistKey, rfl, -⟩ := h.load_list hlist
  have howner : a.owner.key ≠ D.reserveKey := by
    intro heq
    have hmem : a.owner ∈ accounts := by
      rw [haccounts]
      simp
    have hnot := ha.unsigned a.owner hmem (StakePool.checkOwner_eq_ok.mp hcheck).2
    rw [heq] at hnot
    exact hnot Deployment.reserveKey_isProgramAddress
  obtain ⟨h₁, hsteps⟩ := unstakeLoop_refines hkey howner instructions h hloop
  unfold BatchState.batch at hsteps
  rw [h.booksOf_eq] at hsteps
  exact ⟨_, .unstake instructions (x.batch D) hsteps,
    BatchState.finish_refines h₁ hlistKey hfinish⟩

end Tenderize
