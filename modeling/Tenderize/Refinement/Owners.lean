import Tenderize.Refinement.Runs

/-!
# Which accounts change their owner

Only `create_account` gives an account to another program, and the handlers create the temp
account and stake accounts of listed validators.  So the reserve stays with the system
program in every run.
-/

namespace Tenderize

open Support

/-- Accounts outside `T` keep their owner. -/
def SameOwners (T : Set Pubkey) (L L' : Ledger) : Prop :=
  ∀ k, k ∉ T → (L' k).owner = (L k).owner

variable {T : Set Pubkey}

namespace SameOwners

variable {L L' L'' : Ledger}

theorem refl (T : Set Pubkey) (L : Ledger) : SameOwners T L L := fun _ _ => rfl

theorem trans (h : SameOwners T L L') (h' : SameOwners T L' L'') : SameOwners T L L'' :=
  fun k hk => (h' k hk).trans (h k hk)

end SameOwners

/-! ## Calls -/

namespace Programs.Lawful

variable {P : Programs} (hP : P.Lawful) {source target account mint authority owner : Pubkey}
  {n : UInt64} {sigs : List Pubkey} {clock : Clock} {L L' : Ledger}

include hP

theorem transfer_owners (h : P.transfer source target n sigs L = .ok L') :
    SameOwners T L L' := by
  obtain ⟨-, -, -, -, rfl⟩ := hP.transfer_ok h
  exact fun k _ => L.moveLamports_owner _ _ k _

theorem createAccount_owners {space : Nat} (hT : target ∈ T)
    (h : P.createAccount source target n space owner sigs L = .ok L') : SameOwners T L L' := by
  obtain ⟨-, -, -, -, -, -, rfl⟩ := hP.createAccount_ok h
  intro k hk
  have hne : k ≠ target := by
    rintro rfl
    exact hk hT
  rw [Ledger.assign_of_ne _ _ _ hne, L.moveLamports_owner]

theorem burn_owners (h : P.burn splTokenId account mint authority n sigs L = .ok L') :
    SameOwners T L L' := by
  obtain ⟨_, _, _, -, -, -, -, -, -, -, rfl⟩ := hP.burn_ok h
  intro k _
  simp

theorem mintTo_owners (h : P.mintTo splTokenId mint account authority n sigs L = .ok L') :
    SameOwners T L L' := by
  obtain ⟨_, _, -, -, -, -, -, -, -, rfl⟩ := hP.mintTo_ok h
  intro k _
  simp

theorem tokenTransfer_owners
    (h : P.tokenTransfer splTokenId source target authority n sigs L = .ok L') :
    SameOwners T L L' := by
  obtain ⟨_, _, -, -, -, -, -, -, ⟨-, rfl⟩ | ⟨-, -, -, _, -, rfl⟩⟩ := hP.tokenTransfer_ok h
  · exact .refl T L'
  · intro k _
    rw [Ledger.setData_owner, Ledger.setData_owner]
    split
    · exact L.moveLamports_owner _ _ _ _
    · rfl

theorem initializeAccount_owners
    (h : P.initializeAccount splTokenId account mint owner L = .ok L') : SameOwners T L L' := by
  obtain ⟨-, _, -, -, rfl⟩ := hP.initializeAccount_ok h
  exact fun k _ => L.setData_owner _ k _

theorem closeAccount_owners
    (h : P.closeAccount splTokenId account target authority sigs L = .ok L') :
    SameOwners T L L' := by
  obtain ⟨-, -, -, _, -, -, rfl⟩ := hP.closeAccount_ok h
  intro k _
  simp

theorem setAccountOwner_owners {newOwner : Pubkey}
    (h : P.setAccountOwner splTokenId account newOwner authority sigs L = .ok L') :
    SameOwners T L L' := by
  obtain ⟨_, _, -, -, -, -, -, -, -, -, rfl⟩ := hP.setAccountOwner_ok h
  exact fun k _ => L.setData_owner _ k _

theorem stakeInitialize_owners {authorized : Authorized}
    (h : P.stakeInitialize account authorized L = .ok L') : SameOwners T L L' := by
  obtain ⟨-, _, rfl⟩ := hP.stakeInitialize_ok h
  exact fun k _ => L.setData_owner _ k _

theorem delegateStake_owners {vote : Pubkey}
    (h : P.delegateStake clock account authority vote sigs L = .ok L') : SameOwners T L L' := by
  obtain ⟨-, -, _, rfl⟩ := hP.delegateStake_ok h
  exact fun k _ => L.setData_owner _ k _

theorem deactivateStake_owners
    (h : P.deactivateStake clock account authority sigs L = .ok L') : SameOwners T L L' := by
  obtain ⟨-, -, _, rfl⟩ := hP.deactivateStake_ok h
  exact fun k _ => L.setData_owner _ k _

theorem splitOnly_owners (h : P.splitOnly source authority n target sigs L = .ok L') :
    SameOwners T L L' := by
  obtain ⟨-, -, -, -, -, -, _, _, rfl⟩ := hP.splitOnly_ok h
  intro k _
  simp

theorem merge_owners (h : P.merge clock target source authority sigs L = .ok L') :
    SameOwners T L L' := by
  obtain ⟨-, -, -, -, -, _, _, rfl⟩ := hP.merge_ok h
  intro k _
  simp

theorem stakeWithdraw_owners {stake withdrawer : Pubkey}
    (h : P.stakeWithdraw clock stake withdrawer target n sigs L = .ok L') :
    SameOwners T L L' := by
  obtain ⟨-, -, -, _, rfl⟩ := hP.stakeWithdraw_ok h
  intro k _
  simp

end Programs.Lawful

theorem store_owners {programId key : Pubkey}
    {write : AccountData → Except ProgramError AccountData} {L L' : Ledger}
    (h : store programId key write L = .ok L') : SameOwners T L L' := by
  simp only [store, bind_eq_ok, pure_eq_ok] at h
  obtain ⟨data, -, -, -, rfl⟩ := h
  exact fun k _ => L.setData_owner _ k _

/-! ## Handlers -/

/-- The address of the temp account. -/
def Deployment.tempKey (D : Deployment) : Pubkey :=
  (D.programs.findProgramAddress [.key D.poolKey, .authority .temp] D.programId).1

variable {D : Deployment} {c : Chain} {s : PoolState} {accounts : List AccountInfo} {L' : Ledger}

variable (D T) in
/-- Stake addresses of the validators are in `T`. -/
def StakesIn (V : List ValidatorStakeInfo) : Prop :=
  ∀ r ∈ V, ∀ i, D.stakeKey r.validatorAccount i ∈ T

theorem StakesIn.found {V : List ValidatorStakeInfo} {v : Pubkey} {r : ValidatorStakeInfo}
    (h : StakesIn T D V)
    (hfound : lookup ValidatorStakeInfo.validatorAccount v V = some r) (i : UInt32) :
    D.stakeKey r.validatorAccount i ∈ T :=
  h r (lookup_mem hfound) i

theorem StakesIn.putRecord {V : List ValidatorStakeInfo} {r r' : ValidatorStakeInfo}
    (h : StakesIn T D V) (hr : r ∈ V) (hname : r'.validatorAccount = r.validatorAccount) :
    StakesIn T D (putRecord r' V) := by
  intro x hx i
  rcases mem_updateFirst hx with rfl | hx
  · rw [hname]
    exact h r hr i
  · exact h x hx i

theorem finish_owners {x : BatchState} {list : ValidatorStakeList} {key : Pubkey}
    (hrun : x.finish D.programId list key = .ok L') : SameOwners T x.ledger L' := by
  unfold BatchState.finish at hrun
  split at hrun
  · exact store_owners hrun
  · obtain rfl := Except.ok.inj hrun
    exact .refl T _

section Delegate

variable {a : DelegateReserveAccounts} {clock : Clock} {depositBump reserveBump : UInt8}
  {available : UInt64}

theorem delegateOne_owners (hpool : a.stakePool.key = D.poolKey) {total : UInt64}
    {instruction : DelegateReserveInstruction} {x x' : BatchState}
    (hx : StakesIn T D x.validators)
    (hrun : delegateOne D.programs D.programId a clock depositBump reserveBump available total
      instruction x = .ok x') :
    SameOwners T x.ledger x'.ledger ∧ StakesIn T D x'.validators := by
  simp only [delegateOne, bind_eq_ok, require_eq_ok, okOr_eq_ok, Prod.exists,
    nextAccountInfo_eq_ok, checkValidatorStakeAddress_eq_ok] at hrun
  obtain ⟨vote, _, -, stake, _, -, record, hrecord, -, -, -, -, _, ⟨hstake, -⟩, hrun⟩ := hrun
  have hT : stake.key ∈ T := by
    rw [hstake, hpool]
    exact hx.found hrecord _
  split at hrun <;> simp only [bind_eq_ok, pure_eq_ok, initStake, redelegateStake] at hrun
  · obtain ⟨L, ⟨_, -, L₁, hcreate, L₂, hinit, hdelegate⟩, rfl⟩ := hrun
    refine ⟨?_, hx.putRecord (lookup_mem hrecord) rfl⟩
    exact ((D.lawful.createAccount_owners hT hcreate).trans
      (D.lawful.stakeInitialize_owners hinit)).trans (D.lawful.delegateStake_owners hdelegate)
  · obtain ⟨L, ⟨L₁, htransfer, hdelegate⟩, rfl⟩ := hrun
    refine ⟨?_, hx.putRecord (lookup_mem hrecord) rfl⟩
    exact (D.lawful.transfer_owners htransfer).trans (D.lawful.delegateStake_owners hdelegate)

theorem delegateLoop_owners (hpool : a.stakePool.key = D.poolKey)
    (instructions : List DelegateReserveInstruction) :
    ∀ {total : UInt64} {x x' : BatchState}, StakesIn T D x.validators →
      delegateLoop D.programs D.programId a clock depositBump reserveBump available instructions
        total x = .ok x' → SameOwners T x.ledger x'.ledger := by
  induction instructions with
  | nil =>
      intro total x x' _ hrun
      obtain rfl := Except.ok.inj hrun
      exact .refl T _
  | cons instruction instructions ih =>
      intro total x x' hx hrun
      simp only [delegateLoop, bind_eq_ok] at hrun
      obtain ⟨x₁, hone, hrest⟩ := hrun
      obtain ⟨hfirst, hx₁⟩ := delegateOne_owners hpool hx hone
      exact hfirst.trans (ih hx₁ hrest)

end Delegate

section Unstake

variable {a : UnstakeAccounts} {depositBump : UInt8}

theorem unstakeOne_owners (hpool : a.stakePool.key = D.poolKey)
    {instruction : UnstakeInstruction} {x x' : BatchState} (hx : StakesIn T D x.validators)
    (hrun : unstakeOne D.programs D.programId a c depositBump instruction x = .ok x') :
    SameOwners T x.ledger x'.ledger ∧ StakesIn T D x'.validators := by
  simp only [unstakeOne, bind_eq_ok, require_eq_ok, okOr_eq_ok, Prod.exists,
    nextAccountInfo_eq_ok, checkValidatorStakeAddress_eq_ok] at hrun
  obtain ⟨record, hrecord, -, -, -, -, source, _, -, _, -, hrun⟩ := hrun
  split at hrun
  · simp only [bind_eq_ok, pure_eq_ok, deactivate] at hrun
    obtain ⟨L, hcall, rfl⟩ := hrun
    exact ⟨D.lawful.deactivateStake_owners hcall, hx⟩
  · simp only [bind_eq_ok, Prod.exists, nextAccountInfo_eq_ok, checkValidatorStakeAddress_eq_ok,
      splitAndDeactivate, deactivate] at hrun
    obtain ⟨split, _, -, _, ⟨hsplit, -⟩, L, ⟨L₁, hcreate, L₂, hcut, hdeactivate⟩, hrun⟩ := hrun
    have hT : split.key ∈ T := by
      rw [hsplit, hpool]
      exact hx.found hrecord _
    have howners : SameOwners T x.ledger L :=
      ((D.lawful.createAccount_owners hT hcreate).trans (D.lawful.splitOnly_owners hcut)).trans
        (D.lawful.deactivateStake_owners hdeactivate)
    split at hrun <;> simp only [pure_eq_ok] at hrun <;> subst hrun
    · exact ⟨howners, hx.putRecord (lookup_mem hrecord) rfl⟩
    · exact ⟨howners, hx⟩

theorem unstakeLoop_owners (hpool : a.stakePool.key = D.poolKey)
    (instructions : List UnstakeInstruction) :
    ∀ {x x' : BatchState}, StakesIn T D x.validators →
      unstakeLoop D.programs D.programId a c depositBump instructions x = .ok x' →
      SameOwners T x.ledger x'.ledger := by
  induction instructions with
  | nil =>
      intro x x' _ hrun
      obtain rfl := Except.ok.inj hrun
      exact .refl T _
  | cons instruction instructions ih =>
      intro x x' hx hrun
      simp only [unstakeLoop, bind_eq_ok] at hrun
      obtain ⟨x₁, hone, hrest⟩ := hrun
      obtain ⟨hfirst, hx₁⟩ := unstakeOne_owners hpool hx hone
      exact hfirst.trans (ih hx₁ hrest)

end Unstake

section Merge

variable {a : MergeStakesAccounts} {clock : Clock} {depositBump : UInt8}

theorem mergeOne_owners {instruction : MergeStakesInstruction} {x x' : BatchState}
    (hrun : mergeOne D.programs D.programId a clock depositBump instruction x = .ok x') :
    SameOwners T x.ledger x'.ledger := by
  simp only [mergeOne, bind_eq_ok, Prod.exists] at hrun
  obtain ⟨_, _, -, _, _, -, _, -, _, -, _, -, _, -, _, -, _, -, hrun⟩ := hrun
  split at hrun
  · obtain rfl := pure_eq_ok.mp hrun
    exact .refl T _
  · obtain ⟨L, hcall, hrun⟩ := bind_eq_ok.mp hrun
    split at hrun <;> obtain rfl := pure_eq_ok.mp hrun <;> exact D.lawful.merge_owners hcall

theorem mergeLoop_owners (instructions : List MergeStakesInstruction) :
    ∀ {x x' : BatchState},
      mergeLoop D.programs D.programId a clock depositBump instructions x = .ok x' →
      SameOwners T x.ledger x'.ledger := by
  induction instructions with
  | nil =>
      intro x x' hrun
      obtain rfl := Except.ok.inj hrun
      exact .refl T _
  | cons instruction instructions ih =>
      intro x x' hrun
      simp only [mergeLoop, bind_eq_ok] at hrun
      obtain ⟨x₁, hone, hrest⟩ := hrun
      exact (mergeOne_owners hone).trans (ih hrest)

end Merge

section Refresh

variable {a : UpdateListBalanceAccounts} {clock : Clock} {bump : UInt8} {vote : AccountInfo}

theorem updateStake_owners {index : UInt32} {stakeBump : UInt8} {stakeAccount : AccountInfo}
    {kept : Option UInt64} {L : Ledger}
    (hrun : updateStake D.programs D.programId a clock bump vote index stakeBump stakeAccount L =
      .ok (kept, L')) : SameOwners T L L' := by
  simp only [updateStake] at hrun
  split at hrun
  · split at hrun
    · simp only [bind_eq_ok] at hrun
      obtain ⟨state, -, available, -, hrun⟩ := hrun
      split at hrun
      · simp only [bind_eq_ok, pure_eq_ok, Prod.mk.injEq] at hrun
        obtain ⟨L₁, hcall, -, rfl⟩ := hrun
        exact D.lawful.stakeWithdraw_owners hcall
      · obtain ⟨-, rfl⟩ := Prod.mk.inj (pure_eq_ok.mp hrun)
        exact .refl T _
    · simp only [bind_eq_ok, pure_eq_ok, Prod.mk.injEq] at hrun
      obtain ⟨_, -, L₁, hcall, -, rfl⟩ := hrun
      exact D.lawful.transfer_owners hcall
  · obtain ⟨-, rfl⟩ := Prod.mk.inj (pure_eq_ok.mp hrun)
    exact .refl T _

theorem scanStakes_owners (remaining : Nat) :
    ∀ {index : UInt32} {x x' : ScanState},
      scanStakes D.programs D.programId a clock bump vote remaining index x = .ok x' →
      SameOwners T x.ledger x'.ledger := by
  induction remaining with
  | zero =>
      intro index x x' hrun
      obtain rfl := Except.ok.inj hrun
      exact .refl T _
  | succ remaining ih =>
      intro index x x' hrun
      simp only [scanStakes, bind_eq_ok, Prod.exists] at hrun
      obtain ⟨_, _, -, _, -, kept, L, hone, hrest⟩ := hrun
      have hfirst : SameOwners T x.ledger L := updateStake_owners hone
      cases kept with
      | none => exact hfirst.trans (ih hrest)
      | some balance => exact hfirst.trans (ih hrest)

theorem updateValidators_owners (fuel : Nat) :
    ∀ {accounts : List AccountInfo} {V V' : List ValidatorStakeInfo} {L L' : Ledger},
      updateValidators D.programs D.programId a clock bump fuel accounts V L = .ok (V', L') →
      SameOwners T L L' := by
  induction fuel with
  | zero =>
      intro accounts V V' L L' hrun
      cases accounts with
      | nil =>
          obtain ⟨-, rfl⟩ := Prod.mk.inj (Except.ok.inj hrun)
          exact .refl T _
      | cons => cases hrun
  | succ fuel ih =>
      intro accounts V V' L L' hrun
      cases accounts with
      | nil =>
          obtain ⟨-, rfl⟩ := Prod.mk.inj (Except.ok.inj hrun)
          exact .refl T _
      | cons vote accounts =>
          unfold updateValidators at hrun
          split at hrun
          · simp only [updateValidator, bind_eq_ok, pure_eq_ok, Prod.exists, Prod.mk.injEq] at hrun
            obtain ⟨_, _, L₁, ⟨x, hscan, -, -, rfl⟩, hrest⟩ := hrun
            exact (scanStakes_owners _ hscan).trans (ih hrest)
          · cases hrun

end Refresh

section Pay

variable {a : PayCreditorsAccounts} {reserveBump : UInt8} {available : UInt64}

theorem payLoop_owners (htoken : a.tokenProgram.key = splTokenId) (users : List AccountInfo) :
    ∀ {credits rest : List CreditRecord} {x x' : PayState},
      payLoop D.programs D.programId a reserveBump available users credits x = .ok (x', rest) →
      SameOwners T x.ledger x'.ledger := by
  induction users with
  | nil =>
      intro credits rest x x' hrun
      cases credits with
      | nil =>
          obtain ⟨rfl, -⟩ := Prod.mk.inj (Except.ok.inj hrun)
          exact .refl T _
      | cons credit credits =>
          obtain ⟨rfl, -⟩ := Prod.mk.inj (Except.ok.inj hrun)
          exact .refl T _
  | cons user users ih =>
      intro credits rest x x' hrun
      cases credits with
      | nil =>
          obtain ⟨rfl, -⟩ := Prod.mk.inj (Except.ok.inj hrun)
          exact .refl T _
      | cons credit credits =>
          simp only [payLoop, bind_eq_ok] at hrun
          obtain ⟨_, -, hrun⟩ := hrun
          split at hrun
          · exact ih (x := { x with invalidCredits := x.invalidCredits ++ [credit] }) hrun
          · simp only [bind_eq_ok] at hrun
            obtain ⟨stakeAmount, -, hrun⟩ := hrun
            split at hrun
            · obtain ⟨rfl, -⟩ := Prod.mk.inj (pure_eq_ok.mp hrun)
              exact .refl T _
            · simp only [bind_eq_ok, payCredit, pure_eq_ok, tokenBurn, htoken] at hrun
              obtain ⟨_, ⟨L₁, hburn, L₂, htransfer, rfl⟩, hrest⟩ := hrun
              have htail := ih hrest
              exact ((D.lawful.burn_owners hburn).trans
                (D.lawful.transfer_owners htransfer)).trans htail

end Pay

theorem depositLamports_owners {a : DepositAccounts} {amount : UInt64}
    {withdrawBump reserveBump : UInt8} (hpool : a.stakePool.key = D.poolKey)
    (htoken : a.tokenProgram.key = splTokenId) (htemp : D.tempKey ∈ T)
    (hrun : depositLamports D.programs D.programId amount a withdrawBump reserveBump c = .ok L') :
    SameOwners T c.ledger L' := by
  unfold depositLamports at hrun
  split at hrun
  · simp only [depositWrapped, bind_eq_ok, require_eq_ok, htoken] at hrun
    obtain ⟨-, htempKey, -, -, L₁, hcreate, L₂, hinit, L₃, hpay, hclose⟩ := hrun
    rw [hpool] at htempKey
    rw [htempKey] at hcreate
    exact ((((D.lawful.createAccount_owners htemp hcreate).trans
      (D.lawful.initializeAccount_owners hinit)).trans
      (D.lawful.tokenTransfer_owners hpay))).trans (D.lawful.closeAccount_owners hclose)
  · simp only [bind_eq_ok] at hrun
    obtain ⟨_, -, htransfer⟩ := hrun
    exact D.lawful.transfer_owners htransfer

theorem processInitialize_owners {init : InitArgs} {a : InitializeAccounts}
    (hparse : InitializeAccounts.parse c accounts = .ok a)
    (htoken : a.tokenProgram.key = splTokenId)
    (hrun : processInitialize D.programs D.programId init accounts c = .ok L') :
    SameOwners T c.ledger L' := by
  simp only [processInitialize, bind_eq_ok] at hrun
  obtain ⟨a', hparse', _, -, _, -, _, -, _, -, _, -, _, -, _, -, _, -, _, -, _, -, _, -, _, -, _, -,
    L₁, hset, L₂, hlist, L₃, hcredits, hpool⟩ := hrun
  obtain rfl := Except.ok.inj (hparse'.symm.trans hparse)
  rw [htoken] at hset
  exact (((D.lawful.setAccountOwner_owners hset).trans (store_owners hlist)).trans
    (store_owners hcredits)).trans (store_owners hpool)

/-- An instruction changes no owners but those of the temp account and of stake accounts. -/
theorem dispatch_owners (h : D.Represents c.ledger s) (ha : D.Addressed accounts)
    (htemp : D.tempKey ∈ T) (hV : StakesIn T D s.list.validators)
    {instruction : StakePoolInstruction}
    (hrun : dispatch D.programs D.programId instruction accounts c = .ok L') :
    SameOwners T c.ledger L' := by
  cases instruction with
  | initializePool init => exact absurd hrun (processInitialize_fails h ha)
  | addValidator =>
      simp only [dispatch, processAddValidator, bind_eq_ok] at hrun
      obtain ⟨_, -, _, -, _, -, _, -, hstore⟩ := hrun
      exact store_owners hstore
  | removeValidator =>
      simp only [dispatch, processRemoveValidator, bind_eq_ok] at hrun
      obtain ⟨_, -, _, -, _, -, hstore⟩ := hrun
      exact store_owners hstore
  | updateListBalance =>
      simp only [dispatch, processUpdateListBalance, bind_eq_ok, Prod.exists] at hrun
      obtain ⟨a, -, _, -, _, -, _, -, _, -, _, L₁, hupdate, hrun⟩ := hrun
      have howners : SameOwners T c.ledger L₁ := updateValidators_owners _ hupdate
      split at hrun
      · exact howners.trans (store_owners hrun)
      · obtain rfl := pure_eq_ok.mp hrun
        exact howners
  | updatePoolBalance =>
      simp only [dispatch, processUpdatePoolBalance, bind_eq_ok] at hrun
      obtain ⟨_, -, _, -, _, -, _, -, _, -, hstore⟩ := hrun
      exact store_owners hstore
  | deposit amount =>
      simp only [dispatch, processDeposit, bind_eq_ok, require_eq_ok] at hrun
      obtain ⟨-, -, a, hparse, pool, hload, _, -, -, -, -, -, -, htoken, -, -, _, -, _, -, _, -,
        L₁, hlamports, L₂, hmint, L₃, hmintFee, hstore⟩ := hrun
      obtain ⟨⟨rest, haccounts⟩, -⟩ := DepositAccounts.parse_ok hparse
      have hkey := ha.key_eq haccounts
      obtain rfl := h.load_pool hkey hload
      rw [h.wired.token_program] at htoken
      unfold tokenMintTo at hmint hmintFee
      rw [← htoken] at hmint hmintFee
      exact (((depositLamports_owners hkey htoken.symm htemp hlamports).trans
        (D.lawful.mintTo_owners hmint)).trans (D.lawful.mintTo_owners hmintFee)).trans
        (store_owners hstore)
  | withdraw n =>
      simp only [dispatch, processWithdraw, bind_eq_ok, require_eq_ok] at hrun
      obtain ⟨-, -, a, hparse, pool, hload, -, htoken, _, -, -, -, _, -, -, -, L₁, hburn, L₂,
        htransfer, hstore⟩ := hrun
      obtain ⟨rest, haccounts⟩ := WithdrawAccounts.parse_ok hparse
      obtain rfl := h.load_pool (ha.key_eq haccounts) hload
      rw [h.wired.token_program] at htoken
      unfold tokenBurn at hburn
      rw [← htoken] at hburn
      exact ((D.lawful.burn_owners hburn).trans (D.lawful.transfer_owners htransfer)).trans
        (store_owners hstore)
  | setStakingAuthority => cases hrun
  | setOwner =>
      simp only [dispatch, processSetOwner, bind_eq_ok] at hrun
      obtain ⟨_, -, _, -, _, -, _, -, _, -, hstore⟩ := hrun
      exact store_owners hstore
  | credit amount =>
      simp only [dispatch, processCredit, loadCredits, bind_eq_ok, require_eq_ok, pure_eq_ok,
        Prod.exists, Prod.mk.injEq] at hrun
      obtain ⟨-, -, a, hparse, pool, list, ⟨_, hload, -, htoken, _, -, -, -, rfl, rfl⟩, -, -, _, -,
        L₁, htransfer, hstore⟩ := hrun
      obtain ⟨rest, haccounts⟩ := CreditAccounts.parse_ok hparse
      obtain rfl := h.load_pool (ha.key_eq haccounts) hload
      rw [h.wired.token_program] at htoken
      rw [← htoken] at htransfer
      exact (D.lawful.tokenTransfer_owners htransfer).trans (store_owners hstore)
  | uncredit amount =>
      simp only [dispatch, processUncredit, loadCredits, bind_eq_ok, require_eq_ok, pure_eq_ok,
        Prod.exists, Prod.mk.injEq] at hrun
      obtain ⟨a, hparse, pool, list, ⟨_, hload, -, htoken, _, -, -, -, rfl, rfl⟩, _, -,
        L₁, htransfer, hstore⟩ := hrun
      obtain ⟨rest, haccounts⟩ := CreditAccounts.parse_ok hparse
      obtain rfl := h.load_pool (ha.key_eq haccounts) hload
      rw [h.wired.token_program] at htoken
      rw [← htoken] at htransfer
      exact (D.lawful.tokenTransfer_owners htransfer).trans (store_owners hstore)
  | delegateReserve instructions =>
      simp only [dispatch, processDelegateReserve, bind_eq_ok] at hrun
      obtain ⟨a, hparse, _, hload, _, -, list, hlist, _, -, _, -, _, -, x, hloop, hfinish⟩ := hrun
      have hkey := ha.key_eq (DelegateReserveAccounts.parse_ok hparse)
      obtain rfl := h.load_pool hkey hload
      obtain ⟨-, rfl, -⟩ := h.load_list hlist
      exact (delegateLoop_owners hkey instructions hV hloop).trans (finish_owners hfinish)
  | mergeStakes instructions =>
      simp only [dispatch, processMergeStakes, bind_eq_ok] at hrun
      obtain ⟨a, -, _, -, list, -, _, -, x, hloop, hfinish⟩ := hrun
      exact (mergeLoop_owners instructions hloop).trans (finish_owners hfinish)
  | unstake instructions =>
      simp only [dispatch, processUnstake, bind_eq_ok] at hrun
      obtain ⟨a, hparse, _, hload, _, -, list, hlist, _, -, x, hloop, hfinish⟩ := hrun
      have hkey := ha.key_eq (UnstakeAccounts.parse_ok hparse)
      obtain rfl := h.load_pool hkey hload
      obtain ⟨-, rfl, -⟩ := h.load_list hlist
      exact (unstakeLoop_owners hkey instructions hV hloop).trans (finish_owners hfinish)
  | payCreditors =>
      simp only [dispatch, processPayCreditors, payCreditors, loadPayCreditors, bind_eq_ok,
        require_eq_ok, pure_eq_ok, Prod.exists, Prod.mk.injEq] at hrun
      obtain ⟨_, L, ⟨a, hparse, pool, list, ⟨_, hload, -, htoken, _, -, -, -, _, -, -, -, -, -,
        rfl, rfl⟩, x, rest, hloop, L₁, hcredits, L₂, hstore, -, rfl⟩, rfl⟩ := hrun
      have hkey := ha.key_eq (PayCreditorsAccounts.parse_ok hparse)
      obtain rfl := h.load_pool hkey hload
      rw [h.wired.token_program] at htoken
      exact ((payLoop_owners htoken.symm _ hloop).trans (store_owners hcredits)).trans
        (store_owners hstore)

end Tenderize
