import Mathlib.Logic.Relation
import Tenderize.Refinement.Owners

/-!
# What an instruction writes

Whatever an instruction to the pool does to the ledger, it does by calls of other programs
and by writing records of its own.  `Deployment.Write` is one such write, with the accounts
that the instruction names and the signatures it can pass on; `dispatch_writes` takes every
successful instruction apart into writes.  What every write keeps, every instruction keeps.
-/

namespace Tenderize

open Support

/-- The addresses that an account list names. -/
def Named (accounts : List AccountInfo) : Set Pubkey :=
  {key | ∃ info ∈ accounts, info.key = key}

theorem mem_named {info : AccountInfo} {accounts : List AccountInfo} (h : info ∈ accounts) :
    info.key ∈ Named accounts :=
  ⟨info, h, rfl⟩

namespace Deployment

variable (D : Deployment)

/-- The addresses whose signatures an instruction can pass on. -/
def Signs (accounts : List AccountInfo) : Set Pubkey :=
  {key | key ∈ signers accounts ∨ D.programs.IsProgramAddress D.programId key}

variable {D}

theorem mem_signs {accounts infos : List AccountInfo} (h : infos ⊆ accounts)
    (seeds : List (List Seed)) :
    ∀ key ∈ D.programs.signersWith D.programId infos seeds, key ∈ D.Signs accounts := by
  intro key hkey
  rcases List.mem_append.mp hkey with hsigner | hderived
  · simp only [signers, List.mem_map, List.mem_filter] at hsigner
    obtain ⟨info, ⟨hmem, hsigned⟩, rfl⟩ := hsigner
    left
    simp only [signers, List.mem_map, List.mem_filter]
    exact ⟨info, ⟨h hmem, hsigned⟩, rfl⟩
  · obtain ⟨s, -, hs⟩ := List.mem_filterMap.mp hderived
    exact .inr ⟨s, hs⟩

variable (D)

/-- One write.  New accounts are at addresses derived from seeds, and they are stake accounts
only if `opens` holds.  The system program takes lamports from `pays` only. -/
inductive Write (accounts : List AccountInfo) (opens : Prop) (pays : Set Pubkey) :
    Ledger → Ledger → Prop
  | store {key : Pubkey} {data : AccountData} {L : Ledger} : key ∈ Named accounts →
      (L key).owner = D.programId → Write accounts opens pays L (L.setData key data)
  | transfer {source target : Pubkey} {n : UInt64} {sigs : List Pubkey} {L L' : Ledger} :
      source ∈ Named accounts → target ∈ Named accounts → source ∈ pays →
      D.programs.transfer source target n sigs L = .ok L' → Write accounts opens pays L L'
  | createAccount {source target owner : Pubkey} {n : UInt64} {space : Nat} {sigs : List Pubkey}
      {L L' : Ledger} : source ∈ Named accounts → target ∈ Named accounts →
      D.programs.IsProgramAddress D.programId target → (owner = stakeProgramId → opens) →
      source ∈ pays →
      D.programs.createAccount source target n space owner sigs L = .ok L' →
        Write accounts opens pays L L'
  | initializeAccount {account mint owner : Pubkey} {L L' : Ledger} : account ∈ Named accounts →
      D.programs.IsProgramAddress D.programId account →
      D.programs.initializeAccount splTokenId account mint owner L = .ok L' →
        Write accounts opens pays L L'
  | closeAccount {account target authority : Pubkey} {sigs : List Pubkey} {L L' : Ledger} :
      account ∈ Named accounts → target ∈ Named accounts →
      D.programs.IsProgramAddress D.programId account →
      D.programs.closeAccount splTokenId account target authority sigs L = .ok L' →
      Write accounts opens pays L L'
  | burn {account mint authority : Pubkey} {n : UInt64} {sigs : List Pubkey} {L L' : Ledger} :
      account ∈ Named accounts → mint ∈ Named accounts →
      (∀ key ∈ sigs, key ∈ D.Signs accounts) →
      D.programs.burn splTokenId account mint authority n sigs L = .ok L' →
        Write accounts opens pays L L'
  | mintTo {mint account authority : Pubkey} {n : UInt64} {sigs : List Pubkey} {L L' : Ledger} :
      mint ∈ Named accounts → account ∈ Named accounts →
      D.programs.mintTo splTokenId mint account authority n sigs L = .ok L' →
        Write accounts opens pays L L'
  | tokenTransfer {source target authority : Pubkey} {n : UInt64} {sigs : List Pubkey}
      {L L' : Ledger} : source ∈ Named accounts → target ∈ Named accounts →
      (∀ key ∈ sigs, key ∈ D.Signs accounts) →
      D.programs.tokenTransfer splTokenId source target authority n sigs L = .ok L' →
      Write accounts opens pays L L'
  | stakeInitialize {stake : Pubkey} {authorized : Authorized} {L L' : Ledger} :
      stake ∈ Named accounts → D.programs.stakeInitialize stake authorized L = .ok L' →
      Write accounts opens pays L L'
  | delegateStake {clock : Clock} {stake authority vote : Pubkey} {sigs : List Pubkey}
      {L L' : Ledger} : stake ∈ Named accounts →
      D.programs.delegateStake clock stake authority vote sigs L = .ok L' →
        Write accounts opens pays L L'
  | deactivateStake {clock : Clock} {stake authority : Pubkey} {sigs : List Pubkey}
      {L L' : Ledger} : stake ∈ Named accounts →
      D.programs.deactivateStake clock stake authority sigs L = .ok L' →
        Write accounts opens pays L L'
  | splitOnly {source authority target : Pubkey} {n : UInt64} {sigs : List Pubkey}
      {L L' : Ledger} : source ∈ Named accounts → target ∈ Named accounts →
      D.programs.splitOnly source authority n target sigs L = .ok L' →
        Write accounts opens pays L L'
  | merge {clock : Clock} {target source authority : Pubkey} {sigs : List Pubkey}
      {L L' : Ledger} : target ∈ Named accounts → source ∈ Named accounts →
      D.programs.merge clock target source authority sigs L = .ok L' →
        Write accounts opens pays L L'
  | stakeWithdraw {clock : Clock} {stake withdrawer target : Pubkey} {n : UInt64}
      {sigs : List Pubkey} {L L' : Ledger} : stake ∈ Named accounts → target ∈ Named accounts →
      D.programs.stakeWithdraw clock stake withdrawer target n sigs L = .ok L' →
      Write accounts opens pays L L'

/-- Any number of writes. -/
def Writes (accounts : List AccountInfo) (opens : Prop) (pays : Set Pubkey) :
    Ledger → Ledger → Prop :=
  Relation.ReflTransGen (D.Write accounts opens pays)

variable {D} {accounts : List AccountInfo} {opens : Prop} {pays : Set Pubkey}
  {L L' L'' : Ledger}

namespace Writes

theorem refl : D.Writes accounts opens pays L L := Relation.ReflTransGen.refl

theorem trans (h : D.Writes accounts opens pays L L') (h' : D.Writes accounts opens pays L' L'') :
    D.Writes accounts opens pays L L'' :=
  Relation.ReflTransGen.trans h h'

/-- What every write keeps, writes keep. -/
theorem keep {I : Ledger → Prop} (hstep : ∀ L L', D.Write accounts opens pays L L' → I L → I L')
    (h : D.Writes accounts opens pays L L') (hL : I L) : I L' := by
  induction h with
  | refl => exact hL
  | tail _ hwrite ih => exact hstep _ _ hwrite ih

end Writes

theorem Write.writes (h : D.Write accounts opens pays L L') : D.Writes accounts opens pays L L' :=
  Relation.ReflTransGen.single h

end Deployment

open Deployment

variable {D : Deployment} {c : Chain} {s : PoolState} {accounts : List AccountInfo} {opens : Prop}
  {pays : Set Pubkey} {L L' : Ledger}

theorem store_writes {info : AccountInfo} {write : AccountData → Except ProgramError AccountData}
    (hinfo : info ∈ accounts) (h : store D.programId info.key write L = .ok L') :
    D.Writes accounts opens pays L L' := by
  obtain ⟨data, -, howner | hsame, rfl⟩ := store_eq_ok.mp h
  · exact (Write.store (mem_named hinfo) howner).writes
  · rw [hsame, L.setData_self]
    exact .refl

/-! ## Batches -/

theorem finish_writes {x : BatchState} {list : ValidatorStakeList} {info : AccountInfo}
    (hinfo : info ∈ accounts) (hrun : x.finish D.programId list info.key = .ok L') :
    D.Writes accounts opens pays x.ledger L' := by
  unfold BatchState.finish at hrun
  split at hrun
  · exact store_writes hinfo hrun
  · obtain rfl := Except.ok.inj hrun
    exact .refl

section Delegate

variable {a : DelegateReserveAccounts} {clock : Clock} {depositBump reserveBump : UInt8}
  {available : UInt64}

theorem delegateOne_writes (hopens : opens) (hpool : a.stakePool.key = D.poolKey)
    (hreserve : a.reserve ∈ accounts) (hpays : a.reserve.key ∈ pays) {total : UInt64}
    {instruction : DelegateReserveInstruction} {x x' : BatchState} (hx : x.accounts ⊆ accounts)
    (hrun : delegateOne D.programs D.programId a clock depositBump reserveBump available total
      instruction x = .ok x') :
    D.Writes accounts opens pays x.ledger x'.ledger ∧ x'.accounts ⊆ accounts := by
  simp only [delegateOne, bind_eq_ok, require_eq_ok, okOr_eq_ok, Prod.exists,
    nextAccountInfo_eq_ok, checkValidatorStakeAddress_eq_ok] at hrun
  obtain ⟨vote, _, haccounts, stake, rest, rfl, record, hrecord, -, -, -, -, _, ⟨hkey, -⟩, hrun⟩ :=
    hrun
  rw [haccounts, List.cons_subset, List.cons_subset] at hx
  obtain ⟨-, hstake, hrest⟩ := hx
  have haddress : D.programs.IsProgramAddress D.programId stake.key := by
    rw [hkey, hpool]
    exact stakeKey_isProgramAddress _ _
  split at hrun <;> simp only [bind_eq_ok, pure_eq_ok, initStake, redelegateStake] at hrun
  · obtain ⟨L, ⟨_, -, L₁, hcreate, L₂, hinit, hdelegate⟩, rfl⟩ := hrun
    have hopened : D.Write accounts opens pays x.ledger L₁ :=
      .createAccount (mem_named hreserve) (mem_named hstake) haddress (fun _ => hopens)
        hpays hcreate
    exact ⟨hopened.writes.trans ((Write.stakeInitialize (mem_named hstake) hinit).writes.trans
      (Write.delegateStake (mem_named hstake) hdelegate).writes), hrest⟩
  · obtain ⟨L, ⟨L₁, htransfer, hdelegate⟩, rfl⟩ := hrun
    have hfunded : D.Write accounts opens pays x.ledger L₁ :=
      .transfer (mem_named hreserve) (mem_named hstake) hpays htransfer
    exact ⟨hfunded.writes.trans (Write.delegateStake (mem_named hstake) hdelegate).writes, hrest⟩

theorem delegateLoop_writes (hopens : opens) (hpool : a.stakePool.key = D.poolKey)
    (hreserve : a.reserve ∈ accounts) (hpays : a.reserve.key ∈ pays)
    (instructions : List DelegateReserveInstruction) :
    ∀ {total : UInt64} {x x' : BatchState}, x.accounts ⊆ accounts →
      delegateLoop D.programs D.programId a clock depositBump reserveBump available instructions
        total x = .ok x' → D.Writes accounts opens pays x.ledger x'.ledger := by
  induction instructions with
  | nil =>
      intro total x x' _ hrun
      obtain rfl := Except.ok.inj hrun
      exact .refl
  | cons instruction instructions ih =>
      intro total x x' hx hrun
      simp only [delegateLoop, bind_eq_ok] at hrun
      obtain ⟨x₁, hone, hrest⟩ := hrun
      obtain ⟨hfirst, hx₁⟩ := delegateOne_writes hopens hpool hreserve hpays hx hone
      exact hfirst.trans (ih hx₁ hrest)

end Delegate

section Unstake

variable {a : UnstakeAccounts} {depositBump : UInt8}

theorem unstakeOne_writes (hopens : opens) (hpool : a.stakePool.key = D.poolKey)
    (howner : a.owner ∈ accounts) (hpays : a.owner.key ∈ pays) {instruction : UnstakeInstruction}
    {x x' : BatchState} (hx : x.accounts ⊆ accounts)
    (hrun : unstakeOne D.programs D.programId a c depositBump instruction x = .ok x') :
    D.Writes accounts opens pays x.ledger x'.ledger ∧ x'.accounts ⊆ accounts := by
  simp only [unstakeOne, bind_eq_ok, require_eq_ok, okOr_eq_ok, Prod.exists,
    nextAccountInfo_eq_ok, checkValidatorStakeAddress_eq_ok] at hrun
  obtain ⟨record, hrecord, -, -, -, -, source, rest, haccounts, _, -, hrun⟩ := hrun
  rw [haccounts, List.cons_subset] at hx
  obtain ⟨hsource, hrest⟩ := hx
  split at hrun
  · simp only [bind_eq_ok, pure_eq_ok, deactivate] at hrun
    obtain ⟨L, hcall, rfl⟩ := hrun
    exact ⟨(Write.deactivateStake (mem_named hsource) hcall).writes, hrest⟩
  · simp only [bind_eq_ok, Prod.exists, nextAccountInfo_eq_ok, checkValidatorStakeAddress_eq_ok,
      splitAndDeactivate, deactivate] at hrun
    obtain ⟨split, rest', rfl, _, ⟨hkey, -⟩, L, ⟨L₁, hcreate, L₂, hcut, hdeactivate⟩, hrun⟩ := hrun
    rw [List.cons_subset] at hrest
    obtain ⟨hsplit, hrest'⟩ := hrest
    have hopened : D.Write accounts opens pays x.ledger L₁ := by
      refine .createAccount (mem_named howner) (mem_named hsplit) ?_ (fun _ => hopens)
        hpays hcreate
      rw [hkey, hpool]
      exact stakeKey_isProgramAddress _ _
    have hwrites : D.Writes accounts opens pays x.ledger L :=
      hopened.writes.trans
        ((Write.splitOnly (mem_named hsource) (mem_named hsplit) hcut).writes.trans
          (Write.deactivateStake (mem_named hsplit) hdeactivate).writes)
    split at hrun <;> obtain rfl := pure_eq_ok.mp hrun <;> exact ⟨hwrites, hrest'⟩

theorem unstakeLoop_writes (hopens : opens) (hpool : a.stakePool.key = D.poolKey)
    (howner : a.owner ∈ accounts) (hpays : a.owner.key ∈ pays)
    (instructions : List UnstakeInstruction) :
    ∀ {x x' : BatchState}, x.accounts ⊆ accounts →
      unstakeLoop D.programs D.programId a c depositBump instructions x = .ok x' →
      D.Writes accounts opens pays x.ledger x'.ledger := by
  induction instructions with
  | nil =>
      intro x x' _ hrun
      obtain rfl := Except.ok.inj hrun
      exact .refl
  | cons instruction instructions ih =>
      intro x x' hx hrun
      simp only [unstakeLoop, bind_eq_ok] at hrun
      obtain ⟨x₁, hone, hrest⟩ := hrun
      obtain ⟨hfirst, hx₁⟩ := unstakeOne_writes hopens hpool howner hpays hx hone
      exact hfirst.trans (ih hx₁ hrest)

end Unstake

section Merge

variable {a : MergeStakesAccounts} {clock : Clock} {depositBump : UInt8}

theorem mergeOne_writes {instruction : MergeStakesInstruction} {x x' : BatchState}
    (hx : x.accounts ⊆ accounts)
    (hrun : mergeOne D.programs D.programId a clock depositBump instruction x = .ok x') :
    D.Writes accounts opens pays x.ledger x'.ledger ∧ x'.accounts ⊆ accounts := by
  simp only [mergeOne, bind_eq_ok, Prod.exists, nextAccountInfo_eq_ok] at hrun
  obtain ⟨main, _, haccounts, additional, rest, rfl, _, -, _, -, _, -, _, -, _, -, _, -, hrun⟩ :=
    hrun
  rw [haccounts, List.cons_subset, List.cons_subset] at hx
  obtain ⟨hmain, hadditional, hrest⟩ := hx
  split at hrun
  · obtain rfl := pure_eq_ok.mp hrun
    exact ⟨.refl, hrest⟩
  · obtain ⟨L, hcall, hrun⟩ := bind_eq_ok.mp hrun
    have hmerged : D.Writes accounts opens pays x.ledger L :=
      (Write.merge (mem_named hmain) (mem_named hadditional) hcall).writes
    split at hrun <;> obtain rfl := pure_eq_ok.mp hrun <;> exact ⟨hmerged, hrest⟩

theorem mergeLoop_writes (instructions : List MergeStakesInstruction) :
    ∀ {x x' : BatchState}, x.accounts ⊆ accounts →
      mergeLoop D.programs D.programId a clock depositBump instructions x = .ok x' →
      D.Writes accounts opens pays x.ledger x'.ledger := by
  induction instructions with
  | nil =>
      intro x x' _ hrun
      obtain rfl := Except.ok.inj hrun
      exact .refl
  | cons instruction instructions ih =>
      intro x x' hx hrun
      simp only [mergeLoop, bind_eq_ok] at hrun
      obtain ⟨x₁, hone, hrest⟩ := hrun
      obtain ⟨hfirst, hx₁⟩ := mergeOne_writes hx hone
      exact hfirst.trans (ih hx₁ hrest)

end Merge

/-! ## Refreshing the list -/

section Refresh

variable (D) in
/-- The stake accounts that the records count are in `pays`. -/
def Deployment.CountedIn (pays : Set Pubkey) (V : List ValidatorStakeInfo) : Prop :=
  ∀ r ∈ V, ∀ i < r.stakeCount, D.stakeKey r.validatorAccount i ∈ pays

theorem Deployment.CountedIn.put {V : List ValidatorStakeInfo} {r : ValidatorStakeInfo}
    {v : Pubkey} (hV : D.CountedIn pays V)
    (hr : ∀ i < r.stakeCount, D.stakeKey r.validatorAccount i ∈ pays) :
    D.CountedIn pays (updateFirst ValidatorStakeInfo.validatorAccount v r V) := by
  intro row hrow
  rcases mem_updateFirst hrow with rfl | hmem
  · exact hr
  · exact hV row hmem

variable {a : UpdateListBalanceAccounts} {clock : Clock} {bump : UInt8} {vote : AccountInfo}

theorem updateStake_writes (hreserve : a.reserve ∈ accounts) {index : UInt32}
    {stakeBump : UInt8} {stakeAccount : AccountInfo} {kept : Option UInt64}
    (hstake : stakeAccount ∈ accounts) (hpays : stakeAccount.key ∈ pays)
    (hrun : updateStake D.programs D.programId a clock bump vote index stakeBump stakeAccount L =
      .ok (kept, L')) : D.Writes accounts opens pays L L' := by
  simp only [updateStake] at hrun
  split at hrun
  · split at hrun
    · simp only [bind_eq_ok] at hrun
      obtain ⟨state, -, available, -, hrun⟩ := hrun
      split at hrun
      · simp only [bind_eq_ok, pure_eq_ok, Prod.mk.injEq] at hrun
        obtain ⟨L₁, hcall, -, rfl⟩ := hrun
        exact (Write.stakeWithdraw (mem_named hstake) (mem_named hreserve) hcall).writes
      · obtain ⟨-, rfl⟩ := Prod.mk.inj (pure_eq_ok.mp hrun)
        exact .refl
    · simp only [bind_eq_ok, pure_eq_ok, Prod.mk.injEq] at hrun
      obtain ⟨_, -, L₁, hcall, -, rfl⟩ := hrun
      exact (Write.transfer (mem_named hstake) (mem_named hreserve) hpays hcall).writes
  · obtain ⟨-, rfl⟩ := Prod.mk.inj (pure_eq_ok.mp hrun)
    exact .refl

theorem scanStakes_writes (hpool : a.stakePool.key = D.poolKey) (hreserve : a.reserve ∈ accounts)
    (remaining : Nat) :
    ∀ {index : UInt32} {x x' : ScanState}, x.accounts ⊆ accounts →
      index.toNat + remaining < 2 ^ 32 → x.newStakeCount.toNat ≤ index.toNat →
      (∀ i : UInt32, i.toNat < index.toNat + remaining →
        D.stakeKey x.record.validatorAccount i ∈ pays) →
      scanStakes D.programs D.programId a clock bump vote remaining index x = .ok x' →
      D.Writes accounts opens pays x.ledger x'.ledger ∧ x'.accounts ⊆ accounts ∧
        x'.record.validatorAccount = x.record.validatorAccount ∧
        x'.newStakeCount.toNat ≤ index.toNat + remaining := by
  induction remaining with
  | zero =>
      intro index x x' hx _ hcount _ hrun
      obtain rfl := Except.ok.inj hrun
      exact ⟨.refl, hx, rfl, hcount⟩
  | succ remaining ih =>
      intro index x x' hx hfits hcount hpays hrun
      simp only [scanStakes, bind_eq_ok, Prod.exists, nextAccountInfo_eq_ok,
        checkValidatorStakeAddress_eq_ok, hpool] at hrun
      obtain ⟨stake, rest, haccounts, _, ⟨hkey, -⟩, kept, L, hone, hrun⟩ := hrun
      rw [haccounts, List.cons_subset] at hx
      have hstake : stake.key ∈ pays := by
        rw [hkey]
        exact hpays index (by omega)
      have hfirst : D.Writes accounts opens pays x.ledger L :=
        updateStake_writes hreserve hx.1 hstake hone
      have hindex : (index + 1).toNat = index.toNat + 1 := toNat_succ_index (by omega)
      have htail : ∀ {y : ScanState},
          scanStakes D.programs D.programId a clock bump vote remaining (index + 1) y = .ok x' →
          y.ledger = L → y.accounts = rest →
          y.record.validatorAccount = x.record.validatorAccount →
          y.newStakeCount.toNat ≤ (index + 1).toNat →
          D.Writes accounts opens pays x.ledger x'.ledger ∧ x'.accounts ⊆ accounts ∧
            x'.record.validatorAccount = x.record.validatorAccount ∧
            x'.newStakeCount.toNat ≤ index.toNat + (remaining + 1) := by
        rintro y hrest rfl hy hname hcount'
        obtain ⟨hwrites, hx', hname', hlast⟩ := ih (hy ▸ hx.2) (by omega) hcount'
          (fun i hi => hname ▸ hpays i (by omega)) hrest
        exact ⟨hfirst.trans hwrites, hx', hname'.trans hname, by omega⟩
      cases kept with
      | none => exact htail hrun rfl rfl rfl (show x.newStakeCount.toNat ≤ _ by omega)
      | some balance => exact htail hrun rfl rfl rfl le_rfl

theorem updateValidators_writes (hpool : a.stakePool.key = D.poolKey)
    (hreserve : a.reserve ∈ accounts) (fuel : Nat) :
    ∀ {rest : List AccountInfo} {V V' : List ValidatorStakeInfo} {L L' : Ledger},
      rest ⊆ accounts → D.CountedIn pays V →
      updateValidators D.programs D.programId a clock bump fuel rest V L = .ok (V', L') →
      D.Writes accounts opens pays L L' ∧ D.CountedIn pays V' := by
  induction fuel with
  | zero =>
      intro rest V V' L L' _ hV hrun
      cases rest with
      | nil =>
          obtain ⟨rfl, rfl⟩ := Prod.mk.inj (Except.ok.inj hrun)
          exact ⟨.refl, hV⟩
      | cons => cases hrun
  | succ fuel ih =>
      intro rest V V' L L' hrest hV hrun
      cases rest with
      | nil =>
          obtain ⟨rfl, rfl⟩ := Prod.mk.inj (Except.ok.inj hrun)
          exact ⟨.refl, hV⟩
      | cons vote rest =>
          unfold updateValidators at hrun
          split at hrun
          · next record hrecord =>
              simp only [updateValidator, bind_eq_ok, pure_eq_ok, Prod.exists,
                Prod.mk.injEq] at hrun
              obtain ⟨_, _, L₁, ⟨x, hscan, rfl, rfl, rfl⟩, hrun⟩ := hrun
              have hall : (0 : UInt32).toNat + record.stakeCount.toNat = record.stakeCount.toNat :=
                Nat.zero_add _
              have hcounted := hV record (lookup_mem hrecord)
              have hkeys : ∀ i : UInt32, i.toNat < (0 : UInt32).toNat + record.stakeCount.toNat →
                  D.stakeKey record.validatorAccount i ∈ pays :=
                fun i hi => hcounted i (UInt32.lt_iff_toNat_lt.mpr (hall ▸ hi))
              obtain ⟨hwrites, hx, hname, hcount⟩ := scanStakes_writes hpool hreserve _
                (List.cons_subset.mp hrest).2 (hall.trans_lt record.stakeCount.toNat_lt)
                (Nat.le_refl (0 : UInt32).toNat) hkeys hscan
              rw [hall] at hcount
              have hrefreshed : ∀ i < x.newStakeCount,
                  D.stakeKey x.record.validatorAccount i ∈ pays := by
                intro i hi
                have hbelow := UInt32.lt_iff_toNat_lt.mp hi
                rw [hname]
                exact hcounted i (UInt32.lt_iff_toNat_lt.mpr (lt_of_lt_of_le hbelow hcount))
              obtain ⟨hlater, hV'⟩ := ih hx (hV.put hrefreshed) hrun
              exact ⟨hwrites.trans hlater, hV'⟩
          · cases hrun

end Refresh

/-! ## Paying creditors -/

theorem payLoop_writes {a : PayCreditorsAccounts} {reserveBump : UInt8} {available : UInt64}
    (htoken : a.tokenProgram.key = splTokenId) (hpays : a.reserve.key ∈ pays)
    (ha : [a.withdraw, a.reserve, a.creditReserve, a.poolMint, a.tokenProgram] ⊆ accounts)
    (users : List AccountInfo) :
    ∀ {credits rest : List CreditRecord} {x x' : PayState}, users ⊆ accounts →
      payLoop D.programs D.programId a reserveBump available users credits x = .ok (x', rest) →
      D.Writes accounts opens pays x.ledger x'.ledger := by
  simp only [List.cons_subset] at ha
  obtain ⟨hwithdraw, hreserve, hcredits, hmint, hprogram, -⟩ := ha
  induction users with
  | nil =>
      intro credits rest x x' _ hrun
      cases credits <;> obtain ⟨rfl, -⟩ := Prod.mk.inj (Except.ok.inj hrun) <;> exact .refl
  | cons user users ih =>
      intro credits rest x x' husers hrun
      obtain ⟨huser, husers⟩ := List.cons_subset.mp husers
      cases credits with
      | nil =>
          obtain ⟨rfl, -⟩ := Prod.mk.inj (Except.ok.inj hrun)
          exact .refl
      | cons credit credits =>
          simp only [payLoop, bind_eq_ok, require_eq_ok] at hrun
          obtain ⟨_, hkey, hrun⟩ := hrun
          split at hrun
          · exact ih (x := { x with invalidCredits := x.invalidCredits ++ [credit] }) husers hrun
          · simp only [bind_eq_ok] at hrun
            obtain ⟨stakeAmount, -, hrun⟩ := hrun
            split at hrun
            · obtain ⟨rfl, -⟩ := Prod.mk.inj (pure_eq_ok.mp hrun)
              exact .refl
            · simp only [bind_eq_ok, payCredit, pure_eq_ok, tokenBurn, htoken, ← hkey] at hrun
              obtain ⟨_, ⟨L₁, hburn, L₂, htransfer, rfl⟩, hrest⟩ := hrun
              have hburned : D.Write accounts opens pays x.ledger L₁ := by
                refine .burn (mem_named hcredits) (mem_named hmint) (mem_signs ?_ _) hburn
                simp [hcredits, hmint, hwithdraw, hprogram]
              have hpaid : D.Write accounts opens pays L₁ L₂ :=
                .transfer (mem_named hreserve) (mem_named huser) hpays htransfer
              exact hburned.writes.trans (hpaid.writes.trans (ih husers hrest))

/-! ## Deposits -/

theorem DepositAccounts.parse_wrapped {a : DepositAccounts}
    (h : DepositAccounts.parse c accounts = .ok a) {temp nativeMint : AccountInfo}
    (hwrapped : a.wrapped = some (temp, nativeMint)) : temp ∈ accounts := by
  simp only [DepositAccounts.parse, bind_eq_ok, Prod.exists, nextAccountInfo_eq_ok] at h
  obtain ⟨_, _, rfl, _, _, rfl, _, _, rfl, _, _, rfl, _, _, rfl, _, _, rfl, _, _, rfl, _, _, rfl,
    _, -, _, _, rfl, _, _, rfl, h⟩ := h
  split at h
  · simp only [bind_eq_ok, Prod.exists, nextAccountInfo_eq_ok, pure_eq_ok] at h
    obtain ⟨_, _, rfl, _, _, rfl, rfl⟩ := h
    obtain ⟨rfl, -⟩ := Prod.mk.inj (Option.some.inj hwrapped)
    simp
  · obtain rfl := pure_eq_ok.mp h
    cases hwrapped

theorem depositLamports_writes {a : DepositAccounts} {amount : UInt64}
    {withdrawBump reserveBump : UInt8} (hparse : DepositAccounts.parse c accounts = .ok a)
    (htoken : a.tokenProgram.key = splTokenId) (hsigners : ∀ key ∈ signers accounts, key ∈ pays)
    (hpays : a.reserve.key ∈ pays)
    (hrun : depositLamports D.programs D.programId amount a withdrawBump reserveBump c = .ok L') :
    D.Writes accounts opens pays c.ledger L' := by
  obtain ⟨⟨rest, haccounts⟩, -⟩ := DepositAccounts.parse_ok hparse
  have hreserve : a.reserve ∈ accounts := by simp [haccounts]
  have hsource : a.sourceUser ∈ accounts := by simp [haccounts]
  have hwithdraw : a.withdraw ∈ accounts := by simp [haccounts]
  have hprogram : a.tokenProgram ∈ accounts := by simp [haccounts]
  unfold depositLamports at hrun
  split at hrun
  · next temp nativeMint hwrapped =>
      have htemp := DepositAccounts.parse_wrapped hparse hwrapped
      simp only [depositWrapped, bind_eq_ok, require_eq_ok, htoken] at hrun
      obtain ⟨-, hkey, -, -, L₁, hcreate, L₂, hinit, L₃, hpay, hclose⟩ := hrun
      have haddress : D.programs.IsProgramAddress D.programId temp.key := by
        rw [hkey]
        exact ⟨_, D.lawful.authority_address _ _ _⟩
      have hopened : D.Write accounts opens pays c.ledger L₁ :=
        .createAccount (mem_named hreserve) (mem_named htemp) haddress
          (fun heq => absurd heq splTokenId_ne_stake) hpays hcreate
      have hpaid : D.Write accounts opens pays L₂ L₃ := by
        refine .tokenTransfer (mem_named hsource) (mem_named htemp) (mem_signs ?_ _) hpay
        simp [hprogram, hsource, htemp, hwithdraw]
      have hclosed : D.Write accounts opens pays L₃ L' :=
        .closeAccount (mem_named htemp) (mem_named hreserve) haddress hclose
      exact hopened.writes.trans ((Write.initializeAccount (mem_named htemp) haddress
        hinit).writes.trans (hpaid.writes.trans hclosed.writes))
  · simp only [bind_eq_ok] at hrun
    obtain ⟨_, -, htransfer⟩ := hrun
    refine (Write.transfer (mem_named hsource) (mem_named hreserve) (hsigners _ ?_)
      htransfer).writes
    obtain ⟨hsigned, -⟩ := D.lawful.transfer_ok htransfer
    simp only [signers, List.mem_map, List.mem_filter] at hsigned ⊢
    obtain ⟨info, ⟨hmem, hsigner⟩, hkey⟩ := hsigned
    refine ⟨info, ⟨?_, hsigner⟩, hkey⟩
    have hinfos : [a.sourceUser, a.reserve, a.systemProgram] ⊆ accounts := by simp [haccounts]
    exact hinfos hmem

/-! ## All instructions -/

theorem StakePool.checkOwner_signs {pool : StakePool} {info : AccountInfo} {u : Unit}
    (hinfo : info ∈ accounts) (h : pool.checkOwner info = .ok u) :
    pool.owner ∈ signers accounts := by
  obtain ⟨hkey, hsigner⟩ := StakePool.checkOwner_eq_ok.mp h
  rw [← hkey]
  exact List.mem_map_of_mem (List.mem_filter.mpr ⟨hinfo, hsigner⟩)

/-- Every instruction is a sequence of writes.  Only the owner has stake accounts opened, and
the signers, the reserve and the stake accounts that are counted pay. -/
theorem dispatch_writes (h : D.Represents c.ledger s) (ha : D.Addressed accounts)
    (hsigners : ∀ key ∈ signers accounts, key ∈ pays) (hpays : D.reserveKey ∈ pays)
    (hcounted : D.CountedIn pays s.list.validators) {instruction : StakePoolInstruction}
    (hrun : dispatch D.programs D.programId instruction accounts c = .ok L') :
    D.Writes accounts (s.pool.owner ∈ signers accounts) pays c.ledger L' := by
  cases instruction with
  | initializePool init => exact absurd hrun (processInitialize_fails h ha)
  | addValidator =>
      simp only [dispatch, processAddValidator, bind_eq_ok] at hrun
      obtain ⟨a, hparse, _, -, _, -, _, -, hstore⟩ := hrun
      obtain ⟨rest, haccounts⟩ := ValidatorAccounts.parse_ok hparse
      exact store_writes (by simp [haccounts]) hstore
  | removeValidator =>
      simp only [dispatch, processRemoveValidator, bind_eq_ok] at hrun
      obtain ⟨a, hparse, _, -, _, -, hstore⟩ := hrun
      obtain ⟨rest, haccounts⟩ := ValidatorAccounts.parse_ok hparse
      exact store_writes (by simp [haccounts]) hstore
  | updateListBalance =>
      simp only [dispatch, processUpdateListBalance, bind_eq_ok, Prod.exists] at hrun
      obtain ⟨a, hparse, _, hload, _, hlist, _, -, _, -, _, L₁, hupdate, hrun⟩ := hrun
      have haccounts := UpdateListBalanceAccounts.parse_ok hparse
      obtain rfl := h.load_pool (ha.key_eq haccounts) hload
      obtain ⟨-, rfl, -⟩ := h.load_list hlist
      have hwrites : D.Writes accounts (s.pool.owner ∈ signers accounts) pays c.ledger L₁ :=
        (updateValidators_writes (ha.key_eq haccounts) (by simp [haccounts]) _
          (fun info hinfo => by simp [haccounts, hinfo]) hcounted hupdate).1
      split at hrun
      · exact hwrites.trans (store_writes (by simp [haccounts]) hrun)
      · obtain rfl := pure_eq_ok.mp hrun
        exact hwrites
  | updatePoolBalance =>
      simp only [dispatch, processUpdatePoolBalance, bind_eq_ok] at hrun
      obtain ⟨a, hparse, _, -, _, -, _, -, _, -, hstore⟩ := hrun
      obtain ⟨rest, haccounts⟩ := UpdatePoolBalanceAccounts.parse_ok hparse
      exact store_writes (by simp [haccounts]) hstore
  | deposit amount =>
      simp only [dispatch, processDeposit, bind_eq_ok, require_eq_ok] at hrun
      obtain ⟨-, -, a, hparse, pool, hload, _, -, -, hreserve, -, -, -, htoken, -, -, _, -, _, -,
        _, -, L₁, hlamports, L₂, hmint, L₃, hmintFee, hstore⟩ := hrun
      obtain ⟨⟨rest, haccounts⟩, -⟩ := DepositAccounts.parse_ok hparse
      obtain rfl := h.load_pool (ha.key_eq haccounts) hload
      rw [h.wired.token_program] at htoken
      unfold tokenMintTo at hmint hmintFee
      rw [← htoken] at hmint hmintFee
      have hsource : a.reserve.key ∈ pays := by
        rw [hreserve, ha.key_eq haccounts]
        exact hpays
      have hpoolMint : a.poolMint.key ∈ Named accounts := mem_named (by simp [haccounts])
      have hdest : a.destUser.key ∈ Named accounts := mem_named (by simp [haccounts])
      have hfee : a.ownerFee.key ∈ Named accounts := mem_named (by simp [haccounts])
      exact (depositLamports_writes hparse htoken.symm hsigners hsource hlamports).trans
        ((Write.mintTo hpoolMint hdest hmint).writes.trans
          ((Write.mintTo hpoolMint hfee hmintFee).writes.trans
            (store_writes (by simp [haccounts]) hstore)))
  | withdraw n =>
      simp only [dispatch, processWithdraw, bind_eq_ok, require_eq_ok] at hrun
      obtain ⟨-, -, a, hparse, pool, hload, -, htoken, _, -, -, hreserve, _, -, -, -, L₁, hburn, L₂,
        htransfer, hstore⟩ := hrun
      obtain ⟨rest, haccounts⟩ := WithdrawAccounts.parse_ok hparse
      obtain rfl := h.load_pool (ha.key_eq haccounts) hload
      rw [h.wired.token_program] at htoken
      unfold tokenBurn at hburn
      rw [← htoken] at hburn
      have hsource : a.reserve.key ∈ pays := by
        rw [hreserve, ha.key_eq haccounts]
        exact hpays
      have hburned : D.Write accounts (s.pool.owner ∈ signers accounts) pays c.ledger L₁ :=
        .burn (mem_named (by simp [haccounts])) (mem_named (by simp [haccounts]))
          (mem_signs (by simp [haccounts]) _) hburn
      have hpaid : D.Write accounts (s.pool.owner ∈ signers accounts) pays L₁ L₂ :=
        .transfer (mem_named (by simp [haccounts])) (mem_named (by simp [haccounts]))
          hsource htransfer
      exact hburned.writes.trans (hpaid.writes.trans (store_writes (by simp [haccounts]) hstore))
  | setStakingAuthority => cases hrun
  | setOwner =>
      simp only [dispatch, processSetOwner, bind_eq_ok] at hrun
      obtain ⟨a, hparse, _, -, _, -, _, -, _, -, hstore⟩ := hrun
      obtain ⟨rest, haccounts⟩ := SetOwnerAccounts.parse_ok hparse
      exact store_writes (by simp [haccounts]) hstore
  | credit amount =>
      simp only [dispatch, processCredit, loadCredits, bind_eq_ok, require_eq_ok, pure_eq_ok,
        Prod.exists, Prod.mk.injEq] at hrun
      obtain ⟨-, -, a, hparse, pool, list, ⟨_, hload, -, htoken, _, -, -, -, rfl, rfl⟩, -, -, _, -,
        L₁, htransfer, hstore⟩ := hrun
      obtain ⟨rest, haccounts⟩ := CreditAccounts.parse_ok hparse
      obtain rfl := h.load_pool (ha.key_eq haccounts) hload
      rw [h.wired.token_program] at htoken
      rw [← htoken] at htransfer
      have hqueued : D.Write accounts (s.pool.owner ∈ signers accounts) pays c.ledger L₁ :=
        .tokenTransfer (mem_named (by simp [haccounts])) (mem_named (by simp [haccounts]))
          (mem_signs (by simp [haccounts]) _) htransfer
      exact hqueued.writes.trans (store_writes (by simp [haccounts]) hstore)
  | uncredit amount =>
      simp only [dispatch, processUncredit, loadCredits, bind_eq_ok, require_eq_ok, pure_eq_ok,
        Prod.exists, Prod.mk.injEq] at hrun
      obtain ⟨a, hparse, pool, list, ⟨_, hload, -, htoken, _, -, -, -, rfl, rfl⟩, _, -,
        L₁, htransfer, hstore⟩ := hrun
      obtain ⟨rest, haccounts⟩ := CreditAccounts.parse_ok hparse
      obtain rfl := h.load_pool (ha.key_eq haccounts) hload
      rw [h.wired.token_program] at htoken
      rw [← htoken] at htransfer
      have hreturned : D.Write accounts (s.pool.owner ∈ signers accounts) pays c.ledger L₁ :=
        .tokenTransfer (mem_named (by simp [haccounts])) (mem_named (by simp [haccounts]))
          (mem_signs (by simp [haccounts]) _) htransfer
      exact hreturned.writes.trans (store_writes (by simp [haccounts]) hstore)
  | delegateReserve instructions =>
      simp only [dispatch, processDelegateReserve, bind_eq_ok] at hrun
      obtain ⟨a, hparse, pool, hload, _, howner, list, -, _, -, _, -, _, hreserve, x, hloop,
        hfinish⟩ := hrun
      have haccounts := DelegateReserveAccounts.parse_ok hparse
      obtain rfl := h.load_pool (ha.key_eq haccounts) hload
      have hsigned : s.pool.owner ∈ signers accounts :=
        StakePool.checkOwner_signs (by simp [haccounts]) howner
      have hsource : a.reserve.key ∈ pays := by
        rw [require_eq_ok.mp hreserve, ha.key_eq haccounts]
        exact hpays
      have hwrites : D.Writes accounts (s.pool.owner ∈ signers accounts) pays c.ledger x.ledger :=
        delegateLoop_writes hsigned (ha.key_eq haccounts) (by simp [haccounts]) hsource instructions
          (fun info hinfo => by simp [haccounts, hinfo]) hloop
      exact hwrites.trans (finish_writes (by simp [haccounts]) hfinish)
  | mergeStakes instructions =>
      simp only [dispatch, processMergeStakes, bind_eq_ok] at hrun
      obtain ⟨a, hparse, _, -, list, -, _, -, x, hloop, hfinish⟩ := hrun
      have haccounts := MergeStakesAccounts.parse_ok hparse
      have hwrites : D.Writes accounts (s.pool.owner ∈ signers accounts) pays c.ledger x.ledger :=
        mergeLoop_writes instructions (fun info hinfo => by simp [haccounts, hinfo]) hloop
      exact hwrites.trans (finish_writes (by simp [haccounts]) hfinish)
  | unstake instructions =>
      simp only [dispatch, processUnstake, bind_eq_ok] at hrun
      obtain ⟨a, hparse, pool, hload, _, howner, list, -, _, -, x, hloop, hfinish⟩ := hrun
      have haccounts := UnstakeAccounts.parse_ok hparse
      obtain rfl := h.load_pool (ha.key_eq haccounts) hload
      have hsigned : s.pool.owner ∈ signers accounts :=
        StakePool.checkOwner_signs (by simp [haccounts]) howner
      have hwrites : D.Writes accounts (s.pool.owner ∈ signers accounts) pays c.ledger x.ledger :=
        unstakeLoop_writes hsigned (ha.key_eq haccounts) (by simp [haccounts])
          (hsigners _ ((StakePool.checkOwner_eq_ok.mp howner).1 ▸ hsigned)) instructions
          (fun info hinfo => by simp [haccounts, hinfo]) hloop
      exact hwrites.trans (finish_writes (by simp [haccounts]) hfinish)
  | payCreditors =>
      simp only [dispatch, processPayCreditors, payCreditors, loadPayCreditors, bind_eq_ok,
        require_eq_ok, pure_eq_ok, Prod.exists, Prod.mk.injEq] at hrun
      obtain ⟨_, L, ⟨a, hparse, pool, list, ⟨_, hload, -, htoken, _, -, -, -, _, -, -, hreserve,
        -, -, rfl, rfl⟩, x, rest, hloop, L₁, hcredits, L₂, hstore, -, rfl⟩, rfl⟩ := hrun
      have haccounts := PayCreditorsAccounts.parse_ok hparse
      obtain rfl := h.load_pool (ha.key_eq haccounts) hload
      rw [h.wired.token_program] at htoken
      have hsource : a.reserve.key ∈ pays := by
        rw [hreserve, ha.key_eq haccounts]
        exact hpays
      have hwrites : D.Writes accounts (s.pool.owner ∈ signers accounts) pays c.ledger x.ledger :=
        payLoop_writes htoken.symm hsource (by simp [haccounts]) _
          (fun info hinfo => by simp [haccounts, hinfo]) hloop
      exact hwrites.trans ((store_writes (by simp [haccounts]) hcredits).trans
        (store_writes (by simp [haccounts]) hstore))

/-- In a reachable state only the owner of the pool has stake accounts opened. -/
theorem reachable_writes {env : Chain → Chain → Prop} {c' : Chain}
    (h : (D.system D.Outside).Reachable c) {instruction : StakePoolInstruction}
    (hstep : (D.system env).step c (.instruction instruction accounts) c') :
    D.Writes accounts ((D.stateOf c.ledger).pool.owner ∈ signers accounts) (D.Signs accounts)
      c.ledger c'.ledger := by
  obtain ⟨ha, L', hrun, rfl⟩ := hstep
  exact dispatch_writes (reachable_represents h) ha (fun _ hsigner => .inl hsigner)
    (.inr ⟨_, D.lawful.authority_address _ _ _⟩)
    (fun r _ i _ => .inr (stakeKey_isProgramAddress r.validatorAccount i)) hrun

end Tenderize
