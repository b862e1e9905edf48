import Tenderize.Refinement.Owners
import Tenderize.Refinement.Sweep

/-!
# The stake accounts through the handlers

Handlers that do not work on stakes spare the accounts at the stake addresses.  The four
that do leave sound stake accounts behind.  `Withdraw` pays to an account of the caller's
choice, so it can send lamports to a stake account that was merged away.
-/

namespace Tenderize

open Support

variable {D : Deployment} {quiet : Prop} {W : Set Pubkey} {L L' L'' : Ledger}

namespace Deployment

theorem SoundStakes.imp {quiet' : Prop} (h : D.SoundStakes quiet W L) (himp : quiet' → quiet) :
    D.SoundStakes quiet' W L :=
  fun v hv i => (h v hv i).imp himp

variable (D quiet W) in
/-- Sound accounts at stake addresses are spared. -/
def Sparing (L L' : Ledger) : Prop :=
  D.SoundStakes quiet W L →
    ∀ v ∈ W, ∀ i, (L (D.stakeKey v i)).Spared quiet (L' (D.stakeKey v i))

namespace Sparing

theorem sound (h : D.Sparing quiet W L L') (hL : D.SoundStakes quiet W L) :
    D.SoundStakes quiet W L' :=
  fun v hv i => (hL v hv i).spared (h hL v hv i)

theorem of_eq (h : ∀ v ∈ W, ∀ i, D.SoundStake quiet (L (D.stakeKey v i)) →
    L' (D.stakeKey v i) = L (D.stakeKey v i)) : D.Sparing quiet W L L' :=
  fun hL v hv i => .of_eq (h v hv i (hL v hv i))

theorem refl (L : Ledger) : D.Sparing quiet W L L :=
  .of_eq fun _ _ _ _ => rfl

theorem trans (h : D.Sparing quiet W L L') (h' : D.Sparing quiet W L' L'') :
    D.Sparing quiet W L L'' :=
  fun hL v hv i => (h hL v hv i).trans (h' (h.sound hL) v hv i)

end Sparing

/-! ## Calls -/

section Calls

variable {source target account mint authority owner key : Pubkey} {n : UInt64}
  {sigs : List Pubkey}

theorem store_sparing {write : AccountData → Except ProgramError AccountData}
    (h : store D.programId key write L = .ok L') : D.Sparing quiet W L L' :=
  .of_eq fun _ _ _ hsound => store_of_owner hsound.owner_ne_program h

theorem burn_sparing (h : D.programs.burn splTokenId account mint authority n sigs L = .ok L') :
    D.Sparing quiet W L L' :=
  .of_eq fun _ _ _ hsound => D.lawful.burn_of_owner hsound.owner_ne_token h

theorem mintTo_sparing
    (h : D.programs.mintTo splTokenId mint account authority n sigs L = .ok L') :
    D.Sparing quiet W L L' :=
  .of_eq fun _ _ _ hsound => D.lawful.mintTo_of_owner hsound.owner_ne_token h

theorem tokenTransfer_sparing
    (h : D.programs.tokenTransfer splTokenId source target authority n sigs L = .ok L') :
    D.Sparing quiet W L L' :=
  .of_eq fun _ _ _ hsound => D.lawful.tokenTransfer_of_owner hsound.owner_ne_token h

theorem initializeAccount_sparing
    (h : D.programs.initializeAccount splTokenId account mint owner L = .ok L') :
    D.Sparing quiet W L L' :=
  .of_eq fun _ _ _ hsound => D.lawful.initializeAccount_of_owner hsound.owner_ne_token h

theorem closeAccount_sparing (hW : D.NoCollision W)
    (h : D.programs.closeAccount splTokenId account D.reserveKey authority sigs L = .ok L') :
    D.Sparing quiet W L L' :=
  .of_eq fun v hv i hsound =>
    D.lawful.closeAccount_of_owner hsound.owner_ne_token (hW.ne_reserve v hv i) h

theorem transfer_sparing (hsource : ∀ v ∈ W, ∀ i, D.stakeKey v i ≠ source)
    (htarget : quiet → (L target).owner = stakeProgramId → (L target).lamports ≠ 0)
    (h : D.programs.transfer source target n sigs L = .ok L') : D.Sparing quiet W L L' := by
  intro _ v hv i
  refine transfer_spares (hsource v hv i) ?_ h
  intro hq heq howner
  rw [heq] at howner ⊢
  exact htarget hq howner

/-- A signer of the instruction pays into the reserve. -/
theorem deposit_sparing (hW : D.NoCollision W)
    (hsource : ¬D.programs.IsProgramAddress D.programId source)
    (h : D.programs.transfer source D.reserveKey n sigs L = .ok L') :
    D.Sparing quiet W L L' := by
  intro _ v hv i
  refine transfer_spares ?_ (fun _ heq => absurd heq (hW.ne_reserve v hv i)) h
  rintro rfl
  exact hsource (D.stakeKey_isProgramAddress v i)

theorem createTemp_sparing (hW : D.Separate W) {space : Nat}
    (h : D.programs.createAccount D.reserveKey D.tempKey n space owner sigs L = .ok L') :
    D.Sparing quiet W L L' :=
  .of_eq fun v hv i _ =>
    D.lawful.createAccount_of_ne h (hW.ne_reserve v hv i) (hW.ne_authority v hv i .temp)

end Calls

end Deployment

/-! ## Handlers that spare the stakes -/

/-- The instruction pays to a stake account without lamports. -/
def Event.Revives (c : Chain) : Event → Prop
  | .instruction (.withdraw _) accounts =>
      ∃ info, accounts[5]? = some info ∧ (c.ledger info.key).owner = stakeProgramId ∧
        (c.ledger info.key).lamports = 0
  | _ => False

/-- The instructions that work on stake accounts. -/
def StakePoolInstruction.Stakes : StakePoolInstruction → Prop
  | .updateListBalance => True
  | .delegateReserve _ => True
  | .mergeStakes _ => True
  | .unstake _ => True
  | _ => False

open Deployment

variable {c : Chain} {s : PoolState} {accounts : List AccountInfo}

section Spare

variable (h : D.Represents c.ledger s) (ha : D.Addressed accounts) (hW : D.Separate W)

include hW

theorem depositLamports_sparing {a : DepositAccounts} {amount : UInt64}
    {withdrawBump reserveBump : UInt8} (hpool : a.stakePool.key = D.poolKey)
    (hreserve : a.reserve.key = D.reserveKey) (htoken : a.tokenProgram.key = splTokenId)
    (hunsigned : D.Unsigned [a.sourceUser, a.reserve, a.systemProgram])
    (hrun : depositLamports D.programs D.programId amount a withdrawBump reserveBump c = .ok L') :
    D.Sparing quiet W c.ledger L' := by
  unfold depositLamports at hrun
  split at hrun
  · simp only [depositWrapped, bind_eq_ok, require_eq_ok, htoken] at hrun
    obtain ⟨-, htempKey, -, -, L₁, hcreate, L₂, hinit, L₃, hpay, hclose⟩ := hrun
    rw [hpool] at htempKey
    rw [htempKey, hreserve] at hcreate
    rw [hreserve] at hclose
    exact (((createTemp_sparing hW hcreate).trans (initializeAccount_sparing hinit)).trans
      (tokenTransfer_sparing hpay)).trans (closeAccount_sparing hW.toNoCollision hclose)
  · simp only [bind_eq_ok] at hrun
    obtain ⟨_, -, htransfer⟩ := hrun
    rw [hreserve] at htransfer
    obtain ⟨hsigned, -⟩ := D.lawful.transfer_ok htransfer
    simp only [signers, List.mem_map, List.mem_filter] at hsigned
    obtain ⟨info, ⟨hinfo, hsigner⟩, hkey⟩ := hsigned
    refine deposit_sparing hW.toNoCollision ?_ htransfer
    rw [← hkey]
    exact hunsigned info hinfo hsigner

theorem payLoop_sparing {a : PayCreditorsAccounts} {reserveBump : UInt8} {available : UInt64}
    (htoken : a.tokenProgram.key = splTokenId) (hreserve : a.reserve.key = D.reserveKey)
    (users : List AccountInfo) :
    ∀ {credits rest : List CreditRecord} {x x' : PayState},
      payLoop D.programs D.programId a reserveBump available users credits x = .ok (x', rest) →
      D.Sparing quiet W x.ledger x'.ledger := by
  induction users with
  | nil =>
      intro credits rest x x' hrun
      cases credits with
      | nil =>
          obtain ⟨rfl, -⟩ := Prod.mk.inj (Except.ok.inj hrun)
          exact .refl _
      | cons credit credits =>
          obtain ⟨rfl, -⟩ := Prod.mk.inj (Except.ok.inj hrun)
          exact .refl _
  | cons user users ih =>
      intro credits rest x x' hrun
      cases credits with
      | nil =>
          obtain ⟨rfl, -⟩ := Prod.mk.inj (Except.ok.inj hrun)
          exact .refl _
      | cons credit credits =>
          simp only [payLoop, bind_eq_ok, require_eq_ok] at hrun
          obtain ⟨-, huser, hrun⟩ := hrun
          split at hrun
          case isTrue =>
            exact ih (x := { x with invalidCredits := x.invalidCredits ++ [credit] }) hrun
          case isFalse hsystem =>
            simp only [bind_eq_ok] at hrun
            obtain ⟨stakeAmount, -, hrun⟩ := hrun
            split at hrun
            · obtain ⟨rfl, -⟩ := Prod.mk.inj (pure_eq_ok.mp hrun)
              exact .refl _
            · simp only [bind_eq_ok, payCredit, pure_eq_ok, tokenBurn, htoken] at hrun
              obtain ⟨_, ⟨L₁, hburn, L₂, htransfer, rfl⟩, hrest⟩ := hrun
              rw [hreserve] at htransfer
              -- the target was checked to be a system account
              have howner : (L₁ credit.solTarget).owner = systemProgramId := by
                rw [D.lawful.burn_owners (T := ∅) hburn _ id, ← huser]
                exact not_not.mp hsystem
              refine ((burn_sparing hburn).trans (transfer_sparing
                (fun v hv i => hW.ne_reserve v hv i) (fun _ hstake => ?_) htransfer)).trans
                (ih hrest)
              exact absurd (hstake.symm.trans howner) stakeProgramId_ne_system

include h ha

theorem processDeposit_sparing {amount : UInt64}
    (hrun : processDeposit D.programs D.programId amount accounts c = .ok L') :
    D.Sparing quiet W c.ledger L' := by
  simp only [processDeposit, bind_eq_ok, require_eq_ok] at hrun
  obtain ⟨-, -, a, hparse, pool, hload, _, -, -, hreserve, -, -, -, htoken, -, -, _, -, _, -, _, -,
    L₁, hlamports, L₂, hmint, L₃, hmintFee, hstore⟩ := hrun
  obtain ⟨⟨rest, haccounts⟩, -⟩ := DepositAccounts.parse_ok hparse
  have hkey := ha.key_eq haccounts
  obtain rfl := h.load_pool hkey hload
  rw [h.wired.token_program] at htoken
  rw [hkey] at hreserve
  unfold tokenMintTo at hmint hmintFee
  rw [← htoken] at hmint hmintFee
  have hunsigned : D.Unsigned [a.sourceUser, a.reserve, a.systemProgram] := by
    intro info hinfo
    apply ha.unsigned
    rw [haccounts]
    simp only [List.mem_cons, List.not_mem_nil, or_false] at hinfo ⊢
    tauto
  exact (((depositLamports_sparing hW hkey hreserve htoken.symm hunsigned hlamports).trans
    (mintTo_sparing hmint)).trans (mintTo_sparing hmintFee)).trans (store_sparing hstore)

theorem processWithdraw_sparing {n : UInt64}
    (hquiet : quiet → ¬Event.Revives c (.instruction (.withdraw n) accounts))
    (hrun : processWithdraw D.programs D.programId n accounts c = .ok L') :
    D.Sparing quiet W c.ledger L' := by
  simp only [processWithdraw, bind_eq_ok, require_eq_ok] at hrun
  obtain ⟨-, -, a, hparse, pool, hload, -, htoken, _, -, -, hreserve, _, -, -, -, L₁, hburn, L₂,
    htransfer, hstore⟩ := hrun
  obtain ⟨rest, haccounts⟩ := WithdrawAccounts.parse_ok hparse
  have hkey := ha.key_eq haccounts
  obtain rfl := h.load_pool hkey hload
  rw [h.wired.token_program] at htoken
  rw [hkey] at hreserve
  rw [hreserve] at htransfer
  unfold tokenBurn at hburn
  rw [← htoken] at hburn
  refine ((burn_sparing hburn).trans (transfer_sparing (fun v hv i => hW.ne_reserve v hv i) ?_
    htransfer)).trans (store_sparing hstore)
  intro hq howner hzero
  have hnot : (c.ledger a.target.key).owner ≠ splTokenId := by
    rw [← D.lawful.burn_owners (T := ∅) hburn _ id, howner]
    exact splTokenId_ne_stake.symm
  rw [D.lawful.burn_of_owner hnot hburn] at howner hzero
  refine hquiet hq ⟨a.target, ?_, howner, hzero⟩
  rw [haccounts]
  rfl

/-- What does not work on stake accounts spares them. -/
theorem dispatch_sparing {instruction : StakePoolInstruction} (hother : ¬instruction.Stakes)
    (hquiet : quiet → ¬Event.Revives c (.instruction instruction accounts))
    (hrun : dispatch D.programs D.programId instruction accounts c = .ok L') :
    D.Sparing quiet W c.ledger L' := by
  cases instruction with
  | initializePool init => exact absurd hrun (processInitialize_fails h ha)
  | addValidator =>
      simp only [dispatch, processAddValidator, bind_eq_ok] at hrun
      obtain ⟨_, -, _, -, _, -, _, -, hstore⟩ := hrun
      exact store_sparing hstore
  | removeValidator =>
      simp only [dispatch, processRemoveValidator, bind_eq_ok] at hrun
      obtain ⟨_, -, _, -, _, -, hstore⟩ := hrun
      exact store_sparing hstore
  | updatePoolBalance =>
      simp only [dispatch, processUpdatePoolBalance, bind_eq_ok] at hrun
      obtain ⟨_, -, _, -, _, -, _, -, _, -, hstore⟩ := hrun
      exact store_sparing hstore
  | deposit amount => exact processDeposit_sparing h ha hW hrun
  | withdraw n => exact processWithdraw_sparing h ha hW hquiet hrun
  | setStakingAuthority => cases hrun
  | setOwner =>
      simp only [dispatch, processSetOwner, bind_eq_ok] at hrun
      obtain ⟨_, -, _, -, _, -, _, -, _, -, hstore⟩ := hrun
      exact store_sparing hstore
  | credit amount =>
      simp only [dispatch, processCredit, loadCredits, bind_eq_ok, require_eq_ok, pure_eq_ok,
        Prod.exists, Prod.mk.injEq] at hrun
      obtain ⟨-, -, a, hparse, pool, list, ⟨_, hload, -, htoken, _, -, -, -, rfl, rfl⟩, -, -, _, -,
        L₁, htransfer, hstore⟩ := hrun
      obtain ⟨rest, haccounts⟩ := CreditAccounts.parse_ok hparse
      obtain rfl := h.load_pool (ha.key_eq haccounts) hload
      rw [h.wired.token_program] at htoken
      rw [← htoken] at htransfer
      exact (tokenTransfer_sparing htransfer).trans (store_sparing hstore)
  | uncredit amount =>
      simp only [dispatch, processUncredit, loadCredits, bind_eq_ok, require_eq_ok, pure_eq_ok,
        Prod.exists, Prod.mk.injEq] at hrun
      obtain ⟨a, hparse, pool, list, ⟨_, hload, -, htoken, _, -, -, -, rfl, rfl⟩, _, -,
        L₁, htransfer, hstore⟩ := hrun
      obtain ⟨rest, haccounts⟩ := CreditAccounts.parse_ok hparse
      obtain rfl := h.load_pool (ha.key_eq haccounts) hload
      rw [h.wired.token_program] at htoken
      rw [← htoken] at htransfer
      exact (tokenTransfer_sparing htransfer).trans (store_sparing hstore)
  | payCreditors =>
      simp only [dispatch, processPayCreditors, payCreditors, loadPayCreditors, bind_eq_ok,
        require_eq_ok, pure_eq_ok, Prod.exists, Prod.mk.injEq] at hrun
      obtain ⟨_, L, ⟨a, hparse, pool, list, ⟨_, hload, -, htoken, _, -, -, -, _, -, -, hreserve, -,
        -, rfl, rfl⟩, x, rest, hloop, L₁, hcredits, L₂, hstore, -, rfl⟩, rfl⟩ := hrun
      have hkey := ha.key_eq (PayCreditorsAccounts.parse_ok hparse)
      obtain rfl := h.load_pool hkey hload
      rw [h.wired.token_program] at htoken
      rw [hkey] at hreserve
      exact ((payLoop_sparing hW htoken.symm hreserve _ hloop).trans
        (store_sparing hcredits)).trans (store_sparing hstore)
  | _ => exact absurd trivial hother

end Spare

/-! ## Handlers that work on the stakes -/

namespace Deployment.SoundStakes

variable {v : Pubkey} {i : UInt32}

/-- The account at one stake address is written, the others stay as they are. -/
theorem write (hL : D.SoundStakes quiet W L) (hnew : D.SoundStake quiet (L' (D.stakeKey v i)))
    (hothers : ∀ v' ∈ W, ∀ i', D.stakeKey v' i' ≠ D.stakeKey v i →
      L' (D.stakeKey v' i') = L (D.stakeKey v' i')) : D.SoundStakes quiet W L' := by
  intro v' hv' i'
  by_cases hsame : D.stakeKey v' i' = D.stakeKey v i
  · rw [hsame]
    exact hnew
  · rw [hothers v' hv' i' hsame]
    exact hL v' hv' i'

end Deployment.SoundStakes

/-- The validators of the records are in `W`. -/
def RecordsIn (W : Set Pubkey) (V : List ValidatorStakeInfo) : Prop :=
  ∀ r ∈ V, r.validatorAccount ∈ W

theorem RecordsIn.putRecord {V : List ValidatorStakeInfo} {r r' : ValidatorStakeInfo}
    (h : RecordsIn W V) (hr : r ∈ V) (hname : r'.validatorAccount = r.validatorAccount) :
    RecordsIn W (putRecord r' V) := by
  intro x hx
  rcases mem_updateFirst hx with rfl | hx
  · rw [hname]
    exact h r hr
  · exact h x hx

theorem finish_sparing {x : BatchState} {list : ValidatorStakeList} {key : Pubkey}
    (hrun : x.finish D.programId list key = .ok L') : D.Sparing quiet W x.ledger L' := by
  unfold BatchState.finish at hrun
  split at hrun
  · exact store_sparing hrun
  · obtain rfl := Except.ok.inj hrun
    exact .refl _

variable (hS : D.programs.StakeRules)

section Delegate

variable {a : DelegateReserveAccounts} {clock : Clock} {depositBump reserveBump : UInt8}
  {available : UInt64} (hpool : a.stakePool.key = D.poolKey)
  (hreserve : a.reserve.key = D.reserveKey) (hwithdraw : a.withdraw.key = D.withdrawKey)
  (hW : D.NoCollision W)

include hS hreserve hW

theorem redelegateStake_sound {vote stake : AccountInfo} {lamports : UInt64} {v : Pubkey}
    {i : UInt32} (hv : v ∈ W) (hstake : stake.key = D.stakeKey v i)
    (hL : D.SoundStakes quiet W L)
    (hrun : redelegateStake D.programs D.programId a clock depositBump reserveBump vote stake
      lamports L = .ok L') : D.SoundStakes quiet W L' := by
  simp only [redelegateStake, bind_eq_ok, hreserve, hstake] at hrun
  obtain ⟨L₁, htransfer, hdelegate⟩ := hrun
  have hspared : (L (D.stakeKey v i)).Spared False (L₁ (D.stakeKey v i)) :=
    transfer_spares (hW.ne_reserve v hv i) False.elim htransfer
  obtain ⟨⟨state, m, hlive⟩, hothers⟩ :=
    delegateStake_live hS (((hL v hv i).imp False.elim).spared hspared) hdelegate
  obtain ⟨-, -, -, -, rfl⟩ := D.lawful.transfer_ok htransfer
  refine hL.write (.live state m hlive) ?_
  intro v' hv' i' hne
  rw [hothers _ hne, L.moveLamports_of_ne _ (hW.ne_reserve v' hv' i') hne]

include hwithdraw

theorem initStake_sound {vote stake : AccountInfo} {stakeBump : UInt8} {index : UInt32}
    {lamports : UInt64} {v : Pubkey} {i : UInt32} (hstake : stake.key = D.stakeKey v i)
    (hL : D.SoundStakes quiet W L)
    (hrun : initStake D.programs D.programId a clock depositBump reserveBump vote stake stakeBump
      index lamports L = .ok L') : D.SoundStakes quiet W L' := by
  simp only [initStake, bind_eq_ok, hreserve, hstake, hwithdraw] at hrun
  obtain ⟨-, -, L₁, hcreate, L₂, hinit, hdelegate⟩ := hrun
  obtain ⟨⟨state₂, m₂, hlive₂⟩, hothers₂⟩ := stakeInitialize_live hS hinit
  obtain ⟨⟨state, m, hlive⟩, hothers⟩ := delegateStake_live hS (.live state₂ m₂ hlive₂) hdelegate
  refine hL.write (.live state m hlive) ?_
  intro v' hv' i' hne
  rw [hothers _ hne, hothers₂ _ hne,
    D.lawful.createAccount_of_ne hcreate (hW.ne_reserve v' hv' i') hne]

include hpool

theorem delegateOne_sound {total : UInt64} {instruction : DelegateReserveInstruction}
    {x x' : BatchState} (hx : RecordsIn W x.validators) (hL : D.SoundStakes quiet W x.ledger)
    (hrun : delegateOne D.programs D.programId a clock depositBump reserveBump available total
      instruction x = .ok x') :
    D.SoundStakes quiet W x'.ledger ∧ RecordsIn W x'.validators := by
  simp only [delegateOne, bind_eq_ok, require_eq_ok, okOr_eq_ok, Prod.exists,
    nextAccountInfo_eq_ok, checkValidatorStakeAddress_eq_ok] at hrun
  obtain ⟨vote, _, -, stake, _, -, record, hrecord, -, -, -, -, _, ⟨hstake, -⟩, hrun⟩ := hrun
  have hr := lookup_mem hrecord
  rw [hpool] at hstake
  split at hrun
  · obtain ⟨L, hinit, hrun⟩ := bind_eq_ok.mp hrun
    obtain rfl := pure_eq_ok.mp hrun
    exact ⟨initStake_sound hS hreserve hwithdraw hW hstake hL hinit, hx.putRecord hr rfl⟩
  · obtain ⟨L, hredelegate, hrun⟩ := bind_eq_ok.mp hrun
    obtain rfl := pure_eq_ok.mp hrun
    exact ⟨redelegateStake_sound hS hreserve hW (hx record hr) hstake hL hredelegate,
      hx.putRecord hr rfl⟩

theorem delegateLoop_sound (instructions : List DelegateReserveInstruction) :
    ∀ {total : UInt64} {x x' : BatchState}, RecordsIn W x.validators →
      D.SoundStakes quiet W x.ledger →
      delegateLoop D.programs D.programId a clock depositBump reserveBump available instructions
        total x = .ok x' → D.SoundStakes quiet W x'.ledger := by
  induction instructions with
  | nil =>
      intro total x x' _ hL hrun
      obtain rfl := Except.ok.inj hrun
      exact hL
  | cons instruction instructions ih =>
      intro total x x' hx hL hrun
      simp only [delegateLoop, bind_eq_ok] at hrun
      obtain ⟨x₁, hone, hrest⟩ := hrun
      obtain ⟨hL₁, hx₁⟩ := delegateOne_sound hS hpool hreserve hwithdraw hW hx hL hone
      exact ih hx₁ hL₁ hrest

end Delegate

section Merge

variable {a : MergeStakesAccounts} {clock : Clock} {depositBump : UInt8}
  (hpool : a.stakePool.key = D.poolKey)

include hS hpool

theorem mergeOne_sound {instruction : MergeStakesInstruction} {x x' : BatchState}
    (hx : RecordsIn W x.validators) (hL : D.SoundStakes quiet W x.ledger)
    (hrun : mergeOne D.programs D.programId a clock depositBump instruction x = .ok x') :
    D.SoundStakes quiet W x'.ledger ∧ RecordsIn W x'.validators := by
  simp only [mergeOne, bind_eq_ok, Prod.exists, require_eq_ok, okOr_eq_ok, nextAccountInfo_eq_ok,
    checkValidatorStakeAddress_eq_ok] at hrun
  obtain ⟨main, _, -, additional, _, -, record, hrecord, -, -, _, ⟨hmain, -⟩, _,
    ⟨hadditional, -⟩, _, -, _, -, hrun⟩ := hrun
  have hr := lookup_mem hrecord
  rw [hpool] at hmain hadditional
  split at hrun
  · obtain rfl := pure_eq_ok.mp hrun
    exact ⟨hL, hx⟩
  · obtain ⟨L, hmerge, hrun⟩ := bind_eq_ok.mp hrun
    rw [hmain, hadditional] at hmerge
    have hsound : ∀ i, D.SoundStake quiet (x.ledger (D.stakeKey record.validatorAccount i)) :=
      hL _ (hx record hr)
    obtain ⟨htarget, hsource, hothers⟩ : D.SoundStake quiet _ ∧ _ :=
      merge_sound hS ((hsound _).imp False.elim) ((hsound _).imp False.elim) hmerge
    have hL' : D.SoundStakes quiet W L := by
      intro v hv i
      by_cases hks : D.stakeKey v i = D.stakeKey record.validatorAccount
          instruction.additionalIndex
      · rw [hks]
        exact hsource
      · by_cases hkt : D.stakeKey v i = D.stakeKey record.validatorAccount instruction.mainIndex
        · rw [hkt]
          exact htarget
        · rw [hothers _ hks hkt]
          exact hL v hv i
    split at hrun
    · obtain rfl := pure_eq_ok.mp hrun
      exact ⟨hL', hx.putRecord hr rfl⟩
    · obtain rfl := pure_eq_ok.mp hrun
      exact ⟨hL', hx⟩

theorem mergeLoop_sound (instructions : List MergeStakesInstruction) :
    ∀ {x x' : BatchState}, RecordsIn W x.validators → D.SoundStakes quiet W x.ledger →
      mergeLoop D.programs D.programId a clock depositBump instructions x = .ok x' →
      D.SoundStakes quiet W x'.ledger := by
  induction instructions with
  | nil =>
      intro x x' _ hL hrun
      obtain rfl := Except.ok.inj hrun
      exact hL
  | cons instruction instructions ih =>
      intro x x' hx hL hrun
      simp only [mergeLoop, bind_eq_ok] at hrun
      obtain ⟨x₁, hone, hrest⟩ := hrun
      obtain ⟨hL₁, hx₁⟩ := mergeOne_sound hS hpool hx hL hone
      exact ih hx₁ hL₁ hrest

end Merge

section Unstake

variable {a : UnstakeAccounts} {depositBump : UInt8} (hpool : a.stakePool.key = D.poolKey)
  (howner : ¬D.programs.IsProgramAddress D.programId a.owner.key)

include hS howner

theorem splitAndDeactivate_sound {instruction : UnstakeInstruction} {source split : AccountInfo}
    {splitBump : UInt8} {v v' : Pubkey} {i i' : UInt32} (hv : v ∈ W)
    (hsource : source.key = D.stakeKey v i) (hsplit : split.key = D.stakeKey v' i')
    (hL : D.SoundStakes quiet W L)
    (hrun : splitAndDeactivate D.programs D.programId a c depositBump instruction source split
      splitBump L = .ok L') : D.SoundStakes quiet W L' := by
  have hpayer : ∀ v i, D.stakeKey v i ≠ a.owner.key := by
    intro v i heq
    rw [← heq] at howner
    exact howner (D.stakeKey_isProgramAddress v i)
  simp only [splitAndDeactivate, deactivate, bind_eq_ok, hsource, hsplit] at hrun
  obtain ⟨L₁, hcreate, L₂, hcut, hdeactivate⟩ := hrun
  obtain ⟨hne, -⟩ := D.lawful.splitOnly_ok hcut
  have hbefore : L₁ (D.stakeKey v i) = L (D.stakeKey v i) :=
    D.lawful.createAccount_of_ne hcreate (hpayer v i) hne
  have hsound : D.SoundStake False (L₁ (D.stakeKey v i)) := by
    rw [hbefore]
    exact (hL v hv i).imp False.elim
  obtain ⟨hleft, ⟨state₂, m₂, hnew₂⟩, hothers₂⟩ : D.SoundStake quiet _ ∧ _ :=
    splitOnly_sound hS hsound hcut
  obtain ⟨⟨state, m, hnew⟩, hothers⟩ :=
    deactivateStake_live hS (.live state₂ m₂ hnew₂) hdeactivate
  intro v₁ hv₁ i₁
  by_cases hks : D.stakeKey v₁ i₁ = D.stakeKey v' i'
  · rw [hks]
    exact .live state m hnew
  · rw [hothers _ hks]
    by_cases hkt : D.stakeKey v₁ i₁ = D.stakeKey v i
    · rw [hkt]
      exact hleft
    · rw [hothers₂ _ hkt hks, D.lawful.createAccount_of_ne hcreate (hpayer v₁ i₁) hks]
      exact hL v₁ hv₁ i₁

include hpool

theorem unstakeOne_sound {instruction : UnstakeInstruction} {x x' : BatchState}
    (hx : RecordsIn W x.validators) (hL : D.SoundStakes quiet W x.ledger)
    (hrun : unstakeOne D.programs D.programId a c depositBump instruction x = .ok x') :
    D.SoundStakes quiet W x'.ledger ∧ RecordsIn W x'.validators := by
  simp only [unstakeOne, bind_eq_ok, require_eq_ok, okOr_eq_ok, Prod.exists,
    nextAccountInfo_eq_ok, checkValidatorStakeAddress_eq_ok] at hrun
  obtain ⟨record, hrecord, -, -, -, -, source, _, -, _, ⟨hsource, -⟩, hrun⟩ := hrun
  have hr := lookup_mem hrecord
  rw [hpool] at hsource
  split at hrun
  · simp only [bind_eq_ok, pure_eq_ok, deactivate] at hrun
    obtain ⟨L, hcall, rfl⟩ := hrun
    rw [hsource] at hcall
    have hbefore := hL _ (hx record hr) instruction.sourceIndex
    obtain ⟨⟨state, m, hlive⟩, hothers⟩ :=
      deactivateStake_live hS (hbefore.imp False.elim) hcall
    exact ⟨hL.write (.live state m hlive) (fun _ _ _ hne => hothers _ hne), hx⟩
  · simp only [bind_eq_ok, Prod.exists, nextAccountInfo_eq_ok,
      checkValidatorStakeAddress_eq_ok] at hrun
    obtain ⟨split, _, -, _, ⟨hsplit, -⟩, L, hcut, hrun⟩ := hrun
    rw [hpool] at hsplit
    have hL' := splitAndDeactivate_sound hS howner (hx record hr) hsource hsplit hL hcut
    split at hrun
    · obtain rfl := pure_eq_ok.mp hrun
      exact ⟨hL', hx.putRecord hr rfl⟩
    · obtain rfl := pure_eq_ok.mp hrun
      exact ⟨hL', hx⟩

theorem unstakeLoop_sound (instructions : List UnstakeInstruction) :
    ∀ {x x' : BatchState}, RecordsIn W x.validators → D.SoundStakes quiet W x.ledger →
      unstakeLoop D.programs D.programId a c depositBump instructions x = .ok x' →
      D.SoundStakes quiet W x'.ledger := by
  induction instructions with
  | nil =>
      intro x x' _ hL hrun
      obtain rfl := Except.ok.inj hrun
      exact hL
  | cons instruction instructions ih =>
      intro x x' hx hL hrun
      simp only [unstakeLoop, bind_eq_ok] at hrun
      obtain ⟨x₁, hone, hrest⟩ := hrun
      obtain ⟨hL₁, hx₁⟩ := unstakeOne_sound hS hpool howner hx hL hone
      exact ih hx₁ hL₁ hrest

end Unstake

/-! ## All instructions -/

include hS in
theorem dispatch_sound (h : D.Represents c.ledger s) (ha : D.Addressed accounts)
    (hW : D.Separate W) (hV : Listed W s.list.validators) (hL : D.SoundStakes quiet W c.ledger)
    {instruction : StakePoolInstruction}
    (hquiet : quiet → ¬Event.Revives c (.instruction instruction accounts))
    (hrun : dispatch D.programs D.programId instruction accounts c = .ok L') :
    D.SoundStakes quiet W L' := by
  cases instruction with
  | updateListBalance =>
      obtain ⟨V', hswept, -⟩ := processUpdateListBalance_sweeps h ha hS hW (hL.imp False.elim) hV
        (RefreshedTo.nothing hL) hrun
      exact hswept.ledger.sound
  | delegateReserve instructions =>
      simp only [dispatch, processDelegateReserve, bind_eq_ok, require_eq_ok] at hrun
      obtain ⟨a, hparse, _, hload, _, -, list, hlist, _, -, _, hwithdraw, -, hreserve, x, hloop,
        hfinish⟩ := hrun
      have hkey := ha.key_eq (DelegateReserveAccounts.parse_ok hparse)
      obtain rfl := h.load_pool hkey hload
      obtain ⟨-, rfl, -⟩ := h.load_list hlist
      rw [hkey] at hreserve hwithdraw
      have hend := delegateLoop_sound hS hkey hreserve (h.withdraw_checked hwithdraw)
        hW.toNoCollision instructions (x := ⟨s.list.validators, false, a.rest, c.ledger⟩)
        hV.names hL hloop
      exact (finish_sparing hfinish).sound hend
  | mergeStakes instructions =>
      simp only [dispatch, processMergeStakes, bind_eq_ok] at hrun
      obtain ⟨a, hparse, _, hload, list, hlist, _, -, x, hloop, hfinish⟩ := hrun
      have hkey := ha.key_eq (MergeStakesAccounts.parse_ok hparse)
      obtain rfl := h.load_pool hkey hload
      obtain ⟨-, rfl, -⟩ := h.load_list hlist
      have hend := mergeLoop_sound hS hkey instructions
        (x := ⟨s.list.validators, false, a.rest, c.ledger⟩) hV.names hL hloop
      exact (finish_sparing hfinish).sound hend
  | unstake instructions =>
      simp only [dispatch, processUnstake, bind_eq_ok] at hrun
      obtain ⟨a, hparse, _, hload, _, howner, list, hlist, _, -, x, hloop, hfinish⟩ := hrun
      have haccounts := UnstakeAccounts.parse_ok hparse
      have hkey := ha.key_eq haccounts
      obtain rfl := h.load_pool hkey hload
      obtain ⟨-, rfl, -⟩ := h.load_list hlist
      obtain ⟨-, hsigner⟩ := StakePool.checkOwner_eq_ok.mp howner
      have hpayer : ¬D.programs.IsProgramAddress D.programId a.owner.key := by
        apply ha.unsigned a.owner _ hsigner
        rw [haccounts]
        exact List.mem_cons_of_mem _ List.mem_cons_self
      have hend := unstakeLoop_sound hS hkey hpayer instructions
        (x := ⟨s.list.validators, false, a.rest, c.ledger⟩) hV.names hL hloop
      exact (finish_sparing hfinish).sound hend
  | _ => exact (dispatch_sparing h ha hW id hquiet hrun).sound hL

end Tenderize
