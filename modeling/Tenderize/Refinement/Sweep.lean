import Tenderize.Refinement.Validators
import Tenderize.Refinement.Complete
import Tenderize.Spec.MoveRuns
import Tenderize.Spec.Sweep

/-!
# UpdateListBalance sweeps the stake accounts

A refresh that succeeds has swept the accounts of the validators it names and written
down what they keep.  It gets through when no account that was merged away was filled
again, because then the withdraw authority of the pool can take what is free.
-/

namespace Tenderize

open Support

variable {D : Deployment} {W : Set Pubkey} {a : UpdateListBalanceAccounts} {clock : Clock}
  {bump : UInt8} {L L' : Ledger}

/-! ## One stake account -/

/-- The fixed accounts of a refresh, as the handler checks them. -/
structure RefreshCall (D : Deployment) (a : UpdateListBalanceAccounts) (bump : UInt8) : Prop where
  pool : a.stakePool.key = D.poolKey
  withdraw : a.withdraw.key = D.withdrawKey
  reserve : a.reserve.key = D.reserveKey
  bump : D.programs.createProgramAddress (authoritySeeds D.poolKey .withdraw bump) D.programId =
    some D.withdrawKey
  unsigned : ∀ info ∈ [a.reserve, a.clock, a.stakeHistory, a.withdraw, a.stakeProgram],
    info.isSigner = true → ¬D.programs.IsProgramAddress D.programId info.key

/-- Only the withdraw authority signs the withdrawal from a stake account. -/
theorem RefreshCall.not_signer (hcall : RefreshCall D a bump) {stakeAccount : AccountInfo}
    {k : Pubkey} (haddress : D.programs.IsProgramAddress D.programId k)
    (hne : k ≠ D.withdrawKey)
    (hunsigned : stakeAccount.isSigner = true →
      ¬D.programs.IsProgramAddress D.programId stakeAccount.key) :
    k ∉ D.programs.signersWith D.programId
      [stakeAccount, a.reserve, a.clock, a.stakeHistory, a.withdraw, a.stakeProgram]
      [authoritySeeds a.stakePool.key .withdraw bump] := by
  intro hmem
  rcases List.mem_append.mp hmem with hsigner | hderived
  · simp only [signers, List.mem_map, List.mem_filter] at hsigner
    obtain ⟨info, ⟨hinfo, hsigner⟩, rfl⟩ := hsigner
    rcases List.mem_cons.mp hinfo with rfl | hfixed
    · exact hunsigned hsigner haddress
    · exact hcall.unsigned info hfixed hsigner haddress
  · simp only [List.mem_filterMap, List.mem_singleton] at hderived
    obtain ⟨seeds, rfl, hseeds⟩ := hderived
    rw [hcall.pool, hcall.bump] at hseeds
    exact hne (Option.some.inj hseeds).symm

theorem availableLamports_live {state : StakeState} {m : Meta} {x : Account}
    (h : D.LiveStake state m x) : availableLamports x.lamports state = .ok x.free := by
  have hkept : x.kept = UInt64.ofNat state.reserved := by
    unfold Account.kept
    rw [h.data]
    simp only [h.owner, if_true]
  have hmeta := h.stakeMeta
  unfold Account.free
  rw [hkept]
  cases state with
  | uninitialized => cases hmeta
  | initialized stakeMeta =>
      change _ = Except.ok (x.lamports - UInt64.ofNat stakeMeta.rentExemptReserve.toNat)
      rw [UInt64.ofNat_toNat]
      rfl
  | stake stakeMeta st =>
      change Except.ok (x.lamports - _ - _) = Except.ok (x.lamports - UInt64.ofNat
        (stakeMeta.rentExemptReserve.toNat + st.delegation.stake.toNat))
      rw [UInt64.ofNat_add, UInt64.ofNat_toNat, UInt64.ofNat_toNat, sub_sub]
  | rewardsPool => cases hmeta

/-- What the scan of an account adds to the balance of the record. -/
def keptOf (x : Account) : Option UInt64 :=
  if x.kept = 0 then none else some x.kept

section UpdateStake

variable {vote stakeAccount : AccountInfo} {index : UInt32} {stakeBump : UInt8} {k : Pubkey}
  (hcall : RefreshCall D a bump) (hkey : stakeAccount.key = k)

include hcall hkey

theorem updateStake_sweeps (hS : D.programs.StakeRules) (hne : k ≠ D.reserveKey)
    (haddress : D.programs.IsProgramAddress D.programId k) (hauthority : k ≠ D.withdrawKey)
    (hunsigned : stakeAccount.isSigner = true →
      ¬D.programs.IsProgramAddress D.programId stakeAccount.key)
    (hsound : D.SoundStake False (L k)) {kept : Option UInt64}
    (hrun : updateStake D.programs D.programId a clock bump vote index stakeBump stakeAccount L =
      .ok (kept, L')) :
    D.SoundStake True (L k) ∧ kept = keptOf (L k) ∧
      (L D.reserveKey).lamports.toNat + (L k).free.toNat < 2 ^ 64 ∧
      L' = L.moveLamports k D.reserveKey (L k).free := by
  have hroom : (L D.reserveKey).lamports.toNat + (0 : UInt64).toNat < 2 ^ 64 :=
    UInt64.toNat_lt _
  simp only [updateStake, hkey, hcall.reserve, hcall.withdraw] at hrun
  split at hrun
  case isFalse hempty =>
    simp only [pure_eq_ok, Prod.mk.injEq] at hrun
    obtain ⟨rfl, rfl⟩ := hrun
    have hzero : (L k).lamports = 0 := by simpa using hempty
    have hkept : (L k).kept = 0 := by
      have hle := hsound.kept_le
      rw [hzero] at hle
      exact UInt64.le_zero_iff.mp hle
    have hfree : (L k).free = 0 := by
      unfold Account.free
      rw [hzero, hkept, UInt64.sub_self]
    rw [hfree, Ledger.moveLamports_zero]
    refine ⟨?_, ?_, hroom, rfl⟩
    · cases hsound with
      | closed howner => exact .closed howner
      | merged howner hdata _ => exact .merged howner hdata (fun _ => hzero)
      | live state m hlive => exact .live state m hlive
    · unfold keptOf
      rw [if_pos hkept]
  case isTrue hfull =>
    split at hrun
    case isTrue howner =>
      simp only [bind_eq_ok] at hrun
      obtain ⟨state, hread, available, havailable, hrun⟩ := hrun
      cases hsound with
      | closed hsystem => exact absurd (howner.symm.trans hsystem) stakeProgramId_ne_system
      | merged _ hdata _ =>
          -- the account itself would have to sign
          rw [hdata] at hread
          obtain rfl := Except.ok.inj hread
          obtain rfl := Except.ok.inj havailable
          rw [if_pos hfull] at hrun
          simp only [bind_eq_ok] at hrun
          obtain ⟨L₁, hwithdraw, -⟩ := hrun
          have hsigned := (hS.stakeWithdraw_state hwithdraw hdata).1 rfl
          exact absurd hsigned (hcall.not_signer haddress hauthority hunsigned)
      | live state' m hlive =>
          rw [hlive.data] at hread
          obtain rfl := Except.ok.inj hread
          rw [availableLamports_live hlive] at havailable
          obtain rfl := Except.ok.inj havailable
          have hpos := hlive.reserved_pos
          rw [← hlive.kept_toNat] at hpos
          have hkept : (L k).kept ≠ 0 := by
            intro hzero
            rw [hzero] at hpos
            exact absurd hpos (Nat.lt_irrefl 0)
          have hof : keptOf (L k) = some (L k).kept := if_neg hkept
          refine ⟨.live state' m hlive, ?_⟩
          rw [hof]
          split at hrun
          case isTrue =>
            simp only [bind_eq_ok, pure_eq_ok, Prod.mk.injEq] at hrun
            obtain ⟨L₁, hwithdraw, rfl, rfl⟩ := hrun
            obtain ⟨-, -, hfits, -⟩ := D.lawful.stakeWithdraw_ok hwithdraw
            have hpart : (L k).free ≠ (L k).lamports := by
              intro heq
              have hsum := (show D.SoundStake True (L k) from .live state' m hlive).kept_add_free
              rw [heq] at hsum
              omega
            refine ⟨?_, hfits hne, (hS.stakeWithdraw_state hwithdraw hlive.data).2 hpart⟩
            unfold Account.free
            rw [sub_sub_cancel]
          case isFalse hnone =>
            simp only [pure_eq_ok, Prod.mk.injEq] at hrun
            obtain ⟨rfl, rfl⟩ := hrun
            have hfree : (L k).free = 0 := by simpa using hnone
            rw [hfree, Ledger.moveLamports_zero]
            refine ⟨?_, hroom, rfl⟩
            rw [← sub_sub_cancel (L k).lamports (L k).kept]
            change some (L k).lamports = some ((L k).lamports - (L k).free)
            rw [hfree, UInt64.sub_zero]
    case isFalse howner =>
      simp only [bind_eq_ok, require_eq_ok, pure_eq_ok, Prod.mk.injEq] at hrun
      obtain ⟨-, hsystem, L₁, htransfer, rfl, rfl⟩ := hrun
      obtain ⟨-, -, -, hfits, hL₁⟩ := D.lawful.transfer_ok htransfer
      have hkept : (L k).kept = 0 := Account.kept_of_owner howner
      have hfree : (L k).free = (L k).lamports := by
        unfold Account.free
        rw [hkept, UInt64.sub_zero]
      rw [hfree]
      refine ⟨.closed hsystem, ?_, hfits hne, hL₁⟩
      unfold keptOf
      rw [if_pos hkept]

/-- The refresh of an account succeeds unless it was merged away and filled again. -/
theorem updateStake_succeeds (hS : D.programs.StakeRules) (hT : D.programs.SystemRules)
    (hbump : D.programs.createProgramAddress
      (stakeSeeds vote.key a.stakePool.key index stakeBump) D.programId = some k)
    (hsound : D.SoundStake True (L k))
    (hfits : (L D.reserveKey).lamports.toNat + (L k).free.toNat < 2 ^ 64) :
    ∃ result, updateStake D.programs D.programId a clock bump vote index stakeBump stakeAccount L =
      .ok result := by
  simp only [updateStake, hkey, hcall.reserve, hcall.withdraw]
  split
  case isFalse => exact ⟨_, rfl⟩
  case isTrue hfull =>
    cases hsound with
    | closed howner =>
        have hnot : (L k).owner ≠ stakeProgramId := by
          rw [howner]
          exact stakeProgramId_ne_system.symm
        have hfree : (L k).free = (L k).lamports := by
          unfold Account.free
          rw [Account.kept_of_owner hnot, UInt64.sub_zero]
        rw [hfree] at hfits
        have hsigns : k ∈ D.programs.signersWith D.programId
            [a.systemProgram, stakeAccount, a.reserve]
            [stakeSeeds vote.key a.stakePool.key index stakeBump] := by
          apply List.mem_append_right
          rw [List.mem_filterMap]
          exact ⟨_, List.mem_singleton_self _, hbump⟩
        obtain ⟨L₁, htransfer⟩ :=
          hT.transfer_succeeds hsigns howner (UInt64.le_refl _) (fun _ => hfits)
        refine ⟨(none, L₁), ?_⟩
        rw [if_neg hnot]
        simp only [bind_eq_ok, require_eq_ok, pure_eq_ok]
        exact ⟨(), howner, L₁, htransfer, rfl⟩
    | merged _ _ hzero =>
        rw [hzero trivial] at hfull
        exact absurd hfull (UInt64.lt_irrefl 0)
    | live state m hlive =>
        have hsum := (show D.SoundStake True (L k) from .live state m hlive).kept_add_free
        rw [hlive.kept_toNat] at hsum
        have hsigns : m.authorized.withdrawer ∈ D.programs.signersWith D.programId
            [stakeAccount, a.reserve, a.clock, a.stakeHistory, a.withdraw, a.stakeProgram]
            [authoritySeeds a.stakePool.key .withdraw bump] := by
          rw [hlive.withdrawer, hcall.pool]
          apply List.mem_append_right
          rw [List.mem_filterMap]
          exact ⟨_, List.mem_singleton_self _, hcall.bump⟩
        have hwithdraw : ∃ L₁, D.programs.stakeWithdraw clock k m.authorized.withdrawer D.reserveKey
            (L k).free (D.programs.signersWith D.programId
              [stakeAccount, a.reserve, a.clock, a.stakeHistory, a.withdraw, a.stakeProgram]
              [authoritySeeds a.stakePool.key .withdraw bump]) L = .ok L₁ :=
          hS.stakeWithdraw_succeeds hlive.owner hlive.data hlive.stakeMeta hsigns (by omega)
            (fun _ => hfits)
        obtain ⟨L₁, hwithdraw⟩ := hwithdraw
        rw [hlive.withdrawer] at hwithdraw
        rw [if_pos hlive.owner, hlive.data]
        simp only [bind_eq_ok]
        by_cases hsome : (L k).free > 0
        · refine ⟨(some ((L k).lamports - (L k).free), L₁), state, rfl, _,
            availableLamports_live hlive, ?_⟩
          rw [if_pos hsome]
          simp only [bind_eq_ok, pure_eq_ok]
          exact ⟨L₁, hwithdraw, rfl⟩
        · refine ⟨(some (L k).lamports, L), state, rfl, _, availableLamports_live hlive, ?_⟩
          rw [if_neg hsome]
          rfl

end UpdateStake

/-! ## The stake accounts of a validator -/

variable {quiet : Prop} {keys : Finset Pubkey} {v : Pubkey} {vote : AccountInfo}
  {L₀ : Ledger}

/-- The scan of the first `n` accounts of the validator of `r`. -/
structure ScanSwept (D : Deployment) (W : Set Pubkey) (quiet : Prop) (keys : Finset Pubkey)
    (L₀ : Ledger) (r : ValidatorStakeInfo) (n : Nat) (x : ScanState) : Prop where
  ledger : D.SweptTo W quiet (keys ∪ D.keysBelow r.validatorAccount n) L₀ x.ledger
  record : x.record = { r with balance := D.keptBelow L₀ r.validatorAccount n }
  count : x.newStakeCount = UInt32.ofNat (D.liveBelow L₀ r.validatorAccount n)

theorem ScanSwept.start (r : ValidatorStakeInfo) (accounts : List AccountInfo)
    (h : D.SweptTo W quiet keys L₀ L) :
    ScanSwept D W quiet keys L₀ r 0 ⟨{ r with balance := 0 }, 0, accounts, L⟩ := by
  refine ⟨?_, rfl, rfl⟩
  rw [show D.keysBelow r.validatorAccount 0 = ∅ from rfl, Finset.union_empty]
  exact h

/-- Nobody signs for an address derived from seeds. -/
def Deployment.Unsigned (D : Deployment) (accounts : List AccountInfo) : Prop :=
  ∀ info ∈ accounts, info.isSigner = true →
    ¬D.programs.IsProgramAddress D.programId info.key

theorem Deployment.unsigned_cons {info : AccountInfo} {accounts : List AccountInfo} :
    D.Unsigned (info :: accounts) ↔
      (info.isSigner = true → ¬D.programs.IsProgramAddress D.programId info.key) ∧
        D.Unsigned accounts := by
  unfold Unsigned
  exact List.forall_mem_cons

/-- The variables of the scan after an account that keeps `kept`. -/
def ScanState.next (x : ScanState) (index : UInt32) (kept : Option UInt64)
    (accounts : List AccountInfo) (L : Ledger) : ScanState :=
  match kept with
  | some balance =>
      ⟨{ x.record with balance := x.record.balance + balance }, index + 1, accounts, L⟩
  | none => ⟨x.record, x.newStakeCount, accounts, L⟩

theorem scanStakes_succ_ok {P : Programs} {programId : Pubkey} {remaining : Nat} {index : UInt32}
    {x x' : ScanState} :
    scanStakes P programId a clock bump vote (remaining + 1) index x = .ok x' ↔
      ∃ stakeAccount accounts kept L₁, x.accounts = stakeAccount :: accounts ∧
        stakeAccount.key = (x.record.stakeAddress P programId a.stakePool.key index).1 ∧
        updateStake P programId a clock bump vote index
          (x.record.stakeAddress P programId a.stakePool.key index).2 stakeAccount x.ledger =
          .ok (kept, L₁) ∧
        scanStakes P programId a clock bump vote remaining (index + 1)
          (x.next index kept accounts L₁) = .ok x' := by
  simp only [scanStakes, bind_eq_ok, Prod.exists, nextAccountInfo_eq_ok,
    checkValidatorStakeAddress_eq_ok]
  constructor
  · rintro ⟨stakeAccount, accounts, haccounts, _, ⟨hkey, rfl⟩, kept, L₁, hstep, hrun⟩
    refine ⟨stakeAccount, accounts, kept, L₁, haccounts, hkey, hstep, ?_⟩
    cases kept <;> exact hrun
  · rintro ⟨stakeAccount, accounts, kept, L₁, haccounts, hkey, hstep, hrun⟩
    refine ⟨stakeAccount, accounts, haccounts, _, ⟨hkey, rfl⟩, kept, L₁, hstep, ?_⟩
    cases kept <;> exact hrun

section Scan

variable {r : ValidatorStakeInfo} (hS : D.programs.StakeRules) (hW : D.Separate W)
  (hL : D.SoundStakes False W L₀) (hcall : RefreshCall D a bump) (hr : r.validatorAccount ∈ W)

include hS hW hL hcall hr

theorem ScanSwept.next {n : Nat} {x : ScanState} {stakeAccount : AccountInfo}
    {accounts : List AccountInfo} {stakeBump : UInt8} {kept : Option UInt64}
    (h : ScanSwept D W quiet keys L₀ r n x)
    (hkey : stakeAccount.key = D.stakeKey r.validatorAccount (UInt32.ofNat n))
    (hunsigned : stakeAccount.isSigner = true →
      ¬D.programs.IsProgramAddress D.programId stakeAccount.key)
    (hstep : updateStake D.programs D.programId a clock bump vote (UInt32.ofNat n) stakeBump
      stakeAccount x.ledger = .ok (kept, L')) :
    ScanSwept D W quiet keys L₀ r (n + 1) (x.next (UInt32.ofNat n) kept accounts L') := by
  obtain ⟨hnow, rfl, hfits, rfl⟩ := updateStake_sweeps hcall hkey hS (hW.ne_reserve _ hr _)
    (D.stakeKey_isProgramAddress _ _) (hW.ne_authority _ hr _ .withdraw) hunsigned
    ((h.ledger.sound _ hr _).imp False.elim) hstep
  have hledger := h.ledger.sweep hW.toNoCollision hL hr hnow hfits
  rw [← Finset.union_insert, ← Deployment.keysBelow_succ] at hledger
  unfold keptOf
  rw [h.ledger.kept _ hr (UInt32.ofNat n)]
  by_cases hzero : (L₀ (D.stakeKey r.validatorAccount (UInt32.ofNat n))).kept = 0
  · rw [if_pos hzero]
    refine ⟨hledger, ?_, ?_⟩
    · rw [Deployment.keptBelow, hzero, UInt64.add_zero]
      exact h.record
    · rw [Deployment.liveBelow, if_pos hzero]
      exact h.count
  · rw [if_neg hzero]
    refine ⟨hledger, ?_, ?_⟩
    · change ({ x.record with balance := _ } : ValidatorStakeInfo) = _
      rw [h.record]
      rfl
    · rw [Deployment.liveBelow, if_neg hzero]
      change UInt32.ofNat n + 1 = _
      simp

omit hS hW hL hr in
/-- The address that the scan expects next. -/
theorem ScanSwept.stakeAddress_eq {n : Nat} {x : ScanState}
    (h : ScanSwept D W quiet keys L₀ r n x) (index : UInt32) :
    (x.record.stakeAddress D.programs D.programId a.stakePool.key index).1 =
      D.stakeKey r.validatorAccount index := by
  rw [h.record, hcall.pool]
  rfl

theorem scanStakes_sweeps (remaining : Nat) :
    ∀ (n : Nat) {x x' : ScanState}, ScanSwept D W quiet keys L₀ r n x → D.Unsigned x.accounts →
      scanStakes D.programs D.programId a clock bump vote remaining (UInt32.ofNat n) x = .ok x' →
      ScanSwept D W quiet keys L₀ r (n + remaining) x' ∧ D.Unsigned x'.accounts := by
  induction remaining with
  | zero =>
      intro n x x' h hunsigned hrun
      obtain rfl := Except.ok.inj hrun
      exact ⟨h, hunsigned⟩
  | succ remaining ih =>
      intro n x x' h hunsigned hrun
      obtain ⟨stakeAccount, accounts, kept, L₁, haccounts, hkey, hstep, hrun⟩ :=
        scanStakes_succ_ok.mp hrun
      rw [h.stakeAddress_eq hcall] at hkey
      obtain ⟨hself, hrest⟩ := Deployment.unsigned_cons.mp (haccounts ▸ hunsigned)
      have hnext : UInt32.ofNat n + 1 = UInt32.ofNat (n + 1) := by simp
      have hindex : n + (remaining + 1) = n + 1 + remaining := by omega
      rw [hnext] at hrun
      rw [hindex]
      refine ih (n + 1) (h.next hS hW hL hcall hr hkey hself hstep) ?_ hrun
      cases kept <;> exact hrest

theorem updateValidator_sweeps {r' : ValidatorStakeInfo} {accounts rest : List AccountInfo}
    (h : D.SweptTo W quiet keys L₀ L) (hunsigned : D.Unsigned accounts)
    (hrun : updateValidator D.programs D.programId a clock bump vote r accounts L =
      .ok (r', rest, L')) :
    r' = D.refreshed L₀ clock.epoch r ∧ D.Unsigned rest ∧
      D.SweptTo W quiet (keys ∪ D.keysBelow r.validatorAccount r.stakeCount.toNat) L₀ L' := by
  simp only [updateValidator, bind_eq_ok, pure_eq_ok, Prod.mk.injEq] at hrun
  obtain ⟨x, hscan, rfl, rfl, rfl⟩ := hrun
  obtain ⟨hend, hrest⟩ :=
    scanStakes_sweeps hS hW hL hcall hr _ 0 (ScanSwept.start r accounts h) hunsigned hscan
  rw [Nat.zero_add] at hend
  refine ⟨?_, hrest, hend.ledger⟩
  rw [hend.record, hend.count]
  rfl

end Scan

/-! ## The loop over the validators -/

/-- The records and the ledger after a refresh of the validators in `names`. -/
structure RefreshedTo (D : Deployment) (W : Set Pubkey) (quiet : Prop) (epoch : UInt64)
    (names : List Pubkey) (V₀ : List ValidatorStakeInfo) (L₀ : Ledger)
    (V : List ValidatorStakeInfo) (L : Ledger) : Prop where
  records : V = D.refreshedIn L₀ epoch names V₀
  ledger : D.SweptTo W quiet (D.keysOf names V₀) L₀ L

section Validators

variable {V V₀ V' : List ValidatorStakeInfo} {names : List Pubkey} {epoch : UInt64}

theorem RefreshedTo.nothing (h : D.SoundStakes quiet W L) :
    RefreshedTo D W quiet epoch [] V L V L where
  records := by simp [Deployment.refreshedIn]
  ledger := by
    have hempty : D.keysOf [] V = ∅ := by simp [Deployment.keysOf]
    rw [hempty]
    exact .nothing h

theorem mem_keysOf {k : Pubkey} :
    k ∈ D.keysOf names V ↔ ∃ r ∈ V, r.validatorAccount ∈ names ∧
      k ∈ D.keysBelow r.validatorAccount r.stakeCount.toNat := by
  simp [Deployment.keysOf, and_assoc]

theorem lookup_refreshedIn :
    lookup ValidatorStakeInfo.validatorAccount v (D.refreshedIn L₀ epoch names V₀) =
      (lookup ValidatorStakeInfo.validatorAccount v V₀).map
        (fun r => if r.validatorAccount ∈ names then D.refreshed L₀ epoch r else r) := by
  apply lookup_map
  intro r
  split <;> rfl

theorem keysOf_subset : D.keysOf names V ⊆ D.countedKeys V := by
  intro k hk
  obtain ⟨r, hr, -, hbelow⟩ := mem_keysOf.mp hk
  exact mem_keysOf.mpr ⟨r, hr, List.mem_map_of_mem hr, hbelow⟩

/-- A refresh goes through stake addresses of listed validators. -/
theorem keysOf_stakes (hV : Deployment.Listed W V) :
    ∀ k ∈ D.keysOf names V, ∃ v ∈ W, ∃ i, D.stakeKey v i = k := by
  intro k hk
  obtain ⟨r, hr, -, hbelow⟩ := mem_keysOf.mp hk
  have hcount := UInt32.toNat_lt r.stakeCount
  obtain ⟨i, -, rfl⟩ := (Deployment.mem_keysBelow (by omega)).mp hbelow
  exact ⟨_, hV.names r hr, i, rfl⟩

/-- The record that the loop finds comes from the record before the refresh. -/
theorem RefreshedTo.found {r : ValidatorStakeInfo}
    (h : RefreshedTo D W quiet epoch names V₀ L₀ V L)
    (hr : lookup ValidatorStakeInfo.validatorAccount v V = some r) :
    ∃ r₀ ∈ V₀, r₀.validatorAccount = v ∧
      r = if v ∈ names then D.refreshed L₀ epoch r₀ else r₀ := by
  rw [h.records, lookup_refreshedIn] at hr
  obtain ⟨r₀, hr₀, rfl⟩ := Option.map_eq_some_iff.mp hr
  have hname : r₀.validatorAccount = v := lookup_key hr₀
  refine ⟨r₀, lookup_mem hr₀, hname, ?_⟩
  rw [hname]

theorem updateFirst_refreshedIn (hV₀ : (V₀.map ValidatorStakeInfo.validatorAccount).Nodup)
    {r₀ : ValidatorStakeInfo} (hr₀ : r₀ ∈ V₀) :
    updateFirst ValidatorStakeInfo.validatorAccount r₀.validatorAccount
        (D.refreshed L₀ epoch r₀) (D.refreshedIn L₀ epoch names V₀) =
      D.refreshedIn L₀ epoch (names ++ [r₀.validatorAccount]) V₀ := by
  induction V₀ with
  | nil => exact nomatch hr₀
  | cons r V₀ ih =>
      rw [List.map_cons, List.nodup_cons] at hV₀
      have hkey : ∀ names' : List Pubkey,
          (if r.validatorAccount ∈ names' then D.refreshed L₀ epoch r
          else r).validatorAccount = r.validatorAccount := by
        intro names'
        split <;> rfl
      unfold Deployment.refreshedIn
      rw [List.map_cons, List.map_cons, updateFirst, hkey]
      by_cases hsame : r.validatorAccount = r₀.validatorAccount
      · have hr : r₀ = r := by
          rcases List.mem_cons.mp hr₀ with heq | htail
          · exact heq
          · have hmem : r₀.validatorAccount ∈ V₀.map ValidatorStakeInfo.validatorAccount :=
              List.mem_map_of_mem htail
            rw [← hsame] at hmem
            exact absurd hmem hV₀.1
        subst hr
        rw [if_pos rfl, if_pos (List.mem_append_right _ (List.mem_singleton_self _))]
        congr 1
        apply List.map_congr_left
        intro x hx
        have hne : x.validatorAccount ≠ r₀.validatorAccount := by
          intro heq
          exact hV₀.1 (heq ▸ List.mem_map_of_mem hx)
        simp [hne]
      · have htail : r₀ ∈ V₀ := by
          rcases List.mem_cons.mp hr₀ with rfl | htail
          · exact absurd rfl hsame
          · exact htail
        rw [if_neg hsame]
        congr 1
        · simp [hsame]
        · exact ih hV₀.2 htail

/-- A round of the loop that names `r₀`'s validator. -/
theorem keysOf_append {r₀ : ValidatorStakeInfo}
    (hV₀ : (V₀.map ValidatorStakeInfo.validatorAccount).Nodup) (hr₀ : r₀ ∈ V₀) :
    D.keysOf names V₀ ∪ D.keysBelow r₀.validatorAccount
        (if r₀.validatorAccount ∈ names then D.refreshed L₀ epoch r₀ else r₀).stakeCount.toNat =
      D.keysOf (names ++ [r₀.validatorAccount]) V₀ := by
  ext k
  simp only [Finset.mem_union, mem_keysOf, List.mem_append, List.mem_singleton]
  constructor
  · rintro (⟨r, hr, hname, hk⟩ | hk)
    · exact ⟨r, hr, .inl hname, hk⟩
    · refine ⟨r₀, hr₀, .inr rfl, ?_⟩
      split at hk
      · refine Deployment.keysBelow_mono ?_ hk
        rw [Deployment.refreshed_stakeCount_toNat]
        exact Deployment.liveBelow_le _ _ _ _
      · exact hk
  · rintro ⟨r, hr, hname | hname, hk⟩
    · exact .inl ⟨r, hr, hname, hk⟩
    · by_cases hbefore : r₀.validatorAccount ∈ names
      · exact .inl ⟨r, hr, hname ▸ hbefore, hk⟩
      · have hsame := lookup_of_mem hV₀ hr
        rw [hname, lookup_of_mem hV₀ hr₀, Option.some.injEq] at hsame
        subst hsame
        rw [if_neg hbefore]
        exact .inr hk

variable (hS : D.programs.StakeRules) (hW : D.Separate W) (hL : D.SoundStakes False W L₀)
  (hcall : RefreshCall D a bump) (hV₀ : Deployment.Listed W V₀)

include hS hW hL hcall hV₀

/-- One round of the loop. -/
theorem RefreshedTo.round {r r' : ValidatorStakeInfo} {accounts rest : List AccountInfo}
    (h : RefreshedTo D W quiet clock.epoch names V₀ L₀ V L)
    (hr : lookup ValidatorStakeInfo.validatorAccount vote.key V = some r)
    (hunsigned : D.Unsigned accounts)
    (hone : updateValidator D.programs D.programId a clock bump vote r accounts L =
      .ok (r', rest, L')) :
    RefreshedTo D W quiet clock.epoch (names ++ [vote.key]) V₀ L₀
      (updateFirst ValidatorStakeInfo.validatorAccount vote.key r' V) L' ∧ D.Unsigned rest := by
  obtain ⟨r₀, hr₀, hname, hfound⟩ := h.found hr
  have hkey : r.validatorAccount = vote.key := lookup_key hr
  obtain ⟨rfl, hrest, hledger⟩ := updateValidator_sweeps hS hW hL hcall
    (by rw [hkey, ← hname]; exact hV₀.names r₀ hr₀) h.ledger hunsigned hone
  have hrefreshed : D.refreshed L₀ clock.epoch r = D.refreshed L₀ clock.epoch r₀ := by
    rw [hfound]
    split
    · exact Deployment.refreshed_refreshed _ _
    · rfl
  refine ⟨⟨?_, ?_⟩, hrest⟩
  · rw [hrefreshed, h.records, ← hname]
    exact updateFirst_refreshedIn hV₀.nodup hr₀
  · rw [hkey, hfound, ← hname, keysOf_append hV₀.nodup hr₀] at hledger
    rw [← hname]
    exact hledger

theorem updateValidators_sweeps (fuel : Nat) :
    ∀ {accounts : List AccountInfo} {names : List Pubkey} {V : List ValidatorStakeInfo}
      {L : Ledger}, RefreshedTo D W quiet clock.epoch names V₀ L₀ V L → D.Unsigned accounts →
      updateValidators D.programs D.programId a clock bump fuel accounts V L = .ok (V', L') →
      RefreshedTo D W quiet clock.epoch
        (names ++ namedValidators D.programs D.programId a clock bump fuel accounts V L)
        V₀ L₀ V' L' := by
  induction fuel with
  | zero =>
      intro accounts names V L h _ hrun
      cases accounts with
      | nil =>
          simp only [updateValidators, Except.ok.injEq, Prod.mk.injEq] at hrun
          obtain ⟨rfl, rfl⟩ := hrun
          simpa [namedValidators] using h
      | cons => simp [updateValidators] at hrun
  | succ fuel ih =>
      intro accounts names V L h hunsigned hrun
      cases accounts with
      | nil =>
          simp only [updateValidators, Except.ok.injEq, Prod.mk.injEq] at hrun
          obtain ⟨rfl, rfl⟩ := hrun
          simpa [namedValidators] using h
      | cons vote accounts =>
          unfold updateValidators at hrun
          split at hrun
          case h_1 r hr =>
            simp only [bind_eq_ok, Prod.exists] at hrun
            obtain ⟨r', rest, L₁, hone, hrun⟩ := hrun
            obtain ⟨-, haccounts⟩ := Deployment.unsigned_cons.mp hunsigned
            obtain ⟨hnext, hrest⟩ := h.round hS hW hL hcall hV₀ hr haccounts hone
            have htail := ih hnext hrest hrun
            rw [List.append_assoc, List.singleton_append] at htail
            unfold namedValidators
            simp only [hr, hone]
            exact htail
          case h_2 => cases hrun

end Validators

/-! ## Success -/

/-- The addresses of the vote account and the counted stake accounts of a record. -/
def Deployment.block (D : Deployment) (r : ValidatorStakeInfo) : List Pubkey :=
  r.validatorAccount :: (List.range r.stakeCount.toNat).map
    (fun i => D.stakeKey r.validatorAccount (UInt32.ofNat i))

/-- The scan takes the accounts it needs from the front. -/
theorem scanStakes_accounts {P : Programs} {programId : Pubkey} (remaining : Nat) :
    ∀ {index : UInt32} {x x' : ScanState},
      scanStakes P programId a clock bump vote remaining index x = .ok x' →
      x'.accounts = x.accounts.drop remaining := by
  induction remaining with
  | zero =>
      intro index x x' hrun
      obtain rfl := Except.ok.inj hrun
      rfl
  | succ remaining ih =>
      intro index x x' hrun
      obtain ⟨stakeAccount, accounts, kept, L₁, haccounts, -, -, hrun⟩ :=
        scanStakes_succ_ok.mp hrun
      rw [ih hrun, haccounts, List.drop_succ_cons]
      cases kept <;> rfl

theorem updateValidator_rest {P : Programs} {programId : Pubkey} {r r' : ValidatorStakeInfo}
    {accounts rest : List AccountInfo}
    (hrun : updateValidator P programId a clock bump vote r accounts L = .ok (r', rest, L')) :
    rest = accounts.drop r.stakeCount.toNat := by
  simp only [updateValidator, bind_eq_ok, pure_eq_ok, Prod.mk.injEq] at hrun
  obtain ⟨x, hscan, -, rfl, -⟩ := hrun
  exact scanStakes_accounts _ hscan

/-- What is still before the loop: the accounts of `records`, of which none has been named. -/
structure RefreshQueue (D : Deployment) (W : Set Pubkey) (quiet : Prop) (epoch : UInt64)
    (V₀ : List ValidatorStakeInfo) (L₀ : Ledger) (records : List ValidatorStakeInfo) (fuel : Nat)
    (accounts : List AccountInfo) (names : List Pubkey) (V : List ValidatorStakeInfo)
    (L : Ledger) : Prop where
  refreshed : RefreshedTo D W quiet epoch names V₀ L₀ V L
  listed : ∀ r ∈ records, r ∈ V₀
  nodup : (records.map ValidatorStakeInfo.validatorAccount).Nodup
  unnamed : ∀ r ∈ records, r.validatorAccount ∉ names
  unsigned : D.Unsigned accounts
  keys : accounts.map (fun info => info.key) = records.flatMap D.block
  length : accounts.length ≤ fuel

section Success

variable {quiet : Prop} {all : Finset Pubkey} (hS : D.programs.StakeRules)
  (hT : D.programs.SystemRules) (hW : D.Separate W) (hL : D.SoundStakes False W L₀)
  (hbounded : D.Bounded all L₀) (hall : ∀ k ∈ all, ∃ v ∈ W, ∃ i, D.stakeKey v i = k)
  (hcall : RefreshCall D a bump)

include hS hT hW hL hbounded hall hcall

theorem scanStakes_succeeds {r : ValidatorStakeInfo} (hr : r.validatorAccount ∈ W)
    (hvote : vote.key = r.validatorAccount) {more : List Pubkey} (clock : Clock)
    (remaining : Nat) :
    ∀ (n : Nat) {x : ScanState}, n + remaining ≤ 2 ^ 32 →
      keys ∪ D.keysBelow r.validatorAccount (n + remaining) ⊆ all →
      (∀ i : UInt32, i.toNat < n + remaining →
        D.SoundStake True (L₀ (D.stakeKey r.validatorAccount i))) →
      ScanSwept D W quiet keys L₀ r n x → D.Unsigned x.accounts →
      x.accounts.map (fun info => info.key) = (List.range' n remaining).map
        (fun i => D.stakeKey r.validatorAccount (UInt32.ofNat i)) ++ more →
      ∃ x', scanStakes D.programs D.programId a clock bump vote remaining (UInt32.ofNat n) x =
        .ok x' := by
  induction remaining with
  | zero =>
      intro n x _ _ _ _ _ _
      exact ⟨x, rfl⟩
  | succ remaining ih =>
      intro n x hn hkeys hunfilled h hunsigned haccounts
      rw [List.range'_succ, List.map_cons, List.cons_append] at haccounts
      obtain ⟨stakeAccount, accounts, hsplit, hkey, hrest⟩ := List.map_eq_cons_iff.mp haccounts
      have haddress := D.lawful.stake_address r.validatorAccount D.poolKey (UInt32.ofNat n)
        D.programId
      have hscanned : insert (D.stakeKey r.validatorAccount (UInt32.ofNat n))
          (keys ∪ D.keysBelow r.validatorAccount n) ⊆ all := by
        rw [← Finset.union_insert, ← Deployment.keysBelow_succ]
        refine subset_trans (Finset.union_subset_union_right ?_) hkeys
        exact Deployment.keysBelow_mono (by omega)
      have hself := Deployment.unsigned_cons.mp (hsplit ▸ hunsigned)
      have hbump : D.programs.createProgramAddress
          (stakeSeeds vote.key a.stakePool.key (UInt32.ofNat n) (x.record.stakeAddress D.programs
            D.programId a.stakePool.key (UInt32.ofNat n)).2) D.programId =
          some (D.stakeKey r.validatorAccount (UInt32.ofNat n)) := by
        rw [hvote, hcall.pool, h.record]
        exact haddress
      obtain ⟨⟨kept, L₁⟩, hstep⟩ :
          ∃ result, updateStake D.programs D.programId a clock bump vote (UInt32.ofNat n)
            (x.record.stakeAddress D.programs D.programId a.stakePool.key (UInt32.ofNat n)).2
            stakeAccount x.ledger = .ok result :=
        updateStake_succeeds hcall hkey hS hT hbump
          (h.ledger.unfilled_at hr (hunfilled _ (by rw [toNat_ofNat_index (by omega)]; omega)))
          (h.ledger.room hL hbounded hall hscanned hr)
      have hnext : UInt32.ofNat n + 1 = UInt32.ofNat (n + 1) := by simp
      have haccounts' : ∀ kept : Option UInt64,
          (x.next (UInt32.ofNat n) kept accounts L₁).accounts = accounts := by
        rintro (_ | _) <;> rfl
      obtain ⟨x', hrun⟩ := ih (n + 1) (by omega) (by rw [Nat.add_right_comm]; exact hkeys)
        (fun i hi => hunfilled i (by omega)) (h.next hS hW hL hcall hr hkey hself.1 hstep)
        (by rw [haccounts']; exact hself.2) (by rw [haccounts']; exact hrest)
      refine ⟨x', scanStakes_succ_ok.mpr ⟨stakeAccount, accounts, kept, L₁, hsplit, ?_, hstep, ?_⟩⟩
      · rw [h.stakeAddress_eq hcall]
        exact hkey
      · rw [hnext]
        exact hrun

variable (clock) in
/-- A validator is refreshed unless one of its accounts was filled again. -/
theorem updateValidator_succeeds_iff {r : ValidatorStakeInfo} {accounts : List AccountInfo}
    {more : List Pubkey} (hr : r.validatorAccount ∈ W) (hvote : vote.key = r.validatorAccount)
    (hkeys : keys ∪ D.keysBelow r.validatorAccount r.stakeCount.toNat ⊆ all)
    (h : D.SweptTo W quiet keys L₀ L) (hunsigned : D.Unsigned accounts)
    (haccounts : accounts.map (fun info => info.key) = (List.range r.stakeCount.toNat).map
      (fun i => D.stakeKey r.validatorAccount (UInt32.ofNat i)) ++ more) :
    (∃ r' rest L', updateValidator D.programs D.programId a clock bump vote r accounts L =
      .ok (r', rest, L')) ↔
      ∀ i < r.stakeCount, D.SoundStake True (L₀ (D.stakeKey r.validatorAccount i)) := by
  have hcount := UInt32.toNat_lt r.stakeCount
  constructor
  · rintro ⟨r', rest, L', hrun⟩ i hi
    obtain ⟨-, -, hswept⟩ := updateValidator_sweeps hS hW hL hcall hr h hunsigned hrun
    refine hswept.unfilled _ hr i (Finset.mem_union_right _ ?_)
    exact (Deployment.mem_keysBelow (by omega)).mpr ⟨i, UInt32.lt_iff_toNat_lt.mp hi, rfl⟩
  · intro hunfilled
    have hstart := ScanSwept.start r accounts h
    rw [List.range_eq_range'] at haccounts
    obtain ⟨x, hscan⟩ := scanStakes_succeeds hS hT hW hL hbounded hall hcall hr hvote clock _ 0
      (by omega) (by rw [Nat.zero_add]; exact hkeys)
      (fun i hi => hunfilled i (UInt32.lt_iff_toNat_lt.mpr (by omega))) hstart
      hunsigned haccounts
    refine ⟨{ x.record with stakeCount := x.newStakeCount, lastUpdateEpoch := clock.epoch },
      x.accounts, x.ledger, ?_⟩
    simp only [updateValidator, bind_eq_ok, pure_eq_ok]
    exact ⟨x, hscan, rfl⟩

section Queue

variable {V₀ V : List ValidatorStakeInfo} {names : List Pubkey} {records : List ValidatorStakeInfo}
  {fuel : Nat} {accounts : List AccountInfo} (hV₀ : Deployment.Listed W V₀)

omit hT hbounded hall hcall hS hW hL in
include hV₀ in
theorem RefreshQueue.first {epoch : UInt64} {r : ValidatorStakeInfo}
    (h : RefreshQueue D W quiet epoch V₀ L₀ (r :: records) fuel accounts names V L) :
    ∃ fuel' vote accounts', fuel = fuel' + 1 ∧ accounts = vote :: accounts' ∧
      vote.key = r.validatorAccount ∧
      lookup ValidatorStakeInfo.validatorAccount vote.key V = some r ∧
      accounts'.map (fun info => info.key) = (List.range r.stakeCount.toNat).map
        (fun i => D.stakeKey r.validatorAccount (UInt32.ofNat i)) ++ records.flatMap D.block := by
  have hkeys := h.keys
  rw [List.flatMap_cons, Deployment.block, List.cons_append] at hkeys
  obtain ⟨vote, accounts, rfl, hvote, hrest⟩ := List.map_eq_cons_iff.mp hkeys
  have hlength := h.length
  rw [List.length_cons] at hlength
  have hr₀ := h.listed r List.mem_cons_self
  refine ⟨fuel - 1, vote, accounts, by omega, rfl, hvote, ?_, hrest⟩
  rw [h.refreshed.records, lookup_refreshedIn, hvote, lookup_of_mem hV₀.nodup hr₀,
    Option.map_some, if_neg (h.unnamed r List.mem_cons_self)]

omit hT hbounded hall in
include hV₀ in
theorem RefreshQueue.next {r r' : ValidatorStakeInfo} {rest : List AccountInfo}
    (h : RefreshQueue D W quiet clock.epoch V₀ L₀ (r :: records) (fuel + 1) (vote :: accounts)
      names V L) (hvote : vote.key = r.validatorAccount)
    (hfound : lookup ValidatorStakeInfo.validatorAccount vote.key V = some r)
    (hrest : accounts.map (fun info => info.key) = (List.range r.stakeCount.toNat).map
      (fun i => D.stakeKey r.validatorAccount (UInt32.ofNat i)) ++ records.flatMap D.block)
    (hone : updateValidator D.programs D.programId a clock bump vote r accounts L =
      .ok (r', rest, L')) :
    RefreshQueue D W quiet clock.epoch V₀ L₀ records fuel rest (names ++ [vote.key])
      (updateFirst ValidatorStakeInfo.validatorAccount vote.key r' V) L' := by
  obtain ⟨-, hunsigned⟩ := Deployment.unsigned_cons.mp h.unsigned
  obtain ⟨hround, hunsigned'⟩ := h.refreshed.round hS hW hL hcall hV₀ hfound hunsigned hone
  have hnodup := h.nodup
  rw [List.map_cons, List.nodup_cons] at hnodup
  have hlength := h.length
  rw [List.length_cons] at hlength
  refine ⟨hround, fun x hx => h.listed x (List.mem_cons_of_mem _ hx), hnodup.2, ?_, hunsigned',
    ?_, ?_⟩
  · intro x hx hname
    rcases List.mem_append.mp hname with hold | hsame
    · exact h.unnamed x (List.mem_cons_of_mem _ hx) hold
    · rw [List.mem_singleton, hvote] at hsame
      exact hnodup.1 (hsame ▸ List.mem_map_of_mem hx)
  · rw [updateValidator_rest hone, List.map_drop, hrest, List.drop_left']
    simp
  · rw [updateValidator_rest hone, List.length_drop]
    omega

omit hall hbounded in
include hV₀ in
/-- The loop gets through unless a stake account it comes to was filled again. -/
theorem updateValidators_succeeds_iff (hbounded : D.Bounded (D.countedKeys V₀) L₀)
    (records : List ValidatorStakeInfo) :
    ∀ {fuel : Nat} {accounts : List AccountInfo} {names : List Pubkey}
      {V : List ValidatorStakeInfo} {L : Ledger},
      RefreshQueue D W quiet clock.epoch V₀ L₀ records fuel accounts names V L →
      ((∃ result, updateValidators D.programs D.programId a clock bump fuel accounts V L =
          .ok result) ↔
        ∀ r ∈ records, ∀ i < r.stakeCount,
          D.SoundStake True (L₀ (D.stakeKey r.validatorAccount i))) := by
  induction records with
  | nil =>
      intro fuel accounts names V L h
      obtain rfl : accounts = [] := by simpa using h.keys
      cases fuel <;> exact iff_of_true ⟨(V, L), rfl⟩ (fun r hr => absurd hr List.not_mem_nil)
  | cons r records ih =>
      intro fuel accounts names V L h
      obtain ⟨fuel, vote, accounts, rfl, rfl, hvote, hfound, hrest⟩ := h.first hV₀
      have hr := hV₀.names r (h.listed r List.mem_cons_self)
      have hkeys : D.keysOf names V₀ ∪ D.keysBelow r.validatorAccount r.stakeCount.toNat ⊆
          D.countedKeys V₀ := by
        refine Finset.union_subset keysOf_subset fun k hk => ?_
        have hlisted := h.listed r List.mem_cons_self
        exact mem_keysOf.mpr ⟨r, hlisted, List.mem_map_of_mem hlisted, hk⟩
      have hfirst := updateValidator_succeeds_iff clock hS hT hW hL hbounded
        (keysOf_stakes hV₀) hcall hr hvote hkeys h.refreshed.ledger
        (Deployment.unsigned_cons.mp h.unsigned).2 hrest
      rw [updateValidators, hfound, List.forall_mem_cons, ← hfirst]
      constructor
      · rintro ⟨result, hrun⟩
        obtain ⟨⟨r', rest, L₁⟩, hone, hrun⟩ := bind_eq_ok.mp hrun
        have hnext := h.next hS hW hL hcall hV₀ hvote hfound hrest hone
        exact ⟨⟨r', rest, L₁, hone⟩, (ih hnext).mp ⟨result, hrun⟩⟩
      · rintro ⟨⟨r', rest, L₁, hone⟩, hunfilled⟩
        have hnext := h.next hS hW hL hcall hV₀ hvote hfound hrest hone
        obtain ⟨result, hrun⟩ := (ih hnext).mpr hunfilled
        exact ⟨result, bind_eq_ok.mpr ⟨_, hone, hrun⟩⟩

omit hT hbounded hall in
include hV₀ in
theorem namedValidators_of_queue (records : List ValidatorStakeInfo) :
    ∀ {fuel : Nat} {accounts : List AccountInfo} {names : List Pubkey}
      {V : List ValidatorStakeInfo} {L : Ledger} {result : List ValidatorStakeInfo × Ledger},
      RefreshQueue D W quiet clock.epoch V₀ L₀ records fuel accounts names V L →
      updateValidators D.programs D.programId a clock bump fuel accounts V L = .ok result →
      namedValidators D.programs D.programId a clock bump fuel accounts V L =
        records.map ValidatorStakeInfo.validatorAccount := by
  induction records with
  | nil =>
      intro fuel accounts names V L result h _
      obtain rfl : accounts = [] := by simpa using h.keys
      cases fuel <;> rfl
  | cons r records ih =>
      intro fuel accounts names V L result h hrun
      obtain ⟨fuel, vote, accounts, rfl, rfl, hvote, hfound, hrest⟩ := h.first hV₀
      rw [updateValidators, hfound] at hrun
      obtain ⟨⟨r', rest, L₁⟩, hone, hrun⟩ := bind_eq_ok.mp hrun
      have hnext := h.next hS hW hL hcall hV₀ hvote hfound hrest hone
      unfold namedValidators
      simp only [hfound, hone, ih hnext hrun]
      rw [List.map_cons, hvote]

end Queue

end Success

/-! ## The handler -/

section Handler

variable {c : Chain} {s : PoolState} {accounts : List AccountInfo}
  (h : D.Represents c.ledger s) (ha : D.Addressed accounts)

include h ha

theorem RefreshCall.of_checked (hparse : UpdateListBalanceAccounts.parse c accounts = .ok a)
    (hwithdraw : a.withdraw.key = D.withdrawKey) (hreserve : a.reserve.key = D.reserveKey) :
    RefreshCall D a s.pool.withdrawBumpSeed ∧ D.Unsigned a.rest := by
  have haccounts := UpdateListBalanceAccounts.parse_ok hparse
  have hunsigned : D.Unsigned accounts := ha.unsigned
  constructor
  · refine ⟨ha.key_eq haccounts, hwithdraw, hreserve, h.wired.withdraw_bump, ?_⟩
    intro info hinfo
    apply hunsigned
    rw [haccounts]
    simp only [List.mem_cons, List.not_mem_nil, or_false] at hinfo ⊢
    tauto
  · intro info hinfo
    apply hunsigned
    rw [haccounts]
    simp [hinfo]

theorem processUpdateListBalance_sweeps {V₀ : List ValidatorStakeInfo} {names : List Pubkey}
    (hS : D.programs.StakeRules) (hW : D.Separate W) (hL : D.SoundStakes False W L₀)
    (hV₀ : Deployment.Listed W V₀)
    (hbefore : RefreshedTo D W quiet c.clock.epoch names V₀ L₀ s.list.validators c.ledger)
    (hrun : processUpdateListBalance D.programs D.programId accounts c = .ok L') :
    ∃ V', RefreshedTo D W quiet c.clock.epoch (names ++ D.namedBy c accounts) V₀ L₀ V' L' ∧
      D.Represents L'
        (PoolState.recount { s with list := { s.list with validators := V' } } D L') := by
  simp only [processUpdateListBalance, bind_eq_ok, require_eq_ok, Prod.exists] at hrun
  obtain ⟨a, hparse, pool, hload, list, hlist, _, hwithdraw, _, hreserve, V', L₁, hupdate,
    hstore⟩ :=
    hrun
  have hkey := ha.key_eq (UpdateListBalanceAccounts.parse_ok hparse)
  obtain rfl := h.load_pool hkey hload
  obtain ⟨hlistKey, rfl, -⟩ := h.load_list hlist
  rw [hkey] at hreserve hwithdraw
  obtain ⟨hcall, hunsigned⟩ :=
    RefreshCall.of_checked h ha hparse (h.withdraw_checked hwithdraw) hreserve
  have hafter := updateValidators_sweeps hS hW hL hcall hV₀ _ hbefore hunsigned hupdate
  obtain ⟨h₁, -⟩ := updateValidators_refines hkey hreserve _ h hupdate
  rw [h.namedBy_eq hparse]
  refine ⟨V', ?_⟩
  split at hstore
  case isTrue =>
    rw [hlistKey] at hstore
    have h₂ := h₁.store_list hstore rfl
    obtain ⟨data, -, -, hL'⟩ := store_eq_ok.mp hstore
    refine ⟨⟨hafter.records, hafter.ledger.congr ?_ ?_⟩, ?_⟩
    · rw [← hL', Ledger.setData_lamports]
    · intro v hv i
      exact store_of_owner (hafter.ledger.sound v hv i).owner_ne_program hstore
    · rw [← h₂.recount_eq rfl rfl] at h₂
      exact h₂
  case isFalse hnone =>
    obtain rfl := Except.ok.inj hstore
    have hempty : a.rest = [] := not_not.mp hnone
    rw [hempty] at hupdate
    simp only [List.length_nil, updateValidators, Except.ok.injEq, Prod.mk.injEq] at hupdate
    obtain ⟨rfl, rfl⟩ := hupdate
    exact ⟨hafter, h₁⟩

end Handler

/-- A call of UpdateListBalance with the accounts of the pool and those of `records`. -/
structure Deployment.RefreshesList (D : Deployment) (c : Chain) (s : PoolState)
    (records : List ValidatorStakeInfo) (accounts : List AccountInfo)
    (a : UpdateListBalanceAccounts) : Prop where
  addressed : D.Addressed accounts
  parsed : UpdateListBalanceAccounts.parse c accounts = .ok a
  list : a.validatorStakeList.key = s.pool.validatorStakeList
  withdraw : a.withdraw.key = D.withdrawKey
  reserve : a.reserve.key = D.reserveKey
  listed : ∀ r ∈ records, r ∈ s.list.validators
  nodup : (records.map ValidatorStakeInfo.validatorAccount).Nodup
  keys : a.rest.map (fun info => info.key) = records.flatMap D.block

section Refresh

variable {c : Chain} {s : PoolState} {accounts : List AccountInfo}
  {records : List ValidatorStakeInfo} (h : D.Represents c.ledger s)
  (hcall : D.RefreshesList c s records accounts a)

include h hcall

theorem Deployment.RefreshesList.queue (hL : D.SoundStakes False W c.ledger) :
    RefreshQueue D W False c.clock.epoch s.list.validators c.ledger records a.rest.length a.rest []
      s.list.validators c.ledger where
  refreshed := RefreshedTo.nothing hL
  listed := hcall.listed
  nodup := hcall.nodup
  unnamed := fun _ _ => List.not_mem_nil
  unsigned := (RefreshCall.of_checked h hcall.addressed hcall.parsed hcall.withdraw hcall.reserve).2
  keys := hcall.keys
  length := le_rfl

/-- The checks of the instruction are met, and the list written back fits its account. -/
theorem processUpdateListBalance_ok_iff (hS : D.programs.StakeRules) (hW : D.Separate W)
    (hL : D.SoundStakes False W c.ledger) (hV : Deployment.Listed W s.list.validators)
    (hroom : s.list.validators.length ≤ maxValidators) :
    (∃ L', processUpdateListBalance D.programs D.programId accounts c = .ok L') ↔
      ∃ result, updateValidators D.programs D.programId a c.clock s.pool.withdrawBumpSeed
        a.rest.length a.rest s.list.validators c.ledger = .ok result := by
  have hkey := hcall.addressed.key_eq (UpdateListBalanceAccounts.parse_ok hcall.parsed)
  have hload := h.loadStakePool_ok hkey
  have hlistLoad := h.loadValidatorStakeList_ok hcall.list hroom
  have hcheck : s.pool.checkAuthorityWithdraw D.programs D.programId a.withdraw.key
      a.stakePool.key = .ok () := by
    rw [hcall.withdraw, hkey]
    exact checkAuthority_eq_ok.mpr h.wired.withdraw_bump
  have hreserve : require (a.reserve.key = (getReserveAddress D.programs D.programId
      a.stakePool.key).1) ProgramError.invalidArgument = .ok () := by
    rw [require_eq_ok, hcall.reserve, hkey]
    rfl
  simp only [processUpdateListBalance, hcall.parsed, hload, hlistLoad, hcheck, hreserve, ok_bind]
  constructor
  · rintro ⟨L', hrun⟩
    obtain ⟨result, hupdate, -⟩ := bind_eq_ok.mp hrun
    exact ⟨result, hupdate⟩
  · rintro ⟨⟨V', L₁⟩, hupdate⟩
    obtain ⟨hrefresh, hunsigned⟩ :=
      RefreshCall.of_checked h hcall.addressed hcall.parsed hcall.withdraw hcall.reserve
    have hswept := updateValidators_sweeps hS hW hL hrefresh hV _ (RefreshedTo.nothing hL)
      hunsigned hupdate
    have hcount : V'.length ≤ maxValidators := by
      rw [hswept.records, Deployment.refreshedIn, List.length_map]
      exact hroom
    obtain ⟨h₁, -⟩ := updateValidators_refines hkey hcall.reserve _ h hupdate
    obtain ⟨L₂, hstore⟩ := h₁.store_list_ok { s.list with validators := V' } hcount
    change store D.programId s.pool.validatorStakeList _ L₁ = _ at hstore
    rw [← hcall.list] at hstore
    refine ⟨if a.rest ≠ [] then L₂ else L₁, ?_⟩
    rw [hupdate, ok_bind]
    split
    · exact hstore
    · rfl

/-- A refresh gets through unless a stake account it comes to was filled again. -/
theorem processUpdateListBalance_succeeds_iff (hS : D.programs.StakeRules)
    (hT : D.programs.SystemRules) (hW : D.Separate W) (hL : D.SoundStakes False W c.ledger)
    (hbounded : D.Bounded (D.countedKeys s.list.validators) c.ledger)
    (hV : Deployment.Listed W s.list.validators)
    (hroom : s.list.validators.length ≤ maxValidators) :
    (∃ L', processUpdateListBalance D.programs D.programId accounts c = .ok L') ↔
      ∀ r ∈ records, ∀ i < r.stakeCount,
        D.SoundStake True (c.ledger (D.stakeKey r.validatorAccount i)) := by
  obtain ⟨hrefresh, -⟩ :=
    RefreshCall.of_checked h hcall.addressed hcall.parsed hcall.withdraw hcall.reserve
  rw [processUpdateListBalance_ok_iff h hcall hS hW hL hV hroom]
  exact updateValidators_succeeds_iff hS hT hW hL hrefresh hV hbounded records (hcall.queue h hL)

/-- Such a refresh names exactly the records it was called for. -/
theorem Deployment.RefreshesList.namedBy_eq (hS : D.programs.StakeRules) (hW : D.Separate W)
    (hL : D.SoundStakes False W c.ledger) (hV : Deployment.Listed W s.list.validators)
    (hroom : s.list.validators.length ≤ maxValidators)
    (hrun : ∃ L', processUpdateListBalance D.programs D.programId accounts c = .ok L') :
    D.namedBy c accounts = records.map ValidatorStakeInfo.validatorAccount := by
  obtain ⟨hrefresh, -⟩ :=
    RefreshCall.of_checked h hcall.addressed hcall.parsed hcall.withdraw hcall.reserve
  obtain ⟨result, hupdate⟩ := (processUpdateListBalance_ok_iff h hcall hS hW hL hV hroom).mp hrun
  rw [h.namedBy_eq hcall.parsed]
  exact namedValidators_of_queue hS hW hL hrefresh hV records (hcall.queue h hL) hupdate

end Refresh

end Tenderize
