import Tenderize.Refinement.Accounts

/-!
# The validator handlers refine the pool steps
-/

namespace Tenderize

open Support

variable {D : Deployment} {chain : Chain} {accounts : List AccountInfo} {s : PoolState}
  {L L' : Ledger}

/-! ## AddValidator and RemoveValidator -/

section

variable (h : D.Represents chain.ledger s) (ha : D.Addressed accounts)

include h ha

theorem loadForOwner_ok {a : ValidatorAccounts} {list : ValidatorStakeList}
    (hparse : ValidatorAccounts.parse chain accounts = .ok a)
    (hload : loadForOwner D.programs D.programId chain a = .ok list) :
    list = s.list ∧ a.validatorStakeList.key = s.pool.validatorStakeList ∧
      chain.clock.epoch ≤ s.pool.lastUpdateEpoch := by
  simp only [loadForOwner, bind_eq_ok, require_eq_ok] at hload
  obtain ⟨pool, hpool, _, -, _, hfresh, hlist⟩ := hload
  obtain ⟨rest, haccounts⟩ := ValidatorAccounts.parse_ok hparse
  obtain rfl := h.load_pool (ha.key_eq haccounts) hpool
  obtain ⟨hkey, rfl, -⟩ := h.load_list hlist
  exact ⟨rfl, hkey, UInt64.not_lt.mp hfresh⟩

theorem processAddValidator_ok
    (hrun : processAddValidator D.programs D.programId accounts chain = .ok L') :
    ∃ a, ValidatorAccounts.parse chain accounts = .ok a ∧
      chain.clock.epoch ≤ s.pool.lastUpdateEpoch ∧
      s.list.validators.length < maxValidators ∧
      (∀ record ∈ s.list.validators, record.validatorAccount ≠ a.validator.key) ∧
      D.Represents L'
        { s with
          list :=
            { s.list with
              validators :=
                s.list.validators ++ [⟨a.validator.key, 0, chain.clock.epoch, 0⟩] } } := by
  simp only [processAddValidator, bind_eq_ok, require_eq_ok] at hrun
  obtain ⟨a, hparse, list, hload, -, hroom, -, hnew, hstore⟩ := hrun
  obtain ⟨rfl, hkey, hfresh⟩ := loadForOwner_ok h ha hparse hload
  rw [hkey] at hstore
  refine ⟨a, hparse, hfresh, Nat.not_le.mp hroom, ?_, h.store_list hstore rfl⟩
  simpa [ValidatorStakeList.contains] using hnew

theorem processAddValidator_refines
    (hrun : processAddValidator D.programs D.programId accounts chain = .ok L') :
    ∃ a s', ValidatorAccounts.parse chain accounts = .ok a ∧
      PoolStep D s (.addValidator a.validator.key) s' ∧ D.Represents L' s' := by
  obtain ⟨a, hparse, -, -, hnew, h'⟩ := processAddValidator_ok h ha hrun
  exact ⟨a, _, hparse, .addValidator a.validator.key chain.clock.epoch hnew, h'⟩

theorem processRemoveValidator_ok
    (hrun : processRemoveValidator D.programs D.programId accounts chain = .ok L') :
    ∃ a validators, ValidatorAccounts.parse chain accounts = .ok a ∧
      chain.clock.epoch ≤ s.pool.lastUpdateEpoch ∧
      removeRecord a.validator.key s.list.validators = .ok validators ∧
      D.Represents L' { s with list := { s.list with validators } } := by
  simp only [processRemoveValidator, bind_eq_ok] at hrun
  obtain ⟨a, hparse, list, hload, validators, hremove, hstore⟩ := hrun
  obtain ⟨rfl, hkey, hfresh⟩ := loadForOwner_ok h ha hparse hload
  rw [hkey] at hstore
  exact ⟨a, validators, hparse, hfresh, hremove, h.store_list hstore rfl⟩

theorem processRemoveValidator_refines
    (hrun : processRemoveValidator D.programs D.programId accounts chain = .ok L') :
    ∃ a s', ValidatorAccounts.parse chain accounts = .ok a ∧
      PoolStep D s (.removeValidator a.validator.key) s' ∧ D.Represents L' s' := by
  obtain ⟨a, validators, hparse, -, hremove, h'⟩ := processRemoveValidator_ok h ha hrun
  exact ⟨a, _, hparse, .removeValidator a.validator.key validators hremove, h'⟩

end

/-! ## UpdateListBalance -/

section Scan

variable {a : UpdateListBalanceAccounts} {clock : Clock} {bump : UInt8} {vote : AccountInfo}

/-- The scan after an account that keeps `kept` lamports, if it is a live stake. -/
def Deployment.scanned (D : Deployment) (index : UInt32) (balance : UInt64) (count : UInt32)
    (L : Ledger) : Option UInt64 → Scan
  | some kept => ⟨balance + kept, index + 1, (L D.reserveKey).lamports, D.stakesOf L⟩
  | none => ⟨balance, count, (L D.reserveKey).lamports, D.stakesOf L⟩

theorem updateStake_refines {index : UInt32} {stakeBump : UInt8} {stakeAccount : AccountInfo}
    {validator : Pubkey} {kept : Option UInt64} (balance : UInt64) (count : UInt32)
    (h : D.Represents L s) (hreserve : a.reserve.key = D.reserveKey)
    (hkey : stakeAccount.key = D.stakeKey validator index)
    (hrun : updateStake D.programs D.programId a clock bump vote index stakeBump stakeAccount L =
      .ok (kept, L')) :
    D.Represents L' (s.recount D L') ∧
      (D.stakeKey validator index ≠ D.reserveKey →
        D.ScanStep validator index
          ⟨balance, count, (L D.reserveKey).lamports, D.stakesOf L⟩
          (D.scanned index balance count L' kept)) := by
  have hself : s.recount D L = s := h.recount_eq rfl rfl
  simp only [updateStake, hkey, hreserve] at hrun
  split at hrun
  case isFalse hempty =>
    simp only [pure_eq_ok, Prod.mk.injEq] at hrun
    obtain ⟨rfl, rfl⟩ := hrun
    refine ⟨by rw [hself]; exact h, fun hne => .empty ?_ (le_refl _) rfl rfl rfl⟩
    have hzero : (L (D.stakeKey validator index)).lamports = 0 := by
      simpa using hempty
    show D.stakesOf L _ = 0
    rw [D.stakesOf_of_ne L hne]
    simp [stakeLamports, hzero]
  case isTrue =>
    split at hrun
    case isTrue howner =>
      simp only [bind_eq_ok] at hrun
      obtain ⟨state, -, available, -, hrun⟩ := hrun
      have hstake : D.stakeKey validator index ≠ D.reserveKey →
          D.stakesOf L (D.stakeKey validator index) =
            (L (D.stakeKey validator index)).lamports.toNat := by
        intro hne
        rw [D.stakesOf_of_ne L hne]
        exact if_pos howner
      split at hrun
      case isTrue =>
        simp only [bind_eq_ok, pure_eq_ok, Prod.mk.injEq] at hrun
        obtain ⟨L₁, hcall, rfl, rfl⟩ := hrun
        refine ⟨h.stakeWithdraw hcall, fun hne => ?_⟩
        obtain ⟨hle, hstakes⟩ := D.lawful.stakeWithdraw_stakes hcall hne
        obtain ⟨-, hn, -⟩ := D.lawful.stakeWithdraw_ok hcall
        have hsub := UInt64.toNat_sub_of_le _ _ hn
        have hn' := UInt64.le_iff_toNat_le.mp hn
        refine .live available _ ?_ (D.lawful.stakeWithdraw_target hcall hne) ?_ rfl rfl
        · show D.stakesOf L _ = _
          rw [hstake hne]
          omega
        · apply D.stakesOf_update hne
          intro k hk
          rw [hstakes k hk, hsub]
          simp [stakeLamports, howner]
      case isFalse =>
        simp only [pure_eq_ok, Prod.mk.injEq] at hrun
        obtain ⟨rfl, rfl⟩ := hrun
        refine ⟨by rw [hself]; exact h, fun hne => .live 0 _ (hstake hne) rfl ?_ rfl rfl⟩
        show D.stakesOf L = _
        rw [← hstake hne, Function.update_eq_self]
    case isFalse howner =>
      simp only [bind_eq_ok, require_eq_ok, pure_eq_ok, Prod.mk.injEq] at hrun
      obtain ⟨-, -, L₁, hcall, rfl, rfl⟩ := hrun
      refine ⟨h.transfer hcall, fun hne => .empty ?_ ?_ ?_ rfl rfl⟩
      · show D.stakesOf L _ = 0
        rw [D.stakesOf_of_ne L hne]
        exact if_neg howner
      · have htarget := D.lawful.transfer_target hcall hne
        show (L D.reserveKey).lamports.toNat ≤ (L₁ D.reserveKey).lamports.toNat
        omega
      · exact D.stakesOf_transfer_reserve hcall

/-- The loop's variables as a scan. -/
def ScanState.scan (D : Deployment) (x : ScanState) : Scan :=
  ⟨x.record.balance, x.newStakeCount, (x.ledger D.reserveKey).lamports, D.stakesOf x.ledger⟩

theorem scanStakes_refines {validator : Pubkey} (hpool : a.stakePool.key = D.poolKey)
    (hreserve : a.reserve.key = D.reserveKey) (remaining : Nat) :
    ∀ (start : Nat) {s : PoolState} {x x' : ScanState}, D.Represents x.ledger s →
      x.record.validatorAccount = validator →
      scanStakes D.programs D.programId a clock bump vote remaining (UInt32.ofNat start) x =
        .ok x' →
      D.Represents x'.ledger (s.recount D x'.ledger) ∧
        x'.record = { x.record with balance := x'.record.balance } ∧
        ((∀ index, D.stakeKey validator index ≠ D.reserveKey) →
          RunList (fun index => D.ScanStep validator (UInt32.ofNat index))
            (List.range' start remaining) (x.scan D) (x'.scan D)) := by
  induction remaining with
  | zero =>
      intro start s x x' h _ hrun
      obtain rfl := Except.ok.inj hrun
      refine ⟨?_, rfl, fun _ => .nil _⟩
      rw [h.recount_eq rfl rfl]
      exact h
  | succ remaining ih =>
      intro start s x x' h hvalidator hrun
      simp only [scanStakes, bind_eq_ok, Prod.exists, nextAccountInfo_eq_ok,
        checkValidatorStakeAddress_eq_ok] at hrun
      obtain ⟨stakeAccount, accounts, -, stakeBump, ⟨hkey, -⟩, kept, L₁, hstep, hrun⟩ := hrun
      have hkey' : stakeAccount.key = D.stakeKey validator (UInt32.ofNat start) := by
        rw [hkey, hpool, ← hvalidator]
        rfl
      obtain ⟨h₁, hscan⟩ :=
        updateStake_refines x.record.balance x.newStakeCount h hreserve hkey' hstep
      have hnext : UInt32.ofNat start + 1 = UInt32.ofNat (start + 1) := by simp
      rw [hnext] at hrun
      cases kept with
      | none =>
          obtain ⟨h₂, hrecord, htail⟩ :=
            ih (start + 1) (x := ⟨x.record, x.newStakeCount, accounts, L₁⟩) h₁ hvalidator hrun
          refine ⟨h₂, hrecord, fun hne => ?_⟩
          rw [List.range'_succ]
          exact .cons (hscan (hne _)) (htail hne)
      | some balance =>
          obtain ⟨h₂, hrecord, htail⟩ :=
            ih (start + 1) (x := ⟨{ x.record with balance := x.record.balance + balance },
              UInt32.ofNat (start + 1), accounts, L₁⟩) h₁ hvalidator hrun
          refine ⟨h₂, hrecord, fun hne => ?_⟩
          have hfirst := hscan (hne _)
          unfold Deployment.scanned at hfirst
          rw [hnext] at hfirst
          rw [List.range'_succ]
          exact .cons hfirst (htail hne)

theorem updateValidator_refines {record record' : ValidatorStakeInfo}
    {validators : List ValidatorStakeInfo} {rest rest' : List AccountInfo}
    (hpool : a.stakePool.key = D.poolKey) (hreserve : a.reserve.key = D.reserveKey)
    (h : D.Represents L s)
    (hrecord : lookup ValidatorStakeInfo.validatorAccount vote.key validators = some record)
    (hrun : updateValidator D.programs D.programId a clock bump vote record rest L =
      .ok (record', rest', L')) :
    D.Represents L' (s.recount D L') ∧
      D.RefreshStep clock.epoch vote.key (D.booksOf validators L)
        (D.booksOf
          (updateFirst ValidatorStakeInfo.validatorAccount vote.key record' validators) L') := by
  simp only [updateValidator, bind_eq_ok, pure_eq_ok, Prod.mk.injEq] at hrun
  obtain ⟨x, hscan, rfl, -, rfl⟩ := hrun
  have hvalidator := lookup_key hrecord
  obtain ⟨h', hkeep, hsteps⟩ := scanStakes_refines hpool hreserve _ 0 h
    (show _ = record.validatorAccount from rfl) hscan
  refine ⟨h', ⟨record, x.record.balance, x.newStakeCount, hrecord, ?_, ?_⟩⟩
  · rw [hkeep]
    simp only [Deployment.booksOf, putRecord, hvalidator]
  · intro hne
    rw [hvalidator] at hsteps
    rw [List.range_eq_range']
    exact hsteps hne

/-- The validators that the loop of `UpdateListBalance` names. -/
def namedValidators (P : Programs) (programId : Pubkey) (a : UpdateListBalanceAccounts)
    (clock : Clock) (bump : UInt8) :
    (fuel : Nat) → List AccountInfo → List ValidatorStakeInfo → Ledger → List Pubkey
  | fuel + 1, vote :: accounts, validators, L =>
      match lookup ValidatorStakeInfo.validatorAccount vote.key validators with
      | some record =>
          match updateValidator P programId a clock bump vote record accounts L with
          | .ok (record, accounts, L) =>
              vote.key :: namedValidators P programId a clock bump fuel accounts
                (updateFirst ValidatorStakeInfo.validatorAccount vote.key record validators) L
          | .error _ => []
      | none => []
  | _, _, _, _ => []

theorem updateValidators_refines (hpool : a.stakePool.key = D.poolKey)
    (hreserve : a.reserve.key = D.reserveKey) (fuel : Nat) :
    ∀ {accounts : List AccountInfo} {validators validators' : List ValidatorStakeInfo}
      {L L' : Ledger} {s : PoolState}, D.Represents L s →
      updateValidators D.programs D.programId a clock bump fuel accounts validators L =
        .ok (validators', L') →
      D.Represents L' (s.recount D L') ∧
        RunList (D.RefreshStep clock.epoch)
          (namedValidators D.programs D.programId a clock bump fuel accounts validators L)
          (D.booksOf validators L) (D.booksOf validators' L') := by
  induction fuel with
  | zero =>
      intro accounts validators validators' L L' s h hrun
      cases accounts with
      | nil =>
          simp only [updateValidators, Except.ok.injEq, Prod.mk.injEq] at hrun
          obtain ⟨rfl, rfl⟩ := hrun
          rw [h.recount_eq rfl rfl]
          exact ⟨h, .nil _⟩
      | cons => simp [updateValidators] at hrun
  | succ fuel ih =>
      intro accounts validators validators' L L' s h hrun
      cases accounts with
      | nil =>
          simp only [updateValidators, Except.ok.injEq, Prod.mk.injEq] at hrun
          obtain ⟨rfl, rfl⟩ := hrun
          rw [h.recount_eq rfl rfl]
          exact ⟨h, .nil _⟩
      | cons vote accounts =>
          unfold updateValidators at hrun
          split at hrun
          case h_1 record hrecord =>
            simp only [bind_eq_ok, Prod.exists] at hrun
            obtain ⟨record', rest, L₁, hone, hrun⟩ := hrun
            obtain ⟨h₁, hrefresh⟩ := updateValidator_refines hpool hreserve h hrecord hone
            obtain ⟨h₂, htail⟩ := ih h₁ hrun
            simp only [namedValidators, hrecord, hone]
            exact ⟨h₂, .cons hrefresh htail⟩
          case h_2 => cases hrun

end Scan

/-- The validators that an `UpdateListBalance` names. -/
def Deployment.namedBy (D : Deployment) (c : Chain) (accounts : List AccountInfo) : List Pubkey :=
  match UpdateListBalanceAccounts.parse c accounts with
  | .ok a =>
      namedValidators D.programs D.programId a c.clock (D.stateOf c.ledger).pool.withdrawBumpSeed
        a.rest.length a.rest (D.stateOf c.ledger).list.validators c.ledger
  | .error _ => []

theorem Deployment.Represents.namedBy_eq (h : D.Represents chain.ledger s)
    {a : UpdateListBalanceAccounts}
    (hparse : UpdateListBalanceAccounts.parse chain accounts = .ok a) :
    D.namedBy chain accounts = namedValidators D.programs D.programId a chain.clock
      s.pool.withdrawBumpSeed a.rest.length a.rest s.list.validators chain.ledger := by
  unfold Deployment.namedBy
  rw [hparse, ← h.eq_stateOf]

theorem processUpdateListBalance_ok (h : D.Represents chain.ledger s)
    (ha : D.Addressed accounts)
    (hrun : processUpdateListBalance D.programs D.programId accounts chain = .ok L') :
    ∃ b, RunList (D.RefreshStep chain.clock.epoch) (D.namedBy chain accounts) s.books b ∧
      D.Represents L' (s.commit ⟨b, true⟩) := by
  simp only [processUpdateListBalance, bind_eq_ok, require_eq_ok, Prod.exists] at hrun
  obtain ⟨a, hparse, pool, hload, list, hlist, _, -, _, hreserve, validators, L₁, hupdate,
    hstore⟩ := hrun
  have hkey := ha.key_eq (UpdateListBalanceAccounts.parse_ok hparse)
  obtain rfl := h.load_pool hkey hload
  obtain ⟨hlistKey, rfl, -⟩ := h.load_list hlist
  rw [hkey] at hreserve
  obtain ⟨h₁, hsteps⟩ := updateValidators_refines hkey hreserve _ h hupdate
  rw [h.booksOf_eq] at hsteps
  rw [h.namedBy_eq hparse]
  refine ⟨_, hsteps, ?_⟩
  split at hstore
  case isTrue =>
    rw [hlistKey] at hstore
    exact h₁.store_list hstore rfl
  case isFalse hnone =>
    obtain rfl := Except.ok.inj hstore
    have hempty : a.rest = [] := not_not.mp hnone
    rw [hempty] at hupdate
    simp only [List.length_nil, updateValidators, Except.ok.injEq, Prod.mk.injEq] at hupdate
    obtain ⟨rfl, rfl⟩ := hupdate
    exact h₁

theorem processUpdateListBalance_refines (h : D.Represents chain.ledger s)
    (ha : D.Addressed accounts)
    (hrun : processUpdateListBalance D.programs D.programId accounts chain = .ok L') :
    ∃ s', PoolStep D s .updateList s' ∧ D.Represents L' s' := by
  obtain ⟨b, hsteps, h'⟩ := processUpdateListBalance_ok h ha hrun
  exact ⟨_, .updateList chain.clock.epoch _ b hsteps, h'⟩

end Tenderize
