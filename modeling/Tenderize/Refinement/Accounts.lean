import Tenderize.Spec.Steps

/-!
# Account lists

A handler that starts reads its accounts in a fixed order: a parsed account list is the
original one.  An instruction is addressed to a pool by its first account, and nobody
can sign for an address derived from seeds.
-/

namespace Tenderize

open Support

namespace Deployment

variable (D : Deployment)

/-- The addresses derived for the pool: those of its authorities, with the reserve and the
temporary account of wrapped deposits, and those of its stake accounts. -/
inductive OwnAddress : Pubkey → Prop
  | authority (type : AuthorityType) : OwnAddress
      (D.programs.findProgramAddress [.key D.poolKey, .authority type] D.programId).1
  | stake (validator : Pubkey) (index : UInt32) : OwnAddress (D.stakeKey validator index)

/-- The instruction is for this pool: its first account is the pool. -/
structure Addressed (accounts : List AccountInfo) : Prop where
  first : ∃ info rest, accounts = info :: rest ∧ info.key = D.poolKey
  unsigned : ∀ info ∈ accounts, info.isSigner = true →
    ¬D.programs.IsProgramAddress D.programId info.key

variable {D}

theorem Addressed.key_eq {accounts rest : List AccountInfo} {info : AccountInfo}
    (h : D.Addressed accounts) (heq : accounts = info :: rest) : info.key = D.poolKey := by
  obtain ⟨info', rest', heq', hkey⟩ := h.first
  rw [heq] at heq'
  obtain ⟨rfl, -⟩ := List.cons.inj heq'
  exact hkey

theorem reserveKey_ownAddress : D.OwnAddress D.reserveKey :=
  .authority .reserve

theorem OwnAddress.isProgramAddress {key : Pubkey} (h : D.OwnAddress key) :
    D.programs.IsProgramAddress D.programId key := by
  cases h with
  | authority type => exact ⟨_, D.lawful.authority_address D.poolKey type D.programId⟩
  | stake validator index =>
      exact ⟨_, D.lawful.stake_address validator D.poolKey index D.programId⟩

theorem reserveKey_isProgramAddress :
    D.programs.IsProgramAddress D.programId D.reserveKey :=
  reserveKey_ownAddress.isProgramAddress

theorem stakeKey_isProgramAddress (validator : Pubkey) (index : UInt32) :
    D.programs.IsProgramAddress D.programId (D.stakeKey validator index) :=
  (OwnAddress.stake validator index).isProgramAddress

/-- A key that signs through accounts of the instruction is not a program address. -/
theorem Addressed.signer {accounts infos : List AccountInfo} {key : Pubkey}
    (h : D.Addressed accounts) (hsub : ∀ info ∈ infos, info ∈ accounts)
    (hkey : key ∈ signers infos) : ¬D.programs.IsProgramAddress D.programId key := by
  simp only [signers, List.mem_map, List.mem_filter] at hkey
  obtain ⟨info, ⟨hmem, hsigner⟩, rfl⟩ := hkey
  exact h.unsigned info (hsub info hmem) hsigner

end Deployment

variable {chain : Chain} {accounts : List AccountInfo}

theorem InitializeAccounts.parse_ok {a : InitializeAccounts}
    (h : InitializeAccounts.parse chain accounts = .ok a) :
    ∃ rest, accounts = a.stakePool :: a.owner :: a.validatorStakeList :: a.creditList ::
      a.poolMint :: a.ownerFee :: a.creditReserve :: a.clock :: a.rent :: a.tokenProgram ::
      rest := by
  simp only [InitializeAccounts.parse, bind_eq_ok, pure_eq_ok, Prod.exists,
    nextAccountInfo_eq_ok] at h
  obtain ⟨_, _, rfl, _, _, rfl, _, _, rfl, _, _, rfl, _, _, rfl, _, _, rfl, _, _, rfl, _, _,
    rfl, _, -, _, _, rfl, _, -, _, _, rfl, rfl⟩ := h
  exact ⟨_, rfl⟩

theorem SetOwnerAccounts.parse_ok {a : SetOwnerAccounts}
    (h : SetOwnerAccounts.parse accounts = .ok a) :
    ∃ rest, accounts = a.stakePool :: a.owner :: a.newOwner :: a.newOwnerFee :: rest := by
  simp only [SetOwnerAccounts.parse, bind_eq_ok, pure_eq_ok, Prod.exists,
    nextAccountInfo_eq_ok] at h
  obtain ⟨_, _, rfl, _, _, rfl, _, _, rfl, _, _, rfl, rfl⟩ := h
  exact ⟨_, rfl⟩

theorem UpdatePoolBalanceAccounts.parse_ok {a : UpdatePoolBalanceAccounts}
    (h : UpdatePoolBalanceAccounts.parse chain accounts = .ok a) :
    ∃ rest, accounts = a.stakePool :: a.validatorStakeList :: a.reserve :: a.clock ::
      rest := by
  simp only [UpdatePoolBalanceAccounts.parse, bind_eq_ok, pure_eq_ok, Prod.exists,
    nextAccountInfo_eq_ok] at h
  obtain ⟨_, _, rfl, _, _, rfl, _, _, rfl, _, _, rfl, _, -, rfl⟩ := h
  exact ⟨_, rfl⟩

theorem WithdrawAccounts.parse_ok {a : WithdrawAccounts}
    (h : WithdrawAccounts.parse chain accounts = .ok a) :
    ∃ rest, accounts = a.stakePool :: a.withdraw :: a.reserve :: a.burnFrom :: a.poolMint ::
      a.target :: a.rent :: a.systemProgram :: a.tokenProgram :: rest := by
  simp only [WithdrawAccounts.parse, bind_eq_ok, pure_eq_ok, Prod.exists,
    nextAccountInfo_eq_ok] at h
  obtain ⟨_, _, rfl, _, _, rfl, _, _, rfl, _, _, rfl, _, _, rfl, _, _, rfl, _, _, rfl, _, -, _,
    _, rfl, _, _, rfl, rfl⟩ := h
  exact ⟨_, rfl⟩

theorem CreditAccounts.parse_ok {a : CreditAccounts}
    (h : CreditAccounts.parse accounts = .ok a) :
    ∃ rest, accounts = a.stakePool :: a.creditList :: a.creditReserve :: a.withdraw ::
      a.burnFrom :: a.target :: a.cancelAuthority :: a.tokenProgram :: rest := by
  simp only [CreditAccounts.parse, bind_eq_ok, pure_eq_ok, Prod.exists,
    nextAccountInfo_eq_ok] at h
  obtain ⟨_, _, rfl, _, _, rfl, _, _, rfl, _, _, rfl, _, _, rfl, _, _, rfl, _, _, rfl, _, _,
    rfl, rfl⟩ := h
  exact ⟨_, rfl⟩

theorem PayCreditorsAccounts.parse_ok {a : PayCreditorsAccounts}
    (h : PayCreditorsAccounts.parse chain accounts = .ok a) :
    accounts = a.stakePool :: a.creditList :: a.withdraw :: a.reserve :: a.creditReserve ::
      a.poolMint :: a.rent :: a.clock :: a.systemProgram :: a.tokenProgram :: a.users := by
  simp only [PayCreditorsAccounts.parse, bind_eq_ok, pure_eq_ok, Prod.exists,
    nextAccountInfo_eq_ok] at h
  obtain ⟨_, _, rfl, _, _, rfl, _, _, rfl, _, _, rfl, _, _, rfl, _, _, rfl, _, _, rfl, _, -, _,
    _, rfl, _, -, _, _, rfl, _, _, rfl, rfl⟩ := h
  rfl

theorem ValidatorAccounts.parse_ok {a : ValidatorAccounts}
    (h : ValidatorAccounts.parse chain accounts = .ok a) :
    ∃ rest, accounts = a.stakePool :: a.owner :: a.validatorStakeList :: a.validator ::
      a.clock :: rest := by
  simp only [ValidatorAccounts.parse, bind_eq_ok, pure_eq_ok, Prod.exists,
    nextAccountInfo_eq_ok] at h
  obtain ⟨_, _, rfl, _, _, rfl, _, _, rfl, _, _, rfl, _, _, rfl, _, -, rfl⟩ := h
  exact ⟨_, rfl⟩

theorem UpdateListBalanceAccounts.parse_ok {a : UpdateListBalanceAccounts}
    (h : UpdateListBalanceAccounts.parse chain accounts = .ok a) :
    accounts = a.stakePool :: a.validatorStakeList :: a.withdraw :: a.reserve ::
      a.systemProgram :: a.stakeProgram :: a.clock :: a.stakeHistory :: a.rest := by
  simp only [UpdateListBalanceAccounts.parse, bind_eq_ok, pure_eq_ok, Prod.exists,
    nextAccountInfo_eq_ok] at h
  obtain ⟨_, _, rfl, _, _, rfl, _, _, rfl, _, _, rfl, _, _, rfl, _, _, rfl, _, _, rfl, _, -, _,
    _, rfl, rfl⟩ := h
  rfl

theorem DelegateReserveAccounts.parse_ok {a : DelegateReserveAccounts}
    (h : DelegateReserveAccounts.parse chain accounts = .ok a) :
    accounts = a.stakePool :: a.owner :: a.validatorStakeList :: a.withdraw :: a.deposit ::
      a.reserve :: a.systemProgram :: a.stakeProgram :: a.clock :: a.stakeHistory ::
      a.stakeConfig :: a.rent :: a.rest := by
  simp only [DelegateReserveAccounts.parse, bind_eq_ok, pure_eq_ok, Prod.exists,
    nextAccountInfo_eq_ok] at h
  obtain ⟨_, _, rfl, _, _, rfl, _, _, rfl, _, _, rfl, _, _, rfl, _, _, rfl, _, _, rfl, _, _,
    rfl, _, _, rfl, _, _, rfl, _, _, rfl, _, _, rfl, _, -, rfl⟩ := h
  rfl

theorem MergeStakesAccounts.parse_ok {a : MergeStakesAccounts}
    (h : MergeStakesAccounts.parse accounts = .ok a) :
    accounts = a.stakePool :: a.validatorStakeList :: a.deposit :: a.stakeProgram :: a.clock ::
      a.stakeHistory :: a.rest := by
  simp only [MergeStakesAccounts.parse, bind_eq_ok, pure_eq_ok, Prod.exists,
    nextAccountInfo_eq_ok] at h
  obtain ⟨_, _, rfl, _, _, rfl, _, _, rfl, _, _, rfl, _, _, rfl, _, _, rfl, rfl⟩ := h
  rfl

theorem UnstakeAccounts.parse_ok {a : UnstakeAccounts}
    (h : UnstakeAccounts.parse chain accounts = .ok a) :
    accounts = a.stakePool :: a.owner :: a.validatorStakeList :: a.deposit ::
      a.systemProgram :: a.stakeProgram :: a.rent :: a.clock :: a.stakeHistory :: a.rest := by
  simp only [UnstakeAccounts.parse, bind_eq_ok, pure_eq_ok, Prod.exists,
    nextAccountInfo_eq_ok] at h
  obtain ⟨_, _, rfl, _, _, rfl, _, _, rfl, _, _, rfl, _, _, rfl, _, _, rfl, _, _, rfl, _, -, _,
    _, rfl, _, _, rfl, rfl⟩ := h
  rfl

theorem DepositAccounts.parse_ok {a : DepositAccounts}
    (h : DepositAccounts.parse chain accounts = .ok a) :
    (∃ rest, accounts = a.stakePool :: a.withdraw :: a.reserve :: a.sourceUser :: a.destUser ::
      a.ownerFee :: a.poolMint :: a.rent :: a.systemProgram :: a.tokenProgram :: rest) ∧
    (a.wrapped.isSome ↔ (chain.ledger a.sourceUser.key).owner ≠ systemProgramId) := by
  simp only [DepositAccounts.parse, bind_eq_ok, Prod.exists, nextAccountInfo_eq_ok] at h
  obtain ⟨_, _, rfl, _, _, rfl, _, _, rfl, _, _, rfl, _, _, rfl, _, _, rfl, _, _, rfl, _, _, rfl,
    _, -, _, _, rfl, _, _, rfl, h⟩ := h
  split at h
  case isTrue hsource =>
    simp only [bind_eq_ok, pure_eq_ok, Prod.exists, nextAccountInfo_eq_ok] at h
    obtain ⟨_, _, rfl, _, _, rfl, rfl⟩ := h
    exact ⟨⟨_, rfl⟩, by simpa using hsource⟩
  case isFalse hsource =>
    obtain rfl := pure_eq_ok.mp h
    exact ⟨⟨_, rfl⟩, by simpa using hsource⟩

end Tenderize
