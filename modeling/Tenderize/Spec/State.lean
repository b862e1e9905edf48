import Tenderize.Model.Processor
import Tenderize.Effects.Calls

/-!
# The pool as one state

A pool is spread over a handful of accounts.  `PoolState` collects what they say about
it, and `Deployment.Represents` ties such a state to a ledger.  Calls and stores then
become updates of a `PoolState`.
-/

namespace Tenderize

open Support

/-- A program deployed next to lawful system, token and stake programs, and the key of
one of its pools. -/
structure Deployment where
  programs : Programs
  programId : Pubkey
  poolKey : Pubkey
  lawful : programs.Lawful
  ne_system : programId ≠ systemProgramId
  ne_token : programId ≠ splTokenId
  ne_stake : programId ≠ stakeProgramId

/-- What the accounts of a pool say about it. -/
structure PoolState where
  pool : StakePool
  list : ValidatorStakeList
  creditList : CreditList
  mint : Mint
  creditReserve : TokenAccount
  /-- Lamports of the reserve address. -/
  reserve : UInt64
  /-- Lamports of the accounts the stake program owns, by address; the reserve is not
  counted twice. -/
  stakes : Pubkey → Nat

namespace Ledger

def HasPool (programId : Pubkey) (L : Ledger) (key : Pubkey) (pool : StakePool) : Prop :=
  (L key).owner = programId ∧
    ∃ len, StakePool.LEN ≤ len ∧ (L key).data = .stakePool len pool

def HasList (programId : Pubkey) (L : Ledger) (key : Pubkey) (list : ValidatorStakeList) :
    Prop :=
  (L key).owner = programId ∧ (L key).data.len ≥ ValidatorStakeList.LEN ∧
    ∃ len, (L key).data = .validatorStakeList len list

def HasCredits (programId : Pubkey) (L : Ledger) (key : Pubkey) (list : CreditList) : Prop :=
  (L key).owner = programId ∧ (L key).data.len ≥ CreditList.LEN ∧
    ∃ len, (L key).data = .creditList len list

end Ledger

namespace Deployment

variable (D : Deployment)

def reserveKey : Pubkey := (getReserveAddress D.programs D.programId D.poolKey).1

def withdrawKey : Pubkey :=
  (findAuthorityBumpSeed D.programs D.programId D.poolKey .withdraw).1

def stakesOf (L : Ledger) (k : Pubkey) : Nat :=
  if k = D.reserveKey then 0 else stakeLamports L k

/-- How the records of a pool refer to each other. -/
structure Wired (s : PoolState) : Prop where
  pool_initialized : s.pool.isInitialized = true
  list_initialized : s.list.version ≠ 0
  credits_initialized : s.creditList.version ≠ 0
  list_ne_pool : s.pool.validatorStakeList ≠ D.poolKey
  credits_ne_pool : s.pool.creditList ≠ D.poolKey
  list_ne_credits : s.pool.validatorStakeList ≠ s.pool.creditList
  token_program : s.pool.tokenProgramId = splTokenId
  withdraw_bump : D.programs.createProgramAddress
    [.key D.poolKey, .authority .withdraw, .bump s.pool.withdrawBumpSeed] D.programId =
      some D.withdrawKey
  fee_le : s.pool.fee.numerator ≤ s.pool.fee.denominator
  mint_authority : s.mint.mintAuthority = some D.withdrawKey
  mint_ne_native : s.pool.poolMint ≠ nativeMintId
  reserve_mint : s.creditReserve.mint = s.pool.poolMint
  reserve_owner : s.creditReserve.owner = D.withdrawKey
  reserve_delegate : s.creditReserve.delegate = none
  reserve_close : s.creditReserve.closeAuthority = none

/-- The ledger holds the accounts of the pool in the state `s`. -/
structure Represents (L : Ledger) (s : PoolState) : Prop where
  wired : D.Wired s
  has_pool : L.HasPool D.programId D.poolKey s.pool
  has_list : L.HasList D.programId s.pool.validatorStakeList s.list
  has_credits : L.HasCredits D.programId s.pool.creditList s.creditList
  has_mint : L.HasMint s.pool.poolMint s.mint
  has_credit_reserve : L.HasTokenAccount s.pool.creditReserve s.creditReserve
  reserve_not_token : (L D.reserveKey).owner ≠ splTokenId
  reserve_eq : (L D.reserveKey).lamports = s.reserve
  stakes_eq : D.stakesOf L = s.stakes

theorem stakesOf_congr {L L' : Ledger}
    (h : ∀ k, k ≠ D.reserveKey → stakeLamports L' k = stakeLamports L k) :
    D.stakesOf L' = D.stakesOf L := by
  funext k
  unfold stakesOf
  split
  · rfl
  · exact h k ‹_›

theorem stakesOf_le {L L' : Ledger} (h : ∀ k, stakeLamports L k ≤ stakeLamports L' k)
    (k : Pubkey) : D.stakesOf L k ≤ D.stakesOf L' k := by
  unfold stakesOf
  split
  · exact le_refl 0
  · exact h k

@[simp] theorem stakesOf_setData (L : Ledger) (key : Pubkey) (data : AccountData) :
    D.stakesOf (L.setData key data) = D.stakesOf L := by
  unfold stakesOf
  rw [stakeLamports_setData]

theorem stakesOf_of_ne (L : Ledger) {k : Pubkey} (h : k ≠ D.reserveKey) :
    D.stakesOf L k = stakeLamports L k :=
  if_neg h

theorem stakesOf_update {L L' : Ledger} {key : Pubkey} {n : Nat} (hkey : key ≠ D.reserveKey)
    (h : ∀ k, k ≠ D.reserveKey →
      stakeLamports L' k = Function.update (stakeLamports L) key n k) :
    D.stakesOf L' = Function.update (D.stakesOf L) key n := by
  funext k
  by_cases hk : k = D.reserveKey
  · rw [hk, Function.update_of_ne hkey.symm]
    simp [stakesOf]
  · rw [D.stakesOf_of_ne L' hk, h k hk]
    by_cases hkk : k = key
    · rw [hkk, Function.update_self, Function.update_self]
    · rw [Function.update_of_ne hkk, Function.update_of_ne hkk, D.stakesOf_of_ne L hk]

theorem stakesOf_update_update {L L' : Ledger} {k₁ k₂ : Pubkey} {n₁ n₂ : Nat}
    (h₁ : k₁ ≠ D.reserveKey) (h₂ : k₂ ≠ D.reserveKey)
    (h : stakeLamports L' = Function.update (Function.update (stakeLamports L) k₁ n₁) k₂ n₂) :
    D.stakesOf L' = Function.update (Function.update (D.stakesOf L) k₁ n₁) k₂ n₂ := by
  funext k
  by_cases hk : k = D.reserveKey
  · rw [hk, Function.update_of_ne h₂.symm, Function.update_of_ne h₁.symm]
    simp [stakesOf]
  · rw [D.stakesOf_of_ne L' hk, h]
    simp only [Function.update_apply, D.stakesOf_of_ne L hk]

theorem stakesOf_transfer_reserve {L L' : Ledger} {source : Pubkey} {n : UInt64}
    {sigs : List Pubkey}
    (hcall : D.programs.transfer source D.reserveKey n sigs L = .ok L') :
    D.stakesOf L' = D.stakesOf L := by
  apply D.stakesOf_congr
  intro k hk
  rw [D.lawful.transfer_stakes hcall]
  split
  · rw [Function.update_of_ne hk]
  · rfl

@[simp] theorem stakesOf_reserveKey (L : Ledger) : D.stakesOf L D.reserveKey = 0 :=
  if_pos rfl

end Deployment

/-! ## The state as a function of the ledger -/

namespace Ledger

variable (L : Ledger)

def poolAt (key : Pubkey) : StakePool :=
  match (L key).data with
  | .stakePool _ pool => pool
  | _ => default

def listAt (key : Pubkey) : ValidatorStakeList :=
  match (L key).data with
  | .validatorStakeList _ list => list
  | _ => default

def creditsAt (key : Pubkey) : CreditList :=
  match (L key).data with
  | .creditList _ list => list
  | _ => default

def mintAt (key : Pubkey) : Mint :=
  match (L key).data with
  | .mint mint => mint
  | _ => default

def tokenAt (key : Pubkey) : TokenAccount :=
  match (L key).data with
  | .tokenAccount account => account
  | _ => default

end Ledger

namespace Deployment

variable (D : Deployment)

/-- What the ledger says about the pool. -/
def stateOf (L : Ledger) : PoolState :=
  let pool := L.poolAt D.poolKey
  { pool := pool
    list := L.listAt pool.validatorStakeList
    creditList := L.creditsAt pool.creditList
    mint := L.mintAt pool.poolMint
    creditReserve := L.tokenAt pool.creditReserve
    reserve := (L D.reserveKey).lamports
    stakes := D.stakesOf L }

variable {D}

theorem Represents.eq_stateOf {L : Ledger} {s : PoolState} (h : D.Represents L s) :
    s = D.stateOf L := by
  obtain ⟨-, poolLen, -, hpool⟩ := h.has_pool
  obtain ⟨-, -, listLen, hlist⟩ := h.has_list
  obtain ⟨-, -, creditsLen, hcredits⟩ := h.has_credits
  have hp : L.poolAt D.poolKey = s.pool := by
    simp [Ledger.poolAt, hpool]
  simp only [stateOf, hp, Ledger.listAt, hlist, Ledger.creditsAt, hcredits, Ledger.mintAt,
    h.has_mint.2, Ledger.tokenAt, h.has_credit_reserve.2, h.reserve_eq, h.stakes_eq]

end Deployment

/-! ## Loading -/

namespace Deployment.Represents

variable {D : Deployment} {L L' : Ledger} {s : PoolState} (h : D.Represents L s)

include h

theorem load_pool {info : AccountInfo} {pool : StakePool} (hkey : info.key = D.poolKey)
    (hload : loadStakePool D.programs D.programId L info = .ok pool) : pool = s.pool := by
  obtain ⟨-, len, hlen, hdata⟩ := h.has_pool
  obtain ⟨-, hread, -⟩ := loadStakePool_eq_ok.mp hload
  rw [hkey, hdata] at hread
  have hnot : ¬(AccountData.stakePool len s.pool).len < StakePool.LEN := by
    simpa [AccountData.len] using hlen
  simpa [StakePool.deserialize, hnot, eq_comm] using hread

theorem load_list {info : AccountInfo} {list : ValidatorStakeList}
    (hload : loadValidatorStakeList D.programs L s.pool info = .ok list) :
    info.key = s.pool.validatorStakeList ∧ list = s.list ∧
      s.list.validators.length ≤ maxValidators := by
  obtain ⟨hkey, hread, -⟩ := loadValidatorStakeList_eq_ok.mp hload
  obtain ⟨-, hlen, len, hdata⟩ := h.has_list
  have hnot : ¬(L s.pool.validatorStakeList).data.len < ValidatorStakeList.LEN := by omega
  unfold ValidatorStakeList.deserialize at hread
  rw [hkey, if_neg hnot, hdata] at hread
  simp only [h.wired.list_initialized, if_false] at hread
  rw [ite_error_eq_ok] at hread
  obtain ⟨hcount, heq⟩ := hread
  refine ⟨hkey, ?_, by omega⟩
  simpa [eq_comm] using heq

theorem load_credits {info : AccountInfo} {list : CreditList}
    (hload : loadCreditList D.programs L s.pool info = .ok list) :
    info.key = s.pool.creditList ∧ list = s.creditList := by
  obtain ⟨hkey, hread, -⟩ := loadCreditList_eq_ok.mp hload
  obtain ⟨-, hlen, len, hdata⟩ := h.has_credits
  have hnot : ¬(L s.pool.creditList).data.len < CreditList.LEN := by omega
  unfold CreditList.deserialize at hread
  rw [hkey, if_neg hnot, hdata] at hread
  simp only [h.wired.credits_initialized, if_false] at hread
  rw [ite_error_eq_ok] at hread
  refine ⟨hkey, ?_⟩
  simpa [eq_comm] using hread.2

/-- The authority the withdraw check accepts is the found one. -/
theorem withdraw_checked {key : Pubkey}
    (hcheck : s.pool.checkAuthorityWithdraw D.programs D.programId key D.poolKey = .ok ()) :
    key = D.withdrawKey := by
  have hkey := checkAuthority_eq_ok.mp hcheck
  rw [h.wired.withdraw_bump] at hkey
  exact (Option.some.inj hkey).symm

end Deployment.Represents

end Tenderize
