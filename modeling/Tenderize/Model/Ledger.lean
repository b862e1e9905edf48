import Tenderize.Model.State

/-!
# Accounts and the ledger

The chain keeps one account for every address.  An account that was never created has
no lamports, no data and the system program as its owner.  Account data is kept
decoded, tagged by the program type that was last written to it; `Layouts` stands for
what the raw pointer casts of the source read from bytes of another type.
-/

namespace Tenderize

/-! ## Stake accounts, from `stake.rs` -/

structure Authorized where
  staker : Pubkey
  withdrawer : Pubkey
deriving DecidableEq, Inhabited

structure Meta where
  rentExemptReserve : UInt64
  authorized : Authorized
deriving DecidableEq, Inhabited

structure Delegation where
  /-- to whom the stake is delegated -/
  voterPubkey : Pubkey
  /-- activated stake amount, set at delegate() time -/
  stake : UInt64
  activationEpoch : UInt64
  deactivationEpoch : UInt64
deriving DecidableEq, Inhabited

structure Stake where
  delegation : Delegation
  creditsObserved : UInt64
deriving DecidableEq, Inhabited

inductive StakeState where
  | uninitialized
  | initialized (stakeMeta : Meta)
  | stake (stakeMeta : Meta) (stake : Stake)
  | rewardsPool
deriving DecidableEq

/-- `size_of::<StakeState>()`. -/
def StakeState.size : Nat := 200

/-! ## Token accounts and mints of the SPL token program -/

inductive TokenAccountState where
  | uninitialized
  | initialized
  | frozen
deriving DecidableEq

structure TokenAccount where
  mint : Pubkey
  owner : Pubkey
  amount : UInt64
  delegate : Option Pubkey
  state : TokenAccountState
  /-- The rent-exempt reserve of a wrapped-SOL account. -/
  isNative : Option UInt64
  delegatedAmount : UInt64
  closeAuthority : Option Pubkey
  /-- The token program wraps SOL exactly in the accounts of the native mint. -/
  native_iff : isNative.isSome ↔ mint = nativeMintId
deriving DecidableEq

instance : Inhabited TokenAccount where
  default :=
    { mint := default
      owner := default
      amount := 0
      delegate := none
      state := .uninitialized
      isNative := none
      delegatedAmount := 0
      closeAuthority := none
      native_iff := by decide }

/-- `spl_token::state::Account::LEN`. -/
def TokenAccount.LEN : Nat := 165

structure Mint where
  mintAuthority : Option Pubkey
  supply : UInt64
deriving DecidableEq, Inhabited

/-! ## Accounts -/

inductive AccountData where
  /-- Zero bytes: a fresh account. -/
  | zeroed (len : Nat)
  | stakePool (len : Nat) (pool : StakePool)
  | validatorStakeList (len : Nat) (list : ValidatorStakeList)
  | creditList (len : Nat) (list : CreditList)
  | tokenAccount (account : TokenAccount)
  | mint (mint : Mint)
  | stake (state : StakeState)
  /-- Bytes written by any other program. -/
  | other (bytes : List UInt8)
deriving DecidableEq

def AccountData.len : AccountData → Nat
  | .zeroed len => len
  | .stakePool len _ => len
  | .validatorStakeList len _ => len
  | .creditList len _ => len
  | .tokenAccount _ => TokenAccount.LEN
  | .mint _ => 82
  | .stake _ => StakeState.size
  | .other bytes => bytes.length

structure Account where
  lamports : UInt64
  owner : Pubkey
  data : AccountData
deriving DecidableEq

abbrev Ledger := Pubkey → Account

namespace Ledger

variable (L : Ledger)

/-- Replace one account. -/
def set (key : Pubkey) (account : Account) : Ledger :=
  fun k => if k = key then account else L k

/-- Replace the data of one account. -/
def setData (key : Pubkey) (data : AccountData) : Ledger :=
  L.set key { L key with data := data }

/-- Move `n` lamports from one account to another. -/
def moveLamports (source target : Pubkey) (n : UInt64) : Ledger :=
  if source = target then L
  else
    (L.set source { L source with lamports := (L source).lamports - n }).set
      target { L target with lamports := (L target).lamports + n }

/-- Give a fresh account an owner and zeroed space. -/
def assign (key owner : Pubkey) (space : Nat) : Ledger :=
  L.set key { L key with owner := owner, data := .zeroed space }

/-! Every update is described by the three fields it leaves or changes. -/

@[simp] theorem set_same (key : Pubkey) (account : Account) :
    L.set key account key = account := by
  simp [set]

theorem set_of_ne {key k : Pubkey} (account : Account) (h : k ≠ key) :
    L.set key account k = L k := by
  simp [set, h]

@[simp] theorem setData_lamports (key k : Pubkey) (data : AccountData) :
    (L.setData key data k).lamports = (L k).lamports := by
  by_cases h : k = key
  · simp [setData, h]
  · rw [setData, set_of_ne L _ h]

@[simp] theorem setData_owner (key k : Pubkey) (data : AccountData) :
    (L.setData key data k).owner = (L k).owner := by
  by_cases h : k = key
  · simp [setData, h]
  · rw [setData, set_of_ne L _ h]

@[simp] theorem setData_data_same (key : Pubkey) (data : AccountData) :
    (L.setData key data key).data = data := by
  simp [setData]

theorem setData_self (key : Pubkey) : L.setData key (L key).data = L := by
  funext k
  by_cases h : k = key
  · simp [setData, h]
  · exact set_of_ne L _ h

theorem setData_of_ne {key k : Pubkey} (data : AccountData) (h : k ≠ key) :
    L.setData key data k = L k :=
  L.set_of_ne _ h

@[simp] theorem moveLamports_self (key : Pubkey) (n : UInt64) :
    L.moveLamports key key n = L := by
  simp [moveLamports]

theorem moveLamports_source {source target : Pubkey} (n : UInt64)
    (h : source ≠ target) :
    L.moveLamports source target n source =
      { L source with lamports := (L source).lamports - n } := by
  rw [moveLamports, if_neg h, set_of_ne _ _ h, set_same]

theorem moveLamports_target {source target : Pubkey} (n : UInt64)
    (h : source ≠ target) :
    L.moveLamports source target n target =
      { L target with lamports := (L target).lamports + n } := by
  rw [moveLamports, if_neg h, set_same]

theorem moveLamports_of_ne {source target k : Pubkey} (n : UInt64)
    (hs : k ≠ source) (ht : k ≠ target) :
    L.moveLamports source target n k = L k := by
  unfold moveLamports
  split
  · rfl
  · rw [set_of_ne _ _ ht, set_of_ne _ _ hs]

@[simp] theorem moveLamports_owner (source target k : Pubkey) (n : UInt64) :
    (L.moveLamports source target n k).owner = (L k).owner := by
  by_cases hst : source = target
  · simp [hst]
  · by_cases hs : k = source
    · rw [hs, moveLamports_source L n hst]
    · by_cases ht : k = target
      · rw [ht, moveLamports_target L n hst]
      · rw [moveLamports_of_ne L n hs ht]

@[simp] theorem moveLamports_data (source target k : Pubkey) (n : UInt64) :
    (L.moveLamports source target n k).data = (L k).data := by
  by_cases hst : source = target
  · simp [hst]
  · by_cases hs : k = source
    · rw [hs, moveLamports_source L n hst]
    · by_cases ht : k = target
      · rw [ht, moveLamports_target L n hst]
      · rw [moveLamports_of_ne L n hs ht]

@[simp] theorem moveLamports_zero (source target : Pubkey) :
    L.moveLamports source target 0 = L := by
  by_cases hst : source = target
  · rw [hst, moveLamports_self]
  · funext k
    by_cases hs : k = source
    · rw [hs, moveLamports_source L 0 hst, UInt64.sub_zero]
    · by_cases ht : k = target
      · rw [ht, moveLamports_target L 0 hst, UInt64.add_zero]
      · rw [moveLamports_of_ne L 0 hs ht]

@[simp] theorem assign_lamports (key k owner : Pubkey) (space : Nat) :
    (L.assign key owner space k).lamports = (L k).lamports := by
  by_cases h : k = key
  · simp [assign, h]
  · rw [assign, set_of_ne L _ h]

@[simp] theorem assign_same (key owner : Pubkey) (space : Nat) :
    L.assign key owner space key = ⟨(L key).lamports, owner, .zeroed space⟩ := by
  simp [assign]

theorem assign_of_ne {key k : Pubkey} (owner : Pubkey) (space : Nat) (h : k ≠ key) :
    L.assign key owner space k = L k :=
  L.set_of_ne _ h

end Ledger

/-! ## Reading and writing account data

`serialize` and `deserialize` of `state.rs` on decoded data.  A list whose version byte
is zero reads as empty, whatever its count says. -/

/-- What the casts of the source read from an account that holds another type. -/
structure Layouts where
  stakePool : AccountData → StakePool
  validatorStakeList : AccountData → Except ProgramError ValidatorStakeList
  creditList : AccountData → Except ProgramError CreditList
  tokenAccount : AccountData → Except ProgramError TokenAccount
  mint : AccountData → Except ProgramError Mint
  stakeState : AccountData → Except ProgramError StakeState

def StakePool.deserialize (layouts : Layouts) (input : AccountData) :
    Except ProgramError StakePool :=
  if input.len < StakePool.LEN then .error .invalidAccountData
  else
    match input with
    | .stakePool _ pool => .ok pool
    | .zeroed _ => .ok default
    | data => .ok (layouts.stakePool data)

def StakePool.serialize (pool : StakePool) (output : AccountData) :
    Except ProgramError AccountData :=
  if output.len < StakePool.LEN then .error .invalidAccountData
  else .ok (.stakePool output.len pool)

def ValidatorStakeList.deserialize (layouts : Layouts) (input : AccountData) :
    Except ProgramError ValidatorStakeList :=
  if input.len < ValidatorStakeList.LEN then .error .invalidAccountData
  else
    match input with
    | .validatorStakeList _ list =>
        if list.version = 0 then .ok ⟨0, []⟩
        else if list.validators.length > maxValidators then .error .invalidAccountData
        else .ok list
    | .zeroed _ => .ok ⟨0, []⟩
    | data => layouts.validatorStakeList data

def ValidatorStakeList.serialize (list : ValidatorStakeList) (output : AccountData) :
    Except ProgramError AccountData :=
  if output.len < ValidatorStakeList.LEN then .error .invalidAccountData
  else if list.validators.length > maxValidators then .error .invalidAccountData
  else .ok (.validatorStakeList output.len list)

def CreditList.deserialize (layouts : Layouts) (input : AccountData) :
    Except ProgramError CreditList :=
  if input.len < CreditList.LEN then .error .invalidAccountData
  else
    match input with
    | .creditList _ list =>
        if list.version = 0 then .ok ⟨0, []⟩
        else if list.credits.length > maxCreditRecords then .error .invalidAccountData
        else .ok list
    | .zeroed _ => .ok ⟨0, []⟩
    | data => layouts.creditList data

def CreditList.serialize (list : CreditList) (output : AccountData) :
    Except ProgramError AccountData :=
  if output.len < CreditList.LEN then .error .invalidAccountData
  else if list.credits.length > maxCreditRecords then .error .invalidAccountData
  else .ok (.creditList output.len list)

/-- `bincode::deserialize::<StakeState>`: zero bytes are the tag of `Uninitialized`. -/
def StakeState.deserialize (layouts : Layouts) : AccountData → Except ProgramError StakeState
  | .stake state => .ok state
  | .zeroed len => if len < 4 then .error .invalidAccountData else .ok .uninitialized
  | data => layouts.stakeState data

/-- `spl_token::state::Account::unpack_from_slice`. -/
def TokenAccount.unpack (layouts : Layouts) : AccountData → Except ProgramError TokenAccount
  | .tokenAccount account => .ok account
  | data => layouts.tokenAccount data

/-- `Mint::unpack_from_slice`. -/
def Mint.unpack (layouts : Layouts) : AccountData → Except ProgramError Mint
  | .mint mint => .ok mint
  | data => layouts.mint data

end Tenderize
