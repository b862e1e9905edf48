import Tenderize.Model.Programs

/-!
# Shared parts of the handlers

Reading the account list, the sysvars, the address checks of `processor.rs` and
`state.rs`, and loading and storing the pool and its two lists.
-/

namespace Tenderize

open Support

variable (P : Programs) (programId : Pubkey)

/-- `next_account_info`. -/
def nextAccountInfo : List AccountInfo → Except ProgramError (AccountInfo × List AccountInfo)
  | [] => .error .notEnoughAccountKeys
  | info :: rest => .ok (info, rest)

def Clock.fromAccountInfo (chain : Chain) (info : AccountInfo) : Except ProgramError Clock := do
  require (info.key = clockId) .invalidArgument
  pure chain.clock

def Rent.fromAccountInfo (chain : Chain) (info : AccountInfo) : Except ProgramError Rent := do
  require (info.key = rentId) .invalidArgument
  pure chain.rent

/-! ## Derived addresses -/

/-- Calculates the authority id by generating a program address. -/
def authorityId (stakePool : Pubkey) (authorityType : AuthorityType) (bumpSeed : UInt8) :
    Except ProgramError Pubkey :=
  okOr (P.createProgramAddress [.key stakePool, .authority authorityType, .bump bumpSeed]
    programId) (.custom .invalidProgramAddress)

/-- Generates seed bump for stake pool authorities. -/
def findAuthorityBumpSeed (stakePool : Pubkey) (authorityType : AuthorityType) :
    Pubkey × UInt8 :=
  P.findProgramAddress [.key stakePool, .authority authorityType] programId

/-- Checks withdraw or deposit authority. -/
def checkAuthority (authorityToCheck stakePoolKey : Pubkey) (authorityType : AuthorityType)
    (bumpSeed : UInt8) : Except ProgramError Unit := do
  let id ← authorityId P programId stakePoolKey authorityType bumpSeed
  require (authorityToCheck = id) (.custom .invalidProgramAddress)

/-- Get address for reserve. -/
def getReserveAddress (stakePool : Pubkey) : Pubkey × UInt8 :=
  P.findProgramAddress [.key stakePool, .authority .reserve] programId

/-- The seeds that sign for one of the pool's addresses. -/
def authoritySeeds (stakePool : Pubkey) (authorityType : AuthorityType) (bumpSeed : UInt8) :
    List Seed :=
  [.key stakePool, .authority authorityType, .bump bumpSeed]

/-- The seeds that sign for one stake account. -/
def stakeSeeds (validator stakePool : Pubkey) (index : UInt32) (bumpSeed : UInt8) :
    List Seed :=
  [.key validator, .key stakePool, .index index, .bump bumpSeed]

def StakePool.checkAuthorityWithdraw (pool : StakePool)
    (authorityToCheck stakePoolKey : Pubkey) : Except ProgramError Unit :=
  checkAuthority P programId authorityToCheck stakePoolKey .withdraw pool.withdrawBumpSeed

def StakePool.checkAuthorityDeposit (pool : StakePool)
    (authorityToCheck stakePoolKey : Pubkey) : Except ProgramError Unit :=
  checkAuthority P programId authorityToCheck stakePoolKey .deposit pool.depositBumpSeed

/-- Check owner validity and signature. -/
def StakePool.checkOwner (pool : StakePool) (ownerInfo : AccountInfo) :
    Except ProgramError Unit := do
  require (ownerInfo.key = pool.owner) (.custom .wrongOwner)
  require ownerInfo.isSigner (.custom .signatureMissing)

/-- Stake account address for validator. -/
def ValidatorStakeInfo.stakeAddress (info : ValidatorStakeInfo) (stakePool : Pubkey)
    (index : UInt32) : Pubkey × UInt8 :=
  P.findProgramAddress [.key info.validatorAccount, .key stakePool, .index index] programId

/-- Checks if validator stake account is a proper program address. -/
def ValidatorStakeInfo.checkValidatorStakeAddress (info : ValidatorStakeInfo)
    (stakePool : Pubkey) (index : UInt32) (stakeAccountPubkey : Pubkey) :
    Except ProgramError UInt8 := do
  require (stakeAccountPubkey = (info.stakeAddress P programId stakePool index).1)
    (.custom .invalidStakeAccountAddress)
  pure (info.stakeAddress P programId stakePool index).2

/-! ## Loading and storing -/

/-- Every handler but `Initialize` starts by reading an initialized pool owned by the
program. -/
def loadStakePool (L : Ledger) (stakePoolInfo : AccountInfo) :
    Except ProgramError StakePool := do
  require ((L stakePoolInfo.key).owner = programId) (.custom .wrongOwner)
  let stakePool ← StakePool.deserialize P.layouts (L stakePoolInfo.key).data
  require stakePool.isInitialized (.custom .invalidState)
  pure stakePool

/-- Check validator stake account list storage and read it. -/
def loadValidatorStakeList (L : Ledger) (stakePool : StakePool) (info : AccountInfo) :
    Except ProgramError ValidatorStakeList := do
  require (info.key = stakePool.validatorStakeList) (.custom .invalidValidatorStakeList)
  let list ← ValidatorStakeList.deserialize P.layouts (L info.key).data
  require list.isInitialized (.custom .invalidState)
  pure list

def loadCreditList (L : Ledger) (stakePool : StakePool) (info : AccountInfo) :
    Except ProgramError CreditList := do
  require (info.key = stakePool.creditList) .invalidArgument
  let list ← CreditList.deserialize P.layouts (L info.key).data
  require list.isInitialized (.custom .invalidState)
  pure list

/-- Write an account's data.  The runtime rejects the instruction when the program
changed an account it does not own. -/
def store (key : Pubkey) (write : AccountData → Except ProgramError AccountData)
    (L : Ledger) : Except ProgramError Ledger := do
  let data ← write (L key).data
  require ((L key).owner = programId ∨ data = (L key).data) .externalAccountDataModified
  pure (L.setData key data)

/-! ## Token calls signed by an authority of the pool -/

/-- Issue a spl_token `Burn` instruction. -/
def tokenBurn (stakePool : Pubkey) (tokenProgram burnAccount mint authority : AccountInfo)
    (authorityType : AuthorityType) (bumpSeed : UInt8) (amount : UInt64) (L : Ledger) :
    Except ProgramError Ledger :=
  P.burn tokenProgram.key burnAccount.key mint.key authority.key amount
    (P.signersWith programId [burnAccount, mint, authority, tokenProgram]
      [authoritySeeds stakePool authorityType bumpSeed]) L

/-- Issue a spl_token `MintTo` instruction. -/
def tokenMintTo (stakePool : Pubkey) (tokenProgram mint destination authority : AccountInfo)
    (authorityType : AuthorityType) (bumpSeed : UInt8) (amount : UInt64) (L : Ledger) :
    Except ProgramError Ledger :=
  P.mintTo tokenProgram.key mint.key destination.key authority.key amount
    (P.signersWith programId [mint, destination, authority, tokenProgram]
      [authoritySeeds stakePool authorityType bumpSeed]) L

/-! ## Inversion -/

@[simp] theorem nextAccountInfo_eq_ok {accounts rest : List AccountInfo} {info : AccountInfo} :
    nextAccountInfo accounts = .ok (info, rest) ↔ accounts = info :: rest := by
  cases accounts with
  | nil => simp [nextAccountInfo]
  | cons head tail => simp [nextAccountInfo]

variable {P programId}

@[simp] theorem checkAuthority_eq_ok {authority pool : Pubkey} {type : AuthorityType}
    {bump : UInt8} {u : Unit} :
    checkAuthority P programId authority pool type bump = .ok u ↔
      P.createProgramAddress [.key pool, .authority type, .bump bump] programId =
        some authority := by
  simp only [checkAuthority, authorityId, bind_eq_ok, okOr_eq_ok, require_eq_ok]
  constructor
  · rintro ⟨id, hid, rfl⟩
    exact hid
  · intro h
    exact ⟨authority, h, rfl⟩

@[simp] theorem StakePool.checkOwner_eq_ok {pool : StakePool} {info : AccountInfo} {u : Unit} :
    pool.checkOwner info = .ok u ↔ info.key = pool.owner ∧ info.isSigner = true := by
  simp [StakePool.checkOwner]

@[simp] theorem checkValidatorStakeAddress_eq_ok {info : ValidatorStakeInfo} {pool key : Pubkey}
    {index : UInt32} {bump : UInt8} :
    info.checkValidatorStakeAddress P programId pool index key = .ok bump ↔
      key = (info.stakeAddress P programId pool index).1 ∧
        (info.stakeAddress P programId pool index).2 = bump := by
  simp [ValidatorStakeInfo.checkValidatorStakeAddress]

theorem loadStakePool_eq_ok {L : Ledger} {info : AccountInfo} {pool : StakePool} :
    loadStakePool P programId L info = .ok pool ↔
      (L info.key).owner = programId ∧
      StakePool.deserialize P.layouts (L info.key).data = .ok pool ∧
      pool.isInitialized = true := by
  simp only [loadStakePool, bind_eq_ok, require_eq_ok, pure_eq_ok]
  constructor
  · rintro ⟨_, howner, pool', hread, _, hinit, rfl⟩
    exact ⟨howner, hread, hinit⟩
  · rintro ⟨howner, hread, hinit⟩
    exact ⟨(), howner, pool, hread, (), hinit, rfl⟩

theorem loadValidatorStakeList_eq_ok {L : Ledger} {pool : StakePool} {info : AccountInfo}
    {list : ValidatorStakeList} :
    loadValidatorStakeList P L pool info = .ok list ↔
      info.key = pool.validatorStakeList ∧
      ValidatorStakeList.deserialize P.layouts (L info.key).data = .ok list ∧
      list.isInitialized = true := by
  simp only [loadValidatorStakeList, bind_eq_ok, require_eq_ok, pure_eq_ok]
  constructor
  · rintro ⟨_, hkey, list', hread, _, hinit, rfl⟩
    exact ⟨hkey, hread, hinit⟩
  · rintro ⟨hkey, hread, hinit⟩
    exact ⟨(), hkey, list, hread, (), hinit, rfl⟩

theorem loadCreditList_eq_ok {L : Ledger} {pool : StakePool} {info : AccountInfo}
    {list : CreditList} :
    loadCreditList P L pool info = .ok list ↔
      info.key = pool.creditList ∧
      CreditList.deserialize P.layouts (L info.key).data = .ok list ∧
      list.isInitialized = true := by
  simp only [loadCreditList, bind_eq_ok, require_eq_ok, pure_eq_ok]
  constructor
  · rintro ⟨_, hkey, list', hread, _, hinit, rfl⟩
    exact ⟨hkey, hread, hinit⟩
  · rintro ⟨hkey, hread, hinit⟩
    exact ⟨(), hkey, list, hread, (), hinit, rfl⟩

theorem store_eq_ok {key : Pubkey} {write : AccountData → Except ProgramError AccountData}
    {L L' : Ledger} :
    store programId key write L = .ok L' ↔
      ∃ data, write (L key).data = .ok data ∧
        ((L key).owner = programId ∨ data = (L key).data) ∧ L.setData key data = L' := by
  simp only [store, bind_eq_ok, require_eq_ok, pure_eq_ok]
  constructor
  · rintro ⟨data, hwrite, _, howner, h⟩
    exact ⟨data, hwrite, howner, h⟩
  · rintro ⟨data, hwrite, howner, h⟩
    exact ⟨data, hwrite, (), howner, h⟩

end Tenderize
