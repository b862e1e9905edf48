import Tenderize.Model.Processor.Common

/-!
# The pool account

`Initialize`, `SetOwner`, `UpdatePoolBalance`, `Deposit` and `Withdraw`: the handlers
that write the pool record itself.
-/

namespace Tenderize

open Support

variable (P : Programs) (programId : Pubkey)

/-- Inital values for the Stake Pool. -/
structure InitArgs where
  fee : Fee
deriving DecidableEq

/-- `PROGRAM_VERSION`. -/
def programVersion : UInt8 := 1

/-! ## Initialize -/

structure InitializeAccounts where
  stakePool : AccountInfo
  owner : AccountInfo
  validatorStakeList : AccountInfo
  creditList : AccountInfo
  poolMint : AccountInfo
  ownerFee : AccountInfo
  creditReserve : AccountInfo
  clock : AccountInfo
  rent : AccountInfo
  tokenProgram : AccountInfo

def InitializeAccounts.parse (chain : Chain) (accounts : List AccountInfo) :
    Except ProgramError InitializeAccounts := do
  let (stakePool, accounts) ← nextAccountInfo accounts
  let (owner, accounts) ← nextAccountInfo accounts
  let (validatorStakeList, accounts) ← nextAccountInfo accounts
  let (creditList, accounts) ← nextAccountInfo accounts
  let (poolMint, accounts) ← nextAccountInfo accounts
  let (ownerFee, accounts) ← nextAccountInfo accounts
  let (creditReserve, accounts) ← nextAccountInfo accounts
  let (clock, accounts) ← nextAccountInfo accounts
  let _ ← Clock.fromAccountInfo chain clock
  let (rent, accounts) ← nextAccountInfo accounts
  let _ ← Rent.fromAccountInfo chain rent
  let (tokenProgram, _) ← nextAccountInfo accounts
  pure ⟨stakePool, owner, validatorStakeList, creditList, poolMint, ownerFee, creditReserve,
    clock, rent, tokenProgram⟩

/-- The checks `Initialize` makes on the fee account, the credit reserve and the mint. -/
def checkPoolTokens (L : Ledger) (a : InitializeAccounts) (withdrawAuthorityKey : Pubkey) :
    Except ProgramError Unit := do
  require ((L a.ownerFee.key).owner = a.tokenProgram.key) (.custom .invalidFeeAccount)
  require ((L a.creditReserve.key).owner = a.tokenProgram.key) (.custom .invalidFeeAccount)
  require ((L a.poolMint.key).owner = a.tokenProgram.key) .incorrectProgramId
  let ownerFee ← TokenAccount.unpack P.layouts (L a.ownerFee.key).data
  require (a.poolMint.key = ownerFee.mint) (.custom .wrongAccountMint)
  let creditState ← TokenAccount.unpack P.layouts (L a.creditReserve.key).data
  require (a.poolMint.key = creditState.mint) (.custom .wrongAccountMint)
  require (creditState.state = .initialized) (.custom .wrongCreditState)
  require (creditState.delegate = none) (.custom .wrongCreditState)
  require (creditState.closeAuthority = none) (.custom .wrongCreditState)
  let poolMint ← Mint.unpack P.layouts (L a.poolMint.key).data
  require (poolMint.mintAuthority = some withdrawAuthorityKey) (.custom .wrongMintingAuthority)
  require (¬poolMint.supply > 0) (.custom .mintHasInitialSupply)

def processInitialize (init : InitArgs) (accounts : List AccountInfo) (chain : Chain) :
    Except ProgramError Ledger := do
  let a ← InitializeAccounts.parse chain accounts
  let L := chain.ledger
  require ((L a.stakePool.key).owner = programId) (.custom .wrongOwner)
  let stakePool ← StakePool.deserialize P.layouts (L a.stakePool.key).data
  -- Stake pool account should not be already initialized
  require (¬stakePool.isInitialized) (.custom .alreadyInUse)
  require a.owner.isSigner (.custom .signatureMissing)
  let validatorStakeList ←
    ValidatorStakeList.deserialize P.layouts (L a.validatorStakeList.key).data
  require (¬validatorStakeList.isInitialized) (.custom .alreadyInUse)
  let creditList ← CreditList.deserialize P.layouts (L a.creditList.key).data
  require (¬creditList.isInitialized) (.custom .alreadyInUse)
  require (chain.rent.isExempt (L a.stakePool.key).lamports (L a.stakePool.key).data.len)
    (.custom .accountNotRentExempt)
  require (chain.rent.isExempt (L a.validatorStakeList.key).lamports
    (L a.validatorStakeList.key).data.len) (.custom .accountNotRentExempt)
  require (chain.rent.isExempt (L a.creditList.key).lamports (L a.creditList.key).data.len)
    (.custom .accountNotRentExempt)
  let deposit := findAuthorityBumpSeed P programId a.stakePool.key .deposit
  let withdraw := findAuthorityBumpSeed P programId a.stakePool.key .withdraw
  -- Numerator should be smaller than or equal to denominator (fee <= 1)
  require (¬init.fee.numerator > init.fee.denominator) (.custom .feeTooHigh)
  checkPoolTokens P L a withdraw.1
  -- change credit reserve owner to PDA
  let L ← P.setAccountOwner a.tokenProgram.key a.creditReserve.key withdraw.1 a.owner.key
    (signers [a.tokenProgram, a.owner, a.creditReserve]) L
  let L ← store programId a.validatorStakeList.key
    (ValidatorStakeList.serialize ⟨ValidatorStakeList.validatorStakeListVersion, []⟩) L
  let L ← store programId a.creditList.key (CreditList.serialize ⟨CreditList.VERSION, []⟩) L
  store programId a.stakePool.key
    (StakePool.serialize
      { stakePool with
        version := programVersion
        owner := a.owner.key
        depositBumpSeed := deposit.2
        withdrawBumpSeed := withdraw.2
        validatorStakeList := a.validatorStakeList.key
        creditList := a.creditList.key
        poolMint := a.poolMint.key
        ownerFeeAccount := a.ownerFee.key
        creditReserve := a.creditReserve.key
        tokenProgramId := a.tokenProgram.key
        lastUpdateEpoch := chain.clock.epoch
        fee := init.fee }) L

/-! ## SetOwner -/

structure SetOwnerAccounts where
  stakePool : AccountInfo
  owner : AccountInfo
  newOwner : AccountInfo
  newOwnerFee : AccountInfo

def SetOwnerAccounts.parse (accounts : List AccountInfo) :
    Except ProgramError SetOwnerAccounts := do
  let (stakePool, accounts) ← nextAccountInfo accounts
  let (owner, accounts) ← nextAccountInfo accounts
  let (newOwner, accounts) ← nextAccountInfo accounts
  let (newOwnerFee, _) ← nextAccountInfo accounts
  pure ⟨stakePool, owner, newOwner, newOwnerFee⟩

def processSetOwner (accounts : List AccountInfo) (chain : Chain) :
    Except ProgramError Ledger := do
  let a ← SetOwnerAccounts.parse accounts
  let L := chain.ledger
  let stakePool ← loadStakePool P programId L a.stakePool
  stakePool.checkOwner a.owner
  -- The program that owns the new fee account is not compared.
  let newOwnerFee ← TokenAccount.unpack P.layouts (L a.newOwnerFee.key).data
  require (stakePool.poolMint = newOwnerFee.mint) (.custom .wrongAccountMint)
  store programId a.stakePool.key
    (StakePool.serialize
      { stakePool with owner := a.newOwner.key, ownerFeeAccount := a.newOwnerFee.key }) L

/-! ## UpdatePoolBalance -/

structure UpdatePoolBalanceAccounts where
  stakePool : AccountInfo
  validatorStakeList : AccountInfo
  reserve : AccountInfo
  clock : AccountInfo

def UpdatePoolBalanceAccounts.parse (chain : Chain) (accounts : List AccountInfo) :
    Except ProgramError UpdatePoolBalanceAccounts := do
  let (stakePool, accounts) ← nextAccountInfo accounts
  let (validatorStakeList, accounts) ← nextAccountInfo accounts
  let (reserve, accounts) ← nextAccountInfo accounts
  let (clock, _) ← nextAccountInfo accounts
  let _ ← Clock.fromAccountInfo chain clock
  pure ⟨stakePool, validatorStakeList, reserve, clock⟩

/-- Add the recorded balances to `totalBalance`; every record has to be up to date. -/
def addBalances (clock : Clock) (totalBalance : UInt64) :
    List ValidatorStakeInfo → Except ProgramError UInt64
  | [] => .ok totalBalance
  | record :: records => do
      require (¬record.lastUpdateEpoch < clock.epoch) (.custom .stakeListOutOfDate)
      addBalances clock (totalBalance + record.balance) records

def processUpdatePoolBalance (accounts : List AccountInfo) (chain : Chain) :
    Except ProgramError Ledger := do
  let a ← UpdatePoolBalanceAccounts.parse chain accounts
  let L := chain.ledger
  let stakePool ← loadStakePool P programId L a.stakePool
  let list ← loadValidatorStakeList P L stakePool a.validatorStakeList
  require (a.reserve.key = (getReserveAddress P programId a.stakePool.key).1) .invalidArgument
  let totalBalance ← addBalances chain.clock (L a.reserve.key).lamports list.validators
  store programId a.stakePool.key
    (StakePool.serialize
      { stakePool with stakeTotal := totalBalance, lastUpdateEpoch := chain.clock.epoch }) L

/-! ## Deposit -/

/-- `MIN_RESERVE_BALANCE`. -/
def minReserveBalanceConst : UInt64 := 1000000

def minReserveBalance (rent : Rent) : UInt64 :=
  max minReserveBalanceConst
    (rent.minimumBalance 0 + rent.minimumBalance TokenAccount.LEN)

structure DepositAccounts where
  stakePool : AccountInfo
  withdraw : AccountInfo
  reserve : AccountInfo
  sourceUser : AccountInfo
  destUser : AccountInfo
  ownerFee : AccountInfo
  poolMint : AccountInfo
  rent : AccountInfo
  systemProgram : AccountInfo
  tokenProgram : AccountInfo
  /-- The temp account and the native mint, when the source is not a system account. -/
  wrapped : Option (AccountInfo × AccountInfo)

def DepositAccounts.parse (chain : Chain) (accounts : List AccountInfo) :
    Except ProgramError DepositAccounts := do
  let (stakePool, accounts) ← nextAccountInfo accounts
  let (withdraw, accounts) ← nextAccountInfo accounts
  let (reserve, accounts) ← nextAccountInfo accounts
  let (sourceUser, accounts) ← nextAccountInfo accounts
  let (destUser, accounts) ← nextAccountInfo accounts
  let (ownerFee, accounts) ← nextAccountInfo accounts
  let (poolMint, accounts) ← nextAccountInfo accounts
  let (rent, accounts) ← nextAccountInfo accounts
  let _ ← Rent.fromAccountInfo chain rent
  let (systemProgram, accounts) ← nextAccountInfo accounts
  let (tokenProgram, accounts) ← nextAccountInfo accounts
  if (chain.ledger sourceUser.key).owner ≠ systemProgramId then
    let (temp, accounts) ← nextAccountInfo accounts
    let (nativeMint, _) ← nextAccountInfo accounts
    pure ⟨stakePool, withdraw, reserve, sourceUser, destUser, ownerFee, poolMint, rent,
      systemProgram, tokenProgram, some (temp, nativeMint)⟩
  else
    pure ⟨stakePool, withdraw, reserve, sourceUser, destUser, ownerFee, poolMint, rent,
      systemProgram, tokenProgram, none⟩

/-- The wrapped-SOL path: the reserve lends the rent of the temp account, the tokens
are moved there, and closing it returns everything to the reserve. -/
def depositWrapped (amount : UInt64) (a : DepositAccounts) (temp nativeMint : AccountInfo)
    (withdrawBumpSeed reserveBump : UInt8) (chain : Chain) : Except ProgramError Ledger := do
  let tempAddress :=
    P.findProgramAddress [.key a.stakePool.key, .authority .temp] programId
  require (temp.key = tempAddress.1) .invalidArgument
  require (nativeMint.key = nativeMintId) .invalidArgument
  let L ← P.createAccount a.reserve.key temp.key (chain.rent.minimumBalance TokenAccount.LEN)
    TokenAccount.LEN splTokenId
    (P.signersWith programId [a.reserve, temp, a.systemProgram]
      [authoritySeeds a.stakePool.key .temp tempAddress.2,
        authoritySeeds a.stakePool.key .reserve reserveBump]) chain.ledger
  let L ← P.initializeAccount a.tokenProgram.key temp.key nativeMintId a.withdraw.key L
  let L ← P.tokenTransfer a.tokenProgram.key a.sourceUser.key temp.key a.withdraw.key amount
    (P.signersWith programId [a.tokenProgram, a.sourceUser, temp, a.withdraw]
      [authoritySeeds a.stakePool.key .withdraw withdrawBumpSeed]) L
  P.closeAccount a.tokenProgram.key temp.key a.reserve.key a.withdraw.key
    (P.signersWith programId [a.tokenProgram, temp, a.reserve, a.withdraw]
      [authoritySeeds a.stakePool.key .withdraw withdrawBumpSeed]) L

/-- Transfer user's SOLs to reserve. -/
def depositLamports (amount : UInt64) (a : DepositAccounts)
    (withdrawBumpSeed reserveBump : UInt8) (chain : Chain) : Except ProgramError Ledger :=
  match a.wrapped with
  | some (temp, nativeMint) =>
      depositWrapped P programId amount a temp nativeMint withdrawBumpSeed reserveBump chain
  | none => do
      -- Initial deposit must be enough
      require (¬(chain.ledger a.reserve.key).lamports + amount < minReserveBalanceConst)
        (.custom .firstDepositIsTooSmall)
      P.transfer a.sourceUser.key a.reserve.key amount
        (signers [a.sourceUser, a.reserve, a.systemProgram]) chain.ledger

def processDeposit (amount : UInt64) (accounts : List AccountInfo) (chain : Chain) :
    Except ProgramError Ledger := do
  require (amount ≠ 0) .invalidArgument
  let a ← DepositAccounts.parse chain accounts
  let stakePool ← loadStakePool P programId chain.ledger a.stakePool
  stakePool.checkAuthorityWithdraw P programId a.withdraw.key a.stakePool.key
  let reserve := getReserveAddress P programId a.stakePool.key
  require (a.reserve.key = reserve.1) .incorrectProgramId
  require (stakePool.ownerFeeAccount = a.ownerFee.key) (.custom .invalidFeeAccount)
  require (stakePool.tokenProgramId = a.tokenProgram.key) .incorrectProgramId
  require (¬(chain.ledger a.reserve.key).lamports + amount < minReserveBalance chain.rent)
    (.custom .firstDepositIsTooSmall)
  let poolAmount ← okOr (stakePool.calcPoolDepositAmount amount) (.custom .calculationFailure)
  let feeAmount ← okOr (stakePool.calcFeeAmount poolAmount) (.custom .calculationFailure)
  let userAmount ← okOr (checkedSub poolAmount feeAmount) (.custom .calculationFailure)
  let L ← depositLamports P programId amount a stakePool.withdrawBumpSeed reserve.2 chain
  let L ← tokenMintTo P programId a.stakePool.key a.tokenProgram a.poolMint a.destUser
    a.withdraw .withdraw stakePool.withdrawBumpSeed userAmount L
  let L ← tokenMintTo P programId a.stakePool.key a.tokenProgram a.poolMint a.ownerFee
    a.withdraw .withdraw stakePool.withdrawBumpSeed feeAmount L
  store programId a.stakePool.key
    (StakePool.serialize
      { stakePool with
        poolTotal := stakePool.poolTotal + poolAmount
        stakeTotal := stakePool.stakeTotal + amount }) L

/-! ## Withdraw -/

structure WithdrawAccounts where
  stakePool : AccountInfo
  withdraw : AccountInfo
  reserve : AccountInfo
  burnFrom : AccountInfo
  poolMint : AccountInfo
  target : AccountInfo
  rent : AccountInfo
  systemProgram : AccountInfo
  tokenProgram : AccountInfo

def WithdrawAccounts.parse (chain : Chain) (accounts : List AccountInfo) :
    Except ProgramError WithdrawAccounts := do
  let (stakePool, accounts) ← nextAccountInfo accounts
  let (withdraw, accounts) ← nextAccountInfo accounts
  let (reserve, accounts) ← nextAccountInfo accounts
  let (burnFrom, accounts) ← nextAccountInfo accounts
  let (poolMint, accounts) ← nextAccountInfo accounts
  let (target, accounts) ← nextAccountInfo accounts
  let (rent, accounts) ← nextAccountInfo accounts
  let _ ← Rent.fromAccountInfo chain rent
  let (systemProgram, accounts) ← nextAccountInfo accounts
  let (tokenProgram, _) ← nextAccountInfo accounts
  pure ⟨stakePool, withdraw, reserve, burnFrom, poolMint, target, rent, systemProgram,
    tokenProgram⟩

/-- The pool after `poolAmount` tokens were redeemed for `stakeAmount` lamports. -/
def StakePool.redeem (pool : StakePool) (poolAmount stakeAmount : UInt64) : StakePool :=
  { pool with
    poolTotal := pool.poolTotal - poolAmount
    stakeTotal := pool.stakeTotal - stakeAmount }

def processWithdraw (poolAmount : UInt64) (accounts : List AccountInfo) (chain : Chain) :
    Except ProgramError Ledger := do
  require (poolAmount ≠ 0) .invalidArgument
  let a ← WithdrawAccounts.parse chain accounts
  let L := chain.ledger
  let stakePool ← loadStakePool P programId L a.stakePool
  require (stakePool.tokenProgramId = a.tokenProgram.key) .incorrectProgramId
  stakePool.checkAuthorityWithdraw P programId a.withdraw.key a.stakePool.key
  let reserve := getReserveAddress P programId a.stakePool.key
  require (a.reserve.key = reserve.1) .incorrectProgramId
  let stakeAmount ← okOr (stakePool.calcLamportsAmount poolAmount) (.custom .calculationFailure)
  let reserveBalance := (L a.reserve.key).lamports
  require (¬(stakeAmount > reserveBalance ∨
      reserveBalance - stakeAmount < minReserveBalanceConst ∨
      ¬chain.rent.isExempt (reserveBalance - stakeAmount) 0)) .insufficientFunds
  -- The mint is passed on as the caller gave it.
  let L ← tokenBurn P programId a.stakePool.key a.tokenProgram a.burnFrom a.poolMint a.withdraw
    .withdraw stakePool.withdrawBumpSeed poolAmount L
  let L ← P.transfer a.reserve.key a.target.key stakeAmount
    (P.signersWith programId [a.systemProgram, a.reserve, a.target]
      [authoritySeeds a.stakePool.key .reserve reserve.2]) L
  store programId a.stakePool.key
    (StakePool.serialize (stakePool.redeem poolAmount stakeAmount)) L

end Tenderize
