import Tenderize.Model.Processor.Pool
import Tenderize.Support.FirstMatch

/-!
# The credit queue

`Credit`, `Uncredit` and `PayCreditors`.  Pool tokens wait in the credit reserve until
the SOL reserve can pay for them.
-/

namespace Tenderize

open Support

variable (P : Programs) (programId : Pubkey)

/-! ## Credit and Uncredit -/

/-- `Credit` and `Uncredit` take the same accounts. -/
structure CreditAccounts where
  stakePool : AccountInfo
  creditList : AccountInfo
  creditReserve : AccountInfo
  withdraw : AccountInfo
  burnFrom : AccountInfo
  target : AccountInfo
  cancelAuthority : AccountInfo
  tokenProgram : AccountInfo

def CreditAccounts.parse (accounts : List AccountInfo) :
    Except ProgramError CreditAccounts := do
  let (stakePool, accounts) ← nextAccountInfo accounts
  let (creditList, accounts) ← nextAccountInfo accounts
  let (creditReserve, accounts) ← nextAccountInfo accounts
  let (withdraw, accounts) ← nextAccountInfo accounts
  let (burnFrom, accounts) ← nextAccountInfo accounts
  let (target, accounts) ← nextAccountInfo accounts
  let (cancelAuthority, accounts) ← nextAccountInfo accounts
  let (tokenProgram, _) ← nextAccountInfo accounts
  pure ⟨stakePool, creditList, creditReserve, withdraw, burnFrom, target, cancelAuthority,
    tokenProgram⟩

/-- The checks both instructions make before they look at the records. -/
def loadCredits (L : Ledger) (a : CreditAccounts) :
    Except ProgramError (StakePool × CreditList) := do
  let stakePool ← loadStakePool P programId L a.stakePool
  require (stakePool.tokenProgramId = a.tokenProgram.key) .incorrectProgramId
  let creditList ← loadCreditList P L stakePool a.creditList
  require (a.creditReserve.key = stakePool.creditReserve) .invalidArgument
  pure (stakePool, creditList)

/-- Queue `amount` tokens for `target`. -/
def addCredit (target cancelAuthority : Pubkey) (amount : UInt64)
    (credits : List CreditRecord) : Except ProgramError (List CreditRecord) :=
  match lookup CreditRecord.solTarget target credits with
  | some record => do
      require (cancelAuthority = record.cancelAuthority) .invalidArgument
      pure (updateFirst CreditRecord.solTarget target
        { record with tokenAmount := record.tokenAmount + amount } credits)
  | none => do
      require (¬credits.length ≥ maxCreditRecords) (.custom .creditListOverfow)
      pure (credits ++ [⟨target, cancelAuthority, amount⟩])

def processCredit (amount : UInt64) (accounts : List AccountInfo) (chain : Chain) :
    Except ProgramError Ledger := do
  require (amount ≠ 0) .invalidArgument
  let a ← CreditAccounts.parse accounts
  let L := chain.ledger
  let (stakePool, creditList) ← loadCredits P programId L a
  require ((L a.target.key).owner = systemProgramId) .incorrectProgramId
  let credits ← addCredit a.target.key a.cancelAuthority.key amount creditList.credits
  -- The authority is the caller's choice; the withdraw authority signs besides.
  let L ← P.tokenTransfer a.tokenProgram.key a.burnFrom.key a.creditReserve.key a.withdraw.key
    amount
    (P.signersWith programId [a.burnFrom, a.creditReserve, a.withdraw]
      [authoritySeeds a.stakePool.key .withdraw stakePool.withdrawBumpSeed]) L
  store programId a.creditList.key (CreditList.serialize { creditList with credits }) L

/-- Take `amount` tokens out of the record of `target`. -/
def removeCredit (target : Pubkey) (cancelAuthority : AccountInfo) (amount : UInt64)
    (credits : List CreditRecord) : Except ProgramError (List CreditRecord) :=
  match lookup CreditRecord.solTarget target credits with
  | some record => do
      require (cancelAuthority.key = record.cancelAuthority) .invalidArgument
      require cancelAuthority.isSigner .missingRequiredSignature
      require (¬amount > record.tokenAmount) .insufficientFunds
      if amount = record.tokenAmount then
        pure (credits.filter (fun record => record.solTarget ≠ target))
      else
        pure (updateFirst CreditRecord.solTarget target
          { record with tokenAmount := record.tokenAmount - amount } credits)
  | none => .error (.custom .unknownCreditor)

def processUncredit (amount : UInt64) (accounts : List AccountInfo) (chain : Chain) :
    Except ProgramError Ledger := do
  let a ← CreditAccounts.parse accounts
  let L := chain.ledger
  let (stakePool, creditList) ← loadCredits P programId L a
  let credits ← removeCredit a.target.key a.cancelAuthority amount creditList.credits
  let L ← P.tokenTransfer a.tokenProgram.key a.creditReserve.key a.burnFrom.key a.withdraw.key
    amount
    (P.signersWith programId [a.burnFrom, a.creditReserve, a.withdraw]
      [authoritySeeds a.stakePool.key .withdraw stakePool.withdrawBumpSeed]) L
  store programId a.creditList.key (CreditList.serialize { creditList with credits }) L

/-! ## PayCreditors -/

structure PayCreditorsAccounts where
  stakePool : AccountInfo
  creditList : AccountInfo
  withdraw : AccountInfo
  reserve : AccountInfo
  creditReserve : AccountInfo
  poolMint : AccountInfo
  rent : AccountInfo
  clock : AccountInfo
  systemProgram : AccountInfo
  tokenProgram : AccountInfo
  /-- The user accounts that follow. -/
  users : List AccountInfo

def PayCreditorsAccounts.parse (chain : Chain) (accounts : List AccountInfo) :
    Except ProgramError PayCreditorsAccounts := do
  let (stakePool, accounts) ← nextAccountInfo accounts
  let (creditList, accounts) ← nextAccountInfo accounts
  let (withdraw, accounts) ← nextAccountInfo accounts
  let (reserve, accounts) ← nextAccountInfo accounts
  let (creditReserve, accounts) ← nextAccountInfo accounts
  let (poolMint, accounts) ← nextAccountInfo accounts
  let (rent, accounts) ← nextAccountInfo accounts
  let _ ← Rent.fromAccountInfo chain rent
  let (clock, accounts) ← nextAccountInfo accounts
  let _ ← Clock.fromAccountInfo chain clock
  let (systemProgram, accounts) ← nextAccountInfo accounts
  let (tokenProgram, users) ← nextAccountInfo accounts
  pure ⟨stakePool, creditList, withdraw, reserve, creditReserve, poolMint, rent, clock,
    systemProgram, tokenProgram, users⟩

/-- `u64::saturating_sub`. -/
def saturatingSub (a b : UInt64) : UInt64 :=
  if b ≤ a then a - b else 0

/-- A credit that was paid and the lamports its target received. -/
structure Payment where
  credit : CreditRecord
  lamports : UInt64
deriving DecidableEq

/-- The variables of the payment loop.  `paid` is not in the source: it records the
payments so that they can be talked about. -/
structure PayState where
  stakePool : StakePool
  totalAmount : UInt64
  /-- `credit_list.credits`, emptied before the loop. -/
  credits : List CreditRecord
  invalidCredits : List CreditRecord
  ledger : Ledger
  paid : List Payment

/-- Burn the tokens of one credit and send the lamports to its target. -/
def payCredit (a : PayCreditorsAccounts) (reserveBump : UInt8) (user : AccountInfo)
    (credit : CreditRecord) (stakeAmount : UInt64) (s : PayState) :
    Except ProgramError PayState := do
  let L ← tokenBurn P programId a.stakePool.key a.tokenProgram a.creditReserve a.poolMint
    a.withdraw .withdraw s.stakePool.withdrawBumpSeed credit.tokenAmount s.ledger
  let L ← P.transfer a.reserve.key credit.solTarget stakeAmount
    (P.signersWith programId [a.systemProgram, a.reserve, user]
      [authoritySeeds a.stakePool.key .reserve reserveBump]) L
  pure
    { s with
      stakePool :=
        { s.stakePool with poolTotal := s.stakePool.poolTotal - credit.tokenAmount }
      totalAmount := s.totalAmount + stakeAmount
      ledger := L
      paid := s.paid ++ [⟨credit, stakeAmount⟩] }

/-- The loop `while let (Some(user_info), Some(credit)) = ..`, together with what is
left in the iterator over the credits when it ends.  Both iterators are advanced
before the pattern is matched. -/
def payLoop (a : PayCreditorsAccounts) (reserveBump : UInt8) (lamportsAvailable : UInt64) :
    List AccountInfo → List CreditRecord → PayState →
      Except ProgramError (PayState × List CreditRecord)
  | user :: users, credit :: rest, s => do
      require (user.key = credit.solTarget) .invalidArgument
      if (s.ledger user.key).owner ≠ systemProgramId then
        payLoop a reserveBump lamportsAvailable users rest
          { s with invalidCredits := s.invalidCredits ++ [credit] }
      else
        let stakeAmount ← okOr (s.stakePool.calcLamportsAmount credit.tokenAmount)
          (.custom .calculationFailure)
        if s.totalAmount + stakeAmount > lamportsAvailable then
          -- return creditor into the list
          pure ({ s with credits := s.credits ++ [credit] }, rest)
        else
          let s ← payCredit P programId a reserveBump user credit stakeAmount s
          payLoop a reserveBump lamportsAvailable users rest s
  | [], _ :: rest, s => pure (s, rest)
  | _, [], s => pure (s, [])

/-- The pool and credit list `PayCreditors` works on, after all its checks. -/
def loadPayCreditors (chain : Chain) (a : PayCreditorsAccounts) :
    Except ProgramError (StakePool × CreditList) := do
  let L := chain.ledger
  let stakePool ← loadStakePool P programId L a.stakePool
  require (stakePool.tokenProgramId = a.tokenProgram.key) .incorrectProgramId
  let creditList ← loadCreditList P L stakePool a.creditList
  require (a.creditReserve.key = stakePool.creditReserve) .invalidArgument
  stakePool.checkAuthorityWithdraw P programId a.withdraw.key a.stakePool.key
  require (a.reserve.key = (getReserveAddress P programId a.stakePool.key).1)
    .incorrectProgramId
  require (¬stakePool.lastUpdateEpoch < chain.clock.epoch)
    (.custom .stakeListAndPoolOutOfDate)
  pure (stakePool, creditList)

/-- Lamports `PayCreditors` and `DelegateReserve` may take out of the reserve. -/
def lamportsAvailable (chain : Chain) (reserve : Pubkey) : UInt64 :=
  saturatingSub (chain.ledger reserve).lamports (minReserveBalance chain.rent)

/-- `process_pay_creditors`, with the payments it made. -/
def payCreditors (accounts : List AccountInfo) (chain : Chain) :
    Except ProgramError (List Payment × Ledger) := do
  let a ← PayCreditorsAccounts.parse chain accounts
  let (stakePool, creditList) ← loadPayCreditors P programId chain a
  let (s, rest) ← payLoop P programId a (getReserveAddress P programId a.stakePool.key).2
    (lamportsAvailable chain a.reserve.key) a.users creditList.credits
    ⟨stakePool, 0, [], [], chain.ledger, []⟩
  -- Return creditors left into the list
  let L ← store programId a.creditList.key
    (CreditList.serialize { creditList with credits := s.credits ++ rest ++ s.invalidCredits })
    s.ledger
  let L ← store programId a.stakePool.key
    (StakePool.serialize
      { s.stakePool with stakeTotal := s.stakePool.stakeTotal - s.totalAmount }) L
  pure (s.paid, L)

def processPayCreditors (accounts : List AccountInfo) (chain : Chain) :
    Except ProgramError Ledger := do
  let (_, L) ← payCreditors P programId accounts chain
  pure L

end Tenderize
