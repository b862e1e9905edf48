import Tenderize.Reference.Programs
import Tenderize.Refinement.Runs
import Tenderize.Spec.Held

/-!
# A reference deployment

One pool of the program next to the reference programs, a handful of users, and a way
to execute runs.  What an executed run reaches is a reachable state.
-/

namespace Tenderize.Reference

open Support

def programId : Pubkey := ⟨1001⟩
def poolKey : Pubkey := ⟨1002⟩
def listKey : Pubkey := ⟨1003⟩
def creditListKey : Pubkey := ⟨1004⟩
def mintKey : Pubkey := ⟨1005⟩
def creditReserveKey : Pubkey := ⟨1006⟩
def feeKey : Pubkey := ⟨1007⟩
def ownerKey : Pubkey := ⟨1008⟩
def stakeHistoryKey : Pubkey := ⟨1009⟩
def stakeConfigKey : Pubkey := ⟨1010⟩
def userKey : Pubkey := ⟨2001⟩
def userTokensKey : Pubkey := ⟨2002⟩
def otherMintKey : Pubkey := ⟨2003⟩
def otherTokensKey : Pubkey := ⟨2004⟩
def friendKey : Pubkey := ⟨2005⟩
def validatorKey : Pubkey := ⟨3001⟩

def deployment : Deployment where
  programs := programs
  programId := programId
  poolKey := poolKey
  lawful := lawful
  ne_system := by decide
  ne_token := by decide
  ne_stake := by decide

def withdrawKey : Pubkey := authorityAddress poolKey .withdraw
def depositKey : Pubkey := authorityAddress poolKey .deposit
def reserveKey : Pubkey := authorityAddress poolKey .reserve

/-! ## Accounts before the pool exists -/

def wallet (lamports : UInt64) : Account := ⟨lamports, systemProgramId, .zeroed 0⟩

/-- A token account whose owner approved the withdraw authority. -/
def tokens (mint owner : Pubkey) (h : mint ≠ nativeMintId) (amount : UInt64) : Account :=
  ⟨2039280, splTokenId,
    .tokenAccount
      { mint := mint
        owner := owner
        amount := amount
        delegate := some withdrawKey
        state := .initialized
        isNative := none
        delegatedAmount := 1000000000000
        closeAuthority := none
        native_iff := by simp [h] }⟩

theorem mintKey_not_native : (none : Option UInt64).isSome ↔ mintKey = nativeMintId := by decide

def creditReserveAccount : Account :=
  ⟨2039280, splTokenId,
    .tokenAccount
      { mint := mintKey
        owner := ownerKey
        amount := 0
        delegate := none
        state := .initialized
        isNative := none
        delegatedAmount := 0
        closeAuthority := none
        native_iff := mintKey_not_native }⟩

def rows : List (Pubkey × Account) :=
  [(poolKey, ⟨1000000000, programId, .zeroed StakePool.LEN⟩),
    (listKey, ⟨1000000000, programId, .zeroed ValidatorStakeList.LEN⟩),
    (creditListKey, ⟨1000000000, programId, .zeroed CreditList.LEN⟩),
    (mintKey, ⟨1461600, splTokenId, .mint ⟨some withdrawKey, 0⟩⟩),
    (creditReserveKey, creditReserveAccount),
    (feeKey, tokens mintKey ownerKey (by decide) 0),
    (ownerKey, wallet 1000000000000),
    (userKey, wallet 1000000000000000000),
    (userTokensKey, tokens mintKey userKey (by decide) 0),
    (otherMintKey, ⟨1461600, splTokenId, .mint ⟨some userKey, 1000000000000⟩⟩),
    (otherTokensKey, tokens otherMintKey userKey (by decide) 1000000000000),
    (friendKey, wallet 1000000),
    (validatorKey, wallet 1000000)]

def startLedger : Ledger :=
  fun key => ((rows.find? (fun row => row.1 = key)).map Prod.snd).getD (wallet 0)

def start : Chain where
  ledger := startLedger
  clock := ⟨0⟩
  rent := ⟨fun len => UInt64.ofNat (6960 * (128 + len))⟩

theorem startLedger_of_address {key : Pubkey} (h : 2 ^ 255 ≤ key.bits.toNat) :
    startLedger key = wallet 0 := by
  have hnone : rows.find? (fun row => row.1 = key) = none := by
    rw [List.find?_eq_none]
    intro row hrow heq
    have hsmall : ∀ row ∈ rows, row.1.bits.toNat < 2 ^ 255 := by decide
    have hlt := hsmall row hrow
    simp only [decide_eq_true_eq] at heq
    rw [heq] at hlt
    omega
  simp [startLedger, hnone]

/-! ## Program addresses -/

theorem authorityAddress_ge (pool : Pubkey) (type : AuthorityType) :
    2 ^ 255 ≤ (authorityAddress pool type).bits.toNat := by
  have htag : authorityTag type < 4 := by cases type <;> decide
  have hpool : pool.bits.toNat % 2 ^ 64 < 2 ^ 64 := Nat.mod_lt _ (by decide)
  simp only [authorityAddress, BitVec.toNat_ofNat]
  omega

theorem stakeAddress_toNat (validator pool : Pubkey) (index : UInt32) :
    (stakeAddress validator pool index).bits.toNat =
      2 ^ 255 + (pool.bits.toNat % 2 ^ 64) * 2 ^ 132 +
        (validator.bits.toNat % 2 ^ 100) * 2 ^ 32 + index.toNat := by
  have hpool : pool.bits.toNat % 2 ^ 64 < 2 ^ 64 := Nat.mod_lt _ (by decide)
  have hvalidator : validator.bits.toNat % 2 ^ 100 < 2 ^ 100 := Nat.mod_lt _ (by decide)
  have hindex := index.toNat_lt
  simp only [stakeAddress, BitVec.toNat_ofNat]
  omega

/-- Ordinary keys are not derived from seeds. -/
theorem not_isProgramAddress {key : Pubkey} (h : key.bits.toNat < 2 ^ 255) :
    ¬deployment.programs.IsProgramAddress deployment.programId key := by
  rintro ⟨seeds, hseeds⟩
  have hcreate : createProgramAddress seeds programId = some key := hseeds
  unfold createProgramAddress at hcreate
  split at hcreate
  · split at hcreate
    · have hge := authorityAddress_ge ‹_› ‹_›
      obtain rfl := Option.some.inj hcreate
      omega
    · cases hcreate
  · split at hcreate
    · obtain rfl := Option.some.inj hcreate
      rw [stakeAddress_toNat] at h
      omega
    · cases hcreate
  · cases hcreate

/-! ## Executing runs -/

inductive Action where
  | call (instruction : StakePoolInstruction) (accounts : List AccountInfo)
  | pay (source target : Pubkey) (n : UInt64)

def addressed (accounts : List AccountInfo) : Bool :=
  accounts.head?.map (fun info => info.key) = some poolKey ∧
    ∀ info ∈ accounts, info.isSigner = true → info.key.bits.toNat < 2 ^ 255

theorem addressed_spec {accounts : List AccountInfo} (h : addressed accounts = true) :
    deployment.Addressed accounts := by
  simp only [addressed, decide_eq_true_eq] at h
  obtain ⟨hfirst, hsigners⟩ := h
  refine ⟨?_, fun info hmem hsigner => not_isProgramAddress (hsigners info hmem hsigner)⟩
  cases accounts with
  | nil => cases hfirst
  | cons info rest => exact ⟨info, rest, rfl, Option.some.inj hfirst⟩

/-- Perform one action that `allowed` lets through. -/
def perform (allowed : Chain → Event → Bool) (c : Chain) :
    Action → Except ProgramError Chain
  | .call instruction accounts => do
      require (addressed accounts ∧ allowed c (.instruction instruction accounts))
        .invalidArgument
      let L ← dispatch programs programId instruction accounts c
      pure { c with ledger := L }
  | .pay source target n => do
      require (source.bits.toNat < 2 ^ 255 ∧ allowed c .outside) .invalidArgument
      let L ← transfer source target n [source] c.ledger
      pure { c with ledger := L }

def performAll (allowed : Chain → Event → Bool) :
    List Action → Chain → Except ProgramError Chain
  | [], c => .ok c
  | action :: actions, c => do
      let c ← perform allowed c action
      performAll allowed actions c

def signer (key : Pubkey) : AccountInfo := ⟨key, true⟩

def plain (key : Pubkey) : AccountInfo := ⟨key, false⟩

def initAccounts : List AccountInfo :=
  [plain poolKey, signer ownerKey, plain listKey, plain creditListKey, plain mintKey,
    plain feeKey, plain creditReserveKey, plain clockId, plain rentId, plain splTokenId]

/-- Initialize the pool without a fee and perform the actions. -/
def execute (allowed : Chain → Event → Bool) (actions : List Action) :
    Except ProgramError Chain := do
  let L ← dispatch programs programId (.initializePool ⟨⟨1, 0⟩⟩) initAccounts start
  performAll allowed actions { start with ledger := L }

variable {allowed : Chain → Event → Bool} {guard : Chain → Event → Prop} {c c' : Chain}

theorem perform_call {instruction : StakePoolInstruction} {accounts : List AccountInfo}
    (h : perform allowed c (.call instruction accounts) = .ok c') :
    deployment.Step deployment.Outside c (.instruction instruction accounts) c' ∧
      allowed c (.instruction instruction accounts) = true := by
  simp only [perform, bind_eq_ok, require_eq_ok, pure_eq_ok] at h
  obtain ⟨-, ⟨haddressed, hok⟩, L, hrun, rfl⟩ := h
  exact ⟨⟨addressed_spec haddressed, L, hrun, rfl⟩, hok⟩

/-- The payments of a run are steps of the environment. -/
def PaysIn (env : Chain → Chain → Prop) (actions : List Action) : Prop :=
  ∀ source target n, .pay source target n ∈ actions → source.bits.toNat < 2 ^ 255 →
    ∀ (c : Chain) L', transfer source target n [source] c.ledger = .ok L' →
      env c { c with ledger := L' }

theorem paysIn_outside (actions : List Action) : PaysIn deployment.Outside actions :=
  fun _ _ _ _ hsource _ _ hrun => transfer_outside (not_isProgramAddress hsource) hrun

variable {env : Chain → Chain → Prop} {actions : List Action}

/-- Runs of instructions need no other programs. -/
theorem paysIn_instructions (h : ∀ source target n, .pay source target n ∉ actions) :
    PaysIn env actions :=
  fun source target n hmem => absurd hmem (h source target n)

theorem perform_step {action : Action} (henv : PaysIn env actions) (hmem : action ∈ actions)
    (hallowed : ∀ c e, allowed c e = true → guard c e)
    (h : perform allowed c action = .ok c') :
    ∃ e, ((deployment.system env).restrict guard).step c e c' := by
  cases action with
  | call instruction accounts =>
      obtain ⟨hstep, hok⟩ := perform_call h
      exact ⟨.instruction instruction accounts, hstep, hallowed _ _ hok⟩
  | pay source target n =>
      simp only [perform, bind_eq_ok, require_eq_ok, pure_eq_ok] at h
      obtain ⟨-, ⟨hsource, hok⟩, L, hrun, rfl⟩ := h
      exact ⟨.outside, henv source target n hmem hsource c L hrun, hallowed _ _ hok⟩

theorem performAll_reachable (hallowed : ∀ c e, allowed c e = true → guard c e) :
    ∀ {actions : List Action} {c c' : Chain}, PaysIn env actions →
      ((deployment.system env).restrict guard).Reachable c →
      performAll allowed actions c = .ok c' →
      ((deployment.system env).restrict guard).Reachable c' := by
  intro actions
  induction actions with
  | nil =>
      intro c c' _ hc h
      obtain rfl := Except.ok.inj h
      exact hc
  | cons action actions ih =>
      intro c c' henv hc h
      simp only [performAll, bind_eq_ok] at h
      obtain ⟨c₁, hfirst, hrest⟩ := h
      obtain ⟨e, hstep⟩ := perform_step henv List.mem_cons_self hallowed hfirst
      have henv' : PaysIn env actions :=
        fun source target n hmem => henv source target n (List.mem_cons_of_mem _ hmem)
      exact ih henv' (.step hc hstep) hrest

def Action.event : Action → Event
  | .call instruction accounts => .instruction instruction accounts
  | .pay _ _ _ => .outside

theorem performAll_run : ∀ {actions : List Action} {c c' : Chain}, PaysIn env actions →
    performAll allowed actions c = .ok c' →
    (deployment.system env).Run (actions.map Action.event) c c' := by
  intro actions
  induction actions with
  | nil =>
      intro c c' _ h
      obtain rfl := Except.ok.inj h
      exact .nil c
  | cons action actions ih =>
      intro c c' henv h
      simp only [performAll, bind_eq_ok] at h
      obtain ⟨c₁, hfirst, hrest⟩ := h
      have henv' : PaysIn env actions :=
        fun source target n hmem => henv source target n (List.mem_cons_of_mem _ hmem)
      refine .cons ?_ (ih henv' hrest)
      cases action with
      | call instruction accounts => exact (perform_call hfirst).1
      | pay source target n =>
          simp only [perform, bind_eq_ok, require_eq_ok, pure_eq_ok] at hfirst
          obtain ⟨-, ⟨hsource, -⟩, L, hrun, rfl⟩ := hfirst
          exact henv source target n List.mem_cons_self hsource c L hrun

theorem fresh : ∃ a, InitializeAccounts.parse start initAccounts = .ok a ∧
    deployment.FreshAccounts start.ledger a := by
  refine ⟨_, rfl, ?_⟩
  refine
    { pool_data := ⟨_, rfl⟩
      list_data := ⟨_, rfl⟩
      credits_data := ⟨_, rfl⟩
      list_ne_pool := by decide
      credits_ne_pool := by decide
      list_ne_credits := by decide
      token_program := rfl
      mint := ⟨_, rfl, rfl⟩
      native_mint := ?_
      reserve := ?_
      stakes := ?_ }
  · intro m hm
    have hnot : (startLedger nativeMintId).owner ≠ splTokenId := by decide
    exact absurd hm.1 hnot
  · have hempty := startLedger_of_address (authorityAddress_ge poolKey .reserve)
    show (startLedger reserveKey).owner = _
    unfold reserveKey
    rw [hempty]
    rfl
  · intro validator index
    have hempty : startLedger (stakeAddress validator poolKey index) = wallet 0 := by
      apply startLedger_of_address
      rw [stakeAddress_toNat]
      omega
    show (startLedger (stakeAddress validator poolKey index)).owner = _
    rw [hempty]
    rfl

/-- What an executed run ends in is reachable. -/
theorem execute_reachable_in (henv : PaysIn env actions)
    (hallowed : ∀ c e, allowed c e = true → guard c e)
    (h : execute allowed actions = .ok c) :
    ((deployment.system env).restrict guard).Reachable c := by
  simp only [execute, bind_eq_ok] at h
  obtain ⟨L, hinit, h⟩ := h
  obtain ⟨a, hparse, hfresh⟩ := fresh
  refine performAll_reachable hallowed henv (.init ?_) h
  exact ⟨start, _, initAccounts, a, hparse, hfresh, addressed_spec (by decide), hinit⟩

theorem execute_reachable (hallowed : ∀ c e, allowed c e = true → guard c e)
    (h : execute allowed actions = .ok c) :
    ((deployment.system deployment.Outside).restrict guard).Reachable c :=
  execute_reachable_in (paysIn_outside actions) hallowed h

def anything (_ : Chain) (_ : Event) : Bool := true

theorem execute_anything_reachable (h : execute anything actions = .ok c) :
    (deployment.system deployment.Outside).Reachable c := by
  have hall : ∀ c e, anything c e = true → (fun _ _ => True : Chain → Event → Prop) c e :=
    fun _ _ _ => trivial
  exact (execute_reachable hall h).of_restrict

/-! ## Accounts of other programs -/

/-- An account the pool does not rely on. -/
def unrelated (c : Chain) (key : Pubkey) : Bool :=
  let pool := c.ledger.poolAt poolKey
  decide (key.bits.toNat < 2 ^ 255 ∧ key ∉ [poolKey, pool.validatorStakeList, pool.creditList] ∧
    (c.ledger.mintAt key).mintAuthority ≠ some withdrawKey ∧
    (c.ledger.tokenAt key).owner ≠ withdrawKey)

/-- Another program writes an account the pool does not rely on. -/
def write (key : Pubkey) (account : Account) (c : Chain) : Except ProgramError Chain := do
  require (unrelated c key) .invalidArgument
  pure { c with ledger := c.ledger.set key account }

theorem write_outside {key : Pubkey} {account : Account} {s : PoolState}
    (h : deployment.Represents c.ledger s) (hwrite : write key account c = .ok c') :
    deployment.Outside c c' := by
  simp only [write, unrelated, bind_eq_ok, require_eq_ok, pure_eq_ok, decide_eq_true_eq] at hwrite
  obtain ⟨-, ⟨hbits, hrecords, hmint, htoken⟩, rfl⟩ := hwrite
  have hpool : c.ledger.poolAt poolKey = s.pool := (congrArg PoolState.pool h.eq_stateOf).symm
  rw [hpool] at hrecords
  refine set_outside account
    (fun hown => absurd hown.isProgramAddress (not_isProgramAddress hbits)) h hrecords ?_ ?_
  · rintro m ⟨-, hdata⟩
    have hat : c.ledger.mintAt key = m := by simp [Ledger.mintAt, hdata]
    rw [hat] at hmint
    exact hmint
  · rintro t ⟨-, hdata⟩
    have hat : c.ledger.tokenAt key = t := by simp [Ledger.tokenAt, hdata]
    rw [hat] at htoken
    exact htoken

/-! ## Instructions of the users -/

def deposit (amount : UInt64) (destUser mint : Pubkey) : Action :=
  .call (.deposit amount)
    [plain poolKey, plain withdrawKey, plain reserveKey, signer userKey, plain destUser,
      plain feeKey, plain mint, plain rentId, plain systemProgramId, plain splTokenId]

def withdrawAccounts (burnFrom mint : Pubkey) : List AccountInfo :=
  [plain poolKey, plain withdrawKey, plain reserveKey, plain burnFrom, plain mint,
    plain friendKey, plain rentId, plain systemProgramId, plain splTokenId]

def withdraw (poolAmount : UInt64) (burnFrom mint : Pubkey) : Action :=
  .call (.withdraw poolAmount) (withdrawAccounts burnFrom mint)

def credit (amount : UInt64) (burnFrom target : Pubkey) : Action :=
  .call (.credit amount)
    [plain poolKey, plain creditListKey, plain creditReserveKey, plain withdrawKey,
      plain burnFrom, plain target, plain userKey, plain splTokenId]

/-- The accounts of `PayCreditors`, followed by those of the users. -/
def payAccounts (users : List Pubkey) : List AccountInfo :=
  [plain poolKey, plain creditListKey, plain withdrawKey, plain reserveKey,
    plain creditReserveKey, plain mintKey, plain rentId, plain clockId, plain systemProgramId,
    plain splTokenId] ++ users.map plain

def updatePool : Action :=
  .call .updatePoolBalance [plain poolKey, plain listKey, plain reserveKey, plain clockId]

/-! ## Instructions of the owner -/

/-- The accounts of `AddValidator` and `RemoveValidator`. -/
def validatorAccounts (validator : Pubkey) : List AccountInfo :=
  [plain poolKey, signer ownerKey, plain listKey, plain validator, plain clockId]

def addValidator (validator : Pubkey) : Action :=
  .call .addValidator (validatorAccounts validator)

/-- The accounts of `DelegateReserve`, with the stake account of every index. -/
def delegateAccounts (indices : List UInt32) : List AccountInfo :=
  [plain poolKey, signer ownerKey, plain listKey, plain withdrawKey, plain depositKey,
    plain reserveKey, plain systemProgramId, plain stakeProgramId, plain clockId,
    plain stakeHistoryKey, plain stakeConfigKey, plain rentId] ++
  indices.flatMap (fun index =>
    [plain validatorKey, plain (stakeAddress validatorKey poolKey index)])

/-- Delegate lamports of the reserve to the validator. -/
def delegate (instructions : List DelegateReserveInstruction) : Action :=
  .call (.delegateReserve instructions)
    (delegateAccounts (instructions.map (fun i => i.stakeIndex)))

/-- Withdraw to any address. -/
def withdrawTo (poolAmount : UInt64) (target : Pubkey) : Action :=
  .call (.withdraw poolAmount)
    [plain poolKey, plain withdrawKey, plain reserveKey, plain userTokensKey, plain mintKey,
      plain target, plain rentId, plain systemProgramId, plain splTokenId]

/-- The accounts of `UpdateListBalance` for the first stake accounts of the validator. -/
def refreshAccounts (count : Nat) : List AccountInfo :=
  [plain poolKey, plain listKey, plain withdrawKey, plain reserveKey, plain systemProgramId,
    plain stakeProgramId, plain clockId, plain stakeHistoryKey, plain validatorKey] ++
  (List.range count).map (fun i => plain (stakeAddress validatorKey poolKey (UInt32.ofNat i)))

/-- Merge one stake of the validator into another one. -/
def mergeStakes (mainIndex additionalIndex : UInt32) : Action :=
  .call (.mergeStakes [⟨validatorKey, mainIndex, additionalIndex⟩])
    [plain poolKey, plain listKey, plain depositKey, plain stakeProgramId, plain clockId,
      plain stakeHistoryKey, plain (stakeAddress validatorKey poolKey mainIndex),
      plain (stakeAddress validatorKey poolKey additionalIndex)]

/-- Deactivate a stake of the validator. -/
def unstake (index : UInt32) : Action :=
  .call (.unstake [⟨validatorKey, index, index, 0⟩])
    [plain poolKey, signer ownerKey, plain listKey, plain depositKey, plain systemProgramId,
      plain stakeProgramId, plain rentId, plain clockId, plain stakeHistoryKey,
      plain (stakeAddress validatorKey poolKey index)]

/-! ## Addresses of the stake accounts -/

theorem stakeKey_eq (validator : Pubkey) (index : UInt32) :
    deployment.stakeKey validator index = stakeAddress validator poolKey index := rfl

theorem stakeAddress_ne_authority (validator : Pubkey) (index : UInt32) (type : AuthorityType) :
    stakeAddress validator poolKey index ≠ authorityAddress poolKey type := by
  intro heq
  have hbits := congrArg (fun key : Pubkey => key.bits.toNat) heq
  have htag : authorityTag type < 4 := by cases type <;> decide
  have hvalidator : validator.bits.toNat % 2 ^ 100 < 2 ^ 100 := Nat.mod_lt _ (by decide)
  have hindex := index.toNat_lt
  have hpool : poolKey.bits.toNat % 2 ^ 64 = 1002 := by decide
  simp only [stakeAddress_toNat, authorityAddress, BitVec.toNat_ofNat, hpool] at hbits
  omega

/-- The stake addresses of one validator are different. -/
theorem noCollision (validator : Pubkey) : deployment.NoCollision {validator} where
  ne_reserve := fun v _ i => stakeAddress_ne_authority v i .reserve
  injective := by
    rintro v rfl v' rfl i i' heq
    have hbits := congrArg (fun key : Pubkey => key.bits.toNat) heq
    simp only [stakeKey_eq, stakeAddress_toNat] at hbits
    exact ⟨rfl, UInt32.toNat_inj.mp (by omega)⟩

end Tenderize.Reference
