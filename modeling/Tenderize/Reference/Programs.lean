import Tenderize.Model.Programs

/-!
# Reference programs

An executable system program, token program and stake program with the documented
behaviour.  Concrete runs of the processor are evaluated against them, and `lawful`
shows that the assumptions on called programs can be met.
-/

namespace Tenderize.Reference

open Support

/-- A call that succeeds exactly when its checks pass. -/
def checked (p : Prop) [Decidable p] (L : Ledger) : Except ProgramError Ledger :=
  if p then .ok L else .error .callFailed

@[simp] theorem checked_eq_ok {p : Prop} [Decidable p] {L L' : Ledger} :
    checked p L = .ok L' ↔ p ∧ L = L' := by
  unfold checked
  split <;> simp [*]

/-! ## Addresses -/

def authorityTag : AuthorityType → Nat
  | .deposit => 0
  | .withdraw => 1
  | .reserve => 2
  | .temp => 3

/-- Program addresses have their top bit set, so no ordinary key is one. -/
def authorityAddress (pool : Pubkey) (type : AuthorityType) : Pubkey :=
  ⟨BitVec.ofNat 256 (2 ^ 255 + 2 ^ 200 + (pool.bits.toNat % 2 ^ 64) * 4 + authorityTag type)⟩

def stakeAddress (validator pool : Pubkey) (index : UInt32) : Pubkey :=
  ⟨BitVec.ofNat 256 (2 ^ 255 + (pool.bits.toNat % 2 ^ 64) * 2 ^ 132 +
    (validator.bits.toNat % 2 ^ 100) * 2 ^ 32 + index.toNat)⟩

def createProgramAddress (seeds : List Seed) (_programId : Pubkey) : Option Pubkey :=
  match seeds with
  | [.key pool, .authority type, .bump bump] =>
      if bump = 255 then some (authorityAddress pool type) else none
  | [.key validator, .key pool, .index index, .bump bump] =>
      if bump = 255 then some (stakeAddress validator pool index) else none
  | _ => none

def findProgramAddress (seeds : List Seed) (_programId : Pubkey) : Pubkey × UInt8 :=
  match seeds with
  | [.key pool, .authority type] => (authorityAddress pool type, 255)
  | [.key validator, .key pool, .index index] => (stakeAddress validator pool index, 255)
  | _ => (default, 0)

/-! ## System program -/

def transfer (source target : Pubkey) (n : UInt64) (sigs : List Pubkey) (L : Ledger) :
    Except ProgramError Ledger :=
  checked (source ∈ sigs ∧ (L source).owner = systemProgramId ∧ n ≤ (L source).lamports ∧
      (source = target ∨ (L target).lamports.toNat + n.toNat < 2 ^ 64))
    (L.moveLamports source target n)

def createAccount (source target : Pubkey) (n : UInt64) (space : Nat) (owner : Pubkey)
    (sigs : List Pubkey) (L : Ledger) : Except ProgramError Ledger :=
  checked (source ∈ sigs ∧ target ∈ sigs ∧ (L source).owner = systemProgramId ∧
      n ≤ (L source).lamports ∧ (L target).owner = systemProgramId ∧ (L target).lamports = 0)
    ((L.moveLamports source target n).assign target owner space)

/-! ## Token program -/

/-- Take `n` tokens out of an account, as its delegate or its owner. -/
def spend (t : TokenAccount) (authority : Pubkey) (n : UInt64) : Option TokenAccount :=
  if t.state = .initialized ∧ n ≤ t.amount then
    if t.delegate = some authority then
      if n ≤ t.delegatedAmount then
        some
          { t with
            amount := t.amount - n
            delegatedAmount := t.delegatedAmount - n
            delegate := if t.delegatedAmount = n then none else t.delegate }
      else none
    else if authority = t.owner then some { t with amount := t.amount - n }
    else none
  else none

def burn (program account mint authority : Pubkey) (n : UInt64) (sigs : List Pubkey)
    (L : Ledger) : Except ProgramError Ledger :=
  match (L account).data, (L mint).data with
  | .tokenAccount t, .mint m =>
      match spend t authority n with
      | some t' =>
          checked (program = splTokenId ∧ (L account).owner = splTokenId ∧
              (L mint).owner = splTokenId ∧ t.mint = mint ∧ authority ∈ sigs ∧ n ≤ m.supply)
            ((L.setData account (.tokenAccount t')).setData mint
              (.mint { m with supply := m.supply - n }))
      | none => .error .callFailed
  | _, _ => .error .callFailed

def mintTo (program mint account authority : Pubkey) (n : UInt64) (sigs : List Pubkey)
    (L : Ledger) : Except ProgramError Ledger :=
  match (L account).data, (L mint).data with
  | .tokenAccount t, .mint m =>
      checked (program = splTokenId ∧ (L account).owner = splTokenId ∧
          (L mint).owner = splTokenId ∧ t.mint = mint ∧ authority ∈ sigs ∧
          m.mintAuthority = some authority ∧ t.amount.toNat + n.toNat < 2 ^ 64 ∧
          m.supply.toNat + n.toNat < 2 ^ 64)
        ((L.setData account (.tokenAccount { t with amount := t.amount + n })).setData mint
          (.mint { m with supply := m.supply + n }))
  | _, _ => .error .callFailed

def tokenTransfer (program source target authority : Pubkey) (n : UInt64) (sigs : List Pubkey)
    (L : Ledger) : Except ProgramError Ledger :=
  match (L source).data, (L target).data with
  | .tokenAccount a, .tokenAccount b =>
      match spend a authority n with
      | some a' =>
          if source = target then
            checked (program = splTokenId ∧ (L source).owner = splTokenId ∧ authority ∈ sigs) L
          else
            checked (program = splTokenId ∧ (L source).owner = splTokenId ∧
                (L target).owner = splTokenId ∧ b.state = .initialized ∧ a.mint = b.mint ∧
                authority ∈ sigs ∧
                b.amount.toNat + n.toNat < 2 ^ 64 ∧
                (a.isNative.isSome → (L target).lamports.toNat + n.toNat < 2 ^ 64 ∧
                  n ≤ (L source).lamports))
              (((if a.isNative.isSome then L.moveLamports source target n else L).setData source
                (.tokenAccount a')).setData target
                (.tokenAccount { b with amount := b.amount + n }))
      | none => .error .callFailed
  | _, _ => .error .callFailed

/-- Rent of a wrapped-SOL account. -/
def tokenRent : UInt64 := 2039280

theorem native_of_mint (mint : Pubkey) :
    (if mint = nativeMintId then some tokenRent else none).isSome ↔ mint = nativeMintId := by
  split <;> simp [*]

def initializeAccount (program account mint owner : Pubkey) (L : Ledger) :
    Except ProgramError Ledger :=
  checked (program = splTokenId ∧ (L account).owner = splTokenId ∧
      (L account).data = .zeroed TokenAccount.LEN)
    (L.setData account
      (.tokenAccount
        { mint := mint
          owner := owner
          amount := if mint = nativeMintId then (L account).lamports - tokenRent else 0
          delegate := none
          state := .initialized
          isNative := if mint = nativeMintId then some tokenRent else none
          delegatedAmount := 0
          closeAuthority := none
          native_iff := native_of_mint mint }))

def closeAccount (program account target authority : Pubkey) (sigs : List Pubkey) (L : Ledger) :
    Except ProgramError Ledger :=
  match (L account).data with
  | .tokenAccount t =>
      checked (program = splTokenId ∧ (L account).owner = splTokenId ∧ account ≠ target ∧
          authority ∈ sigs ∧ authority = t.closeAuthority.getD t.owner ∧
          (t.isNative.isSome ∨ t.amount = 0) ∧
          (L target).lamports.toNat + (L account).lamports.toNat < 2 ^ 64)
        ((L.moveLamports account target (L account).lamports).setData account
          (.tokenAccount { t with amount := 0 }))
  | _ => .error .callFailed

def setAccountOwner (program account newOwner authority : Pubkey) (sigs : List Pubkey)
    (L : Ledger) : Except ProgramError Ledger :=
  match (L account).data with
  | .tokenAccount t =>
      checked (program = splTokenId ∧ (L account).owner = splTokenId ∧ authority ∈ sigs ∧
          t.owner = authority ∧ t.state = .initialized)
        (L.setData account
          (.tokenAccount
            { t with
              owner := newOwner
              delegate := none
              delegatedAmount := 0
              closeAuthority := if t.isNative.isSome then none else t.closeAuthority }))
  | _ => .error .callFailed

/-! ## Stake program -/

/-- Rent of a stake account. -/
def stakeRent : UInt64 := 2282880

def maxEpoch : UInt64 := 18446744073709551615

/-- Whether a delegation has effective stake: none in the epoch it starts, none after
the epoch it ends. -/
def effective (clock : Clock) (delegation : Delegation) : Bool :=
  delegation.activationEpoch < clock.epoch ∧ clock.epoch ≤ delegation.deactivationEpoch

/-- Replace the state of a stake account after checks. -/
def writeStake (stake : Pubkey) (p : Prop) [Decidable p] (state : StakeState) (L : Ledger) :
    Except ProgramError Ledger :=
  checked ((L stake).owner = stakeProgramId ∧ p) (L.setData stake (.stake state))

def stakeInitialize (stake : Pubkey) (authorized : Authorized) (L : Ledger) :
    Except ProgramError Ledger :=
  writeStake stake
    ((L stake).data = .zeroed StakeState.size ∧ stakeRent ≤ (L stake).lamports)
    (.initialized ⟨stakeRent, authorized⟩) L

/-- Everything above the rent is delegated. -/
def delegation (clock : Clock) (vote : Pubkey) (stakeMeta : Meta) (lamports : UInt64) :
    Delegation :=
  ⟨vote, if stakeMeta.rentExemptReserve ≤ lamports then lamports - stakeMeta.rentExemptReserve
    else 0, clock.epoch, maxEpoch⟩

def delegateStake (clock : Clock) (stake authority vote : Pubkey) (sigs : List Pubkey)
    (L : Ledger) : Except ProgramError Ledger :=
  match (L stake).data with
  | .stake (.initialized stakeMeta) =>
      writeStake stake (authority ∈ sigs ∧ authority = stakeMeta.authorized.staker)
        (.stake stakeMeta ⟨delegation clock vote stakeMeta (L stake).lamports, 0⟩) L
  | .stake (.stake stakeMeta old) =>
      writeStake stake
        (authority ∈ sigs ∧ authority = stakeMeta.authorized.staker ∧
          effective clock old.delegation = false)
        (.stake stakeMeta
          ⟨delegation clock vote stakeMeta (L stake).lamports, old.creditsObserved⟩) L
  | _ => .error .callFailed

def deactivateStake (clock : Clock) (stake authority : Pubkey) (sigs : List Pubkey)
    (L : Ledger) : Except ProgramError Ledger :=
  match (L stake).data with
  | .stake (.stake stakeMeta old) =>
      writeStake stake
        (authority ∈ sigs ∧ authority = stakeMeta.authorized.staker ∧
          old.delegation.deactivationEpoch = maxEpoch)
        (.stake stakeMeta
          { old with delegation := { old.delegation with deactivationEpoch := clock.epoch } }) L
  | _ => .error .callFailed

/-- Lamports a split account needs for its rent besides those it holds. -/
def missingRent (stakeMeta : Meta) (lamports : UInt64) : UInt64 :=
  if lamports < stakeMeta.rentExemptReserve then stakeMeta.rentExemptReserve - lamports else 0

def splitOnly (source authority : Pubkey) (n : UInt64) (target : Pubkey) (sigs : List Pubkey)
    (L : Ledger) : Except ProgramError Ledger :=
  match (L source).data with
  | .stake (.stake stakeMeta old) =>
      checked (source ≠ target ∧ (L source).owner = stakeProgramId ∧
          (L target).owner = stakeProgramId ∧ (L target).data = .zeroed StakeState.size ∧
          authority ∈ sigs ∧ authority = stakeMeta.authorized.staker ∧
          missingRent stakeMeta (L target).lamports < n ∧
          n.toNat + stakeMeta.rentExemptReserve.toNat < (L source).lamports.toNat ∧
          n ≤ old.delegation.stake ∧
          (L target).lamports.toNat + n.toNat < 2 ^ 64)
        (((L.moveLamports source target n).setData source
          (.stake (.stake stakeMeta
            { old with
              delegation :=
                { old.delegation with stake := old.delegation.stake - n } }))).setData target
          (.stake (.stake stakeMeta
            { old with
              delegation :=
                { old.delegation with
                  stake := n - missingRent stakeMeta (L target).lamports } })))
  | _ => .error .callFailed

def merge (_clock : Clock) (target source authority : Pubkey) (sigs : List Pubkey) (L : Ledger) :
    Except ProgramError Ledger :=
  match (L target).data, (L source).data with
  | .stake (.stake targetMeta main), .stake (.stake sourceMeta additional) =>
      checked (source ≠ target ∧ (L target).owner = stakeProgramId ∧
          (L source).owner = stakeProgramId ∧ authority ∈ sigs ∧
          authority = targetMeta.authorized.staker ∧ targetMeta.authorized = sourceMeta.authorized ∧
          main.delegation.voterPubkey = additional.delegation.voterPubkey ∧
          main.delegation.deactivationEpoch = additional.delegation.deactivationEpoch ∧
          (L target).lamports.toNat + (L source).lamports.toNat < 2 ^ 64)
        (((L.moveLamports source target (L source).lamports).setData target
          (.stake (.stake targetMeta
            { main with
              delegation :=
                { main.delegation with
                  stake := main.delegation.stake + additional.delegation.stake +
                    sourceMeta.rentExemptReserve } }))).setData source
          (.stake .uninitialized))
  | _, _ => .error .callFailed

/-- Whether the signatures allow a withdrawal. -/
def mayWithdraw (stake withdrawer : Pubkey) (sigs : List Pubkey) : StakeState → Bool
  | .uninitialized => stake ∈ sigs
  | .initialized stakeMeta => withdrawer = stakeMeta.authorized.withdrawer ∧ withdrawer ∈ sigs
  | .stake stakeMeta _ => withdrawer = stakeMeta.authorized.withdrawer ∧ withdrawer ∈ sigs
  | .rewardsPool => false

/-- Lamports that are staked until the deactivation is over. -/
def stakedLamports (clock : Clock) : StakeState → UInt64
  | .stake _ stake =>
      if stake.delegation.deactivationEpoch < clock.epoch then 0 else stake.delegation.stake
  | _ => 0

def rentReserve : StakeState → UInt64
  | .initialized stakeMeta => stakeMeta.rentExemptReserve
  | .stake stakeMeta _ => stakeMeta.rentExemptReserve
  | _ => 0

/-- Everything can be taken when nothing is staked; otherwise rent and stake stay. -/
def withdrawable (clock : Clock) (state : StakeState) (lamports n : UInt64) : Bool :=
  (n = lamports ∧ stakedLamports clock state = 0) ∨
    n.toNat + (rentReserve state).toNat + (stakedLamports clock state).toNat ≤ lamports.toNat

def stakeWithdraw (clock : Clock) (stake withdrawer target : Pubkey) (n : UInt64)
    (sigs : List Pubkey) (L : Ledger) : Except ProgramError Ledger :=
  match (L stake).data with
  | .stake state =>
      checked ((L stake).owner = stakeProgramId ∧ mayWithdraw stake withdrawer sigs state ∧
          withdrawable clock state (L stake).lamports n ∧
          (stake = target ∨ (L target).lamports.toNat + n.toNat < 2 ^ 64))
        ((L.moveLamports stake target n).setData stake
          (.stake (if n = (L stake).lamports then .uninitialized else state)))
  | _ => .error .callFailed

/-! ## All together -/

/-- Casts of the processor never read another type as something useful. -/
def layouts : Layouts where
  stakePool _ := default
  validatorStakeList _ := .error .invalidAccountData
  creditList _ := .error .invalidAccountData
  tokenAccount _ := .error .invalidAccountData
  mint _ := .error .invalidAccountData
  stakeState _ := .error .invalidAccountData

def programs : Programs where
  layouts := layouts
  createProgramAddress := createProgramAddress
  findProgramAddress := findProgramAddress
  transfer := transfer
  createAccount := createAccount
  burn := burn
  mintTo := mintTo
  tokenTransfer := tokenTransfer
  initializeAccount := initializeAccount
  closeAccount := closeAccount
  setAccountOwner := setAccountOwner
  stakeInitialize := stakeInitialize
  delegateStake := delegateStake
  deactivateStake := deactivateStake
  splitOnly := splitOnly
  merge := merge
  stakeWithdraw := stakeWithdraw

theorem spend_eq_some {t t' : TokenAccount} {authority : Pubkey} {n : UInt64}
    (h : spend t authority n = some t') : t.Authorises authority ∧ Spends t t' n := by
  unfold spend at h
  split at h
  case isFalse => cases h
  case isTrue henough =>
    split at h
    case isTrue hdelegate =>
      split at h
      case isFalse => cases h
      case isTrue =>
        obtain rfl := Option.some.inj h
        refine ⟨.inr hdelegate, henough.2, rfl, rfl, rfl, rfl, ?_⟩
        show (if _ then none else t.delegate) = t.delegate ∨ _
        split
        · exact .inr rfl
        · exact .inl rfl
    case isFalse =>
      split at h
      case isFalse => cases h
      case isTrue howner =>
        obtain rfl := Option.some.inj h
        exact ⟨.inl howner, henough.2, rfl, rfl, rfl, rfl, .inl rfl⟩

theorem writeStake_eq_ok {stake : Pubkey} {p : Prop} [Decidable p] {state : StakeState}
    {L L' : Ledger} (h : writeStake stake p state L = .ok L') :
    (L stake).owner = stakeProgramId ∧ p ∧ ∃ data, L' = L.setData stake data := by
  unfold writeStake at h
  obtain ⟨⟨howner, hp⟩, rfl⟩ := checked_eq_ok.mp h
  exact ⟨howner, hp, _, rfl⟩

theorem burn_ok {account mint authority : Pubkey} {n : UInt64} {sigs : List Pubkey}
    {L L' : Ledger} (h : burn splTokenId account mint authority n sigs L = .ok L') :
    ∃ t t' m, L.HasTokenAccount account t ∧ L.HasMint mint m ∧ t.mint = mint ∧
      authority ∈ sigs ∧ t.Authorises authority ∧ Spends t t' n ∧ n ≤ m.supply ∧
      L' = (L.setData account (.tokenAccount t')).setData mint
        (.mint { m with supply := m.supply - n }) := by
  unfold burn at h
  split at h
  case h_2 => cases h
  case h_1 t m ht hm =>
    split at h
    case h_2 => cases h
    case h_1 t' hspend =>
      obtain ⟨⟨-, howner, hmintOwner, hmint, hsigned, hsupply⟩, rfl⟩ := checked_eq_ok.mp h
      obtain ⟨hauthorises, hspends⟩ := spend_eq_some hspend
      exact ⟨t, t', m, ⟨howner, ht⟩, ⟨hmintOwner, hm⟩, hmint, hsigned, hauthorises, hspends,
        hsupply, rfl⟩

theorem mintTo_ok {mint account authority : Pubkey} {n : UInt64} {sigs : List Pubkey}
    {L L' : Ledger} (h : mintTo splTokenId mint account authority n sigs L = .ok L') :
    ∃ t m, L.HasTokenAccount account t ∧ L.HasMint mint m ∧ t.mint = mint ∧
      authority ∈ sigs ∧ m.mintAuthority = some authority ∧
      t.amount.toNat + n.toNat < 2 ^ 64 ∧ m.supply.toNat + n.toNat < 2 ^ 64 ∧
      L' = (L.setData account (.tokenAccount { t with amount := t.amount + n })).setData
        mint (.mint { m with supply := m.supply + n }) := by
  unfold mintTo at h
  split at h
  case h_2 => cases h
  case h_1 t m ht hm =>
    obtain ⟨⟨-, howner, hmintOwner, hmint, hsigned, hauthority, hamount, hsupply⟩, rfl⟩ :=
      checked_eq_ok.mp h
    exact ⟨t, m, ⟨howner, ht⟩, ⟨hmintOwner, hm⟩, hmint, hsigned, hauthority, hamount, hsupply,
      rfl⟩

theorem tokenTransfer_ok {source target authority : Pubkey} {n : UInt64} {sigs : List Pubkey}
    {L L' : Ledger} (h : tokenTransfer splTokenId source target authority n sigs L = .ok L') :
    ∃ a b, L.HasTokenAccount source a ∧ L.HasTokenAccount target b ∧ a.mint = b.mint ∧
      authority ∈ sigs ∧ a.Authorises authority ∧ n ≤ a.amount ∧
      ((source = target ∧ L' = L) ∨
        (source ≠ target ∧ b.amount.toNat + n.toNat < 2 ^ 64 ∧
          (a.isNative.isSome → (L target).lamports.toNat + n.toNat < 2 ^ 64 ∧
            n ≤ (L source).lamports) ∧
          ∃ a', Spends a a' n ∧
            L' = ((if a.isNative.isSome then L.moveLamports source target n
              else L).setData source (.tokenAccount a')).setData target
                (.tokenAccount { b with amount := b.amount + n }))) := by
  unfold tokenTransfer at h
  split at h
  case h_2 => cases h
  case h_1 a b ha hb =>
    split at h
    case h_2 => cases h
    case h_1 a' hspend =>
      obtain ⟨hauthorises, hspends⟩ := spend_eq_some hspend
      split at h
      case isTrue hself =>
        subst hself
        obtain ⟨⟨-, howner, hsigned⟩, rfl⟩ := checked_eq_ok.mp h
        obtain rfl := AccountData.tokenAccount.inj (ha.symm.trans hb)
        exact ⟨a, a, ⟨howner, ha⟩, ⟨howner, ha⟩, rfl, hsigned, hauthorises, hspends.enough,
          .inl ⟨rfl, rfl⟩⟩
      case isFalse hne =>
        obtain ⟨⟨-, hsource, htarget, -, hmint, hsigned, hamount, hnative⟩, rfl⟩ :=
          checked_eq_ok.mp h
        exact ⟨a, b, ⟨hsource, ha⟩, ⟨htarget, hb⟩, hmint, hsigned, hauthorises, hspends.enough,
          .inr ⟨hne, hamount, hnative, a', hspends, rfl⟩⟩

theorem closeAccount_ok {account target authority : Pubkey} {sigs : List Pubkey} {L L' : Ledger}
    (h : closeAccount splTokenId account target authority sigs L = .ok L') :
    account ≠ target ∧ authority ∈ sigs ∧
      (L target).lamports.toNat + (L account).lamports.toNat < 2 ^ 64 ∧
      ∃ t, L.HasTokenAccount account t ∧ authority = t.closeAuthority.getD t.owner ∧
        L' = (L.moveLamports account target (L account).lamports).setData account
          (.tokenAccount { t with amount := 0 }) := by
  unfold closeAccount at h
  split at h
  case h_2 => cases h
  case h_1 t ht =>
    obtain ⟨⟨-, howner, hne, hsigned, hauthority, -, hfits⟩, rfl⟩ := checked_eq_ok.mp h
    exact ⟨hne, hsigned, hfits, t, ⟨howner, ht⟩, hauthority, rfl⟩

theorem setAccountOwner_ok {account newOwner authority : Pubkey} {sigs : List Pubkey}
    {L L' : Ledger}
    (h : setAccountOwner splTokenId account newOwner authority sigs L = .ok L') :
    ∃ t t', L.HasTokenAccount account t ∧ authority ∈ sigs ∧ t.owner = authority ∧
      t'.mint = t.mint ∧ t'.amount = t.amount ∧ t'.owner = newOwner ∧ t'.delegate = none ∧
      (t'.closeAuthority = t.closeAuthority ∨ t'.closeAuthority = none) ∧
      L' = L.setData account (.tokenAccount t') := by
  unfold setAccountOwner at h
  split at h
  case h_2 => cases h
  case h_1 t ht =>
    obtain ⟨⟨-, howner, hsigned, hauthority, -⟩, rfl⟩ := checked_eq_ok.mp h
    refine ⟨t,
      { t with
        owner := newOwner
        delegate := none
        delegatedAmount := 0
        closeAuthority := if t.isNative.isSome then none else t.closeAuthority },
      ⟨howner, ht⟩, hsigned, hauthority, rfl, rfl, rfl, rfl, ?_, rfl⟩
    show (if t.isNative.isSome then none else t.closeAuthority) = t.closeAuthority ∨ _
    split
    · exact .inr rfl
    · exact .inl rfl

theorem delegateStake_ok {clock : Clock} {stake authority vote : Pubkey} {sigs : List Pubkey}
    {L L' : Ledger} (h : delegateStake clock stake authority vote sigs L = .ok L') :
    (L stake).owner = stakeProgramId ∧ authority ∈ sigs ∧
      ∃ data, L' = L.setData stake data := by
  unfold delegateStake at h
  split at h
  case h_1 =>
    obtain ⟨howner, ⟨hsigned, -⟩, hdata⟩ := writeStake_eq_ok h
    exact ⟨howner, hsigned, hdata⟩
  case h_2 =>
    obtain ⟨howner, ⟨hsigned, -⟩, hdata⟩ := writeStake_eq_ok h
    exact ⟨howner, hsigned, hdata⟩
  case h_3 => cases h

theorem deactivateStake_ok {clock : Clock} {stake authority : Pubkey} {sigs : List Pubkey}
    {L L' : Ledger} (h : deactivateStake clock stake authority sigs L = .ok L') :
    (L stake).owner = stakeProgramId ∧ authority ∈ sigs ∧
      ∃ data, L' = L.setData stake data := by
  unfold deactivateStake at h
  split at h
  case h_1 =>
    obtain ⟨howner, ⟨hsigned, -⟩, hdata⟩ := writeStake_eq_ok h
    exact ⟨howner, hsigned, hdata⟩
  case h_2 => cases h

theorem splitOnly_ok {source authority target : Pubkey} {n : UInt64} {sigs : List Pubkey}
    {L L' : Ledger} (h : splitOnly source authority n target sigs L = .ok L') :
    source ≠ target ∧ (L source).owner = stakeProgramId ∧ (L target).owner = stakeProgramId ∧
      authority ∈ sigs ∧ n ≤ (L source).lamports ∧
      (L target).lamports.toNat + n.toNat < 2 ^ 64 ∧
      ∃ d₁ d₂, L' = ((L.moveLamports source target n).setData source d₁).setData target d₂ := by
  unfold splitOnly at h
  split at h
  case h_2 => cases h
  case h_1 =>
    obtain ⟨⟨hne, hsource, htarget, -, hsigned, -, -, hn, -, hfits⟩, rfl⟩ := checked_eq_ok.mp h
    refine ⟨hne, hsource, htarget, hsigned, ?_, hfits, _, _, rfl⟩
    rw [UInt64.le_iff_toNat_le]
    omega

theorem merge_ok (clock : Clock) {target source authority : Pubkey} {sigs : List Pubkey}
    {L L' : Ledger} (h : merge clock target source authority sigs L = .ok L') :
    source ≠ target ∧ (L target).owner = stakeProgramId ∧ (L source).owner = stakeProgramId ∧
      authority ∈ sigs ∧ (L target).lamports.toNat + (L source).lamports.toNat < 2 ^ 64 ∧
      ∃ d₁ d₂, L' = ((L.moveLamports source target (L source).lamports).setData
        target d₁).setData source d₂ := by
  unfold merge at h
  split at h
  case h_2 => cases h
  case h_1 =>
    obtain ⟨⟨hne, htarget, hsource, hsigned, -, -, -, -, hfits⟩, rfl⟩ := checked_eq_ok.mp h
    exact ⟨hne, htarget, hsource, hsigned, hfits, _, _, rfl⟩

theorem withdrawable_le {clock : Clock} {state : StakeState} {lamports n : UInt64}
    (h : withdrawable clock state lamports n = true) : n ≤ lamports := by
  simp only [withdrawable, decide_eq_true_eq] at h
  rw [UInt64.le_iff_toNat_le]
  rcases h with ⟨rfl, -⟩ | h
  · exact le_rfl
  · omega

theorem stakeWithdraw_ok {clock : Clock} {stake withdrawer target : Pubkey} {n : UInt64}
    {sigs : List Pubkey} {L L' : Ledger}
    (h : stakeWithdraw clock stake withdrawer target n sigs L = .ok L') :
    (L stake).owner = stakeProgramId ∧ n ≤ (L stake).lamports ∧
      (stake ≠ target → (L target).lamports.toNat + n.toNat < 2 ^ 64) ∧
      ∃ data, L' = (L.moveLamports stake target n).setData stake data := by
  unfold stakeWithdraw at h
  split at h
  case h_2 => cases h
  case h_1 =>
    obtain ⟨⟨howner, -, hn, hfits⟩, rfl⟩ := checked_eq_ok.mp h
    exact ⟨howner, withdrawable_le hn, hfits.resolve_left, _, rfl⟩

theorem lawful : programs.Lawful where
  authority_address _ _ _ := rfl
  stake_address _ _ _ _ := rfl
  transfer_ok h := by
    obtain ⟨⟨hsigned, howner, hn, hfits⟩, rfl⟩ := checked_eq_ok.mp h
    exact ⟨hsigned, howner, hn, hfits.resolve_left, rfl⟩
  createAccount_ok h := by
    obtain ⟨⟨hsource, htarget, howner, hn, hnew, hempty⟩, rfl⟩ := checked_eq_ok.mp h
    exact ⟨hsource, htarget, howner, hn, hnew, hempty, rfl⟩
  burn_ok := burn_ok
  mintTo_ok := mintTo_ok
  tokenTransfer_ok := tokenTransfer_ok
  initializeAccount_ok h := by
    obtain ⟨⟨-, howner, -⟩, rfl⟩ := checked_eq_ok.mp h
    exact ⟨howner, _, rfl, rfl, rfl⟩
  closeAccount_ok := closeAccount_ok
  setAccountOwner_ok := setAccountOwner_ok
  stakeInitialize_ok h := by
    obtain ⟨howner, -, hdata⟩ := writeStake_eq_ok h
    exact ⟨howner, hdata⟩
  delegateStake_ok := delegateStake_ok
  deactivateStake_ok := deactivateStake_ok
  splitOnly_ok := splitOnly_ok
  merge_ok := @fun clock _ _ _ _ _ _ h => merge_ok clock h
  stakeWithdraw_ok := stakeWithdraw_ok

end Tenderize.Reference
