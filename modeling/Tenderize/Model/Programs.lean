import Tenderize.Model.Ledger
import Tenderize.Support.Checked

/-!
# The runtime and the programs the processor calls

Address derivation, the system program, the SPL token program and the stake program
live outside the repository.  `Programs` takes them as functions on the ledger, and
`Programs.Lawful` lists the documented behaviour the processor relies on: what a
successful call checked and which accounts it changed.
-/

namespace Tenderize

open Support

/-- One entry of the account list of an instruction.  Lamports, owner and data are
looked up in the ledger by key, so two entries with one key share one account. -/
structure AccountInfo where
  key : Pubkey
  isSigner : Bool
deriving DecidableEq

structure Clock where
  epoch : UInt64
deriving DecidableEq

/-- The rent sysvar, through the one function the processor uses of it. -/
structure Rent where
  minimumBalance : Nat → UInt64

def Rent.isExempt (rent : Rent) (balance : UInt64) (dataLen : Nat) : Bool :=
  rent.minimumBalance dataLen ≤ balance

/-- What an instruction runs on. -/
structure Chain where
  ledger : Ledger
  clock : Clock
  rent : Rent

/-! ## Calls -/

/-- The programs as functions of the ledger before the call.  Token functions take
the program id the caller names first, stake functions the clock sysvar. -/
structure Programs where
  layouts : Layouts
  /-- `Pubkey::create_program_address`. -/
  createProgramAddress : List Seed → Pubkey → Option Pubkey
  /-- `Pubkey::find_program_address`. -/
  findProgramAddress : List Seed → Pubkey → Pubkey × UInt8
  /-- `system_instruction::transfer`: source, target, lamports. -/
  transfer : Pubkey → Pubkey → UInt64 → List Pubkey → Ledger → Except ProgramError Ledger
  /-- `system_instruction::create_account`: payer, new account, lamports, space, owner. -/
  createAccount : Pubkey → Pubkey → UInt64 → Nat → Pubkey → List Pubkey → Ledger →
    Except ProgramError Ledger
  /-- `spl_token::instruction::burn`: account, mint, authority, amount. -/
  burn : Pubkey → Pubkey → Pubkey → Pubkey → UInt64 → List Pubkey → Ledger →
    Except ProgramError Ledger
  /-- `spl_token::instruction::mint_to`: mint, account, authority, amount. -/
  mintTo : Pubkey → Pubkey → Pubkey → Pubkey → UInt64 → List Pubkey → Ledger →
    Except ProgramError Ledger
  /-- `spl_token::instruction::transfer`: source, destination, authority, amount. -/
  tokenTransfer : Pubkey → Pubkey → Pubkey → Pubkey → UInt64 → List Pubkey → Ledger →
    Except ProgramError Ledger
  /-- `spl_token::instruction::initialize_account`: account, mint, owner. -/
  initializeAccount : Pubkey → Pubkey → Pubkey → Pubkey → Ledger → Except ProgramError Ledger
  /-- `spl_token::instruction::close_account`: account, destination, owner. -/
  closeAccount : Pubkey → Pubkey → Pubkey → Pubkey → List Pubkey → Ledger →
    Except ProgramError Ledger
  /-- `spl_token::instruction::set_authority` with `AccountOwner`: account, new owner,
  current owner. -/
  setAccountOwner : Pubkey → Pubkey → Pubkey → Pubkey → List Pubkey → Ledger →
    Except ProgramError Ledger
  /-- `stake::initialize`: stake account, authorities. -/
  stakeInitialize : Pubkey → Authorized → Ledger → Except ProgramError Ledger
  /-- `stake::delegate_stake`: stake account, authority, vote account. -/
  delegateStake : Clock → Pubkey → Pubkey → Pubkey → List Pubkey → Ledger →
    Except ProgramError Ledger
  /-- `stake::deactivate_stake`: stake account, authority. -/
  deactivateStake : Clock → Pubkey → Pubkey → List Pubkey → Ledger → Except ProgramError Ledger
  /-- `stake::split_only`: source, authority, lamports, split account. -/
  splitOnly : Pubkey → Pubkey → UInt64 → Pubkey → List Pubkey → Ledger →
    Except ProgramError Ledger
  /-- `stake::merge`: destination, source, authority. -/
  merge : Clock → Pubkey → Pubkey → Pubkey → List Pubkey → Ledger → Except ProgramError Ledger
  /-- `stake::withdraw`: stake account, withdrawer, target, lamports. -/
  stakeWithdraw : Clock → Pubkey → Pubkey → Pubkey → UInt64 → List Pubkey → Ledger →
    Except ProgramError Ledger

/-- The keys `invoke` passes on as signers. -/
def signers (infos : List AccountInfo) : List Pubkey :=
  (infos.filter (fun info => info.isSigner)).map (fun info => info.key)

/-- The keys `invoke_signed` passes on as signers: those of `invoke` and the program
addresses derived from the seeds. -/
def Programs.signersWith (P : Programs) (programId : Pubkey) (infos : List AccountInfo)
    (seeds : List (List Seed)) : List Pubkey :=
  signers infos ++ seeds.filterMap (fun s => P.createProgramAddress s programId)

/-- An address derived from seeds, for which no private key exists. -/
def Programs.IsProgramAddress (P : Programs) (programId key : Pubkey) : Prop :=
  ∃ seeds, P.createProgramAddress seeds programId = some key

/-! ## Documented behaviour -/

namespace Ledger

/-- The address holds a token account of the SPL token program. -/
def HasTokenAccount (L : Ledger) (key : Pubkey) (account : TokenAccount) : Prop :=
  (L key).owner = splTokenId ∧ (L key).data = .tokenAccount account

/-- The address holds a mint of the SPL token program. -/
def HasMint (L : Ledger) (key : Pubkey) (mint : Mint) : Prop :=
  (L key).owner = splTokenId ∧ (L key).data = .mint mint

end Ledger

/-- `n` tokens left a token account; a delegation may have been used up. -/
structure Spends (before after : TokenAccount) (n : UInt64) : Prop where
  enough : n ≤ before.amount
  amount : after.amount = before.amount - n
  mint : after.mint = before.mint
  owner : after.owner = before.owner
  closeAuthority : after.closeAuthority = before.closeAuthority
  delegate : after.delegate = before.delegate ∨ after.delegate = none

/-- The authority may move tokens out of the account. -/
def TokenAccount.Authorises (account : TokenAccount) (authority : Pubkey) : Prop :=
  authority = account.owner ∨ account.delegate = some authority

/-- What the processor relies on when a call succeeds. -/
structure Programs.Lawful (P : Programs) : Prop where
  /-- A found bump derives the found address. -/
  authority_address : ∀ pool type programId,
    P.createProgramAddress
        [.key pool, .authority type,
          .bump (P.findProgramAddress [.key pool, .authority type] programId).2] programId =
      some (P.findProgramAddress [.key pool, .authority type] programId).1
  stake_address : ∀ validator pool index programId,
    P.createProgramAddress
        [.key validator, .key pool, .index index,
          .bump (P.findProgramAddress [.key validator, .key pool, .index index] programId).2]
        programId =
      some (P.findProgramAddress [.key validator, .key pool, .index index] programId).1
  transfer_ok : ∀ {source target n sigs L L'},
    P.transfer source target n sigs L = .ok L' →
      source ∈ sigs ∧ (L source).owner = systemProgramId ∧
      n ≤ (L source).lamports ∧
      (source ≠ target → (L target).lamports.toNat + n.toNat < 2 ^ 64) ∧
      L' = L.moveLamports source target n
  createAccount_ok : ∀ {source target n space owner sigs L L'},
    P.createAccount source target n space owner sigs L = .ok L' →
      source ∈ sigs ∧ target ∈ sigs ∧
      (L source).owner = systemProgramId ∧ n ≤ (L source).lamports ∧
      (L target).owner = systemProgramId ∧ (L target).lamports = 0 ∧
      L' = (L.moveLamports source target n).assign target owner space
  burn_ok : ∀ {account mint authority n sigs L L'},
    P.burn splTokenId account mint authority n sigs L = .ok L' →
      ∃ t t' m, L.HasTokenAccount account t ∧ L.HasMint mint m ∧
        t.mint = mint ∧ authority ∈ sigs ∧ t.Authorises authority ∧
        Spends t t' n ∧ n ≤ m.supply ∧
        L' = (L.setData account (.tokenAccount t')).setData mint
          (.mint { m with supply := m.supply - n })
  mintTo_ok : ∀ {mint account authority n sigs L L'},
    P.mintTo splTokenId mint account authority n sigs L = .ok L' →
      ∃ t m, L.HasTokenAccount account t ∧ L.HasMint mint m ∧
        t.mint = mint ∧ authority ∈ sigs ∧ m.mintAuthority = some authority ∧
        t.amount.toNat + n.toNat < 2 ^ 64 ∧ m.supply.toNat + n.toNat < 2 ^ 64 ∧
        L' = (L.setData account (.tokenAccount { t with amount := t.amount + n })).setData
          mint (.mint { m with supply := m.supply + n })
  tokenTransfer_ok : ∀ {source target authority n sigs L L'},
    P.tokenTransfer splTokenId source target authority n sigs L = .ok L' →
      ∃ a b, L.HasTokenAccount source a ∧ L.HasTokenAccount target b ∧
        a.mint = b.mint ∧ authority ∈ sigs ∧ a.Authorises authority ∧ n ≤ a.amount ∧
        ((source = target ∧ L' = L) ∨
          (source ≠ target ∧ b.amount.toNat + n.toNat < 2 ^ 64 ∧
            (a.isNative.isSome → (L target).lamports.toNat + n.toNat < 2 ^ 64 ∧
              n ≤ (L source).lamports) ∧
            ∃ a', Spends a a' n ∧
              L' = ((if a.isNative.isSome then L.moveLamports source target n
                else L).setData source (.tokenAccount a')).setData target
                  (.tokenAccount { b with amount := b.amount + n })))
  initializeAccount_ok : ∀ {account mint owner L L'},
    P.initializeAccount splTokenId account mint owner L = .ok L' →
      (L account).owner = splTokenId ∧
      ∃ t, t.mint = mint ∧ t.owner = owner ∧ L' = L.setData account (.tokenAccount t)
  closeAccount_ok : ∀ {account target authority sigs L L'},
    P.closeAccount splTokenId account target authority sigs L = .ok L' →
      account ≠ target ∧ authority ∈ sigs ∧
      (L target).lamports.toNat + (L account).lamports.toNat < 2 ^ 64 ∧
      ∃ t, L.HasTokenAccount account t ∧ authority = t.closeAuthority.getD t.owner ∧
        L' = (L.moveLamports account target (L account).lamports).setData account
          (.tokenAccount { t with amount := 0 })
  setAccountOwner_ok : ∀ {account newOwner authority sigs L L'},
    P.setAccountOwner splTokenId account newOwner authority sigs L = .ok L' →
      ∃ t t', L.HasTokenAccount account t ∧ authority ∈ sigs ∧ t.owner = authority ∧
        t'.mint = t.mint ∧ t'.amount = t.amount ∧ t'.owner = newOwner ∧
        t'.delegate = none ∧
        (t'.closeAuthority = t.closeAuthority ∨ t'.closeAuthority = none) ∧
        L' = L.setData account (.tokenAccount t')
  stakeInitialize_ok : ∀ {stake authorized L L'},
    P.stakeInitialize stake authorized L = .ok L' →
      (L stake).owner = stakeProgramId ∧ ∃ data, L' = L.setData stake data
  delegateStake_ok : ∀ {clock stake authority vote sigs L L'},
    P.delegateStake clock stake authority vote sigs L = .ok L' →
      (L stake).owner = stakeProgramId ∧ authority ∈ sigs ∧ ∃ data, L' = L.setData stake data
  deactivateStake_ok : ∀ {clock stake authority sigs L L'},
    P.deactivateStake clock stake authority sigs L = .ok L' →
      (L stake).owner = stakeProgramId ∧ authority ∈ sigs ∧ ∃ data, L' = L.setData stake data
  splitOnly_ok : ∀ {source authority n target sigs L L'},
    P.splitOnly source authority n target sigs L = .ok L' →
      source ≠ target ∧ (L source).owner = stakeProgramId ∧
      (L target).owner = stakeProgramId ∧ authority ∈ sigs ∧ n ≤ (L source).lamports ∧
      (L target).lamports.toNat + n.toNat < 2 ^ 64 ∧
      ∃ d₁ d₂, L' = ((L.moveLamports source target n).setData source d₁).setData target d₂
  merge_ok : ∀ {clock target source authority sigs L L'},
    P.merge clock target source authority sigs L = .ok L' →
      source ≠ target ∧ (L target).owner = stakeProgramId ∧
      (L source).owner = stakeProgramId ∧ authority ∈ sigs ∧
      (L target).lamports.toNat + (L source).lamports.toNat < 2 ^ 64 ∧
      ∃ d₁ d₂, L' = ((L.moveLamports source target (L source).lamports).setData
        target d₁).setData source d₂
  stakeWithdraw_ok : ∀ {clock stake withdrawer target n sigs L L'},
    P.stakeWithdraw clock stake withdrawer target n sigs L = .ok L' →
      (L stake).owner = stakeProgramId ∧ n ≤ (L stake).lamports ∧
      (stake ≠ target → (L target).lamports.toNat + n.toNat < 2 ^ 64) ∧
      ∃ data, L' = (L.moveLamports stake target n).setData stake data

end Tenderize
