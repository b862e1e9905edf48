import Tenderize.Model.Programs

/-!
# When calls succeed

`Programs.Lawful` says what a successful call has done.  Whether an instruction still
succeeds in another state also depends on when a call succeeds, so the documented
conditions are listed here, one structure for each program.
-/

namespace Tenderize

/-! ## Token program -/

namespace TokenAccount

/-- The authority may take `n` tokens out of the account, as its delegate or its owner. -/
def CanSpend (t : TokenAccount) (authority : Pubkey) (n : UInt64) : Prop :=
  t.state = .initialized ∧ n ≤ t.amount ∧
    if t.delegate = some authority then n ≤ t.delegatedAmount else authority = t.owner

instance (t : TokenAccount) (authority : Pubkey) (n : UInt64) :
    Decidable (t.CanSpend authority n) := by
  unfold CanSpend
  infer_instance

/-- The account after `n` tokens were taken out of it; a delegation that is used up ends. -/
def spent (t : TokenAccount) (authority : Pubkey) (n : UInt64) : TokenAccount :=
  if t.delegate = some authority then
    { t with
      amount := t.amount - n
      delegatedAmount := t.delegatedAmount - n
      delegate := if t.delegatedAmount = n then none else t.delegate }
  else { t with amount := t.amount - n }

@[simp] theorem spent_amount (t : TokenAccount) (authority : Pubkey) (n : UInt64) :
    (t.spent authority n).amount = t.amount - n := by
  unfold spent
  split <;> rfl

@[simp] theorem spent_state (t : TokenAccount) (authority : Pubkey) (n : UInt64) :
    (t.spent authority n).state = t.state := by
  unfold spent
  split <;> rfl

@[simp] theorem spent_mint (t : TokenAccount) (authority : Pubkey) (n : UInt64) :
    (t.spent authority n).mint = t.mint := by
  unfold spent
  split <;> rfl

theorem isNative_eq_none {t : TokenAccount} (h : t.mint ≠ nativeMintId) : t.isNative = none := by
  have hnot : ¬t.isNative.isSome := fun hsome => h (t.native_iff.mp hsome)
  simpa using hnot

end TokenAccount

/-- `n` tokens moved between two accounts, with the lamports behind them when they are
wrapped SOL.  A transfer of an account to itself changes nothing. -/
def Ledger.TokensMove (L : Ledger) (source target : Pubkey) (a b : TokenAccount)
    (authority : Pubkey) (n : UInt64) (L' : Ledger) : Prop :=
  (source = target ∧ L' = L) ∨
    (source ≠ target ∧ b.amount.toNat + n.toNat < 2 ^ 64 ∧
      (a.isNative.isSome → (L target).lamports.toNat + n.toNat < 2 ^ 64 ∧
        n ≤ (L source).lamports) ∧
      L' = ((if a.isNative.isSome then L.moveLamports source target n else L).setData source
        (.tokenAccount (a.spent authority n))).setData target
          (.tokenAccount { b with amount := b.amount + n }))

structure Programs.TokenRules (P : Programs) : Prop where
  tokenTransfer_iff : ∀ {source target authority n sigs L L'},
    P.tokenTransfer splTokenId source target authority n sigs L = .ok L' ↔
      authority ∈ sigs ∧ ∃ a b, L.HasTokenAccount source a ∧ L.HasTokenAccount target b ∧
        a.CanSpend authority n ∧ b.state = .initialized ∧ a.mint = b.mint ∧
        L.TokensMove source target a b authority n L'

namespace Programs.TokenRules

variable {P : Programs} (hP : P.TokenRules) {source target authority : Pubkey} {n : UInt64}
  {sigs : List Pubkey} {L L' : Ledger} {t r : TokenAccount}

include hP

/-- Between two accounts of a mint that does not wrap SOL only tokens move. -/
theorem tokenTransfer_between (ht : L.HasTokenAccount source t) (hr : L.HasTokenAccount target r)
    (hmint : t.mint = r.mint) (hnative : t.mint ≠ nativeMintId) :
    P.tokenTransfer splTokenId source target authority n sigs L = .ok L' ↔
      authority ∈ sigs ∧ t.CanSpend authority n ∧ r.state = .initialized ∧
        ((source = target ∧ L' = L) ∨
          (source ≠ target ∧ r.amount.toNat + n.toNat < 2 ^ 64 ∧
            L' = (L.setData source (.tokenAccount (t.spent authority n))).setData target
              (.tokenAccount { r with amount := r.amount + n }))) := by
  rw [hP.tokenTransfer_iff]
  have hnone := TokenAccount.isNative_eq_none hnative
  constructor
  · rintro ⟨hsigned, t', r', ht', hr', hcan, hstate, -, hmove⟩
    obtain rfl : t' = t := AccountData.tokenAccount.inj (ht'.2.symm.trans ht.2)
    obtain rfl : r' = r := AccountData.tokenAccount.inj (hr'.2.symm.trans hr.2)
    refine ⟨hsigned, hcan, hstate, ?_⟩
    rcases hmove with hself | ⟨hne, hroom, -, heq⟩
    · exact .inl hself
    · rw [hnone] at heq
      exact .inr ⟨hne, hroom, heq⟩
  · rintro ⟨hsigned, hcan, hstate, hmove⟩
    refine ⟨hsigned, t, r, ht, hr, hcan, hstate, hmint, ?_⟩
    rcases hmove with hself | ⟨hne, hroom, rfl⟩
    · exact .inl hself
    · refine .inr ⟨hne, hroom, ?_, ?_⟩
      · rw [hnone]
        exact nofun
      · rw [hnone]
        rfl

end Programs.TokenRules

/-- What the calls around the temp account of a wrapped deposit need to succeed, under the
given rent.  A call reads no other accounts than those it is passed, and accounts of the system
program are taken to carry no data. -/
structure Programs.WrapRules (P : Programs) (rent : Rent) : Prop where
  createAccount_succeeds : ∀ {source target n owner sigs L}, source ∈ sigs →
    target ∈ sigs → (L source).owner = systemProgramId → n ≤ (L source).lamports →
    L target = ⟨0, systemProgramId, .zeroed 0⟩ →
    ∃ L', P.createAccount source target n TokenAccount.LEN owner sigs L = .ok L'
  /-- The native mint needs no account; lamports above the rent are the balance. -/
  initializeAccount_succeeds : ∀ {account owner L}, (L account).owner = splTokenId →
    (L account).data = .zeroed TokenAccount.LEN →
    rent.minimumBalance TokenAccount.LEN ≤ (L account).lamports →
    ∃ t : TokenAccount, t.mint = nativeMintId ∧ t.owner = owner ∧ t.state = .initialized ∧
      t.closeAuthority = none ∧
      t.amount = (L account).lamports - rent.minimumBalance TokenAccount.LEN ∧
      P.initializeAccount splTokenId account nativeMintId owner L =
        .ok (L.setData account (.tokenAccount t))
  /-- A wrapped-SOL account is closed with its balance. -/
  closeAccount_succeeds : ∀ {account target sigs L t}, L.HasTokenAccount account t →
    t.mint = nativeMintId → t.closeAuthority = none → t.owner ∈ sigs → account ≠ target →
    (L target).lamports.toNat + (L account).lamports.toNat < 2 ^ 64 →
    ∃ L', P.closeAccount splTokenId account target t.owner sigs L = .ok L'
  mintTo_local : ∀ {mint account authority n sigs L L₁ L'},
    P.mintTo splTokenId mint account authority n sigs L = .ok L₁ →
    L' account = L account → L' mint = L mint →
    ∃ L₁', P.mintTo splTokenId mint account authority n sigs L' = .ok L₁'

/-! ## System program -/

/-- When a transfer succeeds.  Accounts of the system program are taken to carry no data, as
only their own keys could allocate some. -/
structure Programs.SystemRules (P : Programs) : Prop where
  transfer_succeeds : ∀ {source target n sigs L}, source ∈ sigs →
    (L source).owner = systemProgramId → n ≤ (L source).lamports →
    (source ≠ target → (L target).lamports.toNat + n.toNat < 2 ^ 64) →
    ∃ L', P.transfer source target n sigs L = .ok L'

/-! ## Stake program -/

namespace StakeState

def stakeMeta : StakeState → Option Meta
  | .initialized stakeMeta => some stakeMeta
  | .stake stakeMeta _ => some stakeMeta
  | _ => none

/-- Lamports that stay in the account: its rent and what is delegated. -/
def reserved : StakeState → Nat
  | .initialized stakeMeta => stakeMeta.rentExemptReserve.toNat
  | .stake stakeMeta st => stakeMeta.rentExemptReserve.toNat + st.delegation.stake.toNat
  | _ => 0

/-- The state of a stake account split off one with `parent`. -/
def Inherits (parent : Meta) (state : StakeState) : Prop :=
  ∃ child, state.stakeMeta = some child ∧ child.authorized = parent.authorized ∧
    (0 < parent.rentExemptReserve → 0 < child.rentExemptReserve)

end StakeState

/-- What the stake program keeps in its accounts, and when a withdrawal succeeds. -/
structure Programs.StakeRules (P : Programs) : Prop where
  stakeInitialize_state : ∀ {stake authorized L L'},
    P.stakeInitialize stake authorized L = .ok L' →
      ∃ m : Meta, m.authorized = authorized ∧ 0 < m.rentExemptReserve ∧
        m.rentExemptReserve ≤ (L stake).lamports ∧
        L' = L.setData stake (.stake (.initialized m))
  delegateStake_state : ∀ {clock stake authority vote sigs L L'},
    P.delegateStake clock stake authority vote sigs L = .ok L' →
      ∃ state m st, (L stake).data = .stake state ∧ state.stakeMeta = some m ∧
        (state.reserved ≤ (L stake).lamports.toNat →
          (StakeState.stake m st).reserved ≤ (L stake).lamports.toNat) ∧
        L' = L.setData stake (.stake (.stake m st))
  deactivateStake_state : ∀ {clock stake authority sigs L L'},
    P.deactivateStake clock stake authority sigs L = .ok L' →
      ∃ m st st', (L stake).data = .stake (.stake m st) ∧
        st'.delegation.stake = st.delegation.stake ∧
        L' = L.setData stake (.stake (.stake m st'))
  /-- A source without meta could be split if it signed for itself, which the stake accounts
  of a pool never do. -/
  splitOnly_state : ∀ {source authority n target sigs L L'},
    P.splitOnly source authority n target sigs L = .ok L' →
      ∃ before m s₁ s₂, (L source).data = .stake before ∧ before.stakeMeta = some m ∧
        (before.reserved ≤ (L source).lamports.toNat →
          (s₁.stakeMeta = some m ∧ s₁.reserved + n.toNat ≤ (L source).lamports.toNat) ∨
            (s₁ = .uninitialized ∧ n = (L source).lamports)) ∧
        s₂.Inherits m ∧ s₂.reserved ≤ (L target).lamports.toNat + n.toNat ∧
        L' = ((L.moveLamports source target n).setData source (.stake s₁)).setData target
          (.stake s₂)
  merge_state : ∀ {clock target source authority sigs L L'},
    P.merge clock target source authority sigs L = .ok L' →
      ∃ s₁ s₂ m s, (L target).data = .stake s₁ ∧ (L source).data = .stake s₂ ∧
        s₁.stakeMeta = some m ∧ s.stakeMeta = some m ∧
        (s₁.reserved ≤ (L target).lamports.toNat → s₂.reserved ≤ (L source).lamports.toNat →
          s.reserved ≤ (L target).lamports.toNat + (L source).lamports.toNat) ∧
        L' = ((L.moveLamports source target (L source).lamports).setData target
          (.stake s)).setData source (.stake .uninitialized)
  /-- Only the account itself signs for lamports in an uninitialized account; the state
  stays unless everything is taken. -/
  stakeWithdraw_state : ∀ {clock stake withdrawer target n sigs L L' state},
    P.stakeWithdraw clock stake withdrawer target n sigs L = .ok L' →
      (L stake).data = .stake state →
      (state = .uninitialized → stake ∈ sigs) ∧
        (n ≠ (L stake).lamports → L' = L.moveLamports stake target n)
  /-- The withdraw authority may take what is neither rent nor delegated. -/
  stakeWithdraw_succeeds : ∀ {clock stake target n sigs L state m},
    (L stake).owner = stakeProgramId → (L stake).data = .stake state →
      state.stakeMeta = some m → m.authorized.withdrawer ∈ sigs →
      n.toNat + state.reserved ≤ (L stake).lamports.toNat →
      (stake ≠ target → (L target).lamports.toNat + n.toNat < 2 ^ 64) →
      ∃ L', P.stakeWithdraw clock stake m.authorized.withdrawer target n sigs L = .ok L'

end Tenderize
