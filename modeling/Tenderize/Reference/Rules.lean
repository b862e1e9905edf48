import Tenderize.Reference.Programs
import Tenderize.Model.Rules

/-!
# The reference programs follow the rules
-/

namespace Tenderize.Reference

open Support

theorem spend_eq {t t' : TokenAccount} {authority : Pubkey} {n : UInt64} :
    spend t authority n = some t' ↔ t.CanSpend authority n ∧ t.spent authority n = t' := by
  unfold spend TokenAccount.CanSpend TokenAccount.spent
  by_cases hstate : t.state = .initialized ∧ n ≤ t.amount
  · by_cases hdelegate : t.delegate = some authority
    · simp [hstate, hdelegate]
    · simp [hstate, hdelegate]
  · rw [if_neg hstate]
    simp only [reduceCtorEq, false_iff]
    tauto

theorem tokenTransfer_iff {source target authority : Pubkey} {n : UInt64} {sigs : List Pubkey}
    {L L' : Ledger} :
    tokenTransfer splTokenId source target authority n sigs L = .ok L' ↔
      authority ∈ sigs ∧ ∃ a b, L.HasTokenAccount source a ∧ L.HasTokenAccount target b ∧
        a.CanSpend authority n ∧ b.state = .initialized ∧ a.mint = b.mint ∧
        L.TokensMove source target a b authority n L' := by
  constructor
  · intro h
    unfold tokenTransfer at h
    split at h
    case h_2 => cases h
    case h_1 a b ha hb =>
      split at h
      case h_2 => cases h
      case h_1 a' hspend =>
        obtain ⟨hcan, rfl⟩ := spend_eq.mp hspend
        split at h
        case isTrue hself =>
          subst hself
          obtain ⟨⟨-, howner, hsigned⟩, rfl⟩ := checked_eq_ok.mp h
          obtain rfl := AccountData.tokenAccount.inj (ha.symm.trans hb)
          exact ⟨hsigned, a, a, ⟨howner, ha⟩, ⟨howner, ha⟩, hcan, hcan.1, rfl, .inl ⟨rfl, rfl⟩⟩
        case isFalse hne =>
          obtain ⟨⟨-, hsource, htarget, hstate, hmint, hsigned, hamount, hnative⟩, rfl⟩ :=
            checked_eq_ok.mp h
          exact ⟨hsigned, a, b, ⟨hsource, ha⟩, ⟨htarget, hb⟩, hcan, hstate, hmint,
            .inr ⟨hne, hamount, hnative, rfl⟩⟩
  · rintro ⟨hsigned, a, b, ⟨hsource, ha⟩, ⟨htarget, hb⟩, hcan, hstate, hmint, hmove⟩
    have hspend := spend_eq.mpr ⟨hcan, rfl⟩
    unfold tokenTransfer
    rcases hmove with ⟨rfl, rfl⟩ | ⟨hne, hamount, hnative, rfl⟩
    · simp [ha, hspend, hsource, hsigned]
    · simp only [ha, hb, hspend, hne, if_false]
      exact checked_eq_ok.mpr
        ⟨⟨trivial, hsource, htarget, hstate, hmint, hsigned, hamount, hnative⟩, rfl⟩

theorem tokenRules : programs.TokenRules where
  tokenTransfer_iff := tokenTransfer_iff

theorem wrapRules {rent : Rent} (hrent : rent.minimumBalance TokenAccount.LEN = tokenRent) :
    programs.WrapRules rent where
  createAccount_succeeds := by
    intro source target n owner sigs L hsource htarget howner hn hempty
    refine ⟨_, checked_eq_ok.mpr ⟨⟨hsource, htarget, howner, hn, ?_, ?_⟩, rfl⟩⟩
    · rw [hempty]
    · rw [hempty]
  initializeAccount_succeeds := by
    intro account owner L howner hdata _
    refine ⟨_, rfl, rfl, rfl, rfl, ?_, checked_eq_ok.mpr ⟨⟨rfl, howner, hdata⟩, rfl⟩⟩
    simp [hrent]
  closeAccount_succeeds := by
    intro account target sigs L t ht hmint hclose hsigned hne hfits
    refine ⟨(L.moveLamports account target (L account).lamports).setData account
      (.tokenAccount { t with amount := 0 }), ?_⟩
    change closeAccount splTokenId account target t.owner sigs L = _
    unfold closeAccount
    rw [ht.2]
    refine checked_eq_ok.mpr ⟨⟨rfl, ht.1, hne, hsigned, ?_, .inl (t.native_iff.mpr hmint), hfits⟩,
      rfl⟩
    rw [hclose]
    rfl
  mintTo_local := by
    intro mint account authority n sigs L L₁ L' h haccount hmint
    obtain ⟨t, m, ht, hm, htmint, hsigned, hauthority, hamount, hsupply, -⟩ := mintTo_ok h
    refine ⟨(L'.setData account (.tokenAccount { t with amount := t.amount + n })).setData mint
      (.mint { m with supply := m.supply + n }), ?_⟩
    change mintTo splTokenId mint account authority n sigs L' = _
    unfold mintTo
    rw [haccount, hmint, ht.2, hm.2]
    exact checked_eq_ok.mpr
      ⟨⟨rfl, ht.1, hm.1, htmint, hsigned, hauthority, hamount, hsupply⟩, rfl⟩

theorem systemRules : programs.SystemRules where
  transfer_succeeds := by
    intro source target n sigs L hsigned howner hn hfits
    refine ⟨_, checked_eq_ok.mpr ⟨⟨hsigned, howner, hn, ?_⟩, rfl⟩⟩
    by_cases hself : source = target
    · exact .inl hself
    · exact .inr (hfits hself)

/-! ## Stake program -/

section Stake

variable {clock : Clock} {stake source target authority vote withdrawer : Pubkey} {n : UInt64}
  {sigs : List Pubkey} {L L' : Ledger}

theorem delegation_reserved (clock : Clock) (vote : Pubkey) (m : Meta) (lamports : UInt64)
    (credits : UInt64) (h : m.rentExemptReserve.toNat ≤ lamports.toNat) :
    (StakeState.stake m ⟨delegation clock vote m lamports, credits⟩).reserved ≤
      lamports.toNat := by
  have hle := UInt64.le_iff_toNat_le.mpr h
  have hsub := UInt64.toNat_sub_of_le _ _ hle
  simp only [StakeState.reserved, delegation, if_pos hle]
  omega

theorem delegateStake_state (h : delegateStake clock stake authority vote sigs L = .ok L') :
    ∃ state m st, (L stake).data = .stake state ∧ state.stakeMeta = some m ∧
      (state.reserved ≤ (L stake).lamports.toNat →
        (StakeState.stake m st).reserved ≤ (L stake).lamports.toNat) ∧
      L' = L.setData stake (.stake (.stake m st)) := by
  unfold delegateStake at h
  split at h
  case h_1 m hdata =>
    obtain ⟨-, rfl⟩ := checked_eq_ok.mp h
    exact ⟨_, m, _, hdata, rfl, delegation_reserved clock vote m _ _, rfl⟩
  case h_2 m old hdata =>
    obtain ⟨-, rfl⟩ := checked_eq_ok.mp h
    refine ⟨_, m, _, hdata, rfl, fun hbacked => ?_, rfl⟩
    simp only [StakeState.reserved] at hbacked
    exact delegation_reserved clock vote m _ _ (by omega)
  case h_3 => cases h

theorem deactivateStake_state (h : deactivateStake clock stake authority sigs L = .ok L') :
    ∃ m st st', (L stake).data = .stake (.stake m st) ∧
      st'.delegation.stake = st.delegation.stake ∧
      L' = L.setData stake (.stake (.stake m st')) := by
  unfold deactivateStake at h
  split at h
  case h_1 m old hdata =>
    obtain ⟨-, rfl⟩ := checked_eq_ok.mp h
    refine ⟨m, old, _, hdata, ?_, rfl⟩
    rfl
  case h_2 => cases h

theorem missingRent_le {m : Meta} {lamports n : UInt64} (h : missingRent m lamports < n) :
    m.rentExemptReserve.toNat + (n - missingRent m lamports).toNat ≤
      lamports.toNat + n.toNat := by
  have hlt := UInt64.lt_iff_toNat_lt.mp h
  have hsub := UInt64.toNat_sub_of_le n (missingRent m lamports) (UInt64.le_of_lt h)
  unfold missingRent at hlt hsub ⊢
  split at hlt
  case isTrue hshort =>
    have hrest := UInt64.toNat_sub_of_le _ _ (UInt64.le_of_lt hshort)
    have hshort' := UInt64.lt_iff_toNat_lt.mp hshort
    rw [if_pos hshort] at hsub ⊢
    omega
  case isFalse henough =>
    have henough' := UInt64.le_iff_toNat_le.mp (UInt64.not_lt.mp henough)
    rw [if_neg henough] at hsub ⊢
    omega

theorem splitOnly_state (h : splitOnly source authority n target sigs L = .ok L') :
    ∃ before m s₁ s₂, (L source).data = .stake before ∧ before.stakeMeta = some m ∧
      (before.reserved ≤ (L source).lamports.toNat →
        (s₁.stakeMeta = some m ∧ s₁.reserved + n.toNat ≤ (L source).lamports.toNat) ∨
          (s₁ = .uninitialized ∧ n = (L source).lamports)) ∧
      s₂.Inherits m ∧ s₂.reserved ≤ (L target).lamports.toNat + n.toNat ∧
      L' = ((L.moveLamports source target n).setData source (.stake s₁)).setData target
        (.stake s₂) := by
  unfold splitOnly at h
  split at h
  case h_2 => cases h
  case h_1 m old hdata =>
    obtain ⟨⟨-, -, -, -, -, -, hmissing, -, hstake, -⟩, rfl⟩ := checked_eq_ok.mp h
    refine ⟨_, m, _, _, hdata, rfl, fun hbacked => .inl ⟨rfl, ?_⟩, ⟨m, rfl, rfl, id⟩, ?_,
      rfl⟩
    case refine_2 => exact missingRent_le hmissing
    have hsub := UInt64.toNat_sub_of_le _ _ hstake
    have hle := UInt64.le_iff_toNat_le.mp hstake
    simp only [StakeState.reserved] at hbacked ⊢
    omega

theorem merge_state (clock : Clock) (h : merge clock target source authority sigs L = .ok L') :
    ∃ s₁ s₂ m s, (L target).data = .stake s₁ ∧ (L source).data = .stake s₂ ∧
      s₁.stakeMeta = some m ∧ s.stakeMeta = some m ∧
      (s₁.reserved ≤ (L target).lamports.toNat → s₂.reserved ≤ (L source).lamports.toNat →
        s.reserved ≤ (L target).lamports.toNat + (L source).lamports.toNat) ∧
      L' = ((L.moveLamports source target (L source).lamports).setData target
        (.stake s)).setData source (.stake .uninitialized) := by
  unfold merge at h
  split at h
  case h_2 => cases h
  case h_1 m main m' additional hmain hadditional =>
    obtain ⟨⟨-, -, -, -, -, -, -, -, hfits⟩, rfl⟩ := checked_eq_ok.mp h
    refine ⟨_, _, m, _, hmain, hadditional, rfl, rfl, ?_, rfl⟩
    intro hbacked hbacked'
    simp only [StakeState.reserved] at hbacked hbacked' ⊢
    have hfirst : (main.delegation.stake + additional.delegation.stake).toNat =
        main.delegation.stake.toNat + additional.delegation.stake.toNat :=
      toNat_add_of_lt (by omega)
    have hsum : (main.delegation.stake + additional.delegation.stake +
        m'.rentExemptReserve).toNat =
        main.delegation.stake.toNat + additional.delegation.stake.toNat +
          m'.rentExemptReserve.toNat := by
      rw [toNat_add_of_lt (by omega), hfirst]
    omega

theorem stakeWithdraw_state {state : StakeState}
    (h : stakeWithdraw clock stake withdrawer target n sigs L = .ok L')
    (hdata : (L stake).data = .stake state) :
    (state = .uninitialized → stake ∈ sigs) ∧
      (n ≠ (L stake).lamports → L' = L.moveLamports stake target n) := by
  unfold stakeWithdraw at h
  rw [hdata] at h
  obtain ⟨⟨-, hmay, -, -⟩, rfl⟩ := checked_eq_ok.mp h
  constructor
  · rintro rfl
    simpa [mayWithdraw] using hmay
  · intro hn
    rw [if_neg hn, ← hdata, ← L.moveLamports_data stake target stake n]
    exact Ledger.setData_self _ _

theorem stakeWithdraw_succeeds {state : StakeState} {m : Meta}
    (howner : (L stake).owner = stakeProgramId) (hdata : (L stake).data = .stake state)
    (hmeta : state.stakeMeta = some m) (hsigned : m.authorized.withdrawer ∈ sigs)
    (hfree : n.toNat + state.reserved ≤ (L stake).lamports.toNat)
    (hfits : stake ≠ target → (L target).lamports.toNat + n.toNat < 2 ^ 64) :
    ∃ L', stakeWithdraw clock stake m.authorized.withdrawer target n sigs L = .ok L' := by
  unfold stakeWithdraw
  rw [hdata]
  have hmay : mayWithdraw stake m.authorized.withdrawer sigs state = true := by
    cases state with
    | initialized m' =>
        obtain rfl := Option.some.inj hmeta
        simp [mayWithdraw, hsigned]
    | stake m' st =>
        obtain rfl := Option.some.inj hmeta
        simp [mayWithdraw, hsigned]
    | _ => cases hmeta
  have hable : withdrawable clock state (L stake).lamports n = true := by
    simp only [withdrawable, decide_eq_true_eq]
    right
    cases state with
    | initialized m' =>
        simp only [StakeState.reserved, rentReserve, stakedLamports] at hfree ⊢
        simpa using hfree
    | stake m' st =>
        simp only [StakeState.reserved, rentReserve, stakedLamports] at hfree ⊢
        split
        · rw [UInt64.toNat_zero]
          omega
        · omega
    | _ => cases hmeta
  refine ⟨_, checked_eq_ok.mpr ⟨⟨howner, hmay, hable, ?_⟩, rfl⟩⟩
  by_cases hself : stake = target
  · exact .inl hself
  · exact .inr (hfits hself)

end Stake

theorem stakeRules : programs.StakeRules where
  stakeInitialize_state h := by
    obtain ⟨⟨-, -, hrent⟩, rfl⟩ := checked_eq_ok.mp h
    exact ⟨_, rfl, (by decide : 0 < stakeRent), hrent, rfl⟩
  delegateStake_state := delegateStake_state
  deactivateStake_state := deactivateStake_state
  splitOnly_state := splitOnly_state
  merge_state := @fun clock _ _ _ _ _ _ h => merge_state clock h
  stakeWithdraw_state := stakeWithdraw_state
  stakeWithdraw_succeeds := stakeWithdraw_succeeds

end Tenderize.Reference
