import Tenderize.Spec.Held
import Tenderize.Model.Rules

/-!
# The accounts at the stake addresses

A stake address of the pool was not opened yet, or it holds a stake account that the
pool can withdraw from and that covers its rent and its delegation, or what is left of a
stake account that was merged into another one.  Calls of the stake program turn one of
these into another; every other call spares the accounts at stake addresses.
-/

namespace Tenderize

open Support

namespace Deployment

variable (D : Deployment)

/-- A stake account with the pool as its withdraw authority. -/
structure LiveStake (state : StakeState) (m : Meta) (x : Account) : Prop where
  owner : x.owner = stakeProgramId
  data : x.data = .stake state
  stakeMeta : state.stakeMeta = some m
  withdrawer : m.authorized.withdrawer = D.withdrawKey
  rent : 0 < m.rentExemptReserve
  covered : state.reserved ≤ x.lamports.toNat

/-- What a stake address may hold.  With `quiet`, nobody sent lamports to an account
after it was merged away. -/
inductive SoundStake (quiet : Prop) (x : Account) : Prop
  | closed : x.owner = systemProgramId → SoundStake quiet x
  | merged : x.owner = stakeProgramId → x.data = .stake .uninitialized →
      (quiet → x.lamports = 0) → SoundStake quiet x
  | live (state : StakeState) (m : Meta) : D.LiveStake state m x → SoundStake quiet x

/-- The accounts at all stake addresses of the validators in `W`. -/
def SoundStakes (quiet : Prop) (W : Set Pubkey) (L : Ledger) : Prop :=
  ∀ v ∈ W, ∀ i, D.SoundStake quiet (L (D.stakeKey v i))

/-- The stake addresses are also different from the authorities of the pool. -/
structure Separate (W : Set Pubkey) : Prop extends D.NoCollision W where
  ne_authority : ∀ v ∈ W, ∀ i type,
    D.stakeKey v i ≠ (findAuthorityBumpSeed D.programs D.programId D.poolKey type).1

end Deployment

/-- The account keeps its owner, and a stake account loses nothing. -/
structure Account.Spared (quiet : Prop) (x x' : Account) : Prop where
  owner : x'.owner = x.owner
  data : x.owner = stakeProgramId → x'.data = x.data
  lamports : x.owner = stakeProgramId → x.lamports ≤ x'.lamports
  quiet : quiet → x.owner = stakeProgramId → x.lamports = 0 → x'.lamports = 0

/-- What other programs do to a stake account of the pool: they send it lamports, it earns
rewards, or the runtime collects it when it is empty. -/
inductive Account.Tended (quiet : Prop) (x x' : Account) : Prop
  | spared : x.Spared quiet x' → Tended quiet x x'
  | rewarded (m : Meta) (st st' : Stake) (n : UInt64) : x.owner = stakeProgramId →
      x.data = .stake (.stake m st) → x.lamports ≠ 0 → x.lamports.toNat + n.toNat < 2 ^ 64 →
      st'.delegation.stake = st.delegation.stake + n →
      x' = ⟨x.lamports + n, x.owner, .stake (.stake m st')⟩ → Tended quiet x x'
  | collected : x.lamports = 0 → x'.owner = systemProgramId → Tended quiet x x'

variable {D : Deployment} {quiet : Prop} {W : Set Pubkey} {L L' : Ledger} {x x' x'' : Account}

namespace Account.Spared

theorem of_eq (h : x' = x) : x.Spared quiet x' := by
  subst h
  exact ⟨rfl, fun _ => rfl, fun _ => UInt64.le_refl _, fun _ _ hzero => hzero⟩

theorem trans (h : x.Spared quiet x') (h' : x'.Spared quiet x'') : x.Spared quiet x'' where
  owner := h'.owner.trans h.owner
  data howner := (h'.data (h.owner.trans howner)).trans (h.data howner)
  lamports howner := UInt64.le_trans (h.lamports howner) (h'.lamports (h.owner.trans howner))
  quiet hq howner hzero := h'.quiet hq (h.owner.trans howner) (h.quiet hq howner hzero)

theorem imp {quiet' : Prop} (himp : quiet' → quiet) (h : x.Spared quiet x') :
    x.Spared quiet' x' :=
  ⟨h.owner, h.data, h.lamports, fun hq => h.quiet (himp hq)⟩

end Account.Spared

theorem Account.Tended.imp {quiet' : Prop} (himp : quiet' → quiet) (h : x.Tended quiet x') :
    x.Tended quiet' x' := by
  cases h with
  | spared hspared => exact .spared (hspared.imp himp)
  | rewarded m st st' n howner hdata hne hroom hstake heq =>
      exact .rewarded m st st' n howner hdata hne hroom hstake heq
  | collected hempty howner => exact .collected hempty howner

namespace Deployment

namespace LiveStake

variable {state : StakeState} {m : Meta}

theorem reserved_pos (h : D.LiveStake state m x) : 0 < state.reserved := by
  have hrent : 0 < m.rentExemptReserve.toNat := UInt64.lt_iff_toNat_lt.mp h.rent
  have hmeta := h.stakeMeta
  cases state with
  | uninitialized => cases hmeta
  | initialized stakeMeta =>
      obtain rfl := Option.some.inj hmeta
      exact hrent
  | stake stakeMeta stake =>
      obtain rfl := Option.some.inj hmeta
      exact Nat.add_pos_left hrent _
  | rewardsPool => cases hmeta

theorem lamports_ne_zero (h : D.LiveStake state m x) : x.lamports ≠ 0 := by
  intro hzero
  have hcovered := h.covered
  rw [hzero] at hcovered
  exact absurd h.reserved_pos (Nat.not_lt.mpr hcovered)

end LiveStake

namespace SoundStake

theorem owner (h : D.SoundStake quiet x) :
    x.owner = systemProgramId ∨ x.owner = stakeProgramId := by
  cases h with
  | closed howner => exact .inl howner
  | merged howner _ _ => exact .inr howner
  | live _ _ hlive => exact .inr hlive.owner

theorem owner_ne_token (h : D.SoundStake quiet x) : x.owner ≠ splTokenId := by
  rcases h.owner with howner | howner
  · rw [howner]
    exact splTokenId_ne_system.symm
  · rw [howner]
    exact splTokenId_ne_stake.symm

theorem owner_ne_program (h : D.SoundStake quiet x) : x.owner ≠ D.programId := by
  rcases h.owner with howner | howner
  · rw [howner]
    exact D.ne_system.symm
  · rw [howner]
    exact D.ne_stake.symm

theorem imp {quiet' : Prop} (himp : quiet' → quiet) (h : D.SoundStake quiet x) :
    D.SoundStake quiet' x := by
  cases h with
  | closed howner => exact .closed howner
  | merged howner hdata hzero => exact .merged howner hdata (fun hq => hzero (himp hq))
  | live state m hlive => exact .live state m hlive

/-- A stake account with a meta is live. -/
theorem of_meta {state : StakeState} {m : Meta} (h : D.SoundStake quiet x)
    (howner : x.owner = stakeProgramId) (hdata : x.data = .stake state)
    (hmeta : state.stakeMeta = some m) : D.LiveStake state m x := by
  cases h with
  | closed hsystem => exact absurd (howner.symm.trans hsystem) stakeProgramId_ne_system
  | merged _ hempty _ =>
      obtain rfl := AccountData.stake.inj (hdata.symm.trans hempty)
      cases hmeta
  | live state' m' hlive =>
      obtain rfl := AccountData.stake.inj (hdata.symm.trans hlive.data)
      obtain rfl := Option.some.inj (hmeta.symm.trans hlive.stakeMeta)
      exact hlive

/-- Whatever spares the account keeps it sound. -/
theorem spared (h : D.SoundStake quiet x) (hx : x.Spared quiet x') : D.SoundStake quiet x' := by
  cases h with
  | closed howner => exact .closed (hx.owner.trans howner)
  | merged howner hdata hzero =>
      refine .merged (hx.owner.trans howner) ((hx.data howner).trans hdata) ?_
      exact fun hq => hx.quiet hq howner (hzero hq)
  | live state m hlive =>
      refine .live state m
        { owner := hx.owner.trans hlive.owner
          data := (hx.data hlive.owner).trans hlive.data
          stakeMeta := hlive.stakeMeta
          withdrawer := hlive.withdrawer
          rent := hlive.rent
          covered := hlive.covered.trans ?_ }
      exact UInt64.le_iff_toNat_le.mp (hx.lamports hlive.owner)

theorem tended (h : D.SoundStake quiet x) (hx : x.Tended quiet x') : D.SoundStake quiet x' := by
  cases hx with
  | spared hspared => exact h.spared hspared
  | rewarded m st st' n howner hdata _ hfits hstake hx' =>
      have hlive := h.of_meta howner hdata rfl
      subst hx'
      refine .live (.stake m st') m
        ⟨howner, rfl, rfl, hlive.withdrawer, hlive.rent, ?_⟩
      have hcovered : m.rentExemptReserve.toNat + st.delegation.stake.toNat ≤ x.lamports.toNat :=
        hlive.covered
      change m.rentExemptReserve.toNat + st'.delegation.stake.toNat ≤ (x.lamports + n).toNat
      rw [hstake, toNat_add_of_lt hfits, toNat_add_of_lt (by omega)]
      omega
  | collected _ howner => exact .closed howner

end SoundStake

end Deployment

/-! ## Calls that spare an account -/

section Spared

variable {k : Pubkey}

theorem store_of_owner {programId key : Pubkey}
    {write : AccountData → Except ProgramError AccountData} (hk : (L k).owner ≠ programId)
    (h : store programId key write L = .ok L') : L' k = L k := by
  obtain ⟨data, -, hwrites, rfl⟩ := store_eq_ok.mp h
  by_cases hkey : k = key
  · subst hkey
    rcases hwrites with howner | rfl
    · exact absurd howner hk
    · rw [L.setData_self]
  · exact L.setData_of_ne data hkey

/-- Nobody pays out of the account, and with `quiet` nobody pays into an empty stake. -/
theorem transfer_spares {source target : Pubkey} {n : UInt64} {sigs : List Pubkey}
    (hsource : k ≠ source)
    (htarget : quiet → k = target → (L k).owner = stakeProgramId → (L k).lamports ≠ 0)
    (h : D.programs.transfer source target n sigs L = .ok L') : (L k).Spared quiet (L' k) := by
  obtain ⟨-, -, -, hfits, rfl⟩ := D.lawful.transfer_ok h
  by_cases hk : k = target
  · subst hk
    rw [L.moveLamports_target n hsource.symm]
    refine ⟨rfl, fun _ => rfl, fun _ => ?_, fun hq howner hzero =>
      absurd hzero (htarget hq rfl howner)⟩
    rw [UInt64.le_iff_toNat_le]
    change _ ≤ ((L k).lamports + n).toNat
    rw [toNat_add_of_lt (hfits hsource.symm)]
    omega
  · exact .of_eq (L.moveLamports_of_ne n hsource hk)

end Spared

/-! ## Calls of the stake program -/

namespace Deployment

variable (hS : D.programs.StakeRules) {clock : Clock} {stake source target authority vote : Pubkey}
  {n : UInt64} {sigs : List Pubkey}

include hS

theorem stakeInitialize_live {staker : Pubkey}
    (h : D.programs.stakeInitialize stake ⟨staker, D.withdrawKey⟩ L = .ok L') :
    (∃ state m, D.LiveStake state m (L' stake)) ∧ ∀ k, k ≠ stake → L' k = L k := by
  obtain ⟨howner, -⟩ := D.lawful.stakeInitialize_ok h
  obtain ⟨m, hauthorized, hrent, hcovered, rfl⟩ := hS.stakeInitialize_state h
  refine ⟨⟨.initialized m, m, ?_⟩, fun k hk => L.setData_of_ne _ hk⟩
  refine
    { owner := by rw [L.setData_owner, howner]
      data := L.setData_data_same stake _
      stakeMeta := rfl
      withdrawer := by rw [hauthorized]
      rent := hrent
      covered := ?_ }
  rw [L.setData_lamports]
  exact UInt64.le_iff_toNat_le.mp hcovered

theorem delegateStake_live (hsound : D.SoundStake False (L stake))
    (h : D.programs.delegateStake clock stake authority vote sigs L = .ok L') :
    (∃ state m, D.LiveStake state m (L' stake)) ∧ ∀ k, k ≠ stake → L' k = L k := by
  obtain ⟨howner, -, -⟩ := D.lawful.delegateStake_ok h
  obtain ⟨state, m, st, hdata, hmeta, hcovered, rfl⟩ := hS.delegateStake_state h
  have hlive := hsound.of_meta howner hdata hmeta
  refine ⟨⟨.stake m st, m, ?_⟩, fun k hk => L.setData_of_ne _ hk⟩
  refine
    { owner := by rw [L.setData_owner, howner]
      data := L.setData_data_same stake _
      stakeMeta := rfl
      withdrawer := hlive.withdrawer
      rent := hlive.rent
      covered := ?_ }
  rw [L.setData_lamports]
  exact hcovered hlive.covered

theorem deactivateStake_live (hsound : D.SoundStake False (L stake))
    (h : D.programs.deactivateStake clock stake authority sigs L = .ok L') :
    (∃ state m, D.LiveStake state m (L' stake)) ∧ ∀ k, k ≠ stake → L' k = L k := by
  obtain ⟨howner, -, -⟩ := D.lawful.deactivateStake_ok h
  obtain ⟨m, st, st', hdata, hamount, rfl⟩ := hS.deactivateStake_state h
  have hlive := hsound.of_meta howner hdata rfl
  refine ⟨⟨.stake m st', m, ?_⟩, fun k hk => L.setData_of_ne _ hk⟩
  refine
    { owner := by rw [L.setData_owner, howner]
      data := L.setData_data_same stake _
      stakeMeta := rfl
      withdrawer := hlive.withdrawer
      rent := hlive.rent
      covered := ?_ }
  rw [L.setData_lamports]
  change m.rentExemptReserve.toNat + st'.delegation.stake.toNat ≤ _
  rw [hamount]
  exact hlive.covered

/-- The source of a split stays live unless everything was split off. -/
theorem splitOnly_sound (hsound : D.SoundStake False (L source))
    (h : D.programs.splitOnly source authority n target sigs L = .ok L') :
    D.SoundStake quiet (L' source) ∧ (∃ state m, D.LiveStake state m (L' target)) ∧
      ∀ k, k ≠ source → k ≠ target → L' k = L k := by
  obtain ⟨hne, howner, htarget, -, hn, hfits, -⟩ := D.lawful.splitOnly_ok h
  obtain ⟨before, m, s₁, s₂, hdata, hmeta, hleft, ⟨child, hchild, hinherits, hrent⟩, hcovered,
    rfl⟩ :=
    hS.splitOnly_state h
  have hlive := hsound.of_meta howner hdata hmeta
  have hsource : ∀ d₁ d₂, ((((L.moveLamports source target n).setData source d₁).setData target
      d₂) source) = ⟨(L source).lamports - n, (L source).owner, d₁⟩ := by
    intro d₁ d₂
    rw [Ledger.setData_of_ne _ _ hne, Ledger.setData, Ledger.set_same,
      L.moveLamports_source n hne]
  have htarget' : ∀ d₁ d₂, ((((L.moveLamports source target n).setData source d₁).setData target
      d₂) target) = ⟨(L target).lamports + n, (L target).owner, d₂⟩ := by
    intro d₁ d₂
    rw [Ledger.setData, Ledger.set_same, Ledger.setData_of_ne _ _ hne.symm,
      L.moveLamports_target n hne]
  have hsub := UInt64.toNat_sub_of_le _ _ hn
  refine ⟨?_, ⟨s₂, child, ?_⟩, ?_⟩
  · rw [hsource]
    rcases hleft hlive.covered with ⟨hmeta₁, hstays⟩ | ⟨rfl, rfl⟩
    · refine .live s₁ m ⟨howner, rfl, hmeta₁, hlive.withdrawer, hlive.rent, ?_⟩
      change _ ≤ ((L source).lamports - n).toNat
      omega
    · refine .merged howner rfl (fun _ => ?_)
      exact UInt64.sub_self _
  · rw [htarget']
    refine ⟨htarget, rfl, hchild, ?_, hrent hlive.rent, ?_⟩
    · rw [hinherits]
      exact hlive.withdrawer
    · change _ ≤ ((L target).lamports + n).toNat
      rw [toNat_add_of_lt hfits]
      exact hcovered
  · intro k hks hkt
    rw [Ledger.setData_of_ne _ _ hkt, Ledger.setData_of_ne _ _ hks,
      L.moveLamports_of_ne n hks hkt]

theorem merge_sound (hmain : D.SoundStake False (L target))
    (hadditional : D.SoundStake False (L source))
    (h : D.programs.merge clock target source authority sigs L = .ok L') :
    D.SoundStake quiet (L' target) ∧ D.SoundStake quiet (L' source) ∧
      ∀ k, k ≠ source → k ≠ target → L' k = L k := by
  obtain ⟨hne, htarget, hsource, -, hfits, -⟩ := D.lawful.merge_ok h
  obtain ⟨s₁, s₂, m, s, hdata₁, hdata₂, hmeta₁, hmeta, hcovered, rfl⟩ := hS.merge_state h
  have hlive := hmain.of_meta htarget hdata₁ hmeta₁
  have hcovered₂ : s₂.reserved ≤ (L source).lamports.toNat := by
    cases hadditional with
    | closed hsystem => exact absurd (hsource.symm.trans hsystem) stakeProgramId_ne_system
    | merged _ hempty _ =>
        obtain rfl := AccountData.stake.inj (hdata₂.symm.trans hempty)
        exact Nat.zero_le _
    | live state m' hlive' =>
        obtain rfl := AccountData.stake.inj (hdata₂.symm.trans hlive'.data)
        exact hlive'.covered
  refine ⟨.live s m ?_, .merged ?_ ?_ (fun _ => ?_), ?_⟩
  · rw [Ledger.setData_of_ne _ _ hne.symm, Ledger.setData, Ledger.set_same,
      L.moveLamports_target _ hne]
    refine ⟨htarget, rfl, hmeta, hlive.withdrawer, hlive.rent, ?_⟩
    change _ ≤ ((L target).lamports + (L source).lamports).toNat
    rw [toNat_add_of_lt hfits]
    exact hcovered hlive.covered hcovered₂
  · rw [Ledger.setData_owner, Ledger.setData_owner, L.moveLamports_owner, hsource]
  · exact Ledger.setData_data_same _ source _
  · rw [Ledger.setData_lamports, Ledger.setData_lamports, L.moveLamports_source _ hne]
    exact UInt64.sub_self _
  · intro k hks hkt
    rw [Ledger.setData_of_ne _ _ hks, Ledger.setData_of_ne _ _ hkt,
      L.moveLamports_of_ne _ hks hkt]

end Deployment

end Tenderize
