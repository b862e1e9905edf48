import Tenderize.Model.Programs

/-!
# What a call leaves alone

Every called program writes only its own accounts, so the accounts of the other
programs keep owner and data.  Lamports are counted where they are staked: an account
counts with its balance when the stake program owns it.
-/

namespace Tenderize

open Support

/-- Accounts of the program `q` keep their owner and data. -/
def Keeps (q : Pubkey) (L L' : Ledger) : Prop :=
  ∀ k, (L k).owner = q → (L' k).owner = q ∧ (L' k).data = (L k).data

namespace Keeps

variable {q : Pubkey} {L L' L'' : Ledger}

theorem refl (q : Pubkey) (L : Ledger) : Keeps q L L :=
  fun _ h => ⟨h, rfl⟩

theorem trans (h : Keeps q L L') (h' : Keeps q L' L'') : Keeps q L L'' := by
  intro k hk
  obtain ⟨howner, hdata⟩ := h k hk
  obtain ⟨howner', hdata'⟩ := h' k howner
  exact ⟨howner', hdata'.trans hdata⟩

theorem setData {key : Pubkey} (data : AccountData) (hkey : (L key).owner ≠ q) :
    Keeps q L (L.setData key data) := by
  intro k hk
  have hne : k ≠ key := by
    rintro rfl
    exact hkey hk
  rw [L.setData_of_ne data hne]
  exact ⟨hk, rfl⟩

theorem moveLamports (source target : Pubkey) (n : UInt64) :
    Keeps q L (L.moveLamports source target n) := by
  intro k hk
  rw [L.moveLamports_owner, L.moveLamports_data]
  exact ⟨hk, rfl⟩

theorem assign {key : Pubkey} (owner : Pubkey) (space : Nat) (hkey : (L key).owner ≠ q) :
    Keeps q L (L.assign key owner space) := by
  intro k hk
  have hne : k ≠ key := by
    rintro rfl
    exact hkey hk
  rw [L.assign_of_ne owner space hne]
  exact ⟨hk, rfl⟩

end Keeps

/-- Accounts of different programs are different. -/
theorem Ledger.ne_of_owner {q : Pubkey} {L : Ledger} {k key : Pubkey} (hk : (L k).owner ≠ q)
    (hkey : (L key).owner = q) : k ≠ key := by
  rintro rfl
  exact hk hkey

/-- Lamports of an account that the stake program owns. -/
def stakeLamports (L : Ledger) (k : Pubkey) : Nat :=
  if (L k).owner = stakeProgramId then (L k).lamports.toNat else 0

@[simp] theorem stakeLamports_setData (L : Ledger) (key : Pubkey) (data : AccountData) :
    stakeLamports (L.setData key data) = stakeLamports L := by
  funext k
  simp [stakeLamports]

section Moves

variable (L : Ledger) {source target k : Pubkey} {n : UInt64}

theorem stakeLamports_move_source (hne : source ≠ target) (hn : n ≤ (L source).lamports) :
    stakeLamports (L.moveLamports source target n) source =
      stakeLamports L source - n.toNat := by
  unfold stakeLamports
  rw [L.moveLamports_source n hne]
  by_cases howner : (L source).owner = stakeProgramId
  · rw [if_pos howner, if_pos howner]
    exact UInt64.toNat_sub_of_le _ _ hn
  · rw [if_neg howner, if_neg howner, Nat.zero_sub]

theorem stakeLamports_move_target (hne : source ≠ target)
    (hfits : (L target).lamports.toNat + n.toNat < 2 ^ 64)
    (howner : (L target).owner = stakeProgramId) :
    stakeLamports (L.moveLamports source target n) target =
      stakeLamports L target + n.toNat := by
  unfold stakeLamports
  rw [L.moveLamports_target n hne, if_pos howner, if_pos howner]
  exact toNat_add_of_lt hfits

theorem stakeLamports_of_owner (howner : (L k).owner ≠ stakeProgramId) :
    stakeLamports L k = 0 :=
  if_neg howner

theorem stakeLamports_move_of_ne (hs : k ≠ source) (ht : k ≠ target) :
    stakeLamports (L.moveLamports source target n) k = stakeLamports L k := by
  unfold stakeLamports
  rw [L.moveLamports_of_ne n hs ht]

end Moves

namespace Programs.Lawful

variable {P : Programs} (hP : P.Lawful) {q : Pubkey} {L L' : Ledger}

include hP

section System

variable {source target owner : Pubkey} {n : UInt64} {space : Nat} {sigs : List Pubkey}

theorem transfer_keeps (h : P.transfer source target n sigs L = .ok L') : Keeps q L L' := by
  obtain ⟨-, -, -, -, rfl⟩ := hP.transfer_ok h
  exact Keeps.moveLamports source target n

theorem createAccount_keeps (hq : q ≠ systemProgramId)
    (h : P.createAccount source target n space owner sigs L = .ok L') : Keeps q L L' := by
  obtain ⟨-, -, -, -, htarget, -, rfl⟩ := hP.createAccount_ok h
  refine (Keeps.moveLamports source target n).trans (Keeps.assign owner space ?_)
  rw [L.moveLamports_owner, htarget]
  exact hq.symm

theorem transfer_stakes (h : P.transfer source target n sigs L = .ok L') :
    stakeLamports L' =
      if source ≠ target ∧ (L target).owner = stakeProgramId then
        Function.update (stakeLamports L) target (stakeLamports L target + n.toNat)
      else stakeLamports L := by
  obtain ⟨-, hsource, -, hfits, rfl⟩ := hP.transfer_ok h
  have hsource' : (L source).owner ≠ stakeProgramId := by
    rw [hsource]
    exact stakeProgramId_ne_system.symm
  by_cases hne : source = target
  · subst hne
    rw [L.moveLamports_self, if_neg (by simp)]
  · funext k
    by_cases hks : k = source
    · subst hks
      have hzero : stakeLamports (L.moveLamports k target n) k = 0 := by
        apply stakeLamports_of_owner
        rw [L.moveLamports_owner]
        exact hsource'
      rw [hzero]
      split
      · rw [Function.update_of_ne hne, stakeLamports_of_owner L hsource']
      · rw [stakeLamports_of_owner L hsource']
    · by_cases hkt : k = target
      · subst hkt
        by_cases howner : (L k).owner = stakeProgramId
        · rw [if_pos ⟨hne, howner⟩, Function.update_self,
            stakeLamports_move_target L hne (hfits hne) howner]
        · rw [if_neg (fun hc => howner hc.2), stakeLamports_of_owner L howner]
          apply stakeLamports_of_owner
          rw [L.moveLamports_owner]
          exact howner
      · rw [stakeLamports_move_of_ne L hks hkt]
        split
        · rw [Function.update_of_ne hkt]
        · rfl

/-- The source of a transfer loses at most what is sent. -/
theorem transfer_target (h : P.transfer source target n sigs L = .ok L') (hne : source ≠ target) :
    (L' target).lamports.toNat = (L target).lamports.toNat + n.toNat := by
  obtain ⟨-, -, -, hfits, rfl⟩ := hP.transfer_ok h
  rw [L.moveLamports_target n hne]
  exact toNat_add_of_lt (hfits hne)

theorem transfer_source (h : P.transfer source target n sigs L = .ok L') (hne : source ≠ target) :
    n ≤ (L source).lamports ∧ (L' source).lamports = (L source).lamports - n := by
  obtain ⟨-, -, hn, -, rfl⟩ := hP.transfer_ok h
  rw [L.moveLamports_source n hne]
  exact ⟨hn, rfl⟩

theorem createAccount_source
    (h : P.createAccount source target n space owner sigs L = .ok L') (hne : source ≠ target) :
    n ≤ (L source).lamports ∧ (L' source).lamports = (L source).lamports - n := by
  obtain ⟨-, -, -, hn, -, -, rfl⟩ := hP.createAccount_ok h
  rw [Ledger.assign_of_ne _ owner space hne, L.moveLamports_source n hne]
  exact ⟨hn, rfl⟩

theorem createAccount_of_ne {k : Pubkey}
    (h : P.createAccount source target n space owner sigs L = .ok L') (hs : k ≠ source)
    (ht : k ≠ target) : L' k = L k := by
  obtain ⟨-, -, -, -, -, -, rfl⟩ := hP.createAccount_ok h
  rw [Ledger.assign_of_ne _ owner space ht, L.moveLamports_of_ne n hs ht]

theorem transfer_source_le (h : P.transfer source target n sigs L = .ok L') :
    (L source).lamports.toNat ≤ (L' source).lamports.toNat + n.toNat := by
  obtain ⟨-, -, hn, -, rfl⟩ := hP.transfer_ok h
  by_cases hne : source = target
  · subst hne
    rw [L.moveLamports_self]
    omega
  · have hsub := UInt64.toNat_sub_of_le _ _ hn
    rw [L.moveLamports_source n hne]
    show _ ≤ ((L source).lamports - n).toNat + n.toNat
    omega

/-- A system transfer takes nothing out of the stakes. -/
theorem transfer_stakes_le (h : P.transfer source target n sigs L = .ok L') (k : Pubkey) :
    stakeLamports L k ≤ stakeLamports L' k := by
  rw [hP.transfer_stakes h]
  split
  · by_cases hk : k = target
    · subst hk
      rw [Function.update_self]
      omega
    · rw [Function.update_of_ne hk]
  · exact le_refl _

theorem createAccount_stakes
    (h : P.createAccount source target n space owner sigs L = .ok L') :
    stakeLamports L' =
      if owner = stakeProgramId then Function.update (stakeLamports L) target n.toNat
      else stakeLamports L := by
  obtain ⟨-, -, hsource, hn, htarget, hempty, rfl⟩ := hP.createAccount_ok h
  have hnot : ∀ k, (L k).owner = systemProgramId → (L k).owner ≠ stakeProgramId := by
    intro k hk
    rw [hk]
    exact stakeProgramId_ne_system.symm
  have hlamports : ((L.moveLamports source target n) target).lamports = n := by
    by_cases hne : source = target
    · subst hne
      rw [hempty] at hn
      have hzero : n = 0 := UInt64.le_zero_iff.mp hn
      rw [L.moveLamports_self, hempty, hzero]
    · rw [L.moveLamports_target n hne, hempty]
      exact UInt64.zero_add n
  funext k
  by_cases hk : k = target
  · subst hk
    unfold stakeLamports
    rw [Ledger.assign_same, hlamports]
    by_cases howner : owner = stakeProgramId
    · rw [if_pos howner, if_pos howner, Function.update_self]
    · rw [if_neg howner, if_neg howner, if_neg (hnot k htarget)]
  · have hsame : stakeLamports ((L.moveLamports source target n).assign target owner space) k =
        stakeLamports L k := by
      unfold stakeLamports
      rw [Ledger.assign_of_ne _ owner space hk, L.moveLamports_owner]
      by_cases hks : k = source
      · subst hks
        rw [if_neg (hnot k hsource), if_neg (hnot k hsource)]
      · rw [L.moveLamports_of_ne n hks hk]
    rw [hsame]
    split
    · rw [Function.update_of_ne hk]
    · rfl

end System

section Token

variable {account mint target authority : Pubkey} {n : UInt64} {sigs : List Pubkey}

/-! The token program leaves the accounts of the other programs as they are. -/

variable {k : Pubkey}

theorem burn_of_owner (hk : (L k).owner ≠ splTokenId)
    (h : P.burn splTokenId account mint authority n sigs L = .ok L') : L' k = L k := by
  obtain ⟨t, t', m, haccount, hmint, -, -, -, -, -, rfl⟩ := hP.burn_ok h
  rw [Ledger.setData_of_ne _ _ (Ledger.ne_of_owner hk hmint.1),
    L.setData_of_ne _ (Ledger.ne_of_owner hk haccount.1)]

theorem mintTo_of_owner (hk : (L k).owner ≠ splTokenId)
    (h : P.mintTo splTokenId mint account authority n sigs L = .ok L') : L' k = L k := by
  obtain ⟨t, m, haccount, hmint, -, -, -, -, -, rfl⟩ := hP.mintTo_ok h
  rw [Ledger.setData_of_ne _ _ (Ledger.ne_of_owner hk hmint.1),
    L.setData_of_ne _ (Ledger.ne_of_owner hk haccount.1)]

theorem tokenTransfer_of_owner (hk : (L k).owner ≠ splTokenId)
    (h : P.tokenTransfer splTokenId account target authority n sigs L = .ok L') :
    L' k = L k := by
  obtain ⟨a, b, ha, hb, -, -, -, -, hcase⟩ := hP.tokenTransfer_ok h
  have hka := Ledger.ne_of_owner hk ha.1
  have hkb := Ledger.ne_of_owner hk hb.1
  rcases hcase with ⟨-, rfl⟩ | ⟨-, -, -, a', -, rfl⟩
  · rfl
  · rw [Ledger.setData_of_ne _ _ hkb, Ledger.setData_of_ne _ _ hka]
    split
    · exact L.moveLamports_of_ne n hka hkb
    · rfl

theorem initializeAccount_of_owner (hk : (L k).owner ≠ splTokenId)
    (h : P.initializeAccount splTokenId account mint target L = .ok L') : L' k = L k := by
  obtain ⟨howner, t, -, -, rfl⟩ := hP.initializeAccount_ok h
  exact L.setData_of_ne _ (Ledger.ne_of_owner hk howner)

theorem closeAccount_of_owner (hk : (L k).owner ≠ splTokenId) (hne : k ≠ target)
    (h : P.closeAccount splTokenId account target authority sigs L = .ok L') : L' k = L k := by
  obtain ⟨-, -, -, t, haccount, -, rfl⟩ := hP.closeAccount_ok h
  have hk' := Ledger.ne_of_owner hk haccount.1
  rw [Ledger.setData_of_ne _ _ hk', L.moveLamports_of_ne _ hk' hne]

end Token

section Stake

variable {stake source target authority : Pubkey} {clock : Clock} {n : UInt64}
  {sigs : List Pubkey}

theorem splitOnly_keeps (hq : q ≠ stakeProgramId)
    (h : P.splitOnly source authority n target sigs L = .ok L') : Keeps q L L' := by
  obtain ⟨-, hsource, htarget, -, -, -, d₁, d₂, rfl⟩ := hP.splitOnly_ok h
  refine ((Keeps.moveLamports source target n).trans (Keeps.setData _ ?_)).trans
    (Keeps.setData _ ?_)
  · rw [L.moveLamports_owner, hsource]
    exact hq.symm
  · rw [Ledger.setData_owner, L.moveLamports_owner, htarget]
    exact hq.symm

theorem merge_keeps (hq : q ≠ stakeProgramId)
    (h : P.merge clock target source authority sigs L = .ok L') : Keeps q L L' := by
  obtain ⟨-, htarget, hsource, -, -, d₁, d₂, rfl⟩ := hP.merge_ok h
  refine ((Keeps.moveLamports source target _).trans (Keeps.setData _ ?_)).trans
    (Keeps.setData _ ?_)
  · rw [L.moveLamports_owner, htarget]
    exact hq.symm
  · rw [Ledger.setData_owner, L.moveLamports_owner, hsource]
    exact hq.symm

theorem stakeWithdraw_keeps (hq : q ≠ stakeProgramId)
    (h : P.stakeWithdraw clock stake authority target n sigs L = .ok L') : Keeps q L L' := by
  obtain ⟨howner, -, -, data, rfl⟩ := hP.stakeWithdraw_ok h
  refine (Keeps.moveLamports stake target n).trans (Keeps.setData _ ?_)
  rw [L.moveLamports_owner, howner]
  exact hq.symm

theorem splitOnly_stakes (h : P.splitOnly source authority n target sigs L = .ok L') :
    source ≠ target ∧ n.toNat ≤ stakeLamports L source ∧
      stakeLamports L' =
        Function.update (Function.update (stakeLamports L) source
          (stakeLamports L source - n.toNat)) target (stakeLamports L target + n.toNat) := by
  obtain ⟨hne, hsource, htarget, -, hn, hfits, d₁, d₂, rfl⟩ := hP.splitOnly_ok h
  have hn' : n.toNat ≤ stakeLamports L source := by
    unfold stakeLamports
    rw [if_pos hsource]
    exact UInt64.le_iff_toNat_le.mp hn
  refine ⟨hne, hn', ?_⟩
  rw [stakeLamports_setData, stakeLamports_setData]
  funext k
  by_cases hkt : k = target
  · subst hkt
    rw [Function.update_self, stakeLamports_move_target L hne hfits htarget]
  · rw [Function.update_of_ne hkt]
    by_cases hks : k = source
    · subst hks
      rw [Function.update_self, stakeLamports_move_source L hne hn]
    · rw [Function.update_of_ne hks, stakeLamports_move_of_ne L hks hkt]

theorem splitOnly_of_ne {k : Pubkey}
    (h : P.splitOnly source authority n target sigs L = .ok L') (hs : k ≠ source)
    (ht : k ≠ target) : (L' k).lamports = (L k).lamports := by
  obtain ⟨-, -, -, -, -, -, d₁, d₂, rfl⟩ := hP.splitOnly_ok h
  rw [Ledger.setData_lamports, Ledger.setData_lamports, L.moveLamports_of_ne n hs ht]

theorem merge_of_ne {k : Pubkey} (h : P.merge clock target source authority sigs L = .ok L')
    (hs : k ≠ source) (ht : k ≠ target) : (L' k).lamports = (L k).lamports := by
  obtain ⟨-, -, -, -, -, d₁, d₂, rfl⟩ := hP.merge_ok h
  rw [Ledger.setData_lamports, Ledger.setData_lamports, L.moveLamports_of_ne _ hs ht]

theorem merge_stakes (h : P.merge clock target source authority sigs L = .ok L') :
    source ≠ target ∧
      stakeLamports L' =
        Function.update (Function.update (stakeLamports L) target
          (stakeLamports L target + stakeLamports L source)) source 0 := by
  obtain ⟨hne, htarget, hsource, -, hfits, d₁, d₂, rfl⟩ := hP.merge_ok h
  have hall : stakeLamports L source = (L source).lamports.toNat := by
    unfold stakeLamports
    rw [if_pos hsource]
  refine ⟨hne, ?_⟩
  rw [stakeLamports_setData, stakeLamports_setData]
  funext k
  by_cases hks : k = source
  · subst hks
    rw [Function.update_self, stakeLamports_move_source L hne (UInt64.le_refl _), hall,
      Nat.sub_self]
  · rw [Function.update_of_ne hks]
    by_cases hkt : k = target
    · subst hkt
      rw [Function.update_self, stakeLamports_move_target L hne hfits htarget, hall]
    · rw [Function.update_of_ne hkt, stakeLamports_move_of_ne L hks hkt]

/-- Away from the account that receives them, the withdrawn lamports leave the stake. -/
theorem stakeWithdraw_target
    (h : P.stakeWithdraw clock stake authority target n sigs L = .ok L') (hne : stake ≠ target) :
    (L' target).lamports.toNat = (L target).lamports.toNat + n.toNat := by
  obtain ⟨-, -, hfits, data, rfl⟩ := hP.stakeWithdraw_ok h
  rw [Ledger.setData_lamports, L.moveLamports_target n hne]
  exact toNat_add_of_lt (hfits hne)

theorem stakeWithdraw_stakes
    (h : P.stakeWithdraw clock stake authority target n sigs L = .ok L') (hne : stake ≠ target) :
    n.toNat ≤ stakeLamports L stake ∧
      ∀ k, k ≠ target →
        stakeLamports L' k =
          Function.update (stakeLamports L) stake (stakeLamports L stake - n.toNat) k := by
  obtain ⟨howner, hn, -, data, rfl⟩ := hP.stakeWithdraw_ok h
  refine ⟨?_, ?_⟩
  · unfold stakeLamports
    rw [if_pos howner]
    exact UInt64.le_iff_toNat_le.mp hn
  · intro k hkt
    rw [stakeLamports_setData]
    by_cases hks : k = stake
    · subst hks
      rw [Function.update_self, stakeLamports_move_source L hne hn]
    · rw [Function.update_of_ne hks, stakeLamports_move_of_ne L hks hkt]

end Stake

end Programs.Lawful

end Tenderize
