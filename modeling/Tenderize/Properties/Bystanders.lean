import Mathlib.Algebra.BigOperators.Group.Finset.Basic
import Mathlib.Algebra.Order.BigOperators.Group.Finset
import Tenderize.Refinement.Writes
import Tenderize.Reference.Pool

/-!
# Accounts that an instruction leaves alone

An instruction writes no account that it does not name, and the lamports of the accounts that
it names stay together what they were.  It takes nothing from wallets and token accounts of
those who did not sign and gave no approval to an authority of the program.
-/

namespace Tenderize

open Support

/-- The lamports in a set of accounts. -/
def Ledger.lamportsIn (L : Ledger) (S : Finset Pubkey) : Nat :=
  ∑ key ∈ S, (L key).lamports.toNat

section Moves

variable {L : Ledger} {source target k : Pubkey} {n : UInt64} {S : Finset Pubkey}

theorem Ledger.lamportsIn_moveLamports (hsource : source ∈ S) (htarget : target ∈ S)
    (hn : n ≤ (L source).lamports)
    (hfits : source ≠ target → (L target).lamports.toNat + n.toNat < 2 ^ 64) :
    Ledger.lamportsIn (L.moveLamports source target n) S = L.lamportsIn S := by
  by_cases hne : source = target
  · rw [hne, L.moveLamports_self]
  · have htarget' : target ∈ S.erase source := Finset.mem_erase.mpr ⟨Ne.symm hne, htarget⟩
    have hothers : ∀ k ∈ (S.erase source).erase target,
        (L.moveLamports source target n k).lamports.toNat = (L k).lamports.toNat := by
      intro k hk
      obtain ⟨hkt, hk⟩ := Finset.mem_erase.mp hk
      rw [L.moveLamports_of_ne n (Finset.ne_of_mem_erase hk) hkt]
    have hmoved : (L source).lamports.toNat - n.toNat + ((L target).lamports.toNat + n.toNat) =
        (L source).lamports.toNat + (L target).lamports.toNat := by
      have hle := UInt64.le_iff_toNat_le.mp hn
      omega
    unfold Ledger.lamportsIn
    rw [← Finset.add_sum_erase S _ hsource, ← Finset.add_sum_erase (S.erase source) _ htarget',
      ← Finset.add_sum_erase S _ hsource, ← Finset.add_sum_erase (S.erase source) _ htarget',
      Finset.sum_congr rfl hothers, L.moveLamports_source n hne, L.moveLamports_target n hne,
      UInt64.toNat_sub_of_le _ _ hn, toNat_add_of_lt (hfits hne)]
    omega

@[simp] theorem Ledger.lamportsIn_setData (key : Pubkey) (data : AccountData) :
    Ledger.lamportsIn (L.setData key data) S = L.lamportsIn S := by
  simp [Ledger.lamportsIn]

@[simp] theorem Ledger.lamportsIn_assign (key owner : Pubkey) (space : Nat) :
    Ledger.lamportsIn (L.assign key owner space) S = L.lamportsIn S := by
  simp [Ledger.lamportsIn]

/-- Who is not the source of a transfer loses nothing by it. -/
theorem Ledger.le_moveLamports (hk : k ≠ source)
    (hfits : source ≠ target → (L target).lamports.toNat + n.toNat < 2 ^ 64) :
    (L k).lamports ≤ (L.moveLamports source target n k).lamports := by
  by_cases hne : source = target
  · rw [hne, L.moveLamports_self]
    exact UInt64.le_refl _
  · by_cases ht : k = target
    · rw [ht, L.moveLamports_target n hne, UInt64.le_iff_toNat_le]
      change _ ≤ ((L target).lamports + n).toNat
      rw [toNat_add_of_lt (hfits hne)]
      omega
    · rw [L.moveLamports_of_ne n hk ht]
      exact UInt64.le_refl _

end Moves

namespace Deployment.Write

variable {D : Deployment} {accounts : List AccountInfo} {opens : Prop} {pays : Set Pubkey}
  {L L' : Ledger}
  {k : Pubkey}

theorem outside_named (h : D.Write accounts opens pays L L') (hk : k ∉ Named accounts) :
    L' k = L k := by
  have hne : ∀ {key}, key ∈ Named accounts → k ≠ key := by
    rintro key hkey rfl
    exact hk hkey
  cases h with
  | store hkey _ => exact L.setData_of_ne _ (hne hkey)
  | transfer hsource htarget _ hcall =>
      obtain ⟨-, -, -, -, rfl⟩ := D.lawful.transfer_ok hcall
      exact L.moveLamports_of_ne _ (hne hsource) (hne htarget)
  | createAccount hsource htarget _ _ _ hcall =>
      obtain ⟨-, -, -, -, -, -, rfl⟩ := D.lawful.createAccount_ok hcall
      rw [Ledger.assign_of_ne _ _ _ (hne htarget),
        L.moveLamports_of_ne _ (hne hsource) (hne htarget)]
  | initializeAccount haccount _ hcall =>
      obtain ⟨-, _, -, -, rfl⟩ := D.lawful.initializeAccount_ok hcall
      exact L.setData_of_ne _ (hne haccount)
  | closeAccount haccount htarget _ hcall =>
      obtain ⟨-, -, -, _, -, -, rfl⟩ := D.lawful.closeAccount_ok hcall
      rw [Ledger.setData_of_ne _ _ (hne haccount),
        L.moveLamports_of_ne _ (hne haccount) (hne htarget)]
  | burn haccount hmint _ hcall =>
      obtain ⟨_, _, _, -, -, -, -, -, -, -, rfl⟩ := D.lawful.burn_ok hcall
      rw [Ledger.setData_of_ne _ _ (hne hmint), L.setData_of_ne _ (hne haccount)]
  | mintTo hmint haccount hcall =>
      obtain ⟨_, _, -, -, -, -, -, -, -, rfl⟩ := D.lawful.mintTo_ok hcall
      rw [Ledger.setData_of_ne _ _ (hne hmint), L.setData_of_ne _ (hne haccount)]
  | tokenTransfer hsource htarget _ hcall =>
      obtain ⟨_, _, -, -, -, -, -, -, ⟨-, rfl⟩ | ⟨-, -, -, _, -, rfl⟩⟩ :=
        D.lawful.tokenTransfer_ok hcall
      · rfl
      · rw [Ledger.setData_of_ne _ _ (hne htarget), Ledger.setData_of_ne _ _ (hne hsource)]
        split
        · exact L.moveLamports_of_ne _ (hne hsource) (hne htarget)
        · rfl
  | stakeInitialize hstake hcall =>
      obtain ⟨-, _, rfl⟩ := D.lawful.stakeInitialize_ok hcall
      exact L.setData_of_ne _ (hne hstake)
  | delegateStake hstake hcall =>
      obtain ⟨-, -, _, rfl⟩ := D.lawful.delegateStake_ok hcall
      exact L.setData_of_ne _ (hne hstake)
  | deactivateStake hstake hcall =>
      obtain ⟨-, -, _, rfl⟩ := D.lawful.deactivateStake_ok hcall
      exact L.setData_of_ne _ (hne hstake)
  | splitOnly hsource htarget hcall =>
      obtain ⟨-, -, -, -, -, -, _, _, rfl⟩ := D.lawful.splitOnly_ok hcall
      rw [Ledger.setData_of_ne _ _ (hne htarget), Ledger.setData_of_ne _ _ (hne hsource),
        L.moveLamports_of_ne _ (hne hsource) (hne htarget)]
  | merge htarget hsource hcall =>
      obtain ⟨-, -, -, -, -, _, _, rfl⟩ := D.lawful.merge_ok hcall
      rw [Ledger.setData_of_ne _ _ (hne hsource), Ledger.setData_of_ne _ _ (hne htarget),
        L.moveLamports_of_ne _ (hne hsource) (hne htarget)]
  | stakeWithdraw hstake htarget hcall =>
      obtain ⟨-, -, -, _, rfl⟩ := D.lawful.stakeWithdraw_ok hcall
      rw [Ledger.setData_of_ne _ _ (hne hstake),
        L.moveLamports_of_ne _ (hne hstake) (hne htarget)]

theorem lamportsIn_eq {S : Finset Pubkey} (h : D.Write accounts opens pays L L')
    (hS : Named accounts ⊆ S) : L'.lamportsIn S = L.lamportsIn S := by
  cases h with
  | store => simp
  | transfer hsource htarget _ hcall =>
      obtain ⟨-, -, hn, hfits, rfl⟩ := D.lawful.transfer_ok hcall
      exact Ledger.lamportsIn_moveLamports (hS hsource) (hS htarget) hn hfits
  | createAccount hsource htarget _ _ _ hcall =>
      obtain ⟨-, -, -, hn, -, hzero, rfl⟩ := D.lawful.createAccount_ok hcall
      rw [Ledger.lamportsIn_assign]
      refine Ledger.lamportsIn_moveLamports (hS hsource) (hS htarget) hn fun _ => ?_
      rw [hzero]
      simpa using (UInt64.toNat_lt _)
  | initializeAccount _ _ hcall =>
      obtain ⟨-, _, -, -, rfl⟩ := D.lawful.initializeAccount_ok hcall
      simp
  | closeAccount haccount htarget _ hcall =>
      obtain ⟨-, -, hfits, _, -, -, rfl⟩ := D.lawful.closeAccount_ok hcall
      rw [Ledger.lamportsIn_setData]
      exact Ledger.lamportsIn_moveLamports (hS haccount) (hS htarget) (UInt64.le_refl _)
        (fun _ => hfits)
  | burn _ _ _ hcall =>
      obtain ⟨_, _, _, -, -, -, -, -, -, -, rfl⟩ := D.lawful.burn_ok hcall
      simp
  | mintTo _ _ hcall =>
      obtain ⟨_, _, -, -, -, -, -, -, -, rfl⟩ := D.lawful.mintTo_ok hcall
      simp
  | tokenTransfer hsource htarget _ hcall =>
      obtain ⟨_, _, -, -, -, -, -, -, ⟨-, rfl⟩ | ⟨-, -, hnative, _, -, rfl⟩⟩ :=
        D.lawful.tokenTransfer_ok hcall
      · rfl
      · rw [Ledger.lamportsIn_setData, Ledger.lamportsIn_setData]
        split
        · next hsome =>
            obtain ⟨hfits, hn⟩ := hnative hsome
            exact Ledger.lamportsIn_moveLamports (hS hsource) (hS htarget) hn (fun _ => hfits)
        · rfl
  | stakeInitialize _ hcall =>
      obtain ⟨-, _, rfl⟩ := D.lawful.stakeInitialize_ok hcall
      simp
  | delegateStake _ hcall =>
      obtain ⟨-, -, _, rfl⟩ := D.lawful.delegateStake_ok hcall
      simp
  | deactivateStake _ hcall =>
      obtain ⟨-, -, _, rfl⟩ := D.lawful.deactivateStake_ok hcall
      simp
  | splitOnly hsource htarget hcall =>
      obtain ⟨-, -, -, -, hn, hfits, _, _, rfl⟩ := D.lawful.splitOnly_ok hcall
      rw [Ledger.lamportsIn_setData, Ledger.lamportsIn_setData]
      exact Ledger.lamportsIn_moveLamports (hS hsource) (hS htarget) hn (fun _ => hfits)
  | merge htarget hsource hcall =>
      obtain ⟨-, -, -, -, hfits, _, _, rfl⟩ := D.lawful.merge_ok hcall
      rw [Ledger.lamportsIn_setData, Ledger.lamportsIn_setData]
      exact Ledger.lamportsIn_moveLamports (hS hsource) (hS htarget) (UInt64.le_refl _)
        (fun _ => hfits)
  | stakeWithdraw hstake htarget hcall =>
      obtain ⟨-, hn, hfits, _, rfl⟩ := D.lawful.stakeWithdraw_ok hcall
      rw [Ledger.lamportsIn_setData]
      exact Ledger.lamportsIn_moveLamports (hS hstake) (hS htarget) hn hfits

/-! Nobody but a payer pays from a wallet.  The program opens accounts only at addresses of its
own, and only at those that hold nothing. -/

theorem wallet (h : D.Write accounts opens pays L L') (hk : k ∉ pays)
    (hopen : D.programs.IsProgramAddress D.programId k → (L k).lamports ≠ 0)
    (howner : (L k).owner = systemProgramId) :
    (L' k).owner = systemProgramId ∧ (L' k).data = (L k).data ∧
      (L k).lamports ≤ (L' k).lamports := by
  have hsame : L' k = L k → (L' k).owner = systemProgramId ∧ (L' k).data = (L k).data ∧
      (L k).lamports ≤ (L' k).lamports := by
    intro heq
    rw [heq]
    exact ⟨howner, rfl, UInt64.le_refl _⟩
  have hother : ∀ {key program}, (L key).owner = program → program ≠ systemProgramId →
      k ≠ key := by
    rintro key program hkey hne rfl
    exact hne (hkey.symm.trans howner)
  cases h with
  | store _ hkey => exact hsame (L.setData_of_ne _ (hother hkey D.ne_system))
  | transfer _ _ hpays hcall =>
      obtain ⟨-, -, -, hfits, rfl⟩ := D.lawful.transfer_ok hcall
      have hne : k ≠ _ := fun heq => hk (heq ▸ hpays)
      rw [L.moveLamports_owner, L.moveLamports_data]
      exact ⟨howner, rfl, Ledger.le_moveLamports hne hfits⟩
  | @createAccount _ target _ _ _ _ _ _ _ _ haddress _ hpays hcall =>
      obtain ⟨-, -, -, -, -, hempty, rfl⟩ := D.lawful.createAccount_ok hcall
      have hne : k ≠ _ := fun heq => hk (heq ▸ hpays)
      have htarget : k ≠ target := by
        rintro rfl
        exact hopen haddress hempty
      apply hsame
      rw [Ledger.assign_of_ne _ _ _ htarget, L.moveLamports_of_ne _ hne htarget]
  | initializeAccount _ _ hcall =>
      obtain ⟨haccount, _, -, -, rfl⟩ := D.lawful.initializeAccount_ok hcall
      exact hsame (L.setData_of_ne _ (hother haccount splTokenId_ne_system))
  | closeAccount _ _ _ hcall =>
      obtain ⟨-, -, hfits, _, ht, -, rfl⟩ := D.lawful.closeAccount_ok hcall
      have haccount := hother ht.1 splTokenId_ne_system
      rw [Ledger.setData_of_ne _ _ haccount, L.moveLamports_owner, L.moveLamports_data]
      exact ⟨howner, rfl, Ledger.le_moveLamports haccount (fun _ => hfits)⟩
  | burn _ _ _ hcall =>
      obtain ⟨_, _, _, ht, hm, -, -, -, -, -, rfl⟩ := D.lawful.burn_ok hcall
      apply hsame
      rw [Ledger.setData_of_ne _ _ (hother hm.1 splTokenId_ne_system),
        L.setData_of_ne _ (hother ht.1 splTokenId_ne_system)]
  | mintTo _ _ hcall =>
      obtain ⟨_, _, ht, hm, -, -, -, -, -, rfl⟩ := D.lawful.mintTo_ok hcall
      apply hsame
      rw [Ledger.setData_of_ne _ _ (hother hm.1 splTokenId_ne_system),
        L.setData_of_ne _ (hother ht.1 splTokenId_ne_system)]
  | tokenTransfer _ _ _ hcall =>
      obtain ⟨_, _, ha, hb, -, -, -, -, ⟨-, rfl⟩ | ⟨-, -, -, _, -, rfl⟩⟩ :=
        D.lawful.tokenTransfer_ok hcall
      · exact hsame rfl
      · have hs := hother ha.1 splTokenId_ne_system
        have ht := hother hb.1 splTokenId_ne_system
        apply hsame
        rw [Ledger.setData_of_ne _ _ ht, Ledger.setData_of_ne _ _ hs]
        split
        · exact L.moveLamports_of_ne _ hs ht
        · rfl
  | stakeInitialize _ hcall =>
      obtain ⟨hstake, _, rfl⟩ := D.lawful.stakeInitialize_ok hcall
      exact hsame (L.setData_of_ne _ (hother hstake stakeProgramId_ne_system))
  | delegateStake _ hcall =>
      obtain ⟨hstake, -, _, rfl⟩ := D.lawful.delegateStake_ok hcall
      exact hsame (L.setData_of_ne _ (hother hstake stakeProgramId_ne_system))
  | deactivateStake _ hcall =>
      obtain ⟨hstake, -, _, rfl⟩ := D.lawful.deactivateStake_ok hcall
      exact hsame (L.setData_of_ne _ (hother hstake stakeProgramId_ne_system))
  | splitOnly _ _ hcall =>
      obtain ⟨-, hsource, htarget, -, -, -, _, _, rfl⟩ := D.lawful.splitOnly_ok hcall
      have hs := hother hsource stakeProgramId_ne_system
      have ht := hother htarget stakeProgramId_ne_system
      apply hsame
      rw [Ledger.setData_of_ne _ _ ht, Ledger.setData_of_ne _ _ hs, L.moveLamports_of_ne _ hs ht]
  | merge _ _ hcall =>
      obtain ⟨-, htarget, hsource, -, -, _, _, rfl⟩ := D.lawful.merge_ok hcall
      have hs := hother hsource stakeProgramId_ne_system
      have ht := hother htarget stakeProgramId_ne_system
      apply hsame
      rw [Ledger.setData_of_ne _ _ hs, Ledger.setData_of_ne _ _ ht, L.moveLamports_of_ne _ hs ht]
  | stakeWithdraw _ _ hcall =>
      obtain ⟨hstake, -, hfits, _, rfl⟩ := D.lawful.stakeWithdraw_ok hcall
      have hs := hother hstake stakeProgramId_ne_system
      rw [Ledger.setData_of_ne _ _ hs, L.moveLamports_owner, L.moveLamports_data]
      exact ⟨howner, rfl, Ledger.le_moveLamports hs hfits⟩

/-- Tokens leave an account only by its owner or by its delegate. -/
theorem tokens {t : TokenAccount} (h : D.Write accounts opens pays L L')
    (hk : ¬D.programs.IsProgramAddress D.programId k) (ht : L.HasTokenAccount k t)
    (hspend : ∀ authority ∈ D.Signs accounts, ¬t.Authorises authority) :
    ∃ amount, t.amount ≤ amount ∧ L'.HasTokenAccount k { t with amount } ∧
      (L k).lamports ≤ (L' k).lamports := by
  have hsame : L' k = L k → ∃ amount, t.amount ≤ amount ∧
      L'.HasTokenAccount k { t with amount } ∧ (L k).lamports ≤ (L' k).lamports := by
    intro heq
    refine ⟨t.amount, UInt64.le_refl _, ?_, ?_⟩
    · unfold Ledger.HasTokenAccount
      rw [heq]
      exact ht
    · rw [heq]
      exact UInt64.le_refl _
  have hmore : ∀ {n : UInt64}, t.amount.toNat + n.toNat < 2 ^ 64 → t.amount ≤ t.amount + n := by
    intro n hroom
    rw [UInt64.le_iff_toNat_le, toNat_add_of_lt hroom]
    omega
  have hother : ∀ {key program}, (L key).owner = program → splTokenId ≠ program → k ≠ key := by
    rintro key program hkey hne rfl
    exact hne (ht.1.symm.trans hkey)
  have haddress : ∀ {key}, D.programs.IsProgramAddress D.programId key → k ≠ key := by
    rintro key hkey rfl
    exact hk hkey
  have hmint : ∀ {key m}, L.HasMint key m → k ≠ key := by
    rintro key m hm rfl
    cases ht.2.symm.trans hm.2
  cases h with
  | store _ hkey => exact hsame (L.setData_of_ne _ (hother hkey D.ne_token.symm))
  | transfer _ _ _ hcall =>
      obtain ⟨-, hsource, -, hfits, rfl⟩ := D.lawful.transfer_ok hcall
      refine ⟨t.amount, UInt64.le_refl _, ?_,
        Ledger.le_moveLamports (hother hsource splTokenId_ne_system) hfits⟩
      unfold Ledger.HasTokenAccount
      rw [L.moveLamports_owner, L.moveLamports_data]
      exact ht
  | createAccount _ _ htarget _ _ hcall =>
      obtain ⟨-, -, hsource, -, -, -, rfl⟩ := D.lawful.createAccount_ok hcall
      apply hsame
      rw [Ledger.assign_of_ne _ _ _ (haddress htarget),
        L.moveLamports_of_ne _ (hother hsource splTokenId_ne_system) (haddress htarget)]
  | initializeAccount _ haccount hcall =>
      obtain ⟨-, _, -, -, rfl⟩ := D.lawful.initializeAccount_ok hcall
      exact hsame (L.setData_of_ne _ (haddress haccount))
  | closeAccount _ _ haccount hcall =>
      obtain ⟨-, -, hfits, _, -, -, rfl⟩ := D.lawful.closeAccount_ok hcall
      refine ⟨t.amount, UInt64.le_refl _, ?_, ?_⟩
      · unfold Ledger.HasTokenAccount
        rw [Ledger.setData_of_ne _ _ (haddress haccount), L.moveLamports_owner,
          L.moveLamports_data]
        exact ht
      · rw [Ledger.setData_of_ne _ _ (haddress haccount)]
        exact Ledger.le_moveLamports (haddress haccount) (fun _ => hfits)
  | @burn account _ _ _ _ _ _ _ _ hsigs hcall =>
      obtain ⟨t', _, _, ht', hm, -, hsigned, hmay, -, -, rfl⟩ := D.lawful.burn_ok hcall
      have hne : k ≠ account := by
        rintro rfl
        obtain rfl := AccountData.tokenAccount.inj (ht.2.symm.trans ht'.2)
        exact hspend _ (hsigs _ hsigned) hmay
      apply hsame
      rw [Ledger.setData_of_ne _ _ (hmint hm), L.setData_of_ne _ hne]
  | @mintTo _ account _ n _ _ _ _ _ hcall =>
      obtain ⟨t', _, ht', hm, -, -, -, hroom, -, rfl⟩ := D.lawful.mintTo_ok hcall
      by_cases hne : k = account
      · subst hne
        obtain rfl := AccountData.tokenAccount.inj (ht.2.symm.trans ht'.2)
        refine ⟨t.amount + n, hmore hroom, ⟨?_, ?_⟩, ?_⟩
        · simp [ht.1]
        · rw [Ledger.setData_of_ne _ _ (hmint hm), L.setData_data_same]
        · simp
      · apply hsame
        rw [Ledger.setData_of_ne _ _ (hmint hm), L.setData_of_ne _ hne]
  | @tokenTransfer source target _ n _ _ _ _ _ hsigs hcall =>
      obtain ⟨a, b, ha, hb, -, hsigned, hmay, -, ⟨-, rfl⟩ | ⟨hst, hroom, hnative, _, -, rfl⟩⟩ :=
        D.lawful.tokenTransfer_ok hcall
      · exact hsame rfl
      · have hs : k ≠ source := by
          rintro rfl
          obtain rfl := AccountData.tokenAccount.inj (ht.2.symm.trans ha.2)
          exact hspend _ (hsigs _ hsigned) hmay
        by_cases hne : k = target
        · subst hne
          obtain rfl := AccountData.tokenAccount.inj (ht.2.symm.trans hb.2)
          refine ⟨t.amount + n, hmore hroom, ⟨?_, ?_⟩, ?_⟩
          · rw [Ledger.setData_owner, Ledger.setData_owner]
            split
            · rw [L.moveLamports_owner, ht.1]
            · exact ht.1
          · rw [Ledger.setData_data_same]
          · rw [Ledger.setData_lamports, Ledger.setData_lamports]
            split
            · next hsome => exact Ledger.le_moveLamports hs (fun _ => (hnative hsome).1)
            · exact UInt64.le_refl _
        · apply hsame
          rw [Ledger.setData_of_ne _ _ hne, Ledger.setData_of_ne _ _ hs]
          split
          · exact L.moveLamports_of_ne _ hs hne
          · rfl
  | stakeInitialize _ hcall =>
      obtain ⟨hstake, _, rfl⟩ := D.lawful.stakeInitialize_ok hcall
      exact hsame (L.setData_of_ne _ (hother hstake splTokenId_ne_stake))
  | delegateStake _ hcall =>
      obtain ⟨hstake, -, _, rfl⟩ := D.lawful.delegateStake_ok hcall
      exact hsame (L.setData_of_ne _ (hother hstake splTokenId_ne_stake))
  | deactivateStake _ hcall =>
      obtain ⟨hstake, -, _, rfl⟩ := D.lawful.deactivateStake_ok hcall
      exact hsame (L.setData_of_ne _ (hother hstake splTokenId_ne_stake))
  | splitOnly _ _ hcall =>
      obtain ⟨-, hsource, htarget, -, -, -, _, _, rfl⟩ := D.lawful.splitOnly_ok hcall
      have hs := hother hsource splTokenId_ne_stake
      have hg := hother htarget splTokenId_ne_stake
      apply hsame
      rw [Ledger.setData_of_ne _ _ hg, Ledger.setData_of_ne _ _ hs, L.moveLamports_of_ne _ hs hg]
  | merge _ _ hcall =>
      obtain ⟨-, htarget, hsource, -, -, _, _, rfl⟩ := D.lawful.merge_ok hcall
      have hs := hother hsource splTokenId_ne_stake
      have hg := hother htarget splTokenId_ne_stake
      apply hsame
      rw [Ledger.setData_of_ne _ _ hs, Ledger.setData_of_ne _ _ hg, L.moveLamports_of_ne _ hs hg]
  | stakeWithdraw _ _ hcall =>
      obtain ⟨hstake, -, hfits, _, rfl⟩ := D.lawful.stakeWithdraw_ok hcall
      have hs := hother hstake splTokenId_ne_stake
      refine ⟨t.amount, UInt64.le_refl _, ?_, ?_⟩
      · unfold Ledger.HasTokenAccount
        rw [Ledger.setData_of_ne _ _ hs, L.moveLamports_owner, L.moveLamports_data]
        exact ht
      · rw [Ledger.setData_of_ne _ _ hs]
        exact Ledger.le_moveLamports hs hfits

end Deployment.Write

/-! ## Runs -/

variable {D : Deployment} {c c' : Chain} {es : List Event} {k : Pubkey}

variable (D k) in
/-- Other programs do what they can, but not to the account. -/
structure Deployment.Spares (c c' : Chain) : Prop extends D.Outside c c' where
  account : c'.ledger k = c.ledger k

/-- Instructions write only accounts that they name, and lamports only move among these. -/
theorem instructions_conserve (h : (D.system D.Outside).Reachable c)
    (hrun : (D.system D.Outside).Run es c c') (hes : .outside ∉ es) :
    (∀ k, (∀ e ∈ es, k ∉ Named e.accounts) → c'.ledger k = c.ledger k) ∧
    ∀ S : Finset Pubkey, (∀ e ∈ es, Named e.accounts ⊆ S) →
      c'.ledger.lamportsIn S = c.ledger.lamportsIn S := by
  -- what every write keeps, a run of instructions keeps
  have hkeep : ∀ I : Ledger → Prop,
      (∀ e ∈ es, ∀ opens L L', D.Write e.accounts opens (D.Signs e.accounts) L L' → I L → I L') →
      I c.ledger → I c'.ledger := by
    intro I hI hc
    refine hrun.keeps (I := fun x => I x.ledger) (fun _ _ _ hstep => hstep) h ?_ hc
    intro e he x x' hx hstep hIx
    cases e with
    | instruction instruction accounts =>
        exact (reachable_writes hx hstep).keep (hI _ he _) hIx
    | outside => exact absurd he hes
  constructor
  · intro k hk
    refine hkeep (fun L => L k = c.ledger k) ?_ rfl
    intro e he _ L L' hwrite hL
    rw [hwrite.outside_named (hk e he), hL]
  · intro S hS
    refine hkeep (fun L => L.lamportsIn S = c.ledger.lamportsIn S) ?_ rfl
    intro e he _ L L' hwrite hL
    rw [hwrite.lamportsIn_eq (hS e he), hL]

section

open Reference

/-- Withdraw to a friend after a deposit; the chains before and after the withdrawal. -/
def withdrawal : Except ProgramError (Chain × Chain) := do
  let c ← execute anything [deposit 100000000 userTokensKey mintKey]
  let c' ← performAll anything [withdraw 1000000 userTokensKey mintKey] c
  pure (c, c')

/-- What the withdrawal names. -/
def withdrawalKeys : Finset Pubkey :=
  ((withdrawAccounts userTokensKey mintKey).map AccountInfo.key).toFinset

theorem instructions_conserve_withdrawal :
    ∃ c c', withdrawal = .ok (c, c') ∧ (c'.ledger friendKey).lamports = 2000000 ∧
      c'.ledger ownerKey = c.ledger ownerKey ∧
      c'.ledger.lamportsIn withdrawalKeys = c.ledger.lamportsIn withdrawalKeys := by
  have hrun : withdrawal.map (fun x => (x.2.ledger friendKey).lamports) = .ok 2000000 := by
    decide +kernel
  obtain ⟨⟨c, c'⟩, hc, hfriend⟩ := map_eq_ok.mp hrun
  have hchains := hc
  simp only [withdrawal, bind_eq_ok, pure_eq_ok, Prod.mk.injEq] at hchains
  obtain ⟨c, hc₁, c', hc₂, rfl, rfl⟩ := hchains
  obtain ⟨hothers, hsum⟩ := instructions_conserve (execute_anything_reachable hc₁)
    (performAll_run (paysIn_outside _) hc₂) (by simp [Action.event, withdraw])
  refine ⟨c, c', hc, hfriend, hothers ownerKey ?_, hsum withdrawalKeys ?_⟩
  · simp only [List.map_singleton, List.mem_singleton, forall_eq]
    show ¬∃ info ∈ withdrawAccounts userTokensKey mintKey, info.key = ownerKey
    decide
  · simp only [List.map_singleton, List.mem_singleton, forall_eq]
    rintro key ⟨info, hinfo, rfl⟩
    exact List.mem_toFinset.mpr (List.mem_map_of_mem hinfo)

end

/-- Whoever does not sign keeps a wallet, and whoever moreover approved nobody who signs, and
no address of the program, keeps the tokens. -/
theorem bystanders_keep (h : (D.system D.Outside).Reachable c)
    (hk : ¬D.programs.IsProgramAddress D.programId k)
    (hrun : (D.system (D.Spares k)).Run es c c') :
    ((c.ledger k).owner = systemProgramId → (∀ e ∈ es, k ∉ signers e.accounts) →
      (c'.ledger k).owner = systemProgramId ∧ (c'.ledger k).data = (c.ledger k).data ∧
        (c.ledger k).lamports ≤ (c'.ledger k).lamports) ∧
    ∀ t, c.ledger.HasTokenAccount k t →
      (∀ authority, t.Authorises authority →
        ¬D.programs.IsProgramAddress D.programId authority ∧
          ∀ e ∈ es, authority ∉ signers e.accounts) →
      ∃ amount, t.amount ≤ amount ∧ c'.ledger.HasTokenAccount k { t with amount } ∧
        (c.ledger k).lamports ≤ (c'.ledger k).lamports := by
  have hsub : ∀ x e x', (D.system (D.Spares k)).step x e x' → (D.system D.Outside).step x e x' :=
    fun _ _ _ hstep => Deployment.Step.mono (fun _ _ hout => hout.toOutside) hstep
  have hkeep : ∀ I : Ledger → Prop, (∀ L L', L' k = L k → I L → I L') →
      (∀ e ∈ es, ∀ opens L L', D.Write e.accounts opens (D.Signs e.accounts) L L' → I L → I L') →
      I c.ledger → I c'.ledger := by
    intro I hsame hI hc
    refine hrun.keeps (I := fun x => I x.ledger) hsub h ?_ hc
    intro e he x x' hx hstep hIx
    cases e with
    | instruction instruction accounts =>
        exact (reachable_writes hx hstep).keep (hI _ he _) hIx
    | outside => exact hsame _ _ (Deployment.Spares.account hstep) hIx
  constructor
  · intro howner hsigned
    refine hkeep (fun L => (L k).owner = systemProgramId ∧ (L k).data = (c.ledger k).data ∧
      (c.ledger k).lamports ≤ (L k).lamports) ?_ ?_ ⟨howner, rfl, UInt64.le_refl _⟩
    · intro L L' heq hL
      rw [heq]
      exact hL
    · rintro e he _ L L' hwrite ⟨hL, hdata, hle⟩
      have hnot : k ∉ D.Signs e.accounts := by
        rintro (hmem | haddress)
        · exact hsigned e he hmem
        · exact hk haddress
      obtain ⟨hL', hdata', hle'⟩ := hwrite.wallet hnot (fun haddress => absurd haddress hk) hL
      exact ⟨hL', hdata'.trans hdata, UInt64.le_trans hle hle'⟩
  · intro t ht hauthority
    refine hkeep (fun L => ∃ amount, t.amount ≤ amount ∧ L.HasTokenAccount k { t with amount } ∧
      (c.ledger k).lamports ≤ (L k).lamports) ?_ ?_
      ⟨t.amount, UInt64.le_refl _, ht, UInt64.le_refl _⟩
    · rintro L L' heq hL
      unfold Ledger.HasTokenAccount
      rw [heq]
      exact hL
    · rintro e he _ L L' hwrite ⟨amount, hmore, hL, hle⟩
      have hspend : ∀ authority ∈ D.Signs e.accounts,
          ¬TokenAccount.Authorises { t with amount } authority := by
        rintro authority hmem hmay
        obtain ⟨haddress, hsigned⟩ := hauthority authority hmay
        rcases hmem with hmem | hmem
        · exact hsigned e he hmem
        · exact haddress hmem
      obtain ⟨amount', hmore', hL', hle'⟩ := hwrite.tokens hk hL hspend
      exact ⟨amount', UInt64.le_trans hmore hmore', hL', UInt64.le_trans hle hle'⟩

section

open Reference

/-- Pool tokens of the owner, who approved nobody. -/
def savings : TokenAccount where
  mint := mintKey
  owner := ownerKey
  amount := 7
  delegate := none
  state := .initialized
  isNative := none
  delegatedAmount := 0
  closeAuthority := none
  native_iff := mintKey_not_native

def savingsKey : Pubkey := ⟨2006⟩

/-- The owner has savings when the user deposits and withdraws to a friend. -/
def savingsRun : Except ProgramError (Chain × Chain × Chain) := do
  let c₀ ← execute anything []
  let c ← write savingsKey ⟨2039280, splTokenId, .tokenAccount savings⟩ c₀
  let c' ← performAll anything
    [deposit 100000000 userTokensKey mintKey, withdraw 1000000 userTokensKey mintKey] c
  pure (c₀, c, c')

theorem bystanders_keep_savings :
    ∃ c₀ c c', savingsRun = .ok (c₀, c, c') ∧
      (c.ledger friendKey).lamports ≤ (c'.ledger friendKey).lamports ∧
      ∃ amount, savings.amount ≤ amount ∧
        c'.ledger.HasTokenAccount savingsKey { savings with amount } := by
  have hrun : savingsRun.map (fun x => (x.2.1.ledger friendKey, x.2.1.ledger savingsKey)) =
      .ok (wallet 1000000, ⟨2039280, splTokenId, .tokenAccount savings⟩) := by
    decide +kernel
  obtain ⟨⟨c₀, c, c'⟩, hc, haccounts⟩ := map_eq_ok.mp hrun
  obtain ⟨hfriend, hsavings⟩ := Prod.mk.inj haccounts
  have hchains := hc
  simp only [savingsRun, bind_eq_ok, pure_eq_ok, Prod.mk.injEq] at hchains
  obtain ⟨c₀, hc₀, c, hwrite, c', hc', rfl, rfl, rfl⟩ := hchains
  have hreachable : (deployment.system deployment.Outside).Reachable c := by
    have hstart := execute_anything_reachable hc₀
    exact .step (e := .outside) hstart (write_outside (reachable_represents hstart) hwrite)
  have hactions : ∀ k, (deployment.system (deployment.Spares k)).Run _ c c' :=
    fun k => performAll_run (paysIn_instructions (by simp [deposit, withdraw])) hc'
  obtain ⟨hwallet, -⟩ := bystanders_keep hreachable (not_isProgramAddress (by decide))
    (hactions friendKey)
  obtain ⟨-, -, hlamports⟩ := hwallet (by rw [hfriend]; rfl) (by decide)
  obtain ⟨-, htokens⟩ := bystanders_keep hreachable (not_isProgramAddress (by decide))
    (hactions savingsKey)
  have hauthority : ∀ authority, savings.Authorises authority → authority = ownerKey := by
    rintro authority (hown | hdelegate)
    · exact hown
    · cases hdelegate
  obtain ⟨amount, hmore, hafter, -⟩ := htokens savings ⟨by rw [hsavings], by rw [hsavings]⟩
    (fun authority hmay => by
      rw [hauthority authority hmay]
      exact ⟨not_isProgramAddress (by decide), by decide⟩)
  exact ⟨c₀, c, c', hc, hlamports, amount, hmore, hafter⟩

end

end Tenderize
