import Tenderize.Properties.Holdings
import Tenderize.Reference.Pool

/-!
# What DelegateReserve records

The balances of a batch are added up in memory, and the list is written back only if some
sub-instruction raised a `stake_count`.  A batch that only tops up existing stake accounts
takes lamports out of the reserve without recording them.
-/

namespace Tenderize

open Support

variable {D : Deployment} {W : Set Pubkey} {c : Chain}

/-- Lamports a batch delegates to one validator. -/
def delegatedTo (pairs : List (Pubkey × DelegateReserveInstruction)) (v : Pubkey) : Nat :=
  ((pairs.filter (fun p => p.1 = v)).map (fun p => p.2.amount.toNat)).sum

/-- What a list records for each validator. -/
def recordedBalances (V : List ValidatorStakeInfo) : List (Pubkey × Nat) :=
  V.map (fun r => (r.validatorAccount, r.balance.toNat))

/-- The delegated amounts are recorded, the recorded total is unchanged, and
`UpdatePoolBalance` gives the same total before and after. -/
structure Deployment.Conserves (D : Deployment)
    (pairs : List (Pubkey × DelegateReserveInstruction)) (c c' : Chain) : Prop where
  records : recordedBalances (D.stateOf c'.ledger).list.validators =
    (recordedBalances (D.stateOf c.ledger).list.validators).map
      (fun row => (row.1, row.2 + delegatedTo pairs row.1))
  total : (D.stateOf c'.ledger).recordedTotal = (D.stateOf c.ledger).recordedTotal
  update : ∀ accounts L₁ L₂, D.Addressed accounts →
    processUpdatePoolBalance D.programs D.programId accounts c = .ok L₁ →
    processUpdatePoolBalance D.programs D.programId accounts c' = .ok L₂ →
    (D.stateOf L₂).pool.stakeTotal = (D.stateOf L₁).pool.stakeTotal

/-- Some sub-instruction creates a stake account: its index is not below the stored
`stake_count` of its validator. -/
def OpensStake (V : List ValidatorStakeInfo)
    (pairs : List (Pubkey × DelegateReserveInstruction)) : Prop :=
  ∃ p ∈ pairs, ∃ r, lookup ValidatorStakeInfo.validatorAccount p.1 V = some r ∧
    r.stakeCount ≤ p.2.stakeIndex

theorem delegatedTo_append (pairs : List (Pubkey × DelegateReserveInstruction))
    (p : Pubkey × DelegateReserveInstruction) (v : Pubkey) :
    delegatedTo (pairs ++ [p]) v =
      delegatedTo pairs v + if p.1 = v then p.2.amount.toNat else 0 := by
  unfold delegatedTo
  by_cases hv : p.1 = v <;> simp [List.filter_append, hv]

theorem delegatedTo_eq_zero_iff {pairs : List (Pubkey × DelegateReserveInstruction)}
    {v : Pubkey} : delegatedTo pairs v = 0 ↔ ∀ p ∈ pairs, p.1 = v → p.2.amount = 0 := by
  unfold delegatedTo
  simp only [List.sum_eq_zero_iff, List.mem_map, List.mem_filter, decide_eq_true_eq]
  constructor
  · intro h p hp hv
    exact UInt64.toNat_inj.mp (h _ ⟨p, ⟨hp, hv⟩, rfl⟩)
  · rintro h x ⟨p, ⟨hp, hv⟩, rfl⟩
    rw [h p hp hv]
    rfl

/-! ## The loop -/

variable (D W) in
/-- The batch after the sub-instructions `done`, over the stored list `V₀`. -/
structure Deployment.Delegated (V₀ : List ValidatorStakeInfo) (total₀ : Nat)
    (done : List (Pubkey × DelegateReserveInstruction)) (b : Batch) : Prop where
  listed : Deployment.Listed W b.books.validators
  bound : ∀ v ∈ W, D.heldAll b.books.stakes v + b.books.reserve.toNat < 2 ^ 64
  covered : ∀ r ∈ b.books.validators, D.BalanceHeld b.books.stakes r
  known : ∀ p ∈ done, p.1 ∈ V₀.map ValidatorStakeInfo.validatorAccount
  records : recordedBalances b.books.validators =
    (recordedBalances V₀).map (fun row => (row.1, row.2 + delegatedTo done row.1))
  total : b.books.reserve.toNat +
    (b.books.validators.map (fun r => r.balance.toNat)).sum = total₀
  places : b.changed = false →
    V₀.map ValidatorStakeInfo.place = b.books.validators.map ValidatorStakeInfo.place
  changed : b.changed = true ↔ OpensStake V₀ done

section Loop

variable {V₀ : List ValidatorStakeInfo} {total₀ : Nat} {b b' : Batch}
  {done : List (Pubkey × DelegateReserveInstruction)} {p : Pubkey × DelegateReserveInstruction}

theorem Deployment.Delegated.names_eq (h : D.Delegated W V₀ total₀ done b) :
    b.books.validators.map ValidatorStakeInfo.validatorAccount =
      V₀.map ValidatorStakeInfo.validatorAccount := by
  have hnames := congrArg (List.map Prod.fst) h.records
  simpa [recordedBalances, Function.comp_def] using hnames

theorem opensStake_append :
    OpensStake V₀ (done ++ [p]) ↔ OpensStake V₀ done ∨ OpensStake V₀ [p] := by
  unfold OpensStake
  simp only [List.mem_append, or_and_right, exists_or]

/-- While nothing was raised, the counts in memory are the stored ones. -/
theorem opensStake_singleton_iff {r : ValidatorStakeInfo} (hV : Deployment.Listed W V₀)
    (hplaces : V₀.map ValidatorStakeInfo.place = b.books.validators.map ValidatorStakeInfo.place)
    (hfound : lookup ValidatorStakeInfo.validatorAccount p.1 b.books.validators = some r) :
    OpensStake V₀ [p] ↔ r.stakeCount ≤ p.2.stakeIndex := by
  obtain ⟨r₀, hr₀, hplace⟩ := Deployment.exists_same_place hplaces.symm (lookup_mem hfound)
  have hkey : r.validatorAccount = p.1 := lookup_key hfound
  have hname : r₀.validatorAccount = p.1 := (congrArg Prod.fst hplace).trans hkey
  have hcount : r₀.stakeCount = r.stakeCount := congrArg Prod.snd hplace
  have hstored := lookup_of_mem hV.nodup hr₀
  rw [hname] at hstored
  simp [OpensStake, hstored, hcount]

theorem delegated_balance (h : D.Delegated W V₀ total₀ done b) {r : ValidatorStakeInfo}
    (hfound : lookup ValidatorStakeInfo.validatorAccount p.1 b.books.validators = some r)
    (hamount : p.2.amount ≤ b.books.reserve) :
    (r.delegated p.2).balance.toNat = r.balance.toNat + p.2.amount.toNat := by
  have hcovered := h.covered r (lookup_mem hfound)
  have hbound := h.bound _ (h.listed.names r (lookup_mem hfound))
  have hle := UInt64.le_iff_toNat_le.mp hamount
  unfold Deployment.BalanceHeld at hcovered
  apply toNat_add_of_lt
  omega

/-- Replacing the record adds the amount to one balance. -/
theorem records_delegated {r : ValidatorStakeInfo} {V : List ValidatorStakeInfo}
    (hV : Deployment.Listed W V)
    (hfound : lookup ValidatorStakeInfo.validatorAccount p.1 V = some r)
    (hbalance : (r.delegated p.2).balance.toNat = r.balance.toNat + p.2.amount.toNat) :
    (updateFirst ValidatorStakeInfo.validatorAccount p.1 (r.delegated p.2) V).map
        (fun r => (r.validatorAccount, r.balance.toNat)) =
      (recordedBalances V).map
        (fun row => (row.1, row.2 + if p.1 = row.1 then p.2.amount.toNat else 0)) := by
  have hname : r.validatorAccount = p.1 := lookup_key hfound
  have hothers : ∀ row ∈ V, row.validatorAccount ≠ p.1 →
      (row.validatorAccount, row.balance.toNat) = (row.validatorAccount,
        row.balance.toNat + if p.1 = row.validatorAccount then p.2.amount.toNat else 0) := by
    intro row _ hne
    rw [if_neg (Ne.symm hne), Nat.add_zero]
  obtain ⟨before, after, hbefore, hafter⟩ :=
    map_updateFirst_of_others hV.nodup hfound hothers (r.delegated p.2)
  rw [hafter, recordedBalances, List.map_map]
  change _ = V.map (fun row => (row.validatorAccount,
    row.balance.toNat + if p.1 = row.validatorAccount then p.2.amount.toNat else 0))
  rw [hbefore, hbalance, if_pos hname.symm]
  rfl

theorem Deployment.Delegated.step (hW : D.NoCollision W) (hV : Deployment.Listed W V₀)
    (h : D.Delegated W V₀ total₀ done b) (hstep : D.DelegateStep p b b') :
    D.Delegated W V₀ total₀ (done ++ [p]) b' := by
  obtain ⟨r, hmoved, hindex, hflag⟩ := hstep.replaced hW h.listed.names
  have hv := Deployment.lookup_mem_names h.listed.names hmoved.found
  have hgained := hstep.gained hW hv
  obtain ⟨hamount, hreserve, -⟩ := hstep.moved (hW.ne_reserve _ hv _)
  have hsub := UInt64.toNat_sub_of_le _ _ hamount
  have hle := UInt64.le_iff_toNat_le.mp hamount
  have hbalance := delegated_balance h hmoved.found hamount
  have hlist := hmoved.validators
  rw [putRecord, hmoved.name] at hlist
  constructor
  case listed => exact h.listed.of_names_eq hmoved.names_eq
  case bound =>
      intro v' hv'
      have hbound := h.bound v' hv'
      rw [hreserve]
      by_cases hsame : v' = p.1
      · subst hsame
        have hheld := hgained.held (2 ^ 32) p.2.stakeIndex.toNat_lt le_rfl
        unfold Deployment.heldAll at hbound ⊢
        omega
      · have hheld : D.heldAll b'.books.stakes v' = D.heldAll b.books.stakes v' :=
          Deployment.held_congr le_rfl fun i _ => hmoved.others v' hv' hsame i
        omega
  case covered =>
      exact hmoved.records h.listed False.elim (balanceHeld_rule False) h.covered
  case known =>
      intro q hq
      rcases List.mem_append.mp hq with hold | hnew
      · exact h.known q hold
      · rw [List.mem_singleton.mp hnew, ← h.names_eq, ← lookup_key hmoved.found]
        exact List.mem_map_of_mem (lookup_mem hmoved.found)
  case records =>
      rw [recordedBalances, hlist, records_delegated h.listed hmoved.found hbalance, h.records,
        List.map_map]
      apply List.map_congr_left
      intro row _
      simp only [Function.comp_apply, delegatedTo_append, Nat.add_assoc]
  case total =>
      have hsum := sum_updateFirst (fun r => r.balance.toNat) hmoved.found (r.delegated p.2)
      have htotal := h.total
      rw [hlist, hreserve]
      omega
  case places =>
      intro hunchanged
      rw [hflag, Bool.or_eq_false_iff, decide_eq_false_iff_not] at hunchanged
      rw [h.places hunchanged.1, hmoved.places_eq]
      rw [Deployment.delegated_count_eq_iff r p.2 hindex]
      exact UInt32.not_le.mp hunchanged.2
  case changed =>
      rw [opensStake_append, hflag, Bool.or_eq_true, decide_eq_true_eq, h.changed]
      by_cases hchanged : b.changed = true
      · have hopens := h.changed.mp hchanged
        simp only [hopens, true_or]
      · rw [Bool.not_eq_true] at hchanged
        rw [opensStake_singleton_iff hV (h.places hchanged) hmoved.found]

end Loop

/-! ## UpdatePoolBalance adds up the records -/

theorem processUpdatePoolBalance_total {accounts : List AccountInfo} {L' : Ledger}
    (h : D.Represents c.ledger (D.stateOf c.ledger)) (ha : D.Addressed accounts)
    (hrun : processUpdatePoolBalance D.programs D.programId accounts c = .ok L') :
    (D.stateOf L').pool.stakeTotal = UInt64.ofNat (D.stateOf c.ledger).recordedTotal := by
  obtain ⟨s', hstep, h'⟩ := processUpdatePoolBalance_refines h ha hrun
  rw [← h'.eq_stateOf]
  cases hstep with
  | updatePool clock total hsum => exact addBalances_ok hsum

/-! ## The instruction -/

section Instruction

variable {instructions : List DelegateReserveInstruction} {accounts : List AccountInfo}

/-- The vote account of every sub-instruction. -/
def delegations (accounts : List AccountInfo) (instructions : List DelegateReserveInstruction) :
    List (Pubkey × DelegateReserveInstruction) :=
  (voteKeys (accounts.drop 12)).zip instructions

theorem amounts_zero_iff (hlength : instructions.length ≤ (voteKeys (accounts.drop 12)).length) :
    (∀ p ∈ delegations accounts instructions, p.2.amount = 0) ↔
      ∀ i ∈ instructions, i.amount = 0 := by
  constructor
  · intro h i hi
    have hsecond : (delegations accounts instructions).map Prod.snd = instructions :=
      List.map_snd_zip hlength
    rw [← hsecond, List.mem_map] at hi
    obtain ⟨p, hp, rfl⟩ := hi
    exact h p hp
  · intro h p hp
    exact h p.2 (List.of_mem_zip hp).2

/-- Nothing is recorded for anybody exactly if all amounts are zero. -/
theorem delegatedTo_none_iff {V : List ValidatorStakeInfo}
    {pairs : List (Pubkey × DelegateReserveInstruction)}
    (hknown : ∀ p ∈ pairs, p.1 ∈ V.map ValidatorStakeInfo.validatorAccount) :
    recordedBalances V =
        (recordedBalances V).map (fun row => (row.1, row.2 + delegatedTo pairs row.1)) ↔
      ∀ p ∈ pairs, p.2.amount = 0 := by
  have hrows : recordedBalances V =
        (recordedBalances V).map (fun row => (row.1, row.2 + delegatedTo pairs row.1)) ↔
      ∀ r ∈ V, delegatedTo pairs r.validatorAccount = 0 := by
    simp [recordedBalances, Function.comp_def]
  rw [hrows]
  constructor
  · intro h p hp
    obtain ⟨r, hr, hname⟩ := List.mem_map.mp (hknown p hp)
    exact delegatedTo_eq_zero_iff.mp (h r hr) p hp hname.symm
  · intro h r _
    exact delegatedTo_eq_zero_iff.mpr fun p hp _ => h p hp

theorem recordedTotal_congr {V V' : List ValidatorStakeInfo}
    (h : recordedBalances V' = recordedBalances V) :
    (V'.map (fun r => r.balance.toNat)).sum = (V.map (fun r => r.balance.toNat)).sum := by
  have hsecond := congrArg (List.map Prod.snd) h
  simp only [recordedBalances, List.map_map, Function.comp_def] at hsecond
  rw [hsecond]

/-- The records and the total decide; `UpdatePoolBalance` follows. -/
theorem conserves_iff {c' : Chain} {pairs : List (Pubkey × DelegateReserveInstruction)}
    (h : D.Represents c.ledger (D.stateOf c.ledger))
    (h' : D.Represents c'.ledger (D.stateOf c'.ledger)) :
    D.Conserves pairs c c' ↔
      recordedBalances (D.stateOf c'.ledger).list.validators =
          (recordedBalances (D.stateOf c.ledger).list.validators).map
            (fun row => (row.1, row.2 + delegatedTo pairs row.1)) ∧
        (D.stateOf c'.ledger).recordedTotal = (D.stateOf c.ledger).recordedTotal := by
  constructor
  · intro hc
    exact ⟨hc.records, hc.total⟩
  · rintro ⟨hrecords, htotal⟩
    refine ⟨hrecords, htotal, ?_⟩
    intro accounts L₁ L₂ ha hbefore hafter
    rw [processUpdatePoolBalance_total h' ha hafter, htotal,
      processUpdatePoolBalance_total h ha hbefore]

theorem commit_conserves_iff {s : PoolState} {b : Batch}
    {pairs : List (Pubkey × DelegateReserveInstruction)}
    (h : D.Delegated W s.list.validators s.recordedTotal pairs b) :
    (recordedBalances (s.commit b).list.validators =
          (recordedBalances s.list.validators).map
            (fun row => (row.1, row.2 + delegatedTo pairs row.1)) ∧
        (s.commit b).recordedTotal = s.recordedTotal) ↔
      OpensStake s.list.validators pairs ∨ ∀ p ∈ pairs, p.2.amount = 0 := by
  by_cases hchanged : b.changed = true
  · have hlist : (s.commit b).list.validators = b.books.validators := by
      simp [PoolState.commit, hchanged]
    have htotal : (s.commit b).recordedTotal = s.recordedTotal := by
      rw [PoolState.recordedTotal, hlist]
      exact h.total
    rw [hlist]
    exact ⟨fun _ => .inl (h.changed.mp hchanged), fun _ => ⟨h.records, htotal⟩⟩
  · have hclosed : ¬OpensStake s.list.validators pairs := fun hopens =>
      hchanged (h.changed.mpr hopens)
    have hlist : (s.commit b).list.validators = s.list.validators := by
      simp [PoolState.commit, hchanged]
    have hnone := delegatedTo_none_iff h.known
    rw [hlist, hnone]
    constructor
    · exact fun hc => .inr hc.1
    · rintro (hopens | hzero)
      · exact absurd hopens hclosed
      · refine ⟨hzero, ?_⟩
        have hrecords := h.records
        rw [← hnone.mpr hzero] at hrecords
        have htotal := h.total
        rw [recordedTotal_congr hrecords] at htotal
        rw [PoolState.recordedTotal, hlist]
        exact htotal

/-- A successful `DelegateReserve` records what it delegates exactly if it opens a stake
account, or delegates nothing. -/
theorem delegateReserve_conserves_iff {L' : Ledger} (hW : D.NoCollision W)
    (h : ((D.system D.Outside).restrict (fun _ e => e.AddsIn W)).Reachable c)
    (hbound : ∀ v ∈ W, D.heldAll (D.stateOf c.ledger).stakes v +
      (D.stateOf c.ledger).reserve.toNat < 2 ^ 64)
    (ha : D.Addressed accounts)
    (hrun : processDelegateReserve D.programs D.programId instructions accounts c = .ok L') :
    D.Conserves (delegations accounts instructions) c { c with ledger := L' } ↔
      OpensStake (D.stateOf c.ledger).list.validators (delegations accounts instructions) ∨
        ∀ i ∈ instructions, i.amount = 0 := by
  obtain ⟨hs, hcovered⟩ := reachable_covered hW h
  obtain ⟨hlength, -, b, hsteps, h'⟩ := processDelegateReserve_refines hs ha hrun
  have hstart : D.Delegated W (D.stateOf c.ledger).list.validators
      (D.stateOf c.ledger).recordedTotal [] ⟨(D.stateOf c.ledger).books, false⟩ :=
    { listed := hcovered.listed
      bound := hbound
      covered := hcovered.balance
      known := fun p hp => nomatch hp
      records := by simp [delegatedTo, PoolState.books]
      total := rfl
      places := fun _ => rfl
      changed := by simp [OpensStake] }
  have hdelegated : D.Delegated W (D.stateOf c.ledger).list.validators
      (D.stateOf c.ledger).recordedTotal (delegations accounts instructions) b :=
    RunList.history_invariant
      (fun done p b b' hb hstep => hb.step hW hcovered.listed hstep) hsteps [] hstart
  have hL : D.stateOf L' = (D.stateOf c.ledger).commit b := h'.eq_stateOf.symm
  rw [conserves_iff hs (hL ▸ h'), ← amounts_zero_iff hlength]
  change recordedBalances (D.stateOf L').list.validators = _ ∧ (D.stateOf L').recordedTotal = _ ↔ _
  rw [hL]
  exact commit_conserves_iff hdelegated

end Instruction

section

open Reference

/-- Events that add the validator or deposit. -/
def addsOrDeposits : Event → Bool
  | .instruction .addValidator accounts =>
      addedAccount .addValidator accounts = some validatorKey
  | .instruction (.deposit _) _ => true
  | _ => false

/-- Deposits stay in the reserve. -/
theorem unstaked_invariant :
    (deployment.poolSystem.restrict (fun _ op =>
        (∃ v, op = .addValidator v) ∨ ∃ amount mint, op = .deposit amount mint)).Invariant
      (fun s => ∀ v i, s.stakes (deployment.stakeKey v i) = 0) where
  init s hs := hs.stakes
  step s op s' h hstep := by
    obtain ⟨hpool, ⟨v, rfl⟩ | ⟨amount, mint, rfl⟩⟩ := hstep
    · cases hpool
      exact h
    · cases hpool
      exact h

theorem reachable_unstaked
    (h : ((deployment.system deployment.Outside).restrict
      (fun _ e => addsOrDeposits e = true)).Reachable c) :
    ∀ v i, (deployment.stateOf c.ledger).stakes (deployment.stakeKey v i) = 0 := by
  refine (reachable_invariant False _ _ (fun _ _ hout => hout) False.elim ?_
    unstaked_invariant h).2
  intro c e s op _ hmatch hguard
  cases hmatch with
  | addValidator => exact .inl ⟨_, rfl⟩
  | deposit => exact .inr ⟨_, _, rfl⟩
  | _ => cases hguard

def depositRun : List Action :=
  [addValidator validatorKey, deposit 1000000000 userTokensKey mintKey]

theorem addsOrDeposits_addsIn {e : Event} (h : addsOrDeposits e = true) :
    e.AddsIn {validatorKey} := by
  cases e with
  | outside => trivial
  | instruction i accounts =>
      intro v hv
      cases i with
      | addValidator =>
          have hkey := of_decide_eq_true h
          rw [hkey] at hv
          exact (Option.some.inj hv).symm
      | _ => cases hv

/-- The first delegation of a deposit is recorded. -/
theorem delegateReserve_conserves_first :
    ∃ c L', execute (fun _ e => addsOrDeposits e) depositRun = .ok c ∧
      processDelegateReserve programs programId [⟨100000000, 0⟩] (delegateAccounts [0]) c =
        .ok L' ∧
      deployment.Conserves [(validatorKey, ⟨100000000, 0⟩)] c { c with ledger := L' } := by
  have hrun : (execute (fun _ e => addsOrDeposits e) depositRun >>= fun c =>
      (processDelegateReserve programs programId [⟨100000000, 0⟩] (delegateAccounts [0]) c).map
        (fun _ => (deployment.stateOf c.ledger).list.validators)) =
      .ok [⟨validatorKey, 0, 0, 0⟩] := by decide +kernel
  obtain ⟨c, hc, hlast⟩ := bind_eq_ok.mp hrun
  obtain ⟨L', hL, hlist⟩ := map_eq_ok.mp hlast
  refine ⟨c, L', hc, hL, ?_⟩
  apply (delegateReserve_conserves_iff (noCollision validatorKey)
    (execute_reachable (fun _ _ => addsOrDeposits_addsIn) hc) ?_
    (addressed_spec (by decide)) hL).mpr
  · left
    rw [hlist]
    exact ⟨(validatorKey, ⟨100000000, 0⟩), by decide, _, rfl, by decide⟩
  · intro v _
    have hnone := reachable_unstaked (execute_reachable (fun _ _ h => h) hc)
    have hheld : deployment.heldAll (deployment.stateOf c.ledger).stakes v = 0 :=
      Deployment.held_eq_zero (hnone v)
    rw [hheld, Nat.zero_add]
    exact UInt64.toNat_lt _

/-- A second delegation to the same stake account is forgotten. -/
theorem delegateReserve_drops_balance :
    ∃ c L', (deployment.system deployment.Outside).Reachable c ∧
      deployment.Addressed (delegateAccounts [0]) ∧
      processDelegateReserve programs programId [⟨100000000, 0⟩] (delegateAccounts [0]) c =
        .ok L' ∧
      ¬deployment.Conserves [(validatorKey, ⟨100000000, 0⟩)] c { c with ledger := L' } := by
  have hrun : (execute anything (depositRun ++ [delegate [⟨100000000, 0⟩]]) >>= fun c =>
      (processDelegateReserve programs programId [⟨100000000, 0⟩] (delegateAccounts [0]) c).map
        (fun L => (recordedBalances (deployment.stateOf c.ledger).list.validators,
          recordedBalances (deployment.stateOf L).list.validators))) =
      .ok ([(validatorKey, 100000000)], [(validatorKey, 100000000)]) := by decide +kernel
  obtain ⟨c, hc, hlast⟩ := bind_eq_ok.mp hrun
  obtain ⟨L', hL, hlists⟩ := map_eq_ok.mp hlast
  obtain ⟨hbefore, hafter⟩ := Prod.mk.inj hlists
  refine ⟨c, L', execute_anything_reachable hc, addressed_spec (by decide), hL, ?_⟩
  intro hconserves
  have hrecords := hconserves.records
  change recordedBalances (deployment.stateOf L').list.validators = _ at hrecords
  rw [hbefore, hafter] at hrecords
  exact absurd hrecords (by decide)

end

end Tenderize
