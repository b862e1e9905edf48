import Tenderize.Properties.Encoding

/-!
# Requests to unstake

What `unstakeInstruction` writes for an unstake and which accounts it pushes, against
what the parser reads and the handler takes.  The client decides by the truth value of
the split index whether there is one, and zero is false.
-/

namespace Tenderize

open Support

variable {P : Programs}

namespace Unstake

variable (u : Unstake)

/-- Index and amount fit their words, and a split index names another account. -/
structure InRange : Prop where
  source : 0 ≤ u.sourceIndex ∧ u.sourceIndex < 2 ^ 32
  split : ∀ i, u.splitIndex = some i → (0 ≤ i ∧ i < 2 ^ 32) ∧ i ≠ u.sourceIndex
  amount : ∀ n, u.amount = some n → 0 ≤ n ∧ n < 2 ^ 64

/-- The split index on the chain: that of the source stands for a full unstake. -/
def splitOrSource : Int := u.splitIndex.getD u.sourceIndex

/-- The sub-instruction an unstake asks for. -/
def requested : UnstakeInstruction :=
  ⟨u.validator, word32 u.sourceIndex, word32 u.splitOrSource, word64 (u.amount.getD 0)⟩

/-- The sub-instruction that is written. -/
def written : UnstakeInstruction :=
  ⟨u.validator, word32 u.sourceIndex, word32 (orElse u.splitIndex u.sourceIndex),
    word64 (orElse u.amount 0)⟩

/-- The packed record of the sub-instruction. -/
def bytes : List UInt8 :=
  u.validator.toBytes ++ leBytes 4 u.sourceIndex.toNat ++
    leBytes 4 (orElse u.splitIndex u.sourceIndex).toNat ++ leBytes 8 (orElse u.amount 0).toNat

variable {u}

theorem orElse_zero (value : Option Int) : orElse value 0 = value.getD 0 := by
  cases value with
  | none => rfl
  | some n =>
      by_cases hn : n = 0
      · simp [orElse, truthy, hn]
      · simp [orElse, truthy, hn]

theorem InRange.written_split (h : u.InRange) :
    0 ≤ orElse u.splitIndex u.sourceIndex ∧ orElse u.splitIndex u.sourceIndex < 2 ^ 32 := by
  unfold orElse
  split
  · cases hsplit : u.splitIndex with
    | none => exact h.source
    | some i => exact (h.split i hsplit).1
  · exact h.source

theorem InRange.written_amount (h : u.InRange) :
    0 ≤ orElse u.amount 0 ∧ orElse u.amount 0 < 2 ^ 64 := by
  rw [orElse_zero]
  cases hamount : u.amount with
  | none => exact ⟨le_rfl, by decide⟩
  | some n => exact h.amount n hamount

/-- A split index other than zero is written as it is given. -/
theorem orElse_split (h : u.splitIndex ≠ some 0) :
    orElse u.splitIndex u.sourceIndex = u.splitOrSource := by
  cases hsplit : u.splitIndex with
  | none => simp [orElse, truthy, splitOrSource, hsplit]
  | some i =>
      have hi : i ≠ 0 := fun hzero => h (by rw [hsplit, hzero])
      simp [orElse, truthy, splitOrSource, hsplit, hi]

theorem word32_inj {a b : Int} (ha : 0 ≤ a ∧ a < 2 ^ 32) (hb : 0 ≤ b ∧ b < 2 ^ 32)
    (h : word32 a = word32 b) : a = b := by
  rw [← toNat_word32 ha.1 ha.2, h, toNat_word32 hb.1 hb.2]

/-- The request is written unless it asks for a split into the account of index zero. -/
theorem InRange.written_eq_iff (h : u.InRange) :
    u.written = u.requested ↔ u.splitIndex ≠ some 0 := by
  constructor
  · intro heq hsplit
    have hindex : word32 (orElse u.splitIndex u.sourceIndex) = word32 u.splitOrSource :=
      congrArg UnstakeInstruction.splitIndex heq
    have hsource : orElse u.splitIndex u.sourceIndex = u.sourceIndex := by
      rw [hsplit]
      rfl
    have hzero : u.splitOrSource = 0 := by
      rw [splitOrSource, hsplit]
      rfl
    rw [hsource, hzero] at hindex
    exact (h.split 0 hsplit).2 (word32_inj h.source ⟨le_rfl, by decide⟩ hindex).symm
  · intro hsplit
    rw [written, requested, orElse_split hsplit, orElse_zero]

theorem length_bytes (u : Unstake) : u.bytes.length = 48 := by
  simp [bytes]

theorem InRange.read (h : u.InRange) (rest : List UInt8) :
    UnstakeInstruction.raw.read (u.bytes ++ rest) = u.written := by
  obtain ⟨hlow, hhigh⟩ := h.source
  obtain ⟨hsplit, hsplit'⟩ := h.written_split
  obtain ⟨hamount, hamount'⟩ := h.written_amount
  have hsource : u.sourceIndex.toNat < 2 ^ 32 := by omega
  have hindex : (orElse u.splitIndex u.sourceIndex).toNat < 2 ^ 32 := by omega
  have hlamports : (orElse u.amount 0).toNat < 2 ^ 64 := by omega
  unfold UnstakeInstruction.raw bytes written word32 word64
  simp [drop_behind, readPubkey_append, readU32_append hsource, readU32_append hindex,
    readU64_append hlamports]

end Unstake

namespace TenderizeProgram

variable (P) (this : TenderizeProgram)

/-- The accounts an unstake is about: the source, and the split account if there is one. -/
def unstakeAccounts (u : Unstake) : List AccountInfo :=
  plainKey (this.stakeAddress P u.validator u.sourceIndex) ::
    (u.splitIndex.map fun i => plainKey (this.stakeAddress P u.validator i)).toList

/-- The accounts that are pushed for it. -/
def pushedAccounts (u : Unstake) : List AccountInfo :=
  if truthy u.splitIndex then
    [plainKey (this.stakeAddress P u.validator u.sourceIndex),
      plainKey (this.stakeAddress P u.validator u.splitOrSource)]
  else [plainKey (this.stakeAddress P u.validator u.sourceIndex)]

theorem pushedAccounts_eq {u : Unstake} (h : u.splitIndex ≠ some 0) :
    this.pushedAccounts P u = this.unstakeAccounts P u := by
  cases hsplit : u.splitIndex with
  | none => simp [pushedAccounts, unstakeAccounts, truthy, hsplit]
  | some i =>
      have hi : i ≠ 0 := fun hzero => h (by rw [hsplit, hzero])
      simp [pushedAccounts, unstakeAccounts, truthy, hsplit, hi, Unstake.splitOrSource]

theorem pushUnstake_written {u : Unstake} (h : u.InRange) {size : Nat} (items : Buffer)
    (keys : List AccountInfo) (hroom : items.length + u.bytes.length ≤ size) :
    this.pushUnstake P u (written size items, items.length, keys) =
      .ok (written size (items ++ u.bytes), (items ++ u.bytes).length,
        keys ++ this.pushedAccounts P u) := by
  obtain ⟨hlow, hhigh⟩ := h.source
  obtain ⟨hsplit, hsplit'⟩ := h.written_split
  obtain ⟨hamount, hamount'⟩ := h.written_amount
  have hlength := u.length_bytes
  have hcopy : Buffer.copy u.validator.toBytes (written size items) items.length =
      (written size (items ++ u.validator.toBytes), 32) := by
    rw [copy_written items rfl (by simp; omega), Pubkey.length_toBytes]
  have hsource : writeUInt32LE (written size (items ++ u.validator.toBytes)) u.sourceIndex
      (items.length + 32) =
      .ok (written size (items ++ u.validator.toBytes ++ leBytes 4 u.sourceIndex.toNat),
        items.length + 32 + 4) :=
    writeWord_written _ hlow hhigh hlow hhigh (by simp) (by omega)
  have hindex : writeUInt32LE
      (written size (items ++ u.validator.toBytes ++ leBytes 4 u.sourceIndex.toNat))
      (orElse u.splitIndex u.sourceIndex) (items.length + 32 + 4) =
      .ok (written size (items ++ u.validator.toBytes ++ leBytes 4 u.sourceIndex.toNat ++
        leBytes 4 (orElse u.splitIndex u.sourceIndex).toNat), items.length + 32 + 4 + 4) :=
    writeWord_written _ hsplit hsplit' hsplit hsplit' (by simp) (by omega)
  have hlamports : writeBigUInt64LE
      (written size (items ++ u.validator.toBytes ++ leBytes 4 u.sourceIndex.toNat ++
        leBytes 4 (orElse u.splitIndex u.sourceIndex).toNat))
      (orElse u.amount 0) (items.length + 32 + 4 + 4) =
      .ok (written size (items ++ u.validator.toBytes ++ leBytes 4 u.sourceIndex.toNat ++
        leBytes 4 (orElse u.splitIndex u.sourceIndex).toNat ++
        leBytes 8 (orElse u.amount 0).toNat), items.length + 32 + 4 + 4 + 8) :=
    writeWord_written _ hamount hamount' hamount hamount' (by simp) (by omega)
  have hbytes : items ++ u.validator.toBytes ++ leBytes 4 u.sourceIndex.toNat ++
      leBytes 4 (orElse u.splitIndex u.sourceIndex).toNat ++
      leBytes 8 (orElse u.amount 0).toNat = items ++ u.bytes := by
    simp [Unstake.bytes]
  rw [hbytes] at hlamports
  have hp : items.length + 32 + 4 + 4 + 8 = (items ++ u.bytes).length := by
    rw [List.length_append]
    omega
  rw [hp] at hlamports
  have hstake := getStakeForValidator_ok (P := P) this u.validator hlow hhigh
  by_cases htruthy : truthy u.splitIndex
  · have hrange : 0 ≤ u.splitOrSource ∧ u.splitOrSource < 2 ^ 32 := by
      have heq : orElse u.splitIndex u.sourceIndex = u.splitOrSource := if_pos htruthy
      rw [← heq]
      exact h.written_split
    have hsplitStake := getStakeForValidator_ok (P := P) this u.validator hrange.1 hrange.2
    simp only [pushUnstake, hcopy, bind_eq_ok, Prod.exists, if_pos htruthy, pure_eq_ok]
    refine ⟨_, _, hsource, _, _, hindex, _, _, hlamports, _, hstake, _, hsplitStake, ?_⟩
    rw [pushedAccounts, if_pos htruthy]
    rfl
  · simp only [pushUnstake, hcopy, bind_eq_ok, Prod.exists, if_neg htruthy, pure_eq_ok]
    refine ⟨_, _, hsource, _, _, hindex, _, _, hlamports, _, hstake, ?_⟩
    rw [pushedAccounts, if_neg htruthy]
    rfl

theorem unstakeInstruction_ok {unstakes : List Unstake} (hcount : unstakes.length < 2 ^ 32)
    (hrange : ∀ u ∈ unstakes, u.InRange) :
    this.unstakeInstruction P unstakes =
      .ok ⟨this.unstakeKeys P ++ unstakes.flatMap (this.pushedAccounts P), this.programId,
        batchData 14 Unstake.bytes unstakes⟩ := by
  have hlength : (unstakes.flatMap Unstake.bytes).length = unstakes.length * 48 :=
    length_flatMap_of_size fun u _ => u.length_bytes
  obtain ⟨htag, hheader⟩ := header_written (1 + 4 + (32 + 4 + 4 + 8) * unstakes.length)
    (by decide : 14 < 256) hcount (by omega)
  have hroom : (leBytes 1 14 ++ leBytes 4 unstakes.length).length +
      (unstakes.flatMap Unstake.bytes).length ≤ 1 + 4 + (32 + 4 + 4 + 8) * unstakes.length := by
    rw [hlength, List.length_append, length_leBytes, length_leBytes]
    omega
  have hloop := foldlM_written (1 + 4 + (32 + 4 + 4 + 8) * unstakes.length)
    Unstake.bytes (this.pushedAccounts P) (fun out u => this.pushUnstake P u out)
    (fun u hu items keys => this.pushUnstake_written P (hrange u hu) items keys)
    (leBytes 1 14 ++ leBytes 4 unstakes.length) (this.unstakeKeys P) hroom
  simp only [unstakeInstruction, bind_eq_ok, pure_eq_ok, Prod.exists]
  refine ⟨_, _, htag, _, _, hheader, _, _, _, hloop, ?_⟩
  rw [written_batch (by decide) (by omega)]

end TenderizeProgram

theorem deserialize_unstakes {unstakes : List Unstake} (hne : unstakes ≠ [])
    (hcount : unstakes.length < 2 ^ 32) (hrange : ∀ u ∈ unstakes, u.InRange) :
    StakePoolInstruction.deserialize (TenderizeProgram.batchData 14 Unstake.bytes unstakes) =
      .ok (.unstake (unstakes.map Unstake.written)) := by
  have hslice : unpackSlice UnstakeInstruction.raw
      (TenderizeProgram.batchData 14 Unstake.bytes unstakes) = _ :=
    unpackSlice_records unstakes Unstake.bytes Unstake.written (by decide) hne hcount
      (fun u _ => u.length_bytes) (fun u hu => (hrange u hu).read)
  exact congrArg (Except.map StakePoolInstruction.unstake) hslice

/-! ## What the handler takes -/

section Handler

variable {programId : Pubkey} {a : UnstakeAccounts} {chain : Chain} {depositBump : UInt8}

/-- How many accounts a sub-instruction takes. -/
def UnstakeInstruction.accountCount (instruction : UnstakeInstruction) : Nat :=
  if instruction.splitIndex = instruction.sourceIndex then 1 else 2

theorem unstakeOne_accounts {instruction : UnstakeInstruction} {x x' : BatchState}
    (hrun : unstakeOne P programId a chain depositBump instruction x = .ok x') :
    x'.accounts = x.accounts.drop instruction.accountCount := by
  simp only [unstakeOne, bind_eq_ok, Prod.exists, nextAccountInfo_eq_ok] at hrun
  obtain ⟨_, _, _, _, _, _, source, rest, haccounts, _, _, hrun⟩ := hrun
  unfold UnstakeInstruction.accountCount
  rw [haccounts]
  split at hrun
  · rename_i hfull
    obtain ⟨L, -, hrun⟩ := bind_eq_ok.mp hrun
    obtain rfl := pure_eq_ok.mp hrun
    rw [if_pos hfull]
    rfl
  · rename_i hsplit
    simp only [bind_eq_ok, Prod.exists, nextAccountInfo_eq_ok] at hrun
    obtain ⟨_, _, rfl, _, _, L, -, hrun⟩ := hrun
    rw [if_neg hsplit]
    split at hrun <;>
    · obtain rfl := pure_eq_ok.mp hrun
      rfl

/-- After any number of sub-instructions the handler has taken their accounts and no other. -/
theorem unstakeLoop_accounts {keys : Unstake → List AccountInfo} (rest : List AccountInfo)
    (unstakes : List Unstake)
    (hkeys : ∀ u ∈ unstakes, (keys u).length = u.requested.accountCount) :
    ∀ {x x' : BatchState}, x.accounts = unstakes.flatMap keys ++ rest →
      unstakeLoop P programId a chain depositBump (unstakes.map Unstake.requested) x = .ok x' →
      x'.accounts = rest := by
  induction unstakes with
  | nil =>
      intro x x' haccounts hrun
      obtain rfl := Except.ok.inj hrun
      exact haccounts
  | cons u unstakes ih =>
      intro x x' haccounts hrun
      simp only [List.map_cons, unstakeLoop, bind_eq_ok] at hrun
      obtain ⟨x₁, hfirst, hrest⟩ := hrun
      refine ih (fun v hv => hkeys v (List.mem_cons_of_mem _ hv)) ?_ hrest
      rw [unstakeOne_accounts hfirst, haccounts, List.flatMap_cons, List.append_assoc,
        List.drop_left' (hkeys u List.mem_cons_self)]

end Handler

/-! ## Agreement -/

/-- A request reaches the chain unchanged: the parser reads the sub-instructions it asks for,
and after any number `k` of them the handler is left with the accounts of the others. -/
def UnstakeArrives (P : Programs) (this : TenderizeProgram) (unstakes : List Unstake) : Prop :=
  ∃ tx, this.unstakeInstruction P unstakes = .ok tx ∧
    StakePoolInstruction.deserialize tx.data =
      .ok (.unstake (unstakes.map Unstake.requested)) ∧
    tx.keys = this.unstakeKeys P ++ unstakes.flatMap (this.unstakeAccounts P) ∧
    ∀ chain, ∃ a, UnstakeAccounts.parse chain tx.keys = .ok a ∧
      ∀ depositBump list changed k x,
        unstakeLoop P this.programId a chain depositBump
          ((unstakes.take k).map Unstake.requested) ⟨list, changed, a.rest, chain.ledger⟩ = .ok x →
        x.accounts = (unstakes.drop k).flatMap (this.unstakeAccounts P)

section Agreement

variable (this : TenderizeProgram)

theorem length_unstakeAccounts {u : Unstake} (h : u.InRange) :
    (this.unstakeAccounts P u).length = u.requested.accountCount := by
  unfold UnstakeInstruction.accountCount TenderizeProgram.unstakeAccounts
  change _ = if word32 u.splitOrSource = word32 u.sourceIndex then 1 else 2
  cases hsplit : u.splitIndex with
  | none =>
      rw [if_pos (by rw [Unstake.splitOrSource, hsplit]; rfl)]
      rfl
  | some i =>
      obtain ⟨hi, hne⟩ := h.split i hsplit
      have hword : word32 u.splitOrSource ≠ word32 u.sourceIndex := by
        rw [Unstake.splitOrSource, hsplit]
        exact fun heq => hne (Unstake.word32_inj hi h.source heq)
      rw [if_neg hword]
      rfl

/-- A request to unstake reaches the chain unchanged exactly when none of its elements asks
for a split into the account of index zero. -/
theorem unstake_arrives_iff {unstakes : List Unstake} (hne : unstakes ≠ [])
    (hcount : unstakes.length < 2 ^ 32) (hrange : ∀ u ∈ unstakes, u.InRange) :
    UnstakeArrives P this unstakes ↔ ∀ u ∈ unstakes, u.splitIndex ≠ some 0 := by
  have hbuild := this.unstakeInstruction_ok P hcount hrange
  have hparse := deserialize_unstakes hne hcount hrange
  constructor
  · rintro ⟨tx, htx, hread, -⟩ u hu
    obtain rfl := Except.ok.inj (hbuild.symm.trans htx)
    have heq := StakePoolInstruction.unstake.inj (Except.ok.inj (hparse.symm.trans hread))
    exact (hrange u hu).written_eq_iff.mp (List.map_inj_left.mp heq u hu)
  · intro hsplit
    have hwritten : unstakes.map Unstake.written = unstakes.map Unstake.requested :=
      List.map_congr_left fun u hu => (hrange u hu).written_eq_iff.mpr (hsplit u hu)
    have hkeys : unstakes.flatMap (this.pushedAccounts P) =
        unstakes.flatMap (this.unstakeAccounts P) :=
      List.flatMap_congr fun u hu => this.pushedAccounts_eq P (hsplit u hu)
    rw [hwritten] at hparse
    rw [hkeys] at hbuild
    refine ⟨_, hbuild, hparse, rfl, fun chain => ⟨⟨_, _, _, _, _, _, _, _, _, _⟩, rfl, ?_⟩⟩
    intro depositBump list changed k x hrun
    have hsizes : ∀ u ∈ unstakes.take k,
        (this.unstakeAccounts P u).length = u.requested.accountCount :=
      fun u hu => length_unstakeAccounts this (hrange u (List.mem_of_mem_take hu))
    refine unstakeLoop_accounts _ (unstakes.take k) hsizes ?_ hrun
    change unstakes.flatMap (this.unstakeAccounts P) = _
    rw [← List.flatMap_append, List.take_append_drop]

end Agreement

section

open Reference

/-- A full unstake and a split into the next free account. -/
theorem unstake_arrives_twoStakes :
    UnstakeArrives programs ownerClient
      [⟨validatorKey, 0, none, none⟩, ⟨validatorKey, 1, some 2, some 100000000⟩] := by
  refine (unstake_arrives_iff ownerClient (List.cons_ne_nil _ _) (by decide) ?_).mpr ?_
  · intro u hu
    rcases List.mem_pair.mp hu with rfl | rfl
    · exact ⟨by decide, by simp, by simp⟩
    · exact ⟨by decide, by simp, by simp⟩
  · simp

/-- A split of stake 1 into the free account of index 0 arrives as a full unstake of stake 1. -/
theorem unstake_into_zero_lost :
    (∃ tx, ownerClient.unstakeInstruction programs
        [⟨validatorKey, 1, some 0, some 100000000⟩] = .ok tx ∧
      StakePoolInstruction.deserialize tx.data =
        .ok (.unstake [⟨validatorKey, 1, 1, 100000000⟩])) ∧
      ¬UnstakeArrives programs ownerClient [⟨validatorKey, 1, some 0, some 100000000⟩] := by
  have hrange : ∀ u ∈ [(⟨validatorKey, 1, some 0, some 100000000⟩ : Unstake)], u.InRange := by
    intro u hu
    obtain rfl := List.mem_singleton.mp hu
    exact ⟨by decide, by simp, by simp⟩
  have hbuild := ownerClient.unstakeInstruction_ok programs (by decide) hrange
  have hparse := deserialize_unstakes (List.cons_ne_nil _ _) (by decide) hrange
  refine ⟨⟨_, hbuild, hparse⟩, ?_⟩
  rintro ⟨tx, htx, hread, -⟩
  obtain rfl := Except.ok.inj (hbuild.symm.trans htx)
  have heq := StakePoolInstruction.unstake.inj (Except.ok.inj (hparse.symm.trans hread))
  exact absurd heq (by decide)

end

end Tenderize
