import Tenderize.Model.Cli
import Tenderize.Properties.Sessions

/-!
# The command line drives a run

Whatever the nodes answer, the command line does nothing to a pool but send instructions to
it, of the kinds that belong to the command and signed by the payer and the owner of its
configuration.  The commands for a new pool are not executed where the node shows the old one.
-/

namespace Tenderize

open Support

/-! ## Tags -/

/-- The first byte of the data of an instruction. -/
def StakePoolInstruction.tag : StakePoolInstruction → UInt8
  | .initializePool _ => 0
  | .addValidator => 2
  | .removeValidator => 3
  | .updateListBalance => 4
  | .updatePoolBalance => 5
  | .deposit _ => 6
  | .withdraw _ => 7
  | .setStakingAuthority => 8
  | .setOwner => 9
  | .credit _ => 10
  | .uncredit _ => 11
  | .delegateReserve _ => 12
  | .mergeStakes _ => 13
  | .unstake _ => 14
  | .payCreditors => 15

namespace Cli

/-- The tags of what `refresh` sends. -/
def refreshTags : List UInt8 := [4, 5, 13]

/-- The tags of what is sent before the command. -/
def upkeepTags : List UInt8 := refreshTags ++ [6, 15]

def Command.tags : Command → List UInt8
  | .show => []
  | .vadd _ => [2]
  | .vrem _ => [3]
  | .del _ => [12]
  | .update => refreshTags
  | .unstake _ _ => [14]

end Cli

variable {D : Deployment} {network : Network} {payer : Pubkey} {this : TenderizeProgram}
  {c c' : Chain} {signatures keys : List Pubkey} {tag : UInt8} {tags : List UInt8}
  {Q : Event → Prop}

theorem StakePoolInstruction.deserialize_tag {data : List UInt8} {i : StakePoolInstruction}
    (h : deserialize data = .ok i) : data.head? = some i.tag := by
  cases data with
  | nil => cases h
  | cons byte bytes =>
      rw [List.head?_cons, Option.some.injEq]
      simp only [deserialize] at h
      split at h <;> rename_i htag
      all_goals
        first
          | obtain rfl := Except.ok.inj h
            exact UInt8.toNat_inj.mp htag
          | obtain ⟨_, -, rfl⟩ := map_eq_ok.mp h
            exact UInt8.toNat_inj.mp htag
          | cases h

/-- A tag that was written stays where it is when more is written behind it. -/
theorem head_overwrite {data items : Buffer} {p : Nat} (h : data.head? = some tag) (hp : 0 < p) :
    (overwrite data p items).head? = some tag := by
  obtain ⟨p, rfl⟩ := Nat.exists_eq_succ_of_ne_zero hp.ne'
  obtain ⟨rest, rfl⟩ := List.head?_eq_some_iff.mp h
  rfl

theorem writeWord_tagged {width : Nat} {low high value : Int} {data data' : Buffer} {p p' : Nat}
    (h : writeWord width low high data value p = .ok (data', p')) (htag : data.head? = some tag)
    (hp : 0 < p) : data'.head? = some tag ∧ 0 < p' := by
  simp only [writeWord, bind_eq_ok, pure_eq_ok, Prod.mk.injEq] at h
  obtain ⟨-, -, rfl, rfl⟩ := h
  exact ⟨head_overwrite htag hp, by omega⟩

theorem writeUInt8_tagged {size value p : Nat} {data : Buffer}
    (h : writeUInt8 (Buffer.alloc size) value 0 = .ok (data, p)) :
    data.head? = some (UInt8.ofNat value) ∧ 0 < p := by
  simp only [writeUInt8, writeWord, bind_eq_ok, pure_eq_ok, require_eq_ok, Prod.mk.injEq] at h
  obtain ⟨-, ⟨-, hvalue, -⟩, rfl, rfl⟩ := h
  refine ⟨?_, Nat.one_pos⟩
  have hbyte : ((value : Int) % 256 ^ 1).toNat = value := by omega
  have hmod : value % 256 = value := by omega
  rw [hbyte, overwrite_zero]
  change some (UInt8.ofNat (value % 256)) = _
  rw [hmod]

theorem Buffer.copy_tagged (source : Buffer) {data : Buffer} {p : Nat}
    (h : data.head? = some tag) (hp : 0 < p) : (Buffer.copy source data p).1.head? = some tag :=
  head_overwrite h hp

/-! ## Computations that drive a run -/

variable (D Q) in
/-- From a reachable chain, by events with a property. -/
def Deployment.RunsBy (c c' : Chain) : Prop :=
  (D.system D.Outside).Reachable c →
    ∃ es, (D.system D.Outside).Run es c c' ∧ ∀ e ∈ es, Q e

instance : Std.Refl (D.RunsBy Q) :=
  ⟨fun c _ => ⟨[], .nil c, fun _ he => absurd he List.not_mem_nil⟩⟩

instance : IsTrans Chain (D.RunsBy Q) where
  trans := by
    intro c c' c'' h h' hc
    obtain ⟨es, hrun, hes⟩ := h hc
    obtain ⟨es', hrun', hes'⟩ := h' (hrun.reachable (fun _ _ _ hstep => hstep) hc)
    refine ⟨es ++ es', hrun.append hrun', ?_⟩
    intro e he
    rcases List.mem_append.mp he with he | he
    · exact hes e he
    · exact hes' e he

theorem Network.ask_runs {α : Type} (question : Connection → Except JsError α) :
    Drives (D.RunsBy Q) (network.ask question) :=
  .of_unchanged (network.ask_final question)

theorem get_runs : Drives (D.RunsBy Q) (get : Session Chain) :=
  .of_unchanged fun _ => rfl

/-- The keys begin with the one of the pool. -/
def Deployment.StartsAtPool (D : Deployment) (keys : List AccountInfo) : Prop :=
  ∃ rest, keys = plainKey D.poolKey :: rest

theorem Deployment.StartsAtPool.append {keys : List AccountInfo} (h : D.StartsAtPool keys)
    (more : List AccountInfo) : D.StartsAtPool (keys ++ more) := by
  obtain ⟨rest, rfl⟩ := h
  exact ⟨rest ++ more, rfl⟩

/-- An instruction to the pool with a tag. -/
structure TransactionInstruction.Targets (tx : TransactionInstruction) (D : Deployment)
    (tag : UInt8) : Prop where
  programId : tx.programId = D.programId
  keys : D.StartsAtPool tx.keys
  tagged : tx.data.head? = some tag

/-- Instructions with these tags that nobody signs but with these keys have the property. -/
def Allows (Q : Event → Prop) (keys : List Pubkey) (tags : List UInt8) : Prop :=
  ∀ i accounts, i.tag ∈ tags → (∀ key ∈ signers accounts, key ∈ keys) →
    Q (.instruction i accounts)

theorem Allows.mono {tags' : List UInt8} (h : Allows Q keys tags) (hsub : tags' ⊆ tags) :
    Allows Q keys tags' :=
  fun i accounts htag => h i accounts (hsub htag)

theorem TransactionItem.accounts_signed {infos : List AccountInfo}
    (h : ∀ key ∈ signers infos, key ∈ signatures) :
    ∀ key ∈ signers (TransactionItem.accounts signatures infos), key ∈ signatures := by
  intro key hkey
  simp only [signers, TransactionItem.accounts, List.mem_map, List.mem_filter] at hkey
  obtain ⟨_, ⟨⟨info, hinfo, rfl⟩, hsigner⟩, rfl⟩ := hkey
  rw [Bool.or_eq_true, decide_eq_true_eq] at hsigner
  rcases hsigner with hsigner | hsigner
  · exact h _ (List.mem_map.mpr ⟨info, List.mem_filter.mpr ⟨hinfo, hsigner⟩, rfl⟩)
  · exact hsigner

/-- A transaction with one instruction to the pool is a step of a run, or fails. -/
theorem TenderizeProgram.send_runs
    {instruction : Connection → Except JsError TransactionInstruction}
    (htargets : ∀ connection tx, instruction connection = .ok tx → tx.Targets D tag)
    (hkeys : ∀ key ∈ keys, ¬D.programs.IsProgramAddress D.programId key)
    (hsub : signatures ⊆ keys) (hQ : Allows Q keys [tag]) :
    Drives (D.RunsBy Q) (send D.programs network instruction signatures) := by
  intro c hc
  cases hrun : send D.programs network instruction signatures c with
  | ok u c' =>
      obtain ⟨tx, htx, hsigned, -, L, hprocess, rfl⟩ := TenderizeProgram.send_eq_ok.mp hrun
      obtain ⟨hprogram, ⟨rest, hrest⟩, htag⟩ := htargets _ tx htx
      simp only [process, bind_eq_ok, hprogram] at hprocess
      obtain ⟨i, hdecoded, hdispatch⟩ := hprocess
      have haddressed : D.Addressed (TransactionItem.accounts signatures tx.keys) := by
        rw [hrest] at hsigned ⊢
        exact TransactionItem.accounts_addressed (fun key hkey => hkeys key (hsub hkey)) hsigned
      refine ⟨[.instruction i (TransactionItem.accounts signatures tx.keys)],
        .cons ⟨haddressed, L, hdispatch, rfl⟩ (.nil _), ?_⟩
      rw [List.forall_mem_singleton]
      refine hQ i _ ?_ fun key hkey => hsub (TransactionItem.accounts_signed hsigned key hkey)
      rw [List.mem_singleton, ← Option.some.injEq, ← htag]
      exact (StakePoolInstruction.deserialize_tag hdecoded).symm
  | error e c' =>
      rw [TenderizeProgram.send_error hrun]
      exact refl_of (D.RunsBy Q) c hc

/-! ## What the client sends -/

/-- The client is set up for the pool. -/
structure TenderizeProgram.Targets (this : TenderizeProgram) (D : Deployment) : Prop where
  programId : this.programId = D.programId
  stakePool : this.stakePool = D.poolKey

/-- What the loops over the parts of an instruction keep. -/
structure Drafted (D : Deployment) (tag : UInt8) (out : Buffer × Nat × List AccountInfo) :
    Prop where
  tagged : out.1.head? = some tag
  behind : 0 < out.2.1
  keys : D.StartsAtPool out.2.2

namespace TenderizeProgram

theorem tagData_tagged {value : Nat} {data : Buffer} (h : tagData value = .ok data) :
    data.head? = some (UInt8.ofNat value) := by
  simp only [tagData, bind_eq_ok, pure_eq_ok, Prod.exists] at h
  obtain ⟨data, p, hwrite, rfl⟩ := h
  exact (writeUInt8_tagged hwrite).1

theorem amountData_tagged {value : Nat} {amount : Int} {data : Buffer}
    (h : amountData value amount = .ok data) : data.head? = some (UInt8.ofNat value) := by
  simp only [amountData, bind_eq_ok, pure_eq_ok, Prod.exists] at h
  obtain ⟨_, _, hwrite, _, _, hamount, rfl⟩ := h
  obtain ⟨htag, hp⟩ := writeUInt8_tagged hwrite
  exact (writeWord_tagged hamount htag hp).1

theorem pushValidator_drafted {v : DepositReserveValidatorParam} {P : Programs}
    {out out' : Buffer × Nat × List AccountInfo} (hout : Drafted D tag out)
    (h : this.pushValidator P v out = .ok out') : Drafted D tag out' := by
  simp only [pushValidator, bind_eq_ok, pure_eq_ok, Prod.exists] at h
  obtain ⟨_, _, hamount, _, _, hindex, stake, -, rfl⟩ := h
  obtain ⟨htag, hp⟩ := writeWord_tagged hamount hout.tagged hout.behind
  obtain ⟨htag, hp⟩ := writeWord_tagged hindex htag hp
  exact ⟨htag, hp, hout.keys.append _⟩

theorem pushPair_drafted {pair : StakePair} {P : Programs}
    {out out' : Buffer × Nat × List AccountInfo} (hout : Drafted D tag out)
    (h : this.pushPair P pair out = .ok out') : Drafted D tag out' := by
  simp only [pushPair, bind_eq_ok, pure_eq_ok, Prod.exists] at h
  obtain ⟨_, _, hmain, _, _, hadditional, main, -, additional, -, rfl⟩ := h
  have hcopied := Buffer.copy_tagged pair.validator.toBytes hout.tagged hout.behind
  obtain ⟨htag, hp⟩ := writeWord_tagged hmain hcopied (Nat.add_pos_left hout.behind _)
  obtain ⟨htag, hp⟩ := writeWord_tagged hadditional htag hp
  exact ⟨htag, hp, hout.keys.append _⟩

theorem pushUnstake_drafted {unstake : Unstake} {P : Programs}
    {out out' : Buffer × Nat × List AccountInfo} (hout : Drafted D tag out)
    (h : this.pushUnstake P unstake out = .ok out') : Drafted D tag out' := by
  simp only [pushUnstake, bind_eq_ok, Prod.exists] at h
  obtain ⟨_, _, hsource, _, _, hsplit, _, _, hamount, source, -, h⟩ := h
  have hcopied := Buffer.copy_tagged unstake.validator.toBytes hout.tagged hout.behind
  obtain ⟨htag, hp⟩ := writeWord_tagged hsource hcopied (Nat.add_pos_left hout.behind _)
  obtain ⟨htag, hp⟩ := writeWord_tagged hsplit htag hp
  obtain ⟨htag, hp⟩ := writeWord_tagged hamount htag hp
  split at h
  · simp only [bind_eq_ok, pure_eq_ok] at h
    obtain ⟨split, -, rfl⟩ := h
    exact ⟨htag, hp, hout.keys.append _⟩
  · obtain rfl := pure_eq_ok.mp h
    exact ⟨htag, hp, hout.keys.append _⟩

section Builders

variable (hthis : this.Targets D)

include hthis

theorem startsAtPool (rest : List AccountInfo) :
    D.StartsAtPool (plainKey this.stakePool :: rest) :=
  ⟨rest, by rw [hthis.stakePool]⟩

/-- A batch of which every part is pushed behind the tag and the count. -/
theorem batch_targets {α : Type} {size value : Nat} {count : Int} {rest : List AccountInfo}
    {push : Buffer × Nat × List AccountInfo → α →
      Except JsError (Buffer × Nat × List AccountInfo)}
    (hpush : ∀ out x out', Drafted D (UInt8.ofNat value) out → push out x = .ok out' →
      Drafted D (UInt8.ofNat value) out')
    {parts : List α} {data data' data'' : Buffer} {p p' p'' : Nat} {infos : List AccountInfo}
    (htag : writeUInt8 (Buffer.alloc size) value 0 = .ok (data, p))
    (hcount : writeUInt32LE data count p = .ok (data', p'))
    (hloop : parts.foldlM push (data', p', plainKey this.stakePool :: rest) =
      .ok (data'', p'', infos)) :
    TransactionInstruction.Targets ⟨infos, this.programId, data''⟩ D (UInt8.ofNat value) := by
  obtain ⟨htag, hp⟩ := writeUInt8_tagged htag
  obtain ⟨htag, hp⟩ := writeWord_tagged hcount htag hp
  obtain ⟨htag, -, hkeys⟩ := foldlM_keeps hpush ⟨htag, hp, startsAtPool hthis _⟩ hloop
  exact ⟨hthis.programId, hkeys, htag⟩

theorem depositInstruction_targets {params : DepositParams} {tx : TransactionInstruction}
    (h : this.depositInstruction D.programs params = .ok tx) : tx.Targets D 6 := by
  simp only [depositInstruction, bind_eq_ok, pure_eq_ok] at h
  obtain ⟨data, hdata, rfl⟩ := h
  exact ⟨hthis.programId, startsAtPool hthis _, amountData_tagged hdata⟩

theorem addValidatorInstruction_targets {v : Pubkey} {tx : TransactionInstruction}
    (h : this.addValidatorInstruction v = .ok tx) : tx.Targets D 2 := by
  simp only [addValidatorInstruction, bind_eq_ok, pure_eq_ok] at h
  obtain ⟨data, hdata, rfl⟩ := h
  exact ⟨hthis.programId, startsAtPool hthis _, tagData_tagged hdata⟩

theorem removeValidatorInstruction_targets {v : Pubkey} {tx : TransactionInstruction}
    (h : this.removeValidatorInstruction v = .ok tx) : tx.Targets D 3 := by
  simp only [removeValidatorInstruction, bind_eq_ok, pure_eq_ok] at h
  obtain ⟨data, hdata, rfl⟩ := h
  exact ⟨hthis.programId, startsAtPool hthis _, tagData_tagged hdata⟩

theorem payCreditorsInstruction_targets {maxCount : Int} {connection : Connection}
    {tx : TransactionInstruction}
    (h : this.payCreditorsInstruction D.programs maxCount connection = .ok tx) :
    tx.Targets D 15 := by
  simp only [payCreditorsInstruction, bind_eq_ok, pure_eq_ok] at h
  obtain ⟨data, hdata, _, -, state, -, creditors, -, rfl⟩ := h
  exact ⟨hthis.programId, (startsAtPool hthis _).append _, tagData_tagged hdata⟩

theorem updateListBalanceInstruction_targets {validators : List ValidatorInfo}
    {tx : TransactionInstruction}
    (h : this.updateListBalanceInstruction D.programs validators = .ok tx) : tx.Targets D 4 := by
  simp only [updateListBalanceInstruction, bind_eq_ok, pure_eq_ok] at h
  obtain ⟨data, hdata, blocks, -, rfl⟩ := h
  exact ⟨hthis.programId, (startsAtPool hthis _).append _, tagData_tagged hdata⟩

theorem updatePoolBalanceInstruction_targets {tx : TransactionInstruction}
    (h : this.updatePoolBalanceInstruction D.programs = .ok tx) : tx.Targets D 5 := by
  simp only [updatePoolBalanceInstruction, bind_eq_ok, pure_eq_ok] at h
  obtain ⟨data, hdata, rfl⟩ := h
  exact ⟨hthis.programId, startsAtPool hthis _, tagData_tagged hdata⟩

theorem delegateReserveInstruction_targets {validators : List DepositReserveValidatorParam}
    {tx : TransactionInstruction}
    (h : this.delegateReserveInstruction D.programs validators = .ok tx) : tx.Targets D 12 := by
  simp only [delegateReserveInstruction, bind_eq_ok, pure_eq_ok, Prod.exists] at h
  obtain ⟨_, _, htag, _, _, hcount, _, _, _, hloop, rfl⟩ := h
  exact batch_targets hthis (fun _ _ _ hout => pushValidator_drafted hout) htag hcount hloop

theorem mergeStakesInstruction_targets {stakePairs : List StakePair} {tx : TransactionInstruction}
    (h : this.mergeStakesInstruction D.programs stakePairs = .ok tx) : tx.Targets D 13 := by
  simp only [mergeStakesInstruction, bind_eq_ok, pure_eq_ok, Prod.exists] at h
  obtain ⟨_, _, htag, _, _, hcount, _, _, _, hloop, rfl⟩ := h
  exact batch_targets hthis (fun _ _ _ hout => pushPair_drafted hout) htag hcount hloop

theorem unstakeInstruction_targets {unstakes : List Unstake} {tx : TransactionInstruction}
    (h : this.unstakeInstruction D.programs unstakes = .ok tx) : tx.Targets D 14 := by
  simp only [unstakeInstruction, bind_eq_ok, pure_eq_ok, Prod.exists] at h
  obtain ⟨_, _, htag, _, _, hcount, _, _, _, hloop, rfl⟩ := h
  exact batch_targets hthis (fun _ _ _ hout => pushUnstake_drafted hout) htag hcount hloop

end Builders

/-! ## Sessions -/

section Sessions

variable (hthis : this.Targets D)
  (hkeys : ∀ key ∈ [payer, this.owner], ¬D.programs.IsProgramAddress D.programId key)

include hthis hkeys

theorem deposit_runs (hQ : Allows Q [payer, this.owner] [6]) (params : DepositParams) :
    Drives (D.RunsBy Q) (this.deposit D.programs network payer params) :=
  send_runs (fun _ _ => depositInstruction_targets hthis) hkeys (by simp) hQ

theorem addValidator_runs (hQ : Allows Q [payer, this.owner] [2]) (v : Pubkey) :
    Drives (D.RunsBy Q) (this.addValidator D.programs network payer v) :=
  send_runs (fun _ _ => addValidatorInstruction_targets hthis) hkeys (by simp) hQ

theorem removeValidator_runs (hQ : Allows Q [payer, this.owner] [3]) (v : Pubkey) :
    Drives (D.RunsBy Q) (this.removeValidator D.programs network payer v) :=
  send_runs (fun _ _ => removeValidatorInstruction_targets hthis) hkeys (by simp) hQ

theorem vadd_runs (hQ : Allows Q [payer, this.owner] [2]) (votes : List Pubkey) :
    Drives (D.RunsBy Q) (this.vadd D.programs network payer votes) := by
  have hadd : ∀ validators, Drives (D.RunsBy Q)
      (forM validators (this.addValidator D.programs network payer)) :=
    .forM (addValidator_runs hthis hkeys hQ)
  refine .ite ?_ (hadd votes)
  exact .bind (Network.ask_runs _) fun _ => .bind get_runs fun _ => hadd _

theorem vrem_runs (hQ : Allows Q [payer, this.owner] [3]) (votes : List Pubkey) :
    Drives (D.RunsBy Q) (this.vrem D.programs network payer votes) := by
  have hremove : ∀ validators, Drives (D.RunsBy Q)
      (forM validators (this.removeValidator D.programs network payer)) :=
    .forM (removeValidator_runs hthis hkeys hQ)
  refine .ite ?_ (hremove votes)
  exact .bind (Network.ask_runs _) fun _ => hremove _

theorem payRounds_runs (hQ : Allows Q [payer, this.owner] [15]) (fuel : Nat) :
    ∀ creditors, Drives (D.RunsBy Q) (this.payRounds D.programs network payer fuel creditors) := by
  induction fuel with
  | zero => exact fun _ => .pure _
  | succ fuel ih =>
      intro creditors
      refine .ite (.bind ?_ fun _ => .bind (Network.ask_runs _) fun creditors' => ?_) (.pure _)
      · exact send_runs (fun _ _ => payCreditorsInstruction_targets hthis) hkeys (by simp) hQ
      · exact .ite (.pure _) (ih creditors')

theorem payAllCreditors_runs (hQ : Allows Q [payer, this.owner] [15]) (fuel : Nat) :
    Drives (D.RunsBy Q) (this.payAllCreditors D.programs network payer fuel) :=
  .bind (Network.ask_runs _) (payRounds_runs hthis hkeys hQ fuel)

theorem updatePool_runs (hQ : Allows Q [payer, this.owner] [4, 5]) :
    Drives (D.RunsBy Q) (this.updatePool D.programs network payer) := by
  refine .bind (Network.ask_runs _) fun validators => .bind (.forM (fun v => ?_) validators)
    fun _ => ?_
  · exact send_runs (fun _ _ => updateListBalanceInstruction_targets hthis) hkeys (by simp)
      (hQ.mono (by simp))
  · exact send_runs (fun _ _ => updatePoolBalanceInstruction_targets hthis) hkeys (by simp)
      (hQ.mono (by simp))

theorem sendDelegateReserveBatch_runs (hQ : Allows Q [payer, this.owner] [12]) (amount : Int) :
    Drives (D.RunsBy Q) (this.sendDelegateReserveBatch D.programs network payer amount) := by
  refine .bind (Network.ask_runs _) fun batches => .forM (fun validators => ?_) batches
  exact send_runs (fun _ _ => delegateReserveInstruction_targets hthis) hkeys (by simp) hQ

theorem sendMergeAllStakes_runs (hQ : Allows Q [payer, this.owner] [13]) :
    Drives (D.RunsBy Q) (this.sendMergeAllStakes D.programs network payer) := by
  refine .bind (Network.ask_runs _) fun batches => .forM (fun pairs => .ite (.pure _) ?_) batches
  exact send_runs (fun _ _ => mergeStakesInstruction_targets hthis) hkeys (by simp) hQ

theorem sendUnstake_runs (hQ : Allows Q [payer, this.owner] [14]) (v : ValidatorInfo)
    (amount : Option Int) :
    Drives (D.RunsBy Q) (this.sendUnstake D.programs network payer v amount) := by
  refine .bind (Network.ask_runs _) fun batches => .forM (fun unstakes => ?_) batches
  exact send_runs (fun _ _ => unstakeInstruction_targets hthis) hkeys (by simp) hQ

theorem unstakeAll_runs (hQ : Allows Q [payer, this.owner] [14]) :
    Drives (D.RunsBy Q) (this.unstakeAll D.programs network payer) :=
  .bind (Network.ask_runs _) (.forM fun v => sendUnstake_runs hthis hkeys hQ v none)

omit hkeys in
/-- The pool exists already, so its account cannot be created once more. -/
theorem createStakePool_runs (params : CreateStakePoolParams) :
    Drives (D.RunsBy Q) (this.createStakePool D.programs network payer params) := by
  refine .bind get_runs fun chain => .bind (Network.ask_runs _) fun instruction => ?_
  intro c hc
  cases hrun : network.sendAndConfirmTransaction D.programs _ _ c with
  | error e c' =>
      rw [Network.sendAndConfirmTransaction_error hrun]
      exact refl_of (D.RunsBy Q) c hc
  | ok u c' =>
      obtain ⟨-, -, hexecuted⟩ := Network.sendAndConfirmTransaction_eq_ok.mp hrun
      simp only [executeAll, bind_eq_ok] at hexecuted
      obtain ⟨L, hcreated, -⟩ := hexecuted
      obtain ⟨-, -, -, -, howner, -⟩ := D.lawful.createAccount_ok hcreated
      rw [hthis.stakePool, (reachable_represents hc).has_pool.1] at howner
      exact absurd howner D.ne_system

end Sessions

end TenderizeProgram

/-! ## The command line -/

namespace Cli

open TenderizeProgram

section Parts

variable (hthis : this.Targets D)
  (hkeys : ∀ key ∈ [payer, this.owner], ¬D.programs.IsProgramAddress D.programId key)

omit hthis hkeys in
theorem readState_runs : Drives (D.RunsBy Q) (readState network this) :=
  Network.ask_runs _

include hthis hkeys

theorem refresh_runs (hQ : Allows Q [payer, this.owner] refreshTags) :
    Drives (D.RunsBy Q) (refresh D.programs network payer this) := by
  refine .bind (sendMergeAllStakes_runs hthis hkeys (hQ.mono ?_)) fun _ =>
    updatePool_runs hthis hkeys (hQ.mono ?_)
  · simp [refreshTags]
  · simp [refreshTags]

/-- A new pool is created only where the node does not show the pool. -/
theorem prepare_runs {execShellCommands : Session Unit} {args : Args}
    (hQ : Allows Q [payer, this.owner] refreshTags)
    (hshell : ¬network.Shows → Drives (D.RunsBy Q) execShellCommands) :
    Drives (D.RunsBy Q) (prepare D.programs network payer this execShellCommands args) := by
  -- what follows on the state, given that the creation is harmless
  have hrest : ∀ state : Option State,
      (state.all (fun state => state.version = 0) = true →
        Drives (D.RunsBy Q) (create D.programs network payer this execShellCommands args)) →
      Drives (D.RunsBy Q) (do
        let epoch := network.epoch (← get)
        if state.all fun state => state.version = 0 then
          let state ← create D.programs network payer this execShellCommands args
          pure (state, false)
        else if state.any fun state => state.lastEpochUpdate < epoch then
          refresh D.programs network payer this
          let state ← readState network this
          pure (state, true)
        else pure (state, false)) := by
    intro state hcreate
    refine .bind get_runs fun chain => ?_
    split
    · next hnew => exact .bind (hcreate hnew) fun _ => .pure _
    · refine .ite (.bind (refresh_runs hthis hkeys hQ) fun _ => ?_) (.pure _)
      exact .bind readState_runs fun _ => .pure _
  by_cases hshows : network.Shows
  · intro c hc
    have h := reachable_represents hc
    have hread : readState network this c =
        .ok (some (State.ofPool (D.stateOf c.ledger).pool)) c :=
      Network.ask_eq_ok.mpr ⟨readState_represented h (hshows c) hthis.stakePool, rfl⟩
    have hversion : (D.stateOf c.ledger).pool.version.toNat ≠ 0 := by
      have hinit := h.wired.pool_initialized
      unfold StakePool.isInitialized at hinit
      exact (UInt8.lt_iff_toNat_lt.mp (of_decide_eq_true hinit)).ne'
    unfold prepare
    rw [run_bind_of_ok hread]
    refine hrest (some (State.ofPool _)) (fun hnew => ?_) c hc
    exact absurd (of_decide_eq_true hnew) hversion
  · refine .bind readState_runs fun state => hrest state fun _ => ?_
    exact .bind (hshell hshows) fun _ => .bind (createStakePool_runs hthis _) fun _ =>
      readState_runs

theorem fillReserve_runs (hQ : Allows Q [payer, this.owner] [6]) (args : Args) :
    Drives (D.RunsBy Q) (fillReserve D.programs network payer this args) := by
  refine .bind (Network.ask_runs _) fun reserve => .bind get_runs fun chain =>
    .ite (.bind (Network.ask_runs _) fun account => ?_) (.pure _)
  exact .ite (.throw _) (deposit_runs hthis hkeys hQ _)

omit hthis hkeys in
theorem showPool_runs (state : Option State) :
    Drives (D.RunsBy Q) (showPool D.programs network this state) :=
  .bind (Network.ask_runs _) fun _ => .bind (Network.ask_runs _) fun _ =>
    .bind (Network.ask_runs _) fun _ => .bind (Network.ask_runs _) fun _ =>
      .bind (Network.ask_runs _) fun _ => .bind (Network.ask_runs _) fun _ => .pure _

theorem processCommand_runs {nineTenths : Nat → Int} {wasUpdated : Bool} {reserve : Nat}
    {command : Command} (hQ : Allows Q [payer, this.owner] command.tags) :
    Drives (D.RunsBy Q)
      (processCommand D.programs network payer this nineTenths wasUpdated reserve command) := by
  cases command with
  | «show» => exact .pure _
  | vadd votes => exact vadd_runs hthis hkeys hQ votes
  | vrem votes => exact vrem_runs hthis hkeys hQ votes
  | del amount => exact sendDelegateReserveBatch_runs hthis hkeys hQ _
  | update =>
      exact .ite (.pure _) (.bind (refresh_runs hthis hkeys hQ) fun _ =>
        .bind readState_runs fun _ => .pure _)
  | unstake vote amount =>
      cases vote with
      | none => exact unstakeAll_runs hthis hkeys hQ
      | some vote =>
          refine .bind (Network.ask_runs _) fun validators => ?_
          split
          · exact .throw _
          · exact sendUnstake_runs hthis hkeys hQ _ amount

theorem run_runs {execShellCommands : Session Unit} {nineTenths : Nat → Int} {fuel : Nat}
    {args : Args} (hQ : Allows Q [payer, this.owner] (upkeepTags ++ args.command.tags))
    (hshell : ¬network.Shows → Drives (D.RunsBy Q) execShellCommands) :
    Drives (D.RunsBy Q)
      (run D.programs network payer this execShellCommands nineTenths fuel args) := by
  refine .bind (prepare_runs hthis hkeys (hQ.mono ?_) hshell) fun _ =>
    .bind (fillReserve_runs hthis hkeys (hQ.mono ?_) _) fun _ =>
    .bind (payAllCreditors_runs hthis hkeys (hQ.mono ?_) _) fun _ =>
    .bind (showPool_runs _) fun _ => processCommand_runs hthis hkeys (hQ.mono ?_)
  · simp [upkeepTags]
  · simp [upkeepTags]
  · simp [upkeepTags]
  · simp

end Parts

end Cli

/-- What the command line sends for a command, or what the shell commands for a new pool do
where the node does not show the old one. -/
def Network.MaySee (network : Network) (keys : List Pubkey) (tags : List UInt8) : Event → Prop
  | .instruction i accounts => i.tag ∈ tags ∧ ∀ key ∈ signers accounts, key ∈ keys
  | .outside => ¬network.Shows

/-- On a chain with the pool, the command line drives a run of the system of which it can
only have sent its own kinds of instructions. -/
theorem commandLine_drives_run {execShellCommands : Session Unit} {nineTenths : Nat → Int}
    {fuel : Nat} {args : Cli.Args} (hthis : this.Targets D)
    (hkeys : ∀ key ∈ [payer, this.owner], ¬D.programs.IsProgramAddress D.programId key)
    (hshell : Drives (D.RunsBy (· = .outside)) execShellCommands)
    (hc : (D.system D.Outside).Reachable c) :
    ∃ es, (D.system D.Outside).Run es c (finalState
        (Cli.run D.programs network payer this execShellCommands nineTenths fuel args c)) ∧
      ∀ e ∈ es, network.MaySee [payer, this.owner] (Cli.upkeepTags ++ args.command.tags) e := by
  refine Cli.run_runs hthis hkeys (fun _ _ htag hsigned => ⟨htag, hsigned⟩) ?_ c hc
  intro hno c hc
  obtain ⟨es, hrun, hes⟩ := hshell c hc
  refine ⟨es, hrun, fun e he => ?_⟩
  rw [hes e he]
  exact hno

section

open Reference

/-- The chain that the command `vrem` leaves. -/
def removal (c : Chain) : Chain :=
  finalState (Cli.run programs node userKey ownerClient (pure ()) Int.ofNat 1
    ⟨100, 3, 0, .vrem []⟩ c)

theorem commandLine_drives_run_removal :
    ∃ c es, execute anything [addValidator validatorKey] = .ok c ∧
      (deployment.system deployment.Outside).Run es c (removal c) ∧ es ≠ [] ∧
      ∀ e ∈ es, node.MaySee [userKey, ownerKey] [4, 5, 13, 6, 15, 3] e := by
  have hrun : (execute anything [addValidator validatorKey]).map (fun c =>
      ((deployment.stateOf c.ledger).list.validators.length,
        (deployment.stateOf (removal c).ledger).list.validators.length)) = .ok (1, 0) := by
    decide +kernel
  obtain ⟨c, hc, hlengths⟩ := map_eq_ok.mp hrun
  obtain ⟨hbefore, hafter⟩ := Prod.mk.inj hlengths
  have hthis : ownerClient.Targets deployment := ⟨rfl, rfl⟩
  have hkeys : ∀ key ∈ [userKey, ownerClient.owner],
      ¬deployment.programs.IsProgramAddress deployment.programId key := by
    rw [List.forall_mem_cons, List.forall_mem_singleton]
    exact ⟨not_isProgramAddress (by decide), not_isProgramAddress (by decide)⟩
  obtain ⟨es, hdriven, hes⟩ := commandLine_drives_run hthis hkeys (.pure ())
    (execute_anything_reachable hc)
  refine ⟨c, es, hc, hdriven, ?_, hes⟩
  -- without an event the validator would still be listed
  rintro rfl
  have hempty : ∀ {x x' : Chain}, (deployment.system deployment.Outside).Run [] x x' → x' = x := by
    intro x x' h
    cases h
    rfl
  have hsame : removal c = c := hempty hdriven
  rw [hsame, hbefore] at hafter
  cases hafter

end

end Tenderize
