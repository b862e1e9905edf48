import Tenderize.Properties.Records
import Tenderize.Properties.Holdings

/-!
# Fresh prices

The pool and every validator record carry the epoch of their last update.  The handlers
compare one with the clock and not with the other; over whole runs no record is older than
the pool, so an up-to-date pool means up-to-date records.
-/

namespace Tenderize

open Support

/-- A chain together with the epochs in which each validator was added or refreshed. -/
structure Logged where
  chain : Chain
  refreshed : Pubkey → UInt64 → Prop

namespace Deployment

variable (D : Deployment)

/-- Other programs act, and the epoch does not go back. -/
def Forward (c c' : Chain) : Prop :=
  D.Outside c c' ∧ c.clock.epoch ≤ c'.clock.epoch

/-- The chain right after `Initialize`, in the same epoch. -/
def Started (c : Chain) : Prop :=
  ∃ c₀ init accounts a, InitializeAccounts.parse c₀ accounts = .ok a ∧
    D.FreshAccounts c₀.ledger a ∧ D.Addressed accounts ∧
    dispatch D.programs D.programId (.initializePool init) accounts c₀ = .ok c.ledger ∧
    c.clock = c₀.clock

/-- The step adds the validator, or recomputes its record from its stake accounts. -/
def Refreshes (c : Chain) (v : Pubkey) : Event → Prop
  | .instruction .addValidator accounts => addedAccount .addValidator accounts = some v
  | .instruction .updateListBalance accounts => v ∈ D.namedBy c accounts
  | _ => False

/-- Runs in which the epoch never decreases, with a log of additions and refreshes. -/
def logged : System Logged Event where
  init x := D.Started x.chain ∧ ∀ v epoch, ¬x.refreshed v epoch
  step x e x' := D.Step D.Forward x.chain e x'.chain ∧
    ∀ v epoch, x'.refreshed v epoch ↔
      x.refreshed v epoch ∨ epoch = x.chain.clock.epoch ∧ D.Refreshes x.chain v e

end Deployment

/-- No record is older than the pool or younger than the clock, and every stamp is the epoch
of a logged refresh. -/
structure Stamped (epoch : UInt64) (refreshed : Pubkey → UInt64 → Prop) (s : PoolState) :
    Prop where
  pool : s.pool.lastUpdateEpoch ≤ epoch
  older : ∀ r ∈ s.list.validators, s.pool.lastUpdateEpoch ≤ r.lastUpdateEpoch
  younger : ∀ r ∈ s.list.validators, r.lastUpdateEpoch ≤ epoch
  logged : ∀ r ∈ s.list.validators, refreshed r.validatorAccount r.lastUpdateEpoch

variable {D : Deployment} {c c' : Chain} {s s' : PoolState} {op : PoolOp}
  {epoch epoch' : UInt64} {refreshed refreshed' : Pubkey → UInt64 → Prop}

/-! ## Steps that keep the stamps -/

theorem Matches.not_restamps {quiet : Prop} {i : StakePoolInstruction}
    {accounts : List AccountInfo} (h : Matches quiet c (.instruction i accounts) s op)
    (hi : i ∉ [.addValidator, .removeValidator, .updateListBalance, .updatePoolBalance]) :
    ¬op.Restamps ∧ op ≠ .updatePool := by
  cases h <;> simp_all [PoolOp.Restamps]

theorem PoolStep.lastUpdateEpoch_eq (h : PoolStep D s op s') (hop : op ≠ .updatePool) :
    s'.pool.lastUpdateEpoch = s.pool.lastUpdateEpoch := by
  cases h with
  | updatePool => exact absurd rfl hop
  | _ => rfl

/-- A step that touches no stamp, while the clock and the log may go on. -/
theorem Stamped.keep (hs : Stamped epoch refreshed s) (h : PoolStep D s op s')
    (hop : ¬op.Restamps ∧ op ≠ .updatePool) (hepoch : epoch ≤ epoch')
    (hlog : ∀ v t, refreshed v t → refreshed' v t) : Stamped epoch' refreshed' s' := by
  have hpool := h.lastUpdateEpoch_eq hop.2
  have hrecord : ∀ r ∈ s'.list.validators, ∃ r₀ ∈ s.list.validators, r₀.stamp = r.stamp := by
    intro r hr
    have hmem := List.mem_map_of_mem (f := ValidatorStakeInfo.stamp) hr
    rw [h.stamps_eq hop.1] at hmem
    exact List.mem_map.mp hmem
  constructor
  case pool =>
      rw [hpool]
      exact UInt64.le_trans hs.pool hepoch
  all_goals
    intro r hr
    obtain ⟨r₀, hr₀, hstamp⟩ := hrecord r hr
    obtain ⟨hname, hlast⟩ := Prod.mk.inj hstamp
  case older =>
      rw [hpool, ← hlast]
      exact hs.older r₀ hr₀
  case younger =>
      rw [← hlast]
      exact UInt64.le_trans (hs.younger r₀ hr₀) hepoch
  case logged =>
      rw [← hname, ← hlast]
      exact hlog _ _ (hs.logged r₀ hr₀)

/-! ## Steps that write stamps -/

theorem addBalances_fresh {clock : Clock} {V : List ValidatorStakeInfo} :
    ∀ {start total : UInt64}, addBalances clock start V = .ok total →
      ∀ r ∈ V, clock.epoch ≤ r.lastUpdateEpoch := by
  induction V with
  | nil => exact fun _ r hr => nomatch hr
  | cons first V ih =>
      intro start total h r hr
      simp only [addBalances, bind_eq_ok, require_eq_ok] at h
      obtain ⟨-, hfresh, hrest⟩ := h
      rcases List.mem_cons.mp hr with rfl | hr
      · exact UInt64.not_lt.mp hfresh
      · exact ih hrest r hr

/-- A record after refreshing `names` is an old one, or one of `names` stamped now. -/
theorem refreshRun_records {names : List Pubkey} {b b' : Books}
    (h : RunList (D.RefreshStep epoch) names b b') :
    ∀ r ∈ b'.validators, r ∈ b.validators ∨
      r.validatorAccount ∈ names ∧ r.lastUpdateEpoch = epoch := by
  have hhistory := h.history_invariant
    (I := fun done x => ∀ r ∈ x.validators, r ∈ b.validators ∨
      r.validatorAccount ∈ done ∧ r.lastUpdateEpoch = epoch) ?_ [] (fun r hr => .inl hr)
  · simpa using hhistory
  intro done v x x' hx hstep r hr
  obtain ⟨record, balance, count, hfound, hvalidators, -⟩ := hstep.record
  rw [hvalidators] at hr
  rcases mem_updateFirst hr with rfl | hold
  · have hname : record.validatorAccount = v := lookup_key hfound
    refine .inr ⟨List.mem_append_right _ ?_, rfl⟩
    rw [List.mem_singleton]
    exact hname
  · rcases hx r hold with hfirst | ⟨hdone, hlast⟩
    · exact .inl hfirst
    · exact .inr ⟨List.mem_append_left _ hdone, hlast⟩

/-! ## Whole runs -/

variable {x x' : Logged} {accounts : List AccountInfo} {L' : Ledger}

variable (D) in
/-- The chain holds a pool whose stamps are in order. -/
def Deployment.Dated (x : Logged) : Prop :=
  D.Represents x.chain.ledger (D.stateOf x.chain.ledger) ∧
    Stamped x.chain.clock.epoch x.refreshed (D.stateOf x.chain.ledger)

theorem dated_of_represents (h : D.Represents x.chain.ledger s)
    (hs : Stamped x.chain.clock.epoch x.refreshed s) : D.Dated x := by
  unfold Deployment.Dated
  rw [← h.eq_stateOf]
  exact ⟨h, hs⟩

section Instructions

variable (h : D.Represents c.ledger s) (ha : D.Addressed accounts)
  (hs : Stamped c.clock.epoch refreshed s)

include h ha hs

theorem addValidator_stamped
    (hrun : processAddValidator D.programs D.programId accounts c = .ok L')
    (hlog : ∀ v t, refreshed v t → refreshed' v t)
    (hadded : ∀ v, addedAccount .addValidator accounts = some v → refreshed' v c.clock.epoch) :
    ∃ s', D.Represents L' s' ∧ Stamped c.clock.epoch refreshed' s' := by
  obtain ⟨a, hparse, -, -, -, h'⟩ := processAddValidator_ok h ha hrun
  have hnew : refreshed' a.validator.key c.clock.epoch := by
    obtain ⟨rest, haccounts⟩ := ValidatorAccounts.parse_ok hparse
    apply hadded
    rw [haccounts]
    rfl
  refine ⟨_, h', hs.pool, ?_, ?_, ?_⟩
  all_goals
    intro r hr
    rcases List.mem_append.mp hr with hold | hlast
  · exact hs.older r hold
  · rw [List.mem_singleton.mp hlast]
    exact hs.pool
  · exact hs.younger r hold
  · rw [List.mem_singleton.mp hlast]
    exact UInt64.le_refl _
  · exact hlog _ _ (hs.logged r hold)
  · rw [List.mem_singleton.mp hlast]
    exact hnew

theorem removeValidator_stamped
    (hrun : processRemoveValidator D.programs D.programId accounts c = .ok L')
    (hlog : ∀ v t, refreshed v t → refreshed' v t) :
    ∃ s', D.Represents L' s' ∧ Stamped c.clock.epoch refreshed' s' := by
  obtain ⟨a, validators, -, -, hremove, h'⟩ := processRemoveValidator_ok h ha hrun
  obtain ⟨gone, before, after, hsplit, -, rfl⟩ := removeRecord_ok hremove
  have hold : ∀ r ∈ before ++ after, r ∈ s.list.validators := by
    intro r hr
    rw [hsplit]
    exact ((List.Sublist.refl before).append (List.sublist_cons_self gone after)).subset hr
  exact ⟨_, h', hs.pool, fun r hr => hs.older r (hold r hr),
    fun r hr => hs.younger r (hold r hr), fun r hr => hlog _ _ (hs.logged r (hold r hr))⟩

theorem updateListBalance_stamped
    (hrun : processUpdateListBalance D.programs D.programId accounts c = .ok L')
    (hlog : ∀ v t, refreshed v t → refreshed' v t)
    (hnamed : ∀ v ∈ D.namedBy c accounts, refreshed' v c.clock.epoch) :
    ∃ s', D.Represents L' s' ∧ Stamped c.clock.epoch refreshed' s' := by
  obtain ⟨b, hrefresh, h'⟩ := processUpdateListBalance_ok h ha hrun
  have hrecords := refreshRun_records hrefresh
  refine ⟨_, h', hs.pool, ?_, ?_, ?_⟩
  all_goals
    intro r hr
    rcases hrecords r hr with hold | ⟨hname, hlast⟩
  · exact hs.older r hold
  · rw [hlast]
    exact hs.pool
  · exact hs.younger r hold
  · rw [hlast]
    exact UInt64.le_refl _
  · exact hlog _ _ (hs.logged r hold)
  · rw [hlast]
    exact hnamed _ hname

theorem updatePoolBalance_stamped
    (hrun : processUpdatePoolBalance D.programs D.programId accounts c = .ok L')
    (hlog : ∀ v t, refreshed v t → refreshed' v t) :
    ∃ s', D.Represents L' s' ∧ Stamped c.clock.epoch refreshed' s' := by
  obtain ⟨total, hsum, h'⟩ := processUpdatePoolBalance_ok h ha hrun
  exact ⟨_, h', UInt64.le_refl _, addBalances_fresh hsum, hs.younger,
    fun r hr => hlog _ _ (hs.logged r hr)⟩

end Instructions

theorem logged_step {e : Event} (hx : D.Dated x) (hstep : D.logged.step x e x') :
    D.Dated x' := by
  obtain ⟨h, hs⟩ := hx
  obtain ⟨hevent, hrefreshed⟩ := hstep
  have hlog : ∀ v t, x.refreshed v t → x'.refreshed v t :=
    fun v t ht => (hrefreshed v t).mpr (.inl ht)
  cases e with
  | outside =>
      obtain ⟨hout, hepoch⟩ := hevent
      obtain ⟨s', hpool, h'⟩ := h.outside hout False.elim
      exact dated_of_represents h' (hs.keep hpool ⟨id, nofun⟩ hepoch hlog)
  | instruction i accounts =>
      obtain ⟨ha, L', hrun, hchain⟩ := hevent
      have hclock : x'.chain.clock = x.chain.clock := by rw [hchain]
      have hledger : x'.chain.ledger = L' := by rw [hchain]
      suffices hnext : ∃ s', D.Represents L' s' ∧
          Stamped x.chain.clock.epoch x'.refreshed s' by
        obtain ⟨s', h', hs'⟩ := hnext
        rw [← hledger] at h'
        rw [← hclock] at hs'
        exact dated_of_represents h' hs'
      by_cases hi : i ∈
          [.addValidator, .removeValidator, .updateListBalance, .updatePoolBalance]
      · simp only [List.mem_cons, List.not_mem_nil, or_false] at hi
        rcases hi with rfl | rfl | rfl | rfl
        · exact addValidator_stamped h ha hs hrun hlog
            fun v hv => (hrefreshed v _).mpr (.inr ⟨rfl, hv⟩)
        · exact removeValidator_stamped h ha hs hrun hlog
        · exact updateListBalance_stamped h ha hs hrun hlog
            fun v hv => (hrefreshed v _).mpr (.inr ⟨rfl, hv⟩)
        · exact updatePoolBalance_stamped h ha hs hrun hlog
      · obtain ⟨op, s', hpool, h', hmatch⟩ := dispatch_refines False h ha i hrun
        exact ⟨s', h', hs.keep hpool (hmatch.not_restamps hi) (UInt64.le_refl _) hlog⟩

theorem dated_invariant : D.logged.Invariant D.Dated where
  init x hx := by
    obtain ⟨⟨c₀, init, accounts, a, hparse, hfresh, ha, hrun, hclock⟩, -⟩ := hx
    obtain ⟨s, h, hempty, hpool⟩ := processInitialize_represents hparse hfresh ha hrun
    apply dated_of_represents h
    constructor
    case pool =>
        rw [hpool, hclock]
        exact UInt64.le_refl _
    all_goals
      intro r hr
      rw [hempty.validators] at hr
      cases hr
  step x e x' hx hstep := logged_step hx hstep

/-- The instructions that need an up-to-date pool. -/
def needsFreshPool : List StakePoolInstruction := [.payCreditors, .addValidator, .removeValidator]

theorem needsFreshPool_fresh {i : StakePoolInstruction} (h : D.Represents c.ledger s)
    (ha : D.Addressed accounts) (hi : i ∈ needsFreshPool)
    (hrun : dispatch D.programs D.programId i accounts c = .ok L') :
    c.clock.epoch ≤ s.pool.lastUpdateEpoch ∧
      (D.stateOf L').pool.lastUpdateEpoch = s.pool.lastUpdateEpoch := by
  obtain ⟨op, s', hpool, h', hmatch⟩ := dispatch_refines False h ha i hrun
  rw [← h'.eq_stateOf]
  simp only [needsFreshPool, List.mem_cons, List.not_mem_nil, or_false] at hi
  rcases hi with rfl | rfl | rfl
  · have hop : op ≠ .updatePool := by rintro rfl; cases hmatch
    refine ⟨?_, hpool.lastUpdateEpoch_eq hop⟩
    simp only [dispatch, processPayCreditors, bind_eq_ok, pure_eq_ok, Prod.exists] at hrun
    obtain ⟨paid, L₁, hpay, -⟩ := hrun
    obtain ⟨_, _, _, _, _, _, hpayRun, -⟩ := payCreditors_ok h ha hpay
    exact hpayRun.fresh
  · have hop : op ≠ .updatePool := by rintro rfl; cases hmatch
    obtain ⟨-, -, hfresh, -⟩ := processAddValidator_ok h ha hrun
    exact ⟨hfresh, hpool.lastUpdateEpoch_eq hop⟩
  · have hop : op ≠ .updatePool := by rintro rfl; cases hmatch
    obtain ⟨-, -, -, hfresh, -⟩ := processRemoveValidator_ok h ha hrun
    exact ⟨hfresh, hpool.lastUpdateEpoch_eq hop⟩

/-- In an up-to-date pool every record was written in this epoch. -/
theorem Stamped.current (hs : Stamped epoch refreshed s)
    (hfresh : epoch ≤ s.pool.lastUpdateEpoch) :
    s.pool.lastUpdateEpoch = epoch ∧
      ∀ r ∈ s.list.validators, refreshed r.validatorAccount epoch := by
  refine ⟨UInt64.le_antisymm hs.pool hfresh, ?_⟩
  intro r hr
  have hlast : r.lastUpdateEpoch = epoch :=
    UInt64.le_antisymm (hs.younger r hr) (UInt64.le_trans hfresh (hs.older r hr))
  have hlogged := hs.logged r hr
  rw [hlast] at hlogged
  exact hlogged

/-- No record is ever older than the pool.  When `PayCreditors`, `AddValidator` or
`RemoveValidator` succeeds, the pool is of the current epoch, and so is every record before
and after the instruction. -/
theorem creditors_paid_at_fresh_price (h : D.logged.Reachable x) :
    (∀ r ∈ (D.stateOf x.chain.ledger).list.validators,
      (D.stateOf x.chain.ledger).pool.lastUpdateEpoch ≤ r.lastUpdateEpoch) ∧
    ∀ i ∈ needsFreshPool, ∀ accounts x', D.logged.step x (.instruction i accounts) x' →
      (D.stateOf x.chain.ledger).pool.lastUpdateEpoch = x.chain.clock.epoch ∧
      (∀ r ∈ (D.stateOf x.chain.ledger).list.validators,
        x.refreshed r.validatorAccount x.chain.clock.epoch) ∧
      ∀ r ∈ (D.stateOf x'.chain.ledger).list.validators,
        x'.refreshed r.validatorAccount x.chain.clock.epoch := by
  have hx := dated_invariant.reachable h
  refine ⟨hx.2.older, ?_⟩
  intro i hi accounts x' hstep
  obtain ⟨ha, L', hrun, hchain⟩ := hstep.1
  obtain ⟨hfresh, hsame⟩ := needsFreshPool_fresh hx.1 ha hi hrun
  obtain ⟨hpool, hrecords⟩ := hx.2.current hfresh
  refine ⟨hpool, hrecords, ?_⟩
  have hx' := (logged_step hx hstep).2
  rw [hchain] at hx' ⊢
  apply (hx'.current _).2
  change x.chain.clock.epoch ≤ (D.stateOf L').pool.lastUpdateEpoch
  rw [hsame]
  exact hfresh

section

open Reference

theorem paysIn_forward (actions : List Action) : PaysIn deployment.Forward actions :=
  fun source target n hmem hsource c L' hrun =>
    ⟨paysIn_outside actions source target n hmem hsource c L' hrun, UInt64.le_refl _⟩

/-- Every step of a run can be logged. -/
theorem logged_extend {e : Event} (hstep : D.Step D.Forward x.chain e c') :
    ∃ x', D.logged.step x e x' ∧ x'.chain = c' :=
  ⟨⟨c', fun v epoch => x.refreshed v epoch ∨
      epoch = x.chain.clock.epoch ∧ D.Refreshes x.chain v e⟩,
    ⟨hstep, fun _ _ => Iff.rfl⟩, rfl⟩

theorem performAll_logged (actions : List Action) :
    ∀ {x : Logged} {c' : Chain}, deployment.logged.Reachable x →
      performAll anything actions x.chain = .ok c' →
      ∃ x', deployment.logged.Reachable x' ∧ x'.chain = c' := by
  induction actions with
  | nil =>
      intro x c' hx hrun
      exact ⟨x, hx, Except.ok.inj hrun⟩
  | cons action actions ih =>
      intro x c' hx hrun
      simp only [performAll, bind_eq_ok] at hrun
      obtain ⟨c₁, hfirst, hrest⟩ := hrun
      have hallowed : ∀ c e, anything c e = true → (fun _ _ => True : Chain → Event → Prop) c e :=
        fun _ _ _ => trivial
      obtain ⟨e, hstep, -⟩ := perform_step (paysIn_forward [action]) List.mem_cons_self hallowed
        hfirst
      obtain ⟨x₁, hlogged, rfl⟩ := logged_extend hstep
      exact ih (.step hx hlogged) hrest

theorem execute_logged {actions : List Action} (h : execute anything actions = .ok c) :
    ∃ x, deployment.logged.Reachable x ∧ x.chain = c := by
  simp only [execute, bind_eq_ok] at h
  obtain ⟨L, hinit, h⟩ := h
  obtain ⟨a, hparse, hfresh⟩ := fresh
  have hstart : deployment.logged.Reachable
      ⟨{ start with ledger := L }, fun _ _ => False⟩ :=
    .init ⟨⟨start, _, initAccounts, a, hparse, hfresh, addressed_spec (by decide), hinit, rfl⟩,
      fun _ _ => id⟩
  exact performAll_logged actions hstart h

/-- A pool with a validator and a credit for the friend. -/
def creditedRun : List Action :=
  [deposit 100000000 userTokensKey mintKey, addValidator validatorKey,
    credit 1000000 userTokensKey friendKey]

/-- The pool is refreshed in the next epoch. -/
def refreshedRun : Except ProgramError Chain := do
  let c ← execute anything creditedRun
  performAll anything [.call .updateListBalance (refreshAccounts 0), updatePool]
    { c with clock := ⟨1⟩ }

theorem creditors_paid_at_fresh_price_refreshedRun :
    ∃ x : Logged, refreshedRun = .ok x.chain ∧ x.chain.clock.epoch = 1 ∧
      (deployment.stateOf x.chain.ledger).list.validators = [⟨validatorKey, 0, 1, 0⟩] ∧
      x.refreshed validatorKey 1 := by
  have hrun : (do
      let c ← refreshedRun
      let L' ← dispatch programs programId .payCreditors (payAccounts [friendKey]) c
      pure ((deployment.stateOf c.ledger).list.validators, c.clock.epoch,
        (L' friendKey).lamports)) = .ok ([⟨validatorKey, 0, 1, 0⟩], 1, 2000000) := by
    decide +kernel
  simp only [bind_eq_ok, pure_eq_ok, Prod.mk.injEq] at hrun
  obtain ⟨c, hc, L', hpay, hlist, hepoch, -⟩ := hrun
  have hrefreshed := hc
  simp only [refreshedRun, bind_eq_ok] at hrefreshed
  obtain ⟨c₀, hcredited, hlater⟩ := hrefreshed
  obtain ⟨x₀, hx₀, rfl⟩ := execute_logged hcredited
  -- the clock goes on before the pool is refreshed
  have hclock : deployment.Step deployment.Forward x₀.chain .outside
      { x₀.chain with clock := ⟨1⟩ } := by
    refine ⟨clock_outside _, ?_⟩
    have hstart : (execute anything creditedRun).map (fun c => c.clock.epoch) = .ok 0 := by
      decide +kernel
    rw [hcredited] at hstart
    have hzero : x₀.chain.clock.epoch = 0 := Except.ok.inj hstart
    change x₀.chain.clock.epoch ≤ 1
    rw [hzero]
    decide
  obtain ⟨x₁, hwait, hx₁⟩ := logged_extend hclock
  rw [← hx₁] at hlater
  obtain ⟨x, hx, rfl⟩ := performAll_logged _ (.step hx₀ hwait) hlater
  refine ⟨x, hc, hepoch, hlist, ?_⟩
  have hevent : deployment.Step deployment.Forward x.chain
      (.instruction .payCreditors (payAccounts [friendKey])) { x.chain with ledger := L' } :=
    ⟨addressed_spec (by decide), L', hpay, rfl⟩
  obtain ⟨x', hstep, -⟩ := logged_extend hevent
  obtain ⟨-, hfresh⟩ := creditors_paid_at_fresh_price hx
  obtain ⟨-, hrecords, -⟩ := hfresh _ (by decide) _ x' hstep
  rw [hepoch] at hrecords
  apply hrecords ⟨validatorKey, 0, 1, 0⟩
  rw [hlist]
  exact List.mem_singleton_self _

end

end Tenderize
