import Tenderize.Reference.Pool

/-!
# Runs of the program are runs of the pool

The accounts of a reachable chain stand for a reachable state of the pool, and what happens to
them, instruction by instruction, is a run of the pool between the states they stand for.
-/

namespace Tenderize

open Support

variable {D : Deployment} {c c' : Chain} {es : List Event}

/-- Every run of the program has a run of the pool beside it, between the states that the
accounts stand for and with the operations that the events are. -/
theorem runs_refine_pool (h : (D.system D.Outside).Reachable c)
    (hrun : (D.system D.Outside).Run es c c') :
    D.poolSystem.Reachable (D.stateOf c.ledger) ∧
      ∃ steps : List (Event × PoolOp), steps.map Prod.fst = es ∧
        D.poolSystem.Run (steps.map Prod.snd) (D.stateOf c.ledger) (D.stateOf c'.ledger) ∧
        ((D.system D.Outside).beside D.poolSystem (fun c s => D.Represents c.ledger s)
          (Matches False)).Run steps (c, D.stateOf c.ledger) (c', D.stateOf c'.ledger) := by
  have hout : ∀ c c', D.Outside c c' → D.Outside c c' := fun _ _ h => h
  have sim := system_simulation False hout False.elim
  constructor
  · obtain ⟨s, hs, hreachable⟩ := sim.reachable h
    rw [← hs.eq_stateOf]
    exact hreachable
  · obtain ⟨steps, s', hes, hs', hbeside⟩ := sim.run hrun _ (reachable_represents h)
    rw [← hs'.eq_stateOf]
    exact ⟨steps, hes, hbeside.beside_right, hbeside⟩

section

open Reference

/-- A new pool, and the chain after a deposit and a withdrawal. -/
def firstTrades : Except ProgramError (Chain × Chain) := do
  let c ← execute anything []
  let c' ← performAll anything
    [deposit 100000000 userTokensKey mintKey, withdraw 1000000 userTokensKey mintKey] c
  pure (c, c')

theorem runs_refine_pool_firstTrades :
    ∃ c c', ∃ steps : List (Event × PoolOp), firstTrades = .ok (c, c') ∧
      deployment.poolSystem.Reachable (deployment.stateOf c.ledger) ∧
      deployment.poolSystem.Run (steps.map Prod.snd) (deployment.stateOf c.ledger)
        (deployment.stateOf c'.ledger) ∧
      steps.map Prod.fst = [(deposit 100000000 userTokensKey mintKey).event,
        (withdraw 1000000 userTokensKey mintKey).event] ∧
      (deployment.stateOf c.ledger).pool.poolTotal = 0 ∧
      (deployment.stateOf c'.ledger).pool.poolTotal = 99000000 := by
  have hrun : firstTrades.map (fun x => ((deployment.stateOf x.1.ledger).pool.poolTotal,
      (deployment.stateOf x.2.ledger).pool.poolTotal)) = .ok (0, 99000000) := by
    decide +kernel
  obtain ⟨⟨c, c'⟩, hc, htotals⟩ := map_eq_ok.mp hrun
  obtain ⟨hbefore, hafter⟩ := Prod.mk.inj htotals
  have hchains := hc
  simp only [firstTrades, bind_eq_ok, pure_eq_ok, Prod.mk.injEq] at hchains
  obtain ⟨c, hc₁, c', hc₂, rfl, rfl⟩ := hchains
  obtain ⟨hreachable, steps, hevents, hpool, -⟩ :=
    runs_refine_pool (execute_anything_reachable hc₁) (performAll_run (paysIn_outside _) hc₂)
  exact ⟨c, c', steps, hc, hreachable, hpool, hevents, hbefore, hafter⟩

end

end Tenderize
