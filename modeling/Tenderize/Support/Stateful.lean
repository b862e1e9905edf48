import Mathlib.Order.Defs.Unbundled

/-!
# Computations with a state

How computations that may throw, and keep their state when they do, are taken apart, a rule for
loops over a list, and rules for what holds of the state wherever a computation ends.
-/

namespace Tenderize.Support

variable {ε σ α β : Type} {x : EStateM ε σ α} {s s' : σ}

theorem run_bind_eq_ok {f : α → EStateM ε σ β} {b : β} :
    (x >>= f) s = .ok b s' ↔ ∃ a t, x s = .ok a t ∧ f a t = .ok b s' := by
  change EStateM.bind x f s = .ok b s' ↔ _
  unfold EStateM.bind
  cases x s with
  | ok a t => simp [and_assoc]
  | error e t => simp

theorem run_bind_of_ok {f : α → EStateM ε σ β} {a : α} (h : x s = .ok a s') :
    (x >>= f) s = f a s' := by
  change EStateM.bind x f s = _
  unfold EStateM.bind
  rw [h]

theorem run_bind_of_error {f : α → EStateM ε σ β} {e : ε} (h : x s = .error e s') :
    (x >>= f) s = .error e s' := by
  change EStateM.bind x f s = _
  unfold EStateM.bind
  rw [h]

/-- A loop whose turns succeed exactly where `p` holds.  The invariant is on the items that
were done and the state after them. -/
theorem forM_ok_iff {l : List α} {f : α → EStateM ε σ Unit} {p : α → Prop}
    {I : List α → σ → Prop} (h : I [] s)
    (hstep : ∀ done x todo t, l = done ++ x :: todo → I done t →
      ((∃ t', f x t = .ok () t') ↔ p x) ∧ ∀ t', f x t = .ok () t' → I (done ++ [x]) t') :
    ((∃ s', forM l f s = .ok () s') ↔ ∀ x ∈ l, p x) ∧
      ∀ s', forM l f s = .ok () s' → I l s' := by
  -- from any point of the loop on
  have hrest : ∀ todo done t, l = done ++ todo → I done t →
      ((∃ s', forM todo f t = .ok () s') ↔ ∀ x ∈ todo, p x) ∧
        ∀ s', forM todo f t = .ok () s' → I l s' := by
    intro todo
    induction todo with
    | nil =>
        intro done t hl hdone
        rw [List.append_nil] at hl
        refine ⟨iff_of_true ⟨t, rfl⟩ (fun _ hmem => absurd hmem List.not_mem_nil), ?_⟩
        intro s' hrun
        obtain ⟨-, rfl⟩ := EStateM.Result.ok.inj hrun
        rwa [hl]
    | cons x todo ih =>
        intro done t hl hdone
        obtain ⟨hp, hnext⟩ := hstep done x todo t hl hdone
        have hl' : l = (done ++ [x]) ++ todo := by rw [hl, List.append_cons]
        rw [List.forall_mem_cons, ← hp]
        constructor
        · constructor
          · rintro ⟨s', hrun⟩
            obtain ⟨⟨⟩, t', hfirst, hlater⟩ := run_bind_eq_ok.mp hrun
            exact ⟨⟨t', hfirst⟩, (ih _ t' hl' (hnext t' hfirst)).1.mp ⟨s', hlater⟩⟩
          · rintro ⟨⟨t', hfirst⟩, hall⟩
            obtain ⟨s', hlater⟩ := (ih _ t' hl' (hnext t' hfirst)).1.mpr hall
            exact ⟨s', run_bind_eq_ok.mpr ⟨(), t', hfirst, hlater⟩⟩
        · intro s' hrun
          obtain ⟨⟨⟩, t', hfirst, hlater⟩ := run_bind_eq_ok.mp hrun
          exact (ih _ t' hl' (hnext t' hfirst)).2 s' hlater
  exact hrest l [] s rfl h

/-- The state at the end, also where the computation throws. -/
def finalState : EStateM.Result ε σ α → σ
  | .ok _ s => s
  | .error _ s => s

/-- The relation holds between the states at the start and at the end. -/
def Drives (R : σ → σ → Prop) (x : EStateM ε σ α) : Prop :=
  ∀ s, R s (finalState (x s))

namespace Drives

variable {R : σ → σ → Prop}

theorem of_unchanged [Std.Refl R] (h : ∀ s, finalState (x s) = s) : Drives R x := by
  intro s
  rw [h s]
  exact refl_of R s

theorem pure [Std.Refl R] (a : α) : Drives R (Pure.pure a : EStateM ε σ α) :=
  of_unchanged fun _ => rfl

theorem throw [Std.Refl R] (e : ε) : Drives R (MonadExcept.throw e : EStateM ε σ α) :=
  of_unchanged fun _ => rfl

theorem bind [IsTrans σ R] {f : α → EStateM ε σ β} (hx : Drives R x) (hf : ∀ a, Drives R (f a)) :
    Drives R (x >>= f) := by
  intro s
  have hfirst := hx s
  cases hrun : x s with
  | ok a t =>
      rw [hrun] at hfirst
      rw [run_bind_of_ok hrun]
      exact trans_of R hfirst (hf a t)
  | error e t =>
      rw [hrun] at hfirst
      rw [run_bind_of_error hrun]
      exact hfirst

theorem ite {p : Prop} [Decidable p] {y : EStateM ε σ α} (hx : Drives R x) (hy : Drives R y) :
    Drives R (if p then x else y) := by
  split
  · exact hx
  · exact hy

theorem forM [Std.Refl R] [IsTrans σ R] {f : α → EStateM ε σ Unit} (hf : ∀ a, Drives R (f a))
    (l : List α) : Drives R (ForM.forM l f) := by
  induction l with
  | nil => exact pure ()
  | cons a l ih => exact bind (hf a) fun _ => ih

end Drives

end Tenderize.Support
