import Mathlib.Logic.Basic

/-!
# Transition systems

Runs of a labelled transition system, the invariant rule, and forward simulation.
A guard on states and labels cuts a system down to the runs whose every step meets it;
a simulation that matches labels carries over to the guarded systems.
-/

namespace Tenderize.Support

/-- One step for every label of a list, in order. -/
inductive RunList {S E : Type} (step : E → S → S → Prop) : List E → S → S → Prop
  | nil (s : S) : RunList step [] s s
  | cons {e : E} {es : List E} {s s' s'' : S} : step e s s' → RunList step es s' s'' →
      RunList step (e :: es) s s''

theorem RunList.append {S E : Type} {step : E → S → S → Prop} {es es' : List E} {s s' s'' : S}
    (h : RunList step es s s') (h' : RunList step es' s' s'') :
    RunList step (es ++ es') s s'' := by
  induction h with
  | nil => exact h'
  | cons hfirst _ ih => exact .cons hfirst (ih h')

theorem RunList.invariant {S E : Type} {step : E → S → S → Prop} {I : S → Prop}
    {es : List E} {s s' : S} (hstep : ∀ e ∈ es, ∀ s s', I s → step e s s' → I s')
    (h : RunList step es s s') (hs : I s) : I s' := by
  induction h with
  | nil s => exact hs
  | cons hfirst _ ih =>
      apply ih
      · intro e he
        exact hstep e (List.mem_cons_of_mem _ he)
      · exact hstep _ List.mem_cons_self _ _ hs hfirst

/-- What no step changes, a run does not change. -/
theorem RunList.unchanged {S E β : Type} {step : E → S → S → Prop} (f : S → β)
    (hstep : ∀ e s s', step e s s' → f s' = f s) {es : List E} {s s' : S}
    (h : RunList step es s s') : f s' = f s := by
  apply RunList.invariant (I := fun x => f x = f s) _ h rfl
  intro e _ x x' hx hxx'
  rw [hstep e x x' hxx', hx]

/-- An invariant that remembers the labels so far. -/
theorem RunList.history_invariant {S E : Type} {step : E → S → S → Prop}
    {I : List E → S → Prop} (hstep : ∀ done e s s', I done s → step e s s' → I (done ++ [e]) s')
    {es : List E} {s s' : S} (h : RunList step es s s') :
    ∀ done, I done s → I (done ++ es) s' := by
  induction h with
  | nil s =>
      intro done hdone
      rwa [List.append_nil]
  | cons hfirst _ ih =>
      intro done hdone
      rw [List.append_cons]
      exact ih _ (hstep _ _ _ _ hdone hfirst)

/-- An invariant that counts the labels of a loop over `0, 1, ..`. -/
theorem RunList.range_invariant {S : Type} {step : Nat → S → S → Prop} {I : Nat → S → Prop}
    {n : Nat} (hstep : ∀ i < n, ∀ s s', I i s → step i s s' → I (i + 1) s') {s s' : S}
    (h : RunList step (List.range n) s s') (hs : I 0 s) : I n s' := by
  have hgeneral : ∀ m k s, k + m = n → I k s → RunList step (List.range' k m) s s' → I n s' := by
    intro m
    induction m with
    | zero =>
        intro k s hkm hk hrun
        cases hrun
        rwa [← hkm]
    | succ m ih =>
        intro k s hkm hk hrun
        rw [List.range'_succ] at hrun
        cases hrun with
        | cons hfirst hrest =>
            exact ih (k + 1) _ (by omega) (hstep k (by omega) _ _ hk hfirst) hrest
  rw [List.range_eq_range'] at h
  exact hgeneral n 0 s (by omega) hs h

structure System (S E : Type) where
  init : S → Prop
  step : S → E → S → Prop

namespace System

variable {S T E F : Type}

/-- The states of the runs that start in an initial state. -/
inductive Reachable (M : System S E) : S → Prop
  | init {s : S} : M.init s → Reachable M s
  | step {s s' : S} {e : E} : Reachable M s → M.step s e s' → Reachable M s'

/-- A system with more steps reaches more states. -/
theorem Reachable.mono {M M' : System S E} (hinit : ∀ s, M.init s → M'.init s)
    (hstep : ∀ s e s', M.step s e s' → M'.step s e s') {s : S} (h : M.Reachable s) :
    M'.Reachable s := by
  induction h with
  | init hs => exact .init (hinit _ hs)
  | step _ hs ih => exact .step ih (hstep _ _ _ hs)

/-- The same system, stepping only where the guard holds. -/
def restrict (M : System S E) (guard : S → E → Prop) : System S E where
  init := M.init
  step s e s' := M.step s e s' ∧ guard s e

theorem Reachable.of_restrict {M : System S E} {guard : S → E → Prop} {s : S}
    (h : (M.restrict guard).Reachable s) : M.Reachable s := by
  have hinit : ∀ s, (M.restrict guard).init s → M.init s := fun _ hs => hs
  exact h.mono hinit (fun _ _ _ hstep => hstep.1)

/-- From one state to another by steps with the given labels. -/
def Run (M : System S E) : List E → S → S → Prop :=
  RunList (fun e s s' => M.step s e s')

/-- The run may belong to a system with fewer steps. -/
theorem Run.reachable {M M' : System S E} {es : List E} {s s' : S} (h : M'.Run es s s')
    (hsub : ∀ x e x', M'.step x e x' → M.step x e x') (hs : M.Reachable s) : M.Reachable s' :=
  RunList.invariant (fun e _ x x' hx hstep => .step hx (hsub x e x' hstep)) h hs

/-- What the steps of a run keep in reachable states, the run keeps; the run may belong to a
system with fewer steps. -/
theorem Run.keeps {M M' : System S E} {I : S → Prop} {es : List E} {s s' : S}
    (h : M'.Run es s s') (hsub : ∀ x e x', M'.step x e x' → M.step x e x') (hs : M.Reachable s)
    (hstep : ∀ e ∈ es, ∀ x x', M.Reachable x → M'.step x e x' → I x → I x') (hI : I s) : I s' := by
  have hboth : M.Reachable s' ∧ I s' := by
    refine RunList.invariant (I := fun x => M.Reachable x ∧ I x) ?_ h ⟨hs, hI⟩
    rintro e he x x' ⟨hx, hIx⟩ hx'
    exact ⟨.step hx (hsub x e x' hx'), hstep e he x x' hx hx' hIx⟩
  exact hboth.2

/-- `I` holds at the start of every run and every step keeps it. -/
structure Invariant (M : System S E) (I : S → Prop) : Prop where
  init : ∀ s, M.init s → I s
  step : ∀ s e s', I s → M.step s e s' → I s'

theorem Invariant.reachable {M : System S E} {I : S → Prop} (hI : M.Invariant I) {s : S}
    (h : M.Reachable s) : I s := by
  induction h with
  | init hs => exact hI.init _ hs
  | step _ hstep ih => exact hI.step _ _ _ ih hstep

theorem Invariant.restrict {M : System S E} {I : S → Prop} (hI : M.Invariant I)
    (guard : S → E → Prop) : (M.restrict guard).Invariant I where
  init := hI.init
  step s e s' h hs := hI.step s e s' h hs.1

/-- Every concrete step is matched by an abstract one, with labels related by `Q`. -/
structure Simulation (M : System S E) (A : System T F) (R : S → T → Prop)
    (Q : S → E → T → F → Prop) : Prop where
  init : ∀ s, M.init s → ∃ t, R s t ∧ A.init t
  step : ∀ s e s' t, R s t → M.step s e s' → ∃ f t', A.step t f t' ∧ R s' t' ∧ Q s e t f

variable {M : System S E} {A : System T F} {R : S → T → Prop} {Q : S → E → T → F → Prop}

theorem Simulation.restrict (sim : Simulation M A R Q) {guard : S → E → Prop}
    {guard' : T → F → Prop}
    (hguard : ∀ s e t f, R s t → Q s e t f → guard s e → guard' t f) :
    Simulation (M.restrict guard) (A.restrict guard') R Q where
  init := sim.init
  step s e s' t hR hstep := by
    obtain ⟨f, t', hA, hR', hQ⟩ := sim.step s e s' t hR hstep.1
    exact ⟨f, t', ⟨hA, hguard s e t f hR hQ hstep.2⟩, hR', hQ⟩

/-- Invariants of the abstract system hold of whatever a reachable state represents. -/
theorem Simulation.invariant (sim : Simulation M A R Q) {I : T → Prop} (hI : A.Invariant I)
    {s : S} (h : M.Reachable s) : ∃ t, R s t ∧ I t := by
  induction h with
  | init hs =>
      obtain ⟨t, hR, ht⟩ := sim.init _ hs
      exact ⟨t, hR, hI.init t ht⟩
  | step _ hstep ih =>
      obtain ⟨t, hR, ht⟩ := ih
      obtain ⟨f, t', hA, hR', -⟩ := sim.step _ _ _ t hR hstep
      exact ⟨t', hR', hI.step t f t' ht hA⟩

/-- Reachable states represent reachable ones. -/
theorem Simulation.reachable (sim : Simulation M A R Q) {s : S} (h : M.Reachable s) :
    ∃ t, R s t ∧ A.Reachable t :=
  sim.invariant ⟨fun _ => .init, fun _ _ _ ht hstep => .step ht hstep⟩ h

/-- Two systems side by side: both step, from related states and with matching labels. -/
def beside (M : System S E) (A : System T F) (R : S → T → Prop) (Q : S → E → T → F → Prop) :
    System (S × T) (E × F) where
  init x := M.init x.1 ∧ A.init x.2 ∧ R x.1 x.2
  step x l x' := M.step x.1 l.1 x'.1 ∧ A.step x.2 l.2 x'.2 ∧ R x.1 x.2 ∧ Q x.1 l.1 x.2 l.2

theorem Run.beside_right {ls : List (E × F)} {x x' : S × T} (h : (M.beside A R Q).Run ls x x') :
    A.Run (ls.map Prod.snd) x.2 x'.2 := by
  induction h with
  | nil x => exact .nil x.2
  | cons hfirst _ ih => exact .cons hfirst.2.1 ih

/-- Every run has a run beside it. -/
theorem Simulation.run (sim : Simulation M A R Q) {es : List E} {s s' : S} (h : M.Run es s s') :
    ∀ t, R s t → ∃ ls t', ls.map Prod.fst = es ∧ R s' t' ∧
      (M.beside A R Q).Run ls (s, t) (s', t') := by
  induction h with
  | nil s => exact fun t hR => ⟨[], t, rfl, hR, .nil _⟩
  | cons hfirst _ ih =>
      intro t hR
      obtain ⟨f, t₁, hA, hR₁, hQ⟩ := sim.step _ _ _ t hR hfirst
      obtain ⟨ls, t', rfl, hR', hrest⟩ := ih t₁ hR₁
      exact ⟨(_, f) :: ls, t', rfl, hR', .cons ⟨hfirst, hA, hR, hQ⟩ hrest⟩

end System

end Tenderize.Support
