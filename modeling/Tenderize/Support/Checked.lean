import Mathlib.Logic.Basic

/-!
# Checked computations

Guards, lifted options and the inversion rules that take a successful `Except`
computation apart.  A handler that returns `.ok` has passed every guard and every
call before it, and the rules below hand those facts out one at a time.
-/

namespace Tenderize.Support

variable {ε α β : Type}

/-- Stop with `e` unless `c` holds. -/
def require (c : Prop) [Decidable c] (e : ε) : Except ε Unit :=
  if c then .ok () else .error e

/-- `Option::ok_or`. -/
def okOr (x : Option α) (e : ε) : Except ε α :=
  match x with
  | some a => .ok a
  | none => .error e

@[simp] theorem bind_eq_ok {x : Except ε α} {f : α → Except ε β} {b : β} :
    (x >>= f) = .ok b ↔ ∃ a, x = .ok a ∧ f a = .ok b := by
  cases x with
  | error e => simp [Bind.bind, Except.bind]
  | ok a => simp [Bind.bind, Except.bind]

theorem ok_bind (a : α) (f : α → Except ε β) : (Except.ok a >>= f) = f a := rfl

@[simp] theorem pure_eq_ok {a b : α} :
    (pure a : Except ε α) = .ok b ↔ a = b := by
  simp [pure, Except.pure]

@[simp] theorem map_eq_ok {x : Except ε α} {f : α → β} {b : β} :
    (f <$> x) = .ok b ↔ ∃ a, x = .ok a ∧ f a = b := by
  cases x with
  | error e => simp [Functor.map, Except.map]
  | ok a => simp [Functor.map, Except.map]

theorem toOption_eq_some {x : Except ε α} {a : α} : x.toOption = some a ↔ x = .ok a := by
  cases x with
  | error e => simp [Except.toOption]
  | ok b => simp [Except.toOption]

theorem map_eq_error {x : Except ε α} {f : α → β} {e : ε} : x.map f = .error e ↔ x = .error e := by
  cases x with
  | error e' => simp [Except.map]
  | ok a => simp [Except.map]

@[simp] theorem require_eq_ok {c : Prop} [Decidable c] {e : ε} {u : Unit} :
    require c e = .ok u ↔ c := by
  unfold require
  split <;> simp_all

@[simp] theorem okOr_eq_ok {x : Option α} {e : ε} {a : α} :
    okOr x e = .ok a ↔ x = some a := by
  cases x <;> simp [okOr]

theorem ite_error_eq_ok {c : Prop} [Decidable c] {e : ε} {x : Except ε α} {a : α} :
    (if c then .error e else x) = .ok a ↔ ¬c ∧ x = .ok a := by
  split <;> simp_all

/-- A loop that never stops maps its list. -/
theorem mapM_ok {f : α → Except ε β} {g : α → β} {items : List α}
    (h : ∀ x ∈ items, f x = .ok (g x)) : items.mapM f = .ok (items.map g) := by
  induction items with
  | nil => rfl
  | cons x items ih =>
      rw [List.mapM_cons, h x List.mem_cons_self,
        ih fun y hy => h y (List.mem_cons_of_mem _ hy)]
      rfl

/-- What every turn of a loop keeps, the loop keeps. -/
theorem foldlM_keeps {f : β → α → Except ε β} {I : β → Prop}
    (hstep : ∀ b x b', I b → f b x = .ok b' → I b') {items : List α} :
    ∀ {b b' : β}, I b → items.foldlM f b = .ok b' → I b' := by
  induction items with
  | nil =>
      intro b b' hb hrun
      obtain rfl := Except.ok.inj hrun
      exact hb
  | cons x items ih =>
      intro b b' hb hrun
      rw [List.foldlM_cons, bind_eq_ok] at hrun
      obtain ⟨b₁, hfirst, hrest⟩ := hrun
      exact ih (hstep b x b₁ hb hfirst) hrest

end Tenderize.Support
