import Mathlib.Tactic

/-!
# Lists in slices, and lists with gaps

The slices of a list put together again are the list.  A list from which the gaps were
dropped lines up with the original exactly when all gaps were at the end.
-/

namespace Tenderize.Support

variable {α β : Type}

theorem flatten_slices (size : Nat) (items : List α) (n : Nat) :
    ((List.range n).map fun i => (items.drop (i * size)).take size).flatten =
      items.take (n * size) := by
  induction n with
  | zero => simp
  | succ n ih =>
      rw [List.range_succ, List.map_append, List.flatten_append, ih, Nat.succ_mul, List.take_add]
      simp

/-- Each element with what stands at its place in another list. -/
def besides (keys : List α) (items : List β) : List (Option α × β) :=
  items.mapIdx fun i item => (keys[i]?, item)

@[simp] theorem besides_nil (keys : List α) : besides keys ([] : List β) = [] := rfl

theorem besides_cons (key : α) (keys : List α) (item : β) (items : List β) :
    besides (key :: keys) (item :: items) = (some key, item) :: besides keys items := by
  unfold besides
  rw [List.mapIdx_cons]
  rfl

/-- Once `f` has no value on the list, it has none further on. -/
def GapsLast (f : α → Option β) (keys : List α) : Prop :=
  keys.Pairwise fun key key' => f key = none → f key' = none

variable {f : α → Option β} {keys : List α}

theorem besides_filterMap_of_gapsLast (h : GapsLast f keys) :
    besides keys (keys.filterMap f) = keys.filterMap fun key => (f key).map fun item =>
      (some key, item) := by
  induction keys with
  | nil => rfl
  | cons key keys ih =>
      obtain ⟨hkey, hkeys⟩ := List.pairwise_cons.mp h
      cases hf : f key with
      | some item =>
          rw [List.filterMap_cons_some hf, besides_cons, ih hkeys,
            List.filterMap_cons_some (by rw [hf]; rfl)]
      | none =>
          have hnone : ∀ x ∈ key :: keys, f x = none := by
            intro x hx
            rcases List.mem_cons.mp hx with rfl | hx
            · exact hf
            · exact hkey x hx hf
          rw [List.filterMap_eq_nil_iff.mpr hnone, besides_nil,
            List.filterMap_eq_nil_iff.mpr fun x hx => by rw [hnone x hx]; rfl]

/-- An element beside a key without a value gives a gap in front of it away. -/
theorem gapsLast_of_besides
    (h : ∀ entry ∈ besides keys (keys.filterMap f), ∃ key, entry.1 = some key ∧
      f key = some entry.2) : GapsLast f keys := by
  induction keys with
  | nil => exact .nil
  | cons key keys ih =>
      cases hf : f key with
      | some item =>
          rw [List.filterMap_cons_some hf, besides_cons] at h
          refine List.pairwise_cons.mpr ⟨fun _ _ hnone => ?_, ih fun entry hentry => ?_⟩
          · rw [hf] at hnone
            cases hnone
          · exact h entry (List.mem_cons_of_mem _ hentry)
      | none =>
          rw [List.filterMap_cons_none hf] at h
          cases hitems : keys.filterMap f with
          | nil =>
              have hnone := List.filterMap_eq_nil_iff.mp hitems
              refine List.pairwise_cons.mpr ⟨fun x hx _ => hnone x hx, ih ?_⟩
              rw [hitems]
              intro entry hentry
              cases hentry
          | cons item items =>
              rw [hitems, besides_cons] at h
              obtain ⟨_, heq, hvalue⟩ := h _ List.mem_cons_self
              obtain rfl := Option.some.inj heq
              rw [hf] at hvalue
              cases hvalue

end Tenderize.Support
