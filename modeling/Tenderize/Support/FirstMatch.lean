import Mathlib.Tactic

/-!
# Lists searched by key

`iter_mut().find` hands out the first row with a key and the caller changes it in
place.  `updateFirst` is that write; the rules say what a lookup, a sum and the set of
keys become.
-/

namespace Tenderize.Support

variable {α κ : Type} [DecidableEq κ] (key : α → κ)

/-- The first row with the key. -/
def lookup (k : κ) (rows : List α) : Option α :=
  rows.find? (fun row => key row = k)

/-- Replace the first row with the key. -/
def updateFirst (k : κ) (new : α) : List α → List α
  | [] => []
  | row :: rows => if key row = k then new :: rows else row :: updateFirst k new rows

variable {key} {k : κ} {old new : α} {rows : List α}

theorem lookup_eq_some_split (h : lookup key k rows = some old) :
    key old = k ∧ ∃ before after, rows = before ++ old :: after ∧
      ∀ new, updateFirst key k new rows = before ++ new :: after := by
  induction rows with
  | nil => simp [lookup] at h
  | cons row rows ih =>
      by_cases hrow : key row = k
      · have hold : row = old := by simpa [lookup, hrow] using h
        subst hold
        exact ⟨hrow, [], rows, rfl, fun new => by simp [updateFirst, hrow]⟩
      · have hrest : lookup key k rows = some old := by simpa [lookup, hrow] using h
        obtain ⟨hkey, before, after, hsplit, hupdate⟩ := ih hrest
        refine ⟨hkey, row :: before, after, by rw [hsplit, List.cons_append], ?_⟩
        intro new
        simp [updateFirst, hrow, hupdate new]

theorem lookup_key (h : lookup key k rows = some old) : key old = k :=
  (lookup_eq_some_split h).1

theorem lookup_mem (h : lookup key k rows = some old) : old ∈ rows :=
  List.mem_of_find?_eq_some h

/-- With distinct keys, a row is found under its own key. -/
theorem lookup_of_mem (hnodup : (rows.map key).Nodup) (h : old ∈ rows) :
    lookup key (key old) rows = some old := by
  induction rows with
  | nil => simp at h
  | cons row rows ih =>
      rw [List.map_cons, List.nodup_cons] at hnodup
      rcases List.mem_cons.mp h with rfl | hrest
      · simp [lookup]
      · have hne : key row ≠ key old := by
          intro heq
          exact hnodup.1 (heq ▸ List.mem_map_of_mem hrest)
        simpa [lookup, hne] using ih hnodup.2 hrest

theorem lookup_eq_none_iff : lookup key k rows = none ↔ ∀ row ∈ rows, key row ≠ k := by
  simp [lookup]

/-- Rows that are rewritten under the same key are found as before. -/
theorem lookup_map {f : α → α} (hf : ∀ row, key (f row) = key row) :
    lookup key k (rows.map f) = (lookup key k rows).map f := by
  unfold lookup
  rw [List.find?_map]
  simp only [Function.comp_def, hf]

theorem lookup_append_self (h : lookup key k rows = none) (hnew : key new = k) :
    lookup key k (rows ++ [new]) = some new := by
  unfold lookup at h ⊢
  rw [List.find?_append, h]
  simp [hnew]

theorem lookup_append_of_ne (hne : key new ≠ k) :
    lookup key k (rows ++ [new]) = lookup key k rows := by
  unfold lookup
  rw [List.find?_append]
  simp [hne]

/-- Rows under other keys are the same before and after. -/
theorem lookup_updateFirst_of_ne (hnew : key new = k) {k' : κ} (hne : k' ≠ k) :
    lookup key k' (updateFirst key k new rows) = lookup key k' rows := by
  induction rows with
  | nil => rfl
  | cons row rows ih =>
      unfold updateFirst
      by_cases hrow : key row = k
      · simp [lookup, hrow, hnew, hne.symm]
      · rw [if_neg hrow]
        simp only [lookup] at ih ⊢
        rw [List.find?_cons, List.find?_cons, ih]

theorem lookup_updateFirst_self (h : lookup key k rows = some old) (hnew : key new = k) :
    lookup key k (updateFirst key k new rows) = some new := by
  induction rows with
  | nil => simp [lookup] at h
  | cons row rows ih =>
      by_cases hrow : key row = k
      · simp [updateFirst, lookup, hrow, hnew]
      · have hrest : lookup key k rows = some old := by simpa [lookup, hrow] using h
        simpa [updateFirst, lookup, hrow] using ih hrest

/-- An update keeps every column in which the new row agrees with the old one. -/
theorem map_updateFirst_eq {β : Type} {f : α → β} (h : lookup key k rows = some old)
    (hf : f new = f old) : (updateFirst key k new rows).map f = rows.map f := by
  obtain ⟨-, before, after, hsplit, hupdate⟩ := lookup_eq_some_split h
  rw [hupdate new, hsplit, List.map_append, List.map_cons, hf, List.map_append, List.map_cons]

/-- An update under the same key keeps the list of keys. -/
theorem map_key_updateFirst (h : lookup key k rows = some old) (hnew : key new = k) :
    (updateFirst key k new rows).map key = rows.map key :=
  map_updateFirst_eq h (hnew.trans (lookup_key h).symm)

theorem mem_updateFirst {row : α} (hrow : row ∈ updateFirst key k new rows) :
    row = new ∨ row ∈ rows := by
  induction rows with
  | nil => exact nomatch hrow
  | cons first rows ih =>
      unfold updateFirst at hrow
      split at hrow
      · rcases List.mem_cons.mp hrow with rfl | hrest
        · exact .inl rfl
        · exact .inr (List.mem_cons_of_mem _ hrest)
      · rcases List.mem_cons.mp hrow with rfl | hrest
        · exact .inr List.mem_cons_self
        · rcases ih hrest with hnew | hold
          · exact .inl hnew
          · exact .inr (List.mem_cons_of_mem _ hold)

/-- In a table without duplicates, a row of the updated list is the new one or an old one
under another key. -/
theorem mem_updateFirst_of_nodup (hnodup : (rows.map key).Nodup)
    (h : lookup key k rows = some old) (hnew : key new = k) {row : α}
    (hrow : row ∈ updateFirst key k new rows) : row = new ∨ row ∈ rows ∧ key row ≠ k := by
  have hfound : lookup key (key row) (updateFirst key k new rows) = some row := by
    apply lookup_of_mem _ hrow
    rw [map_key_updateFirst h hnew]
    exact hnodup
  by_cases hk : key row = k
  · left
    rw [hk, lookup_updateFirst_self h hnew, Option.some.injEq] at hfound
    exact hfound.symm
  · right
    rw [lookup_updateFirst_of_ne hnew hk] at hfound
    exact ⟨lookup_mem hfound, hk⟩

theorem length_updateFirst : (updateFirst key k new rows).length = rows.length := by
  induction rows with
  | nil => rfl
  | cons row rows ih =>
      unfold updateFirst
      split
      · rfl
      · rw [List.length_cons, ih, List.length_cons]

/-- The new sum and the old row make up the old sum and the new row. -/
theorem sum_updateFirst {M : Type} [AddCommMonoid M] (f : α → M)
    (h : lookup key k rows = some old) (new : α) :
    ((updateFirst key k new rows).map f).sum + f old = (rows.map f).sum + f new := by
  obtain ⟨-, before, after, hsplit, hupdate⟩ := lookup_eq_some_split h
  rw [hupdate new, hsplit]
  simp only [List.map_append, List.map_cons, List.sum_append, List.sum_cons]
  abel

/-- In a table without duplicates the other rows have other keys. -/
theorem lookup_split_of_nodup (hnodup : (rows.map key).Nodup) (h : lookup key k rows = some old) :
    ∃ before after, rows = before ++ old :: after ∧
      (∀ new, updateFirst key k new rows = before ++ new :: after) ∧
      ∀ row ∈ before ++ after, key row ≠ k := by
  obtain ⟨hold, before, after, rfl, hupdate⟩ := lookup_eq_some_split h
  refine ⟨before, after, rfl, hupdate, ?_⟩
  intro row hrow heq
  rw [List.map_append, List.map_cons, List.nodup_middle, List.nodup_cons] at hnodup
  apply hnodup.1
  rw [hold, ← heq, ← List.map_append]
  exact List.mem_map_of_mem hrow

/-- Replacing one row of a table without duplicates while the values of the other rows
stay. -/
theorem map_updateFirst_of_others {β : Type} {f g : α → β}
    (hnodup : (rows.map key).Nodup) (h : lookup key k rows = some old)
    (hothers : ∀ row ∈ rows, key row ≠ k → g row = f row) (new : α) :
    ∃ before after, rows.map f = before ++ f old :: after ∧
      (updateFirst key k new rows).map g = before ++ g new :: after := by
  obtain ⟨before, after, rfl, hupdate, hne⟩ := lookup_split_of_nodup hnodup h
  have hbefore : before.map g = before.map f :=
    List.map_congr_left fun row hrow =>
      hothers row (by simp [hrow]) (hne row (List.mem_append_left _ hrow))
  have hafter : after.map g = after.map f :=
    List.map_congr_left fun row hrow =>
      hothers row (by simp [hrow]) (hne row (List.mem_append_right _ hrow))
  refine ⟨before.map f, after.map f, ?_, ?_⟩
  · rw [List.map_append, List.map_cons]
  · rw [hupdate new, List.map_append, List.map_cons, hbefore, hafter]

theorem sum_updateFirst_of_others {M : Type} [AddCommMonoid M] {f g : α → M}
    (hnodup : (rows.map key).Nodup) (h : lookup key k rows = some old)
    (hothers : ∀ row ∈ rows, key row ≠ k → g row = f row) (new : α) :
    ((updateFirst key k new rows).map g).sum + f old = (rows.map f).sum + g new := by
  obtain ⟨before, after, hrows, hupdate⟩ :=
    map_updateFirst_of_others hnodup h hothers new
  rw [hrows, hupdate]
  simp only [List.sum_append, List.sum_cons]
  abel

/-- Filtering the key out takes out that one row. -/
theorem filter_key_of_nodup (hnodup : (rows.map key).Nodup) (h : lookup key k rows = some old) :
    ∃ before after, rows = before ++ old :: after ∧
      rows.filter (fun row => key row ≠ k) = before ++ after := by
  obtain ⟨before, after, rfl, -, hne⟩ := lookup_split_of_nodup hnodup h
  refine ⟨before, after, rfl, ?_⟩
  have hrest : (before ++ after).filter (fun row => key row ≠ k) = before ++ after := by
    rw [List.filter_eq_self]
    intro row hrow
    simpa using hne row hrow
  simpa [List.filter_append, lookup_key h] using hrest

/-- Removing the first record of a unique key removes all of that key. -/
theorem eraseP_key_of_nodup (hnodup : (rows.map key).Nodup) :
    rows.eraseP (fun row => key row = k) = rows.filter (fun row => key row ≠ k) := by
  induction rows with
  | nil => rfl
  | cons row rows ih =>
      rw [List.map_cons, List.nodup_cons] at hnodup
      by_cases hkey : key row = k
      · have hothers : ∀ other ∈ rows, decide (key other ≠ k) = true := by
          intro other hother
          rw [decide_eq_true_eq]
          rintro hsame
          exact hnodup.1 (List.mem_map.mpr ⟨other, hother, hsame.trans hkey.symm⟩)
        rw [List.eraseP_cons_of_pos (by simpa using hkey),
          List.filter_cons_of_neg (by simpa using hkey), List.filter_eq_self.mpr hothers]
      · rw [List.eraseP_cons_of_neg (by simpa using hkey),
          List.filter_cons_of_pos (by simpa using hkey), ih hnodup.2]

theorem updateFirst_self (h : lookup key k rows = some old) :
    updateFirst key k old rows = rows := by
  obtain ⟨-, before, after, hsplit, hupdate⟩ := lookup_eq_some_split h
  rw [hupdate old, hsplit]

end Tenderize.Support
