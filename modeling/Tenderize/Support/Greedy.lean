import Mathlib.Algebra.BigOperators.Group.List.Basic
import Mathlib.Algebra.Order.BigOperators.Group.List
import Mathlib.Tactic

/-!
# First come, first served

An amount is handed out along a list, to each element up to its need.  A rest that would
be smaller than the least amount worth handing out goes to the element in hand.
-/

namespace Tenderize.Support

variable {α : Type}

/-- The shares, and what is left in the end. -/
def allot (least : Int) (need : α → Int) : List α → Int → List (α × Int) × Int
  | [], left => ([], left)
  | x :: xs, left =>
      if left < 1 then ([], left)
      else if need x ≤ 0 then allot least need xs left
      else if left < need x + least then ([(x, left)], 0)
      else
        let rest := allot least need xs (left - need x)
        ((x, need x) :: rest.1, rest.2)

/-- What the elements need together. -/
def needs (need : α → Int) (xs : List α) : Int := (xs.map fun x => max (need x) 0).sum

section

variable {least left : Int} {need : α → Int}

@[simp] theorem needs_nil : needs need [] = 0 := rfl

theorem needs_cons (x : α) (xs : List α) :
    needs need (x :: xs) = max (need x) 0 + needs need xs := by
  simp [needs]

theorem needs_nonneg (xs : List α) : 0 ≤ needs need xs := by
  induction xs with
  | nil => exact le_rfl
  | cons x xs ih =>
      rw [needs_cons]
      omega

theorem sum_le_needs (xs : List α) : (xs.map need).sum ≤ needs need xs := by
  induction xs with
  | nil => exact le_rfl
  | cons x xs ih =>
      rw [needs_cons, List.map_cons, List.sum_cons]
      omega

theorem allot_none (xs : List α) (h : left < 1) : allot least need xs left = ([], left) := by
  cases xs with
  | nil => rfl
  | cons x xs => rw [allot, if_pos h]

variable (least need) in
theorem allot_sum (xs : List α) (left : Int) :
    ((allot least need xs left).1.map Prod.snd).sum + (allot least need xs left).2 = left := by
  induction xs generalizing left with
  | nil => simp [allot]
  | cons x xs ih =>
      unfold allot
      split_ifs with hleft hneed hlast
      · simp
      · exact ih left
      · simp
      · have hrest := ih (left - need x)
        change (need x :: _).sum + (allot least need xs (left - need x)).2 = left
        rw [List.sum_cons]
        omega

variable (least need) in
/-- Shares go to different elements, in order. -/
theorem allot_sublist (xs : List α) (left : Int) :
    ((allot least need xs left).1.map Prod.fst).Sublist xs := by
  induction xs generalizing left with
  | nil => exact .slnil
  | cons x xs ih =>
      unfold allot
      split_ifs with hleft hneed hlast
      · exact List.nil_sublist _
      · exact (ih left).cons x
      · exact (List.nil_sublist xs).cons_cons x
      · exact (ih (left - need x)).cons_cons x

variable (hleast : 0 < least)

include hleast

/-- Nothing is left when the elements need at least the amount. -/
theorem allot_exhausts (xs : List α) (hnonneg : 0 ≤ left) (h : left ≤ needs need xs) :
    (allot least need xs left).2 = 0 := by
  induction xs generalizing left with
  | nil =>
      rw [needs_nil] at h
      exact le_antisymm h hnonneg
  | cons x xs ih =>
      rw [needs_cons] at h
      unfold allot
      split_ifs with hleft hneed hlast
      · change left = 0
        omega
      · exact ih hnonneg (by omega)
      · rfl
      · exact ih (by omega) (by omega)

/-- A share is positive, goes to an element in need and exceeds its need by less than the
least amount. -/
theorem allot_share {xs : List α} {p : α × Int} (hp : p ∈ (allot least need xs left).1) :
    0 < need p.1 ∧ 0 < p.2 ∧ p.2 < need p.1 + least := by
  induction xs generalizing left with
  | nil => cases hp
  | cons x xs ih =>
      unfold allot at hp
      split_ifs at hp with hleft hneed hlast
      · cases hp
      · exact ih hp
      · obtain rfl := List.mem_singleton.mp hp
        exact ⟨not_le.mp hneed, by change 0 < left; omega, hlast⟩
      · rcases List.mem_cons.mp hp with rfl | hp
        · exact ⟨not_le.mp hneed, not_le.mp hneed, lt_add_of_pos_right _ hleast⟩
        · exact ih hp

variable (need) in
/-- Which amounts are handed out in shares that are not too small: a share is the need of its
element unless it is the last one, and that one holds at least the least amount. -/
theorem allot_large_iff {low : Int} (hlow : low ≤ least) (Q : α → Prop) (xs : List α)
    (hleft : left = 0 ∨ least ≤ left) :
    (∀ p ∈ (allot least need xs left).1, Q p.1 → low ≤ p.2) ↔
      ∀ before x after, xs = before ++ x :: after → Q x → 0 < need x → need x < low →
        left < needs need (before ++ [x]) + least := by
  induction xs generalizing left with
  | nil => simp [allot]
  | cons x xs ih =>
      -- an element of the list is its head or stands behind it
      have hsplit : (∀ before y after, x :: xs = before ++ y :: after → Q y → 0 < need y →
          need y < low → left < needs need (before ++ [y]) + least) ↔
          (Q x → 0 < need x → need x < low → left < need x + least) ∧
          ∀ before y after, xs = before ++ y :: after → Q y → 0 < need y → need y < low →
            left - max (need x) 0 < needs need (before ++ [y]) + least := by
        constructor
        · intro h
          refine ⟨fun hQ hpos hsmall => ?_, fun before y after heq hQ hpos hsmall => ?_⟩
          · have hhead := h [] x xs rfl hQ hpos hsmall
            rw [List.nil_append, needs_cons, needs_nil] at hhead
            omega
          · have htail := h (x :: before) y after (by rw [heq]; rfl) hQ hpos hsmall
            rw [List.cons_append, needs_cons] at htail
            omega
        · rintro ⟨hhead, htail⟩ before y after heq hQ hpos hsmall
          cases before with
          | nil =>
              obtain ⟨rfl, rfl⟩ := List.cons.inj heq
              have hx := hhead hQ hpos hsmall
              rw [List.nil_append, needs_cons, needs_nil]
              omega
          | cons z before =>
              obtain ⟨rfl, hxs⟩ := List.cons.inj heq
              have hy := htail before y after hxs hQ hpos hsmall
              rw [List.cons_append, needs_cons]
              omega
      rw [hsplit]
      have hbounds : ∀ before y, 0 ≤ needs need (before ++ [y]) := fun _ _ => needs_nonneg _
      unfold allot
      split_ifs with hnone hneed hlast
      · refine iff_of_true (fun p hp => absurd hp List.not_mem_nil) ⟨fun _ _ _ => by omega, ?_⟩
        intro before y _ _ _ _ _
        have := hbounds before y
        omega
      · rw [ih hleft]
        have hzero : max (need x) 0 = 0 := max_eq_right hneed
        rw [hzero, sub_zero]
        exact ⟨fun h => ⟨fun _ hpos => absurd hpos (by omega), h⟩, fun h => h.2⟩
      · refine iff_of_true ?_ ⟨fun _ _ _ => hlast, ?_⟩
        · intro p hp _
          obtain rfl := List.mem_singleton.mp hp
          change low ≤ left
          omega
        · intro before y _ _ _ _ _
          have := hbounds before y
          omega
      · have hrest := @ih (left - need x) (.inr (by omega))
        have hmax : max (need x) 0 = need x := max_eq_left (by omega)
        rw [hmax, ← hrest, List.forall_mem_cons]
        refine and_congr_left fun _ => forall_congr' fun hQ => ?_
        change low ≤ need x ↔ _
        constructor
        · intro h _ hsmall
          omega
        · intro h
          by_contra hsmall
          exact hlast (h (by omega) (by omega))

end

end Tenderize.Support
