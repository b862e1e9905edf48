import Mathlib.Data.Nat.Digits.Lemmas
import Mathlib.Tactic

/-!
# Little-endian words and buffers

The bytes of a number, lowest first, and the number that bytes stand for.  A zeroed
buffer that is written from its start to its end holds what was written, in order.
-/

namespace Tenderize.Support

/-- The `w` lowest bytes of a number, lowest first. -/
def leBytes : Nat → Nat → List UInt8
  | 0, _ => []
  | w + 1, n => UInt8.ofNat (n % 256) :: leBytes w (n / 256)

/-- The number that bytes stand for, lowest first. -/
def leValue : List UInt8 → Nat
  | [] => 0
  | byte :: bytes => byte.toNat + 256 * leValue bytes

@[simp] theorem length_leBytes (w n : Nat) : (leBytes w n).length = w := by
  induction w generalizing n with
  | zero => rfl
  | succ w ih => simp [leBytes, ih]

theorem toNat_ofNat_byte {n : Nat} (h : n < 256) : (UInt8.ofNat n).toNat = n := by
  rw [UInt8.toNat_ofNat']
  exact Nat.mod_eq_of_lt h

theorem leValue_leBytes {w n : Nat} (h : n < 256 ^ w) : leValue (leBytes w n) = n := by
  induction w generalizing n with
  | zero =>
      rw [pow_zero] at h
      change 0 = n
      omega
  | succ w ih =>
      have hdiv : n / 256 < 256 ^ w := by
        rw [pow_succ] at h
        omega
      change (UInt8.ofNat (n % 256)).toNat + 256 * leValue (leBytes w (n / 256)) = n
      rw [ih hdiv, toNat_ofNat_byte (Nat.mod_lt n (by decide))]
      omega

theorem leValue_lt (bytes : List UInt8) : leValue bytes < 256 ^ bytes.length := by
  induction bytes with
  | nil => decide
  | cons byte bytes ih =>
      have hbyte := byte.toNat_lt
      rw [List.length_cons, pow_succ]
      change byte.toNat + 256 * leValue bytes < _
      omega

theorem leValue_append (xs ys : List UInt8) :
    leValue (xs ++ ys) = leValue xs + 256 ^ xs.length * leValue ys := by
  induction xs with
  | nil =>
      change leValue ys = 0 + 1 * leValue ys
      omega
  | cons byte xs ih =>
      change byte.toNat + 256 * leValue (xs ++ ys) = byte.toNat + 256 * leValue xs + _
      rw [ih, List.length_cons, pow_succ]
      ring

theorem leValue_replicate_zero (n : Nat) : leValue (List.replicate n 0) = 0 := by
  induction n with
  | zero => rfl
  | succ n ih =>
      change 0 + 256 * leValue (List.replicate n 0) = 0
      omega

theorem leValue_append_zeros (bytes : List UInt8) (n : Nat) :
    leValue (bytes ++ List.replicate n 0) = leValue bytes := by
  rw [leValue_append, leValue_replicate_zero, Nat.mul_zero, Nat.add_zero]

/-- The digits of a number to the base 256 are its bytes. -/
theorem leValue_digits (n : Nat) : leValue ((Nat.digits 256 n).map UInt8.ofNat) = n := by
  have hvalue : ∀ digits : List Nat, (∀ d ∈ digits, d < 256) →
      leValue (digits.map UInt8.ofNat) = Nat.ofDigits 256 digits := by
    intro digits
    induction digits with
    | nil => exact fun _ => rfl
    | cons d digits ih =>
        intro hdigits
        have hd := toNat_ofNat_byte (hdigits d List.mem_cons_self)
        have htail := ih fun d hd => hdigits d (List.mem_cons_of_mem _ hd)
        rw [Nat.ofDigits_cons, ← htail]
        change (UInt8.ofNat d).toNat + _ = _
        rw [hd]
  rw [hvalue _ fun d hd => Nat.digits_lt_base (by decide) hd]
  exact Nat.ofDigits_digits 256 n

/-- What stands behind the front part of a list. -/
theorem drop_behind {α : Type} {front : List α} {n : Nat} (h : front.length ≤ n)
    (rest : List α) : (front ++ rest).drop n = rest.drop (n - front.length) := by
  rw [List.drop_append, List.drop_eq_nil_of_le h, List.nil_append]

/-! ## Records of one size -/

section Records

variable {α β : Type} {f : α → List β} {size : Nat}

theorem length_flatMap_of_size {items : List α} (h : ∀ x ∈ items, (f x).length = size) :
    (items.flatMap f).length = items.length * size := by
  rw [List.length_flatMap, List.map_congr_left h, List.map_const', List.sum_replicate,
    smul_eq_mul]

/-- The records from the `k`-th on start `k` sizes further. -/
theorem drop_flatMap_of_size {items : List α} (h : ∀ x ∈ items, (f x).length = size) (k : Nat) :
    (items.flatMap f).drop (k * size) = (items.drop k).flatMap f := by
  induction k generalizing items with
  | zero => rw [Nat.zero_mul, List.drop_zero, List.drop_zero]
  | succ k ih =>
      cases items with
      | nil => simp
      | cons x items =>
          have htail := ih fun y hy => h y (List.mem_cons_of_mem _ hy)
          have hx := h x List.mem_cons_self
          have hsplit : (k + 1) * size = (f x).length + k * size := by
            rw [Nat.succ_mul, hx]
            omega
          rw [List.flatMap_cons, List.drop_succ_cons, ← htail, hsplit, ← List.drop_drop,
            List.drop_left]

end Records

/-! ## Buffers -/

section Buffers

variable {α : Type}

/-- Overwrite a list from a position on. -/
def overwrite (buffer : List α) (offset : Nat) (items : List α) : List α :=
  buffer.take offset ++ items ++ buffer.drop (offset + items.length)

theorem length_overwrite {buffer items : List α} {offset : Nat}
    (h : offset + items.length ≤ buffer.length) :
    (overwrite buffer offset items).length = buffer.length := by
  simp only [overwrite, List.length_append, List.length_take, List.length_drop]
  omega

@[simp] theorem overwrite_nil (buffer : List α) (offset : Nat) :
    overwrite buffer offset [] = buffer := by
  simp [overwrite]

theorem overwrite_zero (buffer items : List α) :
    overwrite buffer 0 items = items ++ buffer.drop items.length := by
  simp [overwrite]

/-- Writing all of a buffer leaves nothing of it. -/
theorem overwrite_all {buffer items : List α} (h : items.length = buffer.length) :
    overwrite buffer 0 items = items := by
  rw [overwrite_zero, h, List.drop_length, List.append_nil]

/-- Two writes, the second where the first ends. -/
theorem overwrite_overwrite {buffer items more : List α} {offset next : Nat}
    (hnext : next = offset + items.length) (h : next ≤ buffer.length) :
    overwrite (overwrite buffer offset items) next more =
      overwrite buffer offset (items ++ more) := by
  subst hnext
  have hfront : (buffer.take offset ++ items).length = offset + items.length := by
    rw [List.length_append, List.length_take]
    omega
  unfold overwrite
  rw [List.take_left' hfront, drop_behind (by omega), hfront, List.drop_drop,
    List.length_append, List.append_assoc _ items more]
  congr 2
  omega

variable [Zero α]

/-- A zeroed buffer of `size` items after its first items were written. -/
def written (size : Nat) (items : List α) : List α :=
  items ++ List.replicate (size - items.length) 0

theorem length_written {size : Nat} {items : List α} (h : items.length ≤ size) :
    (written size items).length = size := by
  simp [written, h]

@[simp] theorem written_nil (size : Nat) : written size ([] : List α) = List.replicate size 0 :=
  rfl

theorem written_full {size : Nat} {items : List α} (h : items.length = size) :
    written size items = items := by
  simp [written, h]

/-- Writing on where the last write ended. -/
theorem overwrite_written {size : Nat} {items more : List α} {offset : Nat}
    (hoffset : offset = items.length) (h : offset + more.length ≤ size) :
    overwrite (written size items) offset more = written size (items ++ more) := by
  subst hoffset
  have hrest : size - items.length - more.length = size - (items ++ more).length := by
    rw [List.length_append]
    omega
  unfold overwrite written
  rw [List.take_left, ← List.drop_drop, List.drop_left, List.drop_replicate, hrest]

/-- A loop that writes the record of each element and collects something next to it. -/
theorem foldlM_written {ε β κ : Type} (size : Nat) (bytes : β → List α) (keys : β → List κ)
    (step : List α × Nat × List κ → β → Except ε (List α × Nat × List κ)) {elements : List β}
    (hstep : ∀ x ∈ elements, ∀ items collected, items.length + (bytes x).length ≤ size →
      step (written size items, items.length, collected) x =
        .ok (written size (items ++ bytes x), (items ++ bytes x).length, collected ++ keys x))
    (items : List α) (collected : List κ)
    (hroom : items.length + (elements.flatMap bytes).length ≤ size) :
    elements.foldlM step (written size items, items.length, collected) =
      .ok (written size (items ++ elements.flatMap bytes),
        (items ++ elements.flatMap bytes).length, collected ++ elements.flatMap keys) := by
  induction elements generalizing items collected with
  | nil => simp [pure, Except.pure]
  | cons x elements ih =>
      rw [List.flatMap_cons, List.length_append] at hroom
      have hfirst := hstep x List.mem_cons_self items collected (by omega)
      have hroom' : (items ++ bytes x).length + (elements.flatMap bytes).length ≤ size := by
        rw [List.length_append]
        omega
      have hrest := ih (fun y hy => hstep y (List.mem_cons_of_mem _ hy)) (items ++ bytes x)
        (collected ++ keys x) hroom'
      rw [List.foldlM_cons, hfirst]
      change elements.foldlM step _ = _
      rw [hrest]
      simp

end Buffers

end Tenderize.Support
