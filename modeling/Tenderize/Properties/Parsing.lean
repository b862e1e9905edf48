import Tenderize.Model.Storage

/-!
# The parser on any input

`StakePoolInstruction::deserialize` on every byte string, in particular the three
instructions whose data holds a count and as many records.
-/

namespace Tenderize

open Support

/-! ## Counted records -/

/-- The count behind the tag. -/
def countBehindTag (input : List UInt8) : Nat := (readU32 (input.drop 1)).toNat

/-- The values of consecutive records from byte 5 on. -/
def recordsBehindCount {α : Type} (type : RawType α) (input : List UInt8) : List α :=
  (List.range (countBehindTag input)).map
    (fun k => type.read ((input.drop (5 + k * type.size)).take type.size))

theorem DelegateReserveInstruction.read_take (input : List UInt8) :
    DelegateReserveInstruction.raw.read (input.take 12) =
      DelegateReserveInstruction.raw.read input := by
  simp [DelegateReserveInstruction.raw, List.drop_take, readU64_take, readU32_take]

theorem MergeStakesInstruction.read_take (input : List UInt8) :
    MergeStakesInstruction.raw.read (input.take 40) = MergeStakesInstruction.raw.read input := by
  simp [MergeStakesInstruction.raw, List.drop_take, readPubkey_take, readU32_take]

theorem UnstakeInstruction.read_take (input : List UInt8) :
    UnstakeInstruction.raw.read (input.take 48) = UnstakeInstruction.raw.read input := by
  simp [UnstakeInstruction.raw, List.drop_take, readPubkey_take, readU32_take, readU64_take]

section Counted

variable {α : Type} {type : RawType α} {input : List UInt8}

/-- Which inputs are refused, which are read and which are indexed behind their end. -/
theorem unpackSlice_eq (htake : ∀ input, type.read (input.take type.size) = type.read input) :
    unpackSlice type input =
      if input.length < 5 then .error .invalidAccountData
      else if input.length < 5 + countBehindTag input * type.size then .error .invalidArgument
      else if input.length = 5 then .error .programFailedToComplete
      else .ok (recordsBehindCount type input) := by
  unfold unpackSlice unpack
  by_cases hcount : input.length < 5
  · rw [if_pos hcount, if_pos (show input.length < 1 + u32Raw.size from hcount)]
    rfl
  · rw [if_neg hcount, if_neg (show ¬input.length < 1 + u32Raw.size from hcount)]
    change (require (¬input.length < 5 + countBehindTag input * type.size) _ >>= _) = _
    by_cases hroom : input.length < 5 + countBehindTag input * type.size
    · rw [require, if_neg (not_not.mpr hroom), if_pos hroom]
      rfl
    · rw [require, if_pos hroom, if_neg hroom]
      change (require (5 < input.length) _ >>= _) = _
      by_cases hend : input.length = 5
      · rw [require, if_neg (by omega), if_pos hend]
        rfl
      · rw [require, if_pos (by omega), if_neg hend]
        unfold recordsBehindCount
        simp only [htake]
        rfl

/-- An instruction with a count reads exactly its records, or refuses an input that does not
hold them. -/
def ReadsCounted (type : RawType α) (make : List α → StakePoolInstruction)
    (input : List UInt8) : Prop :=
  (5 + countBehindTag input * type.size ≤ input.length →
      StakePoolInstruction.deserialize input = .ok (make (recordsBehindCount type input))) ∧
    (input.length < 5 + countBehindTag input * type.size →
      ∃ e ≠ ProgramError.programFailedToComplete,
        StakePoolInstruction.deserialize input = .error e)

/-- An input that ends with a count of zero. -/
def EndsWithZeroCount (input : List UInt8) : Prop :=
  input.length = 5 ∧ countBehindTag input = 0

theorem readsCounted_iff {make : List α → StakePoolInstruction}
    (htake : ∀ input, type.read (input.take type.size) = type.read input) (hsize : 0 < type.size)
    (hparse : StakePoolInstruction.deserialize input = (unpackSlice type input).map make) :
    (StakePoolInstruction.deserialize input ≠ .error .programFailedToComplete ∧
      ReadsCounted type make input) ↔ ¬EndsWithZeroCount input := by
  unfold ReadsCounted EndsWithZeroCount
  rw [hparse, unpackSlice_eq htake]
  by_cases hshort : input.length < 5
  · rw [if_pos hshort]
    refine iff_of_true ⟨by simp [Except.map], fun h => absurd h (by omega), fun _ => ?_⟩ (by omega)
    exact ⟨.invalidAccountData, by decide, rfl⟩
  · rw [if_neg hshort]
    by_cases hroom : input.length < 5 + countBehindTag input * type.size
    · rw [if_pos hroom]
      refine iff_of_true ⟨by simp [Except.map], fun h => absurd h (by omega), fun _ => ?_⟩ ?_
      · exact ⟨.invalidArgument, by decide, rfl⟩
      · rintro ⟨hlength, hcount⟩
        rw [hcount, hlength] at hroom
        omega
    · rw [if_neg hroom]
      by_cases hend : input.length = 5
      · have hnone : countBehindTag input * type.size = 0 := by omega
        have hcount := (Nat.mul_eq_zero.mp hnone).resolve_right (by omega)
        rw [if_pos hend]
        exact iff_of_false (fun h => h.1 rfl) (fun h => h ⟨hend, hcount⟩)
      · rw [if_neg hend]
        exact iff_of_true ⟨by simp [Except.map], fun _ => rfl, fun h => absurd h hroom⟩
          (fun h => hend h.1)

end Counted

/-- The parser never indexes behind the end of its input, and the counted instructions read
exactly the records their count announces. -/
def ParsesSafely (input : List UInt8) : Prop :=
  StakePoolInstruction.deserialize input ≠ .error .programFailedToComplete ∧
    (input.head? = some 12 →
      ReadsCounted DelegateReserveInstruction.raw .delegateReserve input) ∧
    (input.head? = some 13 → ReadsCounted MergeStakesInstruction.raw .mergeStakes input) ∧
    (input.head? = some 14 → ReadsCounted UnstakeInstruction.raw .unstake input)

/-- The data of an instruction without a count is read whole or refused. -/
theorem unpack_ne_failed {α β : Type} (type : RawType α) (make : α → β) (input : List UInt8) :
    (unpack type input).map make ≠ .error .programFailedToComplete := by
  unfold unpack
  split <;> simp [Except.map]

/-- Of the tags without a count none fails to complete. -/
theorem deserialize_uncounted {tag : UInt8} (rest : List UInt8) (h₁ : tag ≠ 12) (h₂ : tag ≠ 13)
    (h₃ : tag ≠ 14) :
    StakePoolInstruction.deserialize (tag :: rest) ≠ .error .programFailedToComplete := by
  have htag : ∀ n : UInt8, tag ≠ n → tag.toNat ≠ n.toNat := fun n hne heq =>
    hne (UInt8.toNat_inj.mp heq)
  unfold StakePoolInstruction.deserialize
  dsimp only
  split
  case h_12 h => exact absurd h (htag 12 h₁)
  case h_13 h => exact absurd h (htag 13 h₂)
  case h_14 h => exact absurd h (htag 14 h₃)
  all_goals first | exact unpack_ne_failed _ _ _ | simp

/-- Every input is parsed safely but the tag of a counted instruction followed by a count of
zero and nothing else: the parser takes the address of the byte behind it. -/
theorem parsesSafely_iff (input : List UInt8) :
    ParsesSafely input ↔
      ¬((input.head? = some 12 ∨ input.head? = some 13 ∨ input.head? = some 14) ∧
        EndsWithZeroCount input) := by
  cases input with
  | nil => simp [ParsesSafely, StakePoolInstruction.deserialize]
  | cons tag rest =>
      by_cases h₁ : tag = 12
      · subst h₁
        have h := readsCounted_iff DelegateReserveInstruction.read_take (by decide)
          (show StakePoolInstruction.deserialize (12 :: rest) = _ from rfl)
        simpa [ParsesSafely] using h
      · by_cases h₂ : tag = 13
        · subst h₂
          have h := readsCounted_iff MergeStakesInstruction.read_take (by decide)
            (show StakePoolInstruction.deserialize (13 :: rest) = _ from rfl)
          simpa [ParsesSafely] using h
        · by_cases h₃ : tag = 14
          · subst h₃
            have h := readsCounted_iff UnstakeInstruction.read_take (by decide)
              (show StakePoolInstruction.deserialize (14 :: rest) = _ from rfl)
            simpa [ParsesSafely] using h
          · have h := deserialize_uncounted rest h₁ h₂ h₃
            simpa [ParsesSafely, h₁, h₂, h₃] using h

/-- A `DelegateReserve` of no validators. -/
theorem deserialize_empty_delegateReserve :
    StakePoolInstruction.deserialize [12, 0, 0, 0, 0] = .error .programFailedToComplete ∧
      ¬ParsesSafely [12, 0, 0, 0, 0] := by
  have hparse : StakePoolInstruction.deserialize [12, 0, 0, 0, 0] =
      .error .programFailedToComplete := by
    rfl
  exact ⟨hparse, fun h => h.1 hparse⟩

end Tenderize
