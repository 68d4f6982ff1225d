/-
# LMCache.Lib.RoundEven — rounding to the nearest integer, halves to the even one.

Rounding moves a number by at most a half and does not leave an interval between two integers.
-/
import Mathlib.Algebra.Order.Floor.Ring
import Mathlib.Algebra.Order.Field.Basic
import Mathlib.Algebra.Ring.Int.Parity
import Mathlib.Tactic

namespace LMCache.Lib

universe u

variable {α : Type u} [Field α] [LinearOrder α] [FloorRing α]

/-- The nearest integer; of two that are equally near, the even one. -/
def roundEven (q : α) : ℤ :=
  if q - ⌊q⌋ < 1 / 2 then ⌊q⌋
  else if 1 / 2 < q - ⌊q⌋ then ⌊q⌋ + 1
  else if Even ⌊q⌋ then ⌊q⌋ else ⌊q⌋ + 1

/-- Either neighbour is taken only when it is near enough. -/
theorem roundEven_cases (q : α) :
    (roundEven q = ⌊q⌋ ∧ q - ⌊q⌋ ≤ 1 / 2) ∨ (roundEven q = ⌊q⌋ + 1 ∧ 1 / 2 ≤ q - ⌊q⌋) := by
  unfold roundEven
  split
  · rename_i hlt
    exact .inl ⟨rfl, hlt.le⟩
  · rename_i hge
    rw [not_lt] at hge
    split
    · exact .inr ⟨rfl, hge⟩
    · rename_i hle
      split
      · exact .inl ⟨rfl, not_lt.mp hle⟩
      · exact .inr ⟨rfl, hge⟩

/-- An integer below stays below. -/
theorem le_roundEven {n : ℤ} {q : α} (h : (n : α) ≤ q) : n ≤ roundEven q := by
  have hn := Int.le_floor.mpr h
  rcases roundEven_cases q with ⟨hround, -⟩ | ⟨hround, -⟩
  · rwa [hround]
  · rw [hround]
    omega

variable [IsStrictOrderedRing α]

/-- **Rounding moves a number by at most a half.** -/
theorem abs_roundEven_sub_le (q : α) : |(roundEven q : α) - q| ≤ 1 / 2 := by
  have hfloor := Int.floor_le q
  have hlt := Int.lt_floor_add_one q
  rw [abs_le]
  rcases roundEven_cases q with ⟨hround, hnear⟩ | ⟨hround, hnear⟩
  · rw [hround]
    constructor <;> linarith
  · rw [hround]
    push_cast
    constructor <;> linarith

/-- An integer above stays above. -/
theorem roundEven_le {n : ℤ} {q : α} (h : q ≤ n) : roundEven q ≤ n := by
  have hfloor := Int.floor_le q
  rcases roundEven_cases q with ⟨hround, -⟩ | ⟨hround, hnear⟩
  · rw [hround]
    exact_mod_cast hfloor.trans h
  · rw [hround]
    -- the number lies strictly above its floor, and at most at `n`
    have hlt : (⌊q⌋ : α) < n := by linarith
    exact Int.add_one_le_of_lt (by exact_mod_cast hlt)

end LMCache.Lib
