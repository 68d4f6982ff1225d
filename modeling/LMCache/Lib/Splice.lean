/-
# LMCache.Lib.Splice — writing into a buffer of fixed length, piece by piece.

`splice dest k as` is the buffer `dest` with `as` written over what stands from `k` on.  Pieces that
are written one behind the other come to one write of them all, and a write that fills the buffer
leaves nothing of what it held.
-/
import Mathlib.Data.List.Basic
import Mathlib.Tactic.Linarith

namespace LMCache.Lib

variable {α : Type*}

def splice (dest : List α) (k : Nat) (as : List α) : List α :=
  dest.take k ++ as ++ dest.drop (k + as.length)

@[simp] theorem splice_nil (dest : List α) (k : Nat) : splice dest k [] = dest := by
  simp [splice]

variable {as dest : List α}

theorem length_splice {k : Nat} (h : k + as.length ≤ dest.length) :
    (splice dest k as).length = dest.length := by
  simp only [splice, List.length_append, List.length_take, List.length_drop]
  omega

/-- A second write, behind the first. -/
theorem splice_splice {k : Nat} (h : k + as.length ≤ dest.length) (bs : List α) :
    splice (splice dest k as) (k + as.length) bs = splice dest k (as ++ bs) := by
  have hfront : (dest.take k ++ as).length = k + as.length := by
    rw [List.length_append, List.length_take]
    omega
  unfold splice
  rw [List.take_left' hfront, ← hfront, List.drop_length_add_append, List.drop_drop, hfront,
    List.append_assoc (dest.take k), List.length_append, Nat.add_assoc]

theorem splice_of_length (h : as.length = dest.length) : splice dest 0 as = as := by
  simp [splice, h]

end LMCache.Lib
