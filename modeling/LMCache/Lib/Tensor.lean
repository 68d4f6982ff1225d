/-
# LMCache.Lib.Tensor — vector operations on tensors of one dimension.

The operations by which PyTorch code moves data without a loop: running sums, a roll, repetition,
and indexing by a tensor of indices, which raises when one of them is out of bounds and counts a
negative one from the end.  The sums of what stands before each element are what a roll of the
running sums gives once its first element is overwritten (`setFirst_roll_cumsum`).
-/
import LMCache.PyError
import Mathlib.Tactic

namespace LMCache.Lib

universe u

/-! ## Operations -/

/-- `t.cumsum(0)`, from a sum on. -/
def cumsum : Int → List Int → List Int
  | _, [] => []
  | sum, x :: xs => (sum + x) :: cumsum (sum + x) xs

/-- `t.roll(1)`. -/
def roll {α : Type u} (xs : List α) : List α := xs.getLast?.toList ++ xs.dropLast

/-- `t[0] = x`. -/
def setFirst (xs : List Int) (x : Int) : Except PyError (List Int) :=
  match xs with
  | [] => .error (.indexError "index 0 is out of bounds for dimension 0 with size 0")
  | _ :: rest => .ok (x :: rest)

/-- `t.repeat_interleave(counts)`. -/
def repeatInterleave (xs : List Int) (counts : List Nat) : List Int :=
  (List.zipWith (fun x n => List.replicate n x) xs counts).flatten

/-- `torch.arange(n)`. -/
def arange (n : Nat) : List Int := (List.range n).map Int.ofNat

/-- `t[i]` for an index of a tensor of indices. -/
def elementAt {α : Type} (xs : List α) (i : Int) : Except PyError α :=
  match (if 0 ≤ i then xs[i.toNat]? else if 0 ≤ i + xs.length then xs[(i + xs.length).toNat]?
    else none) with
  | some x => .ok x
  | none => .error (.indexError
      s!"index {i} is out of bounds for dimension 0 with size {xs.length}")

/-- `t[indexes]`. -/
def gather {α : Type} (xs : List α) (indexes : List Int) : Except PyError (List α) :=
  indexes.mapM (elementAt xs)

/-! ## Indexing -/

section Gather

variable {α : Type}

theorem elementAt_of_lt {xs : List α} {i : Nat} {x : α} (h : xs[i]? = some x) :
    elementAt xs (i : Int) = .ok x := by
  unfold elementAt
  rw [if_pos (Int.natCast_nonneg i), Int.toNat_natCast, h]

theorem gather_append {xs : List α} {indexes indexes' : List Int} {ys ys' : List α}
    (h : gather xs indexes = .ok ys) (h' : gather xs indexes' = .ok ys') :
    gather xs (indexes ++ indexes') = .ok (ys ++ ys') := by
  unfold gather at h h' ⊢
  rw [mapM_eq_ok_iff] at h h' ⊢
  rw [List.map_append, h, h', List.map_append]

/-- A stretch of indices takes a stretch. -/
theorem gather_stretch (before middle after : List α) :
    gather (before ++ middle ++ after)
      ((List.range middle.length).map fun j => ((before.length + j : Nat) : Int)) = .ok middle := by
  unfold gather
  rw [mapM_eq_ok_iff, List.map_map]
  apply List.ext_getElem
  · simp
  · intro j hj hj'
    rw [List.length_map] at hj'
    simp only [List.getElem_map, List.getElem_range, Function.comp_apply]
    apply elementAt_of_lt
    rw [List.append_assoc, List.getElem?_append_right (Nat.le_add_right _ _),
      Nat.add_sub_cancel_left, List.getElem?_append_left hj', List.getElem?_eq_getElem hj']

end Gather

/-! ## Sums of what stands before -/

/-- The sum of what stands before each element, from a sum on. -/
def sumsBefore : Int → List Int → List Int
  | _, [] => []
  | sum, x :: xs => sum :: sumsBefore (sum + x) xs

theorem length_sumsBefore (sum : Int) (xs : List Int) :
    (sumsBefore sum xs).length = xs.length := by
  induction xs generalizing sum with
  | nil => rfl
  | cons x xs ih => rw [sumsBefore, List.length_cons, List.length_cons, ih]

theorem sumsBefore_eq_dropLast (sum x : Int) (xs : List Int) :
    sumsBefore sum (x :: xs) = sum :: (cumsum sum (x :: xs)).dropLast := by
  induction xs generalizing sum x with
  | nil => rfl
  | cons y ys ih =>
    rw [sumsBefore, ih, cumsum]
    rfl

/-- **The roll of the running sums**, with its first element overwritten. -/
theorem setFirst_roll_cumsum {xs : List Int} (h : xs ≠ []) :
    setFirst (roll (cumsum 0 xs)) 0 = .ok (sumsBefore 0 xs) := by
  obtain ⟨x, rest, rfl⟩ := List.exists_cons_of_ne_nil h
  have hne : cumsum 0 (x :: rest) ≠ [] := List.cons_ne_nil _ _
  unfold roll
  rw [List.getLast?_eq_some_getLast hne, sumsBefore_eq_dropLast]
  rfl

end LMCache.Lib
