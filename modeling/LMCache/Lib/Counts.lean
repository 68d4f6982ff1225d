/-
# LMCache.Lib.Counts — counters that are raised and lowered.

A family of counters is a function to `Nat`.  A counter that is zero stays zero when it is lowered.
Raising and lowering go through lists, so that what a loop over a list does to the counters is one
step.
-/
import Mathlib.Data.List.Count
import Mathlib.Data.List.Perm.Basic
import Mathlib.Logic.Function.Basic

namespace LMCache.Lib

universe u

variable {ι : Type u} [DecidableEq ι]

/-- One more for `i`. -/
def raise (c : ι → Nat) (i : ι) : ι → Nat := Function.update c i (c i + 1)

/-- One less for `i`, and not below zero. -/
def lower (c : ι → Nat) (i : ι) : ι → Nat := Function.update c i (c i - 1)

def raiseAll (c : ι → Nat) (l : List ι) : ι → Nat := l.foldl raise c

def lowerAll (c : ι → Nat) (l : List ι) : ι → Nat := l.foldl lower c

variable (c : ι → Nat)

theorem raise_apply (i j : ι) : raise c i j = c j + [i].count j := by
  unfold raise
  rw [Function.update_apply, List.count_singleton]
  by_cases h : j = i
  · rw [if_pos h, if_pos (beq_iff_eq.mpr h.symm), h]
  · rw [if_neg h, if_neg (fun h' => h (beq_iff_eq.mp h').symm), Nat.add_zero]

theorem lower_apply (i j : ι) : lower c i j = c j - [i].count j := by
  unfold lower
  rw [Function.update_apply, List.count_singleton]
  by_cases h : j = i
  · rw [if_pos h, if_pos (beq_iff_eq.mpr h.symm), h]
  · rw [if_neg h, if_neg (fun h' => h (beq_iff_eq.mp h').symm), Nat.sub_zero]

theorem raiseAll_apply (l : List ι) (j : ι) : raiseAll c l j = c j + l.count j := by
  unfold raiseAll
  induction l generalizing c with
  | nil => rw [List.foldl_nil, List.count_nil, Nat.add_zero]
  | cons i l ih =>
    rw [List.foldl_cons, ih, raise_apply, List.count_singleton, List.count_cons]
    omega

theorem lowerAll_apply (l : List ι) (j : ι) : lowerAll c l j = c j - l.count j := by
  unfold lowerAll
  induction l generalizing c with
  | nil => rw [List.foldl_nil, List.count_nil, Nat.sub_zero]
  | cons i l ih =>
    rw [List.foldl_cons, ih, lower_apply, List.count_singleton, List.count_cons]
    omega

/-- What is raised and then lowered as often is as before. -/
theorem lowerAll_raiseAll_of_perm {l l' : List ι} (h : l.Perm l') :
    lowerAll (raiseAll c l) l' = c := by
  funext j
  rw [lowerAll_apply, raiseAll_apply, h.count_eq, Nat.add_sub_cancel]

theorem lowerAll_raiseAll (l : List ι) : lowerAll (raiseAll c l) l = c :=
  lowerAll_raiseAll_of_perm c (List.Perm.refl l)

/-- **What is raised and then lowered, no more often in all, is as before just when it is the same up
to order.** -/
theorem lowerAll_raiseAll_eq_iff (c : ι → Nat) {l l' : List ι} (h : l'.length ≤ l.length) :
    lowerAll (raiseAll c l) l' = c ↔ l.Perm l' := by
  constructor
  · intro heq
    have hle : l.Subperm l' := by
      rw [List.subperm_ext_iff]
      intro j _
      have hj := congrFun heq j
      rw [lowerAll_apply, raiseAll_apply] at hj
      omega
    exact hle.perm_of_length_le h
  · exact lowerAll_raiseAll_of_perm c

theorem lower_raise (i : ι) : lower (raise c i) i = c := lowerAll_raiseAll c [i]

/-- Lowering a counter that is not zero is seen. -/
theorem lower_ne {c : ι → Nat} {i : ι} (h : 0 < c i) : lower c i i ≠ c i := by
  rw [lower_apply, List.count_singleton_self]
  omega

end LMCache.Lib
