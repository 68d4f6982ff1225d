/-
# LMCache.Lib.Consecutive — numbers that follow each other, and what a missing one gives away.

A sender numbers what it sends; a receiver remembers the last number it has seen and looks, batch by
batch, whether the numbers follow it.  `gaps` is the number of batches in which they do not.  When
batches of a stream without gaps go missing between two that arrive, the numbers that arrive cannot
all follow each other, because there are too few of them: so some batch is counted.
-/
import Mathlib.Data.List.Chain
import Mathlib.Tactic

namespace LMCache.Lib

/-- Each number is one more than the number before it. -/
def Consecutive (ns : List Int) : Prop := ns.IsChain fun a b => b = a + 1

namespace Consecutive

instance (ns : List Int) : Decidable (Consecutive ns) :=
  inferInstanceAs (Decidable (ns.IsChain fun a b => b = a + 1))

@[simp] theorem nil : Consecutive [] := List.isChain_nil

variable {ms ns : List Int}

/-- Between two numbers stand as many as they are apart. -/
theorem eq_add_length {a b : Int} (h : Consecutive (a :: (ns ++ [b]))) : b = a + ns.length + 1 := by
  induction ns generalizing a with
  | nil => simpa [Consecutive] using h
  | cons n ns ih =>
    obtain ⟨hn, h⟩ := List.isChain_cons_cons.mp h
    have hb := ih h
    rw [List.length_cons]
    push_cast
    omega

/-- Two stretches make one, if the second also follows the last number of the first. -/
theorem append_of_getLast? (hms : Consecutive ms) (hns : Consecutive (ms.getLast?.toList ++ ns)) :
    Consecutive (ms ++ ns) := by
  cases hlast : ms.getLast? with
  | none =>
    rw [List.getLast?_eq_none_iff.mp hlast]
    rw [hlast] at hns
    exact hns
  | some a =>
    rw [hlast] at hns
    obtain ⟨front, rfl⟩ := List.getLast?_eq_some_iff.mp hlast
    exact List.IsChain.append_overlap hms hns (List.cons_ne_nil a [])

theorem of_append_left (h : Consecutive (ms ++ ns)) : Consecutive ms :=
  List.IsChain.left_of_append h

theorem of_append_right (h : Consecutive (ms ++ ns)) : Consecutive ns :=
  List.IsChain.right_of_append h

end Consecutive

/-! ## A receiver that looks for gaps -/

/-- The number remembered after more numbers. -/
def lastOf (recorded : Option Int) (ns : List Int) : Option Int :=
  (recorded.toList ++ ns).getLast?

/-- How many of these batches do not follow what was remembered before them. -/
def gaps : Option Int → List (List Int) → Nat
  | _, [] => 0
  | recorded, ns :: rest =>
    (if Consecutive (recorded.toList ++ ns) then 0 else 1) + gaps (lastOf recorded ns) rest

@[simp] theorem lastOf_nil (recorded : Option Int) : lastOf recorded [] = recorded := by
  cases recorded <;> rfl

theorem lastOf_append (recorded : Option Int) (ms ns : List Int) :
    lastOf recorded (ms ++ ns) = lastOf (lastOf recorded ms) ns := by
  unfold lastOf
  rw [← List.append_assoc]
  generalize recorded.toList ++ ms = front
  cases h : front.getLast? with
  | none => rw [List.getLast?_eq_none_iff.mp h]; rfl
  | some a =>
    obtain ⟨front', rfl⟩ := List.getLast?_eq_some_iff.mp h
    rw [List.append_assoc, List.getLast?_append_of_ne_nil _ (by simp)]
    rfl

/-- A last batch is looked at with what the ones before it leave. -/
theorem gaps_append_singleton (recorded : Option Int) (batches : List (List Int)) (ns : List Int) :
    gaps recorded (batches ++ [ns]) = gaps recorded batches +
      if Consecutive ((lastOf recorded batches.flatten).toList ++ ns) then 0 else 1 := by
  induction batches generalizing recorded with
  | nil => simp [gaps]
  | cons b batches ih =>
    rw [List.cons_append, gaps, ih, gaps, List.flatten_cons, lastOf_append]
    omega

/-- Without a gap all the numbers follow each other. -/
theorem consecutive_of_gaps_eq_zero {recorded : Option Int} {batches : List (List Int)}
    (h : gaps recorded batches = 0) : Consecutive (recorded.toList ++ batches.flatten) := by
  induction batches generalizing recorded with
  | nil => cases recorded <;> simp [Consecutive]
  | cons ns batches ih =>
    rw [gaps, Nat.add_eq_zero_iff] at h
    obtain ⟨hns, hrest⟩ := h
    have hfirst : Consecutive (recorded.toList ++ ns) := by
      by_contra hgap
      rw [if_neg hgap] at hns
      cases hns
    rw [List.flatten_cons, ← List.append_assoc]
    exact hfirst.append_of_getLast? (ih hrest)

/-- **What is missing is noticed.**  When fewer numbers arrive between two batches than were sent
between them, one of the batches behind the first is counted. -/
theorem gaps_pos_of_missing {first last : List Int} {sent kept : List (List Int)}
    (hsent : Consecutive (first ++ sent.flatten ++ last)) (hfirst : first ≠ []) (hlast : last ≠ [])
    (hmissing : kept.flatten.length < sent.flatten.length) :
    0 < gaps first.getLast? (kept ++ [last]) := by
  obtain ⟨front, a, rfl⟩ := List.eq_nil_or_concat first |>.resolve_left hfirst
  obtain ⟨b, back, rfl⟩ := List.exists_cons_of_ne_nil hlast
  have hcut : (front ++ [a]) ++ sent.flatten ++ b :: back =
      front ++ ((a :: (sent.flatten ++ [b])) ++ back) := by simp
  rw [List.concat_eq_append, hcut] at hsent
  have hb := (hsent.of_append_right.of_append_left).eq_add_length
  rw [Nat.pos_iff_ne_zero]
  intro hzero
  have hkept := consecutive_of_gaps_eq_zero hzero
  have hcut' : (front.concat a).getLast?.toList ++ (kept ++ [b :: back]).flatten =
      (a :: (kept.flatten ++ [b])) ++ back := by simp
  rw [hcut'] at hkept
  have hb' := hkept.of_append_left.eq_add_length
  omega

end LMCache.Lib
