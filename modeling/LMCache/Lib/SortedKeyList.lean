/-
# LMCache.Lib.SortedKeyList — a list that is sorted by a key, as a type.

`SortedKeyList key` packs a list with the proof that it is sorted by `key`, so a caller can neither
build nor receive an unsorted one.  The operations are those of a sorted-list container with
positional access: insertion to the right of equal keys, binary search for the leftmost slot,
removal by value, and an in-place update of one entry that leaves its key alone.

Two kinds of facts are exported.  The *permutation* lemmas say which entries an operation adds or
drops and forget the order; the *search* lemmas say what the two entries around the slot that
`bisectLeft` returns are, relative to every other entry.
-/
import Mathlib.Data.List.Perm.Basic
import Mathlib.Order.Lattice

namespace LMCache.Lib

universe u v

variable {α : Type u} {κ : Type v} [LinearOrder κ] {key : α → κ}

/-- A list sorted by `key` (weakly: equal keys may stand side by side). -/
structure SortedKeyList (key : α → κ) where
  toList : List α
  sorted : toList.Pairwise fun a b => key a ≤ key b

/-! ## Insertion behind the equal keys -/

/-- Insert `x` behind every entry whose key is at most its own. -/
def insertRight (key : α → κ) (x : α) : List α → List α
  | [] => [x]
  | y :: ys => if key y ≤ key x then y :: insertRight key x ys else x :: y :: ys

theorem insertRight_perm (x : α) (l : List α) : (insertRight key x l).Perm (x :: l) := by
  induction l with
  | nil => exact List.Perm.refl _
  | cons y ys ih =>
    unfold insertRight
    split
    · exact (ih.cons y).trans (List.Perm.swap x y ys)
    · exact List.Perm.refl _

theorem insertRight_sorted (x : α) {l : List α} (h : l.Pairwise fun a b => key a ≤ key b) :
    (insertRight key x l).Pairwise fun a b => key a ≤ key b := by
  induction l with
  | nil => exact List.pairwise_singleton _ _
  | cons y ys ih =>
    obtain ⟨hy, hys⟩ := List.pairwise_cons.mp h
    unfold insertRight
    split
    case isTrue hle =>
      refine List.pairwise_cons.mpr ⟨fun z hz => ?_, ih hys⟩
      rcases List.mem_cons.mp ((insertRight_perm x ys).mem_iff.mp hz) with rfl | hz
      · exact hle
      · exact hy z hz
    case isFalse hlt =>
      have hxy : key x ≤ key y := (not_le.mp hlt).le
      refine List.pairwise_cons.mpr ⟨fun z hz => ?_, h⟩
      rcases List.mem_cons.mp hz with rfl | hz
      · exact hxy
      · exact hxy.trans (hy z hz)

namespace SortedKeyList

/-- The list with a single entry. -/
def single (key : α → κ) (x : α) : SortedKeyList key := ⟨[x], List.pairwise_singleton _ _⟩

def add (L : SortedKeyList key) (x : α) : SortedKeyList key :=
  ⟨insertRight key x L.toList, insertRight_sorted x L.sorted⟩

/-- Drop the first entry equal to `x`. -/
def remove [DecidableEq α] (L : SortedKeyList key) (x : α) : SortedKeyList key :=
  ⟨L.toList.erase x, L.sorted.sublist List.erase_sublist⟩

/-- The first position whose key is not below that of `x`; the length when there is none. -/
def bisectLeft (L : SortedKeyList key) (x : α) : Nat :=
  L.toList.findIdx fun y => decide (key x ≤ key y)

/-- Update the entry at position `i` in place, by a function that keeps its key. -/
def update (L : SortedKeyList key) (i : Nat) (f : α → α) (hf : ∀ a, key (f a) = key a) :
    SortedKeyList key :=
  ⟨L.toList.modify i f, by
    have hmap : (L.toList.modify i f).map key = L.toList.map key := by
      induction L.toList generalizing i with
      | nil => simp
      | cons y ys ih => cases i with
        | zero => simp [hf]
        | succ i => simp [ih]
    have hs := List.pairwise_map (R := (· ≤ ·)).mpr L.sorted
    rw [← hmap] at hs
    exact List.pairwise_map.mp hs⟩

/-! ## What the operations do to the entries -/

theorem add_perm (L : SortedKeyList key) (x : α) : (L.add x).toList.Perm (x :: L.toList) :=
  insertRight_perm x L.toList

variable {L : SortedKeyList key} {x : α}

theorem remove_perm [DecidableEq α] {R : List α} (h : L.toList.Perm (x :: R)) :
    (L.remove x).toList.Perm R := by
  have := h.erase x
  rwa [List.erase_cons_head] at this

theorem perm_of_getElem? {L : List α} {i : Nat} (h : L[i]? = some x) :
    L.Perm (x :: L.eraseIdx i) := by
  obtain ⟨hi, rfl⟩ := List.getElem?_eq_some_iff.mp h
  exact (List.getElem_cons_eraseIdx_perm hi).symm

theorem eraseIdx_modify (l : List α) (i : Nat) (f : α → α) :
    (l.modify i f).eraseIdx i = l.eraseIdx i := by
  induction l generalizing i with
  | nil => simp
  | cons y ys ih => cases i with
    | zero => simp
    | succ i => simp [ih]

theorem update_perm {i : Nat} {f : α → α} {hf : ∀ a, key (f a) = key a} (h : L.toList[i]? = some x)
    :
    (L.update i f hf).toList.Perm (f x :: L.toList.eraseIdx i) := by
  have hget : (L.update i f hf).toList[i]? = some (f x) := by
    simp [update, h]
  have herase : (L.update i f hf).toList.eraseIdx i = L.toList.eraseIdx i :=
    eraseIdx_modify L.toList i f
  exact herase ▸ perm_of_getElem? hget

/-! ## What the slot of a binary search separates -/

theorem key_le_of_getElem? {i j : Nat} {y : α} (hij : i ≤ j) (hx : L.toList[i]? = some x)
    (hy : L.toList[j]? = some y) : key x ≤ key y := by
  obtain ⟨hi, rfl⟩ := List.getElem?_eq_some_iff.mp hx
  obtain ⟨hj, rfl⟩ := List.getElem?_eq_some_iff.mp hy
  rcases Nat.lt_or_eq_of_le hij with h | h
  · exact List.pairwise_iff_getElem.mp L.sorted i j hi hj h
  · subst h; exact le_refl _

/-- Positions before the slot hold smaller keys. -/
theorem key_lt_of_lt_bisectLeft {y : α} {j : Nat} (hj : j < L.bisectLeft x)
    (hy : L.toList[j]? = some y) : key y < key x := by
  obtain ⟨hlt, rfl⟩ := List.getElem?_eq_some_iff.mp hy
  have := List.not_of_lt_findIdx hj
  simpa using this

/-- Positions from the slot on hold keys that are not smaller. -/
theorem key_le_of_bisectLeft_le {y : α} {j : Nat} (hj : L.bisectLeft x ≤ j)
    (hy : L.toList[j]? = some y) : key x ≤ key y := by
  have hlen : L.bisectLeft x < L.toList.length :=
    Nat.lt_of_le_of_lt hj (List.getElem?_eq_some_iff.mp hy).1
  have hslot : key x ≤ key (L.toList[L.bisectLeft x]) := by
    have := List.findIdx_getElem (w := hlen)
    exact of_decide_eq_true this
  exact hslot.trans (key_le_of_getElem? hj (List.getElem?_eq_getElem hlen) hy)

/-- An entry with a smaller key makes the position before the slot exist and bounds its key. -/
theorem exists_before_slot {b : α} (hb : b ∈ L.toList) (h : key b < key x) : 0 < L.bisectLeft x ∧
      ∃ p, L.toList[L.bisectLeft x - 1]? = some p ∧ key b ≤ key p ∧ key p < key x := by
  obtain ⟨j, hj⟩ := List.getElem?_of_mem hb
  have hlt : j < L.bisectLeft x := by
    by_contra hcon
    exact absurd (key_le_of_bisectLeft_le (Nat.le_of_not_lt hcon) hj) (not_le.mpr h)
  have hlen : L.bisectLeft x - 1 < L.toList.length := by
    have hle : L.bisectLeft x ≤ L.toList.length := List.findIdx_le_length
    omega
  have hget := List.getElem?_eq_getElem hlen
  exact ⟨by omega, _, hget, key_le_of_getElem? (by omega) hj hget,
    key_lt_of_lt_bisectLeft (by omega) hget⟩

/-- An entry with a key that is not smaller makes the slot exist and bounds its key. -/
theorem exists_at_slot {b : α} (hb : b ∈ L.toList) (h : key x ≤ key b) :
      ∃ s, L.toList[L.bisectLeft x]? = some s ∧ key x ≤ key s ∧ key s ≤ key b := by
  obtain ⟨j, hj⟩ := List.getElem?_of_mem hb
  have hle : L.bisectLeft x ≤ j := by
    by_contra hcon
    exact absurd (key_lt_of_lt_bisectLeft (Nat.lt_of_not_le hcon) hj) (not_lt.mpr h)
  have hlen : L.bisectLeft x < L.toList.length :=
    Nat.lt_of_le_of_lt hle (List.getElem?_eq_some_iff.mp hj).1
  have hget := List.getElem?_eq_getElem hlen
  exact ⟨_, hget, key_le_of_bisectLeft_le (Nat.le_refl _) hget, key_le_of_getElem? hle hget hj⟩

/-- Every key is at most that of the last entry. -/
theorem key_le_last {b : α} (hb : b ∈ L.toList) :
    ∃ p, L.toList[L.toList.length - 1]? = some p ∧ key b ≤ key p := by
  obtain ⟨j, hj⟩ := List.getElem?_of_mem hb
  have hlt : j < L.toList.length := (List.getElem?_eq_some_iff.mp hj).1
  have hlen : L.toList.length - 1 < L.toList.length := by omega
  have hget := List.getElem?_eq_getElem hlen
  exact ⟨_, hget, key_le_of_getElem? (by omega) hj hget⟩

end SortedKeyList

end LMCache.Lib
