/-
# LMCache.Lib.Scatter — rows of a table, gathered into a buffer and scattered from it.

A table is a function from places to rows, and a buffer is a list of rows.  To gather a list of
places is to map the table over it; `scatter` writes the rows of a buffer to the places of a list,
one after the other.  A buffer that holds several pieces, one behind the other, is cut into them by
`cuts`.
-/
import Mathlib.Data.List.Basic
import Mathlib.Data.List.Nodup
import Mathlib.Data.List.Forall2
import Mathlib.Logic.Function.Basic

namespace LMCache.Lib

universe u v

variable {κ : Type u} {ρ : Type v}

/-! ## Writing rows to places -/

section Scatter

variable [DecidableEq κ]

/-- Write the rows to the places. -/
def scatter (table : κ → ρ) : List κ → List ρ → κ → ρ
  | place :: places, row :: rows => scatter (Function.update table place row) places rows
  | _, _ => table

/-- Nothing else is touched. -/
theorem scatter_of_notMem {places : List κ} {place : κ} (h : place ∉ places) (table : κ → ρ)
    (rows : List ρ) : scatter table places rows place = table place := by
  induction places generalizing table rows with
  | nil => rfl
  | cons place' places ih =>
    match rows with
    | [] => rfl
    | row :: rows =>
      rw [List.mem_cons, not_or] at h
      show scatter (Function.update table place' row) places rows place = table place
      rw [ih h.2, Function.update_of_ne h.1]

/-- Distinct places hold the rows. -/
theorem map_scatter {places : List κ} (hnodup : places.Nodup) (table : κ → ρ) {rows : List ρ}
    (hlength : rows.length = places.length) :
    places.map (scatter table places rows) = rows := by
  induction places generalizing table rows with
  | nil => exact (List.length_eq_zero_iff.mp hlength).symm
  | cons place places ih =>
    match rows with
    | row :: rows =>
      obtain ⟨hnew, hnodup⟩ := List.nodup_cons.mp hnodup
      rw [List.map_cons]
      show scatter (Function.update table place row) places rows place ::
        places.map (scatter (Function.update table place row) places rows) = row :: rows
      rw [ih hnodup _ (Nat.succ.inj hlength), scatter_of_notMem hnew, Function.update_self]

end Scatter

/-- Lists that agree item by item, each looked at in its own way. -/
theorem forall₂_eq_iff {α β σ : Type*} {f : α → σ} {g : β → σ} {as : List α} {bs : List β} :
    List.Forall₂ (fun a b => f a = g b) as bs ↔ as.map f = bs.map g := by
  rw [← List.forall₂_eq_eq_eq, List.forall₂_map_left_iff, List.forall₂_map_right_iff]

/-! ## Slices -/

/-- The rows from `start` on and before `stop`, as far as there are any. -/
def slice (rows : List ρ) (start stop : Nat) : List ρ := (rows.take stop).drop start

theorem length_slice (rows : List ρ) (start stop : Nat) :
    (slice rows start stop).length = min stop rows.length - start := by
  rw [slice, List.length_drop, List.length_take]

variable {rows : List ρ} {start stop : Nat}

theorem length_slice_of_le (h : stop ≤ rows.length) :
    (slice rows start stop).length = stop - start := by
  rw [length_slice, Nat.min_eq_left h]

theorem slice_subset_drop (rows : List ρ) (start stop : Nat) :
    slice rows start stop ⊆ rows.drop start := by
  intro row hrow
  rw [slice, List.drop_take] at hrow
  exact List.mem_of_mem_take hrow

/-- A slice in the middle. -/
theorem slice_append_append (before middle after : List ρ) :
    slice (before ++ middle ++ after) before.length (before.length + middle.length) = middle := by
  rw [slice, ← List.length_append, List.take_left, List.drop_left]

theorem drop_slice (rows : List ρ) (start stop n : Nat) :
    (slice rows start stop).drop n = slice rows (start + n) stop := by
  rw [slice, slice, List.drop_drop]

theorem take_slice (rows : List ρ) (start stop n : Nat) :
    (slice rows start stop).take n = slice rows start (min (start + n) stop) := by
  rw [slice, slice, List.take_drop, List.take_take]

theorem slice_append_drop (rows : List ρ) (h : start ≤ stop) :
    slice rows start stop ++ rows.drop stop = rows.drop start := by
  have hstop : rows.drop stop = (rows.drop start).drop (stop - start) := by
    rw [List.drop_drop, Nat.add_sub_cancel' h]
  rw [slice, List.drop_take, hstop, List.take_append_drop]

theorem slice_append_slice (rows : List ρ) {middle : Nat} (h : start ≤ middle) (h' : middle ≤ stop)
    :
    slice rows start middle ++ slice rows middle stop = slice rows start stop := by
  have hmiddle : slice rows start middle = slice (rows.take stop) start middle := by
    rw [slice, slice, List.take_take, Nat.min_eq_left h']
  rw [hmiddle]
  exact slice_append_drop (rows.take stop) h

theorem slice_sublist_slice (rows : List ρ) {start' : Nat} (h : start' ≤ start) (stop : Nat) :
    (slice rows start stop).Sublist (slice rows start' stop) := by
  have hstart : slice rows start stop = (slice rows start' stop).drop (start - start') := by
    rw [slice, slice, List.drop_drop, Nat.add_sub_cancel' h]
  rw [hstart]
  apply List.drop_sublist

/-- Slices that do not overlap, one behind the other, are in the order of the rows. -/
theorem flatMap_slice_sublist {ranges : List (Nat × Nat)}
    (hincreasing : ranges.Pairwise fun a b => a.2 ≤ b.1) (hranges : ∀ r ∈ ranges, r.1 ≤ r.2)
    (hstart : ∀ r ∈ ranges, start ≤ r.1) :
    (ranges.flatMap fun r => slice rows r.1 r.2).Sublist (rows.drop start) := by
  induction ranges generalizing start with
  | nil => exact List.nil_sublist _
  | cons r ranges ih =>
    obtain ⟨hr, hincreasing⟩ := List.pairwise_cons.mp hincreasing
    obtain ⟨hle, hranges⟩ := List.forall_mem_cons.mp hranges
    have hstart := hstart r List.mem_cons_self
    rw [List.flatMap_cons, ← slice_append_drop rows (Nat.le_trans hstart hle)]
    apply List.Sublist.append
    · exact slice_sublist_slice rows hstart r.2
    · exact ih hincreasing hranges hr

/-- A slice that is not empty begins with its first row. -/
theorem slice_eq_cons (h : start < stop) (hstart : start < rows.length) :
    slice rows start stop = rows[start] :: slice rows (start + 1) stop := by
  have hlength : start < (rows.take stop).length := by
    rw [List.length_take]
    omega
  rw [slice, List.drop_eq_getElem_cons hlength, List.getElem_take, slice]

/-- A row that is there once is not found behind its place. -/
theorem le_length_of_mem_drop {before after : List ρ} {row : ρ} {k : Nat}
    (hnodup : (before ++ row :: after).Nodup) (h : row ∈ (before ++ row :: after).drop k) :
    k ≤ before.length := by
  by_contra hlt
  obtain ⟨m, rfl⟩ := Nat.exists_eq_add_of_lt (Nat.lt_of_not_le hlt)
  have hdrop : (before ++ row :: after).drop (before.length + m + 1) = after.drop m := by
    rw [Nat.add_assoc, ← List.drop_drop, List.drop_left, List.drop_succ_cons]
  rw [hdrop] at h
  have hafter := (List.nodup_append.mp hnodup).2.1
  exact (List.nodup_cons.mp hafter).1 (List.mem_of_mem_drop h)

/-! ## Pieces one behind the other -/

/-- Where the pieces of these lengths are, from a position on. -/
def cuts : Nat → List Nat → List (Nat × Nat)
  | _, [] => []
  | start, n :: ns => (start, start + n) :: cuts (start + n) ns

@[simp] theorem length_cuts (start : Nat) (ns : List Nat) : (cuts start ns).length = ns.length := by
  induction ns generalizing start with
  | nil => rfl
  | cons n ns ih => rw [cuts, List.length_cons, ih, List.length_cons]

/-- Cutting what was put together gives the pieces. -/
theorem map_slice_cuts (before : List ρ) (pieces : List (List ρ)) :
    (cuts before.length (pieces.map List.length)).map
      (fun c => slice (before ++ pieces.flatten) c.1 c.2) = pieces := by
  induction pieces generalizing before with
  | nil => rfl
  | cons piece pieces ih =>
    rw [List.map_cons, cuts, List.map_cons, List.flatten_cons, ← List.append_assoc]
    congr 1
    · exact slice_append_append before piece pieces.flatten
    · rw [← List.length_append]
      exact ih (before ++ piece)

end LMCache.Lib
