/-
# LMCache.Lib.Stride — every n-th element of a list, and a list dealt out n elements at a time.

`islice` picks every `step`-th element behind some that are skipped.  `deal` gives each key of a list
the next `n` elements of another one.  Both respect a list that is put together from pieces of whole
steps, and both can be read off the indices.
-/
import LMCache.Lib.Scatter
import Mathlib.Tactic

namespace LMCache.Lib

universe u v w

variable {κ : Type u} {α : Type v} {β : Type w}

/-! ## Every n-th element -/

/-- `islice(xs, skip, None, step)`. -/
def islice : Nat → Nat → List α → List α
  | _, _, [] => []
  | 0, step, x :: xs => x :: islice (step - 1) step xs
  | skip + 1, step, _ :: xs => islice skip step xs

theorem islice_drop (skip step : Nat) (xs : List α) :
    islice skip step xs = islice 0 step (xs.drop skip) := by
  induction skip generalizing xs with
  | zero => rfl
  | succ skip ih =>
    cases xs with
    | nil => rfl
    | cons x xs => exact ih xs

/-- The last element of each whole step: as many as there are whole steps. -/
theorem islice_eq_map_range {step : Nat} (hstep : 0 < step) (d : α) (xs : List α) :
    islice (step - 1) step xs =
      (List.range (xs.length / step)).map fun i => xs.getD ((i + 1) * step - 1) d := by
  induction hn : xs.length / step generalizing xs with
  | zero =>
    have hlt : xs.length < step := (Nat.div_eq_zero_iff_lt hstep).mp hn
    rw [islice_drop, List.drop_of_length_le (by omega)]
    rfl
  | succ n ih =>
    have hle : step ≤ xs.length := by
      by_contra hlt
      rw [Nat.div_eq_of_lt (by omega)] at hn
      cases hn
    have hdrop : xs.drop (step - 1) = xs.getD (step - 1) d :: xs.drop step := by
      rw [List.drop_eq_getElem_cons (by omega), Nat.sub_add_cancel hstep,
        List.getD_eq_getElem?_getD, List.getElem?_eq_getElem, Option.getD_some]
    have hrest : (xs.drop step).length / step = n := by
      rw [Nat.div_eq_sub_div hstep hle] at hn
      rw [List.length_drop]
      exact Nat.succ.inj hn
    rw [islice_drop, hdrop]
    show _ :: islice (step - 1) step (xs.drop step) = _
    rw [ih _ hrest, List.range_succ_eq_map, List.map_cons, List.map_map, Nat.zero_add, Nat.one_mul]
    congr 1
    apply List.map_congr_left
    intro i _
    have hpos : 0 < (i + 1) * step := Nat.mul_pos (Nat.succ_pos i) hstep
    have hindex : step + ((i + 1) * step - 1) = (i + 1 + 1) * step - 1 := by
      rw [Nat.succ_mul (i + 1)]
      omega
    show (xs.drop step).getD _ d = xs.getD ((i + 1 + 1) * step - 1) d
    rw [List.getD_eq_getElem?_getD, List.getD_eq_getElem?_getD, List.getElem?_drop, hindex]

/-- The same of a slice that starts and ends at whole steps. -/
theorem islice_slice {step : Nat} (hstep : 0 < step) (d : α) (xs : List α) {first last : Nat}
    (hlast : last * step ≤ xs.length) :
    islice (step - 1) step (slice xs (first * step) (last * step)) =
      (List.range' first (last - first)).map fun i => xs.getD ((i + 1) * step - 1) d := by
  have hlength : (slice xs (first * step) (last * step)).length / step = last - first := by
    rw [length_slice_of_le hlast, ← Nat.sub_mul, Nat.mul_div_cancel _ hstep]
  rw [islice_eq_map_range hstep d, hlength, List.range'_eq_map_range, List.map_map]
  apply List.map_congr_left
  intro i hi
  rw [List.mem_range] at hi
  have hpos : 0 < (i + 1) * step := Nat.mul_pos (Nat.succ_pos i) hstep
  have hlt : first * step + (i + 1) * step ≤ last * step := by
    rw [← Nat.add_mul]
    exact Nat.mul_le_mul_right step (by omega)
  have hindex : first * step + ((i + 1) * step - 1) = (first + i + 1) * step - 1 := by
    rw [Nat.add_assoc first, Nat.add_mul first]
    omega
  show (slice xs (first * step) (last * step)).getD _ d = xs.getD _ d
  rw [List.getD_eq_getElem?_getD, List.getD_eq_getElem?_getD, slice, List.getElem?_drop,
    List.getElem?_take_of_lt (by omega), hindex]

/-! ## Elements that each stand for as many -/

section FlatMap

variable {f : α → List β} {width : Nat} (hf : ∀ a, (f a).length = width)

include hf

theorem take_flatMap_width (xs : List α) (n : Nat) :
    (xs.flatMap f).take (n * width) = (xs.take n).flatMap f := by
  induction n generalizing xs with
  | zero => simp
  | succ n ih =>
    cases xs with
    | nil => simp
    | cons x xs =>
      rw [List.flatMap_cons, List.take_succ_cons, List.flatMap_cons, ← ih xs, Nat.succ_mul,
        Nat.add_comm, List.take_append, List.take_of_length_le (by rw [hf]; omega), hf,
        Nat.add_sub_cancel_left]

theorem drop_flatMap_width (xs : List α) (n : Nat) :
    (xs.flatMap f).drop (n * width) = (xs.drop n).flatMap f := by
  induction n generalizing xs with
  | zero => simp
  | succ n ih =>
    cases xs with
    | nil => simp
    | cons x xs =>
      rw [List.flatMap_cons, List.drop_succ_cons, ← ih xs, Nat.succ_mul, Nat.add_comm,
        List.drop_append, List.drop_of_length_le (by rw [hf]; omega), hf, List.nil_append,
        Nat.add_sub_cancel_left]

end FlatMap

/-! ## Dealing out -/

/-- Each key gets the next `n` elements. -/
def deal (n : Nat) : List κ → List α → List (κ × List α)
  | [], _ => []
  | k :: ks, xs => (k, xs.take n) :: deal n ks (xs.drop n)

/-- The key at an index gets the elements at its multiple. -/
theorem deal_eq_zipIdx (n : Nat) (ks : List κ) (xs : List α) :
    deal n ks xs = ks.zipIdx.map fun e => (e.1, slice xs (e.2 * n) (e.2 * n + n)) := by
  suffices h : ∀ start (ys : List α), ys.drop (start * n) = xs →
      deal n ks xs = (ks.zipIdx start).map fun e => (e.1, slice ys (e.2 * n) (e.2 * n + n)) from
    h 0 xs (by rw [Nat.zero_mul, List.drop_zero])
  induction ks generalizing xs with
  | nil => intro _ _ _; rfl
  | cons k ks ih =>
    intro start ys hys
    have hnext : ys.drop ((start + 1) * n) = xs.drop n := by
      rw [Nat.succ_mul, ← List.drop_drop, hys]
    rw [deal, List.zipIdx_cons, List.map_cons, ih _ _ _ hnext]
    congr 2
    rw [slice, List.drop_take, hys, Nat.add_sub_cancel_left]

/-- What is dealt out in two goes. -/
theorem deal_append {n : Nat} {ks ks' : List κ} {xs xs' : List α} (h : xs.length = ks.length * n) :
    deal n (ks ++ ks') (xs ++ xs') = deal n ks xs ++ deal n ks' xs' := by
  induction ks generalizing xs with
  | nil =>
    rw [List.length_nil, Nat.zero_mul, List.length_eq_zero_iff] at h
    rw [h]
    rfl
  | cons k ks ih =>
    rw [List.length_cons, Nat.succ_mul] at h
    rw [List.cons_append, deal, deal, List.cons_append, List.take_append_of_le_length (by omega),
      List.drop_append_of_le_length (by omega), ih (by rw [List.length_drop]; omega)]

/-- The keys of a stretch of indices get the slices of it. -/
theorem deal_map_range' (n : Nat) (key : Nat → κ) (xs : List α) (first count : Nat) :
    deal n ((List.range' first count).map key) (xs.drop (first * n)) =
      (List.range' first count).map fun i => (key i, slice xs (i * n) ((i + 1) * n)) := by
  induction count generalizing first with
  | zero => rfl
  | succ count ih =>
    rw [List.range'_succ, List.map_cons, List.map_cons, deal, List.drop_drop, ← Nat.succ_mul, ih,
      slice, List.drop_take, Nat.succ_mul, Nat.add_sub_cancel_left]

/-- Only the elements that are dealt out matter. -/
theorem deal_take {n m : Nat} {ks : List κ} (xs : List α) (h : ks.length * n ≤ m) :
    deal n ks (xs.take m) = deal n ks xs := by
  induction ks generalizing xs m with
  | nil => rfl
  | cons k ks ih =>
    rw [List.length_cons, Nat.succ_mul] at h
    rw [deal, deal, List.take_take, Nat.min_eq_left (by omega), List.drop_take, ih _ (by omega)]

/-- What the elements that are dealt out stand for. -/
theorem deal_flatMap_width {f : α → List β} {width : Nat} (hf : ∀ a, (f a).length = width) (n : Nat)
    (ks : List κ) (xs : List α) :
    deal (n * width) ks (xs.flatMap f) = (deal n ks xs).map fun e => (e.1, e.2.flatMap f) := by
  induction ks generalizing xs with
  | nil => rfl
  | cons k ks ih =>
    rw [deal, deal, List.map_cons, take_flatMap_width hf, drop_flatMap_width hf, ih]

/-! ## Ranges that stand one behind the other -/

/-- From a start to a stop, without a gap or an overlap. -/
inductive EndToEnd : ℕ → ℕ → List (ℕ × ℕ) → Prop where
  | nil (start : ℕ) : EndToEnd start start []
  | cons {start middle stop : ℕ} {ranges : List (ℕ × ℕ)} : start ≤ middle →
      EndToEnd middle stop ranges → EndToEnd start stop ((start, middle) :: ranges)

namespace EndToEnd

variable {start stop : ℕ} {ranges : List (ℕ × ℕ)}

theorem le (h : EndToEnd start stop ranges) : start ≤ stop := by
  induction h with
  | nil => exact le_refl _
  | cons hle _ ih => exact hle.trans ih

/-- Each index between the start and the stop is in one range, in order. -/
theorem flatMap_range' (h : EndToEnd start stop ranges) :
    (ranges.flatMap fun r => List.range' r.1 (r.2 - r.1)) = List.range' start (stop - start) := by
  induction h with
  | nil =>
    rw [Nat.sub_self]
    rfl
  | @cons start middle stop ranges hle hrest ih =>
    have hmiddle := hrest.le
    have hcut : List.range' start (middle - start) ++
        List.range' (start + 1 * (middle - start)) (stop - middle) =
          List.range' start (middle - start + (stop - middle)) := List.range'_append
    rw [Nat.one_mul, Nat.add_sub_cancel' hle] at hcut
    rw [List.flatMap_cons, ih, hcut]
    congr 1
    omega

end EndToEnd

/-- Steps of one width, the last one cut off. -/
theorem endToEnd_steps {step : ℕ} (hstep : 0 < step) (n : ℕ) :
    EndToEnd 0 n ((List.range ((n + step - 1) / step)).map
      ((fun i => (i, min (i + step) n)) ∘ (· * step))) := by
  have hend : n ≤ (n + step - 1) / step * step := by
    have := Nat.lt_mul_div_succ (n + step - 1) hstep
    rw [Nat.mul_succ, Nat.mul_comm] at this
    omega
  suffices h : ∀ count first, first + count = (n + step - 1) / step →
      EndToEnd (min (first * step) n) n ((List.range' first count).map
        ((fun i => (i, min (i + step) n)) ∘ (· * step))) by
    have h0 := h _ 0 (Nat.zero_add _)
    rwa [Nat.zero_mul, Nat.zero_min, ← List.range_eq_range'] at h0
  intro count
  induction count with
  | zero =>
    intro first hfirst
    rw [Nat.add_zero] at hfirst
    rw [hfirst, Nat.min_eq_right hend]
    exact .nil n
  | succ count ih =>
    intro first hfirst
    have hlt : first * step < n := by
      have hle : first + 1 ≤ (n + step - 1) / step := by omega
      rw [Nat.le_div_iff_mul_le hstep, Nat.succ_mul] at hle
      omega
    rw [List.range'_succ, List.map_cons, Nat.min_eq_left hlt.le]
    refine .cons (by dsimp only; omega) ?_
    have hnext := ih (first + 1) (by omega)
    rwa [Nat.succ_mul] at hnext

end LMCache.Lib
