/-
# LMCache.Lib.Cover — counting how often a point is covered by half-open ranges.

A range `(a, b)` stands for the half-open interval `[a, b)`.  `cover L x` is the number of ranges of
`L` that contain the point `x`.  An allocator's bookkeeping is linear in this count: splitting a
range, joining two neighbours, handing one out or taking it back each change `cover` by the
indicator `hits` of one range, at every point at once and whatever the order of the list.  The
geometric statements are read off at the end:

* `cover L x ≤ 1` everywhere makes the ranges of `L` pairwise disjoint (`pairwise_disjoint`);
* `Tiles L lo hi` (the count is exactly the indicator of `[lo, hi)`) makes them a partition of
  `[lo, hi)` (`Tiles.biUnion_eq`);
* ranges that are not empty, in order and not even adjacent (`Separated L`) are determined by the
  count (`Separated.eq_of_cover`).

Everything is over an arbitrary linear order; no memory is mentioned.
-/
import Mathlib.Data.List.Perm.Basic
import Mathlib.Data.Set.Lattice
import Mathlib.Order.Interval.Set.Basic
import Mathlib.Tactic.Push
import Mathlib.Algebra.BigOperators.Group.List.Basic
import Mathlib.Algebra.GroupWithZero.Nat
import Mathlib.Order.CompletePartialOrder

namespace LMCache.Lib

universe u

variable {α : Type u} [LinearOrder α]

/-! ## The indicator of one range -/

/-- `1` when the point lies in the half-open range, else `0`. -/
def hits (r : α × α) (x : α) : Nat := if r.1 ≤ x ∧ x < r.2 then 1 else 0

/-- The points of a range. -/
def points (r : α × α) : Set α := Set.Ico r.1 r.2

theorem hits_eq_one {r : α × α} {x : α} : hits r x = 1 ↔ x ∈ points r := by
  simp [hits, points]

theorem hits_le_one (r : α × α) (x : α) : hits r x ≤ 1 := by
  unfold hits; split <;> omega

theorem hits_pos {r : α × α} {x : α} : 0 < hits r x ↔ x ∈ points r := by
  rw [← hits_eq_one]
  have := hits_le_one r x
  omega

theorem hits_self {a x : α} : hits (a, a) x = 0 := by
  have h : ¬ (a ≤ x ∧ x < a) := fun h => absurd (lt_of_le_of_lt h.1 h.2) (lt_irrefl a)
  simp only [hits, if_neg h]

/-- **Splitting.**  A cut inside a range splits its indicator. -/
theorem hits_split {a b c : α} (hab : a ≤ b) (hbc : b ≤ c) (x : α) :
    hits (a, c) x = hits (a, b) x + hits (b, c) x := by
  rcases lt_or_ge x b with hxb | hbx
  · have hxc : x < c := lt_of_lt_of_le hxb hbc
    have hnb : ¬ b ≤ x := not_le.mpr hxb
    simp [hits, hxb, hxc, hnb]
  · have hax : a ≤ x := le_trans hab hbx
    have hnx : ¬ x < b := not_lt.mpr hbx
    simp [hits, hbx, hax, hnx]

/-! ## The cover count of a list of ranges -/

/-- How many ranges of the list contain the point. -/
def cover (L : List (α × α)) (x : α) : Nat := (L.map fun r => hits r x).sum

@[simp] theorem cover_nil (x : α) : cover ([] : List (α × α)) x = 0 := rfl

@[simp] theorem cover_cons (r : α × α) (L : List (α × α)) (x : α) :
    cover (r :: L) x = hits r x + cover L x := by simp [cover]

@[simp] theorem cover_append (L M : List (α × α)) (x : α) :
    cover (L ++ M) x = cover L x + cover M x := by simp [cover]

theorem cover_perm {L M : List (α × α)} (h : L.Perm M) (x : α) : cover L x = cover M x :=
  (h.map _).sum_eq

theorem cover_sublist {L M : List (α × α)} (h : L.Sublist M) (x : α) : cover L x ≤ cover M x := by
  induction h with
  | slnil => rfl
  | cons r _ ih => rw [cover_cons]; omega
  | cons_cons r _ ih => rw [cover_cons, cover_cons]; omega

theorem hits_le_cover {r : α × α} {L : List (α × α)} (h : r ∈ L) (x : α) :
    hits r x ≤ cover L x := by
  simpa using cover_sublist (List.singleton_sublist.mpr h) x

theorem cover_pos {L : List (α × α)} {x : α} : 0 < cover L x ↔ ∃ r ∈ L, x ∈ points r := by
  induction L with
  | nil => simp
  | cons r L ih =>
    have hsum : 0 < cover (r :: L) x ↔ 0 < hits r x ∨ 0 < cover L x := by
      rw [cover_cons]; omega
    rw [hsum, ih, hits_pos, List.exists_mem_cons_iff]

/-! ## Disjointness and partitions -/

/-- Two ranges that together cover no point twice share no point. -/
theorem disjoint_of_hits_le {r s : α × α} (h : ∀ x, hits r x + hits s x ≤ 1) :
    Disjoint (points r) (points s) := by
  rw [Set.disjoint_left]
  intro x hr hs
  have h1 := hits_eq_one.mpr hr
  have h2 := hits_eq_one.mpr hs
  have := h x
  omega

/-- **Disjointness.**  If no point is covered twice, the ranges are pairwise disjoint. -/
theorem pairwise_disjoint {L : List (α × α)} (h : ∀ x, cover L x ≤ 1) :
    L.Pairwise fun r s => Disjoint (points r) (points s) := by
  induction L with
  | nil => exact List.Pairwise.nil
  | cons r L ih =>
    have htail : ∀ x, cover L x ≤ 1 := fun x => by
      have := h x; rw [cover_cons] at this; omega
    refine List.Pairwise.cons ?_ (ih htail)
    intro s hs
    refine disjoint_of_hits_le fun x => ?_
    have h1 := h x
    have h2 := hits_le_cover hs x
    rw [cover_cons] at h1
    omega

/-- The ranges of `L` cover every point of `[lo, hi)` exactly once and no other point. -/
def Tiles (L : List (α × α)) (lo hi : α) : Prop := ∀ x, cover L x = hits (lo, hi) x

namespace Tiles

variable {L M : List (α × α)} {lo hi : α}

theorem perm (h : Tiles L lo hi) (p : L.Perm M) : Tiles M lo hi :=
  fun x => (cover_perm p x).symm.trans (h x)

theorem cover_le_one (h : Tiles L lo hi) (x : α) : cover L x ≤ 1 :=
  (h x).le.trans (hits_le_one _ x)

theorem pairwise_disjoint (h : Tiles L lo hi) :
    L.Pairwise fun r s => Disjoint (points r) (points s) :=
  Lib.pairwise_disjoint h.cover_le_one

/-- A tiling's ranges have exactly the tiled interval as their union. -/
theorem biUnion_eq (h : Tiles L lo hi) : ⋃ r ∈ L, points r = Set.Ico lo hi := by
  ext x
  have hx : 0 < cover L x ↔ 0 < hits (lo, hi) x := by rw [h x]
  rw [cover_pos, hits_pos] at hx
  simp only [Set.mem_iUnion, exists_prop]
  exact hx

/-- Two nonempty ranges of a tiling lie one beside the other. -/
theorem beside {r s : α × α} {R : List (α × α)} (h : Tiles L lo hi) (p : L.Perm (r :: s :: R))
    (hr : r.1 < r.2) (hs : s.1 < s.2) : r.2 ≤ s.1 ∨ s.2 ≤ r.1 := by
  have hd : Disjoint (points r) (points s) := by
    have := (h.perm p).pairwise_disjoint
    simp only [List.pairwise_cons, List.mem_cons, forall_eq_or_imp] at this
    exact this.1.1
  -- were neither beside the other, the larger of the two starts would lie in both
  by_contra hcon
  push Not at hcon
  have hr' : max r.1 s.1 ∈ points r := ⟨le_max_left _ _, max_lt hr hcon.1⟩
  have hs' : max r.1 s.1 ∈ points s := ⟨le_max_right _ _, max_lt hcon.2 hs⟩
  exact Set.disjoint_left.mp hd hr' hs'

/-- A nonempty range of a tiling lies inside the tiled interval. -/
theorem within {r : α × α} (h : Tiles L lo hi) (hr : r ∈ L) (hne : r.1 < r.2) :
    lo ≤ r.1 ∧ r.2 ≤ hi := by
  have hsub : ∀ x ∈ points r, x ∈ Set.Ico lo hi := by
    intro x hx
    have h1 : hits r x = 1 := hits_eq_one.mpr hx
    have h2 := hits_le_cover hr x
    rw [h x] at h2
    have hpos : 0 < hits (lo, hi) x := by omega
    exact hits_pos.mp hpos
  refine ⟨(hsub r.1 ⟨le_refl _, hne⟩).1, ?_⟩
  by_contra hcon
  exact lt_irrefl hi (hsub hi ⟨(hsub r.1 ⟨le_refl _, hne⟩).2.le, not_le.mp hcon⟩).2

end Tiles

/-! ## Separated ranges -/

/-- The ranges are in order, none is empty, and there is a gap between any two. -/
def Separated (L : List (α × α)) : Prop :=
  (L.Pairwise fun r s => r.2 < s.1) ∧ ∀ r ∈ L, r.1 < r.2

namespace Separated

variable {r s : α × α} {L M : List (α × α)}

theorem tail (h : Separated (r :: L)) : Separated L :=
  ⟨(List.pairwise_cons.mp h.1).2, fun s hs => h.2 s (List.mem_cons_of_mem _ hs)⟩

/-- The first range starts first. -/
theorem head_le (h : Separated (r :: L)) {x : α} (hx : 0 < cover (r :: L) x) : r.1 ≤ x := by
  obtain ⟨q, hq, hmem⟩ := cover_pos.mp hx
  rcases List.mem_cons.mp hq with rfl | hq
  · exact hmem.1
  · have hlt := (List.pairwise_cons.mp h.1).1 q hq
    exact (h.2 r List.mem_cons_self).le.trans (hlt.le.trans hmem.1)

theorem cover_head (h : Separated (r :: L)) : 0 < cover (r :: L) r.1 :=
  cover_pos.mpr ⟨r, List.mem_cons_self, le_refl _, h.2 r List.mem_cons_self⟩

/-- The first range ends at a gap. -/
theorem cover_stop (h : Separated (r :: L)) : cover (r :: L) r.2 = 0 := by
  by_contra hne
  obtain ⟨q, hq, hmem⟩ := cover_pos.mp (Nat.pos_of_ne_zero hne)
  rcases List.mem_cons.mp hq with rfl | hq
  · exact lt_irrefl _ hmem.2
  · exact absurd hmem.1 (not_le.mpr ((List.pairwise_cons.mp h.1).1 q hq))

/-- A range that starts where the first one does ends no earlier. -/
theorem stop_le (h : Separated (r :: L)) (hstart : r.1 = s.1)
    (hs : ∀ x, hits s x ≤ cover (r :: L) x) : s.2 ≤ r.2 := by
  by_contra hlt
  have hmem : r.2 ∈ points s :=
    ⟨hstart ▸ (h.2 r List.mem_cons_self).le, not_le.mp hlt⟩
  have hle := hs r.2
  rw [h.cover_stop, hits_eq_one.mpr hmem] at hle
  omega

/-- **Uniqueness.**  Separated ranges that cover the same points the same number of times are the
same. -/
theorem eq_of_cover (hL : Separated L) (hM : Separated M) (h : ∀ x, cover L x = cover M x) :
    L = M := by
  induction L generalizing M with
  | nil =>
    cases M with
    | nil => rfl
    | cons s M =>
      have := hM.cover_head
      rw [← h] at this
      exact absurd this (lt_irrefl _)
  | cons r L ih =>
    cases M with
    | nil =>
      have := hL.cover_head
      rw [h] at this
      exact absurd this (lt_irrefl _)
    | cons s M =>
      have hstart : r.1 = s.1 := by
        apply le_antisymm
        · apply hL.head_le
          rw [h]
          exact hM.cover_head
        · apply hM.head_le
          rw [← h]
          exact hL.cover_head
      have hstop : r.2 = s.2 := by
        apply le_antisymm
        · apply hM.stop_le hstart.symm
          intro x
          rw [← h]
          exact hits_le_cover List.mem_cons_self x
        · apply hL.stop_le hstart
          intro x
          rw [h]
          exact hits_le_cover List.mem_cons_self x
      obtain rfl : r = s := Prod.ext hstart hstop
      have hrest : ∀ x, cover L x = cover M x := by
        intro x
        have := h x
        rw [cover_cons, cover_cons] at this
        omega
      rw [ih hL.tail hM.tail hrest]

end Separated

end LMCache.Lib
