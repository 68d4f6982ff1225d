/-
# LMCache.Lib.TierWalk — asking tiers, one after the other, for a prefix of what is left.

A list of keys is looked up in a list of tiers.  Each tier is asked how many of the remaining keys it
holds, counted from the first one on; it is assigned those, and the next tier is asked for the rest.
A tier that holds none of them is passed over.

The walk has no early stop.  A loop that leaves once all keys are assigned comes to the same slices,
since the tiers behind have nothing left to be asked for.
-/
import Mathlib.Data.List.Basic

namespace LMCache.Lib

universe u v w

variable {τ : Type u} {κ : Type v}

/-- The slices the tiers are assigned, in the order of the tiers. -/
def tierWalk (count : τ → List κ → Nat) : List τ → List κ → List (τ × List κ)
  | [], _ => []
  | t :: ts, keys =>
    if count t keys = 0 then tierWalk count ts keys
    else (t, keys.take (count t keys)) :: tierWalk count ts (keys.drop (count t keys))

/-- How many keys the tiers are assigned in all. -/
def tierTotal (count : τ → List κ → Nat) : List τ → List κ → Nat
  | [], _ => 0
  | t :: ts, keys => count t keys + tierTotal count ts (keys.drop (count t keys))

/-- `slices` splits the first `total` of the keys among the tiers, consecutively and in their order,
and each tier holds what it is assigned. -/
structure TierPartition (holds : τ → κ → Prop) (tiers : List τ) (keys : List κ) (total : Nat)
    (slices : List (τ × List κ)) : Prop where
  /-- No tier is assigned two slices, and the slices follow the order of the tiers. -/
  order : (slices.map Prod.fst).Sublist tiers
  /-- One slice after the other, they are the first of the keys. -/
  tiles : slices.flatMap Prod.snd = keys.take total
  total_le : total ≤ keys.length
  nonempty : ∀ s ∈ slices, s.2 ≠ []
  held : ∀ s ∈ slices, ∀ key ∈ s.2, holds s.1 key

/-- A count never says more than there are keys, and the keys it counts are held. -/
structure CountsHeld (holds : τ → κ → Prop) (count : τ → List κ → Nat) (t : τ) : Prop where
  le : ∀ keys : List κ, count t keys ≤ keys.length
  held : ∀ keys : List κ, ∀ key ∈ keys.take (count t keys), holds t key

variable {count : τ → List κ → Nat} {holds : τ → κ → Prop} {tiers : List τ}

variable {keys : List κ}

theorem tierWalk_cons_of_eq_zero {t : τ} (h : count t keys = 0) (ts : List τ) :
    tierWalk count (t :: ts) keys = tierWalk count ts keys := if_pos h

theorem tierWalk_cons_of_ne_zero {t : τ} (h : count t keys ≠ 0) (ts : List τ) :
    tierWalk count (t :: ts) keys =
      (t, keys.take (count t keys)) :: tierWalk count ts (keys.drop (count t keys)) := if_neg h

theorem tierTotal_cons_of_eq_zero {t : τ} (h : count t keys = 0) (ts : List τ) :
    tierTotal count (t :: ts) keys = tierTotal count ts keys := by
  show count t keys + tierTotal count ts (keys.drop (count t keys)) = _
  rw [h, List.drop_zero, Nat.zero_add]

theorem flatMap_snd_tierWalk (tiers : List τ) (keys : List κ) :
    (tierWalk count tiers keys).flatMap Prod.snd = keys.take (tierTotal count tiers keys) := by
  induction tiers generalizing keys with
  | nil => rfl
  | cons t ts ih =>
    by_cases hzero : count t keys = 0
    · rw [tierWalk_cons_of_eq_zero hzero, tierTotal_cons_of_eq_zero hzero]
      exact ih keys
    · rw [tierWalk_cons_of_ne_zero hzero, List.flatMap_cons, ih]
      exact List.take_add.symm

theorem map_fst_tierWalk_sublist (tiers : List τ) (keys : List κ) :
    ((tierWalk count tiers keys).map Prod.fst).Sublist tiers := by
  induction tiers generalizing keys with
  | nil => exact List.Sublist.slnil
  | cons t ts ih =>
    by_cases hzero : count t keys = 0
    · rw [tierWalk_cons_of_eq_zero hzero]
      exact (ih keys).cons t
    · rw [tierWalk_cons_of_ne_zero hzero]
      exact (ih _).cons_cons t

theorem tierTotal_le (h : ∀ t ∈ tiers, ∀ keys, count t keys ≤ keys.length) (keys : List κ) :
    tierTotal count tiers keys ≤ keys.length := by
  induction tiers generalizing keys with
  | nil => exact Nat.zero_le _
  | cons t ts ih =>
    have hfirst := h t List.mem_cons_self keys
    have hrest := ih (fun t ht => h t (List.mem_cons_of_mem _ ht)) (keys.drop (count t keys))
    rw [List.length_drop] at hrest
    show count t keys + tierTotal count ts _ ≤ _
    omega

theorem mem_tierWalk (h : ∀ t ∈ tiers, CountsHeld holds count t) (keys : List κ) :
    ∀ s ∈ tierWalk count tiers keys, s.2 ≠ [] ∧ ∀ key ∈ s.2, holds s.1 key := by
  induction tiers generalizing keys with
  | nil => simp [tierWalk]
  | cons t ts ih =>
    have ih := ih fun t ht => h t (List.mem_cons_of_mem _ ht)
    have hfirst := h t List.mem_cons_self
    by_cases hzero : count t keys = 0
    · rw [tierWalk_cons_of_eq_zero hzero]
      exact ih keys
    · rw [tierWalk_cons_of_ne_zero hzero, List.forall_mem_cons]
      refine ⟨⟨?_, hfirst.held keys⟩, ih _⟩
      -- the tier counted at least one of the keys
      have hle := hfirst.le keys
      apply List.ne_nil_of_length_pos
      rw [List.length_take]
      omega

/-- **The walk splits a prefix of the keys among the tiers that hold them.** -/
theorem tierPartition_tierWalk (h : ∀ t ∈ tiers, CountsHeld holds count t) (keys : List κ) :
    TierPartition holds tiers keys (tierTotal count tiers keys) (tierWalk count tiers keys) where
  order := map_fst_tierWalk_sublist tiers keys
  tiles := flatMap_snd_tierWalk tiers keys
  total_le := tierTotal_le (fun t ht => (h t ht).le) keys
  nonempty := fun s hs => (mem_tierWalk h keys s hs).1
  held := fun s hs => (mem_tierWalk h keys s hs).2

/-! ## Other names for tiers and keys -/

variable {τ' : Type w}

/-- A partition by tiers is one by their names. -/
theorem TierPartition.mapTiers {holds' : τ' → κ → Prop} {total : Nat} {slices : List (τ × List κ)}
    (h : TierPartition holds tiers keys total slices) (f : τ → τ')
    (hholds : ∀ t ∈ tiers, ∀ key, holds t key → holds' (f t) key) :
    TierPartition holds' (tiers.map f) keys total (slices.map fun s => (f s.1, s.2)) where
  order := by
    have hmap := h.order.map f
    rw [List.map_map] at hmap ⊢
    exact hmap
  tiles := by rw [List.flatMap_map]; exact h.tiles
  total_le := h.total_le
  nonempty := by
    rw [List.forall_mem_map]
    exact h.nonempty
  held := by
    rw [List.forall_mem_map]
    intro s hs key hkey
    have htier : s.1 ∈ tiers := h.order.subset (List.mem_map_of_mem hs)
    exact hholds s.1 htier key (h.held s hs key hkey)

/-- A walk over things that each have a key, and are counted by it, is the walk over their keys. -/
theorem map_tierWalk {ι : Type w} {countOf : τ → List ι → Nat} (key : ι → κ)
    (hcount : ∀ t infos, countOf t infos = count t (infos.map key)) (tiers : List τ)
    (infos : List ι) :
    (tierWalk countOf tiers infos).map (fun s => (s.1, s.2.map key)) =
      tierWalk count tiers (infos.map key) := by
  induction tiers generalizing infos with
  | nil => rfl
  | cons t ts ih =>
    have hfirst := hcount t infos
    by_cases hzero : count t (infos.map key) = 0
    · rw [tierWalk_cons_of_eq_zero hzero, tierWalk_cons_of_eq_zero (hfirst.trans hzero)]
      exact ih infos
    · rw [tierWalk_cons_of_ne_zero hzero, tierWalk_cons_of_ne_zero (hfirst ▸ hzero), List.map_cons,
        ih, hfirst, List.map_take, List.map_drop]

theorem tierTotal_map {ι : Type w} {countOf : τ → List ι → Nat} (key : ι → κ)
    (hcount : ∀ t infos, countOf t infos = count t (infos.map key)) (tiers : List τ)
    (infos : List ι) : tierTotal countOf tiers infos = tierTotal count tiers (infos.map key) := by
  induction tiers generalizing infos with
  | nil => rfl
  | cons t ts ih =>
    show countOf t infos + tierTotal countOf ts _ = count t _ + tierTotal count ts _
    rw [hcount, ih, List.map_drop]

end LMCache.Lib
