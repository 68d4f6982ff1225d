/-
# LMCache.Lib.Ledger — a ledger of keys that are reserved first and owned later.

A key is *marked* while its object is being looked for, *pooled* once its reservation has an object,
and *owned* once the reservation is committed; an object that has been *taken* for a reservation has
no key yet.  A set says which keys are reserved.  The books are in order when no key and no object
stands in two places, the set holds exactly the marked and the pooled keys, and every object is one
that is there.

The entries are kept up to order, as the lists stand for what several dictionaries hold together.
The moves below are the only ones: a key is marked, an object is taken, a reservation is confirmed,
then committed, and an entry or the whole ledger is dropped.
-/
import Mathlib.Data.Finset.Basic
import Mathlib.Data.List.Perm.Basic
import Mathlib.Data.Finset.Filter

namespace LMCache.Lib

universe u v

variable {κ : Type u} {ι : Type v}

/-- The books are in order. -/
structure Ledger (owned pooled : List (κ × ι)) (marked : List κ) (taken : List ι)
    (reserved : Finset κ) (there : ι → Prop) : Prop where
  keys : (owned.map Prod.fst ++ (pooled.map Prod.fst ++ marked)).Nodup
  objects : (owned.map Prod.snd ++ (pooled.map Prod.snd ++ taken)).Nodup
  reserved : ∀ key, key ∈ reserved ↔ key ∈ pooled.map Prod.fst ++ marked
  there : ∀ i ∈ owned.map Prod.snd ++ (pooled.map Prod.snd ++ taken), there i

namespace Ledger

variable {owned owned' pooled pooled' pairs : List (κ × ι)} {marked marked' : List κ}
  {taken taken' : List ι} {reserved : Finset κ} {there there' : ι → Prop} {key : κ}

theorem nil : Ledger ([] : List (κ × ι)) [] [] [] ∅ there where
  keys := List.nodup_nil
  objects := List.nodup_nil
  reserved := by simp
  there := by simp

theorem perm (h : Ledger owned pooled marked taken reserved there) (ho : owned.Perm owned')
    (hp : pooled.Perm pooled') (hm : marked.Perm marked') (ht : taken.Perm taken') :
    Ledger owned' pooled' marked' taken' reserved there := by
  have hkeys := (ho.map Prod.fst).append ((hp.map Prod.fst).append hm)
  have hobjs := (ho.map Prod.snd).append ((hp.map Prod.snd).append ht)
  refine ⟨hkeys.nodup_iff.mp h.keys, hobjs.nodup_iff.mp h.objects, ?_, ?_⟩
  · intro key
    rw [h.reserved, ((hp.map Prod.fst).append hm).mem_iff]
  · intro i hi
    exact h.there i (hobjs.mem_iff.mpr hi)

/-- The objects are there in another way. -/
theorem mono (h : Ledger owned pooled marked taken reserved there)
    (hthere : ∀ i ∈ owned.map Prod.snd ++ (pooled.map Prod.snd ++ taken), there i → there' i) :
    Ledger owned pooled marked taken reserved there' :=
  ⟨h.keys, h.objects, h.reserved, fun i hi => hthere i hi (h.there i hi)⟩

/-- A reserved key is nobody's. -/
theorem notMem_owned (h : Ledger owned pooled marked taken reserved there) (hkey : key ∈ reserved) :
    key ∉ owned.map Prod.fst := by
  intro howned
  have hdisj := (List.nodup_append.mp h.keys).2.2
  exact hdisj key howned key ((h.reserved key).mp hkey) rfl

/-! ## The moves -/

/-- A key that is neither owned nor reserved is marked. -/
theorem mark [DecidableEq κ] (h : Ledger owned pooled marked taken reserved there)
    (howned : key ∉ owned.map Prod.fst) (hreserved : key ∉ reserved) :
    Ledger owned pooled (key :: marked) taken (insert key reserved) there := by
  have hnot : key ∉ owned.map Prod.fst ++ (pooled.map Prod.fst ++ marked) := by
    rw [List.mem_append, not_or]
    exact ⟨howned, fun hin => hreserved ((h.reserved key).mpr hin)⟩
  have hperm : (owned.map Prod.fst ++ (pooled.map Prod.fst ++ key :: marked)).Perm
      (key :: (owned.map Prod.fst ++ (pooled.map Prod.fst ++ marked))) :=
    (List.Perm.append_left _ List.perm_middle).trans List.perm_middle
  refine ⟨hperm.nodup_iff.mpr (List.nodup_cons.mpr ⟨hnot, h.keys⟩), h.objects, ?_, h.there⟩
  intro key'
  rw [Finset.mem_insert, h.reserved, List.perm_middle.mem_iff, List.mem_cons]

/-- Objects nobody has are taken. -/
theorem take (h : Ledger owned pooled marked taken reserved there) {objects : List ι}
    (hnodup : objects.Nodup) (hthere : ∀ i ∈ objects, there i)
    (hnew : ∀ i ∈ objects, i ∉ owned.map Prod.snd ++ (pooled.map Prod.snd ++ taken)) :
    Ledger owned pooled marked (objects ++ taken) reserved there := by
  have hperm : (owned.map Prod.snd ++ (pooled.map Prod.snd ++ (objects ++ taken))).Perm
      (objects ++ (owned.map Prod.snd ++ (pooled.map Prod.snd ++ taken))) := by
    have hpooled : (pooled.map Prod.snd ++ (objects ++ taken)).Perm
        (objects ++ (pooled.map Prod.snd ++ taken)) := List.perm_append_comm_assoc _ _ _
    exact (hpooled.append_left _).trans (List.perm_append_comm_assoc _ _ _)
  refine ⟨h.keys, hperm.nodup_iff.mpr ?_, h.reserved, ?_⟩
  · rw [List.nodup_append]
    refine ⟨hnodup, h.objects, ?_⟩
    rintro i hi j hj rfl
    exact hnew i hi hj
  · intro i hi
    rcases List.mem_append.mp (hperm.mem_iff.mp hi) with hi | hi
    · exact hthere i hi
    · exact h.there i hi

/-- The marked keys of a reservation get the objects taken for it. -/
theorem confirm
    (h : Ledger owned pooled (pairs.map Prod.fst ++ marked) (pairs.map Prod.snd ++ taken) reserved
      there) : Ledger owned (pooled ++ pairs) marked taken reserved there := by
  refine ⟨?_, ?_, ?_, ?_⟩
  · rw [List.map_append, List.append_assoc]
    exact h.keys
  · rw [List.map_append, List.append_assoc]
    exact h.objects
  · rw [List.map_append, List.append_assoc]
    exact h.reserved
  · rw [List.map_append, List.append_assoc]
    exact h.there

/-- A pooled reservation becomes owned. -/
theorem commit [DecidableEq κ] (h : Ledger owned (pairs ++ pooled) marked taken reserved there) :
    Ledger (owned ++ pairs) pooled marked taken
      (reserved.filter fun key => key ∉ pairs.map Prod.fst) there := by
  have hkeys := h.keys
  have hobjects := h.objects
  have hthere := h.there
  simp only [List.map_append, List.append_assoc] at hkeys hobjects hthere
  refine ⟨?_, ?_, ?_, ?_⟩
  · simpa only [List.map_append, List.append_assoc] using hkeys
  · simpa only [List.map_append, List.append_assoc] using hobjects
  · intro key
    have hdisj := (List.nodup_append.mp (List.nodup_append.mp hkeys).2.1).2.2
    rw [Finset.mem_filter, h.reserved, List.map_append, List.append_assoc, List.mem_append]
    constructor
    · rintro ⟨hpair | hrest, hnot⟩
      · exact absurd hpair hnot
      · exact hrest
    · intro hrest
      exact ⟨.inr hrest, fun hpair => hdisj key hpair key hrest rfl⟩
  · simpa only [List.map_append, List.append_assoc] using hthere

/-- An owned entry is dropped, and whatever else was there still is. -/
theorem drop {e : κ × ι} (h : Ledger (e :: owned) pooled marked taken reserved there)
    (hthere : ∀ i, i ≠ e.2 → there i → there' i) :
    Ledger owned pooled marked taken reserved there' := by
  have hobjects := List.nodup_cons.mp h.objects
  refine ⟨(List.nodup_cons.mp h.keys).2, hobjects.2, h.reserved, ?_⟩
  intro i hi
  apply hthere i
  · rintro rfl
    exact hobjects.1 hi
  · exact h.there i (List.mem_cons_of_mem _ hi)

end Ledger

end LMCache.Lib
