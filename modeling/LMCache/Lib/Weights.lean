/-
# LMCache.Lib.Weights — sums of weights over a list and over a dictionary.

A counter that is kept up to date beside a collection is the sum of a weight over its members.  The
lemmas say how such a sum changes when one member is replaced, taken out or added; they are stated
as balances, without subtraction, so that they can be read in `ℕ` and in `ℤ` alike.  What they come
from is said first: a member of a list among the others.
-/
import LMCache.Lib.Dict
import Mathlib.Data.List.Perm.Basic

namespace LMCache.Lib

universe u v

variable {α : Type u}

/-! ## Lists -/

/-- A member of a list among the others, and what is among them when another is in its place. -/
theorem perm_set {l : List α} {i : Nat} {a : α} (h : l[i]? = some a) :
    ∃ others, l.Perm (a :: others) ∧ ∀ b, (l.set i b).Perm (b :: others) := by
  obtain ⟨hlt, rfl⟩ := List.getElem?_eq_some_iff.mp h
  exact ⟨l.eraseIdx i, (List.getElem_cons_eraseIdx_perm hlt).symm,
    fun b => List.set_perm_cons_eraseIdx hlt b⟩

/-- One place of a list is written. -/
theorem sum_map_set (w : α → Nat) {l : List α} {i : Nat} {a : α} (h : l[i]? = some a) (b : α) :
    ((l.set i b).map w).sum + w a = (l.map w).sum + w b := by
  obtain ⟨others, hl, hset⟩ := perm_set h
  rw [((hset b).map w).sum_eq, (hl.map w).sum_eq, List.map_cons, List.map_cons, List.sum_cons,
    List.sum_cons]
  omega

/-- One member of a list is taken out. -/
theorem sum_map_erase [BEq α] [LawfulBEq α] (w : α → Nat) {l : List α} {a : α} (h : a ∈ l) :
    ((l.erase a).map w).sum + w a = (l.map w).sum := by
  have hsum := ((List.perm_cons_erase h).map w).sum_eq
  rw [List.map_cons, List.sum_cons] at hsum
  omega

/-! ## Dictionaries -/

namespace Dict

variable {κ : Type u} {ν : Type v} [DecidableEq κ]

/-- The weights of the values of a dictionary. -/
def weight (w : ν → Nat) (d : Dict κ ν) : Nat := (d.entries.map fun e => w e.2).sum

variable (w : ν → Nat)

omit [DecidableEq κ] in
@[simp] theorem weight_empty : (empty : Dict κ ν).weight w = 0 := rfl

/-- A new key adds its weight. -/
theorem weight_set_of_notMem {d : Dict κ ν} {k : κ} (h : k ∉ d) (v : ν) :
    (d.set k v).weight w = d.weight w + w v := by
  unfold weight
  rw [entries_set_of_notMem h, List.map_append, List.sum_append]
  simp

/-- A key that is taken out takes its weight along. -/
theorem weight_erase (d : Dict κ ν) (k : κ) :
    (d.erase k).weight w + ((d.get? k).map w).getD 0 = d.weight w := by
  obtain ⟨es, hn⟩ := d
  unfold weight erase get?
  dsimp only
  induction es with
  | nil => rfl
  | cons e es ih =>
    have hn' : (es.map Prod.fst).Nodup := (List.nodup_cons.mp hn).2
    by_cases he : e.1 = k
    · have hrest : es.filter (fun e => e.1 ≠ k) = es := by
        rw [List.filter_eq_self]
        intro e' he'
        have hne : e'.1 ≠ k := fun h =>
          (List.nodup_cons.mp hn).1 (he ▸ h ▸ List.mem_map_of_mem he')
        simpa using hne
      rw [List.filter_cons_of_neg (by simpa using he), List.find?_cons_of_pos (by simpa using he),
        hrest, List.map_cons, List.sum_cons]
      exact Nat.add_comm _ _
    · have ih' := ih hn'
      rw [List.filter_cons_of_pos (by simpa using he), List.find?_cons_of_neg (by simpa using he),
        List.map_cons, List.map_cons, List.sum_cons, List.sum_cons]
      omega

/-- A value that is replaced by one of its weight changes nothing. -/
theorem weight_set_of_weight_eq {d : Dict κ ν} {k : κ} {v v' : ν} (h : d.get? k = some v)
    (hw : w v' = w v) : (d.set k v').weight w = d.weight w := by
  have hmem : k ∈ d := mem_iff_get?.mpr ⟨v, h⟩
  unfold weight set
  rw [dif_pos hmem]
  unfold replace
  rw [List.map_map]
  refine congrArg List.sum (List.map_congr_left fun e he => ?_)
  by_cases hk : e.1 = k
  · have hv : e.2 = v := by
      have he' : d.get? e.1 = some e.2 := get?_eq_some.mpr he
      rw [hk, h] at he'
      exact (Option.some.inj he').symm
    simp [hk, hv, hw]
  · simp [hk]

end Dict

end LMCache.Lib
