/-
# LMCache.Lib.Reads — batches of reads that may fail, and their consecutive prefix.

A batch of reads is a list of what was asked for, each with what the read gave.  Three lists are taken
from it: everything that was read (`hits`), what was read before the first failure (`hitPrefix`), and
what was read in spite of a failure before it (`behind`).  The first is the other two, one after the
other, so a caller that uses only the prefix is left with `behind` on its hands.

A caller may also split one batch into several and use the prefix of each.  What it then has is the
prefix of the whole and the `strays`: entries that are in the prefix of their own batch, but behind
the first failure of all.
-/
import Mathlib.Data.List.Basic
import Mathlib.Data.List.Pairwise

namespace LMCache.Lib

universe u v

/-- What was asked for, each with what the read gave. -/
abbrev Reads (α : Type u) (β : Type v) := List (α × Option β)

namespace Reads

variable {α : Type u} {β : Type v}

/-! ## One batch -/

/-- Everything that was read. -/
def hits : Reads α β → List (α × β)
  | [] => []
  | (_, none) :: l => hits l
  | (a, some b) :: l => (a, b) :: hits l

/-- What was read before the first failure. -/
def hitPrefix : Reads α β → List (α × β)
  | [] => []
  | (_, none) :: _ => []
  | (a, some b) :: l => (a, b) :: hitPrefix l

/-- What was read behind the first failure. -/
def behind : Reads α β → List (α × β)
  | [] => []
  | (_, none) :: l => hits l
  | (_, some _) :: l => behind l

/-- The first entry that could not be read. -/
def firstMiss : Reads α β → Option α
  | [] => none
  | (a, none) :: _ => some a
  | (_, some _) :: l => firstMiss l

/-- Everything read is the prefix, and then what was read behind the first failure. -/
theorem hits_eq_append (l : Reads α β) : hits l = hitPrefix l ++ behind l := by
  induction l with
  | nil => rfl
  | cons p l ih =>
    rcases p with ⟨a, _ | b⟩
    · rfl
    · simp only [hits, hitPrefix, behind, ih, List.cons_append]

theorem firstMiss_append (l l' : Reads α β) :
    firstMiss (l ++ l') = (firstMiss l).or (firstMiss l') := by
  induction l with
  | nil => rfl
  | cons p l ih =>
    rcases p with ⟨a, _ | b⟩
    · rfl
    · exact ih

variable {l : Reads α β} {ls : List (Reads α β)}

theorem hitPrefix_append_of_complete (h : firstMiss l = none) (l' : Reads α β) :
    hitPrefix (l ++ l') = hitPrefix l ++ hitPrefix l' := by
  induction l with
  | nil => rfl
  | cons p l ih =>
    rcases p with ⟨a, _ | b⟩
    · cases h
    · simp only [List.cons_append, hitPrefix, ih h]

theorem hitPrefix_append_of_miss (h : firstMiss l ≠ none) (l' : Reads α β) :
    hitPrefix (l ++ l') = hitPrefix l := by
  induction l with
  | nil => exact absurd rfl h
  | cons p l ih =>
    rcases p with ⟨a, _ | b⟩
    · rfl
    · simp only [List.cons_append, hitPrefix, ih h]

/-- Entries that were not read at all add nothing. -/
theorem hitPrefix_append_unread (l : Reads α β) (as : List α) :
    hitPrefix (l ++ as.map fun a => (a, none)) = hitPrefix l := by
  induction l with
  | nil => cases as <;> rfl
  | cons p l ih =>
    rcases p with ⟨a, _ | b⟩
    · rfl
    · simp only [List.cons_append, hitPrefix, ih]

theorem hitPrefix_sublist_hits (l : Reads α β) : (hitPrefix l).Sublist (hits l) := by
  rw [hits_eq_append]
  exact List.sublist_append_left _ _

/-- The entries of the prefix are the first ones that were asked for. -/
theorem prefix_map_fst_hitPrefix (l : Reads α β) :
    (hitPrefix l).map Prod.fst <+: l.map Prod.fst := by
  induction l with
  | nil => exact List.prefix_refl _
  | cons p l ih =>
    rcases p with ⟨a, _ | b⟩
    · exact List.nil_prefix
    · simpa only [hitPrefix, List.map_cons, List.prefix_cons_inj] using ih

/-- **Where the prefix ends.**  A batch with a failure splits at the first one. -/
theorem eq_append_of_firstMiss {a : α} (h : firstMiss l = some a) :
    ∃ pre post, l = pre ++ (a, none) :: post ∧ firstMiss pre = none ∧
      hitPrefix l = hits pre ∧ behind l = hits post := by
  induction l with
  | nil => cases h
  | cons p l ih =>
    rcases p with ⟨c, _ | b⟩
    · cases h
      exact ⟨[], l, rfl, rfl, rfl, rfl⟩
    · obtain ⟨pre, post, rfl, hpre, hp, hb⟩ := ih h
      exact ⟨(c, some b) :: pre, post, rfl, hpre, congrArg ((c, b) :: ·) hp, hb⟩

/-! ## Several batches -/

/-- The entries that are in the prefix of their own batch, but behind the first failure of all. -/
def strays : List (Reads α β) → List (α × β)
  | [] => []
  | l :: ls => if (firstMiss l).isNone then strays ls else ls.flatMap hitPrefix

/-- The first failure of the last batch that has one. -/
def lastMiss (ls : List (Reads α β)) : Option α := (ls.filterMap firstMiss).getLast?

/-- The prefixes of the batches are the prefix of the whole, and then the strays. -/
theorem flatMap_hitPrefix (ls : List (Reads α β)) :
    ls.flatMap hitPrefix = hitPrefix ls.flatten ++ strays ls := by
  induction ls with
  | nil => rfl
  | cons l ls ih =>
    rw [List.flatMap_cons, List.flatten_cons, strays]
    cases h : firstMiss l with
    | none => simp only [Option.isNone_none, if_pos, hitPrefix_append_of_complete h, ih,
        List.append_assoc]
    | some a =>
      have hne : firstMiss l ≠ none := h ▸ Option.some_ne_none a
      rw [hitPrefix_append_of_miss hne]
      rfl

theorem lastMiss_eq_none : lastMiss ls = none ↔ ∀ l ∈ ls, firstMiss l = none := by
  unfold lastMiss
  rw [List.getLast?_eq_none_iff, List.filterMap_eq_nil_iff]

theorem strays_eq_nil_of_complete (h : lastMiss ls = none) : strays ls = [] := by
  rw [lastMiss_eq_none] at h
  induction ls with
  | nil => rfl
  | cons l ls ih =>
    rw [List.forall_mem_cons] at h
    rw [strays, h.1]
    exact ih h.2

theorem flatMap_hitPrefix_sublist_hits (ls : List (Reads α β)) :
    (ls.flatMap hitPrefix).Sublist (ls.flatMap hits) := by
  induction ls with
  | nil => exact List.Sublist.slnil
  | cons l ls ih =>
    rw [List.flatMap_cons, List.flatMap_cons]
    exact (hitPrefix_sublist_hits l).append ih

/-- The prefixes of the batches are all that was read just when nothing was read behind a failure of
its own batch. -/
theorem flatMap_hitPrefix_eq_flatMap_hits :
    ls.flatMap hitPrefix = ls.flatMap hits ↔ ∀ l ∈ ls, behind l = [] := by
  induction ls with
  | nil => simp
  | cons l ls ih =>
    rw [List.flatMap_cons, List.flatMap_cons, List.forall_mem_cons, hits_eq_append, ← ih]
    constructor
    · intro h
      rw [List.append_assoc, List.append_cancel_left_eq] at h
      -- the prefixes of the other batches are too short to make up for anything behind a failure
      have hle := (flatMap_hitPrefix_sublist_hits ls).length_le
      have hlen := congrArg List.length h
      rw [List.length_append] at hlen
      have hnil : behind l = [] := List.eq_nil_of_length_eq_zero (by omega)
      rw [hnil, List.nil_append] at h
      exact ⟨hnil, h⟩
    · rintro ⟨hl, hls⟩
      rw [hl, hls, List.append_nil]

/-- A filter on the prefixes of the batches that leaves the prefix of the whole takes out the strays and
nothing else. -/
theorem filter_flatMap_hitPrefix_eq {p : α × β → Bool} :
    (ls.flatMap hitPrefix).filter p = hitPrefix ls.flatten ↔
      (∀ c ∈ hitPrefix ls.flatten, p c = true) ∧ ∀ c ∈ strays ls, ¬ p c = true := by
  rw [flatMap_hitPrefix]
  constructor
  · intro h
    have hrun : ∀ c ∈ hitPrefix ls.flatten, p c = true := by
      intro c hc
      rw [← h] at hc
      exact (List.mem_filter.mp hc).2
    rw [List.filter_append, List.filter_eq_self.mpr hrun, List.append_right_eq_self] at h
    exact ⟨hrun, List.filter_eq_nil_iff.mp h⟩
  · rintro ⟨hrun, hstray⟩
    rw [List.filter_append, List.filter_eq_self.mpr hrun, List.filter_eq_nil_iff.mpr hstray,
      List.append_nil]

/-- The first failures of the batches are some of the entries that were asked for. -/
theorem filterMap_firstMiss_sublist (ls : List (Reads α β)) :
    (ls.filterMap firstMiss).Sublist (ls.flatten.map Prod.fst) := by
  induction ls with
  | nil => exact List.Sublist.slnil
  | cons l ls ih =>
    rw [List.flatten_cons, List.map_append]
    cases h : firstMiss l with
    | none =>
      rw [List.filterMap_cons_none h]
      exact ih.trans (List.sublist_append_right _ _)
    | some a =>
      obtain ⟨pre, post, rfl, -⟩ := eq_append_of_firstMiss h
      rw [List.filterMap_cons_some h]
      have ha : [a].Sublist ((pre ++ (a, none) :: post).map Prod.fst) := by simp
      exact ha.append ih

/-- The prefixes of the batches, in order, are some of the entries that were asked for. -/
theorem flatMap_hitPrefix_sublist (ls : List (Reads α β)) :
    ((ls.flatMap hitPrefix).map Prod.fst).Sublist (ls.flatten.map Prod.fst) := by
  induction ls with
  | nil => exact List.Sublist.slnil
  | cons l ls ih =>
    rw [List.flatMap_cons, List.flatten_cons, List.map_append, List.map_append]
    exact ((prefix_map_fst_hitPrefix l).sublist).append ih

end Reads

end LMCache.Lib
