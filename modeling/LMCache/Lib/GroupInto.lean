/-
# LMCache.Lib.GroupInto — the members of a list, grouped by a key.

What a loop makes of a `defaultdict(list)` that appends each member of a list to the group of its
key: the groups have the members of their keys, in their order, and together they are the list.
-/
import LMCache.Lib.Dict

namespace LMCache.Lib

variable {α β κ : Type} [DecidableEq κ] (key : α → κ) (value : α → β) (l : List α)

/-- `groups[key(a)].append(value(a))`, for each member in turn. -/
def groupInto : Dict κ (List β) :=
  l.foldl (fun d a => d.set (key a) ((d.get? (key a)).getD [] ++ [value a])) .empty

theorem groupInto_concat (a : α) : groupInto key value (l ++ [a]) =
    (groupInto key value l).set (key a)
      (((groupInto key value l).get? (key a)).getD [] ++ [value a]) := by
  unfold groupInto
  rw [List.foldl_append, List.foldl_cons, List.foldl_nil]

/-- **A group has the members of its key**, in their order. -/
theorem getD_groupInto (k : κ) : ((groupInto key value l).get? k).getD [] =
    (l.filter fun a => key a = k).map value := by
  induction l using List.reverseRecOn with
  | nil => rfl
  | append_singleton l a ih =>
    rw [groupInto_concat, Dict.get?_set, List.filter_append, List.map_append, ← ih]
    by_cases hk : k = key a
    · subst hk
      simp
    · simp [hk, Ne.symm hk]

/-- No group is empty. -/
theorem ne_nil_of_groupInto {k : κ} {vs : List β} (h : (groupInto key value l).get? k = some vs) :
    vs ≠ [] := by
  induction l using List.reverseRecOn with
  | nil => cases h
  | append_singleton l a ih =>
    rw [groupInto_concat, Dict.get?_set] at h
    split at h
    · cases h
      simp
    · exact ih h

theorem groupInto_eq_some {k : κ} {vs : List β} (h : (groupInto key value l).get? k = some vs) :
    vs = (l.filter fun a => key a = k).map value := by
  rw [← getD_groupInto, h, Option.getD_some]

/-- **The groups together are the list**, each member with its key. -/
theorem flatMap_groupInto_perm : ((groupInto key value l).entries.flatMap fun e =>
    e.2.map fun v => (e.1, v)).Perm (l.map fun a => (key a, value a)) := by
  induction l using List.reverseRecOn with
  | nil => exact .refl _
  | append_singleton l a ih =>
    rw [groupInto_concat, List.map_append, List.map_singleton]
    generalize groupInto key value l = d at ih
    let pairs (e : κ × List β) : List (κ × β) := e.2.map fun v => (e.1, v)
    -- the group of the new member, and the other groups
    have hold : (d.entries.flatMap pairs).Perm
        (pairs (key a, (d.get? (key a)).getD []) ++ (d.erase (key a)).entries.flatMap pairs) := by
      cases hget : d.get? (key a) with
      | none =>
        have hall : (d.erase (key a)).entries = d.entries := by
          refine List.filter_eq_self.mpr fun e he => decide_eq_true fun h => ?_
          exact Dict.get?_eq_none.mp hget (Dict.mem_iff_get?.mpr ⟨e.2, h ▸ Dict.get?_eq_some.mpr he⟩)
        rw [hall]
        exact .refl _
      | some vs => exact (Dict.entries_perm_erase hget).flatMap_right pairs
    have hset := (Dict.entries_perm_erase (d := d.set (key a)
      ((d.get? (key a)).getD [] ++ [value a])) (k := key a)
      (by rw [Dict.get?_set, if_pos rfl])).flatMap_right pairs
    rw [Dict.entries_erase_set] at hset
    refine hset.trans ?_
    have hpairs : pairs (key a, (d.get? (key a)).getD [] ++ [value a]) =
        pairs (key a, (d.get? (key a)).getD []) ++ [(key a, value a)] := List.map_append
    rw [List.flatMap_cons, hpairs, List.append_assoc]
    refine (List.perm_append_comm_assoc _ _ _).trans (List.perm_append_comm.trans ?_)
    exact (hold.symm.trans ih).append_right _

/-- What the groups weigh, when the weight of a member depends on its key. -/
theorem sum_groupInto (w : κ → Nat) :
    ((groupInto key value l).entries.map fun e => e.2.length * w e.1).sum =
      (l.map fun a => w (key a)).sum := by
  have hsum := ((flatMap_groupInto_perm key value l).map fun p => w p.1).sum_nat
  rw [List.map_map, List.map_flatMap] at hsum
  rw [show (l.map fun a => w (key a)).sum = _ from hsum.symm]
  generalize (groupInto key value l).entries = es
  induction es with
  | nil => rfl
  | cons e es ih =>
    rw [List.map_cons, List.sum_cons, List.flatMap_cons, List.sum_append, ih, List.map_map]
    congr 1
    simp [Function.comp_def]

end LMCache.Lib
