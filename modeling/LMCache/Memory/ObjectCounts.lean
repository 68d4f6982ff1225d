/-
# LMCache.Memory.ObjectCounts — the counters of a pool as two families of numbers.

Source: `v1/memory_management.py`, `ref_count_up`, `ref_count_down`, `pin` and `unpin` of
`TensorMemoryObj`.

The counters of an object are integers that are set back to 0 when they fall below it, so on the
objects of a pool they are natural numbers.  What the four methods do to them is what `raise` and
`lower` do: that is all the loops over objects need to know of a pool.
-/
import LMCache.Lib.Counts
import LMCache.Memory.MixedAllocator

namespace LMCache.Memory

open LMCache.Lib

/-- The reference count and the pin count. -/
def TensorMemoryObj.counters (o : TensorMemoryObj) : Int × Int :=
  (o.metadata.refCount, o.metadata.pinCount)

namespace ObjectPool

def counters (s : ObjectPool) : List (Int × Int) := s.objs.map TensorMemoryObj.counters

def refCounts (s : ObjectPool) (i : Nat) : Nat := (s.counters[i]?.map fun c => c.1.toNat).getD 0

def pinCounts (s : ObjectPool) (i : Nat) : Nat := (s.counters[i]?.map fun c => c.2.toNat).getD 0

/-- No counter is below 0. -/
def Counted (s : ObjectPool) : Prop := ∀ c ∈ s.counters, 0 ≤ c.1 ∧ 0 ≤ c.2

instance (s : ObjectPool) : Decidable s.Counted := inferInstanceAs (Decidable (∀ c ∈ _, _))

@[simp] theorem length_counters (s : ObjectPool) : s.counters.length = s.objs.length :=
  List.length_map _

/-! ## One method, one entry -/

variable {g : Int × Int → Int × Int} {objs : List TensorMemoryObj}

theorem counters_set {i : Nat} {o o' : TensorMemoryObj} (hget : objs[i]? = some o)
    (h : o'.counters = g o.counters) :
    (objs.set i o').map TensorMemoryObj.counters =
      (objs.map TensorMemoryObj.counters).modify i g := by
  rw [List.map_set, h, List.modify_eq_set_getElem?, List.getElem?_map, hget]
  rfl

theorem counters_modify_of_none {i : Nat} (hget : objs[i]? = none) :
    objs.map TensorMemoryObj.counters = (objs.map TensorMemoryObj.counters).modify i g := by
  rw [List.modify_eq_set_getElem?, List.getElem?_map, hget]
  rfl

theorem counters_updateObj (s : ObjectPool) (i : Nat) {f : TensorMemoryObj → TensorMemoryObj}
    (h : ∀ o : TensorMemoryObj, (f o).counters = g o.counters) :
    (s.updateObj i f).counters = s.counters.modify i g := by
  unfold updateObj
  cases hget : s.objs[i]? with
  | none => exact counters_modify_of_none hget
  | some o => exact counters_set hget (h o)

/-- Giving memory back leaves the counters alone. -/
theorem counters_free (s : ObjectPool) (i : Nat) : (s.free i).counters = s.counters := by
  unfold free
  cases hget : s.objs[i]? with
  | none => rfl
  | some o =>
    have hset : (s.objs.set i (s.allocator.free o).2).map TensorMemoryObj.counters =
        (s.objs.map TensorMemoryObj.counters).modify i id := by
      apply counters_set hget
      unfold TensorMemoryAllocator.free
      split <;> rfl
    rw [List.modify_id] at hset
    exact hset

theorem counters_decrement (s : ObjectPool) (i : Nat) {f : TensorMemoryObj → TensorMemoryObj × Bool}
    (h : ∀ o : TensorMemoryObj, (f o).1.counters = g o.counters) :
    (s.decrement i f).counters = s.counters.modify i g := by
  unfold decrement
  cases hget : s.objs[i]? with
  | none => exact counters_modify_of_none hget
  | some o =>
    have hset := counters_set hget (h o)
    dsimp only
    split
    · rw [counters_free]
      exact hset
    · exact hset

theorem counters_unpin (s : ObjectPool) (i : Nat) :
    (s.unpin i).counters = s.counters.modify i fun c => (c.1, if c.2 - 1 < 0 then 0 else c.2 - 1) := by
  unfold unpin
  rw [counters_updateObj (g := fun c => (c.1, if c.2 < 0 then 0 else c.2)),
    counters_decrement (g := fun c => (c.1, c.2 - 1)), List.modify_modify_eq]
  · rfl
  · intro o
    rfl
  · intro o
    unfold TensorMemoryObj.unpinClamp
    by_cases hneg : o.metadata.pinCount < 0
    · rw [if_pos hneg]
      simp [TensorMemoryObj.counters, TensorMemoryObj.setPinCount, hneg]
    · rw [if_neg hneg]
      simp [TensorMemoryObj.counters, hneg]

/-! ## The two families -/

/-- The pool has so many objects, and these counters. -/
structure HasCounts (s : ObjectPool) (numObjs : Nat) (refs pins : Nat → Nat) : Prop where
  refs : s.refCounts = refs
  pins : s.pinCounts = pins
  counted : s.Counted
  length : s.objs.length = numObjs

theorem Counted.hasCounts {s : ObjectPool} (h : s.Counted) :
    s.HasCounts s.objs.length s.refCounts s.pinCounts := ⟨rfl, rfl, h, rfl⟩

namespace HasCounts

variable {s s' : ObjectPool} {n : Nat} {refs pins : Nat → Nat} {i : Nat}

/-- One family, when one entry changes by `g` and its number by `u`. -/
theorem family_modify {l : List (Int × Int)} {f : Int × Int → Nat} {g : Int × Int → Int × Int}
    {u : Nat → Nat} (hg : ∀ c ∈ l[i]?, f (g c) = u (f c)) (hnone : l[i]? = none → u 0 = 0) :
    (fun j => ((l.modify i g)[j]?.map f).getD 0) =
      Function.update (fun j => (l[j]?.map f).getD 0) i (u ((l[i]?.map f).getD 0)) := by
  funext j
  rw [List.getElem?_modify, Function.update_apply]
  by_cases h : j = i
  · subst h
    rw [if_pos rfl]
    cases hget : l[j]? with
    | none =>
      rw [hget] at hnone
      exact (hnone rfl).symm
    | some c => simpa using hg c hget
  · rw [if_neg h]
    cases l[j]? <;> simp [Ne.symm h]

/-- **One method**: an entry changes by `g` and `k`, and these are `u` and `v` on numbers. -/
theorem of_modify (h : s.HasCounts n refs pins) {g k : Int → Int} {u v : Nat → Nat}
    (hs : s'.counters = s.counters.modify i (Prod.map g k)) (hr : ∀ x : Nat, g x = u x)
    (hp : ∀ x : Nat, k x = v x) (hi : i < n ∨ u 0 = 0 ∧ v 0 = 0) :
    s'.HasCounts n (Function.update refs i (u (refs i))) (Function.update pins i (v (pins i))) := by
  have hnone : s.counters[i]? = none → u 0 = 0 ∧ v 0 = 0 := by
    intro hget
    rw [List.getElem?_eq_none_iff, length_counters, h.length] at hget
    exact hi.resolve_left (Nat.not_lt.mpr hget)
  have hnat : ∀ c ∈ s.counters, g c.1 = u c.1.toNat ∧ k c.2 = v c.2.toNat := by
    intro c hc
    obtain ⟨hc1, hc2⟩ := h.counted c hc
    rw [← hr, ← hp, Int.toNat_of_nonneg hc1, Int.toNat_of_nonneg hc2]
    exact ⟨rfl, rfl⟩
  constructor
  case refs =>
    rw [← h.refs]
    unfold refCounts
    rw [hs]
    apply family_modify
    · intro c hc
      rw [Prod.map_fst, (hnat c (List.mem_of_getElem? hc)).1, Int.toNat_natCast]
    · exact fun hget => (hnone hget).1
  case pins =>
    rw [← h.pins]
    unfold pinCounts
    rw [hs]
    apply family_modify
    · intro c hc
      rw [Prod.map_snd, (hnat c (List.mem_of_getElem? hc)).2, Int.toNat_natCast]
    · exact fun hget => (hnone hget).2
  case counted =>
    intro c hc
    rw [hs] at hc
    obtain ⟨j, hj⟩ := List.mem_iff_getElem?.mp hc
    rw [List.getElem?_modify] at hj
    obtain ⟨a, ha, rfl⟩ := Option.map_eq_some_iff.mp hj
    have hmem := List.mem_of_getElem? ha
    split
    · rw [Prod.map_fst, Prod.map_snd, (hnat a hmem).1, (hnat a hmem).2]
      omega
    · exact h.counted a hmem
  case length =>
    have hlen := congrArg List.length hs
    rw [List.length_modify, length_counters, length_counters] at hlen
    rw [hlen, h.length]

theorem refCountUp (h : s.HasCounts n refs pins) (hi : i < n) :
    (s.updateObj i TensorMemoryObj.refCountUp).HasCounts n (raise refs i) pins := by
  have hs : (s.updateObj i TensorMemoryObj.refCountUp).counters =
      s.counters.modify i (Prod.map (· + 1) id) := counters_updateObj s i fun _ => rfl
  have hcounts := h.of_modify hs (u := (· + 1)) (v := id) (fun _ => rfl) (fun _ => rfl) (.inl hi)
  rwa [id_eq, Function.update_eq_self] at hcounts

theorem pin (h : s.HasCounts n refs pins) (hi : i < n) :
    (s.updateObj i TensorMemoryObj.pin).HasCounts n refs (raise pins i) := by
  have hs : (s.updateObj i TensorMemoryObj.pin).counters =
      s.counters.modify i (Prod.map id (· + 1)) := counters_updateObj s i fun _ => rfl
  have hcounts := h.of_modify hs (u := id) (v := (· + 1)) (fun _ => rfl) (fun _ => rfl) (.inl hi)
  rwa [id_eq, Function.update_eq_self] at hcounts

/-- Down by one, and not below 0. -/
theorem downClamped (x : Nat) : (if (x : Int) - 1 < 0 then 0 else (x : Int) - 1) = (x - 1 : Nat) := by
  split <;> omega

theorem refCountDown (h : s.HasCounts n refs pins) (i : Nat) :
    (s.refCountDown i).HasCounts n (lower refs i) pins := by
  have hs : (s.refCountDown i).counters =
      s.counters.modify i (Prod.map (fun x => if x - 1 < 0 then 0 else x - 1) id) :=
    counters_decrement s i fun _ => rfl
  have hcounts := h.of_modify hs (u := (· - 1)) (v := id) downClamped (fun _ => rfl)
    (.inr ⟨rfl, rfl⟩)
  rwa [id_eq, Function.update_eq_self] at hcounts

theorem unpin (h : s.HasCounts n refs pins) (i : Nat) :
    (s.unpin i).HasCounts n refs (lower pins i) := by
  have hs : (s.unpin i).counters =
      s.counters.modify i (Prod.map id (fun x => if x - 1 < 0 then 0 else x - 1)) :=
    counters_unpin s i
  have hcounts := h.of_modify hs (u := id) (v := (· - 1)) (fun _ => rfl) downClamped
    (.inr ⟨rfl, rfl⟩)
  rwa [id_eq, Function.update_eq_self] at hcounts

end HasCounts

end ObjectPool

end LMCache.Memory
