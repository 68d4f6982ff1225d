/-
# LMCache.Memory.BatchedFree — a batch freed at once, and one by one.

Source: `v1/memory_management.py`, `TensorMemoryAllocator.free` and
`TensorMemoryAllocator.batched_free`, with `AddressManager.free`.

`batched_free` sorts the objects, joins neighbouring ranges, and returns each joined range with one
call of `AddressManager.free`.  The two ways end in the same state, because the free list is
determined by the addresses it covers as long as its blocks are not empty and a gap stands between
any two: it is a list of `Separated` ranges.

A request of no bytes breaks that.  Its object, when freed within an allocated range, leaves an
empty block in the free list, and the block may stand between two neighbours that are then not
joined.
-/
import LMCache.Memory.TensorAllocator

namespace LMCache.Memory

open LMCache.Lib

/-! ## The free list and what it covers -/

namespace AddressManager

/-- No free block is empty, and there is a gap between any two. -/
structure Settled (m : AddressManager) : Prop where
  apart : m.blocks.Pairwise AddressSpace.Apart
  positive : ∀ b ∈ m.blocks, 0 < b.size

/-- The free list of a heap of no bytes. -/
def Void (m : AddressManager) : Prop := m.blocks = [] ∨ m.blocks = [⟨0, 0⟩]

variable {m : AddressManager}

theorem Settled.separated (h : m.Settled) : Separated (blockRanges m.blocks) := by
  have hsorted : m.blocks.Pairwise fun b c => b.start ≤ c.start := m.explicitList.sorted
  constructor
  · unfold blockRanges
    rw [List.pairwise_map]
    refine (hsorted.and h.apart).imp_of_mem ?_
    rintro b c hb hc ⟨hle, hlt | hlt⟩
    · exact hlt
    · have := h.positive c hc
      simp only [FreeBlock.stop] at hlt
      omega
  · intro r hr
    obtain ⟨b, hb, rfl⟩ := List.mem_map.mp hr
    have := h.positive b hb
    simp only [FreeBlock.range, FreeBlock.stop]
    omega

theorem Void.cons {m : AddressManager} (h : m.Void) {b : FreeBlock} {R : List FreeBlock}
    (hl : m.blocks.Perm (b :: R)) : b = ⟨0, 0⟩ ∧ R = [] := by
  rcases h with hnil | hone
  · rw [hnil] at hl
    exact absurd hl.symm (List.not_perm_cons_nil)
  · rw [hone] at hl
    have heq := List.perm_singleton.mp hl.symm
    rw [List.cons.injEq] at heq
    exact heq

theorem range_injective : Function.Injective FreeBlock.range := by
  rintro ⟨a, n⟩ ⟨b, k⟩ h
  simp only [FreeBlock.range, FreeBlock.stop, Prod.mk.injEq] at h
  obtain ⟨rfl, h⟩ := h
  obtain rfl : n = k := by omega
  rfl

/-- A manager with a settled free list is determined by its numbers and what the list covers. -/
theorem Settled.eq_of_cover {m' : AddressManager} (h : m.Settled) (h' : m'.Settled)
    (hcover : ∀ x, cover (blockRanges m.blocks) x = cover (blockRanges m'.blocks) x)
    (hsize : m.size = m'.size) (halign : m.align = m'.align)
    (htotal : m.totalAllocatedSize = m'.totalAllocatedSize) : m = m' := by
  have hranges := h.separated.eq_of_cover h'.separated hcover
  have hblocks : m.explicitList.toList = m'.explicitList.toList :=
    List.map_injective_iff.mpr range_injective hranges
  obtain ⟨size, align, ⟨l, hl⟩, total⟩ := m
  obtain ⟨size', align', ⟨l', hl'⟩, total'⟩ := m'
  dsimp only at hblocks hsize halign htotal
  subst hblocks hsize halign htotal
  rfl

/-- Returning a range that the free list does not cover. -/
theorem Settled.free (h : m.Settled) {a n : Int} (hn : 0 < n)
    (hcover : ∀ x, cover (blockRanges m.blocks) x + hits (a, a + n) x ≤ 1) :
    (m.free a n).Settled where
  apart := by
    apply AddressSpace.apart_free_of_beside hn h.apart fun b hb => (h.positive b hb).le
    intro b hb
    have hpos := h.positive b hb
    have hdisjoint : Disjoint (points b.range) (points (a, a + n)) := by
      apply disjoint_of_hits_le
      intro x
      have h1 := hcover x
      have h2 := hits_le_cover (List.mem_map_of_mem (f := FreeBlock.range) hb) x
      unfold blockRanges at h1
      omega
    -- were neither beside the other, the later of the two starts would lie in both
    by_contra hnot
    have hlater : max b.start a ∈ points b.range ∧ max b.start a ∈ points (a, a + n) := by
      simp only [points, FreeBlock.range, FreeBlock.stop, Set.mem_Ico] at hnot ⊢
      omega
    exact Set.disjoint_left.mp hdisjoint hlater.1 hlater.2
  positive := by
    intro d hd
    obtain ⟨c, R, hl', hR, -, -, hsize, -⟩ :=
      (m.free_coalesced a n).merged fun b hb => (h.positive b hb).le
    rcases List.mem_cons.mp (hl'.mem_iff.mp hd) with rfl | hd
    · exact lt_of_lt_of_le hn hsize
    · exact h.positive d (hR d hd)

/-- Returning ranges one after the other. -/
theorem Settled.freeAll {rs : List Returned} (h : m.Settled) (hpos : ∀ r ∈ rs, 0 < r.size)
    (hcover : ∀ x, cover (blockRanges m.blocks) x + cover (rs.map Returned.range) x ≤ 1) :
    (rs.foldl (fun m r => m.free r.address r.size) m).Settled := by
  induction rs generalizing m with
  | nil => exact h
  | cons r rs ih =>
    have hr := hpos r List.mem_cons_self
    have hsum : ∀ x, cover (blockRanges m.blocks) x + (hits r.range x +
        cover (rs.map Returned.range) x) ≤ 1 := by
      intro x
      have := hcover x
      rwa [List.map_cons, cover_cons] at this
    have hfree : (m.free r.address r.size).Settled := by
      apply h.free hr
      intro x
      have hx := hsum x
      unfold Returned.range at hx
      omega
    apply ih hfree fun q hq => hpos q (List.mem_cons_of_mem _ hq)
    intro x
    have hx := hsum x
    rw [free_cover hr.le (fun b hb => (h.positive b hb).le)]
    unfold Returned.range at hx
    unfold Returned.range
    omega

/-- Taking a block. -/
theorem Settled.allocate {m' : AddressManager} (h : m.Settled) {size a n : Int} (hn : 0 ≤ n)
    (hok : m.allocate size = .ok ((a, n), m')) : m'.Settled := by
  obtain ⟨b, R, hl, -, -, -, hl', -⟩ := allocate_ok hok
  have hapart := (AddressSpace.apart_perm hl).mp h.apart
  rw [List.pairwise_cons] at hapart
  have hR : ∀ d ∈ R, 0 < d.size := fun d hd =>
    h.positive d (hl.mem_iff.mpr (List.mem_cons_of_mem _ hd))
  constructor
  · rw [AddressSpace.apart_perm hl']
    split
    · refine List.pairwise_cons.mpr ⟨fun d hd => ?_, hapart.2⟩
      have := hapart.1 d hd
      simp only [AddressSpace.Apart, FreeBlock.stop] at *
      omega
    · exact hapart.2
  · intro d hd
    rw [hl'.mem_iff] at hd
    split at hd
    · rename_i hgt
      rcases List.mem_cons.mp hd with rfl | hd
      · show 0 < b.size - n
        omega
      · exact hR d hd
    · exact hR d hd

end AddressManager

/-! ## The books of a pool -/

namespace ObjectPool

/-- The bytes that the valid objects own. -/
def liveSize (objs : List TensorMemoryObj) : Int :=
  (objs.map fun o => if o.valid then o.metadata.phySize else 0).sum

/-- How many objects are valid. -/
def liveCount (objs : List TensorMemoryObj) : Int :=
  (objs.map fun o => if o.valid then (1 : Int) else 0).sum

variable {objs : List TensorMemoryObj} {i : Nat} {o : TensorMemoryObj}

theorem sum_map_invalidate (f : TensorMemoryObj → Int) (h : objs[i]? = some o) (hv : o.valid = true) :
    ((objs.set i o.invalidate).map fun o => if o.valid then f o else 0).sum + f o =
      (objs.map fun o => if o.valid then f o else 0).sum := by
  have h1 := ((set_perm (b := o.invalidate) h).map fun o => if o.valid then f o else 0).sum_eq
  have h2 := ((SortedKeyList.perm_of_getElem? h).map fun o => if o.valid then f o else 0).sum_eq
  rw [h1, h2, List.map_cons, List.map_cons, List.sum_cons, List.sum_cons, if_pos hv]
  have hgone : (if o.invalidate.valid then f o.invalidate else 0) = 0 := if_neg nofun
  omega

theorem liveSize_invalidate
    (h : objs[i]? = some o) (hv : o.valid = true) :
    liveSize (objs.set i o.invalidate) + o.metadata.phySize = liveSize objs :=
  sum_map_invalidate (fun o => o.metadata.phySize) h hv

theorem liveCount_invalidate
    (h : objs[i]? = some o) (hv : o.valid = true) :
    liveCount (objs.set i o.invalidate) + 1 = liveCount objs :=
  sum_map_invalidate (fun _ => 1) h hv

/-- `s'` has the books of `s`: the same buffer and heap, and as much more or less allocated as its
valid objects own. -/
structure SameBooks (s s' : ObjectPool) : Prop where
  buffer : s'.allocator.buffer = s.allocator.buffer
  size : s'.allocator.addressManager.size = s.allocator.addressManager.size
  align : s'.allocator.addressManager.align = s.allocator.addressManager.align
  total : s'.allocator.totalAllocatedSize - liveSize s'.objs =
    s.allocator.totalAllocatedSize - liveSize s.objs
  count : s'.allocator.numActiveAllocations - liveCount s'.objs =
    s.allocator.numActiveAllocations - liveCount s.objs
  covered : ∀ x, s'.covered x = s.covered x

theorem SameBooks.refl (s : ObjectPool) : SameBooks s s := ⟨rfl, rfl, rfl, rfl, rfl, fun _ => rfl⟩

variable {s : ObjectPool} {dtypes : OneOrList TorchDtype} {shapes : OneOrList TorchSize}

theorem SameBooks.trans {s' s'' : ObjectPool} (h : SameBooks s s') (h' : SameBooks s' s'') :
    SameBooks s s'' where
  buffer := h'.buffer.trans h.buffer
  size := h'.size.trans h.size
  align := h'.align.trans h.align
  total := h'.total.trans h.total
  count := h'.count.trans h.count
  covered := fun x => (h'.covered x).trans (h.covered x)

/-- **The allocator is what its books say**: two settled allocators with the same books, whose valid
objects own the same, are the same. -/
theorem allocator_eq {s' : ObjectPool} (h : SameBooks s s')
    (hs : s.allocator.addressManager.Settled) (hs' : s'.allocator.addressManager.Settled)
    (hsize : liveSize s'.objs = liveSize s.objs) (hcount : liveCount s'.objs = liveCount s.objs)
    (hranges : ∀ x, cover (validRanges s'.objs) x = cover (validRanges s.objs) x) :
    s'.allocator = s.allocator := by
  have hmanager : s'.allocator.addressManager = s.allocator.addressManager := by
    apply hs'.eq_of_cover hs
    · intro x
      have h1 := h.covered x
      have h2 := hranges x
      unfold covered at h1
      omega
    · exact h.size
    · exact h.align
    · have h1 := h.total
      unfold TensorMemoryAllocator.totalAllocatedSize at h1
      omega
  have hnum := h.count
  obtain ⟨a, objs, returned⟩ := s
  obtain ⟨a', objs', returned'⟩ := s'
  obtain ⟨buffer, manager, num⟩ := a
  obtain ⟨buffer', manager', num'⟩ := a'
  have hbuffer : buffer' = buffer := h.buffer
  dsimp only at hmanager hnum hcount
  obtain rfl : num' = num := by omega
  rw [hbuffer, hmanager]

/-! ## One object at a time -/

/-- What freeing some objects leaves of them. -/
def freed (objs : List TensorMemoryObj) (is : List Nat) (i : Nat) : Option TensorMemoryObj :=
  objs[i]?.map fun o => if i ∈ is then o.invalidate else o

theorem invalidate_of_invalid (h : o.valid = false) : o.invalidate = o := by
  unfold TensorMemoryObj.invalidate
  rw [← h]

theorem freed_cons (objs : List TensorMemoryObj) (i : Nat) (is : List Nat)
    {objs' : List TensorMemoryObj} (h : ∀ j, objs'[j]? = freed objs [i] j) (j : Nat) :
    freed objs' is j = freed objs (i :: is) j := by
  unfold freed
  rw [h]
  unfold freed
  cases objs[j]? with
  | none => rfl
  | some o =>
    simp only [Option.map_some, List.mem_cons]
    by_cases hij : j = i
    · simp [hij, TensorMemoryObj.invalidate]
    · simp [hij]

theorem free_of_none (hget : s.objs[i]? = none) : s.free i = s := by
  unfold free
  rw [hget]

theorem free_of_invalid (hget : s.objs[i]? = some o)
    (hv : o.valid = false) : s.free i = s := by
  have hset : s.objs.set i o = s.objs := by
    obtain ⟨hlt, rfl⟩ := List.getElem?_eq_some_iff.mp hget
    exact List.set_getElem_self hlt
  unfold free TensorMemoryAllocator.free
  rw [hget]
  simp [hv, hset]

theorem free_of_valid (hget : s.objs[i]? = some o)
    (hv : o.valid = true) :
    s.free i =
      { allocator := { s.allocator with
          addressManager :=
            s.allocator.addressManager.free o.metadata.address o.metadata.phySize
          numActiveAllocations := s.allocator.numActiveAllocations - 1 }
        objs := s.objs.set i o.invalidate
        returned := s.returned ++ [.single i o] } := by
  unfold free TensorMemoryAllocator.free
  rw [hget]
  dsimp only
  rw [if_pos hv, if_pos hv]
  rfl

theorem getElem?_set_invalidate
    (hget : objs[i]? = some o) (j : Nat) : (objs.set i o.invalidate)[j]? = freed objs [i] j := by
  have hlt : i < objs.length := (List.getElem?_eq_some_iff.mp hget).1
  unfold freed
  by_cases hij : j = i
  · rw [hij, List.getElem?_set_self hlt, hget]
    simp
  · rw [List.getElem?_set_ne (Ne.symm hij)]
    simp [hij]

/-- An object that is not valid is as if it had been freed. -/
theorem getElem?_eq_freed
    (h : ∀ o, objs[i]? = some o → o.valid = false) (j : Nat) : objs[j]? = freed objs [i] j := by
  unfold freed
  by_cases hij : j = i
  · subst hij
    cases hget : objs[j]? with
    | none => rfl
    | some o => simp [invalidate_of_invalid (h o hget)]
  · simp [hij]

theorem getElem?_free (s : ObjectPool) (i j : Nat) :
    (s.free i).objs[j]? = freed s.objs [i] j := by
  cases hget : s.objs[i]? with
  | none =>
    rw [free_of_none hget]
    exact getElem?_eq_freed (fun o ho => by simp [hget] at ho) j
  | some o =>
    by_cases hv : o.valid = true
    · rw [free_of_valid hget hv]
      exact getElem?_set_invalidate hget j
    · have hv' : o.valid = false := by simpa using hv
      rw [free_of_invalid hget hv']
      refine getElem?_eq_freed (fun o' ho' => ?_) j
      rw [hget] at ho'
      cases ho'
      exact hv'

theorem getElem?_foldl_free (is : List Nat) (s : ObjectPool) (j : Nat) :
    (is.foldl free s).objs[j]? = freed s.objs is j := by
  induction is generalizing s with
  | nil =>
    unfold freed
    simp
  | cons i is ih => rw [List.foldl_cons, ih, freed_cons s.objs i is (getElem?_free s i)]

theorem free_books (s : ObjectPool) (i : Nat) :
    (s.free i).allocator.totalAllocatedSize - liveSize (s.free i).objs =
        s.allocator.totalAllocatedSize - liveSize s.objs ∧
      (s.free i).allocator.numActiveAllocations - liveCount (s.free i).objs =
        s.allocator.numActiveAllocations - liveCount s.objs := by
  cases hget : s.objs[i]? with
  | none =>
    rw [free_of_none hget]
    exact ⟨rfl, rfl⟩
  | some o =>
    by_cases hv : o.valid = true
    · have hsize := liveSize_invalidate hget hv
      have hcount := liveCount_invalidate hget hv
      rw [free_of_valid hget hv]
      unfold TensorMemoryAllocator.totalAllocatedSize
      dsimp only
      rw [AddressManager.free_total]
      omega
    · rw [free_of_invalid hget (by simpa using hv)]
      exact ⟨rfl, rfl⟩

/-- What a run of requests for at least one byte keeps.  A heap of no bytes never hands out an
object. -/
structure Merged (s : ObjectPool) : Prop where
  accounted : s.Accounted
  objs_pos : ∀ o ∈ s.objs, 0 < o.metadata.phySize
  settled : s.allocator.addressManager.Settled ∨
    s.objs = [] ∧ s.allocator.addressManager.Void

theorem Merged.settled_of_getElem? (h : s.Merged)
    (hget : s.objs[i]? = some o) : s.allocator.addressManager.Settled := by
  refine h.settled.resolve_right fun hempty => ?_
  rw [hempty.1] at hget
  cases hget

/-- What the addresses of a valid object are not covered by. -/
theorem Merged.hits_le (h : s.Merged) (hget : s.objs[i]? = some o)
    (hv : o.valid = true) (x : Int) :
    cover (blockRanges s.allocator.addressManager.blocks) x +
      hits (o.metadata.address, o.metadata.address + o.metadata.phySize) x ≤ 1 := by
  have h1 := h.accounted.once x
  have h2 := hits_le_validRanges hget hv x
  unfold TensorMemoryObj.range at h2
  omega

/-- **Freeing one object**: it is invalid then, the books are kept, and the free list stays settled.
-/
theorem Merged.free (h : s.Merged) (i : Nat) : (s.free i).Merged ∧ SameBooks s (s.free i) := by
  have hacc := accounted_free h.accounted i
  have hcov := covered_free h.accounted i
  obtain ⟨htotal, hcount⟩ := free_books s i
  cases hget : s.objs[i]? with
  | none =>
    rw [free_of_none hget]
    exact ⟨h, SameBooks.refl s⟩
  | some o =>
    by_cases hv : o.valid = true
    · rw [free_of_valid hget hv] at hacc hcov htotal hcount ⊢
      have hphy := h.objs_pos o (List.mem_of_getElem? hget)
      refine ⟨⟨hacc, fun d hd => ?_, .inl ?_⟩, ⟨rfl, rfl, rfl, htotal, hcount, hcov⟩⟩
      · rcases List.mem_or_eq_of_mem_set hd with hd | rfl
        · exact h.objs_pos d hd
        · exact hphy
      · exact (h.settled_of_getElem? hget).free hphy (h.hits_le hget hv)
    · rw [free_of_invalid hget (by simpa using hv)]
      exact ⟨h, SameBooks.refl s⟩

/-- Freeing objects one by one. -/
theorem Merged.freeAll (h : s.Merged) (is : List Nat) :
    (is.foldl ObjectPool.free s).Merged ∧ SameBooks s (is.foldl ObjectPool.free s) := by
  induction is generalizing s with
  | nil => exact ⟨h, SameBooks.refl s⟩
  | cons i is ih =>
    obtain ⟨hmerged, hbooks⟩ := h.free i
    obtain ⟨hmerged', hbooks'⟩ := ih hmerged
    exact ⟨hmerged', hbooks.trans hbooks'⟩

/-! ## All at once -/

namespace CoalesceLoop

/-- The objects after one iteration are those after freeing that object. -/
theorem getElem?_step (l : CoalesceLoop) (i j : Nat) :
    (l.step i).objs[j]? = freed l.objs [i] j := by
  unfold step
  cases hget : l.objs[i]? with
  | none => exact getElem?_eq_freed (fun o ho => by simp [hget] at ho) j
  | some o =>
    dsimp only
    cases hv : o.valid with
    | false =>
      show l.objs[j]? = freed l.objs [i] j
      refine getElem?_eq_freed (fun o' ho' => ?_) j
      rw [hget] at ho'
      cases ho'
      exact hv
    | true =>
      rw [if_neg (by simp)]
      split
      · exact getElem?_set_invalidate hget j
      · split
        · exact getElem?_set_invalidate hget j
        · exact getElem?_set_invalidate hget j

theorem getElem?_foldl (is : List Nat) (l : CoalesceLoop) (j : Nat) :
    (is.foldl step l).objs[j]? = freed l.objs is j := by
  induction is generalizing l with
  | nil =>
    unfold freed
    simp
  | cons i is ih => rw [List.foldl_cons, ih, freed_cons l.objs i is (l.getElem?_step i)]

end CoalesceLoop

/-- Going from the objects `objs` to `objs'`, what is no longer valid was collected into the entries
`rs`: none of them is empty, and they add up. -/
structure Balanced (objs objs' : List TensorMemoryObj) (rs : List Returned) : Prop where
  objs_pos : ∀ o ∈ objs', 0 < o.metadata.phySize
  entries_pos : ∀ r ∈ rs, 0 < r.size
  sizes : liveSize objs' + (rs.map Returned.size).sum = liveSize objs
  count : liveCount objs' + ((rs.map fun r => r.members.length).sum : Nat) = liveCount objs

namespace Balanced

variable {objs' : List TensorMemoryObj} {rs : List Returned}

theorem invalidate_pos (h : Balanced objs objs' rs) (hget : objs'[i]? = some o) :
    ∀ d ∈ objs'.set i o.invalidate, 0 < d.metadata.phySize := by
  intro d hd
  rcases List.mem_or_eq_of_mem_set hd with hd | rfl
  · exact h.objs_pos d hd
  · exact h.objs_pos o (List.mem_of_getElem? hget)

/-- One more object, with an entry of its own. -/
theorem snoc (h : Balanced objs objs' rs) (hget : objs'[i]? = some o) (hv : o.valid = true) :
    Balanced objs (objs'.set i o.invalidate) (rs ++ [.single i o]) := by
  have hsize := liveSize_invalidate hget hv
  have hcount := liveCount_invalidate hget hv
  refine ⟨h.invalidate_pos hget, fun r hr => ?_, ?_, ?_⟩
  · rcases List.mem_append.mp hr with hr | hr
    · exact h.entries_pos r hr
    · obtain rfl := List.mem_singleton.mp hr
      exact h.objs_pos o (List.mem_of_getElem? hget)
  · have := h.sizes
    simp only [List.map_append, List.map_cons, List.map_nil, List.sum_append, List.sum_cons,
      List.sum_nil, Returned.single]
    omega
  · have := h.count
    simp only [List.map_append, List.map_cons, List.map_nil, List.sum_append, List.sum_cons,
      List.sum_nil, Returned.single, List.length_cons, List.length_nil]
    omega

/-- One more object, in the last entry. -/
theorem extend {r : Returned} (h : Balanced objs objs' (rs ++ [r])) (hget : objs'[i]? = some o)
    (hv : o.valid = true) : Balanced objs (objs'.set i o.invalidate) (rs ++ [r.extend i o]) := by
  have hsize := liveSize_invalidate hget hv
  have hcount := liveCount_invalidate hget hv
  refine ⟨h.invalidate_pos hget, fun q hq => ?_, ?_, ?_⟩
  · rcases List.mem_append.mp hq with hq | hq
    · exact h.entries_pos q (List.mem_append_left _ hq)
    · obtain rfl := List.mem_singleton.mp hq
      have hr := h.entries_pos r (List.mem_append_right _ List.mem_cons_self)
      exact Int.add_pos hr (h.objs_pos o (List.mem_of_getElem? hget))
  · have := h.sizes
    simp only [List.map_append, List.map_cons, List.map_nil, List.sum_append, List.sum_cons,
      List.sum_nil, Returned.extend] at this ⊢
    omega
  · have := h.count
    simp only [List.map_append, List.map_cons, List.map_nil, List.sum_append, List.sum_cons,
      List.sum_nil, Returned.extend, List.length_append, List.length_cons, List.length_nil]
      at this ⊢
    omega

end Balanced

theorem balanced_step {l : CoalesceLoop} (i : Nat)
    (h : Balanced objs l.objs l.blocks) : Balanced objs (l.step i).objs (l.step i).blocks := by
  unfold CoalesceLoop.step
  split
  · exact h
  · rename_i o hget
    cases hv : o.valid with
    | false => exact h
    | true =>
      simp only [Bool.not_true, Bool.false_eq_true, if_false]
      split
      · rename_i hnone
        have := h.snoc hget hv
        rwa [CoalesceLoop.blocks, hnone, Option.toList_none, List.append_nil] at this
      · rename_i r hsome
        rw [CoalesceLoop.blocks, hsome, Option.toList_some] at h
        split
        · exact h.extend hget hv
        · exact h.snoc hget hv

theorem balanced_foldl (is : List Nat) {l : CoalesceLoop}
    (h : Balanced objs l.objs l.blocks) :
    Balanced objs (is.foldl CoalesceLoop.step l).objs (is.foldl CoalesceLoop.step l).blocks := by
  induction is generalizing l with
  | nil => exact h
  | cons i is ih => exact ih (balanced_step i h)

theorem free_entries_total (rs : List Returned) (m : AddressManager) :
    (rs.foldl (fun m r => m.free r.address r.size) m).totalAllocatedSize =
        m.totalAllocatedSize - (rs.map Returned.size).sum ∧
      (rs.foldl (fun m r => m.free r.address r.size) m).size = m.size := by
  induction rs generalizing m with
  | nil => simp
  | cons r rs ih =>
    obtain ⟨htotal, hsize⟩ := ih (m.free r.address r.size)
    refine ⟨?_, hsize⟩
    rw [List.foldl_cons, htotal, AddressManager.free_total, List.map_cons, List.sum_cons]
    omega

theorem mem_sortByAddress {is : List Nat} :
    i ∈ sortByAddress objs is ↔ i ∈ is := List.mem_insertionSort _

/-- An allocator that has handed out nothing has nothing to free. -/
theorem batchedFree_of_nil (h : s.objs = []) (is : List Nat) : s.batchedFree is = s := by
  have hrun : ∀ js : List Nat, js.foldl CoalesceLoop.step ⟨[], none, []⟩ = ⟨[], none, []⟩ := by
    intro js
    induction js with
    | nil => rfl
    | cons j js ih =>
      have hstep : CoalesceLoop.step ⟨[], none, []⟩ j = ⟨[], none, []⟩ := by
        unfold CoalesceLoop.step
        simp
      rw [List.foldl_cons, hstep, ih]
  obtain ⟨a, objs, returned⟩ := s
  dsimp only at h
  subst h
  unfold ObjectPool.batchedFree
  dsimp only
  rw [hrun]
  simp [CoalesceLoop.blocks]

theorem foldl_free_of_nil (h : s.objs = []) (is : List Nat) : is.foldl ObjectPool.free s = s := by
  induction is with
  | nil => rfl
  | cons i is ih =>
    have hfree : s.free i = s := by
      unfold ObjectPool.free
      rw [h]
      rfl
    rw [List.foldl_cons, hfree, ih]

/-- **Freeing a batch**: its objects are invalid then, the books are kept, and the free list stays
settled. -/
theorem Merged.batchedFree (h : s.Merged) (is : List Nat) :
    (s.batchedFree is).Merged ∧ SameBooks s (s.batchedFree is) ∧
      ∀ j, (s.batchedFree is).objs[j]? = freed s.objs is j := by
  have hacc := accounted_batchedFree h.accounted is
  have hret : Retires s.objs _ _ := retires_foldl (sortByAddress s.objs is)
    (l := ⟨s.objs, none, []⟩) (Retires.refl h.accounted.obj_nonneg)
  have hcovered := covered_of_retires h.accounted hret
  have hstart : Balanced s.objs s.objs [] := ⟨h.objs_pos, by simp, by simp, by simp⟩
  have hbal := balanced_foldl (sortByAddress s.objs is) (l := ⟨s.objs, none, []⟩) hstart
  refine ⟨⟨hacc, hbal.objs_pos, ?_⟩, ?_, fun j => ?_⟩
  · rcases h.settled with hsettled | hempty
    · left
      apply hsettled.freeAll hbal.entries_pos
      intro x
      have h1 := h.accounted.once x
      have h2 := hret.cover x
      omega
    · right
      rw [batchedFree_of_nil hempty.1]
      exact hempty
  · obtain ⟨htotal, hsize⟩ := free_entries_total
      ((sortByAddress s.objs is).foldl CoalesceLoop.step ⟨s.objs, none, []⟩).blocks
      s.allocator.addressManager
    obtain ⟨-, halign, -⟩ :=
      free_entries hret.size_nonneg s.allocator.addressManager h.accounted.block_nonneg
    have hsizes := hbal.sizes
    have hcount := hbal.count
    refine ⟨rfl, hsize, halign, ?_, ?_, hcovered _⟩
    · unfold ObjectPool.batchedFree TensorMemoryAllocator.totalAllocatedSize
      dsimp only
      omega
    · unfold ObjectPool.batchedFree
      dsimp only
      omega
  · unfold ObjectPool.batchedFree
    dsimp only
    rw [CoalesceLoop.getElem?_foldl]
    unfold freed
    simp only [mem_sortByAddress]

/-- **A batch may be freed at once or one by one**: whatever the list of objects is, with invalid
and repeated ones, in any order, the allocator and the objects are the same afterwards. -/
def FreesAlike (s : ObjectPool) : Prop :=
  ∀ is : List Nat, (s.batchedFree is).allocator = (is.foldl ObjectPool.free s).allocator ∧
    (s.batchedFree is).objs = (is.foldl ObjectPool.free s).objs

theorem Merged.freesAlike (h : s.Merged) : s.FreesAlike := by
  intro is
  by_cases hnil : s.objs = []
  · rw [batchedFree_of_nil hnil, foldl_free_of_nil hnil]
    exact ⟨rfl, rfl⟩
  obtain ⟨hmerged, hbooks, hobjs⟩ := h.batchedFree is
  obtain ⟨hmerged', hbooks'⟩ := h.freeAll is
  have hobjs' := getElem?_foldl_free is s
  have hsame : (s.batchedFree is).objs = (is.foldl ObjectPool.free s).objs := by
    apply List.ext_getElem?
    intro j
    rw [hobjs, hobjs']
  -- some object was handed out, so that the free list is settled on both ways
  have hsettled : ∀ {s' : ObjectPool}, s'.Merged → (∀ j, s'.objs[j]? = freed s.objs is j) →
      s'.allocator.addressManager.Settled := by
    intro s' hm ho
    obtain ⟨o, objs, hcons⟩ := List.exists_cons_of_ne_nil hnil
    have hzero := ho 0
    unfold freed at hzero
    rw [hcons] at hzero
    exact hm.settled_of_getElem? hzero
  refine ⟨?_, hsame⟩
  -- both have the books of `s`
  have hboth : SameBooks (is.foldl ObjectPool.free s) (s.batchedFree is) :=
    ⟨hbooks.buffer.trans hbooks'.buffer.symm, hbooks.size.trans hbooks'.size.symm,
      hbooks.align.trans hbooks'.align.symm, hbooks.total.trans hbooks'.total.symm,
      hbooks.count.trans hbooks'.count.symm,
      fun x => (hbooks.covered x).trans (hbooks'.covered x).symm⟩
  apply allocator_eq hboth (hsettled hmerged' hobjs') (hsettled hmerged hobjs)
  · rw [hsame]
  · rw [hsame]
  · intro x
    rw [hsame]

/-! ## Runs -/

/-- The bytes that a request asks for, if its shapes and dtypes go together. -/
def requestedBytes (shapes : OneOrList TorchSize) (dtypes : OneOrList TorchDtype) : Option Nat :=
  match adaptShapesAndDtypes shapes dtypes with
  | .error _ => none
  | .ok (shapes, dtypes) => (getSizeBytes shapes dtypes).toOption

/-- A request is for at least one byte. -/
def AsksForBytes (_ : ObjectPool) : PoolCall → Prop
  | .allocate shapes dtypes _ | .batchedAllocate shapes dtypes _ _ =>
    requestedBytes shapes dtypes ≠ some 0
  | _ => True

instance (s : ObjectPool) : (c : PoolCall) → Decidable (s.AsksForBytes c)
  | .allocate _ _ _ | .batchedAllocate _ _ _ _ => inferInstanceAs (Decidable (_ ≠ _))
  | .refCountUp _ | .refCountDown _ | .pin _ | .unpin _ | .free _ | .batchedFree _ =>
    .isTrue trivial

/-- Objects as they are handed out for a request of at least one byte. -/
def Handful (os : List TensorMemoryObj) : Prop :=
  ∀ o ∈ os, o.valid = true ∧ 0 < o.metadata.phySize

theorem pos_of_requestedBytes {ss : List TorchSize} {ds : List TorchDtype} {n : Nat}
    (h : requestedBytes shapes dtypes ≠ some 0)
    (hadapt : adaptShapesAndDtypes shapes dtypes = .ok (ss, ds))
    (hbytes : getSizeBytes ss ds = .ok n) : 0 < n := by
  apply Nat.pos_of_ne_zero
  rintro rfl
  apply h
  unfold requestedBytes
  rw [hadapt]
  dsimp only
  rw [hbytes]
  rfl

theorem handful_allocate {a : TensorMemoryAllocator} (ha : 0 < a.addressManager.align)
    (fmt : MemoryFormat) (hask : requestedBytes shapes dtypes ≠ some 0) :
    Handful (objOf (a.allocate shapes dtypes fmt).1) := by
  have hnone : Handful [] := by simp [Handful]
  rcases allocate_ends a shapes dtypes fmt with
    ⟨-, hobj⟩ | ⟨ss, ds, rawSize, start, n, m, hadapt, hbytes, hok, -,
      hobj | ⟨r, shape, dtype, hobj⟩⟩
  · rw [hobj]
    exact hnone
  · rw [hobj]
    exact hnone
  · have hraw := pos_of_requestedBytes hask hadapt hbytes
    obtain ⟨-, -, -, -, hn, -⟩ := AddressManager.allocate_ok hok
    have hle : (rawSize : Int) ≤ a.addressManager.computeAlignedSize rawSize :=
      AddressManager.le_computeAlignedSize ha (Int.natCast_nonneg _)
    rw [hobj]
    intro o ho
    obtain rfl := List.mem_singleton.mp ho
    refine ⟨rfl, ?_⟩
    show 0 < n
    omega

theorem handful_batchedAllocate {a : TensorMemoryAllocator} (ha : 0 < a.addressManager.align)
    (batchSize : Nat) (fmt : MemoryFormat) (hask : requestedBytes shapes dtypes ≠ some 0) :
    Handful (objsOf (a.batchedAllocate shapes dtypes batchSize fmt).1) := by
  have hnone : Handful [] := by simp [Handful]
  rcases batchedAllocate_ends a shapes dtypes batchSize fmt with
    ⟨-, hobjs⟩ | ⟨ss, ds, rawSize, start, n, m, hadapt, hbytes, -, -,
      hobjs | ⟨shape, dtype, l, -, hobjs⟩⟩
  · rw [hobjs]
    exact hnone
  · rw [hobjs]
    exact hnone
  · have hraw := pos_of_requestedBytes hask hadapt hbytes
    have hle : (rawSize : Int) ≤ a.addressManager.computeAlignedSize rawSize :=
      AddressManager.le_computeAlignedSize ha (Int.natCast_nonneg _)
    rw [hobjs]
    intro o ho
    obtain ⟨k, r, -, rfl⟩ := mem_batchObjs l start ho
    refine ⟨rfl, ?_⟩
    show 0 < a.addressManager.computeAlignedSize rawSize
    omega

theorem merged_handed (h : s.Merged) {a' : TensorMemoryAllocator} {os : List TensorMemoryObj}
    (hand : Handed s.allocator a' os) (hos : Handful os) :
    Merged { s with allocator := a', objs := s.objs ++ os } := by
  refine ⟨accounted_handed h.accounted hand, fun o ho => ?_, ?_⟩
  · rcases List.mem_append.mp ho with ho | ho
    · exact h.objs_pos o ho
    · exact (hos o ho).2
  · cases hand with
    | nothing =>
      rw [List.append_nil]
      exact h.settled
    | @block raw start n k m os hn hok hnonneg hcov =>
      rcases h.settled with hsettled | ⟨hnil, hvoid⟩
      · exact .inl (hsettled.allocate hn hok)
      · -- only the block of no bytes can be taken, and it holds no object
        obtain ⟨b, R, hl, rfl, -, hfit, hl', -⟩ := AddressManager.allocate_ok hok
        obtain ⟨rfl, rfl⟩ := hvoid.cons hl
        dsimp only at hfit
        obtain rfl : n = 0 := by omega
        right
        constructor
        · rw [hnil, List.nil_append, List.eq_nil_iff_forall_not_mem]
          intro o ho
          have h1 : hits o.range o.metadata.address = 1 := by
            rw [hits_eq_one]
            have := (hos o ho).2
            simp only [points, TensorMemoryObj.range, Set.mem_Ico]
            omega
          have h2 : hits o.range o.metadata.address ≤
              cover (validRanges os) o.metadata.address := by
            apply hits_le_cover
            exact List.mem_map_of_mem (List.mem_filter.mpr ⟨ho, (hos o ho).1⟩)
          have h3 := hcov o.metadata.address
          rw [Int.add_zero, hits_self] at h3
          omega
        · rw [if_neg (lt_irrefl _)] at hl'
          exact .inl hl'.eq_nil

theorem merged_set (h : s.Merged) {o o' : TensorMemoryObj} (hget : s.objs[i]? = some o)
    (hsame : o.SameRange o') : Merged { s with objs := s.objs.set i o' } := by
  refine ⟨accounted_set h.accounted hget hsame, fun d hd => ?_,
    .inl (h.settled_of_getElem? hget)⟩
  rcases List.mem_or_eq_of_mem_set hd with hd | rfl
  · exact h.objs_pos d hd
  · have hpos := h.objs_pos o (List.mem_of_getElem? hget)
    have hrange := hsame.1
    simp only [TensorMemoryObj.range, Prod.mk.injEq] at hrange
    omega

theorem merged_updateObj (h : s.Merged) (i : Nat) {f : TensorMemoryObj → TensorMemoryObj}
    (hf : ∀ o : TensorMemoryObj, o.SameRange (f o)) : (s.updateObj i f).Merged := by
  unfold updateObj
  split
  · exact h
  · rename_i o hget
    exact merged_set h hget (hf o)

theorem merged_decrement (h : s.Merged) (i : Nat) {f : TensorMemoryObj → TensorMemoryObj × Bool}
    (hf : ∀ o : TensorMemoryObj, o.SameRange (f o).1) : (s.decrement i f).Merged := by
  unfold decrement
  split
  · exact h
  · rename_i o hget
    have hset := merged_set h hget (hf o)
    dsimp only
    split
    · exact (hset.free i).1
    · exact hset

/-- **Step lemma.** -/
theorem merged_step (s : ObjectPool) (c : PoolCall) (h : s.Merged) (hask : s.AsksForBytes c) :
    (s.step c).Merged := by
  cases c with
  | allocate shapes dtypes fmt =>
    exact merged_handed h (handed_allocate h.accounted.align_pos shapes dtypes fmt)
      (handful_allocate h.accounted.align_pos fmt hask)
  | batchedAllocate shapes dtypes batchSize fmt =>
    exact merged_handed h (handed_batchedAllocate h.accounted.align_pos shapes dtypes batchSize fmt)
      (handful_batchedAllocate h.accounted.align_pos batchSize fmt hask)
  | refCountUp i => exact merged_updateObj h i TensorMemoryObj.sameRange_refCountUp
  | refCountDown i => exact merged_decrement h i TensorMemoryObj.sameRange_refCountDown
  | pin i => exact merged_updateObj h i TensorMemoryObj.sameRange_pin
  | unpin i =>
    exact merged_updateObj (merged_decrement h i TensorMemoryObj.sameRange_unpinDecrement) i
      TensorMemoryObj.sameRange_unpinClamp
  | free i => exact (h.free i).1
  | batchedFree is => exact (h.batchedFree is).1

theorem merged_init (numel : Nat) {alignBytes : Int} (ha : 0 < alignBytes)
    (initAddressSpace : Option Nat) : (init (.init numel alignBytes initAddressSpace)).Merged where
  accounted := accounted_init ha initAddressSpace
  objs_pos := by simp [init]
  settled := by
    by_cases hpos : 0 < initAddressSpace.getD numel
    · left
      refine ⟨List.pairwise_singleton _ _, fun b hb => ?_⟩
      obtain rfl := List.mem_singleton.mp hb
      exact Int.natCast_pos.mpr hpos
    · right
      have hzero : initAddressSpace.getD numel = 0 := by omega
      refine ⟨rfl, .inr ?_⟩
      show [FreeBlock.mk 0 (initAddressSpace.getD numel : Nat)] = _
      rw [hzero]
      rfl

/-- **A batch freed at once is a batch freed one by one**, in every state that requests for at least
one byte lead to. -/
theorem always_freesAlike (numel : Nat) {alignBytes : Int} (ha : 0 < alignBytes)
    (initAddressSpace : Option Nat) {calls : List PoolCall}
    (hcalls : Guarded step AsksForBytes (init (.init numel alignBytes initAddressSpace)) calls) :
    Always step FreesAlike (init (.init numel alignBytes initAddressSpace)) calls :=
  (always_of_guarded merged_step (merged_init numel ha initAddressSpace) hcalls).mono
    fun _ h => h.freesAlike

/-- A batch and a single object, of which some are freed. -/
theorem always_freesAlike_partlyFreed :
    Always step FreesAlike (init (.init 65536 4096 none))
      [.batchedAllocate (.one [5000]) (.one .uint8) 3 .KV_2LTD, .allocate (.one [7]) (.one .int64)
        .KV_2LTD, .free 1, .refCountDown 3] :=
  always_freesAlike 65536 (by decide) none (by decide +kernel)

/-- It can fail: an object of no bytes is handed out at the address of the next one.  Freed one by
one, the first leaves an empty block that keeps the second from joining the free block behind it;
freed at once, they are one range. -/
theorem not_freesAlike_noBytes :
    let s := run step (init (.init 8192 4096 none))
      [.allocate (.one [0]) (.one .uint8) .KV_2LTD, .allocate (.one [4096]) (.one .uint8) .KV_2LTD]
    ¬s.FreesAlike ∧
      (s.batchedFree [0, 1]).allocator.addressManager.blocks = [⟨0, 8192⟩] ∧
      ([0, 1].foldl ObjectPool.free s).allocator.addressManager.blocks =
        [⟨0, 0⟩, ⟨0, 4096⟩, ⟨4096, 4096⟩] := by
  intro s
  have hbatch : (s.batchedFree [0, 1]).allocator.addressManager.blocks = [⟨0, 8192⟩] := by
    decide +kernel
  have hsingle : ([0, 1].foldl ObjectPool.free s).allocator.addressManager.blocks =
      [⟨0, 0⟩, ⟨0, 4096⟩, ⟨4096, 4096⟩] := by
    decide +kernel
  refine ⟨fun h => ?_, hbatch, hsingle⟩
  rw [(h [0, 1]).1, hsingle] at hbatch
  simp at hbatch

end ObjectPool

end LMCache.Memory
