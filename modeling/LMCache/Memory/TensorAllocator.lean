/-
# LMCache.Memory.TensorAllocator — objects with counters over one address space.

Source: `v1/memory_management.py`, `TensorMemoryAllocator`, together with the free paths of
`TensorMemoryObj.ref_count_down` and `TensorMemoryObj.unpin`.

The allocator owns a flat buffer and an `AddressManager`.  An object can reach a free path in four
ways: an explicit `free`, a `batched_free`, a reference count that drops to 0 and a pin count that
drops to 0.  What stops a range from being returned twice is the `valid` flag alone.

`ObjectPool` puts the allocator together with every object it has handed out (an object is named by
its position) and records, for the statements only, each call of `AddressManager.free` with the
objects it was made for.  The invariant `Accounted` is an equation of cover counts, so neither the
order of the free list nor the sign of an alignment remainder matters; its step lemmas go through
the two facts of `AddressSpace`: allocating takes a range off the free side, freeing puts it back.
-/
import Mathlib.Tactic
import LMCache.Memory.AddressSpace
import LMCache.Memory.MemoryObj

namespace LMCache.Memory

open LMCache.Lib

/-! ## The source -/

structure TensorMemoryAllocator where
  buffer : BufferSlice
  addressManager : AddressManager
  numActiveAllocations : Int

namespace TensorMemoryAllocator

/-- `TensorMemoryAllocator(tensor, align_bytes, init_address_space)` over a buffer of `numel`
bytes. -/
def init (numel : Nat) (alignBytes : Int := AddressManager.ALIGN_BYTES)
    (initAddressSpace : Option Nat := none) : TensorMemoryAllocator where
  buffer := ⟨0, numel⟩
  addressManager := .init (initAddressSpace.getD numel) alignBytes
  numActiveAllocations := 0

def totalAllocatedSize (a : TensorMemoryAllocator) : Int := a.addressManager.totalAllocatedSize

/-- `_get_buffer_slice`. -/
def getBufferSlice (a : TensorMemoryAllocator) (start size : Int) : BufferSlice :=
  a.buffer.slice start (start + size)

/-- `allocate`: the object, `None` when no block is free, or an exception. -/
def allocate (a : TensorMemoryAllocator) (shapes : OneOrList TorchSize)
    (dtypes : OneOrList TorchDtype) (fmt : MemoryFormat) :
    Except PyError (Option TensorMemoryObj) × TensorMemoryAllocator :=
  match adaptShapesAndDtypes shapes dtypes with
  | .error e => (.error e, a)
  | .ok (shapes, dtypes) =>
  match getSizeBytes shapes dtypes with
  | .error e => (.error e, a)
  | .ok rawSize =>
  match a.addressManager.allocate rawSize with
  | .error _ => (.ok none, a)
  | .ok ((blockStart, alignedSize), m) =>
    let a := { a with
      addressManager := m
      numActiveAllocations := a.numActiveAllocations + 1 }
    match shapes, dtypes with
    | shape :: _, dtype :: _ =>
      (.ok (some (.init (a.getBufferSlice blockStart rawSize) shape dtype blockStart alignedSize
        fmt shapes dtypes)), a)
    | _, _ => (.error (.indexError indexMessage), a)

/-- The loop of `batched_allocate` over the chunks of the block, from address `tempStart` on. -/
def batchObjs (shape : TorchSize) (dtype : TorchDtype) (unitAlignedSize : Int)
    (fmt : MemoryFormat) (shapes : List TorchSize) (dtypes : List TorchDtype) :
    Int → List BufferSlice → List TensorMemoryObj
  | _, [] => []
  | tempStart, rawData :: rawDatas =>
    .init rawData shape dtype tempStart unitAlignedSize fmt shapes dtypes ::
      batchObjs shape dtype unitAlignedSize fmt shapes dtypes (tempStart + unitAlignedSize) rawDatas

/-- `batched_allocate`: one block for all the objects, cut into equal units. -/
def batchedAllocate (a : TensorMemoryAllocator) (shapes : OneOrList TorchSize)
    (dtypes : OneOrList TorchDtype) (batchSize : Nat) (fmt : MemoryFormat) :
    Except PyError (Option (List TensorMemoryObj)) × TensorMemoryAllocator :=
  match adaptShapesAndDtypes shapes dtypes with
  | .error e => (.error e, a)
  | .ok (shapes, dtypes) =>
  match getSizeBytes shapes dtypes with
  | .error e => (.error e, a)
  | .ok unitRawSize =>
  let unitAlignedSize := a.addressManager.computeAlignedSize unitRawSize
  let totalAlignedSize := unitAlignedSize * batchSize
  match a.addressManager.allocate totalAlignedSize with
  | .error _ => (.ok none, a)
  | .ok ((blockStart, _), m) =>
    let a := { a with
      addressManager := m
      numActiveAllocations := a.numActiveAllocations + batchSize }
    match (a.getBufferSlice blockStart totalAlignedSize).chunk batchSize with
    | .error e => (.error e, a)
    | .ok [] => (.ok (some []), a)
    | .ok (rawData :: rawDatas) =>
      match shapes, dtypes with
      | shape :: _, dtype :: _ =>
        (.ok (some (batchObjs shape dtype unitAlignedSize fmt shapes dtypes blockStart
          (rawData :: rawDatas))), a)
      | _, _ => (.error (.indexError indexMessage), a)

/-- `free`: an invalid object is left alone. -/
def free (a : TensorMemoryAllocator) (o : TensorMemoryObj) :
    TensorMemoryAllocator × TensorMemoryObj :=
  if o.valid then
    ({ a with
        addressManager := a.addressManager.free o.metadata.address o.metadata.phySize
        numActiveAllocations := a.numActiveAllocations - 1 },
      o.invalidate)
  else (a, o)

end TensorMemoryAllocator

/-! ## The allocator and the objects it handed out -/

/-- One call of `AddressManager.free`, and the objects it was made for, as they were then. -/
structure Returned where
  members : List (Nat × TensorMemoryObj)
  address : Int
  size : Int
  deriving DecidableEq, Repr

/-- An allocator, every object it has handed out, and the ranges it has returned so far. -/
structure ObjectPool where
  allocator : TensorMemoryAllocator
  objs : List TensorMemoryObj
  returned : List Returned

/-- One call on the allocator or on an object it handed out. -/
inductive PoolCall where
  | allocate (shapes : OneOrList TorchSize) (dtypes : OneOrList TorchDtype) (fmt : MemoryFormat)
  | batchedAllocate (shapes : OneOrList TorchSize) (dtypes : OneOrList TorchDtype)
      (batchSize : Nat) (fmt : MemoryFormat)
  | refCountUp (i : Nat)
  | refCountDown (i : Nat)
  | pin (i : Nat)
  | unpin (i : Nat)
  | free (i : Nat)
  | batchedFree (is : List Nat)

namespace ObjectPool

/-- A fresh allocator, nothing handed out. -/
def init (a : TensorMemoryAllocator) : ObjectPool := ⟨a, [], []⟩

/-- `self.parent_allocator.free(self)`, on the object at position `i`. -/
def free (s : ObjectPool) (i : Nat) : ObjectPool :=
  match s.objs[i]? with
  | none => s
  | some o =>
    let (a, o') := s.allocator.free o
    { allocator := a
      objs := s.objs.set i o'
      returned := if o.valid then
          s.returned ++ [⟨[(i, o)], o.metadata.address, o.metadata.phySize⟩]
        else s.returned }

/-- Replace the object at position `i` by `f` of it. -/
def updateObj (s : ObjectPool) (i : Nat) (f : TensorMemoryObj → TensorMemoryObj) : ObjectPool :=
  match s.objs[i]? with
  | none => s
  | some o => { s with objs := s.objs.set i (f o) }

/-- A counter decrement `f`, followed by `free` when it asks for it. -/
def decrement (s : ObjectPool) (i : Nat) (f : TensorMemoryObj → TensorMemoryObj × Bool) :
    ObjectPool :=
  match s.objs[i]? with
  | none => s
  | some o =>
    let s := { s with objs := s.objs.set i (f o).1 }
    if (f o).2 then s.free i else s

def refCountDown (s : ObjectPool) (i : Nat) : ObjectPool :=
  s.decrement i TensorMemoryObj.refCountDown

def unpin (s : ObjectPool) (i : Nat) : ObjectPool :=
  (s.decrement i TensorMemoryObj.unpinDecrement).updateObj i TensorMemoryObj.unpinClamp

/-! ### `batched_free` -/

/-- The variables of the coalescing loop: the objects, the run being built (`curr_start`,
`curr_size` and, for `curr_count`, its objects) and the finished runs (`coalesced_blocks`). -/
structure CoalesceLoop where
  objs : List TensorMemoryObj
  curr : Option Returned
  coalescedBlocks : List Returned

namespace CoalesceLoop

/-- One iteration: skip an invalid object, else invalidate it and extend or start a run. -/
def step (l : CoalesceLoop) (i : Nat) : CoalesceLoop :=
  match l.objs[i]? with
  | none => l
  | some o =>
    if !o.valid then l
    else
      let objs := l.objs.set i o.invalidate
      let single : Returned := ⟨[(i, o)], o.metadata.address, o.metadata.phySize⟩
      match l.curr with
      | none => { l with objs := objs, curr := some single }
      | some r =>
        if r.address + r.size = o.metadata.address then
          { l with
            objs := objs
            curr := some ⟨r.members ++ [(i, o)], r.address, r.size + o.metadata.phySize⟩ }
        else ⟨objs, some single, l.coalescedBlocks ++ [r]⟩

/-- All the runs, the one being built last. -/
def blocks (l : CoalesceLoop) : List Returned := l.coalescedBlocks ++ l.curr.toList

end CoalesceLoop

/-- `lambda x: x.meta.address`. -/
def addressOf (objs : List TensorMemoryObj) (i : Nat) : Int :=
  (objs[i]?.map fun o => o.metadata.address).getD 0

/-- `memory_objs.sort(key=lambda x: x.meta.address)`. -/
def sortByAddress (objs : List TensorMemoryObj) (is : List Nat) : List Nat :=
  is.insertionSort fun i j => addressOf objs i ≤ addressOf objs j

/-- `batched_free`: invalidate, coalesce adjacent ranges, return each run once. -/
def batchedFree (s : ObjectPool) (is : List Nat) : ObjectPool :=
  let l := (sortByAddress s.objs is).foldl CoalesceLoop.step ⟨s.objs, none, []⟩
  let totalCount := ((l.blocks.map fun r => r.members.length).sum : Nat)
  { allocator := { s.allocator with
      addressManager :=
        l.blocks.foldl (fun m r => m.free r.address r.size) s.allocator.addressManager
      numActiveAllocations := s.allocator.numActiveAllocations - totalCount }
    objs := l.objs
    returned := s.returned ++ l.blocks }

/-- The objects in the result of `allocate`: none when it returned `None` or raised. -/
def objOf : Except PyError (Option TensorMemoryObj) → List TensorMemoryObj
  | .ok (some o) => [o]
  | _ => []

/-- The objects in the result of `batched_allocate`. -/
def objsOf : Except PyError (Option (List TensorMemoryObj)) → List TensorMemoryObj
  | .ok (some os) => os
  | _ => []

/-- One call. -/
def step (s : ObjectPool) : PoolCall → ObjectPool
  | .allocate shapes dtypes fmt =>
    let r := s.allocator.allocate shapes dtypes fmt
    { s with allocator := r.2, objs := s.objs ++ objOf r.1 }
  | .batchedAllocate shapes dtypes batchSize fmt =>
    let r := s.allocator.batchedAllocate shapes dtypes batchSize fmt
    { s with allocator := r.2, objs := s.objs ++ objsOf r.1 }
  | .refCountUp i => s.updateObj i TensorMemoryObj.refCountUp
  | .refCountDown i => s.refCountDown i
  | .pin i => s.updateObj i TensorMemoryObj.pin
  | .unpin i => s.unpin i
  | .free i => s.free i
  | .batchedFree is => s.batchedFree is

end ObjectPool

/-! ## Retiring objects

`Retires objs objs' rs`: going from the objects `objs` to `objs'`, valid objects were invalidated and
their ranges collected into the entries `rs`.  The single `free` and the loop of `batched_free` both
build such a step; what an address manager makes of it is said once, in `accounted_of_retires`. -/

/-- The ranges of the objects that are still valid. -/
def validRanges (objs : List TensorMemoryObj) : List (Int × Int) :=
  (objs.filter fun o => o.valid).map TensorMemoryObj.range

namespace Returned

def range (r : Returned) : Int × Int := (r.address, r.address + r.size)

def ids (r : Returned) : List Nat := r.members.map Prod.fst

/-- The ranges of the objects an entry was made for. -/
def memberRanges (r : Returned) : List (Int × Int) := r.members.map fun p => p.2.range

/-- The entry for a single object. -/
def single (i : Nat) (o : TensorMemoryObj) : Returned :=
  ⟨[(i, o)], o.metadata.address, o.metadata.phySize⟩

/-- The entry extended by an object behind its range. -/
def extend (r : Returned) (i : Nat) (o : TensorMemoryObj) : Returned :=
  ⟨r.members ++ [(i, o)], r.address, r.size + o.metadata.phySize⟩

end Returned

theorem validRanges_perm {objs objs' : List TensorMemoryObj} (h : objs.Perm objs') :
    (validRanges objs).Perm (validRanges objs') := (h.filter _).map _

theorem cover_validRanges_cons (o : TensorMemoryObj) (objs : List TensorMemoryObj) (x : Int) :
    cover (validRanges (o :: objs)) x =
      (if o.valid then hits o.range x else 0) + cover (validRanges objs) x := by
  cases h : o.valid <;> simp [validRanges, h]

theorem set_perm {α : Type} {l : List α} {i : Nat} {a b : α} (h : l[i]? = some a) :
    (l.set i b).Perm (b :: l.eraseIdx i) := by
  obtain ⟨hi, -⟩ := List.getElem?_eq_some_iff.mp h
  have hget : (l.set i b)[i]? = some b := by simp [hi]
  have herase : (l.set i b).eraseIdx i = l.eraseIdx i := List.eraseIdx_set_eq
  exact herase ▸ SortedKeyList.perm_of_getElem? hget

variable {objs : List TensorMemoryObj} {i : Nat} {o : TensorMemoryObj}

/-- Replacing one object changes the cover count by the difference of the two. -/
theorem cover_validRanges_set
    (h : objs[i]? = some o) (o' : TensorMemoryObj) (x : Int) :
    cover (validRanges (objs.set i o')) x + (if o.valid then hits o.range x else 0) =
      cover (validRanges objs) x + (if o'.valid then hits o'.range x else 0) := by
  rw [cover_perm (validRanges_perm (set_perm h)),
    cover_perm (validRanges_perm (SortedKeyList.perm_of_getElem? h)), cover_validRanges_cons,
    cover_validRanges_cons]
  omega

/-- A valid object covers its range. -/
theorem hits_le_validRanges
    (h : objs[i]? = some o) (hv : o.valid = true) (x : Int) :
    hits o.range x ≤ cover (validRanges objs) x := by
  apply hits_le_cover
  exact List.mem_map_of_mem (List.mem_filter.mpr ⟨List.mem_of_getElem? h, hv⟩)

/-- Two valid objects cover their ranges together. -/
theorem hits_add_le_validRanges {i j : Nat} {o o' : TensorMemoryObj}
    (hne : j ≠ i) (h' : objs[j]? = some o') (hv' : o'.valid = true) (h : objs[i]? = some o)
    (hv : o.valid = true) (x : Int) :
    hits o'.range x + hits o.range x ≤ cover (validRanges objs) x := by
  have hset := cover_validRanges_set h o.invalidate x
  have hother : (objs.set i o.invalidate)[j]? = some o' := by rw [List.getElem?_set_ne hne.symm, h']
  have hle := hits_le_validRanges hother hv' x
  rw [hv, if_pos rfl] at hset
  have hgone : (if o.invalidate.valid then hits o.invalidate.range x else 0) = 0 := if_neg nofun
  omega

structure Retires (objs objs' : List TensorMemoryObj) (rs : List Returned) : Prop where
  length : objs'.length = objs.length
  obj_nonneg : ∀ o ∈ objs', 0 ≤ o.metadata.phySize
  cover : ∀ x, cover (validRanges objs) x =
    cover (validRanges objs') x + cover (rs.map Returned.range) x
  exact : ∀ r ∈ rs, ∀ x, Lib.cover r.memberRanges x = hits r.range x
  size_nonneg : ∀ r ∈ rs, 0 ≤ r.size
  invalid_stays : ∀ (i : Nat) (o : TensorMemoryObj), objs[i]? = some o → o.valid = false →
    objs'[i]? = some o
  now_invalid : ∀ i ∈ rs.flatMap Returned.ids, ∃ o : TensorMemoryObj, objs'[i]? = some o ∧ o.valid = false
  was_valid : ∀ i ∈ rs.flatMap Returned.ids, ∃ o : TensorMemoryObj, objs[i]? = some o ∧ o.valid = true
  nodup : (rs.flatMap Returned.ids).Nodup

namespace Retires

variable {objs' : List TensorMemoryObj} {rs : List Returned}

theorem refl (h : ∀ o ∈ objs, 0 ≤ o.metadata.phySize) : Retires objs objs [] where
  length := rfl
  obj_nonneg := h
  cover := by simp
  exact := by simp
  size_nonneg := by simp
  invalid_stays := fun _ _ h _ => h
  now_invalid := by simp
  was_valid := by simp
  nodup := by simp

/-- What invalidating one more object does to everything but the entries. -/
theorem invalidate (h : Retires objs objs' rs) (hget : objs'[i]? = some o) (hv : o.valid = true) :
    (objs'.set i o.invalidate).length = objs.length ∧
      (∀ d ∈ objs'.set i o.invalidate, 0 ≤ d.metadata.phySize) ∧ 0 ≤ o.metadata.phySize ∧
      (∀ x, Lib.cover (validRanges objs') x =
        Lib.cover (validRanges (objs'.set i o.invalidate)) x + hits o.range x) ∧
      (∀ (j : Nat) (d : TensorMemoryObj), objs[j]? = some d → d.valid = false →
        (objs'.set i o.invalidate)[j]? = some d) ∧
      (∃ d : TensorMemoryObj, objs[i]? = some d ∧ d.valid = true) ∧ i ∉ rs.flatMap Returned.ids ∧
      (∀ j ∈ rs.flatMap Returned.ids ++ [i],
        ∃ d : TensorMemoryObj, (objs'.set i o.invalidate)[j]? = some d ∧ d.valid = false) := by
  have ho : 0 ≤ o.metadata.phySize := h.obj_nonneg o (List.mem_of_getElem? hget)
  have hlt : i < objs'.length := (List.getElem?_eq_some_iff.mp hget).1
  have hnew : i ∉ rs.flatMap Returned.ids := fun hmem => by
    obtain ⟨d, hd, hinv⟩ := h.now_invalid i hmem
    rw [hget] at hd
    cases hd
    rw [hv] at hinv
    cases hinv
  refine ⟨by rw [List.length_set, h.length], fun d hd => ?_, ho, fun x => ?_, fun j d hj hd => ?_,
    ?_, hnew, fun j hj => ?_⟩
  · rcases List.mem_or_eq_of_mem_set hd with hd | rfl
    · exact h.obj_nonneg d hd
    · exact ho
  · have := cover_validRanges_set hget o.invalidate x
    simp only [hv, if_true] at this
    simpa [TensorMemoryObj.invalidate] using this.symm
  · have hj' := h.invalid_stays j d hj hd
    have hne : i ≠ j := fun hij => by
      subst hij
      rw [hget] at hj'
      cases hj'
      rw [hv] at hd
      cases hd
    rw [List.getElem?_set_ne hne]
    exact hj'
  · obtain ⟨d, hd⟩ : ∃ d, objs[i]? = some d :=
      ⟨_, List.getElem?_eq_getElem (h.length ▸ hlt)⟩
    refine ⟨d, hd, ?_⟩
    by_contra hdv
    have := h.invalid_stays i d hd (by simpa using hdv)
    rw [hget] at this
    cases this
    exact hdv hv
  · by_cases hij : i = j
    · subst hij
      exact ⟨o.invalidate, by rw [List.getElem?_set_self hlt], rfl⟩
    · rw [List.getElem?_set_ne hij]
      rcases List.mem_append.mp hj with hj | hj
      · exact h.now_invalid j hj
      · exact absurd (List.mem_singleton.mp hj).symm hij

/-- One more object, with an entry of its own. -/
theorem snoc (h : Retires objs objs' rs) (hget : objs'[i]? = some o) (hv : o.valid = true) :
    Retires objs (objs'.set i o.invalidate) (rs ++ [.single i o]) := by
  obtain ⟨hlen, hnn, ho, hcov, hstay, hwas, hnew, hnow⟩ := h.invalidate hget hv
  have hids : (rs ++ [Returned.single i o]).flatMap Returned.ids
      = rs.flatMap Returned.ids ++ [i] := by simp [Returned.ids, Returned.single]
  refine ⟨hlen, hnn, fun x => ?_, fun r hr => ?_, fun r hr => ?_, hstay, hids ▸ hnow,
    fun j hj => ?_, ?_⟩
  · rw [h.cover x, hcov x, List.map_append, cover_append]
    simp only [List.map_cons, List.map_nil, cover_cons, cover_nil]
    show _ + hits o.range x + _ = _ + (_ + (hits o.range x + 0))
    omega
  · rcases List.mem_append.mp hr with hr | hr
    · exact h.exact r hr
    · obtain rfl := List.mem_singleton.mp hr
      intro x
      simp [Returned.memberRanges, Returned.single, Returned.range, TensorMemoryObj.range]
  · rcases List.mem_append.mp hr with hr | hr
    · exact h.size_nonneg r hr
    · obtain rfl := List.mem_singleton.mp hr
      exact ho
  · rw [hids] at hj
    rcases List.mem_append.mp hj with hj | hj
    · exact h.was_valid j hj
    · obtain rfl := List.mem_singleton.mp hj
      exact hwas
  · rw [hids]
    exact List.nodup_append.mpr ⟨h.nodup, List.nodup_singleton i, fun a ha b hb hab =>
      hnew (by rw [← List.mem_singleton.mp hb, ← hab]; exact ha)⟩

/-- One more object, in the last entry, when its range starts where the entry ends. -/
theorem extend {r : Returned} (h : Retires objs objs' (rs ++ [r])) (hget : objs'[i]? = some o)
    (hv : o.valid = true) (hadj : r.address + r.size = o.metadata.address) :
    Retires objs (objs'.set i o.invalidate) (rs ++ [r.extend i o]) := by
  obtain ⟨hlen, hnn, ho, hcov, hstay, hwas, hnew, hnow⟩ := h.invalidate hget hv
  have hids : (rs ++ [r.extend i o]).flatMap Returned.ids
      = (rs ++ [r]).flatMap Returned.ids ++ [i] := by simp [Returned.ids, Returned.extend]
  have hr0 : 0 ≤ r.size := h.size_nonneg r (by simp)
  have hcut : ∀ x, hits (r.extend i o).range x = hits r.range x + hits o.range x := fun x => by
    rw [TensorMemoryObj.range, ← hadj]
    exact range_split hr0 ho x
  refine ⟨hlen, hnn, fun x => ?_, fun q hq => ?_, fun q hq => ?_, hstay, hids ▸ hnow,
    fun j hj => ?_, ?_⟩
  · have h1 := h.cover x
    have h2 := hcov x
    have h3 := hcut x
    simp only [List.map_append, List.map_cons, List.map_nil, cover_append, cover_cons, cover_nil]
      at h1 ⊢
    omega
  · rcases List.mem_append.mp hq with hq | hq
    · exact h.exact q (by simp [hq])
    · obtain rfl := List.mem_singleton.mp hq
      intro x
      have hrx := h.exact r (by simp) x
      rw [hcut x, ← hrx]
      simp [Returned.memberRanges, Returned.extend]
  · rcases List.mem_append.mp hq with hq | hq
    · exact h.size_nonneg q (by simp [hq])
    · obtain rfl := List.mem_singleton.mp hq
      exact Int.add_nonneg hr0 ho
  · rw [hids] at hj
    rcases List.mem_append.mp hj with hj | hj
    · exact h.was_valid j hj
    · obtain rfl := List.mem_singleton.mp hj
      exact hwas
  · rw [hids]
    exact List.nodup_append.mpr ⟨h.nodup, List.nodup_singleton i, fun a ha b hb hab =>
      hnew (by rw [← List.mem_singleton.mp hb, ← hab]; exact ha)⟩

end Retires

variable {l : ObjectPool.CoalesceLoop}

/-- One iteration of the coalescing loop. -/
theorem retires_step (i : Nat) (h : Retires objs l.objs l.blocks) :
    Retires objs (l.step i).objs (l.step i).blocks := by
  unfold ObjectPool.CoalesceLoop.step
  split
  · exact h
  · rename_i o hget
    cases hv : o.valid with
    | false => exact h
    | true =>
      simp only [Bool.not_true, Bool.false_eq_true, if_false]
      split
      · rename_i hnone
        have := h.snoc hget hv
        rwa [ObjectPool.CoalesceLoop.blocks, hnone, Option.toList_none, List.append_nil] at this
      · rename_i r hsome
        rw [ObjectPool.CoalesceLoop.blocks, hsome, Option.toList_some] at h
        split
        · rename_i hadj
          exact h.extend hget hv hadj
        · exact h.snoc hget hv

/-- The whole coalescing loop. -/
theorem retires_foldl (is : List Nat)
    (h : Retires objs l.objs l.blocks) :
    Retires objs (is.foldl ObjectPool.CoalesceLoop.step l).objs
      (is.foldl ObjectPool.CoalesceLoop.step l).blocks := by
  induction is generalizing l with
  | nil => exact h
  | cons i is ih => exact ih (retires_step i h)

/-! ## The invariant -/

namespace ObjectPool

/-- How often the free blocks and the valid objects together cover an address. -/
def covered (s : ObjectPool) (x : Int) : Nat :=
  cover (blockRanges s.allocator.addressManager.blocks) x + cover (validRanges s.objs) x

/-- Every address is covered at most once by the free blocks and the valid objects together; the
objects whose range was returned are invalid, pairwise distinct, and their ranges make up exactly
what was returned. -/
structure Accounted (s : ObjectPool) : Prop where
  align_pos : 0 < s.allocator.addressManager.align
  block_nonneg : ∀ b ∈ s.allocator.addressManager.blocks, 0 ≤ b.size
  obj_nonneg : ∀ o ∈ s.objs, 0 ≤ o.metadata.phySize
  once : ∀ x, cover (blockRanges s.allocator.addressManager.blocks) x
    + cover (validRanges s.objs) x ≤ 1
  invalid : ∀ i ∈ s.returned.flatMap Returned.ids,
    ∃ o : TensorMemoryObj, s.objs[i]? = some o ∧ o.valid = false
  nodup : (s.returned.flatMap Returned.ids).Nodup
  exact : ∀ r ∈ s.returned, ∀ x, cover r.memberRanges x = hits r.range x

theorem accounted_init {numel : Nat} {alignBytes : Int} (ha : 0 < alignBytes)
    (initAddressSpace : Option Nat) :
    Accounted (init (.init numel alignBytes initAddressSpace)) where
  align_pos := ha
  block_nonneg := fun b hb => by
    obtain rfl := List.mem_singleton.mp hb
    exact Int.natCast_nonneg _
  obj_nonneg := by simp [init]
  once := fun x => by
    have hone : ∀ r : Int × Int, cover [r] x + 0 ≤ 1 := fun r => by
      simpa using hits_le_one r x
    exact hone _
  invalid := by simp [init]
  nodup := by simp [init]
  exact := by simp [init]

variable {rs : List Returned} {objs' : List TensorMemoryObj} {s : ObjectPool}
  {f : TensorMemoryObj → TensorMemoryObj × Bool} {a : TensorMemoryAllocator} {dtype : TorchDtype}
  {dtypes : List TorchDtype} {fmt : MemoryFormat} {shape : TorchSize} {shapes : List TorchSize}

/-- Returning the entries of a retirement, one `AddressManager.free` each. -/
theorem free_entries (hrs : ∀ r ∈ rs, 0 ≤ r.size) (m : AddressManager)
    (hm : ∀ b ∈ m.blocks, 0 ≤ b.size) :
    (∀ b ∈ (rs.foldl (fun m r => m.free r.address r.size) m).blocks, 0 ≤ b.size) ∧
      (rs.foldl (fun m r => m.free r.address r.size) m).align = m.align ∧
      ∀ x, cover (blockRanges (rs.foldl (fun m r => m.free r.address r.size) m).blocks) x =
        cover (blockRanges m.blocks) x + cover (rs.map Returned.range) x := by
  induction rs generalizing m with
  | nil => exact ⟨hm, rfl, fun x => by simp⟩
  | cons r rs ih =>
    have hr : 0 ≤ r.size := hrs r (by simp)
    obtain ⟨h1, h2, h3⟩ := ih (fun q hq => hrs q (by simp [hq])) (m.free r.address r.size)
      (AddressManager.free_nonneg hr hm)
    refine ⟨h1, h2, fun x => ?_⟩
    have h4 := AddressManager.free_cover (a := r.address) hr hm x
    rw [List.foldl_cons, h3 x, List.map_cons, cover_cons, h4]
    exact Nat.add_assoc _ _ _

/-- What is retired is covered by a free block from then on. -/
theorem covered_of_retires (h : Accounted s) (hret : Retires s.objs objs' rs) (n : Int) (x : Int) :
    covered
      { allocator := { s.allocator with
          addressManager :=
            rs.foldl (fun m r => m.free r.address r.size) s.allocator.addressManager
          numActiveAllocations := n }
        objs := objs'
        returned := s.returned ++ rs } x = s.covered x := by
  have h2 := (free_entries hret.size_nonneg s.allocator.addressManager h.block_nonneg).2.2 x
  have h3 := hret.cover x
  unfold covered
  dsimp only
  omega

/-- A retirement followed by the return of its entries keeps the invariant. -/
theorem accounted_of_retires (h : Accounted s) (hret : Retires s.objs objs' rs) (n : Int) :
    Accounted
      { allocator := { s.allocator with
          addressManager :=
            rs.foldl (fun m r => m.free r.address r.size) s.allocator.addressManager
          numActiveAllocations := n }
        objs := objs'
        returned := s.returned ++ rs } := by
  obtain ⟨hnn, halign, -⟩ :=
    free_entries hret.size_nonneg s.allocator.addressManager h.block_nonneg
  refine ⟨halign ▸ h.align_pos, hnn, hret.obj_nonneg, fun x => ?_, fun i hi => ?_, ?_,
    fun r hr => ?_⟩
  · exact (covered_of_retires h hret n x).trans_le (h.once x)
  · rw [List.flatMap_append, List.mem_append] at hi
    rcases hi with hi | hi
    · obtain ⟨o, hget, hinv⟩ := h.invalid i hi
      exact ⟨o, hret.invalid_stays i o hget hinv, hinv⟩
    · exact hret.now_invalid i hi
  · rw [List.flatMap_append]
    refine List.nodup_append.mpr ⟨h.nodup, hret.nodup, fun i hi j hj hij => ?_⟩
    -- what was returned before is invalid, what is returned now was valid
    subst hij
    obtain ⟨o, hget, hinv⟩ := h.invalid i hi
    obtain ⟨o', hget', hval⟩ := hret.was_valid i hj
    rw [hget] at hget'
    cases hget'
    rw [hinv] at hval
    cases hval
  · rcases List.mem_append.mp hr with hr | hr
    · exact h.exact r hr
    · exact hret.exact r hr

/-- Freeing an object does nothing, or retires that one object. -/
theorem free_cases (h : Accounted s) (i : Nat) :
    s.free i = s ∨ ∃ objs' rs, Retires s.objs objs' rs ∧ s.free i =
      { allocator := { s.allocator with
          addressManager :=
            rs.foldl (fun m r => m.free r.address r.size) s.allocator.addressManager
          numActiveAllocations := s.allocator.numActiveAllocations - 1 }
        objs := objs'
        returned := s.returned ++ rs } := by
  unfold free
  split
  · exact .inl rfl
  · rename_i o hget
    match hv : o.valid with
    | false =>
      left
      have hset : s.objs.set i o = s.objs := by
        obtain ⟨hlt, rfl⟩ := List.getElem?_eq_some_iff.mp hget
        exact List.set_getElem_self hlt
      simp [TensorMemoryAllocator.free, hv, hset]
    | true =>
      right
      have hret := (Retires.refl h.obj_nonneg).snoc hget hv
      exact ⟨_, _, hret, by simp [TensorMemoryAllocator.free, hv, Returned.single]⟩

theorem accounted_free (h : Accounted s) (i : Nat) : Accounted (s.free i) := by
  rcases free_cases h i with heq | ⟨objs', rs, hret, heq⟩
  · rw [heq]
    exact h
  · rw [heq]
    exact accounted_of_retires h hret _

theorem covered_free (h : Accounted s) (i : Nat) (x : Int) :
    (s.free i).covered x = s.covered x := by
  rcases free_cases h i with heq | ⟨objs', rs, hret, heq⟩
  · rw [heq]
  · rw [heq]
    exact covered_of_retires h hret _ x

theorem accounted_batchedFree (h : Accounted s) (is : List Nat) : Accounted (s.batchedFree is) :=
  accounted_of_retires h (retires_foldl _ (l := ⟨s.objs, none, []⟩) (Retires.refl h.obj_nonneg)) _

theorem covered_set {o' : TensorMemoryObj} (hget : s.objs[i]? = some o)
    (hsame : o.SameRange o') (x : Int) :
    covered { s with objs := s.objs.set i o' } x = s.covered x := by
  have h1 := cover_validRanges_set hget o' x
  rw [hsame.1, hsame.2] at h1
  unfold covered
  dsimp only
  omega

/-- A change of an object that leaves its range and its validity alone. -/
theorem accounted_set (h : Accounted s) {o' : TensorMemoryObj}
    (hget : s.objs[i]? = some o) (hsame : o.SameRange o') :
    Accounted { s with objs := s.objs.set i o' } := by
  obtain ⟨hrange, hvalid⟩ := hsame
  have hphy : o'.metadata.phySize = o.metadata.phySize := by
    simp only [TensorMemoryObj.range, Prod.mk.injEq] at hrange
    omega
  refine ⟨h.align_pos, h.block_nonneg, fun d hd => ?_, fun x => ?_, fun j hj => ?_, h.nodup,
    h.exact⟩
  · rcases List.mem_or_eq_of_mem_set hd with hd | rfl
    · exact h.obj_nonneg d hd
    · rw [hphy]; exact h.obj_nonneg o (List.mem_of_getElem? hget)
  · exact (covered_set hget ⟨hrange, hvalid⟩ x).trans_le (h.once x)
  · obtain ⟨d, hd, hinv⟩ := h.invalid j hj
    have hlt : i < s.objs.length := (List.getElem?_eq_some_iff.mp hget).1
    by_cases hij : i = j
    · subst hij
      rw [hget] at hd
      cases hd
      exact ⟨o', by simp [hlt], hvalid.trans hinv⟩
    · exact ⟨d, by simpa [List.getElem?_set_ne hij] using hd, hinv⟩

theorem accounted_updateObj (h : Accounted s) (i : Nat) {f : TensorMemoryObj → TensorMemoryObj}
    (hf : ∀ o : TensorMemoryObj, o.SameRange (f o)) : Accounted (s.updateObj i f) := by
  unfold updateObj
  split
  · exact h
  · rename_i o hget
    exact accounted_set h hget (hf o)

theorem accounted_decrement (h : Accounted s) (i : Nat)
    (hf : ∀ o : TensorMemoryObj, o.SameRange (f o).1) : Accounted (s.decrement i f) := by
  unfold decrement
  split
  · exact h
  · rename_i o hget
    have := accounted_set h hget (hf o)
    dsimp only
    split
    · exact accounted_free this i
    · exact this

theorem covered_decrement (h : Accounted s) (i : Nat)
    (hf : ∀ o : TensorMemoryObj, o.SameRange (f o).1) (x : Int) :
    (s.decrement i f).covered x = s.covered x := by
  unfold decrement
  split
  · rfl
  · rename_i o hget
    have hset := covered_set hget (hf o) x
    dsimp only
    split
    · exact (covered_free (accounted_set h hget (hf o)) i x).trans hset
    · exact hset

/-! ### Handing out -/

/-- What an allocating call does: nothing, or it takes one block from the address manager and hands
out objects that lie inside it without overlapping. -/
inductive Handed (a : TensorMemoryAllocator) :
    TensorMemoryAllocator → List TensorMemoryObj → Prop
  | nothing : Handed a a []
  | block {raw start n k : Int} {m : AddressManager} {os : List TensorMemoryObj} (hn : 0 ≤ n)
      (hok : a.addressManager.allocate raw = .ok ((start, n), m))
      (hos : ∀ o ∈ os, 0 ≤ o.metadata.phySize)
      (hcov : ∀ x, cover (validRanges os) x ≤ hits (start, start + n) x) :
      Handed a { a with addressManager := m, numActiveAllocations := k } os

/-- A call that raised after it took its block hands out nothing. -/
theorem Handed.raised {raw start n k : Int} {m : AddressManager} (hn : 0 ≤ n)
    (hok : a.addressManager.allocate raw = .ok ((start, n), m)) :
    Handed a { a with addressManager := m, numActiveAllocations := k } [] :=
  .block hn hok (by simp) fun x => by simp [validRanges]

theorem covered_handed {a' : TensorMemoryAllocator} {os : List TensorMemoryObj}
    (hand : Handed s.allocator a' os) (x : Int) :
    covered { s with allocator := a', objs := s.objs ++ os } x ≤ s.covered x := by
  cases hand with
  | nothing => rw [List.append_nil]
  | @block raw start n k m os hn hok hos hcov =>
    have h2 := AddressManager.allocate_cover hn hok x
    have h3 := hcov x
    have h4 : cover (validRanges (s.objs ++ os)) x =
        cover (validRanges s.objs) x + cover (validRanges os) x := by
      simp [validRanges]
    unfold covered
    dsimp only
    omega

theorem accounted_handed (h : Accounted s) {a' : TensorMemoryAllocator} {os : List TensorMemoryObj}
    (hand : Handed s.allocator a' os) :
    Accounted { s with allocator := a', objs := s.objs ++ os } := by
  have hcovered := covered_handed hand
  cases hand with
  | nothing => simpa using h
  | @block raw start n k m os hn hok hos hcov =>
    obtain ⟨-, -, -, -, -, -, -, -, halign, -⟩ := AddressManager.allocate_ok hok
    refine ⟨?_, AddressManager.allocate_nonneg hok h.block_nonneg, fun o ho => ?_, fun x => ?_,
      fun i hi => ?_, h.nodup, h.exact⟩
    · show 0 < m.align
      rw [halign]
      exact h.align_pos
    · rcases List.mem_append.mp ho with ho | ho
      · exact h.obj_nonneg o ho
      · exact hos o ho
    · exact (hcovered x).trans (h.once x)
    · obtain ⟨o, hget, hinv⟩ := h.invalid i hi
      have hlt : i < s.objs.length := (List.getElem?_eq_some_iff.mp hget).1
      exact ⟨o, by rw [List.getElem?_append_left hlt]; exact hget, hinv⟩

/-- The units of a batch stand one behind the other. -/
theorem cover_batchObjs {unit : Int} (hu : 0 ≤ unit) (l : List BufferSlice) (start : Int) (x : Int)
    :
    cover (validRanges
      (TensorMemoryAllocator.batchObjs shape dtype unit fmt shapes dtypes start l)) x =
      hits (start, start + unit * l.length) x := by
  induction l generalizing start with
  | nil => simp [TensorMemoryAllocator.batchObjs, validRanges, hits_self]
  | cons r l ih =>
    have hlen : 0 ≤ unit * (l.length : Int) := Int.mul_nonneg hu (Int.natCast_nonneg _)
    have hcut := range_split (s := start) hu hlen x
    have hmul : unit * ((r :: l).length : Int) = unit + unit * (l.length : Int) := by
      push_cast [List.length_cons]; ring
    rw [TensorMemoryAllocator.batchObjs, cover_validRanges_cons, ih (start + unit), hmul, hcut]
    rfl

/-- An object of a batch: where it starts, and what it is made of. -/
theorem mem_batchObjs {unit : Int} (l : List BufferSlice) (start : Int)
    (ho : o ∈ TensorMemoryAllocator.batchObjs shape dtype unit fmt shapes dtypes start l) :
    ∃ (k : Nat) (r : BufferSlice), k < l.length ∧
      o = .init r shape dtype (start + unit * k) unit fmt shapes dtypes := by
  induction l generalizing start with
  | nil => cases ho
  | cons r l ih =>
    rcases List.mem_cons.mp ho with rfl | ho
    · exact ⟨0, r, Nat.succ_pos _, by rw [Nat.cast_zero, Int.mul_zero, Int.add_zero]⟩
    · obtain ⟨k, r', hk, rfl⟩ := ih (start + unit) ho
      have hnext : start + unit + unit * k = start + unit * (k + 1 : Nat) := by
        push_cast
        ring
      exact ⟨k + 1, r', Nat.succ_lt_succ hk, by rw [hnext]⟩

theorem batchObjs_phySize {unit : Int} (l : List BufferSlice) (start : Int) :
    ∀ o ∈ TensorMemoryAllocator.batchObjs shape dtype unit fmt shapes dtypes start l,
      o.metadata.phySize = unit := by
  intro o ho
  obtain ⟨k, r, -, rfl⟩ := mem_batchObjs l start ho
  rfl

/-- How `allocate` ends: it took nothing, or a block, for one object or, when it raised, for none. -/
theorem allocate_ends (a : TensorMemoryAllocator) (shapes : OneOrList TorchSize)
    (dtypes : OneOrList TorchDtype) (fmt : MemoryFormat) :
    ((a.allocate shapes dtypes fmt).2 = a ∧ objOf (a.allocate shapes dtypes fmt).1 = []) ∨
      ∃ ss ds rawSize start n m, adaptShapesAndDtypes shapes dtypes = .ok (ss, ds) ∧
        getSizeBytes ss ds = .ok rawSize ∧
        a.addressManager.allocate rawSize = .ok ((start, n), m) ∧
        (a.allocate shapes dtypes fmt).2 = { a with
          addressManager := m
          numActiveAllocations := a.numActiveAllocations + 1 } ∧
        (objOf (a.allocate shapes dtypes fmt).1 = [] ∨ ∃ r shape dtype,
          objOf (a.allocate shapes dtypes fmt).1 =
            [.init r shape dtype start n fmt ss ds]) := by
  unfold TensorMemoryAllocator.allocate
  split
  · exact .inl ⟨rfl, rfl⟩
  rename_i ss ds hadapt
  split
  · exact .inl ⟨rfl, rfl⟩
  rename_i rawSize hbytes
  split
  · exact .inl ⟨rfl, rfl⟩
  rename_i start n m hok
  refine .inr ⟨ss, ds, rawSize, start, n, m, hadapt, hbytes, hok, ?_⟩
  dsimp only
  split
  · exact ⟨rfl, .inr ⟨_, _, _, rfl⟩⟩
  · exact ⟨rfl, .inl rfl⟩

/-- How `batched_allocate` ends, likewise: no more objects than asked for, one unit apart. -/
theorem batchedAllocate_ends (a : TensorMemoryAllocator) (shapes : OneOrList TorchSize)
    (dtypes : OneOrList TorchDtype) (batchSize : Nat) (fmt : MemoryFormat) :
    ((a.batchedAllocate shapes dtypes batchSize fmt).2 = a ∧
        objsOf (a.batchedAllocate shapes dtypes batchSize fmt).1 = []) ∨
      ∃ ss ds rawSize start n m, adaptShapesAndDtypes shapes dtypes = .ok (ss, ds) ∧
        getSizeBytes ss ds = .ok rawSize ∧
        a.addressManager.allocate (a.addressManager.computeAlignedSize rawSize * batchSize) =
          .ok ((start, n), m) ∧
        (a.batchedAllocate shapes dtypes batchSize fmt).2 = { a with
          addressManager := m
          numActiveAllocations := a.numActiveAllocations + batchSize } ∧
        (objsOf (a.batchedAllocate shapes dtypes batchSize fmt).1 = [] ∨
          ∃ (shape : TorchSize) (dtype : TorchDtype) (l : List BufferSlice),
            l.length ≤ batchSize ∧ objsOf (a.batchedAllocate shapes dtypes batchSize fmt).1 =
              TensorMemoryAllocator.batchObjs shape dtype
                (a.addressManager.computeAlignedSize rawSize) fmt ss ds start l) := by
  unfold TensorMemoryAllocator.batchedAllocate
  split
  · exact .inl ⟨rfl, rfl⟩
  rename_i ss ds hadapt
  split
  · exact .inl ⟨rfl, rfl⟩
  rename_i rawSize hbytes
  dsimp only
  split
  · exact .inl ⟨rfl, rfl⟩
  rename_i start n m hok
  refine .inr ⟨ss, ds, rawSize, start, n, m, hadapt, hbytes, hok, ?_⟩
  split
  · exact ⟨rfl, .inl rfl⟩
  · exact ⟨rfl, .inl rfl⟩
  · rename_i hchunk
    split
    · exact ⟨rfl, .inr ⟨_, _, _, BufferSlice.chunk_length_le hchunk, rfl⟩⟩
    · exact ⟨rfl, .inl rfl⟩

theorem handed_allocate (ha : 0 < a.addressManager.align) (shapes : OneOrList TorchSize)
    (dtypes : OneOrList TorchDtype) (fmt : MemoryFormat) :
    Handed a (a.allocate shapes dtypes fmt).2 (objOf (a.allocate shapes dtypes fmt).1) := by
  rcases allocate_ends a shapes dtypes fmt with
    ⟨heq, hobj⟩ | ⟨ss, ds, rawSize, start, n, m, -, -, hok, heq, hobj⟩
  · rw [heq, hobj]
    exact .nothing
  obtain ⟨-, -, -, -, hnEq, -⟩ := AddressManager.allocate_ok hok
  have hn : 0 ≤ n := hnEq ▸ AddressManager.computeAlignedSize_nonneg ha (Int.natCast_nonneg _)
  rw [heq]
  rcases hobj with hobj | ⟨r, shape, dtype, hobj⟩
  · rw [hobj]
    exact .raised hn hok
  · rw [hobj]
    refine .block hn hok (by simpa [TensorMemoryObj.init] using hn) fun x => ?_
    rw [cover_validRanges_cons]
    simp [validRanges, TensorMemoryObj.init, TensorMemoryObj.range]

theorem handed_batchedAllocate (ha : 0 < a.addressManager.align) (shapes : OneOrList TorchSize)
    (dtypes : OneOrList TorchDtype) (batchSize : Nat) (fmt : MemoryFormat) :
    Handed a (a.batchedAllocate shapes dtypes batchSize fmt).2
      (objsOf (a.batchedAllocate shapes dtypes batchSize fmt).1) := by
  rcases batchedAllocate_ends a shapes dtypes batchSize fmt with
    ⟨heq, hobjs⟩ | ⟨ss, ds, rawSize, start, n, m, -, -, hok, heq, hobjs⟩
  · rw [heq, hobjs]
    exact .nothing
  have hunit : 0 ≤ a.addressManager.computeAlignedSize rawSize :=
    AddressManager.computeAlignedSize_nonneg ha (Int.natCast_nonneg _)
  rw [heq]
  generalize a.addressManager.computeAlignedSize rawSize = unit at *
  obtain ⟨htotal, hle⟩ := AddressManager.units_fit ha hunit hok le_rfl
  have hn : 0 ≤ n := htotal.trans hle
  rcases hobjs with hobjs | ⟨shape, dtype, l, hcount, hobjs⟩
  · rw [hobjs]
    exact .raised hn hok
  · rw [hobjs]
    refine .block hn hok (fun o ho => ?_) fun x => ?_
    · rw [batchObjs_phySize _ _ o ho]
      exact hunit
    · -- no more units than asked for, so they fit into the block
      rw [cover_batchObjs hunit]
      obtain ⟨hpos, hfit⟩ := AddressManager.units_fit ha hunit hok hcount
      have hcut := range_split (s := start) (k := n - unit * (l.length : Int)) hpos (by omega) x
      rw [add_sub_cancel] at hcut
      omega

/-! ### Every call keeps the invariant -/

/-- **Step lemma.** -/
theorem accounted_step (s : ObjectPool) (c : PoolCall) (h : Accounted s) :
    Accounted (s.step c) := by
  cases c with
  | allocate shapes dtypes fmt =>
    exact accounted_handed h (handed_allocate h.align_pos shapes dtypes fmt)
  | batchedAllocate shapes dtypes batchSize fmt =>
    exact accounted_handed h (handed_batchedAllocate h.align_pos shapes dtypes batchSize fmt)
  | refCountUp i => exact accounted_updateObj h i TensorMemoryObj.sameRange_refCountUp
  | refCountDown i => exact accounted_decrement h i TensorMemoryObj.sameRange_refCountDown
  | pin i => exact accounted_updateObj h i TensorMemoryObj.sameRange_pin
  | unpin i =>
    exact accounted_updateObj (accounted_decrement h i TensorMemoryObj.sameRange_unpinDecrement) i
      TensorMemoryObj.sameRange_unpinClamp
  | free i => exact accounted_free h i
  | batchedFree is => exact accounted_batchedFree h is

/-! ## No overlap, no double free -/

/-- The call of a counter operation on object `i` returned no range, or the one range of that object,
at a moment when neither of its counters was positive. -/
def ReturnsUnheld (s s' : ObjectPool) (i : Nat) : Prop :=
  s'.returned = s.returned ∨
    ∃ o, s'.returned = s.returned ++ [.single i o] ∧
      o.metadata.refCount ≤ 0 ∧ o.metadata.pinCount ≤ 0

/-- What the owners of memory objects rely on. -/
structure Sound (s : ObjectPool) : Prop where
  disjoint : (validRanges s.objs).Pairwise fun r q => Disjoint (points r) (points q)
  free_disjoint : ∀ r ∈ blockRanges s.allocator.addressManager.blocks, ∀ q ∈ validRanges s.objs,
    Disjoint (points r) (points q)
  returned_once : (s.returned.flatMap Returned.ids).Nodup
  returned_invalid : ∀ i ∈ s.returned.flatMap Returned.ids,
    ∃ o : TensorMemoryObj, s.objs[i]? = some o ∧ o.valid = false
  returned_exact : ∀ r ∈ s.returned, ∀ x, cover r.memberRanges x = hits r.range x
  refCountDown_unheld : ∀ i, ReturnsUnheld s (s.refCountDown i) i
  unpin_unheld : ∀ i, ReturnsUnheld s (s.unpin i) i

/-- A decrement that asks for `free` only when neither counter holds the object. -/
theorem returnsUnheld_decrement (s : ObjectPool) (i : Nat)
    (hf : ∀ o, (f o).2 = true → (f o).1.metadata.refCount ≤ 0 ∧ (f o).1.metadata.pinCount ≤ 0) :
    ReturnsUnheld s (s.decrement i f) i := by
  unfold decrement
  split
  · exact .inl rfl
  · rename_i o hget
    have hlt : i < s.objs.length := (List.getElem?_eq_some_iff.mp hget).1
    dsimp only
    split
    · rename_i hfree
      have hget' : (s.objs.set i (f o).1)[i]? = some (f o).1 := by simp [hlt]
      unfold free
      rw [hget']
      cases hv : (f o).1.valid with
      | false => left; simp [hv]
      | true => right; exact ⟨(f o).1, by simp [hv, Returned.single], hf o hfree⟩
    · exact .inl rfl

@[simp] theorem updateObj_returned (s : ObjectPool) (i : Nat)
    (f : TensorMemoryObj → TensorMemoryObj) : (s.updateObj i f).returned = s.returned := by
  unfold updateObj
  split <;> rfl

theorem Accounted.sound (h : Accounted s) : Sound s where
  disjoint := pairwise_disjoint fun x => by have := h.once x; omega
  free_disjoint := fun r hr q hq => by
    have hd := pairwise_disjoint (L := blockRanges s.allocator.addressManager.blocks ++
      validRanges s.objs) fun x => by rw [cover_append]; exact h.once x
    exact (List.pairwise_append.mp hd).2.2 r hr q hq
  returned_once := h.nodup
  returned_invalid := h.invalid
  returned_exact := h.exact
  refCountDown_unheld := fun i =>
    returnsUnheld_decrement s i fun _ => TensorMemoryObj.refCountDown_frees
  unpin_unheld := fun i => by
    have hdec := returnsUnheld_decrement s i (f := TensorMemoryObj.unpinDecrement)
      fun _ => TensorMemoryObj.unpinDecrement_frees
    simpa only [ReturnsUnheld, unpin, updateObj_returned] using hdec

/-- **No overlap and no double free.**  Whatever is called on the allocator and on the objects it
handed out, in any order and with any surplus of decrements and frees. -/
theorem sound_of_calls (numel : Nat) {alignBytes : Int} (ha : 0 < alignBytes)
    (initAddressSpace : Option Nat) (calls : List PoolCall) :
    Always step Sound (init (.init numel alignBytes initAddressSpace)) calls :=
  (always_of_step accounted_step (accounted_init ha initAddressSpace) calls).mono
    fun _ h => h.sound

/-- A pinned object released by its owner, a forced and a surplus unpin, then a batch over the same
range. -/
theorem sound_of_calls_surplus :
    Always step Sound (init (.init 65536 4096 none))
      [.allocate (.one [5000]) (.one .uint8) .KV_2LTD, .pin 0, .refCountDown 0, .unpin 0, .unpin 0,
        .refCountDown 0, .batchedAllocate (.one [5000]) (.one .uint8) 2 .KV_2LTD,
        .batchedFree [2, 1, 2, 0], .free 1] :=
  sound_of_calls 65536 (by decide) none _

end ObjectPool

end LMCache.Memory
