/-
# LMCache.Memory.LazyExpansion — the expansion thread among the calls.

Source: `v1/lazy_memory_allocator.py`, `LazyMemoryAllocator.__init__`, `_pin_memory_chunk`,
`_commit_expansion` and `_expand_worker`; `v1/memory_management.py`, `AddressManager.sbrk`.

The thread pins the buffer chunk by chunk and hands what is pinned to the address manager, while
other threads allocate and free.  A step of the thread is one line of its loop.  A call on the
allocator takes the lock of the address manager once, `batched_free` once for each run of adjacent
objects; the runs that are still to be returned are part of the state.

The heap follows what is pinned as long as `sbrk` adds what it is asked for.  It rounds up to the
alignment of the allocations, which the thread does not know of.
-/
import LMCache.Memory.LazyAllocator

namespace LMCache.Memory

open LMCache.Lib

/-! ## The source -/

/-- Where `_expand_worker` stands. -/
inductive ExpandPc where
  /-- The test of the outer loop. -/
  | check
  /-- A turn of the loop over the chunks, with so many turns left. -/
  | chunk (left : Nat)
  /-- `self._curr_size += self.PIN_CHUNK_SIZE`, the chunk being pinned. -/
  | advance (left : Nat)
  | commit
  | done
  | raised (e : PyError)
  deriving DecidableEq, Repr

/-- The variables of the expansion thread; `_pin_record` holds offsets in place of pointers. -/
structure ExpandWorker where
  currSize : Nat
  finalSize : Nat
  lastCommitSize : Nat
  pinRecord : List (Nat × Nat)
  pc : ExpandPc
  deriving DecidableEq, Repr

namespace ExpandWorker

open LazyMemoryAllocator (PIN_CHUNK_SIZE COMMIT_SIZE)

/-- `_pin_memory_chunk`: the entry for `_pin_record`. -/
def pinMemoryChunk (finalSize offset size : Nat) : Except PyError (Nat × Nat) :=
  if Nat.land offset (PIN_CHUNK_SIZE - 1) ≠ 0 then
    .error (.assertionError "Offset must be aligned to PIN_CHUNK_SIZE")
  else if Nat.land size (PIN_CHUNK_SIZE - 1) ≠ 0 then
    .error (.assertionError "Size must be aligned to PIN_CHUNK_SIZE")
  else if offset + size ≤ finalSize then .ok (offset, size)
  else .error (.assertionError "Pinning exceeds buffer size")

/-- `expand_size`. -/
def expandSize (w : ExpandWorker) : Nat := w.currSize - w.lastCommitSize

/-- One step of `_expand_worker`. -/
def step (w : ExpandWorker) : ExpandWorker :=
  match w.pc with
  | .check =>
    if w.currSize < w.finalSize then { w with pc := .chunk (COMMIT_SIZE / PIN_CHUNK_SIZE) }
    else { w with pc := .done }
  | .chunk 0 => { w with pc := .commit }
  | .chunk (left + 1) =>
    if w.currSize ≥ w.finalSize then { w with pc := .commit }
    else
      match pinMemoryChunk w.finalSize w.currSize PIN_CHUNK_SIZE with
      | .error e => { w with pc := .raised e }
      | .ok chunk => { w with pinRecord := w.pinRecord ++ [chunk], pc := .advance left }
  | .advance left => { w with currSize := w.currSize + PIN_CHUNK_SIZE, pc := .chunk left }
  | .commit => { w with lastCommitSize := w.currSize, pc := .check }
  | .done => w
  | .raised _ => w

/-- How far the buffer is pinned without a gap. -/
def pinnedPrefix (w : ExpandWorker) : Nat :=
  w.pinRecord.foldl (fun p c => if c.1 ≤ p then max p (c.1 + c.2) else p) 0

end ExpandWorker

/-- `batched_free` before it returns its runs: the objects are invalid, the counter is lowered. -/
def ObjectPool.collectRuns (s : ObjectPool) (is : List Nat) : ObjectPool × List Returned :=
  let l := (sortByAddress s.objs is).foldl CoalesceLoop.step ⟨s.objs, none, []⟩
  ({ s with
      allocator := { s.allocator with
        numActiveAllocations := s.allocator.numActiveAllocations -
          ((l.blocks.map fun r => r.members.length).sum : Nat) }
      objs := l.objs }, l.blocks)

/-- `self.address_manager.free(address, size)`, for one run. -/
def ObjectPool.giveBack (s : ObjectPool) (r : Returned) : ObjectPool :=
  { s with
    allocator := { s.allocator with
      addressManager := s.allocator.addressManager.free r.address r.size }
    returned := s.returned ++ [r] }

/-- The allocator and its expansion thread. -/
structure LazyExpansion where
  pool : ObjectPool
  /-- The runs that `batched_free` calls have still to return. -/
  returning : List Returned
  worker : ExpandWorker

inductive ExpandEvent where
  /-- The expansion thread takes a step. -/
  | worker
  /-- A call on the allocator; a `batched_free` gets as far as its runs. -/
  | call (c : PoolCall)
  /-- A `batched_free` returns its next run, the one at position `i` of those still to return. -/
  | giveBack (i : Nat)

/-- A step of the expansion thread. -/
def ExpandEvent.isWorker : ExpandEvent → Bool
  | .worker => true
  | _ => false

namespace LazyExpansion

open LazyMemoryAllocator (alignTo PIN_CHUNK_SIZE COMMIT_SIZE)

/-- `__init__`, from the aligned sizes on. -/
def start (currSize finalSize : Nat) (alignBytes : Int) : Except PyError LazyExpansion :=
  match ExpandWorker.pinMemoryChunk finalSize 0 currSize with
  | .error e => .error e
  | .ok chunk => .ok {
      pool := .init (.init finalSize alignBytes (some currSize))
      returning := []
      worker := ⟨currSize, finalSize, currSize, [chunk], .check⟩ }

/-- `LazyMemoryAllocator(init_size, final_size, align_bytes)`. -/
def create (initSize finalSize : Nat) (alignBytes : Int) : Except PyError LazyExpansion :=
  start (alignTo initSize PIN_CHUNK_SIZE) (alignTo finalSize PIN_CHUNK_SIZE) alignBytes

def step (x : LazyExpansion) : ExpandEvent → LazyExpansion
  | .worker =>
    -- the thread calls `sbrk` in one of its steps, and touches nothing of the pool in the others
    if x.worker.pc = .commit then
      { x with pool := x.pool.sbrk x.worker.expandSize, worker := x.worker.step }
    else { x with worker := x.worker.step }
  | .call (.batchedFree is) =>
    let r := x.pool.collectRuns is
    { x with pool := r.1, returning := x.returning ++ r.2 }
  | .call c => { x with pool := x.pool.step c }
  | .giveBack i =>
    match x.returning[i]? with
    | none => x
    | some r => { x with pool := x.pool.giveBack r, returning := x.returning.eraseIdx i }

/-- `self._address_manager.get_heap_size()`. -/
def heapSize (x : LazyExpansion) : Int := x.pool.allocator.addressManager.getHeapSize

end LazyExpansion

/-! ## What a call does to the heap -/

/-- A range of the heap. -/
def InHeap (heap : Int) (r : Int × Int) : Prop := 0 ≤ r.1 ∧ r.1 ≤ r.2 ∧ r.2 ≤ heap

theorem InHeap.mono {heap heap' : Int} {r : Int × Int} (h : InHeap heap r) (hle : heap ≤ heap') :
    InHeap heap' r := ⟨h.1, h.2.1, h.2.2.trans hle⟩

theorem AddressManager.Coalesced.inHeap {l l' : List FreeBlock} {c : FreeBlock}
    {prev succ : Option FreeBlock} (h : AddressManager.Coalesced l l' c prev succ) {heap : Int}
    (hl : ∀ b ∈ l, InHeap heap b.range) (hc : InHeap heap c.range) :
    ∀ b ∈ l', InHeap heap b.range := by
  simp only [InHeap, FreeBlock.range, FreeBlock.stop] at hl hc ⊢
  -- one block is new, the others were there
  have hnew : ∀ {b' : FreeBlock} {R : List FreeBlock}, l'.Perm (b' :: R) →
      (0 ≤ b'.start ∧ b'.start ≤ b'.start + b'.size ∧ b'.start + b'.size ≤ heap) →
      (∀ b ∈ R, b ∈ l) →
      ∀ b ∈ l', 0 ≤ b.start ∧ b.start ≤ b.start + b.size ∧ b.start + b.size ≤ heap := by
    intro b' R hperm hb' hR b hb
    rcases List.mem_cons.mp (hperm.mem_iff.mp hb) with rfl | hb
    · exact hb'
    · exact hl b (hR b hb)
  cases h with
  | @both p s R hp hs hpc hcs hperm hperm' =>
    have hp := hl p (hperm.mem_iff.mpr (by simp))
    have hs := hl s (hperm.mem_iff.mpr (by simp))
    simp only [FreeBlock.stop] at hpc hcs
    apply hnew hperm'
    · dsimp only
      omega
    · exact fun b hb => hperm.mem_iff.mpr (by simp [hb])
  | @prevOnly p R hp hs hpc hperm hperm' =>
    have hp := hl p (hperm.mem_iff.mpr (by simp))
    simp only [FreeBlock.stop] at hpc
    apply hnew hperm'
    · dsimp only
      omega
    · exact fun b hb => hperm.mem_iff.mpr (by simp [hb])
  | @succOnly s R hp hs hcs hperm hperm' =>
    have hs := hl s (hperm.mem_iff.mpr (by simp))
    simp only [FreeBlock.stop] at hcs
    apply hnew hperm'
    · dsimp only
      omega
    · exact fun b hb => hperm.mem_iff.mpr (by simp [hb])
  | alone hp hs hperm' => exact hnew hperm' hc fun b hb => hb

namespace ObjectPool

/-- Every free block and every object ever handed out is a range of the heap. -/
structure Bounded (s : ObjectPool) : Prop where
  align_pos : 0 < s.allocator.addressManager.align
  blocks : ∀ b ∈ s.allocator.addressManager.blocks,
    InHeap s.allocator.addressManager.size b.range
  objs : ∀ o ∈ s.objs, InHeap s.allocator.addressManager.size o.range

/-- The heap is as large as before, every object has the range it had, and what lay in the heap
still does. -/
structure Keeps (s s' : ObjectPool) : Prop where
  size : s'.allocator.addressManager.size = s.allocator.addressManager.size
  align : s'.allocator.addressManager.align = s.allocator.addressManager.align
  ranges : s.objs.map TensorMemoryObj.range <+: s'.objs.map TensorMemoryObj.range
  bounded : s.Bounded → s'.Bounded

theorem Keeps.refl (s : ObjectPool) : Keeps s s := ⟨rfl, rfl, List.prefix_rfl, id⟩

variable {s s' : ObjectPool} {o : TensorMemoryObj} {objs : List TensorMemoryObj}
  {a : TensorMemoryAllocator}

theorem Keeps.trans {s'' : ObjectPool} (h : Keeps s s') (h' : Keeps s' s'') : Keeps s s'' :=
  ⟨h'.size.trans h.size, h'.align.trans h.align, h.ranges.trans h'.ranges,
    fun hb => h'.bounded (h.bounded hb)⟩

/-- Another version of an object, with the same range. -/
theorem map_range_set {i : Nat} {o' : TensorMemoryObj} (hget : objs[i]? = some o)
    (hrange : o'.range = o.range) :
    (objs.set i o').map TensorMemoryObj.range = objs.map TensorMemoryObj.range := by
  rw [List.map_set, hrange]
  apply List.ext_getElem?
  intro j
  rw [List.getElem?_set]
  split
  · rename_i heq
    subst heq
    rw [List.length_map, List.getElem?_map, hget, Option.map_some]
    split
    · rfl
    · exact absurd (List.getElem?_eq_some_iff.mp hget).1 ‹_›
  · rfl

/-- Only ranges count for the bounds of the objects. -/
theorem Bounded.of_ranges (h : s.Bounded)
    (hmanager : s'.allocator.addressManager = s.allocator.addressManager)
    (hranges : s'.objs.map TensorMemoryObj.range = s.objs.map TensorMemoryObj.range) :
    s'.Bounded := by
  refine ⟨hmanager ▸ h.align_pos, hmanager ▸ h.blocks, fun o ho => ?_⟩
  have hmem : o.range ∈ s.objs.map TensorMemoryObj.range := by
    rw [← hranges]
    exact List.mem_map_of_mem ho
  obtain ⟨o', ho', heq⟩ := List.mem_map.mp hmem
  rw [hmanager, ← heq]
  exact h.objs o' ho'

theorem keeps_of_ranges (hmanager : s'.allocator.addressManager = s.allocator.addressManager)
    (hranges : s'.objs.map TensorMemoryObj.range = s.objs.map TensorMemoryObj.range) : Keeps s s' :=
  ⟨by rw [hmanager], by rw [hmanager], by rw [hranges], fun h => h.of_ranges hmanager hranges⟩

theorem keeps_set {i : Nat} {o' : TensorMemoryObj} (hget : s.objs[i]? = some o)
    (hrange : o'.range = o.range) : Keeps s { s with objs := s.objs.set i o' } :=
  keeps_of_ranges rfl (map_range_set hget hrange)

/-- An object that is invalidated keeps its range. -/
theorem map_range_invalidate {i : Nat} (hget : objs[i]? = some o) :
    (objs.set i o.invalidate).map TensorMemoryObj.range = objs.map TensorMemoryObj.range :=
  map_range_set hget rfl

theorem keeps_updateObj (s : ObjectPool) (i : Nat) {f : TensorMemoryObj → TensorMemoryObj}
    (hf : ∀ o : TensorMemoryObj, o.SameRange (f o)) : Keeps s (s.updateObj i f) := by
  unfold updateObj
  split
  · exact Keeps.refl s
  · rename_i o hget
    exact keeps_set hget (hf o).1

/-- A range that lies in the heap is returned. -/
theorem Bounded.free_manager (h : s.Bounded) {address size : Int}
    (hrange : InHeap s.allocator.addressManager.size (address, address + size)) :
    ∀ b ∈ (s.allocator.addressManager.free address size).blocks,
      InHeap s.allocator.addressManager.size b.range :=
  (s.allocator.addressManager.free_coalesced address size).inHeap h.blocks hrange

theorem keeps_free (s : ObjectPool) (i : Nat) : Keeps s (s.free i) := by
  unfold free
  split
  · exact Keeps.refl s
  · rename_i o hget
    unfold TensorMemoryAllocator.free
    cases hv : o.valid with
    | false => exact keeps_of_ranges rfl (map_range_set hget rfl)
    | true =>
      have hranges := map_range_invalidate hget
      refine ⟨rfl, rfl, by rw [← hranges]; exact List.prefix_rfl, fun h => ?_⟩
      have hset : Bounded { s with objs := s.objs.set i o.invalidate } :=
        h.of_ranges rfl hranges
      exact ⟨h.align_pos, h.free_manager (h.objs o (List.mem_of_getElem? hget)), hset.objs⟩

theorem keeps_decrement (s : ObjectPool) (i : Nat) {f : TensorMemoryObj → TensorMemoryObj × Bool}
    (hf : ∀ o : TensorMemoryObj, o.SameRange (f o).1) : Keeps s (s.decrement i f) := by
  unfold decrement
  split
  · exact Keeps.refl s
  · rename_i o hget
    dsimp only
    split
    · exact (keeps_set hget (hf o).1).trans (keeps_free _ i)
    · exact keeps_set hget (hf o).1

/-- What an allocation hands out lies in the one block it takes. -/
inductive HandsOut (a : TensorMemoryAllocator) : TensorMemoryAllocator → List TensorMemoryObj → Prop
  | nothing : HandsOut a a []
  | block {raw start n k : Int} {m : AddressManager} {os : List TensorMemoryObj} (hn : 0 ≤ n)
      (hok : a.addressManager.allocate raw = .ok ((start, n), m))
      (hos : ∀ o ∈ os, start ≤ o.range.1 ∧ o.range.1 ≤ o.range.2 ∧ o.range.2 ≤ start + n) :
      HandsOut a { a with addressManager := m, numActiveAllocations := k } os

theorem handsOut_allocate (ha : 0 < a.addressManager.align) (shapes : OneOrList TorchSize)
    (dtypes : OneOrList TorchDtype) (fmt : MemoryFormat) :
    HandsOut a (a.allocate shapes dtypes fmt).2 (objOf (a.allocate shapes dtypes fmt).1) := by
  rcases allocate_ends a shapes dtypes fmt with
    ⟨heq, hobj⟩ | ⟨ss, ds, rawSize, start, n, m, -, -, hok, heq, hobj⟩
  · rw [heq, hobj]
    exact .nothing
  obtain ⟨-, -, -, -, hsize, -⟩ := AddressManager.allocate_ok hok
  have hn : 0 ≤ n := hsize ▸ AddressManager.computeAlignedSize_nonneg ha (Int.natCast_nonneg _)
  rw [heq]
  refine .block hn hok fun o ho => ?_
  rcases hobj with hobj | ⟨r, shape, dtype, hobj⟩
  · rw [hobj] at ho
    cases ho
  · rw [hobj] at ho
    obtain rfl := List.mem_singleton.mp ho
    show start ≤ start ∧ start ≤ start + n ∧ start + n ≤ start + n
    omega

theorem handsOut_batchedAllocate (ha : 0 < a.addressManager.align) (shapes : OneOrList TorchSize)
    (dtypes : OneOrList TorchDtype) (batchSize : Nat) (fmt : MemoryFormat) :
    HandsOut a (a.batchedAllocate shapes dtypes batchSize fmt).2
      (objsOf (a.batchedAllocate shapes dtypes batchSize fmt).1) := by
  rcases batchedAllocate_ends a shapes dtypes batchSize fmt with
    ⟨heq, hobjs⟩ | ⟨ss, ds, rawSize, start, n, m, -, -, hok, heq, hobjs⟩
  · rw [heq, hobjs]
    exact .nothing
  have hunit : 0 ≤ a.addressManager.computeAlignedSize rawSize :=
    AddressManager.computeAlignedSize_nonneg ha (Int.natCast_nonneg _)
  rw [heq]
  generalize a.addressManager.computeAlignedSize rawSize = unit at *
  obtain ⟨htotal, hle⟩ := AddressManager.units_fit ha hunit hok le_rfl
  refine .block (htotal.trans hle) hok fun o ho => ?_
  rcases hobjs with hobjs | ⟨shape, dtype, l, hcount, hobjs⟩
  · rw [hobjs] at ho
    cases ho
  · -- the unit is one of those asked for, so that it fits into the block
    rw [hobjs] at ho
    obtain ⟨k, r, hk, rfl⟩ := mem_batchObjs l start ho
    have hbefore : 0 ≤ unit * (k : Int) := Int.mul_nonneg hunit (Int.natCast_nonneg _)
    have hafter : unit * ((k + 1 : Nat) : Int) ≤ n :=
      (AddressManager.units_fit ha hunit hok (hk.trans_le hcount)).2
    rw [Nat.cast_add, Int.mul_add, Nat.cast_one, Int.mul_one] at hafter
    show start ≤ start + unit * k ∧ start + unit * k ≤ start + unit * k + unit ∧
      start + unit * k + unit ≤ start + n
    omega

theorem keeps_handsOut {os : List TensorMemoryObj} (h : HandsOut s.allocator a os) :
    Keeps s { s with allocator := a, objs := s.objs ++ os } := by
  have hranges : s.objs.map TensorMemoryObj.range <+: (s.objs ++ os).map TensorMemoryObj.range := by
    rw [List.map_append]
    exact List.prefix_append _ _
  cases h with
  | nothing => exact ⟨rfl, rfl, hranges, fun h => by rw [List.append_nil]; exact h⟩
  | block hn hok hos =>
    obtain ⟨b, R, hl, rfl, -, hfit, hl', hsize, halign, -⟩ := AddressManager.allocate_ok hok
    refine ⟨hsize, halign, hranges, fun h => ⟨?_, fun b' hb' => ?_, fun o ho => ?_⟩⟩
    · show 0 < _
      rw [halign]
      exact h.align_pos
    all_goals
      dsimp only at *
      rw [hsize]
      have hb := h.blocks b (hl.mem_iff.mpr List.mem_cons_self)
      simp only [InHeap, FreeBlock.range, FreeBlock.stop] at hb
    · rw [hl'.mem_iff] at hb'
      split at hb'
      · rcases List.mem_cons.mp hb' with rfl | hb'
        · simp only [InHeap, FreeBlock.range, FreeBlock.stop]
          omega
        · exact h.blocks b' (hl.mem_iff.mpr (List.mem_cons_of_mem _ hb'))
      · exact h.blocks b' (hl.mem_iff.mpr (List.mem_cons_of_mem _ hb'))
    · rcases List.mem_append.mp ho with ho | ho
      · exact h.objs o ho
      · have := hos o ho
        unfold InHeap
        omega

/-! ### The runs of `batched_free` -/

theorem coalesceLoop_step_ranges (l : CoalesceLoop) (i : Nat) :
    (l.step i).objs.map TensorMemoryObj.range = l.objs.map TensorMemoryObj.range := by
  unfold CoalesceLoop.step
  split
  · rfl
  rename_i o hget
  have hranges := map_range_invalidate hget
  split
  · rfl
  dsimp only
  split
  · exact hranges
  · split
    · exact hranges
    · exact hranges

theorem coalesceLoop_ranges (is : List Nat) (l : CoalesceLoop) :
    (is.foldl CoalesceLoop.step l).objs.map TensorMemoryObj.range =
      l.objs.map TensorMemoryObj.range := by
  induction is generalizing l with
  | nil => rfl
  | cons i is ih => exact (ih (l.step i)).trans (coalesceLoop_step_ranges l i)

/-- A run that is made of objects of the heap is a range of the heap. -/
theorem coalesceLoop_step_inHeap {heap : Int} {l : CoalesceLoop} (i : Nat)
    (hobjs : ∀ o ∈ l.objs, InHeap heap o.range) (hblocks : ∀ r ∈ l.blocks, InHeap heap r.range) :
    ∀ r ∈ (l.step i).blocks, InHeap heap r.range := by
  unfold CoalesceLoop.step
  split
  · exact hblocks
  rename_i o hget
  split
  · exact hblocks
  have ho := hobjs o (List.mem_of_getElem? hget)
  dsimp only
  split
  · intro r hr
    simp only [CoalesceLoop.blocks, Option.toList_some, List.mem_append, List.mem_singleton] at hr
    rcases hr with hr | rfl
    · exact hblocks r (by simp [CoalesceLoop.blocks, hr])
    · exact ho
  · rename_i run hcurr
    have hrun := hblocks run (by simp [CoalesceLoop.blocks, hcurr])
    split
    · rename_i hadjacent
      intro r hr
      simp only [CoalesceLoop.blocks, Option.toList_some, List.mem_append, List.mem_singleton] at hr
      rcases hr with hr | rfl
      · exact hblocks r (by simp [CoalesceLoop.blocks, hr])
      · -- the run ends where the object starts
        simp only [InHeap, Returned.range, TensorMemoryObj.range] at ho hrun ⊢
        omega
    · intro r hr
      simp only [CoalesceLoop.blocks, Option.toList_some, List.mem_append, List.mem_singleton] at hr
      rcases hr with (hr | rfl) | rfl
      · exact hblocks r (by simp [CoalesceLoop.blocks, hr])
      · exact hrun
      · exact ho

theorem coalesceLoop_inHeap {heap : Int} (is : List Nat) {l : CoalesceLoop}
    (hobjs : ∀ o ∈ l.objs, InHeap heap o.range) (hblocks : ∀ r ∈ l.blocks, InHeap heap r.range) :
    ∀ r ∈ (is.foldl CoalesceLoop.step l).blocks, InHeap heap r.range := by
  induction is generalizing l with
  | nil => exact hblocks
  | cons i is ih =>
    refine ih (fun o ho => ?_) (coalesceLoop_step_inHeap i hobjs hblocks)
    have hmem := List.mem_map_of_mem (f := TensorMemoryObj.range) ho
    rw [coalesceLoop_step_ranges] at hmem
    obtain ⟨o', ho', heq⟩ := List.mem_map.mp hmem
    exact heq ▸ hobjs o' ho'

theorem keeps_collectRuns (s : ObjectPool) (is : List Nat) : Keeps s (s.collectRuns is).1 :=
  keeps_of_ranges rfl (coalesceLoop_ranges _ _)

theorem collectRuns_inHeap (h : s.Bounded) (is : List Nat) :
    ∀ r ∈ (s.collectRuns is).2, InHeap s.allocator.addressManager.size r.range :=
  coalesceLoop_inHeap _ h.objs (by simp [CoalesceLoop.blocks])

theorem keeps_giveBack (s : ObjectPool) {r : Returned}
    (hr : InHeap s.allocator.addressManager.size r.range) : Keeps s (s.giveBack r) :=
  ⟨rfl, rfl, List.prefix_rfl, fun h => ⟨h.align_pos, h.free_manager hr, h.objs⟩⟩

/-- **A call leaves the heap as large as it is**, and every object where it is. -/
theorem keeps_step (ha : 0 < s.allocator.addressManager.align) {c : PoolCall}
    (hc : ∀ is, c ≠ .batchedFree is) : Keeps s (s.step c) := by
  cases c with
  | allocate shapes dtypes fmt => exact keeps_handsOut (handsOut_allocate ha shapes dtypes fmt)
  | batchedAllocate shapes dtypes batchSize fmt =>
    exact keeps_handsOut (handsOut_batchedAllocate ha shapes dtypes batchSize fmt)
  | refCountUp i => exact keeps_updateObj s i TensorMemoryObj.sameRange_refCountUp
  | refCountDown i => exact keeps_decrement s i TensorMemoryObj.sameRange_refCountDown
  | pin i => exact keeps_updateObj s i TensorMemoryObj.sameRange_pin
  | unpin i =>
    exact (keeps_decrement s i TensorMemoryObj.sameRange_unpinDecrement).trans
      (keeps_updateObj _ i TensorMemoryObj.sameRange_unpinClamp)
  | free i => exact keeps_free s i
  | batchedFree is => exact absurd rfl (hc is)

/-- `sbrk` adds a block behind the heap. -/
theorem bounded_sbrk (h : s.Bounded) (hsize : 0 ≤ s.allocator.addressManager.size) (n : Nat) :
    (s.sbrk n).Bounded := by
  have hnonneg := AddressManager.computeAlignedSize_nonneg h.align_pos (Int.natCast_nonneg n)
  have hle : s.allocator.addressManager.size ≤ (s.allocator.addressManager.sbrk n).size := by
    rw [AddressManager.sbrk_size]
    omega
  refine ⟨h.align_pos, ?_, fun o ho => (h.objs o ho).mono hle⟩
  apply (s.allocator.addressManager.sbrk_coalesced n).inHeap
  · exact fun b hb => (h.blocks b hb).mono hle
  · simp only [InHeap, FreeBlock.range, FreeBlock.stop, sbrk, AddressManager.sbrk_size]
    omega

end ObjectPool

/-! ## The course of the thread -/

open LazyMemoryAllocator (alignTo PIN_CHUNK_SIZE COMMIT_SIZE)

/-- The amounts that the thread commits while it has so many bytes to expand by. -/
def commitSizes (d : Nat) : List Nat :=
  List.replicate (d / COMMIT_SIZE) COMMIT_SIZE ++
    if d % COMMIT_SIZE = 0 then [] else [d % COMMIT_SIZE]

@[simp] theorem commitSizes_zero : commitSizes 0 = [] := rfl

/-- The first commit is a whole one, or everything that is left. -/
theorem commitSizes_of_pos {d : Nat} (h : 0 < d) :
    commitSizes d = min d COMMIT_SIZE :: commitSizes (d - min d COMMIT_SIZE) := by
  have hpos : 0 < COMMIT_SIZE := by decide
  rcases Nat.lt_or_ge d COMMIT_SIZE with hlt | hge
  · rw [Nat.min_eq_left hlt.le, Nat.sub_self, commitSizes_zero]
    unfold commitSizes
    rw [Nat.div_eq_of_lt hlt, Nat.mod_eq_of_lt hlt, if_neg h.ne']
    rfl
  · rw [Nat.min_eq_right hge]
    unfold commitSizes
    rw [Nat.div_eq_sub_div hpos hge, Nat.mod_eq_sub_mod hge, List.replicate_succ, List.cons_append]

theorem sum_commitSizes (d : Nat) : (commitSizes d).sum = d := by
  unfold commitSizes
  rw [List.sum_append, List.sum_replicate, smul_eq_mul]
  have hdiv := Nat.div_add_mod' d COMMIT_SIZE
  split
  · simp only [List.sum_nil]
    omega
  · simp only [List.sum_singleton]
    omega

theorem dvd_of_mem_commitSizes {d c : Nat} (hd : PIN_CHUNK_SIZE ∣ d) (hc : c ∈ commitSizes d) :
    PIN_CHUNK_SIZE ∣ c := by
  have hcommit : PIN_CHUNK_SIZE ∣ COMMIT_SIZE := by decide
  unfold commitSizes at hc
  rcases List.mem_append.mp hc with hc | hc
  · rw [List.eq_of_mem_replicate hc]
    exact hcommit
  · split at hc
    · cases hc
    · rw [List.mem_singleton.mp hc]
      exact (Nat.dvd_mod_iff hcommit).mpr hd

namespace ExpandWorker

/-- What is known of the sizes where the thread stands. -/
def AtPc (w : ExpandWorker) : Prop :=
  match w.pc with
  | .check => w.currSize = w.lastCommitSize
  | .chunk left => w.lastCommitSize < w.finalSize ∧ left ≤ COMMIT_SIZE / PIN_CHUNK_SIZE ∧
      w.currSize + left * PIN_CHUNK_SIZE = w.lastCommitSize + COMMIT_SIZE
  | .advance left => left < COMMIT_SIZE / PIN_CHUNK_SIZE ∧
      w.currSize + PIN_CHUNK_SIZE ≤ w.finalSize ∧
      w.currSize + (left + 1) * PIN_CHUNK_SIZE = w.lastCommitSize + COMMIT_SIZE
  | .commit => w.lastCommitSize < w.finalSize ∧
      w.expandSize = min (w.finalSize - w.lastCommitSize) COMMIT_SIZE
  | .done => w.currSize = w.lastCommitSize ∧ w.lastCommitSize = w.finalSize
  | .raised _ => False

/-- Everything below `_curr_size` is pinned, and there is a whole number of chunks to go. -/
structure OnCourse (w : ExpandWorker) : Prop where
  curr : PIN_CHUNK_SIZE ∣ w.currSize
  final : PIN_CHUNK_SIZE ∣ w.finalSize
  curr_le : w.currSize ≤ w.finalSize
  last_le : w.lastCommitSize ≤ w.currSize
  pinned : w.pinnedPrefix = match w.pc with
    | .advance _ => w.currSize + PIN_CHUNK_SIZE
    | _ => w.currSize
  atPc : w.AtPc

theorem pinMemoryChunk_eq {finalSize offset size : Nat} (hoffset : PIN_CHUNK_SIZE ∣ offset)
    (hsize : PIN_CHUNK_SIZE ∣ size) :
    pinMemoryChunk finalSize offset size =
      if offset + size ≤ finalSize then .ok (offset, size)
      else .error (.assertionError "Pinning exceeds buffer size") := by
  have hland : ∀ n, PIN_CHUNK_SIZE ∣ n → Nat.land n (PIN_CHUNK_SIZE - 1) = 0 := by
    intro n hn
    have hmod := Nat.and_two_pow_sub_one_eq_mod n 26
    exact hmod.trans (Nat.mod_eq_zero_of_dvd hn)
  unfold pinMemoryChunk
  rw [hland _ hoffset, hland _ hsize]
  rfl

theorem pinnedPrefix_append (w : ExpandWorker) (size : Nat) (pc : ExpandPc) :
    pinnedPrefix { w with pinRecord := w.pinRecord ++ [(w.pinnedPrefix, size)], pc := pc } =
      w.pinnedPrefix + size := by
  unfold pinnedPrefix
  rw [List.foldl_append]
  simp

@[simp] theorem step_finalSize (w : ExpandWorker) : w.step.finalSize = w.finalSize := by
  unfold step
  split <;> try rfl
  · split <;> rfl
  · split
    · rfl
    · split <;> rfl

variable {w : ExpandWorker}

/-- The buffer is a whole number of chunks, so that the next one lies in it. -/
theorem OnCourse.fits (h : w.OnCourse) (hlt : w.currSize < w.finalSize) :
    w.currSize + PIN_CHUNK_SIZE ≤ w.finalSize := by
  have hcurr := h.curr
  have hfinal := h.final
  simp only [PIN_CHUNK_SIZE] at *
  omega

/-- What a step of the thread does while it is on its course. -/
inductive StepCase (w : ExpandWorker) : ExpandWorker → Prop
  | enter (hpc : w.pc = .check) (hlt : w.currSize < w.finalSize) :
      StepCase w { w with pc := .chunk (COMMIT_SIZE / PIN_CHUNK_SIZE) }
  | finish (hpc : w.pc = .check) (hend : w.currSize = w.finalSize) :
      StepCase w { w with pc := .done }
  | leave {left : Nat} (hpc : w.pc = .chunk left) (hend : left = 0 ∨ w.currSize = w.finalSize) :
      StepCase w { w with pc := .commit }
  | pin {left : Nat} (hpc : w.pc = .chunk (left + 1))
      (hfit : w.currSize + PIN_CHUNK_SIZE ≤ w.finalSize) :
      StepCase w { w with
        pinRecord := w.pinRecord ++ [(w.currSize, PIN_CHUNK_SIZE)], pc := .advance left }
  | advance {left : Nat} (hpc : w.pc = .advance left) :
      StepCase w { w with currSize := w.currSize + PIN_CHUNK_SIZE, pc := .chunk left }
  | commit (hpc : w.pc = .commit) : StepCase w { w with lastCommitSize := w.currSize, pc := .check }
  | stay (hpc : w.pc = .done) : StepCase w w

theorem OnCourse.step_cases (h : w.OnCourse) : StepCase w w.step := by
  have hle := h.curr_le
  have hpc := h.atPc
  unfold ExpandWorker.step
  unfold AtPc at hpc
  split
  case h_1 heq =>
    split
    · exact .enter heq ‹_›
    · exact .finish heq (by omega)
  case h_2 heq => exact .leave heq (.inl rfl)
  case h_3 left heq =>
    split
    · exact .leave heq (.inr (by omega))
    · have hfit := h.fits (by omega)
      rw [pinMemoryChunk_eq h.curr (dvd_refl _), if_pos hfit]
      exact .pin heq hfit
  case h_4 left heq => exact .advance heq
  case h_5 heq => exact .commit heq
  case h_6 heq => exact .stay heq
  case h_7 e heq =>
    rw [heq] at hpc
    exact hpc.elim

/-- **Step lemma**: the thread stays on its course. -/
theorem OnCourse.step {w : ExpandWorker} (h : w.OnCourse) : w.step.OnCourse := by
  have hcase := h.step_cases
  generalize w.step = w' at hcase
  obtain ⟨hcurr, hfinal, hle, hlast, hpinned, hat⟩ := h
  unfold AtPc at hat
  cases hcase with
  | enter hpc hlt =>
    rw [hpc] at hpinned hat
    refine ⟨hcurr, hfinal, hle, hlast, hpinned, ?_⟩
    simp only [AtPc, PIN_CHUNK_SIZE, COMMIT_SIZE] at *
    omega
  | finish hpc hend =>
    rw [hpc] at hpinned hat
    refine ⟨hcurr, hfinal, hle, hlast, hpinned, ?_⟩
    simp only [AtPc] at *
    omega
  | leave hpc hend =>
    rw [hpc] at hpinned hat
    refine ⟨hcurr, hfinal, hle, hlast, hpinned, ?_⟩
    simp only [AtPc, expandSize, PIN_CHUNK_SIZE, COMMIT_SIZE] at *
    omega
  | @pin left hpc hfit =>
    rw [hpc] at hpinned hat
    refine ⟨hcurr, hfinal, hle, hlast, ?_, ?_⟩
    · have happend := w.pinnedPrefix_append PIN_CHUNK_SIZE (.advance left)
      rw [hpinned] at happend
      exact happend
    · simp only [AtPc, PIN_CHUNK_SIZE, COMMIT_SIZE] at *
      omega
  | advance hpc =>
    rw [hpc] at hpinned hat
    refine ⟨hcurr.add (dvd_refl _), hfinal, hat.2.1, hlast.trans (Nat.le_add_right _ _), hpinned,
      ?_⟩
    simp only [AtPc, PIN_CHUNK_SIZE, COMMIT_SIZE] at *
    omega
  | commit hpc =>
    rw [hpc] at hpinned
    exact ⟨hcurr, hfinal, hle, le_refl _, hpinned, rfl⟩
  | stay hpc => exact ⟨hcurr, hfinal, hle, hlast, hpinned, hat⟩

/-- The steps that the thread has at most to go. -/
def stepsLeft (w : ExpandWorker) : Nat :=
  let chunks := (w.finalSize - w.currSize) / PIN_CHUNK_SIZE
  match w.pc with
  | .check => 5 * chunks + 1
  | .chunk _ => if w.currSize = w.lastCommitSize then 5 * chunks else 5 * chunks + 3
  | .advance _ => 5 * chunks - 1
  | .commit => 5 * chunks + 2
  | .done => 0
  | .raised _ => 0

theorem OnCourse.stepsLeft_step (h : w.OnCourse) : w.step.stepsLeft ≤ w.stepsLeft - 1 := by
  have hcase := h.step_cases
  generalize w.step = w' at hcase
  obtain ⟨hcurr, hfinal, hle, hlast, -, hat⟩ := h
  unfold AtPc at hat
  unfold stepsLeft
  cases hcase with
  | enter hpc hlt =>
    rw [hpc] at hat ⊢
    dsimp only at hat ⊢
    rw [if_pos hat]
    simp only [PIN_CHUNK_SIZE] at *
    omega
  | finish hpc hend =>
    rw [hpc]
    exact Nat.zero_le _
  | leave hpc hend =>
    rw [hpc] at hat ⊢
    dsimp only at hat ⊢
    -- the loop is never left before a chunk is pinned
    have hsome : w.currSize ≠ w.lastCommitSize := by
      simp only [PIN_CHUNK_SIZE, COMMIT_SIZE] at *
      omega
    rw [if_neg hsome]
    omega
  | pin hpc hfit =>
    rw [hpc]
    dsimp only
    split
    · omega
    · omega
  | advance hpc =>
    rw [hpc] at hat ⊢
    dsimp only at hat ⊢
    have hsome : w.currSize + PIN_CHUNK_SIZE ≠ w.lastCommitSize := by
      simp only [PIN_CHUNK_SIZE] at *
      omega
    rw [if_neg hsome]
    simp only [PIN_CHUNK_SIZE] at *
    omega
  | commit hpc =>
    rw [hpc]
    dsimp only
    omega
  | stay hpc =>
    rw [hpc]
    exact Nat.zero_le _

/-- With no step to go, the thread is done. -/
theorem OnCourse.done (h : w.OnCourse) (hleft : w.stepsLeft = 0) : w.pc = .done := by
  obtain ⟨hcurr, hfinal, hle, hlast, hpinned, hpc⟩ := h
  unfold AtPc at hpc
  unfold stepsLeft at hleft
  cases heq : w.pc with
  | done => rfl
  | raised e =>
    rw [heq] at hpc
    exact hpc.elim
  | check =>
    rw [heq] at hleft
    dsimp only at hleft
    omega
  | commit =>
    rw [heq] at hleft
    dsimp only at hleft
    omega
  | chunk left =>
    rw [heq] at hleft hpc
    dsimp only at hleft hpc
    split at hleft
    · simp only [PIN_CHUNK_SIZE, COMMIT_SIZE] at *
      omega
    · simp only [PIN_CHUNK_SIZE, COMMIT_SIZE] at *
      omega
  | advance left =>
    rw [heq] at hleft hpc
    dsimp only at hleft hpc
    simp only [PIN_CHUNK_SIZE, COMMIT_SIZE] at *
    omega

end ExpandWorker

namespace LazyExpansion

/-! ## The course of the system -/

/-- What `sbrk` adds for an amount, under an alignment. -/
def rounded (alignBytes : Int) (n : Nat) : Int :=
  (AddressManager.init 0 alignBytes).computeAlignedSize n

/-- The heap is what the commits so far made of it; everything lies in the heap. -/
structure Course (initSize finalSize : Nat) (alignBytes : Int) (x : LazyExpansion) : Prop where
  le : initSize ≤ finalSize
  worker : x.worker.OnCourse
  final : x.worker.finalSize = finalSize
  align : x.pool.allocator.addressManager.align = alignBytes
  bounded : x.pool.Bounded
  returning : ∀ r ∈ x.returning, InHeap x.heapSize r.range
  commits : ∃ made, commitSizes (finalSize - initSize) =
      made ++ commitSizes (finalSize - x.worker.lastCommitSize) ∧
    x.heapSize = initSize + (made.map (rounded alignBytes)).sum

variable {initSize finalSize : Nat} {alignBytes : Int} {x : LazyExpansion}

theorem Course.sum_nonneg (h : Course initSize finalSize alignBytes x) (made : List Nat) :
    0 ≤ (made.map (rounded alignBytes)).sum := by
  have halign := h.bounded.align_pos
  rw [h.align] at halign
  apply List.sum_nonneg
  intro n hn
  obtain ⟨c, -, rfl⟩ := List.mem_map.mp hn
  exact AddressManager.computeAlignedSize_nonneg (m := AddressManager.init 0 alignBytes) halign
    (Int.natCast_nonneg c)

/-- A step that leaves the thread where it is, and the heap as large as it is. -/
theorem Course.of_keeps (h : Course initSize finalSize alignBytes x) {pool : ObjectPool}
    (hkeeps : x.pool.Keeps pool) {returning : List Returned}
    (hreturning : ∀ r ∈ returning, InHeap x.heapSize r.range) :
    Course initSize finalSize alignBytes { x with pool := pool, returning := returning } := by
  have hheap : heapSize { x with pool := pool, returning := returning } = x.heapSize := hkeeps.size
  refine ⟨h.le, h.worker, h.final, hkeeps.align.trans h.align, hkeeps.bounded h.bounded, ?_, ?_⟩
  · rw [hheap]
    exact hreturning
  · rw [hheap]
    exact h.commits

/-- **Step lemma.** -/
theorem course_step (h : Course initSize finalSize alignBytes x) (e : ExpandEvent) :
    Course initSize finalSize alignBytes (x.step e) := by
  have hcall : ∀ c : PoolCall, (∀ is, c ≠ .batchedFree is) →
      Course initSize finalSize alignBytes { x with pool := x.pool.step c } :=
    fun c hc => h.of_keeps (ObjectPool.keeps_step h.bounded.align_pos hc) h.returning
  cases e with
  | call c =>
    cases c with
    | batchedFree is =>
      apply h.of_keeps (x.pool.keeps_collectRuns is)
      intro r hr
      rcases List.mem_append.mp hr with hr | hr
      · exact h.returning r hr
      · exact ObjectPool.collectRuns_inHeap h.bounded is r hr
    | _ => exact hcall _ fun is => by simp
  | giveBack i =>
    unfold LazyExpansion.step
    dsimp only
    split
    · exact h
    · rename_i r hget
      apply h.of_keeps (x.pool.keeps_giveBack (h.returning r (List.mem_of_getElem? hget)))
      exact fun r' hr' => h.returning r' (List.mem_of_mem_eraseIdx hr')
  | worker =>
    have hcase := h.worker.step_cases
    have hnext := h.worker.step
    have hfinal : x.worker.step.finalSize = finalSize := x.worker.step_finalSize.trans h.final
    unfold LazyExpansion.step
    dsimp only
    split
    · rename_i hpc
      -- the commit is the next one of those that are left
      have hstep : x.worker.step.lastCommitSize = x.worker.currSize := by
        unfold ExpandWorker.step
        rw [hpc]
      have hat := h.worker.atPc
      unfold ExpandWorker.AtPc at hat
      rw [hpc] at hat
      obtain ⟨hlt, hamount⟩ := hat
      obtain ⟨made, hmade, hheap⟩ := h.commits
      have hlast := h.worker.last_le
      have hnonneg : 0 ≤ x.heapSize := by
        have := h.sum_nonneg made
        omega
      have hround : x.pool.allocator.addressManager.computeAlignedSize x.worker.expandSize =
          rounded alignBytes x.worker.expandSize := by
        unfold rounded AddressManager.computeAlignedSize AddressManager.init
        rw [h.align]
      have hsize : (x.pool.sbrk x.worker.expandSize).allocator.addressManager.size =
          x.heapSize + rounded alignBytes x.worker.expandSize := by
        rw [← hround]
        rfl
      have hrounded : 0 ≤ rounded alignBytes x.worker.expandSize := by
        have := h.sum_nonneg [x.worker.expandSize]
        simpa using this
      refine ⟨h.le, hnext, hfinal, h.align, ObjectPool.bounded_sbrk h.bounded hnonneg _, ?_,
        made ++ [x.worker.expandSize], ?_, ?_⟩
      · intro r hr
        apply (h.returning r hr).mono
        show x.heapSize ≤ (x.pool.sbrk x.worker.expandSize).allocator.addressManager.size
        omega
      · rw [hmade, commitSizes_of_pos (by rw [← h.final]; omega), List.append_assoc]
        dsimp only
        rw [hstep, ← h.final, ← hamount, List.singleton_append]
        unfold ExpandWorker.expandSize
        rw [show x.worker.finalSize - x.worker.lastCommitSize -
          (x.worker.currSize - x.worker.lastCommitSize) =
            x.worker.finalSize - x.worker.currSize by omega]
      · show (x.pool.sbrk x.worker.expandSize).allocator.addressManager.size = _
        rw [hsize, hheap, List.map_append, List.sum_append, List.map_singleton, List.sum_singleton]
        omega
    · rename_i hpc
      have hlast : x.worker.step.lastCommitSize = x.worker.lastCommitSize := by
        generalize x.worker.step = w' at hcase
        cases hcase with
        | commit hpc' => exact absurd hpc' hpc
        | _ => rfl
      refine ⟨h.le, hnext, hfinal, h.align, h.bounded, h.returning, ?_⟩
      dsimp only
      rw [hlast]
      exact h.commits

theorem start_eq {currSize : Nat} (hdvd : PIN_CHUNK_SIZE ∣ currSize) (finalSize : Nat)
    (alignBytes : Int) :
    start currSize finalSize alignBytes =
      if currSize ≤ finalSize then
        .ok {
          pool := .init (.init finalSize alignBytes (some currSize))
          returning := []
          worker := ⟨currSize, finalSize, currSize, [(0, currSize)], .check⟩ }
      else .error (.assertionError "Pinning exceeds buffer size") := by
  unfold start
  rw [ExpandWorker.pinMemoryChunk_eq (dvd_zero _) hdvd, Nat.zero_add]
  by_cases hle : currSize ≤ finalSize
  · rw [if_pos hle, if_pos hle]
  · rw [if_neg hle, if_neg hle]

theorem course_start (ha : 0 < alignBytes) (hinit : PIN_CHUNK_SIZE ∣ initSize)
    (hfinal : PIN_CHUNK_SIZE ∣ finalSize) (hstart : start initSize finalSize alignBytes = .ok x) :
    Course initSize finalSize alignBytes x := by
  rw [start_eq hinit] at hstart
  split at hstart
  case isFalse => cases hstart
  rename_i hle
  cases hstart
  refine ⟨hle, ⟨hinit, hfinal, hle, le_refl _, ?_, rfl⟩, rfl, rfl,
    ⟨ha, ?_, by simp [ObjectPool.init]⟩, by simp, [], (List.nil_append _).symm, ?_⟩
  · show ExpandWorker.pinnedPrefix _ = initSize
    simp [ExpandWorker.pinnedPrefix]
  · intro b hb
    obtain rfl := List.mem_singleton.mp hb
    show 0 ≤ (0 : Int) ∧ (0 : Int) ≤ 0 + (initSize : Int) ∧ (0 : Int) + (initSize : Int) ≤ initSize
    omega
  · show (initSize : Int) = _
    simp

/-! ## What a run keeps -/

theorem always_course (h : Course initSize finalSize alignBytes x) (es : List ExpandEvent) :
    Always step (Course initSize finalSize alignBytes) x es :=
  always_of_step (P := Course initSize finalSize alignBytes) (fun _ e hy => course_step hy e) h es

theorem course_run (h : Course initSize finalSize alignBytes x) (es : List ExpandEvent) :
    Course initSize finalSize alignBytes (run step x es) := (always_course h es).last

/-- No event moves an object. -/
theorem Course.ranges_step (h : Course initSize finalSize alignBytes x) (e : ExpandEvent) :
    x.pool.objs.map TensorMemoryObj.range <+: (x.step e).pool.objs.map TensorMemoryObj.range := by
  have hcall : ∀ c : PoolCall, (∀ is, c ≠ .batchedFree is) →
      x.pool.objs.map TensorMemoryObj.range <+:
        (x.pool.step c).objs.map TensorMemoryObj.range :=
    fun c hc => (ObjectPool.keeps_step h.bounded.align_pos hc).ranges
  cases e with
  | call c =>
    cases c with
    | batchedFree is => exact (x.pool.keeps_collectRuns is).ranges
    | _ => exact hcall _ fun is => by simp
  | giveBack i =>
    unfold LazyExpansion.step
    dsimp only
    split
    · exact List.prefix_rfl
    · exact List.prefix_rfl
  | worker =>
    unfold LazyExpansion.step
    dsimp only
    split
    · exact List.prefix_rfl
    · exact List.prefix_rfl

theorem Course.ranges_run (h : Course initSize finalSize alignBytes x) (es : List ExpandEvent) :
    x.pool.objs.map TensorMemoryObj.range <+:
      (run step x es).pool.objs.map TensorMemoryObj.range := by
  induction es generalizing x with
  | nil => exact List.prefix_rfl
  | cons e es ih => exact (h.ranges_step e).trans (ih (course_step h e))

/-- Each step of the thread brings it nearer to its end, and no call takes it back. -/
theorem Course.stepsLeft_run (h : Course initSize finalSize alignBytes x)
    (es : List ExpandEvent) :
    (run step x es).worker.stepsLeft ≤
      x.worker.stepsLeft - es.countP ExpandEvent.isWorker := by
  induction es generalizing x with
  | nil => simp
  | cons e es ih =>
    have hrest := ih (course_step h e)
    rw [run_cons]
    cases e with
    | worker =>
      have hworker : (x.step .worker).worker = x.worker.step := by
        unfold LazyExpansion.step
        dsimp only
        split
        · rfl
        · rfl
      have hstep := h.worker.stepsLeft_step
      rw [hworker] at hrest
      rw [List.countP_cons_of_pos rfl]
      omega
    | call c =>
      have hworker : (x.step (.call c)).worker = x.worker := by
        cases c <;> rfl
      rw [hworker] at hrest
      rwa [List.countP_cons_of_neg (by simp [ExpandEvent.isWorker])]
    | giveBack i =>
      have hworker : (x.step (.giveBack i)).worker = x.worker := by
        unfold LazyExpansion.step
        dsimp only
        split
        · rfl
        · rfl
      rw [hworker] at hrest
      rwa [List.countP_cons_of_neg (by simp [ExpandEvent.isWorker])]

/-! ## A round of the thread alone -/

theorem step_worker (hpc : x.worker.pc ≠ .commit) :
    x.step .worker = { x with worker := x.worker.step } := by
  unfold LazyExpansion.step
  dsimp only
  rw [if_neg hpc]

/-- The turns that are left, and the end of the loop. -/
theorem run_chunks (left : Nat) (h : x.worker.OnCourse) (hpc : x.worker.pc = .chunk left) :
    ∃ n record, run step x (List.replicate n .worker) =
      { x with worker := ⟨LazyMemoryAllocator.pinChunks x.worker.finalSize left x.worker.currSize,
        x.worker.finalSize, x.worker.lastCommitSize, record, .commit⟩ } := by
  induction left generalizing x with
  | zero =>
    refine ⟨1, x.worker.pinRecord, ?_⟩
    rw [List.replicate_one, run_cons, run_nil, step_worker (by rw [hpc]; simp)]
    unfold ExpandWorker.step LazyMemoryAllocator.pinChunks
    rw [hpc]
  | succ left ih =>
    unfold LazyMemoryAllocator.pinChunks
    by_cases hge : x.worker.currSize ≥ x.worker.finalSize
    · refine ⟨1, x.worker.pinRecord, ?_⟩
      rw [List.replicate_one, run_cons, run_nil, step_worker (by rw [hpc]; simp), if_pos hge]
      unfold ExpandWorker.step
      rw [hpc]
      dsimp only
      rw [if_pos hge]
    · have hpin : x.worker.step = { x.worker with
          pinRecord := x.worker.pinRecord ++ [(x.worker.currSize, PIN_CHUNK_SIZE)]
          pc := .advance left } := by
        unfold ExpandWorker.step
        rw [hpc]
        dsimp only
        rw [if_neg hge, ExpandWorker.pinMemoryChunk_eq h.curr (dvd_refl _),
          if_pos (h.fits (Nat.not_le.mp hge))]
      have hadvance : x.worker.step.step = { x.worker with
          currSize := x.worker.currSize + PIN_CHUNK_SIZE
          pinRecord := x.worker.pinRecord ++ [(x.worker.currSize, PIN_CHUNK_SIZE)]
          pc := .chunk left } := by
        rw [hpin]
        rfl
      have hfirst : x.step .worker = { x with worker := x.worker.step } :=
        step_worker (by rw [hpc]; simp)
      have hsteps : (x.step .worker).step .worker = { x with worker := x.worker.step.step } := by
        rw [hfirst]
        apply step_worker
        dsimp only
        rw [hpin]
        simp
      have hcourse := h.step.step
      rw [hadvance] at hcourse hsteps
      -- from the next turn on
      obtain ⟨n, record, hrun⟩ := ih (x := (x.step .worker).step .worker)
        (by rw [hsteps]; exact hcourse) (by rw [hsteps])
      refine ⟨n + 2, record, ?_⟩
      rw [List.replicate_succ, List.replicate_succ, run_cons, run_cons, hrun, hsteps, if_neg hge]

/-- **A round of the thread alone is one `expand`**, the round as a whole. -/
theorem round_eq_expand (h : x.worker.OnCourse) (hpc : x.worker.pc = .check)
    (hlt : x.worker.currSize < x.worker.finalSize) :
    ∃ n record, run step x (List.replicate n .worker) =
      let a := LazyMemoryAllocator.expand ⟨x.pool, x.worker.currSize, x.worker.finalSize⟩
      ⟨a.pool, x.returning, ⟨a.currSize, a.finalSize, a.currSize, record, .check⟩⟩ := by
  have hlast : x.worker.currSize = x.worker.lastCommitSize := by
    have hat := h.atPc
    unfold ExpandWorker.AtPc at hat
    rw [hpc] at hat
    exact hat
  have henter : x.worker.step =
      { x.worker with pc := .chunk (COMMIT_SIZE / PIN_CHUNK_SIZE) } := by
    unfold ExpandWorker.step
    rw [hpc]
    dsimp only
    rw [if_pos hlt]
  have hstep : x.step .worker = { x with worker := x.worker.step } :=
    step_worker (by rw [hpc]; simp)
  have hcourse := h.step
  rw [henter] at hcourse hstep
  obtain ⟨n, record, hrun⟩ := run_chunks (x := x.step .worker) (COMMIT_SIZE / PIN_CHUNK_SIZE)
    (by rw [hstep]; exact hcourse) (by rw [hstep])
  refine ⟨n + 2, record, ?_⟩
  have happend : List.replicate (n + 2) ExpandEvent.worker =
      .worker :: (List.replicate n .worker ++ [.worker]) := by
    rw [List.replicate_succ, List.replicate_succ']
  have hround : run step x (List.replicate (n + 2) .worker) =
      (run step (x.step .worker) (List.replicate n .worker)).step .worker := by
    rw [happend, run_cons]
    exact List.foldl_append
  rw [hround, hrun, hstep]
  unfold LazyMemoryAllocator.expand
  dsimp only
  rw [if_pos hlt]
  unfold LazyExpansion.step ExpandWorker.step ExpandWorker.expandSize
  dsimp only
  rw [if_pos rfl, ← hlast]

/-- The first round of a pool that starts with 64 MB of 1 GB. -/
theorem round_eq_expand_fresh : ∃ n record,
    run step (⟨.init (.init (2 ^ 30) 4096 (some (2 ^ 26))), [],
        ⟨2 ^ 26, 2 ^ 30, 2 ^ 26, [(0, 2 ^ 26)], .check⟩⟩ : LazyExpansion)
        (List.replicate n .worker) =
      let a := LazyMemoryAllocator.expand
        ⟨.init (.init (2 ^ 30) 4096 (some (2 ^ 26))), 2 ^ 26, 2 ^ 30⟩
      ⟨a.pool, [], ⟨a.currSize, a.finalSize, a.currSize, record, .check⟩⟩ :=
  round_eq_expand (course_start (by decide) (by decide) (by decide)
    ((start_eq (by decide) _ 4096).trans (if_pos (by decide)))).worker rfl (by decide)

/-! ## The heap and the pinned prefix -/

/-- The heap is pinned, and every live object lies in what is pinned. -/
structure Safe (x : LazyExpansion) : Prop where
  heap : x.heapSize ≤ x.worker.pinnedPrefix
  live : ∀ o ∈ x.pool.objs, o.valid = true → InHeap x.worker.pinnedPrefix o.range

/-- Under any interleaving the allocator is safe and its objects stay where they are, and the thread
comes to its end, with the heap of the final size. -/
structure Expands (x : LazyExpansion) : Prop where
  safe : ∀ es, Always step Safe x es
  ranges : ∀ es es', (run step x es).pool.objs.map TensorMemoryObj.range <+:
    (run step x (es ++ es')).pool.objs.map TensorMemoryObj.range
  ends : ∃ n, ∀ es : List ExpandEvent, n ≤ es.countP ExpandEvent.isWorker →
    (run step x es).worker.pc = .done ∧
      (run step x es).heapSize = (run step x es).worker.finalSize

/-- What the thread commits is what `sbrk` adds. -/
def Exact (alignBytes : Int) (d : Nat) : Prop := ∀ n ∈ commitSizes d, rounded alignBytes n = n

instance (alignBytes : Int) (d : Nat) : Decidable (Exact alignBytes d) :=
  inferInstanceAs (Decidable (∀ n ∈ commitSizes d, rounded alignBytes n = n))

/-- With exact commits the heap ends where the last commit did. -/
theorem Course.heapSize_eq (h : Course initSize finalSize alignBytes x)
    (hexact : Exact alignBytes (finalSize - initSize)) :
    x.heapSize = x.worker.lastCommitSize := by
  obtain ⟨made, hmade, hheap⟩ := h.commits
  have hmap : made.map (rounded alignBytes) = made.map Nat.cast := by
    refine List.map_congr_left fun n hn => hexact n ?_
    rw [hmade]
    exact List.mem_append_left _ hn
  have hsum := congrArg List.sum hmade
  rw [sum_commitSizes, List.sum_append, sum_commitSizes] at hsum
  have hle := h.le
  have hlast := h.worker.last_le
  have hcurr := h.worker.curr_le
  have hfinal := h.final
  rw [hheap, hmap, ← Nat.cast_list_sum]
  omega

theorem Course.lastCommitSize_le (h : Course initSize finalSize alignBytes x) :
    x.worker.lastCommitSize ≤ x.worker.pinnedPrefix := by
  have hlast := h.worker.last_le
  have hpinned := h.worker.pinned
  split at hpinned
  · omega
  · omega

theorem Course.expands (h : Course initSize finalSize alignBytes x)
    (hexact : Exact alignBytes (finalSize - initSize)) : x.Expands where
  safe := by
    intro es
    refine (always_course h es).mono fun y hy => ?_
    have hheap : y.heapSize ≤ y.worker.pinnedPrefix := by
      rw [hy.heapSize_eq hexact]
      exact_mod_cast hy.lastCommitSize_le
    exact ⟨hheap, fun o ho _ => (hy.bounded.objs o ho).mono hheap⟩
  ranges := by
    intro es es'
    have happend : run step x (es ++ es') = run step (run step x es) es' :=
      List.foldl_append
    rw [happend]
    exact (course_run h es).ranges_run es'
  ends := by
    refine ⟨x.worker.stepsLeft, fun es hes => ?_⟩
    have hy := course_run h es
    have hleft := h.stepsLeft_run es
    have hdone := hy.worker.done (by omega)
    have hat := hy.worker.atPc
    unfold ExpandWorker.AtPc at hat
    rw [hdone] at hat
    exact ⟨hdone, by rw [hy.heapSize_eq hexact, hat.2]⟩

/-- Summands that are no smaller, with the same sum, are the same. -/
theorem eq_of_sum_eq {f : Nat → Int} {l : List Nat} (hle : ∀ n ∈ l, (n : Int) ≤ f n)
    (hsum : (l.map f).sum = l.sum) : ∀ n ∈ l, f n = n := by
  have hsums : ∀ l : List Nat, (∀ n ∈ l, (n : Int) ≤ f n) → (l.sum : Int) ≤ (l.map f).sum := by
    intro l hle
    rw [Nat.cast_list_sum]
    exact List.sum_le_sum hle
  induction l with
  | nil => simp
  | cons m l ih =>
    have hm := hle m List.mem_cons_self
    have hl : ∀ n ∈ l, (n : Int) ≤ f n := fun n hn => hle n (List.mem_cons_of_mem _ hn)
    have hrest := hsums l hl
    rw [List.map_cons, List.sum_cons, List.sum_cons, Nat.cast_add] at hsum
    intro n hn
    rcases List.mem_cons.mp hn with rfl | hn
    · omega
    · exact ih hl (by omega) n hn

/-- If the heap is of the final size in the end, no commit was rounded up. -/
theorem Course.exact_of_expands (ha : 0 < alignBytes)
    (h : Course initSize finalSize alignBytes x) (hx : x.Expands) :
    Exact alignBytes (finalSize - initSize) := by
  obtain ⟨n, hn⟩ := hx.ends
  -- the thread alone
  have hcount : n ≤ (List.replicate n ExpandEvent.worker).countP ExpandEvent.isWorker := by
    rw [List.countP_replicate]
    rfl
  obtain ⟨hdone, hheap⟩ := hn _ hcount
  have hy := course_run h (List.replicate n .worker)
  have hat := hy.worker.atPc
  unfold ExpandWorker.AtPc at hat
  rw [hdone] at hat
  obtain ⟨made, hmade, hsize⟩ := hy.commits
  rw [hat.2, hy.final, Nat.sub_self, commitSizes_zero, List.append_nil] at hmade
  rw [hheap, hy.final] at hsize
  have hle := h.le
  have hsum := sum_commitSizes (finalSize - initSize)
  unfold Exact
  rw [hmade] at hsum ⊢
  apply eq_of_sum_eq
  · exact fun c _ => AddressManager.le_computeAlignedSize (m := AddressManager.init 0 alignBytes) ha
      (Int.natCast_nonneg c)
  · omega

/-- The allocator that `__init__` makes, if it does not raise, expands safely. -/
def ExpandsSafely (initSize finalSize : Nat) (alignBytes : Int) : Prop :=
  ∀ x, create initSize finalSize alignBytes = .ok x → x.Expands

theorem expands_start_iff (ha : 0 < alignBytes) (hinit : PIN_CHUNK_SIZE ∣ initSize)
    (hfinal : PIN_CHUNK_SIZE ∣ finalSize) :
    (∀ x, start initSize finalSize alignBytes = .ok x → x.Expands) ↔
      Exact alignBytes (finalSize - initSize) := by
  constructor
  · intro h
    rcases Nat.lt_or_ge finalSize initSize with hlt | hle
    · -- nothing is committed, for the constructor raises
      rw [Nat.sub_eq_zero_of_le hlt.le]
      intro n hn
      cases hn
    · obtain ⟨x, hx⟩ : ∃ x, start initSize finalSize alignBytes = .ok x := by
        rw [start_eq hinit, if_pos hle]
        exact ⟨_, rfl⟩
      exact (course_start ha hinit hfinal hx).exact_of_expands ha (h x hx)
  · intro hexact x hx
    exact (course_start ha hinit hfinal hx).expands hexact

/-- Clearing bits below a multiple of a power of two leaves the multiple. -/
theorem ldiff_mul_add {k q m : Nat} (hm : m < 2 ^ k) : Nat.ldiff (2 ^ k * q + m) m = 2 ^ k * q := by
  apply Nat.eq_of_testBit_eq
  intro i
  rw [Nat.testBit_ldiff, Nat.testBit_two_pow_mul_add q hm, Nat.testBit_two_pow_mul]
  by_cases hi : i < k
  · rw [if_pos hi]
    simp [Nat.not_le.mpr hi]
  · have hclear : m.testBit i = false :=
      Nat.testBit_lt_two_pow (hm.trans_le (Nat.pow_le_pow_right (by decide) (Nat.not_lt.mp hi)))
    rw [if_neg hi, hclear]
    simp [Nat.not_lt.mp hi]

/-- An alignment of at most one chunk rounds no commit up. -/
theorem exact_of_le (ha : 0 < alignBytes) (hle : alignBytes ≤ PIN_CHUNK_SIZE) {d : Nat}
    (hd : PIN_CHUNK_SIZE ∣ d) : Exact alignBytes d := by
  intro n hn
  obtain ⟨q, rfl⟩ := dvd_of_mem_commitSizes hd hn
  obtain ⟨m, hm⟩ := Int.eq_ofNat_of_zero_le (show 0 ≤ alignBytes - 1 by omega)
  have hlt : m < 2 ^ 26 := by
    simp only [PIN_CHUNK_SIZE] at hle
    omega
  unfold rounded AddressManager.computeAlignedSize AddressManager.init
  dsimp only
  rw [add_sub_assoc, hm, ← Nat.cast_add]
  show ((Nat.ldiff (PIN_CHUNK_SIZE * q + m) m : Nat) : Int) = _
  rw [show PIN_CHUNK_SIZE = 2 ^ 26 from rfl, ldiff_mul_add hlt]

/-- **The expansion is safe exactly when no commit is rounded up.** -/
theorem expandsSafely_iff (initSize finalSize : Nat) {alignBytes : Int} (ha : 0 < alignBytes) :
    ExpandsSafely initSize finalSize alignBytes ↔
      Exact alignBytes (alignTo finalSize PIN_CHUNK_SIZE - alignTo initSize PIN_CHUNK_SIZE) :=
  expands_start_iff ha (LazyMemoryAllocator.dvd_alignTo initSize)
    (LazyMemoryAllocator.dvd_alignTo finalSize)

/-- With the alignment of pages, from 64 MB to 3 GB and one byte. -/
theorem expandsSafely_pages : ExpandsSafely (2 ^ 26) (3 * 2 ^ 30 + 1) 4096 :=
  (expandsSafely_iff (2 ^ 26) (3 * 2 ^ 30 + 1) (by decide)).mpr (exact_of_le (by decide) (by decide)
    (Nat.dvd_sub (LazyMemoryAllocator.dvd_alignTo _) (LazyMemoryAllocator.dvd_alignTo _)))

/-- It can fail: with an alignment of 128 MB, the one commit of 64 MB makes the heap of 64 MB one of
192 MB, of which 128 MB are pinned, or exist. -/
theorem not_expandsSafely_hugeAlign : ¬ExpandsSafely (2 ^ 26) (2 ^ 27) (2 ^ 27) := by
  intro h
  have hinit : alignTo (2 ^ 26) PIN_CHUNK_SIZE = 2 ^ 26 := by decide +kernel
  have hfinal : alignTo (2 ^ 27) PIN_CHUNK_SIZE = 2 ^ 27 := by decide +kernel
  unfold ExpandsSafely create at h
  rw [hinit, hfinal] at h
  have hx := h _ ((start_eq (by decide) _ _).trans (if_pos (by decide)))
  -- test, turn, pin, advance, leave, commit
  have hheap := (hx.safe (List.replicate 6 .worker)).last.heap
  revert hheap
  decide +kernel

end LazyExpansion

end LMCache.Memory
