/-
# LMCache.Memory.LazyAllocator — an allocator whose address space grows while it is used.

Source: `v1/lazy_memory_allocator.py`, `LazyMemoryAllocator`.

The buffer has its final length from the start; the address manager begins with a part of it, and a
background thread hands it the rest in rounds.  Every other call goes to the
`TensorMemoryAllocator`. Pinning the pages for the device changes nothing that an allocation reads
and is left out.
-/
import LMCache.Memory.TensorAllocator

namespace LMCache.Memory

open LMCache.Lib

/-! ## The source -/

structure LazyMemoryAllocator where
  /-- The `TensorMemoryAllocator`, with the objects it has handed out. -/
  pool : ObjectPool
  currSize : Nat
  finalSize : Nat

/-- `_commit_expansion`. -/
def ObjectPool.sbrk (s : ObjectPool) (size : Int) : ObjectPool :=
  { s with
    allocator := { s.allocator with
      addressManager := s.allocator.addressManager.sbrk size } }

namespace LazyMemoryAllocator

/-- 64 MB. -/
def PIN_CHUNK_SIZE : Nat := 2 ^ 26

/-- 1 GB. -/
def COMMIT_SIZE : Nat := 2 ^ 30

/-- `align_to`: `(size + align_size - 1) & ~(align_size - 1)`. -/
def alignTo (size alignSize : Nat) : Nat := Nat.ldiff (size + alignSize - 1) (alignSize - 1)

def init (initSize finalSize : Nat) : LazyMemoryAllocator where
  pool := .init (.init (alignTo finalSize PIN_CHUNK_SIZE) AddressManager.ALIGN_BYTES
    (some (alignTo initSize PIN_CHUNK_SIZE)))
  currSize := alignTo initSize PIN_CHUNK_SIZE
  finalSize := alignTo finalSize PIN_CHUNK_SIZE

/-- A `TensorMemoryAllocator` over the whole buffer: there is nothing left to expand. -/
def whole (size : Nat) : LazyMemoryAllocator := ⟨.init (.init size), size, size⟩

/-- The loop over the chunks of one commit, with so many turns left: `_curr_size` after it. -/
def pinChunks (finalSize : Nat) : Nat → Nat → Nat
  | 0, currSize => currSize
  | turns + 1, currSize =>
    if currSize ≥ finalSize then currSize
    else pinChunks finalSize turns (currSize + PIN_CHUNK_SIZE)

/-- One round of the loop of `_expand_worker`, with its `_commit_expansion`. -/
def expand (a : LazyMemoryAllocator) : LazyMemoryAllocator :=
  if a.currSize < a.finalSize then
    let currSize := pinChunks a.finalSize (COMMIT_SIZE / PIN_CHUNK_SIZE) a.currSize
    { a with pool := a.pool.sbrk (currSize - a.currSize : Nat), currSize := currSize }
  else a

/-- `batched_allocate`: the objects, by their places. -/
def batchedAllocate (a : LazyMemoryAllocator) (shapes : OneOrList TorchSize)
    (dtypes : OneOrList TorchDtype) (batchSize : Nat) (fmt : MemoryFormat) :
    Except PyError (Option (List Nat)) × LazyMemoryAllocator :=
  ((a.pool.allocator.batchedAllocate shapes dtypes batchSize fmt).1.map fun r =>
      r.map fun objs => List.range' a.pool.objs.length objs.length,
    { a with pool := a.pool.step (.batchedAllocate shapes dtypes batchSize fmt) })

/-- `obj.ref_count_down()`. -/
def refCountDown (a : LazyMemoryAllocator) (i : Nat) : LazyMemoryAllocator :=
  { a with pool := a.pool.refCountDown i }

/-- `obj.can_evict`. -/
def canEvict (a : LazyMemoryAllocator) (i : Nat) : Bool :=
  (a.pool.objs[i]?.map TensorMemoryObj.canEvict).getD false

/-! ## The sizes -/

theorem alignTo_eq (size : Nat) :
    alignTo size PIN_CHUNK_SIZE =
      (size + PIN_CHUNK_SIZE - 1) / PIN_CHUNK_SIZE * PIN_CHUNK_SIZE := by
  unfold alignTo PIN_CHUNK_SIZE
  exact AddressManager.ldiff_two_pow_sub_one _ 26

variable {n : Nat} {a : LazyMemoryAllocator} {dtype : TorchDtype} {shape : TorchSize}

theorem alignTo_mono {m : Nat} (h : m ≤ n) :
    alignTo m PIN_CHUNK_SIZE ≤ alignTo n PIN_CHUNK_SIZE := by
  rw [alignTo_eq, alignTo_eq]
  apply Nat.mul_le_mul_right
  apply Nat.div_le_div_right
  omega

theorem dvd_alignTo (n : Nat) : PIN_CHUNK_SIZE ∣ alignTo n PIN_CHUNK_SIZE := by
  rw [alignTo_eq]
  exact Nat.dvd_mul_left _ _

/-- The chunks of a commit stay within the buffer, and are whole chunks. -/
theorem pinChunks_spec {finalSize : Nat} (turns : Nat) {currSize : Nat} (hle : currSize ≤ finalSize)
    (hdvd : PIN_CHUNK_SIZE ∣ finalSize - currSize) :
    currSize ≤ pinChunks finalSize turns currSize ∧ pinChunks finalSize turns currSize ≤ finalSize ∧
      PIN_CHUNK_SIZE ∣ pinChunks finalSize turns currSize - currSize ∧
      PIN_CHUNK_SIZE ∣ finalSize - pinChunks finalSize turns currSize := by
  induction turns generalizing currSize with
  | zero => exact ⟨le_refl _, hle, by simp [pinChunks], hdvd⟩
  | succ turns ih =>
    unfold pinChunks
    split
    · exact ⟨le_refl _, hle, by simp, hdvd⟩
    · rename_i hlt
      obtain ⟨k, hk⟩ := hdvd
      -- what is missing is a whole number of chunks, and at least one
      have hpos : 0 < k := by
        apply Nat.pos_of_ne_zero
        rintro rfl
        omega
      have hmul : PIN_CHUNK_SIZE * k = PIN_CHUNK_SIZE * (k - 1) + PIN_CHUNK_SIZE := by
        rw [← Nat.mul_succ, Nat.succ_eq_add_one, Nat.sub_add_cancel hpos]
      have hnext : finalSize - (currSize + PIN_CHUNK_SIZE) = PIN_CHUNK_SIZE * (k - 1) := by omega
      obtain ⟨h1, h2, ⟨m, hm⟩, h4⟩ := ih (by omega) ⟨k - 1, hnext⟩
      refine ⟨by omega, h2, ⟨m + 1, ?_⟩, h4⟩
      rw [Nat.mul_succ]
      omega

/-! ## The invariant -/

/-- The pool is accounted for, its address space ends where the manager's does, and what is still
missing from the buffer is a whole number of chunks. -/
structure WellFormed (a : LazyMemoryAllocator) : Prop where
  accounted : a.pool.Accounted
  align : a.pool.allocator.addressManager.align = 2 ^ 12
  size : a.pool.allocator.addressManager.size = a.currSize
  buffer : a.pool.allocator.buffer = ⟨0, a.finalSize⟩
  size_le : a.currSize ≤ a.finalSize
  chunks : PIN_CHUNK_SIZE ∣ a.finalSize - a.currSize
  within : ∀ x, a.pool.covered x ≠ 0 → 0 ≤ x ∧ x < a.currSize

theorem covered_init (numel : Nat) (alignBytes : Int) (initAddressSpace : Option Nat) (x : Int) :
    (ObjectPool.init (.init numel alignBytes initAddressSpace)).covered x =
      hits (0, ((initAddressSpace.getD numel : Nat) : Int)) x := by
  have hblock (n : Nat) : FreeBlock.range ⟨0, n⟩ = (0, (n : Int)) := by
    simp [FreeBlock.range, FreeBlock.stop]
  show cover [FreeBlock.range ⟨0, _⟩] x + cover [] x = _
  rw [hblock, cover_cons, cover_nil, Nat.add_zero]

/-- A fresh allocator, whatever the two sizes are. -/
theorem wellFormed_fresh {numel currSize : Nat} {initAddressSpace : Option Nat}
    (hcurr : initAddressSpace.getD numel = currSize) (hle : currSize ≤ numel)
    (hdvd : PIN_CHUNK_SIZE ∣ numel - currSize) :
    WellFormed
      ⟨.init (.init numel AddressManager.ALIGN_BYTES initAddressSpace), currSize, numel⟩ where
  accounted := ObjectPool.accounted_init (by decide) _
  align := rfl
  size := by rw [← hcurr]; rfl
  buffer := rfl
  size_le := hle
  chunks := hdvd
  within := by
    intro x hx
    rw [covered_init, hcurr] at hx
    exact hits_pos.mp (Nat.pos_of_ne_zero hx)

theorem wellFormed_init {initSize finalSize : Nat} (h : initSize ≤ finalSize) :
    (init initSize finalSize).WellFormed := by
  unfold init
  exact wellFormed_fresh (Option.getD_some) (alignTo_mono h)
    (Nat.dvd_sub (dvd_alignTo finalSize) (dvd_alignTo initSize))

theorem wellFormed_whole (size : Nat) : (whole size).WellFormed := by
  have hdvd : PIN_CHUNK_SIZE ∣ size - size := by
    rw [Nat.sub_self]
    exact Nat.dvd_zero _
  unfold whole
  exact wellFormed_fresh rfl (le_refl size) hdvd

/-- What is covered does not grow, so that it stays within the address space. -/
theorem WellFormed.of_pool (h : a.WellFormed) {p : ObjectPool} (hacc : p.Accounted)
    (halign : p.allocator.addressManager.align = a.pool.allocator.addressManager.align)
    (hsize : p.allocator.addressManager.size = a.pool.allocator.addressManager.size)
    (hbuffer : p.allocator.buffer = a.pool.allocator.buffer)
    (hcov : ∀ x, p.covered x ≤ a.pool.covered x) : WellFormed { a with pool := p } where
  accounted := hacc
  align := halign.trans h.align
  size := hsize.trans h.size
  buffer := hbuffer.trans h.buffer
  size_le := h.size_le
  chunks := h.chunks
  within := by
    intro x hx
    apply h.within x
    have := hcov x
    dsimp only at hx
    omega

theorem wellFormed_expand (h : a.WellFormed) : a.expand.WellFormed := by
  unfold expand
  split
  case isFalse => exact h
  obtain ⟨hgrow, hle, hstep, hrest⟩ :=
    pinChunks_spec (COMMIT_SIZE / PIN_CHUNK_SIZE) h.size_le h.chunks
  dsimp only
  generalize pinChunks a.finalSize (COMMIT_SIZE / PIN_CHUNK_SIZE) a.currSize = currSize at *
  -- whole chunks are aligned as they are
  have hsize : a.pool.allocator.addressManager.computeAlignedSize (currSize - a.currSize : Nat) =
      (currSize - a.currSize : Nat) := by
    have haligned : (4096 : Int) ∣ (currSize - a.currSize : Nat) := by
      apply Int.natCast_dvd_natCast.mpr
      exact Dvd.dvd.trans (by decide +kernel : 4096 ∣ PIN_CHUNK_SIZE) hstep
    rw [AddressManager.computeAlignedSize_eq h.align (Int.natCast_nonneg _)]
    omega
  have hco := a.pool.allocator.addressManager.sbrk_coalesced (currSize - a.currSize : Nat)
  have hsbrk := a.pool.allocator.addressManager.sbrk_size (currSize - a.currSize : Nat)
  rw [hsize, h.size] at hco
  rw [hsize, h.size] at hsbrk
  have hcov := hco.cover h.accounted.block_nonneg (Int.natCast_nonneg _)
  have hnonneg := hco.nonneg h.accounted.block_nonneg (Int.natCast_nonneg _)
  have hnew (x : Int) : hits (FreeBlock.range ⟨a.currSize, (currSize - a.currSize : Nat)⟩) x ≠ 0 ↔
      a.currSize ≤ x ∧ x < currSize := by
    rw [← Nat.pos_iff_ne_zero, hits_pos]
    simp only [points, FreeBlock.range, FreeBlock.stop, Set.mem_Ico]
    omega
  have hcovered (x : Int) : (a.pool.sbrk (currSize - a.currSize : Nat)).covered x =
      a.pool.covered x + hits (FreeBlock.range ⟨a.currSize, (currSize - a.currSize : Nat)⟩) x := by
    have := hcov x
    unfold ObjectPool.covered ObjectPool.sbrk
    dsimp only
    omega
  have honce (x : Int) : (a.pool.sbrk (currSize - a.currSize : Nat)).covered x ≤ 1 := by
    rw [hcovered]
    have hone : a.pool.covered x ≤ 1 := h.accounted.once x
    have hhit := hits_le_one (FreeBlock.range ⟨a.currSize, (currSize - a.currSize : Nat)⟩) x
    by_contra hlt
    -- an address covered before lies below the new range
    have hbefore := h.within x (by omega)
    have hafter := (hnew x).mp (by omega)
    omega
  refine ⟨⟨h.accounted.align_pos, hnonneg, h.accounted.obj_nonneg, honce, h.accounted.invalid,
    h.accounted.nodup, h.accounted.exact⟩, h.align, ?_, h.buffer, hle, hrest, ?_⟩
  · show (a.pool.allocator.addressManager.sbrk (currSize - a.currSize : Nat)).size = currSize
    omega
  · intro x hx
    dsimp only at hx ⊢
    rw [hcovered] at hx
    by_cases hin : hits (FreeBlock.range ⟨a.currSize, (currSize - a.currSize : Nat)⟩) x = 0
    · have := h.within x (by omega)
      omega
    · have := (hnew x).mp hin
      omega

/-! ## Handing out -/

/-- A block that holds something lies within the address space. -/
theorem WellFormed.block_within (h : a.WellFormed) {b : FreeBlock}
    (hb : b ∈ a.pool.allocator.addressManager.blocks) (hpos : 0 < b.size) :
    0 ≤ b.start ∧ b.stop ≤ a.currSize := by
  have hin (x : Int) (hx : b.start ≤ x ∧ x < b.stop) : 0 ≤ x ∧ x < a.currSize := by
    apply h.within x
    have hhit : 0 < hits b.range x := hits_pos.mpr hx
    have hle : hits b.range x ≤ cover (blockRanges a.pool.allocator.addressManager.blocks) x :=
      hits_le_cover (List.mem_map_of_mem hb) x
    unfold ObjectPool.covered
    omega
  have hfirst := hin b.start (by unfold FreeBlock.stop; omega)
  have hlast := hin (b.stop - 1) (by unfold FreeBlock.stop; omega)
  omega

/-- A block of `n` units is cut into `n` pieces. -/
theorem chunk_of_units {t : BufferSlice} {u : Nat} (hn : 0 < n) (h : t.length = n * u) :
    ∃ l, t.chunk n = .ok l ∧ l.length = n :=
  ⟨_, BufferSlice.chunk_units hn h, by rw [List.length_map, List.length_range]⟩

/-- An object as the allocator builds it: valid, with one reference and no pin. -/
def Fresh (o : TensorMemoryObj) : Prop :=
  o.valid = true ∧ o.metadata.refCount = 1 ∧ o.metadata.pinCount = 0

theorem fresh_batchObjs {unit : Int} {fmt : MemoryFormat} {shapes : List TorchSize}
    {dtypes : List TorchDtype} (l : List BufferSlice) (start : Int) :
    ∀ o ∈ TensorMemoryAllocator.batchObjs shape dtype unit fmt shapes dtypes start l, Fresh o := by
  intro o ho
  obtain ⟨k, r, -, rfl⟩ := ObjectPool.mem_batchObjs l start ho
  exact ⟨rfl, rfl, rfl⟩

theorem length_batchObjs {unit : Int} {fmt : MemoryFormat} {shapes : List TorchSize}
    {dtypes : List TorchDtype} (l : List BufferSlice) (start : Int) :
    (TensorMemoryAllocator.batchObjs shape dtype unit fmt shapes dtypes start l).length =
      l.length := by
  induction l generalizing start with
  | nil => rfl
  | cons r l ih => rw [TensorMemoryAllocator.batchObjs, List.length_cons, ih, List.length_cons]

/-- **A batch of one shape** is handed out whole or not at all, and raises nothing. -/
theorem batchedAllocate_cases (h : a.WellFormed) (shape : TorchSize) (dtype : TorchDtype)
    (hn : 0 < n) (fmt : MemoryFormat) :
    a.pool.allocator.batchedAllocate (.list [shape]) (.list [dtype]) n fmt =
        (.ok none, a.pool.allocator) ∨
      ∃ m k objs, a.pool.allocator.batchedAllocate (.list [shape]) (.list [dtype]) n fmt =
          (.ok (some objs), { a.pool.allocator with
            addressManager := m, numActiveAllocations := k }) ∧
        m.align = a.pool.allocator.addressManager.align ∧
        m.size = a.pool.allocator.addressManager.size ∧ objs.length = n ∧ ∀ o ∈ objs, Fresh o := by
  unfold TensorMemoryAllocator.batchedAllocate
  have hadapt : adaptShapesAndDtypes (.list [shape]) (.list [dtype]) = .ok ([shape], [dtype]) := rfl
  rw [hadapt]
  dsimp only
  match hbytes : getSizeBytes [shape] [dtype] with
  | .error e => cases hbytes
  | .ok unitRawSize =>
    dsimp only
    have hunit : 0 ≤ a.pool.allocator.addressManager.computeAlignedSize unitRawSize :=
      AddressManager.computeAlignedSize_nonneg h.accounted.align_pos (Int.natCast_nonneg _)
    obtain ⟨u, hu⟩ := Int.eq_ofNat_of_zero_le hunit
    rw [hu]
    match hok : a.pool.allocator.addressManager.allocate (u * n) with
    | .error e => exact .inl rfl
    | .ok ((start, size), m) =>
      dsimp only
      obtain ⟨b, R, hperm, rfl, hsize, hfit, -, hmsize, hmalign, -⟩ :=
        AddressManager.allocate_ok hok
      have hlen : (a.pool.allocator.getBufferSlice b.start (u * n)).length = n * u := by
        have htotal : (u * n : Int) ≤ size := hsize ▸
          AddressManager.le_computeAlignedSize h.accounted.align_pos (by positivity)
        have hcast : (u * n : Int) = (n * u : Nat) := by push_cast; ring
        unfold TensorMemoryAllocator.getBufferSlice BufferSlice.slice
        rw [h.buffer, hcast]
        rw [hcast] at htotal
        generalize n * u = total at *
        dsimp only
        have hle := h.size_le
        unfold BufferSlice.clampBound
        by_cases hzero : total = 0
        · subst hzero
          rw [Int.natCast_zero, Int.add_zero, Nat.sub_self]
        · obtain ⟨h0, hstop⟩ := h.block_within (hperm.mem_iff.mpr List.mem_cons_self) (by omega)
          unfold FreeBlock.stop at hstop
          rw [if_neg (by omega), if_neg (by omega)]
          omega
      obtain ⟨l, hchunk, hpieces⟩ := chunk_of_units hn hlen
      unfold TensorMemoryAllocator.getBufferSlice at hchunk ⊢
      dsimp only
      rw [hchunk]
      match l with
      | [] => exact absurd hpieces (Nat.ne_of_lt hn)
      | rawData :: rawDatas =>
        exact .inr ⟨m, _, _, rfl, hmalign, hmsize, (length_batchObjs _ _).trans hpieces,
          fresh_batchObjs _ _⟩

theorem wellFormed_batchedAllocate (h : a.WellFormed) (shape : TorchSize) (dtype : TorchDtype)
    (hn : 0 < n) (fmt : MemoryFormat) :
    (a.batchedAllocate (.list [shape]) (.list [dtype]) n fmt).2.WellFormed := by
  have hand := ObjectPool.handed_batchedAllocate h.accounted.align_pos (.list [shape])
    (.list [dtype]) n fmt
  have hacc := ObjectPool.accounted_handed h.accounted hand
  have hcov := ObjectPool.covered_handed hand
  rcases batchedAllocate_cases h shape dtype hn fmt with
    heq | ⟨m, k, objs, heq, halign, hsize, -, -⟩
  all_goals
    simp only [heq] at hacc hcov
    unfold batchedAllocate ObjectPool.step
    dsimp only
    rw [heq]
  · exact h.of_pool hacc rfl rfl rfl hcov
  · exact h.of_pool hacc halign hsize rfl hcov

/-- What a caller of `batched_allocate` gets: nothing, or as many fresh objects as it asked for. -/
theorem batchedAllocate_spec (h : a.WellFormed) (shape : TorchSize) (dtype : TorchDtype)
    (hn : 0 < n) (fmt : MemoryFormat) :
    a.batchedAllocate (.list [shape]) (.list [dtype]) n fmt = (.ok none, a) ∨
      ∃ objs : List TensorMemoryObj, objs.length = n ∧ (∀ o ∈ objs, Fresh o) ∧
        (a.batchedAllocate (.list [shape]) (.list [dtype]) n fmt).1 =
          .ok (some (List.range' a.pool.objs.length n)) ∧
        (a.batchedAllocate (.list [shape]) (.list [dtype]) n fmt).2.pool.objs =
          a.pool.objs ++ objs := by
  unfold batchedAllocate ObjectPool.step
  dsimp only
  rcases batchedAllocate_cases h shape dtype hn fmt with heq | ⟨m, k, objs, heq, -, -, hlen, hfresh⟩
  · left
    rw [heq, ObjectPool.objsOf, List.append_nil]
    · rfl
    · intro os hos
      cases hos
  · rw [heq]
    refine .inr ⟨objs, hlen, hfresh, ?_, rfl⟩
    rw [← hlen]
    rfl

/-- The bytes of a batch of one shape, each object aligned. -/
def batchSize (a : LazyMemoryAllocator) (shape : TorchSize) (dtype : TorchDtype) (n : Nat) : Int :=
  a.pool.allocator.addressManager.computeAlignedSize
    (a.pool.allocator.addressManager.computeAlignedSize
      (TorchSize.numel shape * dtype.itemsize : Nat) * n)

/-- There is a free block for the batch. -/
def HasBlock (a : LazyMemoryAllocator) (shape : TorchSize) (dtype : TorchDtype) (n : Nat) : Prop :=
  ∃ b ∈ a.pool.allocator.addressManager.blocks, b.size ≥ a.batchSize shape dtype n

instance (a : LazyMemoryAllocator) (shape : TorchSize) (dtype : TorchDtype) (n : Nat) :
    Decidable (a.HasBlock shape dtype n) := inferInstanceAs (Decidable (∃ b ∈ _, _))

theorem allocate_of_block {m : AddressManager} {size : Int} {b : FreeBlock} (hb : b ∈ m.blocks)
    (hsize : b.size ≥ m.computeAlignedSize size) : ∃ r, m.allocate size = .ok r := by
  unfold AddressManager.allocate
  dsimp only
  match hfind : m.explicitList.toList.find? fun b =>
      decide (b.size ≥ m.computeAlignedSize size) with
  | none => exact absurd hsize (by simpa using List.find?_eq_none.mp hfind b hb)
  | some block =>
    rw [hfind]
    exact ⟨_, rfl⟩

/-- With a free block for it, a batch is handed out. -/
theorem batchedAllocate_of_hasBlock (h : a.HasBlock shape dtype n) (fmt : MemoryFormat) :
    (a.batchedAllocate (.list [shape]) (.list [dtype]) n fmt).1 ≠ .ok none := by
  obtain ⟨b, hb, hsize⟩ := h
  obtain ⟨⟨⟨start, size⟩, m⟩, hok⟩ := allocate_of_block hb hsize
  have hadapt : adaptShapesAndDtypes (.list [shape]) (.list [dtype]) = .ok ([shape], [dtype]) := rfl
  have hbytes : getSizeBytes [shape] [dtype] = .ok (TorchSize.numel shape * dtype.itemsize) := rfl
  unfold batchedAllocate TensorMemoryAllocator.batchedAllocate
  rw [hadapt]
  dsimp only
  rw [hbytes]
  dsimp only
  rw [hok]
  dsimp only
  split
  · intro h
    cases h
  · intro h
    cases h
  · intro h
    cases h

/-! ## Giving back -/

/-- On the way from `s` to `s'` the allocator has kept its shape and every other object is as it
was. -/
structure OnlyAt (i : Nat) (s s' : ObjectPool) : Prop where
  align : s'.allocator.addressManager.align = s.allocator.addressManager.align
  size : s'.allocator.addressManager.size = s.allocator.addressManager.size
  buffer : s'.allocator.buffer = s.allocator.buffer
  other : ∀ j, j ≠ i → s'.objs[j]? = s.objs[j]?

theorem onlyAt_free (s : ObjectPool) (i : Nat) : OnlyAt i s (s.free i) := by
  unfold ObjectPool.free TensorMemoryAllocator.free
  match s.objs[i]? with
  | none => exact ⟨rfl, rfl, rfl, fun _ _ => rfl⟩
  | some o =>
    dsimp only
    by_cases hv : o.valid = true
    · rw [if_pos hv]
      exact ⟨rfl, rfl, rfl, fun j hj => List.getElem?_set_ne hj.symm⟩
    · rw [if_neg hv]
      exact ⟨rfl, rfl, rfl, fun j hj => List.getElem?_set_ne hj.symm⟩

theorem onlyAt_decrement (s : ObjectPool) (i : Nat)
    (f : TensorMemoryObj → TensorMemoryObj × Bool) : OnlyAt i s (s.decrement i f) := by
  unfold ObjectPool.decrement
  split
  · exact ⟨rfl, rfl, rfl, fun _ _ => rfl⟩
  · dsimp only
    split
    · obtain ⟨h1, h2, h3, h4⟩ := onlyAt_free { s with objs := s.objs.set i (f _).1 } i
      exact ⟨h1, h2, h3, fun j hj => (h4 j hj).trans (List.getElem?_set_ne hj.symm)⟩
    · exact ⟨rfl, rfl, rfl, fun j hj => List.getElem?_set_ne hj.symm⟩

theorem getElem?_refCountDown (a : LazyMemoryAllocator) {i j : Nat} (h : j ≠ i) :
    (a.refCountDown i).pool.objs[j]? = a.pool.objs[j]? :=
  (onlyAt_decrement a.pool i TensorMemoryObj.refCountDown).other j h

theorem wellFormed_refCountDown (h : a.WellFormed) (i : Nat) : (a.refCountDown i).WellFormed := by
  have honly := onlyAt_decrement a.pool i TensorMemoryObj.refCountDown
  apply h.of_pool
  · exact ObjectPool.accounted_decrement h.accounted i TensorMemoryObj.sameRange_refCountDown
  · exact honly.align
  · exact honly.size
  · exact honly.buffer
  · intro x
    exact (ObjectPool.covered_decrement h.accounted i TensorMemoryObj.sameRange_refCountDown x).le

end LazyMemoryAllocator

end LMCache.Memory
