/-
# LMCache.Memory.BatchLayout — how a batch lies in memory.

Source: `v1/memory_management.py`, `TensorMemoryAllocator.batched_allocate` and
`TensorMemoryAllocator.free`.

One block is taken for the whole batch and cut into equal units.  An aligned unit times the size of
the batch is aligned already, so that nothing of the block is left over; the pieces of the buffer
are the units, and the address of an object is where its piece starts.  Given back in any order,
the units restore the block: the free list is settled and covers what it covered before.

An alignment that is not a power of two, an address space that is larger than the buffer, and a
request of no bytes earlier in the run each break one part of that.
-/
import LMCache.Memory.BatchedFree
import LMCache.Memory.LazyAllocator

namespace LMCache.Memory

open LMCache.Lib

/-! ## The units of a batch -/

/-- The pieces of the buffer are the ranges of the objects. -/
theorem batchObjs_pieces {shape : TorchSize} {dtype : TorchDtype} {u : Nat} {fmt : MemoryFormat}
    {shapes : List TorchSize} {dtypes : List TorchDtype} (n : Nat) (base : Nat) (start : Int) :
    ∀ o ∈ TensorMemoryAllocator.batchObjs shape dtype u fmt shapes dtypes start
        ((List.range n).map fun i => ⟨base + i * u, u⟩),
      (o.rawData.start : Int) - base = o.metadata.address - start ∧
        (o.rawData.length : Int) = o.metadata.phySize := by
  induction n generalizing base start with
  | zero => simp [TensorMemoryAllocator.batchObjs]
  | succ n ih =>
    have hrest : ((List.range n).map Nat.succ).map (fun i => BufferSlice.mk (base + i * u) u) =
        (List.range n).map fun i => ⟨base + u + i * u, u⟩ := by
      rw [List.map_map]
      refine List.map_congr_left fun i _ => ?_
      simp only [Function.comp_apply, Nat.succ_mul, BufferSlice.mk.injEq, and_true]
      omega
    rw [List.range_succ_eq_map, List.map_cons, hrest, TensorMemoryAllocator.batchObjs]
    intro o ho
    rcases List.mem_cons.mp ho with rfl | ho
    · simp [TensorMemoryObj.init]
    · obtain ⟨hstart, hlength⟩ := ih (base + u) (start + u) o ho
      refine ⟨?_, hlength⟩
      push_cast at hstart
      omega

theorem validRanges_of_valid {os : List TensorMemoryObj} (h : ∀ o ∈ os, o.valid = true) :
    validRanges os = os.map TensorMemoryObj.range := by
  unfold validRanges
  rw [List.filter_eq_self.mpr h]

/-! ## What a run keeps -/

namespace ObjectPool

/-- Everything lies in the buffer, and the alignment is a power of two. -/
structure Placed (numel : Nat) (s : ObjectPool) : Prop where
  merged : s.Merged
  align : ∃ k : Nat, s.allocator.addressManager.align = 2 ^ k
  buffer : s.allocator.buffer = ⟨0, numel⟩
  within : ∀ x, s.covered x ≠ 0 → 0 ≤ x ∧ x < numel

/-- The buffer and the alignment are those of `s`, and no more is covered. -/
structure Shrinks (s s' : ObjectPool) : Prop where
  buffer : s'.allocator.buffer = s.allocator.buffer
  align : s'.allocator.addressManager.align = s.allocator.addressManager.align
  covered : ∀ x, s'.covered x ≤ s.covered x

theorem Shrinks.refl (s : ObjectPool) : Shrinks s s := ⟨rfl, rfl, fun _ => le_refl _⟩

variable {s s' : ObjectPool} {numel : Nat} {m : AddressManager} {ds : List TorchDtype}
  {shape : TorchSize} {ss : List TorchSize} {order : List Nat}

theorem Shrinks.trans {s'' : ObjectPool} (h : Shrinks s s') (h' : Shrinks s' s'') :
    Shrinks s s'' where
  buffer := h'.buffer.trans h.buffer
  align := h'.align.trans h.align
  covered := fun x => (h'.covered x).trans (h.covered x)

theorem SameBooks.shrinks (h : SameBooks s s') : Shrinks s s' :=
  ⟨h.buffer, h.align, fun x => (h.covered x).le⟩

theorem shrinks_handed {a' : TensorMemoryAllocator} {os : List TensorMemoryObj}
    (hand : Handed s.allocator a' os) :
    Shrinks s { s with allocator := a', objs := s.objs ++ os } := by
  have hcovered := covered_handed hand
  cases hand with
  | nothing => exact ⟨rfl, rfl, hcovered⟩
  | block hn hok hos hcov =>
    obtain ⟨-, -, -, -, -, -, -, -, halign, -⟩ := AddressManager.allocate_ok hok
    exact ⟨rfl, halign, hcovered⟩

theorem shrinks_set {i : Nat} {o o' : TensorMemoryObj} (hget : s.objs[i]? = some o)
    (hsame : o.SameRange o') : Shrinks s { s with objs := s.objs.set i o' } :=
  ⟨rfl, rfl, fun x => (covered_set hget hsame x).le⟩

theorem shrinks_updateObj (i : Nat) {f : TensorMemoryObj → TensorMemoryObj}
    (hf : ∀ o : TensorMemoryObj, o.SameRange (f o)) : Shrinks s (s.updateObj i f) := by
  unfold updateObj
  split
  · exact Shrinks.refl s
  · rename_i o hget
    exact shrinks_set hget (hf o)

theorem shrinks_decrement (h : s.Merged) (i : Nat) {f : TensorMemoryObj → TensorMemoryObj × Bool}
    (hf : ∀ o : TensorMemoryObj, o.SameRange (f o).1) : Shrinks s (s.decrement i f) := by
  unfold decrement
  split
  · exact Shrinks.refl s
  · rename_i o hget
    have hset := shrinks_set hget (hf o)
    dsimp only
    split
    · exact hset.trans ((merged_set h hget (hf o)).free i).2.shrinks
    · exact hset

/-- No call covers more than before. -/
theorem shrinks_step (h : s.Merged) (c : PoolCall) : Shrinks s (s.step c) := by
  cases c with
  | allocate shapes dtypes fmt =>
    exact shrinks_handed (handed_allocate h.accounted.align_pos shapes dtypes fmt)
  | batchedAllocate shapes dtypes batchSize fmt =>
    exact shrinks_handed (handed_batchedAllocate h.accounted.align_pos shapes dtypes batchSize fmt)
  | refCountUp i => exact shrinks_updateObj i TensorMemoryObj.sameRange_refCountUp
  | refCountDown i => exact shrinks_decrement h i TensorMemoryObj.sameRange_refCountDown
  | pin i => exact shrinks_updateObj i TensorMemoryObj.sameRange_pin
  | unpin i =>
    exact (shrinks_decrement h i TensorMemoryObj.sameRange_unpinDecrement).trans
      (shrinks_updateObj i TensorMemoryObj.sameRange_unpinClamp)
  | free i => exact (h.free i).2.shrinks
  | batchedFree is => exact (h.batchedFree is).2.1.shrinks

theorem placed_step (s : ObjectPool) (c : PoolCall) (h : s.Placed numel) (hask : s.AsksForBytes c) :
    (s.step c).Placed numel := by
  have hshrinks := shrinks_step h.merged c
  obtain ⟨k, hk⟩ := h.align
  refine ⟨merged_step s c h.merged hask, ⟨k, hshrinks.align.trans hk⟩,
    hshrinks.buffer.trans h.buffer, fun x hx => h.within x ?_⟩
  have := hshrinks.covered x
  omega

theorem placed_init (k : Nat) {initAddressSpace : Option Nat}
    (hinit : initAddressSpace.getD numel ≤ numel) :
    (init (.init numel (2 ^ k) initAddressSpace)).Placed numel where
  merged := merged_init numel (by positivity) initAddressSpace
  align := ⟨k, rfl⟩
  buffer := rfl
  within := by
    intro x hx
    rw [LazyMemoryAllocator.covered_init] at hx
    have hmem := hits_pos.mp (Nat.pos_of_ne_zero hx)
    simp only [points, Set.mem_Ico] at hmem
    omega

/-- A free block lies in the buffer. -/
theorem Placed.block_within (h : s.Placed numel) {b : FreeBlock}
    (hb : b ∈ s.allocator.addressManager.blocks) : 0 ≤ b.start ∧ b.stop ≤ numel := by
  rcases h.merged.settled with hsettled | ⟨-, hnil | hone⟩
  · have hpos := hsettled.positive b hb
    have hin : ∀ x, b.start ≤ x → x < b.stop → 0 ≤ x ∧ x < numel := by
      intro x hx hx'
      apply h.within
      have hhit : hits b.range x = 1 := hits_eq_one.mpr ⟨hx, hx'⟩
      have hle : hits b.range x ≤ cover (blockRanges s.allocator.addressManager.blocks) x :=
        hits_le_cover (List.mem_map_of_mem hb) x
      unfold covered
      omega
    have hfirst := hin b.start (le_refl _) (by unfold FreeBlock.stop; omega)
    have hlast := hin (b.stop - 1) (by unfold FreeBlock.stop; omega) (by omega)
    omega
  · rw [hnil] at hb
    cases hb
  · rw [hone] at hb
    obtain rfl := List.mem_singleton.mp hb
    exact ⟨le_refl _, Int.natCast_nonneg _⟩

/-! ## One batch -/

/-- An aligned unit times the size of a batch is aligned. -/
theorem computeAlignedSize_units {k : Nat} (hk : m.align = 2 ^ k) {raw : Nat} {u : Nat}
    (hu : m.computeAlignedSize raw = u) (n : Nat) :
    m.computeAlignedSize (u * n : Nat) = (u * n : Nat) := by
  have hdvd := AddressManager.computeAlignedSize_dvd hk (Int.natCast_nonneg raw)
  rw [hu, hk] at hdvd
  rw [AddressManager.computeAlignedSize_eq hk (Int.natCast_nonneg _)]
  obtain ⟨q, hq⟩ := hdvd
  have hpos : (0 : Int) < 2 ^ k := by positivity
  have hmul : ((u * n : Nat) : Int) = 2 ^ k * (q * n) := by
    push_cast
    rw [hq]
    ring
  rw [hmul, add_sub_assoc, Int.mul_add_ediv_left _ _ hpos.ne', Int.ediv_eq_zero_of_lt (by omega)
    (by omega)]
  ring

/-- A batch is refused, or it takes one block of its units and nothing more. -/
theorem Placed.batchedAllocate_cases (h : s.Placed numel) {shapes : OneOrList TorchSize}
    {dtypes : OneOrList TorchDtype}
    (hadapt : adaptShapesAndDtypes shapes dtypes = .ok (shape :: ss, ds)) {n : Nat} (hn : 0 < n)
    (fmt : MemoryFormat) :
    s.allocator.batchedAllocate shapes dtypes n fmt = (.ok none, s.allocator) ∨
      ∃ (start : Int) (u : Nat) (m : AddressManager) (dtype : TorchDtype),
        s.allocator.addressManager.allocate (u * n : Nat) = .ok ((start, (u * n : Nat)), m) ∧
        s.allocator.batchedAllocate shapes dtypes n fmt =
          (.ok (some (TensorMemoryAllocator.batchObjs shape dtype u fmt (shape :: ss) ds start
            ((List.range n).map fun i => ⟨start.toNat + i * u, u⟩))),
          { s.allocator with
            addressManager := m
            numActiveAllocations := s.allocator.numActiveAllocations + n }) ∧ 0 ≤ start := by
  obtain ⟨k, hk⟩ := h.align
  unfold TensorMemoryAllocator.batchedAllocate
  rw [hadapt]
  dsimp only
  -- the lengths agree, so that there is a size, and a first dtype
  have hlen : (shape :: ss).length = ds.length := by
    unfold adaptShapesAndDtypes at hadapt
    split at hadapt
    · rename_i heq
      rw [Except.ok.injEq, Prod.mk.injEq] at hadapt
      rw [← hadapt.1, ← hadapt.2]
      exact heq
    · cases hadapt
  obtain ⟨dtype, ds', rfl⟩ : ∃ dtype ds', ds = dtype :: ds' := by
    cases ds with
    | nil => cases hlen
    | cons dtype ds' => exact ⟨dtype, ds', rfl⟩
  obtain ⟨raw, hraw⟩ : ∃ raw, getSizeBytes (shape :: ss) (dtype :: ds') = .ok raw := by
    unfold getSizeBytes
    rw [if_pos hlen]
    exact ⟨_, rfl⟩
  rw [hraw]
  dsimp only
  obtain ⟨u, hu⟩ := Int.eq_ofNat_of_zero_le (AddressManager.computeAlignedSize_nonneg
    h.merged.accounted.align_pos (Int.natCast_nonneg raw))
  have hunits := computeAlignedSize_units hk hu n
  rw [hu, ← Int.natCast_mul]
  match hok : s.allocator.addressManager.allocate (u * n : Nat) with
  | .error e => exact .inl rfl
  | .ok ((start, size), m) =>
    obtain ⟨b, R, hl, rfl, hsize, hfit, -⟩ := AddressManager.allocate_ok hok
    rw [hunits] at hsize
    subst hsize
    obtain ⟨hstart, hstop⟩ := h.block_within (hl.mem_iff.mpr List.mem_cons_self)
    unfold FreeBlock.stop at hstop
    have hslice : s.allocator.getBufferSlice b.start (u * n : Nat) = ⟨b.start.toNat, u * n⟩ := by
      unfold TensorMemoryAllocator.getBufferSlice BufferSlice.slice BufferSlice.clampBound
      rw [h.buffer]
      dsimp only
      rw [if_neg (by omega), if_neg (by omega), BufferSlice.mk.injEq]
      omega
    have hchunk := BufferSlice.chunk_units (t := ⟨b.start.toNat, u * n⟩) hn (Nat.mul_comm u n)
    unfold TensorMemoryAllocator.getBufferSlice at hslice
    refine .inr ⟨b.start, u, m, dtype, hok, ?_, hstart⟩
    unfold TensorMemoryAllocator.getBufferSlice
    dsimp only
    rw [hslice, hchunk]
    obtain ⟨n, rfl⟩ := Nat.exists_eq_succ_of_ne_zero hn.ne'
    rw [List.range_succ_eq_map, List.map_cons]

/-! ## Giving a batch back -/

/-- **How a batch lies in memory**: its objects tile the one block that was taken for it, each has
the bytes at its address, and freeing them one by one, in any order, restores the allocator. -/
structure Layout (s s' : ObjectPool) (os : List TensorMemoryObj) (batchSize : Nat) : Prop where
  length : os.length = batchSize
  objs : s'.objs = s.objs ++ os
  tiles : ∃ raw start n, s.allocator.addressManager.allocate raw =
      .ok ((start, n), s'.allocator.addressManager) ∧
    Tiles (os.map TensorMemoryObj.range) start (start + n)
  disjoint : (os.map TensorMemoryObj.range).Pairwise fun r q => Disjoint (points r) (points q)
  slice : ∀ o ∈ os, (o.rawData.start : Int) = s.allocator.buffer.start + o.metadata.address ∧
    (o.rawData.length : Int) = o.metadata.phySize
  restores : ∀ order : List Nat, order.Perm (List.range' s.objs.length batchSize) →
    (order.foldl free s').allocator = s.allocator

/-- A batch of any shapes is refused, and nothing is changed, or laid out. -/
def LaysOut (s : ObjectPool) : Prop :=
  ∀ shapes dtypes batchSize fmt ss ds, adaptShapesAndDtypes shapes dtypes = .ok (ss, ds) →
    ss ≠ [] → 0 < batchSize →
      s.allocator.batchedAllocate shapes dtypes batchSize fmt = (.ok none, s.allocator) ∨
        ∃ os, (s.allocator.batchedAllocate shapes dtypes batchSize fmt).1 = .ok (some os) ∧
          Layout s (s.step (.batchedAllocate shapes dtypes batchSize fmt)) os batchSize

/-- Objects of one size, handed out and not freed. -/
structure Units (start : Int) (u n : Nat) (os : List TensorMemoryObj) : Prop where
  length : os.length = n
  valid : ∀ o ∈ os, o.valid = true
  size : ∀ o ∈ os, o.metadata.phySize = u
  address : u = 0 → ∀ o ∈ os, o.metadata.address = start
  tiles : Tiles (os.map TensorMemoryObj.range) start (start + (u * n : Nat))

/-- Units of no bytes all start where the block does. -/
theorem batchObjs_address_nothing {dtype : TorchDtype} {fmt : MemoryFormat} {start : Int}
    (pieces : List BufferSlice) :
    ∀ o ∈ TensorMemoryAllocator.batchObjs shape dtype (0 : Nat) fmt ss ds start pieces,
      o.metadata.address = start := by
  intro o ho
  obtain ⟨k, r, -, rfl⟩ := mem_batchObjs pieces start ho
  show start + (0 : Nat) * k = start
  simp

theorem units_batchObjs {dtype : TorchDtype} {u : Nat} {fmt : MemoryFormat} {start : Int}
    {pieces : List BufferSlice} {n : Nat} (hn : pieces.length = n) :
    Units start u n
      (TensorMemoryAllocator.batchObjs shape dtype u fmt ss ds start pieces) where
  length := (LazyMemoryAllocator.length_batchObjs _ _).trans hn
  valid := fun o ho => (LazyMemoryAllocator.fresh_batchObjs _ _ o ho).1
  size := batchObjs_phySize _ _
  address := by
    rintro rfl
    exact batchObjs_address_nothing pieces
  tiles := by
    intro x
    rw [← validRanges_of_valid fun o ho => (LazyMemoryAllocator.fresh_batchObjs _ _ o ho).1,
      cover_batchObjs (Int.natCast_nonneg u), hn]
    push_cast
    rfl

namespace Units

variable {start : Int} {u n : Nat} {os : List TensorMemoryObj}

theorem liveSize_eq (h : Units start u n os) : liveSize os = (u * n : Nat) := by
  have hmap : (os.map fun o => if o.valid then o.metadata.phySize else 0) =
      List.replicate n (u : Int) := by
    rw [← h.length, List.eq_replicate_iff]
    refine ⟨List.length_map _, fun x hx => ?_⟩
    obtain ⟨o, ho, rfl⟩ := List.mem_map.mp hx
    rw [if_pos (h.valid o ho), h.size o ho]
  unfold liveSize
  rw [hmap, List.sum_replicate]
  push_cast
  rw [nsmul_eq_mul]
  ring

theorem liveCount_eq (h : Units start u n os) : liveCount os = n := by
  have hmap : (os.map fun o => if o.valid then (1 : Int) else 0) = List.replicate n 1 := by
    rw [← h.length, List.eq_replicate_iff]
    refine ⟨List.length_map _, fun x hx => ?_⟩
    obtain ⟨o, ho, rfl⟩ := List.mem_map.mp hx
    rw [if_pos (h.valid o ho)]
  unfold liveCount
  rw [hmap, List.sum_replicate]
  simp

end Units

theorem liveSize_append (objs os : List TensorMemoryObj) :
    liveSize (objs ++ os) = liveSize objs + liveSize os := by
  unfold liveSize
  rw [List.map_append, List.sum_append]

theorem liveCount_append (objs os : List TensorMemoryObj) :
    liveCount (objs ++ os) = liveCount objs + liveCount os := by
  unfold liveCount
  rw [List.map_append, List.sum_append]

/-- The objects behind the first ones, freed in any order. -/
theorem objs_foldl_free {objs os : List TensorMemoryObj} (hobjs : s.objs = objs ++ os)
    (horder : order.Perm (List.range' objs.length os.length)) :
    (order.foldl free s).objs = objs ++ os.map TensorMemoryObj.invalidate := by
  apply List.ext_getElem?
  intro j
  rw [getElem?_foldl_free]
  unfold freed
  rw [hobjs]
  have hmem : j ∈ order ↔ objs.length ≤ j ∧ j < objs.length + os.length := by
    rw [horder.mem_iff, List.mem_range'_1]
  by_cases hj : j < objs.length
  · rw [List.getElem?_append_left hj, List.getElem?_append_left hj]
    have hnot : j ∉ order := by
      rw [hmem]
      omega
    simp [hnot]
  · rw [List.getElem?_append_right (by omega), List.getElem?_append_right (by omega),
      List.getElem?_map]
    cases hget : os[j - objs.length]? with
    | none => rfl
    | some o =>
      have hlt := (List.getElem?_eq_some_iff.mp hget).1
      have hin : j ∈ order := by
        rw [hmem]
        omega
      simp [hin]

/-- What is freed owns nothing. -/
theorem live_invalidated (objs os : List TensorMemoryObj) :
    liveSize (objs ++ os.map TensorMemoryObj.invalidate) = liveSize objs ∧
      liveCount (objs ++ os.map TensorMemoryObj.invalidate) = liveCount objs ∧
      validRanges (objs ++ os.map TensorMemoryObj.invalidate) = validRanges objs := by
  have hnone : ∀ f : TensorMemoryObj → Int,
      ((os.map TensorMemoryObj.invalidate).map fun o => if o.valid then f o else 0).sum = 0 := by
    intro f
    rw [List.map_map]
    apply List.sum_eq_zero
    intro x hx
    obtain ⟨o, -, rfl⟩ := List.mem_map.mp hx
    simp [TensorMemoryObj.invalidate]
  have hfilter : (os.map TensorMemoryObj.invalidate).filter (fun o => o.valid) = [] := by
    rw [List.filter_eq_nil_iff]
    intro o ho
    obtain ⟨o, -, rfl⟩ := List.mem_map.mp ho
    simp [TensorMemoryObj.invalidate]
  refine ⟨?_, ?_, ?_⟩
  · rw [liveSize_append]
    unfold liveSize
    rw [hnone, add_zero]
  · rw [liveCount_append]
    unfold liveCount
    rw [hnone, add_zero]
  · unfold validRanges
    rw [List.filter_append, hfilter, List.append_nil]

/-- A batch that holds something is given back. -/
theorem restores_of_books {os : List TensorMemoryObj}
    (hsettled : s.allocator.addressManager.Settled) (h' : s'.Merged) (hbooks : SameBooks s s')
    (hobjs : s'.objs = s.objs ++ os) (hne : os ≠ [])
    (horder : order.Perm (List.range' s.objs.length os.length)) :
    (order.foldl free s').allocator = s.allocator := by
  obtain ⟨hmerged, hbooks'⟩ := h'.freeAll order
  have hfreed := objs_foldl_free hobjs horder
  obtain ⟨hsize, hcount, hranges⟩ := live_invalidated s.objs os
  have hsettled' : (order.foldl free s').allocator.addressManager.Settled := by
    refine hmerged.settled.resolve_right fun hempty => hne ?_
    rw [hfreed] at hempty
    exact List.map_eq_nil_iff.mp (List.append_eq_nil_iff.mp hempty.1).2
  apply allocator_eq (hbooks.trans hbooks') hsettled hsettled'
  · rw [hfreed, hsize]
  · rw [hfreed, hcount]
  · intro x
    rw [hfreed, hranges]

/-! ### A batch of no bytes -/

/-- Nothing is returned where a free block starts. -/
theorem free_nothing (h : m.Settled) {b : FreeBlock} (hb : b ∈ m.blocks) :
    m.free b.start 0 = m := by
  have hco := m.free_coalesced b.start 0
  have hsize : ∀ d ∈ m.blocks, 0 ≤ d.size := fun d hd => (h.positive d hd).le
  -- the entry at the slot is `b`, and joined with nothing
  obtain ⟨t, hget, hat, htb⟩ :=
    SortedKeyList.exists_at_slot (L := m.explicitList) (x := ⟨b.start, 0⟩) hb (le_refl _)
  have ht : t ∈ m.blocks := List.mem_of_getElem? hget
  have hat : b.start ≤ t.start := hat
  have hapart : ∀ p ∈ m.blocks, p.stop ≠ b.start := by
    intro p hp hstop
    have hpos := h.positive p hp
    by_cases hpb : p = b
    · subst hpb
      simp only [FreeBlock.stop] at hstop
      omega
    · have hbpos := h.positive b hb
      rcases h.apart.forall hp hb hpb with hlt | hlt
      · omega
      · simp only [FreeBlock.stop] at hlt hstop
        omega
  have hstart : t.start = b.start := le_antisymm htb hat
  have hperm : (m.free b.start 0).blocks.Perm m.blocks := by
    cases hco with
    | @both p s R hp hs hpc hcs hl hl' =>
      have hp : p ∈ m.blocks := hl.mem_iff.mpr List.mem_cons_self
      exact absurd hpc (hapart p hp)
    | @prevOnly p R hp hs hpc hl hl' =>
      have hp : p ∈ m.blocks := hl.mem_iff.mpr List.mem_cons_self
      exact absurd hpc (hapart p hp)
    | @succOnly s R hp hs hcs hl hl' =>
      have heq : (⟨b.start, 0 + s.size⟩ : FreeBlock) = s := by
        obtain ⟨start, size⟩ := s
        simp only [FreeBlock.stop, Int.add_zero] at hcs
        rw [hcs, Int.zero_add]
      exact (heq ▸ hl').trans hl.symm
    | alone hp hs hl' =>
      refine absurd ?_ (hs t hget)
      simp only [FreeBlock.stop]
      omega
  have hsettled : (m.free b.start 0).Settled :=
    ⟨(AddressSpace.apart_perm hperm).mpr h.apart, fun d hd => h.positive d (hperm.mem_iff.mp hd)⟩
  apply hsettled.eq_of_cover h
  · intro x
    exact cover_perm (blockRanges_perm hperm) x
  · rfl
  · rfl
  · rw [AddressManager.free_total]
    omega

/-- Nothing is taken from a block that holds something. -/
theorem allocate_nothing {m' : AddressManager} (h : m.Settled) {raw start : Int}
    (hok : m.allocate raw = .ok ((start, 0), m')) : m' = m := by
  obtain ⟨-, -, -, -, -, -, -, hsize, halign, htotal⟩ := AddressManager.allocate_ok hok
  apply (h.allocate (le_refl 0) hok).eq_of_cover h
  · intro x
    have := AddressManager.allocate_cover (le_refl 0) hok x
    rw [Int.add_zero, hits_self] at this
    omega
  · exact hsize
  · exact halign
  · omega

/-- Objects of no bytes at the start of a free block are given back. -/
theorem manager_foldl_free_nothing {start : Int} (hm : m.free start 0 = m) (order : List Nat)
    (hs : s.allocator.addressManager = m) (hempty : ∀ i ∈ order, ∀ o, s.objs[i]? = some o →
      o.metadata.address = start ∧ o.metadata.phySize = 0) :
    (order.foldl free s).allocator.addressManager = m := by
  induction order generalizing s with
  | nil => exact hs
  | cons i order ih =>
    rw [List.foldl_cons]
    apply ih
    · cases hget : s.objs[i]? with
      | none => rw [free_of_none hget, hs]
      | some o =>
        by_cases hv : o.valid = true
        · obtain ⟨haddress, hsize⟩ := hempty i List.mem_cons_self o hget
          rw [free_of_valid hget hv]
          dsimp only
          rw [hs, haddress, hsize, hm]
        · rw [free_of_invalid hget (by simpa using hv), hs]
    · intro j hj o ho
      rw [getElem?_free] at ho
      obtain ⟨o', ho', rfl⟩ := Option.map_eq_some_iff.mp ho
      have hsame := hempty j (List.mem_cons_of_mem _ hj) o' ho'
      split
      · exact hsame
      · exact hsame

theorem foldl_free_rest (order : List Nat) (s : ObjectPool) :
    (order.foldl free s).allocator.buffer = s.allocator.buffer ∧
      (order.foldl free s).allocator.numActiveAllocations - liveCount (order.foldl free s).objs =
        s.allocator.numActiveAllocations - liveCount s.objs := by
  induction order generalizing s with
  | nil => exact ⟨rfl, rfl⟩
  | cons i order ih =>
    obtain ⟨hbuffer, hcount⟩ := ih (s.free i)
    refine ⟨hbuffer.trans ?_, hcount.trans (free_books s i).2⟩
    exact (LazyMemoryAllocator.onlyAt_free s i).buffer

/-- The heap of no bytes gets its block back. -/
theorem free_void {m' : AddressManager} (hm : m.blocks = [⟨0, 0⟩]) (hm' : m'.Void)
    (hsize : m'.size = m.size) (halign : m'.align = m.align)
    (htotal : m'.totalAllocatedSize = m.totalAllocatedSize) : m'.free 0 0 = m := by
  obtain ⟨size, align, ⟨l, hl⟩, total⟩ := m
  obtain ⟨size', align', ⟨l', hl'⟩, total'⟩ := m'
  unfold AddressManager.Void AddressManager.blocks at hm'
  unfold AddressManager.blocks at hm
  dsimp only at hm hm' hsize halign htotal
  subst hm hsize halign htotal
  rcases hm' with rfl | rfl
  · unfold AddressManager.free
    dsimp only
    rw [Int.sub_zero]
    rfl
  · unfold AddressManager.free
    dsimp only
    rw [Int.sub_zero]
    rfl

/-- A batch of no bytes is given back. -/
theorem restores_nothing {os : List TensorMemoryObj} (h : s.Merged) {start : Int} {n : Nat}
    {raw : Int} (hn : 0 < n) (hunits : Units start 0 n os)
    (hok : s.allocator.addressManager.allocate raw =
      .ok ((start, 0), s'.allocator.addressManager))
    (hbuffer : s'.allocator.buffer = s.allocator.buffer)
    (hnum : s'.allocator.numActiveAllocations = s.allocator.numActiveAllocations + n)
    (hobjs : s'.objs = s.objs ++ os) (horder : order.Perm (List.range' s.objs.length os.length)) :
    (order.foldl free s').allocator = s.allocator := by
  obtain ⟨b, R, hl, hb, -, hfit, hl', hsize, halign, htotal⟩ := AddressManager.allocate_ok hok
  have haddress := hunits.address rfl
  -- what returning nothing there makes of the manager, before the batch and after it
  have hreturn : s.allocator.addressManager.free start 0 = s.allocator.addressManager ∧
      s'.allocator.addressManager.free start 0 = s.allocator.addressManager := by
    rcases h.settled with hsettled | ⟨-, hvoid⟩
    · have hfree := free_nothing hsettled (hl.mem_iff.mpr List.mem_cons_self)
      rw [allocate_nothing hsettled hok, hb]
      exact ⟨hfree, hfree⟩
    · obtain ⟨rfl, rfl⟩ := hvoid.cons hl
      have hone := List.perm_singleton.mp hl
      rw [if_neg (lt_irrefl _)] at hl'
      rw [hb]
      exact ⟨free_void hone (.inr hone) rfl rfl rfl,
        free_void hone (.inl hl'.eq_nil) hsize halign (by omega)⟩
  have hmanager : (order.foldl free s').allocator.addressManager = s.allocator.addressManager := by
    have hall : ∀ i ∈ order, ∃ o, s'.objs[i]? = some o ∧ o ∈ os := by
      intro i hi
      rw [horder.mem_iff, List.mem_range'_1] at hi
      have hlt : i - s.objs.length < os.length := by omega
      refine ⟨os[i - s.objs.length], ?_, List.getElem_mem hlt⟩
      rw [hobjs, List.getElem?_append_right (by omega), List.getElem?_eq_getElem hlt]
    cases order with
    | nil =>
      have := horder.length_eq
      rw [List.length_range', hunits.length] at this
      exact absurd this hn.ne
    | cons i order =>
      obtain ⟨o, hget, ho⟩ := hall i List.mem_cons_self
      have hfree := free_of_valid hget (hunits.valid o ho)
      rw [List.foldl_cons]
      apply manager_foldl_free_nothing hreturn.1
      · rw [hfree]
        dsimp only
        rw [haddress o ho, hunits.size o ho]
        exact hreturn.2
      · intro j hj d hd
        rw [getElem?_free] at hd
        obtain ⟨d', hd', rfl⟩ := Option.map_eq_some_iff.mp hd
        obtain ⟨o', hget', ho'⟩ := hall j (List.mem_cons_of_mem _ hj)
        obtain rfl : o' = d' := by
          rw [hget'] at hd'
          exact Option.some.inj hd'
        have hsame : o'.metadata.address = start ∧ o'.metadata.phySize = 0 :=
          ⟨haddress o' ho', hunits.size o' ho'⟩
        split
        · exact hsame
        · exact hsame
  obtain ⟨hbuffer', hcount⟩ := foldl_free_rest order s'
  rw [objs_foldl_free hobjs horder, (live_invalidated s.objs os).2.1, hobjs, liveCount_append,
    hunits.liveCount_eq] at hcount
  have hnum' : (order.foldl free s').allocator.numActiveAllocations =
      s.allocator.numActiveAllocations := by omega
  generalize (order.foldl free s').allocator = a at *
  obtain ⟨buffer, manager, num⟩ := a
  dsimp only at hmanager hbuffer' hnum'
  rw [hmanager, hbuffer', hnum', hbuffer]

/-! ### Every batch -/

/-- The objects of a batch, freed in any order, leave the allocator as it was before the batch. -/
theorem Placed.restores (h : s.Placed numel) (h' : s'.Accounted) {start : Int} {u n : Nat}
    {os : List TensorMemoryObj} (hn : 0 < n) (hunits : Units start u n os)
    (hok : s.allocator.addressManager.allocate (u * n : Nat) =
      .ok ((start, (u * n : Nat)), s'.allocator.addressManager))
    (hbuffer : s'.allocator.buffer = s.allocator.buffer)
    (hnum : s'.allocator.numActiveAllocations = s.allocator.numActiveAllocations + n)
    (hobjs : s'.objs = s.objs ++ os) (horder : order.Perm (List.range' s.objs.length os.length)) :
    (order.foldl free s').allocator = s.allocator := by
  rcases Nat.eq_zero_or_pos u with rfl | hu
  · rw [Nat.zero_mul] at hok
    exact restores_nothing h.merged hn hunits hok hbuffer hnum hobjs horder
  have hblock : (0 : Int) < (u * n : Nat) := by
    exact_mod_cast Nat.mul_pos hu hn
  obtain ⟨b, R, hl, -, -, hfit, -, hsize, halign, htotal⟩ := AddressManager.allocate_ok hok
  -- a block of some bytes was free, so that the manager is not the one of an empty heap
  have hsettled : s.allocator.addressManager.Settled := by
    refine h.merged.settled.resolve_right fun hempty => ?_
    obtain ⟨rfl, -⟩ := hempty.2.cons hl
    simp only at hfit
    omega
  have hmerged' : s'.Merged := by
    refine ⟨h', fun o ho => ?_, .inl (hsettled.allocate hblock.le hok)⟩
    rw [hobjs] at ho
    rcases List.mem_append.mp ho with ho | ho
    · exact h.merged.objs_pos o ho
    · rw [hunits.size o ho]
      exact_mod_cast hu
  have hbooks : SameBooks s s' := by
    refine ⟨hbuffer, hsize, halign, ?_, ?_, fun x => ?_⟩
    · rw [hobjs, liveSize_append, hunits.liveSize_eq]
      unfold TensorMemoryAllocator.totalAllocatedSize
      omega
    · rw [hobjs, liveCount_append, hunits.liveCount_eq, hnum]
      omega
    · have hcut := AddressManager.allocate_cover hblock.le hok x
      have htiles := hunits.tiles x
      rw [← validRanges_of_valid hunits.valid] at htiles
      have hranges : validRanges (s.objs ++ os) = validRanges s.objs ++ validRanges os := by
        unfold validRanges
        rw [List.filter_append, List.map_append]
      unfold covered
      rw [hobjs, hranges, cover_append, htiles]
      omega
  refine restores_of_books hsettled hmerged' hbooks hobjs ?_ horder
  intro hnil
  have := hunits.length
  rw [hnil, List.length_nil] at this
  exact hn.ne this

theorem Placed.laysOut (h : s.Placed numel) : s.LaysOut := by
  intro shapes dtypes n fmt ss ds hadapt hne hn
  obtain ⟨shape, ss, rfl⟩ := List.exists_cons_of_ne_nil hne
  rcases h.batchedAllocate_cases hadapt hn fmt with heq | ⟨start, u, m, dtype, hok, heq, hstart⟩
  · exact .inl heq
  right
  have haccounted := accounted_handed h.merged.accounted
    (handed_batchedAllocate h.merged.accounted.align_pos shapes dtypes n fmt)
  obtain ⟨os, hos⟩ : ∃ os, TensorMemoryAllocator.batchObjs shape dtype u fmt (shape :: ss) ds start
      ((List.range n).map fun i => ⟨start.toNat + i * u, u⟩) = os := ⟨_, rfl⟩
  have hpieces : ∀ o ∈ os, (o.rawData.start : Int) - start.toNat = o.metadata.address - start ∧
      (o.rawData.length : Int) = o.metadata.phySize := by
    rw [← hos]
    exact batchObjs_pieces n start.toNat start
  have hunits : Units start u n os := by
    rw [← hos]
    apply units_batchObjs
    rw [List.length_map, List.length_range]
  rw [hos] at heq
  unfold step
  dsimp only
  rw [heq] at haccounted ⊢
  refine ⟨os, rfl, hunits.length, rfl, ⟨_, start, _, hok, hunits.tiles⟩,
    hunits.tiles.pairwise_disjoint, fun o ho => ?_, fun order horder => ?_⟩
  · obtain ⟨hslice, hlength⟩ := hpieces o ho
    rw [h.buffer]
    refine ⟨?_, hlength⟩
    simp only
    omega
  · rw [← hunits.length] at horder
    exact h.restores haccounted hn hunits hok rfl rfl rfl horder

/-- **Every batch is laid out over its block**, in every state that requests for at least one byte
lead to, where the alignment is a power of two and the address space lies in the buffer. -/
theorem always_laysOut (numel k : Nat) {initAddressSpace : Option Nat}
    (hinit : initAddressSpace.getD numel ≤ numel) {calls : List PoolCall}
    (hcalls : Guarded step AsksForBytes (init (.init numel (2 ^ k) initAddressSpace)) calls) :
    Always step LaysOut (init (.init numel (2 ^ k) initAddressSpace)) calls :=
  (always_of_guarded placed_step (placed_init k hinit) hcalls).mono fun _ h => h.laysOut

/-- Two batches, with a hole between what is left of them. -/
theorem always_laysOut_withHole :
    Always step LaysOut (init (.init 65536 4096 none))
      [.batchedAllocate (.one [5000]) (.one .uint8) 3 .KV_2LTD, .allocate (.one [7]) (.one .int64)
        .KV_2LTD, .free 1, .batchedAllocate (.one [2, 3]) (.one .int64) 2 .KV_2LTD] :=
  always_laysOut 65536 12 (le_refl _) (by decide +kernel)

/-- What `LaysOut` says of a batch that is not refused. -/
theorem LaysOut.batch (h : s.LaysOut) (shape : TorchSize) (dtype : TorchDtype) {n : Nat}
    (hn : 0 < n) (fmt : MemoryFormat)
    (hsome : objsOf (s.allocator.batchedAllocate (.one shape) (.one dtype) n fmt).1 ≠ []) :
    Layout s (s.step (.batchedAllocate (.one shape) (.one dtype) n fmt))
      (objsOf (s.allocator.batchedAllocate (.one shape) (.one dtype) n fmt).1) n := by
  rcases h (.one shape) (.one dtype) n fmt [shape] [dtype] rfl (by simp) hn with
    hnone | ⟨os, hos, hlayout⟩
  · rw [hnone] at hsome
    exact absurd rfl hsome
  · rw [hos]
    exact hlayout

/-- It can fail: where an object of no bytes was freed before its neighbour, an empty block keeps
two free blocks apart, and the batch, taken from the second one, is joined with the first when it is
freed; with an alignment of three, the block is larger than its units, and what is left over is not
given back; and with an address space beyond the buffer, an object has fewer bytes than its size.
Shapes and dtypes that differ in number raise. -/
theorem not_laysOut_otherwise :
    ¬(run step (init (.init 16384 4096 none))
        [.allocate (.one [0]) (.one .uint8) .KV_2LTD,
          .allocate (.one [4096]) (.one .uint8) .KV_2LTD, .free 0, .free 1]).LaysOut ∧
      ¬(init (.init 64 3 none)).LaysOut ∧ ¬(init (.init 4096 4096 (some 16384))).LaysOut ∧
      ((TensorMemoryAllocator.init 16384 4096 none).batchedAllocate (.list [[1], [1]]) (.one .uint8)
        2 .KV_2LTD).1.toOption = none := by
  refine ⟨fun h => ?_, fun h => ?_, fun h => ?_, by decide +kernel⟩
  · have hlayout := h.batch [4096] .uint8 (n := 2) (by decide) .KV_2LTD (by decide +kernel)
    have hblocks := congrArg (fun a => a.addressManager.blocks)
      (hlayout.restores [2, 3] (by decide +kernel))
    revert hblocks
    decide +kernel
  · have hlayout := h.batch [1] .uint8 (n := 2) (by decide) .KV_2LTD (by decide +kernel)
    have hblocks := congrArg (fun a => a.addressManager.blocks)
      (hlayout.restores [0, 1] (by decide +kernel))
    revert hblocks
    decide +kernel
  · have hlayout := h.batch [4096] .uint8 (n := 2) (by decide) .KV_2LTD (by decide +kernel)
    have hlength : ∃ o ∈ objsOf ((init (.init 4096 4096 (some 16384))).allocator.batchedAllocate
        (.one [4096]) (.one .uint8) 2 .KV_2LTD).1,
        (o.rawData.length : Int) ≠ o.metadata.phySize := by
      decide +kernel
    obtain ⟨o, ho, hne⟩ := hlength
    exact hne (hlayout.slice o ho).2

end ObjectPool

end LMCache.Memory
