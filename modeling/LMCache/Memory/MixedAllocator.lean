/-
# LMCache.Memory.MixedAllocator — the allocator of the CPU backend.

Source: `v1/memory_management.py`, `MixedMemoryAllocator` and `BufferAllocator`.

The format of an object decides where it lives: KV data in the pinned buffer behind a
`TensorMemoryAllocator`, serialized data in a byte array of its own, which is no memory of the pool.
A batch is freed on the word of its first object: the formats of the others are not looked at, and
neither are the counters of any of them.

What a call gives back to the pinned buffer is read off the entries it adds to `returned`.
-/
import LMCache.Memory.TensorAllocator

namespace LMCache.Memory

open LMCache.Lib

/-- How Python prints a format. -/
def MemoryFormat.str : MemoryFormat → String
  | .UNDEFINED => "MemoryFormat.UNDEFINED"
  | .KV_2LTD => "MemoryFormat.KV_2LTD"
  | .KV_T2D => "MemoryFormat.KV_T2D"
  | .KV_2TD => "MemoryFormat.KV_2TD"
  | .BINARY => "MemoryFormat.BINARY"
  | .BINARY_BUFFER => "MemoryFormat.BINARY_BUFFER"
  | .KV_MLA_FMT => "MemoryFormat.KV_MLA_FMT"

namespace MixedMemoryAllocator

/-- The formats that live in the pinned buffer. -/
def pinFormats : List MemoryFormat := [.KV_2LTD, .KV_2TD, .KV_T2D, .KV_MLA_FMT]

def unsupportedFormat (fmt : MemoryFormat) : PyError :=
  .valueError s!"Unsupported memory format: {fmt.str}"

/-- `shapes[0][0]` or `shapes[0]`: the length of the byte array of `BufferAllocator`. -/
def bufferLength : OneOrList TorchSize → Except PyError Nat
  | .list [] => .error (.indexError indexMessage)
  | .list ((n :: _) :: _) | .one (n :: _) => .ok n
  | .list ([] :: _) | .one [] => .error (.indexError "tuple index out of range")

/-- `allocate`: the number of objects handed out, or `None`. -/
def allocate (s : ObjectPool) (shapes : OneOrList TorchSize) (dtypes : OneOrList TorchDtype)
    (fmt : MemoryFormat) : Except PyError (Option Nat) × ObjectPool :=
  if fmt = .BINARY_BUFFER then ((bufferLength shapes).map fun _ => some 1, s)
  else if fmt ∈ pinFormats then
    ((s.allocator.allocate shapes dtypes fmt).1.map fun r => r.map fun _ => 1,
      s.step (.allocate shapes dtypes fmt))
  else (.error (unsupportedFormat fmt), s)

/-- `batched_allocate`: the number of objects handed out, or `None`. -/
def batchedAllocate (s : ObjectPool) (shapes : OneOrList TorchSize)
    (dtypes : OneOrList TorchDtype) (batchSize : Nat) (fmt : MemoryFormat) :
    Except PyError (Option Nat) × ObjectPool :=
  if fmt = .BINARY_BUFFER then ((bufferLength shapes).map fun _ => some batchSize, s)
  else if fmt ∈ pinFormats then
    ((s.allocator.batchedAllocate shapes dtypes batchSize fmt).1.map fun r => r.map List.length,
      s.step (.batchedAllocate shapes dtypes batchSize fmt))
  else (.error (unsupportedFormat fmt), s)

/-- `memory_obj.meta.fmt`, of an object of the pool. -/
def formatOf (s : ObjectPool) (i : Nat) : MemoryFormat :=
  (s.objs[i]?.map fun o => o.metadata.fmt).getD .UNDEFINED

/-- `batched_free`: the first object decides for all. -/
def batchedFree (s : ObjectPool) : List Nat → Except PyError ObjectPool
  | [] => .error (.indexError indexMessage)
  | i :: is =>
    if formatOf s i = .BINARY_BUFFER then .ok s
    else if formatOf s i ∈ pinFormats then .ok (s.batchedFree (i :: is))
    else .error (unsupportedFormat (formatOf s i))

end MixedMemoryAllocator

namespace ObjectPool

/-! ## What a call gives back -/

/-- The objects whose memory went back to the buffer on the way from `s` to `s'`. -/
def released (s s' : ObjectPool) : List Nat :=
  (s'.returned.drop s.returned.length).flatMap Returned.ids

theorem released_of_append {s s' : ObjectPool} {rs : List Returned}
    (h : s'.returned = s.returned ++ rs) : released s s' = rs.flatMap Returned.ids := by
  unfold released
  rw [h, List.drop_left]

theorem released_of_eq {s s' : ObjectPool} (h : s'.returned = s.returned) : released s s' = [] :=
  @released_of_append s s' [] (by rw [h, List.append_nil])

/-- The object at this position is one whose memory has not been given back. -/
def IsValid (objs : List TensorMemoryObj) (i : Nat) : Prop := ∃ o ∈ objs[i]?, o.valid = true

variable {o : TensorMemoryObj} {objs : List TensorMemoryObj} {dtypes : OneOrList TorchDtype}
  {shapes : OneOrList TorchSize}

theorem isValid_set_invalidate {i : Nat} (hget : objs[i]? = some o) (j : Nat) :
    IsValid (objs.set i o.invalidate) j ↔ j ≠ i ∧ IsValid objs j := by
  have hlt : i < objs.length := (List.getElem?_eq_some_iff.mp hget).1
  unfold IsValid
  by_cases hij : j = i
  · subst hij
    simp [hlt, TensorMemoryObj.invalidate]
  · rw [List.getElem?_set_ne (Ne.symm hij)]
    simp [hij]

/-- One iteration of the coalescing loop retires the object if it is valid, and no other. -/
theorem CoalesceLoop.mem_step (l : CoalesceLoop) (i j : Nat) :
    (j ∈ (l.step i).blocks.flatMap Returned.ids ↔
        j ∈ l.blocks.flatMap Returned.ids ∨ j = i ∧ IsValid l.objs j) ∧
      (IsValid (l.step i).objs j ↔ j ≠ i ∧ IsValid l.objs j) := by
  have hskip (h : ¬ IsValid l.objs i) :
      (j ∈ l.blocks.flatMap Returned.ids ↔
        j ∈ l.blocks.flatMap Returned.ids ∨ j = i ∧ IsValid l.objs j) ∧
      (IsValid l.objs j ↔ j ≠ i ∧ IsValid l.objs j) := by
    refine ⟨⟨.inl, ?_⟩, ⟨fun hj => ⟨?_, hj⟩, And.right⟩⟩
    · rintro (hj | ⟨rfl, hj⟩)
      · exact hj
      · exact absurd hj h
    · rintro rfl
      exact h hj
  unfold step
  cases hget : l.objs[i]? with
  | none =>
    refine hskip fun ⟨o, ho, _⟩ => ?_
    rw [hget] at ho
    cases ho
  | some o =>
    cases hv : o.valid with
    | false =>
      simp only [hv, Bool.not_false, if_true]
      refine hskip fun ⟨o', ho, hv'⟩ => ?_
      rw [hget] at ho
      cases ho
      rw [hv] at hv'
      cases hv'
    | true =>
      -- the object joins the run being built, or starts one of its own
      have hi : IsValid l.objs i := ⟨o, hget, hv⟩
      have hmem : j = i ∧ IsValid l.objs j ↔ j = i := ⟨And.left, fun h => ⟨h, h ▸ hi⟩⟩
      have hobjs := isValid_set_invalidate hget j
      rw [hmem]
      simp only [hv, Bool.not_true, Bool.false_eq_true, if_false]
      cases hcurr : l.curr with
      | none => exact ⟨by simp [blocks, hcurr, Returned.ids], hobjs⟩
      | some r =>
        dsimp only
        split
        · exact ⟨by simp [blocks, hcurr, Returned.ids, or_assoc], hobjs⟩
        · exact ⟨by simp [blocks, hcurr, Returned.ids, or_assoc], hobjs⟩

/-- The coalescing loop retires the valid objects among those it runs over. -/
theorem CoalesceLoop.mem_foldl (is : List Nat) (l : CoalesceLoop) (j : Nat) :
    j ∈ (is.foldl CoalesceLoop.step l).blocks.flatMap Returned.ids ↔
      j ∈ l.blocks.flatMap Returned.ids ∨ j ∈ is ∧ IsValid l.objs j := by
  induction is generalizing l with
  | nil => simp
  | cons i is ih =>
    obtain ⟨hblocks, hobjs⟩ := l.mem_step i j
    rw [List.foldl_cons, ih, hblocks, hobjs, List.mem_cons]
    by_cases hji : j = i <;> simp [hji]

variable (s : ObjectPool)

/-- **What `batched_free` gives back**: the objects of the batch that are still valid, whatever their
counters say. -/
theorem mem_released_batchedFree (is : List Nat) (j : Nat) :
    j ∈ released s (s.batchedFree is) ↔ j ∈ is ∧ IsValid s.objs j := by
  have hperm : j ∈ sortByAddress s.objs is ↔ j ∈ is :=
    (List.perm_insertionSort _ is).mem_iff
  rw [released_of_append rfl, CoalesceLoop.mem_foldl, hperm]
  simp [CoalesceLoop.blocks]

/-- What `ref_count_down` gives back: its object, if it is valid, unpinned, and loses its last
reference. -/
theorem mem_released_refCountDown (i j : Nat) :
    j ∈ released s (s.refCountDown i) ↔ j = i ∧ ∃ o ∈ s.objs[i]?, o.valid = true ∧
      o.refCountDown.2 = true := by
  unfold refCountDown decrement
  cases hget : s.objs[i]? with
  | none => simp [released_of_eq]
  | some o =>
    have hlt : i < s.objs.length := (List.getElem?_eq_some_iff.mp hget).1
    have hset : (s.objs.set i o.refCountDown.1)[i]? = some o.refCountDown.1 := by simp [hlt]
    dsimp only
    cases hdown : o.refCountDown.2 with
    | false => simp [released_of_eq, hdown]
    | true =>
      have hvalid : o.refCountDown.1.valid = o.valid := rfl
      simp only [if_true, free, hset, hvalid]
      cases hv : o.valid with
      | false => simp [released_of_eq, hv]
      | true =>
        rw [if_pos rfl, released_of_append rfl]
        simp [Returned.ids, hv, hdown]

/-! ## The formats stay -/

/-- The formats of all objects, in the order they were handed out. -/
def formats (s : ObjectPool) : List MemoryFormat := s.objs.map fun o => o.metadata.fmt

theorem length_formats : s.formats.length = s.objs.length := List.length_map _

theorem formats_set {i : Nat} {o' : TensorMemoryObj} (hget : objs[i]? = some o)
    (hfmt : o'.metadata.fmt = o.metadata.fmt) :
    (objs.set i o').map (fun o => o.metadata.fmt) = objs.map fun o => o.metadata.fmt := by
  obtain ⟨hlt, rfl⟩ := List.getElem?_eq_some_iff.mp hget
  have hself : (objs.map fun o => o.metadata.fmt).set i objs[i].metadata.fmt =
      objs.map fun o => o.metadata.fmt := by
    have hself := @List.set_getElem_self _ (objs.map fun o => o.metadata.fmt) i (by simpa)
    rwa [List.getElem_map] at hself
  rw [List.map_set, hfmt, hself]

theorem formats_updateObj (i : Nat) {f : TensorMemoryObj → TensorMemoryObj}
    (hf : ∀ o : TensorMemoryObj, (f o).metadata.fmt = o.metadata.fmt) :
    (s.updateObj i f).formats = s.formats := by
  unfold updateObj
  cases hget : s.objs[i]? with
  | none => rfl
  | some o => exact formats_set hget (hf o)

theorem formats_free (i : Nat) : (s.free i).formats = s.formats := by
  unfold free
  cases hget : s.objs[i]? with
  | none => rfl
  | some o =>
    refine formats_set hget ?_
    unfold TensorMemoryAllocator.free
    split <;> rfl

theorem formats_decrement (i : Nat) {f : TensorMemoryObj → TensorMemoryObj × Bool}
    (hf : ∀ o : TensorMemoryObj, (f o).1.metadata.fmt = o.metadata.fmt) :
    (s.decrement i f).formats = s.formats := by
  unfold decrement
  cases hget : s.objs[i]? with
  | none => rfl
  | some o =>
    have hset := formats_set hget (hf o)
    dsimp only
    split
    · rw [formats_free]
      exact hset
    · exact hset

theorem formats_refCountDown (i : Nat) :
    (s.refCountDown i).formats = s.formats := formats_decrement s i fun _ => rfl

theorem formats_unpin (i : Nat) : (s.unpin i).formats = s.formats := by
  unfold unpin
  rw [formats_updateObj, formats_decrement s i fun _ => rfl]
  intro o
  unfold TensorMemoryObj.unpinClamp
  split <;> rfl

theorem CoalesceLoop.formats_step (l : CoalesceLoop) (i : Nat) :
    (l.step i).objs.map (fun o => o.metadata.fmt) = l.objs.map fun o => o.metadata.fmt := by
  unfold step
  split
  · rfl
  · rename_i o hget
    have hset : (l.objs.set i o.invalidate).map (fun o => o.metadata.fmt) = _ := formats_set hget rfl
    split
    · rfl
    · dsimp only
      split
      · exact hset
      · split <;> exact hset

theorem formats_batchedFree (is : List Nat) : (s.batchedFree is).formats = s.formats := by
  show ((sortByAddress s.objs is).foldl CoalesceLoop.step ⟨s.objs, none, []⟩).objs.map _ = _
  generalize sortByAddress s.objs is = js
  have hfold (l : CoalesceLoop) : (js.foldl CoalesceLoop.step l).objs.map
      (fun o => o.metadata.fmt) = l.objs.map fun o => o.metadata.fmt := by
    induction js generalizing l with
    | nil => rfl
    | cons i js ih => rw [List.foldl_cons, ih, CoalesceLoop.formats_step]
  exact hfold _

/-- What `allocate` hands out has the format asked for. -/
theorem fmt_of_mem_objOf {a : TensorMemoryAllocator} {fmt : MemoryFormat}
    (h : o ∈ objOf (a.allocate shapes dtypes fmt).1) : o.metadata.fmt = fmt := by
  rcases allocate_ends a shapes dtypes fmt with
    ⟨-, hobj⟩ | ⟨ss, ds, rawSize, start, n, m, -, -, -, -, hobj | ⟨r, shape, dtype, hobj⟩⟩
  · rw [hobj] at h
    cases h
  · rw [hobj] at h
    cases h
  · rw [hobj] at h
    obtain rfl := List.mem_singleton.mp h
    rfl

/-- What `batched_allocate` hands out has the format asked for. -/
theorem fmt_of_mem_objsOf {a : TensorMemoryAllocator} {batchSize : Nat} {fmt : MemoryFormat}
    (h : o ∈ objsOf (a.batchedAllocate shapes dtypes batchSize fmt).1) : o.metadata.fmt = fmt := by
  rcases batchedAllocate_ends a shapes dtypes batchSize fmt with
    ⟨-, hobjs⟩ | ⟨ss, ds, rawSize, start, n, m, -, -, -, -, hobjs | ⟨shape, dtype, l, -, hobjs⟩⟩
  · rw [hobjs] at h
    cases h
  · rw [hobjs] at h
    cases h
  · rw [hobjs] at h
    obtain ⟨k, r, -, rfl⟩ := mem_batchObjs l start h
    rfl

end ObjectPool

namespace MixedMemoryAllocator

/-- A call of the allocator adds objects, all of them in formats of the pinned buffer. -/
structure Adds (s s' : ObjectPool) : Prop where
  objs : ∃ os : List TensorMemoryObj, s'.objs = s.objs ++ os ∧
    ∀ o ∈ os, o.metadata.fmt ∈ pinFormats

variable (s : ObjectPool)

theorem Adds.refl : Adds s s := ⟨[], (List.append_nil _).symm, by simp⟩

theorem adds_allocate (shapes : OneOrList TorchSize) (dtypes : OneOrList TorchDtype)
    (fmt : MemoryFormat) : Adds s (allocate s shapes dtypes fmt).2 := by
  unfold allocate
  split
  · exact .refl s
  split
  · rename_i hfmt
    exact ⟨_, rfl, fun o ho => ObjectPool.fmt_of_mem_objOf ho ▸ hfmt⟩
  · exact .refl s

theorem adds_batchedAllocate (shapes : OneOrList TorchSize) (dtypes : OneOrList TorchDtype)
    (batchSize : Nat) (fmt : MemoryFormat) :
    Adds s (batchedAllocate s shapes dtypes batchSize fmt).2 := by
  unfold batchedAllocate
  split
  · exact .refl s
  split
  · rename_i hfmt
    exact ⟨_, rfl, fun o ho => ObjectPool.fmt_of_mem_objsOf ho ▸ hfmt⟩
  · exact .refl s

end MixedMemoryAllocator

end LMCache.Memory
