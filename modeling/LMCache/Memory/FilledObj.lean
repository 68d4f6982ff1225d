/-
# LMCache.Memory.FilledObj — memory objects with their bytes.

Source: `v1/memory_management.py` (`TensorMemoryObj`, `BytesBufferMemoryObj`,
`MixedMemoryAllocator.allocate` and `BufferAllocator.allocate`), as the remote connectors use them.

A tensor object has the bytes of its groups of layers one after the other; where a group starts is
computed once, when the object is made.  The object has the shape and the dtype of its first group a
second time.

The memory of a new tensor holds whatever was there before.  `LocalCPUBackend.allocate` goes to a
`MixedMemoryAllocator` unless P2P sharing is on; as the connectors call it, it evicts and waits
until there is memory, so `None` is not among its results.
-/
import LMCache.Memory.MixedAllocator
import LMCache.Memory.PageLayouts

namespace LMCache.Memory

/-! ## The objects -/

structure FilledObj where
  /-- `get_shape()` and `get_dtype()`. -/
  shape : TorchSize
  dtype : Option TorchDtype
  /-- `get_shapes()` and `get_dtypes()`. -/
  shapes : List TorchSize
  dtypes : List TorchDtype
  fmt : MemoryFormat
  groupPrefixSum : List Nat
  /-- `raw_data`, and so `byte_array`. -/
  rawData : List UInt8
  deriving DecidableEq, Repr

/-- A view of a tensor: its bytes, as elements of a dtype in a shape. -/
structure GroupView where
  bytes : List UInt8
  dtype : TorchDtype
  shape : TorchSize
  deriving DecidableEq, Repr

namespace FilledObj

/-- `TensorMemoryObj(raw_data, MemoryObjMetadata(shapes[0], dtypes[0], …), …)`. -/
def tensor (shape : TorchSize) (shapes : List TorchSize) (dtype : TorchDtype)
    (dtypes : List TorchDtype) (fmt : MemoryFormat) (rawData : List UInt8) : FilledObj where
  shape := shape
  dtype := dtype
  shapes := shape :: shapes
  dtypes := dtype :: dtypes
  fmt := fmt
  groupPrefixSum := prefixSums (groupSizes (shape :: shapes) (dtype :: dtypes))
  rawData := rawData

/-- `BytesBufferMemoryObj(raw_bytes)`. -/
def bytesBuffer (rawData : List UInt8) : FilledObj where
  shape := [rawData.length, 0, 0, 0]
  dtype := none
  shapes := [[rawData.length, 0, 0, 0]]
  dtypes := []
  fmt := .BINARY_BUFFER
  groupPrefixSum := []
  rawData := rawData

/-- `get_tensor`.  An object starts at a multiple of every item size. -/
def getTensor (o : FilledObj) (index : Nat) : Except PyError GroupView :=
  match o.groupPrefixSum[index]?, o.groupPrefixSum[index + 1]?, o.dtypes[index]?,
      o.shapes[index]? with
  | some start, some stop, some dtype, some shape => do
    let bytes := (o.rawData.take stop).drop start
    let n ← BufferSlice.viewDtype 0 ⟨start, bytes.length⟩ dtype
    let shape ← viewShape n shape
    .ok ⟨bytes, dtype, shape⟩
  | _, _, _, _ => .error (.indexError indexMessage)

end FilledObj

/-! ## Allocation -/

/-- The dtypes of a header, as `get_size_bytes` uses them. -/
def someDtypes (dtypes : List (Option TorchDtype)) : Except PyError (List TorchDtype) :=
  dtypes.mapM fun
    | some dtype => .ok dtype
    | none => .error (.attributeError "'NoneType' object has no attribute 'itemsize'")

/-- `local_cpu_backend.allocate`, of memory that holds `junk`. -/
def localAllocate (junk : Nat → UInt8) (shapes : List TorchSize)
    (dtypes : List (Option TorchDtype)) (fmt : MemoryFormat) : Except PyError FilledObj :=
  if fmt = .BINARY_BUFFER then do
    let n ← MixedMemoryAllocator.bufferLength (.list shapes)
    .ok (FilledObj.bytesBuffer (List.replicate n 0))
  else if fmt ∈ MixedMemoryAllocator.pinFormats then do
    let dtypes ← someDtypes dtypes
    let size ← getSizeBytes shapes dtypes
    match shapes, dtypes with
    | shape :: shapes, dtype :: dtypes =>
      .ok (FilledObj.tensor shape shapes dtype dtypes fmt ((List.range size).map junk))
    | _, _ => .error (.indexError indexMessage)
  else .error (MixedMemoryAllocator.unsupportedFormat fmt)

/-- What a read returns, and what became of the memory it allocated. -/
structure ReadOutcome where
  result : Option FilledObj
  allocated : Bool
  released : Bool
  deriving DecidableEq, Repr

/-- A read that allocates nothing. -/
def ReadOutcome.failed : ReadOutcome := ⟨none, false, false⟩

theorem someDtypes_map_some (dtypes : List TorchDtype) :
    someDtypes (dtypes.map some) = .ok dtypes := by
  unfold someDtypes
  rw [mapM_eq_ok_iff, List.map_map]
  rfl

theorem FilledObj.getTensor_congr {a b : FilledObj} (hshapes : a.shapes = b.shapes)
    (hdtypes : a.dtypes = b.dtypes) (hsums : a.groupPrefixSum = b.groupPrefixSum)
    (hdata : a.rawData = b.rawData) (index : Nat) : a.getTensor index = b.getTensor index := by
  unfold getTensor
  rw [hshapes, hdtypes, hsums, hdata]

/-- A tensor whose bytes are those of its groups. -/
structure TensorChunk where
  shape : TorchSize
  shapes : List TorchSize
  dtype : TorchDtype
  dtypes : List TorchDtype
  fmt : MemoryFormat
  bytes : List UInt8
  length_eq : shapes.length = dtypes.length
  size_eq : bytes.length = (groupSizes (shape :: shapes) (dtype :: dtypes)).sum

/-- The memory object of a chunk. -/
def TensorChunk.obj (c : TensorChunk) : FilledObj :=
  .tensor c.shape c.shapes c.dtype c.dtypes c.fmt c.bytes

/-- **A tensor of a format that lives in the pinned buffer** is allocated as it was asked for. -/
theorem localAllocate_obj (c : TensorChunk) (hfmt : c.fmt ∈ MixedMemoryAllocator.pinFormats)
    (junk : Nat → UInt8) :
    localAllocate junk (c.shape :: c.shapes) ((c.dtype :: c.dtypes).map some) c.fmt =
      .ok { c.obj with rawData := (List.range c.bytes.length).map junk } := by
  have hbuffer : c.fmt ≠ .BINARY_BUFFER := by
    intro h
    rw [h] at hfmt
    exact absurd hfmt (by decide)
  unfold localAllocate
  rw [if_neg hbuffer, if_pos hfmt, someDtypes_map_some, c.size_eq]
  exact bind_eq_ok.mpr ⟨_, rfl, bind_eq_ok.mpr
    ⟨_, getSizeBytes_eq (congrArg (· + 1) c.length_eq), rfl⟩⟩

/-- Whatever is allocated with a dtype is a tensor. -/
theorem mem_pinFormats_of_localAllocate {junk : Nat → UInt8} {shapes : List TorchSize}
    {dtypes : List (Option TorchDtype)} {fmt : MemoryFormat} {o : FilledObj}
    (h : localAllocate junk shapes dtypes fmt = .ok o) (hdtypes : o.dtypes ≠ []) :
    fmt ∈ MixedMemoryAllocator.pinFormats := by
  unfold localAllocate at h
  split at h
  · obtain ⟨n, -, h⟩ := bind_eq_ok.mp h
    cases h
    exact absurd rfl hdtypes
  · split at h
    · assumption
    · cases h

theorem length_junk (n : Nat) (junk : Nat → UInt8) : ((List.range n).map junk).length = n := by
  rw [List.length_map, List.length_range]

end LMCache.Memory
