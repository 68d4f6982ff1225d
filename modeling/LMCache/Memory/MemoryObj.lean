/-
# LMCache.Memory.MemoryObj — memory objects, their metadata and their two counters.

Source: `v1/memory_management.py` (`MemoryFormat`, `MemoryObjMetadata`, `TensorMemoryObj`, and
`MemoryAllocatorInterface._adapt_shapes_and_dtypes`) and `integration/vllm/utils.py`
(`get_size_bytes`).

A torch tensor is present only through what the allocators do with it: a flat byte buffer is its
length, a view of it is a `BufferSlice`.  The reference count and the pin count live in the metadata;
`refCountDown` and `unpinDecrement` return the object with the counter changed and say whether the
source then calls `parent_allocator.free(self)`.
-/
import Mathlib.Tactic
import LMCache.PyError

namespace LMCache.Memory

/-! ## Shapes, dtypes and sizes -/

/-- `torch.Size`: the dimensions of a tensor. -/
abbrev TorchSize := List Nat

namespace TorchSize

def numel (s : TorchSize) : Nat := s.foldl (· * ·) 1

/-- How Python prints a `torch.Size`. -/
def repr (s : TorchSize) : String := "torch.Size([" ++ ", ".intercalate (s.map toString) ++ "])"

end TorchSize

/-- The `torch.dtype`s the cache has a name for (`utils.TORCH_DTYPE_TO_STR_DTYPE`). -/
inductive TorchDtype where
  | float16 | bfloat16 | float32 | float64
  | int8 | uint8 | int16 | int32 | int64 | bool
  | float8_e4m3fn | float8_e4m3fnuz | float8_e5m2 | float8_e5m2fnuz
  deriving DecidableEq, Repr

namespace TorchDtype

/-- Bytes per element. -/
def itemsize : TorchDtype → Nat
  | .float64 | .int64 => 8
  | .float32 | .int32 => 4
  | .float16 | .bfloat16 | .int16 => 2
  | .int8 | .uint8 | .bool => 1
  | .float8_e4m3fn | .float8_e4m3fnuz | .float8_e5m2 | .float8_e5m2fnuz => 1

/-- How Python prints a dtype. -/
def repr : TorchDtype → String
  | .float16 => "torch.float16" | .bfloat16 => "torch.bfloat16"
  | .float32 => "torch.float32" | .float64 => "torch.float64"
  | .int8 => "torch.int8" | .uint8 => "torch.uint8" | .int16 => "torch.int16"
  | .int32 => "torch.int32" | .int64 => "torch.int64" | .bool => "torch.bool"
  | .float8_e4m3fn => "torch.float8_e4m3fn" | .float8_e4m3fnuz => "torch.float8_e4m3fnuz"
  | .float8_e5m2 => "torch.float8_e5m2" | .float8_e5m2fnuz => "torch.float8_e5m2fnuz"

end TorchDtype

/-- An argument typed `Union[T, list[T]]`. -/
inductive OneOrList (α : Type) where
  | one (a : α)
  | list (l : List α)
  deriving DecidableEq, Repr

def OneOrList.toList {α : Type} : OneOrList α → List α
  | .one a => [a]
  | .list l => l

/-- How Python prints a list, given how it prints an entry. -/
def reprList {α : Type} (f : α → String) (l : List α) : String :=
  "[" ++ ", ".intercalate (l.map f) ++ "]"

/-- The message of the assertion in `_adapt_shapes_and_dtypes`. -/
def lengthMismatchMessage (shapes : List TorchSize) (dtypes : List TorchDtype) : String :=
  s!"shapes and dtypes must have the same length, got {shapes.length} and {dtypes.length}, " ++
    "shapes: " ++ reprList TorchSize.repr shapes ++ ", dtypes: " ++ reprList TorchDtype.repr dtypes

/-- `_adapt_shapes_and_dtypes`: wrap single values and check that the lengths agree. -/
def adaptShapesAndDtypes (shapes : OneOrList TorchSize) (dtypes : OneOrList TorchDtype) :
    Except PyError (List TorchSize × List TorchDtype) :=
  if shapes.toList.length = dtypes.toList.length then .ok (shapes.toList, dtypes.toList)
  else .error (.assertionError (lengthMismatchMessage shapes.toList dtypes.toList))

/-- `get_size_bytes`. -/
def getSizeBytes (shapes : List TorchSize) (kvDtypes : List TorchDtype) : Except PyError Nat :=
  if shapes.length = kvDtypes.length then
    .ok ((List.zipWith (fun s d => TorchSize.numel s * d.itemsize) shapes kvDtypes).sum)
  else .error (.assertionError
    (s!"shapes and dtypes must have the same length, but got {shapes.length} and " ++
      s!"{kvDtypes.length}"))

/-- The text of the `IndexError` of `shapes[0]` on an empty list. -/
def indexMessage : String := "list index out of range"

/-- The layouts of the memory behind an object. -/
inductive MemoryFormat where
  | UNDEFINED | KV_2LTD | KV_T2D | KV_2TD | BINARY | BINARY_BUFFER | KV_MLA_FMT
  deriving DecidableEq, Repr

/-! ## Views of a flat byte buffer -/

/-- A view `buffer[start : start + length]` of a flat byte buffer. -/
structure BufferSlice where
  start : Nat
  length : Nat
  deriving DecidableEq, Repr

namespace BufferSlice

/-- A Python slice bound on a sequence of `len` entries: negative counts from the end, then
clamped. -/
def clampBound (len : Nat) (i : Int) : Nat :=
  if i < 0 then (i + len).toNat else min i.toNat len

/-- `t[start : stop]`. -/
def slice (t : BufferSlice) (start stop : Int) : BufferSlice :=
  let lo := clampBound t.length start
  let hi := clampBound t.length stop
  ⟨t.start + lo, hi - lo⟩

/-- `torch.chunk(t, chunks)`: pieces of `ceil(length / chunks)` bytes, the last one smaller; an
empty tensor gives `chunks` empty pieces. -/
def chunk (t : BufferSlice) (chunks : Nat) : Except PyError (List BufferSlice) :=
  if chunks = 0 then
    .error (.runtimeError "chunk expects `chunks` to be greater than 0, got: 0")
  else if t.length = 0 then .ok (List.replicate chunks t)
  else
    let splitSize := (t.length + chunks - 1) / chunks
    let pieces := (t.length + splitSize - 1) / splitSize
    .ok ((List.range pieces).map fun i =>
      ⟨t.start + i * splitSize, min splitSize (t.length - i * splitSize)⟩)

/-- `torch.chunk` never returns more pieces than it was asked for. -/
theorem chunk_length_le {t : BufferSlice} {chunks : Nat} {l : List BufferSlice}
    (h : t.chunk chunks = .ok l) : l.length ≤ chunks := by
  unfold chunk at h
  split at h
  · cases h
  · rename_i hpos
    split at h
    · cases h; simp
    · rename_i hlen
      simp only [Except.ok.injEq] at h
      subst h
      rw [List.length_map, List.length_range]
      have hsplit : 0 < (t.length + chunks - 1) / chunks :=
        Nat.div_pos (by omega) (Nat.pos_of_ne_zero hpos)
      have hceil : t.length ≤ (t.length + chunks - 1) / chunks * chunks := by
        have := Nat.div_add_mod (t.length + chunks - 1) chunks
        have := Nat.mod_lt (t.length + chunks - 1) (Nat.pos_of_ne_zero hpos)
        rw [Nat.mul_comm]
        omega
      generalize (t.length + chunks - 1) / chunks = split at *
      rw [Nat.div_le_iff_le_mul_add_pred hsplit]
      omega

/-- `n` units of `u` bytes are cut into themselves. -/
theorem chunk_units {t : BufferSlice} {n u : Nat} (hn : 0 < n) (h : t.length = n * u) :
    t.chunk n = .ok ((List.range n).map fun i => ⟨t.start + i * u, u⟩) := by
  unfold chunk
  rw [if_neg (Nat.pos_iff_ne_zero.mp hn)]
  by_cases hu : u = 0
  · subst hu
    rw [Nat.mul_zero] at h
    obtain ⟨start, length⟩ := t
    dsimp only at h
    subst h
    rw [if_pos rfl]
    simp [List.map_const']
  · have hu : 0 < u := Nat.pos_of_ne_zero hu
    have hlen : t.length ≠ 0 := by
      rw [h]
      exact (Nat.mul_pos hn hu).ne'
    have hsplit : (t.length + n - 1) / n = u := by
      rw [h, Nat.add_sub_assoc hn, Nat.mul_add_div hn, Nat.div_eq_of_lt (by omega), Nat.add_zero]
    have hpieces : (t.length + u - 1) / u = n := by
      rw [h, Nat.mul_comm, Nat.add_sub_assoc hu, Nat.mul_add_div hu, Nat.div_eq_of_lt (by omega),
        Nat.add_zero]
    rw [if_neg hlen]
    dsimp only
    rw [hsplit, hpieces, h]
    congr 1
    refine List.map_congr_left fun i hi => ?_
    -- a whole unit is left for each of the pieces
    have hleft : (i + 1) * u ≤ n * u := Nat.mul_le_mul_right u (List.mem_range.mp hi)
    rw [Nat.add_mul, Nat.one_mul] at hleft
    rw [Nat.min_eq_left (by omega)]

end BufferSlice

/-! ## Memory objects -/

structure MemoryObjMetadata where
  shape : TorchSize
  dtype : TorchDtype
  address : Int
  phySize : Int
  refCount : Int
  pinCount : Int
  fmt : MemoryFormat
  shapes : List TorchSize
  dtypes : List TorchDtype
  deriving DecidableEq, Repr

structure TensorMemoryObj where
  rawData : BufferSlice
  metadata : MemoryObjMetadata
  valid : Bool
  deriving DecidableEq, Repr

namespace TensorMemoryObj

/-- The object an allocator builds: valid, one reference, no pin. -/
def init (rawData : BufferSlice) (shape : TorchSize) (dtype : TorchDtype) (address phySize : Int)
    (fmt : MemoryFormat) (shapes : List TorchSize) (dtypes : List TorchDtype) :
    TensorMemoryObj where
  rawData := rawData
  metadata := ⟨shape, dtype, address, phySize, 1, 0, fmt, shapes, dtypes⟩
  valid := true

def invalidate (o : TensorMemoryObj) : TensorMemoryObj := { o with valid := false }

/-- The address range `[address, address + phy_size)` of the object. -/
def range (o : TensorMemoryObj) : Int × Int :=
  (o.metadata.address, o.metadata.address + o.metadata.phySize)

def setRefCount (o : TensorMemoryObj) (n : Int) : TensorMemoryObj :=
  { o with metadata := { o.metadata with refCount := n } }

def setPinCount (o : TensorMemoryObj) (n : Int) : TensorMemoryObj :=
  { o with metadata := { o.metadata with pinCount := n } }

def refCountUp (o : TensorMemoryObj) : TensorMemoryObj := o.setRefCount (o.metadata.refCount + 1)

/-- `ref_count_down`: decrement, clamp at 0, and free when neither counter holds the object. -/
def refCountDown (o : TensorMemoryObj) : TensorMemoryObj × Bool :=
  let n := o.metadata.refCount - 1
  let o := o.setRefCount (if n < 0 then 0 else n)
  (o, decide (o.metadata.refCount = 0 ∧ o.metadata.pinCount = 0))

def pin (o : TensorMemoryObj) : TensorMemoryObj := o.setPinCount (o.metadata.pinCount + 1)

/-- `unpin` up to its call of `free`: decrement, and free when neither counter is positive. -/
def unpinDecrement (o : TensorMemoryObj) : TensorMemoryObj × Bool :=
  let o := o.setPinCount (o.metadata.pinCount - 1)
  (o, decide (o.metadata.pinCount ≤ 0 ∧ o.metadata.refCount ≤ 0))

/-- The end of `unpin`: a negative pin count is set back to 0. -/
def unpinClamp (o : TensorMemoryObj) : TensorMemoryObj :=
  if o.metadata.pinCount < 0 then o.setPinCount 0 else o

def isPinned (o : TensorMemoryObj) : Bool := decide (o.metadata.pinCount > 0)

def canEvict (o : TensorMemoryObj) : Bool := !o.isPinned && decide (o.metadata.refCount = 1)

/-! ### The counters leave the range and the validity alone -/

/-- Two versions of an object that own the same range and are equally valid. -/
def SameRange (o o' : TensorMemoryObj) : Prop := o'.range = o.range ∧ o'.valid = o.valid

variable (o : TensorMemoryObj)

theorem sameRange_refCountUp : o.SameRange o.refCountUp := ⟨rfl, rfl⟩

theorem sameRange_refCountDown : o.SameRange o.refCountDown.1 := ⟨rfl, rfl⟩

theorem sameRange_pin : o.SameRange o.pin := ⟨rfl, rfl⟩

theorem sameRange_unpinDecrement : o.SameRange o.unpinDecrement.1 :=
  ⟨rfl, rfl⟩

theorem sameRange_unpinClamp : o.SameRange o.unpinClamp := by
  unfold unpinClamp
  split <;> exact ⟨rfl, rfl⟩

/-- `ref_count_down` frees only an object that neither counter holds. -/
theorem refCountDown_frees {o : TensorMemoryObj} (h : o.refCountDown.2 = true) :
    o.refCountDown.1.metadata.refCount ≤ 0 ∧ o.refCountDown.1.metadata.pinCount ≤ 0 := by
  have := of_decide_eq_true h
  exact ⟨this.1.le, this.2.le⟩

/-- `unpin` frees only an object that neither counter holds. -/
theorem unpinDecrement_frees {o : TensorMemoryObj} (h : o.unpinDecrement.2 = true) :
    o.unpinDecrement.1.metadata.refCount ≤ 0 ∧ o.unpinDecrement.1.metadata.pinCount ≤ 0 := by
  have := of_decide_eq_true h
  exact ⟨this.2, this.1⟩

end TensorMemoryObj

end LMCache.Memory
