/-
# LMCache.Storage.GdsMetadata — the metadata file of a chunk.

Source: `torch_dtypes`, `pack_metadata` and `unpack_metadata` of `v1/storage_backend/gds_backend.py`.

The file has 4096 bytes: the length of a JSON document as eight bytes, the document, and spaces.
The document says what dtype and shape the tensor has, how many bytes it takes and in which format it
is.  `unpackMetadata` reads all of it back (`unpackMetadata_packMetadata`); the number of bytes is
that of the tensor, not of the memory behind it.
-/
import LMCache.Lib.JsonText
import LMCache.Lib.Scatter
import LMCache.Protocol

namespace LMCache.Storage

open LMCache.Lib LMCache.Lib.PyStr LMCache.Lib.JsonText LMCache.Memory

/-! ## Dtypes -/

/-- A dtype of a tensor, also one that keys have no name for. -/
inductive TensorDtype where
  | known (dtype : TorchDtype)
  | uint16 | uint32 | uint64
  deriving DecidableEq, Repr

namespace TensorDtype

/-- `tensor.element_size()`. -/
def itemsize : TensorDtype → Nat
  | .known dtype => dtype.itemsize
  | .uint16 => 2
  | .uint32 => 4
  | .uint64 => 8

/-- How Python prints it. -/
def repr : TensorDtype → String
  | .known dtype => dtype.repr
  | .uint16 => "torch.uint16"
  | .uint32 => "torch.uint32"
  | .uint64 => "torch.uint64"

end TensorDtype

/-- `torch_dtypes`. -/
def torchDtypes : List (TensorDtype × String) :=
  [(.known .float16, "F16"), (.known .bfloat16, "BF16"), (.known .float32, "F32"),
    (.known .float64, "F64"), (.known .uint8, "U8"), (.uint16, "U16"), (.uint32, "U32"),
    (.uint64, "U64"), (.known .int8, "I8"), (.known .int16, "I16"), (.known .int32, "I32"),
    (.known .int64, "I64"), (.known .float8_e4m3fn, "F8E4M3FN"), (.known .float8_e5m2, "F8E5M2")]

/-- `torch_dtypes_inverse`. -/
def torchDtypesInverse : Dict String TensorDtype := .ofPairs (torchDtypes.map Prod.swap)

/-! ## Packing -/

/-- `_METADATA_MAX_SIZE`. -/
def metadataMaxSize : Nat := 4096

/-- `struct.pack("<Q", n)`, for a number that fits. -/
def packUInt64 (n : Nat) : List UInt8 :=
  (List.range 8).map fun i => UInt8.ofNat (n / 256 ^ i % 256)

/-- `struct.unpack("<Q", bs)[0]`. -/
def unpackUInt64 (bs : List UInt8) : Nat := bs.foldr (fun b n => b.toNat + 256 * n) 0

/-- The entry of the document for the tensor. -/
def tensorMeta (shape : TorchSize) (dtype : TensorDtype) (name : String) (fmt : MemoryFormat)
    (extraMetadata : List (String × String)) : Json String :=
  .obj [("dtype", .str name), ("shape", .arr (shape.map fun n : Nat => .int n)),
    ("data_offsets", .arr [.int 0, .int (shape.numel * dtype.itemsize : Nat)]),
    ("fmt", .int fmt.value),
    ("__metadata__", .obj (extraMetadata.map fun e => (e.1, .str e.2)))]

/-- `pack_metadata` of a tensor of this shape and dtype. -/
def packMetadata (shape : TorchSize) (dtype : TensorDtype) (fmt : MemoryFormat)
    (extraMetadata : List (String × String)) : Except PyError (List UInt8) :=
  match torchDtypes.lookup dtype with
  | none => .error (.runtimeError s!"unhandled dtype {dtype.repr}")
  | some name =>
    let strMeta := encode (dumps (.obj [("kvcache", tensorMeta shape dtype name fmt extraMetadata)]))
    if strMeta.length ≤ metadataMaxSize - 8 then
      let strMeta := strMeta ++ List.replicate (metadataMaxSize - 8 - strMeta.length) 0x20
      .ok (packUInt64 strMeta.length ++ strMeta)
    else .error (.assertionError "")

/-! ## Unpacking -/

/-- What `unpack_metadata` returns. -/
structure TensorMeta where
  shape : TorchSize
  dtype : TensorDtype
  nbytes : Int
  fmt : MemoryFormat
  extraMetadata : Json String

/-- `value[index]` of a list. -/
def itemAt (value : Json String) (index : Nat) : Except PyError (Json String) :=
  match value with
  | .arr items =>
    match items[index]? with
    | some item => .ok item
    | none => .error (.indexError indexMessage)
  | value => .error (.typeError s!"'{value.typeName}' object is not a list")

/-- An integer. -/
def readInteger : Json String → Except PyError Int
  | .int n => .ok n
  | value => .error (.typeError s!"'{value.typeName}' object is not an integer")

/-- `torch.Size(value)`, of dimensions that are not negative. -/
def readShape : Json String → Except PyError TorchSize
  | .arr items => items.mapM fun item => do
    let n ← readInteger item
    if 0 ≤ n then .ok n.toNat else .error (.runtimeError s!"negative dimension {n}")
  | value => .error (.typeError s!"'{value.typeName}' object is not a list")

/-- `torch_dtypes_inverse[value]`. -/
def readDtype : Json String → Except PyError TensorDtype
  | .str s =>
    match torchDtypesInverse.get? s with
    | some dtype => .ok dtype
    | none => .error (.keyError s)
  | value => .error (.typeError s!"unhashable or unknown '{value.typeName}'")

/-- The part of `unpack_metadata` that reads the document. -/
def readDocument (document : Json String) : Except PyError TensorMeta := do
  let tensorMeta ← document.subscript "kvcache"
  let shape ← tensorMeta.subscript "shape"
  let dtypeStr ← tensorMeta.subscript "dtype"
  let dataOffsets ← tensorMeta.subscript "data_offsets"
  let fmtValue ← tensorMeta.subscript "fmt"
  let fmt ← readInteger fmtValue >>= MemoryFormat.ofInt
  let stop ← itemAt dataOffsets 1 >>= readInteger
  let start ← itemAt dataOffsets 0 >>= readInteger
  let dtype ← readDtype dtypeStr
  let shape ← readShape shape
  let extraMetadata ← tensorMeta.subscript "__metadata__"
  .ok ⟨shape, dtype, stop - start, fmt, extraMetadata⟩

/-- `unpack_metadata`. -/
def unpackMetadata (buffer : List UInt8) : Except PyError TensorMeta :=
  if buffer.length < 8 then .error (.structError "unpack requires a buffer of 8 bytes")
  else
    let metaLen := unpackUInt64 (buffer.take 8)
    let strMeta := slice buffer 8 (8 + metaLen)
    let jsonMeta := strMeta.rdropWhile (· = 0x20)
    match (decode? jsonMeta).bind loads with
    | none => .error (.valueError "the metadata is no JSON document")
    | some document => readDocument document

/-! ## Packed metadata come back -/

variable {dtype : TensorDtype} {extraMetadata : List (String × String)}

/-- No two dtypes have one name. -/
theorem torchDtypesInverse_get? {name : String} (h : torchDtypes.lookup dtype = some name) :
    torchDtypesInverse.get? name = some dtype := by
  have hall : ∀ e ∈ torchDtypes, torchDtypesInverse.get? e.2 = some e.1 := by decide +kernel
  obtain ⟨before, after, hsplit, -⟩ := List.lookup_eq_some_iff.mp h
  exact hall (dtype, name) (by rw [hsplit]; simp)

theorem unpackUInt64_packUInt64 : unpackUInt64 (packUInt64 (metadataMaxSize - 8)) =
    metadataMaxSize - 8 := by decide

variable (shape : TorchSize)

theorem exactItems_shape : ExactItems (shape.map fun n : Nat => Json.int n) := by
  induction shape with
  | nil => trivial
  | cons n shape ih => exact ⟨trivial, ih⟩

theorem exactFields_strings (fields : List (String × String)) :
    ExactFields (fields.map fun e => (e.1, Json.str e.2)) := by
  induction fields with
  | nil => trivial
  | cons e fields ih => exact ⟨trivial, ih⟩

theorem exact_tensorMeta (dtype : TensorDtype) (name : String) (fmt : MemoryFormat)
    (h : (extraMetadata.map Prod.fst).Nodup) :
    Exact (.obj [("kvcache", tensorMeta shape dtype name fmt extraMetadata)]) := by
  refine ⟨by simp, ⟨?_, trivial, exactItems_shape shape, ⟨trivial, trivial, trivial⟩, trivial,
    ⟨?_, exactFields_strings extraMetadata⟩, trivial⟩, trivial⟩
  · show ["dtype", "shape", "data_offsets", "fmt", "__metadata__"].Nodup
    decide
  · rw [List.map_map]
    exact h

theorem readShape_map : readShape (.arr (shape.map fun n : Nat => .int n)) = .ok shape := by
  show (shape.map fun n : Nat => Json.int n).mapM _ = _
  rw [mapM_eq_ok_iff, List.map_map]
  refine List.map_congr_left fun n _ => bind_eq_ok.mpr ⟨n, rfl, ?_⟩
  rw [if_pos (Int.natCast_nonneg n), Int.toNat_natCast]

/-- The text of an object ends in a bracket, so that only what is behind it is stripped. -/
theorem rdropWhile_encode_dumps (fields : List (String × Json String)) (k : Nat) :
    (encode (dumps (.obj fields)) ++ List.replicate k 0x20).rdropWhile (· = 0x20) =
      encode (dumps (.obj fields)) := by
  have hdumps : dumps (.obj fields) = '{' :: dumpsFields fields ++ ['}'] := rfl
  induction k with
  | zero =>
    rw [List.replicate_zero, List.append_nil, hdumps, encode_append]
    exact List.rdropWhile_concat_neg _ _ _ (by decide)
  | succ k ih =>
    rw [List.replicate_succ', ← List.append_assoc, List.rdropWhile_concat_pos _ _ _ (by decide), ih]

theorem readDocument_tensorMeta {name : String} (hname : torchDtypes.lookup dtype = some name)
    (shape : TorchSize) (fmt : MemoryFormat) (extraMetadata : List (String × String)) :
    readDocument (.obj [("kvcache", tensorMeta shape dtype name fmt extraMetadata)]) =
      .ok ⟨shape, dtype, (shape.numel * dtype.itemsize : Nat), fmt,
        .obj (extraMetadata.map fun e => (e.1, .str e.2))⟩ := by
  have hdtype : readDtype (.str name) = .ok dtype := by
    unfold readDtype
    dsimp only
    rw [torchDtypesInverse_get? hname]
  have hfmt : (readInteger (.int fmt.value) >>= MemoryFormat.ofInt) = .ok fmt :=
    MemoryFormat.ofInt_value fmt
  unfold readDocument
  refine bind_eq_ok.mpr ⟨_, rfl, bind_eq_ok.mpr ⟨_, rfl, bind_eq_ok.mpr ⟨_, rfl,
    bind_eq_ok.mpr ⟨_, rfl, bind_eq_ok.mpr ⟨_, rfl, bind_eq_ok.mpr ⟨_, hfmt,
      bind_eq_ok.mpr ⟨_, rfl, bind_eq_ok.mpr ⟨_, rfl, bind_eq_ok.mpr ⟨_, hdtype,
        bind_eq_ok.mpr ⟨_, readShape_map shape, bind_eq_ok.mpr ⟨_, rfl, ?_⟩⟩⟩⟩⟩⟩⟩⟩⟩⟩⟩
  rw [sub_zero]

/-- **Packed metadata come back**, from a file of the size that is read. -/
theorem unpackMetadata_packMetadata {shape : TorchSize} {fmt : MemoryFormat} {bs : List UInt8}
    (hnodup : (extraMetadata.map Prod.fst).Nodup)
    (h : packMetadata shape dtype fmt extraMetadata = .ok bs) :
    bs.length = metadataMaxSize ∧ unpackMetadata bs = .ok ⟨shape, dtype,
      (shape.numel * dtype.itemsize : Nat), fmt,
      .obj (extraMetadata.map fun e => (e.1, .str e.2))⟩ := by
  unfold packMetadata at h
  cases hname : torchDtypes.lookup dtype with
  | none =>
    rw [hname] at h
    cases h
  | some name =>
    rw [hname] at h
    dsimp only at h
    have hstrip := rdropWhile_encode_dumps
      [("kvcache", tensorMeta shape dtype name fmt extraMetadata)]
    have hloads := loads_dumps (exact_tensorMeta shape dtype name fmt hnodup)
    have hdocument := readDocument_tensorMeta hname shape fmt extraMetadata
    generalize Json.obj [("kvcache", tensorMeta shape dtype name fmt extraMetadata)] =
      document at h hstrip hloads hdocument
    split at h
    · rename_i hfits
      generalize hpadding : metadataMaxSize - 8 - (encode (dumps document)).length = padding at h
      have hpadded : (encode (dumps document) ++ List.replicate padding 0x20).length =
          metadataMaxSize - 8 := by
        rw [List.length_append, List.length_replicate]
        omega
      rw [hpadded] at h
      cases h
      have hheader : (packUInt64 (metadataMaxSize - 8)).length = 8 := rfl
      have hslice := slice_append_append (packUInt64 (metadataMaxSize - 8))
        (encode (dumps document) ++ List.replicate padding 0x20) []
      rw [List.append_nil, hheader, hpadded] at hslice
      have hread : (decode? (encode (dumps document))).bind loads = some document := by
        rw [decode?_eq_some.mpr rfl, Option.bind_some, hloads]
      refine ⟨by rw [List.length_append, hheader, hpadded]; rfl, ?_⟩
      unfold unpackMetadata
      rw [if_neg (by rw [List.length_append, hheader]; omega)]
      dsimp only
      rw [List.take_append_of_le_length hheader.ge, List.take_of_length_le hheader.le,
        unpackUInt64_packUInt64, hslice, hstrip, hread]
      exact hdocument
    · cases h

theorem unpackMetadata_packMetadata_oneString :
    ∃ bs, packMetadata [2, 256] (.known .bfloat16) .KV_2LTD [("lmcache_version", "1")] = .ok bs ∧
      unpackMetadata bs = .ok ⟨[2, 256], .known .bfloat16, 1024, .KV_2LTD,
        .obj [("lmcache_version", .str "1")]⟩ := by
  have hpack : (packMetadata [2, 256] (.known .bfloat16) .KV_2LTD
      [("lmcache_version", "1")]).isOk := by decide +kernel
  cases h : packMetadata [2, 256] (.known .bfloat16) .KV_2LTD [("lmcache_version", "1")] with
  | error e =>
    rw [h] at hpack
    cases hpack
  | ok bs => exact ⟨bs, rfl, (unpackMetadata_packMetadata (by simp) h).2⟩

end LMCache.Storage
