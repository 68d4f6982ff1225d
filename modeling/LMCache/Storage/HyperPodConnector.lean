/-
# LMCache.Storage.HyperPodConnector — objects that are streamed out and read from shared memory.

Source: `_build_put_stream`, `_read_from_shared_memory`, `_read_bytes_from_offsets`,
`_copy_bytes_from_offsets` and `_parse_shape` of `SageMakerHyperPodConnector`.

An object is sent as a header and then its bytes in slices.  The daemon lays the stream down in
shared memory in as many pieces as it likes, and a lease says where they are.  To read the object,
two loops walk over the pieces: the first takes the header from their front, the second skips as
much and copies the payload.  Both are one loop, which copies a window of all the pieces together.
-/
import LMCache.Lib.Scatter
import LMCache.Lib.Splice
import LMCache.Memory.FilledObj
import LMCache.RemoteMetadata

namespace LMCache.Storage

open LMCache.Lib LMCache.Memory

/-! ## The connector -/

structure HyperPodConnector where
  /-- The number of groups that `init_remote_metadata_info` was told. -/
  numGroups : Nat
  putStreamChunkBytes : Nat
  /-- `max(1024, put_stream_chunk_bytes)`. -/
  chunkBytes_le : 1024 ≤ putStreamChunkBytes

namespace HyperPodConnector

/-- `METADATA_SIZE_BYTES`. -/
def metadataSizeBytes : Nat := 28

/-- `METADATA_SHAPE_DIMS`. -/
def metadataShapeDims : Nat := 4

variable (c : HyperPodConnector)

/-! ### Writing -/

/-- The loop of the generator over the data. -/
def dataSlices (kvView : List UInt8) (offset : Nat) : List (List UInt8) :=
  if offset < kvView.length then
    let nextOffset := min kvView.length (offset + c.putStreamChunkBytes)
    slice kvView offset nextOffset :: dataSlices kvView nextOffset
  else []
termination_by kvView.length - offset
decreasing_by
  have := c.chunkBytes_le
  omega

/-- The shape in the header, filled up with zeros. -/
def paddedShape (shape : TorchSize) : List Int :=
  (shape.map Int.ofNat ++ List.replicate metadataShapeDims 0).take metadataShapeDims

/-- The header of an object. -/
def putMetadata (memoryObj : FilledObj) : RemoteMetadata :=
  ⟨memoryObj.rawData.length, [paddedShape memoryObj.shape], [memoryObj.dtype], memoryObj.fmt⟩

/-- `_build_put_stream`: the length of the stream, and what the generator yields. -/
def buildPutStream (memoryObj : FilledObj) : Except PyError (Nat × List (List UInt8)) := do
  let kvView := memoryObj.rawData
  let header ← (putMetadata memoryObj).serializeInto c.numGroups
    (List.replicate metadataSizeBytes 0)
  .ok (header.length + kvView.length, header :: c.dataSlices kvView 0)

/-! ### Reading -/

/-- The loop of `_read_bytes_from_offsets` and `_copy_bytes_from_offsets`.  What they write into
refuses a slice of another length; the array of the first has room for all that is read. -/
def copyLoop (shm : List UInt8) (want : Int) : List (Int × Int) → Int → Nat → List UInt8 →
    Except PyError (Nat × List UInt8)
  | [], _, copied, dest => .ok (copied, dest)
  | (offset, length) :: offsets, skip, copied, dest =>
    if want ≤ copied then .ok (copied, dest)
    else if 0 < skip ∧ length ≤ skip then copyLoop shm want offsets (skip - length) copied dest
    else
      let offset := if 0 < skip then offset + skip else offset
      let length := if 0 < skip then length - skip else length
      let skip := if 0 < skip then 0 else skip
      if length ≤ 0 then copyLoop shm want offsets skip copied dest
      else
        let take := min (want - copied) length
        -- out of the shared memory: the loop breaks with what it has
        if offset < 0 ∨ take ≤ 0 then .ok (copied, dest)
        else if shm.length < offset + take then .ok (copied, dest)
        else if dest.length < copied + take then
          .error (.valueError
            "memoryview assignment: lvalue and rvalue have different structures")
        else
          copyLoop shm want offsets skip (copied + take.toNat)
            (splice dest copied (slice shm offset.toNat (offset + take).toNat))

/-- `_read_bytes_from_offsets`. -/
def readBytesFromOffsets (shm : List UInt8) (offsets : List (Int × Int))
    (skipBytes readBytes : Nat) : Except PyError (List UInt8) := do
  let r ← copyLoop shm readBytes offsets skipBytes 0 (List.replicate readBytes 0)
  .ok r.2

/-- `_copy_bytes_from_offsets`: how much was copied, and the destination then. -/
def copyBytesFromOffsets (shm : List UInt8) (offsets : List (Int × Int)) (skipBytes : Nat)
    (copyBytes : Int) (destView : List UInt8) : Except PyError (Nat × List UInt8) :=
  copyLoop shm copyBytes offsets skipBytes 0 destView

/-- The loop of `_parse_shape`. -/
def parseDims : List Int → List Int → List Int
  | actual, [] => actual
  | actual, dim :: dims =>
    if dim = 0 ∧ actual ≠ [] then actual else parseDims (actual ++ [dim]) dims

/-- `_parse_shape`.  The dimensions of a header that was written are not negative. -/
def parseShape (shape : List Int) : TorchSize :=
  if parseDims [] shape = [] then [1] else (parseDims [] shape).map Int.toNat

/-- The part of `_read_from_shared_memory` that ends with a header. -/
def readHeader (shm : List UInt8) (offsets : List (Int × Int)) : Except PyError RemoteMetadata := do
  let header ← readBytesFromOffsets shm offsets 0 metadataSizeBytes
  RemoteMetadata.deserialize c.numGroups header

/-- `_read_from_shared_memory`, of the shared memory if there is any. -/
def readFromSharedMemory (junk : Nat → UInt8) (sharedMemoryMap : Option (List UInt8))
    (offsets : List (Int × Int)) : ReadOutcome :=
  match sharedMemoryMap with
  | none => .failed
  | some shm =>
    if offsets = [] then .failed
    else if ∃ o ∈ offsets, o.1 < 0 ∨ o.2 < 0 ∨ shm.length < o.1 + o.2 then .failed
    else if (offsets.map Prod.snd).sum < metadataSizeBytes then .failed
    else
      match c.readHeader shm offsets with
      | .error _ => .failed
      | .ok metadata =>
        if metadata.length ≤ 0 then .failed
        else
          match metadata.shapes, metadata.dtypes with
          | shape :: _, dtype :: _ =>
            match localAllocate junk [parseShape shape] [dtype] metadata.fmt with
            | .error _ => .failed
            | .ok memoryObj =>
              match copyBytesFromOffsets shm offsets metadataSizeBytes metadata.length
                  memoryObj.rawData with
              | .error _ => ⟨none, true, true⟩
              | .ok (copied, view) =>
                if copied ≠ metadata.length then ⟨none, true, true⟩
                else ⟨some { memoryObj with rawData := view }, true, false⟩
          | _, _ => .failed

/-! ## The property -/

/-- An object of one group of layers, with one to four dimensions and something in it. -/
structure LayerChunk extends TensorChunk where
  one_group : shapes = []
  shape_ne_nil : shape ≠ []
  dims_le : shape.length ≤ metadataShapeDims
  dims_pos : ∀ n ∈ shape, 0 < n
  bytes_ne_nil : bytes ≠ []

/-- A piece that lies in the shared memory. -/
def InBounds (shm : List UInt8) (o : Int × Int) : Prop :=
  0 ≤ o.1 ∧ 0 ≤ o.2 ∧ o.1 + o.2 ≤ shm.length

/-- The bytes of all pieces, one after the other. -/
def gathered (shm : List UInt8) (offsets : List (Int × Int)) : List UInt8 :=
  offsets.flatMap fun o => slice shm o.1.toNat (o.1 + o.2).toNat

/-- **Reading undoes writing.**  From any pieces that make up the stream, the object is read; and
from pieces that are too short for what the header says, nothing is, and what was allocated is
released. -/
structure UndoesPutStream (obj : FilledObj) : Prop where
  returns : ∀ total chunks, c.buildPutStream obj = .ok (total, chunks) →
    ∀ junk shm offsets, (∀ o ∈ offsets, InBounds shm o) → gathered shm offsets = chunks.flatten →
      (c.readFromSharedMemory junk (some shm) offsets).result = some obj
  short : ∀ total chunks, c.buildPutStream obj = .ok (total, chunks) →
    ∀ junk shm offsets, (∀ o ∈ offsets, InBounds shm o) →
      (gathered shm offsets).take metadataSizeBytes <+: chunks.flatten →
      (gathered shm offsets).length < total →
        (c.readFromSharedMemory junk (some shm) offsets).result = none ∧
        ((c.readFromSharedMemory junk (some shm) offsets).allocated →
          (c.readFromSharedMemory junk (some shm) offsets).released)

/-! ## The loop over the pieces -/

section Loop

variable {shm : List UInt8}

theorem length_slice_piece {o : Int × Int} (h : InBounds shm o) :
    (slice shm o.1.toNat (o.1 + o.2).toNat).length = o.2.toNat := by
  obtain ⟨hoffset, hlength, hend⟩ := h
  rw [length_slice_of_le (by omega)]
  omega

variable {offsets : List (Int × Int)}

theorem length_gathered (h : ∀ o ∈ offsets, InBounds shm o) :
    ((gathered shm offsets).length : Int) = (offsets.map Prod.snd).sum := by
  induction offsets with
  | nil => rfl
  | cons o offsets ih =>
    rw [List.forall_mem_cons] at h
    unfold gathered at ih ⊢
    rw [List.flatMap_cons, List.length_append, Nat.cast_add, ih h.2, length_slice_piece h.1,
      List.map_cons, List.sum_cons, Int.toNat_of_nonneg h.1.2.1]

/-- A piece that is skipped as a whole. -/
theorem copyLoop_of_le {want offset length skip copied : Nat} (offsets : List (Int × Int))
    (dest : List UInt8) (hwant : copied < want) (h : length ≤ skip) :
    copyLoop shm want ((offset, length) :: offsets) skip copied dest =
      copyLoop shm want offsets (skip - length : Nat) copied dest := by
  rw [copyLoop, if_neg (by omega)]
  by_cases hskip : 0 < skip
  · rw [if_pos ⟨by omega, by omega⟩, Nat.cast_sub h]
  · obtain rfl : skip = 0 := by omega
    obtain rfl : length = 0 := by omega
    rfl

/-- A piece of which something is left behind what is skipped. -/
theorem copyLoop_of_lt {want offset length skip copied : Nat} (offsets : List (Int × Int))
    (dest : List UInt8) (hwant : copied < want) (h : skip < length)
    (hend : offset + length ≤ shm.length) :
    copyLoop shm want ((offset, length) :: offsets) skip copied dest =
      if dest.length < copied + min (want - copied) (length - skip) then
        .error (.valueError "memoryview assignment: lvalue and rvalue have different structures")
      else
        copyLoop shm want offsets 0 (copied + min (want - copied) (length - skip))
          (splice dest copied (slice shm (offset + skip)
            (offset + skip + min (want - copied) (length - skip)))) := by
  have hoffset : (if (0 : Int) < skip then (offset : Int) + skip else offset) =
      (offset + skip : Nat) := by
    split <;> omega
  have hlength : (if (0 : Int) < skip then (length : Int) - skip else length) =
      (length - skip : Nat) := by
    split <;> omega
  have hskip : (if (0 : Int) < skip then 0 else (skip : Int)) = 0 := by
    split <;> omega
  have htake : min ((want : Int) - copied) (length - skip : Nat) =
      (min (want - copied) (length - skip) : Nat) := by
    omega
  rw [copyLoop, if_neg (by omega), if_neg (by omega)]
  simp only [hoffset, hlength, hskip, htake]
  rw [if_neg (by omega), if_neg (by omega), if_neg (by omega)]
  refine if_congr (by omega) rfl ?_
  rw [Int.toNat_natCast, Int.toNat_natCast, ← Nat.cast_add, Int.toNat_natCast]

/-- **What the loop does**: of all the pieces together, it skips some bytes and writes the next
ones, as many as are wanted and there; a destination that is too short refuses them. -/
theorem copyLoop_eq (want : Nat) (h : ∀ o ∈ offsets, InBounds shm o) (skip copied : Nat)
    (dest : List UInt8) (hdest : copied ≤ dest.length) :
    copyLoop shm want offsets skip copied dest =
      if copied + (((gathered shm offsets).drop skip).take (want - copied)).length ≤
          dest.length then
        .ok (copied + (((gathered shm offsets).drop skip).take (want - copied)).length,
          splice dest copied (((gathered shm offsets).drop skip).take (want - copied)))
      else .error (.valueError
        "memoryview assignment: lvalue and rvalue have different structures") := by
  induction offsets generalizing skip copied dest with
  | nil => simp [copyLoop, gathered, hdest]
  | cons o offsets ih =>
    rw [List.forall_mem_cons] at h
    obtain ⟨offset, length⟩ := o
    have hpiece := length_slice_piece h.1
    obtain ⟨⟨hoffset, hlength, hend⟩, hrest⟩ := h
    lift offset to Nat using hoffset
    lift length to Nat using hlength
    have hend' : offset + length ≤ shm.length := by
      simp only at hend
      omega
    change (slice shm offset (offset + length)).length = length at hpiece
    change copyLoop shm want ((offset, length) :: offsets) skip copied dest =
      if copied + (((slice shm offset (offset + length) ++ gathered shm offsets).drop skip).take
          (want - copied)).length ≤ dest.length then
        .ok (copied + (((slice shm offset (offset + length) ++ gathered shm offsets).drop skip).take
            (want - copied)).length,
          splice dest copied (((slice shm offset (offset + length) ++
            gathered shm offsets).drop skip).take (want - copied)))
      else .error (.valueError
        "memoryview assignment: lvalue and rvalue have different structures")
    obtain hfull | hwant := le_or_gt want copied
    · rw [copyLoop, if_pos (by exact_mod_cast hfull), Nat.sub_eq_zero_of_le hfull]
      simp [hdest]
    obtain hskip | hskip := le_or_gt length skip
    · -- the piece is in front of the window
      have hwindow : (slice shm offset (offset + length) ++ gathered shm offsets).drop skip =
          (gathered shm offsets).drop (skip - length) := by
        rw [List.drop_append, List.drop_of_length_le (hpiece.trans_le hskip), List.nil_append,
          hpiece]
      rw [copyLoop_of_le offsets dest hwant hskip, ih hrest _ _ _ hdest, hwindow]
    · -- the window begins in the piece
      have hwindow : ((slice shm offset (offset + length) ++ gathered shm offsets).drop skip).take
          (want - copied) = slice shm (offset + skip)
            (offset + skip + min (want - copied) (length - skip)) ++
          (gathered shm offsets).take
            (want - (copied + min (want - copied) (length - skip))) := by
        rw [List.drop_append_of_le_length (by omega), List.take_append, drop_slice, take_slice,
          length_slice_of_le hend']
        congr 2 <;> omega
      have hlen : (slice shm (offset + skip)
          (offset + skip + min (want - copied) (length - skip))).length =
          min (want - copied) (length - skip) := by
        rw [length_slice_of_le (by omega)]
        omega
      rw [copyLoop_of_lt offsets dest hwant hskip hend', hwindow]
      generalize slice shm (offset + skip) (offset + skip + min (want - copied) (length - skip)) =
        written at hlen ⊢
      rw [List.length_append, ← hlen, ← Nat.add_assoc]
      by_cases hroom : dest.length < copied + written.length
      · rw [if_pos hroom, if_neg (by omega)]
      · have hroom' : copied + written.length ≤ dest.length := not_lt.mp hroom
        have hnext := ih hrest 0 (copied + written.length) (splice dest copied written)
          ((length_splice hroom').symm ▸ hroom')
        rw [length_splice hroom', splice_splice hroom', List.drop_zero] at hnext
        rw [if_neg hroom]
        exact hnext

/-- The first bytes of the pieces. -/
theorem readBytesFromOffsets_eq (h : ∀ o ∈ offsets, InBounds shm o) {n : Nat}
    (hn : n ≤ (gathered shm offsets).length) :
    readBytesFromOffsets shm offsets 0 n = .ok ((gathered shm offsets).take n) := by
  have hlength : ((gathered shm offsets).take n).length =
      (List.replicate n (0 : UInt8)).length := by
    rw [List.length_take, List.length_replicate]
    omega
  have hloop := copyLoop_eq n h 0 0 (List.replicate n 0) (Nat.zero_le _)
  rw [Nat.sub_zero, List.drop_zero, Nat.zero_add, if_pos hlength.le, splice_of_length hlength]
    at hloop
  exact bind_eq_ok.mpr ⟨_, hloop, rfl⟩

/-- A copy of as many bytes as the destination has. -/
theorem copyBytesFromOffsets_eq (h : ∀ o ∈ offsets, InBounds shm o) (skip : Nat) {dest : List UInt8}
    (hdest : skip + dest.length ≤ (gathered shm offsets).length) :
    copyBytesFromOffsets shm offsets skip dest.length dest =
      .ok (dest.length, ((gathered shm offsets).drop skip).take dest.length) := by
  have hlength : (((gathered shm offsets).drop skip).take dest.length).length = dest.length := by
    rw [List.length_take, List.length_drop]
    omega
  have hloop := copyLoop_eq dest.length h skip 0 dest (Nat.zero_le _)
  rw [Nat.sub_zero, Nat.zero_add, if_pos hlength.le, splice_of_length hlength, hlength] at hloop
  exact hloop

/-- From pieces that are too short not all that is wanted is copied. -/
theorem copied_lt (h : ∀ o ∈ offsets, InBounds shm o) {skip want : Nat}
    (hshort : (gathered shm offsets).length < skip + want) {dest : List UInt8}
    {r : Nat × List UInt8} (hr : copyBytesFromOffsets shm offsets skip want dest = .ok r)
    (hwant : 0 < want) : r.1 < want := by
  unfold copyBytesFromOffsets at hr
  rw [copyLoop_eq want h skip 0 dest (Nat.zero_le _)] at hr
  split at hr
  · cases hr
    simp only [List.length_take, List.length_drop]
    omega
  · cases hr

end Loop

/-! ## The stream -/

theorem flatten_dataSlices (kvView : List UInt8) (offset : Nat) :
    (c.dataSlices kvView offset).flatten = kvView.drop offset := by
  fun_induction dataSlices c kvView offset with
  | case1 offset hlt nextOffset ih =>
    rw [List.flatten_cons, ih]
    exact slice_append_drop kvView (le_min hlt.le (Nat.le_add_right _ _))
  | case2 offset hge =>
    rw [List.drop_of_length_le (not_lt.mp hge)]
    rfl

/-- **A stream is a header of one group and the bytes.** -/
theorem of_buildPutStream {obj : FilledObj} {total : Nat} {chunks : List (List UInt8)}
    (h : c.buildPutStream obj = .ok (total, chunks)) :
    ∃ header, (putMetadata obj).serialize c.numGroups = .ok header ∧
      header.length = metadataSizeBytes ∧ total = metadataSizeBytes + obj.rawData.length ∧
      chunks.flatten = header ++ obj.rawData := by
  obtain ⟨header, hheader, h⟩ := bind_eq_ok.mp h
  cases h
  obtain ⟨-, packed, hpacked, rfl⟩ := RemoteMetadata.serializeInto_eq_ok_iff.mp hheader
  obtain ⟨ints, -, hnum, -⟩ := RemoteMetadata.serialize_eq_ok_iff.mp hpacked
  have hlength : packed.length = metadataSizeBytes := by
    rw [RemoteMetadata.length_serialize hpacked, ← hnum]
    rfl
  have hfull : packed ++ (List.replicate metadataSizeBytes (0 : UInt8)).drop packed.length =
      packed := by
    rw [hlength, List.drop_of_length_le (List.length_replicate ..).le, List.append_nil]
  rw [hfull]
  refine ⟨packed, hpacked, hlength, by rw [hlength], ?_⟩
  rw [List.flatten_cons, flatten_dataSlices, List.drop_zero]

/-- The padding of a shape is taken away again. -/
theorem parseDims_append_replicate (actual : List Int) {dims : List Int} (hdims : ∀ n ∈ dims, n ≠ 0)
    (n : Nat) (h : actual ++ dims ≠ []) :
    parseDims actual (dims ++ List.replicate n 0) = actual ++ dims := by
  induction dims generalizing actual with
  | nil =>
    rw [List.append_nil] at h ⊢
    cases n with
    | zero => rfl
    | succ n =>
      -- the first zero behind a dimension ends the shape
      rw [List.nil_append, List.replicate_succ]
      exact if_pos ⟨rfl, h⟩
  | cons dim dims ih =>
    rw [List.forall_mem_cons] at hdims
    rw [List.cons_append, parseDims, if_neg (fun hzero => hdims.1 hzero.1), ih _ hdims.2 (by simp),
      List.append_assoc, List.singleton_append]

theorem parseShape_paddedShape {shape : TorchSize} (hne : shape ≠ [])
    (hlength : shape.length ≤ metadataShapeDims) (hpos : ∀ n ∈ shape, 0 < n) :
    parseShape (paddedShape shape) = shape := by
  have hpadded : paddedShape shape =
      shape.map Int.ofNat ++ List.replicate (metadataShapeDims - shape.length) 0 := by
    rw [paddedShape, List.take_append, List.length_map, List.take_of_length_le, List.take_replicate,
      Nat.min_eq_left (Nat.sub_le _ _)]
    rwa [List.length_map]
  have hdims : parseDims [] (paddedShape shape) = shape.map Int.ofNat := by
    rw [hpadded, parseDims_append_replicate [] _ _ (by simpa using hne), List.nil_append]
    intro n hn
    obtain ⟨m, hm, rfl⟩ := List.mem_map.mp hn
    exact Int.natCast_ne_zero.mpr (hpos m hm).ne'
  unfold parseShape
  rw [hdims, if_neg (by simpa using hne), List.map_map]
  exact List.map_id _

/-! ## The two halves -/

section Read

variable {c} {obj : FilledObj} {header : List UInt8} {shm : List UInt8} {offsets : List (Int × Int)}

/-- A read of pieces that begin with the header of an object comes down to the copy. -/
theorem readFromSharedMemory_eq (hheader : (putMetadata obj).serialize c.numGroups = .ok header)
    (hlength : header.length = metadataSizeBytes) (hpayload : obj.rawData ≠ [])
    (hoffsets : ∀ o ∈ offsets, InBounds shm o)
    (h : (gathered shm offsets).take metadataSizeBytes = header) (junk : Nat → UInt8) :
    c.readFromSharedMemory junk (some shm) offsets =
      match localAllocate junk [parseShape (paddedShape obj.shape)] [obj.dtype] obj.fmt with
      | .error _ => .failed
      | .ok memoryObj =>
        match copyBytesFromOffsets shm offsets metadataSizeBytes obj.rawData.length
            memoryObj.rawData with
        | .error _ => ⟨none, true, true⟩
        | .ok (copied, view) =>
          if (copied : Int) ≠ obj.rawData.length then ⟨none, true, true⟩
          else ⟨some { memoryObj with rawData := view }, true, false⟩ := by
  have hlong : metadataSizeBytes ≤ (gathered shm offsets).length := by
    have := congrArg List.length h
    rw [List.length_take, hlength] at this
    omega
  have hne : offsets ≠ [] := by
    rintro rfl
    exact absurd hlong (show ¬ 28 ≤ 0 by decide)
  have hbounds : ¬ ∃ o ∈ offsets, o.1 < 0 ∨ o.2 < 0 ∨ (shm.length : Int) < o.1 + o.2 := by
    rintro ⟨o, ho, hbad⟩
    obtain ⟨h1, h2, h3⟩ := hoffsets o ho
    omega
  have hsum : ¬ (offsets.map Prod.snd).sum < (metadataSizeBytes : Int) := by
    rw [← length_gathered hoffsets]
    exact_mod_cast not_lt.mpr hlong
  have hread : c.readHeader shm offsets = .ok (putMetadata obj) := by
    refine bind_eq_ok.mpr ⟨header, ?_, ?_⟩
    · rw [readBytesFromOffsets_eq hoffsets hlong, h]
    · simpa using RemoteMetadata.deserialize_serialize hheader []
  have hpos : ¬ (obj.rawData.length : Int) ≤ 0 := by
    have := List.length_pos_iff.mpr hpayload
    omega
  unfold readFromSharedMemory
  dsimp only
  rw [if_neg hne, if_neg hbounds, if_neg hsum, hread]
  exact if_neg hpos

/-- **Pieces that make up a stream are read as its object.** -/
theorem readFromSharedMemory_of_stream (chunk : LayerChunk)
    (hfmt : chunk.fmt ∈ MixedMemoryAllocator.pinFormats)
    (hheader : (putMetadata chunk.obj).serialize c.numGroups = .ok header)
    (hlength : header.length = metadataSizeBytes) (hoffsets : ∀ o ∈ offsets, InBounds shm o)
    (h : gathered shm offsets = header ++ chunk.bytes) (junk : Nat → UInt8) :
    c.readFromSharedMemory junk (some shm) offsets = ⟨some chunk.obj, true, false⟩ := by
  have hdtypes : chunk.dtypes = [] := by
    rw [← List.length_eq_zero_iff, ← chunk.length_eq, chunk.one_group]
    rfl
  have hallocate := localAllocate_obj chunk.toTensorChunk hfmt junk
  rw [chunk.one_group, hdtypes] at hallocate
  have hshape : parseShape (paddedShape chunk.obj.shape) = chunk.obj.shape :=
    parseShape_paddedShape chunk.shape_ne_nil chunk.dims_le chunk.dims_pos
  have hroom : metadataSizeBytes + ((List.range chunk.bytes.length).map junk).length ≤
      (gathered shm offsets).length := by
    rw [length_junk, h, List.length_append, hlength]
  have hcopy := copyBytesFromOffsets_eq hoffsets metadataSizeBytes hroom
  rw [length_junk, h, ← hlength, List.drop_left, List.take_length] at hcopy
  rw [readFromSharedMemory_eq hheader hlength chunk.bytes_ne_nil hoffsets
    (by rw [h, ← hlength, List.take_left]), hshape]
  have hallocate' : localAllocate junk [chunk.obj.shape] [chunk.obj.dtype] chunk.obj.fmt = _ :=
    hallocate
  have hcopy' : copyBytesFromOffsets shm offsets metadataSizeBytes chunk.obj.rawData.length
      ((List.range chunk.bytes.length).map junk) = .ok (chunk.bytes.length, chunk.bytes) :=
    hlength ▸ hcopy
  simp only [hallocate', hcopy']
  exact if_neg (not_not.mpr rfl)

/-- **Pieces that are too short for their header** give nothing, and nothing is kept. -/
theorem readFromSharedMemory_of_short
    (hheader : (putMetadata obj).serialize c.numGroups = .ok header)
    (hlength : header.length = metadataSizeBytes) (hpayload : obj.rawData ≠ [])
    (hoffsets : ∀ o ∈ offsets, InBounds shm o)
    (h : (gathered shm offsets).take metadataSizeBytes = header)
    (hshort : (gathered shm offsets).length < metadataSizeBytes + obj.rawData.length)
    (junk : Nat → UInt8) :
    (c.readFromSharedMemory junk (some shm) offsets).result = none ∧
      ((c.readFromSharedMemory junk (some shm) offsets).allocated →
        (c.readFromSharedMemory junk (some shm) offsets).released) := by
  rw [readFromSharedMemory_eq hheader hlength hpayload hoffsets h]
  cases localAllocate junk [parseShape (paddedShape obj.shape)] [obj.dtype] obj.fmt with
  | error e => exact ⟨rfl, fun h => (nomatch h)⟩
  | ok memoryObj =>
    dsimp only
    cases hcopy : copyBytesFromOffsets shm offsets metadataSizeBytes obj.rawData.length
        memoryObj.rawData with
    | error e => exact ⟨rfl, fun _ => rfl⟩
    | ok r =>
      have hlt := copied_lt hoffsets hshort hcopy (List.length_pos_iff.mpr hpayload)
      dsimp only
      rw [if_pos (by exact_mod_cast hlt.ne)]
      exact ⟨rfl, fun _ => rfl⟩

/-- Fewer bytes than a header has are not looked at. -/
theorem readFromSharedMemory_of_lt (hoffsets : ∀ o ∈ offsets, InBounds shm o)
    (h : (gathered shm offsets).length < metadataSizeBytes) (junk : Nat → UInt8) :
    c.readFromSharedMemory junk (some shm) offsets = .failed := by
  have hsum : (offsets.map Prod.snd).sum < (metadataSizeBytes : Int) := by
    rw [← length_gathered hoffsets]
    exact_mod_cast h
  unfold readFromSharedMemory
  dsimp only
  rw [if_pos hsum, ite_self, ite_self]

end Read

/-- **Which objects can be sent**: the dtype has a code, and the dimensions and the length of the
payload are C integers. -/
theorem buildPutStream_ok_iff (chunk : LayerChunk) :
    (∃ r, c.buildPutStream chunk.obj = .ok r) ↔
      c.numGroups = 1 ∧ some chunk.dtype ∈ dtypeTable.map Prod.fst ∧
        (∀ n ∈ chunk.shape, IsCInt n) ∧ IsCInt chunk.bytes.length := by
  have hpadded : (paddedShape chunk.shape).length = 4 := by
    rw [paddedShape, List.length_take, List.length_append, List.length_replicate]
    exact Nat.min_eq_left (Nat.le_add_left _ _)
  have hdims : (∀ n ∈ paddedShape chunk.shape, IsCInt n) ↔ ∀ n ∈ chunk.shape, IsCInt n := by
    rw [paddedShape, List.take_append, List.take_of_length_le (by simpa using chunk.dims_le),
      List.take_replicate]
    simp only [List.forall_mem_append, List.forall_mem_map, List.mem_replicate]
    exact and_iff_left (by rintro n ⟨-, rfl⟩; decide)
  constructor
  · rintro ⟨⟨total, chunks⟩, h⟩
    obtain ⟨header, hheader, -⟩ := c.of_buildPutStream h
    have hpacks := RemoteMetadata.serialize_ok_iff.mp ⟨header, hheader⟩
    refine ⟨hpacks.shapes_length.symm, hpacks.coded _ (List.mem_singleton_self _), ?_,
      hpacks.length⟩
    exact hdims.mp (hpacks.dims _ (List.mem_singleton_self _))
  · rintro ⟨hnum, hcoded, hints, hlength⟩
    have hpacks : (putMetadata chunk.obj).Packs c.numGroups := by
      refine ⟨hnum.symm, hnum.symm, ?_, ?_, ?_, hlength⟩
      · exact List.forall_mem_singleton.mpr hpadded
      · exact List.forall_mem_singleton.mpr hcoded
      · exact List.forall_mem_singleton.mpr (hdims.mpr hints)
    obtain ⟨packed, hpacked⟩ := RemoteMetadata.serialize_ok_iff.mpr hpacks
    exact ⟨_, bind_eq_ok.mpr ⟨_, RemoteMetadata.serializeInto_eq_ok_iff.mpr
      ⟨by rw [hnum]; decide, packed, hpacked, rfl⟩, rfl⟩⟩

/-- Objects of the formats that the local backend allocates are read back. -/
theorem undoesPutStream_of_mem (chunk : LayerChunk)
    (h : chunk.fmt ∈ MixedMemoryAllocator.pinFormats) : c.UndoesPutStream chunk.obj := by
  constructor
  · intro total chunks hbuild junk shm offsets hoffsets hgathered
    obtain ⟨header, hheader, hlength, -, hflatten⟩ := c.of_buildPutStream hbuild
    rw [readFromSharedMemory_of_stream chunk h hheader hlength hoffsets (hgathered.trans hflatten)]
  · intro total chunks hbuild junk shm offsets hoffsets hfirst hshort
    obtain ⟨header, hheader, hlength, rfl, hflatten⟩ := c.of_buildPutStream hbuild
    -- the header is cut, or the payload is
    obtain hlt | hge := lt_or_ge (gathered shm offsets).length metadataSizeBytes
    · rw [readFromSharedMemory_of_lt hoffsets hlt]
      exact ⟨rfl, fun h => (nomatch h)⟩
    · rw [hflatten, List.prefix_iff_eq_take, List.length_take, Nat.min_eq_left hge, ← hlength,
        List.take_left, hlength] at hfirst
      exact readFromSharedMemory_of_short hheader hlength chunk.bytes_ne_nil hoffsets hfirst hshort
        junk

/-- Objects of another format are not, once they have been sent. -/
theorem mem_of_undoesPutStream (chunk : LayerChunk) (h : c.UndoesPutStream chunk.obj)
    {r : Nat × List (List UInt8)} (hr : c.buildPutStream chunk.obj = .ok r) :
    chunk.fmt ∈ MixedMemoryAllocator.pinFormats := by
  obtain ⟨total, chunks⟩ := r
  obtain ⟨header, hheader, hlength, -, hflatten⟩ := c.of_buildPutStream hr
  -- the daemon lays the stream down in one piece
  have hgathered : gathered chunks.flatten [(0, (chunks.flatten.length : Int))] =
      chunks.flatten := by
    rw [gathered, List.flatMap_singleton, slice]
    simp only [Int.zero_add, Int.toNat_natCast, Int.toNat_zero, List.take_length, List.drop_zero]
  have hoffsets : ∀ o ∈ [((0 : Int), (chunks.flatten.length : Int))],
      InBounds chunks.flatten o := by
    rw [List.forall_mem_singleton]
    exact ⟨le_rfl, Int.natCast_nonneg _, (Int.zero_add _).le⟩
  have hread := h.returns total chunks hr (fun _ => 0) _ _ hoffsets hgathered
  rw [readFromSharedMemory_eq hheader hlength chunk.bytes_ne_nil hoffsets
    (by rw [hgathered, hflatten, ← hlength, List.take_left])] at hread
  cases hallocate : localAllocate (fun _ => 0) [parseShape (paddedShape chunk.obj.shape)]
      [chunk.obj.dtype] chunk.obj.fmt with
  | error e =>
    rw [hallocate] at hread
    cases hread
  | ok memoryObj =>
    refine mem_pinFormats_of_localAllocate hallocate ?_
    simp only [hallocate] at hread
    split at hread
    · cases hread
    · split at hread
      · cases hread
      · have hdtypes : memoryObj.dtypes = chunk.dtype :: chunk.dtypes :=
          congrArg FilledObj.dtypes (Option.some.inj hread)
        rw [hdtypes]
        exact List.cons_ne_nil _ _

def smallConnector : HyperPodConnector := ⟨1, 1024, le_rfl⟩

/-- Two bytes, of the format that the interface of the allocators has as its default. -/
def undefinedChunk : LayerChunk where
  shape := [2]
  shapes := []
  dtype := .uint8
  dtypes := []
  fmt := .UNDEFINED
  bytes := [1, 2]
  length_eq := rfl
  size_eq := rfl
  one_group := rfl
  shape_ne_nil := by decide
  dims_le := by decide
  dims_pos := by decide
  bytes_ne_nil := by decide

end HyperPodConnector

end LMCache.Storage
