/-
# LMCache.Storage.FSConnector — one file for each object.

Source: `get`, `_get_with_odirect` and `put` of `FSConnector`, and `__init__` and
`reshape_partial_chunk` of `RemoteConnector`.

With `save_chunk_meta` a file is a header and the bytes of the object, and a read allocates what the
header says.  Without it a file is the bytes alone: a read allocates a full chunk, and cuts it down
to what it has read.  It cuts the bytes and the shape, but not the shapes of the groups, so that of
a partial chunk no group can be viewed.  A read with `O_DIRECT` allocates in the same way, and when
it fails it keeps what it has allocated.

The calls that read or open the file may raise; which do is a parameter.  A read that does not raise
gives what there is.
-/
import LMCache.Lib.Scatter
import LMCache.Lib.Splice
import LMCache.Memory.FilledObj
import LMCache.RemoteMetadata

namespace LMCache.Storage

open LMCache.Lib LMCache.Memory

/-! ## The connector -/

/-- An `FSConnector` without its paths: what `RemoteConnector.__init__` and `FSConnector.__init__`
keep of the configuration. -/
structure FSRemoteConnector where
  /-- The number of groups that `init_remote_metadata_info` was told. -/
  numGroups : Nat
  saveChunkMeta : Bool
  /-- The shapes and dtypes of a full chunk. -/
  metaShapes : List TorchSize
  metaDtypes : List TorchDtype
  useMla : Bool
  chunkSize : Nat
  readAheadSize : Option Int
  useOdirect : Bool
  /-- There is a group, and each has its dtype. -/
  metaShapes_ne_nil : metaShapes ≠ []
  length_eq : metaShapes.length = metaDtypes.length
  /-- `full_chunk_size % metadata.chunk_size == 0`. -/
  chunkSize_pos : 0 < chunkSize
  chunkSize_dvd : chunkSize ∣ (groupSizes metaShapes metaDtypes).sum
  /-- `O_DIRECT` is disabled if `save_chunk_meta` is on. -/
  odirect_excl : useOdirect → ¬ saveChunkMeta

namespace FSRemoteConnector

variable (c : FSRemoteConnector)

def metaFmt : MemoryFormat := if c.useMla then .KV_MLA_FMT else .KV_2LTD

def fullChunkSize : Nat := (groupSizes c.metaShapes c.metaDtypes).sum

def singleTokenSize : Nat := c.fullChunkSize / c.chunkSize

/-- `reshape_partial_chunk`. -/
def reshapePartialChunk (memoryObj : FilledObj) (bytesRead : Nat) : Except PyError FilledObj :=
  if bytesRead ≠ 0 ∧ c.singleTokenSize = 0 then
    .error (.zeroDivisionError "integer modulo by zero")
  else if bytesRead = 0 ∨ bytesRead % c.singleTokenSize ≠ 0 ∨ c.fullChunkSize < bytesRead then
    .error (.valueError
      (s!"bytes_read: {bytesRead} is illegal, single_token_size: {c.singleTokenSize}, " ++
        s!"full_chunk_size: {c.fullChunkSize}"))
  else if bytesRead = c.fullChunkSize then .ok memoryObj
  else if 2 < memoryObj.shape.length then
    -- the shapes of the groups, and where they begin, stay those of a full chunk
    .ok { memoryObj with
      shape := memoryObj.shape.set 2 (bytesRead / c.singleTokenSize)
      rawData := memoryObj.rawData.take bytesRead }
  else .error (.indexError "list assignment index out of range")

/-! ### Writing -/

/-- The metadata of an object. -/
def putMetadata (memoryObj : FilledObj) : RemoteMetadata :=
  ⟨memoryObj.rawData.length, memoryObj.shapes.map (List.map Int.ofNat), memoryObj.dtypes.map some,
    memoryObj.fmt⟩

/-- `put`: the file that is there afterwards, if nothing raises.  With `O_DIRECT`, for which there
is no metadata, the same bytes are written in another way. -/
def put (memoryObj : FilledObj) : Except PyError (List UInt8) :=
  if c.saveChunkMeta then do
    let header ← (putMetadata memoryObj).serialize c.numGroups
    .ok (header ++ memoryObj.rawData)
  else .ok memoryObj.rawData

/-! ### Reading -/

/-- A call that may raise. -/
def attempt : Option PyError → Except PyError Unit
  | none => .ok ()
  | some e => .error e

/-- `f.readinto(buffer[start:stop])`, from a position of the file on: how much was read, and the
buffer then. -/
def readInto (file : List UInt8) (position : Nat) (buffer : List UInt8) (start stop : Nat) :
    Nat × List UInt8 :=
  let bytes := slice file position (position + (stop - start))
  (bytes.length, splice buffer start bytes)

/-- The reads of `get` without metadata. -/
def readData (file : List UInt8) (ioError : Nat → Option PyError) (buffer : List UInt8) :
    Except PyError (Nat × List UInt8) :=
  match c.readAheadSize with
  | none => do
    attempt (ioError 0)
    .ok (readInto file 0 buffer 0 buffer.length)
  | some readAheadSize => do
    attempt (ioError 0)
    let cut := BufferSlice.clampBound buffer.length readAheadSize
    let ahead := readInto file 0 buffer 0 cut
    if readAheadSize < ahead.1 then .error (.assertionError "")
    else if ahead.1 = readAheadSize then do
      attempt (ioError 1)
      let tail := readInto file ahead.1 ahead.2 cut buffer.length
      .ok (ahead.1 + tail.1, tail.2)
    else .ok ahead

/-- The part of `get` with metadata that reads the header and allocates. -/
def allocateFromMeta (junk : Nat → UInt8) (file : List UInt8) (ioError : Nat → Option PyError) :
    Except PyError FilledObj := do
  attempt (ioError 0)
  let size := RemoteMetadata.remoteMetadataBytes c.numGroups
  let md := readInto file 0 (List.replicate size 0) 0 size
  if md.1 ≠ size then .error (.runtimeError s!"Partial read meta {size} got {md.1}")
  else do
    let metadata ← RemoteMetadata.deserialize c.numGroups md.2
    localAllocate junk (metadata.shapes.map (List.map Int.toNat)) metadata.dtypes metadata.fmt

/-- The part that reads the bytes behind the header. -/
def readPayload (file : List UInt8) (ioError : Nat → Option PyError) (memoryObj : FilledObj) :
    Except PyError FilledObj := do
  attempt (ioError 1)
  let buffer := memoryObj.rawData
  let data := readInto file (RemoteMetadata.remoteMetadataBytes c.numGroups) buffer 0 buffer.length
  if data.1 ≠ buffer.length then
    .error (.runtimeError s!"Partial read data {buffer.length} got {data.1}")
  else .ok { memoryObj with rawData := data.2 }

/-- What a read comes to that has allocated memory, and releases it if the rest raises. -/
def finish : Except PyError FilledObj → ReadOutcome
  | .error _ => ⟨none, true, true⟩
  | .ok obj => ⟨some obj, true, false⟩

/-- `get` with metadata, from where the file is open. -/
def getWithMeta (junk : Nat → UInt8) (file : List UInt8) (ioError : Nat → Option PyError) :
    ReadOutcome :=
  match c.allocateFromMeta junk file ioError with
  | .error _ => .failed
  | .ok memoryObj => finish (c.readPayload file ioError memoryObj)

/-- `get` without metadata, from where the file is open. -/
def getWithoutMeta (junk : Nat → UInt8) (file : List UInt8) (ioError : Nat → Option PyError) :
    ReadOutcome :=
  match localAllocate junk c.metaShapes (c.metaDtypes.map some) c.metaFmt with
  | .error _ => .failed
  | .ok memoryObj => finish do
    let data ← c.readData file ioError memoryObj.rawData
    c.reshapePartialChunk { memoryObj with rawData := data.2 } data.1

/-- `_get_with_odirect`; the file is opened in one way or the other, and read at once. -/
def getWithOdirect (junk : Nat → UInt8) (file : Option (List UInt8))
    (ioError : Nat → Option PyError) : ReadOutcome :=
  match localAllocate junk c.metaShapes (c.metaDtypes.map some) c.metaFmt with
  | .error _ => .failed
  | .ok memoryObj =>
    match file with
    -- the chunk is allocated before the file is opened, and not released when that raises
    | none => ⟨none, true, false⟩
    | some bytes =>
      match (do
        attempt (ioError 0)
        let data := readInto bytes 0 memoryObj.rawData 0 memoryObj.rawData.length
        c.reshapePartialChunk { memoryObj with rawData := data.2 } data.1) with
      | .error _ => ⟨none, true, false⟩
      | .ok obj => ⟨some obj, true, false⟩

/-- `get`, of the file if there is one. -/
def get (junk : Nat → UInt8) (file : Option (List UInt8)) (ioError : Nat → Option PyError) :
    ReadOutcome :=
  if c.useOdirect ∧ ¬ c.saveChunkMeta then c.getWithOdirect junk file ioError
  else
    match file with
    | none => .failed
    | some bytes =>
      if c.saveChunkMeta then c.getWithMeta junk bytes ioError
      else c.getWithoutMeta junk bytes ioError

/-! ## The property -/

/-- An object of at least one token. -/
structure StoredChunk extends TensorChunk where
  bytes_ne_nil : bytes ≠ []

/-- **The connector reads back what it stored.**  The object is written; read again, it has the same
shapes, dtypes, format and bytes, and each group is viewed as before; and a read that raises keeps
nothing. -/
structure StoresAndReads (chunk : StoredChunk) : Prop where
  roundTrip : ∀ junk, ∃ file r, c.put chunk.obj = .ok file ∧
    (c.get junk (some file) fun _ => none).result = some r ∧ r.shapes = chunk.obj.shapes ∧
      r.dtypes = chunk.obj.dtypes ∧ r.fmt = chunk.fmt ∧ r.rawData = chunk.bytes ∧
        ∀ index, r.getTensor index = chunk.obj.getTensor index
  releases : ∀ junk file ioError, (c.get junk file ioError).result = none →
    (c.get junk file ioError).allocated → (c.get junk file ioError).released

/-- What the connector can store: with metadata, objects whose header can be packed and whose format
the local backend allocates; without, full chunks. -/
structure Supports (chunk : StoredChunk) : Prop where
  odirect : c.useOdirect = false
  withMeta : c.saveChunkMeta = true →
    (putMetadata chunk.obj).Packs c.numGroups ∧ chunk.fmt ∈ MixedMemoryAllocator.pinFormats
  withoutMeta : c.saveChunkMeta = false →
    chunk.obj.shapes = c.metaShapes ∧ chunk.obj.dtypes = c.metaDtypes ∧ chunk.fmt = c.metaFmt ∧
      ∀ n ∈ c.readAheadSize, 0 ≤ n

/-! ## Reads -/

theorem readInto_whole (file : List UInt8) (position : Nat) (buffer : List UInt8) :
    readInto file position buffer 0 buffer.length =
      ((slice file position (position + buffer.length)).length,
        splice buffer 0 (slice file position (position + buffer.length))) := rfl

variable {file header : List UInt8} {ioError : Nat → Option PyError} {memoryObj r : FilledObj}

/-- A read that fills the buffer. -/
theorem readInto_of_length {position : Nat} {buffer bytes : List UInt8}
    (hlength : bytes.length = buffer.length)
    (h : slice file position (position + buffer.length) = bytes) :
    readInto file position buffer 0 buffer.length = (buffer.length, bytes) := by
  rw [readInto_whole, h, splice_of_length hlength, hlength]

/-- **Reading ahead changes nothing**, as long as it is not asked for a negative number of bytes. -/
theorem readData_eq (h : ∀ n ∈ c.readAheadSize, 0 ≤ n) (file buffer : List UInt8) :
    c.readData file (fun _ => none) buffer = .ok (readInto file 0 buffer 0 buffer.length) := by
  unfold readData
  cases hsize : c.readAheadSize with
  | none => rfl
  | some n =>
    have hn := h n (by rw [hsize]; rfl)
    lift n to Nat using hn
    have hcut : BufferSlice.clampBound buffer.length (n : Int) = min n buffer.length := by
      unfold BufferSlice.clampBound
      rw [if_neg (by omega), Int.toNat_natCast, Nat.min_comm]
    have hlength := length_slice file 0 (min n buffer.length)
    refine bind_eq_ok.mpr ⟨(), rfl, ?_⟩
    simp only [hcut, readInto, Nat.zero_add, Nat.sub_zero]
    rw [if_neg (by omega)]
    by_cases hahead : (slice file 0 (min n buffer.length)).length = n
    · -- there may be more
      have hmin : min n buffer.length = n := by omega
      rw [hmin] at hahead ⊢
      rw [if_pos (by exact_mod_cast hahead), hahead, Nat.add_sub_cancel' (by omega)]
      have hpieces : slice file 0 n ++ slice file n buffer.length = slice file 0 buffer.length :=
        slice_append_slice file (Nat.zero_le _) (by omega)
      have hroom : 0 + (slice file 0 n).length ≤ buffer.length := by omega
      have hsplice := splice_splice hroom (slice file n buffer.length)
      rw [Nat.zero_add, hahead, hpieces] at hsplice
      have htotal := congrArg List.length hpieces
      rw [List.length_append, hahead] at htotal
      rw [← htotal, ← hsplice]
      rfl
    · -- the file or the buffer ends here
      have hall : slice file 0 (min n buffer.length) = slice file 0 buffer.length := by
        obtain hle | hlt := le_or_gt buffer.length n
        · rw [Nat.min_eq_right hle]
        · rw [slice, slice, List.take_of_length_le (by omega), List.take_of_length_le (by omega)]
      rw [if_neg (by exact_mod_cast hahead), hall]

/-- A negative one is never met. -/
theorem readAhead_nonneg {buffer : List UInt8} {r : Nat × List UInt8}
    (h : c.readData file ioError buffer = .ok r) : ∀ n ∈ c.readAheadSize, 0 ≤ n := by
  intro n hn
  unfold readData at h
  rw [Option.mem_def.mp hn] at h
  obtain ⟨-, -, h⟩ := bind_eq_ok.mp h
  dsimp only at h
  split at h
  · cases h
  · omega

theorem reshapePartialChunk_eq_ok {bytesRead : Nat}
    (h : c.reshapePartialChunk memoryObj bytesRead = .ok r) :
    r.shapes = memoryObj.shapes ∧ r.dtypes = memoryObj.dtypes ∧ r.fmt = memoryObj.fmt := by
  unfold reshapePartialChunk at h
  split at h
  · cases h
  · split at h
    · cases h
    · split at h
      · cases h
        exact ⟨rfl, rfl, rfl⟩
      · split at h
        · cases h
          exact ⟨rfl, rfl, rfl⟩
        · cases h

/-- A chunk that was read in full is left as it is. -/
theorem reshapePartialChunk_full (hpos : 0 < c.fullChunkSize) (memoryObj : FilledObj) :
    c.reshapePartialChunk memoryObj c.fullChunkSize = .ok memoryObj := by
  obtain ⟨k, hk⟩ : c.chunkSize ∣ c.fullChunkSize := c.chunkSize_dvd
  have htoken : c.singleTokenSize = k := by
    rw [singleTokenSize, hk, Nat.mul_div_cancel_left k c.chunkSize_pos]
  have hk0 : k ≠ 0 := by
    rintro rfl
    omega
  unfold reshapePartialChunk
  rw [htoken, if_neg (fun h => hk0 h.2), if_neg, if_pos rfl]
  rintro (h | h | h)
  · omega
  · exact h (by rw [hk, Nat.mul_mod_left])
  · omega

/-- A full chunk is allocated. -/
theorem localAllocate_full (junk : Nat → UInt8) :
    ∃ chunk : TensorChunk, chunk.obj.shapes = c.metaShapes ∧ chunk.obj.dtypes = c.metaDtypes ∧
      chunk.fmt = c.metaFmt ∧ chunk.bytes.length = c.fullChunkSize ∧
        localAllocate junk c.metaShapes (c.metaDtypes.map some) c.metaFmt = .ok chunk.obj := by
  obtain ⟨shape, shapes, hshapes⟩ := List.exists_cons_of_ne_nil c.metaShapes_ne_nil
  have hlength := c.length_eq
  rw [hshapes, List.length_cons] at hlength
  obtain ⟨dtype, dtypes, hdtypes⟩ := List.exists_cons_of_length_eq_add_one hlength.symm
  rw [hdtypes, List.length_cons] at hlength
  have hfmt : c.metaFmt ∈ MixedMemoryAllocator.pinFormats := by
    unfold metaFmt
    split <;> decide
  have hsize : c.fullChunkSize = (groupSizes (shape :: shapes) (dtype :: dtypes)).sum := by
    rw [fullChunkSize, hshapes, hdtypes]
  let chunk : TensorChunk := ⟨shape, shapes, dtype, dtypes, c.metaFmt,
    (List.range c.fullChunkSize).map junk, Nat.succ.inj hlength, (length_junk _ _).trans hsize⟩
  refine ⟨chunk, hshapes.symm, hdtypes.symm, rfl, length_junk _ _, ?_⟩
  have hallocate := localAllocate_obj chunk hfmt junk
  rw [show chunk.bytes.length = c.fullChunkSize from length_junk _ _] at hallocate
  rw [hshapes, hdtypes]
  exact hallocate

/-! ## The round trip -/

variable {c} {chunk : StoredChunk}

/-- A header is read, and the memory it asks for is allocated. -/
theorem allocateFromMeta_eq {obj : FilledObj}
    (hheader : (putMetadata obj).serialize c.numGroups = .ok header) (junk : Nat → UInt8)
    (rest : List UInt8) :
    c.allocateFromMeta junk (header ++ rest) (fun _ => none) =
      localAllocate junk obj.shapes (obj.dtypes.map some) obj.fmt := by
  have hsize := RemoteMetadata.length_serialize hheader
  -- the buffer of the header is as long as the header
  have hmd : readInto (header ++ rest) 0 (List.replicate header.length 0) 0 header.length =
      (header.length, header) := by
    have hfirst : slice (header ++ rest) 0 (0 + header.length) = header := by
      rw [Nat.zero_add]
      exact List.take_left
    unfold readInto
    dsimp only
    rw [Nat.sub_zero, hfirst, splice_of_length List.length_replicate.symm]
  have hdeserialize : RemoteMetadata.deserialize c.numGroups header = .ok (putMetadata obj) := by
    simpa using RemoteMetadata.deserialize_serialize hheader []
  have hshapes : (putMetadata obj).shapes.map (List.map Int.toNat) = obj.shapes := by
    simp [putMetadata, List.map_map, Function.comp_def]
  unfold allocateFromMeta
  simp only [attempt, bind, Except.bind, ← hsize, hmd, ne_eq, not_true_eq_false, if_false,
    hdeserialize, hshapes]
  rfl

/-- The payload behind a header is read, if it is as long as the memory. -/
theorem readPayload_eq (hheader : header.length = RemoteMetadata.remoteMetadataBytes c.numGroups)
    {rest : List UInt8} (h : rest.length = memoryObj.rawData.length) :
    c.readPayload (header ++ rest) (fun _ => none) memoryObj =
      .ok { memoryObj with rawData := rest } := by
  have hrest : slice (header ++ rest) header.length (header.length + memoryObj.rawData.length) =
      rest := by
    rw [slice, ← h, ← List.length_append, List.take_length, List.drop_left]
  unfold readPayload
  simp only [attempt, bind, Except.bind, ← hheader, readInto_of_length h hrest, ne_eq,
    not_true_eq_false, if_false]

theorem dtypes_readPayload (h : c.readPayload file ioError memoryObj = .ok r) :
    r.dtypes = memoryObj.dtypes := by
  obtain ⟨-, -, h⟩ := bind_eq_ok.mp h
  dsimp only at h
  split at h
  · cases h
  · cases h
    rfl

theorem finish_releases (r : Except PyError FilledObj) :
    (finish r).result = none → (finish r).allocated → (finish r).released := by
  cases r with
  | error e => exact fun _ _ => rfl
  | ok obj => exact fun h => nomatch h

/-- **With metadata**, a file that was written is read as its object. -/
theorem getWithMeta_of_put (hfmt : chunk.fmt ∈ MixedMemoryAllocator.pinFormats)
    (hheader : (putMetadata chunk.obj).serialize c.numGroups = .ok header) (junk : Nat → UInt8) :
    c.getWithMeta junk (header ++ chunk.bytes) (fun _ => none) =
      ⟨some chunk.obj, true, false⟩ := by
  have hallocate : localAllocate junk chunk.obj.shapes (chunk.obj.dtypes.map some)
      chunk.obj.fmt = _ :=
    localAllocate_obj chunk.toTensorChunk hfmt junk
  unfold getWithMeta
  rw [allocateFromMeta_eq hheader, hallocate]
  dsimp only
  rw [readPayload_eq (RemoteMetadata.length_serialize hheader) (length_junk _ _).symm]
  rfl

/-- **Without metadata**, a full chunk is read as it was. -/
theorem getWithoutMeta_of_full (h : ∀ n ∈ c.readAheadSize, 0 ≤ n)
    (hlength : chunk.bytes.length = c.fullChunkSize) (junk : Nat → UInt8) :
    ∃ full : TensorChunk, full.obj.shapes = c.metaShapes ∧ full.obj.dtypes = c.metaDtypes ∧
      full.fmt = c.metaFmt ∧ c.getWithoutMeta junk chunk.bytes (fun _ => none) =
        ⟨some { full.obj with rawData := chunk.bytes }, true, false⟩ := by
  obtain ⟨full, hshapes, hdtypes, hfmt, hsize, hallocate⟩ := c.localAllocate_full junk
  refine ⟨full, hshapes, hdtypes, hfmt, ?_⟩
  have hpos : 0 < c.fullChunkSize := hlength ▸ List.length_pos_iff.mpr chunk.bytes_ne_nil
  have hread : readInto chunk.bytes 0 full.obj.rawData 0 full.obj.rawData.length =
      (full.obj.rawData.length, chunk.bytes) := by
    have hfull : chunk.bytes.length = full.obj.rawData.length := hlength.trans hsize.symm
    refine readInto_of_length hfull ?_
    rw [Nat.zero_add, slice, List.drop_zero, List.take_of_length_le hfull.le]
  unfold getWithoutMeta
  rw [hallocate]
  dsimp only
  rw [c.readData_eq h, hread]
  show finish (c.reshapePartialChunk { full.obj with rawData := chunk.bytes } full.bytes.length) = _
  rw [hsize, c.reshapePartialChunk_full hpos]
  rfl

/-- What is read without metadata has the shapes of a full chunk. -/
theorem getWithoutMeta_result {junk : Nat → UInt8}
    (h : (c.getWithoutMeta junk file ioError).result = some r) :
    r.shapes = c.metaShapes ∧ r.dtypes = c.metaDtypes ∧ r.fmt = c.metaFmt ∧
      ∀ n ∈ c.readAheadSize, 0 ≤ n := by
  obtain ⟨full, hshapes, hdtypes, hfmt, hsize, hallocate⟩ := c.localAllocate_full junk
  unfold getWithoutMeta at h
  rw [hallocate] at h
  dsimp only at h
  generalize hresult : (c.readData file ioError full.obj.rawData >>= fun data =>
    c.reshapePartialChunk { full.obj with rawData := data.2 } data.1) = result at h
  cases result with
  | error e => cases h
  | ok obj =>
    cases h
    obtain ⟨data, hdata, hreshape⟩ := bind_eq_ok.mp hresult
    obtain ⟨hr, hr', hr''⟩ := c.reshapePartialChunk_eq_ok hreshape
    exact ⟨hr.trans hshapes, hr'.trans hdtypes, hr''.trans hfmt, c.readAhead_nonneg hdata⟩

/-- What is read with metadata as a tensor is of a format that the local backend allocates. -/
theorem fmt_of_getWithMeta {rest : List UInt8}
    (hheader : (putMetadata chunk.obj).serialize c.numGroups = .ok header) {junk : Nat → UInt8}
    (h : (c.getWithMeta junk (header ++ rest) fun _ => none).result = some r)
    (hdtypes : r.dtypes = chunk.obj.dtypes) : chunk.fmt ∈ MixedMemoryAllocator.pinFormats := by
  unfold getWithMeta at h
  rw [allocateFromMeta_eq hheader] at h
  cases hallocate : localAllocate junk chunk.obj.shapes (chunk.obj.dtypes.map some)
      chunk.obj.fmt with
  | error e =>
    rw [hallocate] at h
    cases h
  | ok memoryObj =>
    refine mem_pinFormats_of_localAllocate hallocate ?_
    rw [hallocate] at h
    cases hpayload : c.readPayload (header ++ rest) (fun _ => none) memoryObj with
    | error e =>
      simp only [hpayload] at h
      cases h
    | ok obj =>
      simp only [hpayload] at h
      cases h
      rw [← dtypes_readPayload hpayload, hdtypes]
      exact List.cons_ne_nil _ _

/-! ## Exactly what the connector can store -/

theorem get_withMeta (h : c.saveChunkMeta = true) (junk : Nat → UInt8) (file : List UInt8)
    (ioError : Nat → Option PyError) :
    c.get junk (some file) ioError = c.getWithMeta junk file ioError := by
  unfold get
  rw [if_neg (fun hodirect => hodirect.2 h)]
  exact if_pos h

theorem get_withoutMeta (hodirect : c.useOdirect = false) (h : ¬ c.saveChunkMeta = true)
    (junk : Nat → UInt8) (file : List UInt8) (ioError : Nat → Option PyError) :
    c.get junk (some file) ioError = c.getWithoutMeta junk file ioError := by
  unfold get
  rw [hodirect, if_neg (fun hodirect => nomatch hodirect.1)]
  exact if_neg h

/-- With `O_DIRECT`, a file that is not there costs the memory of a chunk. -/
theorem getWithOdirect_missing (h : c.useOdirect = true) (junk : Nat → UInt8)
    (ioError : Nat → Option PyError) : c.get junk none ioError = ⟨none, true, false⟩ := by
  obtain ⟨full, -, -, -, -, hallocate⟩ := c.localAllocate_full junk
  unfold get getWithOdirect
  rw [if_pos ⟨h, c.odirect_excl h⟩, hallocate]

/-- Without `O_DIRECT`, a read that fails has released what it allocated. -/
theorem get_releases (hodirect : c.useOdirect = false) (junk : Nat → UInt8)
    (file : Option (List UInt8)) (ioError : Nat → Option PyError) :
    (c.get junk file ioError).result = none → (c.get junk file ioError).allocated →
      (c.get junk file ioError).released := by
  cases file with
  | none =>
    unfold get
    rw [hodirect, if_neg (fun hodirect => nomatch hodirect.1)]
    exact fun _ h => (nomatch h)
  | some bytes =>
    by_cases hmeta : c.saveChunkMeta = true
    · rw [get_withMeta hmeta]
      unfold getWithMeta
      cases c.allocateFromMeta junk bytes ioError with
      | error e => exact fun _ h => (nomatch h)
      | ok memoryObj => exact finish_releases _
    · rw [get_withoutMeta hodirect hmeta]
      unfold getWithoutMeta
      cases localAllocate junk c.metaShapes (c.metaDtypes.map some) c.metaFmt with
      | error e => exact fun _ h => (nomatch h)
      | ok memoryObj => exact finish_releases _

theorem supports_of_storesAndReads (h : c.StoresAndReads chunk) : c.Supports chunk := by
  have hodirect : c.useOdirect = false := by
    by_contra hodirect
    have hreleases := h.releases (fun _ => 0) none fun _ => none
    rw [getWithOdirect_missing (by simpa using hodirect)] at hreleases
    exact absurd (hreleases rfl rfl) (by decide)
  obtain ⟨file, r, hput, hget, hshapes, hdtypes, hfmt, -⟩ := h.roundTrip fun _ => 0
  unfold put at hput
  refine ⟨hodirect, fun hmeta => ?_, fun hmeta => ?_⟩
  · rw [if_pos hmeta] at hput
    rw [get_withMeta hmeta] at hget
    obtain ⟨header, hheader, hput⟩ := bind_eq_ok.mp hput
    cases hput
    exact ⟨RemoteMetadata.serialize_ok_iff.mp ⟨header, hheader⟩,
      fmt_of_getWithMeta hheader hget hdtypes⟩
  · -- what comes back has the shapes of a full chunk, so what was stored had them
    rw [get_withoutMeta hodirect (by simp [hmeta])] at hget
    obtain ⟨hshapes', hdtypes', hfmt', hahead⟩ := getWithoutMeta_result hget
    exact ⟨hshapes.symm.trans hshapes', hdtypes.symm.trans hdtypes', hfmt.symm.trans hfmt', hahead⟩

theorem storesAndReads_of_supports (h : c.Supports chunk) : c.StoresAndReads chunk := by
  refine ⟨fun junk => ?_, get_releases h.odirect⟩
  unfold put
  by_cases hmeta : c.saveChunkMeta = true
  · obtain ⟨hpacks, hfmt⟩ := h.withMeta hmeta
    obtain ⟨header, hheader⟩ := RemoteMetadata.serialize_ok_iff.mpr hpacks
    rw [if_pos hmeta]
    refine ⟨header ++ chunk.bytes, chunk.obj, bind_eq_ok.mpr ⟨header, hheader, rfl⟩, ?_, rfl, rfl,
      rfl, rfl, fun _ => rfl⟩
    rw [get_withMeta hmeta, getWithMeta_of_put hfmt hheader]
  · obtain ⟨hshapes, hdtypes, hfmt, hahead⟩ := h.withoutMeta (by simpa using hmeta)
    have hlength : chunk.bytes.length = c.fullChunkSize := by
      rw [chunk.size_eq, fullChunkSize, ← hshapes, ← hdtypes]
      rfl
    obtain ⟨full, hshapes', hdtypes', hfmt', hget⟩ := getWithoutMeta_of_full hahead hlength junk
    rw [← hshapes] at hshapes'
    rw [← hdtypes] at hdtypes'
    -- the groups begin where they did, so each is viewed as before
    have hsums : full.obj.groupPrefixSum = chunk.obj.groupPrefixSum := by
      show prefixSums (groupSizes full.obj.shapes full.obj.dtypes) =
        prefixSums (groupSizes chunk.obj.shapes chunk.obj.dtypes)
      rw [hshapes', hdtypes']
    rw [if_neg hmeta]
    refine ⟨chunk.bytes, { full.obj with rawData := chunk.bytes }, rfl, ?_, hshapes', hdtypes',
      hfmt'.trans hfmt.symm, rfl, FilledObj.getTensor_congr hshapes' hdtypes' hsums rfl⟩
    rw [get_withoutMeta h.odirect hmeta]
    exact congrArg ReadOutcome.result hget

/-- A connector without metadata, for chunks of two tokens and two groups of layers. -/
def plainConnector : FSRemoteConnector where
  numGroups := 2
  saveChunkMeta := false
  metaShapes := [[1, 1, 2, 1], [1, 1, 2, 2]]
  metaDtypes := [.uint8, .uint8]
  useMla := true
  chunkSize := 2
  readAheadSize := none
  useOdirect := false
  metaShapes_ne_nil := by decide
  length_eq := rfl
  chunkSize_pos := Nat.two_pos
  chunkSize_dvd := by decide
  odirect_excl := by decide

/-- One token of it. -/
def oneToken : StoredChunk where
  shape := [1, 1, 1, 1]
  shapes := [[1, 1, 1, 2]]
  dtype := .uint8
  dtypes := [.uint8]
  fmt := .KV_MLA_FMT
  bytes := [1, 2, 3]
  length_eq := rfl
  size_eq := rfl
  bytes_ne_nil := by decide

end FSRemoteConnector

end LMCache.Storage
