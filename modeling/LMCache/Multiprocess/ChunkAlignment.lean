/-
# LMCache.Multiprocess.ChunkAlignment — keys, blocks and slots of a chunk, from the engine to the server.

Source: `integration/vllm/vllm_multi_process_adapter.py` and `store` and `retrieve` of
`v1/multiprocess/server.py`.

vLLM counts in blocks and the server in chunks of several blocks.  The adapters name a chunk by the
hash of its last block: the scheduler's strides over all the hashes of a request, the worker's over
those of each operation.  The worker sends the block ids of its operations behind one another, and the
server cuts the slots of those blocks into chunks by counting tokens.

A chunk of a request is what all three should mean by one index: `chunkHash` and `chunkSlots`.
-/
import LMCache.Lib.Stride
import LMCache.Multiprocess.MPCacheEngine

namespace LMCache.Multiprocess

open LMCache.Lib

/-! ## The adapters -/

/-- What the two adapters share: how their keys are made, and how many blocks a chunk has. -/
structure AdapterConfig where
  modelName : String
  worldSize : Int
  /-- `kv_rank`. -/
  workerId : Int
  blocksInChunk : Nat
  deriving DecidableEq, Repr

namespace AdapterConfig

/-- The two `__init__`s, with the chunk size that the server answers. -/
def new (chunkSize : Nat) (modelName : String) (worldSize kvRank : Int) (vllmBlockSize : Nat) :
    Except PyError AdapterConfig :=
  if vllmBlockSize = 0 then .error (.zeroDivisionError "integer modulo by zero")
  else if chunkSize % vllmBlockSize ≠ 0 then
    .error (.assertionError "LMCache chunk size should be a multiple of vLLM block size")
  else .ok ⟨modelName, worldSize, kvRank, chunkSize / vllmBlockSize⟩

/-- `_create_key`. -/
def createKey (a : AdapterConfig) (blockHash : List UInt8) : IPCCacheEngineKey :=
  ⟨a.modelName, a.worldSize, some a.workerId, blockHash⟩

end AdapterConfig

/-- `no_worker_id_version`. -/
def IPCCacheEngineKey.noWorkerIdVersion (k : IPCCacheEngineKey) : IPCCacheEngineKey :=
  { k with workerId := none }

/-- `striding_block_hashes`. -/
def stridingBlockHashes (blockHashes : List (List UInt8)) (blocksInChunk : Nat) :
    Except PyError (List (List UInt8)) :=
  if blocksInChunk = 0 then
    .error (.valueError
      "Indices for islice() must be None or an integer: 0 <= x <= sys.maxsize.")
  else .ok (islice (blocksInChunk - 1) blocksInChunk blockHashes)

structure LMCacheMPSchedulerAdapter where
  config : AdapterConfig
  /-- The requests in `lookup_futures`. -/
  lookupFutures : Finset String

namespace LMCacheMPSchedulerAdapter

/-- `maybe_submit_lookup_request`: the keys of the request that is sent, if one is. -/
def maybeSubmitLookupRequest (a : LMCacheMPSchedulerAdapter) (requestId : String)
    (blockHashes : List (List UInt8)) :
    Except PyError (Option (List IPCCacheEngineKey) × LMCacheMPSchedulerAdapter) :=
  if requestId ∈ a.lookupFutures then .ok (none, a)
  else do
    let s ← stridingBlockHashes blockHashes a.config.blocksInChunk
    .ok (some (s.map fun blockHash => (a.config.createKey blockHash).noWorkerIdVersion),
      { a with lookupFutures := insert requestId a.lookupFutures })

end LMCacheMPSchedulerAdapter

structure LoadStoreOp where
  blockHashes : List (List UInt8)
  blockIds : List Nat
  /-- The assertion of `__post_init__`. -/
  length_eq : blockHashes.length = blockIds.length

/-- The payload of a `STORE` or `RETRIEVE` request. -/
structure TransferRequest where
  keys : List IPCCacheEngineKey
  instanceId : Int
  blockIds : List Nat
  deriving DecidableEq, Repr

structure LMCacheMPWorkerAdapter where
  config : AdapterConfig
  instanceId : Int

namespace LMCacheMPWorkerAdapter

/-- `_block_hashes_to_keys`. -/
def blockHashesToKeys (a : LMCacheMPWorkerAdapter) (blockHashes : List (List UInt8)) :
    Except PyError (List IPCCacheEngineKey) := do
  let s ← stridingBlockHashes blockHashes a.config.blocksInChunk
  .ok (s.map a.config.createKey)

/-- What `batched_submit_store_requests` and `batched_submit_retrieve_requests` send. -/
def batchedSubmitRequests (a : LMCacheMPWorkerAdapter) (ops : List LoadStoreOp) :
    Except PyError TransferRequest := do
  let keys ← ops.mapM fun op => a.blockHashesToKeys op.blockHashes
  .ok ⟨keys.flatten, a.instanceId, ops.flatMap LoadStoreOp.blockIds⟩

end LMCacheMPWorkerAdapter

/-! ## The server -/

/-- What `GPUCacheContext` takes from the shape of the KV cache for its slots. -/
structure GPUCacheContext where
  numBlocks : Nat
  blockSize : Nat
  deriving DecidableEq, Repr

namespace GPUCacheContext

/-- `slot_mapping_tensor_`, a row a block. -/
def slotMappingRows (c : GPUCacheContext) : List (List Nat) :=
  (List.range c.numBlocks).map fun blockId =>
    (List.range c.blockSize).map fun offset => offset + blockId * c.blockSize

/-- `get_slot_mapping_tensor`. -/
def getSlotMappingTensor (c : GPUCacheContext) (gpuBlockIds : List Nat) :
    Except PyError (List Nat) := do
  let rows ← gpuBlockIds.mapM fun blockId =>
    match c.slotMappingRows[blockId]? with
    | some row => .ok row
    | none => .error (.indexError
        s!"index {blockId} is out of bounds for dimension 0 with size {c.numBlocks}")
  .ok rows.flatten

end GPUCacheContext

/-- A copy between the object of a chunk and slots of the GPU. -/
structure Transfer where
  key : StorageKey
  memoryObj : Nat
  slotMapping : List Nat
  deriving DecidableEq, Repr

/-- The checks at the start of `store` and `retrieve`, and the slots: the keys, and the slots of the
blocks. -/
def keysAndSlots (message : String) (gpuContexts : Dict Int GPUCacheContext)
    (request : TransferRequest) : Except ServerError (List StorageKey × List Nat) :=
  if ¬ request.keys.all fun k => k.workerId ≠ none then .error (.raised (.assertionError message))
  else
    match ipcKeysToStorageKeys request.keys with
    | .error err => .error err
    | .ok keys =>
      match gpuContexts.get? request.instanceId with
      | none =>
        .error (.raised (.assertionError (MPCacheEngine.notRegistered request.instanceId)))
      | some context =>
        match context.getSlotMappingTensor request.blockIds with
        | .error err => .error (.raised err)
        | .ok slots => .ok (keys, slots)

/-- `store`: the copies it makes, given what `reserve` returns.  A key that is not reserved is
skipped. -/
def storeTransfers (chunkSize : Nat) (gpuContexts : Dict Int GPUCacheContext)
    (request : TransferRequest) (reserve : List StorageKey → Except ServerError (Dict StorageKey Nat)) :
    Except ServerError (List Transfer) := do
  let r ← keysAndSlots "Must store with worker_id != None" gpuContexts request
  let reserved ← reserve r.1
  .ok (r.1.zipIdx.filterMap fun e =>
    (reserved.get? e.1).map fun memoryObj =>
      ⟨e.1, memoryObj, slice r.2 (e.2 * chunkSize) (e.2 * chunkSize + chunkSize)⟩)

/-- `retrieve`: the copies it makes.  When an object is missing there are none. -/
def retrieveTransfers (chunkSize : Nat) (gpuContexts : Dict Int GPUCacheContext)
    (request : TransferRequest) (storageManager : MPStorageManager) :
    Except ServerError (List Transfer) := do
  let r ← keysAndSlots "Must retrieve with worker_id != None" gpuContexts request
  match (storageManager.retrieve r.1).1 with
  | .error _ => .ok []
  | .ok memoryObjs =>
    .ok ((r.1.zip memoryObjs).zipIdx.map fun e =>
      ⟨e.1.1, e.1.2, slice r.2 (e.2 * chunkSize) (e.2 * chunkSize + chunkSize)⟩)

/-! ## Chunks of a request -/

/-- An engine with its server: one model, one block size, and whole blocks in a chunk. -/
structure Deployment where
  modelName : String
  worldSize : Int
  chunkSize : Nat
  blockSize : Nat
  numBlocks : Nat
  chunkSize_pos : 0 < chunkSize
  blockSize_pos : 0 < blockSize
  /-- The assertion of the adapters' `__init__`. -/
  aligned : chunkSize % blockSize = 0

namespace Deployment

variable (d : Deployment)

def blocksInChunk : Nat := d.chunkSize / d.blockSize

/-- What is registered of the KV cache. -/
def context : GPUCacheContext := ⟨d.numBlocks, d.blockSize⟩

/-- The adapters' configuration of a rank. -/
def config (rank : Int) : AdapterConfig := ⟨d.modelName, d.worldSize, rank, d.blocksInChunk⟩

/-- A request: the hashes of its full blocks, and blocks of the KV cache. -/
structure PagedRequest where
  blockHashes : List (List UInt8)
  blockIds : List Nat
  blockIds_lt : ∀ blockId ∈ blockIds, blockId < d.numBlocks

variable {d}

namespace PagedRequest

/-- The hash that names a chunk: that of its last block. -/
def chunkHash (r : d.PagedRequest) (chunk : Nat) : List UInt8 :=
  r.blockHashes.getD ((chunk + 1) * d.blocksInChunk - 1) []

/-- The token slots of a chunk's own blocks. -/
def chunkSlots (r : d.PagedRequest) (chunk : Nat) : List Nat :=
  (slice r.blockIds (chunk * d.blocksInChunk) ((chunk + 1) * d.blocksInChunk)).flatMap fun blockId =>
    (List.range d.blockSize).map fun offset => offset + blockId * d.blockSize

/-- The number of whole chunks that have hashes. -/
def numChunks (r : d.PagedRequest) : Nat := r.blockHashes.length / d.blocksInChunk

/-- The keys that its chunks are looked up by. -/
def lookupKeys (r : d.PagedRequest) : List IPCCacheEngineKey :=
  (List.range r.numChunks).map fun chunk => ⟨d.modelName, d.worldSize, none, r.chunkHash chunk⟩

/-- The object of a chunk of the request, of one worker. -/
def storageKey (r : d.PagedRequest) (rank : Int) (chunk : Nat) : StorageKey :=
  ⟨d.modelName, d.worldSize, rank, r.chunkHash chunk⟩

end PagedRequest

variable (d) in
/-- A stretch of whole chunks of a request. -/
structure ChunkRange where
  request : d.PagedRequest
  first : Nat
  last : Nat
  hashes_le : last * d.blocksInChunk ≤ request.blockHashes.length
  ids_le : last * d.blocksInChunk ≤ request.blockIds.length

namespace ChunkRange

/-- Its chunks. -/
def chunks (g : d.ChunkRange) : List Nat := List.range' g.first (g.last - g.first)

/-- The operation for it. -/
def op (g : d.ChunkRange) : LoadStoreOp where
  blockHashes :=
    slice g.request.blockHashes (g.first * d.blocksInChunk) (g.last * d.blocksInChunk)
  blockIds := slice g.request.blockIds (g.first * d.blocksInChunk) (g.last * d.blocksInChunk)
  length_eq := by rw [length_slice_of_le g.hashes_le, length_slice_of_le g.ids_le]

/-- The keys of its chunks with their slots. -/
def pairs (rank : Int) (g : d.ChunkRange) : List (StorageKey × List Nat) :=
  g.chunks.map fun chunk => (g.request.storageKey rank chunk, g.request.chunkSlots chunk)

end ChunkRange

/-! ## What the adapters send -/

variable (d)

theorem blocksInChunk_mul : d.blocksInChunk * d.blockSize = d.chunkSize :=
  Nat.div_mul_cancel (Nat.dvd_of_mod_eq_zero d.aligned)

theorem blocksInChunk_pos : 0 < d.blocksInChunk :=
  Nat.div_pos (Nat.le_of_dvd d.chunkSize_pos (Nat.dvd_of_mod_eq_zero d.aligned)) d.blockSize_pos

theorem new_eq_config (rank : Int) :
    AdapterConfig.new d.chunkSize d.modelName d.worldSize rank d.blockSize = .ok (d.config rank) := by
  unfold AdapterConfig.new
  rw [if_neg (Nat.pos_iff_ne_zero.mp d.blockSize_pos), if_neg (not_not.mpr d.aligned)]
  rfl

theorem stridingBlockHashes_eq (blockHashes : List (List UInt8)) :
    stridingBlockHashes blockHashes d.blocksInChunk =
      .ok (islice (d.blocksInChunk - 1) d.blocksInChunk blockHashes) :=
  if_neg (Nat.pos_iff_ne_zero.mp d.blocksInChunk_pos)

variable {d}

/-- An operation on whole chunks is named by the hashes of these chunks. -/
theorem blockHashesToKeys_op (rank instanceId : Int) (g : d.ChunkRange) :
    LMCacheMPWorkerAdapter.blockHashesToKeys ⟨d.config rank, instanceId⟩ g.op.blockHashes =
      .ok (g.chunks.map fun chunk => (d.config rank).createKey (g.request.chunkHash chunk)) := by
  have hstride : stridingBlockHashes g.op.blockHashes (d.config rank).blocksInChunk =
      .ok (g.chunks.map g.request.chunkHash) := by
    show stridingBlockHashes g.op.blockHashes d.blocksInChunk = _
    rw [stridingBlockHashes_eq]
    exact congrArg Except.ok (islice_slice d.blocksInChunk_pos [] _ g.hashes_le)
  unfold LMCacheMPWorkerAdapter.blockHashesToKeys
  rw [hstride]
  exact congrArg Except.ok List.map_map

/-- The request of a batched call. -/
def sent (rank instanceId : Int) (ranges : List d.ChunkRange) : TransferRequest where
  keys := ranges.flatMap fun g => g.chunks.map fun chunk =>
    (d.config rank).createKey (g.request.chunkHash chunk)
  instanceId := instanceId
  blockIds := ranges.flatMap fun g => g.op.blockIds

theorem batchedSubmitRequests_eq (rank instanceId : Int) (ranges : List d.ChunkRange) :
    LMCacheMPWorkerAdapter.batchedSubmitRequests ⟨d.config rank, instanceId⟩
      (ranges.map ChunkRange.op) = .ok (sent rank instanceId ranges) := by
  have hkeys : (ranges.map ChunkRange.op).mapM (fun op =>
      LMCacheMPWorkerAdapter.blockHashesToKeys ⟨d.config rank, instanceId⟩ op.blockHashes) =
        .ok (ranges.map fun g => g.chunks.map fun chunk =>
          (d.config rank).createKey (g.request.chunkHash chunk)) := by
    rw [mapM_eq_ok_iff, List.map_map, List.map_map]
    exact List.map_congr_left fun g _ => blockHashesToKeys_op rank instanceId g
  unfold LMCacheMPWorkerAdapter.batchedSubmitRequests
  rw [hkeys]
  show Except.ok _ = Except.ok _
  rw [List.flatMap_map, ← List.flatMap_def]
  rfl

/-- A lookup names the chunks by the same hashes. -/
theorem maybeSubmitLookupRequest_eq (a : LMCacheMPSchedulerAdapter) (rank : Int)
    (hconfig : a.config = d.config rank) (requestId : String) (r : d.PagedRequest) :
    a.maybeSubmitLookupRequest requestId r.blockHashes =
      .ok (if requestId ∈ a.lookupFutures then (none, a)
        else (some r.lookupKeys,
          { a with lookupFutures := insert requestId a.lookupFutures })) := by
  unfold LMCacheMPSchedulerAdapter.maybeSubmitLookupRequest
  split
  · rfl
  · have hblocks : a.config.blocksInChunk = d.blocksInChunk := by rw [hconfig]; rfl
    rw [hblocks, stridingBlockHashes_eq, islice_eq_map_range d.blocksInChunk_pos []]
    show Except.ok (some _, _) = Except.ok (some _, _)
    rw [List.map_map, hconfig]
    rfl

/-! ## What the server pairs -/

/-- The slots of one block. -/
def blockSlots (d : Deployment) (blockId : Nat) : List Nat :=
  (List.range d.blockSize).map fun offset => offset + blockId * d.blockSize

theorem length_blockSlots (blockId : Nat) : (d.blockSlots blockId).length = d.blockSize := by
  unfold blockSlots
  rw [List.length_map, List.length_range]

theorem getSlotMappingTensor_eq {blockIds : List Nat} (h : ∀ blockId ∈ blockIds, blockId < d.numBlocks) :
    d.context.getSlotMappingTensor blockIds = .ok (blockIds.flatMap d.blockSlots) := by
  unfold GPUCacheContext.getSlotMappingTensor
  refine bind_eq_ok.mpr ⟨blockIds.map d.blockSlots, ?_, by rw [List.flatMap_def]⟩
  rw [mapM_eq_ok_iff, List.map_map]
  apply List.map_congr_left
  intro blockId hmem
  have hrow : d.context.slotMappingRows[blockId]? = some (d.blockSlots blockId) := by
    have hrange : (List.range d.context.numBlocks)[blockId]? = some blockId :=
      List.getElem?_range (h blockId hmem)
    unfold GPUCacheContext.slotMappingRows
    rw [List.getElem?_map, hrange]
    rfl
  show (match d.context.slotMappingRows[blockId]? with
    | some row => Except.ok row
    | none => _) = _
  rw [hrow]
  rfl

/-- Keys of one world size are converted one by one. -/
theorem ipcKeysToStorageKeys_eq {ipcKeys : List IPCCacheEngineKey} {worldSize : Int}
    (h : ∀ k ∈ ipcKeys, k.worldSize = worldSize) :
    ipcKeysToStorageKeys ipcKeys = .ok (ipcKeys.flatMap IPCCacheEngineKey.storageKeys) := by
  cases ipcKeys with
  | nil => rfl
  | cons first rest =>
    refine if_pos (List.all_eq_true.mpr fun k hk => decide_eq_true ?_)
    rw [h k hk, h first List.mem_cons_self]

theorem blockId_lt_of_mem_op {g : d.ChunkRange} {blockId : Nat} (h : blockId ∈ g.op.blockIds) :
    blockId < d.numBlocks :=
  g.request.blockIds_lt blockId (List.mem_of_mem_take (List.mem_of_mem_drop h))

/-- The keys of the chunks of some ranges, and the slots of their blocks. -/
def keysOf (rank : Int) (ranges : List d.ChunkRange) : List StorageKey :=
  ranges.flatMap fun g => g.chunks.map (g.request.storageKey rank)

theorem keysAndSlots_sent (message : String) (gpuContexts : Dict Int GPUCacheContext)
    (rank instanceId : Int) (ranges : List d.ChunkRange) :
    keysAndSlots message (gpuContexts.set instanceId d.context) (sent rank instanceId ranges) =
      .ok (keysOf rank ranges, (ranges.flatMap fun g => g.op.blockIds).flatMap d.blockSlots) := by
  have hmem {k : IPCCacheEngineKey} (hk : k ∈ (sent rank instanceId ranges).keys) :
      k.workerId = some rank ∧ k.worldSize = d.worldSize := by
    obtain ⟨g, -, hk⟩ := List.mem_flatMap.mp hk
    obtain ⟨chunk, -, rfl⟩ := List.mem_map.mp hk
    exact ⟨rfl, rfl⟩
  have hnamed : (sent rank instanceId ranges).keys.all fun k => k.workerId ≠ none := by
    rw [List.all_eq_true]
    intro k hk
    rw [(hmem hk).1]
    rfl
  have hkeys : ipcKeysToStorageKeys (sent rank instanceId ranges).keys = .ok (keysOf rank ranges) := by
    rw [ipcKeysToStorageKeys_eq fun k hk => (hmem hk).2]
    unfold sent keysOf
    rw [List.flatMap_assoc]
    congr 2
    funext g
    rw [List.flatMap_map]
    -- a key that names its worker is converted to one key
    exact List.map_eq_flatMap.symm
  have hslots : d.context.getSlotMappingTensor (sent rank instanceId ranges).blockIds =
      .ok ((ranges.flatMap fun g => g.op.blockIds).flatMap d.blockSlots) := by
    apply getSlotMappingTensor_eq
    intro blockId hblock
    obtain ⟨g, -, hblock⟩ := List.mem_flatMap.mp hblock
    exact blockId_lt_of_mem_op hblock
  unfold keysAndSlots
  rw [if_neg (not_not.mpr hnamed), hkeys]
  dsimp only
  rw [show (sent rank instanceId ranges).instanceId = instanceId from rfl, Dict.get?_set, if_pos rfl]
  dsimp only
  rw [hslots]

/-- **The server deals each chunk its own slots.** -/
theorem deal_sent (rank : Int) (ranges : List d.ChunkRange) :
    deal d.chunkSize (keysOf rank ranges)
        ((ranges.flatMap fun g => g.op.blockIds).flatMap d.blockSlots) =
      ranges.flatMap (ChunkRange.pairs rank) := by
  rw [← d.blocksInChunk_mul, deal_flatMap_width length_blockSlots]
  induction ranges with
  | nil => rfl
  | cons g ranges ih =>
    have hlength : g.op.blockIds.length =
        (g.chunks.map (g.request.storageKey rank)).length * d.blocksInChunk := by
      show (slice _ _ _).length = _
      rw [length_slice_of_le g.ids_le, List.length_map, ← Nat.sub_mul]
      unfold ChunkRange.chunks
      rw [List.length_range']
    have hone : deal d.blocksInChunk (g.chunks.map (g.request.storageKey rank)) g.op.blockIds =
        g.chunks.map fun chunk => (g.request.storageKey rank chunk,
          slice g.request.blockIds (chunk * d.blocksInChunk) ((chunk + 1) * d.blocksInChunk)) := by
      show deal _ _ (slice _ _ _) = _
      rw [slice, List.drop_take, deal_take]
      · exact deal_map_range' _ _ _ _ _
      · unfold ChunkRange.chunks
        rw [List.length_map, List.length_range', Nat.sub_mul]
    unfold keysOf at ih ⊢
    rw [List.flatMap_cons, List.flatMap_cons, List.flatMap_cons, deal_append hlength,
      List.map_append, ih, hone, List.map_map]
    rfl

variable (gpuContexts : Dict Int GPUCacheContext)

/-- What `store` copies for a batched call. -/
theorem storeTransfers_sent (rank instanceId : Int) (ranges : List d.ChunkRange)
    (reserve : List StorageKey → Except ServerError (Dict StorageKey Nat)) :
    storeTransfers d.chunkSize (gpuContexts.set instanceId d.context) (sent rank instanceId ranges)
        reserve =
      (reserve (keysOf rank ranges)).map fun reserved =>
        (ranges.flatMap (ChunkRange.pairs rank)).filterMap fun e =>
          (reserved.get? e.1).map fun memoryObj => ⟨e.1, memoryObj, e.2⟩ := by
  unfold storeTransfers
  rw [keysAndSlots_sent, ← deal_sent, deal_eq_zipIdx]
  show (reserve (keysOf rank ranges) >>= _) = _
  cases reserve (keysOf rank ranges) with
  | error e => rfl
  | ok reserved =>
    refine congrArg Except.ok ?_
    dsimp only
    rw [List.filterMap_map]
    rfl

/-- The objects that are retrieved are those of the keys. -/
theorem get?_of_touchAndGetObjects {keys : List StorageKey} {d : Dict StorageKey Nat}
    {objs : List Nat} (h : (MPStorageManager.touchAndGetObjects keys d).1 = .ok objs) :
    keys.map d.get? = objs.map some := by
  induction keys generalizing d objs with
  | nil =>
    cases h
    rfl
  | cons key keys ih =>
    unfold MPStorageManager.touchAndGetObjects at h
    cases hget : d.get? key with
    | none =>
      rw [hget] at h
      cases h
    | some obj =>
      rw [hget] at h
      change (MPStorageManager.touchAndGetObjects keys (d.moveToEnd key)).1.map
        (fun objs => obj :: objs) = .ok objs at h
      cases hrest : (MPStorageManager.touchAndGetObjects keys (d.moveToEnd key)).1 with
      | error e =>
        rw [hrest] at h
        cases h
      | ok rest =>
        rw [hrest] at h
        cases h
        have hsame : keys.map (d.moveToEnd key).get? = rest.map some := ih hrest
        have hmoved : (d.moveToEnd key).get? = d.get? := funext (Dict.get?_moveToEnd d key)
        rw [List.map_cons, List.map_cons, hget, ← hsame, hmoved]

/-- What `retrieve` copies for a batched call. -/
theorem retrieveTransfers_sent (rank instanceId : Int) (ranges : List d.ChunkRange)
    (storageManager : MPStorageManager) :
    retrieveTransfers d.chunkSize (gpuContexts.set instanceId d.context)
        (sent rank instanceId ranges) storageManager =
      match (storageManager.retrieve (keysOf rank ranges)).1 with
      | .error _ => .ok []
      | .ok memoryObjs => .ok (((ranges.flatMap (ChunkRange.pairs rank)).zip memoryObjs).map fun e =>
          ⟨e.1.1, e.2, e.1.2⟩) := by
  unfold retrieveTransfers
  rw [keysAndSlots_sent, ← deal_sent, deal_eq_zipIdx]
  show (match (storageManager.retrieve (keysOf rank ranges)).1 with
    | .error _ => Except.ok []
    | .ok memoryObjs => _) = _
  cases (storageManager.retrieve (keysOf rank ranges)).1 with
  | error e => rfl
  | ok memoryObjs =>
    show Except.ok _ = Except.ok _
    congr 1
    apply List.ext_getElem
    · simp
    · intro i hi hi'
      simp

/-! ## What a lookup is expanded to -/

/-- The storage keys of the chunks of a request: for each chunk one a worker. -/
theorem ipcKeysToStorageKeys_lookupKeys (r : d.PagedRequest) :
    ipcKeysToStorageKeys r.lookupKeys =
      .ok ((List.range r.numChunks).flatMap fun chunk =>
        (IPCCacheEngineKey.range d.worldSize).map fun rank => r.storageKey rank chunk) := by
  have hsize : ∀ k ∈ r.lookupKeys, k.worldSize = d.worldSize := by
    intro k hk
    obtain ⟨chunk, -, rfl⟩ := List.mem_map.mp hk
    rfl
  rw [ipcKeysToStorageKeys_eq hsize]
  unfold PagedRequest.lookupKeys
  rw [List.flatMap_map]
  rfl

/-- The keys of one worker among those of all. -/
theorem filter_storageKeys (r : d.PagedRequest) {rank : Int}
    (hrank : rank ∈ IPCCacheEngineKey.range d.worldSize) (chunks : List Nat) :
    ((chunks.flatMap fun chunk =>
        (IPCCacheEngineKey.range d.worldSize).map fun rank => r.storageKey rank chunk).filter
          fun k => k.workerId = rank) = chunks.map (r.storageKey rank) := by
  have hnodup : (IPCCacheEngineKey.range d.worldSize).Nodup :=
    List.nodup_range.map Int.ofNat_injective
  induction chunks with
  | nil => rfl
  | cons chunk chunks ih =>
    rw [List.flatMap_cons, List.filter_append, ih, List.map_cons, List.filter_map]
    have hone : (IPCCacheEngineKey.range d.worldSize).filter
        ((fun k : StorageKey => decide (k.workerId = rank)) ∘ fun rank => r.storageKey rank chunk) =
          [rank] := by
      show (IPCCacheEngineKey.range d.worldSize).filter (fun w => decide (w = rank)) = [rank]
      rw [List.filter_eq, List.count_eq_one_of_mem hnodup hrank]
      rfl
    rw [hone]
    rfl

/-- Without the worker the keys of a range are those that its chunks are looked up by. -/
theorem noWorkerIdVersion_sent (rank instanceId : Int) (ranges : List d.ChunkRange) :
    (sent rank instanceId ranges).keys.map IPCCacheEngineKey.noWorkerIdVersion =
      ranges.flatMap fun g => slice g.request.lookupKeys g.first g.last := by
  show (ranges.flatMap _).map _ = _
  rw [List.map_flatMap]
  congr 1
  funext g
  have hle : g.last ≤ g.request.numChunks :=
    (Nat.le_div_iff_mul_le d.blocksInChunk_pos).mpr g.hashes_le
  have hslice : slice (List.range g.request.numChunks) g.first g.last = g.chunks := by
    rw [slice, List.take_range, Nat.min_eq_left hle, List.range_eq_range', List.drop_range',
      Nat.mul_one, Nat.zero_add]
    rfl
  unfold PagedRequest.lookupKeys
  rw [slice, ← List.map_take, ← List.map_drop, ← slice, hslice, List.map_map]
  rfl

end Deployment

end LMCache.Multiprocess
