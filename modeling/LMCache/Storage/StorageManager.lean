/-
# LMCache.Storage.StorageManager — the storage backends as tiers, and blocking reads from them.

Source: `v1/storage_backend/storage_manager.py` (`get_active_storage_backends`, `get_block_mapping`,
`batched_get`) and the interface in `v1/storage_backend/abstract_backend.py`.

A storage backend is what its calls give: how many of a list of keys it holds, counted from the first
one on, and what a blocking read of a list of keys returns.  The two are independent, since a chunk
can go between the question and the read, and a read may raise.  A read that returns gives one entry
for each key: the default reads key by key, and `RemoteBackend` asserts it.
-/
import LMCache.TokenDatabase
import LMCache.Lib.Dict

namespace LMCache.Storage

open LMCache.Lib

/-! ## What a backend is to the manager -/

/-- A memory object a read hands out: which one it is, and its size in bytes. -/
structure MemoryObjRef where
  ident : Nat
  size : Nat
  deriving DecidableEq, Repr

structure StorageBackend where
  batchedContains : List CacheEngineKey → Nat
  batchedGetBlocking : List CacheEngineKey → Except PyError (List (Option MemoryObjRef))
  length_batchedGetBlocking : ∀ keys objs, batchedGetBlocking keys = .ok objs →
    objs.length = keys.length

namespace StorageBackend

/-- `StorageBackendInterface.batched_contains`: count the keys up to the first that is missing. -/
def countContained (contains : CacheEngineKey → Bool) : List CacheEngineKey → Nat
  | [] => 0
  | key :: keys => if contains key then countContained contains keys + 1 else 0

/-- `StorageBackendInterface.batched_get_blocking`: read key by key. -/
def getEach (getBlocking : CacheEngineKey → Except PyError (Option MemoryObjRef)) :
    List CacheEngineKey → Except PyError (List (Option MemoryObjRef))
  | [] => .ok []
  | key :: keys => do
    let obj ← getBlocking key
    let objs ← getEach getBlocking keys
    return obj :: objs

theorem length_getEach (getBlocking : CacheEngineKey → Except PyError (Option MemoryObjRef))
    (keys : List CacheEngineKey) (objs : List (Option MemoryObjRef))
    (h : getEach getBlocking keys = .ok objs) : objs.length = keys.length := by
  induction keys generalizing objs with
  | nil => cases h; rfl
  | cons key keys ih =>
    obtain ⟨obj, -, h⟩ := bind_eq_ok.mp h
    obtain ⟨rest, hrest, h⟩ := bind_eq_ok.mp h
    cases h
    exact congrArg (· + 1) (ih rest hrest)

/-- A backend with the calls of the interface, from `contains` and `get_blocking`. -/
def ofKeyed (contains : CacheEngineKey → Bool)
    (getBlocking : CacheEngineKey → Except PyError (Option MemoryObjRef)) : StorageBackend where
  batchedContains := countContained contains
  batchedGetBlocking := getEach getBlocking
  length_batchedGetBlocking := length_getEach getBlocking

end StorageBackend

/-! ## The manager -/

structure StorageManager where
  storageBackends : Dict String StorageBackend
  freeze : Bool
  bypassedBackends : List String

/-- What `batched_get` returns, and the keys and objects it has handed to
`LocalCPUBackend.batched_submit_put_task` on the way. -/
structure BatchedGet where
  objs : List (Option MemoryObjRef)
  writeBack : List (CacheEngineKey × MemoryObjRef)
  deriving DecidableEq, Repr

namespace StorageManager

/-- `get_active_storage_backends`.  An empty location and an empty range filter nothing. -/
def getActiveStorageBackends (sm : StorageManager) (location : Option String)
    (searchRange : Option (List String)) : List (String × StorageBackend) :=
  sm.storageBackends.entries.filter fun (name, _) =>
    !(sm.freeze && name != "LocalCPUBackend")
      && !sm.bypassedBackends.contains name
      && (location.getD "" == "" || name == location.getD "")
      && ((searchRange.getD []).isEmpty || (searchRange.getD []).contains name)

/-- The loop of `get_block_mapping` over the backends. -/
def getBlockMappingFrom (chunkInfos : List ChunkInfo) : List (String × StorageBackend) →
    List CacheEngineKey → Dict String (List ChunkInfo) → Nat → Dict String (List ChunkInfo)
  | [], _, mapping, _ => mapping
  | (name, backend) :: rest, keys, mapping, totalHitChunks =>
    let hitChunks := backend.batchedContains keys
    if hitChunks = 0 then getBlockMappingFrom chunkInfos rest keys mapping totalHitChunks
    else
      let mapping := mapping.set name ((chunkInfos.drop totalHitChunks).take hitChunks)
      let totalHitChunks := totalHitChunks + hitChunks
      if totalHitChunks = chunkInfos.length then mapping
      else getBlockMappingFrom chunkInfos rest (keys.drop hitChunks) mapping totalHitChunks

/-- `get_block_mapping`: the chunks each tier holds, by prefix match. -/
def getBlockMapping (sm : StorageManager) (chunkInfos : List ChunkInfo) :
    Dict String (List ChunkInfo) :=
  getBlockMappingFrom chunkInfos (sm.getActiveStorageBackends none none)
    (chunkInfos.map ChunkInfo.key) .empty 0

/-- The objects that `batched_get` writes back to the CPU cache: those of a complete read from
another backend. -/
def writeBackOf (sm : StorageManager) (name : String) (keys : List CacheEngineKey)
    (objs : List (Option MemoryObjRef)) : List (CacheEngineKey × MemoryObjRef) :=
  if name != "LocalCPUBackend" && name != "PDBackend" then
    if "LocalCPUBackend" ∈ sm.storageBackends ∧ none ∉ objs then keys.zip objs.reduceOption else []
  else []

/-- The loop of `batched_get` over the backends. -/
def batchedGetFrom (sm : StorageManager) (keys : List CacheEngineKey) :
    List (String × StorageBackend) → Except PyError BatchedGet
  | [] => .ok ⟨List.replicate keys.length none, []⟩
  | (name, backend) :: rest => do
    let objs ← backend.batchedGetBlocking keys
    if objs ≠ [] then return ⟨objs, sm.writeBackOf name keys objs⟩
    else batchedGetFrom sm keys rest

/-- `batched_get`. -/
def batchedGet (sm : StorageManager) (keys : List CacheEngineKey) (location : Option String) :
    Except PyError BatchedGet :=
  sm.batchedGetFrom keys (sm.getActiveStorageBackends location none)

/-! ## The blocks are the first chunks, in order -/

/-- The chunks of all tiers, in the order of the tiers. -/
def mapped (mapping : Dict String (List ChunkInfo)) : List ChunkInfo :=
  mapping.entries.flatMap Prod.snd

theorem mapped_getBlockMappingFrom (chunkInfos : List ChunkInfo)
    (active : List (String × StorageBackend)) (keys : List CacheEngineKey)
    (mapping : Dict String (List ChunkInfo)) (total : Nat)
    (hnodup : (active.map Prod.fst).Nodup) (hnew : ∀ b ∈ active, b.1 ∉ mapping)
    (htotal : mapped mapping = chunkInfos.take total) :
    mapped (getBlockMappingFrom chunkInfos active keys mapping total) <+: chunkInfos := by
  induction active generalizing keys mapping total with
  | nil =>
    show mapped mapping <+: chunkInfos
    rw [htotal]
    exact List.take_prefix _ _
  | cons b rest ih =>
    obtain ⟨name, backend⟩ := b
    rw [List.map_cons, List.nodup_cons] at hnodup
    rw [List.forall_mem_cons] at hnew
    unfold getBlockMappingFrom
    dsimp only
    split
    · exact ih keys mapping total hnodup.2 hnew.2 htotal
    · -- the slice of this tier starts where those of the tiers before it end
      have hnext : mapped (mapping.set name ((chunkInfos.drop total).take
          (backend.batchedContains keys))) =
          chunkInfos.take (total + backend.batchedContains keys) := by
        unfold mapped at htotal ⊢
        rw [Dict.entries_set_of_notMem hnew.1, List.flatMap_append, htotal, List.take_add]
        simp only [List.flatMap_cons, List.flatMap_nil, List.append_nil]
      split
      · rw [hnext]
        exact List.take_prefix _ _
      · refine ih _ _ _ hnodup.2 ?_ hnext
        intro b hb hmem
        rcases (Dict.mem_set _ _ _ _).mp hmem with rfl | hmem
        · exact hnodup.1 (List.mem_map.mpr ⟨b, hb, rfl⟩)
        · exact hnew.2 b hb hmem

theorem nodup_getActiveStorageBackends (sm : StorageManager) (location : Option String)
    (searchRange : Option (List String)) :
    ((sm.getActiveStorageBackends location searchRange).map Prod.fst).Nodup :=
  sm.storageBackends.nodup.sublist (List.filter_sublist.map _)

/-- **The blocks of `get_block_mapping`, tier after tier, are the first of the chunks.** -/
theorem mapped_getBlockMapping_prefix (sm : StorageManager) (chunkInfos : List ChunkInfo) :
    mapped (sm.getBlockMapping chunkInfos) <+: chunkInfos :=
  mapped_getBlockMappingFrom chunkInfos _ _ _ 0 (sm.nodup_getActiveStorageBackends none none)
    (fun _ _ h => Dict.not_mem_empty _ h) rfl

/-! ## A read gives one entry for each key -/

theorem length_batchedGetFrom {sm : StorageManager} {keys : List CacheEngineKey}
    {active : List (String × StorageBackend)} {r : BatchedGet}
    (h : sm.batchedGetFrom keys active = .ok r) : r.objs.length = keys.length := by
  induction active with
  | nil =>
    cases h
    exact List.length_replicate
  | cons b rest ih =>
    unfold batchedGetFrom at h
    obtain ⟨objs, hobjs, h⟩ := bind_eq_ok.mp h
    by_cases hne : objs ≠ []
    · rw [if_pos hne] at h
      cases h
      exact b.2.length_batchedGetBlocking keys objs hobjs
    · rw [if_neg hne] at h
      exact ih h

theorem length_batchedGet {sm : StorageManager} {keys : List CacheEngineKey}
    {location : Option String} {r : BatchedGet} (h : sm.batchedGet keys location = .ok r) :
    r.objs.length = keys.length :=
  length_batchedGetFrom h

end StorageManager

end LMCache.Storage
