/-
# LMCache.CacheEngineKey — the keys of the storage backends.

`CacheEngineKey` names the KV data of one chunk, `LayerCacheEngineKey` that of one layer of it.  Two
keys are equal when they have the same type and the same fields; `request_configs` enters only
through the `tags` read from it.  The hash that is told to the controller is `chunk_hash` alone, so
all layers of a chunk, and the chunk under other tags or models, share it.
-/
import LMCache.Memory.MemoryObj

namespace LMCache

open LMCache.Memory

/-- `CacheEngineKey` (`layerId = none`) and `LayerCacheEngineKey` (`layerId = some _`). -/
structure CacheEngineKey where
  modelName : String
  worldSize : Int
  workerId : Int
  chunkHash : Int
  dtype : TorchDtype
  tags : Option (List (String × String))
  layerId : Option Int
  deriving DecidableEq, Repr

namespace CacheEngineKey

/-- The prefix of the request configurations that become tags. -/
def tagPrefix : String := "lmcache.tag."

/-- The tags that `__post_init__` reads from the request configurations: none, rather than an empty
list, when there are none. -/
def tagsOf (requestConfigs : Option (List (String × String))) : Option (List (String × String)) :=
  match (requestConfigs.getD []).filterMap fun (k, v) =>
      if tagPrefix.toList.isPrefixOf k.toList then
        some (String.ofList (k.toList.drop tagPrefix.length), v)
      else none with
  | [] => none
  | tags => some tags

/-- `CacheEngineKey(model_name, world_size, worker_id, chunk_hash, dtype, request_configs)`. -/
def ofRequest (modelName : String) (worldSize workerId : Int) (chunkHash : Int) (dtype : TorchDtype)
    (requestConfigs : Option (List (String × String))) : CacheEngineKey where
  modelName := modelName
  worldSize := worldSize
  workerId := workerId
  chunkHash := chunkHash
  dtype := dtype
  tags := tagsOf requestConfigs
  layerId := none

/-- `split_layers`: one key for each layer, whatever layer the key itself names. -/
def splitLayers (k : CacheEngineKey) (numLayers : Nat) : List CacheEngineKey :=
  (List.range numLayers).map fun layerId => { k with layerId := some layerId }

/-- `get_first_layer`. -/
def getFirstLayer (k : CacheEngineKey) : CacheEngineKey := { k with layerId := some 0 }

/-- The keys of the layers, one for each number below `n`. -/
theorem splitLayers_eq (k : CacheEngineKey) (n : Nat) :
    k.splitLayers n = (List.range n).map fun i : Nat => { k with layerId := some (i : Int) } := by
  have hcast : (do let a ← List.range n; pure (a : Int)) =
      (List.range n).map fun a : Nat => (a : Int) := List.flatMap_pure_eq_map _ _
  unfold splitLayers
  rw [hcast, List.map_map]
  rfl

theorem nodup_splitLayers (k : CacheEngineKey) (n : Nat) : (k.splitLayers n).Nodup := by
  rw [splitLayers_eq]
  refine List.Nodup.map ?_ List.nodup_range
  intro i j h
  have hlayer : some (i : Int) = some (j : Int) := congrArg CacheEngineKey.layerId h
  simpa using hlayer

end CacheEngineKey

end LMCache
