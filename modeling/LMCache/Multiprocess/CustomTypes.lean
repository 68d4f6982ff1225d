/-
# LMCache.Multiprocess.CustomTypes — the keys of the multiprocess server.

Source: `v1/multiprocess/custom_types.py`.

A client names a chunk by an `IPCCacheEngineKey`, with its worker, or without one when the scheduler
asks for the chunk of all workers.  The storage manager stores one object a worker.
-/
import Mathlib.Data.List.Dedup
import LMCache.PyError

namespace LMCache.Multiprocess

/-! ## Keys -/

structure IPCCacheEngineKey where
  modelName : String
  worldSize : Int
  /-- `None` for the scheduler. -/
  workerId : Option Int
  chunkHash : List UInt8
  deriving DecidableEq, Repr

structure StorageKey where
  modelName : String
  worldSize : Int
  workerId : Int
  chunkHash : List UInt8
  deriving DecidableEq, Repr

namespace IPCCacheEngineKey

/-- `range(n)`. -/
def range (n : Int) : List Int := (List.range n.toNat).map Int.ofNat

/-- The storage keys of one client key: one a worker when it names none. -/
def storageKeys (k : IPCCacheEngineKey) : List StorageKey :=
  match k.workerId with
  | none => (range k.worldSize).map fun w => ⟨k.modelName, k.worldSize, w, k.chunkHash⟩
  | some w => [⟨k.modelName, k.worldSize, w, k.chunkHash⟩]

end IPCCacheEngineKey

/-- What a handler of the server raises. -/
inductive ServerError where
  /-- The `ValueError` of `ipc_keys_to_storage_keys`, with the world sizes it lists. -/
  | inconsistentWorldSize (worldSizes : List Int)
  | raised (e : PyError)
  deriving DecidableEq, Repr

/-- `ipc_keys_to_storage_keys`. -/
def ipcKeysToStorageKeys (ipcKeys : List IPCCacheEngineKey) :
    Except ServerError (List StorageKey) :=
  match ipcKeys with
  | [] => .ok []
  | first :: _ =>
    if ipcKeys.all fun k => k.worldSize = first.worldSize then
      .ok (ipcKeys.flatMap IPCCacheEngineKey.storageKeys)
    else .error (.inconsistentWorldSize (ipcKeys.map fun k => k.worldSize).dedup)

end LMCache.Multiprocess
