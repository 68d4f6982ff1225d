/-
# LMCache.Multiprocess.MPCacheEngine — lookups and retrieves of the multiprocess server.

Source: `v1/multiprocess/server.py`, `MPCacheEngine`.

The scheduler of an engine looks the chunks of a request up for all its workers at once, which locks
the shards it finds; then each worker retrieves its own shards of the chunks that were reported, and
a callback on its CUDA stream unlocks what the retrieve was called for.  A step is a locked section,
the part of a handler between two of them, or the unlock of one key in a callback; the sections of
`reserve`, `commit` and `clear` fall in between as they like.

What has become of a request is kept beside the engine, and no step of the engine reads it.
-/
import LMCache.Multiprocess.MPStorageManager

namespace LMCache.Multiprocess

open LMCache.Lib LMCache.Memory

/-! ## The handlers -/

structure MPCacheEngine where
  storageManager : MPStorageManager
  /-- The instances with a registered KV cache. -/
  gpuContexts : Finset Int

namespace MPCacheEngine

def registerKvCache (e : MPCacheEngine) (instanceId : Int) : MPCacheEngine :=
  { e with gpuContexts := insert instanceId e.gpuContexts }

def unregisterKvCache (e : MPCacheEngine) (instanceId : Int) : MPCacheEngine :=
  { e with gpuContexts := e.gpuContexts.erase instanceId }

/-- `lookup`: the answer, how many shards were found, and the engine afterwards.  Without `lock`
there is a warning and nothing else. -/
def lookup (e : MPCacheEngine) (ipcKeys : List IPCCacheEngineKey) (_lock : Option Bool)
    (clock : StorageKey → Rat) : Except ServerError (List Bool) × Nat × MPCacheEngine :=
  match ipcKeys with
  | [] => (.ok [], 0, e)
  | first :: _ =>
    if ¬ ipcKeys.all fun k => k.workerId = none then
      (.error (.raised (.assertionError "Must lookup with worker_id == None")), 0, e)
    else
      match ipcKeysToStorageKeys ipcKeys with
      | .error err => (.error err, 0, e)
      | .ok keys =>
        let r := e.storageManager.lookup clock keys
        let e := { e with storageManager := r.2 }
        if first.worldSize = 0 then
          (.error (.raised (.zeroDivisionError "integer division or modulo by zero")), r.1, e)
        else
          let foundCount := ((r.1 : Int).fdiv first.worldSize).toNat
          (.ok (List.replicate foundCount true ++
            List.replicate (ipcKeys.length - foundCount) false), r.1, e)

/-- The text of the second assertion of `retrieve`. -/
def notRegistered (instanceId : Int) : String :=
  s!"KV cache not registered for GPU ID {instanceId}"

/-- `retrieve`: the answer, the keys its callback will unlock, if it comes to launch one, and the
engine afterwards.  `slotMapping` is what is raised before the `try`, `loop` what is raised by the
transfers. -/
def retrieve (e : MPCacheEngine) (ipcKeys : List IPCCacheEngineKey) (instanceId : Int)
    (slotMapping loop : Option PyError) :
    Except ServerError (List Bool) × Option (List StorageKey) × MPCacheEngine :=
  if ¬ ipcKeys.all fun k => k.workerId ≠ none then
    (.error (.raised (.assertionError "Must retrieve with worker_id != None")), none, e)
  else
    match ipcKeysToStorageKeys ipcKeys with
    | .error err => (.error err, none, e)
    | .ok keys =>
      if instanceId ∉ e.gpuContexts then
        (.error (.raised (.assertionError (notRegistered instanceId))), none, e)
      else
        match slotMapping with
        | some err => (.error (.raised err), none, e)
        | none =>
          let r := e.storageManager.retrieve keys
          let e := { e with storageManager := r.2 }
          match r.1, loop with
          | .ok _, none => (.ok (List.replicate keys.length true), some keys, e)
          | _, _ => (.ok (List.replicate keys.length false), some keys, e)

end MPCacheEngine

/-! ## Requests -/

/-- What has become of the retrieve of one worker. -/
inductive RetrieveStage where
  | waiting
  /-- Its callback has unlocked the one list of keys, and is still to unlock the other. -/
  | running (unlocked remaining : List StorageKey)
  /-- It is over, and this is what was unlocked. -/
  | finished (unlocked : List StorageKey)
  deriving DecidableEq, Repr

/-- A request that was looked up. -/
structure Request where
  ipcKeys : List IPCCacheEngineKey
  answer : Except ServerError (List Bool)
  /-- The keys that the lookup locked. -/
  locked : List StorageKey
  /-- The keys that are locked on its behalf. -/
  held : List StorageKey
  /-- The keys whose lock expired before the request unlocked them. -/
  expired : List StorageKey
  /-- The keys that its callbacks unlocked when only others had locked them. -/
  stolen : List StorageKey
  /-- The retrieves, a worker each. -/
  retrieves : Int → RetrieveStage

namespace Request

/-- The chunks reported as hits. -/
def hits (r : Request) : List IPCCacheEngineKey :=
  match r.answer with
  | .error _ => []
  | .ok found => ((r.ipcKeys.zip found).filter Prod.snd).map Prod.fst

/-- The workers of the request. -/
def workers (r : Request) : List Int :=
  match r.ipcKeys with
  | [] => []
  | first :: _ => IPCCacheEngineKey.range first.worldSize

/-- The shards of the reported chunks, of all workers. -/
def shards (r : Request) : List StorageKey := r.hits.flatMap IPCCacheEngineKey.storageKeys

/-- The keys with which a worker retrieves the reported chunks. -/
def keysOf (r : Request) (worker : Int) : List IPCCacheEngineKey :=
  r.hits.map fun k => { k with workerId := some worker }

/-- The lock manager has dropped locks: what was locked on behalf of the request expired. -/
def expire (r : Request) (locks : LockManager StorageKey) : Request :=
  { r with
    held := r.held.filter fun key => key ∈ locks.locks
    expired := r.expired ++ r.held.filter fun key => key ∉ locks.locks }

/-- A callback has called `unlock` on a key that was locked, or not. -/
def unlock (r : Request) (worker : Int) (key : StorageKey) (unlocked remaining : List StorageKey)
    (wasLocked : Bool) : Request :=
  { r with
    held := r.held.erase key
    expired := if key ∈ r.held then r.expired else r.expired.erase key
    stolen := if key ∉ r.held ∧ wasLocked then r.stolen ++ [key] else r.stolen
    retrieves := Function.update r.retrieves worker (.running (unlocked ++ [key]) remaining) }

end Request

/-! ## The server and its requests -/

structure MPServer where
  engine : MPCacheEngine
  /-- The requests, in the order of their lookups. -/
  requests : List Request

/-- What happens next. -/
inductive ServerEvent where
  | registerKvCache (instanceId : Int)
  | unregisterKvCache (instanceId : Int)
  | lookup (ipcKeys : List IPCCacheEngineKey) (lock : Option Bool) (clock : StorageKey → Rat)
  /-- A worker of a request retrieves what was reported, unless it has done so. -/
  | retrieve (request : Nat) (worker instanceId : Int) (slotMapping loop : Option PyError)
  /-- The callback of a retrieve unlocks the next key, or is over. -/
  | onRetrieveFinished (request : Nat) (worker : Int)
  /-- A store draws a handle. -/
  | reserve (keys : List StorageKey) (shape : TorchSize) (dtype : TorchDtype) (fmt : KvFormat)
  /-- The next section of a `reserve`. -/
  | proceed (handle : Nat) (clock : Nat → StorageKey → Rat)
  | commit (handle : Nat)
  | clear
  | expand

namespace MPServer

def init (sizeInBytes : Nat) (disableLazyAlloc : Bool) : MPServer :=
  ⟨⟨.init sizeInBytes disableLazyAlloc, ∅⟩, []⟩

/-- The storage manager of the engine makes a step. -/
def withStorage (s : MPServer) (m : MPStorageManager) : MPServer :=
  { s with engine := { s.engine with storageManager := m } }

/-- A lookup, and its request. -/
def lookup (s : MPServer) (ipcKeys : List IPCCacheEngineKey) (lock : Option Bool)
    (clock : StorageKey → Rat) : MPServer :=
  let r := s.engine.lookup ipcKeys lock clock
  let locked := (ipcKeys.flatMap IPCCacheEngineKey.storageKeys).take r.2.1
  { engine := r.2.2
    requests := s.requests ++ [⟨ipcKeys, r.1, locked, locked, [], [], fun _ => .waiting⟩] }

/-- A retrieve of a worker: one that launches no callback is over. -/
def retrieve (s : MPServer) (request : Nat) (worker instanceId : Int)
    (slotMapping loop : Option PyError) : MPServer :=
  match s.requests[request]? with
  | none => s
  | some r =>
    if worker ∈ r.workers ∧ r.retrieves worker = .waiting then
      let a := s.engine.retrieve (r.keysOf worker) instanceId slotMapping loop
      let stage := match a.2.1 with
        | some keys => .running [] keys
        | none => .finished []
      { engine := a.2.2
        requests := s.requests.set request
          { r with retrieves := Function.update r.retrieves worker stage } }
    else s

/-- The next step of a callback. -/
def onRetrieveFinished (s : MPServer) (request : Nat) (worker : Int) : MPServer :=
  match s.requests[request]? with
  | none => s
  | some r =>
    match r.retrieves worker with
    | .running unlocked (key :: remaining) =>
      let wasLocked := key ∈ s.engine.storageManager.objLockManager.locks
      { s.withStorage (s.engine.storageManager.unlock key) with
        requests := s.requests.set request (r.unlock worker key unlocked remaining wasLocked) }
    | .running unlocked [] =>
      { s with
        requests := s.requests.set request
          { r with retrieves := Function.update r.retrieves worker (.finished unlocked) } }
    | _ => s

/-- A section of a `reserve`, in which locks may expire. -/
def proceed (s : MPServer) (handle : Nat) (clock : Nat → StorageKey → Rat) : MPServer :=
  let m := (s.engine.storageManager.proceed handle clock).2
  { s.withStorage m with requests := s.requests.map fun r => r.expire m.objLockManager }

def step (s : MPServer) : ServerEvent → MPServer
  | .registerKvCache instanceId => { s with engine := s.engine.registerKvCache instanceId }
  | .unregisterKvCache instanceId => { s with engine := s.engine.unregisterKvCache instanceId }
  | .lookup ipcKeys lock clock => s.lookup ipcKeys lock clock
  | .retrieve request worker instanceId slotMapping loop =>
    s.retrieve request worker instanceId slotMapping loop
  | .onRetrieveFinished request worker => s.onRetrieveFinished request worker
  | .reserve keys shape dtype fmt =>
    s.withStorage (s.engine.storageManager.reserve keys shape dtype fmt)
  | .proceed handle clock => s.proceed handle clock
  | .commit handle => s.withStorage (s.engine.storageManager.commit handle).2
  | .clear => s.withStorage s.engine.storageManager.clear
  | .expand => s.withStorage
    { s.engine.storageManager with
      memoryAllocator := s.engine.storageManager.memoryAllocator.expand }

end MPServer

end LMCache.Multiprocess
