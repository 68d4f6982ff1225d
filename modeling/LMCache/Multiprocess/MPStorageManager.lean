/-
# LMCache.Multiprocess.MPStorageManager — the storage manager of the multiprocess server.

Source: `v1/multiprocess/mp_storage_manager.py`.

`reserve` marks the keys that nobody has, one locked section a key, then takes memory for them under
the allocator lock, evicting when there is none, and puts what it took into a pool under its handle;
`commit` moves a pool over to the committed objects.  Every other method is one locked section.  A
step of the machine is such a section, so that the sections of any number of calls interleave: the
calls of `reserve` that are under way are part of the state, by their handles.

`is_locked` reads the clock at each call, so an eviction comes with a reading a round and key.  The
locks have a mutex of their own and an unlock may fall into an eviction; as it concerns one key,
that is the same as an unlock before it or after it.  The times the policy keeps for its statistics
are left out, as is `on_chunk_reuse`.  What is stored is KV data: its formats live in the pinned
buffer, where the two allocators make the same calls.
-/
import LMCache.Lib.Dict
import LMCache.Lib.Run
import LMCache.Memory.LazyAllocator
import LMCache.Memory.MixedAllocator
import LMCache.Multiprocess.CustomTypes

namespace LMCache.Multiprocess

open LMCache.Lib LMCache.Memory

/-! ## Locks -/

structure LockMetadata where
  count : Int
  expireTime : Rat
  deriving DecidableEq, Repr

/-- `LockManager`. -/
structure LockManager (κ : Type) where
  locks : Dict κ LockMetadata

namespace LockManager

variable {κ : Type} [DecidableEq κ]

/-- 5 minutes. -/
def DEFAULT_TTL : Rat := 300

def empty : LockManager κ := ⟨.empty⟩

/-- `lock`, at `time.time()`. -/
def lock (m : LockManager κ) (key : κ) (currTime : Rat) : LockManager κ :=
  match m.locks.get? key with
  | some lockMeta => ⟨m.locks.set key ⟨lockMeta.count + 1, currTime + DEFAULT_TTL⟩⟩
  | none => ⟨m.locks.set key ⟨1, currTime + DEFAULT_TTL⟩⟩

/-- `unlock`: nothing happens to a key that is not locked. -/
def unlock (m : LockManager κ) (key : κ) : LockManager κ :=
  match m.locks.get? key with
  | some lockMeta =>
    if lockMeta.count - 1 ≤ 0 then ⟨m.locks.erase key⟩
    else ⟨m.locks.set key { lockMeta with count := lockMeta.count - 1 }⟩
  | none => m

/-- `is_locked`, at `time.time()`: a lock that has expired is deleted. -/
def isLocked (m : LockManager κ) (key : κ) (currTime : Rat) : Bool × LockManager κ :=
  match m.locks.get? key with
  | some lockMeta =>
    if lockMeta.expireTime < currTime then (false, ⟨m.locks.erase key⟩) else (true, m)
  | none => (false, m)

end LockManager

namespace LRUCachePolicyWithLock

/-- The loop of `get_evict_candidates`; `clock` is what `is_locked` reads. -/
def candidatesFrom (canEvict : Nat → Bool) (clock : StorageKey → Rat) (numCandidates : Nat) :
    List (StorageKey × Nat) → LockManager StorageKey → List StorageKey →
      List StorageKey × LockManager StorageKey
  | [], locks, evictKeys => (evictKeys, locks)
  | (key, cache) :: items, locks, evictKeys =>
    match locks.isLocked key (clock key) with
    | (true, locks) => candidatesFrom canEvict clock numCandidates items locks evictKeys
    | (false, locks) =>
      if !canEvict cache then candidatesFrom canEvict clock numCandidates items locks evictKeys
      else if (evictKeys ++ [key]).length = numCandidates then (evictKeys ++ [key], locks)
      else candidatesFrom canEvict clock numCandidates items locks (evictKeys ++ [key])

end LRUCachePolicyWithLock

/-! ## The manager -/

/-- What the methods raise. -/
inductive MPError where
  | memoryExhausted (message : String)
  | keyError (key : StorageKey)
  | notImplemented
  | other (e : PyError)
  deriving DecidableEq, Repr

/-- Where a call of `reserve` is. -/
inductive Stage where
  /-- In the loop over the keys: those not yet looked at. -/
  | marking (todo : List StorageKey)
  /-- Memory was asked for in vain. -/
  | evicting
  /-- Before `_confirm_reserve_objects` has its lock. -/
  | confirming (objects : List Nat)
  deriving DecidableEq, Repr

/-- The formats of KV data. -/
abbrev KvFormat : Type := { fmt : MemoryFormat // fmt ∈ MixedMemoryAllocator.pinFormats }

theorem kv2ltd_mem_pinFormats : MemoryFormat.KV_2LTD ∈ MixedMemoryAllocator.pinFormats :=
  List.mem_cons_self

/-- A call of `reserve` under way. -/
structure Reserve where
  shape : TorchSize
  dtype : TorchDtype
  fmt : KvFormat
  /-- The keys looked at so far, with `ret_mask`. -/
  mask : List (StorageKey × Bool)
  stage : Stage
  deriving DecidableEq, Repr

namespace Reserve

/-- `compress(keys, ret_mask)`. -/
def marked (r : Reserve) : List StorageKey := (r.mask.filter Prod.snd).map Prod.fst

/-- `num_objects_to_allocate`, once the loop is over. -/
def numObjectsToAllocate (r : Reserve) : Nat := r.marked.length

/-- A key has been looked at. -/
def look (r : Reserve) (key : StorageKey) (marks : Bool) (todo : List StorageKey) : Reserve :=
  { r with mask := r.mask ++ [(key, marks)], stage := .marking todo }

end Reserve

structure MPStorageManager where
  objLockManager : LockManager StorageKey
  memoryAllocator : LazyMemoryAllocator
  reservedMemoryObjectPools : Dict Nat (Dict StorageKey Nat)
  reservedKeys : Finset StorageKey
  reserveHandle : Nat
  commitedMemoryObjects : Dict StorageKey Nat
  /-- The calls of `reserve` under way, by the handles they have drawn. -/
  reserving : Dict Nat Reserve

namespace MPStorageManager

/-- `MPStorageManager(cpu_buffer_size, disable_lazy_alloc)`, the size in bytes. -/
def init (sizeInBytes : Nat) (disableLazyAlloc : Bool) : MPStorageManager where
  objLockManager := .empty
  memoryAllocator :=
    if disableLazyAlloc then .whole sizeInBytes
    else .init (min (20 * 2 ^ 30) sizeInBytes) sizeInBytes
  reservedMemoryObjectPools := .empty
  reservedKeys := ∅
  reserveHandle := 0
  commitedMemoryObjects := .empty
  reserving := .empty

/-- `_has_key`. -/
def hasKey (s : MPStorageManager) (key : StorageKey) : Bool :=
  key ∈ s.reservedKeys ∨ key ∈ s.commitedMemoryObjects

/-! ### `reserve` -/

/-- The text of the `MemoryExhaustedError`. -/
def exhaustedMessage (numObjects : Nat) : String :=
  s!"Memory allocation for {numObjects} objects failed due to insufficient memory."

/-- The first section of `reserve`: a handle is drawn. -/
def reserve (s : MPStorageManager) (keys : List StorageKey) (shape : TorchSize) (dtype : TorchDtype)
    (fmt : KvFormat) : MPStorageManager :=
  { s with
    reserveHandle := s.reserveHandle + 1
    reserving := s.reserving.set s.reserveHandle ⟨shape, dtype, fmt, [], .marking keys⟩ }

/-- The section of the loop for one key. -/
def markKey (s : MPStorageManager) (handle : Nat) (r : Reserve) (key : StorageKey)
    (todo : List StorageKey) : MPStorageManager :=
  if s.hasKey key then
    { s with reserving := s.reserving.set handle (r.look key false todo) }
  else
    { s with
      reservedKeys := insert key s.reservedKeys
      reserving := s.reserving.set handle (r.look key true todo) }

/-- `batched_allocate` for a call. -/
def allocateFor (s : MPStorageManager) (r : Reserve) :
    Except PyError (Option (List Nat)) × MPStorageManager :=
  let a := s.memoryAllocator.batchedAllocate (.list [r.shape]) (.list [r.dtype])
    r.numObjectsToAllocate r.fmt.1
  (a.1, { s with memoryAllocator := a.2 })

/-- A candidate is popped, and its reference given up. -/
def evictKey (s : MPStorageManager) (key : StorageKey) : MPStorageManager :=
  match s.commitedMemoryObjects.get? key with
  | none => s
  | some obj =>
    { s with
      commitedMemoryObjects := s.commitedMemoryObjects.erase key
      memoryAllocator := s.memoryAllocator.refCountDown obj }

/-- The candidates of a round, and the locks that are left. -/
def evictCandidates (s : MPStorageManager) (clock : StorageKey → Rat) (numCandidates : Nat) :
    List StorageKey × LockManager StorageKey :=
  LRUCachePolicyWithLock.candidatesFrom s.memoryAllocator.canEvict clock numCandidates
    s.commitedMemoryObjects.entries s.objLockManager []

/-- The loop of the eviction: each round evicts and tries again, until there is memory or no
candidate.  The rounds are counted, for the clock. -/
def evictLoop (clock : Nat → StorageKey → Rat) (r : Reserve) :
    Nat → Nat → MPStorageManager → Except PyError (Option (List Nat)) × MPStorageManager
  | 0, _, s => (.ok none, s)
  | turns + 1, round, s =>
    let c := s.evictCandidates (clock round) r.numObjectsToAllocate
    let s := { s with objLockManager := c.2 }
    match c.1 with
    | [] => (.ok none, s)
    | key :: keys =>
      match ((key :: keys).foldl evictKey s).allocateFor r with
      | (.ok none, s) => evictLoop clock r turns (round + 1) s
      | done => done

/-- The section that evicts: a round takes a key out, so there are no more rounds than keys. -/
def evict (s : MPStorageManager) (clock : Nat → StorageKey → Rat) (r : Reserve) :
    Except PyError (Option (List Nat)) × MPStorageManager :=
  evictLoop clock r (s.commitedMemoryObjects.entries.length + 1) 0 s

/-- `_confirm_reserve_objects`: the pool that the call returns, too. -/
def confirmed (r : Reserve) (objects : List Nat) : Dict StorageKey Nat :=
  .ofPairs (r.marked.zip objects)

/-- The call is over and has left this pool. -/
def leavePool (s : MPStorageManager) (handle : Nat) (pool : Dict StorageKey Nat) :
    MPStorageManager :=
  { s with
    reservedMemoryObjectPools := s.reservedMemoryObjectPools.set handle pool
    reserving := s.reserving.erase handle }

/-- The call goes on, or is over with an exception. -/
def afterAllocation (s : MPStorageManager) (handle : Nat) (r : Reserve) (next : Option MPError)
    (result : Except PyError (Option (List Nat))) :
    Option (Except MPError (Dict StorageKey Nat)) × MPStorageManager :=
  match result with
  | .error e => (some (.error (.other e)), { s with reserving := s.reserving.erase handle })
  | .ok (some objects) =>
    (none, { s with reserving := s.reserving.set handle { r with stage := .confirming objects } })
  | .ok none =>
    match next with
    | none => (none, { s with reserving := s.reserving.set handle { r with stage := .evicting } })
    | some e => (some (.error e), { s with reserving := s.reserving.erase handle })

/-- The next section of a call of `reserve`, and what the call returns or raises when that was its
last. -/
def proceed (s : MPStorageManager) (handle : Nat) (clock : Nat → StorageKey → Rat) :
    Option (Except MPError (Dict StorageKey Nat)) × MPStorageManager :=
  match s.reserving.get? handle with
  | none => (none, s)
  | some r =>
    match r.stage with
    | .marking (key :: todo) => (none, s.markKey handle r key todo)
    | .marking [] =>
      if r.numObjectsToAllocate = 0 then (some (.ok .empty), s.leavePool handle .empty)
      else
        let a := s.allocateFor r
        a.2.afterAllocation handle r none a.1
    | .evicting =>
      let a := s.evict clock r
      a.2.afterAllocation handle r
        (some (.memoryExhausted (exhaustedMessage r.numObjectsToAllocate))) a.1
    | .confirming objects =>
      (some (.ok (confirmed r objects)), s.leavePool handle (confirmed r objects))

/-! ### The other methods -/

/-- The loop of `commit` over `reversed(reserved_dict.keys())`: `remove` raises on a key that is not
there. -/
def removeReserved : List StorageKey → Finset StorageKey → Option MPError × Finset StorageKey
  | [], reserved => (none, reserved)
  | key :: keys, reserved =>
    if key ∈ reserved then removeReserved keys (reserved.erase key)
    else (some (.keyError key), reserved)

/-- `commit`: what it raises, and the manager it leaves. -/
def commit (s : MPStorageManager) (handle : Nat) : Option MPError × MPStorageManager :=
  match s.reservedMemoryObjectPools.get? handle with
  | none => (some (.other (.runtimeError s!"Invalid reserve handle: {handle}")), s)
  | some reservedDict =>
    let r := removeReserved reservedDict.keys.reverse s.reservedKeys
    (r.1, { s with
      reservedMemoryObjectPools := s.reservedMemoryObjectPools.erase handle
      commitedMemoryObjects :=
        reservedDict.entries.foldl (fun d e => d.set e.1 e.2) s.commitedMemoryObjects
      reservedKeys := r.2 })

/-- `lookup`: the number of keys found; `clock` is what `lock` reads. -/
def lookup (s : MPStorageManager) (clock : StorageKey → Rat) :
    List StorageKey → Nat × MPStorageManager
  | [] => (0, s)
  | key :: keys =>
    if key ∈ s.commitedMemoryObjects then
      let r := lookup { s with objLockManager := s.objLockManager.lock key (clock key) } clock keys
      (r.1 + 1, r.2)
    else (0, s)

/-- `_touch_and_get_object`, over the keys. -/
def touchAndGetObjects : List StorageKey → Dict StorageKey Nat →
    Except StorageKey (List Nat) × Dict StorageKey Nat
  | [], d => (.ok [], d)
  | key :: keys, d =>
    match d.get? key with
    | none => (.error key, d)
    | some obj =>
      let r := touchAndGetObjects keys (d.moveToEnd key)
      (r.1.map fun objs => obj :: objs, r.2)

/-- `retrieve`: the objects, or the key that the `RuntimeError` names. -/
def retrieve (s : MPStorageManager) (keys : List StorageKey) :
    Except StorageKey (List Nat) × MPStorageManager :=
  let r := touchAndGetObjects keys s.commitedMemoryObjects
  (r.1, { s with commitedMemoryObjects := r.2 })

/-- `on_retrieve_finished`, one key of it. -/
def unlock (s : MPStorageManager) (key : StorageKey) : MPStorageManager :=
  { s with objLockManager := s.objLockManager.unlock key }

def onRetrieveFinished (s : MPStorageManager) (keys : List StorageKey) : MPStorageManager :=
  keys.foldl unlock s

/-- `prefetch`. -/
def prefetch (s : MPStorageManager) (_keys : List StorageKey) : MPError × MPStorageManager :=
  (.notImplemented, s)

/-- `clear`. -/
def clear (s : MPStorageManager) : MPStorageManager :=
  { s with
    memoryAllocator :=
      (s.commitedMemoryObjects.values ++
        s.reservedMemoryObjectPools.values.flatMap Dict.values).foldl
          LazyMemoryAllocator.refCountDown s.memoryAllocator
    commitedMemoryObjects := .empty
    reservedMemoryObjectPools := .empty
    reservedKeys := ∅ }

/-! ### Runs -/

/-- What happens next: a section of a call, or a round of the thread that expands the memory. -/
inductive MPEvent where
  | reserve (keys : List StorageKey) (shape : TorchSize) (dtype : TorchDtype) (fmt : KvFormat)
  | proceed (handle : Nat) (clock : Nat → StorageKey → Rat)
  | commit (handle : Nat)
  | lookup (keys : List StorageKey) (clock : StorageKey → Rat)
  | retrieve (keys : List StorageKey)
  | unlock (key : StorageKey)
  | prefetch (keys : List StorageKey)
  | clear
  | expand

def step (s : MPStorageManager) : MPEvent → MPStorageManager
  | .reserve keys shape dtype fmt => s.reserve keys shape dtype fmt
  | .proceed handle clock => (s.proceed handle clock).2
  | .commit handle => (s.commit handle).2
  | .lookup keys clock => (s.lookup clock keys).2
  | .retrieve keys => (s.retrieve keys).2
  | .unlock key => s.unlock key
  | .prefetch keys => (s.prefetch keys).2
  | .clear => s.clear
  | .expand => { s with memoryAllocator := s.memoryAllocator.expand }

end MPStorageManager

end LMCache.Multiprocess
