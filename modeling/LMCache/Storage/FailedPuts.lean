/-
# LMCache.Storage.FailedPuts — what a put leaves behind when it is refused or fails.

Source: the put paths of `local_disk_backend.py`, `remote_backend.py` (with
`connector/instrumented_connector.py` and the serializers of `naive_serde`) and
`nixl_storage_backend.py`, all under `v1/storage_backend`.

Each backend marks the keys of a put as in flight, takes references to its objects, and only then
does what can fail.  Here one put is followed from its call to the end of the work it schedules,
with nothing else going on, and with everything that may go wrong as an input: what the policy
offers for eviction, and what the file system, the serializer, the connector and the transfer agent
answer.

Where a failure is cleaned up depends on the backend.  Most of them have no cleanup at all on the
way between the mark and the end.
-/
import LMCache.Lib.Counts
import LMCache.PyError
import LMCache.Storage.DiskSizes
import LMCache.Storage.NixlStaticBackend

namespace LMCache.Storage

open LMCache.Lib

/-- How a put ends. -/
inductive PutEnd where
  | stored
  /-- The backend returns without storing anything. -/
  | refused
  /-- The call or the work it has scheduled raises. -/
  | raised (e : PyError)
  deriving DecidableEq, Repr

/-! ## Local disk -/

/-- One round of the eviction loop: what the policy offers, and whether `os.remove` raises. -/
structure EvictTurn where
  candidate : Option CacheEngineKey
  unlinked : Except PyError Unit

/-- A call of `LocalDiskBackend.submit_put_task`, and how the rest of the world behaves. -/
structure DiskPut where
  key : CacheEngineKey
  memoryObj : Nat
  /-- `memory_obj.tensor is not None`. -/
  hasTensor : Bool
  physicalSize : Nat
  turns : List EvictTurn
  written : Except PyError Unit

namespace LocalDiskBackend

/-- The eviction loop.  A policy that has nothing left to offer offers nothing. -/
def makeRoomFor (requiredSize : Nat) :
    List EvictTurn → LocalDiskBackend → LocalDiskBackend × Except PutEnd Unit
  | [], b =>
    if b.currentCacheSize + requiredSize > b.maxCacheSize then (b, .error .refused)
    else ({ b with currentCacheSize := b.currentCacheSize + requiredSize }, .ok ())
  | turn :: turns, b =>
    if b.currentCacheSize + requiredSize > b.maxCacheSize then
      match b.evictable turn.candidate with
      | none => (b, .error .refused)
      | some (victim, diskMeta) =>
        let b' := { b with
          currentCacheSize := b.currentCacheSize - diskMeta.size
          dict := b.dict.erase victim }
        match turn.unlinked with
        | .error e => (b', .error (.raised e))
        | .ok _ => b'.makeRoomFor requiredSize turns
    else ({ b with currentCacheSize := b.currentCacheSize + requiredSize }, .ok ())

/-- `async_save_bytes_to_disk`. -/
def saveBytesToDisk (b : LocalDiskBackend) (refs : Nat → Nat) (p : DiskPut) :
    LocalDiskBackend × (Nat → Nat) × PutEnd :=
  match p.written with
  | .error e => (b, refs, .raised e)
  | .ok _ =>
    ({ b with
        dict := if p.key ∈ b.dict then b.dict else b.dict.set p.key ⟨p.physicalSize, 0⟩
        putTasks := b.putTasks.erase p.key },
      lower refs p.memoryObj, .stored)

/-- `submit_put_task`, and the write that it schedules. -/
def submitPutTask (b : LocalDiskBackend) (refs : Nat → Nat) (p : DiskPut) :
    LocalDiskBackend × (Nat → Nat) × PutEnd :=
  if ¬p.hasTensor then (b, refs, .raised (.assertionError ""))
  else if p.key ∈ b.putTasks then (b, refs, .refused)
  else
    match { b with putTasks := b.putTasks ++ [p.key] }.makeRoomFor p.physicalSize p.turns with
    | (b', .error ended) => (b', refs, ended)
    | (b', .ok _) => b'.saveBytesToDisk (raise refs p.memoryObj) p

end LocalDiskBackend

/-! ## Remote -/

/-- The serializers of `CreateSerde`. -/
inductive Serializer where
  | naive
  | kivi
  | cachegen
  deriving DecidableEq, Repr

/-- `serialize`: the counts, and the object that is put.  The naive one gives the same object with a
reference more, KIVI the same object as it is.  CacheGen encodes into a `BytesBufferMemoryObj`,
which has no count; its encoder may raise. -/
def Serializer.serialize (encoded : Except PyError Unit) (refs : Nat → Nat) (memoryObj : Nat) :
    Serializer → Except PyError ((Nat → Nat) × Option Nat)
  | .naive => .ok (raise refs memoryObj, some memoryObj)
  | .kivi => .ok (refs, some memoryObj)
  | .cachegen => encoded.map fun _ => (refs, none)

/-- What puts read of `RemoteBackend`. -/
structure RemotePuts where
  connected : Bool
  mlaWorkerIdAs0Mode : Bool
  serializer : Serializer
  putTasks : List CacheEngineKey
  deriving DecidableEq, Repr

/-- A call of `RemoteBackend.submit_put_task`. -/
structure RemotePut where
  key : CacheEngineKey
  memoryObj : Nat
  encoded : Except PyError Unit
  written : Except PyError Unit

/-- A call of `RemoteBackend.batched_submit_put_task`, on a connector that has `batched_put`.  On
another connector it is one `submit_put_task` a key. -/
structure RemoteBatchPut where
  keys : List CacheEngineKey
  memoryObjs : List Nat
  /-- What the encoder does with each object. -/
  encoded : Nat → Except PyError Unit
  written : Except PyError Unit

def PutEnd.ofWritten : Except PyError Unit → PutEnd
  | .ok _ => .stored
  | .error e => .raised e

namespace RemotePuts

/-- `InstrumentedRemoteConnector.put` drops the reference of what it was given in its `finally`, and
`put_callback` takes the key out, whether the connector raises or not. -/
def submitPutTask (b : RemotePuts) (refs : Nat → Nat) (p : RemotePut) :
    RemotePuts × (Nat → Nat) × PutEnd :=
  if ¬b.connected ∨ b.mlaWorkerIdAs0Mode ∨ p.key ∈ b.putTasks then (b, refs, .refused)
  else
    match b.serializer.serialize p.encoded (raise refs p.memoryObj) p.memoryObj with
    | .error e =>
      ({ b with putTasks := p.key :: b.putTasks }, raise refs p.memoryObj, .raised e)
    | .ok (refs', compressed) =>
      ({ b with putTasks := (p.key :: b.putTasks).filter (· ≠ p.key) },
        lowerAll (lower refs' p.memoryObj) compressed.toList, .ofWritten p.written)

/-- The loop over the serializer. -/
def serializeAll (b : RemotePuts) (encoded : Nat → Except PyError Unit) :
    List Nat → (Nat → Nat) → (Nat → Nat) × Except PyError (List Nat)
  | [], refs => (refs, .ok [])
  | memoryObj :: rest, refs =>
    match b.serializer.serialize (encoded memoryObj) refs memoryObj with
    | .error e => (refs, .error e)
    | .ok (refs', compressed) =>
      ((b.serializeAll encoded rest refs').1,
        (b.serializeAll encoded rest refs').2.map (compressed.toList ++ ·))

/-- The references taken before the loop are dropped in a `finally`, no key is marked, and
`InstrumentedRemoteConnector.batched_put` drops those of what it was given. -/
def batchedSubmitPutTask (b : RemotePuts) (refs : Nat → Nat) (p : RemoteBatchPut) :
    RemotePuts × (Nat → Nat) × PutEnd :=
  if ¬b.connected ∨ b.mlaWorkerIdAs0Mode then (b, refs, .refused)
  else
    match b.serializeAll p.encoded p.memoryObjs (raiseAll refs p.memoryObjs) with
    | (refs', .error e) => (b, lowerAll refs' p.memoryObjs, .raised e)
    | (refs', .ok compressed) =>
      ({ b with putTasks := b.putTasks.filter (· ∉ p.keys) },
        lowerAll (lowerAll refs' p.memoryObjs) compressed, .ofWritten p.written)

end RemotePuts

/-! ## Nixl with a pool of descriptors -/

/-- A call of `NixlStaticStorageBackend.batched_submit_put_task`. -/
structure NixlStaticPut where
  chunks : List (CacheEngineKey × NixlObj)
  /-- The memory objects that hold the chunks.  Their counts are not touched. -/
  memoryObjs : List Nat
  evictKeys : List CacheEngineKey
  transferred : Except PyError Unit

namespace NixlStaticBackend

/-- `batched_remove`: each key that is there goes, and its index goes back to the pool. -/
def batchedRemove : List CacheEngineKey → NixlStaticBackend →
    NixlStaticBackend × Except PyError Unit
  | [], s => (s, .ok ())
  | key :: rest, s =>
    match s.keyDict.get? key with
    | none => batchedRemove rest s
    | some m =>
      match s.pool.push m.index with
      | none => ({ s with keyDict := s.keyDict.erase key }, .error (.assertionError ""))
      | some pool => batchedRemove rest { s with keyDict := s.keyDict.erase key, pool := pool }

/-- The loop of `mem_to_storage`. -/
def placeAll : List (CacheEngineKey × NixlObj) → List PlacedChunk → NixlStaticBackend →
    NixlStaticBackend × Except PyError (List PlacedChunk)
  | [], placed, s => (s, .ok placed)
  | (key, obj) :: rest, placed, s =>
    match s.pool.pop with
    | none => ({ s with poppedEmpty := true }, .error (.assertionError ""))
    | some (index, pool) =>
      if key ∈ s.keyDict then ({ s with pool := pool }, .error (.assertionError ""))
      else
        placeAll rest (placed ++ [⟨key, index, obj⟩])
          ({ s with pool := pool }.addKeyToDict ⟨key, index, obj⟩)

/-- `mem_to_storage`. -/
def memToStorage (s : NixlStaticBackend) (p : NixlStaticPut) : NixlStaticBackend × PutEnd :=
  match placeAll p.chunks [] s with
  | (s', .error e) => (s', .raised e)
  | (s', .ok placed) =>
    match p.transferred with
    | .error e => (s', .raised e)
    | .ok _ =>
      ({ s' with
          storage := transfer s'.storage placed
          progressSet := s'.progressSet.filter (· ∉ placed.map PlacedChunk.key) }, .stored)

/-- `batched_submit_put_task`, and the coroutine that it schedules. -/
def batchedSubmitPutTask (s : NixlStaticBackend) (p : NixlStaticPut) :
    NixlStaticBackend × PutEnd :=
  let evictKeys := if p.chunks.length ≤ s.pool.getNumAvailableDescs then [] else p.evictKeys
  if s.pool.getNumAvailableDescs < p.chunks.length ∧ evictKeys = [] then (s, .refused)
  else
    match batchedRemove evictKeys s with
    | (s', .error e) => (s', .raised e)
    | (s', .ok _) =>
      { s' with progressSet := s'.progressSet ∪ p.chunks.map Prod.fst }.memToStorage p

end NixlStaticBackend

/-! ## Nixl without a pool -/

/-- What puts read of `NixlDynamicStorageBackend`. -/
structure NixlDynamicBackend where
  asyncMode : Bool
  progressSet : List CacheEngineKey
  /-- `key_presence_cache`: the hashes of chunks that are known to be stored, if it is enabled. -/
  keyPresenceCache : Option (List Int)
  deriving DecidableEq, Repr

/-- A call of `NixlDynamicStorageBackend.batched_submit_put_task`. -/
structure NixlDynamicPut where
  keys : List CacheEngineKey
  memoryObjs : List Nat
  /-- The agent makes the handles, and starts an asynchronous transfer. -/
  prepared : Except PyError Unit
  transferred : Except PyError Unit
  /-- The agent releases the handles. -/
  released : Except PyError Unit

namespace NixlDynamicBackend

def cacheAdd (b : NixlDynamicBackend) (keys : List CacheEngineKey) : NixlDynamicBackend :=
  { b with keyPresenceCache := b.keyPresenceCache.map (keys.map CacheEngineKey.chunkHash ++ ·) }

/-- The end of a transfer that is `DONE`. -/
def finish (b : NixlDynamicBackend) (keys : List CacheEngineKey) : NixlDynamicBackend :=
  { b with progressSet := b.progressSet.filter (· ∉ keys) }.cacheAdd keys

/-- `_wait_for_transfer`: the handles are released in the `finally` before the keys and the
references are looked at. -/
def waitForTransfer (b : NixlDynamicBackend) (refs : Nat → Nat) (p : NixlDynamicPut) :
    NixlDynamicBackend × (Nat → Nat) × PutEnd :=
  match p.released, p.transferred with
  | .error e, _ => (b, refs, .raised e)
  | .ok _, .ok _ => (b.finish p.keys, lowerAll refs p.memoryObjs, .stored)
  | .ok _, .error e => (b, lowerAll refs p.memoryObjs, .raised e)

/-- `mem_to_storage`. -/
def memToStorage (b : NixlDynamicBackend) (refs : Nat → Nat) (p : NixlDynamicPut) :
    NixlDynamicBackend × (Nat → Nat) × PutEnd :=
  if p.keys = [] then (b, refs, .stored)
  else
    match p.prepared with
    | .error e => (b, refs, .raised e)
    | .ok _ =>
      if b.asyncMode then b.waitForTransfer refs p
      else
        match p.transferred, p.released with
        | .error e, _ => (b, refs, .raised e)
        | .ok _, .error e => (b, refs, .raised e)
        | .ok _, .ok _ => (b.finish p.keys, refs, .stored)

/-- `batched_submit_put_task`, and the coroutines that it starts. -/
def batchedSubmitPutTask (b : NixlDynamicBackend) (refs : Nat → Nat) (p : NixlDynamicPut) :
    NixlDynamicBackend × (Nat → Nat) × PutEnd :=
  { b with progressSet := b.progressSet ∪ p.keys }.memToStorage
    (if b.asyncMode then raiseAll refs p.memoryObjs else refs) p

end NixlDynamicBackend

/-! ## What is left of a put -/

/-- What the books of a backend say: the keys in `put_tasks` or `progress_set`, those of the key
dictionary, and the counts of the memory objects. -/
structure Books where
  inFlight : List CacheEngineKey
  stored : List CacheEngineKey
  refCount : Nat → Nat

/-- A put to one of the backends, in a state of that backend. -/
inductive BackendPut where
  | disk (b : LocalDiskBackend) (p : DiskPut)
  | remote (b : RemotePuts) (p : RemotePut)
  | remoteBatch (b : RemotePuts) (p : RemoteBatchPut)
  /-- In every state that a run reaches, the descriptors fit. -/
  | nixlStatic (s : NixlStaticBackend) (fits : s.Fits) (p : NixlStaticPut)
  | nixlDynamic (b : NixlDynamicBackend) (p : NixlDynamicPut)

namespace BackendPut

def keys : BackendPut → List CacheEngineKey
  | disk _ p => [p.key]
  | remote _ p => [p.key]
  | remoteBatch _ p => p.keys
  | nixlStatic _ _ p => p.chunks.map Prod.fst
  | nixlDynamic _ p => p.keys

def memoryObjs : BackendPut → List Nat
  | disk _ p => [p.memoryObj]
  | remote _ p => [p.memoryObj]
  | remoteBatch _ p => p.memoryObjs
  | nixlStatic _ _ p => p.memoryObjs
  | nixlDynamic _ p => p.memoryObjs

/-- The books after the put, and how it ended. -/
def run (refs : Nat → Nat) : BackendPut → Books × PutEnd
  | disk b p =>
    let r := b.submitPutTask refs p
    (⟨r.1.putTasks, r.1.dict.keys, r.2.1⟩, r.2.2)
  | remote b p =>
    let r := b.submitPutTask refs p
    (⟨r.1.putTasks, [], r.2.1⟩, r.2.2)
  | remoteBatch b p =>
    let r := b.batchedSubmitPutTask refs p
    (⟨r.1.putTasks, [], r.2.1⟩, r.2.2)
  | nixlStatic s _ p =>
    let r := s.batchedSubmitPutTask p
    (⟨r.1.progressSet, r.1.keyDict.keys, refs⟩, r.2)
  | nixlDynamic b p =>
    let r := b.batchedSubmitPutTask refs p
    (⟨r.1.progressSet, [], r.2.1⟩, r.2.2)

/-- **The put leaves no trace**: its keys are neither in flight nor stored, and the counts of its
objects are what they were. -/
def LeavesNoTrace (put : BackendPut) (refs : Nat → Nat) : Prop :=
  (∀ key ∈ put.keys, key ∉ (put.run refs).1.inFlight ∧ key ∉ (put.run refs).1.stored) ∧
    ∀ obj ∈ put.memoryObjs, (put.run refs).1.refCount obj = refs obj

instance (put : BackendPut) (refs : Nat → Nat) : Decidable (put.LeavesNoTrace refs) :=
  inferInstanceAs (Decidable (_ ∧ _))

/-- When a put that is refused or fails has been cleaned up after, or needs no cleanup.

* Local disk: the object has no tensor, so that nothing was begun.
* Remote, one key: nothing was begun, or the serializer has not raised and gives out a reference of
  its own.
* Remote, a batch: KIVI drops one reference too many.
* Nixl with a pool: the put was refused.
* Nixl without a pool: never. -/
def CleanedUp : BackendPut → Prop
  | disk b p => p.hasTensor = false ∧ p.key ∉ b.putTasks ∧ p.key ∉ b.dict
  | remote b p =>
    p.key ∉ b.putTasks ∧
      (b.connected = false ∨ b.mlaWorkerIdAs0Mode = true ∨ b.serializer = .naive ∨
        b.serializer = .cachegen ∧ p.encoded = .ok ())
  | remoteBatch b p =>
    (b.connected = false ∨ b.mlaWorkerIdAs0Mode = true ∨
        b.serializer = .cachegen ∧ (∃ obj ∈ p.memoryObjs, p.encoded obj ≠ .ok ()) →
      ∀ key ∈ p.keys, key ∉ b.putTasks) ∧
    (b.serializer = .kivi →
      b.connected = false ∨ b.mlaWorkerIdAs0Mode = true ∨ p.memoryObjs = [])
  | nixlStatic s _ p =>
    p.chunks = [] ∨
      s.pool.getNumAvailableDescs < p.chunks.length ∧ p.evictKeys = [] ∧
        ∀ chunk ∈ p.chunks, chunk.1 ∉ s.progressSet ∧ chunk.1 ∉ s.keyDict
  | nixlDynamic _ _ => False

end BackendPut

/-! ## Local disk: the mark stays -/

namespace LocalDiskBackend

theorem putTasks_makeRoomFor (requiredSize : Nat) (turns : List EvictTurn) (b : LocalDiskBackend) :
    (b.makeRoomFor requiredSize turns).1.putTasks = b.putTasks := by
  induction turns generalizing b with
  | nil =>
    unfold makeRoomFor
    split <;> rfl
  | cons turn turns ih =>
    unfold makeRoomFor
    split
    · split
      · rfl
      · dsimp only
        split
        · rfl
        · exact ih _
    · rfl

/-- A put that has an object to write and does not store it leaves its key in `put_tasks`. -/
theorem mem_putTasks_of_failed {b : LocalDiskBackend} {refs : Nat → Nat} {p : DiskPut}
    (htensor : p.hasTensor = true) (hfail : (b.submitPutTask refs p).2.2 ≠ .stored) :
    p.key ∈ (b.submitPutTask refs p).1.putTasks := by
  unfold submitPutTask at hfail ⊢
  rw [if_neg (by simp [htensor])] at hfail ⊢
  by_cases hkey : p.key ∈ b.putTasks
  · rw [if_pos hkey]
    exact hkey
  · rw [if_neg hkey] at hfail ⊢
    have htasks := putTasks_makeRoomFor p.physicalSize p.turns
      { b with putTasks := b.putTasks ++ [p.key] }
    have hmem : p.key ∈ b.putTasks ++ [p.key] :=
      List.mem_append_right _ (List.mem_singleton_self _)
    split
    · rename_i b' ended hroom
      rw [hroom] at htasks
      exact htasks ▸ hmem
    · rename_i b' hroom
      rw [hroom] at htasks hfail
      unfold saveBytesToDisk at hfail ⊢
      cases hwritten : p.written with
      | error e => exact htasks ▸ hmem
      | ok _ =>
        rw [hwritten] at hfail
        exact absurd rfl hfail

end LocalDiskBackend

/-! ## Remote: what the serializers do to the counts -/

namespace RemotePuts

variable {b : RemotePuts} {encoded : Nat → Except PyError Unit}

theorem serializeAll_naive (h : b.serializer = .naive) (memoryObjs : List Nat) (refs : Nat → Nat) :
    b.serializeAll encoded memoryObjs refs = (raiseAll refs memoryObjs, .ok memoryObjs) := by
  induction memoryObjs generalizing refs with
  | nil => rfl
  | cons obj rest ih =>
    unfold serializeAll
    rw [h]
    dsimp only [Serializer.serialize]
    rw [ih]
    rfl

theorem serializeAll_kivi (h : b.serializer = .kivi) (memoryObjs : List Nat) (refs : Nat → Nat) :
    b.serializeAll encoded memoryObjs refs = (refs, .ok memoryObjs) := by
  induction memoryObjs generalizing refs with
  | nil => rfl
  | cons obj rest ih =>
    unfold serializeAll
    rw [h]
    dsimp only [Serializer.serialize]
    rw [ih]
    rfl

/-- CacheGen does not touch the counts, and raises when the encoder does for one object. -/
theorem serializeAll_cachegen (h : b.serializer = .cachegen) (encoded : Nat → Except PyError Unit)
    (memoryObjs : List Nat) (refs : Nat → Nat) :
    (b.serializeAll encoded memoryObjs refs).1 = refs ∧
      ((∀ obj ∈ memoryObjs, encoded obj = .ok ()) →
        (b.serializeAll encoded memoryObjs refs).2 = .ok []) ∧
      ((∃ obj ∈ memoryObjs, encoded obj ≠ .ok ()) →
        ∃ e, (b.serializeAll encoded memoryObjs refs).2 = .error e) := by
  induction memoryObjs generalizing refs with
  | nil => exact ⟨rfl, fun _ => rfl, fun ⟨obj, hobj, _⟩ => (nomatch hobj)⟩
  | cons obj rest ih =>
    unfold serializeAll
    rw [h]
    dsimp only [Serializer.serialize]
    cases henc : encoded obj with
    | error e =>
      refine ⟨rfl, fun hall => ?_, fun _ => ⟨e, rfl⟩⟩
      have := henc.symm.trans (hall obj (List.mem_cons_self ..))
      cases this
    | ok u =>
      dsimp only [Except.map]
      obtain ⟨hrefs, hok, herr⟩ := ih refs
      refine ⟨hrefs, fun hall => ?_, ?_⟩
      · rw [hok fun o ho => hall o (List.mem_cons_of_mem _ ho)]
        rfl
      · rintro ⟨o, ho, hne⟩
        rcases List.mem_cons.mp ho with rfl | ho
        · exact absurd henc hne
        · obtain ⟨e, he⟩ := herr ⟨o, ho, hne⟩
          exact ⟨e, by rw [he]⟩

end RemotePuts

/-! ## Nixl with a pool: the marks stay -/

namespace NixlStaticBackend

/-- Where the descriptors fit, every index that is got back has room in the pool. -/
theorem batchedRemove_ok (keys : List CacheEngineKey) {s : NixlStaticBackend} (h : s.Fits) :
    ∃ s', batchedRemove keys s = (s', .ok ()) ∧ s'.progressSet = s.progressSet := by
  induction keys generalizing s with
  | nil => exact ⟨s, rfl, rfl⟩
  | cons key rest ih =>
    unfold batchedRemove
    cases hm : s.keyDict.get? key with
    | none => exact ih h
    | some m =>
      let erased : NixlStaticBackend := { s with keyDict := s.keyDict.erase key }
      have hlength : s.indexOf.values.length = erased.indexOf.values.length + 1 :=
        length_erase hm erased rfl
      obtain ⟨pool, hpush, hpool, hsize⟩ := h.push m.index (by omega)
      dsimp only
      rw [hpush]
      have hfits : Fits { erased with pool := pool } := by
        refine h.of_le ?_ hsize
        show pool.indices.length + (erased.indexOf.values.length +
          (s.loopHand.length + (s.submitHand.length + s.freeing.length))) ≤ _
        omega
      exact ih hfits

theorem progressSet_placeAll (chunks : List (CacheEngineKey × NixlObj))
    (placed : List PlacedChunk) (s : NixlStaticBackend) :
    (placeAll chunks placed s).1.progressSet = s.progressSet := by
  induction chunks generalizing placed s with
  | nil => rfl
  | cons chunk rest ih =>
    unfold placeAll
    split
    · rfl
    · split
      · rfl
      · exact ih _ _

/-- A `mem_to_storage` that fails takes no key out of `progress_set`. -/
theorem progressSet_of_failed {s : NixlStaticBackend} {p : NixlStaticPut}
    (hfail : (s.memToStorage p).2 ≠ .stored) :
    (s.memToStorage p).1.progressSet = s.progressSet := by
  have hplace := progressSet_placeAll p.chunks [] s
  unfold memToStorage at hfail ⊢
  split
  · rename_i s' e heq
    rw [heq] at hplace
    exact hplace
  · rename_i s' placed heq
    rw [heq] at hplace hfail
    cases htransferred : p.transferred with
    | error e => exact hplace
    | ok _ =>
      rw [htransferred] at hfail
      exact absurd rfl hfail

end NixlStaticBackend

/-! ## Nixl without a pool: the marks stay -/

namespace NixlDynamicBackend

/-- A put that fails takes no key out of `progress_set`, and has one. -/
theorem progressSet_of_failed {b : NixlDynamicBackend} {refs : Nat → Nat} {p : NixlDynamicPut}
    (hfail : (b.memToStorage refs p).2.2 ≠ .stored) :
    (b.memToStorage refs p).1.progressSet = b.progressSet ∧ p.keys ≠ [] := by
  unfold memToStorage at hfail ⊢
  by_cases hkeys : p.keys = []
  · rw [if_pos hkeys] at hfail
    exact absurd rfl hfail
  · rw [if_neg hkeys] at hfail ⊢
    refine ⟨?_, hkeys⟩
    cases hprepared : p.prepared with
    | error e => rfl
    | ok _ =>
      rw [hprepared] at hfail
      dsimp only at hfail ⊢
      unfold waitForTransfer at hfail ⊢
      cases hreleased : p.released with
      | error e =>
        split
        · rfl
        · split <;> first | rfl | (rename_i h; cases h)
      | ok _ =>
        cases htransferred : p.transferred with
        | error e => split <;> rfl
        | ok _ =>
          rw [hreleased, htransferred] at hfail
          split at hfail <;> exact absurd rfl hfail

end NixlDynamicBackend

/-! ## Which failed puts leave no trace -/

namespace BackendPut

variable {refs : Nat → Nat}

theorem leavesNoTrace_disk_iff {b : LocalDiskBackend} {p : DiskPut}
    (hfail : ((disk b p).run refs).2 ≠ .stored) :
    (disk b p).LeavesNoTrace refs ↔ (disk b p).CleanedUp := by
  cases htensor : p.hasTensor with
  | false =>
    have hrun : b.submitPutTask refs p = (b, refs, .raised (.assertionError "")) := by
      unfold LocalDiskBackend.submitPutTask
      rw [if_pos (by simp [htensor])]
    unfold LeavesNoTrace CleanedUp run keys
    dsimp only
    rw [hrun]
    constructor
    · exact fun h => ⟨htensor, h.1 p.key (List.mem_singleton_self _)⟩
    · rintro ⟨-, hkey⟩
      refine ⟨fun key hin => ?_, fun _ _ => rfl⟩
      rw [List.mem_singleton.mp hin]
      exact hkey
  | true =>
    have hmem := LocalDiskBackend.mem_putTasks_of_failed htensor hfail
    refine iff_of_false (fun h => ?_) (fun h => ?_)
    · exact (h.1 p.key (List.mem_singleton_self _)).1 hmem
    · exact Bool.false_ne_true (h.1.symm.trans htensor)

variable {b : RemotePuts}

theorem leavesNoTrace_remote_iff {p : RemotePut} (hheld : 0 < refs p.memoryObj) :
    (remote b p).LeavesNoTrace refs ↔ (remote b p).CleanedUp := by
  unfold LeavesNoTrace CleanedUp keys memoryObjs run
  dsimp only
  simp only [List.mem_singleton, forall_eq, List.not_mem_nil, not_false_eq_true, and_true]
  unfold RemotePuts.submitPutTask
  by_cases hbegun : ¬b.connected ∨ b.mlaWorkerIdAs0Mode ∨ p.key ∈ b.putTasks
  · -- nothing is begun
    rw [if_pos hbegun]
    constructor
    · rintro ⟨hkey, -⟩
      refine ⟨hkey, ?_⟩
      rcases hbegun with hconn | hmla | hin
      · exact .inl (Bool.eq_false_iff.mpr hconn)
      · exact .inr (.inl hmla)
      · exact absurd hin hkey
    · exact fun h => ⟨h.1, rfl⟩
  · rw [if_neg hbegun]
    obtain ⟨hnotconn, hnot⟩ := not_or.mp hbegun
    obtain ⟨hnotmla, hkey⟩ := not_or.mp hnot
    have hconn : b.connected = true := not_not.mp hnotconn
    have hmla : b.mlaWorkerIdAs0Mode = false := Bool.eq_false_iff.mpr hnotmla
    have hgone : p.key ∉ (p.key :: b.putTasks).filter (· ≠ p.key) := by simp
    cases hser : b.serializer with
    | naive =>
      refine iff_of_true ⟨hgone, ?_⟩ ⟨hkey, .inr (.inr (.inl rfl))⟩
      show lower (lower (raise (raise refs p.memoryObj) p.memoryObj) p.memoryObj) p.memoryObj
        p.memoryObj = refs p.memoryObj
      rw [lower_raise, lower_raise]
    | kivi =>
      refine iff_of_false (fun h => ?_) (fun h => ?_)
      · -- the reference that is dropped after the put was not taken
        have hcount : lower (lower (raise refs p.memoryObj) p.memoryObj) p.memoryObj p.memoryObj =
          refs p.memoryObj := h.2
        rw [lower_raise] at hcount
        exact lower_ne hheld hcount
      · rw [hconn, hmla] at h
        simp at h
    | cachegen =>
      cases hencoded : p.encoded with
      | error e =>
        refine iff_of_false (fun h => h.1 (List.mem_cons_self ..)) (fun h => ?_)
        rw [hconn, hmla] at h
        simp at h
      | ok u =>
        refine iff_of_true ⟨hgone, ?_⟩ ⟨hkey, .inr (.inr (.inr ⟨rfl, rfl⟩))⟩
        show lower (raise refs p.memoryObj) p.memoryObj p.memoryObj = refs p.memoryObj
        rw [lower_raise]

/-- What a batch that is begun does to the counts, and whether the serializer raises. -/
theorem batchedSubmitPutTask_begun (refs : Nat → Nat) (p : RemoteBatchPut)
    (hbegun : ¬(¬b.connected ∨ b.mlaWorkerIdAs0Mode)) :
    (b.serializer = .cachegen ∧ (∃ obj ∈ p.memoryObjs, p.encoded obj ≠ .ok ()) ∧
      (b.batchedSubmitPutTask refs p).1 = b ∧ (b.batchedSubmitPutTask refs p).2.1 = refs) ∨
    (¬(b.serializer = .cachegen ∧ ∃ obj ∈ p.memoryObjs, p.encoded obj ≠ .ok ()) ∧
      (b.batchedSubmitPutTask refs p).1.putTasks = b.putTasks.filter (· ∉ p.keys) ∧
      (b.batchedSubmitPutTask refs p).2.1 =
        if b.serializer = .kivi then lowerAll refs p.memoryObjs else refs) := by
  unfold RemotePuts.batchedSubmitPutTask
  rw [if_neg hbegun]
  cases hser : b.serializer with
  | naive =>
    rw [RemotePuts.serializeAll_naive hser]
    refine .inr ⟨by simp, rfl, ?_⟩
    show lowerAll (lowerAll (raiseAll (raiseAll refs p.memoryObjs) p.memoryObjs) p.memoryObjs)
      p.memoryObjs = _
    rw [lowerAll_raiseAll, lowerAll_raiseAll, if_neg (by simp)]
  | kivi =>
    rw [RemotePuts.serializeAll_kivi hser]
    refine .inr ⟨by simp, rfl, ?_⟩
    show lowerAll (lowerAll (raiseAll refs p.memoryObjs) p.memoryObjs) p.memoryObjs = _
    rw [lowerAll_raiseAll, if_pos rfl]
  | cachegen =>
    obtain ⟨hrefs, hok, herr⟩ := RemotePuts.serializeAll_cachegen hser p.encoded
      p.memoryObjs (raiseAll refs p.memoryObjs)
    by_cases hraise : ∃ obj ∈ p.memoryObjs, p.encoded obj ≠ .ok ()
    · obtain ⟨e, he⟩ := herr hraise
      rw [show b.serializeAll p.encoded p.memoryObjs (raiseAll refs p.memoryObjs) =
        (raiseAll refs p.memoryObjs, .error e) from Prod.ext hrefs he]
      exact .inl ⟨rfl, hraise, rfl, lowerAll_raiseAll refs p.memoryObjs⟩
    · have hall : ∀ obj ∈ p.memoryObjs, p.encoded obj = .ok () := by
        intro obj hobj
        by_contra hne
        exact hraise ⟨obj, hobj, hne⟩
      rw [show b.serializeAll p.encoded p.memoryObjs (raiseAll refs p.memoryObjs) =
        (raiseAll refs p.memoryObjs, .ok []) from Prod.ext hrefs (hok hall)]
      refine .inr ⟨fun h => hraise h.2, rfl, ?_⟩
      rw [if_neg (by simp)]
      exact lowerAll_raiseAll refs p.memoryObjs

theorem leavesNoTrace_remoteBatch_iff {p : RemoteBatchPut}
    (hheld : ∀ obj ∈ p.memoryObjs, 0 < refs obj) :
    (remoteBatch b p).LeavesNoTrace refs ↔ (remoteBatch b p).CleanedUp := by
  unfold LeavesNoTrace CleanedUp keys memoryObjs run
  dsimp only
  simp only [List.not_mem_nil, not_false_eq_true, and_true]
  by_cases hbegun : ¬b.connected ∨ b.mlaWorkerIdAs0Mode
  · have hidle : b.connected = false ∨ b.mlaWorkerIdAs0Mode = true :=
      hbegun.imp_left Bool.eq_false_iff.mpr
    have hrun : b.batchedSubmitPutTask refs p = (b, refs, .refused) := by
      unfold RemotePuts.batchedSubmitPutTask
      rw [if_pos hbegun]
    rw [hrun]
    constructor
    · exact fun h => ⟨fun _ => h.1, fun _ => hidle.imp_right .inl⟩
    · exact fun h => ⟨h.1 (hidle.imp_right .inl), fun _ _ => rfl⟩
  · have hbusy : ¬(b.connected = false ∨ b.mlaWorkerIdAs0Mode = true) :=
      fun h => hbegun (h.imp_left Bool.eq_false_iff.mp)
    rcases batchedSubmitPutTask_begun refs p hbegun with
      ⟨hser, hraise, hb, hrefs⟩ | ⟨hser, htasks, hrefs⟩
    · rw [hb, hrefs]
      constructor
      · refine fun h => ⟨fun _ => h.1, fun hkivi => ?_⟩
        rw [hser] at hkivi
        cases hkivi
      · exact fun h => ⟨h.1 (.inr (.inr ⟨hser, hraise⟩)), fun _ _ => rfl⟩
    · rw [htasks, hrefs]
      have hgone : ∀ key ∈ p.keys, key ∉ b.putTasks.filter (· ∉ p.keys) := by
        intro key hkey hin
        exact of_decide_eq_true (List.mem_filter.mp hin).2 hkey
      have hcleaned : (∀ obj ∈ p.memoryObjs,
            (if b.serializer = .kivi then lowerAll refs p.memoryObjs else refs) obj = refs obj) ↔
          (b.serializer = .kivi → p.memoryObjs = []) := by
        by_cases hkivi : b.serializer = .kivi
        · rw [if_pos hkivi]
          constructor
          · intro h _
            by_contra hne
            obtain ⟨obj, hobj⟩ := List.exists_mem_of_ne_nil _ hne
            have hcount := h obj hobj
            have hpos := List.count_pos_iff.mpr hobj
            have href := hheld obj hobj
            rw [lowerAll_apply] at hcount
            omega
          · intro h obj hobj
            rw [h hkivi] at hobj
            cases hobj
        · rw [if_neg hkivi]
          exact iff_of_true (fun _ _ => rfl) (fun h => absurd h hkivi)
      rw [hcleaned]
      constructor
      · refine fun h => ⟨fun hidle => ?_, fun hkivi => .inr (.inr (h.2 hkivi))⟩
        rcases hidle with hconn | hmla | hboth
        · exact absurd (.inl hconn) hbusy
        · exact absurd (.inr hmla) hbusy
        · exact absurd hboth hser
      · refine fun h => ⟨hgone, fun hkivi => ?_⟩
        rcases h.2 hkivi with hconn | hmla | hnil
        · exact absurd (.inl hconn) hbusy
        · exact absurd (.inr hmla) hbusy
        · exact hnil

theorem leavesNoTrace_nixlStatic_iff {s : NixlStaticBackend} (fits : s.Fits) {p : NixlStaticPut}
    (hfail : ((nixlStatic s fits p).run refs).2 ≠ .stored) :
    (nixlStatic s fits p).LeavesNoTrace refs ↔ (nixlStatic s fits p).CleanedUp := by
  unfold run at hfail
  dsimp only at hfail
  by_cases hrefused : s.pool.getNumAvailableDescs < p.chunks.length ∧ p.evictKeys = []
  · have hrun : s.batchedSubmitPutTask p = (s, .refused) := by
      unfold NixlStaticBackend.batchedSubmitPutTask
      dsimp only
      rw [if_neg (Nat.not_le.mpr hrefused.1), if_pos hrefused]
    unfold LeavesNoTrace CleanedUp run keys
    dsimp only
    rw [hrun]
    constructor
    · rintro ⟨hkeys, -⟩
      exact .inr ⟨hrefused.1, hrefused.2, fun chunk hchunk =>
        hkeys chunk.1 (List.mem_map.mpr ⟨chunk, hchunk, rfl⟩)⟩
    · rintro (hnil | ⟨-, -, hkeys⟩)
      · rw [hnil] at hrefused
        exact absurd hrefused.1 (Nat.not_lt_zero _)
      · refine ⟨fun key hkey => ?_, fun _ _ => rfl⟩
        obtain ⟨chunk, hchunk, rfl⟩ := List.mem_map.mp hkey
        exact hkeys chunk hchunk
  · -- the keys were marked, and no failure takes a mark away
    have hmarked : ∀ chunk ∈ p.chunks, chunk.1 ∈ (s.batchedSubmitPutTask p).1.progressSet := by
      intro chunk hchunk
      unfold NixlStaticBackend.batchedSubmitPutTask at hfail ⊢
      dsimp only at hfail ⊢
      generalize hkeys : (if p.chunks.length ≤ s.pool.getNumAvailableDescs then []
        else p.evictKeys) = evictKeys at hfail ⊢
      have hgo : ¬(s.pool.getNumAvailableDescs < p.chunks.length ∧ evictKeys = []) := by
        rintro ⟨hlt, hnil⟩
        rw [if_neg (Nat.not_le.mpr hlt)] at hkeys
        exact hrefused ⟨hlt, hkeys.trans hnil⟩
      obtain ⟨s', hremove, -⟩ := NixlStaticBackend.batchedRemove_ok evictKeys fits
      rw [if_neg hgo, hremove] at hfail ⊢
      dsimp only at hfail ⊢
      rw [NixlStaticBackend.progressSet_of_failed hfail]
      exact List.mem_union_iff.mpr (.inr (List.mem_map.mpr ⟨chunk, hchunk, rfl⟩))
    cases hchunks : p.chunks with
    | nil =>
      refine iff_of_true ⟨fun key hkey => ?_, fun _ _ => rfl⟩ (.inl hchunks)
      unfold keys at hkey
      dsimp only at hkey
      rw [hchunks] at hkey
      cases hkey
    | cons chunk rest =>
      have hin : chunk ∈ p.chunks := hchunks ▸ List.mem_cons_self ..
      refine iff_of_false (fun h => ?_) (fun h => ?_)
      · exact (h.1 chunk.1 (List.mem_map.mpr ⟨chunk, hin, rfl⟩)).1 (hmarked chunk hin)
      · rcases h with hnil | ⟨hlt, hnil, -⟩
        · rw [hnil] at hin
          cases hin
        · exact hrefused ⟨hlt, hnil⟩

theorem not_leavesNoTrace_nixlDynamic {b : NixlDynamicBackend} {p : NixlDynamicPut}
    (hfail : ((nixlDynamic b p).run refs).2 ≠ .stored) :
    ¬(nixlDynamic b p).LeavesNoTrace refs := by
  intro h
  obtain ⟨hprogress, hne⟩ := NixlDynamicBackend.progressSet_of_failed hfail
  obtain ⟨key, hkey⟩ := List.exists_mem_of_ne_nil _ hne
  refine (h.1 key hkey).1 ?_
  show key ∈ (b.batchedSubmitPutTask refs p).1.progressSet
  unfold NixlDynamicBackend.batchedSubmitPutTask
  rw [hprogress]
  exact List.mem_union_iff.mpr (.inr hkey)

/-- **Which failed puts leave no trace.**  For a put to any of the backends that is refused or
fails, when the caller holds a reference to each object. -/
theorem leavesNoTrace_iff (put : BackendPut) (refs : Nat → Nat)
    (hheld : ∀ obj ∈ put.memoryObjs, 0 < refs obj) (hfail : (put.run refs).2 ≠ .stored) :
    put.LeavesNoTrace refs ↔ put.CleanedUp := by
  cases put with
  | disk b p => exact leavesNoTrace_disk_iff hfail
  | remote b p =>
    exact leavesNoTrace_remote_iff (hheld p.memoryObj (List.mem_singleton_self _))
  | remoteBatch b p => exact leavesNoTrace_remoteBatch_iff hheld
  | nixlStatic s fits p => exact leavesNoTrace_nixlStatic_iff fits hfail
  | nixlDynamic b p => exact iff_of_false (not_leavesNoTrace_nixlDynamic hfail) id

/-! ## Four failures -/

def putKey : CacheEngineKey := ⟨"model", 1, 0, 7, .float16, none, none⟩

/-- One reference to each object: that of the caller. -/
def callerRefs : Nat → Nat := fun _ => 1

/-- The connector raises, on a remote backend with the naive serializer. -/
def connectorRaises : BackendPut :=
  .remote ⟨true, false, .naive, []⟩ ⟨putKey, 0, .ok (), .error (.runtimeError "connection lost")⟩

theorem leavesNoTrace_iff_connectorRaises :
    connectorRaises.LeavesNoTrace callerRefs ↔ connectorRaises.CleanedUp :=
  leavesNoTrace_iff connectorRaises callerRefs (fun _ _ => Nat.one_pos) (by decide)

/-- An object that is larger than the disk cache: there is no victim. -/
def noVictim : BackendPut :=
  .disk (.init 1 0 ⟨"lmcache", 0, "disk", [], 0, []⟩) ⟨putKey, 0, true, 2, [], .ok ()⟩

/-- CacheGen raises. -/
def serializerRaises : BackendPut :=
  .remote ⟨true, false, .cachegen, []⟩ ⟨putKey, 0, .error (.assertionError ""), .ok ()⟩

/-- A transfer raises, with the pool and without it. -/
def transferRaises : BackendPut :=
  .nixlStatic (.init 1) (NixlStaticBackend.always_fits 1 []).head
    ⟨[(putKey, ⟨[1], .float16, .KV_2LTD, [7]⟩)], [0], [], .error (.runtimeError "transfer")⟩

def asyncTransferRaises : BackendPut :=
  .nixlDynamic ⟨true, [], none⟩
    ⟨[putKey], [0], .ok (), .error (.runtimeError "NIXL transfer failed"), .ok ()⟩

/-- **Failed puts leave a trace** on every one of the backends: a mark that stays, in one case with
a reference and in another with an entry of the key dictionary. -/
theorem not_leavesNoTrace_failures :
    ((noVictim.run callerRefs).2 ≠ .stored ∧ ¬noVictim.LeavesNoTrace callerRefs) ∧
      ((serializerRaises.run callerRefs).2 ≠ .stored ∧
        ¬serializerRaises.LeavesNoTrace callerRefs) ∧
      ((transferRaises.run callerRefs).2 ≠ .stored ∧
        ¬transferRaises.LeavesNoTrace callerRefs) ∧
      (asyncTransferRaises.run callerRefs).2 ≠ .stored ∧
        ¬asyncTransferRaises.LeavesNoTrace callerRefs := by
  refine ⟨?_, ?_, ?_, ?_⟩ <;> decide +kernel

-- the reference that was taken before the serializer has raised is dropped by nobody
example : (serializerRaises.run callerRefs).1.refCount 0 = 2 := by decide +kernel

end BackendPut

end LMCache.Storage
