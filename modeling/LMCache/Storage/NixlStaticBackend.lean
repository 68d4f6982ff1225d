/-
# LMCache.Storage.NixlStaticBackend — who owns a storage descriptor.

Source: `NixlDescPool` and `NixlStaticStorageBackend` of
`v1/storage_backend/nixl_storage_backend.py`.

A put goes over two threads.  The caller, in `batched_submit_put_task`, counts the free descriptors
and evicts keys if there are too few, and schedules `mem_to_storage`.  The event loop, in that
coroutine, takes the descriptors one by one, puts each key into `key_dict` and then transfers the
data.  Nothing is reserved in between, and nothing is undone when the coroutine raises.

The coroutines have no `await` between their parts, so that one runs at a time; the other threads go
on meanwhile, and `key_lock` and the lock of the pool are held for one part at a time only.  So the
steps here are the parts.  An index that was taken from one side and not yet given to the other is
in the hand of an operation.
-/
import LMCache.Lib.Dict
import LMCache.Lib.Run
import LMCache.CacheEngineKey
import LMCache.Memory.MemoryObj

namespace LMCache.Storage

open LMCache.Lib LMCache.Memory

/-! ## The pool -/

/-- `NixlDescPool`: `indices` are those that are free, and the last one goes first. -/
structure NixlDescPool where
  size : Nat
  indices : List Nat
  deriving DecidableEq, Repr

namespace NixlDescPool

def init (size : Nat) : NixlDescPool := ⟨size, (List.range size).reverse⟩

def getNumAvailableDescs (p : NixlDescPool) : Nat := p.indices.length

/-- `pop`, with `none` when it is asserted that there is an index. -/
def pop (p : NixlDescPool) : Option (Nat × NixlDescPool) :=
  p.indices.getLast?.map fun index => (index, { p with indices := p.indices.dropLast })

/-- `push`, with `none` when it is asserted that one is missing. -/
def push (p : NixlDescPool) (index : Nat) : Option NixlDescPool :=
  if p.indices.length < p.size then some { p with indices := p.indices ++ [index] } else none

variable {p p' : NixlDescPool} {index : Nat}

theorem pop_eq_none : p.pop = none ↔ p.indices = [] := by
  unfold pop
  rw [Option.map_eq_none_iff, List.getLast?_eq_none_iff]

theorem pop_perm (h : p.pop = some (index, p')) :
    p.indices.Perm (index :: p'.indices) ∧ p'.size = p.size := by
  unfold pop at h
  obtain ⟨last, hlast, heq⟩ := Option.map_eq_some_iff.mp h
  have hsplit : p.indices.dropLast ++ [last] = p.indices :=
    List.dropLast_append_getLast? last hlast
  cases heq
  refine ⟨?_, rfl⟩
  exact (List.Perm.of_eq hsplit.symm).trans (List.perm_append_singleton _ _)

theorem push_perm (h : p.indices.length < p.size) (index : Nat) :
    ∃ p', p.push index = some p' ∧ p'.indices.Perm (index :: p.indices) ∧ p'.size = p.size :=
  ⟨_, if_pos h, List.perm_append_singleton _ _, rfl⟩

end NixlDescPool

/-! ## The backend -/

/-- What a put reads of a memory object. -/
structure NixlObj where
  shape : TorchSize
  dtype : TorchDtype
  fmt : MemoryFormat
  bytes : List UInt8
  deriving DecidableEq, Repr

/-- `NixlKeyMetadata`. -/
structure NixlKeyMetadata where
  index : Nat
  shape : TorchSize
  dtype : TorchDtype
  fmt : MemoryFormat
  pinCount : Int
  deriving DecidableEq, Repr

namespace NixlKeyMetadata

def pin (m : NixlKeyMetadata) : NixlKeyMetadata := { m with pinCount := m.pinCount + 1 }

def unpin (m : NixlKeyMetadata) : NixlKeyMetadata := { m with pinCount := m.pinCount - 1 }

end NixlKeyMetadata

/-- A chunk whose descriptor was taken, and whose data is still to be transferred. -/
structure PlacedChunk where
  key : CacheEngineKey
  index : Nat
  obj : NixlObj
  deriving DecidableEq, Repr

/-- A `mem_to_storage` that is running. -/
structure MemToStorage where
  todo : List (CacheEngineKey × NixlObj)
  /-- A chunk whose index was popped, and whose key is not in `key_dict` yet. -/
  hand : Option PlacedChunk
  placed : List PlacedChunk
  deriving DecidableEq, Repr

/-- What the event loop is at. -/
inductive LoopTask where
  | idle
  | writing (w : MemToStorage)
  /-- `storage_to_mem` has looked up the keys.  The bytes are those put under each key: they are
  what the read should give, and no code reads them. -/
  | reading (metadataList : List (Option (NixlKeyMetadata × List UInt8)))
  deriving DecidableEq, Repr

/-- A `batched_submit_put_task` that holds `key_lock`. -/
structure Submission where
  chunks : List (CacheEngineKey × NixlObj)
  evictKeys : List CacheEngineKey
  /-- The index of the key that was evicted last, until it is pushed. -/
  hand : Option Nat
  deriving DecidableEq, Repr

/-- `NixlStaticStorageBackend`, and what is in the storage. -/
structure NixlStaticBackend where
  pool : NixlDescPool
  keyDict : Dict CacheEngineKey NixlKeyMetadata
  progressSet : List CacheEngineKey
  /-- The coroutines that were scheduled and have not begun. -/
  scheduled : List (List (CacheEngineKey × NixlObj))
  loop : LoopTask
  submitting : Option Submission
  /-- The indices that a `remove` has got from `key_dict` and not yet pushed. -/
  freeing : List Nat
  storage : Nat → Option (List UInt8)
  /-- Not in the source: the bytes that were put under a key when it was added last. -/
  source : CacheEngineKey → List UInt8
  /-- Not in the source: a `pop` has found the pool empty. -/
  poppedEmpty : Bool

/-- What may happen next. -/
inductive NixlEvent where
  /-- A `batched_submit_put_task` takes `key_lock` and counts the descriptors; `evictKeys` is what
  `get_evict_candidates` answers. -/
  | submit (chunks : List (CacheEngineKey × NixlObj)) (evictKeys : List CacheEngineKey)
  /-- It goes on: by one `remove`, or to its end. -/
  | submitStep
  /-- Another thread removes a key, and later pushes its index. -/
  | remove (key : CacheEngineKey)
  | pushBack (index : Nat)
  | start
  /-- The event loop goes on; `raised` says whether a transfer raises. -/
  | loopStep (raised : Bool)
  | storageToMem (keys : List CacheEngineKey)
  | contains (key : CacheEngineKey) (pin : Bool)
  | pin (key : CacheEngineKey)
  | unpin (key : CacheEngineKey)
  deriving DecidableEq, Repr

namespace NixlStaticBackend

def init (size : Nat) : NixlStaticBackend where
  pool := .init size
  keyDict := .empty
  progressSet := []
  scheduled := []
  loop := .idle
  submitting := none
  freeing := []
  storage := fun _ => none
  source := fun _ => []
  poppedEmpty := false

/-- `add_key_to_dict`, once it is asserted that the key is not there. -/
def addKeyToDict (s : NixlStaticBackend) (chunk : PlacedChunk) : NixlStaticBackend :=
  { s with
    keyDict := s.keyDict.set chunk.key
      ⟨chunk.index, chunk.obj.shape, chunk.obj.dtype, chunk.obj.fmt, 0⟩
    source := Function.update s.source chunk.key chunk.obj.bytes }

/-- The transfer from memory, in the order of the keys.  In a sound state the indices of a transfer
differ, and the order does not matter. -/
def transfer (storage : Nat → Option (List UInt8)) (placed : List PlacedChunk) :
    Nat → Option (List UInt8) :=
  placed.foldl (fun c e => Function.update c e.index (some e.obj.bytes)) storage

/-- The first part of `batched_submit_put_task`: it counts, and refuses if there are too few
descriptors and no key to evict. -/
def submit (s : NixlStaticBackend) (chunks : List (CacheEngineKey × NixlObj))
    (evictKeys : List CacheEngineKey) : NixlStaticBackend :=
  if chunks.length ≤ s.pool.getNumAvailableDescs then
    { s with submitting := some ⟨chunks, [], none⟩ }
  else if evictKeys = [] then s
  else { s with submitting := some ⟨chunks, evictKeys, none⟩ }

/-- One `remove` of `batched_remove`, in its two parts; after the last one the keys are marked and
the coroutine is scheduled. -/
def submitStep (s : NixlStaticBackend) (t : Submission) : NixlStaticBackend :=
  match t.hand, t.evictKeys with
  | some index, _ =>
    match s.pool.push index with
    | some pool => { s with pool := pool, submitting := some { t with hand := none } }
    | none => { s with submitting := none }
  | none, victim :: rest =>
    match s.keyDict.get? victim with
    | some m =>
      { s with
        keyDict := s.keyDict.erase victim
        submitting := some ⟨t.chunks, rest, some m.index⟩ }
    | none => { s with submitting := some ⟨t.chunks, rest, none⟩ }
  | none, [] =>
    { s with
      progressSet := s.progressSet ∪ t.chunks.map Prod.fst
      scheduled := s.scheduled ++ [t.chunks]
      submitting := none }

/-- One part of `mem_to_storage`: a `pop`, an `add_key_to_dict` (which waits for `key_lock`), or the
transfer with what follows it. -/
def writeStep (s : NixlStaticBackend) (w : MemToStorage) (raised : Bool) : NixlStaticBackend :=
  match w.hand, w.todo with
  | some chunk, _ =>
    if s.submitting.isSome then s
    else if chunk.key ∈ s.keyDict then { s with loop := .idle }
    else
      { s.addKeyToDict chunk with
        loop := .writing { w with hand := none, placed := w.placed ++ [chunk] } }
  | none, (key, obj) :: rest =>
    match s.pool.pop with
    | some (index, pool) =>
      { s with pool := pool, loop := .writing ⟨rest, some ⟨key, index, obj⟩, w.placed⟩ }
    | none => { s with poppedEmpty := true, loop := .idle }
  | none, [] =>
    if raised then { s with loop := .idle }
    else
      { s with
        storage := transfer s.storage w.placed
        progressSet := s.progressSet.filter (· ∉ w.placed.map PlacedChunk.key)
        loop := .idle }

def updateMeta (s : NixlStaticBackend) (key : CacheEngineKey)
    (f : NixlKeyMetadata → NixlKeyMetadata) : NixlStaticBackend :=
  match s.keyDict.get? key with
  | some m => { s with keyDict := s.keyDict.set key (f m) }
  | none => s

/-- What an event does.  A call that needs `key_lock` waits while a submission holds it, and the
loop begins with a coroutine when it is idle. -/
def step (s : NixlStaticBackend) : NixlEvent → NixlStaticBackend
  | .submit chunks evictKeys => if s.submitting.isSome then s else s.submit chunks evictKeys
  | .submitStep => s.submitting.elim s s.submitStep
  | .remove key =>
    if s.submitting.isSome then s
    else
      match s.keyDict.get? key with
      | some m => { s with keyDict := s.keyDict.erase key, freeing := m.index :: s.freeing }
      | none => s
  | .pushBack index =>
    if index ∈ s.freeing then
      { s with
        freeing := s.freeing.erase index
        pool := (s.pool.push index).getD s.pool }
    else s
  | .start =>
    match s.loop, s.scheduled with
    | .idle, chunks :: rest => { s with scheduled := rest, loop := .writing ⟨chunks, none, []⟩ }
    | _, _ => s
  | .loopStep raised =>
    match s.loop with
    | .idle => s
    | .writing w => s.writeStep w raised
    | .reading _ => { s with loop := .idle }
  | .storageToMem keys =>
    if s.loop = .idle ∧ s.submitting = none then
      { s with
        loop := .reading (keys.map fun key =>
          (s.keyDict.get? key).map fun m => (m, s.source key)) }
    else s
  | .contains key pin =>
    if s.submitting.isSome ∨ ¬pin then s else s.updateMeta key NixlKeyMetadata.pin
  | .pin key => if s.submitting.isSome then s else s.updateMeta key NixlKeyMetadata.pin
  | .unpin key => if s.submitting.isSome then s else s.updateMeta key NixlKeyMetadata.unpin

/-! ## What should hold -/

/-- The index of each key. -/
def indexOf (s : NixlStaticBackend) : Dict CacheEngineKey Nat :=
  s.keyDict.mapValues NixlKeyMetadata.index

/-- The chunks of the running `mem_to_storage` that are in `key_dict` and not in the storage. -/
def placed (s : NixlStaticBackend) : List PlacedChunk :=
  match s.loop with
  | .writing w => w.placed
  | _ => []

def loopHand (s : NixlStaticBackend) : List Nat :=
  match s.loop with
  | .writing w => w.hand.toList.map PlacedChunk.index
  | _ => []

def submitHand (s : NixlStaticBackend) : List Nat :=
  match s.submitting with
  | some t => t.hand.toList
  | none => []

/-- The indices in the hand of an operation. -/
def inHand (s : NixlStaticBackend) : List Nat := s.loopHand ++ (s.submitHand ++ s.freeing)

/-- Every key that can be looked up has been written to its index. -/
def Written (s : NixlStaticBackend) : Prop :=
  ∀ key m, s.keyDict.get? key = some m → s.storage m.index = some (s.source key)

/-- **Descriptors are owned once.**  Every index is in the pool, or with a key, or in the hand of
one operation; the pool has not been found empty; a key that is not written yet belongs to the put
that is about to write it; and what is read is what was put. -/
structure Sound (size : Nat) (s : NixlStaticBackend) : Prop where
  owned : (s.pool.indices ++ (s.indexOf.values ++ s.inHand)).Perm (List.range size)
  neverEmpty : s.poppedEmpty = false
  written : ∀ key m, s.keyDict.get? key = some m →
    s.storage m.index = some (s.source key) ∨ ∃ e ∈ s.placed, e.key = key ∧ e.index = m.index
  read : ∀ metadataList, s.loop = .reading metadataList → ∀ m bytes,
    some (m, bytes) ∈ metadataList → s.storage m.index = some bytes

/-- The event looks `key_dict` up, in another thread than the event loop or another coroutine than
the one that writes. -/
def Looks (s : NixlStaticBackend) : NixlEvent → Prop
  | .submit chunks _ => s.submitting = none ∧ s.pool.getNumAvailableDescs < chunks.length
  | .remove _ | .contains _ _ | .pin _ | .unpin _ => s.submitting = none
  | .storageToMem _ => s.loop = .idle ∧ s.submitting = none
  | .submitStep | .pushBack _ | .start | .loopStep _ => False

/-- **Who looks a key up finds it written.** -/
def SeesWritten (s : NixlStaticBackend) (e : NixlEvent) : Prop := s.Looks e → s.Written

/-- What `mem_to_storage` needs to go on: a free descriptor, a key that is not there, a transfer
that does not raise. -/
def Supplied (s : NixlStaticBackend) (w : MemToStorage) (raised : Bool) : Prop :=
  match w.hand, w.todo with
  | some chunk, _ => s.submitting = none → chunk.key ∉ s.keyDict
  | none, _ :: _ => s.pool.indices ≠ []
  | none, [] => raised = true → w.placed = []

/-- Every `mem_to_storage` has what it needs. -/
def LoopSupplied (s : NixlStaticBackend) : NixlEvent → Prop
  | .loopStep raised => ∀ w, s.loop = .writing w → s.Supplied w raised
  | _ => True

/-- No thread looks keys up while some of them are placed and not written, and every
`mem_to_storage` has what it needs. -/
def Careful (s : NixlStaticBackend) (e : NixlEvent) : Prop :=
  (s.Looks e → s.placed = []) ∧ s.LoopSupplied e

instance (s : NixlStaticBackend) : (e : NixlEvent) → Decidable (s.Looks e)
  | .submit _ _ | .storageToMem _ => inferInstanceAs (Decidable (_ ∧ _))
  | .remove _ | .contains _ _ | .pin _ | .unpin _ => inferInstanceAs (Decidable (_ = _))
  | .submitStep | .pushBack _ | .start | .loopStep _ => .isFalse id

instance (s : NixlStaticBackend) (w : MemToStorage) (raised : Bool) :
    Decidable (s.Supplied w raised) := by
  unfold Supplied
  split <;> infer_instance

instance (s : NixlStaticBackend) : (e : NixlEvent) → Decidable (s.LoopSupplied e)
  | .loopStep raised =>
    match hloop : s.loop with
    | .writing w =>
      decidable_of_iff (s.Supplied w raised)
        ⟨fun h _ heq => (LoopTask.writing.inj (hloop.symm.trans heq)) ▸ h, fun h => h w hloop⟩
    | .idle => .isTrue fun _ heq => (nomatch hloop.symm.trans heq)
    | .reading _ => .isTrue fun _ heq => (nomatch hloop.symm.trans heq)
  | .submit _ _ | .submitStep | .remove _ | .pushBack _ | .start | .storageToMem _ |
    .contains _ _ | .pin _ | .unpin _ => .isTrue trivial

instance (s : NixlStaticBackend) (e : NixlEvent) : Decidable (s.Careful e) :=
  inferInstanceAs (Decidable (_ ∧ _))

/-! ## What one step keeps -/

/-- How many times an index is owned. -/
def owners (s : NixlStaticBackend) (index : Nat) : Nat :=
  s.pool.indices.count index + s.indexOf.values.count index +
    (s.loopHand.count index + s.submitHand.count index + s.freeing.count index)

/-- The ownership of the indices. -/
structure Owns (size : Nat) (s : NixlStaticBackend) : Prop where
  owned : ∀ index, s.owners index = (List.range size).count index
  size : s.pool.size = size
  neverEmpty : s.poppedEmpty = false

/-- The keys and their data. -/
structure Holds (s : NixlStaticBackend) : Prop where
  written : ∀ key m, s.keyDict.get? key = some m →
    s.storage m.index = some (s.source key) ∨ ∃ e ∈ s.placed, e.key = key ∧ e.index = m.index
  read : ∀ metadataList, s.loop = .reading metadataList → ∀ m bytes,
    some (m, bytes) ∈ metadataList → s.storage m.index = some bytes
  placed : ∀ e ∈ s.placed, s.indexOf.get? e.key = some e.index ∧ s.source e.key = e.obj.bytes
  indices : (s.placed.map PlacedChunk.index).Nodup
  /-- What holds the lock and evicts keys began when nothing was placed. -/
  lock : ∀ t, s.submitting = some t → t.evictKeys = [] ∨ s.placed = []

variable {size : Nat} {s s' : NixlStaticBackend}

theorem Owns.perm (h : Owns size s) :
    (s.pool.indices ++ (s.indexOf.values ++ s.inHand)).Perm (List.range size) := by
  rw [List.perm_iff_count]
  intro index
  rw [← h.owned index]
  unfold owners inHand
  simp only [List.count_append]
  omega

theorem Owns.nodup (h : Owns size s) :
    (s.pool.indices ++ (s.indexOf.values ++ s.inHand)).Nodup :=
  h.perm.nodup_iff.mpr List.nodup_range

theorem Owns.values_nodup (h : Owns size s) : s.indexOf.values.Nodup :=
  (List.nodup_append.mp (List.nodup_append.mp h.nodup).2.1).1

variable {index : Nat} {key : CacheEngineKey} {m : NixlKeyMetadata} {t : Submission}
  {w : MemToStorage} {chunk : PlacedChunk} {f : NixlKeyMetadata → NixlKeyMetadata}

/-- While an index is in a hand, the pool is not full. -/
theorem Owns.push (h : Owns size s) (hin : index ∈ s.inHand) :
    ∃ pool, s.pool.push index = some pool ∧ pool.indices.Perm (index :: s.pool.indices) ∧
      pool.size = s.pool.size := by
  refine NixlDescPool.push_perm ?_ index
  have hlen := h.perm.length_eq
  have hpos := List.length_pos_of_mem hin
  rw [List.length_append, List.length_append, List.length_range] at hlen
  rw [h.size]
  omega

/-- Two keys do not share an index. -/
theorem Owns.key_unique (h : Owns size s) {key' : CacheEngineKey}
    (hkey : s.indexOf.get? key = some index) (hkey' : s.indexOf.get? key' = some index) :
    key = key' :=
  Dict.key_unique_of_values h.values_nodup hkey hkey'

theorem get?_indexOf (h : s.keyDict.get? key = some m) : s.indexOf.get? key = some m.index := by
  unfold indexOf
  rw [Dict.get?_mapValues, h]
  rfl

/-- Ownership rests on who owns what, and on nothing else. -/
theorem Owns.of_owners (h : Owns size s) (howners : ∀ index, s'.owners index = s.owners index)
    (hsize : s'.pool.size = s.pool.size) (hempty : s'.poppedEmpty = s.poppedEmpty) :
    Owns size s' where
  owned := fun index => (howners index).trans (h.owned index)
  size := hsize.trans h.size
  neverEmpty := hempty.trans h.neverEmpty

/-- What is held stays when the dictionary, the storage and the loop do. -/
theorem Holds.of_eq (h : Holds s) (hdict : s'.keyDict = s.keyDict)
    (hstorage : s'.storage = s.storage) (hsource : s'.source = s.source) (hloop : s'.loop = s.loop)
    (hlock : ∀ t, s'.submitting = some t → t.evictKeys = [] ∨ s.placed = []) : Holds s' := by
  have hplaced : s'.placed = s.placed := by
    unfold NixlStaticBackend.placed
    rw [hloop]
  have hindexOf : s'.indexOf = s.indexOf := congrArg (Dict.mapValues _) hdict
  constructor
  case written =>
    rw [hdict, hstorage, hsource, hplaced]
    exact h.written
  case read =>
    rw [hloop, hstorage]
    exact h.read
  case placed =>
    rw [hplaced, hindexOf, hsource]
    exact h.placed
  case indices =>
    rw [hplaced]
    exact h.indices
  case lock =>
    rw [hplaced]
    exact hlock

/-- Taking a key out of the dictionary while nothing is placed. -/
theorem Holds.of_erase (h : Holds s) (hdict : s'.keyDict = s.keyDict.erase key)
    (hstorage : s'.storage = s.storage) (hsource : s'.source = s.source) (hloop : s'.loop = s.loop)
    (hplaced : s.placed = []) : Holds s' := by
  have hplaced' : s'.placed = [] := by
    rw [← hplaced]
    unfold NixlStaticBackend.placed
    rw [hloop]
  constructor
  case written =>
    intro key' m hm
    rw [hdict, Dict.get?_erase] at hm
    split at hm
    · cases hm
    · rw [hstorage, hsource, hplaced', ← hplaced]
      exact h.written key' m hm
  case read =>
    rw [hloop, hstorage]
    exact h.read
  case placed =>
    rw [hplaced']
    exact fun e he => absurd he List.not_mem_nil
  case indices =>
    rw [hplaced']
    exact List.nodup_nil
  case lock => exact fun _ _ => .inr hplaced'

/-! ## Submissions and removals -/

/-- The index of a key that is taken out is owned once less by the keys. -/
theorem count_erase (h : s.keyDict.get? key = some m) (s' : NixlStaticBackend)
    (hdict : s'.keyDict = s.keyDict.erase key) (index : Nat) :
    s.indexOf.values.count index =
      s'.indexOf.values.count index + if m.index == index then 1 else 0 := by
  have hindexOf : s'.indexOf = s.indexOf.erase key := by
    unfold indexOf
    rw [hdict, Dict.mapValues_erase]
  rw [(Dict.values_perm_erase (get?_indexOf h)).count_eq index, List.count_cons, hindexOf]

theorem owns_submit (h : Owns size s) (hfree : s.submitting = none)
    (chunks : List (CacheEngineKey × NixlObj)) (evictKeys : List CacheEngineKey) :
    Owns size (s.submit chunks evictKeys) := by
  have hhand : s.submitHand = [] := by
    unfold submitHand
    rw [hfree]
  have hbegin : ∀ keys, Owns size { s with submitting := some ⟨chunks, keys, none⟩ } := by
    intro keys
    refine h.of_owners (fun index => ?_) rfl rfl
    unfold owners
    rw [hhand]
    rfl
  unfold submit
  split
  · exact hbegin []
  · split
    · exact h
    · exact hbegin evictKeys

theorem holds_submit (h : Holds s) {chunks : List (CacheEngineKey × NixlObj)}
    (evictKeys : List CacheEngineKey)
    (hplaced : s.pool.getNumAvailableDescs < chunks.length → s.placed = []) :
    Holds (s.submit chunks evictKeys) := by
  unfold submit
  split
  · exact h.of_eq rfl rfl rfl rfl fun t ht => .inl (Option.some.inj ht ▸ rfl)
  · rename_i hlt
    split
    · exact h
    · exact h.of_eq rfl rfl rfl rfl fun _ _ => .inr (hplaced (Nat.lt_of_not_le hlt))

theorem submitHand_of_some (ht : s.submitting = some t) : s.submitHand = t.hand.toList := by
  unfold submitHand
  rw [ht]

theorem owns_submitStep (h : Owns size s) (ht : s.submitting = some t) :
    Owns size (s.submitStep t) := by
  have hhand := submitHand_of_some ht
  unfold submitStep
  cases hindex : t.hand with
  | some index =>
    rw [hindex] at hhand
    have hin : index ∈ s.inHand :=
      List.mem_append_right _ (List.mem_append_left _ (hhand ▸ List.mem_singleton_self index))
    obtain ⟨pool, hpush, hperm, hsize⟩ := h.push hin
    dsimp only
    rw [hpush]
    refine h.of_owners (fun i => ?_) hsize rfl
    unfold owners
    rw [hhand]
    dsimp only [submitHand, Option.toList]
    rw [hperm.count_eq, List.count_cons, List.count_singleton, List.count_nil]
    change _ + s.indexOf.values.count i + (s.loopHand.count i + 0 + s.freeing.count i) = _
    omega
  | none =>
    rw [hindex] at hhand
    cases t.evictKeys with
    | cons victim rest =>
      dsimp only
      cases hm : s.keyDict.get? victim with
      | some m =>
        refine h.of_owners (fun i => ?_) rfl rfl
        unfold owners
        rw [count_erase hm { s with
          keyDict := s.keyDict.erase victim
          submitting := some ⟨t.chunks, rest, some m.index⟩ } rfl i, hhand]
        dsimp only [submitHand, Option.toList]
        rw [List.count_singleton, List.count_nil]
        change _ + _ + (s.loopHand.count i + _ + s.freeing.count i) = _
        omega
      | none =>
        refine h.of_owners (fun i => ?_) rfl rfl
        unfold owners
        rw [hhand]
        rfl
    | nil =>
      refine h.of_owners (fun i => ?_) rfl rfl
      unfold owners
      rw [hhand]
      rfl

theorem holds_submitStep (h : Holds s) (ht : s.submitting = some t) : Holds (s.submitStep t) := by
  unfold submitStep
  cases t.hand with
  | some index =>
    dsimp only
    cases s.pool.push index with
    | some pool =>
      exact h.of_eq rfl rfl rfl rfl fun t' ht' => Option.some.inj ht' ▸ h.lock t ht
    | none => exact h.of_eq rfl rfl rfl rfl fun _ ht' => (nomatch ht')
  | none =>
    cases hkeys : t.evictKeys with
    | cons victim rest =>
      have hplaced : s.placed = [] := (h.lock t ht).resolve_left (by simp [hkeys])
      dsimp only
      cases s.keyDict.get? victim with
      | some m => exact h.of_erase rfl rfl rfl rfl hplaced
      | none => exact h.of_eq rfl rfl rfl rfl fun _ _ => .inr hplaced
    | nil => exact h.of_eq rfl rfl rfl rfl fun _ ht' => (nomatch ht')

theorem owns_remove (h : Owns size s) (hm : s.keyDict.get? key = some m) :
    Owns size { s with keyDict := s.keyDict.erase key, freeing := m.index :: s.freeing } := by
  refine h.of_owners (fun i => ?_) rfl rfl
  unfold owners
  rw [count_erase hm { s with
    keyDict := s.keyDict.erase key
    freeing := m.index :: s.freeing } rfl i]
  dsimp only
  rw [List.count_cons]
  change _ + _ + (s.loopHand.count i + s.submitHand.count i + _) = _
  omega

theorem owns_pushBack (h : Owns size s) (hin : index ∈ s.freeing) :
    Owns size { s with
      freeing := s.freeing.erase index
      pool := (s.pool.push index).getD s.pool } := by
  obtain ⟨pool, hpush, hperm, hsize⟩ :=
    h.push (List.mem_append_right _ (List.mem_append_right _ hin))
  rw [hpush]
  refine h.of_owners (fun i => ?_) hsize rfl
  unfold owners
  dsimp only [Option.getD_some]
  rw [hperm.count_eq, (List.perm_cons_erase hin).count_eq i, List.count_cons, List.count_cons]
  change _ + s.indexOf.values.count i + (s.loopHand.count i + s.submitHand.count i + _) = _
  omega

/-! ## The event loop -/

theorem loopHand_of_writing (hloop : s.loop = .writing w) :
    s.loopHand = w.hand.toList.map PlacedChunk.index := by
  unfold loopHand
  rw [hloop]

theorem owns_take (h : Owns size s) (hloop : s.loop = .writing w) (hhand : w.hand = none)
    {pool : NixlDescPool} (hpop : s.pool.pop = some (index, pool)) (key : CacheEngineKey)
    (obj : NixlObj) (rest : List (CacheEngineKey × NixlObj)) :
    Owns size { s with
      pool := pool, loop := .writing ⟨rest, some ⟨key, index, obj⟩, w.placed⟩ } := by
  obtain ⟨hperm, hsize⟩ := NixlDescPool.pop_perm hpop
  have hloopHand : s.loopHand = [] := by
    rw [loopHand_of_writing hloop, hhand]
    rfl
  refine h.of_owners (fun i => ?_) hsize rfl
  unfold owners
  rw [hperm.count_eq, hloopHand]
  change pool.indices.count i + s.indexOf.values.count i +
    ([index].count i + s.submitHand.count i + s.freeing.count i) = _
  rw [List.count_cons, List.count_cons, List.count_nil]
  omega

theorem values_addKeyToDict (hkey : chunk.key ∉ s.keyDict) :
    (s.addKeyToDict chunk).indexOf.values = s.indexOf.values ++ [chunk.index] := by
  unfold indexOf addKeyToDict
  rw [Dict.mapValues_set]
  exact Dict.values_set_of_notMem (fun hin => hkey (Dict.mem_mapValues.mp hin)) _

theorem owns_add (h : Owns size s) (hloop : s.loop = .writing w) (hhand : w.hand = some chunk)
    (hkey : chunk.key ∉ s.keyDict) (placed : List PlacedChunk) :
    Owns size { s.addKeyToDict chunk with
      loop := .writing { w with hand := none, placed := placed } } := by
  have hloopHand : s.loopHand = [chunk.index] := by
    rw [loopHand_of_writing hloop, hhand]
    rfl
  refine h.of_owners (fun i => ?_) rfl rfl
  unfold owners
  rw [hloopHand]
  change s.pool.indices.count i + (s.addKeyToDict chunk).indexOf.values.count i +
    (([] : List Nat).count i + s.submitHand.count i + s.freeing.count i) = _
  rw [values_addKeyToDict hkey, List.count_append, List.count_nil]
  omega

theorem placed_of_writing (hloop : s.loop = .writing w) : s.placed = w.placed := by
  unfold placed
  rw [hloop]

theorem holds_take (h : Holds s) (hloop : s.loop = .writing w) (pool : NixlDescPool)
    (rest : List (CacheEngineKey × NixlObj)) (hand : Option PlacedChunk) :
    Holds { s with pool := pool, loop := .writing ⟨rest, hand, w.placed⟩ } := by
  have hplaced := placed_of_writing hloop
  constructor
  case written =>
    have hwritten := h.written
    rw [hplaced] at hwritten
    exact hwritten
  case read => exact fun _ hread => (nomatch hread)
  case placed =>
    have hold := h.placed
    rw [hplaced] at hold
    exact hold
  case indices => exact hplaced ▸ h.indices
  case lock => exact fun t ht => hplaced ▸ h.lock t ht

theorem get?_addKeyToDict (hm : (s.addKeyToDict chunk).keyDict.get? key = some m) :
    (key = chunk.key ∧ m.index = chunk.index) ∨
      key ≠ chunk.key ∧ s.keyDict.get? key = some m := by
  unfold addKeyToDict at hm
  dsimp only at hm
  rw [Dict.get?_set] at hm
  split at hm
  · rename_i heq
    cases hm
    exact .inl ⟨heq, rfl⟩
  · rename_i hne
    exact .inr ⟨hne, hm⟩

theorem get?_indexOf_addKeyToDict (chunk : PlacedChunk) (key : CacheEngineKey) :
    (s.addKeyToDict chunk).indexOf.get? key =
      if key = chunk.key then some chunk.index else s.indexOf.get? key := by
  unfold indexOf addKeyToDict
  rw [Dict.mapValues_set, Dict.get?_set]

theorem holds_add (howns : Owns size s) (h : Holds s) (hloop : s.loop = .writing w)
    (hhand : w.hand = some chunk) (hlock : s.submitting = none) (hkey : chunk.key ∉ s.keyDict) :
    Holds { s.addKeyToDict chunk with
      loop := .writing { w with hand := none, placed := w.placed ++ [chunk] } } := by
  have hplaced := placed_of_writing hloop
  have hold := h.placed
  have hnodup := h.indices
  rw [hplaced] at hold hnodup
  have hkeyOf : chunk.key ∉ s.indexOf := fun hin => hkey (Dict.mem_mapValues.mp hin)
  -- the index was in the hand, so that no key has it
  have hfresh : chunk.index ∉ s.indexOf.values := by
    have hapart := (List.nodup_append.mp (List.nodup_append.mp howns.nodup).2.1).2.2
    refine fun hin => hapart chunk.index hin chunk.index (List.mem_append_left _ ?_) rfl
    rw [loopHand_of_writing hloop, hhand]
    exact List.mem_singleton_self _
  constructor
  case written =>
    intro key m hm
    rcases get?_addKeyToDict hm with ⟨rfl, hindex⟩ | ⟨hne, hm⟩
    · exact .inr ⟨chunk, List.mem_append_right _ (List.mem_singleton_self _), rfl, hindex.symm⟩
    · rcases h.written key m hm with hwritten | ⟨e, he, heq⟩
      · refine .inl (hwritten.trans (congrArg some ?_))
        exact (Function.update_of_ne hne chunk.obj.bytes s.source).symm
      · exact .inr ⟨e, List.mem_append_left _ (hplaced ▸ he), heq⟩
  case read => exact fun _ hread => (nomatch hread)
  case placed =>
    intro e he
    show (s.addKeyToDict chunk).indexOf.get? e.key = some e.index ∧
      Function.update s.source chunk.key chunk.obj.bytes e.key = e.obj.bytes
    rw [get?_indexOf_addKeyToDict]
    rcases List.mem_append.mp he with he | he
    · obtain ⟨hindex, hsource⟩ := hold e he
      have hne : e.key ≠ chunk.key := fun heq =>
        hkeyOf (Dict.mem_iff_get?.mpr ⟨_, heq ▸ hindex⟩)
      rw [if_neg hne]
      exact ⟨hindex, (Function.update_of_ne hne chunk.obj.bytes s.source).trans hsource⟩
    · cases List.mem_singleton.mp he
      rw [if_pos rfl]
      exact ⟨rfl, Function.update_self chunk.key chunk.obj.bytes s.source⟩
  case indices =>
    show ((w.placed ++ [chunk]).map PlacedChunk.index).Nodup
    rw [List.map_append, List.nodup_append]
    refine ⟨hnodup, List.nodup_singleton _, ?_⟩
    rintro i hi j hj rfl
    obtain ⟨e, he, rfl⟩ := List.mem_map.mp hi
    refine hfresh ?_
    rw [← show e.index = chunk.index from List.mem_singleton.mp hj]
    exact Dict.mem_values_of_get? (hold e he).1
  case lock =>
    intro t ht
    exact absurd (hlock.symm.trans ht) (by simp)

variable (storage : Nat → Option (List UInt8))

theorem transfer_of_notMem {placed : List PlacedChunk} (h : index ∉ placed.map PlacedChunk.index) :
    transfer storage placed index = storage index := by
  unfold transfer
  induction placed generalizing storage with
  | nil => rfl
  | cons e placed ih =>
    obtain ⟨hne, hnot⟩ := not_or.mp fun hor => h (List.mem_cons.mpr hor)
    rw [List.foldl_cons, ih _ hnot, Function.update_of_ne hne]

/-- A transfer to indices that differ writes each chunk. -/
theorem transfer_of_mem {placed : List PlacedChunk} (hnodup : (placed.map PlacedChunk.index).Nodup)
    {e : PlacedChunk} (he : e ∈ placed) : transfer storage placed e.index = some e.obj.bytes := by
  induction placed generalizing storage with
  | nil => cases he
  | cons e' placed ih =>
    obtain ⟨hnot, hnodup⟩ := List.nodup_cons.mp hnodup
    rcases List.mem_cons.mp he with rfl | he
    · show transfer (Function.update storage e.index (some e.obj.bytes)) placed e.index = _
      rw [transfer_of_notMem _ hnot, Function.update_self]
    · exact ih _ hnodup he

theorem holds_transfer (howns : Owns size s) (h : Holds s) (hloop : s.loop = .writing w)
    (progressSet : List CacheEngineKey) :
    Holds { s with
      storage := transfer s.storage w.placed
      progressSet := progressSet
      loop := .idle } := by
  have hplaced := placed_of_writing hloop
  have hold := h.placed
  have hnodup := h.indices
  rw [hplaced] at hold hnodup
  constructor
  case written =>
    intro key m hm
    refine .inl ?_
    show transfer s.storage w.placed m.index = some (s.source key)
    by_cases hin : m.index ∈ w.placed.map PlacedChunk.index
    · obtain ⟨e, he, hindex⟩ := List.mem_map.mp hin
      obtain ⟨hkey, hsource⟩ := hold e he
      -- the key that has this index is the one that was placed
      have heq : e.key = key := howns.key_unique hkey (hindex ▸ get?_indexOf hm)
      rw [← hindex, transfer_of_mem _ hnodup he, ← heq, hsource]
    · rw [transfer_of_notMem _ hin]
      rcases h.written key m hm with hwritten | ⟨e, he, -, hindex⟩
      · exact hwritten
      · exact absurd (List.mem_map.mpr ⟨e, hplaced ▸ he, hindex⟩) hin
  case read => exact fun _ hread => (nomatch hread)
  case placed => exact fun e he => absurd he List.not_mem_nil
  case indices => exact List.nodup_nil
  case lock => exact fun _ _ => .inr rfl

/-- The loop takes up something else, with nothing placed before or after. -/
theorem Holds.of_loop (h : Holds s) (hplaced : s.placed = []) (task : LoopTask)
    (hplaced' : ({ s with loop := task } : NixlStaticBackend).placed = [])
    (hread : ∀ metadataList, task = .reading metadataList → ∀ m bytes,
      some (m, bytes) ∈ metadataList → s.storage m.index = some bytes)
    (scheduled : List (List (CacheEngineKey × NixlObj))) (poppedEmpty : Bool) :
    Holds { s with loop := task, scheduled := scheduled, poppedEmpty := poppedEmpty } := by
  constructor
  case written =>
    intro key m hm
    rcases h.written key m hm with hwritten | ⟨e, he, -⟩
    · exact .inl hwritten
    · rw [hplaced] at he
      cases he
  case read => exact hread
  case placed =>
    intro e he
    change e ∈ ({ s with loop := task } : NixlStaticBackend).placed at he
    rw [hplaced'] at he
    cases he
  case indices =>
    change (({ s with loop := task } : NixlStaticBackend).placed.map _).Nodup
    rw [hplaced']
    exact List.nodup_nil
  case lock => exact fun _ _ => .inr hplaced'

theorem updateMeta_eq (s : NixlStaticBackend) (key : CacheEngineKey)
    (hf : ∀ m, (f m).index = m.index) :
    (s.updateMeta key f).indexOf = s.indexOf ∧ (∀ key' m,
      (s.updateMeta key f).keyDict.get? key' = some m →
        ∃ m', s.keyDict.get? key' = some m' ∧ m'.index = m.index) := by
  unfold updateMeta
  cases hm : s.keyDict.get? key with
  | none => exact ⟨rfl, fun _ m hget => ⟨m, hget, rfl⟩⟩
  | some m =>
    refine ⟨?_, ?_⟩
    · unfold indexOf
      dsimp only
      rw [Dict.mapValues_set, hf m]
      exact Dict.set_of_get? (get?_indexOf hm)
    · intro key' m' hget
      dsimp only at hget
      rw [Dict.get?_set] at hget
      split at hget
      · rename_i heq
        cases hget
        exact ⟨m, heq ▸ hm, (hf m).symm⟩
      · exact ⟨m', hget, rfl⟩

/-- What `updateMeta` leaves as it is. -/
theorem updateMeta_rest (s : NixlStaticBackend) (key : CacheEngineKey)
    (f : NixlKeyMetadata → NixlKeyMetadata) :
    ∃ keyDict, s.updateMeta key f = { s with keyDict := keyDict } := by
  unfold updateMeta
  cases s.keyDict.get? key with
  | none => exact ⟨s.keyDict, rfl⟩
  | some m => exact ⟨_, rfl⟩

theorem owns_updateMeta (h : Owns size s) (hf : ∀ m, (f m).index = m.index) :
    Owns size (s.updateMeta key f) := by
  have hindexOf := (updateMeta_eq s key hf).1
  obtain ⟨keyDict, heq⟩ := updateMeta_rest s key f
  rw [heq] at hindexOf ⊢
  refine h.of_owners (fun index => ?_) rfl rfl
  unfold owners
  rw [hindexOf]
  rfl

theorem holds_updateMeta (h : Holds s) (hf : ∀ m, (f m).index = m.index) :
    Holds (s.updateMeta key f) := by
  obtain ⟨hindexOf, hget⟩ := updateMeta_eq s key hf
  obtain ⟨keyDict, heq⟩ := updateMeta_rest s key f
  rw [heq] at hindexOf hget ⊢
  constructor
  case written =>
    intro key' m' hm'
    obtain ⟨m, hm, hindex⟩ := hget key' m' hm'
    rw [← hindex]
    exact h.written key' m hm
  case read => exact h.read
  case placed =>
    rw [hindexOf]
    exact h.placed
  case indices => exact h.indices
  case lock => exact h.lock

/-- The loop is idle after a task that has no index in its hand. -/
theorem owns_idle (h : Owns size s) (hhand : s.loopHand = []) (hloop : s'.loopHand = [])
    (hpool : s'.pool = s.pool) (hdict : s'.keyDict = s.keyDict)
    (hsubmitting : s'.submitting = s.submitting) (hfreeing : s'.freeing = s.freeing)
    (hempty : s'.poppedEmpty = s.poppedEmpty) : Owns size s' := by
  refine h.of_owners (fun index => ?_) (congrArg _ hpool) hempty
  unfold owners indexOf submitHand
  rw [hloop, hhand, hpool, hdict, hsubmitting, hfreeing]

/-- A part of `mem_to_storage` that has what it needs. -/
theorem inv_writeStep (howns : Owns size s) (h : Holds s) (hloop : s.loop = .writing w)
    (raised : Bool) (hsupplied : s.Supplied w raised) :
    Owns size (s.writeStep w raised) ∧ Holds (s.writeStep w raised) := by
  have hplaced := placed_of_writing hloop
  have hloopHand := loopHand_of_writing hloop
  unfold Supplied at hsupplied
  unfold writeStep
  cases hhand : w.hand with
  | some chunk =>
    rw [hhand] at hsupplied
    dsimp only at hsupplied ⊢
    cases hlock : s.submitting with
    | some t => exact ⟨howns, h⟩
    | none =>
      have hkey := hsupplied hlock
      rw [Option.isSome_none, if_neg Bool.false_ne_true, if_neg hkey]
      exact ⟨owns_add howns hloop hhand hkey _, holds_add howns h hloop hhand hlock hkey⟩
  | none =>
    rw [hhand] at hsupplied hloopHand
    cases htodo : w.todo with
    | cons chunk rest =>
      rw [htodo] at hsupplied
      dsimp only at hsupplied ⊢
      cases hpop : s.pool.pop with
      | none => exact absurd (NixlDescPool.pop_eq_none.mp hpop) hsupplied
      | some r =>
        exact ⟨owns_take howns hloop hhand hpop chunk.1 chunk.2 rest,
          holds_take h hloop r.2 rest _⟩
    | nil =>
      rw [htodo] at hsupplied
      dsimp only at hsupplied ⊢
      by_cases hraised : raised = true
      · rw [if_pos hraised]
        exact ⟨owns_idle howns hloopHand rfl rfl rfl rfl rfl rfl,
          h.of_loop (hplaced.trans (hsupplied hraised)) .idle rfl (fun _ ht => by cases ht) _ _⟩
      · rw [if_neg hraised]
        exact ⟨owns_idle howns hloopHand rfl rfl rfl rfl rfl rfl,
          holds_transfer howns h hloop _⟩

/-- **One step** that is careful. -/
theorem inv_step (howns : Owns size s) (h : Holds s) (e : NixlEvent) (hcareful : s.Careful e) :
    Owns size (s.step e) ∧ Holds (s.step e) := by
  obtain ⟨hlooks, hsupplied⟩ := hcareful
  cases e with
  | submit chunks evictKeys =>
    simp only [step]
    cases hlock : s.submitting with
    | some t => exact ⟨howns, h⟩
    | none =>
      rw [Option.isSome_none, if_neg Bool.false_ne_true]
      exact ⟨owns_submit howns hlock chunks evictKeys,
        holds_submit h evictKeys fun hlt => hlooks ⟨hlock, hlt⟩⟩
  | submitStep =>
    simp only [step]
    cases ht : s.submitting with
    | none => exact ⟨howns, h⟩
    | some t => exact ⟨owns_submitStep howns ht, holds_submitStep h ht⟩
  | remove key =>
    simp only [step]
    split
    · exact ⟨howns, h⟩
    · rename_i hlock
      split
      · rename_i m hm
        have hplaced := hlooks (Option.not_isSome_iff_eq_none.mp hlock)
        exact ⟨owns_remove howns hm, h.of_erase rfl rfl rfl rfl hplaced⟩
      · exact ⟨howns, h⟩
  | pushBack index =>
    simp only [step]
    split
    · rename_i hin
      exact ⟨owns_pushBack howns hin, h.of_eq rfl rfl rfl rfl h.lock⟩
    · exact ⟨howns, h⟩
  | start =>
    simp only [step]
    split
    · rename_i chunks rest hloop _
      have hidle : s.loopHand = [] ∧ s.placed = [] := by
        unfold loopHand placed
        rw [hloop]
        exact ⟨rfl, rfl⟩
      exact ⟨owns_idle howns hidle.1 rfl rfl rfl rfl rfl rfl,
        h.of_loop hidle.2 (.writing ⟨chunks, none, []⟩) rfl (fun _ ht => by cases ht) _ _⟩
    · exact ⟨howns, h⟩
  | loopStep raised =>
    simp only [step]
    cases hloop : s.loop with
    | idle => exact ⟨howns, h⟩
    | writing w => exact inv_writeStep howns h hloop raised (hsupplied w hloop)
    | reading metadataList =>
      have hreading : s.loopHand = [] ∧ s.placed = [] := by
        unfold loopHand placed
        rw [hloop]
        exact ⟨rfl, rfl⟩
      exact ⟨owns_idle howns hreading.1 rfl rfl rfl rfl rfl rfl,
        h.of_loop hreading.2 .idle rfl (fun _ ht => by cases ht) _ _⟩
  | storageToMem keys =>
    simp only [step]
    split
    · rename_i hfree
      have hidle : s.loopHand = [] ∧ s.placed = [] := by
        unfold loopHand placed
        rw [hfree.1]
        exact ⟨rfl, rfl⟩
      refine ⟨owns_idle howns hidle.1 rfl rfl rfl rfl rfl rfl, h.of_loop hidle.2 _ rfl ?_ _ _⟩
      -- what the coroutine has looked up is written, since nothing is placed
      intro metadataList heq m bytes hmem
      cases heq
      obtain ⟨key, -, hkey⟩ := List.mem_map.mp hmem
      obtain ⟨m', hm', heq⟩ := Option.map_eq_some_iff.mp hkey
      cases heq
      rcases h.written key m hm' with hwritten | ⟨e, he, -⟩
      · exact hwritten
      · rw [hidle.2] at he
        cases he
    · exact ⟨howns, h⟩
  | contains key pin =>
    simp only [step]
    split
    · exact ⟨howns, h⟩
    · exact ⟨owns_updateMeta howns fun _ => rfl, holds_updateMeta h fun _ => rfl⟩
  | pin key =>
    simp only [step]
    split
    · exact ⟨howns, h⟩
    · exact ⟨owns_updateMeta howns fun _ => rfl, holds_updateMeta h fun _ => rfl⟩
  | unpin key =>
    simp only [step]
    split
    · exact ⟨howns, h⟩
    · exact ⟨owns_updateMeta howns fun _ => rfl, holds_updateMeta h fun _ => rfl⟩

theorem owns_init (size : Nat) : Owns size (init size) where
  owned := fun index => by
    show (List.range size).reverse.count index + 0 + (0 + 0 + 0) = _
    rw [List.count_reverse]
    omega
  size := rfl
  neverEmpty := rfl

theorem holds_init (size : Nat) : Holds (init size) where
  written := fun _ _ hm => (nomatch hm)
  read := fun _ hread => (nomatch hread)
  placed := fun _ he => (nomatch he)
  indices := List.nodup_nil
  lock := fun _ ht => (nomatch ht)

theorem sound_of_inv (howns : Owns size s) (h : Holds s) : Sound size s where
  owned := howns.perm
  neverEmpty := howns.neverEmpty
  written := h.written
  read := h.read

theorem seesWritten_of_holds (h : Holds s) {e : NixlEvent} (hcareful : s.Careful e) :
    s.SeesWritten e := by
  intro hlooks key m hm
  rcases h.written key m hm with hwritten | ⟨c, hc, -⟩
  · exact hwritten
  · rw [hcareful.1 hlooks] at hc
    cases hc

/-- There are not more descriptors than the pool has been made with.  Descriptors get lost, and none
is made up: this needs no care. -/
def Fits (s : NixlStaticBackend) : Prop :=
  s.pool.indices.length + (s.indexOf.values.length + s.inHand.length) ≤ s.pool.size

theorem length_erase (h : s.keyDict.get? key = some m) (s' : NixlStaticBackend)
    (hdict : s'.keyDict = s.keyDict.erase key) :
    s.indexOf.values.length = s'.indexOf.values.length + 1 := by
  have hindexOf : s'.indexOf = s.indexOf.erase key := by
    unfold indexOf
    rw [hdict, Dict.mapValues_erase]
  rw [(Dict.values_perm_erase (get?_indexOf h)).length_eq, hindexOf, List.length_cons]

theorem length_inHand :
    s.inHand.length = s.loopHand.length + (s.submitHand.length + s.freeing.length) := by
  unfold inHand
  rw [List.length_append, List.length_append]

/-- A descriptor that is owned once less or moves elsewhere. -/
theorem Fits.of_le (h : s.Fits)
    (hle : s'.pool.indices.length + (s'.indexOf.values.length +
        (s'.loopHand.length + (s'.submitHand.length + s'.freeing.length))) ≤
      s.pool.indices.length + (s.indexOf.values.length +
        (s.loopHand.length + (s.submitHand.length + s.freeing.length))))
    (hsize : s'.pool.size = s.pool.size) : s'.Fits := by
  unfold Fits at h ⊢
  rw [length_inHand] at h ⊢
  omega

/-- With something in a hand there is room in the pool. -/
theorem Fits.push (h : s.Fits) (index : Nat)
    (hpos : 0 < s.indexOf.values.length + s.inHand.length) :
    ∃ pool, s.pool.push index = some pool ∧
      pool.indices.length = s.pool.indices.length + 1 ∧ pool.size = s.pool.size := by
  unfold Fits at h
  obtain ⟨pool, hpush, hperm, hsize⟩ :=
    NixlDescPool.push_perm (show s.pool.indices.length < s.pool.size by omega) index
  exact ⟨pool, hpush, hperm.length_eq, hsize⟩

theorem fits_submitStep (h : s.Fits) (ht : s.submitting = some t) : (s.submitStep t).Fits := by
  have hhand := submitHand_of_some ht
  unfold submitStep
  cases hindex : t.hand with
  | some index =>
    rw [hindex] at hhand
    have hpos : 0 < s.indexOf.values.length + s.inHand.length := by
      rw [length_inHand, hhand]
      simp only [Option.toList, List.length_singleton]
      omega
    obtain ⟨pool, hpush, hlength, hsize⟩ := h.push index hpos
    dsimp only
    rw [hpush]
    refine h.of_le ?_ hsize
    rw [hhand]
    show pool.indices.length + (s.indexOf.values.length +
      (s.loopHand.length + (0 + s.freeing.length))) ≤ _
    simp only [Option.toList, List.length_singleton]
    omega
  | none =>
    rw [hindex] at hhand
    cases t.evictKeys with
    | cons victim rest =>
      dsimp only
      cases hm : s.keyDict.get? victim with
      | some m =>
        have hlength := length_erase hm { s with
          keyDict := s.keyDict.erase victim
          submitting := some ⟨t.chunks, rest, some m.index⟩ } rfl
        refine h.of_le ?_ rfl
        rw [hhand, hlength]
        show _ + (_ + (s.loopHand.length + (1 + s.freeing.length))) ≤ _
        simp only [Option.toList, List.length_nil]
        omega
      | none => exact h.of_le (by rw [hhand]; exact Nat.le_refl _) rfl
    | nil => exact h.of_le (by rw [hhand]; exact Nat.le_refl _) rfl

theorem fits_writeStep (h : s.Fits) (hloop : s.loop = .writing w) (raised : Bool) :
    (s.writeStep w raised).Fits := by
  have hloopHand := loopHand_of_writing hloop
  have hidle : ∀ {s' : NixlStaticBackend}, s'.loop = .idle → s'.pool = s.pool →
      s'.indexOf = s.indexOf → s'.submitHand = s.submitHand → s'.freeing = s.freeing →
      s'.Fits := by
    intro s' hidle hpool hindexOf hsubmit hfreeing
    refine h.of_le ?_ (congrArg _ hpool)
    have hnil : s'.loopHand = [] := by
      unfold loopHand
      rw [hidle]
    rw [hnil, hpool, hindexOf, hsubmit, hfreeing, List.length_nil]
    omega
  unfold writeStep
  cases hhand : w.hand with
  | some chunk =>
    rw [hhand] at hloopHand
    dsimp only
    split
    · exact h
    · split
      · exact hidle rfl rfl rfl rfl rfl
      · rename_i hkey
        refine h.of_le ?_ rfl
        show s.pool.indices.length + ((s.addKeyToDict chunk).indexOf.values.length +
          (0 + (s.submitHand.length + s.freeing.length))) ≤ _
        rw [values_addKeyToDict hkey, hloopHand, List.length_append]
        simp only [Option.toList, List.map_cons, List.map_nil, List.length_singleton]
        omega
  | none =>
    rw [hhand] at hloopHand
    cases w.todo with
    | cons chunk rest =>
      dsimp only
      cases hpop : s.pool.pop with
      | none => exact hidle rfl rfl rfl rfl rfl
      | some r =>
        obtain ⟨hperm, hsize⟩ := NixlDescPool.pop_perm hpop
        refine h.of_le ?_ hsize
        show r.2.indices.length + (s.indexOf.values.length +
          (1 + (s.submitHand.length + s.freeing.length))) ≤ _
        rw [hperm.length_eq, hloopHand, List.length_cons]
        simp only [Option.toList, List.map_nil, List.length_nil]
        omega
    | nil =>
      dsimp only
      split <;> exact hidle rfl rfl rfl rfl rfl

/-- **No step makes a descriptor up.** -/
theorem fits_step (h : s.Fits) (e : NixlEvent) : (s.step e).Fits := by
  have hsubmitting : ∀ {t : Submission}, t.hand = none →
      Fits { s with submitting := some t } := by
    intro t ht
    refine h.of_le ?_ rfl
    rw [submitHand_of_some (s := { s with submitting := some t }) rfl, ht]
    show s.pool.indices.length + (s.indexOf.values.length +
      (s.loopHand.length + (0 + s.freeing.length))) ≤ _
    omega
  have hloop : ∀ {task : LoopTask} (scheduled : List (List (CacheEngineKey × NixlObj))),
      ({ s with loop := task } : NixlStaticBackend).loopHand = [] →
      Fits { s with loop := task, scheduled := scheduled } := by
    intro task scheduled hnil
    refine h.of_le ?_ rfl
    change s.pool.indices.length + (s.indexOf.values.length +
      (({ s with loop := task } : NixlStaticBackend).loopHand.length +
        (s.submitHand.length + s.freeing.length))) ≤ _
    rw [hnil, List.length_nil]
    omega
  have hmeta : ∀ {key : CacheEngineKey} {f : NixlKeyMetadata → NixlKeyMetadata},
      (∀ m, (f m).index = m.index) → (s.updateMeta key f).Fits := by
    intro key f hf
    have hindexOf := (updateMeta_eq s key hf).1
    obtain ⟨keyDict, heq⟩ := updateMeta_rest s key f
    rw [heq] at hindexOf ⊢
    refine h.of_le ?_ rfl
    rw [hindexOf]
    exact Nat.le_refl _
  cases e with
  | submit chunks evictKeys =>
    simp only [step]
    split
    · exact h
    · unfold submit
      split
      · exact hsubmitting rfl
      · split
        · exact h
        · exact hsubmitting rfl
  | submitStep =>
    simp only [step]
    cases ht : s.submitting with
    | none => exact h
    | some t => exact fits_submitStep h ht
  | remove key =>
    simp only [step]
    split
    · exact h
    · split
      · rename_i m hm
        have hlength := length_erase hm { s with
          keyDict := s.keyDict.erase key
          freeing := m.index :: s.freeing } rfl
        refine h.of_le ?_ rfl
        rw [hlength]
        show s.pool.indices.length + (_ +
          (s.loopHand.length + (s.submitHand.length + (s.freeing.length + 1)))) ≤ _
        omega
      · exact h
  | pushBack index =>
    simp only [step]
    split
    · rename_i hin
      have hfreeing := List.length_pos_of_mem hin
      obtain ⟨pool, hpush, hlength, hsize⟩ := h.push index (by
        rw [length_inHand]
        omega)
      rw [hpush]
      refine h.of_le ?_ hsize
      show pool.indices.length + (s.indexOf.values.length +
        (s.loopHand.length + (s.submitHand.length + (s.freeing.erase index).length))) ≤ _
      rw [List.length_erase_of_mem hin]
      omega
    · exact h
  | start =>
    simp only [step]
    split
    · exact hloop _ rfl
    · exact h
  | loopStep raised =>
    simp only [step]
    cases htask : s.loop with
    | idle => exact h
    | writing w => exact fits_writeStep h htask raised
    | reading _ => exact hloop s.scheduled rfl
  | storageToMem keys =>
    simp only [step]
    split
    · exact hloop s.scheduled rfl
    · exact h
  | contains key pin =>
    simp only [step]
    split
    · exact h
    · exact hmeta fun _ => rfl
  | pin key =>
    simp only [step]
    split
    · exact h
    · exact hmeta fun _ => rfl
  | unpin key =>
    simp only [step]
    split
    · exact h
    · exact hmeta fun _ => rfl

/-- **In no run** are there more descriptors than in the pool at the start. -/
theorem always_fits (size : Nat) (es : List NixlEvent) : Always step Fits (init size) es := by
  refine always_of_step (fun _ e h => fits_step h e) ?_ es
  show (List.range size).reverse.length + 0 ≤ size
  rw [List.length_reverse, List.length_range]
  omega

/-! ## Runs -/

def nixlKey (chunkHash : Int) : CacheEngineKey := ⟨"model", 1, 0, chunkHash, .float16, none, none⟩

def nixlObj (byte : UInt8) : NixlObj := ⟨[1], .float16, .KV_2LTD, [byte]⟩

/-- A put from its submission to the end of its transfer, when nothing is evicted. -/
def wholePut (chunkHash : Int) (byte : UInt8) : List NixlEvent :=
  [.submit [(nixlKey chunkHash, nixlObj byte)] [], .submitStep, .start, .loopStep false,
    .loopStep false, .loopStep false]

/-- A put, a read, and a put that evicts the first key. -/
def putAfterPut : List NixlEvent :=
  wholePut 1 7 ++ [.storageToMem [nixlKey 1], .loopStep false,
    .submit [(nixlKey 2, nixlObj 8)] [nixlKey 1], .submitStep, .submitStep, .submitStep, .start,
    .loopStep false, .loopStep false, .loopStep false, .contains (nixlKey 2) true]

/-- Two puts are submitted before the first coroutine runs: both count the one descriptor. -/
def backToBackPuts : List NixlEvent :=
  [.submit [(nixlKey 1, nixlObj 7)] [], .submitStep, .submit [(nixlKey 2, nixlObj 8)] [],
    .submitStep, .start, .loopStep false, .loopStep false, .loopStep false, .start, .loopStep false]

/-- A key is looked up when it is in `key_dict` and its data is not in the storage. -/
def earlyLookup : List NixlEvent :=
  [.submit [(nixlKey 1, nixlObj 7)] [], .submitStep, .start, .loopStep false, .loopStep false,
    .contains (nixlKey 1) false]

end NixlStaticBackend

end LMCache.Storage
