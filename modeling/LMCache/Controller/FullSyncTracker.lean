/-
# LMCache.Controller.FullSyncTracker — the controller's side of a full sync.

A full sync replaces what the controller knows about one location of a worker.  The worker asks to
start it, sends its keys in numbered batches, and sends an end message; then it polls the status and
resends the batches reported missing.  The tracker keeps the session in `sync_info` of the worker's
node.

Only a session that is `SYNCING` accepts batches and reports missing ones.  `complete_sync` looks at
the session id and compares key counts for the log; it does not look at the batches received.
-/
import LMCache.Controller.WorkerNode

namespace LMCache.Controller

open LMCache.Lib

/-! ## Messages -/

structure FullSyncStartMsg where
  location : String
  syncId : String
  totalKeys : Nat
  batchCount : Nat
  deriving DecidableEq, Repr

structure FullSyncBatchMsg where
  instanceId : String
  workerId : Nat
  location : String
  syncId : String
  batchId : Nat
  keys : List Int
  deriving DecidableEq, Repr

structure FullSyncEndMsg where
  location : String
  syncId : String
  actualTotalKeys : Nat
  deriving DecidableEq, Repr

/-! ## The tracker -/

namespace FullSyncTracker

/-- `start_sync` of a registered worker: refused while another session is `SYNCING`. -/
def startSync (w : WorkerNode) (syncId : String) (totalKeys batchCount : Nat) :
    WorkerNode × Bool :=
  match w.syncInfo with
  | some info =>
    if info.state = .SYNCING ∧ info.syncId ≠ syncId then (w, false)
    else ({ w with syncInfo := some ⟨syncId, .SYNCING, totalKeys, batchCount, ∅, 0⟩ }, true)
  | none => ({ w with syncInfo := some ⟨syncId, .SYNCING, totalKeys, batchCount, ∅, 0⟩ }, true)

/-- `receive_batch`. -/
def receiveBatch (w : WorkerNode) (syncId : String) (batchId keysCount : Nat) :
    WorkerNode × Bool :=
  match w.syncInfo with
  | none => (w, false)
  | some info =>
    if info.syncId ≠ syncId then (w, false)
    else if info.state ≠ .SYNCING then (w, false)
    else
      ({ w with
          syncInfo := some { info with
            receivedBatches := insert batchId info.receivedBatches
            receivedKeysCount := info.receivedKeysCount + keysCount } }, true)

/-- `complete_sync`: whether the session was marked, and the two key counts of the warning that is
logged when they differ. -/
def completeSync (w : WorkerNode) (syncId : String) (actualTotalKeys : Nat) :
    WorkerNode × Bool × Option (Nat × Nat) :=
  match w.syncInfo with
  | none => (w, false, none)
  | some info =>
    if info.syncId ≠ syncId then (w, false, none)
    else
      -- neither the count nor the set of batches received stops the completion
      ({ w with syncInfo := some { info with state := .COMPLETED } }, true,
        if info.receivedKeysCount ≠ actualTotalKeys then
          some (info.receivedKeysCount, actualTotalKeys)
        else none)

/-- `get_missing_batches`, in increasing order. -/
def getMissingBatches (w : WorkerNode) (syncId : String) : List Nat :=
  match w.syncInfo with
  | none => []
  | some info =>
    if info.syncId ≠ syncId then []
    else if info.state ≠ .SYNCING then []
    else (List.range info.expectedBatchCount).filter fun i => i ∉ info.receivedBatches

/-- `is_complete` of `get_sync_status`. -/
def isComplete (w : WorkerNode) (syncId : String) : Bool :=
  match w.syncInfo with
  | none => false
  | some info => info.syncId = syncId ∧ info.state = .COMPLETED

/-- `get_global_progress`: the share of workers that have completed a sync or need none. -/
def getGlobalProgress (workers : List WorkerNode) : ℚ :=
  if workers = [] then 0
  else
    (workers.countP fun w =>
      match w.syncInfo with
      | none => true
      | some info => info.state = .COMPLETED : ℚ) / workers.length

end FullSyncTracker

/-! ## The handlers -/

namespace KVController

/-- Empty a location that has keys. -/
def clearExisting (w : WorkerNode) (location : String) : WorkerNode :=
  if w.getKvKeys location = ∅ then w else w.clearWorkerKv location

/-- `handle_full_sync_start`: once the session has started, its location is emptied. -/
def handleFullSyncStart (w : WorkerNode) (msg : FullSyncStartMsg) : WorkerNode × Bool :=
  let (w', success) := FullSyncTracker.startSync w msg.syncId msg.totalKeys msg.batchCount
  (if success then clearExisting w' msg.location else w', success)

/-- The keys of a batch as operations, numbered from 0. -/
def batchOperations (keys : List Int) : List KVOpEvent :=
  keys.zipIdx.map fun (key, seqNum) => ⟨.ADMIT, key, seqNum⟩

/-- The second half of `handle_full_sync_batch`: apply the keys of a recorded batch. -/
def addBatch (w : WorkerNode) (msg : FullSyncBatchMsg) : WorkerNode :=
  if batchOperations msg.keys = [] then w
  else
    (w.handleBatchedKvOperations
      ⟨msg.instanceId, msg.workerId, msg.location, batchOperations msg.keys⟩ true).1

/-- `handle_full_sync_batch`: a batch that is not recorded changes nothing. -/
def handleFullSyncBatch (w : WorkerNode) (msg : FullSyncBatchMsg) : WorkerNode :=
  let (w', recorded) := FullSyncTracker.receiveBatch w msg.syncId msg.batchId msg.keys.length
  if recorded then addBatch w' msg else w'

/-- `handle_full_sync_end`. -/
def handleFullSyncEnd (w : WorkerNode) (msg : FullSyncEndMsg) : WorkerNode :=
  (FullSyncTracker.completeSync w msg.syncId msg.actualTotalKeys).1

/-! ### What the handlers do -/

variable (w : WorkerNode)

theorem getKvKeys_clearExisting (location loc : String) :
    (clearExisting w location).getKvKeys loc = if loc = location then ∅ else w.getKvKeys loc := by
  unfold clearExisting
  by_cases hempty : w.getKvKeys location = ∅
  · rw [if_pos hempty]
    by_cases hloc : loc = location
    · rw [if_pos hloc, hloc, hempty]
    · rw [if_neg hloc]
  · rw [if_neg hempty, WorkerNode.getKvKeys_clearWorkerKv]

@[simp] theorem syncInfo_clearExisting (location : String) :
    (clearExisting w location).syncInfo = w.syncInfo := by
  unfold clearExisting
  split <;> rfl

/-- A start is refused, or it opens a fresh session and empties its location and no other. -/
theorem handleFullSyncStart_cases (msg : FullSyncStartMsg) :
    (handleFullSyncStart w msg = (w, false) ∧
      ∃ info, w.syncInfo = some info ∧ info.state = .SYNCING ∧ info.syncId ≠ msg.syncId) ∨
    ((handleFullSyncStart w msg).2 = true ∧
      (handleFullSyncStart w msg).1.syncInfo =
        some ⟨msg.syncId, .SYNCING, msg.totalKeys, msg.batchCount, ∅, 0⟩ ∧
      ∀ loc, (handleFullSyncStart w msg).1.getKvKeys loc =
        if loc = msg.location then ∅ else w.getKvKeys loc) := by
  have hstart : FullSyncTracker.startSync w msg.syncId msg.totalKeys msg.batchCount = (w, false) ∧
      (∃ info, w.syncInfo = some info ∧ info.state = .SYNCING ∧ info.syncId ≠ msg.syncId) ∨
      FullSyncTracker.startSync w msg.syncId msg.totalKeys msg.batchCount =
        ({ w with
            syncInfo := some ⟨msg.syncId, .SYNCING, msg.totalKeys, msg.batchCount, ∅, 0⟩ },
          true) := by
    unfold FullSyncTracker.startSync
    cases hi : w.syncInfo with
    | none => exact .inr rfl
    | some info =>
      by_cases hrefused : info.state = .SYNCING ∧ info.syncId ≠ msg.syncId
      · exact .inl ⟨if_pos hrefused, info, rfl, hrefused⟩
      · exact .inr (if_neg hrefused)
  unfold handleFullSyncStart
  rcases hstart with ⟨h, hinfo⟩ | h
  · rw [h]
    exact .inl ⟨rfl, hinfo⟩
  · rw [h]
    exact .inr ⟨rfl, syncInfo_clearExisting _ _, getKvKeys_clearExisting _ _⟩

theorem map_note_batchOperations (keys : List Int) :
    (batchOperations keys).map KVOpEvent.note = keys.map Note.add := by
  unfold batchOperations
  rw [List.map_map]
  show keys.zipIdx.map (Note.add ∘ Prod.fst) = keys.map Note.add
  rw [← List.map_map, List.zipIdx_map_fst]

theorem applyAll_map_add (V : Set Int) (keys : List Int) :
    Note.applyAll V (keys.map Note.add) = V ∪ {k | k ∈ keys} := by
  induction keys generalizing V with
  | nil => simp
  | cons k ks ih =>
    rw [List.map_cons, Note.applyAll_cons, ih]
    ext x
    simp only [Note.apply, Set.mem_union, Set.mem_insert_iff, Set.mem_ofPred_eq, List.mem_cons]
    tauto

/-- The keys of a batch are added to its location, whatever the state of the node. -/
theorem getKvKeys_addBatch (msg : FullSyncBatchMsg) (loc : String) :
    ((addBatch w msg).getKvKeys loc : Set Int) =
      if loc = msg.location then (w.getKvKeys loc : Set Int) ∪ {k | k ∈ msg.keys}
      else w.getKvKeys loc := by
  rw [← applyAll_map_add, ← map_note_batchOperations]
  unfold addBatch
  by_cases hops : batchOperations msg.keys = []
  · rw [if_pos hops, hops, List.map_nil, Note.applyAll_nil, ite_self]
  · rw [if_neg hops, WorkerNode.getKvKeys_handle _ (.inr rfl)]

@[simp] theorem syncInfo_addBatch (msg : FullSyncBatchMsg) :
    (addBatch w msg).syncInfo = w.syncInfo := by
  unfold addBatch
  by_cases hops : batchOperations msg.keys = []
  · rw [if_pos hops]
  · rw [if_neg hops, WorkerNode.syncInfo_handle]

/-- A batch is recorded, and its keys are added to its location, exactly when it belongs to the
session that is `SYNCING`. -/
theorem handleFullSyncBatch_cases (msg : FullSyncBatchMsg) :
    (handleFullSyncBatch w msg = w ∧
      ∀ info, w.syncInfo = some info → ¬(info.syncId = msg.syncId ∧ info.state = .SYNCING)) ∨
    ∃ info, w.syncInfo = some info ∧ info.syncId = msg.syncId ∧ info.state = .SYNCING ∧
      (handleFullSyncBatch w msg).syncInfo = some { info with
        receivedBatches := insert msg.batchId info.receivedBatches
        receivedKeysCount := info.receivedKeysCount + msg.keys.length } ∧
      ∀ loc, ((handleFullSyncBatch w msg).getKvKeys loc : Set Int) =
        if loc = msg.location then (w.getKvKeys loc : Set Int) ∪ {k | k ∈ msg.keys}
        else w.getKvKeys loc := by
  have hreceive : FullSyncTracker.receiveBatch w msg.syncId msg.batchId msg.keys.length =
        (w, false) ∧
      (∀ info, w.syncInfo = some info → ¬(info.syncId = msg.syncId ∧ info.state = .SYNCING)) ∨
      ∃ info, w.syncInfo = some info ∧ info.syncId = msg.syncId ∧ info.state = .SYNCING ∧
        FullSyncTracker.receiveBatch w msg.syncId msg.batchId msg.keys.length =
          ({ w with
              syncInfo := some { info with
                receivedBatches := insert msg.batchId info.receivedBatches
                receivedKeysCount := info.receivedKeysCount + msg.keys.length } }, true) := by
    unfold FullSyncTracker.receiveBatch
    cases hi : w.syncInfo with
    | none => exact .inl ⟨rfl, fun _ h => by cases h⟩
    | some info =>
      by_cases hid : info.syncId = msg.syncId
      · by_cases hst : info.state = .SYNCING
        · exact .inr ⟨info, rfl, hid, hst, by simp [hid, hst]⟩
        · exact .inl ⟨by simp [hid, hst], fun _ h hc => by cases h; exact hst hc.2⟩
      · exact .inl ⟨by simp [hid], fun _ h hc => by cases h; exact hid hc.1⟩
  unfold handleFullSyncBatch
  rcases hreceive with ⟨h, hinfo⟩ | ⟨info, hi, hid, hst, h⟩
  · rw [h]
    exact .inl ⟨rfl, hinfo⟩
  · rw [h]
    exact .inr ⟨info, hi, hid, hst, syncInfo_addBatch _ _, getKvKeys_addBatch _ _⟩

/-- The end message marks the session with its id, and touches no key. -/
theorem handleFullSyncEnd_cases (msg : FullSyncEndMsg) :
    (handleFullSyncEnd w msg = w ∧ ∀ info, w.syncInfo = some info → info.syncId ≠ msg.syncId) ∨
    ∃ info, w.syncInfo = some info ∧ info.syncId = msg.syncId ∧
      handleFullSyncEnd w msg = { w with syncInfo := some { info with state := .COMPLETED } } := by
  unfold handleFullSyncEnd FullSyncTracker.completeSync
  cases hi : w.syncInfo with
  | none => exact .inl ⟨rfl, fun _ h => by cases h⟩
  | some info =>
    by_cases hid : info.syncId = msg.syncId
    · exact .inr ⟨info, rfl, hid, by simp [hid]⟩
    · exact .inl ⟨by simp [hid], fun _ h => by cases h; exact hid⟩

end KVController

end LMCache.Controller
