/-
# LMCache.Controller.WorkerNode — what the controller knows about one worker.

A `WorkerNode` keeps for each location (a storage backend of the worker) the set of chunk hashes the
worker is believed to hold there, the last sequence number seen, and the state of a full sync.
Incremental changes arrive as `BatchedKVOperationMsg`; while the worker is `SYNCING` they are
rejected, and only the batches of the full sync itself are applied.
-/
import LMCache.Lib.Dict
import LMCache.Lib.Mirror
import Mathlib.Data.Finset.Basic

namespace LMCache.Controller

open LMCache.Lib

/-! ## Messages -/

inductive OpType where
  | ADMIT
  | EVICT
  deriving DecidableEq, Repr

structure KVOpEvent where
  opType : OpType
  key : Int
  seqNum : Int
  deriving DecidableEq, Repr

/-- The change of a set of chunk hashes that an operation asks for. -/
def KVOpEvent.note (op : KVOpEvent) : Note Int :=
  match op.opType with
  | .ADMIT => .add op.key
  | .EVICT => .discard op.key

structure BatchedKVOperationMsg where
  instanceId : String
  workerId : Nat
  location : String
  operations : List KVOpEvent
  deriving DecidableEq, Repr

/-! ## The node -/

inductive FullSyncState where
  | IDLE
  | SYNCING
  | COMPLETED
  | FAILED
  deriving DecidableEq, Repr

structure WorkerSyncInfo where
  syncId : String
  state : FullSyncState
  expectedTotalKeys : Nat
  expectedBatchCount : Nat
  receivedBatches : Finset Nat := ∅
  receivedKeysCount : Nat := 0
  deriving DecidableEq

structure WorkerNode where
  seqTracker : Dict String Int := .empty
  kvStore : Dict String (Finset Int) := .empty
  syncInfo : Option WorkerSyncInfo := none

/-- The arguments of the warning about a sequence gap: expected number, actual number, gap. -/
abbrev SeqWarning := Int × Int × Int

/-- What the loop over the operations of a message reads and writes: the key set of the location,
its entry in `seq_tracker`, and the first sequence gap met. -/
structure OpLoop where
  keys : Finset Int
  lastSeqNum : Option Int
  seqWarning : Option SeqWarning

namespace OpLoop

/-- The operation itself: it is applied before the sequence number is looked at. -/
def applyOp (keys : Finset Int) (op : KVOpEvent) : Finset Int :=
  match op.opType with
  | .ADMIT => insert op.key keys
  | .EVICT => keys.erase op.key

/-- The sequence check of one operation: only the first gap of a message is kept. -/
def checkSeq (l : OpLoop) (op : KVOpEvent) : Option SeqWarning :=
  match l.lastSeqNum, l.seqWarning with
  | some last, none =>
    if op.seqNum ≠ last + 1 then some (last + 1, op.seqNum, op.seqNum - (last + 1)) else none
  | _, warning => warning

def step (isFullSync : Bool) (l : OpLoop) (op : KVOpEvent) : OpLoop :=
  if isFullSync then { l with keys := applyOp l.keys op }
  else ⟨applyOp l.keys op, some op.seqNum, l.checkSeq op⟩

theorem coe_applyOp (keys : Finset Int) (op : KVOpEvent) :
    (applyOp keys op : Set Int) = op.note.apply (keys : Set Int) := by
  unfold applyOp KVOpEvent.note
  cases op.opType with
  | ADMIT => simp [Note.apply]
  | EVICT => simp [Note.apply]

/-- The loop applies the operations in order, whatever the sequence numbers are. -/
theorem coe_keys_foldl (isFullSync : Bool) (l : OpLoop) (ops : List KVOpEvent) :
    ((ops.foldl (step isFullSync) l).keys : Set Int) =
      Note.applyAll (l.keys : Set Int) (ops.map KVOpEvent.note) := by
  induction ops generalizing l with
  | nil => rfl
  | cons op ops ih =>
    have hkeys : (step isFullSync l op).keys = applyOp l.keys op := by
      cases isFullSync <;> rfl
    rw [List.foldl_cons, ih, hkeys, coe_applyOp, List.map_cons, Note.applyAll_cons]

end OpLoop

namespace WorkerNode

/-- `get_kv_keys`. -/
def getKvKeys (w : WorkerNode) (location : String) : Finset Int :=
  (w.kvStore.get? location).getD ∅

/-- `FullSyncTracker.is_worker_syncing` of the worker this node stands for. -/
def isWorkerSyncing (w : WorkerNode) : Bool :=
  match w.syncInfo with
  | none => false
  | some info => info.state = .SYNCING

/-- Write a location's key set back; an empty set is dropped from the store. -/
def putKeys (w : WorkerNode) (location : String) (keys : Finset Int) : WorkerNode :=
  { w with kvStore := if keys = ∅ then w.kvStore.erase location else w.kvStore.set location keys }

/-- Write a location's entry of `seq_tracker` back, if it has one. -/
def putSeqNum (w : WorkerNode) (location : String) : Option Int → WorkerNode
  | some n => { w with seqTracker := w.seqTracker.set location n }
  | none => w

/-- `handle_batched_kv_operations`: the node afterwards, whether the message was processed, and the
sequence gap that is logged and reported to `on_seq_num_out_of_order`. -/
def handleBatchedKvOperations (w : WorkerNode) (msg : BatchedKVOperationMsg)
    (isFullSync : Bool) : WorkerNode × Bool × Option SeqWarning :=
  if w.isWorkerSyncing ∧ !isFullSync then (w, false, none)
  else
    let l := msg.operations.foldl (OpLoop.step isFullSync)
      ⟨w.getKvKeys msg.location, w.seqTracker.get? msg.location, none⟩
    ((w.putKeys msg.location l.keys).putSeqNum msg.location l.lastSeqNum, true, l.seqWarning)

/-- `clear_worker_kv` of one location. -/
def clearWorkerKv (w : WorkerNode) (location : String) : WorkerNode :=
  { w with kvStore := w.kvStore.erase location, seqTracker := w.seqTracker.erase location }

/-! ## What a message does to the key sets -/

variable (w : WorkerNode) (msg : BatchedKVOperationMsg)

theorem getKvKeys_putKeys (location loc : String) (keys : Finset Int) :
    (w.putKeys location keys).getKvKeys loc = if loc = location then keys else w.getKvKeys loc := by
  unfold putKeys getKvKeys
  by_cases hk : keys = ∅
  · subst hk
    by_cases hl : loc = location <;> simp [hl]
  · by_cases hl : loc = location <;> simp [hk, hl]

@[simp] theorem getKvKeys_putSeqNum (location loc : String) (n : Option Int) :
    (w.putSeqNum location n).getKvKeys loc = w.getKvKeys loc := by
  cases n <;> rfl

@[simp] theorem syncInfo_putSeqNum (location : String) (n : Option Int) :
    (w.putSeqNum location n).syncInfo = w.syncInfo := by
  cases n <;> rfl

theorem getKvKeys_clearWorkerKv (location loc : String) :
    (w.clearWorkerKv location).getKvKeys loc = if loc = location then ∅ else w.getKvKeys loc := by
  unfold clearWorkerKv getKvKeys
  by_cases hl : loc = location <;> simp [hl]

theorem handle_of_syncing {w : WorkerNode} (h : w.isWorkerSyncing = true) :
    w.handleBatchedKvOperations msg false = (w, false, none) := by
  simp [handleBatchedKvOperations, h]

/-- A message that is not rejected changes the key set of its own location, by its operations in
order, and no other. -/
theorem getKvKeys_handle {w : WorkerNode} {isFullSync : Bool}
    (h : w.isWorkerSyncing = false ∨ isFullSync = true) (loc : String) :
    ((w.handleBatchedKvOperations msg isFullSync).1.getKvKeys loc : Set Int) =
      if loc = msg.location
      then Note.applyAll (w.getKvKeys loc : Set Int) (msg.operations.map KVOpEvent.note)
      else w.getKvKeys loc := by
  have hcond : ¬(w.isWorkerSyncing ∧ !isFullSync) := by
    rcases h with h | h <;> simp [h]
  unfold handleBatchedKvOperations
  rw [if_neg hcond, getKvKeys_putSeqNum, getKvKeys_putKeys]
  by_cases hloc : loc = msg.location
  · rw [if_pos hloc, if_pos hloc, OpLoop.coe_keys_foldl, hloc]
  · rw [if_neg hloc, if_neg hloc]

/-- Messages never change the state of a full sync. -/
@[simp] theorem syncInfo_handle (msg : BatchedKVOperationMsg) (isFullSync : Bool) :
    (w.handleBatchedKvOperations msg isFullSync).1.syncInfo = w.syncInfo := by
  unfold handleBatchedKvOperations
  by_cases hcond : w.isWorkerSyncing ∧ !isFullSync
  · rw [if_pos hcond]
  · rw [if_neg hcond, syncInfo_putSeqNum]
    rfl

end WorkerNode

/-! ## The controller's handler of incremental messages -/

namespace KVController

/-- `KVController.handle_batched_kv_operations` of a registered worker: empty messages are ignored
and messages of a worker that is `SYNCING` are discarded. -/
def handleBatchedKvOperations (w : WorkerNode) (msg : BatchedKVOperationMsg) : WorkerNode :=
  if msg.operations = [] then w
  else if w.isWorkerSyncing then w
  else (w.handleBatchedKvOperations msg false).1

variable (msg : BatchedKVOperationMsg)

theorem handle_of_syncing {w : WorkerNode} (h : w.isWorkerSyncing = true) :
    handleBatchedKvOperations w msg = w := by
  simp [handleBatchedKvOperations, h]

theorem getKvKeys_handle {w : WorkerNode} (h : w.isWorkerSyncing = false) (loc : String) :
    ((handleBatchedKvOperations w msg).getKvKeys loc : Set Int) =
      if loc = msg.location
      then Note.applyAll (w.getKvKeys loc : Set Int) (msg.operations.map KVOpEvent.note)
      else w.getKvKeys loc := by
  unfold handleBatchedKvOperations
  by_cases hops : msg.operations = []
  · rw [if_pos hops, hops]
    simp
  · rw [if_neg hops, h]
    exact WorkerNode.getKvKeys_handle msg (.inl h) loc

@[simp] theorem syncInfo_handle (w : WorkerNode) (msg : BatchedKVOperationMsg) :
    (handleBatchedKvOperations w msg).syncInfo = w.syncInfo := by
  unfold handleBatchedKvOperations
  by_cases hops : msg.operations = []
  · rw [if_pos hops]
  · rw [if_neg hops]
    by_cases hs : w.isWorkerSyncing = true
    · rw [if_pos hs]
    · rw [if_neg hs, WorkerNode.syncInfo_handle]

@[simp] theorem isWorkerSyncing_handle (w : WorkerNode) (msg : BatchedKVOperationMsg) :
    (handleBatchedKvOperations w msg).isWorkerSyncing = w.isWorkerSyncing := by
  simp [WorkerNode.isWorkerSyncing]

end KVController

end LMCache.Controller
