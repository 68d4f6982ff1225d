/-
# LMCache.Controller.SequenceGaps — what the sequence numbers of a worker's batches give away.

Source: `WorkerNode` and `RegistryTree` in `cache_controller/utils.py`.

The registry counts the batches in which a sequence number does not follow the one recorded before it
for the same location.  Only ordinary batches record numbers: those of a full sync change the key
sets alone, a rejected batch changes nothing, and a clear forgets both.

Beside the registry a run keeps a log of the batches that were applied and of the clears, the newest
first, which no call reads.  The key sets, the numbers recorded and the count are functions of it.
-/
import LMCache.Controller.Registration
import LMCache.Lib.Consecutive
import LMCache.Storage.BatchedMessageSender

namespace LMCache.Controller

open LMCache.Lib

/-! ## The registry with its counter -/

namespace WorkerNode

/-- `clear_kv_store`. -/
def clearKvStore (w : WorkerNode) : WorkerNode :=
  { w with kvStore := .empty, seqTracker := .empty }

/-- What `clear_worker_kv` does to the node: everything goes, or one location. -/
def clear (w : WorkerNode) : Option String → WorkerNode
  | none => w.clearKvStore
  | some location => w.clearWorkerKv location

end WorkerNode

/-- `RegistryTree` with its counter. -/
structure CountingRegistry where
  registry : Registry
  seqDiscontinuityCount : Nat

namespace CountingRegistry

variable (r : CountingRegistry)

/-- `handle_batched_kv_operations`: whether the operations were processed, and the registry.  The
counter is raised by the callback that the node calls for its warning. -/
def handleBatchedKvOperations (msg : BatchedKVOperationMsg) (isFullSync : Bool) :
    Bool × CountingRegistry :=
  match r.registry.getWorker msg.instanceId msg.workerId with
  | none => (false, r)
  | some entry =>
    let handled := entry.node.handleBatchedKvOperations msg isFullSync
    (handled.2.1,
      ⟨r.registry.handleBatchedKvOperations msg isFullSync,
        r.seqDiscontinuityCount + if handled.2.2.isSome then 1 else 0⟩)

/-- `clear_worker_kv`: whether there is such a worker, and the registry. -/
def clearWorkerKv (instanceId : String) (workerId : Nat) (location : Option String) :
    Bool × CountingRegistry :=
  ((r.registry.getWorker instanceId workerId).isSome,
    { r with registry := r.registry.modifyWorker instanceId workerId fun entry =>
        { entry with node := entry.node.clear location } })

/-- `clear_all_worker_kv`. -/
def clearAllWorkerKv (instanceId : String) (workerId : Nat) : Bool × CountingRegistry :=
  ((r.registry.getWorker instanceId workerId).isSome,
    { r with registry := r.registry.modifyWorker instanceId workerId fun entry =>
        { entry with node := entry.node.clearKvStore } })

/-- A full sync of the worker starts, ends or fails. -/
def setSyncInfo (instanceId : String) (workerId : Nat) (syncInfo : Option WorkerSyncInfo) :
    CountingRegistry :=
  { r with registry := r.registry.modifyWorker instanceId workerId fun entry =>
      { entry with node := { entry.node with syncInfo := syncInfo } } }

end CountingRegistry

/-! ## The log -/

/-- A location of a worker. -/
structure Place where
  instanceId : String
  workerId : Nat
  location : String
  deriving DecidableEq, Repr

/-- Where a batch is to be applied. -/
def BatchedKVOperationMsg.place (msg : BatchedKVOperationMsg) : Place :=
  ⟨msg.instanceId, msg.workerId, msg.location⟩

/-- The sequence numbers of a batch. -/
def BatchedKVOperationMsg.seqNums (msg : BatchedKVOperationMsg) : List Int :=
  msg.operations.map KVOpEvent.seqNum

/-- What was done: a batch was applied, or a worker's sets were cleared (all, or one location's). -/
inductive LogEntry where
  | applied (msg : BatchedKVOperationMsg) (isFullSync : Bool)
  | cleared (instanceId : String) (workerId : Nat) (location : Option String)
  deriving DecidableEq

/-- The entry is a clear that reaches the place. -/
def LogEntry.Clears (p : Place) : LogEntry → Prop
  | .applied _ _ => False
  | .cleared instanceId workerId location =>
    p.instanceId = instanceId ∧ p.workerId = workerId ∧
      (location = none ∨ location = some p.location)

instance (p : Place) (e : LogEntry) : Decidable (e.Clears p) := by
  cases e <;> unfold LogEntry.Clears <;> infer_instance

namespace Log

/-- The batches applied to a place since its last clear, oldest first, and whether each is one of a
full sync. -/
def sinceClear (p : Place) : List LogEntry → List (BatchedKVOperationMsg × Bool)
  | [] => []
  | .applied msg isFullSync :: log =>
    if msg.place = p then sinceClear p log ++ [(msg, isFullSync)] else sinceClear p log
  | .cleared instanceId workerId location :: log =>
    if (LogEntry.cleared instanceId workerId location).Clears p then [] else sinceClear p log

/-- The ordinary ones of them. -/
def ordinary (p : Place) (log : List LogEntry) : List BatchedKVOperationMsg :=
  ((sinceClear p log).filter fun e => !e.2).map Prod.fst

/-- The operations applied to a place since its last clear, as changes of its key set. -/
def notes (p : Place) (log : List LogEntry) : List (Note Int) :=
  (sinceClear p log).flatMap fun e => e.1.operations.map KVOpEvent.note

/-- The number recorded for a place: the last one of an ordinary batch since the last clear. -/
def recorded (p : Place) (log : List LogEntry) : Option Int :=
  ((ordinary p log).flatMap BatchedKVOperationMsg.seqNums).getLast?

/-- The ordinary batches in which some number does not follow the one before it. -/
def discontinuities : List LogEntry → Nat
  | [] => 0
  | .applied msg false :: log =>
    discontinuities log +
      if Consecutive ((recorded msg.place log).toList ++ msg.seqNums) then 0 else 1
  | .applied _ true :: log => discontinuities log
  | .cleared _ _ _ :: log => discontinuities log

end Log

/-! ## Runs -/

structure SequenceRun where
  tree : CountingRegistry
  log : List LogEntry

inductive SequenceEvent where
  | register (msg : RegisterMsg) (now : Rat)
  | deregister (msg : DeRegisterMsg)
  | deliver (msg : BatchedKVOperationMsg) (isFullSync : Bool)
  | clearWorkerKv (instanceId : String) (workerId : Nat) (location : Option String)
  | clearAllWorkerKv (instanceId : String) (workerId : Nat)
  | setSyncInfo (instanceId : String) (workerId : Nat) (syncInfo : Option WorkerSyncInfo)

namespace SequenceRun

def init : SequenceRun := ⟨⟨.empty, 0⟩, []⟩

/-- A lost batch is no event, and one that is not processed leaves no entry.  A worker that registers
starts with a new node, or with one that is cleared. -/
def step (s : SequenceRun) : SequenceEvent → SequenceRun
  | .register msg now =>
    ⟨{ s.tree with registry := RegistrationController.register s.tree.registry msg now },
      .cleared msg.instanceId msg.workerId none :: s.log⟩
  | .deregister msg =>
    ⟨{ s.tree with registry := (RegistrationController.deregister s.tree.registry msg).2 }, s.log⟩
  | .deliver msg isFullSync =>
    let handled := s.tree.handleBatchedKvOperations msg isFullSync
    ⟨handled.2, if handled.1 then .applied msg isFullSync :: s.log else s.log⟩
  | .clearWorkerKv instanceId workerId location =>
    let cleared := s.tree.clearWorkerKv instanceId workerId location
    ⟨cleared.2, if cleared.1 then .cleared instanceId workerId location :: s.log else s.log⟩
  | .clearAllWorkerKv instanceId workerId =>
    let cleared := s.tree.clearAllWorkerKv instanceId workerId
    ⟨cleared.2, if cleared.1 then .cleared instanceId workerId none :: s.log else s.log⟩
  | .setSyncInfo instanceId workerId syncInfo =>
    ⟨s.tree.setSyncInfo instanceId workerId syncInfo, s.log⟩

/-- A node is what the batches applied to it since the last clear make of it. -/
structure NodeTracks (log : List LogEntry) (instanceId : String) (workerId : Nat)
    (node : WorkerNode) : Prop where
  keys : ∀ location, (node.getKvKeys location : Set Int) =
    Note.applyAll ∅ (Log.notes ⟨instanceId, workerId, location⟩ log)
  /-- A location whose set is empty is absent. -/
  present : ∀ location, location ∈ node.kvStore ↔ node.getKvKeys location ≠ ∅
  tracker : ∀ location, node.seqTracker.get? location =
    Log.recorded ⟨instanceId, workerId, location⟩ log

/-- **The registry is what the log says**: each worker's key sets and numbers, and the count. -/
structure Tracks (s : SequenceRun) : Prop where
  nodes : ∀ instanceId workerId entry, s.tree.registry.getWorker instanceId workerId = some entry →
    NodeTracks s.log instanceId workerId entry.node
  count : s.tree.seqDiscontinuityCount = Log.discontinuities s.log

/-- Between two ordinary batches of a place that were applied, another one that the sender sent
between them was lost: it was not applied, though nothing was cleared.  The sender numbers what it
sends without gaps, and none of the three is empty. -/
structure LossBetween (p : Place) (between : List LogEntry) (first lost last : BatchedKVOperationMsg) :
    Prop where
  unclear : ∀ e ∈ between, ¬e.Clears p
  nonempty : first.operations ≠ [] ∧ lost.operations ≠ [] ∧ last.operations ≠ []
  sent : ∃ before behind : List BatchedKVOperationMsg,
    Consecutive ((first :: (before ++ lost :: behind) ++ [last]).flatMap
      BatchedKVOperationMsg.seqNums) ∧
    (Log.ordinary p between).Sublist (before ++ behind)

/-- The count rises between the two batches whenever one between them is lost. -/
def Detects (s s' : SequenceRun) : Prop :=
  ∀ p first lost last log between, first.place = p → last.place = p →
    s.log = .applied first false :: log → s'.log = .applied last false :: (between ++ s.log) →
      LossBetween p between first lost last →
        s.tree.seqDiscontinuityCount < s'.tree.seqDiscontinuityCount

end SequenceRun

/-! ## What a batch does to a node -/

namespace OpLoop

/-- In an ordinary batch the last number is the one that is remembered, and there is a warning when
the numbers do not follow each other. -/
theorem foldl_step_ordinary (ops : List KVOpEvent) (l : OpLoop) :
    (ops.foldl (step false) l).lastSeqNum = lastOf l.lastSeqNum (ops.map KVOpEvent.seqNum) ∧
    ((ops.foldl (step false) l).seqWarning.isSome ↔
      l.seqWarning.isSome ∨ ¬Consecutive (l.lastSeqNum.toList ++ ops.map KVOpEvent.seqNum)) := by
  induction ops generalizing l with
  | nil =>
    obtain ⟨keys, lastSeqNum, seqWarning⟩ := l
    cases lastSeqNum <;> simp [Consecutive, lastOf]
  | cons op ops ih =>
    obtain ⟨keys, lastSeqNum, seqWarning⟩ := l
    obtain ⟨hlast, hwarning⟩ := ih (step false ⟨keys, lastSeqNum, seqWarning⟩ op)
    rw [List.foldl_cons, hlast, hwarning, List.map_cons]
    constructor
    · show lastOf (some op.seqNum) _ = lastOf lastSeqNum ([op.seqNum] ++ _)
      rw [lastOf_append]
      cases lastSeqNum <;> rfl
    · show (checkSeq ⟨keys, lastSeqNum, seqWarning⟩ op).isSome ∨
        ¬Consecutive (op.seqNum :: ops.map KVOpEvent.seqNum) ↔ _
      cases lastSeqNum with
      | none => cases seqWarning <;> simp [checkSeq]
      | some last =>
        have hcons : Consecutive (last :: op.seqNum :: ops.map KVOpEvent.seqNum) ↔
            op.seqNum = last + 1 ∧ Consecutive (op.seqNum :: ops.map KVOpEvent.seqNum) :=
          List.isChain_cons_cons
        rw [Option.toList_some, List.singleton_append, hcons]
        cases seqWarning with
        | some warning => simp [checkSeq]
        | none => by_cases hnext : op.seqNum = last + 1 <;> simp [checkSeq, hnext]

/-- A batch of a full sync leaves the number and gives no warning. -/
theorem foldl_step_fullSync (ops : List KVOpEvent) (l : OpLoop) :
    (ops.foldl (step true) l).lastSeqNum = l.lastSeqNum ∧
      (ops.foldl (step true) l).seqWarning = l.seqWarning := by
  induction ops generalizing l with
  | nil => exact ⟨rfl, rfl⟩
  | cons op ops ih => exact ih (step true l op)

end OpLoop

namespace WorkerNode

@[simp] theorem kvStore_putSeqNum (w : WorkerNode) (location : String) (n : Option Int) :
    (w.putSeqNum location n).kvStore = w.kvStore := by
  cases n <;> rfl

/-- No location is present with an empty set. -/
def Tidy (w : WorkerNode) : Prop := ∀ location, location ∈ w.kvStore ↔ w.getKvKeys location ≠ ∅

theorem tidy_putKeys {w : WorkerNode} (h : w.Tidy) (location : String) (keys : Finset Int) :
    (w.putKeys location keys).Tidy := by
  intro loc
  rw [getKvKeys_putKeys]
  unfold putKeys
  by_cases hkeys : keys = ∅
  · rw [if_pos hkeys, Dict.mem_erase, h loc]
    by_cases hloc : loc = location <;> simp [hloc, hkeys]
  · rw [if_neg hkeys, Dict.mem_set, h loc]
    by_cases hloc : loc = location <;> simp [hloc, hkeys]

theorem get?_putSeqNum (w : WorkerNode) (location loc : String) (n : Option Int)
    (hn : n = none → w.seqTracker.get? location = none) :
    (w.putSeqNum location n).seqTracker.get? loc =
      if loc = location then n else w.seqTracker.get? loc := by
  cases n with
  | none =>
    by_cases hloc : loc = location
    · rw [if_pos hloc, hloc]
      exact hn rfl
    · rw [if_neg hloc]
      rfl
  | some n => exact Dict.get?_set _ _ _ _

/-- A batch is applied unless it is an ordinary one while the worker is synced. -/
theorem applied_handle (w : WorkerNode) (msg : BatchedKVOperationMsg) (isFullSync : Bool) :
    ((w.handleBatchedKvOperations msg isFullSync).2.1 = true ↔
      w.isWorkerSyncing = false ∨ isFullSync = true) := by
  unfold handleBatchedKvOperations
  cases isFullSync <;> cases w.isWorkerSyncing <;> simp

/-- A rejected batch leaves the node and gives no warning. -/
theorem handle_of_rejected {w : WorkerNode} {msg : BatchedKVOperationMsg} {isFullSync : Bool}
    (h : (w.handleBatchedKvOperations msg isFullSync).2.1 = false) :
    w.handleBatchedKvOperations msg isFullSync = (w, false, none) := by
  unfold handleBatchedKvOperations at h ⊢
  split
  · rfl
  · rename_i hcond
    rw [if_neg hcond] at h
    cases h

section Applied

variable {w : WorkerNode} {msg : BatchedKVOperationMsg} {isFullSync : Bool}
  (h : (w.handleBatchedKvOperations msg isFullSync).2.1 = true)

include h

/-- What is left of a batch that is applied. -/
theorem handle_of_applied : w.handleBatchedKvOperations msg isFullSync =
    let l := msg.operations.foldl (OpLoop.step isFullSync)
      ⟨w.getKvKeys msg.location, w.seqTracker.get? msg.location, none⟩
    ((w.putKeys msg.location l.keys).putSeqNum msg.location l.lastSeqNum, true, l.seqWarning) := by
  unfold handleBatchedKvOperations at h ⊢
  split
  · rename_i hcond
    rw [if_pos hcond] at h
    cases h
  · rfl

theorem tidy_handle (hw : w.Tidy) : (w.handleBatchedKvOperations msg isFullSync).1.Tidy := by
  rw [handle_of_applied h]
  intro location
  rw [kvStore_putSeqNum, getKvKeys_putSeqNum]
  exact tidy_putKeys hw _ _ location

/-- Only an ordinary batch records a number, for its location. -/
theorem get?_seqTracker_handle (location : String) :
    (w.handleBatchedKvOperations msg isFullSync).1.seqTracker.get? location =
      if location = msg.location ∧ isFullSync = false
      then lastOf (w.seqTracker.get? location) msg.seqNums
      else w.seqTracker.get? location := by
  rw [handle_of_applied h]
  dsimp only
  cases isFullSync with
  | true =>
    have hfull : ¬(location = msg.location ∧ true = false) := fun h => nomatch h.2
    rw [(OpLoop.foldl_step_fullSync _ _).1, get?_putSeqNum, if_neg hfull]
    case hn => exact id
    by_cases hloc : location = msg.location
    · rw [if_pos hloc, hloc]
    · rw [if_neg hloc]
      rfl
  | false =>
    rw [(OpLoop.foldl_step_ordinary _ _).1, get?_putSeqNum]
    · by_cases hloc : location = msg.location
      · rw [if_pos hloc, if_pos ⟨hloc, rfl⟩, hloc]
        rfl
      · rw [if_neg hloc, if_neg (fun h => hloc h.1)]
        rfl
    · intro hnone
      show w.seqTracker.get? msg.location = none
      have hempty := List.getLast?_eq_none_iff.mp hnone
      rw [List.append_eq_nil_iff] at hempty
      cases hget : w.seqTracker.get? msg.location with
      | none => rfl
      | some n => rw [hget] at hempty; cases hempty.1

/-- There is a warning when an ordinary batch does not follow the number recorded. -/
theorem isSome_warning_handle :
    ((w.handleBatchedKvOperations msg isFullSync).2.2.isSome ↔
      isFullSync = false ∧
        ¬Consecutive ((w.seqTracker.get? msg.location).toList ++ msg.seqNums)) := by
  rw [handle_of_applied h]
  dsimp only
  cases isFullSync with
  | true => simp [(OpLoop.foldl_step_fullSync _ _).2]
  | false =>
    rw [(OpLoop.foldl_step_ordinary _ _).2]
    simp [BatchedKVOperationMsg.seqNums]

end Applied

end WorkerNode

/-! ## What an entry does to the log -/

namespace Log

variable (p : Place) (msg : BatchedKVOperationMsg) (isFullSync : Bool) (log : List LogEntry)

theorem notes_applied : notes p (.applied msg isFullSync :: log) =
    if msg.place = p then notes p log ++ msg.operations.map KVOpEvent.note else notes p log := by
  unfold notes
  rw [sinceClear]
  split
  · rw [List.flatMap_append, List.flatMap_singleton]
  · rfl

theorem ordinary_applied : ordinary p (.applied msg isFullSync :: log) =
    if msg.place = p ∧ isFullSync = false then ordinary p log ++ [msg] else ordinary p log := by
  unfold ordinary
  rw [sinceClear]
  by_cases hp : msg.place = p
  · rw [if_pos hp, List.filter_append, List.map_append]
    cases isFullSync <;> simp [hp]
  · rw [if_neg hp, if_neg (fun h => hp h.1)]

theorem recorded_applied : recorded p (.applied msg isFullSync :: log) =
    if msg.place = p ∧ isFullSync = false then lastOf (recorded p log) msg.seqNums
    else recorded p log := by
  unfold recorded
  rw [ordinary_applied]
  split
  · rw [List.flatMap_append, List.flatMap_singleton]
    exact lastOf_append none _ _
  · rfl

theorem sinceClear_of_clears {p : Place} {e : LogEntry} (h : e.Clears p) :
    sinceClear p (e :: log) = [] := by
  cases e with
  | applied => exact h.elim
  | cleared => exact if_pos h

theorem sinceClear_of_not_clears {p : Place} {instanceId : String} {workerId : Nat}
    {location : Option String} (h : ¬(LogEntry.cleared instanceId workerId location).Clears p) :
    sinceClear p (.cleared instanceId workerId location :: log) = sinceClear p log :=
  if_neg h

end Log

namespace SequenceRun

namespace NodeTracks

variable {log : List LogEntry} {instanceId : String} {workerId : Nat} {node : WorkerNode}

/-- A node tracks the log as far as its own places go. -/
theorem congr {log' : List LogEntry} (h : NodeTracks log instanceId workerId node)
    (hlog : ∀ location, Log.sinceClear ⟨instanceId, workerId, location⟩ log' =
      Log.sinceClear ⟨instanceId, workerId, location⟩ log) :
    NodeTracks log' instanceId workerId node := by
  refine ⟨fun location => ?_, h.present, fun location => ?_⟩
  · rw [h.keys]
    unfold Log.notes
    rw [hlog]
  · rw [h.tracker]
    unfold Log.recorded Log.ordinary
    rw [hlog]

variable {msg : BatchedKVOperationMsg}

/-- A batch for another worker. -/
theorem applied_other (h : NodeTracks log instanceId workerId node) {isFullSync : Bool}
    (hother : ¬(instanceId = msg.instanceId ∧ workerId = msg.workerId)) :
    NodeTracks (.applied msg isFullSync :: log) instanceId workerId node := by
  refine h.congr fun location => if_neg fun hplace => hother ?_
  cases hplace
  exact ⟨rfl, rfl⟩

/-- A batch that the node applies. -/
theorem applied_handle {isFullSync : Bool} (h : NodeTracks log msg.instanceId msg.workerId node)
    (happlied : (node.handleBatchedKvOperations msg isFullSync).2.1 = true) :
    NodeTracks (.applied msg isFullSync :: log) msg.instanceId msg.workerId
      (node.handleBatchedKvOperations msg isFullSync).1 := by
  have hplace (location : String) :
      msg.place = ⟨msg.instanceId, msg.workerId, location⟩ ↔ location = msg.location := by
    simp [BatchedKVOperationMsg.place, eq_comm]
  refine ⟨fun location => ?_, WorkerNode.tidy_handle happlied h.present, fun location => ?_⟩
  · rw [WorkerNode.getKvKeys_handle msg ((WorkerNode.applied_handle node msg _).mp happlied),
      Log.notes_applied, h.keys]
    by_cases hlocation : location = msg.location
    · rw [if_pos hlocation, if_pos ((hplace location).mpr hlocation), Note.applyAll_append]
    · rw [if_neg hlocation, if_neg fun hp => hlocation ((hplace location).mp hp)]
  · rw [WorkerNode.get?_seqTracker_handle happlied, Log.recorded_applied, h.tracker]
    simp only [hplace]

/-- A clear of another worker. -/
theorem cleared_other (h : NodeTracks log instanceId workerId node) {instanceId' : String}
    {workerId' : Nat} {location' : Option String}
    (hother : ¬(instanceId = instanceId' ∧ workerId = workerId')) :
    NodeTracks (.cleared instanceId' workerId' location' :: log) instanceId workerId node :=
  h.congr fun _ => if_neg fun hclears => hother ⟨hclears.1, hclears.2.1⟩

/-- A node without keys and numbers, behind a clear. -/
theorem of_empty (log : List LogEntry) (instanceId : String) (workerId : Nat)
    (hkeys : node.kvStore = .empty) (htracker : node.seqTracker = .empty) :
    NodeTracks (.cleared instanceId workerId none :: log) instanceId workerId node := by
  have hsince (location : String) : Log.sinceClear ⟨instanceId, workerId, location⟩
      (.cleared instanceId workerId none :: log) = [] :=
    Log.sinceClear_of_clears log ⟨rfl, rfl, .inl rfl⟩
  have hget (location : String) : node.getKvKeys location = ∅ := by
    unfold WorkerNode.getKvKeys
    rw [hkeys]
    rfl
  refine ⟨fun location => ?_, fun location => ?_, fun location => ?_⟩
  · unfold Log.notes
    rw [hget, hsince]
    exact Finset.coe_empty
  · simp [hget, hkeys]
  · unfold Log.recorded Log.ordinary
    rw [hsince, htracker]
    rfl

/-- A clear of the node's own. -/
theorem cleared_own (h : NodeTracks log instanceId workerId node) (location : Option String) :
    NodeTracks (.cleared instanceId workerId location :: log) instanceId workerId
      (node.clear location) := by
  cases location with
  | none => exact of_empty log instanceId workerId rfl rfl
  | some cleared =>
    have hclears (location : String) :
        (LogEntry.cleared instanceId workerId (some cleared)).Clears
          ⟨instanceId, workerId, location⟩ ↔ location = cleared := by
      simp [LogEntry.Clears, eq_comm]
    have hsince (location : String) : Log.sinceClear ⟨instanceId, workerId, location⟩
        (.cleared instanceId workerId (some cleared) :: log) =
          if location = cleared then [] else Log.sinceClear ⟨instanceId, workerId, location⟩ log := by
      rw [Log.sinceClear]
      exact if_congr (hclears location) rfl rfl
    refine ⟨fun location => ?_, fun location => ?_, fun location => ?_⟩
    · show ((node.clearWorkerKv cleared).getKvKeys location : Set Int) = _
      unfold Log.notes
      rw [WorkerNode.getKvKeys_clearWorkerKv, hsince]
      split
      · exact Finset.coe_empty
      · exact h.keys location
    · show location ∈ node.kvStore.erase cleared ↔ (node.clearWorkerKv cleared).getKvKeys location ≠ ∅
      rw [WorkerNode.getKvKeys_clearWorkerKv, Dict.mem_erase, h.present location]
      by_cases hlocation : location = cleared <;> simp [hlocation]
    · show (node.seqTracker.erase cleared).get? location = _
      unfold Log.recorded Log.ordinary
      rw [Dict.get?_erase, hsince]
      split
      · rfl
      · exact h.tracker location

end NodeTracks

/-! ## Every event keeps the registry to the log -/

/-- All the workers of a registry track a log. -/
def AllTrack (r : Registry) (log : List LogEntry) : Prop :=
  ∀ instanceId workerId entry, r.getWorker instanceId workerId = some entry →
    NodeTracks log instanceId workerId entry.node

/-- One worker changes, and the log gets longer or not. -/
theorem allTrack_modifyWorker {r : Registry} {log : List LogEntry} {instanceId : String}
    {workerId : Nat} {f : WorkerEntry → WorkerEntry}
    (hown : ∀ entry, r.getWorker instanceId workerId = some entry →
      NodeTracks log instanceId workerId (f entry).node)
    (hother : ∀ id w entry, ¬(id = instanceId ∧ w = workerId) → r.getWorker id w = some entry →
      NodeTracks log id w entry.node) : AllTrack (r.modifyWorker instanceId workerId f) log := by
  intro id w entry hget
  rw [Registry.getWorker_modifyWorker] at hget
  split at hget
  · rename_i hsame
    obtain ⟨rfl, rfl⟩ := hsame
    obtain ⟨entry, hentry, rfl⟩ := Option.map_eq_some_iff.mp hget
    exact hown entry hentry
  · rename_i hdiff
    exact hother id w entry hdiff hget

variable {s : SequenceRun}

theorem tracks_deliver (h : s.Tracks) (msg : BatchedKVOperationMsg) (isFullSync : Bool) :
    (s.step (.deliver msg isFullSync)).Tracks := by
  show Tracks ⟨(s.tree.handleBatchedKvOperations msg isFullSync).2, _⟩
  unfold CountingRegistry.handleBatchedKvOperations
  cases hworker : s.tree.registry.getWorker msg.instanceId msg.workerId with
  | none => exact h
  | some entry =>
    have hnode := h.nodes _ _ entry hworker
    have hown {log' : List LogEntry}
        (hnode' : NodeTracks log' msg.instanceId msg.workerId
          (entry.node.handleBatchedKvOperations msg isFullSync).1) (entry' : WorkerEntry)
        (hentry' : s.tree.registry.getWorker msg.instanceId msg.workerId = some entry') :
        NodeTracks log' msg.instanceId msg.workerId
          (entry'.node.handleBatchedKvOperations msg isFullSync).1 := by
      rw [hworker] at hentry'
      cases hentry'
      exact hnode'
    dsimp only
    cases happlied : (entry.node.handleBatchedKvOperations msg isFullSync).2.1 with
    | false =>
      have hrejected := WorkerNode.handle_of_rejected happlied
      refine ⟨allTrack_modifyWorker (hown ?_) fun id w entry _ =>
        h.nodes id w entry, ?_⟩
      · rw [hrejected]
        exact hnode
      · rw [hrejected]
        exact h.count
    | true =>
      refine ⟨allTrack_modifyWorker (hown (hnode.applied_handle happlied))
        fun id w entry hdiff hget => (h.nodes id w entry hget).applied_other hdiff, ?_⟩
      have hwarning := WorkerNode.isSome_warning_handle happlied
      rw [hnode.tracker] at hwarning
      show s.tree.seqDiscontinuityCount + _ =
        Log.discontinuities (.applied msg isFullSync :: s.log)
      rw [h.count]
      cases isFullSync with
      | true =>
        rw [if_neg fun hsome => nomatch (hwarning.mp hsome).1]
        rfl
      | false =>
        rw [Log.discontinuities]
        congr 1
        by_cases hgap : Consecutive ((Log.recorded msg.place s.log).toList ++ msg.seqNums)
        · rw [if_pos hgap, if_neg fun hsome => (hwarning.mp hsome).2 hgap]
        · rw [if_neg hgap, if_pos (hwarning.mpr ⟨rfl, hgap⟩)]

/-- A worker is cleared, if it is registered. -/
theorem tracks_cleared (h : s.Tracks) (instanceId : String) (workerId : Nat)
    (location : Option String) :
    Tracks ⟨{ s.tree with registry := s.tree.registry.modifyWorker instanceId workerId fun entry =>
        { entry with node := entry.node.clear location } },
      if (s.tree.registry.getWorker instanceId workerId).isSome
      then .cleared instanceId workerId location :: s.log else s.log⟩ := by
  cases hworker : s.tree.registry.getWorker instanceId workerId with
  | none =>
    refine ⟨allTrack_modifyWorker (fun entry hentry => ?_) fun id w entry _ => h.nodes id w entry,
      h.count⟩
    rw [hworker] at hentry
    cases hentry
  | some entry =>
    exact ⟨allTrack_modifyWorker
      (fun entry hentry => (h.nodes _ _ entry hentry).cleared_own location)
      fun id w entry hdiff hget => (h.nodes id w entry hget).cleared_other hdiff, h.count⟩

theorem tracks_register (h : s.Tracks) (msg : RegisterMsg) (now : Rat) :
    (s.step (.register msg now)).Tracks := by
  refine ⟨?_, h.count⟩
  show AllTrack (RegistrationController.register s.tree.registry msg now)
    (.cleared msg.instanceId msg.workerId none :: s.log)
  unfold RegistrationController.register
  split
  · exact allTrack_modifyWorker (fun entry _ => .of_empty s.log _ _ rfl rfl)
      fun id w entry hdiff hget => (h.nodes id w entry hget).cleared_other hdiff
  · intro id w entry hget
    rw [Registry.getWorker_registerWorker] at hget
    split at hget
    · rename_i hsame
      obtain ⟨rfl, rfl⟩ := hsame
      cases hget
      exact .of_empty s.log _ _ rfl rfl
    · rename_i hdiff
      exact (h.nodes id w entry hget).cleared_other hdiff

theorem tracks_deregister (h : s.Tracks) (msg : DeRegisterMsg) :
    (s.step (.deregister msg)).Tracks := by
  refine ⟨fun id w entry hget => ?_, h.count⟩
  change (s.tree.registry.deregisterWorker msg.instanceId msg.workerId).2.getWorker id w =
    some entry at hget
  rw [Registry.getWorker_deregisterWorker] at hget
  split at hget
  · cases hget
  · exact h.nodes id w entry hget

theorem tracks_setSyncInfo (h : s.Tracks) (instanceId : String) (workerId : Nat)
    (syncInfo : Option WorkerSyncInfo) :
    (s.step (.setSyncInfo instanceId workerId syncInfo)).Tracks := by
  refine ⟨allTrack_modifyWorker (fun entry hentry => ?_) fun id w entry _ => h.nodes id w entry,
    h.count⟩
  obtain ⟨hkeys, hpresent, htracker⟩ := h.nodes _ _ entry hentry
  exact ⟨hkeys, hpresent, htracker⟩

/-- **One event keeps the registry to the log.** -/
theorem tracks_step (h : s.Tracks) (e : SequenceEvent) : (s.step e).Tracks := by
  cases e with
  | register msg now => exact tracks_register h msg now
  | deregister msg => exact tracks_deregister h msg
  | deliver msg isFullSync => exact tracks_deliver h msg isFullSync
  | clearWorkerKv instanceId workerId location =>
    exact tracks_cleared h instanceId workerId location
  | clearAllWorkerKv instanceId workerId => exact tracks_cleared h instanceId workerId none
  | setSyncInfo instanceId workerId syncInfo => exact tracks_setSyncInfo h instanceId workerId syncInfo

theorem tracks_init : init.Tracks := ⟨fun _ _ _ hget => (nomatch hget), rfl⟩

/-! ## A stretch of the log without a clear -/

/-- Over a stretch without a clear the numbers of its ordinary batches are recorded, and every one of
them that does not follow is counted. -/
theorem stretch {p : Place} {between : List LogEntry} (hclear : ∀ e ∈ between, ¬e.Clears p)
    (log : List LogEntry) :
    Log.recorded p (between ++ log) = lastOf (Log.recorded p log)
        ((Log.ordinary p between).flatMap BatchedKVOperationMsg.seqNums) ∧
      Log.discontinuities log + gaps (Log.recorded p log)
        ((Log.ordinary p between).map BatchedKVOperationMsg.seqNums) ≤
          Log.discontinuities (between ++ log) := by
  induction between with
  | nil => exact ⟨(lastOf_nil _).symm, le_refl _⟩
  | cons e between ih =>
    rw [List.forall_mem_cons] at hclear
    obtain ⟨hrecorded, hcount⟩ := ih hclear.2
    cases e with
    | cleared instanceId workerId location =>
      have hsince (log : List LogEntry) := Log.sinceClear_of_not_clears log hclear.1
      rw [List.cons_append]
      unfold Log.recorded Log.ordinary at hrecorded hcount ⊢
      rw [hsince, hsince]
      exact ⟨hrecorded, hcount⟩
    | applied msg isFullSync =>
      rw [List.cons_append, Log.recorded_applied, Log.ordinary_applied]
      by_cases hown : msg.place = p ∧ isFullSync = false
      · obtain ⟨rfl, rfl⟩ := hown
        rw [if_pos ⟨rfl, rfl⟩, if_pos ⟨rfl, rfl⟩, List.flatMap_append, List.flatMap_singleton,
          lastOf_append, ← hrecorded, List.map_append, List.map_singleton, gaps_append_singleton,
          ← List.flatMap_def, ← hrecorded, Log.discontinuities]
        exact ⟨rfl, by omega⟩
      · rw [if_neg hown, if_neg hown]
        refine ⟨hrecorded, hcount.trans ?_⟩
        cases isFullSync with
        | true => exact le_refl _
        | false => exact Nat.le_add_right _ _

/-- **A lost batch is detected** wherever the count is that of the log. -/
theorem detects {s' : SequenceRun} (h : s.Tracks) (h' : s'.Tracks) : Detects s s' := by
  intro p first lost last log between hfirst hlast hlog hlog' hloss
  obtain ⟨hclear, ⟨hne, hlostne, hlastne⟩, before, behind, hsent, hkept⟩ := hloss
  have hclear' : ∀ e ∈ LogEntry.applied last false :: between, ¬e.Clears p :=
    List.forall_mem_cons.mpr ⟨id, hclear⟩
  have hcount := (stretch hclear' s.log).2
  have hnums {msg : BatchedKVOperationMsg} (hmsg : msg.operations ≠ []) : msg.seqNums ≠ [] :=
    fun hnil => hmsg (List.map_eq_nil_iff.mp hnil)
  -- the number recorded behind the first batch is its last one
  have hrecorded : Log.recorded p s.log = first.seqNums.getLast? := by
    rw [hlog, Log.recorded_applied, if_pos ⟨hfirst, rfl⟩]
    exact List.getLast?_append_of_ne_nil _ (hnums hne)
  -- fewer numbers were applied between the two than were sent
  have hmissing : ((Log.ordinary p between).map BatchedKVOperationMsg.seqNums).flatten.length <
      ((before ++ lost :: behind).map BatchedKVOperationMsg.seqNums).flatten.length := by
    have hle := ((hkept.map BatchedKVOperationMsg.seqNums).flatten).length_le
    have hpos := List.length_pos_of_ne_nil (hnums hlostne)
    simp only [List.map_append, List.map_cons, List.flatten_append, List.flatten_cons,
      List.length_append] at hle ⊢
    omega
  have hsent' : Consecutive (first.seqNums ++
      ((before ++ lost :: behind).map BatchedKVOperationMsg.seqNums).flatten ++ last.seqNums) := by
    simpa [List.flatMap_def] using hsent
  have hpos := gaps_pos_of_missing hsent' (hnums hne) (hnums hlastne) hmissing
  rw [hrecorded, Log.ordinary_applied, if_pos ⟨hlast, rfl⟩, List.map_append,
    List.map_singleton] at hcount
  rw [h.count, h'.count, hlog']
  exact lt_of_lt_of_le (Nat.lt_add_of_pos_right hpos) hcount

/-- **The key sets and the count are what the applied batches make them, and no loss goes unnoticed**:
in every state of every run the registry is what the log says, and between any two states the count
rises if a batch was lost. -/
theorem always_tracks_and_detects (events later : List SequenceEvent) :
    Always step Tracks init events ∧
      Detects (run step init events) (run step init (events ++ later)) := by
  have htracks (events : List SequenceEvent) : Always step Tracks init events :=
    always_of_step (P := Tracks) (fun _ e hs => tracks_step hs e) tracks_init events
  exact ⟨htracks events, detects (htracks events).last (htracks _).last⟩

/-- A worker that registers and sends three batches, of which the second is lost. -/
def lostBatch : List SequenceEvent :=
  let batch (key seqNum : Int) : BatchedKVOperationMsg :=
    ⟨"i", 0, "LocalCPUBackend", [⟨.ADMIT, key, seqNum⟩]⟩
  [.register ⟨"i", 0, "10.0.0.1", 8000, none⟩ 0, .deliver (batch 7 0) false,
    .deliver (batch 9 2) false]

example : (run step init lostBatch).tree.seqDiscontinuityCount = 1 := by decide +kernel

end SequenceRun

/-! ## What a sender sends is numbered without gaps -/

/-- A sender, and the batches it has sent. -/
structure SendingRun where
  sender : Storage.BatchedMessageSender
  sent : List BatchedKVOperationMsg

inductive SendingEvent where
  | addKvOp (opType : OpType) (key : Int)
  | drain
  deriving DecidableEq, Repr

namespace SendingRun

def step (s : SendingRun) : SendingEvent → SendingRun
  | .addKvOp opType key => { s with sender := s.sender.addKvOp opType key }
  | .drain => ⟨s.sender.drain.1, s.sent ++ s.sender.drain.2.toList⟩

/-- The numbers sent, and those of the operations taken, are all the numbers given so far. -/
def Numbered (s : SendingRun) : Prop :=
  s.sent.flatMap BatchedKVOperationMsg.seqNums ++ s.sender.opsToSend.map KVOpEvent.seqNum =
    (List.range s.sender.sequenceNumber).map Int.ofNat

theorem numbered_step {s : SendingRun} (h : s.Numbered) (e : SendingEvent) :
    (s.step e).Numbered := by
  unfold Numbered at h
  cases e with
  | addKvOp opType key => exact h
  | drain =>
    show (s.sent ++ s.sender.drain.2.toList).flatMap BatchedKVOperationMsg.seqNums ++
      s.sender.drain.1.opsToSend.map KVOpEvent.seqNum =
        (List.range s.sender.drain.1.sequenceNumber).map Int.ofNat
    unfold Storage.BatchedMessageSender.drain
    split
    · rw [Option.toList_none, List.append_nil, List.map_append, ← List.append_assoc, h,
        List.range_succ, List.map_append]
      rfl
    · split
      · rw [Option.toList_none, List.append_nil, h]
      · rw [Option.toList_some, List.flatMap_append, List.flatMap_singleton, List.map_nil,
          List.append_nil]
        exact h

theorem consecutive_range (n : Nat) : Consecutive ((List.range n).map Int.ofNat) := by
  induction n with
  | zero => exact Consecutive.nil
  | succ n ih =>
    rw [List.range_succ, List.map_append]
    refine ih.append_of_getLast? ?_
    cases n with
    | zero => exact List.isChain_singleton _
    | succ n =>
      rw [List.range_succ, List.map_append]
      simp [Consecutive]

end SendingRun

end LMCache.Controller
