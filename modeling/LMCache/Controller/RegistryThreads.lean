/-
# LMCache.Controller.RegistryThreads — the registry under several threads.

Source: `RegistryTree` and `InstanceNode` in `cache_controller/utils.py`.

The tree, each instance and each worker have a lock of their own, and reads of the two dictionaries
are made without one.  So a call is a sequence of sections, between which other threads take their
turns: a registration gets the node of its instance and adds the worker to it later; a
deregistration removes the worker, looks whether the node is empty, and then takes the lock of the
tree to remove an instance of this name.  Nodes are known by reference, and the node that is removed
from the tree need not be the one that was found empty, nor need it be one that no registration has
got.

Beside the tree a run keeps the worker nodes whose registration was not followed by a
deregistration, with what the calls that came after it did to them; no section reads these.
-/
import LMCache.Controller.PrefixLookup
import LMCache.Lib.Run

namespace LMCache.Controller

open LMCache.Lib

/-! ## The tree -/

/-- An `InstanceNode`, with its workers by reference. -/
structure InstanceObject where
  instanceId : String
  workers : Dict Nat Nat

/-- The worker node of the latest registration, and what it should hold by now. -/
structure Registered where
  worker : Nat
  node : WorkerNode

/-- `RegistryTree`: the instances by reference, and the nodes behind the references. -/
structure SharedTree where
  instances : Dict String Nat
  instanceNode : Nat → InstanceObject
  workerNode : Nat → WorkerNode
  nextInstance : Nat
  nextWorker : Nat
  registered : Dict (String × Nat) Registered

namespace SharedTree

def empty : SharedTree :=
  ⟨.empty, fun _ => ⟨"", .empty⟩, fun _ => {}, 0, 0, .empty⟩

/-- `InstanceNode.get_worker`. -/
def workerOf (t : SharedTree) (node workerId : Nat) : Option Nat :=
  (t.instanceNode node).workers.get? workerId

/-- `get_worker`. -/
def getWorker (t : SharedTree) (instanceId : String) (workerId : Nat) : Option Nat :=
  (t.instances.get? instanceId).bind fun node => t.workerOf node workerId

/-- `has_workers`. -/
def hasWorkers (t : SharedTree) (node : Nat) : Bool := !(t.instanceNode node).workers.keys.isEmpty

/-- What `find_key_simple` reads of an instance. -/
def instanceAt (t : SharedTree) (node : Nat) : InstanceNode :=
  ⟨(t.instanceNode node).instanceId, (t.instanceNode node).workers.mapValues t.workerNode⟩

/-- `find_kv`. -/
def findKv (t : SharedTree) (key : Int) (excludeInstanceId : Option String) : Option KVChunkInfo :=
  t.instances.entries.findSome? fun e =>
    if excludeInstanceId = some e.1 then none else (t.instanceAt e.2).findKeySimple key

/-- A node for the instance, in the tree. -/
def createInstance (t : SharedTree) (instanceId : String) : SharedTree :=
  { t with
    instances := t.instances.set instanceId t.nextInstance
    instanceNode := Function.update t.instanceNode t.nextInstance ⟨instanceId, .empty⟩
    nextInstance := t.nextInstance + 1 }

/-- `add_worker` of a new worker node, which is the end of its registration. -/
def addWorker (t : SharedTree) (instanceId : String) (workerId node : Nat) : SharedTree :=
  { t with
    instanceNode := Function.update t.instanceNode node
      ⟨(t.instanceNode node).instanceId,
        (t.instanceNode node).workers.set workerId t.nextWorker⟩
    workerNode := Function.update t.workerNode t.nextWorker {}
    nextWorker := t.nextWorker + 1
    registered := t.registered.set (instanceId, workerId) ⟨t.nextWorker, {}⟩ }

/-- `remove_worker`. -/
def removeWorker (t : SharedTree) (instanceId : String) (workerId node : Nat) : SharedTree :=
  { t with
    instanceNode := Function.update t.instanceNode node
      ⟨(t.instanceNode node).instanceId, (t.instanceNode node).workers.erase workerId⟩
    registered := t.registered.erase (instanceId, workerId) }

/-- A message has come to a worker node, or to its end without one.  It counts for the registered
worker node if it has come to it, or if the call was made when it was registered. -/
def count (t : SharedTree) (msg : BatchedKVOperationMsg) (isFullSync : Bool)
    (since worker : Option Nat) : Dict (String × Nat) Registered :=
  match t.registered.get? (msg.instanceId, msg.workerId) with
  | none => t.registered
  | some last =>
    if worker = some last.worker ∨ since = some last.worker then
      t.registered.set (msg.instanceId, msg.workerId)
        { last with node := (last.node.handleBatchedKvOperations msg isFullSync).1 }
    else t.registered

/-- `handle_batched_kv_operations` of the worker node. -/
def applyOperations (t : SharedTree) (msg : BatchedKVOperationMsg) (isFullSync : Bool)
    (since : Option Nat) (worker : Nat) : SharedTree :=
  { t with
    workerNode := Function.update t.workerNode worker
      ((t.workerNode worker).handleBatchedKvOperations msg isFullSync).1
    registered := t.count msg isFullSync since (some worker) }

/-- `handle_batched_kv_operations` that finds no worker. -/
def dropOperations (t : SharedTree) (msg : BatchedKVOperationMsg) (isFullSync : Bool)
    (since : Option Nat) : SharedTree :=
  { t with registered := t.count msg isFullSync since none }

end SharedTree

/-! ## Calls -/

/-- Where a call stands: what its next section is, with what it has got so far. -/
inductive Call where
  /-- `register_worker`: the read of `_get_or_create_instance` that takes no lock. -/
  | getInstance (instanceId : String) (workerId : Nat)
  /-- The same under the lock of the tree. -/
  | createInstance (instanceId : String) (workerId : Nat)
  | addWorker (instanceId : String) (workerId node : Nat)
  /-- `deregister_worker`. -/
  | getForRemoval (instanceId : String) (workerId : Nat)
  | removeWorker (instanceId : String) (workerId node : Nat)
  | hasWorkers (instanceId : String) (node : Nat)
  /-- The cleanup under the lock of the tree. -/
  | cleanUp (instanceId : String) (node : Nat)
  /-- `handle_batched_kv_operations`.  `since` is the worker node that was registered when the call
  was made, which no section reads. -/
  | getForOperations (msg : BatchedKVOperationMsg) (isFullSync : Bool) (since : Option Nat)
  | getWorker (msg : BatchedKVOperationMsg) (isFullSync : Bool) (since : Option Nat) (node : Nat)
  | applyOperations (msg : BatchedKVOperationMsg) (isFullSync : Bool) (since : Option Nat)
      (worker : Nat)
  deriving DecidableEq

/-- The next section needs a lock, which may not be had in time. -/
def Call.takesLock : Call → Bool
  | .createInstance .. | .addWorker .. | .removeWorker .. | .cleanUp .. | .applyOperations .. =>
    true
  | .getInstance .. | .getForRemoval .. | .hasWorkers .. | .getForOperations .. | .getWorker .. =>
    false

namespace SharedTree

/-- One section of a call, and where the call stands then if it has not returned. -/
def turn (t : SharedTree) : Call → SharedTree × Option Call
  | .getInstance instanceId workerId =>
    match t.instances.get? instanceId with
    | some node => (t, some (.addWorker instanceId workerId node))
    | none => (t, some (.createInstance instanceId workerId))
  | .createInstance instanceId workerId =>
    -- Double-check after acquiring write lock
    match t.instances.get? instanceId with
    | some node => (t, some (.addWorker instanceId workerId node))
    | none => (t.createInstance instanceId, some (.addWorker instanceId workerId t.nextInstance))
  | .addWorker instanceId workerId node => (t.addWorker instanceId workerId node, none)
  | .getForRemoval instanceId workerId =>
    match t.instances.get? instanceId with
    | some node => (t, some (.removeWorker instanceId workerId node))
    | none => ({ t with registered := t.registered.erase (instanceId, workerId) }, none)
  | .removeWorker instanceId workerId node =>
    (t.removeWorker instanceId workerId node, some (.hasWorkers instanceId node))
  | .hasWorkers instanceId node =>
    (t, if t.hasWorkers node then none else some (.cleanUp instanceId node))
  | .cleanUp instanceId node =>
    -- it is the node that is looked at, and the name that is removed
    if t.hasWorkers node then (t, none)
    else ({ t with instances := t.instances.erase instanceId }, none)
  | .getForOperations msg isFullSync since =>
    match t.instances.get? msg.instanceId with
    | some node => (t, some (.getWorker msg isFullSync since node))
    | none => (t.dropOperations msg isFullSync since, none)
  | .getWorker msg isFullSync since node =>
    match t.workerOf node msg.workerId with
    | some worker => (t, some (.applyOperations msg isFullSync since worker))
    | none => (t.dropOperations msg isFullSync since, none)
  | .applyOperations msg isFullSync since worker =>
    (t.applyOperations msg isFullSync since worker, none)

end SharedTree

/-! ## Runs -/

inductive TreeOp where
  | registerWorker (instanceId : String) (workerId : Nat)
  | deregisterWorker (instanceId : String) (workerId : Nat)
  | handleBatchedKvOperations (msg : BatchedKVOperationMsg) (isFullSync : Bool)

def TreeOp.call (t : SharedTree) : TreeOp → Call
  | .registerWorker instanceId workerId => .getInstance instanceId workerId
  | .deregisterWorker instanceId workerId => .getForRemoval instanceId workerId
  | .handleBatchedKvOperations msg isFullSync =>
    .getForOperations msg isFullSync
      ((t.registered.get? (msg.instanceId, msg.workerId)).map Registered.worker)

/-- The tree, and the call that each thread is in. -/
structure TreeRun where
  tree : SharedTree
  calls : Dict Nat Call

inductive TreeEvent where
  | call (thread : Nat) (op : TreeOp)
  | turn (thread : Nat)
  /-- The lock of the next section is not had in time, and the call raises. -/
  | timeout (thread : Nat)

namespace TreeRun

def init : TreeRun := ⟨.empty, .empty⟩

def setCall (calls : Dict Nat Call) (thread : Nat) : Option Call → Dict Nat Call
  | some call => calls.set thread call
  | none => calls.erase thread

def step (s : TreeRun) : TreeEvent → TreeRun
  | .call thread op =>
    if thread ∈ s.calls then s else ⟨s.tree, s.calls.set thread (op.call s.tree)⟩
  | .turn thread =>
    match s.calls.get? thread with
    | none => s
    | some call => ⟨(s.tree.turn call).1, setCall s.calls thread (s.tree.turn call).2⟩
  | .timeout thread =>
    match s.calls.get? thread with
    | none => s
    | some call => if call.takesLock then ⟨s.tree, s.calls.erase thread⟩ else s

end TreeRun

/-! ## The property -/

/-- Every worker whose registration was not followed by a deregistration can be reached, holds what
the calls made since have put there, and a search finds it. -/
structure SharedTree.Safe (t : SharedTree) : Prop where
  reachable : ∀ instanceId workerId last,
    t.registered.get? (instanceId, workerId) = some last →
      t.getWorker instanceId workerId = some last.worker
  applied : ∀ instanceId workerId last,
    t.registered.get? (instanceId, workerId) = some last → t.workerNode last.worker = last.node
  visible : ∀ instanceId workerId last,
    t.registered.get? (instanceId, workerId) = some last → ∀ location,
      ∀ key ∈ last.node.getKvKeys location, ∀ excludeInstanceId,
        excludeInstanceId ≠ some instanceId → (t.findKv key excludeInstanceId).isSome

/-- A registration adds its worker to the node that is in the tree, and a deregistration removes
from the tree no instance with a worker that is registered. -/
def SharedTree.KeepsRegistered (t : SharedTree) : Call → Prop
  | .addWorker instanceId _ node => t.instances.get? instanceId = some node
  | .cleanUp instanceId node => t.hasWorkers node = false → ∀ inTree,
      t.instances.get? instanceId = some inTree → ∀ workerId last,
        t.registered.get? (instanceId, workerId) = some last →
          t.workerOf inTree workerId ≠ some last.worker
  | _ => True

def TreeRun.KeepsRegistered (s : TreeRun) : TreeEvent → Prop
  | .turn thread => ∀ call ∈ s.calls.get? thread, s.tree.KeepsRegistered call
  | .call .. | .timeout .. => True

/-! ## What the sections do to the nodes -/

namespace SharedTree

variable {t : SharedTree} {instanceId : String} {workerId node : Nat}

theorem getWorker_eq_some {worker : Nat} : t.getWorker instanceId workerId = some worker ↔
    ∃ node, t.instances.get? instanceId = some node ∧ t.workerOf node workerId = some worker :=
  Option.bind_eq_some_iff

/-- The name an instance node was made with. -/
def nameOf (t : SharedTree) (node : Nat) : String := (t.instanceNode node).instanceId

theorem nameOf_createInstance (n : Nat) :
    (t.createInstance instanceId).nameOf n =
      if n = t.nextInstance then instanceId else t.nameOf n := by
  unfold nameOf createInstance
  dsimp only
  rw [Function.update_apply]
  split <;> rfl

theorem workerOf_createInstance (n w : Nat) :
    (t.createInstance instanceId).workerOf n w =
      if n = t.nextInstance then none else t.workerOf n w := by
  unfold workerOf createInstance
  dsimp only
  rw [Function.update_apply]
  split <;> rfl

theorem nameOf_addWorker (n : Nat) :
    (t.addWorker instanceId workerId node).nameOf n = t.nameOf n := by
  unfold nameOf addWorker
  dsimp only
  rw [Function.update_apply]
  split
  · rename_i heq
    rw [heq]
  · rfl

theorem workerOf_addWorker (n w : Nat) :
    (t.addWorker instanceId workerId node).workerOf n w =
      if n = node ∧ w = workerId then some t.nextWorker else t.workerOf n w := by
  unfold workerOf addWorker
  dsimp only
  rw [Function.update_apply]
  by_cases hn : n = node
  · rw [if_pos hn]
    show ((t.instanceNode node).workers.set workerId t.nextWorker).get? w = _
    rw [Dict.get?_set]
    by_cases hw : w = workerId
    · rw [if_pos hw, if_pos ⟨hn, hw⟩]
    · rw [if_neg hw, if_neg (fun h => hw h.2), hn]
  · rw [if_neg hn, if_neg (fun h => hn h.1)]

theorem nameOf_removeWorker (n : Nat) :
    (t.removeWorker instanceId workerId node).nameOf n = t.nameOf n := by
  unfold nameOf removeWorker
  dsimp only
  rw [Function.update_apply]
  split
  · rename_i heq
    rw [heq]
  · rfl

theorem workerOf_removeWorker (n w : Nat) :
    (t.removeWorker instanceId workerId node).workerOf n w =
      if n = node ∧ w = workerId then none else t.workerOf n w := by
  unfold workerOf removeWorker
  dsimp only
  rw [Function.update_apply]
  by_cases hn : n = node
  · rw [if_pos hn]
    show ((t.instanceNode node).workers.erase workerId).get? w = _
    rw [Dict.get?_erase]
    by_cases hw : w = workerId
    · rw [if_pos hw, if_pos ⟨hn, hw⟩]
    · rw [if_neg hw, if_neg (fun h => hw h.2), hn]
  · rw [if_neg hn, if_neg (fun h => hn h.1)]

/-- Counting a message leaves every worker registered as it is. -/
theorem get?_count (msg : BatchedKVOperationMsg) (isFullSync : Bool) (since worker : Option Nat)
    {id : String} {w : Nat} {last : Registered}
    (h : (t.count msg isFullSync since worker).get? (id, w) = some last) :
    ∃ before, t.registered.get? (id, w) = some before ∧ before.worker = last.worker ∧
      last.node = if (id, w) = (msg.instanceId, msg.workerId) ∧
          (worker = some before.worker ∨ since = some before.worker) then
        (before.node.handleBatchedKvOperations msg isFullSync).1 else before.node := by
  unfold count at h
  match hcounted : t.registered.get? (msg.instanceId, msg.workerId) with
  | none =>
    rw [hcounted] at h
    refine ⟨last, h, rfl, ?_⟩
    rw [if_neg]
    rintro ⟨hkey, -⟩
    rw [hkey, hcounted] at h
    cases h
  | some before =>
    rw [hcounted] at h
    dsimp only at h
    by_cases hreached : worker = some before.worker ∨ since = some before.worker
    · rw [if_pos hreached, Dict.get?_set] at h
      by_cases hkey : (id, w) = (msg.instanceId, msg.workerId)
      · rw [if_pos hkey] at h
        cases h
        rw [hkey]
        exact ⟨before, hcounted, rfl, (if_pos ⟨rfl, hreached⟩).symm⟩
      · rw [if_neg hkey] at h
        exact ⟨last, h, rfl, (if_neg fun hk => hkey hk.1).symm⟩
    · rw [if_neg hreached] at h
      refine ⟨last, h, rfl, ?_⟩
      rw [if_neg]
      rintro ⟨hkey, hlast⟩
      rw [hkey, hcounted] at h
      cases h
      exact hreached hlast

end SharedTree

/-! ## References -/

/-- References are handed out in order, an instance is in the tree under its own name, and the node
of a registered worker stands nowhere but where the worker belongs. -/
structure SharedTree.Wf (t : SharedTree) : Prop where
  inTree : ∀ id n, t.instances.get? id = some n → n < t.nextInstance ∧ t.nameOf n = id
  fresh : ∀ n w, t.nextInstance ≤ n → t.workerOf n w = none
  worker_lt : ∀ n w worker, t.workerOf n w = some worker → worker < t.nextWorker
  registered_lt : ∀ id w last, t.registered.get? (id, w) = some last → last.worker < t.nextWorker
  home : ∀ n w id w' last, t.registered.get? (id, w') = some last →
    t.workerOf n w = some last.worker → id = t.nameOf n ∧ w' = w

/-- What a call has got is what it asked for. -/
def Call.Ok (t : SharedTree) : Call → Prop
  | .addWorker instanceId _ node | .removeWorker instanceId _ node =>
    node < t.nextInstance ∧ t.nameOf node = instanceId
  | .getForOperations _ _ since => ∀ worker ∈ since, worker < t.nextWorker
  | .getWorker msg _ since node => (∀ worker ∈ since, worker < t.nextWorker) ∧
      node < t.nextInstance ∧ t.nameOf node = msg.instanceId
  | .applyOperations msg _ since worker => (∀ worker ∈ since, worker < t.nextWorker) ∧
      worker < t.nextWorker ∧ ∀ id w last, t.registered.get? (id, w) = some last →
        last.worker = worker → (id, w) = (msg.instanceId, msg.workerId)
  | .getInstance .. | .createInstance .. | .getForRemoval .. | .hasWorkers .. | .cleanUp .. => True

/-- No node has got another name, and what is registered was so before or is new. -/
structure SharedTree.Later (t t' : SharedTree) : Prop where
  instance_le : t.nextInstance ≤ t'.nextInstance
  worker_le : t.nextWorker ≤ t'.nextWorker
  name : ∀ n, n < t.nextInstance → t'.nameOf n = t.nameOf n
  registered : ∀ id w last, t'.registered.get? (id, w) = some last →
    (∃ before, t.registered.get? (id, w) = some before ∧ before.worker = last.worker) ∨
      t.nextWorker ≤ last.worker

variable {call : Call}

theorem Call.Ok.later {t t' : SharedTree} (h : call.Ok t) (hlater : t.Later t') :
    call.Ok t' := by
  have hworker_le := hlater.worker_le
  have hinstance_le := hlater.instance_le
  have hsince {since : Option Nat} (h : ∀ worker ∈ since, worker < t.nextWorker) :
      ∀ worker ∈ since, worker < t'.nextWorker := by
    intro worker hmem
    have hlt := h worker hmem
    omega
  have hnode {node : Nat} {instanceId : String}
      (h : node < t.nextInstance ∧ t.nameOf node = instanceId) :
      node < t'.nextInstance ∧ t'.nameOf node = instanceId := by
    refine ⟨by omega, ?_⟩
    rw [hlater.name node h.1, h.2]
  match call with
  | .addWorker .. | .removeWorker .. => exact hnode h
  | .getForOperations .. => exact hsince h
  | .getWorker .. => exact ⟨hsince h.1, hnode h.2⟩
  | .applyOperations msg isFullSync since worker =>
    obtain ⟨hs, hlt, hregistered⟩ := h
    refine ⟨hsince hs, by omega, ?_⟩
    intro id w last hlast heq
    rcases hlater.registered id w last hlast with ⟨before, hbefore, hsame⟩ | hnew
    · exact hregistered id w before hbefore (hsame.trans heq)
    · omega
  | .getInstance .. | .createInstance .. | .getForRemoval .. | .hasWorkers .. | .cleanUp .. =>
    trivial

namespace SharedTree

variable {t : SharedTree}

theorem Later.refl (t : SharedTree) : t.Later t :=
  ⟨le_rfl, le_rfl, fun _ _ => rfl, fun _ _ last h => .inl ⟨last, h, rfl⟩⟩

/-- When only what is registered changes, and to less, or to the same nodes. -/
theorem Wf.of_registered (h : t.Wf) (instances : Dict String Nat) (workerNode : Nat → WorkerNode)
    (registered : Dict (String × Nat) Registered)
    (hinstances : ∀ id n, instances.get? id = some n → t.instances.get? id = some n)
    (hregistered : ∀ id w last, registered.get? (id, w) = some last →
      ∃ before, t.registered.get? (id, w) = some before ∧ before.worker = last.worker) :
    Wf { t with instances := instances, workerNode := workerNode, registered := registered } ∧
      t.Later
        { t with instances := instances, workerNode := workerNode, registered := registered } := by
  refine ⟨⟨?_, h.fresh, h.worker_lt, ?_, ?_⟩, le_rfl, le_rfl, fun _ _ => rfl, ?_⟩
  · intro id n hget
    exact h.inTree id n (hinstances id n hget)
  · intro id w last hlast
    obtain ⟨before, hbefore, hsame⟩ := hregistered id w last hlast
    rw [← hsame]
    exact h.registered_lt id w before hbefore
  · intro n w id w' last hlast hworker
    obtain ⟨before, hbefore, hsame⟩ := hregistered id w' last hlast
    rw [← hsame] at hworker
    exact h.home n w id w' before hbefore hworker
  · intro id w last hlast
    exact .inl (hregistered id w last hlast)

theorem get?_erase_registered {key : String × Nat} {id : String} {w : Nat} {last : Registered}
    (h : (t.registered.erase key).get? (id, w) = some last) :
    (id, w) ≠ key ∧ t.registered.get? (id, w) = some last := by
  rw [Dict.get?_erase] at h
  split at h
  · cases h
  · rename_i hne
    exact ⟨hne, h⟩

theorem createInstance_wf (h : t.Wf) (instanceId : String) :
    (t.createInstance instanceId).Wf ∧ t.Later (t.createInstance instanceId) := by
  refine ⟨⟨?_, ?_, ?_, h.registered_lt, ?_⟩, Nat.le_succ _, le_rfl, ?_, (Later.refl t).registered⟩
  · intro id n hget
    change (t.instances.set instanceId t.nextInstance).get? id = some n at hget
    rw [Dict.get?_set] at hget
    show n < t.nextInstance + 1 ∧ _
    rw [nameOf_createInstance]
    split at hget
    · rename_i hid
      cases hget
      exact ⟨Nat.lt_succ_self _, (if_pos rfl).trans hid.symm⟩
    · obtain ⟨hlt, hname⟩ := h.inTree id n hget
      exact ⟨Nat.lt_succ_of_lt hlt, (if_neg (Nat.ne_of_lt hlt)).trans hname⟩
  · intro n w hle
    rw [workerOf_createInstance]
    change t.nextInstance + 1 ≤ n at hle
    rw [if_neg (by omega)]
    exact h.fresh n w (by omega)
  · intro n w worker hworker
    rw [workerOf_createInstance] at hworker
    split at hworker
    · cases hworker
    · exact h.worker_lt n w worker hworker
  · intro n w id w' last hlast hworker
    rw [workerOf_createInstance] at hworker
    rw [nameOf_createInstance]
    split at hworker
    · cases hworker
    · rename_i hn
      rw [if_neg hn]
      exact h.home n w id w' last hlast hworker
  · intro n hlt
    rw [nameOf_createInstance, if_neg (Nat.ne_of_lt hlt)]

theorem addWorker_wf (h : t.Wf) {instanceId : String} {node : Nat} (hlt : node < t.nextInstance)
    (hname : t.nameOf node = instanceId) (workerId : Nat) :
    (t.addWorker instanceId workerId node).Wf ∧
      t.Later (t.addWorker instanceId workerId node) := by
  have hregistered (id : String) (w : Nat) (last : Registered)
      (hlast : (t.addWorker instanceId workerId node).registered.get? (id, w) = some last) :
      ((id, w) = (instanceId, workerId) ∧ last.worker = t.nextWorker) ∨
        t.registered.get? (id, w) = some last := by
    change (t.registered.set (instanceId, workerId) ⟨t.nextWorker, {}⟩).get? (id, w) = _ at hlast
    rw [Dict.get?_set] at hlast
    split at hlast
    · rename_i hkey
      cases hlast
      exact .inl ⟨hkey, rfl⟩
    · exact .inr hlast
  refine ⟨⟨?_, ?_, ?_, ?_, ?_⟩, le_rfl, Nat.le_succ _, fun n _ => nameOf_addWorker n, ?_⟩
  · intro id n hget
    rw [nameOf_addWorker]
    exact h.inTree id n hget
  · intro n w hle
    change t.nextInstance ≤ n at hle
    rw [workerOf_addWorker, if_neg (by omega)]
    exact h.fresh n w hle
  · intro n w worker hworker
    show worker < t.nextWorker + 1
    rw [workerOf_addWorker] at hworker
    split at hworker
    · cases hworker
      exact Nat.lt_succ_self _
    · exact Nat.lt_succ_of_lt (h.worker_lt n w worker hworker)
  · intro id w last hlast
    show last.worker < t.nextWorker + 1
    rcases hregistered id w last hlast with ⟨-, hnew⟩ | hold
    · omega
    · exact Nat.lt_succ_of_lt (h.registered_lt id w last hold)
  · intro n w id w' last hlast hworker
    rw [nameOf_addWorker]
    rw [workerOf_addWorker] at hworker
    rcases hregistered id w' last hlast with ⟨hkey, hnew⟩ | hold
    · -- the new worker node stands nowhere but where it was added
      cases hkey
      split at hworker
      · rename_i hplace
        rw [hplace.1, hplace.2]
        exact ⟨hname.symm, rfl⟩
      · have hlt := h.worker_lt n w last.worker hworker
        omega
    · split at hworker
      · have hlt := h.registered_lt id w' last hold
        have hnew := Option.some.inj hworker
        omega
      · exact h.home n w id w' last hold hworker
  · intro id w last hlast
    rcases hregistered id w last hlast with ⟨-, hnew⟩ | hold
    · exact .inr (by omega)
    · exact .inl ⟨last, hold, rfl⟩

theorem removeWorker_wf (h : t.Wf) (instanceId : String) (workerId node : Nat) :
    (t.removeWorker instanceId workerId node).Wf ∧
      t.Later (t.removeWorker instanceId workerId node) := by
  have hworkerOf {n w worker : Nat}
      (hworker : (t.removeWorker instanceId workerId node).workerOf n w = some worker) :
      t.workerOf n w = some worker := by
    rw [workerOf_removeWorker] at hworker
    split at hworker
    · cases hworker
    · exact hworker
  refine ⟨⟨?_, ?_, ?_, ?_, ?_⟩, le_rfl, le_rfl, fun n _ => nameOf_removeWorker n, ?_⟩
  · intro id n hget
    rw [nameOf_removeWorker]
    exact h.inTree id n hget
  · intro n w hle
    rw [workerOf_removeWorker, h.fresh n w hle, ite_self]
  · intro n w worker hworker
    exact h.worker_lt n w worker (hworkerOf hworker)
  · intro id w last hlast
    exact h.registered_lt id w last (get?_erase_registered hlast).2
  · intro n w id w' last hlast hworker
    rw [nameOf_removeWorker]
    exact h.home n w id w' last (get?_erase_registered hlast).2 (hworkerOf hworker)
  · intro id w last hlast
    exact .inl ⟨last, (get?_erase_registered hlast).2, rfl⟩

end SharedTree

/-- **Step lemma: references.**  A section keeps the references in order, leaves those of the other
calls what they are, and gets what it asked for. -/
theorem SharedTree.turn_wf {t : SharedTree} (h : t.Wf) (hcall : call.Ok t) :
    (t.turn call).1.Wf ∧ t.Later (t.turn call).1 ∧
      ∀ next ∈ (t.turn call).2, next.Ok (t.turn call).1 := by
  have hdrop (msg : BatchedKVOperationMsg) (isFullSync : Bool) (since : Option Nat) :
      (t.dropOperations msg isFullSync since).Wf ∧
        t.Later (t.dropOperations msg isFullSync since) := by
    apply h.of_registered t.instances t.workerNode _ (fun _ _ => id)
    intro id w last hlast
    obtain ⟨before, hbefore, hsame, -⟩ := get?_count msg isFullSync since none hlast
    exact ⟨before, hbefore, hsame⟩
  match call with
  | .getInstance instanceId workerId =>
    unfold turn
    dsimp only
    split
    · rename_i node hnode
      refine ⟨h, Later.refl t, ?_⟩
      rintro _ ⟨⟩
      exact h.inTree instanceId node hnode
    · exact ⟨h, Later.refl t, by rintro _ ⟨⟩; trivial⟩
  | .createInstance instanceId workerId =>
    unfold turn
    dsimp only
    split
    · rename_i node hnode
      refine ⟨h, Later.refl t, ?_⟩
      rintro _ ⟨⟩
      exact h.inTree instanceId node hnode
    · obtain ⟨hwf, hlater⟩ := createInstance_wf h instanceId
      refine ⟨hwf, hlater, ?_⟩
      rintro _ ⟨⟩
      refine ⟨Nat.lt_succ_self _, ?_⟩
      rw [nameOf_createInstance, if_pos rfl]
  | .addWorker instanceId workerId node =>
    obtain ⟨hwf, hlater⟩ := addWorker_wf h hcall.1 hcall.2 workerId
    exact ⟨hwf, hlater, nofun⟩
  | .getForRemoval instanceId workerId =>
    unfold turn
    dsimp only
    split
    · rename_i node hnode
      refine ⟨h, Later.refl t, ?_⟩
      rintro _ ⟨⟩
      exact h.inTree instanceId node hnode
    · obtain ⟨hwf, hlater⟩ := h.of_registered t.instances t.workerNode
        (t.registered.erase (instanceId, workerId)) (fun _ _ => id)
        (fun id w last hlast => ⟨last, (get?_erase_registered hlast).2, rfl⟩)
      exact ⟨hwf, hlater, nofun⟩
  | .removeWorker instanceId workerId node =>
    obtain ⟨hwf, hlater⟩ := removeWorker_wf h instanceId workerId node
    exact ⟨hwf, hlater, by rintro _ ⟨⟩; trivial⟩
  | .hasWorkers instanceId node =>
    refine ⟨h, Later.refl t, ?_⟩
    unfold turn
    intro next hnext
    dsimp only at hnext
    split at hnext
    · cases hnext
    · cases hnext
      trivial
  | .cleanUp instanceId node =>
    unfold turn
    dsimp only
    split
    · exact ⟨h, Later.refl t, nofun⟩
    · have herase (id : String) (n : Nat) (hget : (t.instances.erase instanceId).get? id = some n) :
          t.instances.get? id = some n := by
        rw [Dict.get?_erase] at hget
        split at hget
        · cases hget
        · exact hget
      obtain ⟨hwf, hlater⟩ := h.of_registered (t.instances.erase instanceId) t.workerNode
        t.registered herase (fun id w last hlast => ⟨last, hlast, rfl⟩)
      exact ⟨hwf, hlater, nofun⟩
  | .getForOperations msg isFullSync since =>
    unfold turn
    dsimp only
    split
    · rename_i node hnode
      refine ⟨h, Later.refl t, ?_⟩
      rintro _ ⟨⟩
      exact ⟨hcall, h.inTree msg.instanceId node hnode⟩
    · exact ⟨(hdrop msg isFullSync since).1, (hdrop msg isFullSync since).2, nofun⟩
  | .getWorker msg isFullSync since node =>
    unfold turn
    dsimp only
    split
    · rename_i worker hworker
      refine ⟨h, Later.refl t, ?_⟩
      rintro _ ⟨⟩
      refine ⟨hcall.1, h.worker_lt node msg.workerId worker hworker, ?_⟩
      rintro id w last hlast rfl
      obtain ⟨hid, hw⟩ := h.home node msg.workerId id w last hlast hworker
      rw [hid, hw, hcall.2.2]
    · exact ⟨(hdrop msg isFullSync since).1, (hdrop msg isFullSync since).2, nofun⟩
  | .applyOperations msg isFullSync since worker =>
    obtain ⟨hwf, hlater⟩ := h.of_registered t.instances
      (t.applyOperations msg isFullSync since worker).workerNode
      (t.count msg isFullSync since (some worker)) (fun _ _ => id)
      (fun id w last hlast => by
        obtain ⟨before, hbefore, hsame, -⟩ := get?_count msg isFullSync since (some worker) hlast
        exact ⟨before, hbefore, hsame⟩)
    exact ⟨hwf, hlater, nofun⟩

/-! ## What is registered can be reached -/

namespace SharedTree

variable {t : SharedTree}

/-- What the property comes to: the search finds what stands in a node that can be reached. -/
structure Current (t : SharedTree) : Prop where
  reachable : ∀ id w last, t.registered.get? (id, w) = some last →
    ∃ n, t.instances.get? id = some n ∧ t.workerOf n w = some last.worker
  applied : ∀ id w last, t.registered.get? (id, w) = some last →
    t.workerNode last.worker = last.node

theorem Current.visible (h : t.Current) {id : String} {w : Nat} {last : Registered}
    (hlast : t.registered.get? (id, w) = some last) {location : String} {key : Int}
    (hkey : key ∈ last.node.getKvKeys location) {excludeInstanceId : Option String}
    (hexclude : excludeInstanceId ≠ some id) : (t.findKv key excludeInstanceId).isSome := by
  obtain ⟨n, hn, hw⟩ := h.reachable id w last hlast
  have hholds : (t.instanceAt n).Holds key := by
    unfold WorkerNode.getKvKeys at hkey
    match hkeys : last.node.kvStore.get? location with
    | none =>
      rw [hkeys] at hkey
      exact absurd hkey (Finset.notMem_empty key)
    | some keys =>
      rw [hkeys] at hkey
      refine ⟨(w, last.node), ?_, (location, keys), Dict.get?_eq_some.mp hkeys, hkey⟩
      apply Dict.get?_eq_some.mp
      show ((t.instanceNode n).workers.mapValues t.workerNode).get? w = some last.node
      rw [Dict.get?_mapValues]
      change (t.instanceNode n).workers.get? w = some last.worker at hw
      rw [hw, Option.map_some, h.applied id w last hlast]
  unfold findKv
  apply List.findSome?_isSome_iff.mpr
  refine ⟨(id, n), Dict.get?_eq_some.mp hn, ?_⟩
  rw [if_neg hexclude, Option.isSome_iff_ne_none]
  intro hnone
  exact InstanceNode.findKeySimple_eq_none.mp hnone hholds

theorem safe_iff_current : t.Safe ↔ t.Current := by
  constructor
  · intro h
    exact ⟨fun id w last hlast => getWorker_eq_some.mp (h.reachable id w last hlast), h.applied⟩
  · intro h
    exact ⟨fun id w last hlast => getWorker_eq_some.mpr (h.reachable id w last hlast), h.applied,
      fun id w last hlast location key hkey excludeInstanceId hexclude =>
        h.visible hlast hkey hexclude⟩

end SharedTree

/-- A call with operations is on its way to the worker node that was registered when it was made, as
long as this is. -/
def Call.OnTrack (t : SharedTree) : Call → Prop
  | .getWorker msg _ since node => ∀ last,
      t.registered.get? (msg.instanceId, msg.workerId) = some last → since = some last.worker →
        t.workerOf node msg.workerId = some last.worker
  | .applyOperations msg _ since worker => ∀ last,
      t.registered.get? (msg.instanceId, msg.workerId) = some last → since = some last.worker →
        worker = last.worker
  | _ => True

/-- A call keeps on track when the nodes of those that stay registered do not move. -/
theorem Call.OnTrack.of_registered {t t' : SharedTree} (hok : call.Ok t)
    (h : call.OnTrack t)
    (hregistered : ∀ id w last, t'.registered.get? (id, w) = some last →
      last.worker < t.nextWorker → ∃ before, t.registered.get? (id, w) = some before ∧
        before.worker = last.worker ∧ ∀ n, n < t.nextInstance → t.nameOf n = id →
          t.workerOf n w = some last.worker → t'.workerOf n w = some last.worker) :
    call.OnTrack t' := by
  match call with
  | .getWorker msg isFullSync since node =>
    intro last hlast hsince
    obtain ⟨before, hbefore, hsame, hmoved⟩ :=
      hregistered _ _ last hlast (hok.1 last.worker hsince)
    apply hmoved node hok.2.1 hok.2.2
    rw [← hsame]
    apply h before hbefore
    rw [hsame, hsince]
  | .applyOperations msg isFullSync since worker =>
    intro last hlast hsince
    obtain ⟨before, hbefore, hsame, -⟩ :=
      hregistered _ _ last hlast (hok.1 last.worker hsince)
    rw [← hsame]
    apply h before hbefore
    rw [hsame, hsince]
  | .getInstance .. | .createInstance .. | .addWorker .. | .getForRemoval .. | .removeWorker ..
  | .hasWorkers .. | .cleanUp .. | .getForOperations .. => trivial

namespace SharedTree

variable {t : SharedTree}

/-- What a section leaves as it should be: the tree, and the calls of the other threads. -/
def Kept (t t' : SharedTree) : Prop :=
  t'.Current ∧ ∀ call : Call, call.Ok t → call.OnTrack t → call.OnTrack t'

theorem Kept.refl (h : t.Current) : t.Kept t := ⟨h, fun _ _ => id⟩

variable {instanceId : String} {msg : BatchedKVOperationMsg}

theorem createInstance_kept (hwf : t.Wf) (h : t.Current)
    (hnone : t.instances.get? instanceId = none) : t.Kept (t.createInstance instanceId) := by
  have hmoved (n w worker : Nat) (hn : n < t.nextInstance) (hw : t.workerOf n w = some worker) :
      (t.createInstance instanceId).workerOf n w = some worker := by
    rw [workerOf_createInstance, if_neg (Nat.ne_of_lt hn), hw]
  refine ⟨⟨?_, h.applied⟩, fun call hok htrack => htrack.of_registered hok ?_⟩
  · intro id w last hlast
    obtain ⟨n, hn, hw⟩ := h.reachable id w last hlast
    refine ⟨n, ?_, hmoved n w _ (hwf.inTree id n hn).1 hw⟩
    show (t.instances.set instanceId t.nextInstance).get? id = some n
    rw [Dict.get?_set, if_neg, hn]
    rintro rfl
    rw [hnone] at hn
    cases hn
  · intro id w last hlast _
    exact ⟨last, hlast, rfl, fun n hn _ => hmoved n w _ hn⟩

/-- A worker that is added where the tree looks for it. -/
theorem addWorker_kept (hwf : t.Wf) (h : t.Current) {node : Nat}
    (hnode : t.instances.get? instanceId = some node) (workerId : Nat) :
    t.Kept (t.addWorker instanceId workerId node) := by
  have hother (id : String) (w : Nat) (hne : (id, w) ≠ (instanceId, workerId)) (n : Nat)
      (hname : t.nameOf n = id) :
      (t.addWorker instanceId workerId node).workerOf n w = t.workerOf n w := by
    rw [workerOf_addWorker, if_neg]
    rintro ⟨rfl, rfl⟩
    apply hne
    rw [← hname, (hwf.inTree instanceId n hnode).2]
  have hget (id : String) (w : Nat) :
      (t.addWorker instanceId workerId node).registered.get? (id, w) =
        if (id, w) = (instanceId, workerId) then some ⟨t.nextWorker, {}⟩
        else t.registered.get? (id, w) := Dict.get?_set _ _ _ _
  refine ⟨⟨?_, ?_⟩, fun call hok htrack => htrack.of_registered hok ?_⟩
  · intro id w last hlast
    rw [hget] at hlast
    split at hlast
    · rename_i hkey
      cases hkey
      cases hlast
      refine ⟨node, hnode, ?_⟩
      rw [workerOf_addWorker, if_pos ⟨rfl, rfl⟩]
    · rename_i hne
      obtain ⟨n, hn, hw⟩ := h.reachable id w last hlast
      refine ⟨n, hn, ?_⟩
      rw [hother id w hne n (hwf.inTree id n hn).2, hw]
  · intro id w last hlast
    show Function.update t.workerNode t.nextWorker {} last.worker = last.node
    rw [hget] at hlast
    split at hlast
    · cases hlast
      exact Function.update_self ..
    · have hlt := hwf.registered_lt id w last hlast
      rw [Function.update_of_ne (Nat.ne_of_lt hlt)]
      exact h.applied id w last hlast
  · intro id w last hlast hlt
    rw [hget] at hlast
    split at hlast
    · cases hlast
      exact absurd hlt (Nat.lt_irrefl _)
    · rename_i hne
      refine ⟨last, hlast, rfl, fun n _ hname hw => ?_⟩
      rw [hother id w hne n hname, hw]

/-- A worker that is added elsewhere is lost at once. -/
theorem not_current_addWorker (hwf : t.Wf) {node : Nat} (workerId : Nat)
    (hnode : t.instances.get? instanceId ≠ some node) :
    ¬ (t.addWorker instanceId workerId node).Current := by
  intro h
  obtain ⟨n, hn, hw⟩ := h.reachable instanceId workerId ⟨t.nextWorker, {}⟩
    ((Dict.get?_set _ _ _ _).trans (if_pos rfl))
  rw [workerOf_addWorker] at hw
  split at hw
  · rename_i hplace
    exact hnode (hplace.1 ▸ hn)
  · exact absurd (hwf.worker_lt n workerId _ hw) (Nat.lt_irrefl _)

theorem removeWorker_kept (hwf : t.Wf) (h : t.Current) {node : Nat}
    (hname : t.nameOf node = instanceId) (workerId : Nat) :
    t.Kept (t.removeWorker instanceId workerId node) := by
  have hother (id : String) (w : Nat) (hne : (id, w) ≠ (instanceId, workerId)) (n : Nat)
      (hn : t.nameOf n = id) :
      (t.removeWorker instanceId workerId node).workerOf n w = t.workerOf n w := by
    rw [workerOf_removeWorker, if_neg]
    rintro ⟨rfl, rfl⟩
    exact hne (by rw [← hn, hname])
  refine ⟨⟨?_, ?_⟩, fun call hok htrack => htrack.of_registered hok ?_⟩
  · intro id w last hlast
    obtain ⟨hne, hlast⟩ := get?_erase_registered hlast
    obtain ⟨n, hn, hw⟩ := h.reachable id w last hlast
    refine ⟨n, hn, ?_⟩
    rw [hother id w hne n (hwf.inTree id n hn).2, hw]
  · intro id w last hlast
    exact h.applied id w last (get?_erase_registered hlast).2
  · intro id w last hlast _
    obtain ⟨hne, hlast⟩ := get?_erase_registered hlast
    refine ⟨last, hlast, rfl, fun n _ hn hw => ?_⟩
    rw [hother id w hne n hn, hw]

/-- A deregistration that finds no instance. -/
theorem erase_kept (h : t.Current) (key : String × Nat) :
    t.Kept { t with registered := t.registered.erase key } := by
  refine ⟨⟨?_, ?_⟩, fun call hok htrack => htrack.of_registered hok ?_⟩
  · intro id w last hlast
    exact h.reachable id w last (get?_erase_registered hlast).2
  · intro id w last hlast
    exact h.applied id w last (get?_erase_registered hlast).2
  · intro id w last hlast _
    exact ⟨last, (get?_erase_registered hlast).2, rfl, fun _ _ _ hw => hw⟩

/-- An instance that is removed from the tree, without a registered worker. -/
theorem pop_kept (h : t.Current)
    (hnobody : ∀ inTree, t.instances.get? instanceId = some inTree → ∀ workerId last,
      t.registered.get? (instanceId, workerId) = some last →
        t.workerOf inTree workerId ≠ some last.worker) :
    t.Kept { t with instances := t.instances.erase instanceId } := by
  refine ⟨⟨?_, h.applied⟩, fun call hok htrack => htrack.of_registered hok ?_⟩
  · intro id w last hlast
    obtain ⟨n, hn, hw⟩ := h.reachable id w last hlast
    refine ⟨n, ?_, hw⟩
    show (t.instances.erase instanceId).get? id = some n
    rw [Dict.get?_erase, if_neg, hn]
    rintro rfl
    exact hnobody n hn w last hlast hw
  · intro id w last hlast _
    exact ⟨last, hlast, rfl, fun _ _ _ hw => hw⟩

/-- With a registered worker, it is lost. -/
theorem not_current_pop {workerId : Nat} {last : Registered}
    (hlast : t.registered.get? (instanceId, workerId) = some last) :
    ¬ Current { t with instances := t.instances.erase instanceId } := by
  intro h
  obtain ⟨n, hn, -⟩ := h.reachable instanceId workerId last hlast
  change (t.instances.erase instanceId).get? instanceId = some n at hn
  rw [Dict.get?_erase, if_pos rfl] at hn
  cases hn

/-- Operations that find no worker were for none that is registered. -/
theorem dropOperations_kept (h : t.Current) {isFullSync : Bool} {since : Option Nat}
    (hnobody : ∀ last, t.registered.get? (msg.instanceId, msg.workerId) = some last →
      since ≠ some last.worker) : t.Kept (t.dropOperations msg isFullSync since) := by
  have hsame : t.dropOperations msg isFullSync since = t := by
    unfold dropOperations count
    split
    · rfl
    · rename_i last hlast
      rw [if_neg]
      rintro (hreached | hsince)
      · cases hreached
      · exact hnobody last hlast hsince
  rw [hsame]
  exact Kept.refl h

/-- Operations come to the worker node that is registered, or to one that is not registered. -/
theorem applyOperations_kept (h : t.Current) {isFullSync : Bool} {since : Option Nat} {worker : Nat}
    (hok : (Call.applyOperations msg isFullSync since worker).Ok t)
    (htrack : (Call.applyOperations msg isFullSync since worker).OnTrack t) :
    t.Kept (t.applyOperations msg isFullSync since worker) := by
  refine ⟨⟨?_, ?_⟩, fun call hok htrack => htrack.of_registered hok ?_⟩
  · intro id w last hlast
    obtain ⟨before, hbefore, hsame, -⟩ := get?_count msg isFullSync since (some worker) hlast
    rw [← hsame]
    exact h.reachable id w before hbefore
  · intro id w last hlast
    obtain ⟨before, hbefore, hsame, hnode⟩ := get?_count msg isFullSync since (some worker) hlast
    show Function.update t.workerNode worker _ last.worker = last.node
    rw [hnode, ← hsame, ← h.applied id w before hbefore]
    by_cases hreached : before.worker = worker
    · have hkey := hok.2.2 id w before hbefore hreached
      rw [hreached, Function.update_self, if_pos ⟨hkey, .inl rfl⟩]
    · rw [Function.update_of_ne hreached, if_neg]
      rintro ⟨hkey, hlate | hsince⟩
      · exact hreached (Option.some.inj hlate).symm
      · cases hkey
        exact hreached (htrack before hbefore hsince).symm
  · intro id w last hlast _
    obtain ⟨before, hbefore, hsame, -⟩ := get?_count msg isFullSync since (some worker) hlast
    exact ⟨before, hbefore, hsame, fun _ _ _ hw => hw⟩

/-- **Step lemma: sections.**  A section that meets the condition leaves the tree current and every
call on track. -/
theorem turn_kept (hwf : t.Wf) (h : t.Current) (hok : call.Ok t)
    (htrack : call.OnTrack t) (hkeeps : t.KeepsRegistered call) :
    t.Kept (t.turn call).1 ∧ ∀ next ∈ (t.turn call).2, next.OnTrack (t.turn call).1 := by
  match call with
  | .getInstance instanceId workerId =>
    unfold turn
    dsimp only
    split
    · exact ⟨Kept.refl h, by rintro _ ⟨⟩; trivial⟩
    · exact ⟨Kept.refl h, by rintro _ ⟨⟩; trivial⟩
  | .createInstance instanceId workerId =>
    unfold turn
    dsimp only
    split
    · exact ⟨Kept.refl h, by rintro _ ⟨⟩; trivial⟩
    · rename_i hnone
      exact ⟨createInstance_kept hwf h hnone, by rintro _ ⟨⟩; trivial⟩
  | .addWorker instanceId workerId node => exact ⟨addWorker_kept hwf h hkeeps workerId, nofun⟩
  | .getForRemoval instanceId workerId =>
    unfold turn
    dsimp only
    split
    · exact ⟨Kept.refl h, by rintro _ ⟨⟩; trivial⟩
    · exact ⟨erase_kept h (instanceId, workerId), nofun⟩
  | .removeWorker instanceId workerId node =>
    exact ⟨removeWorker_kept hwf h hok.2 workerId, by rintro _ ⟨⟩; trivial⟩
  | .hasWorkers instanceId node =>
    refine ⟨Kept.refl h, ?_⟩
    unfold turn
    intro next hnext
    dsimp only at hnext
    split at hnext
    · cases hnext
    · cases hnext
      trivial
  | .cleanUp instanceId node =>
    unfold turn
    dsimp only
    split
    · exact ⟨Kept.refl h, nofun⟩
    · rename_i hempty
      exact ⟨pop_kept h (hkeeps (Bool.eq_false_iff.mpr hempty)), nofun⟩
  | .getForOperations msg isFullSync since =>
    unfold turn
    dsimp only
    split
    · rename_i node hnode
      refine ⟨Kept.refl h, ?_⟩
      rintro _ ⟨⟩ last hlast -
      obtain ⟨n, hn, hw⟩ := h.reachable msg.instanceId msg.workerId last hlast
      rw [hnode] at hn
      cases hn
      exact hw
    · rename_i hnone
      refine ⟨dropOperations_kept h ?_, nofun⟩
      intro last hlast
      obtain ⟨n, hn, -⟩ := h.reachable msg.instanceId msg.workerId last hlast
      rw [hnone] at hn
      cases hn
  | .getWorker msg isFullSync since node =>
    unfold turn
    dsimp only
    split
    · rename_i worker hworker
      refine ⟨Kept.refl h, ?_⟩
      rintro _ ⟨⟩ last hlast hsince
      exact Option.some.inj (hworker.symm.trans (htrack last hlast hsince))
    · rename_i hnone
      refine ⟨dropOperations_kept h ?_, nofun⟩
      intro last hlast hsince
      rw [htrack last hlast hsince] at hnone
      cases hnone
  | .applyOperations msg isFullSync since worker =>
    exact ⟨applyOperations_kept h hok htrack, nofun⟩

/-- A section that does not meet it loses a registered worker. -/
theorem keepsRegistered_of_current_turn (hwf : t.Wf)
    (h : (t.turn call).1.Current) : t.KeepsRegistered call := by
  match call with
  | .addWorker instanceId workerId node =>
    by_contra hnode
    exact not_current_addWorker hwf workerId hnode h
  | .cleanUp instanceId node =>
    intro hempty inTree hinTree workerId last hlast _
    unfold turn at h
    dsimp only at h
    rw [if_neg (Bool.eq_false_iff.mp hempty)] at h
    exact not_current_pop hlast h
  | .getInstance .. | .createInstance .. | .getForRemoval .. | .removeWorker .. | .hasWorkers ..
  | .getForOperations .. | .getWorker .. | .applyOperations .. => trivial

end SharedTree

/-! ## Every run -/

namespace TreeRun

variable {s : TreeRun}

/-- The references are in order, and each call has got what it asked for. -/
structure Wf (s : TreeRun) : Prop where
  tree : s.tree.Wf
  calls : ∀ thread call, s.calls.get? thread = some call → call.Ok s.tree

/-- The tree is current, and each call is on track. -/
structure Current (s : TreeRun) : Prop where
  tree : s.tree.Current
  calls : ∀ thread call, s.calls.get? thread = some call → call.OnTrack s.tree

theorem get?_setCall {calls : Dict Nat Call} {thread : Nat} {next : Option Call} {th : Nat} (h : (setCall calls thread next).get? th = some call) :
    call ∈ next ∨ calls.get? th = some call := by
  unfold setCall at h
  split at h
  · rw [Dict.get?_set] at h
    split at h
    · exact .inl h
    · exact .inr h
  · rw [Dict.get?_erase] at h
    split at h
    · cases h
    · exact .inr h

/-- **What a step can do**: nothing; let a thread make a call or give one up, without a word to the
tree; or run one section of the call a thread is in. -/
theorem step_cases (s : TreeRun) (e : TreeEvent) :
    s.step e = s ∨
    (∃ thread next, s.step e = ⟨s.tree, setCall s.calls thread next⟩ ∧
      ∀ call ∈ next, ∃ op, call = TreeOp.call s.tree op) ∨
    ∃ thread call, e = .turn thread ∧ s.calls.get? thread = some call ∧
      s.step e = ⟨(s.tree.turn call).1, setCall s.calls thread (s.tree.turn call).2⟩ := by
  match e with
  | .call thread op =>
    by_cases hbusy : thread ∈ s.calls
    · exact .inl (if_pos hbusy)
    · refine .inr (.inl ⟨thread, some (op.call s.tree), if_neg hbusy, ?_⟩)
      rintro _ ⟨⟩
      exact ⟨op, rfl⟩
  | .turn thread =>
    unfold step
    dsimp only
    split
    · exact .inl rfl
    · rename_i call hcall
      exact .inr (.inr ⟨thread, call, rfl, hcall, rfl⟩)
  | .timeout thread =>
    unfold step
    dsimp only
    split
    · exact .inl rfl
    · split
      · exact .inr (.inl ⟨thread, none, rfl, nofun⟩)
      · exact .inl rfl

theorem call_ok {t : SharedTree} (h : t.Wf) (op : TreeOp) : (op.call t).Ok t := by
  match op with
  | .registerWorker .. | .deregisterWorker .. => trivial
  | .handleBatchedKvOperations msg isFullSync =>
    intro worker hworker
    obtain ⟨last, hlast, rfl⟩ := Option.map_eq_some_iff.mp hworker
    exact h.registered_lt _ _ last hlast

theorem call_onTrack (t : SharedTree) (op : TreeOp) : (op.call t).OnTrack t := by
  match op with
  | .registerWorker .. | .deregisterWorker .. | .handleBatchedKvOperations .. => trivial

theorem step_wf (s : TreeRun) (e : TreeEvent) (h : s.Wf) : (s.step e).Wf := by
  rcases step_cases s e with heq | ⟨thread, next, heq, hops⟩ | ⟨thread, call, -, hcall, heq⟩
  · rw [heq]
    exact h
  · rw [heq]
    refine ⟨h.tree, fun th call hcall => ?_⟩
    rcases get?_setCall hcall with hmem | hold
    · obtain ⟨op, rfl⟩ := hops call hmem
      exact call_ok h.tree op
    · exact h.calls th call hold
  · obtain ⟨hwf, hlater, hnext⟩ := SharedTree.turn_wf h.tree (h.calls thread call hcall)
    rw [heq]
    refine ⟨hwf, fun th call' hcall' => ?_⟩
    rcases get?_setCall hcall' with hmem | hold
    · exact hnext call' hmem
    · exact (h.calls th call' hold).later hlater

/-- **Step lemma.**  What keeps a run current is the condition on the sections. -/
theorem step_current (s : TreeRun) (e : TreeEvent) (hwf : s.Wf) (h : s.Current)
    (hkeeps : s.KeepsRegistered e) : (s.step e).Current := by
  rcases step_cases s e with heq | ⟨thread, next, heq, hops⟩ | ⟨thread, call, rfl, hcall, heq⟩
  · rw [heq]
    exact h
  · rw [heq]
    refine ⟨h.tree, fun th call hcall => ?_⟩
    rcases get?_setCall hcall with hmem | hold
    · obtain ⟨op, rfl⟩ := hops call hmem
      exact call_onTrack s.tree op
    · exact h.calls th call hold
  · obtain ⟨⟨hcurrent, hothers⟩, hnext⟩ := SharedTree.turn_kept hwf.tree h.tree
      (hwf.calls thread call hcall) (h.calls thread call hcall) (hkeeps call hcall)
    rw [heq]
    refine ⟨hcurrent, fun th call' hcall' => ?_⟩
    rcases get?_setCall hcall' with hmem | hold
    · exact hnext call' hmem
    · exact hothers call' (hwf.calls th call' hold) (h.calls th call' hold)

theorem keepsRegistered_of_step (s : TreeRun) (e : TreeEvent) (hwf : s.Wf)
    (h : (s.step e).tree.Current) : s.KeepsRegistered e := by
  match e with
  | .call .. | .timeout .. => trivial
  | .turn thread =>
    intro call hcall
    unfold step at h
    dsimp only at h
    rw [hcall] at h
    exact SharedTree.keepsRegistered_of_current_turn hwf.tree h

theorem wf_init : init.Wf := by
  refine ⟨⟨nofun, ?_, ?_, nofun, nofun⟩, nofun⟩
  · intro n w _
    rfl
  · intro n w worker hworker
    cases hworker

theorem current_init : init.Current := ⟨⟨nofun, nofun⟩, nofun⟩

/-- **Registrations are safe in every state of a run just when** each registration of it adds its
worker to the node that is in the tree, and no deregistration removes from the tree an instance with
a registered worker. -/
theorem always_safe_iff (es : List TreeEvent) :
    Always step (fun s => s.tree.Safe) init es ↔ Guarded step KeepsRegistered init es := by
  constructor
  · intro h
    have hboth := (always_of_step step_wf wf_init es).and h
    exact hboth.guarded fun (s : TreeRun) (e : TreeEvent) hs hnext =>
      keepsRegistered_of_step s e hs.1 (SharedTree.safe_iff_current.mp hnext.2)
  · intro hguarded
    have hcurrent : Always step (fun s => s.Wf ∧ s.Current) init es :=
      always_of_guarded (fun s e h hkeeps =>
        ⟨step_wf s e h.1, step_current s e h.1 h.2 hkeeps⟩) ⟨wf_init, current_init⟩ hguarded
    exact hcurrent.mono fun (s : TreeRun) (h : s.Wf ∧ s.Current) =>
      SharedTree.safe_iff_current.mpr h.2.tree

/-! ### A registration that overtakes a deregistration -/

/-- Worker 1 has got the node of its instance; worker 0, the last one in it, is deregistered, and
the node goes; then worker 1 is added to it. -/
def addedToRemovedNode : List TreeEvent :=
  [.call 0 (.registerWorker "i" 0), .turn 0, .turn 0, .turn 0,
    .call 1 (.registerWorker "i" 1), .turn 1,
    .call 2 (.deregisterWorker "i" 0), .turn 2, .turn 2, .turn 2, .turn 2,
    .turn 1]

/-- It can fail: worker 1 is registered, and nobody can reach it. -/
theorem not_always_safe : ¬ Always step (fun s => s.tree.Safe) init addedToRemovedNode := by
  intro h
  have hregistered : ((run step init addedToRemovedNode).tree.registered.get? ("i", 1)).isSome :=
    by decide +kernel
  obtain ⟨last, hlast⟩ := Option.isSome_iff_exists.mp hregistered
  have hreachable := h.last.reachable "i" 1 last hlast
  have hnobody : (run step init addedToRemovedNode).tree.getWorker "i" 1 = none := by
    decide +kernel
  rw [hnobody] at hreachable
  cases hreachable

end TreeRun

end LMCache.Controller
