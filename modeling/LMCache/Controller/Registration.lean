/-
# LMCache.Controller.Registration — the workers that are registered, and under which address.

Source: `cache_controller/controllers/registration_controller.py` (`RegistrationController`),
`RegistryTree` with the nodes below it in `cache_controller/utils.py`, and `health_check` of
`cache_controller/controller_manager.py`.

A worker registers, sends heartbeats and deregisters; the health check deregisters one whose last
heartbeat is too old.  Messages are handled one at a time.  A worker that registers again, without
having deregistered, is taken for a duplicate: its key sets are cleared and it keeps the address it
was registered with.  A heartbeat registers a worker only where there is none.

Beside the registry a run keeps what each worker has sent last, which no handler reads.
-/
import LMCache.Controller.WorkerNode
import LMCache.Lib.Run

namespace LMCache.Controller

open LMCache.Lib

/-! ## Messages -/

structure RegisterMsg where
  instanceId : String
  workerId : Nat
  ip : String
  port : Int
  /-- URL for actual KV cache transfer, only useful when p2p is enabled. -/
  peerInitUrl : Option String
  deriving DecidableEq, Repr

structure DeRegisterMsg where
  instanceId : String
  workerId : Nat
  ip : String
  port : Int
  deriving DecidableEq, Repr

/-- Message for heartbeat, with register info for re-register. -/
structure HeartbeatMsg where
  instanceId : String
  workerId : Nat
  ip : String
  port : Int
  peerInitUrl : Option String
  deriving DecidableEq, Repr

/-- What the health check reads of a `WorkerInfo`, and what it puts into its message. -/
structure WorkerInfo where
  instanceId : String
  workerId : Nat
  ip : String
  port : Int
  lastHeartbeatTime : Rat
  deriving DecidableEq, Repr

/-! ## The registry -/

/-- A `WorkerNode` with what it was registered with. -/
structure WorkerEntry where
  ip : String
  port : Int
  peerInitUrl : Option String
  /-- The URL that the socket is connected to. -/
  socket : String
  registrationTime : Rat
  lastHeartbeatTime : Rat
  node : WorkerNode

/-- `RegistryTree`: the workers of each instance. -/
structure Registry where
  instances : Dict String (Dict Nat WorkerEntry)

namespace Registry

def empty : Registry := ⟨.empty⟩

/-- `get_worker`. -/
def getWorker (r : Registry) (instanceId : String) (workerId : Nat) : Option WorkerEntry :=
  (r.instances.get? instanceId).bind fun workers => workers.get? workerId

/-- `register_worker`, of a worker node that is new. -/
def registerWorker (r : Registry) (instanceId : String) (workerId : Nat) (entry : WorkerEntry) :
    Registry :=
  ⟨r.instances.set instanceId
    (((r.instances.get? instanceId).getD .empty).set workerId entry)⟩

/-- `deregister_worker`: the worker that is removed, and an instance without workers goes, too. -/
def deregisterWorker (r : Registry) (instanceId : String) (workerId : Nat) :
    Option WorkerEntry × Registry :=
  match r.instances.get? instanceId with
  | none => (none, r)
  | some workers =>
    (workers.get? workerId,
      if (workers.erase workerId).keys = [] then ⟨r.instances.erase instanceId⟩
      else ⟨r.instances.set instanceId (workers.erase workerId)⟩)

/-- A worker node is changed where it stands. -/
def modifyWorker (r : Registry) (instanceId : String) (workerId : Nat)
    (f : WorkerEntry → WorkerEntry) : Registry :=
  match r.instances.get? instanceId with
  | none => r
  | some workers =>
    match workers.get? workerId with
    | none => r
    | some entry => ⟨r.instances.set instanceId (workers.set workerId (f entry))⟩

/-- `clear_worker_kv` without a location. -/
def clearWorkerKv (r : Registry) (instanceId : String) (workerId : Nat) : Registry :=
  r.modifyWorker instanceId workerId fun entry =>
    { entry with node := { entry.node with kvStore := .empty, seqTracker := .empty } }

/-- `update_heartbeat`: whether there is such a worker. -/
def updateHeartbeat (r : Registry) (instanceId : String) (workerId : Nat) (timestamp : Rat) :
    Bool × Registry :=
  ((r.getWorker instanceId workerId).isSome,
    r.modifyWorker instanceId workerId fun entry => { entry with lastHeartbeatTime := timestamp })

/-- `handle_batched_kv_operations`. -/
def handleBatchedKvOperations (r : Registry) (msg : BatchedKVOperationMsg) (isFullSync : Bool) :
    Registry :=
  r.modifyWorker msg.instanceId msg.workerId fun entry =>
    { entry with node := (entry.node.handleBatchedKvOperations msg isFullSync).1 }

end Registry

/-! ## The controller -/

namespace RegistrationController

/-- `get_socket`: the URL it is connected to. -/
def getSocket (r : Registry) (instanceId : String) (workerId : Nat) : Option String :=
  (r.getWorker instanceId workerId).map WorkerEntry.socket

/-- `get_peer_init_url`. -/
def getPeerInitUrl (r : Registry) (instanceId : String) (workerId : Nat) : Option String :=
  (r.getWorker instanceId workerId).bind WorkerEntry.peerInitUrl

/-- `url` -/
def url (ip : String) (port : Int) : String := s!"{ip}:{port}"

/-- `register`. -/
def register (r : Registry) (msg : RegisterMsg) (now : Rat) : Registry :=
  match r.getWorker msg.instanceId msg.workerId with
  | some _ =>
    -- prevent duplicate registration
    r.clearWorkerKv msg.instanceId msg.workerId
  | none =>
    r.registerWorker msg.instanceId msg.workerId
      ⟨msg.ip, msg.port, msg.peerInitUrl, url msg.ip msg.port, now, now, {}⟩

/-- `deregister`: the socket that is closed, and the registry. -/
def deregister (r : Registry) (msg : DeRegisterMsg) : Option String × Registry :=
  let removed := r.deregisterWorker msg.instanceId msg.workerId
  (removed.1.map WorkerEntry.socket, removed.2)

/-- `heartbeat`: the reasons of the full syncs that the worker is told to make, and the registry.
`shouldRequestFullSync` is what the tracker answers for the worker. -/
def heartbeat (r : Registry) (msg : HeartbeatMsg) (now : Rat)
    (shouldRequestFullSync : Option String) : List String × Registry :=
  let updated := r.updateHeartbeat msg.instanceId msg.workerId now
  if updated.1 then (shouldRequestFullSync.toList, updated.2)
  else
    (["worker_re_registered"], register updated.2
      ⟨msg.instanceId, msg.workerId, msg.ip, msg.port, msg.peerInitUrl⟩ now)

/-- `health_check` deregisters a worker whose last heartbeat is too old. -/
def timedOut (workerInfos : List WorkerInfo) (now workerTimeout : Rat) : List WorkerInfo :=
  workerInfos.filter fun info => workerTimeout < now - info.lastHeartbeatTime

/-- A round of `health_check`; `workerInfos` may come from a cache. -/
def healthCheck (r : Registry) (workerInfos : List WorkerInfo) (now workerTimeout : Rat) :
    Registry :=
  (timedOut workerInfos now workerTimeout).foldl
    (fun r info => (deregister r ⟨info.instanceId, info.workerId, info.ip, info.port⟩).2) r

end RegistrationController

/-! ## What the operations do to a worker -/

namespace Registry

variable (r : Registry)

/-- No instance is without workers. -/
def Populated : Prop := ∀ id workers, r.instances.get? id = some workers → workers.keys ≠ []

theorem getWorker_registerWorker (instanceId : String) (workerId : Nat) (entry : WorkerEntry)
    (id : String) (w : Nat) :
    (r.registerWorker instanceId workerId entry).getWorker id w =
      if id = instanceId ∧ w = workerId then some entry else r.getWorker id w := by
  unfold registerWorker getWorker
  by_cases hid : id = instanceId
  · subst hid
    rw [Dict.get?_set, if_pos rfl]
    show (((r.instances.get? id).getD .empty).set workerId entry).get? w = _
    rw [Dict.get?_set]
    by_cases hw : w = workerId
    · rw [if_pos hw, if_pos ⟨rfl, hw⟩]
    · rw [if_neg hw, if_neg (fun h => hw h.2)]
      match r.instances.get? id with
      | none => rfl
      | some workers => rfl
  · rw [Dict.get?_set, if_neg hid, if_neg (fun h => hid h.1)]

theorem getWorker_deregisterWorker (instanceId : String) (workerId : Nat) (id : String) (w : Nat) :
    (r.deregisterWorker instanceId workerId).2.getWorker id w =
      if id = instanceId ∧ w = workerId then none else r.getWorker id w := by
  unfold deregisterWorker
  match hget : r.instances.get? instanceId with
  | none =>
    unfold getWorker
    by_cases h : id = instanceId ∧ w = workerId
    · rw [if_pos h, h.1, hget]
      rfl
    · rw [if_neg h]
  | some workers =>
    have herase (w : Nat) : (workers.erase workerId).get? w =
        if w = workerId then none else workers.get? w := Dict.get?_erase _ _ _
    unfold getWorker
    dsimp only
    by_cases hid : id = instanceId
    · subst hid
      have hrest : (if id = id ∧ w = workerId then none
          else (r.instances.get? id).bind fun workers => workers.get? w) =
            (workers.erase workerId).get? w := by
        rw [herase, hget]
        by_cases hw : w = workerId
        · rw [if_pos ⟨rfl, hw⟩, if_pos hw]
        · rw [if_neg (fun h => hw h.2), if_neg hw]
          rfl
      rw [hrest]
      split
      · rename_i hempty
        rw [Dict.get?_erase, if_pos rfl]
        symm
        rw [Option.bind_none, Dict.get?_eq_none, Dict.mem_def, hempty]
        exact List.not_mem_nil
      · rw [Dict.get?_set, if_pos rfl]
        rfl
    · have hother : ¬ (id = instanceId ∧ w = workerId) := fun h => hid h.1
      rw [if_neg hother]
      split
      · rw [Dict.get?_erase, if_neg hid]
      · rw [Dict.get?_set, if_neg hid]

theorem getWorker_modifyWorker (instanceId : String) (workerId : Nat)
    (f : WorkerEntry → WorkerEntry) (id : String) (w : Nat) :
    (r.modifyWorker instanceId workerId f).getWorker id w =
      if id = instanceId ∧ w = workerId then (r.getWorker id w).map f else r.getWorker id w := by
  unfold modifyWorker
  match hget : r.instances.get? instanceId with
  | none =>
    by_cases h : id = instanceId ∧ w = workerId
    · rw [if_pos h]
      unfold getWorker
      rw [h.1, hget]
      rfl
    · rw [if_neg h]
  | some workers =>
    dsimp only
    match hworker : workers.get? workerId with
    | none =>
      by_cases h : id = instanceId ∧ w = workerId
      · rw [if_pos h]
        unfold getWorker
        rw [h.1, h.2, hget]
        show workers.get? workerId = (workers.get? workerId).map f
        rw [hworker]
        rfl
      · rw [if_neg h]
    | some entry =>
      unfold getWorker
      dsimp only
      by_cases hid : id = instanceId
      · subst hid
        rw [Dict.get?_set, if_pos rfl, hget]
        show (workers.set workerId (f entry)).get? w =
          if id = id ∧ w = workerId then (workers.get? w).map f else workers.get? w
        rw [Dict.get?_set]
        by_cases hw : w = workerId
        · rw [if_pos hw, if_pos ⟨rfl, hw⟩, hw, hworker]
          rfl
        · rw [if_neg hw, if_neg (fun h => hw h.2)]
      · rw [Dict.get?_set, if_neg hid, if_neg (fun h => hid h.1)]

theorem ne_nil_of_set {d : Dict Nat WorkerEntry} (w : Nat) (entry : WorkerEntry) :
    (d.set w entry).keys ≠ [] := by
  intro hempty
  have hmem : w ∈ d.set w entry := (Dict.mem_set d w w entry).mpr (.inl rfl)
  rw [Dict.mem_def, hempty] at hmem
  exact List.not_mem_nil hmem

variable {r}

theorem populated_set (h : r.Populated) {instanceId : String} {workers : Dict Nat WorkerEntry}
    (hworkers : workers.keys ≠ []) : Populated ⟨r.instances.set instanceId workers⟩ := by
  intro id workers' hget
  change (r.instances.set instanceId workers).get? id = some workers' at hget
  rw [Dict.get?_set] at hget
  split at hget
  · cases hget
    exact hworkers
  · exact h id workers' hget

theorem populated_registerWorker (h : r.Populated) (instanceId : String) (workerId : Nat)
    (entry : WorkerEntry) : (r.registerWorker instanceId workerId entry).Populated :=
  populated_set h (ne_nil_of_set workerId entry)

theorem populated_deregisterWorker (h : r.Populated) (instanceId : String) (workerId : Nat) :
    (r.deregisterWorker instanceId workerId).2.Populated := by
  unfold deregisterWorker
  split
  · exact h
  · dsimp only
    split
    · intro id workers hget
      change (r.instances.erase instanceId).get? id = some workers at hget
      rw [Dict.get?_erase] at hget
      split at hget
      · cases hget
      · exact h id workers hget
    · rename_i hne
      exact populated_set h hne

theorem populated_modifyWorker (h : r.Populated) (instanceId : String) (workerId : Nat)
    (f : WorkerEntry → WorkerEntry) : (r.modifyWorker instanceId workerId f).Populated := by
  unfold modifyWorker
  split
  · exact h
  · split
    · exact h
    · exact populated_set h (ne_nil_of_set workerId _)

end Registry

/-! ## Runs -/

/-- What a worker has sent since it was last deregistered: the address of its last registration, and
the operations that were applied since. -/
structure Registration where
  ip : String
  port : Int
  peerInitUrl : Option String
  operations : List BatchedKVOperationMsg
  deriving DecidableEq, Repr

/-- The registry, and the last registration of each worker. -/
structure RegistryRun where
  registry : Registry
  latest : Dict (String × Nat) Registration

inductive RegistryEvent where
  | register (msg : RegisterMsg) (now : Rat)
  | deregister (msg : DeRegisterMsg)
  | heartbeat (msg : HeartbeatMsg) (now : Rat) (shouldRequestFullSync : Option String)
  | healthCheck (workerInfos : List WorkerInfo) (now workerTimeout : Rat)
  | kvOperations (msg : BatchedKVOperationMsg) (isFullSync : Bool)

namespace RegistryRun

open RegistrationController

def init : RegistryRun := ⟨.empty, .empty⟩

def step (s : RegistryRun) : RegistryEvent → RegistryRun
  | .register msg now =>
    ⟨RegistrationController.register s.registry msg now,
      s.latest.set (msg.instanceId, msg.workerId) ⟨msg.ip, msg.port, msg.peerInitUrl, []⟩⟩
  | .deregister msg =>
    ⟨(RegistrationController.deregister s.registry msg).2,
      s.latest.erase (msg.instanceId, msg.workerId)⟩
  | .heartbeat msg now shouldRequestFullSync =>
    ⟨(RegistrationController.heartbeat s.registry msg now shouldRequestFullSync).2,
      if (msg.instanceId, msg.workerId) ∈ s.latest then s.latest
      else s.latest.set (msg.instanceId, msg.workerId) ⟨msg.ip, msg.port, msg.peerInitUrl, []⟩⟩
  | .healthCheck workerInfos now workerTimeout =>
    ⟨RegistrationController.healthCheck s.registry workerInfos now workerTimeout,
      (timedOut workerInfos now workerTimeout).foldl
        (fun latest info => latest.erase (info.instanceId, info.workerId)) s.latest⟩
  | .kvOperations msg isFullSync =>
    ⟨s.registry.handleBatchedKvOperations msg isFullSync,
      match s.registry.getWorker msg.instanceId msg.workerId,
        s.latest.get? (msg.instanceId, msg.workerId) with
      | some entry, some last =>
        if (entry.node.handleBatchedKvOperations msg isFullSync).2.1 then
          s.latest.set (msg.instanceId, msg.workerId)
            { last with operations := last.operations ++ [msg] }
        else s.latest
      | _, _ => s.latest⟩

/-- A key set holds only what was admitted in these messages. -/
def AdmittedIn (operations : List BatchedKVOperationMsg) (node : WorkerNode) : Prop :=
  ∀ location, ∀ key ∈ node.getKvKeys location, ∃ msg ∈ operations, msg.location = location ∧
    ∃ op ∈ msg.operations, op.opType = .ADMIT ∧ op.key = key

/-- The entry of a worker has the address of its last registration. -/
def SameAddress (entry : WorkerEntry) (last : Registration) : Prop :=
  entry.ip = last.ip ∧ entry.port = last.port ∧ entry.peerInitUrl = last.peerInitUrl ∧
    entry.socket = url last.ip last.port

instance (entry : WorkerEntry) (last : Registration) : Decidable (SameAddress entry last) :=
  inferInstanceAs (Decidable (_ ∧ _ ∧ _ ∧ _))

/-- The entry of a worker beside its last registration: there are both or none, the key sets are
from the time since, and the socket is connected to the address of the entry. -/
def Matches (entry : Option WorkerEntry) (last : Option Registration) : Prop :=
  match entry, last with
  | none, none => True
  | some entry, some last =>
    AdmittedIn last.operations entry.node ∧ entry.socket = url entry.ip entry.port
  | _, _ => False

/-- What does not depend on addresses. -/
structure Current (s : RegistryRun) : Prop where
  matched : ∀ id w, Matches (s.registry.getWorker id w) (s.latest.get? (id, w))
  populated : s.registry.Populated

/-- The entries have the addresses of the last registrations. -/
def Addressed (s : RegistryRun) : Prop :=
  ∀ id w entry last, s.registry.getWorker id w = some entry →
    s.latest.get? (id, w) = some last → SameAddress entry last

/-- **The registry reflects the latest registrations.** -/
structure Reflects (s : RegistryRun) : Prop where
  registered : ∀ id w, (s.registry.getWorker id w).isSome = (s.latest.get? (id, w)).isSome
  addressed : s.Addressed
  socket : ∀ id w last, s.latest.get? (id, w) = some last →
    getSocket s.registry id w = some (url last.ip last.port)
  peerInitUrl : ∀ id w last, s.latest.get? (id, w) = some last →
    getPeerInitUrl s.registry id w = last.peerInitUrl
  admitted : ∀ id w entry last, s.registry.getWorker id w = some entry →
    s.latest.get? (id, w) = some last → AdmittedIn last.operations entry.node
  populated : s.registry.Populated

/-- The condition on a message: a worker that registers where it is registered has the address it is
registered with. -/
def KeepsAddress (s : RegistryRun) : RegistryEvent → Prop
  | .register msg _ => ∀ entry ∈ s.registry.getWorker msg.instanceId msg.workerId,
    SameAddress entry ⟨msg.ip, msg.port, msg.peerInitUrl, []⟩
  | _ => True

instance (s : RegistryRun) : ∀ e, Decidable (s.KeepsAddress e)
  | .register _ _ => inferInstanceAs (Decidable (∀ entry ∈ (_ : Option WorkerEntry), _))
  | .deregister _ | .heartbeat _ _ _ | .healthCheck _ _ _ | .kvOperations _ _ => .isTrue trivial

/-! ### One worker at a time -/

/-- Two states agree on every worker but one. -/
structure OnlyWorker (s s' : RegistryRun) (instanceId : String) (workerId : Nat) : Prop where
  getWorker : ∀ id w, ¬ (id = instanceId ∧ w = workerId) →
    s'.registry.getWorker id w = s.registry.getWorker id w
  latest : ∀ id w, ¬ (id = instanceId ∧ w = workerId) →
    s'.latest.get? (id, w) = s.latest.get? (id, w)

variable {s s' : RegistryRun} {instanceId : String} {workerId : Nat}

theorem get?_set_latest (latest : Dict (String × Nat) Registration) (last : Registration)
    (id : String) (w : Nat) : (latest.set (instanceId, workerId) last).get? (id, w) =
      if id = instanceId ∧ w = workerId then some last else latest.get? (id, w) := by
  rw [Dict.get?_set]
  exact if_congr Prod.mk_inj rfl rfl

theorem get?_erase_latest (latest : Dict (String × Nat) Registration) (id : String) (w : Nat) :
    (latest.erase (instanceId, workerId)).get? (id, w) =
      if id = instanceId ∧ w = workerId then none else latest.get? (id, w) := by
  rw [Dict.get?_erase]
  exact if_congr Prod.mk_inj rfl rfl

theorem Current.of_onlyWorker (h : Current s) (honly : OnlyWorker s s' instanceId workerId)
    (hmatches : Matches (s'.registry.getWorker instanceId workerId)
      (s'.latest.get? (instanceId, workerId)))
    (hpopulated : s'.registry.Populated) : Current s' where
  matched := by
    intro id w
    by_cases hid : id = instanceId ∧ w = workerId
    · rw [hid.1, hid.2]
      exact hmatches
    · rw [honly.getWorker id w hid, honly.latest id w hid]
      exact h.matched id w
  populated := hpopulated

/-- Only the address of the one worker is in question. -/
theorem addressed_iff_of_onlyWorker (h : Addressed s)
    (honly : OnlyWorker s s' instanceId workerId) : Addressed s' ↔
      ∀ entry last, s'.registry.getWorker instanceId workerId = some entry →
        s'.latest.get? (instanceId, workerId) = some last → SameAddress entry last := by
  constructor
  · intro h' entry last
    exact h' instanceId workerId entry last
  · intro hself id w entry last hentry hlast
    by_cases hid : id = instanceId ∧ w = workerId
    · rw [hid.1, hid.2] at hentry hlast
      exact hself entry last hentry hlast
    · rw [honly.getWorker id w hid] at hentry
      rw [honly.latest id w hid] at hlast
      exact h id w entry last hentry hlast

theorem Current.isSome_eq (h : Current s) (id : String) (w : Nat) :
    (s.registry.getWorker id w).isSome = (s.latest.get? (id, w)).isSome := by
  have hmatches := h.matched id w
  match hentry : s.registry.getWorker id w, hlast : s.latest.get? (id, w) with
  | none, none => rfl
  | some _, some _ => rfl
  | none, some _ =>
    rw [hentry, hlast] at hmatches
    exact hmatches.elim
  | some _, none =>
    rw [hentry, hlast] at hmatches
    exact hmatches.elim

theorem Current.mem_latest_iff (h : Current s) (id : String) (w : Nat) :
    (id, w) ∈ s.latest ↔ (s.registry.getWorker id w).isSome = true := by
  rw [h.isSome_eq, Option.isSome_iff_exists, Dict.mem_iff_get?]

theorem admittedIn_empty (operations : List BatchedKVOperationMsg) (node : WorkerNode)
    (h : node.kvStore = .empty) : AdmittedIn operations node := by
  intro location key hkey
  unfold WorkerNode.getKvKeys at hkey
  rw [h, Dict.get?_empty] at hkey
  exact absurd hkey (Finset.notMem_empty key)

/-- A key that a message has brought in was admitted in it. -/
theorem mem_or_admitted {V : Set Int} {key : Int} {ops : List KVOpEvent}
    (h : key ∈ Note.applyAll V (ops.map KVOpEvent.note)) :
    key ∈ V ∨ ∃ op ∈ ops, op.opType = .ADMIT ∧ op.key = key := by
  induction ops generalizing V with
  | nil => exact .inl h
  | cons op ops ih =>
    rcases ih h with hmem | ⟨op', hop', hadmit⟩
    · unfold KVOpEvent.note at hmem
      match htype : op.opType with
      | .ADMIT =>
        rw [htype] at hmem
        rcases hmem with rfl | hmem
        · exact .inr ⟨op, List.mem_cons_self, htype, rfl⟩
        · exact .inl hmem
      | .EVICT =>
        rw [htype] at hmem
        exact .inl hmem.1
    · exact .inr ⟨op', List.mem_cons_of_mem _ hop', hadmit⟩

theorem AdmittedIn.handle {operations : List BatchedKVOperationMsg} {node : WorkerNode}
    (h : AdmittedIn operations node) (msg : BatchedKVOperationMsg) (isFullSync : Bool) :
    AdmittedIn (if (node.handleBatchedKvOperations msg isFullSync).2.1 then operations ++ [msg]
      else operations) (node.handleBatchedKvOperations msg isFullSync).1 := by
  by_cases hrejects : node.isWorkerSyncing ∧ !isFullSync
  · have heq : node.handleBatchedKvOperations msg isFullSync = (node, false, none) := by
      unfold WorkerNode.handleBatchedKvOperations
      rw [if_pos hrejects]
    rw [heq]
    exact h
  · have hdone : (node.handleBatchedKvOperations msg isFullSync).2.1 = true := by
      unfold WorkerNode.handleBatchedKvOperations
      rw [if_neg hrejects]
    rw [if_pos hdone]
    have haccepts : node.isWorkerSyncing = false ∨ isFullSync = true := by
      simpa [or_iff_not_imp_left] using hrejects
    intro location key hkey
    rw [← Finset.mem_coe, WorkerNode.getKvKeys_handle msg haccepts] at hkey
    have hbefore (hmem : key ∈ node.getKvKeys location) : ∃ msg' ∈ operations ++ [msg],
        msg'.location = location ∧ ∃ op ∈ msg'.operations, op.opType = .ADMIT ∧ op.key = key := by
      obtain ⟨msg', hmsg', hrest⟩ := h location key hmem
      exact ⟨msg', List.mem_append_left _ hmsg', hrest⟩
    split at hkey
    · rename_i hloc
      rcases mem_or_admitted hkey with hmem | hadmit
      · exact hbefore hmem
      · exact ⟨msg, List.mem_append_right _ (List.mem_singleton.mpr rfl), hloc.symm, hadmit⟩
    · exact hbefore hkey

/-! ### The messages -/

variable {latest : Dict (String × Nat) Registration}

theorem onlyWorker_modify (f : WorkerEntry → WorkerEntry)
    (hlatest : ∀ id w, ¬ (id = instanceId ∧ w = workerId) →
      latest.get? (id, w) = s.latest.get? (id, w)) :
    OnlyWorker s ⟨s.registry.modifyWorker instanceId workerId f, latest⟩ instanceId workerId where
  getWorker := by
    intro id w hid
    rw [Registry.getWorker_modifyWorker, if_neg hid]
  latest := hlatest

theorem getWorker_modify_self (r : Registry) (instanceId : String) (workerId : Nat)
    (f : WorkerEntry → WorkerEntry) :
    (r.modifyWorker instanceId workerId f).getWorker instanceId workerId =
      (r.getWorker instanceId workerId).map f := by
  rw [Registry.getWorker_modifyWorker, if_pos ⟨rfl, rfl⟩]

/-- **Step lemma: a registration.** -/
theorem step_register (h : Current s) (msg : RegisterMsg) (now : Rat) :
    Current (s.step (.register msg now)) ∧
      (Addressed s → (Addressed (s.step (.register msg now)) ↔
        s.KeepsAddress (.register msg now))) := by
  have hset (id : String) (w : Nat) (hid : ¬ (id = msg.instanceId ∧ w = msg.workerId)) :
      (s.latest.set (msg.instanceId, msg.workerId)
        ⟨msg.ip, msg.port, msg.peerInitUrl, []⟩).get? (id, w) = s.latest.get? (id, w) := by
    rw [get?_set_latest, if_neg hid]
  have hself : (s.latest.set (msg.instanceId, msg.workerId)
      ⟨msg.ip, msg.port, msg.peerInitUrl, []⟩).get? (msg.instanceId, msg.workerId) =
        some ⟨msg.ip, msg.port, msg.peerInitUrl, []⟩ := by
    rw [get?_set_latest, if_pos ⟨rfl, rfl⟩]
  unfold step
  dsimp only
  unfold RegistrationController.register
  match hentry : s.registry.getWorker msg.instanceId msg.workerId with
  | some entry =>
    -- a duplicate: the key sets go, and the address stays
    unfold Registry.clearWorkerKv
    have honly := onlyWorker_modify (fun entry =>
      { entry with node := { entry.node with kvStore := .empty, seqTracker := .empty } }) hset
    have hworker := getWorker_modify_self s.registry msg.instanceId msg.workerId
      (fun entry =>
        { entry with node := { entry.node with kvStore := .empty, seqTracker := .empty } })
    rw [hentry, Option.map_some] at hworker
    refine ⟨h.of_onlyWorker honly ?_ (Registry.populated_modifyWorker h.populated _ _ _), ?_⟩
    · dsimp only
      rw [hworker, hself]
      have hmatches := h.matched msg.instanceId msg.workerId
      obtain ⟨last, hlast⟩ := Option.isSome_iff_exists.mp
        ((h.isSome_eq msg.instanceId msg.workerId).symm.trans (by rw [hentry]; rfl))
      rw [hentry, hlast] at hmatches
      exact ⟨admittedIn_empty _ _ rfl, hmatches.2⟩
    · intro haddressed
      rw [addressed_iff_of_onlyWorker haddressed honly]
      dsimp only
      rw [hworker, hself]
      unfold KeepsAddress
      dsimp only
      rw [hentry]
      constructor
      · rintro hsame entry' ⟨⟩
        have hcleared := hsame _ _ rfl rfl
        exact hcleared
      · rintro hsame _ _ ⟨⟩ ⟨⟩
        exact hsame entry rfl
  | none =>
    have honly : OnlyWorker s ⟨s.registry.registerWorker msg.instanceId msg.workerId
        ⟨msg.ip, msg.port, msg.peerInitUrl, url msg.ip msg.port, now, now, {}⟩,
        s.latest.set (msg.instanceId, msg.workerId) ⟨msg.ip, msg.port, msg.peerInitUrl, []⟩⟩
        msg.instanceId msg.workerId := by
      refine ⟨?_, hset⟩
      intro id w hid
      rw [Registry.getWorker_registerWorker, if_neg hid]
    have hworker := s.registry.getWorker_registerWorker msg.instanceId msg.workerId
      ⟨msg.ip, msg.port, msg.peerInitUrl, url msg.ip msg.port, now, now, {}⟩ msg.instanceId
      msg.workerId
    rw [if_pos ⟨rfl, rfl⟩] at hworker
    refine ⟨h.of_onlyWorker honly ?_ (Registry.populated_registerWorker h.populated _ _ _), ?_⟩
    · dsimp only
      rw [hworker, hself]
      exact ⟨admittedIn_empty _ _ rfl, rfl⟩
    · intro haddressed
      rw [addressed_iff_of_onlyWorker haddressed honly]
      dsimp only
      rw [hworker, hself]
      unfold KeepsAddress
      dsimp only
      rw [hentry]
      refine ⟨fun _ => nofun, ?_⟩
      rintro - _ _ ⟨⟩ ⟨⟩
      exact ⟨rfl, rfl, rfl, rfl⟩

/-- **Step lemma: a deregistration.** -/
theorem step_deregister (h : Current s) (msg : DeRegisterMsg) :
    Current (s.step (.deregister msg)) ∧
      (Addressed s → Addressed (s.step (.deregister msg))) := by
  have honly : OnlyWorker s (s.step (.deregister msg)) msg.instanceId msg.workerId := by
    refine ⟨?_, ?_⟩
    · intro id w hid
      show ((s.registry.deregisterWorker msg.instanceId msg.workerId).2).getWorker id w = _
      rw [Registry.getWorker_deregisterWorker, if_neg hid]
    · intro id w hid
      show (s.latest.erase (msg.instanceId, msg.workerId)).get? (id, w) = _
      rw [get?_erase_latest, if_neg hid]
  have hworker : (s.step (.deregister msg)).registry.getWorker msg.instanceId msg.workerId =
      none := by
    show ((s.registry.deregisterWorker msg.instanceId msg.workerId).2).getWorker _ _ = _
    rw [Registry.getWorker_deregisterWorker, if_pos ⟨rfl, rfl⟩]
  have hlast : (s.step (.deregister msg)).latest.get? (msg.instanceId, msg.workerId) = none := by
    show (s.latest.erase (msg.instanceId, msg.workerId)).get? _ = _
    rw [get?_erase_latest, if_pos ⟨rfl, rfl⟩]
  refine ⟨h.of_onlyWorker honly ?_ (Registry.populated_deregisterWorker h.populated _ _), ?_⟩
  · rw [hworker, hlast]
    exact trivial
  · intro haddressed
    rw [addressed_iff_of_onlyWorker haddressed honly, hworker]
    exact nofun

/-- A round of the health check is a deregistration for each worker that has timed out. -/
theorem step_healthCheck_eq (workerInfos : List WorkerInfo) (now workerTimeout : Rat) :
    s.step (.healthCheck workerInfos now workerTimeout) =
      (timedOut workerInfos now workerTimeout).foldl (fun s info =>
        s.step (.deregister ⟨info.instanceId, info.workerId, info.ip, info.port⟩)) s := by
  unfold step healthCheck
  dsimp only
  generalize timedOut workerInfos now workerTimeout = infos
  induction infos generalizing s with
  | nil => rfl
  | cons info infos ih =>
    rw [List.foldl_cons, List.foldl_cons, List.foldl_cons, ← ih]

/-- **Step lemma: the health check.** -/
theorem step_healthCheck (h : Current s) (workerInfos : List WorkerInfo)
    (now workerTimeout : Rat) :
    Current (s.step (.healthCheck workerInfos now workerTimeout)) ∧
      (Addressed s → Addressed (s.step (.healthCheck workerInfos now workerTimeout))) := by
  rw [step_healthCheck_eq]
  generalize timedOut workerInfos now workerTimeout = infos
  induction infos generalizing s with
  | nil => exact ⟨h, id⟩
  | cons info infos ih =>
    obtain ⟨hcurrent, haddressed⟩ :=
      step_deregister h ⟨info.instanceId, info.workerId, info.ip, info.port⟩
    exact ⟨(ih hcurrent).1, fun hs => (ih hcurrent).2 (haddressed hs)⟩

/-- A turn that leaves the addresses and the registrations as they are. -/
theorem step_modify (h : Current s) {f : WorkerEntry → WorkerEntry}
    (hlatest : ∀ id w, ¬ (id = instanceId ∧ w = workerId) →
      latest.get? (id, w) = s.latest.get? (id, w))
    (hself : ∀ entry last, s.registry.getWorker instanceId workerId = some entry →
      s.latest.get? (instanceId, workerId) = some last → ∃ last',
        latest.get? (instanceId, workerId) = some last' ∧
          AdmittedIn last'.operations (f entry).node ∧ last'.ip = last.ip ∧
          last'.port = last.port ∧ last'.peerInitUrl = last.peerInitUrl)
    (hnone : s.latest.get? (instanceId, workerId) = none →
      latest.get? (instanceId, workerId) = none)
    (hf : ∀ entry, (f entry).ip = entry.ip ∧ (f entry).port = entry.port ∧
      (f entry).peerInitUrl = entry.peerInitUrl ∧ (f entry).socket = entry.socket) :
    Current ⟨s.registry.modifyWorker instanceId workerId f, latest⟩ ∧
      (Addressed s → Addressed ⟨s.registry.modifyWorker instanceId workerId f, latest⟩) := by
  have honly := onlyWorker_modify f hlatest
  have hmatches := h.matched instanceId workerId
  have hworker := getWorker_modify_self s.registry instanceId workerId f
  match hentry : s.registry.getWorker instanceId workerId,
    hlast : s.latest.get? (instanceId, workerId) with
  | none, none =>
    rw [hentry, Option.map_none] at hworker
    refine ⟨h.of_onlyWorker honly ?_ (Registry.populated_modifyWorker h.populated _ _ _), ?_⟩
    · dsimp only
      rw [hworker, hnone hlast]
      exact trivial
    · intro haddressed
      rw [addressed_iff_of_onlyWorker haddressed honly]
      dsimp only
      rw [hworker]
      exact nofun
  | some entry, some last =>
    obtain ⟨last', hlast', hadmitted, hip, hport, hurl⟩ := hself entry last hentry hlast
    obtain ⟨hfip, hfport, hfurl, hfsocket⟩ := hf entry
    rw [hentry, Option.map_some] at hworker
    rw [hentry, hlast] at hmatches
    refine ⟨h.of_onlyWorker honly ?_ (Registry.populated_modifyWorker h.populated _ _ _), ?_⟩
    · dsimp only
      rw [hworker, hlast']
      refine ⟨hadmitted, ?_⟩
      rw [hfsocket, hfip, hfport]
      exact hmatches.2
    · intro haddressed
      rw [addressed_iff_of_onlyWorker haddressed honly]
      dsimp only
      rw [hworker, hlast']
      rintro _ _ ⟨⟩ ⟨⟩
      unfold SameAddress
      rw [hfip, hfport, hfurl, hfsocket, hip, hport, hurl]
      exact haddressed instanceId workerId entry last hentry hlast
  | none, some _ =>
    rw [hentry, hlast] at hmatches
    exact hmatches.elim
  | some _, none =>
    rw [hentry, hlast] at hmatches
    exact hmatches.elim

/-- **Step lemma: a heartbeat.** -/
theorem step_heartbeat (h : Current s) (msg : HeartbeatMsg) (now : Rat)
    (shouldRequestFullSync : Option String) :
    Current (s.step (.heartbeat msg now shouldRequestFullSync)) ∧
      (Addressed s → Addressed (s.step (.heartbeat msg now shouldRequestFullSync))) := by
  have hlatest := h.mem_latest_iff msg.instanceId msg.workerId
  match hentry : s.registry.getWorker msg.instanceId msg.workerId with
  | some entry =>
    rw [hentry] at hlatest
    have hstep : s.step (.heartbeat msg now shouldRequestFullSync) =
        ⟨s.registry.modifyWorker msg.instanceId msg.workerId fun entry =>
          { entry with lastHeartbeatTime := now }, s.latest⟩ := by
      unfold step RegistrationController.heartbeat Registry.updateHeartbeat
      dsimp only
      rw [hentry, if_pos (hlatest.mpr rfl)]
      rfl
    rw [hstep]
    apply step_modify h (fun _ _ _ => rfl)
    · intro entry' last hentry' hlast
      have hmatches := h.matched msg.instanceId msg.workerId
      rw [hentry', hlast] at hmatches
      exact ⟨last, hlast, hmatches.1, rfl, rfl, rfl⟩
    · exact id
    · intro entry'
      exact ⟨rfl, rfl, rfl, rfl⟩
  | none =>
    rw [hentry] at hlatest
    have hnothing : s.registry.modifyWorker msg.instanceId msg.workerId (fun entry =>
        { entry with lastHeartbeatTime := now }) = s.registry := by
      unfold Registry.modifyWorker
      split
      · rfl
      · rename_i workers hworkers
        unfold Registry.getWorker at hentry
        rw [hworkers, Option.bind_some] at hentry
        rw [hentry]
    have hstep : s.step (.heartbeat msg now shouldRequestFullSync) = s.step (.register
        ⟨msg.instanceId, msg.workerId, msg.ip, msg.port, msg.peerInitUrl⟩ now) := by
      unfold step RegistrationController.heartbeat Registry.updateHeartbeat
      dsimp only
      rw [hentry, hnothing, if_neg (fun hmem => Bool.noConfusion (hlatest.mp hmem))]
      rfl
    rw [hstep]
    obtain ⟨hcurrent, haddressed⟩ := step_register h
      ⟨msg.instanceId, msg.workerId, msg.ip, msg.port, msg.peerInitUrl⟩ now
    refine ⟨hcurrent, fun hs => (haddressed hs).mpr ?_⟩
    intro entry hmem
    rw [hentry] at hmem
    cases hmem

/-- **Step lemma: operations.** -/
theorem step_kvOperations (h : Current s) (msg : BatchedKVOperationMsg) (isFullSync : Bool) :
    Current (s.step (.kvOperations msg isFullSync)) ∧
      (Addressed s → Addressed (s.step (.kvOperations msg isFullSync))) := by
  unfold step
  dsimp only
  unfold Registry.handleBatchedKvOperations
  apply step_modify h
  · intro id w hid
    split
    · split
      · rw [get?_set_latest, if_neg hid]
      · rfl
    · rfl
  · intro entry last hentry hlast
    have hmatches := h.matched msg.instanceId msg.workerId
    rw [hentry, hlast] at hmatches
    have hadmitted := hmatches.1.handle msg isFullSync
    rw [hentry, hlast]
    dsimp only
    by_cases hdone : (entry.node.handleBatchedKvOperations msg isFullSync).2.1 = true
    · rw [if_pos hdone] at hadmitted ⊢
      rw [get?_set_latest, if_pos ⟨rfl, rfl⟩]
      exact ⟨_, rfl, hadmitted, rfl, rfl, rfl⟩
    · rw [if_neg hdone] at hadmitted ⊢
      exact ⟨last, hlast, hadmitted, rfl, rfl, rfl⟩
  · intro hlast
    rw [hlast]
    split
    · rename_i hsome
      cases hsome
    · exact hlast
  · intro entry
    exact ⟨rfl, rfl, rfl, rfl⟩

/-- **Step lemma.**  A message keeps the registry current, and the addresses the last ones just when
no worker registers again under another. -/
theorem step_current (s : RegistryRun) (e : RegistryEvent) (h : Current s) :
    Current (s.step e) ∧ (Addressed s → (Addressed (s.step e) ↔ s.KeepsAddress e)) := by
  match e with
  | .register msg now => exact step_register h msg now
  | .deregister msg =>
    obtain ⟨hcurrent, haddressed⟩ := step_deregister h msg
    exact ⟨hcurrent, fun hs => iff_of_true (haddressed hs) trivial⟩
  | .heartbeat msg now shouldRequestFullSync =>
    obtain ⟨hcurrent, haddressed⟩ := step_heartbeat h msg now shouldRequestFullSync
    exact ⟨hcurrent, fun hs => iff_of_true (haddressed hs) trivial⟩
  | .healthCheck workerInfos now workerTimeout =>
    obtain ⟨hcurrent, haddressed⟩ := step_healthCheck h workerInfos now workerTimeout
    exact ⟨hcurrent, fun hs => iff_of_true (haddressed hs) trivial⟩
  | .kvOperations msg isFullSync =>
    obtain ⟨hcurrent, haddressed⟩ := step_kvOperations h msg isFullSync
    exact ⟨hcurrent, fun hs => iff_of_true (haddressed hs) trivial⟩

/-! ### Every run -/

/-- In a current registry it is only the addresses that may be wrong. -/
theorem Current.reflects_iff (h : Current s) : Reflects s ↔ Addressed s := by
  constructor
  · exact Reflects.addressed
  · intro haddressed
    have hentry (id : String) (w : Nat) (last : Registration)
        (hlast : s.latest.get? (id, w) = some last) : ∃ entry,
          s.registry.getWorker id w = some entry ∧ SameAddress entry last := by
      obtain ⟨entry, hentry⟩ := Option.isSome_iff_exists.mp
        ((h.isSome_eq id w).trans (by rw [hlast]; rfl))
      exact ⟨entry, hentry, haddressed id w entry last hentry hlast⟩
    refine ⟨h.isSome_eq, haddressed, ?_, ?_, ?_, h.populated⟩
    · intro id w last hlast
      obtain ⟨entry, hentry, -, -, -, hsocket⟩ := hentry id w last hlast
      unfold getSocket
      rw [hentry, Option.map_some, hsocket]
    · intro id w last hlast
      obtain ⟨entry, hentry, -, -, hurl, -⟩ := hentry id w last hlast
      unfold getPeerInitUrl
      rw [hentry, Option.bind_some, hurl]
    · intro id w entry last hentry hlast
      have hmatches := h.matched id w
      rw [hentry, hlast] at hmatches
      exact hmatches.1

theorem current_init : Current init := ⟨fun _ _ => trivial, nofun⟩

theorem addressed_init : Addressed init := nofun

/-- **The registry reflects the latest registrations in every state of a run just when** no message
of it registers a worker again, that has not deregistered, under another address. -/
theorem always_reflects_iff (es : List RegistryEvent) :
    Always step Reflects init es ↔ Guarded step KeepsAddress init es := by
  have hcurrent := always_of_step (fun s e h => (step_current s e h).1) current_init es
  rw [← always_iff_guarded_of_inv (fun s e h => (step_current s e h).1)
    (fun s e h hs => (step_current s e h).2 hs) current_init addressed_init]
  constructor
  · exact Always.mono fun (s : RegistryRun) (h : Reflects s) => h.addressed
  · intro haddressed
    exact Always.mono (fun (s : RegistryRun) (h : Current s ∧ Addressed s) =>
      h.1.reflects_iff.mpr h.2) (hcurrent.and haddressed)

/-! ### A worker that restarts -/

/-- A worker restarts at another address without deregistering. -/
def restarted : List RegistryEvent :=
  [.register ⟨"i", 0, "10.0.0.1", 8000, some "10.0.0.1:9000"⟩ 0,
    .register ⟨"i", 0, "10.0.0.2", 8000, some "10.0.0.2:9000"⟩ 5]

/-- It can fail: the registry keeps the address that is gone. -/
theorem not_always_reflects : ¬ Always step Reflects init restarted := by
  intro h
  have hsocket := h.last.socket "i" 0 ⟨"10.0.0.2", 8000, some "10.0.0.2:9000", []⟩
    (by decide +kernel)
  revert hsocket
  decide +kernel

end RegistryRun

end LMCache.Controller
