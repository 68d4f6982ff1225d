/-
# LMCache.Controller.FullSyncConvergence — a full sync among incremental operations.

A worker with a CPU and a disk backend, the one channel of its messages, the sender of a full sync,
and the controller's node.  The sync reads the keys of `hot_cache` once, has the controller empty the
location of the CPU backend, and sends the keys in batches and an end message.  Meanwhile both
backends go on: freeze mode stops a store only where it asks, before it touches the caches.

While the node is `SYNCING` the controller discards the incremental operations of the whole worker.
An operation of the CPU backend queued before the keys were read says nothing the snapshot does not
say; one queued later is lost, and so is every operation of the disk backend.  In a run where none of
these is discarded, the controller ends up with exactly the keys of both backends.
-/
import LMCache.Lib.Run
import LMCache.Controller.MessageChannel
import LMCache.Storage.LocalCPUBackend
import LMCache.Storage.LocalDiskBackend

namespace LMCache.Controller

open LMCache.Lib LMCache.Storage

/-! ## The system -/

/-- Where the sender of the full sync is. -/
inductive SyncPhase where
  | idle
  /-- Freeze mode is on, the keys are not read yet. -/
  | frozen
  /-- The keys are read; no start has been accepted. -/
  | read (session : FullSyncSession)
  /-- The controller has accepted the start; its answer is on the way. -/
  | started (session : FullSyncSession)
  /-- The batches below `nextBatch` are sent. -/
  | sending (session : FullSyncSession) (nextBatch : Nat)
  /-- The end message is sent; the status is polled. -/
  | polling (session : FullSyncSession) (resendCount : Nat)
  /-- The sender is through, and freeze mode is off again. -/
  | done (session : FullSyncSession)

def SyncPhase.session : SyncPhase → Option FullSyncSession
  | .idle | .frozen => none
  | .read ss | .started ss | .sending ss _ | .polling ss _ | .done ss => some ss

structure SyncConfig where
  instanceId : String
  workerId : Nat
  batchSize : Nat
  batchSize_pos : 0 < batchSize
  maxResendAttempts : Nat

structure SyncSystem where
  config : SyncConfig
  cpu : LocalCPUBackend
  disk : LocalDiskBackend
  channel : List WorkerMsg
  node : WorkerNode
  /-- `is_frozen()` of the engine. -/
  freeze : Bool
  /-- The threads inside `store` that have found freeze mode off. -/
  storing : List Nat
  phase : SyncPhase
  /-- How many operations the CPU backend had queued when its keys were read: the sequence number of
  the first later one. -/
  mark : Nat

namespace SyncSystem

/-- `str(local_cpu_backend)`. -/
def cpuLocation : String := "LocalCPUBackend"

/-- `str(local_disk_backend)`. -/
def diskLocation : String := "LocalDiskBackend"

inductive Action where
  /-- A thread enters `store` and asks whether freeze mode is on. -/
  | store (t : Nat)
  | storeDone (t : Nat)
  | cpu (a : CpuAction)
  | disk (a : DiskAction)
  | drainCpu
  | drainDisk
  /-- The controller handles the next message of the channel. -/
  | deliver
  | enterFreeze
  /-- `_get_all_hot_cache_keys`, and a new session id. -/
  | readKeys (syncId : String)
  /-- The controller handles a `FullSyncStartMsg`; the sender may repeat it. -/
  | sendStart
  | startAnswered
  | sendBatch
  | sendEnd
  /-- The sender asks for the status, and resends or leaves freeze mode. -/
  | poll (canExitFreeze : Bool)
  | pollTimeout
  deriving DecidableEq, Repr

/-- The puts of a store need a thread that found freeze mode off. -/
def gateCpu (s : SyncSystem) : CpuAction → Bool
  | .begin t (.submitPutTask _ _) => t ∈ s.storing
  | _ => true

def gateDisk (s : SyncSystem) : DiskAction → Bool
  | .begin t (.submitPutTask _ _) => t ∈ s.storing
  | _ => true

/-- The controller's handling of a message. -/
def handle (w : WorkerNode) : WorkerMsg → WorkerNode
  | .fullSyncStart msg => (KVController.handleFullSyncStart w msg).1
  | .fullSyncBatch msg => KVController.handleFullSyncBatch w msg
  | .fullSyncEnd msg => KVController.handleFullSyncEnd w msg
  | .batchedKVOperation msg => KVController.handleBatchedKvOperations w msg

/-- The session that `_initialize_sync` opens on the keys it finds. -/
def newSession (s : SyncSystem) (syncId : String) : FullSyncSession where
  instanceId := s.config.instanceId
  workerId := s.config.workerId
  location := cpuLocation
  syncId := syncId
  keys := s.cpu.hotCache.keys.map CacheEngineKey.chunkHash
  batchSize := s.config.batchSize
  batchSize_pos := s.config.batchSize_pos

def step (s : SyncSystem) : Action → SyncSystem
  | .store t => if s.freeze then s else { s with storing := t :: s.storing }
  | .storeDone t => { s with storing := s.storing.erase t }
  | .cpu a => if s.gateCpu a then { s with cpu := s.cpu.step a } else s
  | .disk a => if s.gateDisk a then { s with disk := s.disk.step a } else s
  | .drainCpu =>
    { s with
      cpu := { s.cpu with batchedMsgSender := s.cpu.batchedMsgSender.drain.1 }
      channel := drainInto s.cpu.batchedMsgSender s.channel }
  | .drainDisk =>
    { s with
      disk := { s.disk with batchedMsgSender := s.disk.batchedMsgSender.drain.1 }
      channel := drainInto s.disk.batchedMsgSender s.channel }
  | .deliver =>
    match s.channel with
    | [] => s
    | m :: channel => { s with channel := channel, node := handle s.node m }
  | .enterFreeze =>
    match s.phase with
    | .idle => { s with phase := .frozen, freeze := true }
    | _ => s
  | .readKeys syncId =>
    match s.phase, s.cpu.cpuLock with
    | .frozen, none =>
      { s with
        phase := .read (s.newSession syncId)
        mark := everQueued s.cpu.batchedMsgSender }
    | _, _ => s
  | .sendStart =>
    match s.phase with
    | .read ss | .started ss =>
      let (node, accepted) := KVController.handleFullSyncStart s.node ss.startMsg
      { s with node := node, phase := if accepted then .started ss else s.phase }
    | _ => s
  | .startAnswered =>
    match s.phase with
    | .started ss => { s with phase := .sending ss 0 }
    | _ => s
  | .sendBatch =>
    match s.phase with
    | .sending ss i =>
      if i < ss.batchCount then
        { s with
          phase := .sending ss (i + 1)
          channel := s.channel ++ [.fullSyncBatch (ss.batchMsg i)] }
      else s
    | _ => s
  | .sendEnd =>
    match s.phase with
    | .sending ss i =>
      if i < ss.batchCount then s
      else { s with phase := .polling ss 0, channel := s.channel ++ [.fullSyncEnd ss.endMsg] }
    | _ => s
  | .poll canExitFreeze =>
    match s.phase with
    | .polling ss resendCount =>
      let (msgs, resendCount, leave) := ss.poll canExitFreeze
        (FullSyncTracker.getMissingBatches s.node ss.syncId) resendCount s.config.maxResendAttempts
      { s with
        channel := s.channel ++ msgs
        phase := if leave then .done ss else .polling ss resendCount
        freeze := !leave && s.freeze }
    | _ => s
  | .pollTimeout =>
    match s.phase with
    | .polling ss _ => { s with phase := .done ss, freeze := false }
    | _ => s

/-! ## The condition on a run -/

/-- The session whose keys are to replace the location's, from the reading of the keys until its end
message is handled. -/
def rebuilding (s : SyncSystem) : Option FullSyncSession :=
  match s.phase with
  | .idle | .frozen => none
  | .read ss | .started ss | .sending ss _ => some ss
  | .polling ss _ | .done ss => if s.node.isWorkerSyncing then some ss else none

/-- An operation the snapshot of a session has taken care of: it was queued before the keys were
read, or it evicts a hash that was not among them. -/
def Covered (s : SyncSystem) (ss : FullSyncSession) (op : KVOpEvent) : Prop :=
  op.seqNum < s.mark ∨ op.opType = .EVICT ∧ op.key ∉ ss.keys

/-- The condition on handling a message: while a session rebuilds the location of the CPU backend,
all operations of the CPU backend that are handled are covered by its snapshot, and while the node is
`SYNCING` no operation of the disk backend is handled. -/
def MsgAllowed (s : SyncSystem) : WorkerMsg → Prop
  | .batchedKVOperation msg =>
    (msg.location = cpuLocation → ∀ ss ∈ s.rebuilding, ∀ op ∈ msg.operations, s.Covered ss op) ∧
      (msg.location = diskLocation → s.node.isWorkerSyncing = true → msg.operations = [])
  | _ => True

def Allowed (s : SyncSystem) : Action → Prop
  | .cpu a => s.cpu.Allowed a
  | .disk a => s.disk.Allowed a
  | .deliver => ∀ m ∈ s.channel.head?, s.MsgAllowed m
  | _ => True

instance (s : SyncSystem) (ss : FullSyncSession) (op : KVOpEvent) : Decidable (s.Covered ss op) :=
  inferInstanceAs (Decidable (_ ∨ _))

instance (s : SyncSystem) : (m : WorkerMsg) → Decidable (s.MsgAllowed m)
  | .batchedKVOperation _ => inferInstanceAs (Decidable (_ ∧ _))
  | .fullSyncStart _ | .fullSyncBatch _ | .fullSyncEnd _ => .isTrue trivial

instance (s : SyncSystem) : (a : Action) → Decidable (s.Allowed a)
  | .cpu a => inferInstanceAs (Decidable (s.cpu.Allowed a))
  | .disk a => inferInstanceAs (Decidable (s.disk.Allowed a))
  | .deliver => inferInstanceAs (Decidable (∀ m ∈ s.channel.head?, s.MsgAllowed m))
  | .store _ | .storeDone _ | .drainCpu | .drainDisk | .enterFreeze | .readKeys _ | .sendStart
  | .startAnswered | .sendBatch | .sendEnd | .poll _ | .pollTimeout => .isTrue trivial

/-! ## What a run promises -/

/-- The sync has sent its end message and the controller has marked it complete. -/
def syncCompleted (s : SyncSystem) : Bool :=
  match s.phase with
  | .polling ss _ | .done ss => FullSyncTracker.isComplete s.node ss.syncId
  | _ => false

/-- Nothing is under way: no thread owes a message, and every operation queued has been sent and
handled. -/
structure Settled (s : SyncSystem) : Prop where
  cpuAdmit : ∀ pc ∈ s.cpu.threads, pc.owesAdmit = none
  cpuEvict : ∀ pc ∈ s.cpu.threads, pc.owesEvict = none
  diskAdmit : ∀ pc ∈ s.disk.threads, pc.owesAdmit = none
  diskEvict : ∀ pc ∈ s.disk.threads, pc.owesEvict = none
  cpuQueue : s.cpu.batchedMsgSender.messageQueue = []
  cpuTaken : s.cpu.batchedMsgSender.opsToSend = []
  diskQueue : s.disk.batchedMsgSender.messageQueue = []
  diskTaken : s.disk.batchedMsgSender.opsToSend = []
  channel : s.channel = []

/-- The node's key set for each location is what its backend holds. -/
def Converged (s : SyncSystem) : Prop :=
  s.node.getKvKeys cpuLocation = (s.cpu.hotCache.keys.map CacheEngineKey.chunkHash).toFinset ∧
    s.node.getKvKeys diskLocation = (s.disk.dict.keys.map CacheEngineKey.chunkHash).toFinset

instance (s : SyncSystem) : Decidable s.Settled :=
  decidable_of_iff ((∀ pc ∈ s.cpu.threads, pc.owesAdmit = none) ∧
    (∀ pc ∈ s.cpu.threads, pc.owesEvict = none) ∧ (∀ pc ∈ s.disk.threads, pc.owesAdmit = none) ∧
    (∀ pc ∈ s.disk.threads, pc.owesEvict = none) ∧ s.cpu.batchedMsgSender.messageQueue = [] ∧
    s.cpu.batchedMsgSender.opsToSend = [] ∧ s.disk.batchedMsgSender.messageQueue = [] ∧
    s.disk.batchedMsgSender.opsToSend = [] ∧ s.channel = [])
    ⟨fun ⟨h1, h2, h3, h4, h5, h6, h7, h8, h9⟩ => ⟨h1, h2, h3, h4, h5, h6, h7, h8, h9⟩,
      fun ⟨h1, h2, h3, h4, h5, h6, h7, h8, h9⟩ => ⟨h1, h2, h3, h4, h5, h6, h7, h8, h9⟩⟩

instance (s : SyncSystem) : Decidable s.Converged := inferInstanceAs (Decidable (_ ∧ _))

/-- Where a run starts: idle threads, nothing under way, no session, and a node that agrees with the
disk backend, which a full sync does not resend.  About the CPU backend the node may be wrong. -/
structure Ready (s : SyncSystem) : Prop where
  cpuIdle : ∀ pc ∈ s.cpu.threads, pc = .idle
  settled : s.Settled
  phase : s.phase = .idle
  notSyncing : s.node.isWorkerSyncing = false
  cpuAddress : s.cpu.batchedMsgSender.location = cpuLocation
  diskAddress : s.disk.batchedMsgSender.location = diskLocation
  diskAgrees : s.node.getKvKeys diskLocation =
    (s.disk.dict.keys.map CacheEngineKey.chunkHash).toFinset

/-! ## The invariant -/

/-- The changes of the CPU backend that are under way. -/
def cpuNotes (s : SyncSystem) : List (Note Int) := underWay s.cpu.batchedMsgSender s.channel

/-- The changes of the disk backend that are under way. -/
def diskNotes (s : SyncSystem) : List (Note Int) := underWay s.disk.batchedMsgSender s.channel

/-- An incremental message of one of the two backends. -/
def IsIncremental (m : WorkerMsg) : Prop :=
  ∃ msg, m = .batchedKVOperation msg ∧ (msg.location = cpuLocation ∨ msg.location = diskLocation)

/-- A batch of the session. -/
def IsBatch (ss : FullSyncSession) (m : WorkerMsg) : Prop := ∃ i, m = .fullSyncBatch (ss.batchMsg i)

/-- The keys that batches in the channel carry before the first end message. -/
def restKeys : List WorkerMsg → List Int
  | [] => []
  | .fullSyncBatch msg :: channel => msg.keys ++ restKeys channel
  | .fullSyncEnd _ :: _ => []
  | _ :: channel => restKeys channel

/-- The hashes of a session's keys. -/
def snapshot (ss : FullSyncSession) : Set Int := {k | k ∈ ss.keys}

/-- Before the reading of the keys the node may be wrong about the CPU backend, but a node that was
right once would be right in the end. -/
def Untracked (s : SyncSystem) : Prop :=
  ∃ V, s.cpu.MirroredBy (Note.applyAll V s.cpuNotes)

/-- The snapshot of the session and what is under way mirror the CPU cache, whether or not the
operations queued before the reading are lost. -/
structure Rebuilds (s : SyncSystem) (ss : FullSyncSession) : Prop where
  mirrored : ∃ base, Numbered base (numberedOps s.cpu.batchedMsgSender s.channel)
      s.cpu.batchedMsgSender.sequenceNumber ∧
    MirroredFrom CacheEngineKey.chunkHash s.cpu.hotKeys (snapshot ss) s.cpu.owedAdmits
      s.cpu.owedEvicts s.cpuNotes (s.mark - base)
  mark_le : s.mark ≤ everQueued s.cpu.batchedMsgSender

/-- After the sync the node is right about the CPU backend, up to what is under way. -/
def Tracked (s : SyncSystem) : Prop :=
  s.cpu.MirroredBy (Note.applyAll (s.node.getKvKeys cpuLocation : Set Int) s.cpuNotes)

/-- The node holds keys of the session only, and the keys it lacks are in the channel or in batches
from `nextBatch` on. -/
structure Transfers (s : SyncSystem) (ss : FullSyncSession) (nextBatch : Nat) : Prop where
  syncing : ∃ info, s.node.syncInfo = some info ∧ info.syncId = ss.syncId ∧ info.state = .SYNCING
  known : ∀ k ∈ s.node.getKvKeys cpuLocation, k ∈ ss.keys
  covered : ∀ k ∈ ss.keys, k ∈ s.node.getKvKeys cpuLocation ∨ k ∈ restKeys s.channel ∨
    ∃ i, nextBatch ≤ i ∧ i < ss.batchCount ∧ k ∈ ss.batchKeys i

def Completed (s : SyncSystem) (ss : FullSyncSession) : Prop :=
  ∃ info, s.node.syncInfo = some info ∧ info.syncId = ss.syncId ∧ info.state = .COMPLETED

/-- What holds in each phase of the sync about the node, the channel and the CPU backend. -/
def PhaseInv (s : SyncSystem) : Prop :=
  match s.phase with
  | .idle | .frozen =>
    s.node.isWorkerSyncing = false ∧ (∀ m ∈ s.channel, IsIncremental m) ∧ s.Untracked
  | .read ss =>
    s.node.isWorkerSyncing = false ∧ (∀ m ∈ s.channel, IsIncremental m) ∧ s.Rebuilds ss
  | .started ss =>
    s.Transfers ss 0 ∧ (∀ m ∈ s.channel, IsIncremental m) ∧ s.Rebuilds ss
  | .sending ss i =>
    s.Transfers ss i ∧ (∀ m ∈ s.channel, IsIncremental m ∨ IsBatch ss m) ∧ s.Rebuilds ss
  | .polling ss _ | .done ss =>
    (∀ m ∈ s.channel, IsIncremental m ∨ IsBatch ss m ∨ m = .fullSyncEnd ss.endMsg) ∧
      ((s.Transfers ss ss.batchCount ∧ .fullSyncEnd ss.endMsg ∈ s.channel ∧ s.Rebuilds ss) ∨
        (s.Completed ss ∧ s.Tracked))

structure Inv (s : SyncSystem) : Prop where
  exclusive : s.cpu.Exclusive
  cpuAddress : s.cpu.batchedMsgSender.location = cpuLocation
  diskAddress : s.disk.batchedMsgSender.location = diskLocation
  numbered : ∃ base, Numbered base (numberedOps s.cpu.batchedMsgSender s.channel)
    s.cpu.batchedMsgSender.sequenceNumber
  location : ∀ ss ∈ s.phase.session, ss.location = cpuLocation
  disk : s.disk.MirroredBy (Note.applyAll (s.node.getKvKeys diskLocation : Set Int) s.diskNotes)
  phase : s.PhaseInv

theorem cpuLocation_ne_diskLocation : cpuLocation ≠ diskLocation := by decide

theorem restKeys_append (c : List WorkerMsg) {d : List WorkerMsg}
    (h : ∀ m ∈ d, IsIncremental m) : restKeys (c ++ d) = restKeys c := by
  induction c with
  | nil =>
    induction d with
    | nil => rfl
    | cons m d ih =>
      obtain ⟨msg, rfl, -⟩ := h m List.mem_cons_self
      exact ih fun m' hm' => h m' (List.mem_cons_of_mem _ hm')
  | cons m c ih =>
    cases m with
    | fullSyncBatch msg => exact congrArg (msg.keys ++ ·) ih
    | fullSyncEnd msg => rfl
    | fullSyncStart msg => exact ih
    | batchedKVOperation msg => exact ih

/-- Behind messages without an end message, later batches count. -/
theorem restKeys_append_of_noEnd {c : List WorkerMsg} (d : List WorkerMsg) {ss : FullSyncSession}
    (h : ∀ m ∈ c, IsIncremental m ∨ IsBatch ss m) : restKeys (c ++ d) = restKeys c ++ restKeys d := by
  induction c with
  | nil => rfl
  | cons m c ih =>
    have ih' := ih fun m' hm' => h m' (List.mem_cons_of_mem _ hm')
    rcases h m List.mem_cons_self with ⟨msg, rfl, -⟩ | ⟨i, rfl⟩
    · exact ih'
    · simp only [List.cons_append, restKeys, ih', List.append_assoc]

/-- Behind an end message nothing counts. -/
theorem restKeys_append_of_end {c : List WorkerMsg} (d : List WorkerMsg) {msg : FullSyncEndMsg}
    (h : .fullSyncEnd msg ∈ c) : restKeys (c ++ d) = restKeys c := by
  induction c with
  | nil => cases h
  | cons m c ih =>
    cases m with
    | fullSyncEnd msg' => rfl
    | fullSyncBatch msg' =>
      exact congrArg (msg'.keys ++ ·) (ih ((List.mem_cons.mp h).resolve_left (by simp)))
    | fullSyncStart msg' => exact ih ((List.mem_cons.mp h).resolve_left (by simp))
    | batchedKVOperation msg' => exact ih ((List.mem_cons.mp h).resolve_left (by simp))

variable {s : SyncSystem}

/-- The phase facts carry over to a state whose channel has at most one more incremental message and
whose CPU facts carry over. -/
theorem PhaseInv.carry (h : s.PhaseInv) (s' : SyncSystem) (hphase : s'.phase = s.phase)
    (hnode : s'.node = s.node) {d : List WorkerMsg} (hchannel : s'.channel = s.channel ++ d)
    (hd : ∀ m ∈ d, IsIncremental m) (huntracked : s.Untracked → s'.Untracked)
    (hrebuilds : ∀ ss, s.Rebuilds ss → s'.Rebuilds ss) (htracked : s.Tracked → s'.Tracked) :
    s'.PhaseInv := by
  have hall : ∀ {P : WorkerMsg → Prop}, (∀ m, IsIncremental m → P m) → (∀ m ∈ s.channel, P m) →
      ∀ m ∈ s'.channel, P m := by
    intro P hP hs m hm
    rw [hchannel, List.mem_append] at hm
    rcases hm with hm | hm
    · exact hs m hm
    · exact hP m (hd m hm)
  have htransfers : ∀ ss i, s.Transfers ss i → s'.Transfers ss i := by
    intro ss i ht
    refine ⟨hnode ▸ ht.syncing, hnode ▸ ht.known, ?_⟩
    rw [hnode, hchannel, restKeys_append _ hd]
    exact ht.covered
  unfold PhaseInv at h ⊢
  rw [hphase]
  cases hp : s.phase with
  | idle | frozen =>
    rw [hp] at h
    exact ⟨hnode ▸ h.1, hall (fun _ => id) h.2.1, huntracked h.2.2⟩
  | read ss =>
    rw [hp] at h
    exact ⟨hnode ▸ h.1, hall (fun _ => id) h.2.1, hrebuilds ss h.2.2⟩
  | started ss =>
    rw [hp] at h
    exact ⟨htransfers ss 0 h.1, hall (fun _ => id) h.2.1, hrebuilds ss h.2.2⟩
  | sending ss i =>
    rw [hp] at h
    exact ⟨htransfers ss i h.1, hall (fun _ => Or.inl) h.2.1, hrebuilds ss h.2.2⟩
  | polling ss n | done ss =>
    rw [hp] at h
    refine ⟨hall (fun _ => Or.inl) h.1, ?_⟩
    rcases h.2 with ⟨h1, h2, h3⟩ | ⟨h1, h2⟩
    · exact .inl ⟨htransfers ss _ h1, by rw [hchannel]; exact List.mem_append_left _ h2,
        hrebuilds ss h3⟩
    · exact .inr ⟨by rw [Completed, hnode]; exact h1, htracked h2⟩

/-! ## The backends and their senders -/

theorem inv_cpu (h : s.Inv) {a : CpuAction} (hok : s.cpu.Allowed a) :
    { s with cpu := s.cpu.step a }.Inv := by
  obtain ⟨ops, hops, hmir⟩ := LocalCPUBackend.mirroredBy_step h.exclusive a hok
  have hnotes : underWay (s.cpu.step a).batchedMsgSender s.channel =
      s.cpuNotes ++ ops.map KVOpEvent.note := by
    rw [hops, underWay_extend]
    rfl
  have hstep : ∀ V, s.cpu.MirroredBy (Note.applyAll V s.cpuNotes) →
      (s.cpu.step a).MirroredBy
        (Note.applyAll V (underWay (s.cpu.step a).batchedMsgSender s.channel)) := by
    intro V hV
    rw [hnotes, Note.applyAll_append]
    exact hmir _ hV
  have hnum : ∀ base, Numbered base (numberedOps s.cpu.batchedMsgSender s.channel)
      s.cpu.batchedMsgSender.sequenceNumber →
      Numbered base (numberedOps (s.cpu.step a).batchedMsgSender s.channel)
        (s.cpu.step a).batchedMsgSender.sequenceNumber := by
    intro base hb
    rw [hops]
    exact hb
  refine ⟨LocalCPUBackend.exclusive_step h.exclusive a, ?_, h.diskAddress, ?_, h.location,
    h.disk, ?_⟩
  · show (s.cpu.step a).batchedMsgSender.location = cpuLocation
    rw [hops]
    exact h.cpuAddress
  · obtain ⟨base, hb⟩ := h.numbered
    exact ⟨base, hnum base hb⟩
  · refine h.phase.carry { s with cpu := s.cpu.step a } rfl rfl (List.append_nil _).symm
      (fun m hm => absurd hm List.not_mem_nil) ?_ ?_ (hstep _)
    · rintro ⟨V, hV⟩
      exact ⟨V, hstep V hV⟩
    · rintro ss ⟨⟨base, hb, hm⟩, hmark⟩
      have hlen := length_underWay s.cpu.batchedMsgSender s.channel hb
      refine ⟨⟨base, hnum base hb, ?_⟩, ?_⟩
      · show MirroredFrom _ _ _ _ _ (underWay (s.cpu.step a).batchedMsgSender s.channel) _
        rw [hnotes]
        exact hm.extend (by show s.mark - base ≤ _; simp only [cpuNotes]; omega) hmir
      · refine hmark.trans ?_
        show everQueued s.cpu.batchedMsgSender ≤ everQueued (s.cpu.step a).batchedMsgSender
        rw [hops]
        simp only [everQueued, BatchedMessageSender.extend, List.length_append]
        omega

theorem inv_disk (h : s.Inv) {a : DiskAction} (hok : s.disk.Allowed a) :
    { s with disk := s.disk.step a }.Inv := by
  obtain ⟨ops, hops, hmir⟩ := LocalDiskBackend.mirroredBy_step a hok
  refine ⟨h.exclusive, h.cpuAddress, ?_, h.numbered, h.location, ?_, ?_⟩
  · show (s.disk.step a).batchedMsgSender.location = diskLocation
    rw [hops]
    exact h.diskAddress
  · show (s.disk.step a).MirroredBy (Note.applyAll _
      (underWay (s.disk.step a).batchedMsgSender s.channel))
    rw [hops, underWay_extend, Note.applyAll_append]
    exact hmir _ h.disk
  · exact h.phase.carry { s with disk := s.disk.step a } rfl rfl (List.append_nil _).symm
      (fun m hm => absurd hm List.not_mem_nil) id
      (fun ss hss => ⟨hss.mirrored, hss.mark_le⟩) id

/-- What a turn of a consumer thread puts into the channel. -/
theorem drainInto_eq_append {sender : BatchedMessageSender} (channel : List WorkerMsg)
    (h : sender.location = cpuLocation ∨ sender.location = diskLocation) :
    ∃ d, drainInto sender channel = channel ++ d ∧ ∀ m ∈ d, IsIncremental m := by
  rcases drainInto_cases sender channel with hd | ⟨msg, hd, hloc⟩
  · exact ⟨[], by rw [hd, List.append_nil], fun m hm => absurd hm List.not_mem_nil⟩
  · refine ⟨_, hd, fun m hm => ?_⟩
    rw [List.mem_singleton] at hm
    exact ⟨msg, hm, hloc ▸ h⟩

theorem inv_drainCpu (h : s.Inv) : (s.step .drainCpu).Inv := by
  obtain ⟨d, hd, hinc⟩ := drainInto_eq_append s.channel (.inl h.cpuAddress)
  have hnotes : (s.step .drainCpu).cpuNotes = s.cpuNotes := underWay_drain _ _
  have hnum : ∀ base, Numbered base (numberedOps s.cpu.batchedMsgSender s.channel)
      s.cpu.batchedMsgSender.sequenceNumber → _ := fun base hb => numbered_drain _ _ hb
  refine ⟨⟨h.exclusive.holder, h.exclusive.stored⟩, (location_drain _).trans h.cpuAddress,
    h.diskAddress, ?_, h.location, ?_, ?_⟩
  · obtain ⟨base, hb⟩ := h.numbered
    exact ⟨base, hnum base hb⟩
  · have hother : s.disk.batchedMsgSender.location ≠ s.cpu.batchedMsgSender.location := by
      rw [h.cpuAddress, h.diskAddress]
      exact cpuLocation_ne_diskLocation.symm
    have hdisk : (s.step .drainCpu).diskNotes = s.diskNotes := by
      simp only [diskNotes, underWay, step, opsAt_drainInto _ _ hother]
    rw [hdisk]
    exact h.disk
  · refine h.phase.carry (s.step .drainCpu) rfl rfl hd hinc ?_ ?_ ?_
    · rintro ⟨V, hV⟩
      refine ⟨V, ?_⟩
      rw [hnotes]
      exact hV
    · rintro ss ⟨⟨base, hb, hm⟩, hmark⟩
      refine ⟨⟨base, hnum base hb, ?_⟩, ?_⟩
      · rw [hnotes]
        exact hm
      · exact hmark.trans (everQueued_drain _).ge
    · intro hV
      rw [Tracked, hnotes]
      exact hV

theorem inv_drainDisk (h : s.Inv) : (s.step .drainDisk).Inv := by
  obtain ⟨d, hd, hinc⟩ := drainInto_eq_append s.channel (.inr h.diskAddress)
  have hother : s.cpu.batchedMsgSender.location ≠ s.disk.batchedMsgSender.location := by
    rw [h.cpuAddress, h.diskAddress]
    exact cpuLocation_ne_diskLocation
  have hops := opsAt_drainInto s.disk.batchedMsgSender s.channel hother
  have hnotes : (s.step .drainDisk).cpuNotes = s.cpuNotes := by
    simp only [cpuNotes, underWay, step, hops]
  have hnum : numberedOps s.cpu.batchedMsgSender (drainInto s.disk.batchedMsgSender s.channel) =
      numberedOps s.cpu.batchedMsgSender s.channel := by
    simp only [numberedOps, hops]
  refine ⟨h.exclusive, h.cpuAddress, (location_drain _).trans h.diskAddress, ?_, h.location, ?_, ?_⟩
  · obtain ⟨base, hb⟩ := h.numbered
    exact ⟨base, hnum ▸ hb⟩
  · have hdisk : (s.step .drainDisk).diskNotes = s.diskNotes := underWay_drain _ _
    rw [hdisk]
    exact h.disk
  · refine h.phase.carry (s.step .drainDisk) rfl rfl hd hinc ?_ ?_ ?_
    · rintro ⟨V, hV⟩
      refine ⟨V, ?_⟩
      rw [hnotes]
      exact hV
    · rintro ss ⟨⟨base, hb, hm⟩, hmark⟩
      refine ⟨⟨base, hnum ▸ hb, ?_⟩, hmark⟩
      rw [hnotes]
      exact hm
    · intro hV
      rw [Tracked, hnotes]
      exact hV

/-! ## The controller handles a message -/

variable {w : WorkerNode}

theorem isWorkerSyncing_of_syncInfo {info : WorkerSyncInfo} (h : w.syncInfo = some info)
    (hs : info.state = .SYNCING) : w.isWorkerSyncing = true := by
  simp [WorkerNode.isWorkerSyncing, h, hs]

variable {ss : FullSyncSession}

theorem not_isWorkerSyncing_of_completed
    (h : s.Completed ss) : s.node.isWorkerSyncing = false := by
  obtain ⟨info, hi, -, hs⟩ := h
  simp [WorkerNode.isWorkerSyncing, hi, hs]

/-- The messages of the channel come from the backends and from the session of the phase. -/
theorem PhaseInv.known (h : s.PhaseInv) : ∀ m ∈ s.channel,
    IsIncremental m ∨ ∃ ss ∈ s.phase.session, IsBatch ss m ∨ m = .fullSyncEnd ss.endMsg := by
  intro m hm
  unfold PhaseInv at h
  cases hp : s.phase with
  | idle | frozen | read ss | started ss => rw [hp] at h; exact .inl (h.2.1 m hm)
  | sending ss i => rw [hp] at h; exact (h.2.1 m hm).imp_right fun h1 => ⟨ss, rfl, .inl h1⟩
  | polling ss n | done ss => rw [hp] at h; exact (h.1 m hm).imp_right fun h1 => ⟨ss, rfl, h1⟩

/-- A message changes the key set of a location by the operations it carries for it, unless they are
discarded. -/
theorem getKvKeys_handle_incremental {msg : BatchedKVOperationMsg} {loc : String}
    (h : w.isWorkerSyncing = false ∨ msg.location ≠ loc ∨ msg.operations = []) :
    ((handle w (.batchedKVOperation msg)).getKvKeys loc : Set Int) =
      Note.applyAll (w.getKvKeys loc : Set Int)
        ((WorkerMsg.opsAt loc (.batchedKVOperation msg)).map KVOpEvent.note) := by
  simp only [handle, WorkerMsg.opsAt]
  cases hs : w.isWorkerSyncing with
  | false =>
    rw [KVController.getKvKeys_handle msg hs]
    by_cases hloc : msg.location = loc
    · rw [if_pos hloc.symm, if_pos hloc]
    · rw [if_neg (Ne.symm hloc), if_neg hloc]
      rfl
  | true =>
    rw [KVController.handle_of_syncing msg hs]
    rcases h with h | h | h
    · rw [hs] at h
      cases h
    · rw [if_neg h]
      rfl
    · rw [h, ite_self]
      rfl

/-- The messages of a session touch no location but its own. -/
theorem getKvKeys_handle_session {m : WorkerMsg}
    (hm : IsBatch ss m ∨ m = .fullSyncEnd ss.endMsg) {loc : String} (hloc : loc ≠ ss.location) :
    (handle w m).getKvKeys loc = w.getKvKeys loc := by
  rcases hm with ⟨i, rfl⟩ | rfl
  · simp only [handle]
    rcases KVController.handleFullSyncBatch_cases w (ss.batchMsg i) with ⟨h, -⟩ | ⟨_, _, _, _, _, h⟩
    · rw [h]
    · have hother : loc ≠ (ss.batchMsg i).location := hloc
      have hkeys := h loc
      rw [if_neg hother] at hkeys
      exact Finset.coe_injective hkeys
  · simp only [handle]
    rcases KVController.handleFullSyncEnd_cases w ss.endMsg with ⟨h, -⟩ | ⟨_, _, _, h⟩
    · rw [h]
    · rw [h]
      rfl

theorem opsAt_session {m : WorkerMsg}
    (hm : IsBatch ss m ∨ m = .fullSyncEnd ss.endMsg) (loc : String) : m.opsAt loc = [] := by
  rcases hm with ⟨i, rfl⟩ | rfl <;> rfl

section Deliver

variable {m : WorkerMsg} {c : List WorkerMsg}

/-- The system after the controller has handled the first message. -/
def delivered (s : SyncSystem) (m : WorkerMsg) (c : List WorkerMsg) : SyncSystem :=
  { s with channel := c, node := handle s.node m }

theorem cpuNotes_cons (hc : s.channel = m :: c) (h : s.Inv) :
    s.cpuNotes = (m.opsAt cpuLocation).map KVOpEvent.note ++ (s.delivered m c).cpuNotes := by
  simp only [cpuNotes, delivered, underWay, hc, opsAt_cons, h.cpuAddress, List.map_append,
    List.append_assoc]

theorem diskNotes_cons (hc : s.channel = m :: c) (h : s.Inv) :
    s.diskNotes = (m.opsAt diskLocation).map KVOpEvent.note ++ (s.delivered m c).diskNotes := by
  simp only [diskNotes, delivered, underWay, hc, opsAt_cons, h.diskAddress, List.map_append,
    List.append_assoc]

theorem numbered_delivered (hc : s.channel = m :: c) (h : s.Inv) {base : Nat}
    (hb : Numbered base (numberedOps s.cpu.batchedMsgSender s.channel)
      s.cpu.batchedMsgSender.sequenceNumber) :
    ∃ base', Numbered base (m.opsAt cpuLocation) base' ∧
      Numbered base' (numberedOps s.cpu.batchedMsgSender c)
        s.cpu.batchedMsgSender.sequenceNumber := by
  rw [numberedOps, hc, opsAt_cons, List.append_assoc, h.cpuAddress] at hb
  rw [numberedOps, h.cpuAddress]
  exact numbered_append.mp hb

/-- Losing a covered message does not matter to a session that rebuilds the location. -/
theorem rebuilds_delivered (hc : s.channel = m :: c) (h : s.Inv) (hr : s.Rebuilds ss)
    (hcov : ∀ op ∈ m.opsAt cpuLocation, s.Covered ss op) : (s.delivered m c).Rebuilds ss := by
  obtain ⟨⟨base, hb, hm⟩, hmark⟩ := hr
  obtain ⟨base', hops, hb'⟩ := numbered_delivered hc h hb
  refine ⟨⟨base', hb', ?_⟩, hmark⟩
  rw [cpuNotes_cons hc h] at hm
  exact mirroredFrom_lose hops hcov hm

theorem tracked_delivered (hc : s.channel = m :: c) (h : s.Inv) (ht : s.Tracked)
    (hkeys : ((handle s.node m).getKvKeys cpuLocation : Set Int) =
      Note.applyAll (s.node.getKvKeys cpuLocation : Set Int)
        ((m.opsAt cpuLocation).map KVOpEvent.note)) : (s.delivered m c).Tracked := by
  rw [Tracked, cpuNotes_cons hc h, Note.applyAll_append, ← hkeys] at ht
  exact ht

theorem untracked_delivered (hc : s.channel = m :: c) (h : s.Inv) (hu : s.Untracked) :
    (s.delivered m c).Untracked := by
  obtain ⟨V, hV⟩ := hu
  rw [cpuNotes_cons hc h, Note.applyAll_append] at hV
  exact ⟨_, hV⟩

/-- The operations of an allowed message are covered, when it comes from a backend. -/
theorem covered_of_allowed (hm : IsIncremental m) (hok : s.MsgAllowed m)
    (hs : s.rebuilding = some ss) : ∀ op ∈ m.opsAt cpuLocation, s.Covered ss op := by
  obtain ⟨msg, rfl, -⟩ := hm
  intro op hop
  rw [WorkerMsg.opsAt] at hop
  by_cases hloc : msg.location = cpuLocation
  · rw [if_pos hloc] at hop
    exact hok.1 hloc ss hs op hop
  · rw [if_neg hloc] at hop
    cases hop

/-- A message that is not an end message moves the transfer on. -/
theorem transfers_delivered (hc : s.channel = m :: c) {n : Nat} (hloc : ss.location = cpuLocation)
    (ht : s.Transfers ss n) (hm : IsIncremental m ∨ IsBatch ss m) :
    (s.delivered m c).Transfers ss n := by
  obtain ⟨info, hi, hid, hst⟩ := ht.syncing
  have hcovered := ht.covered
  rw [hc] at hcovered
  rcases hm with ⟨msg, rfl, -⟩ | ⟨i, rfl⟩
  · have hsame : handle s.node (.batchedKVOperation msg) = s.node :=
      KVController.handle_of_syncing msg (isWorkerSyncing_of_syncInfo hi hst)
    have hd : s.delivered (.batchedKVOperation msg) c = { s with channel := c } := by
      rw [delivered, hsame]
    rw [hd]
    exact ⟨⟨info, hi, hid, hst⟩, ht.known, hcovered⟩
  · rcases KVController.handleFullSyncBatch_cases s.node (ss.batchMsg i) with
      ⟨-, hno⟩ | ⟨info', hi', -, -, hinfo, hkeys⟩
    · exact absurd ⟨hid, hst⟩ (hno info hi)
    · cases hi.symm.trans hi'
      have hkey : ∀ k, k ∈ (KVController.handleFullSyncBatch s.node (ss.batchMsg i)).getKvKeys
          cpuLocation ↔ k ∈ s.node.getKvKeys cpuLocation ∨ k ∈ ss.batchKeys i := by
        intro k
        have hhere : cpuLocation = (ss.batchMsg i).location := hloc.symm
        rw [← Finset.mem_coe, hkeys, if_pos hhere]
        rfl
      refine ⟨⟨_, hinfo, hid, hst⟩, ?_, ?_⟩
      · intro k hk
        rcases (hkey k).mp hk with h1 | h1
        · exact ht.known k h1
        · exact List.mem_of_mem_take (List.mem_of_mem_drop h1)
      · intro k hk
        show k ∈ (KVController.handleFullSyncBatch s.node (ss.batchMsg i)).getKvKeys cpuLocation ∨ _
        rw [hkey]
        rcases hcovered k hk with h1 | h1 | h1
        · exact .inl (.inl h1)
        · rcases List.mem_append.mp h1 with h2 | h2
          · exact .inl (.inr h2)
          · exact .inr (.inl h2)
        · exact .inr (.inr h1)

/-- The end message finds all keys of the session in the node, and no other. -/
theorem completed_of_end (hc : s.channel = .fullSyncEnd ss.endMsg :: c) (h : s.Inv)
    (ht : s.Transfers ss ss.batchCount) (hr : s.Rebuilds ss) :
    (s.delivered (.fullSyncEnd ss.endMsg) c).Completed ss ∧
      (s.delivered (.fullSyncEnd ss.endMsg) c).Tracked := by
  obtain ⟨info, hi, hid, hst⟩ := ht.syncing
  have hkeys : (s.node.getKvKeys cpuLocation : Set Int) = snapshot ss := by
    ext k
    constructor
    · exact ht.known k
    · intro hk
      rcases ht.covered k hk with h1 | h1 | ⟨i, h1, h2, -⟩
      · exact h1
      · rw [hc] at h1
        cases h1
      · omega
  have hend : handle s.node (.fullSyncEnd ss.endMsg) =
      { s.node with syncInfo := some { info with state := .COMPLETED } } := by
    rcases KVController.handleFullSyncEnd_cases s.node ss.endMsg with ⟨-, hno⟩ | ⟨info', hi', -, he⟩
    · exact absurd hid (hno info hi)
    · cases hi.symm.trans hi'
      exact he
  constructor
  · refine ⟨{ info with state := .COMPLETED }, ?_, hid, rfl⟩
    rw [delivered, hend]
  · have hmir := hr.mirrored.choose_spec.2.settle
    rw [← hkeys, cpuNotes_cons hc h] at hmir
    rw [Tracked, delivered, hend]
    exact hmir

/-- A completed session stays completed, and the node goes on applying incremental messages. -/
theorem completed_delivered (hcomp : s.Completed ss)
    (hm : IsIncremental m ∨ IsBatch ss m ∨ m = .fullSyncEnd ss.endMsg) :
    (s.delivered m c).Completed ss ∧
      ((handle s.node m).getKvKeys cpuLocation : Set Int) =
        Note.applyAll (s.node.getKvKeys cpuLocation : Set Int)
          ((m.opsAt cpuLocation).map KVOpEvent.note) := by
  have hns := not_isWorkerSyncing_of_completed hcomp
  obtain ⟨info, hi, hid, hst⟩ := hcomp
  rcases hm with ⟨msg, rfl, -⟩ | ⟨i, rfl⟩ | rfl
  · refine ⟨⟨info, ?_, hid, hst⟩, getKvKeys_handle_incremental (.inl hns)⟩
    exact (KVController.syncInfo_handle s.node msg).trans hi
  · have hsame : handle s.node (.fullSyncBatch (ss.batchMsg i)) = s.node := by
      rcases KVController.handleFullSyncBatch_cases s.node (ss.batchMsg i) with
        ⟨h, -⟩ | ⟨info', hi', -, hs', -⟩
      · exact h
      · cases hi.symm.trans hi'
        rw [hst] at hs'
        cases hs'
    refine ⟨⟨info, ?_, hid, hst⟩, ?_⟩
    · rw [delivered, hsame]
      exact hi
    · rw [hsame]
      rfl
  · rcases KVController.handleFullSyncEnd_cases s.node ss.endMsg with ⟨h, -⟩ | ⟨info', hi', -, h⟩
    · refine ⟨⟨info, ?_, hid, hst⟩, ?_⟩
      · rw [delivered, handle, h]
        exact hi
      · rw [handle, h]
        rfl
    · cases hi.symm.trans hi'
      refine ⟨⟨{ info with state := .COMPLETED }, ?_, hid, rfl⟩, ?_⟩
      · rw [delivered, handle, h]
      · rw [handle, h]
        rfl

/-- The operations of a message that is not discarded by the completion are covered. -/
theorem covered_of_source (hok : s.MsgAllowed m) (hs : s.rebuilding = some ss)
    (hm : IsIncremental m ∨ IsBatch ss m) : ∀ op ∈ m.opsAt cpuLocation, s.Covered ss op := by
  rcases hm with hm | hm
  · exact covered_of_allowed hm hok hs
  · rw [opsAt_session (.inl hm)]
    exact fun op hop => absurd hop List.not_mem_nil

/-- Once the end message is sent, the transfer goes on until it is handled, and the node is right
from then on. -/
theorem sent_delivered (hc : s.channel = m :: c) (h : s.Inv) (hok : s.MsgAllowed m)
    (hloc : ss.location = cpuLocation)
    (hreb : s.node.isWorkerSyncing = true → s.rebuilding = some ss)
    (hm : IsIncremental m ∨ IsBatch ss m ∨ m = .fullSyncEnd ss.endMsg)
    (hsent : (s.Transfers ss ss.batchCount ∧ .fullSyncEnd ss.endMsg ∈ s.channel ∧ s.Rebuilds ss) ∨
      (s.Completed ss ∧ s.Tracked)) :
    ((s.delivered m c).Transfers ss ss.batchCount ∧
        .fullSyncEnd ss.endMsg ∈ (s.delivered m c).channel ∧ (s.delivered m c).Rebuilds ss) ∨
      ((s.delivered m c).Completed ss ∧ (s.delivered m c).Tracked) := by
  rcases hsent with ⟨ht, hend, hr⟩ | ⟨hcomp, htr⟩
  · by_cases hme : m = .fullSyncEnd ss.endMsg
    · subst hme
      exact .inr (completed_of_end hc h ht hr)
    · have hm' : IsIncremental m ∨ IsBatch ss m := by
        rcases hm with h1 | h1 | h1
        · exact .inl h1
        · exact .inr h1
        · exact absurd h1 hme
      obtain ⟨info, hi, -, hst⟩ := ht.syncing
      have hsync := isWorkerSyncing_of_syncInfo hi hst
      rw [hc] at hend
      exact .inl ⟨transfers_delivered hc hloc ht hm',
        (List.mem_cons.mp hend).resolve_left (Ne.symm hme),
        rebuilds_delivered hc h hr (covered_of_source hok (hreb hsync) hm')⟩
  · obtain ⟨h1, h2⟩ := completed_delivered (c := c) hcomp hm
    exact .inr ⟨h1, tracked_delivered hc h htr h2⟩

theorem notSyncing_delivered (hw : s.node.isWorkerSyncing = false) (hm : IsIncremental m) :
    (s.delivered m c).node.isWorkerSyncing = false := by
  obtain ⟨msg, rfl, -⟩ := hm
  exact (KVController.isWorkerSyncing_handle s.node msg).trans hw

theorem phaseInv_delivered (hc : s.channel = m :: c) (h : s.Inv) (hok : s.MsgAllowed m) :
    (s.delivered m c).PhaseInv := by
  have hrest : ∀ {P : WorkerMsg → Prop}, (∀ m' ∈ s.channel, P m') → P m ∧ ∀ m' ∈ c, P m' := by
    intro P hP
    rw [hc] at hP
    exact ⟨hP m List.mem_cons_self, fun m' hm' => hP m' (List.mem_cons_of_mem _ hm')⟩
  have hp := h.phase
  have hlocation := h.location
  have hphase' : (s.delivered m c).phase = s.phase := rfl
  unfold PhaseInv at hp ⊢
  rw [hphase']
  cases hphase : s.phase with
  | idle | frozen =>
    rw [hphase] at hp
    obtain ⟨hm, hall⟩ := hrest hp.2.1
    exact ⟨notSyncing_delivered hp.1 hm, hall, untracked_delivered hc h hp.2.2⟩
  | read ss =>
    rw [hphase] at hp
    obtain ⟨hm, hall⟩ := hrest hp.2.1
    have hreb : s.rebuilding = some ss := by rw [rebuilding, hphase]
    exact ⟨notSyncing_delivered hp.1 hm, hall,
      rebuilds_delivered hc h hp.2.2 (covered_of_source hok hreb (.inl hm))⟩
  | started ss =>
    rw [hphase] at hp hlocation
    obtain ⟨hm, hall⟩ := hrest hp.2.1
    have hreb : s.rebuilding = some ss := by rw [rebuilding, hphase]
    exact ⟨transfers_delivered hc (hlocation ss rfl) hp.1 (.inl hm), hall,
      rebuilds_delivered hc h hp.2.2 (covered_of_source hok hreb (.inl hm))⟩
  | sending ss i =>
    rw [hphase] at hp hlocation
    obtain ⟨hm, hall⟩ := hrest hp.2.1
    have hreb : s.rebuilding = some ss := by rw [rebuilding, hphase]
    exact ⟨transfers_delivered hc (hlocation ss rfl) hp.1 hm, hall,
      rebuilds_delivered hc h hp.2.2 (covered_of_source hok hreb hm)⟩
  | polling ss n | done ss =>
    rw [hphase] at hp hlocation
    obtain ⟨hm, hall⟩ := hrest hp.1
    refine ⟨hall, sent_delivered hc h hok (hlocation ss rfl) (fun hs => ?_) hm hp.2⟩
    simp only [rebuilding, hphase, if_pos hs]

/-- Handling a message keeps the node right about the disk backend. -/
theorem disk_delivered (hc : s.channel = m :: c) (h : s.Inv) (hok : s.MsgAllowed m) :
    (s.delivered m c).disk.MirroredBy (Note.applyAll
      ((s.delivered m c).node.getKvKeys diskLocation : Set Int) (s.delivered m c).diskNotes) := by
  have hkeys : ((handle s.node m).getKvKeys diskLocation : Set Int) =
      Note.applyAll (s.node.getKvKeys diskLocation : Set Int)
        ((m.opsAt diskLocation).map KVOpEvent.note) := by
    rcases h.phase.known m (by rw [hc]; exact List.mem_cons_self) with ⟨msg, rfl, -⟩ | ⟨ss, hss, hm⟩
    · apply getKvKeys_handle_incremental
      by_cases hsync : s.node.isWorkerSyncing = true
      · by_cases hloc : msg.location = diskLocation
        · exact .inr (.inr (hok.2 hloc hsync))
        · exact .inr (.inl hloc)
      · exact .inl (Bool.not_eq_true _ ▸ hsync)
    · have hne : diskLocation ≠ ss.location := by
        rw [h.location ss hss]
        exact cpuLocation_ne_diskLocation.symm
      rw [getKvKeys_handle_session hm hne, opsAt_session hm]
      rfl
  have hmir := h.disk
  rw [diskNotes_cons hc h, Note.applyAll_append, ← hkeys] at hmir
  exact hmir

theorem inv_delivered (hc : s.channel = m :: c) (h : s.Inv) (hok : s.MsgAllowed m) :
    (s.delivered m c).Inv where
  exclusive := h.exclusive
  cpuAddress := h.cpuAddress
  diskAddress := h.diskAddress
  numbered := by
    obtain ⟨base, hb⟩ := h.numbered
    obtain ⟨base', -, hb'⟩ := numbered_delivered hc h hb
    exact ⟨base', hb'⟩
  location := h.location
  disk := disk_delivered hc h hok
  phase := phaseInv_delivered hc h hok

end Deliver

/-! ## The sender of the full sync -/

/-- The keys of the session are read: whatever is queued at that moment may be lost from now on. -/
theorem inv_readKeys (h : s.Inv) (syncId : String) :
    (s.step (.readKeys syncId)).Inv := by
  simp only [step]
  cases hp : s.phase with
  | frozen =>
    cases hl : s.cpu.cpuLock with
    | some t => exact h
    | none =>
      have hphase := h.phase
      unfold PhaseInv at hphase
      rw [hp] at hphase
      obtain ⟨hsync, hall, V, hV⟩ := hphase
      obtain ⟨base, hb⟩ := h.numbered
      have hsnap : snapshot (s.newSession syncId) = CacheEngineKey.chunkHash '' s.cpu.hotKeys := by
        ext k
        simp [snapshot, newSession, LocalCPUBackend.hotKeys, Dict.mem_def]
      refine ⟨h.exclusive, h.cpuAddress, h.diskAddress, h.numbered, ?_, h.disk, hsync, hall, ?_⟩
      · rintro ss ⟨⟩
        rfl
      · exact ⟨⟨base, hb, mirroredFrom_snapshot hV hsnap _⟩, le_rfl⟩
  | idle | read ss | started ss | sending ss i | polling ss n | done ss => exact h

/-- An accepted start empties the location: the whole session is to be transferred. -/
theorem inv_started (h : s.Inv)
    (hsession : s.phase.session = some ss) (hall : ∀ m ∈ s.channel, IsIncremental m)
    (hr : s.Rebuilds ss)
    (hinfo : ∃ info, w.syncInfo = some info ∧ info.syncId = ss.syncId ∧ info.state = .SYNCING)
    (hcpu : w.getKvKeys cpuLocation = ∅)
    (hdisk : w.getKvKeys diskLocation = s.node.getKvKeys diskLocation) :
    { s with node := w, phase := .started ss }.Inv where
  exclusive := h.exclusive
  cpuAddress := h.cpuAddress
  diskAddress := h.diskAddress
  numbered := h.numbered
  location := by
    rintro ss' ⟨⟩
    exact h.location ss hsession
  disk := by
    have hmir := h.disk
    rw [← hdisk] at hmir
    exact hmir
  phase := by
    refine ⟨⟨hinfo, ?_, ?_⟩, hall, hr.mirrored, hr.mark_le⟩
    · intro k hk
      exact absurd (hcpu ▸ hk) (Finset.notMem_empty k)
    · intro k hk
      obtain ⟨i, hi, hik⟩ := (ss.mem_batchKeys k).mpr hk
      exact .inr (.inr ⟨i, Nat.zero_le i, hi, hik⟩)

theorem inv_sendStart_of_session (h : s.Inv)
    (hsession : s.phase.session = some ss) (hall : ∀ m ∈ s.channel, IsIncremental m)
    (hr : s.Rebuilds ss) :
    { s with
      node := (KVController.handleFullSyncStart s.node ss.startMsg).1
      phase := if (KVController.handleFullSyncStart s.node ss.startMsg).2 then .started ss
        else s.phase }.Inv := by
  have hloc : ss.location = cpuLocation := h.location ss hsession
  rcases KVController.handleFullSyncStart_cases s.node ss.startMsg with ⟨hno, -⟩ | ⟨hacc, hinfo, hkeys⟩
  · rw [hno]
    exact h
  · rw [hacc, if_pos rfl]
    refine inv_started h hsession hall hr ⟨_, hinfo, rfl, rfl⟩ ?_ ?_
    · have hhere : cpuLocation = ss.startMsg.location := hloc.symm
      rw [hkeys, if_pos hhere]
    · have hother : diskLocation ≠ ss.startMsg.location := fun h' =>
        cpuLocation_ne_diskLocation (h'.trans hloc).symm
      rw [hkeys, if_neg hother]

theorem inv_sendStart (h : s.Inv) : (s.step .sendStart).Inv := by
  have hphase := h.phase
  unfold PhaseInv at hphase
  simp only [step]
  cases hp : s.phase with
  | read ss | started ss =>
    rw [hp] at hphase
    have hstart := inv_sendStart_of_session h (by rw [hp]; rfl) hphase.2.1 hphase.2.2
    rw [hp] at hstart
    exact hstart
  | idle | frozen | sending ss i | polling ss n | done ss => exact h

section Send

variable {d : List WorkerMsg}

/-- The system after the sender of the full sync has put messages into the channel. -/
def sent (s : SyncSystem) (d : List WorkerMsg) (phase : SyncPhase) (freeze : Bool) : SyncSystem :=
  { s with channel := s.channel ++ d, phase := phase, freeze := freeze }

theorem opsAt_sent (hd : ∀ m ∈ d, IsBatch ss m ∨ m = .fullSyncEnd ss.endMsg) (loc : String)
    (c : List WorkerMsg) : opsAt loc (c ++ d) = opsAt loc c := by
  rw [opsAt_append]
  have hnil : opsAt loc d = [] := by
    rw [opsAt, List.flatMap_eq_nil_iff]
    exact fun m hm => opsAt_session (hd m hm) loc
  rw [hnil, List.append_nil]

theorem cpuNotes_sent (hd : ∀ m ∈ d, IsBatch ss m ∨ m = .fullSyncEnd ss.endMsg) (phase : SyncPhase)
    (freeze : Bool) : (s.sent d phase freeze).cpuNotes = s.cpuNotes := by
  simp only [cpuNotes, sent, underWay, opsAt_sent hd]

theorem rebuilds_sent (hd : ∀ m ∈ d, IsBatch ss m ∨ m = .fullSyncEnd ss.endMsg) (phase : SyncPhase)
    (freeze : Bool) (hr : s.Rebuilds ss) : (s.sent d phase freeze).Rebuilds ss := by
  obtain ⟨⟨base, hb, hm⟩, hmark⟩ := hr
  refine ⟨⟨base, ?_, ?_⟩, hmark⟩
  · rw [numberedOps, ← opsAt_sent hd] at hb
    exact hb
  · rw [cpuNotes_sent hd]
    exact hm

/-- The facts that do not depend on the phase. -/
theorem inv_sent (h : s.Inv) (hd : ∀ m ∈ d, IsBatch ss m ∨ m = .fullSyncEnd ss.endMsg)
    (phase : SyncPhase) (freeze : Bool) (hsession : phase.session = s.phase.session)
    (hphase : (s.sent d phase freeze).PhaseInv) : (s.sent d phase freeze).Inv where
  exclusive := h.exclusive
  cpuAddress := h.cpuAddress
  diskAddress := h.diskAddress
  numbered := by
    obtain ⟨base, hb⟩ := h.numbered
    rw [numberedOps, ← opsAt_sent hd] at hb
    exact ⟨base, hb⟩
  location := by
    show ∀ ss' ∈ phase.session, ss'.location = cpuLocation
    rw [hsession]
    exact h.location
  disk := by
    have hnotes : (s.sent d phase freeze).diskNotes = s.diskNotes := by
      simp only [diskNotes, sent, underWay, opsAt_sent hd]
    rw [hnotes]
    exact h.disk
  phase := hphase

theorem inv_sendBatch (h : s.Inv) : (s.step .sendBatch).Inv := by
  have hphase := h.phase
  unfold PhaseInv at hphase
  simp only [step]
  cases hp : s.phase with
  | sending ss i =>
    dsimp only
    by_cases hlt : i < ss.batchCount
    · rw [if_pos hlt]
      rw [hp] at hphase
      obtain ⟨ht, hall, hr⟩ := hphase
      have hd : ∀ m ∈ [WorkerMsg.fullSyncBatch (ss.batchMsg i)],
          IsBatch ss m ∨ m = .fullSyncEnd ss.endMsg := by
        intro m hm
        exact .inl ⟨i, List.mem_singleton.mp hm⟩
      refine inv_sent h hd (.sending ss (i + 1)) s.freeze (by rw [hp]; rfl) ?_
      refine ⟨⟨ht.syncing, ht.known, ?_⟩, ?_, rebuilds_sent hd _ _ hr⟩
      · intro k hk
        show _ ∨ k ∈ restKeys (s.channel ++ [.fullSyncBatch (ss.batchMsg i)]) ∨ _
        rw [restKeys_append_of_noEnd _ hall, List.mem_append]
        rcases ht.covered k hk with h1 | h1 | ⟨j, hj, hjn, hjk⟩
        · exact .inl h1
        · exact .inr (.inl (.inl h1))
        · -- the batch that is being sent is no longer to come
          rcases Nat.eq_or_lt_of_le hj with rfl | hj
          · exact .inr (.inl (.inr (List.mem_append_left _ hjk)))
          · exact .inr (.inr ⟨j, hj, hjn, hjk⟩)
      · intro m hm
        rcases List.mem_append.mp hm with hm | hm
        · exact hall m hm
        · exact .inr ⟨i, List.mem_singleton.mp hm⟩
    · rw [if_neg hlt]
      exact h
  | idle | frozen | read ss | started ss | polling ss i | done ss => exact h

theorem inv_sendEnd (h : s.Inv) : (s.step .sendEnd).Inv := by
  have hphase := h.phase
  unfold PhaseInv at hphase
  simp only [step]
  cases hp : s.phase with
  | sending ss i =>
    dsimp only
    by_cases hlt : i < ss.batchCount
    · rw [if_pos hlt]
      exact h
    · rw [if_neg hlt]
      rw [hp] at hphase
      obtain ⟨ht, hall, hr⟩ := hphase
      have hd : ∀ m ∈ [WorkerMsg.fullSyncEnd ss.endMsg],
          IsBatch ss m ∨ m = .fullSyncEnd ss.endMsg := fun m hm => .inr (List.mem_singleton.mp hm)
      refine inv_sent h hd (.polling ss 0) s.freeze (by rw [hp]; rfl) ?_
      refine ⟨?_, .inl ⟨⟨ht.syncing, ht.known, ?_⟩, List.mem_append_right _ List.mem_cons_self,
        rebuilds_sent hd _ _ hr⟩⟩
      · intro m hm
        rcases List.mem_append.mp hm with hm | hm
        · exact (hall m hm).imp_right Or.inl
        · exact .inr (.inr (List.mem_singleton.mp hm))
      · intro k hk
        show _ ∨ k ∈ restKeys (s.channel ++ [.fullSyncEnd ss.endMsg]) ∨ _
        rw [restKeys_append_of_noEnd _ hall, List.mem_append]
        rcases ht.covered k hk with h1 | h1 | ⟨j, hj, hjn, -⟩
        · exact .inl h1
        · exact .inr (.inl (.inl h1))
        · omega
  | idle | frozen | read ss | started ss | polling ss i | done ss => exact h

/-- What a turn of the polling loop sends. -/
theorem mem_poll {canExitFreeze : Bool} {missing : List Nat} {n maxResend : Nat} :
    ∀ m ∈ (ss.poll canExitFreeze missing n maxResend).1,
      IsBatch ss m ∨ m = .fullSyncEnd ss.endMsg := by
  intro m hm
  unfold FullSyncSession.poll at hm
  split at hm
  · cases hm
  · split at hm
    · simp only [List.mem_append, List.mem_map, List.mem_singleton] at hm
      rcases hm with ⟨i, -, rfl⟩ | rfl
      · exact .inl ⟨i, rfl⟩
      · exact .inr rfl
    · cases hm

/-- Resending is harmless: what is sent again stands behind the end message. -/
theorem inv_sent_of_polling (h : s.Inv) {n : Nat} (hp : s.phase = .polling ss n)
    (hd : ∀ m ∈ d, IsBatch ss m ∨ m = .fullSyncEnd ss.endMsg) (phase : SyncPhase) (freeze : Bool)
    (hphase : phase = .done ss ∨ ∃ n', phase = .polling ss n') : (s.sent d phase freeze).Inv := by
  have hinv := h.phase
  unfold PhaseInv at hinv
  rw [hp] at hinv
  obtain ⟨hall, hcases⟩ := hinv
  have hall' : ∀ m ∈ s.channel ++ d,
      IsIncremental m ∨ IsBatch ss m ∨ m = .fullSyncEnd ss.endMsg := by
    intro m hm
    rcases List.mem_append.mp hm with hm | hm
    · exact hall m hm
    · exact .inr (hd m hm)
  have hcases' : ((s.sent d phase freeze).Transfers ss ss.batchCount ∧
        .fullSyncEnd ss.endMsg ∈ s.channel ++ d ∧ (s.sent d phase freeze).Rebuilds ss) ∨
      ((s.sent d phase freeze).Completed ss ∧ (s.sent d phase freeze).Tracked) := by
    rcases hcases with ⟨ht, hend, hr⟩ | ⟨hcomp, htr⟩
    · refine .inl ⟨⟨ht.syncing, ht.known, ?_⟩, List.mem_append_left _ hend, rebuilds_sent hd _ _ hr⟩
      have hrest : restKeys (s.sent d phase freeze).channel = restKeys s.channel :=
        restKeys_append_of_end d hend
      rw [hrest]
      exact ht.covered
    · refine .inr ⟨hcomp, ?_⟩
      rw [Tracked, cpuNotes_sent hd]
      exact htr
  rcases hphase with rfl | ⟨n', rfl⟩
  · exact inv_sent h hd _ freeze (by rw [hp]; rfl) ⟨hall', hcases'⟩
  · exact inv_sent h hd _ freeze (by rw [hp]; rfl) ⟨hall', hcases'⟩

theorem inv_poll (h : s.Inv) (canExitFreeze : Bool) : (s.step (.poll canExitFreeze)).Inv := by
  simp only [step]
  cases hp : s.phase with
  | polling ss n =>
    refine inv_sent_of_polling h hp mem_poll _ _ ?_
    by_cases hleave : (ss.poll canExitFreeze (FullSyncTracker.getMissingBatches s.node ss.syncId) n
        s.config.maxResendAttempts).2.2 = true
    · exact .inl (if_pos hleave)
    · exact .inr ⟨_, if_neg hleave⟩
  | idle | frozen | read ss | started ss | sending ss i | done ss => exact h

theorem inv_pollTimeout (h : s.Inv) : (s.step .pollTimeout).Inv := by
  simp only [step]
  cases hp : s.phase with
  | polling ss n =>
    have hsent := inv_sent_of_polling (d := []) h hp
      (fun m hm => absurd hm List.not_mem_nil) (.done ss) false (.inl rfl)
    simpa only [sent, List.append_nil] using hsent
  | idle | frozen | read ss | started ss | sending ss i | done ss => exact h

end Send

theorem inv_startAnswered (h : s.Inv) : (s.step .startAnswered).Inv := by
  have hphase := h.phase
  unfold PhaseInv at hphase
  simp only [step]
  cases hp : s.phase with
  | started ss =>
    rw [hp] at hphase
    obtain ⟨ht, hall, hr⟩ := hphase
    refine ⟨h.exclusive, h.cpuAddress, h.diskAddress, h.numbered, ?_, h.disk, ?_⟩
    · rintro ss' ⟨⟩
      exact h.location ss (by rw [hp]; rfl)
    · exact ⟨⟨ht.syncing, ht.known, ht.covered⟩, fun m hm => .inl (hall m hm),
        ⟨hr.mirrored, hr.mark_le⟩⟩
  | idle | frozen | read ss | sending ss i | polling ss n | done ss => exact h

theorem inv_enterFreeze (h : s.Inv) : (s.step .enterFreeze).Inv := by
  have hphase := h.phase
  unfold PhaseInv at hphase
  simp only [step]
  cases hp : s.phase with
  | idle =>
    rw [hp] at hphase
    refine ⟨h.exclusive, h.cpuAddress, h.diskAddress, h.numbered, ?_, h.disk, hphase⟩
    rintro ss' ⟨⟩
  | frozen | read ss | started ss | sending ss i | polling ss n | done ss => exact h

/-- Which threads are inside `store` concerns no one but the gates. -/
theorem inv_storing (h : s.Inv) (storing : List Nat) :
    { s with storing := storing }.Inv :=
  ⟨h.exclusive, h.cpuAddress, h.diskAddress, h.numbered, h.location, h.disk,
    h.phase.carry { s with storing := storing } rfl rfl (List.append_nil _).symm
      (fun _ hm => absurd hm List.not_mem_nil) id (fun _ hr => ⟨hr.mirrored, hr.mark_le⟩) id⟩

theorem inv_step (a : Action) (h : s.Inv) (hok : s.Allowed a) : (s.step a).Inv := by
  cases a with
  | store t =>
    simp only [step]
    split
    · exact h
    · exact inv_storing h _
  | storeDone t => exact inv_storing h _
  | cpu a =>
    simp only [step]
    split
    · exact inv_cpu h hok
    · exact h
  | disk a =>
    simp only [step]
    split
    · exact inv_disk h hok
    · exact h
  | drainCpu => exact inv_drainCpu h
  | drainDisk => exact inv_drainDisk h
  | deliver =>
    simp only [step]
    cases hc : s.channel with
    | nil => exact h
    | cons m c => exact inv_delivered hc h (hok m (by rw [hc]; rfl))
  | enterFreeze => exact inv_enterFreeze h
  | readKeys syncId => exact inv_readKeys h syncId
  | sendStart => exact inv_sendStart h
  | startAnswered => exact inv_startAnswered h
  | sendBatch => exact inv_sendBatch h
  | sendEnd => exact inv_sendEnd h
  | poll canExitFreeze => exact inv_poll h canExitFreeze
  | pollTimeout => exact inv_pollTimeout h

/-! ## Runs -/

theorem Settled.cpuNotes (h : s.Settled) : s.cpuNotes = [] := by
  simp [SyncSystem.cpuNotes, underWay, h.channel, h.cpuQueue, h.cpuTaken]

theorem Settled.diskNotes (h : s.Settled) : s.diskNotes = [] := by
  simp [SyncSystem.diskNotes, underWay, h.channel, h.diskQueue, h.diskTaken]

theorem Ready.inv (h : s.Ready) : s.Inv where
  exclusive :=
    { holder := fun t pc ht hpc => by
        rw [h.cpuIdle pc (List.mem_of_getElem? ht)] at hpc
        cases hpc
      stored := fun t key ht => by
        cases h.cpuIdle _ (List.mem_of_getElem? ht) }
  cpuAddress := h.cpuAddress
  diskAddress := h.diskAddress
  numbered := ⟨s.cpu.batchedMsgSender.sequenceNumber, by
    rw [numberedOps, h.settled.channel, h.settled.cpuTaken]
    rfl⟩
  location := by
    rw [h.phase]
    rintro ss ⟨⟩
  disk := by
    apply Mirrored.of_eq_image
    rw [h.settled.diskNotes, Note.applyAll_nil, h.diskAgrees, LocalDiskBackend.coe_hashes]
  phase := by
    unfold PhaseInv
    rw [h.phase]
    refine ⟨h.notSyncing, ?_, CacheEngineKey.chunkHash '' s.cpu.hotKeys, ?_⟩
    · rw [h.settled.channel]
      exact fun m hm => absurd hm List.not_mem_nil
    · apply Mirrored.of_eq_image
      rw [h.settled.cpuNotes, Note.applyAll_nil]

/-- The invariant says what a settled state after the sync looks like. -/
theorem Inv.converged (h : s.Inv) (hdone : s.syncCompleted = true) (hs : s.Settled) :
    s.Converged := by
  have htracked : s.Tracked := by
    have hnotEnd : ∀ ss : FullSyncSession, .fullSyncEnd ss.endMsg ∉ s.channel := by
      rw [hs.channel]
      exact fun ss => List.not_mem_nil
    have hp := h.phase
    unfold PhaseInv at hp
    unfold syncCompleted at hdone
    cases hphase : s.phase with
    | polling ss n | done ss =>
      rw [hphase] at hp
      rcases hp.2 with ⟨-, hend, -⟩ | ⟨-, ht⟩
      · exact absurd hend (hnotEnd ss)
      · exact ht
    | idle | frozen | read ss | started ss | sending ss i => rw [hphase] at hdone; cases hdone
  have hcpu := htracked.eq_image hs.cpuAdmit hs.cpuEvict
  have hdisk := h.disk.eq_image hs.diskAdmit hs.diskEvict
  rw [hs.cpuNotes, Note.applyAll_nil, ← LocalCPUBackend.coe_hashes] at hcpu
  rw [hs.diskNotes, Note.applyAll_nil, ← LocalDiskBackend.coe_hashes] at hdisk
  exact ⟨Finset.coe_injective hcpu, Finset.coe_injective hdisk⟩

/-- A worker that has just started, with one thread for each backend, and a node that knows nothing
about it. -/
def init : SyncSystem where
  config := ⟨"i", 0, 2, Nat.two_pos, 3⟩
  cpu := ⟨.empty, [], none, [.idle], ⟨"i", 0, cpuLocation, [], 0, []⟩⟩
  disk := ⟨.empty, 10, 0, [], [], none, [.idle], ⟨"i", 0, diskLocation, [], 0, []⟩⟩
  channel := []
  node := {}
  freeze := false
  storing := []
  phase := .idle
  mark := 0

theorem ready_init : Ready init where
  cpuIdle := by decide
  settled := by decide
  phase := rfl
  notSyncing := rfl
  cpuAddress := rfl
  diskAddress := rfl
  diskAgrees := rfl

/-- A key of the runs below. -/
def chunkKey (h : Int) : CacheEngineKey := ⟨"m", 1, 0, h, .float16, none, none⟩

/-- The put of a store into the CPU backend, and the message that tells of it. -/
def putCpu : List Action :=
  [.cpu (.begin 0 (.submitPutTask (chunkKey 5) 0)), .cpu (.advance 0), .cpu (.advance 0),
    .cpu (.advance 0), .drainCpu, .drainCpu]

/-- The put of a store into the disk backend, up to the scheduling of the write. -/
def putDisk : List Action :=
  [.disk (.begin 0 (.submitPutTask (chunkKey 5) 4)), .disk (.advance 0 none),
    .disk (.advance 0 none), .disk (.advance 0 none)]

/-- The end of the write, and the message that tells of it. -/
def written : List Action :=
  [.disk (.begin 0 (.insertKey (chunkKey 5) 4)), .disk (.advance 0 none), .disk (.advance 0 none),
    .disk (.advance 0 none), .disk (.advance 0 none), .drainDisk, .drainDisk]

/-- The full sync up to the answer to its start. -/
def openSync : List Action := [.enterFreeze, .readKeys "i_0_1", .sendStart, .startAnswered]

/-- The rest of a sync of one batch, up to the handling of its end message. -/
def closeSync : List Action := [.sendBatch, .sendEnd, .deliver, .deliver]

end SyncSystem

end LMCache.Controller
