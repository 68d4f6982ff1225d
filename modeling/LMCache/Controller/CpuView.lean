/-
# LMCache.Controller.CpuView — does the controller see the CPU cache as it is?

The CPU backend of one worker, the channel its messages travel on, and the controller's node of that
worker, without a full sync.  The channel loses nothing and keeps the order.  The question is whether
the node's key set for the location `LocalCPUBackend` is the set of chunk hashes of `hot_cache`
whenever nothing is under way any more.

It is not in every run: a round of `batched_allocate` pops layers and says nothing, `remove` queues
its `EVICT` after it gave up the lock, and the layers of a chunk share one hash.  It is in every run
whose steps meet `LocalCPUBackend.Allowed`, which rules out exactly these situations.
-/
import LMCache.Lib.Run
import LMCache.Storage.LocalCPUBackend

namespace LMCache.Controller

open LMCache.Lib LMCache.Storage LMCache.Memory

/-! ## Backend, channel and node -/

structure CpuView where
  cpu : LocalCPUBackend
  channel : List BatchedKVOperationMsg
  node : WorkerNode

namespace CpuView

/-- `str(local_cpu_backend)`. -/
def location : String := "LocalCPUBackend"

inductive Action where
  /-- A thread of the worker moves, or an object of the cache is touched. -/
  | backend (a : CpuAction)
  /-- The consumer thread of the sender does one turn of its loop. -/
  | drain
  /-- The controller handles the next message. -/
  | deliver
  deriving DecidableEq, Repr

def step (s : CpuView) : Action → CpuView
  | .backend a => { s with cpu := s.cpu.step a }
  | .drain =>
    { s with
      cpu := { s.cpu with batchedMsgSender := s.cpu.batchedMsgSender.drain.1 }
      channel := s.channel ++ s.cpu.batchedMsgSender.drain.2.toList }
  | .deliver =>
    match s.channel with
    | [] => s
    | msg :: channel =>
      { s with channel := channel, node := KVController.handleBatchedKvOperations s.node msg }

/-- The condition on a step: only the threads of the backend have one. -/
def Allowed (s : CpuView) : Action → Prop
  | .backend a => s.cpu.Allowed a
  | .drain | .deliver => True

instance (s : CpuView) : (a : Action) → Decidable (s.Allowed a)
  | .backend a => inferInstanceAs (Decidable (s.cpu.Allowed a))
  | .drain | .deliver => .isTrue trivial

/-- The node's key set for the location is the set of chunk hashes of `hot_cache`. -/
def Agrees (s : CpuView) : Prop :=
  s.node.getKvKeys location = (s.cpu.hotCache.keys.map CacheEngineKey.chunkHash).toFinset

/-- Nothing is under way: no thread owes a message, and every operation queued has been sent and
handled. -/
structure Settled (s : CpuView) : Prop where
  noAdmit : ∀ pc ∈ s.cpu.threads, pc.owesAdmit = none
  noEvict : ∀ pc ∈ s.cpu.threads, pc.owesEvict = none
  queue : s.cpu.batchedMsgSender.messageQueue = []
  taken : s.cpu.batchedMsgSender.opsToSend = []
  channel : s.channel = []

instance (s : CpuView) : Decidable s.Agrees := inferInstanceAs (Decidable (_ = _))

instance (s : CpuView) : Decidable s.Settled :=
  decidable_of_iff ((∀ pc ∈ s.cpu.threads, pc.owesAdmit = none) ∧
    (∀ pc ∈ s.cpu.threads, pc.owesEvict = none) ∧ s.cpu.batchedMsgSender.messageQueue = [] ∧
    s.cpu.batchedMsgSender.opsToSend = [] ∧ s.channel = [])
    ⟨fun ⟨h1, h2, h3, h4, h5⟩ => ⟨h1, h2, h3, h4, h5⟩, fun ⟨h1, h2, h3, h4, h5⟩ =>
      ⟨h1, h2, h3, h4, h5⟩⟩

/-- Where a run starts: any number of idle threads, no full sync, nothing under way, and a node that
agrees with the cache. -/
structure Ready (s : CpuView) : Prop where
  idle : ∀ pc ∈ s.cpu.threads, pc = .idle
  settled : s.Settled
  agrees : s.Agrees
  notSyncing : s.node.isWorkerSyncing = false
  address : s.cpu.batchedMsgSender.location = location

/-- A worker that has just started, with `n` threads, and a node that knows nothing about it. -/
def init (instanceId : String) (workerId n : Nat) : CpuView where
  cpu := ⟨.empty, [], none, List.replicate n .idle, ⟨instanceId, workerId, location, [], 0, []⟩⟩
  channel := []
  node := {}

theorem ready_init (instanceId : String) (workerId n : Nat) : Ready (init instanceId workerId n) where
  idle pc hpc := List.eq_of_mem_replicate hpc
  settled :=
    { noAdmit := fun pc hpc => by rw [List.eq_of_mem_replicate hpc]; rfl
      noEvict := fun pc hpc => by rw [List.eq_of_mem_replicate hpc]; rfl
      queue := rfl
      taken := rfl
      channel := rfl }
  agrees := rfl
  notSyncing := rfl
  address := rfl

/-! ## The invariant -/

/-- The changes under way, in the order in which the node will see them. -/
def pending (s : CpuView) : List (Note Int) :=
  s.channel.flatMap (fun msg => msg.operations.map KVOpEvent.note) ++ s.cpu.batchedMsgSender.pending

/-- The key set the node will have once everything under way is handled. -/
def view (s : CpuView) : Set Int := Note.applyAll (s.node.getKvKeys location : Set Int) s.pending

structure Inv (s : CpuView) : Prop where
  exclusive : s.cpu.Exclusive
  mirrored : s.cpu.MirroredBy s.view
  notSyncing : s.node.isWorkerSyncing = false
  address : s.cpu.batchedMsgSender.location = location
  addressed : ∀ msg ∈ s.channel, msg.location = location

variable {s : CpuView}

theorem Settled.pending (h : s.Settled) : s.pending = [] := by
  simp [CpuView.pending, BatchedMessageSender.pending, h.channel, h.queue, h.taken]

theorem Ready.inv (h : s.Ready) : s.Inv where
  exclusive :=
    { holder := fun t pc ht hpc => by
        rw [h.idle pc (List.mem_of_getElem? ht)] at hpc
        cases hpc
      stored := fun t key ht => by
        cases h.idle _ (List.mem_of_getElem? ht) }
  mirrored := by
    apply Mirrored.of_eq_image
    rw [view, h.settled.pending, Note.applyAll_nil, h.agrees, LocalCPUBackend.coe_hashes]
  notSyncing := h.notSyncing
  address := h.address
  addressed := by simp [h.settled.channel]

/-- The invariant says what a settled state looks like. -/
theorem Inv.agrees (h : s.Inv) (hs : s.Settled) : s.Agrees := by
  have himage := h.mirrored.eq_image hs.noAdmit hs.noEvict
  rw [view, hs.pending, Note.applyAll_nil, ← LocalCPUBackend.coe_hashes] at himage
  exact Finset.coe_injective himage

/-! ## The steps keep the invariant -/

theorem inv_backend (h : s.Inv) {a : CpuAction} (hok : s.cpu.Allowed a) :
    (s.step (.backend a)).Inv := by
  obtain ⟨ops, hops, hmir⟩ := LocalCPUBackend.mirroredBy_step h.exclusive a hok
  refine ⟨LocalCPUBackend.exclusive_step h.exclusive a, ?_, h.notSyncing, ?_, h.addressed⟩
  · have hview : (s.step (.backend a)).view =
        Note.applyAll s.view (ops.map KVOpEvent.note) := by
      simp only [view, pending, step, hops, BatchedMessageSender.pending_extend]
      rw [← List.append_assoc, Note.applyAll_append]
    rw [hview]
    exact hmir _ h.mirrored
  · show (s.cpu.step a).batchedMsgSender.location = location
    rw [hops]
    exact h.address

/-- Draining the queue moves operations along; what the node will end up with stays. -/
theorem inv_drain (h : s.Inv) : (s.step .drain).Inv := by
  have hpending : (s.step .drain).pending = s.pending := by
    rcases s.cpu.batchedMsgSender.drain_cases with ⟨hmsg, hpend, -⟩ | ⟨msg, hmsg, -, hpend, -⟩
    · simp [pending, step, hmsg, hpend]
    · simp [pending, step, hmsg, ← hpend]
  have hview : (s.step .drain).view = s.view := by
    simp only [view, hpending]
    rfl
  have haddress : s.cpu.batchedMsgSender.drain.1.location = s.cpu.batchedMsgSender.location := by
    rcases s.cpu.batchedMsgSender.drain_cases with ⟨-, -, hloc⟩ | ⟨-, -, -, -, hloc⟩ <;> exact hloc
  refine ⟨⟨h.exclusive.holder, h.exclusive.stored⟩, ?_, h.notSyncing, haddress.trans h.address, ?_⟩
  · rw [hview]
    exact h.mirrored
  · intro msg hmsg
    rcases List.mem_append.mp hmsg with hmsg | hmsg
    · exact h.addressed msg hmsg
    · rcases s.cpu.batchedMsgSender.drain_cases with ⟨hnone, -, -⟩ | ⟨msg', hsome, hloc, -, -⟩
      · rw [hnone] at hmsg
        cases hmsg
      · rw [hsome, Option.toList_some, List.mem_singleton] at hmsg
        rw [hmsg, hloc, h.address]

theorem inv_deliver (h : s.Inv) : (s.step .deliver).Inv := by
  simp only [step]
  cases hc : s.channel with
  | nil => exact h
  | cons msg channel =>
    have hloc : msg.location = location := h.addressed msg (by simp [hc])
    have hkeys := KVController.getKvKeys_handle msg h.notSyncing location
    rw [if_pos hloc.symm] at hkeys
    refine ⟨h.exclusive, ?_, ?_, h.address, fun m hm => h.addressed m (by simp [hc, hm])⟩
    · have hview := h.mirrored
      simp only [view, pending, hc, List.flatMap_cons, List.append_assoc] at hview
      rw [Note.applyAll_append, ← hkeys] at hview
      exact hview
    · show (KVController.handleBatchedKvOperations s.node msg).isWorkerSyncing = false
      rw [KVController.isWorkerSyncing_handle]
      exact h.notSyncing

theorem inv_step (a : Action) (h : s.Inv) (hok : s.Allowed a) : (s.step a).Inv := by
  cases a with
  | backend a => exact inv_backend h hok
  | drain => exact inv_drain h
  | deliver => exact inv_deliver h

/-! ## Runs -/

/-- **The controller's view.**  In every run whose steps are allowed, whatever the number of threads
and the interleaving, the node agrees with `hot_cache` whenever nothing is under way. -/
theorem agrees_of_allowed {s : CpuView} (h : s.Ready) {as : List Action}
    (hok : Guarded step Allowed s as) : Always step (fun s => s.Settled → s.Agrees) s as :=
  Always.mono (fun _ hs => hs.agrees) (always_of_guarded (fun _ a => inv_step a) h.inv hok)

/-! ## Two runs -/

/-- A key of the runs below: one layer of the chunk with hash `h`. -/
def layerKey (h : Int) (layerId : Nat) : CacheEngineKey :=
  ⟨"m", 1, 0, h, .float16, none, some layerId⟩

/-- A new object of the runs below, with the one reference of whoever allocated it. -/
def newObj : TensorMemoryObj :=
  .init ⟨0, 4⟩ [2] .float16 0 4 .KV_T2D [[2]] [.float16]

/-- `submit_put_task` of one thread from entry to exit, and the caller's `ref_count_down` after it. -/
def putRun (t : Nat) (key : CacheEngineKey) (memoryObj : Nat) : List Action :=
  [.backend (.allocated newObj), .backend (.begin t (.submitPutTask key memoryObj)),
    .backend (.advance t), .backend (.advance t), .backend (.advance t),
    .backend (.object memoryObj .refCountDown)]

/-- Two threads: one stores two chunks, the other removes the first of them. -/
theorem agrees_of_allowed_remove :
    Always step (fun s => s.Settled → s.Agrees) (init "i" 0 2)
      (putRun 0 (layerKey 5 0) 0 ++ putRun 0 (layerKey 7 0) 1 ++
        [.backend (.begin 1 (.remove (layerKey 5 0))), .backend (.advance 1),
          .backend (.advance 1), .drain, .backend (.advance 1), .drain, .drain, .drain, .deliver]) :=
  agrees_of_allowed (ready_init "i" 0 2) (by decide +kernel)

/-- One thread stores both layers of a chunk and then makes room by a round of `batched_allocate`. -/
def layerEviction : List Action :=
  putRun 0 (layerKey 5 0) 0 ++ putRun 0 (layerKey 5 1) 1 ++
    [.backend (.begin 0 (.batchedAllocateRound (some (layerKey 5 0)) 2)), .backend (.advance 0),
      .backend (.advance 0), .backend (.advance 0), .backend (.advance 0), .backend (.advance 0),
      .drain, .drain, .drain, .deliver]

/-- One thread removes a chunk; before it has queued the `EVICT` another one stores the chunk
again. -/
def overtakenEvict : List Action :=
  putRun 0 (layerKey 5 0) 0 ++
    [.backend (.begin 1 (.remove (layerKey 5 0))), .backend (.advance 1), .backend (.advance 1)] ++
    putRun 0 (layerKey 5 0) 1 ++
    [.backend (.advance 1), .drain, .drain, .drain, .drain, .deliver]

/-- After either run everything queued has been handled.  The first leaves the node with a chunk that
is not cached, the second leaves it without a chunk that is. -/
theorem not_agrees_of_runs :
    (Ready (init "i" 0 1) ∧
      ¬ Always step (fun s => s.Settled → s.Agrees) (init "i" 0 1) layerEviction) ∧
    (Ready (init "i" 0 2) ∧
      ¬ Always step (fun s => s.Settled → s.Agrees) (init "i" 0 2) overtakenEvict) := by
  refine ⟨⟨ready_init "i" 0 1, fun h => ?_⟩, ⟨ready_init "i" 0 2, fun h => ?_⟩⟩
  · have hlast := h.last
    revert hlast
    decide +kernel
  · have hlast := h.last
    revert hlast
    decide +kernel

end CpuView

end LMCache.Controller
