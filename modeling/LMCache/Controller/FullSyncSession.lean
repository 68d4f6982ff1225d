/-
# LMCache.Controller.FullSyncSession — is a completed full sync complete?

One full sync of a worker: the messages its sender produces, and the controller's node handling them
in whatever order and number the network makes of them.  Batches and end messages may be lost,
repeated, reordered and sent again; the start may be repeated; messages of other sessions and
incremental messages of the worker arrive in between.

When the session is marked complete every batch should have been received.  `complete_sync` does not
see to it, and a session once marked neither accepts a batch nor reports one missing, so that the
sender's resending cannot repair it.  A run keeps the promise exactly when the end message is handled
only after all batches are in.
-/
import LMCache.Lib.Run
import LMCache.Controller.FullSyncTracker

namespace LMCache.Controller

open LMCache.Lib

/-! ## The sender -/

/-- One session of a `FullSyncSender`: its id, where it syncs, the keys it has read from the cache
and the configured batch size. -/
structure FullSyncSession where
  instanceId : String
  workerId : Nat
  location : String
  syncId : String
  keys : List Int
  batchSize : Nat
  batchSize_pos : 0 < batchSize

/-- What the controller receives about a worker. -/
inductive WorkerMsg where
  | fullSyncStart (msg : FullSyncStartMsg)
  | fullSyncBatch (msg : FullSyncBatchMsg)
  | fullSyncEnd (msg : FullSyncEndMsg)
  | batchedKVOperation (msg : BatchedKVOperationMsg)
  deriving DecidableEq, Repr

namespace FullSyncSession

variable (s : FullSyncSession)

/-- `batch_count` of `_initialize_sync`: at least one batch, even without keys. -/
def batchCount : Nat := max ((s.keys.length + s.batchSize - 1) / s.batchSize) 1

/-- `keys[start_idx:end_idx]` of one batch. -/
def batchKeys (batchId : Nat) : List Int :=
  (s.keys.take (min (batchId * s.batchSize + s.batchSize) s.keys.length)).drop
    (batchId * s.batchSize)

def startMsg : FullSyncStartMsg := ⟨s.location, s.syncId, s.keys.length, s.batchCount⟩

/-- `_send_sync_batch`. -/
def batchMsg (batchId : Nat) : FullSyncBatchMsg :=
  ⟨s.instanceId, s.workerId, s.location, s.syncId, batchId, s.batchKeys batchId⟩

/-- `_send_sync_end`. -/
def endMsg : FullSyncEndMsg := ⟨s.location, s.syncId, s.keys.length⟩

/-- One turn of `_poll_for_completion`: what is sent, the new `resend_count`, and whether the loop
ends because freeze mode may be left. -/
def poll (canExitFreeze : Bool) (missingBatches : List Nat) (resendCount maxResendAttempts : Nat) :
    List WorkerMsg × Nat × Bool :=
  if canExitFreeze then ([], resendCount, true)
  else if missingBatches ≠ [] ∧ resendCount < maxResendAttempts then
    (missingBatches.map (fun i => .fullSyncBatch (s.batchMsg i)) ++ [.fullSyncEnd s.endMsg],
      resendCount + 1, false)
  else ([], resendCount, false)

/-- A message that carries the id of this session is one that its sender sends. -/
def Sends : WorkerMsg → Prop
  | .fullSyncStart msg => msg.syncId = s.syncId → msg = s.startMsg
  | .fullSyncBatch msg => msg.syncId = s.syncId → msg = s.batchMsg msg.batchId
  | .fullSyncEnd msg => msg.syncId = s.syncId → msg = s.endMsg
  | .batchedKVOperation _ => True

instance : (msg : WorkerMsg) → Decidable (s.Sends msg)
  | .fullSyncStart _ | .fullSyncBatch _ | .fullSyncEnd _ => inferInstanceAs (Decidable (_ → _))
  | .batchedKVOperation _ => .isTrue trivial

/-- The batches carry all keys of the session, and nothing else. -/
theorem mem_batchKeys (k : Int) : (∃ i < s.batchCount, k ∈ s.batchKeys i) ↔ k ∈ s.keys := by
  constructor
  · rintro ⟨i, -, hk⟩
    exact List.mem_of_mem_take (List.mem_of_mem_drop hk)
  · intro hk
    obtain ⟨j, hj, rfl⟩ := List.mem_iff_getElem.mp hk
    have hpos := s.batchSize_pos
    have hdiv : j / s.batchSize * s.batchSize ≤ j := Nat.div_mul_le_self j s.batchSize
    have hmod : j < j / s.batchSize * s.batchSize + s.batchSize := by
      have := Nat.lt_div_mul_add hpos (a := j)
      omega
    refine ⟨j / s.batchSize, ?_, ?_⟩
    · apply lt_of_lt_of_le _ (le_max_left _ _)
      rw [Nat.div_lt_iff_lt_mul hpos]
      have hceil : s.keys.length ≤
          (s.keys.length + s.batchSize - 1) / s.batchSize * s.batchSize := by
        have := Nat.lt_div_mul_add hpos (a := s.keys.length + s.batchSize - 1)
        omega
      omega
    · rw [batchKeys, List.mem_iff_getElem]
      refine ⟨j - j / s.batchSize * s.batchSize, ?_, ?_⟩
      · rw [List.length_drop, List.length_take]
        omega
      · rw [List.getElem_drop, List.getElem_take]
        congr 1
        omega

/-! ## The controller's side of a session -/

/-- The controller's node and, beside it, the hashes the worker has evicted from the location of the
session since the last start: what a completed sync may lack again later. -/
structure State where
  node : WorkerNode
  evicted : Finset Int := ∅

/-- The hashes a message evicts from a location. -/
def evictedBy (location : String) (msg : BatchedKVOperationMsg) : Finset Int :=
  if msg.location = location then
    ((msg.operations.filter fun op => op.opType = .EVICT).map KVOpEvent.key).toFinset
  else ∅

/-- The controller handles a message, of this session or not. -/
def step (r : State) (m : {m : WorkerMsg // s.Sends m}) : State :=
  match m.1 with
  | .fullSyncStart msg =>
    let (node, accepted) := KVController.handleFullSyncStart r.node msg
    ⟨node, if accepted then ∅ else r.evicted⟩
  | .fullSyncBatch msg => { r with node := KVController.handleFullSyncBatch r.node msg }
  | .fullSyncEnd msg => { r with node := KVController.handleFullSyncEnd r.node msg }
  | .batchedKVOperation msg =>
    ⟨KVController.handleBatchedKvOperations r.node msg,
      if r.node.isWorkerSyncing then r.evicted else r.evicted ∪ evictedBy s.location msg⟩

/-- What a complete session promises: every batch has been received, and its keys are known to the
controller unless the worker has evicted them since. -/
def Complete (r : State) : Prop :=
  FullSyncTracker.isComplete r.node s.syncId = true →
    ∀ info ∈ r.node.syncInfo, ∀ i < s.batchCount, i ∈ info.receivedBatches ∧
      ∀ k ∈ s.batchKeys i, k ∈ r.node.getKvKeys s.location ∨ k ∈ r.evicted

/-- The condition: the end message of the session comes when all its batches are in. -/
def Allowed (r : State) (m : {m : WorkerMsg // s.Sends m}) : Prop :=
  match m.1 with
  | .fullSyncEnd msg =>
    msg.syncId = s.syncId → ∀ info ∈ r.node.syncInfo, info.syncId = s.syncId →
      ∀ i < s.batchCount, i ∈ info.receivedBatches
  | _ => True

/-- The keys of the batches received are known, unless evicted since. -/
def Received (r : State) : Prop :=
  ∀ info ∈ r.node.syncInfo, info.syncId = s.syncId → ∀ i ∈ info.receivedBatches,
    ∀ k ∈ s.batchKeys i, k ∈ r.node.getKvKeys s.location ∨ k ∈ r.evicted

/-! ### Incremental messages -/

/-- Operations take a hash away only by evicting it. -/
theorem mem_applyAll_or_evicted {V : Set Int} {k : Int} (hk : k ∈ V) (ops : List KVOpEvent) :
    k ∈ Note.applyAll V (ops.map KVOpEvent.note) ∨ ∃ op ∈ ops, op.opType = .EVICT ∧ op.key = k := by
  induction ops generalizing V with
  | nil => exact .inl hk
  | cons op ops ih =>
    by_cases hop : op.opType = .EVICT ∧ op.key = k
    · exact .inr ⟨op, List.mem_cons_self, hop⟩
    · have hk' : k ∈ op.note.apply V := by
        unfold KVOpEvent.note
        cases ht : op.opType with
        | ADMIT => exact .inr hk
        | EVICT => exact ⟨hk, fun h => hop ⟨ht, h.symm⟩⟩
      rcases ih hk' with h | ⟨op', hmem, h⟩
      · exact .inl h
      · exact .inr ⟨op', List.mem_cons_of_mem _ hmem, h⟩

/-- A hash that is known, or excused, stays so under an incremental message. -/
theorem known_of_incremental {r : State} {k : Int} (msg : BatchedKVOperationMsg)
    (hm : s.Sends (.batchedKVOperation msg))
    (hk : k ∈ r.node.getKvKeys s.location ∨ k ∈ r.evicted) :
    k ∈ (s.step r ⟨.batchedKVOperation msg, hm⟩).node.getKvKeys s.location ∨
      k ∈ (s.step r ⟨.batchedKVOperation msg, hm⟩).evicted := by
  simp only [step]
  by_cases hsync : r.node.isWorkerSyncing = true
  · rw [if_pos hsync, KVController.handle_of_syncing msg hsync]
    exact hk
  · rw [if_neg hsync]
    rcases hk with hk | hk
    · have hkeys := KVController.getKvKeys_handle msg (Bool.not_eq_true _ ▸ hsync) s.location
      by_cases hloc : s.location = msg.location
      · rw [if_pos hloc] at hkeys
        rcases mem_applyAll_or_evicted (Finset.mem_coe.mpr hk) msg.operations with h | ⟨op, hop, h⟩
        · rw [← hkeys] at h
          exact .inl h
        · refine .inr (Finset.mem_union_right _ ?_)
          rw [evictedBy, if_pos hloc.symm]
          simp only [List.mem_toFinset, List.mem_map, List.mem_filter, decide_eq_true_eq]
          exact ⟨op, ⟨hop, h.1⟩, h.2⟩
      · rw [if_neg hloc] at hkeys
        exact .inl (by rwa [← Finset.mem_coe, hkeys])
    · exact .inr (Finset.mem_union_left _ hk)

/-! ### One message -/

theorem received_step (r : State) (m : {m : WorkerMsg // s.Sends m}) (h : s.Received r) :
    s.Received (s.step r m) := by
  obtain ⟨m, hm⟩ := m
  cases m with
  | fullSyncStart msg =>
    simp only [step]
    rcases KVController.handleFullSyncStart_cases r.node msg with ⟨hstart, -⟩ | ⟨-, hinfo, -⟩
    · rw [hstart]
      exact h
    · -- a fresh session has received nothing yet
      intro info hi _ i hin
      simp only [hinfo, Option.mem_def, Option.some.injEq] at hi
      rw [← hi] at hin
      exact absurd hin (Finset.notMem_empty i)
  | fullSyncBatch msg =>
    simp only [step]
    rcases KVController.handleFullSyncBatch_cases r.node msg with
      ⟨hbatch, -⟩ | ⟨info, hi, hid, -, hinfo, hkeys⟩
    · rw [hbatch]
      exact h
    · intro info' hi' hid' i hin k hk
      simp only [hinfo, Option.mem_def, Option.some.injEq] at hi'
      subst hi'
      -- the recorded batch is one of this session, so it carries what the session says
      have hmsg : msg = s.batchMsg msg.batchId := hm (hid.symm.trans hid')
      have hloc : s.location = msg.location := by rw [hmsg]; rfl
      have hkey : k ∈ (KVController.handleFullSyncBatch r.node msg).getKvKeys s.location ↔
          k ∈ r.node.getKvKeys s.location ∨ k ∈ msg.keys := by
        rw [← Finset.mem_coe, hkeys, if_pos hloc]
        simp
      rw [hkey]
      rcases Finset.mem_insert.mp hin with rfl | hin
      · refine .inl (.inr ?_)
        rw [hmsg]
        exact hk
      · rcases h info hi hid' i hin k hk with h1 | h1
        · exact .inl (.inl h1)
        · exact .inr h1
  | fullSyncEnd msg =>
    simp only [step]
    rcases KVController.handleFullSyncEnd_cases r.node msg with ⟨hend, -⟩ | ⟨info, hi, hid, hend⟩
    · rw [hend]
      exact h
    · rw [hend]
      intro info' hi' hid'
      cases hi'
      exact h info hi hid'
  | batchedKVOperation msg =>
    intro info hi hid i hin k hk
    refine s.known_of_incremental msg hm (h info ?_ hid i hin k hk)
    simpa only [step, KVController.syncInfo_handle] using hi

/-- A session that is `SYNCING`, or another's, promises nothing. -/
theorem complete_of_not {r : State}
    (h : ∀ info ∈ r.node.syncInfo, info.state = .SYNCING ∨ info.syncId ≠ s.syncId) :
    s.Complete r := by
  intro hc info hi
  rw [FullSyncTracker.isComplete, Option.mem_def.mp hi] at hc
  have hc' := of_decide_eq_true hc
  rcases h info hi with hs | hs
  · rw [hs] at hc'
    cases hc'.2
  · exact absurd hc'.1 hs

/-- **One message, exactly.**  A message keeps the promise if and only if it is allowed. -/
theorem complete_step_iff (r : State) (m : {m : WorkerMsg // s.Sends m}) (hr : s.Received r)
    (h : s.Complete r) : s.Complete (s.step r m) ↔ s.Allowed r m := by
  obtain ⟨m, hm⟩ := m
  cases m with
  | fullSyncStart msg =>
    refine iff_of_true ?_ trivial
    simp only [step]
    rcases KVController.handleFullSyncStart_cases r.node msg with ⟨hstart, -⟩ | ⟨-, hinfo, -⟩
    · rw [hstart]
      exact h
    · apply s.complete_of_not
      intro info hi
      simp only [hinfo, Option.mem_def, Option.some.injEq] at hi
      exact .inl (by rw [← hi])
  | fullSyncBatch msg =>
    refine iff_of_true ?_ trivial
    simp only [step]
    rcases KVController.handleFullSyncBatch_cases r.node msg with
      ⟨hbatch, -⟩ | ⟨info, -, -, hst, hinfo, -⟩
    · rw [hbatch]
      exact h
    · apply s.complete_of_not
      intro info' hi
      simp only [hinfo, Option.mem_def, Option.some.injEq] at hi
      exact .inl (by rw [← hi]; exact hst)
  | fullSyncEnd msg =>
    simp only [step]
    rcases KVController.handleFullSyncEnd_cases r.node msg with ⟨hend, hno⟩ | ⟨info, hi, hid, hend⟩
    · rw [hend]
      refine iff_of_true h ?_
      intro hmsg info hi hinfo
      exact absurd (hinfo.trans hmsg.symm) (hno info hi)
    · rw [hend]
      by_cases hours : msg.syncId = s.syncId
      · have hcomplete : FullSyncTracker.isComplete
            { r.node with syncInfo := some { info with state := .COMPLETED } } s.syncId = true := by
          simp [FullSyncTracker.isComplete, hid, hours]
        constructor
        · intro hc _ info' hi' _ i hin
          have hii : info' = info := Option.some.inj (hi'.symm.trans hi)
          rw [hii]
          exact (hc hcomplete _ rfl i hin).1
        · intro hall _ info' hi' i hin
          cases hi'
          have hrec := hall hours info hi (hid.trans hours) i hin
          exact ⟨hrec, hr info hi (hid.trans hours) i hrec⟩
      · refine iff_of_true ?_ fun h' => absurd h' hours
        apply s.complete_of_not
        intro info' hi'
        cases hi'
        exact .inr fun h' => hours (hid.symm.trans h')
  | batchedKVOperation msg =>
    refine iff_of_true ?_ trivial
    intro hc info hi i hin
    have hc' : FullSyncTracker.isComplete r.node s.syncId = true := by
      simpa only [step, FullSyncTracker.isComplete, KVController.syncInfo_handle] using hc
    have hi' : info ∈ r.node.syncInfo := by
      simpa only [step, KVController.syncInfo_handle] using hi
    obtain ⟨h1, h2⟩ := h hc' info hi' i hin
    exact ⟨h1, fun k hk => s.known_of_incremental msg hm (h2 k hk)⟩

/-! ## Runs -/

/-- **Completeness of a full sync, exactly.**  Let a node know nothing of the session yet.  Whatever
messages it then handles, a session it reports complete is complete all along the run if and only if
no end message of the session is handled before all its batches. -/
theorem complete_iff_allowed {node : WorkerNode}
    (hnode : ∀ info ∈ node.syncInfo, info.syncId ≠ s.syncId)
    (ms : List {m : WorkerMsg // s.Sends m}) :
    Always s.step s.Complete ⟨node, ∅⟩ ms ↔ Guarded s.step s.Allowed ⟨node, ∅⟩ ms :=
  always_iff_guarded_of_inv s.received_step s.complete_step_iff
    (fun info hi hid => absurd hid (hnode info hi))
    (s.complete_of_not fun info hi => .inr (hnode info hi))

/-- A session of three keys in two batches. -/
def twoBatches : FullSyncSession := ⟨"i", 0, "LocalCPUBackend", "i_0_1", [5, 7, 9], 2, Nat.two_pos⟩

/-- The batches of `twoBatches` in the wrong order and one of them twice, then the end. -/
theorem complete_iff_allowed_reordered :
    Always twoBatches.step twoBatches.Complete ⟨{}, ∅⟩
        [⟨.fullSyncStart twoBatches.startMsg, by decide⟩,
          ⟨.fullSyncBatch (twoBatches.batchMsg 1), by decide⟩,
          ⟨.fullSyncBatch (twoBatches.batchMsg 1), by decide⟩,
          ⟨.fullSyncBatch (twoBatches.batchMsg 0), by decide⟩,
          ⟨.fullSyncEnd twoBatches.endMsg, by decide⟩] ↔
      Guarded twoBatches.step twoBatches.Allowed ⟨{}, ∅⟩
        [⟨.fullSyncStart twoBatches.startMsg, by decide⟩,
          ⟨.fullSyncBatch (twoBatches.batchMsg 1), by decide⟩,
          ⟨.fullSyncBatch (twoBatches.batchMsg 1), by decide⟩,
          ⟨.fullSyncBatch (twoBatches.batchMsg 0), by decide⟩,
          ⟨.fullSyncEnd twoBatches.endMsg, by decide⟩] :=
  twoBatches.complete_iff_allowed (fun info hi => by cases hi) _

/-- Batch 1 is lost and the end message is not: the session is complete without it, and reports
nothing that the sender could send again. -/
theorem lost_batch_completes :
    ¬ Always twoBatches.step twoBatches.Complete ⟨{}, ∅⟩
      [⟨.fullSyncStart twoBatches.startMsg, by decide⟩,
        ⟨.fullSyncBatch (twoBatches.batchMsg 0), by decide⟩,
        ⟨.fullSyncEnd twoBatches.endMsg, by decide⟩] := by
  intro h
  have hin := h.last (by decide) _ rfl 1 (by decide)
  exact absurd hin.1 (by decide)

end FullSyncSession

end LMCache.Controller
