/-
# LMCache.Controller.BatchAccounting — what a session knows of the batches it has received.

Source: `v1/cache_controller/controllers/full_sync_tracker.py`: `start_sync`, `receive_batch`,
`complete_sync`, `mark_failed` and `get_missing_batches`.

A session keeps a set of batch ids and a running sum of key counts.  Recording a batch twice leaves
the set alone and adds to the sum; a sender resends batches that are merely late.  A start with the
id of the session is let through, since the answer to the first may have been lost, and puts a fresh
record in its place: the ids received in between are gone.

`TrackedSession` carries, beside the node, the batches that were recorded under the current sync id.
-/
import LMCache.Lib.Run
import LMCache.Controller.FullSyncTracker

namespace LMCache.Controller

open LMCache.Lib

namespace FullSyncTracker

/-- `mark_failed`. -/
def markFailed (w : WorkerNode) : WorkerNode :=
  { w with syncInfo := w.syncInfo.map fun info => { info with state := .FAILED } }

variable (w : WorkerNode)

/-- A start is refused, or a fresh record is there. -/
theorem startSync_cases (syncId : String) (totalKeys batchCount : Nat) :
    startSync w syncId totalKeys batchCount = (w, false) ∨
    startSync w syncId totalKeys batchCount =
      ({ w with syncInfo := some ⟨syncId, .SYNCING, totalKeys, batchCount, ∅, 0⟩ }, true) := by
  unfold startSync
  cases w.syncInfo with
  | none => exact .inr rfl
  | some info =>
    dsimp only
    split
    · exact .inl rfl
    · exact .inr rfl

/-- A batch is dropped, or recorded in the session it names. -/
theorem receiveBatch_cases (syncId : String) (batchId keysCount : Nat) :
    receiveBatch w syncId batchId keysCount = (w, false) ∨
    ∃ info, w.syncInfo = some info ∧ info.syncId = syncId ∧ info.state = .SYNCING ∧
      receiveBatch w syncId batchId keysCount =
        ({ w with
            syncInfo := some { info with
              receivedBatches := insert batchId info.receivedBatches
              receivedKeysCount := info.receivedKeysCount + keysCount } }, true) := by
  unfold receiveBatch
  cases w.syncInfo with
  | none => exact .inl rfl
  | some info =>
    by_cases hid : info.syncId ≠ syncId
    · exact .inl (if_pos hid)
    · by_cases hstate : info.state ≠ .SYNCING
      · exact .inl ((if_neg hid).trans (if_pos hstate))
      · exact .inr ⟨info, rfl, not_not.mp hid, not_not.mp hstate,
          (if_neg hid).trans (if_neg hstate)⟩

/-- A completion is refused, or only the state of the session changes. -/
theorem completeSync_cases (syncId : String) (actualTotalKeys : Nat) :
    (completeSync w syncId actualTotalKeys).1 = w ∨
    ∃ info, w.syncInfo = some info ∧ (completeSync w syncId actualTotalKeys).1 =
      { w with syncInfo := some { info with state := .COMPLETED } } := by
  unfold completeSync
  cases w.syncInfo with
  | none => exact .inl rfl
  | some info =>
    dsimp only
    split
    · exact .inl rfl
    · exact .inr ⟨info, rfl, rfl⟩

end FullSyncTracker

/-! ## A session and its batches -/

/-- The sum of the key counts of the distinct batches, each counted when it first came; the newest
is the first of the list. -/
def distinctKeys : List (Nat × Nat) → Nat
  | [] => 0
  | (batchId, keysCount) :: earlier =>
    distinctKeys earlier + if batchId ∈ earlier.map Prod.fst then 0 else keysCount

structure TrackedSession where
  node : WorkerNode
  /-- The batches recorded under the current sync id, the newest first: id and key count. -/
  received : List (Nat × Nat)

inductive TrackerCall where
  | startSync (syncId : String) (totalKeys batchCount : Nat)
  | receiveBatch (syncId : String) (batchId keysCount : Nat)
  | completeSync (syncId : String) (actualTotalKeys : Nat)
  | markFailed
  deriving DecidableEq, Repr

namespace TrackedSession

/-- A registered worker has no session. -/
def registered (w : WorkerNode) : TrackedSession := ⟨{ w with syncInfo := none }, []⟩

def currentId (s : TrackedSession) : Option String := s.node.syncInfo.map WorkerSyncInfo.syncId

/-- The ids of the batches recorded. -/
def receivedIds (s : TrackedSession) : List Nat := s.received.map Prod.fst

def step (s : TrackedSession) : TrackerCall → TrackedSession
  | .startSync syncId totalKeys batchCount =>
    let (node, started) := FullSyncTracker.startSync s.node syncId totalKeys batchCount
    -- a start under another id opens another session
    ⟨node, if started ∧ s.currentId ≠ some syncId then [] else s.received⟩
  | .receiveBatch syncId batchId keysCount =>
    let (node, recorded) := FullSyncTracker.receiveBatch s.node syncId batchId keysCount
    ⟨node, if recorded then (batchId, keysCount) :: s.received else s.received⟩
  | .completeSync syncId actualTotalKeys =>
    ⟨(FullSyncTracker.completeSync s.node syncId actualTotalKeys).1, s.received⟩
  | .markFailed => ⟨FullSyncTracker.markFailed s.node, s.received⟩

/-- **The session accounts for its batches**: it counts the keys of the distinct batches, has lost
none of the batches, and while it is `SYNCING` it reports as missing exactly the expected ids that
have not come. -/
structure Accounts (s : TrackedSession) : Prop where
  keysCount : ∀ info ∈ s.node.syncInfo, info.receivedKeysCount = distinctKeys s.received
  batches : ∀ info ∈ s.node.syncInfo, ∀ batchId,
    batchId ∈ info.receivedBatches ↔ batchId ∈ s.receivedIds
  missing : ∀ info ∈ s.node.syncInfo, info.state = .SYNCING →
    FullSyncTracker.getMissingBatches s.node info.syncId =
      (List.range info.expectedBatchCount).filter fun batchId => batchId ∉ s.receivedIds

/-- The condition on a call: a batch that is recorded again carries no keys, and a start under the
id of the session is only accepted before its first batch. -/
def Fresh (s : TrackedSession) : TrackerCall → Prop
  | .startSync syncId totalKeys batchCount =>
    (FullSyncTracker.startSync s.node syncId totalKeys batchCount).2 = true →
      s.currentId = some syncId → s.received = []
  | .receiveBatch syncId batchId keysCount =>
    (FullSyncTracker.receiveBatch s.node syncId batchId keysCount).2 = true →
      batchId ∈ s.receivedIds → keysCount = 0
  | .completeSync _ _ | .markFailed => True

instance (s : TrackedSession) : (call : TrackerCall) → Decidable (s.Fresh call)
  | .startSync _ _ _ | .receiveBatch _ _ _ => inferInstanceAs (Decidable (_ → _ → _))
  | .completeSync _ _ | .markFailed => .isTrue trivial

/-! ## One call -/

/-- The list of missing batches follows from the set of received ones. -/
theorem accounts_iff (s : TrackedSession) :
    s.Accounts ↔ ∀ info ∈ s.node.syncInfo, info.receivedKeysCount = distinctKeys s.received ∧
      ∀ batchId, batchId ∈ info.receivedBatches ↔ batchId ∈ s.receivedIds := by
  constructor
  · exact fun h info hinfo => ⟨h.keysCount info hinfo, h.batches info hinfo⟩
  · intro h
    refine ⟨fun info hinfo => (h info hinfo).1, fun info hinfo => (h info hinfo).2, ?_⟩
    intro info hinfo hsyncing
    unfold FullSyncTracker.getMissingBatches
    rw [Option.mem_def.mp hinfo]
    simp only [ne_eq, not_true_eq_false, if_false, hsyncing]
    refine List.filter_congr fun batchId _ => ?_
    simp only [(h info hinfo).2 batchId]

/-- A session with the record `info` accounts for its batches. -/
theorem accounts_of_syncInfo {s : TrackedSession} {info : WorkerSyncInfo}
    (hinfo : s.node.syncInfo = some info) :
    s.Accounts ↔ info.receivedKeysCount = distinctKeys s.received ∧
      ∀ batchId, batchId ∈ info.receivedBatches ↔ batchId ∈ s.receivedIds := by
  rw [accounts_iff, hinfo]
  simp

/-- **One call keeps the accounts exactly when it meets the condition.** -/
theorem accounts_step_iff (s : TrackedSession) (call : TrackerCall) (h : s.Accounts) :
    (s.step call).Accounts ↔ s.Fresh call := by
  cases call with
  | startSync syncId totalKeys batchCount =>
    unfold step Fresh
    rcases FullSyncTracker.startSync_cases s.node syncId totalKeys batchCount with hs | hs
    · simpa [hs] using h
    · simp only [hs, true_and, forall_const]
      rw [accounts_of_syncInfo rfl]
      by_cases hid : s.currentId = some syncId
      · simp only [hid, ne_eq, not_true_eq_false, if_false, forall_const]
        constructor
        · rintro ⟨-, hids⟩
          -- the fresh record holds no id, so there was none to lose
          apply List.map_eq_nil_iff.mp
          apply List.eq_nil_iff_forall_not_mem.mpr
          intro batchId hmem
          simpa using (hids batchId).mpr hmem
        · intro hnil
          simp [hnil, distinctKeys, receivedIds]
      · simp [hid, distinctKeys, receivedIds]
  | receiveBatch syncId batchId keysCount =>
    unfold step Fresh
    rcases FullSyncTracker.receiveBatch_cases s.node syncId batchId keysCount with
      hr | ⟨info, hinfo, -, -, hr⟩
    · simpa [hr] using h
    · obtain ⟨hkeys, hids⟩ := (accounts_of_syncInfo hinfo).mp h
      simp only [hr, if_true, forall_const]
      rw [accounts_of_syncInfo rfl]
      have hinsert : ∀ i, i ∈ insert batchId info.receivedBatches ↔
          i ∈ ((batchId, keysCount) :: s.received).map Prod.fst := by
        intro i
        rw [Finset.mem_insert, List.map_cons, List.mem_cons, hids i]
        rfl
      refine (and_iff_left hinsert).trans ?_
      show info.receivedKeysCount + keysCount =
        distinctKeys s.received + (if batchId ∈ s.receivedIds then 0 else keysCount) ↔ _
      rw [hkeys]
      by_cases hmem : batchId ∈ s.receivedIds
      · simp [hmem]
      · simp [hmem]
  | completeSync syncId actualTotalKeys =>
    refine iff_of_true ?_ trivial
    show Accounts ⟨(FullSyncTracker.completeSync s.node syncId actualTotalKeys).1, s.received⟩
    rcases FullSyncTracker.completeSync_cases s.node syncId actualTotalKeys with
      hc | ⟨info, hinfo, hc⟩
    · rw [hc]
      exact h
    · rw [hc, accounts_of_syncInfo rfl]
      exact (accounts_of_syncInfo hinfo).mp h
  | markFailed =>
    refine iff_of_true ?_ trivial
    rw [accounts_iff] at h ⊢
    intro info hinfo
    obtain ⟨info', hinfo', rfl⟩ := Option.map_eq_some_iff.mp hinfo
    exact h info' hinfo'

/-! ## Every run -/

theorem accounts_registered (w : WorkerNode) : (registered w).Accounts :=
  (accounts_iff _).mpr fun _ hinfo => nomatch hinfo

/-- **A session accounts for its batches throughout a run if and only if every call meets the
condition.** -/
theorem always_accounts_iff (w : WorkerNode) (calls : List TrackerCall) :
    Always step Accounts (registered w) calls ↔ Guarded step Fresh (registered w) calls :=
  always_iff_guarded accounts_step_iff (accounts_registered w)

/-- A session of one batch, which is resent once. -/
def resentBatch : List TrackerCall :=
  [.startSync "session" 3 1, .receiveBatch "session" 0 3, .receiveBatch "session" 0 3]

/-- A session whose start is repeated after its first batch. -/
def repeatedStart : List TrackerCall :=
  [.startSync "session" 5 2, .receiveBatch "session" 0 3, .startSync "session" 5 2]

/-- It can fail: a batch that is resent counts twice, and a repeated start loses the batch that has
come, so that it is reported missing. -/
theorem not_always_accounts :
    ¬ Always step Accounts (registered {}) resentBatch ∧
    ¬ Always step Accounts (registered {}) repeatedStart := by
  constructor
  · intro h
    have hkeys := h.last.keysCount ⟨"session", .SYNCING, 3, 1, {0}, 6⟩ (by decide +kernel)
    revert hkeys
    decide +kernel
  · intro h
    have hmissing := h.last.missing ⟨"session", .SYNCING, 5, 2, ∅, 0⟩ (by decide +kernel) rfl
    revert hmissing
    decide +kernel

end TrackedSession

end LMCache.Controller
