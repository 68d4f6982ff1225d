/-
# LMCache.Controller.FreezeExit — when a restarted controller stops asking for full syncs.

Source: `v1/cache_controller/controllers/full_sync_tracker.py` (`should_request_full_sync`,
`get_global_progress`, `can_exit_freeze`, `get_sync_status`), `heartbeat` in
`registration_controller.py`, `get_all_worker_nodes_cached` in `v1/cache_controller/utils.py`, and
`TTLListCache` in `v1/utils/cache_utils.py`.

A controller that starts knows no keys, and tells every worker at its heartbeat to send all of its
own.  The flag for this is cleared by a status query, of any worker, that finds the share of ready
workers at the threshold.  Ready are the workers that have completed a sync, and also those without
sync information, which are the ones that have not begun.  The share is taken over a list of worker
nodes that may be half a minute old: a node that is no longer registered still counts, and one that
has been registered since does not.

The list holds references, so the nodes are objects with a number; what is in the list shows the
present sync information of the node.  `completed` and `cleared` are there for the statements: the
workers of which a full sync has been completed since the start, and what was the case when the flag
was cleared.
-/
import LMCache.Lib.Run
import LMCache.Controller.FullSyncTracker

namespace LMCache.Controller

open LMCache.Lib

/-- The ids of a worker: of its instance, and its own. -/
abbrev WorkerKey := String × Nat

/-- A `WorkerNode` object, and the worker it was registered for. -/
structure WorkerObject where
  key : WorkerKey
  node : WorkerNode

/-- What was the case when the flag was cleared: the registered workers, those counted as ready, and
those of which a full sync had been completed. -/
structure FlagCleared where
  registered : List WorkerKey
  counted : List WorkerKey
  completed : List WorkerKey
  deriving DecidableEq, Repr

structure FreezeController where
  completionThreshold : ℚ
  objects : List WorkerObject
  workers : Dict WorkerKey Nat
  /-- The list of `_worker_node_cache`. -/
  cache : List Nat
  cacheTime : ℚ
  needFullSyncAll : Bool
  completed : List WorkerKey
  cleared : Option FlagCleared

inductive FreezeEvent where
  | register (key : WorkerKey)
  | deregister (key : WorkerKey)
  | heartbeat (key : WorkerKey)
  | fullSyncStart (key : WorkerKey) (msg : FullSyncStartMsg)
  | fullSyncBatch (key : WorkerKey) (msg : FullSyncBatchMsg)
  | fullSyncEnd (key : WorkerKey) (msg : FullSyncEndMsg)
  /-- A metric reads the cached list. -/
  | readWorkers (now : ℚ)
  | syncStatus (key : WorkerKey) (syncId : String) (now : ℚ)

/-- The sync of a node is marked as completed. -/
def WorkerNode.Completed (w : WorkerNode) : Prop :=
  ∃ info ∈ w.syncInfo, info.state = .COMPLETED

namespace FreezeController

/-! ## The controller -/

/-- A controller that has just started. -/
def init (completionThreshold : ℚ) : FreezeController :=
  ⟨completionThreshold, [], .empty, [], 0, true, [], none⟩

/-- `get_worker`. -/
def getWorker (s : FreezeController) (key : WorkerKey) : Option WorkerNode :=
  (s.workers.get? key).bind fun i => s.objects[i]?.map WorkerObject.node

def modifyWorker (s : FreezeController) (key : WorkerKey) (f : WorkerNode → WorkerNode) :
    FreezeController :=
  match s.workers.get? key with
  | none => s
  | some i => { s with objects := s.objects.modify i fun obj => { obj with node := f obj.node } }

/-- `register`: a worker that is registered keeps its node, without its keys. -/
def register (s : FreezeController) (key : WorkerKey) : FreezeController :=
  if key ∈ s.workers then
    s.modifyWorker key fun w => { w with kvStore := .empty, seqTracker := .empty }
  else
    { s with
      objects := s.objects ++ [⟨key, {}⟩]
      workers := s.workers.set key s.objects.length }

/-- `should_request_full_sync`: the reason for one. -/
def shouldRequestFullSync (s : FreezeController) (key : WorkerKey) : Option String :=
  let syncInfo := (s.getWorker key).bind WorkerNode.syncInfo
  let state := syncInfo.map WorkerSyncInfo.state
  if s.needFullSyncAll ∧ state ≠ some .SYNCING ∧ state ≠ some .COMPLETED then
    some "controller_restart"
  else if state = some .FAILED then some "sync_failed_retry"
  else none

/-- `heartbeat`: the reasons of the full syncs the worker is told to make. -/
def heartbeat (s : FreezeController) (key : WorkerKey) : List String × FreezeController :=
  if key ∈ s.workers then ((s.shouldRequestFullSync key).toList, s)
  else (["worker_re_registered"], s.register key)

/-- The default timeout of a `TTLListCache`, in seconds. -/
def timeoutSeconds : ℚ := 30

/-- `is_expired`. -/
def isExpired (s : FreezeController) (now : ℚ) : Bool :=
  s.cacheTime = 0 ∨ timeoutSeconds ≤ now - s.cacheTime

/-- `get_all_worker_nodes_cached`: the state after it; the list is the cache. -/
def readCached (s : FreezeController) (now : ℚ) : FreezeController :=
  if s.isExpired now then { s with cache := s.workers.values, cacheTime := now } else s

/-- The nodes of the cached list. -/
def cachedObjects (s : FreezeController) : List WorkerObject :=
  s.cache.filterMap fun i => s.objects[i]?

/-- `get_global_progress`, of the cached list. -/
def globalProgress (s : FreezeController) : ℚ :=
  FullSyncTracker.getGlobalProgress (s.cachedObjects.map WorkerObject.node)

/-- What `get_global_progress` counts. -/
def countsAsReady (w : WorkerNode) : Bool :=
  match w.syncInfo with
  | none => true
  | some info => info.state = .COMPLETED

/-- `can_exit_freeze`. -/
def canExitFreeze (s : FreezeController) : Bool × FreezeController :=
  let canExit : Bool := s.completionThreshold ≤ s.globalProgress
  (canExit,
    if canExit && s.needFullSyncAll then
      { s with
        needFullSyncAll := false
        cleared := some ⟨s.workers.keys,
          (s.cachedObjects.filter fun obj => countsAsReady obj.node).map WorkerObject.key,
          s.completed⟩ }
    else s)

/-- `get_sync_status`: complete, global progress, may leave freeze mode, missing batches. -/
def getSyncStatus (s : FreezeController) (key : WorkerKey) (syncId : String) (now : ℚ) :
    (Bool × ℚ × Bool × List Nat) × FreezeController :=
  let isComplete := ((s.getWorker key).map (FullSyncTracker.isComplete · syncId)).getD false
  let missingBatches :=
    ((s.getWorker key).map (FullSyncTracker.getMissingBatches · syncId)).getD []
  let s := s.readCached now
  ((isComplete, s.globalProgress, s.canExitFreeze.1, missingBatches), s.canExitFreeze.2)

/-- `complete_sync` finds the session that the message names. -/
def completes (s : FreezeController) (key : WorkerKey) (msg : FullSyncEndMsg) : Bool :=
  ((s.getWorker key).map fun w =>
    (FullSyncTracker.completeSync w msg.syncId msg.actualTotalKeys).2.1).getD false

def step (s : FreezeController) : FreezeEvent → FreezeController
  | .register key => s.register key
  | .deregister key => { s with workers := s.workers.erase key }
  | .heartbeat key => (s.heartbeat key).2
  | .fullSyncStart key msg =>
    s.modifyWorker key fun w => (KVController.handleFullSyncStart w msg).1
  | .fullSyncBatch key msg => s.modifyWorker key fun w => KVController.handleFullSyncBatch w msg
  | .fullSyncEnd key msg =>
    { s.modifyWorker key (fun w => KVController.handleFullSyncEnd w msg) with
      completed := if s.completes key msg then key :: s.completed else s.completed }
  | .readWorkers now => s.readCached now
  | .syncStatus key syncId now => (s.getSyncStatus key syncId now).2

/-! ## What is claimed, and when -/

/-- **The flag goes only after real syncs**: when it was cleared, the threshold of the registered
workers had completed a full sync, and no worker was counted that had not; and while it is set, a
worker without a session is told to sync at its heartbeat. -/
structure ExitsAfterSyncs (s : FreezeController) : Prop where
  reached : ∀ c ∈ s.cleared,
    s.completionThreshold * c.registered.length ≤ c.registered.countP (· ∈ c.completed)
  counted : ∀ c ∈ s.cleared, ∀ key ∈ c.counted, key ∈ c.completed
  told : s.needFullSyncAll = true → ∀ key, (∀ w ∈ s.getWorker key, w.syncInfo = none) →
    (s.heartbeat key).1 ≠ []

/-- The condition on an event: a status query that clears the flag reads a list that has the
registered workers, each of them with sync information. -/
def ReadsSynced (s : FreezeController) : FreezeEvent → Prop
  | .syncStatus _ _ now =>
    let s := s.readCached now
    s.needFullSyncAll = true → s.completionThreshold ≤ s.globalProgress →
      s.cache.Perm s.workers.values ∧ ∀ obj ∈ s.cachedObjects, obj.node.syncInfo ≠ none
  | _ => True

instance (s : FreezeController) : (event : FreezeEvent) → Decidable (s.ReadsSynced event)
  | .syncStatus _ _ _ => inferInstanceAs (Decidable (_ → _ → _ ∧ ∀ obj ∈ (_ : List _), _ ≠ _))
  | .register _ | .deregister _ | .heartbeat _ | .fullSyncStart _ _ | .fullSyncBatch _ _
  | .fullSyncEnd _ _ | .readWorkers _ => .isTrue trivial

/-! ## Nodes and registrations -/

/-- Every registration has its node, and a node that is marked as completed is of a worker that has
completed a sync. -/
structure Wf (s : FreezeController) : Prop where
  registered : ∀ key i, s.workers.get? key = some i →
    ∃ obj, s.objects[i]? = some obj ∧ obj.key = key
  completed : ∀ obj ∈ s.objects, obj.node.Completed → obj.key ∈ s.completed

theorem wf_init (completionThreshold : ℚ) : (init completionThreshold).Wf where
  registered := fun _ _ h => nomatch h
  completed := fun _ h => nomatch h

/-- Only the node of the worker changes. -/
theorem getElem?_objects_modifyWorker (s : FreezeController) (key : WorkerKey)
    (f : WorkerNode → WorkerNode) (j : Nat) :
    (s.modifyWorker key f).objects[j]? = s.objects[j]?.map fun obj =>
      if s.workers.get? key = some j then { obj with node := f obj.node } else obj := by
  unfold modifyWorker
  cases hget : s.workers.get? key with
  | none => simp
  | some i =>
    show (s.objects.modify i _)[j]? = _
    rw [List.getElem?_modify]
    simp only [Option.some.injEq]
    rfl

@[simp] theorem workers_modifyWorker (s : FreezeController) (key : WorkerKey)
    (f : WorkerNode → WorkerNode) : (s.modifyWorker key f).workers = s.workers := by
  unfold modifyWorker
  split <;> rfl

variable {s : FreezeController} {w : WorkerNode}

/-- A change of one node keeps the invariant if completion is noted where it comes about. -/
theorem wf_modifyWorker (h : s.Wf) (key : WorkerKey) (f : WorkerNode → WorkerNode)
    (completed : List WorkerKey) (hmore : ∀ k ∈ s.completed, k ∈ completed)
    (hf : ∀ w, s.getWorker key = some w → (f w).Completed → w.Completed ∨ key ∈ completed) :
    ({ s.modifyWorker key f with completed := completed } : FreezeController).Wf := by
  constructor
  · intro k j hj
    have hj : (s.modifyWorker key f).workers.get? k = some j := hj
    rw [workers_modifyWorker] at hj
    obtain ⟨obj, hobj, hkey⟩ := h.registered k j hj
    refine ⟨if s.workers.get? key = some j then { obj with node := f obj.node } else obj, ?_, ?_⟩
    · exact (getElem?_objects_modifyWorker s key f j).trans (by rw [hobj, Option.map_some])
    · split
      · exact hkey
      · exact hkey
  · intro obj hobj hdone
    obtain ⟨j, hj⟩ := List.mem_iff_getElem?.mp hobj
    have hj := (getElem?_objects_modifyWorker s key f j).symm.trans hj
    obtain ⟨old, hold, rfl⟩ := Option.map_eq_some_iff.mp hj
    have hmem := List.mem_of_getElem? hold
    by_cases hget : s.workers.get? key = some j
    · -- the node that was changed
      rw [if_pos hget] at hdone ⊢
      obtain ⟨old', hold', hkey⟩ := h.registered key j hget
      cases hold.symm.trans hold'
      have hworker : s.getWorker key = some old.node := by
        unfold getWorker
        rw [hget, Option.bind_some, hold]
        rfl
      rcases hf old.node hworker hdone with hbefore | hnew
      · exact hmore _ (h.completed old hmem hbefore)
      · exact hkey ▸ hnew
    · rw [if_neg hget] at hdone ⊢
      exact hmore _ (h.completed old hmem hdone)

/-- A change that completes nothing keeps the invariant. -/
theorem wf_modifyWorker_of_keeps (h : s.Wf) (key : WorkerKey) {f : WorkerNode → WorkerNode}
    (hf : ∀ w, (f w).Completed → w.Completed) : (s.modifyWorker key f).Wf := by
  have hsame : ({ s.modifyWorker key f with completed := s.completed } : FreezeController) =
      s.modifyWorker key f := by
    unfold modifyWorker
    split <;> rfl
  rw [← hsame]
  exact wf_modifyWorker h key f s.completed (fun _ hk => hk) fun w _ hdone => .inl (hf w hdone)

theorem wf_register (h : s.Wf) (key : WorkerKey) : (s.register key).Wf := by
  unfold register
  split
  · -- the keys of the node go, its sync information stays
    exact wf_modifyWorker_of_keeps h key fun _ hdone => hdone
  · constructor
    · intro k i hi
      have hi : (s.workers.set key s.objects.length).get? k = some i := hi
      rw [Dict.get?_set] at hi
      by_cases hk : k = key
      · rw [if_pos hk, Option.some.injEq] at hi
        subst hi hk
        exact ⟨⟨k, {}⟩, List.getElem?_concat_length, rfl⟩
      · rw [if_neg hk] at hi
        obtain ⟨obj, hobj, hkey⟩ := h.registered k i hi
        exact ⟨obj, (List.getElem?_append_left (List.getElem?_eq_some_iff.mp hobj).1).trans hobj,
          hkey⟩
    · intro obj hobj hdone
      rcases List.mem_append.mp hobj with hold | hnew
      · exact h.completed obj hold hdone
      · -- a new node has no session
        rw [List.mem_singleton] at hnew
        subst hnew
        obtain ⟨info, hinfo, -⟩ := hdone
        cases hinfo

theorem completed_handleFullSyncStart {msg : FullSyncStartMsg}
    (h : (KVController.handleFullSyncStart w msg).1.Completed) : w.Completed := by
  rcases KVController.handleFullSyncStart_cases w msg with ⟨hs, -⟩ | ⟨-, hinfo, -⟩
  · rwa [hs] at h
  · obtain ⟨info, hmem, hstate⟩ := h
    rw [hinfo] at hmem
    cases hmem
    cases hstate

theorem completed_handleFullSyncBatch {msg : FullSyncBatchMsg}
    (h : (KVController.handleFullSyncBatch w msg).Completed) : w.Completed := by
  rcases KVController.handleFullSyncBatch_cases w msg with ⟨hb, -⟩ | ⟨info, -, -, hst, hinfo, -⟩
  · rwa [hb] at h
  · obtain ⟨info', hmem, hstate⟩ := h
    rw [hinfo] at hmem
    cases hmem
    exact absurd (hst.symm.trans hstate) (by simp)

/-- An end message that completes a node is one that `complete_sync` finds the session of. -/
theorem completed_handleFullSyncEnd {key : WorkerKey} {msg : FullSyncEndMsg}
    (hw : s.getWorker key = some w) (h : (KVController.handleFullSyncEnd w msg).Completed) :
    w.Completed ∨ s.completes key msg = true := by
  rcases KVController.handleFullSyncEnd_cases w msg with ⟨he, -⟩ | ⟨info, hinfo, hid, -⟩
  · rw [he] at h
    exact .inl h
  · refine .inr ?_
    unfold completes
    rw [hw]
    simp [FullSyncTracker.completeSync, hinfo, hid]

theorem wf_readCached (h : s.Wf) (now : ℚ) : (s.readCached now).Wf := by
  unfold readCached
  split
  · exact ⟨h.registered, h.completed⟩
  · exact h

/-- **Every event keeps the invariant.** -/
theorem wf_step (h : s.Wf) (event : FreezeEvent) : (s.step event).Wf := by
  cases event with
  | register key => exact wf_register h key
  | deregister key =>
    refine ⟨fun k i hi => ?_, h.completed⟩
    have hi : (s.workers.erase key).get? k = some i := hi
    rw [Dict.get?_erase] at hi
    split at hi
    · cases hi
    · exact h.registered k i hi
  | heartbeat key =>
    show (s.heartbeat key).2.Wf
    unfold heartbeat
    split
    · exact h
    · exact wf_register h key
  | fullSyncStart key msg =>
    exact wf_modifyWorker_of_keeps h key fun _ hdone => completed_handleFullSyncStart hdone
  | fullSyncBatch key msg =>
    exact wf_modifyWorker_of_keeps h key fun _ hdone => completed_handleFullSyncBatch hdone
  | fullSyncEnd key msg =>
    apply wf_modifyWorker h key
    · intro k hk
      split
      · exact List.mem_cons_of_mem _ hk
      · exact hk
    · intro w hw hdone
      rcases completed_handleFullSyncEnd hw hdone with hbefore | hnow
      · exact .inl hbefore
      · rw [if_pos hnow]
        exact .inr List.mem_cons_self
  | readWorkers now => exact wf_readCached h now
  | syncStatus key syncId now =>
    have hread := wf_readCached h now
    show (s.readCached now).canExitFreeze.2.Wf
    unfold canExitFreeze
    dsimp only
    split
    · exact ⟨hread.registered, hread.completed⟩
    · exact hread

/-! ## The share of ready workers -/

/-- A share of at least `t` is at least `t` times as many as there are. -/
theorem mul_length_le_countP {t : ℚ} {workers : List WorkerNode}
    (h : t ≤ FullSyncTracker.getGlobalProgress workers) :
    t * workers.length ≤ workers.countP countsAsReady := by
  unfold FullSyncTracker.getGlobalProgress at h
  by_cases hnil : workers = []
  · simp [hnil]
  · rw [if_neg hnil, le_div_iff₀ (by exact_mod_cast List.length_pos_iff.mpr hnil)] at h
    exact h

theorem map_key_filterMap (objects : List WorkerObject) (entries : List (WorkerKey × Nat))
    (h : ∀ e ∈ entries, ∃ obj, objects[e.2]? = some obj ∧ obj.key = e.1) :
    ((entries.map Prod.snd).filterMap fun i => objects[i]?).map WorkerObject.key =
      entries.map Prod.fst := by
  induction entries with
  | nil => rfl
  | cons e entries ih =>
    rw [List.forall_mem_cons] at h
    obtain ⟨⟨obj, hobj, hkey⟩, hrest⟩ := h
    rw [List.map_cons, List.filterMap_cons, hobj, List.map_cons, List.map_cons, ih hrest, hkey]

/-- A cached list that has the registered workers has a node of each. -/
theorem map_key_cachedObjects (h : s.Wf) (hperm : s.cache.Perm s.workers.values) :
    (s.cachedObjects.map WorkerObject.key).Perm s.workers.keys := by
  have hvalues := map_key_filterMap s.objects s.workers.entries fun e he =>
    h.registered e.1 e.2 (Dict.get?_eq_some.mpr he)
  show (s.cachedObjects.map WorkerObject.key).Perm (s.workers.entries.map Prod.fst)
  rw [← hvalues]
  exact (hperm.filterMap _).map _

/-- Of nodes with sync information only the completed ones count as ready. -/
theorem completed_of_countsAsReady (hready : countsAsReady w = true) (hsync : w.syncInfo ≠ none) :
    w.Completed := by
  unfold countsAsReady at hready
  cases hinfo : w.syncInfo with
  | none => exact absurd hinfo hsync
  | some info =>
    rw [hinfo] at hready
    exact ⟨info, hinfo, of_decide_eq_true hready⟩

/-- **A progress at the threshold, read from the registered workers, is one of completed syncs.** -/
theorem threshold_le_completed (h : s.Wf) (hprogress : s.completionThreshold ≤ s.globalProgress)
    (hperm : s.cache.Perm s.workers.values)
    (hsynced : ∀ obj ∈ s.cachedObjects, obj.node.syncInfo ≠ none) :
    s.completionThreshold * s.workers.keys.length ≤ s.workers.keys.countP (· ∈ s.completed) := by
  have hkeys := map_key_cachedObjects h hperm
  have hready := mul_length_le_countP hprogress
  rw [List.length_map, List.countP_map] at hready
  rw [← hkeys.length_eq, ← hkeys.countP_eq, List.length_map, List.countP_map]
  apply hready.trans
  rw [Nat.cast_le]
  apply List.countP_mono_left
  intro obj hobj hcounts
  have hmem : obj ∈ s.objects := by
    obtain ⟨i, -, hi⟩ := List.mem_filterMap.mp hobj
    exact List.mem_of_getElem? hi
  have hdone := completed_of_countsAsReady hcounts (hsynced obj hobj)
  simpa using h.completed obj hmem hdone

/-! ## Runs -/

/-- While the flag is set, a worker without a session is told to sync. -/
theorem heartbeat_ne_nil (hflag : s.needFullSyncAll = true) {key : WorkerKey}
    (hnone : ∀ w ∈ s.getWorker key, w.syncInfo = none) : (s.heartbeat key).1 ≠ [] := by
  unfold heartbeat
  split
  · have hinfo : (s.getWorker key).bind WorkerNode.syncInfo = none := by
      cases hw : s.getWorker key with
      | none => rfl
      | some w => exact hnone w hw
    unfold shouldRequestFullSync
    simp [hinfo, hflag]
  · simp

/-- A query changes nothing, or it clears the flag. -/
theorem canExitFreeze_cases (s : FreezeController) :
    s.canExitFreeze.2 = s ∨
    s.needFullSyncAll = true ∧ s.completionThreshold ≤ s.globalProgress ∧
      s.canExitFreeze.2 = { s with
        needFullSyncAll := false
        cleared := some ⟨s.workers.keys,
          (s.cachedObjects.filter fun obj => countsAsReady obj.node).map WorkerObject.key,
          s.completed⟩ } := by
  by_cases hexit : (decide (s.completionThreshold ≤ s.globalProgress) && s.needFullSyncAll) = true
  · have hboth := hexit
    rw [Bool.and_eq_true, decide_eq_true_eq] at hboth
    exact .inr ⟨hboth.2, hboth.1, if_pos hexit⟩
  · exact .inl (if_neg hexit)

/-- An event leaves the record of the flag alone, or it is a status query that clears the flag. -/
theorem cleared_step (s : FreezeController) (event : FreezeEvent) :
    (s.step event).completionThreshold = s.completionThreshold ∧
    ((s.step event).cleared = s.cleared ∨
      ∃ key syncId now, event = .syncStatus key syncId now ∧ s.needFullSyncAll = true ∧
        s.completionThreshold ≤ (s.readCached now).globalProgress ∧
        (s.step event).cleared = some ⟨s.workers.keys,
          ((s.readCached now).cachedObjects.filter fun obj => countsAsReady obj.node).map
            WorkerObject.key, s.completed⟩) := by
  have hmodify : ∀ key f, (s.modifyWorker key f).completionThreshold = s.completionThreshold ∧
      (s.modifyWorker key f).cleared = s.cleared := by
    intro key f
    unfold modifyWorker
    split <;> exact ⟨rfl, rfl⟩
  have hregister : ∀ key, (s.register key).completionThreshold = s.completionThreshold ∧
      (s.register key).cleared = s.cleared := by
    intro key
    unfold register
    split
    · exact hmodify key _
    · exact ⟨rfl, rfl⟩
  have hread : ∀ now, (s.readCached now).completionThreshold = s.completionThreshold ∧
      (s.readCached now).cleared = s.cleared ∧ (s.readCached now).workers = s.workers ∧
      (s.readCached now).completed = s.completed ∧
      (s.readCached now).needFullSyncAll = s.needFullSyncAll := by
    intro now
    unfold readCached
    split <;> exact ⟨rfl, rfl, rfl, rfl, rfl⟩
  cases event with
  | register key => exact ⟨(hregister key).1, .inl (hregister key).2⟩
  | deregister key => exact ⟨rfl, .inl rfl⟩
  | heartbeat key =>
    show (s.heartbeat key).2.completionThreshold = _ ∧ ((s.heartbeat key).2.cleared = _ ∨ _)
    unfold heartbeat
    split
    · exact ⟨rfl, .inl rfl⟩
    · exact ⟨(hregister key).1, .inl (hregister key).2⟩
  | fullSyncStart key msg => exact ⟨(hmodify key _).1, .inl (hmodify key _).2⟩
  | fullSyncBatch key msg => exact ⟨(hmodify key _).1, .inl (hmodify key _).2⟩
  | fullSyncEnd key msg => exact ⟨(hmodify key _).1, .inl (hmodify key _).2⟩
  | readWorkers now => exact ⟨(hread now).1, .inl (hread now).2.1⟩
  | syncStatus key syncId now =>
    obtain ⟨hthreshold, hcleared, hworkers, hcompleted, hflag⟩ := hread now
    show (s.readCached now).canExitFreeze.2.completionThreshold = _ ∧
      ((s.readCached now).canExitFreeze.2.cleared = _ ∨ ∃ key' syncId' now', _ ∧ _ ∧ _ ∧
        (s.readCached now).canExitFreeze.2.cleared = _)
    rcases (s.readCached now).canExitFreeze_cases with hsame | ⟨hset, hreached, hexit⟩
    · rw [hsame]
      exact ⟨hthreshold, .inl hcleared⟩
    · rw [hexit]
      refine ⟨hthreshold, .inr ⟨key, syncId, now, rfl, hflag ▸ hset, hthreshold ▸ hreached, ?_⟩⟩
      dsimp only
      rw [hworkers, hcompleted]

/-- **One event that meets the condition keeps the promise.** -/
theorem exitsAfterSyncs_step (hwf : s.Wf) (h : s.ExitsAfterSyncs) {event : FreezeEvent}
    (hok : s.ReadsSynced event) : (s.step event).ExitsAfterSyncs := by
  obtain ⟨hthreshold, hcleared | ⟨key, syncId, now, rfl, hflag, hreached, hcleared⟩⟩ :=
    s.cleared_step event
  · refine ⟨?_, ?_, fun hflag _ hnone => heartbeat_ne_nil hflag hnone⟩
    · rw [hthreshold, hcleared]
      exact h.reached
    · rw [hcleared]
      exact h.counted
  · -- the query has cleared the flag: its list was that of the registered workers
    have hread : (s.readCached now).workers = s.workers ∧
        (s.readCached now).completed = s.completed ∧
        (s.readCached now).completionThreshold = s.completionThreshold ∧
        (s.readCached now).needFullSyncAll = s.needFullSyncAll := by
      unfold readCached
      split <;> exact ⟨rfl, rfl, rfl, rfl⟩
    obtain ⟨hworkers, hcompleted, hthreshold', hflag'⟩ := hread
    have hwf' := wf_readCached hwf now
    have hlist := hok (hflag'.trans hflag) (hthreshold'.symm ▸ hreached)
    refine ⟨?_, ?_, fun hflag _ hnone => heartbeat_ne_nil hflag hnone⟩
    · rw [hthreshold, hcleared]
      rintro c ⟨⟩
      have h := threshold_le_completed hwf' (hthreshold'.symm ▸ hreached) hlist.1 hlist.2
      rwa [hworkers, hcompleted, hthreshold'] at h
    · rw [hcleared]
      rintro c ⟨⟩ k hk
      obtain ⟨obj, hobj, rfl⟩ := List.mem_map.mp hk
      obtain ⟨hcached, hready⟩ := List.mem_filter.mp hobj
      have hmem : obj ∈ (s.readCached now).objects := by
        obtain ⟨i, -, hi⟩ := List.mem_filterMap.mp hcached
        exact List.mem_of_getElem? hi
      have hdone := completed_of_countsAsReady hready (hlist.2 obj hcached)
      exact hcompleted ▸ hwf'.completed obj hmem hdone

theorem exitsAfterSyncs_init (completionThreshold : ℚ) :
    (init completionThreshold).ExitsAfterSyncs where
  reached := fun _ h => nomatch h
  counted := fun _ h => nomatch h
  told := fun hflag _ hnone => heartbeat_ne_nil hflag hnone

/-- **In a run that meets the condition the flag goes only after real syncs.** -/
theorem always_exitsAfterSyncs (completionThreshold : ℚ) (events : List FreezeEvent)
    (h : Guarded step ReadsSynced (init completionThreshold) events) :
    Always step ExitsAfterSyncs (init completionThreshold) events := by
  have hboth : Always step (fun s => s.Wf ∧ s.ExitsAfterSyncs) (init completionThreshold) events :=
    always_of_guarded
      (fun s event hs hok => ⟨wf_step hs.1 event, exitsAfterSyncs_step hs.1 hs.2 hok⟩)
      ⟨wf_init completionThreshold, exitsAfterSyncs_init completionThreshold⟩ h
  exact hboth.mono fun _ hs => hs.2

/-- One worker registers, syncs and asks. -/
def syncedRun : List FreezeEvent :=
  [.register ("instance", 0), .fullSyncStart ("instance", 0) ⟨"LocalCPUBackend", "session", 0, 1⟩,
    .fullSyncBatch ("instance", 0) ⟨"instance", 0, "LocalCPUBackend", "session", 0, []⟩,
    .fullSyncEnd ("instance", 0) ⟨"LocalCPUBackend", "session", 0⟩,
    .syncStatus ("instance", 0) "session" 1]

theorem always_exitsAfterSyncs_syncedRun :
    Always step ExitsAfterSyncs (init (4 / 5)) syncedRun ∧
      (run step (init (4 / 5)) syncedRun).needFullSyncAll = false :=
  ⟨always_exitsAfterSyncs (4 / 5) syncedRun (by decide +kernel), by decide +kernel⟩

/-- Five workers register, and one of them starts a sync and asks. -/
def unsyncedRun : List FreezeEvent :=
  [.register ("instance", 0), .register ("instance", 1), .register ("instance", 2),
    .register ("instance", 3), .register ("instance", 4),
    .fullSyncStart ("instance", 0) ⟨"LocalCPUBackend", "session", 0, 1⟩,
    .syncStatus ("instance", 0) "session" 1]

/-- It can fail: four workers that have never synced reach the threshold of four fifths, and the
flag is cleared with no sync completed. -/
theorem not_always_exitsAfterSyncs : ¬ Always step ExitsAfterSyncs (init (4 / 5)) unsyncedRun := by
  intro h
  have hcleared : (run step (init (4 / 5)) unsyncedRun).cleared =
      some ⟨[("instance", 0), ("instance", 1), ("instance", 2), ("instance", 3), ("instance", 4)],
        [("instance", 1), ("instance", 2), ("instance", 3), ("instance", 4)], []⟩ := by
    decide +kernel
  have hcounted := h.last.counted _ hcleared ("instance", 1) (by simp)
  cases hcounted

end FreezeController

end LMCache.Controller
