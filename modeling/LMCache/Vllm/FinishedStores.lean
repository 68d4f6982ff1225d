/-
# LMCache.Vllm.FinishedStores — which requests the multiprocess worker adapter reports as stored.

Source: `LMCacheMPWorkerAdapter` in `integration/vllm/vllm_multi_process_adapter.py`.

vLLM keeps the blocks of a finished request until the adapter returns its id from `get_finished`.
The adapter keeps a future for each store under the id of the request, or under the first id of a
batch with the other ids beside it; a store that completes moves all its ids to a set, and an id is
returned once it is in this set and vLLM has reported it.  An id that is reported and is neither in
the set nor the first of a running store counts as one that has nothing to store.
-/
import LMCache.Lib.Dict
import LMCache.Lib.Run
import Mathlib.Data.Finset.Basic
import Mathlib.Data.Finset.Lattice.Basic

namespace LMCache.Vllm

open LMCache.Lib

/-! ## The adapter -/

/-- request_id -> (future, other merged requests) -/
abbrev RequestFutures := Dict String (Nat × List String)

namespace RequestFutures

/-- The ids of the stores, or retrieves, whose future `query` finds done. -/
def finished (futures : RequestFutures) (completed : Finset Nat) : List String :=
  (futures.entries.filter fun e => e.2.1 ∈ completed).flatMap fun e => e.1 :: e.2.2

/-- Each of the finished ids is popped, whatever future stands under it. -/
def popAll (futures : RequestFutures) (requestIds : List String) : RequestFutures :=
  requestIds.foldl Dict.erase futures

end RequestFutures

/-- `LMCacheMPWorkerAdapter`. -/
structure WorkerAdapter where
  storeFutures : RequestFutures := .empty
  retrieveFutures : RequestFutures := .empty
  /-- The store requests that have finished execution in LMCache -/
  finishedStores : Finset String := ∅
  /-- The finished request ids that are passed via vLLM and also have corresponding store requests
  submitted to LMCache before -/
  previouslyFinished : Finset String := ∅

namespace WorkerAdapter

/-- `batched_submit_store_requests`; `submit_store_request` is the one of a single id.  Without an
id it raises once the request is sent. -/
def batchedSubmitStoreRequests (a : WorkerAdapter) (requestIds : List String) (future : Nat) :
    WorkerAdapter :=
  match requestIds with
  | [] => a
  | first :: others => { a with storeFutures := a.storeFutures.set first (future, others) }

def submitStoreRequest (a : WorkerAdapter) (requestId : String) (future : Nat) : WorkerAdapter :=
  { a with storeFutures := a.storeFutures.set requestId (future, []) }

/-- `batched_submit_retrieve_requests`. -/
def batchedSubmitRetrieveRequests (a : WorkerAdapter) (requestIds : List String) (future : Nat) :
    WorkerAdapter :=
  match requestIds with
  | [] => a
  | first :: others => { a with retrieveFutures := a.retrieveFutures.set first (future, others) }

def submitRetrieveRequest (a : WorkerAdapter) (requestId : String) (future : Nat) :
    WorkerAdapter :=
  { a with retrieveFutures := a.retrieveFutures.set requestId (future, []) }

/-- `_update_and_get_finished_store`. -/
def updateAndGetFinishedStore (a : WorkerAdapter) : Finset String × WorkerAdapter :=
  let safeFinished := a.finishedStores ∩ a.previouslyFinished
  (safeFinished, { a with
    finishedStores := a.finishedStores \ a.previouslyFinished
    previouslyFinished := a.previouslyFinished \ safeFinished })

/-- The state of `get_finished` once the futures are looked at. -/
def collect (a : WorkerAdapter) (completed : Finset Nat) : WorkerAdapter :=
  { a with
    storeFutures := a.storeFutures.popAll (a.storeFutures.finished completed)
    retrieveFutures := a.retrieveFutures.popAll (a.retrieveFutures.finished completed)
    finishedStores := a.finishedStores ∪ (a.storeFutures.finished completed).toFinset }

/-- `get_finished`: the finished stores and the finished retrieves.  The futures in `completed` are
those that `query` finds done. -/
def getFinished (a : WorkerAdapter) (completed : Finset Nat)
    (finishedReqIdsFromEngine : Finset String) : (Finset String × Finset String) × WorkerAdapter :=
  let b := a.collect completed
  let waits := finishedReqIdsFromEngine.filter fun reqId =>
    reqId ∈ b.finishedStores ∨ reqId ∈ b.storeFutures
  let safe := updateAndGetFinishedStore
    { b with previouslyFinished := b.previouslyFinished ∪ waits }
  (((finishedReqIdsFromEngine \ waits) ∪ safe.1,
    (a.retrieveFutures.finished completed).toFinset), safe.2)

end WorkerAdapter

/-! ## Runs -/

/-- The adapter, and what was submitted, has completed, was reported and was returned. -/
structure AdapterRun where
  adapter : WorkerAdapter := {}
  nextFuture : Nat := 0
  /-- The store operations with the ids they are for. -/
  submitted : List (Nat × List String) := []
  completed : Finset Nat := ∅
  reported : Finset String := ∅
  returned : Finset String := ∅

inductive AdapterEvent where
  | submitStoreRequest (requestId : String)
  | batchedSubmitStoreRequests (requestIds : List String)
  | submitRetrieveRequest (requestId : String)
  | batchedSubmitRetrieveRequests (requestIds : List String)
  | complete (future : Nat)
  | getFinished (finishedReqIdsFromEngine : Finset String)

namespace AdapterRun

def step (s : AdapterRun) : AdapterEvent → AdapterRun
  | .submitStoreRequest requestId =>
    { s with
      adapter := s.adapter.submitStoreRequest requestId s.nextFuture
      nextFuture := s.nextFuture + 1
      submitted := s.submitted ++ [(s.nextFuture, [requestId])] }
  | .batchedSubmitStoreRequests requestIds =>
    { s with
      adapter := s.adapter.batchedSubmitStoreRequests requestIds s.nextFuture
      nextFuture := s.nextFuture + 1
      submitted := s.submitted ++ [(s.nextFuture, requestIds)] }
  | .submitRetrieveRequest requestId =>
    { s with
      adapter := s.adapter.submitRetrieveRequest requestId s.nextFuture
      nextFuture := s.nextFuture + 1 }
  | .batchedSubmitRetrieveRequests requestIds =>
    { s with
      adapter := s.adapter.batchedSubmitRetrieveRequests requestIds s.nextFuture
      nextFuture := s.nextFuture + 1 }
  | .complete future =>
    if future < s.nextFuture then { s with completed := insert future s.completed } else s
  | .getFinished finishedReqIdsFromEngine =>
    { s with
      adapter := (s.adapter.getFinished s.completed finishedReqIdsFromEngine).2
      reported := s.reported ∪ finishedReqIdsFromEngine
      returned := s.returned ∪ (s.adapter.getFinished s.completed finishedReqIdsFromEngine).1.1 }

/-! ## The property -/

/-- Every store operation that was submitted for the id has completed. -/
def AllStored (s : AdapterRun) (requestId : String) : Prop :=
  ∀ op ∈ s.submitted, requestId ∈ op.2 → op.1 ∈ s.completed

instance (s : AdapterRun) (requestId : String) : Decidable (s.AllStored requestId) :=
  inferInstanceAs (Decidable (∀ op ∈ s.submitted, requestId ∈ op.2 → op.1 ∈ s.completed))

/-- The ids that a call is to return: they are reported by now, their stores have completed, and
they were not returned before. -/
def due (s : AdapterRun) (finishedReqIdsFromEngine : Finset String) : Finset String :=
  (s.reported ∪ finishedReqIdsFromEngine).filter fun reqId =>
    s.AllStored reqId ∧ reqId ∉ s.returned

/-- Each call returns the ids that are due. -/
def ReturnsDue (s : AdapterRun) : AdapterEvent → Prop
  | .getFinished finishedReqIdsFromEngine =>
    (s.adapter.getFinished s.completed finishedReqIdsFromEngine).1.1 =
      s.due finishedReqIdsFromEngine
  | _ => True

/-- The adapter knows that the id is to wait: the store that it keeps under this id is running, no
earlier store of it was found done, and it is no other id of a batch that is done. -/
def Tracked (s : AdapterRun) (requestId : String) : Prop :=
  requestId ∉ s.adapter.finishedStores ∧ requestId ∈ s.adapter.storeFutures ∧
    requestId ∉ s.adapter.storeFutures.finished s.completed

/-- An id that is reported, in this call or in an earlier one that did not return it, and must wait,
because a store of it is running or because it was returned before, is tracked. -/
def WaitsTracked (s : AdapterRun) : AdapterEvent → Prop
  | .getFinished finishedReqIdsFromEngine =>
    ∀ reqId ∈ finishedReqIdsFromEngine ∪ s.adapter.previouslyFinished,
      (¬ s.AllStored reqId ∨ reqId ∈ s.returned) → s.Tracked reqId
  | _ => True

end AdapterRun

/-! ## What a call returns -/

theorem RequestFutures.mem_popAll {futures : RequestFutures} {requestIds : List String}
    {reqId : String} :
    reqId ∈ futures.popAll requestIds ↔ reqId ∈ futures ∧ reqId ∉ requestIds := by
  unfold popAll
  rw [Dict.mem_iff_get?, Dict.mem_iff_get?, Dict.get?_foldl_erase]
  by_cases h : reqId ∈ requestIds
  · rw [if_pos h]
    exact iff_of_false nofun fun hmem => hmem.2 h
  · rw [if_neg h]
    exact ⟨fun hmem => ⟨hmem, h⟩, And.left⟩

/-- An id whose future is done is found. -/
theorem RequestFutures.mem_finished {futures : RequestFutures} {completed : Finset Nat}
    {reqId : String} {future : Nat} {others : List String}
    (hget : futures.get? reqId = some (future, others)) (hdone : future ∈ completed) :
    reqId ∈ futures.finished completed := by
  apply List.mem_flatMap.mpr
  refine ⟨(reqId, future, others), ?_, List.mem_cons_self⟩
  exact List.mem_filter.mpr ⟨Dict.get?_eq_some.mp hget, decide_eq_true hdone⟩

namespace AdapterRun

/-- What holds after any calls: an id that waits is the first of a store that the adapter keeps, an
id that was reported waits or was returned, and a store is kept under an id that it is for. -/
structure Inv (s : AdapterRun) : Prop where
  kept : ∀ reqId ∈ s.adapter.previouslyFinished, reqId ∈ s.adapter.storeFutures
  waits : ∀ reqId ∈ s.adapter.previouslyFinished, reqId ∈ s.reported
  reported : ∀ reqId ∈ s.reported,
    reqId ∈ s.returned ∨ reqId ∈ s.adapter.previouslyFinished
  stores : ∀ reqId future others, s.adapter.storeFutures.get? reqId = some (future, others) →
    ∃ op ∈ s.submitted, op.1 = future ∧ reqId ∈ op.2

variable {s : AdapterRun} {now : Finset String} {reqId : String}

theorem tracked_iff_collect : s.Tracked reqId ↔
    reqId ∉ (s.adapter.collect s.completed).finishedStores ∧
      reqId ∈ (s.adapter.collect s.completed).storeFutures := by
  unfold Tracked WorkerAdapter.collect
  rw [Finset.mem_union, List.mem_toFinset, RequestFutures.mem_popAll]
  tauto

/-- An id that waits is the first of a kept store, and stays so unless it is found done. -/
theorem Inv.kept_collect (h : s.Inv) (reqId : String)
    (hprev : reqId ∈ s.adapter.previouslyFinished)
    (hnot : reqId ∉ (s.adapter.collect s.completed).finishedStores) :
    reqId ∈ (s.adapter.collect s.completed).storeFutures := by
  unfold WorkerAdapter.collect at hnot ⊢
  rw [Finset.mem_union, List.mem_toFinset, not_or] at hnot
  exact RequestFutures.mem_popAll.mpr ⟨h.kept reqId hprev, hnot.2⟩

/-- A call returns the ids that are reported, now or before, and are not tracked. -/
theorem mem_getFinished_iff (h : s.Inv) :
    reqId ∈ (s.adapter.getFinished s.completed now).1.1 ↔
      reqId ∈ now ∪ s.adapter.previouslyFinished ∧ ¬ s.Tracked reqId := by
  rw [tracked_iff_collect]
  unfold WorkerAdapter.getFinished WorkerAdapter.updateAndGetFinishedStore
  simp only [Finset.mem_union, Finset.mem_sdiff, Finset.mem_inter, Finset.mem_filter]
  have hkept := h.kept_collect reqId
  have hprev : (s.adapter.collect s.completed).previouslyFinished =
      s.adapter.previouslyFinished := rfl
  rw [hprev]
  tauto

/-- What waits after a call was reported and is tracked. -/
theorem mem_previouslyFinished_getFinished_iff (h : s.Inv) :
    reqId ∈ (s.adapter.getFinished s.completed now).2.previouslyFinished ↔
      reqId ∈ now ∪ s.adapter.previouslyFinished ∧ s.Tracked reqId := by
  rw [tracked_iff_collect]
  unfold WorkerAdapter.getFinished WorkerAdapter.updateAndGetFinishedStore
  simp only [Finset.mem_union, Finset.mem_sdiff, Finset.mem_inter, Finset.mem_filter]
  have hkept := h.kept_collect reqId
  have hprev : (s.adapter.collect s.completed).previouslyFinished =
      s.adapter.previouslyFinished := rfl
  rw [hprev]
  tauto

/-! ### The invariant -/

theorem inv_init : Inv {} :=
  ⟨fun _ hmem => absurd hmem (Finset.notMem_empty _),
    fun _ hmem => absurd hmem (Finset.notMem_empty _),
    fun _ hmem => absurd hmem (Finset.notMem_empty _), nofun⟩

/-- A store that is submitted is kept under an id that it is for. -/
theorem Inv.submit (h : s.Inv) {first : String} {others requestIds : List String}
    (hfirst : first ∈ requestIds) :
    Inv { s with
      adapter := { s.adapter with
        storeFutures := s.adapter.storeFutures.set first (s.nextFuture, others) }
      nextFuture := s.nextFuture + 1
      submitted := s.submitted ++ [(s.nextFuture, requestIds)] } := by
  refine ⟨fun reqId hmem => ?_, h.waits, h.reported, fun reqId future others' hget => ?_⟩
  · exact (Dict.mem_set _ _ _ _).mpr (.inr (h.kept reqId hmem))
  · change (s.adapter.storeFutures.set first (s.nextFuture, others)).get? reqId = _ at hget
    rw [Dict.get?_set] at hget
    split at hget
    · rename_i heq
      cases hget
      exact ⟨_, List.mem_append_right _ List.mem_cons_self, rfl, heq ▸ hfirst⟩
    · obtain ⟨op, hop, hfuture, hmem⟩ := h.stores reqId future others' hget
      exact ⟨op, List.mem_append_left _ hop, hfuture, hmem⟩

/-- **Step lemma: a call of `get_finished`.** -/
theorem Inv.getFinished (h : s.Inv) (now : Finset String) : (s.step (.getFinished now)).Inv := by
  refine ⟨fun reqId hmem => ?_, fun reqId hmem => ?_, fun reqId hmem => ?_,
    fun reqId future others hget => ?_⟩
  · obtain ⟨-, htracked⟩ := (mem_previouslyFinished_getFinished_iff h).mp hmem
    exact (tracked_iff_collect.mp htracked).2
  · obtain ⟨hmem, -⟩ := (mem_previouslyFinished_getFinished_iff h).mp hmem
    show reqId ∈ s.reported ∪ now
    rcases Finset.mem_union.mp hmem with hnow | hprev
    · exact Finset.mem_union_right _ hnow
    · exact Finset.mem_union_left _ (h.waits reqId hprev)
  · show reqId ∈ s.returned ∪ (s.adapter.getFinished s.completed now).1.1 ∨
      reqId ∈ (s.adapter.getFinished s.completed now).2.previouslyFinished
    rw [Finset.mem_union, mem_getFinished_iff h, mem_previouslyFinished_getFinished_iff h]
    change reqId ∈ s.reported ∪ now at hmem
    have hfrom : reqId ∈ s.returned ∨ reqId ∈ now ∪ s.adapter.previouslyFinished := by
      rcases Finset.mem_union.mp hmem with hold | hnow
      · exact (h.reported reqId hold).imp_right (Finset.mem_union_right _)
      · exact .inr (Finset.mem_union_left _ hnow)
    tauto
  · change (s.adapter.storeFutures.popAll (s.adapter.storeFutures.finished s.completed)).get?
      reqId = _ at hget
    unfold RequestFutures.popAll at hget
    rw [Dict.get?_foldl_erase] at hget
    split at hget
    · cases hget
    · exact h.stores reqId future others hget

/-- **Step lemma.** -/
theorem step_inv (s : AdapterRun) (e : AdapterEvent) (h : s.Inv) : (s.step e).Inv := by
  match e with
  | .submitStoreRequest requestId => exact h.submit List.mem_cons_self
  | .batchedSubmitStoreRequests [] =>
    refine ⟨h.kept, h.waits, h.reported, fun reqId future others hget => ?_⟩
    obtain ⟨op, hop, hfuture, hmem⟩ := h.stores reqId future others hget
    exact ⟨op, List.mem_append_left _ hop, hfuture, hmem⟩
  | .batchedSubmitStoreRequests (first :: others) => exact h.submit List.mem_cons_self
  | .submitRetrieveRequest requestId => exact ⟨h.kept, h.waits, h.reported, h.stores⟩
  | .batchedSubmitRetrieveRequests [] => exact ⟨h.kept, h.waits, h.reported, h.stores⟩
  | .batchedSubmitRetrieveRequests (first :: others) =>
    exact ⟨h.kept, h.waits, h.reported, h.stores⟩
  | .complete future =>
    unfold step
    dsimp only
    split
    · exact ⟨h.kept, h.waits, h.reported, h.stores⟩
    · exact h
  | .getFinished now => exact h.getFinished now

/-! ### Every run -/

/-- What is tracked has a store that is running. -/
theorem not_allStored_of_tracked (h : s.Inv) (htracked : s.Tracked reqId) :
    ¬ s.AllStored reqId := by
  obtain ⟨-, hkept, hnot⟩ := htracked
  obtain ⟨⟨future, others⟩, hget⟩ := Dict.mem_iff_get?.mp hkept
  obtain ⟨op, hop, hfuture, hmem⟩ := h.stores reqId future others hget
  intro hall
  apply hnot
  exact RequestFutures.mem_finished hget (hfuture ▸ hall op hop hmem)

/-- **One call.**  It returns the ids that are due just when every id that must wait is tracked. -/
theorem returnsDue_iff (s : AdapterRun) (e : AdapterEvent) (h : s.Inv) :
    s.ReturnsDue e ↔ s.WaitsTracked e := by
  match e with
  | .submitStoreRequest .. | .batchedSubmitStoreRequests .. | .submitRetrieveRequest ..
  | .batchedSubmitRetrieveRequests .. | .complete .. => exact Iff.rfl
  | .getFinished now =>
    have hdue (reqId : String) : reqId ∈ s.due now ↔
        reqId ∈ s.reported ∪ now ∧ s.AllStored reqId ∧ reqId ∉ s.returned := Finset.mem_filter
    show _ = s.due now ↔ ∀ reqId ∈ now ∪ s.adapter.previouslyFinished, _
    constructor
    · intro heq reqId hmem hmust
      by_contra huntracked
      have hreturned := (mem_getFinished_iff h).mpr ⟨hmem, huntracked⟩
      rw [heq, hdue] at hreturned
      tauto
    · intro htracked
      ext reqId
      rw [hdue, mem_getFinished_iff h]
      constructor
      · rintro ⟨hmem, huntracked⟩
        have hgood := mt (htracked reqId hmem) huntracked
        rw [not_or, not_not] at hgood
        refine ⟨?_, hgood⟩
        rcases Finset.mem_union.mp hmem with hnow | hprev
        · exact Finset.mem_union_right _ hnow
        · exact Finset.mem_union_left _ (h.waits reqId hprev)
      · rintro ⟨hmem, hall, hfresh⟩
        refine ⟨?_, fun htracked => not_allStored_of_tracked h htracked hall⟩
        rcases Finset.mem_union.mp hmem with hold | hnow
        · exact Finset.mem_union_right _ ((h.reported reqId hold).resolve_left hfresh)
        · exact Finset.mem_union_left _ hnow

/-- **In a run every call of `get_finished` returns just the ids that are due, just when** at each
of them every reported id that must wait is tracked. -/
theorem guarded_returnsDue_iff (es : List AdapterEvent) :
    Guarded step ReturnsDue {} es ↔ Guarded step WaitsTracked {} es := by
  constructor
  · exact Guarded.mono_of_inv (fun s e h _ => step_inv s e h)
      (fun s e h => (returnsDue_iff s e h).mp) inv_init
  · exact Guarded.mono_of_inv (fun s e h _ => step_inv s e h)
      (fun s e h => (returnsDue_iff s e h).mpr) inv_init

/-! ### A merged store -/

/-- Two requests are stored together, and the second is reported while the store is running. -/
def secondOfBatch : List AdapterEvent :=
  [.batchedSubmitStoreRequests ["a", "b"], .getFinished {"b"}]

/-- It can fail: the second is returned at once. -/
theorem not_guarded_returnsDue : ¬ Guarded step ReturnsDue {} secondOfBatch := by
  rintro ⟨-, hreturns, -⟩
  revert hreturns
  unfold ReturnsDue
  decide +kernel

end AdapterRun

end LMCache.Vllm
