/-
# LMCache.Vllm.SchedulerRuns — the adapter and the scheduler agree on every request.

What the adapter has under one id is a matter of that request alone: a load spec from the last
answer until the request is scheduled, a tracker from the first step on, and a reference from the
allocation on.  So the invariant is one of each request, and a step of the scheduler keeps it entry
by entry.

The scheduler's arithmetic and the adapter's agree on every new request.  For a resumed one the
adapter expects the maximum of the two hits to be computed, and it has itself taken one token off a
full hit.
-/
import LMCache.Vllm.SchedulerConnector

namespace LMCache.Vllm

open LMCache.Lib

/-! ## What the adapter has under an id -/

namespace SchedulerConnector

structure View where
  loadSpec : Option LoadSpec
  tracker : Option RequestTracker
  unfinished : Bool

def view (s : SchedulerConnector) (reqId : String) : View :=
  ⟨s.loadSpecs.get? reqId, s.requestTrackers.get? reqId, reqId ∈ s.unfinishedRequests⟩

/-- A call has changed what there is under one id at most. -/
structure Only (s s' : SchedulerConnector) (reqId : String) : Prop where
  config : s'.config = s.config
  view_ne : ∀ id, id ≠ reqId → s'.view id = s.view id

theorem Only.refl (s : SchedulerConnector) (reqId : String) : s.Only s reqId :=
  ⟨rfl, fun _ _ => rfl⟩

variable {reqId : String} {s : SchedulerConnector} {c : AdapterConfig} {loadSpec : Option LoadSpec}
  {tracker : RequestTracker} {p : Scheduled × Tracked} {requests : String → Option VllmRequest}

/-- A load spec was replaced or popped, a tracker set, a reference taken. -/
theorem view_set_ne {s' : SchedulerConnector} {id : String} (h : id ≠ reqId)
    (hspec : s'.loadSpecs = s.loadSpecs ∨ s'.loadSpecs = s.loadSpecs.erase reqId ∨
      ∃ spec, s'.loadSpecs = s.loadSpecs.set reqId spec)
    (htracker : s'.requestTrackers = s.requestTrackers ∨
      ∃ t, s'.requestTrackers = s.requestTrackers.set reqId t)
    (hunfinished : s'.unfinishedRequests = s.unfinishedRequests ∨
      s'.unfinishedRequests = insert reqId s.unfinishedRequests) : s'.view id = s.view id := by
  have hload : s'.loadSpecs.get? id = s.loadSpecs.get? id := by
    rcases hspec with hspec | hspec | ⟨spec, hspec⟩
    · rw [hspec]
    · rw [hspec, Dict.get?_erase, if_neg h]
    · rw [hspec, Dict.get?_set, if_neg h]
  have htrack : s'.requestTrackers.get? id = s.requestTrackers.get? id := by
    rcases htracker with htracker | ⟨t, htracker⟩
    · rw [htracker]
    · rw [htracker, Dict.get?_set, if_neg h]
  have hin : id ∈ s'.unfinishedRequests ↔ id ∈ s.unfinishedRequests := by
    rcases hunfinished with hunfinished | hunfinished
    · rw [hunfinished]
    · rw [hunfinished, Finset.mem_insert]
      exact or_iff_right h
  unfold view
  rw [hload, htrack, decide_eq_decide.mpr hin]

/-! ### The calls -/

/-- What a question changes: nothing for a mock request, and else the load spec, if there is an
answer. -/
theorem getNumNewMatchedTokens_cases (s : SchedulerConnector) (request : VllmRequest)
    (numComputedTokens : Nat) (lookupCache : Option (Option Nat)) (lookup : Option Nat) :
    s.getNumNewMatchedTokens request numComputedTokens lookupCache lookup =
        (some 0, s) ∧ isMock request.requestId = true ∨
      isMock request.requestId = false ∧ ∃ priorities,
        ((lookupCache.getD lookup = none ∧
          s.getNumNewMatchedTokens request numComputedTokens lookupCache lookup =
            (none, { s with requestsPriority := priorities })) ∨
        ∃ hit, lookupCache.getD lookup = some hit ∧
          s.getNumNewMatchedTokens request numComputedTokens lookupCache lookup =
            (some (needToAllocate request hit numComputedTokens).toNat, { s with
              requestsPriority := priorities
              loadSpecs :=
                s.loadSpecs.set request.requestId ⟨numComputedTokens, hit, false⟩ })) := by
  unfold getNumNewMatchedTokens
  by_cases hmock : isMock request.requestId = true
  · rw [if_pos hmock]
    exact .inl ⟨rfl, hmock⟩
  · refine .inr ⟨Bool.eq_false_of_not_eq_true hmock, ?_⟩
    rw [if_neg hmock, if_neg (by simp [hasSupportsProducerReuse])]
    dsimp only
    refine ⟨if lookupCache.isSome then s.requestsPriority
      else s.requestsPriority.set request.requestId request.priority, ?_⟩
    match lookupCache.getD lookup with
    | none => exact .inl ⟨rfl, rfl⟩
    | some hit =>
      refine .inr ⟨hit, rfl, ?_⟩
      dsimp only
      split
      · rename_i hneed
        rw [Int.toNat_of_nonpos hneed]
      · rfl

/-- What the load spec of an answer has to do with it. -/
structure Asked (request : VllmRequest) (vllmHit n : Nat) (spec : LoadSpec) : Prop where
  vllm : spec.vllmCachedTokens = vllmHit
  hit : spec.lmcacheCachedTokens ≤ request.numTokens
  answer : n = (needToAllocate request spec.lmcacheCachedTokens vllmHit).toNat

/-- **The allocation passes its assertion** when it is told the last answer. -/
theorem updateStateAfterAlloc_of_asked {request : VllmRequest} {vllmHit n : Nat}
    (h : ∀ spec ∈ s.loadSpecs.get? request.requestId, Asked request vllmHit n spec) :
    ∃ disagg loadSpecs, s.updateStateAfterAlloc request n = .ok
        { s with
          tmpDisaggTracker := disagg
          unfinishedRequests := insert request.requestId s.unfinishedRequests
          loadSpecs := loadSpecs } ∧
      ((loadSpecs = s.loadSpecs ∧ s.loadSpecs.get? request.requestId = none) ∨
        ∃ spec, s.loadSpecs.get? request.requestId = some spec ∧
          loadSpecs = s.loadSpecs.set request.requestId { spec with canLoad := n ≠ 0 }) := by
  unfold updateStateAfterAlloc
  dsimp only
  match hspec : s.loadSpecs.get? request.requestId with
  | none => exact ⟨_, _, rfl, .inl ⟨rfl, rfl⟩⟩
  | some spec =>
    obtain ⟨hvllm, -, hanswer⟩ := h spec hspec
    dsimp only
    by_cases hzero : n = 0
    · rw [if_pos hzero]
      refine ⟨_, _, rfl, .inr ⟨spec, rfl, ?_⟩⟩
      simp [hzero]
    · have hagree : (n : Int) = spec.lmcacheCachedTokens - spec.vllmCachedTokens -
          ((if spec.lmcacheCachedTokens = request.numTokens then 1 else 0 : Nat) : Int) := by
        unfold needToAllocate at hanswer
        dsimp only at hanswer
        split at hanswer
        · rename_i hfull
          rw [if_pos hfull]
          omega
        · rename_i hfull
          rw [if_neg hfull]
          omega
      rw [if_neg hzero, if_pos hagree]
      refine ⟨_, _, rfl, .inr ⟨spec, rfl, ?_⟩⟩
      simp [hzero]

/-! ## A request at its stage -/

/-- The tracker is one of the request. -/
def Tracks (tracker : RequestTracker) (t : Tracked) : Prop :=
  tracker.reqId = t.request.requestId ∧ tracker.promptLen = t.request.promptTokenIds.length

/-- A request that waits, or that was just told of: it has no blocks of its own, and either nothing
was generated for it yet or it has a tracker. -/
structure View.Pausing (v : View) (t : Tracked) (resumed : Bool) : Prop where
  blocks : t.blockIds = []
  fresh : resumed = false → t.request.allTokenIds = t.request.promptTokenIds
  tracker : resumed = true → isMock t.request.requestId = false →
    ∃ tracker, v.tracker = some tracker ∧ Tracks tracker t

/-- What the adapter has of a request fits the stage it is at. -/
def View.AtStage (v : View) (t : Tracked) : Prop :=
  match t.stage with
  | .waiting resumed last =>
    v.Pausing t resumed ∧
      ∀ vllmHit n, last = some (vllmHit, some n) → isMock t.request.requestId = false →
        ∃ spec, v.loadSpec = some spec ∧ Asked t.request vllmHit n spec
  | .allocated resumed =>
    v.Pausing t resumed ∧ v.unfinished = true ∧
      (isMock t.request.requestId = false →
        ∃ spec vllmHit n, v.loadSpec = some spec ∧ Asked t.request vllmHit n spec ∧
          t.request.numComputedTokens = vllmHit + n ∧ spec.canLoad = decide (n ≠ 0))
  | .running =>
    v.unfinished = true ∧
      (isMock t.request.requestId = false →
        v.loadSpec = none ∧ ∃ tracker, v.tracker = some tracker ∧ Tracks tracker t ∧
          tracker.allocatedBlockIds = t.blockIds)

/-- Under the id of a mock request there is nothing. -/
def View.MockFree (v : View) (reqId : String) : Prop :=
  isMock reqId = true → v.loadSpec = none ∧ v.tracker = none

structure View.Kept (v : View) (reqId : String) (t : Tracked) : Prop where
  reqId : t.request.requestId = reqId
  prompt : t.request.promptTokenIds.length ≤ t.request.numTokens
  stage : v.AtStage t

/-! ## What a step builds -/

/-- What the metadata of a request promises: each slot lies in the block that the request has for
the token, and what is loaded lies within the tokens of the step, which are cut by the rule of the
save. -/
structure Builds (c : AdapterConfig) (t : Tracked) (m : ReqMeta) : Prop where
  slots : ∀ (i slot : Nat), m.slotMapping[i]? = some slot → ∃ block,
    t.blockIds[i / c.blockSize]? = some block ∧ slot = block * c.blockSize + i % c.blockSize
  loads : ∀ spec ∈ m.loadSpec, spec.lmcacheCachedTokens ≤ t.request.numComputedTokens ∧
    m.tokenIds.length =
      cutLength c t.request.promptTokenIds.length t.request.numComputedTokens ∧
    m.slotMapping.length = m.tokenIds.length

/-- The metadata of a tracker with the blocks of the request. -/
theorem builds_fromRequestTracker {m : ReqMeta} {t : Tracked}
    (h : (fromRequestTracker c tracker loadSpec).1 = some m)
    (hblocks : tracker.allocatedBlockIds = t.blockIds)
    (hloads : ∀ spec ∈ loadSpec, spec.canLoad = true →
      spec.lmcacheCachedTokens ≤ t.request.numComputedTokens ∧
        tracker.promptLen = t.request.promptTokenIds.length ∧
        tracker.tokenIds.length = t.request.numComputedTokens ∧
        t.request.numComputedTokens ≤ t.blockIds.length * c.blockSize) : Builds c t m := by
  obtain ⟨-, hlength, hslots, hspec⟩ := fromRequestTracker_meta h
  refine ⟨?_, ?_⟩
  · intro i slot hslot
    rw [hslots, List.getElem?_take] at hslot
    split at hslot
    · rw [getElem?_slotMapping _ c.blockSize_pos, hblocks, Option.map_eq_some_iff] at hslot
      obtain ⟨block, hblock, rfl⟩ := hslot
      exact ⟨block, hblock, rfl⟩
    · cases hslot
  · intro spec hmem
    rw [hspec, Option.mem_def, Option.filter_eq_some_iff] at hmem
    obtain ⟨hmem, hcan⟩ := hmem
    obtain ⟨hle, hprompt, htokens, hroom⟩ := hloads spec hmem hcan
    refine ⟨hle, ?_, ?_⟩
    · rw [hlength, hprompt, htokens]
    · rw [hslots, List.length_take, length_slotMapping, hblocks, hlength, htokens]
      have hcut := cutLength_le c tracker.promptLen t.request.numComputedTokens
      omega

/-- What may come of a scheduled request. -/
structure Advanced (c : AdapterConfig) (s s' : SchedulerConnector) (p : Scheduled × Tracked)
    (made : Option ReqMeta) : Prop where
  only : s.Only s' p.1.reqId
  kept : (s'.view p.1.reqId).Kept p.1.reqId (VllmRun.advance p)
  mock : (s'.view p.1.reqId).MockFree p.1.reqId
  builds : ∀ m ∈ made, m.reqId = p.1.reqId ∧ Builds c (VllmRun.advance p) m ∧
    m.loadSpec = (s.view p.1.reqId).loadSpec.filter LoadSpec.canLoad

/-- A request that is popped from the load specs and gets a tracker. -/
theorem only_track {priorities : Dict String Int} {disagg : Dict String DisaggSpec}
    (tracker : RequestTracker) :
    s.Only { s with
      loadSpecs := s.loadSpecs.erase reqId
      requestsPriority := priorities
      tmpDisaggTracker := disagg
      requestTrackers := s.requestTrackers.set reqId tracker } reqId where
  config := rfl
  view_ne := fun _ h => view_set_ne h (.inr (.inl rfl)) (.inr ⟨tracker, rfl⟩) (.inl rfl)

/-- A scheduled request that was popped from the load specs and got the tracker of its metadata. -/
theorem advanced_track (h : (s.view p.1.reqId).Kept p.1.reqId p.2)
    (hmock : isMock p.1.reqId = false) (hunfinished : (s.view p.1.reqId).unfinished = true)
    (hload : loadSpec = (s.view p.1.reqId).loadSpec) (htracks : Tracks tracker p.2)
    (hblocks : tracker.allocatedBlockIds = p.2.blockIds ++ p.1.newBlockIds.getD [])
    (hfits : VllmRun.Fits c p.1 p.2) (hloads : ∀ spec ∈ loadSpec, spec.canLoad = true →
      spec.lmcacheCachedTokens ≤ p.2.request.numComputedTokens + p.1.numScheduledTokens ∧
        tracker.tokenIds.length = p.2.request.numComputedTokens + p.1.numScheduledTokens)
    (priorities : Dict String Int) (disagg : Dict String DisaggSpec) :
    Advanced c s { s with
      loadSpecs := s.loadSpecs.erase p.1.reqId
      requestsPriority := priorities
      tmpDisaggTracker := disagg
      requestTrackers := s.requestTrackers.set p.1.reqId
        (fromRequestTracker c tracker loadSpec).2 } p
      (fromRequestTracker c tracker loadSpec).1 where
  only := only_track _
  kept := by
    refine ⟨h.reqId, h.prompt, hunfinished, fun _ => ⟨?_, ?_⟩⟩
    · exact (Dict.get?_erase _ _ _).trans (if_pos rfl)
    · obtain ⟨n, hn⟩ := fromRequestTracker_tracker c tracker loadSpec
      refine ⟨_, (Dict.get?_set _ _ _ _).trans (if_pos rfl), ?_, ?_⟩
      · rw [hn]
        exact ⟨htracks.1, htracks.2⟩
      · rw [hn]
        exact hblocks
  mock := by
    intro hmock'
    rw [hmock] at hmock'
    cases hmock'
  builds := by
    intro m hm
    refine ⟨?_, builds_fromRequestTracker hm hblocks ?_, ?_⟩
    · rw [(fromRequestTracker_meta hm).1, htracks.1, h.reqId]
    rotate_left
    · rw [← hload]
      exact (fromRequestTracker_meta hm).2.2.2
    · intro spec hspec hcan
      obtain ⟨hle, htokens⟩ := hloads spec hspec hcan
      exact ⟨hle, htracks.2, htokens, hfits.2.2⟩

/-- What is computed after the step covers what is loaded. -/
theorem loads_le {spec : LoadSpec} {vllmHit n : Nat} (hasked : Asked p.2.request vllmHit n spec)
    (hcomputed : p.2.request.numComputedTokens = vllmHit + n) (hcan : spec.canLoad = decide (n ≠ 0))
    (hcan' : spec.canLoad = true) (hpos : 0 < p.1.numScheduledTokens) :
    spec.lmcacheCachedTokens ≤ p.2.request.numComputedTokens + p.1.numScheduledTokens ∧
      spec.vllmCachedTokens < spec.lmcacheCachedTokens ∧
      (p.2.request.numComputedTokens = spec.lmcacheCachedTokens ∨
        p.2.request.numComputedTokens + 1 = spec.lmcacheCachedTokens ∧
          spec.lmcacheCachedTokens = p.2.request.numTokens) := by
  obtain ⟨hvllm, hhit, hanswer⟩ := hasked
  rw [hcan', eq_comm, decide_eq_true_iff] at hcan
  unfold needToAllocate at hanswer
  dsimp only at hanswer
  split at hanswer
  · omega
  · omega

/-- **A new request.** -/
theorem advanced_addNewRequest (hc : s.config = c) (h : (s.view p.1.reqId).Kept p.1.reqId p.2)
    (hmock : (s.view p.1.reqId).MockFree p.1.reqId) (hstage : p.2.stage = .allocated false)
    (hfits : VllmRun.Fits c p.1 p.2) :
    Advanced c s
      (s.addNewRequest (VllmRun.newRequestData p).1 (VllmRun.newRequestData p).2).2 p
      (s.addNewRequest (VllmRun.newRequestData p).1 (VllmRun.newRequestData p).2).1 := by
  have hat := h.stage
  unfold View.AtStage at hat
  rw [hstage] at hat
  obtain ⟨hpausing, hunfinished, hspec⟩ := hat
  rw [h.reqId] at hspec
  unfold addNewRequest
  by_cases hm : isMock p.1.reqId = true
  · rw [if_pos (show isMock (VllmRun.newRequestData p).1.reqId = true from hm)]
    refine ⟨Only.refl s _, ⟨h.reqId, h.prompt, hunfinished, fun hno => ?_⟩, hmock, nofun⟩
    rw [show isMock (VllmRun.advance p).request.requestId = true from h.reqId.symm ▸ hm] at hno
    cases hno
  · rw [if_neg (show ¬ isMock (VllmRun.newRequestData p).1.reqId = true from hm)]
    have hno := Bool.eq_false_of_not_eq_true hm
    obtain ⟨spec, vllmHit, n, hload, hasked, hcomputed, hcan⟩ := hspec hno
    subst hc
    dsimp only
    refine advanced_track h hno hunfinished rfl ⟨h.reqId.symm, rfl⟩ ?_ hfits ?_ _ _
    · show p.1.newBlockIds.getD [] = _
      rw [hpausing.blocks, List.nil_append]
    · intro spec' hspec' hcan'
      rw [hload] at hspec'
      cases hspec'
      refine ⟨(loads_le hasked hcomputed hcan hcan' hfits.1).1, ?_⟩
      have hfresh := congrArg List.length (hpausing.fresh rfl)
      exact (List.length_take).trans (Nat.min_eq_left (hfresh ▸ hfits.2.1))

theorem updateTracker_of_ok {tracker' : RequestTracker} {newTokenIds : List Int}
    {newBlockIds : Option (List Nat)} {preempted : Bool} {allTokenIds : Option (List Int)}
    (h : tracker.update newTokenIds newBlockIds preempted
      ((loadSpec.map LoadSpec.lmcacheCachedTokens).getD 0)
      ((loadSpec.map LoadSpec.vllmCachedTokens).getD 0) allTokenIds = .ok tracker') :
    s.updateTracker tracker reqId newTokenIds newBlockIds preempted loadSpec allTokenIds =
      .ok ((fromRequestTracker s.config tracker' loadSpec).1, { s with
        loadSpecs := s.loadSpecs.erase reqId
        requestTrackers := s.requestTrackers.set reqId
          (fromRequestTracker s.config tracker' loadSpec).2 }) := by
  unfold updateTracker
  dsimp only
  rw [h]
  rfl

/-- The tokens that are scheduled are there. -/
theorem length_newTokenIds (hfits : VllmRun.Fits c p.1 p.2) :
    ((p.2.request.allTokenIds.drop p.2.request.numComputedTokens).take
      p.1.numScheduledTokens).length = p.1.numScheduledTokens := by
  have hle := hfits.2.1
  unfold VllmRequest.numTokens at hle
  rw [List.length_take, List.length_drop]
  omega

/-- A running request gets its new tokens and blocks; there is nothing to load. -/
theorem advanced_running (h : (s.view p.1.reqId).Kept p.1.reqId p.2)
    (hmock : isMock p.1.reqId = false) (hstage : p.2.stage = .running)
    (hfits : VllmRun.Fits s.config p.1 p.2)
    (htracker : s.requestTrackers.get? p.1.reqId = some tracker) (newTokenIds : List Int) :
    ∃ made s', s.updateTracker tracker p.1.reqId newTokenIds p.1.newBlockIds false
      (s.loadSpecs.get? p.1.reqId) none = .ok (made, s') ∧ Advanced s.config s s' p made := by
  have hat := h.stage
  unfold View.AtStage at hat
  rw [hstage] at hat
  obtain ⟨hunfinished, hat⟩ := hat
  obtain ⟨hload, tracker', htracker', htracks, hblocks⟩ := hat (h.reqId.symm ▸ hmock)
  rw [show s.requestTrackers.get? p.1.reqId = some tracker' from htracker'] at htracker
  cases htracker
  rw [show s.loadSpecs.get? p.1.reqId = none from hload]
  refine ⟨_, _, updateTracker_of_ok (RequestTracker.update_running _ _ _ _ _ _), ?_⟩
  refine advanced_track h hmock hunfinished hload.symm ?_ ?_ hfits ?_ _ _
  · exact ⟨htracks.1, htracks.2⟩
  · show tracker.allocatedBlockIds ++ p.1.newBlockIds.getD [] = _
    rw [hblocks]
  · intro spec hspec
    cases hspec

/-- A resumed request starts over with the tokens that the scheduler counts as computed. -/
theorem advanced_resumed (h : (s.view p.1.reqId).Kept p.1.reqId p.2)
    (hmock : isMock p.1.reqId = false) (hstage : p.2.stage = .allocated true)
    (hfits : VllmRun.Fits s.config p.1 p.2)
    (htracker : s.requestTrackers.get? p.1.reqId = some tracker) :
    ∃ made s', s.updateTracker tracker p.1.reqId
      ((p.2.request.allTokenIds.drop p.2.request.numComputedTokens).take p.1.numScheduledTokens)
      p.1.newBlockIds true (s.loadSpecs.get? p.1.reqId) (some p.2.request.allTokenIds) =
        .ok (made, s') ∧ Advanced s.config s s' p made := by
  have hat := h.stage
  unfold View.AtStage at hat
  rw [hstage] at hat
  obtain ⟨hpausing, hunfinished, hspec⟩ := hat
  obtain ⟨spec, vllmHit, n, hload, hasked, hcomputed, hcan⟩ := hspec (h.reqId.symm ▸ hmock)
  obtain ⟨tracker', htracker', htracks⟩ := hpausing.tracker rfl (h.reqId.symm ▸ hmock)
  rw [show s.requestTrackers.get? p.1.reqId = some tracker' from htracker'] at htracker
  cases htracker
  rw [show s.loadSpecs.get? p.1.reqId = some spec from hload]
  refine ⟨_, _, updateTracker_of_ok (RequestTracker.update_preempted _ _ _ _ _ _), ?_⟩
  refine advanced_track h hmock hunfinished hload.symm ?_ ?_ hfits ?_ _ _
  · exact ⟨htracks.1, htracks.2⟩
  · show p.1.newBlockIds.getD [] = _
    rw [hpausing.blocks, List.nil_append]
  · rintro _ ⟨⟩ hcan'
    obtain ⟨hle, hlt, hnum⟩ := loads_le hasked hcomputed hcan hcan' hfits.1
    refine ⟨hle, ?_⟩
    have hthere := hfits.2.1
    unfold VllmRequest.numTokens at hthere hnum
    -- a full hit leaves the one token to compute that the scheduler was told of
    show (List.take (max (max spec.lmcacheCachedTokens spec.vllmCachedTokens + List.length _)
      spec.lmcacheCachedTokens) p.2.request.allTokenIds).length = _
    rw [length_newTokenIds hfits, List.length_take]
    omega

/-- The scheduler's reference is to the request as it is. -/
theorem unfinished_eq (h : (s.view reqId).unfinished = true)
    (requests : String → Option VllmRequest) :
    s.unfinished requests reqId = requests reqId := if_pos (of_decide_eq_true h)

/-- Nothing but the id of a mock request is missing. -/
theorem tracker_of_kept {v : View} {t : Tracked} (h : v.Kept reqId t)
    (hstage : t.stage = .running ∨ t.stage = .allocated true) (hmock : isMock reqId = false) :
    ∃ tracker, v.tracker = some tracker := by
  have hat := h.stage
  unfold View.AtStage at hat
  rcases hstage with hstage | hstage
  · rw [hstage] at hat
    obtain ⟨-, tracker, htracker, -⟩ := hat.2 (h.reqId.symm ▸ hmock)
    exact ⟨tracker, htracker⟩
  · rw [hstage] at hat
    obtain ⟨tracker, htracker, -⟩ := hat.1.tracker rfl (h.reqId.symm ▸ hmock)
    exact ⟨tracker, htracker⟩

theorem unfinished_of_kept {v : View} {t : Tracked} (h : v.Kept reqId t)
    (hstage : t.stage = .running ∨ t.stage = .allocated true) : v.unfinished = true := by
  have hat := h.stage
  unfold View.AtStage at hat
  rcases hstage with hstage | hstage
  · rw [hstage] at hat
    exact hat.1
  · rw [hstage] at hat
    exact hat.2.1

/-- How a cached request may come to raise: it is a mock request, or it is a resumed one of which
the adapter has found every token. -/
def Halts (asList : Bool) (v : View) (p : Scheduled × Tracked) (e : PyError) : Prop :=
  e = .keyError p.1.reqId ∨
    asList = false ∧ p.2.stage = .allocated true ∧
      ∃ spec, v.loadSpec = some spec ∧ spec.lmcacheCachedTokens = p.2.request.numTokens

/-- **A cached request.** -/
theorem advanced_addCachedRequest (h : (s.view p.1.reqId).Kept p.1.reqId p.2)
    (hmock : (s.view p.1.reqId).MockFree p.1.reqId)
    (hstage : p.2.stage = .running ∨ p.2.stage = .allocated true)
    (hfits : VllmRun.Fits s.config p.1 p.2) (hlive : requests p.1.reqId = some p.2.request) :
    (∃ made s', s.addCachedRequest requests (VllmRun.cachedRequest p) = .ok (made, s') ∧
        Advanced s.config s s' p made) ∨
      ∃ e, s.addCachedRequest requests (VllmRun.cachedRequest p) = .error e ∧
        Halts false (s.view p.1.reqId) p e := by
  have hid : (VllmRun.cachedRequest p).reqId = p.1.reqId := rfl
  unfold addCachedRequest
  rw [hid]
  by_cases hm : isMock p.1.reqId = true
  · rw [show s.requestTrackers.get? p.1.reqId = none from (hmock hm).2]
    exact .inr ⟨_, rfl, .inl rfl⟩
  · have hno := Bool.eq_false_of_not_eq_true hm
    obtain ⟨tracker, htracker⟩ := tracker_of_kept h hstage hno
    rw [show s.requestTrackers.get? p.1.reqId = some tracker from htracker]
    dsimp only
    rw [unfinished_eq (unfinished_of_kept h hstage), hlive]
    dsimp only
    rcases hstage with hstage | hstage
    · have hresumed : (VllmRun.cachedRequest p).resumedFromPreemption = false := by
        show decide (p.2.stage = .allocated true) = false
        rw [hstage]
        rfl
      rw [hresumed, if_neg Bool.false_ne_true]
      exact .inl (advanced_running h hno hstage hfits htracker _)
    · have hresumed : (VllmRun.cachedRequest p).resumedFromPreemption = true :=
        decide_eq_true hstage
      have hresult := advanced_resumed h hno hstage hfits htracker
      have hat := h.stage
      unfold View.AtStage at hat
      rw [hstage] at hat
      obtain ⟨spec, vllmHit, n, hload, hasked, hcomputed, -⟩ := hat.2.2 (h.reqId.symm ▸ hno)
      rw [show s.loadSpecs.get? p.1.reqId = some spec from hload] at hresult ⊢
      rw [hresumed, if_pos rfl]
      dsimp only
      split
      · exact .inl hresult
      · rename_i hdiffers
        refine .inr ⟨_, rfl, .inr ⟨rfl, hstage, spec, hload, ?_⟩⟩
        by_contra hpart
        -- the scheduler has computed the larger of the two hits
        apply hdiffers
        obtain ⟨hvllm, -, hanswer⟩ := hasked
        unfold needToAllocate at hanswer
        dsimp only at hanswer
        rw [if_neg hpart] at hanswer
        omega

/-- A cached request in a list. -/
theorem advanced_addListedRequest (h : (s.view p.1.reqId).Kept p.1.reqId p.2)
    (hmock : (s.view p.1.reqId).MockFree p.1.reqId)
    (hstage : p.2.stage = .running ∨ p.2.stage = .allocated true)
    (hfits : VllmRun.Fits s.config p.1 p.2) (hlive : requests p.1.reqId = some p.2.request) :
    (∃ made s', s.addListedRequest requests (VllmRun.cachedRequest p) = .ok (made, s') ∧
        Advanced s.config s s' p made) ∨
      s.addListedRequest requests (VllmRun.cachedRequest p) = .error (.keyError p.1.reqId) := by
  have hid : (VllmRun.cachedRequest p).reqId = p.1.reqId := rfl
  unfold addListedRequest
  rw [hid]
  by_cases hm : isMock p.1.reqId = true
  · rw [show s.requestTrackers.get? p.1.reqId = none from (hmock hm).2]
    exact .inr rfl
  · have hno := Bool.eq_false_of_not_eq_true hm
    obtain ⟨tracker, htracker⟩ := tracker_of_kept h hstage hno
    rw [show s.requestTrackers.get? p.1.reqId = some tracker from htracker]
    dsimp only
    rw [unfinished_eq (unfinished_of_kept h hstage), hlive]
    dsimp only
    rcases hstage with hstage | hstage
    · have hresumed : (VllmRun.cachedRequest p).resumedFromPreemption = false := by
        show decide (p.2.stage = .allocated true) = false
        rw [hstage]
        rfl
      rw [hresumed, if_neg Bool.false_ne_true]
      exact .inl (advanced_running h hno hstage hfits htracker _)
    · have hresumed : (VllmRun.cachedRequest p).resumedFromPreemption = true :=
        decide_eq_true hstage
      rw [hresumed, if_pos rfl]
      exact .inl (advanced_resumed h hno hstage hfits htracker)

theorem advanced_addScheduledAgain (h : (s.view p.1.reqId).Kept p.1.reqId p.2)
    (hmock : (s.view p.1.reqId).MockFree p.1.reqId)
    (hstage : p.2.stage = .running ∨ p.2.stage = .allocated true)
    (hfits : VllmRun.Fits s.config p.1 p.2) (hlive : requests p.1.reqId = some p.2.request)
    (asList : Bool) :
    (∃ made s', s.addScheduledAgain requests asList (VllmRun.cachedRequest p) = .ok (made, s') ∧
        Advanced s.config s s' p made) ∨
      ∃ e, s.addScheduledAgain requests asList (VllmRun.cachedRequest p) = .error e ∧
        Halts asList (s.view p.1.reqId) p e := by
  match asList with
  | true =>
    rcases advanced_addListedRequest h hmock hstage hfits hlive with hok | herr
    · exact .inl hok
    · exact .inr ⟨_, herr, .inl rfl⟩
  | false => exact advanced_addCachedRequest h hmock hstage hfits hlive

/-! ## The loops of a step -/

/-- What may come of all requests of a loop. -/
structure AdvancedAll (c : AdapterConfig) (s s' : SchedulerConnector)
    (ps : List (Scheduled × Tracked)) (metas : List ReqMeta) : Prop where
  config : s'.config = s.config
  view_notMem : ∀ id, id ∉ ps.map (fun p => p.1.reqId) → s'.view id = s.view id
  kept : ∀ p ∈ ps, (s'.view p.1.reqId).Kept p.1.reqId (VllmRun.advance p)
  mock : ∀ p ∈ ps, (s'.view p.1.reqId).MockFree p.1.reqId
  builds : ∀ m ∈ metas, ∃ p ∈ ps, m.reqId = p.1.reqId ∧ Builds c (VllmRun.advance p) m ∧
    m.loadSpec = (s.view p.1.reqId).loadSpec.filter LoadSpec.canLoad

theorem addEach_cons {ε : Type}
    (add : SchedulerConnector → ε → Except PyError (Option ReqMeta × SchedulerConnector))
    (s : SchedulerConnector) (entry : ε) (rest : List ε) :
    addEach add s (entry :: rest) = (do
      let made ← add s entry
      let later ← addEach add made.2 rest
      return (made.1.toList ++ later.1, later.2)) := rfl

/-- **A loop over distinct requests**: each comes out as it would alone, or one of them raises. -/
theorem addEach_advanced {ε : Type}
    (add : SchedulerConnector → ε → Except PyError (Option ReqMeta × SchedulerConnector))
    (entry : Scheduled × Tracked → ε) (bad : Scheduled × Tracked → PyError → Prop)
    {ps : List (Scheduled × Tracked)} {s₀ : SchedulerConnector}
    (hadd : ∀ p ∈ ps, ∀ s : SchedulerConnector, s.config = c →
      s.view p.1.reqId = s₀.view p.1.reqId →
        (∃ made s', add s (entry p) = .ok (made, s') ∧ Advanced c s s' p made) ∨
          ∃ e, add s (entry p) = .error e ∧ bad p e) (hnodup : (ps.map fun p => p.1.reqId).Nodup)
    (hc : s.config = c) (hview : ∀ p ∈ ps, s.view p.1.reqId = s₀.view p.1.reqId) :
    (∃ metas s', addEach add s (ps.map entry) = .ok (metas, s') ∧ AdvancedAll c s s' ps metas) ∨
      ∃ e, addEach add s (ps.map entry) = .error e ∧ ∃ p ∈ ps, bad p e := by
  induction ps generalizing s with
  | nil => exact .inl ⟨[], s, rfl, rfl, fun _ _ => rfl, nofun, nofun, nofun⟩
  | cons p ps ih =>
    rw [List.map_cons, List.nodup_cons] at hnodup
    rw [List.map_cons, addEach_cons]
    rcases hadd p List.mem_cons_self s hc (hview p List.mem_cons_self) with
      ⟨made, s', heq, hadvanced⟩ | ⟨e, heq, hbad⟩
    case inr =>
      refine .inr ⟨e, ?_, p, List.mem_cons_self, hbad⟩
      rw [heq]
      rfl
    have hother (q : Scheduled × Tracked) (hq : q ∈ ps) : q.1.reqId ≠ p.1.reqId := by
      intro hid
      exact hnodup.1 (hid ▸ List.mem_map_of_mem (f := fun p => p.1.reqId) hq)
    rcases ih (s := s') (fun q hq => hadd q (List.mem_cons_of_mem _ hq)) hnodup.2
        (hadvanced.only.config.trans hc) (fun q hq => (hadvanced.only.view_ne _ (hother q hq)).trans
          (hview q (List.mem_cons_of_mem _ hq))) with
      ⟨metas, s'', heq', hall⟩ | ⟨e, heq', q, hq, hbad⟩
    case inr =>
      refine .inr ⟨e, ?_, q, List.mem_cons_of_mem _ hq, hbad⟩
      rw [heq]
      show (addEach add s' (ps.map entry) >>= _) = _
      rw [heq']
      rfl
    have hself := hall.view_notMem p.1.reqId hnodup.1
    refine .inl ⟨made.toList ++ metas, s'', ?_, ?_, ?_, ?_, ?_, ?_⟩
    · rw [heq]
      show (addEach add s' (ps.map entry) >>= _) = _
      rw [heq']
      rfl
    · exact hall.config.trans hadvanced.only.config
    · intro id hid
      rw [List.map_cons, List.mem_cons, not_or] at hid
      exact (hall.view_notMem id hid.2).trans (hadvanced.only.view_ne id hid.1)
    · intro q hq
      rcases List.mem_cons.mp hq with rfl | hq
      · rw [hself]
        exact hadvanced.kept
      · exact hall.kept q hq
    · intro q hq
      rcases List.mem_cons.mp hq with rfl | hq
      · rw [hself]
        exact hadvanced.mock
      · exact hall.mock q hq
    · intro m hm
      rcases List.mem_append.mp hm with hm | hm
      · exact ⟨p, List.mem_cons_self, hadvanced.builds m (Option.mem_toList.mp hm)⟩
      · obtain ⟨q, hq, hbuilds⟩ := hall.builds m hm
        rw [hadvanced.only.view_ne _ (hother q hq)] at hbuilds
        exact ⟨q, List.mem_cons_of_mem _ hq, hbuilds⟩

theorem forgetFinished_config (s : SchedulerConnector) (ids : List String) :
    (ids.foldl forgetFinished s).config = s.config :=
  List.foldlRecOn (motive := fun s' : SchedulerConnector => s'.config = s.config) ids
    forgetFinished rfl fun _ h _ _ => h

theorem forgetFinished_view {ids : List String} {id : String} (h : id ∉ ids) :
    (ids.foldl forgetFinished s).view id = s.view id := by
  refine List.foldlRecOn (motive := fun s' : SchedulerConnector => s'.view id = s.view id) ids
    forgetFinished rfl fun s' hs' id' hid' => ?_
  have hne : id ≠ id' := by
    rintro rfl
    exact h hid'
  rw [← hs']
  unfold view forgetFinished
  dsimp only
  rw [Dict.get?_erase, if_neg hne]
  congr 1
  simp [hne]

theorem forgetFinished_mockFree {id : String} (h : (s.view id).MockFree id) (ids : List String) :
    ((ids.foldl forgetFinished s).view id).MockFree id := by
  refine List.foldlRecOn (motive := fun s' : SchedulerConnector => (s'.view id).MockFree id) ids
    forgetFinished h fun s' hs' id' _ => ?_
  intro hmock
  obtain ⟨hload, htracker⟩ := hs' hmock
  refine ⟨hload, ?_⟩
  show (s'.requestTrackers.erase id').get? id = none
  rw [Dict.get?_erase]
  split
  · rfl
  · exact htracker

end SchedulerConnector

namespace VllmRun

open SchedulerConnector

/-! ## Every request fits -/

/-- Every request of the scheduler fits what the adapter has of it, and so does what the last step
has built. -/
structure Steady (c : AdapterConfig) (s : VllmRun) : Prop where
  config : s.connector.config = c
  mock : ∀ id, (s.connector.view id).MockFree id
  requests : ∀ id t, s.requests.get? id = some t → (s.connector.view id).Kept id t
  finished : ∀ id ∈ s.finishedReqIds, id ∉ s.requests
  metas : ∀ m ∈ s.metas, ∃ t, s.requests.get? m.reqId = some t ∧ Builds c t m

theorem steady_init (c : AdapterConfig) (kvRole : KvRole) (forceSkipSave : Bool)
    (priorityLimit : Option Int) (skipLastNTokens : Nat) :
    Steady c (init (.init c kvRole forceSkipSave priorityLimit skipLastNTokens)) where
  config := rfl
  mock := fun _ _ => ⟨rfl, rfl⟩
  requests := nofun
  finished := nofun
  metas := nofun

variable {c : AdapterConfig} {s : VllmRun}

/-- A turn in which nothing is built. -/
theorem Steady.quiet (h : Steady c s) (raised : Option PyError) :
    Steady c { s with metas := [], raised := raised } :=
  ⟨h.config, h.mock, h.requests, h.finished, nofun⟩

/-- One request has moved, and what the adapter has of it. -/
theorem Steady.put (h : Steady c s) {reqId : String} {t : Tracked} {connector : SchedulerConnector}
    (honly : s.connector.Only connector reqId) (hmock : (connector.view reqId).MockFree reqId)
    (hkept : (connector.view reqId).Kept reqId t) (hfinished : reqId ∉ s.finishedReqIds) :
    Steady c ({ s with connector := connector }.put reqId t) where
  config := honly.config.trans h.config
  mock := by
    intro id
    show (connector.view id).MockFree id
    by_cases hid : id = reqId
    · rw [hid]
      exact hmock
    · rw [honly.view_ne id hid]
      exact h.mock id
  requests := by
    intro id t' hget
    show (connector.view id).Kept id t'
    have hset : (s.requests.set reqId t).get? id = some t' := hget
    rw [Dict.get?_set] at hset
    split at hset
    · rename_i hid
      cases hset
      rw [hid]
      exact hkept
    · rename_i hid
      rw [honly.view_ne id hid]
      exact h.requests id t' hset
  finished := by
    intro id hid hmem
    have hset : id ∈ s.requests.set reqId t := hmem
    rw [Dict.mem_set] at hset
    rcases hset with rfl | hset
    · exact hfinished hid
    · exact h.finished id hid hset
  metas := nofun

theorem Steady.notMem_finished (h : Steady c s) {reqId : String} {t : Tracked}
    (hget : s.requests.get? reqId = some t) : reqId ∉ s.finishedReqIds :=
  fun hid => h.finished reqId hid (Dict.mem_iff_get?.mpr ⟨t, hget⟩)

theorem steady_addRequest (h : Steady c s) (request : VllmRequest) :
    Steady c (s.addRequest request) := by
  unfold addRequest
  split
  · exact h.quiet s.raised
  · rename_i hnew
    rw [not_or] at hnew
    apply h.put (Only.refl _ _) (h.mock _) ?_ hnew.2
    exact ⟨rfl, Nat.le_refl _, ⟨rfl, fun _ => rfl, nofun⟩, nofun⟩

/-- No more tokens are looked up than the request has. -/
theorem length_lookupTokens_le (connector : SchedulerConnector) {request : VllmRequest}
    (h : request.promptTokenIds.length ≤ request.numTokens) :
    (connector.lookupTokens request).length ≤ request.numTokens := by
  unfold lookupTokens
  dsimp only
  have hall : (if request.mmFeatures.isEmpty then request.allTokenIds
      else applyMmHashesToTokenIds connector.config.sha256 request.promptTokenIds
        request.mmFeatures).length ≤ request.numTokens := by
    split
    · exact Nat.le_refl _
    · rw [length_applyMmHashesToTokenIds]
      exact h
  split
  · rw [List.length_take]
    exact (Nat.min_le_right _ _).trans hall
  · exact hall

theorem steady_getNumNewMatchedTokens (h : Steady c s) (reqId : String) (numComputedTokens : Nat)
    (lookupCache : Option (Option Nat)) (lookup : Option Nat) :
    Steady c (s.getNumNewMatchedTokens reqId numComputedTokens lookupCache lookup) := by
  unfold getNumNewMatchedTokens
  match hget : s.requests.get? reqId with
  | none => exact h.quiet s.raised
  | some ⟨request, .allocated resumed, blockIds⟩ => exact h.quiet s.raised
  | some ⟨request, .running, blockIds⟩ => exact h.quiet s.raised
  | some ⟨request, .waiting resumed last, blockIds⟩ =>
    dsimp only
    split
    case isFalse => exact h.quiet s.raised
    rename_i hshort
    have hkept := h.requests reqId _ hget
    have hid : request.requestId = reqId := hkept.reqId
    have hpausing := hkept.stage.1
    have hfinished := h.notMem_finished hget
    rcases
      s.connector.getNumNewMatchedTokens_cases request numComputedTokens lookupCache lookup with
      ⟨heq, hmock⟩ | ⟨hmock, priorities, ⟨-, heq⟩ | ⟨hit, hanswer, heq⟩⟩
    · rw [heq]
      refine h.put (Only.refl _ _) (h.mock _) ⟨hid, hkept.prompt,
        ⟨hpausing.blocks, hpausing.fresh, hpausing.tracker⟩, ?_⟩ hfinished
      intro vllmHit n _ hno
      rw [show isMock request.requestId = false from hno] at hmock
      cases hmock
    · rw [heq]
      have honly : s.connector.Only { s.connector with requestsPriority := priorities } reqId :=
        ⟨rfl, fun _ _ => rfl⟩
      refine h.put honly (h.mock reqId) ⟨hid, hkept.prompt,
        ⟨hpausing.blocks, hpausing.fresh, hpausing.tracker⟩, ?_⟩ hfinished
      rintro vllmHit n ⟨⟩
    · rw [heq, hid]
      have hself : (s.connector.loadSpecs.set reqId ⟨numComputedTokens, hit, false⟩).get? reqId =
          some ⟨numComputedTokens, hit, false⟩ := (Dict.get?_set _ _ _ _).trans (if_pos rfl)
      refine h.put ⟨rfl, fun id hne => view_set_ne hne (.inr (.inr ⟨_, rfl⟩)) (.inl rfl) (.inl rfl)⟩
        ?_ ⟨hid, hkept.prompt, ⟨hpausing.blocks, hpausing.fresh, hpausing.tracker⟩, ?_⟩ hfinished
      · intro hmock'
        rw [hid, hmock'] at hmock
        cases hmock
      · rintro vllmHit n ⟨⟩ -
        refine ⟨_, hself, rfl, ?_, rfl⟩
        rw [hanswer] at hshort
        exact (of_decide_eq_true hshort).trans (length_lookupTokens_le _ hkept.prompt)

/-- **Step lemma: an allocation.**  It never raises. -/
theorem steady_updateStateAfterAlloc (h : Steady c s) (reqId : String) :
    Steady c (s.updateStateAfterAlloc reqId) ∧
      (s.updateStateAfterAlloc reqId).raised = s.raised := by
  unfold updateStateAfterAlloc
  match hget : s.requests.get? reqId with
  | none => exact ⟨h.quiet s.raised, rfl⟩
  | some ⟨request, .allocated resumed, blockIds⟩ => exact ⟨h.quiet s.raised, rfl⟩
  | some ⟨request, .running, blockIds⟩ => exact ⟨h.quiet s.raised, rfl⟩
  | some ⟨request, .waiting resumed none, blockIds⟩ => exact ⟨h.quiet s.raised, rfl⟩
  | some ⟨request, .waiting resumed (some (vllmHit, none)), blockIds⟩ =>
    exact ⟨h.quiet s.raised, rfl⟩
  | some ⟨request, .waiting resumed (some (vllmHit, some n)), blockIds⟩ =>
    dsimp only
    split
    case isFalse => exact ⟨h.quiet s.raised, rfl⟩
    have hkept := h.requests reqId _ hget
    have hid : request.requestId = reqId := hkept.reqId
    obtain ⟨hpausing, hlast⟩ := hkept.stage
    have hlast := hlast vllmHit n rfl
    have hfinished := h.notMem_finished hget
    -- a mock request has no load spec, and any other the one of its last answer
    have hasked : ∀ spec ∈ s.connector.loadSpecs.get? request.requestId,
        Asked request vllmHit n spec := by
      intro spec hspec
      rw [hid] at hspec
      by_cases hmock : isMock request.requestId = true
      · have hnone : s.connector.loadSpecs.get? reqId = none := (h.mock reqId (hid ▸ hmock)).1
        rw [hnone] at hspec
        cases hspec
      · obtain ⟨spec', hspec', hasked⟩ := hlast (Bool.eq_false_of_not_eq_true hmock)
        rw [show s.connector.loadSpecs.get? reqId = some spec' from hspec'] at hspec
        cases hspec
        exact hasked
    obtain ⟨disagg, loadSpecs, heq, hspecs⟩ := updateStateAfterAlloc_of_asked hasked
    rw [heq]
    dsimp only
    refine ⟨?_, rfl⟩
    have hunfinished : decide (reqId ∈ insert request.requestId s.connector.unfinishedRequests) =
        true := by
      rw [hid]
      exact decide_eq_true (Finset.mem_insert_self _ _)
    refine h.put ⟨rfl, fun id hne => view_set_ne hne ?_ (.inl rfl) (.inr (by rw [hid]))⟩ ?_
      ⟨hid, hkept.prompt, ⟨hpausing.blocks, hpausing.fresh, hpausing.tracker⟩, hunfinished, ?_⟩
      hfinished
    · rcases hspecs with ⟨hsame, -⟩ | ⟨spec, -, hset⟩
      · exact .inl hsame
      · exact .inr (.inr ⟨_, hid ▸ hset⟩)
    · intro hmock
      obtain ⟨hload, htracker⟩ := h.mock reqId hmock
      refine ⟨?_, htracker⟩
      rcases hspecs with ⟨hsame, -⟩ | ⟨spec, hspec, -⟩
      · exact hsame ▸ hload
      · rw [hid, show s.connector.loadSpecs.get? reqId = none from hload] at hspec
        cases hspec
    · intro hmock
      obtain ⟨spec', hspec', hasked'⟩ := hlast hmock
      rcases hspecs with ⟨-, hnone⟩ | ⟨spec, hspec, hset⟩
      · rw [hid, show s.connector.loadSpecs.get? reqId = some spec' from hspec'] at hnone
        cases hnone
      · have hself : loadSpecs.get? reqId = some { spec with canLoad := n ≠ 0 } := by
          rw [hset, hid, Dict.get?_set, if_pos rfl]
        rw [hid, show s.connector.loadSpecs.get? reqId = some spec' from hspec'] at hspec
        cases hspec
        exact ⟨_, vllmHit, n, hself, ⟨hasked'.vllm, hasked'.hit, hasked'.answer⟩, rfl, rfl⟩

/-! ### A step of the scheduler -/

variable {l : List Scheduled}

theorem mem_tracked {p : Scheduled × Tracked} :
    p ∈ s.tracked l ↔ p.1 ∈ l ∧ s.requests.get? p.1.reqId = some p.2 := by
  unfold tracked
  rw [List.mem_filterMap]
  constructor
  · rintro ⟨sched, hsched, heq⟩
    rw [Option.map_eq_some_iff] at heq
    obtain ⟨t, ht, rfl⟩ := heq
    exact ⟨hsched, ht⟩
  · rintro ⟨hsched, ht⟩
    exact ⟨p.1, hsched, by rw [ht]; rfl⟩

theorem tracked_append (l l' : List Scheduled) :
    s.tracked (l ++ l') = s.tracked l ++ s.tracked l' := List.filterMap_append

theorem reqIds_tracked_sublist (l : List Scheduled) :
    ((s.tracked l).map fun p => p.1.reqId).Sublist (l.map Scheduled.reqId) := by
  unfold tracked
  induction l with
  | nil => exact List.Sublist.refl _
  | cons sched l ih =>
    match hget : s.requests.get? sched.reqId with
    | none =>
      rw [List.filterMap_cons_none (by rw [hget]; rfl)]
      exact ih.cons _
    | some t =>
      rw [List.filterMap_cons_some (by rw [hget]; rfl)]
      exact ih.cons_cons _

/-- The requests after the step. -/
def advanced (s : VllmRun) (l : List Scheduled) : Dict String Tracked :=
  ((s.tracked l).map fun p => (p.1.reqId, advance p)).foldl
    (fun requests p => requests.set p.1 p.2) s.requests

theorem keys_advanced (l : List Scheduled) :
    ((s.tracked l).map fun p => (p.1.reqId, advance p)).map Prod.fst =
      (s.tracked l).map fun p => p.1.reqId := by
  rw [List.map_map]
  rfl

theorem get?_advanced_of_mem (hnodup : (l.map Scheduled.reqId).Nodup) {p : Scheduled × Tracked}
    (hp : p ∈ s.tracked l) : (s.advanced l).get? p.1.reqId = some (advance p) := by
  apply Dict.get?_foldl_set_of_mem
  · rw [keys_advanced]
    exact hnodup.sublist (reqIds_tracked_sublist l)
  · exact List.mem_map_of_mem (f := fun p => (p.1.reqId, advance p)) hp

theorem get?_advanced_of_notMem {id : String} (hid : id ∉ (s.tracked l).map fun p => p.1.reqId) :
    (s.advanced l).get? id = s.requests.get? id := by
  apply Dict.get?_foldl_set_of_notMem
  rw [keys_advanced]
  exact hid

/-- How a step may come to raise: the scheduler runs a mock request again, or resumes one of which
the adapter has found every token. -/
def StepHalts (s : VllmRun) (cached : List Scheduled) (asList : Bool) (e : PyError) : Prop :=
  (∃ id, e = .keyError id) ∨ asList = false ∧
    ∃ sched ∈ cached, ∃ t, s.requests.get? sched.reqId = some t ∧ t.stage = .allocated true ∧
      ∃ spec, s.connector.loadSpecs.get? sched.reqId = some spec ∧
        spec.lmcacheCachedTokens = t.request.numTokens

/-- The adapter's part of a step: all scheduled requests come out, or a cached one raises. -/
theorem buildConnectorMeta_spec (h : Steady c s) {new cached : List Scheduled} (asList : Bool)
    (hs : s.Schedulable new cached) :
    (∃ metas connector, s.connector.buildConnectorMeta s.live
        ⟨s.finishedReqIds, (s.tracked new).map newRequestData, (s.tracked cached).map cachedRequest,
          asList⟩ = .ok (metas, connector) ∧
        AdvancedAll c (s.finishedReqIds.foldl forgetFinished s.connector) connector
          (s.tracked (new ++ cached)) metas) ∨
      ∃ e, s.connector.buildConnectorMeta s.live
        ⟨s.finishedReqIds, (s.tracked new).map newRequestData, (s.tracked cached).map cachedRequest,
          asList⟩ = .error e ∧ s.StepHalts cached asList e := by
  obtain ⟨hnodup, hnew, hcached⟩ := hs
  have hids := hnodup.sublist (reqIds_tracked_sublist (s := s) (new ++ cached))
  rw [tracked_append, List.map_append] at hids
  obtain ⟨hids1, hids2, hdisj⟩ := List.nodup_append.mp hids
  unfold SchedulerConnector.buildConnectorMeta
  dsimp only
  generalize hs₀ : s.finishedReqIds.foldl forgetFinished s.connector = s₀
  have hc₀ : s₀.config = c := by
    rw [← hs₀, forgetFinished_config]
    exact h.config
  have hview (id : String) (t : Tracked) (hget : s.requests.get? id = some t) :
      s₀.view id = s.connector.view id := by
    rw [← hs₀]
    exact forgetFinished_view (h.notMem_finished hget)
  have hmock (id : String) : (s₀.view id).MockFree id := by
    rw [← hs₀]
    exact forgetFinished_mockFree (h.mock id) _
  -- the new requests
  obtain ⟨metas, s₁, heq₁, hall₁⟩ : ∃ metas s₁, s₀.addEach
      (fun s r => .ok (s.addNewRequest r.1 r.2)) ((s.tracked new).map newRequestData) =
        .ok (metas, s₁) ∧ AdvancedAll c s₀ s₁ (s.tracked new) metas := by
    have hadd (p : Scheduled × Tracked) (hp : p ∈ s.tracked new) (s' : SchedulerConnector)
        (hc' : s'.config = c) (hview' : s'.view p.1.reqId = s₀.view p.1.reqId) :
        Advanced c s' (s'.addNewRequest (newRequestData p).1 (newRequestData p).2).2 p
          (s'.addNewRequest (newRequestData p).1 (newRequestData p).2).1 := by
      obtain ⟨hsched, hget⟩ := mem_tracked.mp hp
      obtain ⟨t, ht, hstage, hfits⟩ := hnew p.1 hsched
      rw [Option.mem_def, hget] at ht
      cases ht
      apply advanced_addNewRequest hc' ?_ ?_ hstage (h.config ▸ hfits)
      · rw [hview', hview _ _ hget]
        exact h.requests _ _ hget
      · rw [hview']
        exact hmock _
    rcases addEach_advanced
        (fun (s : SchedulerConnector) (r : NewRequestData × Nat) => .ok (s.addNewRequest r.1 r.2))
        newRequestData (fun _ _ => False) (c := c) (s := s₀) (fun p hp s' hc' hview' => .inl
          ⟨(s'.addNewRequest (newRequestData p).1 (newRequestData p).2).1, _, rfl,
            hadd p hp s' hc' hview'⟩) hids1 hc₀ fun _ _ => rfl with
      hloop | ⟨e, -, p, -, hbad⟩
    · exact hloop
    · exact hbad.elim
  -- the requests that were scheduled before, which the loop over the new ones leaves alone
  have hview₁ (p : Scheduled × Tracked) (hp : p ∈ s.tracked cached) :
      s₁.view p.1.reqId = s₀.view p.1.reqId := by
    apply hall₁.view_notMem
    intro hid
    exact hdisj _ hid _ (List.mem_map_of_mem (f := fun p => p.1.reqId) hp) rfl
  have hcached' (p : Scheduled × Tracked) (hp : p ∈ s.tracked cached) (s' : SchedulerConnector)
      (hc' : s'.config = c) (hview' : s'.view p.1.reqId = s₀.view p.1.reqId) :
      (s'.view p.1.reqId).Kept p.1.reqId p.2 ∧ (s'.view p.1.reqId).MockFree p.1.reqId ∧
        (p.2.stage = .running ∨ p.2.stage = .allocated true) ∧ Fits s'.config p.1 p.2 ∧
        s.live p.1.reqId = some p.2.request := by
    obtain ⟨hsched, hget⟩ := mem_tracked.mp hp
    obtain ⟨t, ht, hstage, hfits⟩ := hcached p.1 hsched
    rw [Option.mem_def, hget] at ht
    cases ht
    rw [hview', hview _ _ hget, hc', ← h.config]
    refine ⟨h.requests _ _ hget, h.mock _, hstage, hfits, ?_⟩
    unfold live
    rw [hget]
    rfl
  have hloop := addEach_advanced (fun s' req => s'.addScheduledAgain s.live asList req)
    cachedRequest (fun p e => Halts asList (s₀.view p.1.reqId) p e) (c := c) (s := s₁)
    (fun p hp s' hc' hview' => by
      obtain ⟨hkept, hfree, hstage, hfits, hlive⟩ := hcached' p hp s' hc' hview'
      rw [← hview', ← hc']
      exact advanced_addScheduledAgain hkept hfree hstage hfits hlive asList)
    hids2 (hall₁.config.trans hc₀) hview₁
  rw [heq₁]
  rcases hloop with ⟨metas', s₂, heq₂, hall₂⟩ | ⟨e, heq₂, p, hp, hhalts⟩
  case inr =>
    refine .inr ⟨e, ?_, ?_⟩
    · show (s₁.addEach _ _ >>= _) = _
      rw [heq₂]
      rfl
    · obtain ⟨hsched, hget⟩ := mem_tracked.mp hp
      rcases hhalts with hkey | ⟨hlist, hstage, spec, hload, hfull⟩
      · exact .inl ⟨_, hkey⟩
      · rw [hview _ _ hget] at hload
        exact .inr ⟨hlist, p.1, hsched, p.2, hget, hstage, spec, hload, hfull⟩
  have hself (p : Scheduled × Tracked) (hp : p ∈ s.tracked new) :
      s₂.view p.1.reqId = s₁.view p.1.reqId := by
    apply hall₂.view_notMem
    intro hid
    exact hdisj _ (List.mem_map_of_mem (f := fun p => p.1.reqId) hp) _ hid rfl
  refine .inl ⟨metas ++ metas', s₂, ?_, ?_, ?_, ?_, ?_, ?_⟩
  · show (s₁.addEach _ _ >>= _) = _
    rw [heq₂]
    rfl
  · exact hall₂.config.trans hall₁.config
  · intro id hid
    rw [tracked_append, List.map_append, List.mem_append, not_or] at hid
    exact (hall₂.view_notMem id hid.2).trans (hall₁.view_notMem id hid.1)
  · intro p hp
    rw [tracked_append, List.mem_append] at hp
    rcases hp with hp | hp
    · rw [hself p hp]
      exact hall₁.kept p hp
    · exact hall₂.kept p hp
  · intro p hp
    rw [tracked_append, List.mem_append] at hp
    rcases hp with hp | hp
    · rw [hself p hp]
      exact hall₁.mock p hp
    · exact hall₂.mock p hp
  · intro m hm
    rw [tracked_append]
    rcases List.mem_append.mp hm with hm | hm
    · obtain ⟨p, hp, hbuilds⟩ := hall₁.builds m hm
      exact ⟨p, List.mem_append_left _ hp, hbuilds⟩
    · obtain ⟨p, hp, hbuilds⟩ := hall₂.builds m hm
      rw [hview₁ p hp] at hbuilds
      exact ⟨p, List.mem_append_right _ hp, hbuilds⟩

/-- **Step lemma: a step of the scheduler.** -/
theorem steady_buildConnectorMeta (h : Steady c s) (new cached : List Scheduled) (asList : Bool) :
    Steady c (s.buildConnectorMeta new cached asList) ∧
      ((s.buildConnectorMeta new cached asList).raised = s.raised ∨
        ∃ e, (s.buildConnectorMeta new cached asList).raised = some e ∧
          s.StepHalts cached asList e) ∧
      ∀ m ∈ (s.buildConnectorMeta new cached asList).metas, ∃ p ∈ s.tracked (new ++ cached),
        m.reqId = p.1.reqId ∧ Builds c (advance p) m ∧
          (s.buildConnectorMeta new cached asList).requests.get? m.reqId = some (advance p) ∧
            m.loadSpec = (s.connector.loadSpecs.get? p.1.reqId).filter LoadSpec.canLoad := by
  unfold buildConnectorMeta
  by_cases hs : s.Schedulable new cached
  case neg =>
    rw [if_neg hs]
    exact ⟨h.quiet s.raised, .inl rfl, nofun⟩
  rw [if_pos hs]
  rcases buildConnectorMeta_spec h asList hs with ⟨metas, connector, heq, hall⟩ | ⟨e, heq, hhalts⟩
  case inr =>
    rw [heq]
    exact ⟨h.quiet (some e), .inr ⟨e, rfl, hhalts⟩, nofun⟩
  rw [heq]
  have hmetas (m : ReqMeta) (hm : m ∈ metas) : ∃ p ∈ s.tracked (new ++ cached),
      m.reqId = p.1.reqId ∧ Builds c (advance p) m ∧
        (s.advanced (new ++ cached)).get? m.reqId = some (advance p) ∧
          m.loadSpec = (s.connector.loadSpecs.get? p.1.reqId).filter LoadSpec.canLoad := by
    obtain ⟨p, hp, hid, hbuilds, hload⟩ := hall.builds m hm
    rw [forgetFinished_view (h.notMem_finished (mem_tracked.mp hp).2)] at hload
    refine ⟨p, hp, hid, hbuilds, ?_, hload⟩
    rw [hid]
    exact get?_advanced_of_mem hs.1 hp
  refine ⟨⟨?_, ?_, ?_, nofun, ?_⟩, .inl rfl, hmetas⟩
  · exact hall.config.trans ((forgetFinished_config _ _).trans h.config)
  · intro id
    by_cases hid : id ∈ (s.tracked (new ++ cached)).map fun p => p.1.reqId
    · obtain ⟨p, hp, rfl⟩ := List.mem_map.mp hid
      exact hall.mock p hp
    · show (connector.view id).MockFree id
      rw [hall.view_notMem id hid]
      exact forgetFinished_mockFree (h.mock id) _
  · intro id t hget
    show (connector.view id).Kept id t
    by_cases hid : id ∈ (s.tracked (new ++ cached)).map fun p => p.1.reqId
    · obtain ⟨p, hp, rfl⟩ := List.mem_map.mp hid
      cases hget.symm.trans (get?_advanced_of_mem hs.1 hp)
      exact hall.kept p hp
    · have hold : s.requests.get? id = some t := (get?_advanced_of_notMem hid).symm.trans hget
      rw [hall.view_notMem id hid, forgetFinished_view (h.notMem_finished hold)]
      exact h.requests id t hold
  · intro m hm
    obtain ⟨p, -, -, hbuilds, hget, -⟩ := hmetas m hm
    exact ⟨advance p, hget, hbuilds⟩

/-! ### The other steps -/

theorem steady_appendToken (h : Steady c s) (reqId : String) (token : Int) :
    Steady c (s.appendToken reqId token) := by
  unfold appendToken
  match hget : s.requests.get? reqId with
  | none => exact h.quiet s.raised
  | some ⟨request, .allocated resumed, blockIds⟩ => exact h.quiet s.raised
  | some ⟨request, .waiting resumed last, blockIds⟩ => exact h.quiet s.raised
  | some ⟨request, .running, blockIds⟩ =>
    have hkept := h.requests reqId _ hget
    refine h.put (Only.refl _ _) (h.mock reqId) ⟨hkept.reqId, ?_, hkept.stage⟩
      (h.notMem_finished hget)
    show _ ≤ (request.allTokenIds ++ [token]).length
    rw [List.length_append]
    exact Nat.le_add_right_of_le hkept.prompt

theorem steady_preempt (h : Steady c s) (reqId : String) : Steady c (s.preempt reqId) := by
  unfold preempt
  match hget : s.requests.get? reqId with
  | none => exact h.quiet s.raised
  | some ⟨request, .allocated resumed, blockIds⟩ => exact h.quiet s.raised
  | some ⟨request, .waiting resumed last, blockIds⟩ => exact h.quiet s.raised
  | some ⟨request, .running, blockIds⟩ =>
    have hkept := h.requests reqId _ hget
    refine h.put (Only.refl _ _) (h.mock reqId) ⟨hkept.reqId, hkept.prompt, ⟨rfl, nofun, ?_⟩, nofun⟩
      (h.notMem_finished hget)
    intro _ hmock
    obtain ⟨-, tracker, htracker, htracks, -⟩ := hkept.stage.2 hmock
    exact ⟨tracker, htracker, htracks⟩

theorem steady_finish (h : Steady c s) (reqId : String) : Steady c (s.finish reqId) := by
  unfold finish
  split
  · refine ⟨h.config, h.mock, ?_, ?_, nofun⟩
    · intro id t hget
      have herase : (s.requests.erase reqId).get? id = some t := hget
      rw [Dict.get?_erase] at herase
      split at herase
      · cases herase
      · exact h.requests id t herase
    · intro id hid hmem
      have herase : id ∈ s.requests.erase reqId := hmem
      rw [Dict.mem_erase] at herase
      rcases List.mem_append.mp hid with hid | hid
      · exact h.finished id hid herase.2
      · exact herase.1 (List.mem_singleton.mp hid)
  · exact h.quiet s.raised

/-- **Step lemma.** -/
theorem steady_step (h : Steady c s) (e : VllmEvent) : Steady c (s.step e) := by
  unfold step
  split
  · exact h.quiet s.raised
  match e with
  | .addRequest request => exact steady_addRequest h request
  | .getNumNewMatchedTokens reqId numComputedTokens lookupCache lookup =>
    exact steady_getNumNewMatchedTokens h reqId numComputedTokens lookupCache lookup
  | .updateStateAfterAlloc reqId => exact (steady_updateStateAfterAlloc h reqId).1
  | .buildConnectorMeta new cached asList => exact (steady_buildConnectorMeta h new cached asList).1
  | .appendToken reqId token => exact steady_appendToken h reqId token
  | .preempt reqId => exact steady_preempt h reqId
  | .finish reqId => exact steady_finish h reqId

/-! ### Turns without metadata -/

theorem quiet_addRequest (s : VllmRun) (request : VllmRequest) :
    (s.addRequest request).metas = [] ∧ (s.addRequest request).raised = s.raised := by
  unfold addRequest
  split
  · exact ⟨rfl, rfl⟩
  · exact ⟨rfl, rfl⟩

theorem quiet_getNumNewMatchedTokens (s : VllmRun) (reqId : String) (numComputedTokens : Nat)
    (lookupCache : Option (Option Nat)) (lookup : Option Nat) :
    (s.getNumNewMatchedTokens reqId numComputedTokens lookupCache lookup).metas = [] ∧
      (s.getNumNewMatchedTokens reqId numComputedTokens lookupCache lookup).raised = s.raised := by
  unfold getNumNewMatchedTokens
  split
  · dsimp only
    split
    · exact ⟨rfl, rfl⟩
    · exact ⟨rfl, rfl⟩
  · exact ⟨rfl, rfl⟩

theorem metas_updateStateAfterAlloc (s : VllmRun) (reqId : String) :
    (s.updateStateAfterAlloc reqId).metas = [] := by
  unfold updateStateAfterAlloc
  split
  · split
    · split
      · rfl
      · rfl
    · rfl
  · rfl

theorem quiet_appendToken (s : VllmRun) (reqId : String) (token : Int) :
    (s.appendToken reqId token).metas = [] ∧ (s.appendToken reqId token).raised = s.raised := by
  unfold appendToken
  split
  · exact ⟨rfl, rfl⟩
  · exact ⟨rfl, rfl⟩

theorem quiet_preempt (s : VllmRun) (reqId : String) :
    (s.preempt reqId).metas = [] ∧ (s.preempt reqId).raised = s.raised := by
  unfold preempt
  split
  · exact ⟨rfl, rfl⟩
  · exact ⟨rfl, rfl⟩

theorem quiet_finish (s : VllmRun) (reqId : String) :
    (s.finish reqId).metas = [] ∧ (s.finish reqId).raised = s.raised := by
  unfold finish
  split
  · exact ⟨rfl, rfl⟩
  · exact ⟨rfl, rfl⟩

/-- Only a step of the scheduler builds anything. -/
theorem eq_buildConnectorMeta_of_mem {e : VllmEvent} {m : ReqMeta} (h : m ∈ (s.step e).metas) :
    ∃ new cached asList, e = .buildConnectorMeta new cached asList ∧
      s.step e = s.buildConnectorMeta new cached asList := by
  have hnone {s' : VllmRun} (hnil : s'.metas = []) : m ∉ s'.metas := by
    rw [hnil]
    exact List.not_mem_nil
  unfold step at h ⊢
  split at h
  · cases h
  rename_i hraised
  rw [if_neg hraised]
  match e with
  | .addRequest request => exact absurd h (hnone (s.quiet_addRequest request).1)
  | .getNumNewMatchedTokens reqId numComputedTokens lookupCache lookup =>
    exact absurd h
      (hnone (s.quiet_getNumNewMatchedTokens reqId numComputedTokens lookupCache lookup).1)
  | .updateStateAfterAlloc reqId => exact absurd h (hnone (s.metas_updateStateAfterAlloc reqId))
  | .buildConnectorMeta new cached asList => exact ⟨new, cached, asList, rfl, rfl⟩
  | .appendToken reqId token => exact absurd h (hnone (s.quiet_appendToken reqId token).1)
  | .preempt reqId => exact absurd h (hnone (s.quiet_preempt reqId).1)
  | .finish reqId => exact absurd h (hnone (s.quiet_finish reqId).1)

/-! ## The assertions -/

def isAssertionError : PyError → Bool
  | .assertionError _ => true
  | _ => false

/-- No assertion has failed. -/
def AssertionsHold (s : VllmRun) : Prop := ∀ e ∈ s.raised, isAssertionError e = false

instance (s : VllmRun) : Decidable s.AssertionsHold :=
  inferInstanceAs (Decidable (∀ e ∈ (_ : Option PyError), _))

/-- The condition on a step: no request is resumed of which the adapter has found every token,
unless the cached requests come as a list. -/
def ResumesPartly (s : VllmRun) : VllmEvent → Prop
  | .buildConnectorMeta _ cached asList => asList = true ∨
    ∀ sched ∈ cached, ∀ t ∈ s.requests.get? sched.reqId, t.stage = .allocated true →
      ∀ spec ∈ s.connector.loadSpecs.get? sched.reqId,
        spec.lmcacheCachedTokens ≠ t.request.numTokens
  | _ => True

instance (s : VllmRun) : ∀ e, Decidable (s.ResumesPartly e)
  | .buildConnectorMeta _ cached _ => inferInstanceAs (Decidable (_ ∨ ∀ sched ∈ cached,
    ∀ t ∈ (_ : Option Tracked), _ → ∀ spec ∈ (_ : Option LoadSpec), _))
  | .addRequest _ | .getNumNewMatchedTokens _ _ _ _ | .updateStateAfterAlloc _ | .appendToken _ _
  | .preempt _ | .finish _ => .isTrue trivial

/-- **Step lemma: the assertions.**  A step in which no full hit is resumed fails none. -/
theorem assertionsHold_step (h : Steady c s) (ha : s.AssertionsHold) {e : VllmEvent}
    (he : s.ResumesPartly e) : (s.step e).AssertionsHold := by
  have hsame {s' : VllmRun} (hraised : s'.raised = s.raised) : s'.AssertionsHold := by
    unfold AssertionsHold
    rw [hraised]
    exact ha
  unfold step
  split
  · exact ha
  match e with
  | .addRequest request => exact hsame (s.quiet_addRequest request).2
  | .getNumNewMatchedTokens reqId numComputedTokens lookupCache lookup =>
    exact hsame (s.quiet_getNumNewMatchedTokens reqId numComputedTokens lookupCache lookup).2
  | .updateStateAfterAlloc reqId => exact hsame (steady_updateStateAfterAlloc h reqId).2
  | .buildConnectorMeta new cached asList =>
    rcases (steady_buildConnectorMeta h new cached asList).2.1 with hraised | ⟨err, hraised, hhalts⟩
    · exact hsame hraised
    · intro err' herr'
      rw [Option.mem_def, show (s.buildConnectorMeta new cached asList).raised = some err from
        hraised] at herr'
      cases herr'
      rcases hhalts with ⟨id, rfl⟩ | ⟨hlist, sched, hsched, t, hget, hstage, spec, hload, hfull⟩
      · rfl
      · rcases he with hlist' | hpartly
        · rw [hlist] at hlist'
          cases hlist'
        · exact absurd hfull (hpartly sched hsched t hget hstage spec hload)
  | .appendToken reqId token => exact hsame (s.quiet_appendToken reqId token).2
  | .preempt reqId => exact hsame (s.quiet_preempt reqId).2
  | .finish reqId => exact hsame (s.quiet_finish reqId).2

/-- **The assertions of the adapter hold in every run** in which no request is resumed of which the
adapter has found every token. -/
theorem always_assertionsHold (c : AdapterConfig) (kvRole : KvRole) (forceSkipSave : Bool)
    (priorityLimit : Option Int) (skipLastNTokens : Nat) (es : List VllmEvent)
    (h : Guarded step ResumesPartly
      (init (.init c kvRole forceSkipSave priorityLimit skipLastNTokens)) es) :
    Always step AssertionsHold
      (init (.init c kvRole forceSkipSave priorityLimit skipLastNTokens)) es := by
  have hboth : Always step (fun s => Steady c s ∧ s.AssertionsHold)
      (init (.init c kvRole forceSkipSave priorityLimit skipLastNTokens)) es :=
    always_of_guarded
      (fun _ e hs he => ⟨steady_step hs.1 e, assertionsHold_step hs.1 hs.2 he⟩)
      ⟨steady_init c kvRole forceSkipSave priorityLimit skipLastNTokens, nofun⟩ h
  exact Always.mono (fun (s : VllmRun) (hs : Steady c s ∧ s.AssertionsHold) => hs.2) hboth

/-! ### Runs with blocks of two tokens and chunks of four -/

def smallConfig : AdapterConfig where
  blockSize := 2
  chunkSize := 4
  discardPartialChunks := false
  saveDecodeCache := false
  sha256 := fun _ => []
  blockSize_pos := Nat.two_pos
  chunkSize_pos := by decide

def smallConnector : SchedulerConnector := .init smallConfig .kvBoth false none 0

/-- A prompt of eight tokens. -/
def eightTokens : VllmRequest := ⟨"r", [1, 2, 3, 4, 5, 6, 7, 8], [], 0, none, false, [], 0⟩

/-- The request is asked for twice, runs its prompt in two steps, is preempted and comes back: with
a part of its tokens found, or with all. -/
def preemptedRun (hit : Nat) : List VllmEvent :=
  [.addRequest eightTokens, .getNumNewMatchedTokens "r" 0 none none,
    .getNumNewMatchedTokens "r" 2 (some (some 4)) none, .updateStateAfterAlloc "r",
    .buildConnectorMeta [⟨"r", 2, some [7, 8, 9]⟩] [] false,
    .buildConnectorMeta [] [⟨"r", 2, some [5]⟩] false, .preempt "r",
    .getNumNewMatchedTokens "r" 0 none (some hit), .updateStateAfterAlloc "r",
    .buildConnectorMeta [] [⟨"r", 1, some [1, 2, 3, 4]⟩] false]

theorem always_assertionsHold_preemptedRun :
    Always step AssertionsHold (init smallConnector) (preemptedRun 4) :=
  always_assertionsHold smallConfig .kvBoth false none 0 (preemptedRun 4) (by decide +kernel)

/-- It can fail: a request of eight tokens is preempted, and all eight are found when it is to
be resumed; seven are computed then, and the adapter insists on eight. -/
theorem not_always_assertionsHold :
    ¬ Always step AssertionsHold (init smallConnector) (preemptedRun 8) := by
  intro h
  have hlast := h.last
  revert hlast
  decide +kernel

end VllmRun

end LMCache.Vllm