/-
# LMCache.Vllm.SchedulerConnector — the adapter beside the scheduler, and the scheduler's calls.

Source: `integration/vllm/vllm_v1_adapter.py`, `LMCacheConnectorV1Impl`
(`get_num_new_matched_tokens`, `update_state_after_alloc`, `build_connector_meta`).

The scheduler asks how much of a waiting request is cached as often as it likes, tells once that it
has allocated blocks for it, and once a step which requests it runs, with how many tokens each.  It
may preempt a running request; that one waits again and comes back as a resumed one.  The adapter
keeps its own dictionaries by request id, and a reference to each request that is not finished.

A run stops at the first exception, as the engine does.
-/
import LMCache.Lib.Dict
import LMCache.Lib.Run
import LMCache.Vllm.RequestTracker

namespace LMCache.Vllm

open LMCache.Lib

/-! ## Requests and the scheduler's output -/

/-- What the adapter reads of a request of vLLM. -/
structure VllmRequest where
  requestId : String
  promptTokenIds : List Int
  /-- The prompt, and the tokens that were generated since. -/
  allTokenIds : List Int
  numComputedTokens : Nat
  kvTransferParams : RequestConfigs
  /-- Whether `kv_transfer_params` has a `disagg_spec`. -/
  hasDisaggSpec : Bool
  mmFeatures : MmFeatures
  priority : Int
  deriving DecidableEq, Repr

def VllmRequest.numTokens (r : VllmRequest) : Nat := r.allTokenIds.length

/-- A request that was scheduled before, in a step in which it is scheduled again. -/
structure CachedRequest where
  reqId : String
  numScheduledTokens : Nat
  newTokenIds : List Int
  newBlockIds : Option (List Nat)
  resumedFromPreemption : Bool
  deriving DecidableEq, Repr

structure SchedulerOutput where
  finishedReqIds : List String
  /-- The new requests, each with its entry of `num_scheduled_tokens`. -/
  scheduledNewReqs : List (NewRequestData × Nat)
  scheduledCachedReqs : List CachedRequest
  /-- `isinstance(scheduled_cached_reqs, list)`, as it is before vLLM 0.9.2. -/
  cachedReqsAsList : Bool
  deriving DecidableEq, Repr

inductive KvRole where
  | kvBoth
  | kvProducer
  | kvConsumer
  deriving DecidableEq, Repr

/-! ## The adapter -/

structure SchedulerConnector where
  config : AdapterConfig
  kvRole : KvRole
  forceSkipSave : Bool
  priorityLimit : Option Int
  skipLastNTokens : Nat
  loadSpecs : Dict String LoadSpec
  requestTrackers : Dict String RequestTracker
  /-- The requests to which `_unfinished_requests` has a reference. -/
  unfinishedRequests : Finset String
  requestsPriority : Dict String Int
  /-- `tmp_disagg_tracker`, of the module. -/
  tmpDisaggTracker : Dict String DisaggSpec

namespace SchedulerConnector

def init (config : AdapterConfig) (kvRole : KvRole) (forceSkipSave : Bool)
    (priorityLimit : Option Int) (skipLastNTokens : Nat) : SchedulerConnector :=
  ⟨config, kvRole, forceSkipSave, priorityLimit, skipLastNTokens, .empty, .empty, ∅, .empty, .empty⟩

/-- A mock request of data parallel attention. -/
def isMock (reqId : String) : Bool := "mock_req".toList.isPrefixOf reqId.toList

/-- `hasattr(self.lookup_client, "supports_producer_reuse")`: the interface defines the method, so
that every client has it. -/
def hasSupportsProducerReuse : Bool := true

/-- The tokens that are looked up for a request. -/
def lookupTokens (s : SchedulerConnector) (request : VllmRequest) : List Int :=
  let tokenIds :=
    if request.mmFeatures.isEmpty then request.allTokenIds
    else applyMmHashesToTokenIds s.config.sha256 request.promptTokenIds request.mmFeatures
  if 0 < s.skipLastNTokens then tokenIds.take (tokenIds.length - s.skipLastNTokens) else tokenIds

/-- `need_to_allocate`. -/
def needToAllocate (request : VllmRequest) (numExternalHitTokens numComputedTokens : Nat) : Int :=
  let need := (numExternalHitTokens : Int) - numComputedTokens
  if numExternalHitTokens = request.numTokens then need - 1 else need

/-- `get_num_new_matched_tokens`.  `lookupCache` is what the client has for the request, if
anything, and `lookup` what it would answer otherwise; an answer of `none` is not there yet. -/
def getNumNewMatchedTokens (s : SchedulerConnector) (request : VllmRequest)
    (numComputedTokens : Nat) (lookupCache : Option (Option Nat)) (lookup : Option Nat) :
    Option Nat × SchedulerConnector :=
  if isMock request.requestId then (some 0, s)
  else if s.kvRole = .kvProducer ∧ !hasSupportsProducerReuse then (some 0, s)
  else
    let reqId := request.requestId
    let s := { s with requestsPriority :=
      if lookupCache.isSome then s.requestsPriority
      else s.requestsPriority.set reqId request.priority }
    match lookupCache.getD lookup with
    | none => (none, s)
    | some numExternalHitTokens =>
      let need := needToAllocate request numExternalHitTokens numComputedTokens
      let s := { s with
        loadSpecs := s.loadSpecs.set reqId ⟨numComputedTokens, numExternalHitTokens, false⟩ }
      if need ≤ 0 then (some 0, s) else (some need.toNat, s)

/-- The text of the assertion of `update_state_after_alloc`. -/
def mismatch (numExternalTokens : Nat) (spec : LoadSpec) (recalcLast : Nat) (reqId : String) :
    String :=
  s!"Mismatch in tokens to load: {numExternalTokens} vs " ++
    s!"{spec.lmcacheCachedTokens} (tokens in lmcache) - " ++
    s!"{spec.vllmCachedTokens} (tokens in vllm) - {recalcLast} " ++
    s!"(full lmcache hits subtracts last token to recalculate logits) for request {reqId}"

/-- `update_state_after_alloc`. -/
def updateStateAfterAlloc (s : SchedulerConnector) (request : VllmRequest)
    (numExternalTokens : Nat) : Except PyError SchedulerConnector :=
  let reqId := request.requestId
  let s := { s with
    tmpDisaggTracker :=
      if request.hasDisaggSpec then s.tmpDisaggTracker.set reqId ⟨false, 0⟩ else s.tmpDisaggTracker
    unfinishedRequests := insert reqId s.unfinishedRequests }
  match s.loadSpecs.get? reqId with
  | none => .ok s
  | some spec =>
    if numExternalTokens = 0 then
      .ok { s with loadSpecs := s.loadSpecs.set reqId { spec with canLoad := false } }
    else
      let recalcLast := if spec.lmcacheCachedTokens = request.numTokens then 1 else 0
      if (numExternalTokens : Int) =
          spec.lmcacheCachedTokens - spec.vllmCachedTokens - (recalcLast : Nat) then
        .ok { s with loadSpecs := s.loadSpecs.set reqId { spec with canLoad := true } }
      else .error (.assertionError (mismatch numExternalTokens spec recalcLast reqId))

/-! ### A step -/

def forgetFinished (s : SchedulerConnector) (reqId : String) : SchedulerConnector :=
  { s with
    requestTrackers := s.requestTrackers.erase reqId
    unfinishedRequests := s.unfinishedRequests.erase reqId }

/-- `force_skip_save`, of `build_connector_meta`. -/
def forcesSkipSave (s : SchedulerConnector) : Bool := s.kvRole = .kvConsumer || s.forceSkipSave

/-- The loop over the new requests, for one of them. -/
def addNewRequest (s : SchedulerConnector) (request : NewRequestData) (numScheduledTokens : Nat) :
    Option ReqMeta × SchedulerConnector :=
  if isMock request.reqId then (none, s)
  else
    let loadSpec := s.loadSpecs.get? request.reqId
    let numTokensToCompute := request.numComputedTokens + numScheduledTokens
    let lmcacheCachedTokens := (loadSpec.map LoadSpec.lmcacheCachedTokens).getD 0
    let requestPriority := (s.requestsPriority.get? request.reqId).getD 0
    let skipSave := s.forcesSkipSave || s.priorityLimit.any fun limit => limit < requestPriority
    let tracker := RequestTracker.fromNewRequest request numTokensToCompute lmcacheCachedTokens
      skipSave (s.tmpDisaggTracker.get? request.reqId)
    let made := fromRequestTracker s.config tracker loadSpec
    (made.1, { s with
      loadSpecs := s.loadSpecs.erase request.reqId
      requestsPriority := s.requestsPriority.erase request.reqId
      tmpDisaggTracker := s.tmpDisaggTracker.erase request.reqId
      requestTrackers := s.requestTrackers.set request.reqId made.2 })

def notUnfinished (reqId : String) : String :=
  s!"Request {reqId} is not in _unfinished_requests, but it is scheduled to be cached"

def noVllmRequest (reqId : String) : String :=
  s!"Preempted request {reqId} not found in _unfinished_requests"

def noLoadSpec (reqId : String) : String :=
  s!"Request {reqId} is preempted but was not given a load spec"

def numComputedDiffers (request : VllmRequest) (spec : LoadSpec) : String :=
  let computed := max spec.lmcacheCachedTokens spec.vllmCachedTokens
  s!"Preempted request {request.requestId} has " ++
    s!"num_computed_tokens {request.numComputedTokens} but " ++
    s!"max(lmcache_cached_tokens, vllm_cached_tokens) = {computed}"

/-- `_unfinished_requests.get(req_id)`: the request as vLLM has it now. -/
def unfinished (s : SchedulerConnector) (requests : String → Option VllmRequest) (reqId : String) :
    Option VllmRequest :=
  if reqId ∈ s.unfinishedRequests then requests reqId else none

/-- What both loops over cached requests end with: the tracker is updated and makes its metadata. -/
def updateTracker (s : SchedulerConnector) (tracker : RequestTracker) (reqId : String)
    (newTokenIds : List Int) (newBlockIds : Option (List Nat)) (preempted : Bool)
    (loadSpec : Option LoadSpec) (allTokenIds : Option (List Int)) :
    Except PyError (Option ReqMeta × SchedulerConnector) := do
  let lmcacheCachedTokens := (loadSpec.map LoadSpec.lmcacheCachedTokens).getD 0
  let vllmCachedTokens := (loadSpec.map LoadSpec.vllmCachedTokens).getD 0
  let tracker ← tracker.update newTokenIds newBlockIds preempted lmcacheCachedTokens
    vllmCachedTokens allTokenIds
  let made := fromRequestTracker s.config tracker loadSpec
  return (made.1, { s with
    loadSpecs := s.loadSpecs.erase reqId
    requestTrackers := s.requestTrackers.set reqId made.2 })

/-- The loop over a list of cached requests, for one of them. -/
def addListedRequest (s : SchedulerConnector) (requests : String → Option VllmRequest)
    (req : CachedRequest) : Except PyError (Option ReqMeta × SchedulerConnector) :=
  match s.requestTrackers.get? req.reqId with
  | none => .error (.keyError req.reqId)
  | some tracker =>
    if req.resumedFromPreemption then
      match s.unfinished requests req.reqId with
      | none => .error (.assertionError (noVllmRequest req.reqId))
      | some request =>
        s.updateTracker tracker req.reqId req.newTokenIds req.newBlockIds true
          (s.loadSpecs.get? req.reqId) (some request.allTokenIds)
    else
      s.updateTracker tracker req.reqId req.newTokenIds req.newBlockIds false
        (s.loadSpecs.get? req.reqId) none

/-- The loop over `CachedRequestData`, for one request. -/
def addCachedRequest (s : SchedulerConnector) (requests : String → Option VllmRequest)
    (req : CachedRequest) : Except PyError (Option ReqMeta × SchedulerConnector) :=
  match s.requestTrackers.get? req.reqId with
  | none => .error (.keyError req.reqId)
  | some tracker =>
    match s.unfinished requests req.reqId with
    | none => .error (.valueError (notUnfinished req.reqId))
    | some request =>
      let newTokenIds :=
        (request.allTokenIds.drop request.numComputedTokens).take req.numScheduledTokens
      if req.resumedFromPreemption then
        match s.loadSpecs.get? req.reqId with
        | none => .error (.assertionError (noLoadSpec req.reqId))
        | some spec =>
          if request.numComputedTokens = max spec.lmcacheCachedTokens spec.vllmCachedTokens then
            s.updateTracker tracker req.reqId newTokenIds req.newBlockIds true (some spec)
              (some request.allTokenIds)
          else .error (.assertionError (numComputedDiffers request spec))
      else
        s.updateTracker tracker req.reqId newTokenIds req.newBlockIds false
          (s.loadSpecs.get? req.reqId) none

/-- A request that was scheduled before, in either form. -/
def addScheduledAgain (s : SchedulerConnector) (requests : String → Option VllmRequest)
    (asList : Bool) (req : CachedRequest) : Except PyError (Option ReqMeta × SchedulerConnector) :=
  if asList then s.addListedRequest requests req else s.addCachedRequest requests req

/-- The loops of `build_connector_meta`: the entries of the output one after the other, each with
metadata of its own or none. -/
def addEach {ε : Type}
    (add : SchedulerConnector → ε → Except PyError (Option ReqMeta × SchedulerConnector))
    (s : SchedulerConnector) : List ε → Except PyError (List ReqMeta × SchedulerConnector)
  | [] => .ok ([], s)
  | entry :: rest => do
    let made ← add s entry
    let later ← addEach add made.2 rest
    return (made.1.toList ++ later.1, later.2)

/-- `build_connector_meta`. -/
def buildConnectorMeta (s : SchedulerConnector) (requests : String → Option VllmRequest)
    (output : SchedulerOutput) : Except PyError (List ReqMeta × SchedulerConnector) := do
  let s := output.finishedReqIds.foldl forgetFinished s
  let new ← s.addEach (fun s r => .ok (s.addNewRequest r.1 r.2)) output.scheduledNewReqs
  let cached ← new.2.addEach
    (fun s req => s.addScheduledAgain requests output.cachedReqsAsList req)
    output.scheduledCachedReqs
  return (new.1 ++ cached.1, cached.2)

end SchedulerConnector

/-! ## The scheduler's side -/

/-- Where a request of vLLM stands. -/
inductive RequestStage where
  /-- It waits, anew or after a preemption; the last answer for it, with the tokens it was asked
  for. -/
  | waiting (resumed : Bool) (last : Option (Nat × Option Nat))
  /-- Blocks are allocated for it, and the adapter was told. -/
  | allocated (resumed : Bool)
  | running
  deriving DecidableEq, Repr

structure Tracked where
  request : VllmRequest
  stage : RequestStage
  blockIds : List Nat
  deriving DecidableEq, Repr

/-- A request that the scheduler runs in a step. -/
structure Scheduled where
  reqId : String
  numScheduledTokens : Nat
  /-- The new blocks: all of its blocks, if the request is new or resumed. -/
  newBlockIds : Option (List Nat)
  deriving DecidableEq, Repr

structure VllmRun where
  connector : SchedulerConnector
  requests : Dict String Tracked
  /-- The requests of which the adapter is still to hear that they are finished. -/
  finishedReqIds : List String
  /-- What the last step has built. -/
  metas : List ReqMeta
  raised : Option PyError

inductive VllmEvent where
  | addRequest (request : VllmRequest)
  | getNumNewMatchedTokens (reqId : String) (numComputedTokens : Nat)
      (lookupCache : Option (Option Nat)) (lookup : Option Nat)
  | updateStateAfterAlloc (reqId : String)
  | buildConnectorMeta (new cached : List Scheduled) (asList : Bool)
  | appendToken (reqId : String) (token : Int)
  | preempt (reqId : String)
  | finish (reqId : String)

namespace VllmRun

def init (connector : SchedulerConnector) : VllmRun := ⟨connector, .empty, [], [], none⟩

/-- The adapter's view of the requests. -/
def live (s : VllmRun) (reqId : String) : Option VllmRequest :=
  (s.requests.get? reqId).map Tracked.request

/-- Another turn, without metadata. -/
def put (s : VllmRun) (reqId : String) (t : Tracked) : VllmRun :=
  { s with requests := s.requests.set reqId t, metas := [] }

/-- A request comes in under an id that is not in use. -/
def addRequest (s : VllmRun) (request : VllmRequest) : VllmRun :=
  if request.requestId ∈ s.requests ∨ request.requestId ∈ s.finishedReqIds then
    { s with metas := [] }
  else s.put request.requestId
    ⟨{ request with allTokenIds := request.promptTokenIds, numComputedTokens := 0 },
      .waiting false none, []⟩

/-- The scheduler asks for a waiting request; an answer is no longer than the tokens looked up. -/
def getNumNewMatchedTokens (s : VllmRun) (reqId : String) (numComputedTokens : Nat)
    (lookupCache : Option (Option Nat)) (lookup : Option Nat) : VllmRun :=
  match s.requests.get? reqId with
  | some ⟨request, .waiting resumed _, blockIds⟩ =>
    if (lookupCache.getD lookup).all fun n => n ≤ (s.connector.lookupTokens request).length then
      let asked := s.connector.getNumNewMatchedTokens request numComputedTokens lookupCache lookup
      { s with connector := asked.2 }.put reqId
        ⟨request, .waiting resumed (some (numComputedTokens, asked.1)), blockIds⟩
    else { s with metas := [] }
  | _ => { s with metas := [] }

/-- The scheduler has allocated blocks for a request with the answer it was given last; there is a
token left to compute. -/
def updateStateAfterAlloc (s : VllmRun) (reqId : String) : VllmRun :=
  match s.requests.get? reqId with
  | some ⟨request, .waiting resumed (some (vllmHit, some n)), blockIds⟩ =>
    if vllmHit + n < request.numTokens then
      match s.connector.updateStateAfterAlloc request n with
      | .error e => { s with metas := [], raised := some e }
      | .ok connector =>
        { s with connector := connector }.put reqId
          ⟨{ request with numComputedTokens := vllmHit + n }, .allocated resumed, blockIds⟩
    else { s with metas := [] }
  | _ => { s with metas := [] }

/-- What is scheduled can be: some tokens of the request that are there, with blocks for them. -/
def Fits (c : AdapterConfig) (sched : Scheduled) (t : Tracked) : Prop :=
  0 < sched.numScheduledTokens ∧
    t.request.numComputedTokens + sched.numScheduledTokens ≤ t.request.numTokens ∧
    t.request.numComputedTokens + sched.numScheduledTokens ≤
      (t.blockIds ++ sched.newBlockIds.getD []).length * c.blockSize

/-- The scheduler may run these requests: each is allocated for the first time, or is running or
resumed, and none comes twice. -/
def Schedulable (s : VllmRun) (new cached : List Scheduled) : Prop :=
  ((new ++ cached).map Scheduled.reqId).Nodup ∧
    (∀ sched ∈ new, ∃ t ∈ s.requests.get? sched.reqId,
      t.stage = .allocated false ∧ Fits s.connector.config sched t) ∧
    ∀ sched ∈ cached, ∃ t ∈ s.requests.get? sched.reqId,
      (t.stage = .running ∨ t.stage = .allocated true) ∧ Fits s.connector.config sched t

instance (c : AdapterConfig) (sched : Scheduled) (t : Tracked) : Decidable (Fits c sched t) :=
  inferInstanceAs (Decidable (_ ∧ _ ∧ _))

instance (s : VllmRun) (new cached : List Scheduled) : Decidable (s.Schedulable new cached) :=
  inferInstanceAs (Decidable (_ ∧ (∀ sched ∈ new, ∃ t ∈ (_ : Option Tracked), _) ∧
    ∀ sched ∈ cached, ∃ t ∈ (_ : Option Tracked), _))

/-- The requests that are scheduled, as they are. -/
def tracked (s : VllmRun) (l : List Scheduled) : List (Scheduled × Tracked) :=
  l.filterMap fun sched => (s.requests.get? sched.reqId).map fun t => (sched, t)

/-- `NewRequestData` of a request, with its entry of `num_scheduled_tokens`. -/
def newRequestData (p : Scheduled × Tracked) : NewRequestData × Nat :=
  (⟨p.1.reqId, p.2.request.promptTokenIds, p.1.newBlockIds.getD [], p.2.request.numComputedTokens,
    p.2.request.kvTransferParams, p.2.request.mmFeatures⟩, p.1.numScheduledTokens)

/-- The entry of a request that was scheduled before. -/
def cachedRequest (p : Scheduled × Tracked) : CachedRequest :=
  ⟨p.1.reqId, p.1.numScheduledTokens,
    (p.2.request.allTokenIds.drop p.2.request.numComputedTokens).take p.1.numScheduledTokens,
    p.1.newBlockIds, p.2.stage = .allocated true⟩

/-- The request after the step. -/
def advance (p : Scheduled × Tracked) : Tracked where
  request := { p.2.request with
    numComputedTokens := p.2.request.numComputedTokens + p.1.numScheduledTokens }
  stage := .running
  blockIds := p.2.blockIds ++ p.1.newBlockIds.getD []

/-- A step of the scheduler. -/
def buildConnectorMeta (s : VllmRun) (new cached : List Scheduled) (asList : Bool) : VllmRun :=
  if s.Schedulable new cached then
    match s.connector.buildConnectorMeta s.live
        ⟨s.finishedReqIds, (s.tracked new).map newRequestData, (s.tracked cached).map cachedRequest,
          asList⟩ with
    | .error e => { s with metas := [], raised := some e }
    | .ok (metas, connector) =>
      { s with
        connector := connector
        requests := ((s.tracked (new ++ cached)).map fun p => (p.1.reqId, advance p)).foldl
          (fun requests p => requests.set p.1 p.2) s.requests
        finishedReqIds := []
        metas := metas }
  else { s with metas := [] }

/-- A running request gets its next token. -/
def appendToken (s : VllmRun) (reqId : String) (token : Int) : VllmRun :=
  match s.requests.get? reqId with
  | some ⟨request, .running, blockIds⟩ => s.put reqId
      ⟨{ request with allTokenIds := request.allTokenIds ++ [token] }, .running, blockIds⟩
  | _ => { s with metas := [] }

/-- A running request is preempted: its blocks are gone, and nothing of it is computed. -/
def preempt (s : VllmRun) (reqId : String) : VllmRun :=
  match s.requests.get? reqId with
  | some ⟨request, .running, _⟩ =>
    s.put reqId ⟨{ request with numComputedTokens := 0 }, .waiting true none, []⟩
  | _ => { s with metas := [] }

def finish (s : VllmRun) (reqId : String) : VllmRun :=
  if reqId ∈ s.requests then
    { s with
      requests := s.requests.erase reqId
      finishedReqIds := s.finishedReqIds ++ [reqId]
      metas := [] }
  else { s with metas := [] }

def step (s : VllmRun) (e : VllmEvent) : VllmRun :=
  if s.raised.isSome then { s with metas := [] }
  else match e with
    | .addRequest request => s.addRequest request
    | .getNumNewMatchedTokens reqId numComputedTokens lookupCache lookup =>
      s.getNumNewMatchedTokens reqId numComputedTokens lookupCache lookup
    | .updateStateAfterAlloc reqId => s.updateStateAfterAlloc reqId
    | .buildConnectorMeta new cached asList => s.buildConnectorMeta new cached asList
    | .appendToken reqId token => s.appendToken reqId token
    | .preempt reqId => s.preempt reqId
    | .finish reqId => s.finish reqId

end VllmRun

end LMCache.Vllm
