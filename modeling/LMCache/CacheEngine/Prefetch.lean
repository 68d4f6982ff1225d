/-
# LMCache.CacheEngine.Prefetch — the life of an asynchronous lookup with its prefetch.

Source: `StorageManager.async_lookup_and_prefetch`, `prefetch_all_done_callback` and
`gather_with_keys` in `v1/storage_backend/storage_manager.py`, `LMCacheEngine.cleanup_memory_objs` and
`_async_process_tokens_internal` in `v1/cache_engine.py`.

A lookup asks the tiers, one after the other, how many of the remaining keys they hold, and starts one
task for each that holds some.  When all tasks are done their results are paired with the keys, and a
callback answers the scheduler with the length of what was loaded up to the first tier that came out
short.  Later the request is retrieved, or cleaned up after an abort.

A tier can come out short, since chunks can go between the question and the read, or raise.  What the
tiers behind it have loaded is then of no use and has to be released by one of the three.  All three
get the results as pairs of a key and an object; the callback and the clean-up take the pairs
themselves for objects.
-/
import LMCache.CacheEngine.Retrieve

namespace LMCache

open LMCache.Lib LMCache.Storage

/-! ## The tiers of a lookup -/

/-- What an asynchronous lookup uses of a storage backend. -/
structure AsyncBackend where
  batchedAsyncContains : List CacheEngineKey → Nat
  /-- The read of some keys, with the cumulated lengths of their chunks. -/
  batchedGetNonBlocking : List CacheEngineKey → List Nat → Except PyError (List MemoryObjRef)
  contains_le : ∀ keys, batchedAsyncContains keys ≤ keys.length
  length_le : ∀ keys lengths objs, batchedGetNonBlocking keys lengths = .ok objs →
    objs.length ≤ keys.length

/-- A loading task: the keys of its tier, how many chunks the tier said it holds, and what the read of
them comes to: a prefix of the objects, or an exception. -/
structure TierTask where
  keys : List CacheEngineKey
  expectedChunks : Nat
  result : Except PyError (List MemoryObjRef)
  expected_eq : expectedChunks = keys.length
  length_le : ∀ objs, result = .ok objs → objs.length ≤ keys.length

namespace TierTask

/-- The task of one tier over the first `n` of the keys. -/
def ofBackend (b : AsyncBackend) (keys : List CacheEngineKey) (cumChunkLengths : List Nat) :
    TierTask where
  keys := keys.take (b.batchedAsyncContains keys)
  expectedChunks := b.batchedAsyncContains keys
  result := b.batchedGetNonBlocking (keys.take (b.batchedAsyncContains keys))
    (cumChunkLengths.take (b.batchedAsyncContains keys + 1))
  expected_eq := by rw [List.length_take, Nat.min_eq_left (b.contains_le keys)]
  length_le := fun objs h => b.length_le _ _ objs h

/-- The keys of the tier, each with what was loaded for it. -/
def pairs (t : TierTask) : List Reference :=
  match t.result with
  | .ok objs => t.keys.zip objs
  | .error _ => []

/-- The exception of the read, if it raises. -/
def raised? (t : TierTask) : Option PyError :=
  match t.result with
  | .error e => some e
  | .ok _ => none

/-- The tier as reads of its keys: those beyond the objects that were loaded have failed. -/
def reads (t : TierTask) : Reads CacheEngineKey MemoryObjRef :=
  (t.pairs.map fun r => (r.1, some r.2)) ++ (t.keys.drop t.pairs.length).map fun key => (key, none)

end TierTask

/-- The tasks as one batch of reads each. -/
def taskReads (tasks : List TierTask) : List (Reads CacheEngineKey MemoryObjRef) :=
  tasks.map TierTask.reads

/-- The loop of `async_lookup_and_prefetch` over the active backends. -/
def tierTasks (totalChunks : Nat) : List AsyncBackend → List CacheEngineKey → List Nat → Nat →
    List TierTask
  | [], _, _, _ => []
  | b :: rest, keys, cumChunkLengths, hitChunks =>
    let n := b.batchedAsyncContains keys
    if n = 0 then tierTasks totalChunks rest keys cumChunkLengths hitChunks
    else .ofBackend b keys cumChunkLengths ::
      if hitChunks + n = totalChunks then []
      else tierTasks totalChunks rest (keys.drop n) (cumChunkLengths.drop n) (hitChunks + n)

/-- `gather_with_keys`: the first exception, or the results paired with the keys of their tier. -/
def TierTask.gatherWithKeys (tasks : List TierTask) : Except PyError PrefetchResult :=
  match tasks.findSome? TierTask.raised? with
  | some e => .error e
  | none => .ok (tasks.map TierTask.pairs)

/-! ## The callback, the clean-up and the whole life -/

/-- What happens in the life of a request. -/
structure PrefetchEffects where
  /-- The lengths sent to the scheduler. -/
  responses : List Nat
  released : List Reference
  /-- The exceptions raised, also those that are caught and logged. -/
  raised : List PyError
  eventManager : EventManager (Except PyError PrefetchResult)

/-- The message of `(key, memory_obj).ref_count_down()`. -/
def tupleMessage : String := "'tuple' object has no attribute 'ref_count_down'"

/-- The loop that is meant to release the tiers behind a short one: the first pair it comes to
raises. -/
def releaseSubsequent (tiers : List (List Reference)) : Except PyError Unit :=
  if tiers.flatten = [] then .ok () else .error (.attributeError tupleMessage)

/-- The loop of the callback over the results of the tiers. -/
def countRetrieved : List (List Reference) → List Nat → Nat → Except PyError Nat
  | [], _, total => .ok total
  | _ :: _, [], _ => .error (.indexError Memory.indexMessage)
  | tier :: rest, expectedChunks :: expected, total =>
    if tier.length < expectedChunks then
      (releaseSubsequent rest).map fun _ => total + tier.length
    else countRetrieved rest expected (total + tier.length)

/-- `prefetch_all_done_callback`. -/
def prefetchAllDoneCallback (m : EventManager (Except PyError PrefetchResult)) (lookupId : String)
    (result : Except PyError PrefetchResult) (cumChunkLengthsTotal tierExpectedChunks : List Nat) :
    PrefetchEffects :=
  match m.updateEventStatus lookupId .done with
  | .error e => ⟨[], [], [e], m⟩
  | .ok m =>
    match result with
    | .error e => ⟨[], [], [e], m⟩
    | .ok res =>
      match countRetrieved res tierExpectedChunks 0 with
      | .error e => ⟨[], [], [e], m⟩
      | .ok total =>
        match cumChunkLengthsTotal[total]? with
        | none => ⟨[], [], [.indexError Memory.indexMessage], m⟩
        | some retrievedLength => ⟨[retrievedLength], [], [], m⟩

/-- `cleanup_memory_objs`.  Each pair raises in its turn, and the exception is caught and logged. -/
def cleanupMemoryObjs (m : EventManager (Except PyError PrefetchResult)) (lookupId : String) :
    PrefetchEffects :=
  if m.getEventStatus lookupId ≠ .done then ⟨[], [], [], m⟩
  else
    match m.popEvent lookupId with
    | .error e => ⟨[], [], [e], m⟩
    | .ok (.error e, m) => ⟨[], [], [e], m⟩
    | .ok (.ok res, m) => ⟨[], [], res.flatten.map fun _ => .attributeError tupleMessage, m⟩

/-- How the life of a request ends after the callback. -/
inductive PrefetchEnding where
  | retrieve (req : RetrieveRequest)
  | cleanup
  | nothing

namespace LMCacheEngine

/-- The end of a life: what is left to do with the event. -/
def endPrefetch (e : LMCacheEngine) (m : EventManager (Except PyError PrefetchResult))
    (lookupId : String) : PrefetchEnding → PrefetchEffects
  | .nothing => ⟨[], [], [], m⟩
  | .cleanup => cleanupMemoryObjs m lookupId
  | .retrieve req =>
    let e := { e with eventManager := m }
    let out := e.asyncOutcome (e.asyncProcessTokensInternal { req with reqId := some lookupId })
    match out.result with
    | .error err => ⟨[], out.released, [err], out.eventManager⟩
    | .ok _ => ⟨[], out.released, [], out.eventManager⟩

/-- The tasks that a lookup of these chunks (keys and ends) starts. -/
def lookupTasks (active : List AsyncBackend) (chunks : List (CacheEngineKey × Nat)) :
    List TierTask :=
  tierTasks chunks.length active (chunks.map Prod.fst) (0 :: chunks.map Prod.snd) 0

/-- The whole life of a lookup: without a hit it is answered at once, else the event is registered, the
callback runs when the tasks are done, and the request ends. -/
def prefetchLife (e : LMCacheEngine) (active : List AsyncBackend) (lookupId : String)
    (chunks : List (CacheEngineKey × Nat)) (ending : PrefetchEnding) : PrefetchEffects :=
  let tasks := lookupTasks active chunks
  if (tasks.map TierTask.expectedChunks).sum = 0 then ⟨[0], [], [], e.eventManager⟩
  else
    let done := prefetchAllDoneCallback
      (e.eventManager.addEvent lookupId (TierTask.gatherWithKeys tasks)) lookupId
      (TierTask.gatherWithKeys tasks)
      (0 :: chunks.map Prod.snd) (tasks.map TierTask.expectedChunks)
    let ended := e.endPrefetch done.eventManager lookupId ending
    ⟨done.responses ++ ended.responses, done.released ++ ended.released,
      done.raised ++ ended.raised, ended.eventManager⟩

/-- The tiers of a lookup as one batch of reads each. -/
def lookupReads (active : List AsyncBackend) (chunks : List (CacheEngineKey × Nat)) :
    List (Reads CacheEngineKey MemoryObjRef) :=
  taskReads (lookupTasks active chunks)

/-- The token length of the first `n` chunks. -/
def tokenLength (chunks : List (CacheEngineKey × Nat)) (n : Nat) : Nat :=
  ((0 :: chunks.map Prod.snd)[n]?).getD 0

/-- **A prefetch completes well**: one response, the token length of the longest contiguous prefix that
was loaded; every object loaded beyond it is released exactly once; nothing raises. -/
structure PrefetchCompletes (active : List AsyncBackend) (chunks : List (CacheEngineKey × Nat))
    (life : PrefetchEffects) : Prop where
  responses : life.responses =
    [tokenLength chunks (Reads.hitPrefix (lookupReads active chunks).flatten).length]
  released : ∀ r ∈ Reads.strays (lookupReads active chunks),
    life.released.count r = (Reads.strays (lookupReads active chunks)).count r
  raised : life.raised = []

end LMCacheEngine

/-! ## The tasks -/

namespace TierTask

variable (t : TierTask)

theorem map_fst_reads : t.reads.map Prod.fst = t.keys := by
  have hpairs : t.pairs.map Prod.fst = t.keys.take t.pairs.length := by
    unfold pairs
    split
    · rename_i objs h
      have hlen : (t.keys.zip objs).length = objs.length := by
        rw [List.length_zip, Nat.min_eq_right (t.length_le objs h)]
      rw [hlen]
      apply List.ext_getElem <;> simp
      exact Nat.min_comm _ _
    · rfl
  unfold reads
  rw [List.map_append, List.map_map, List.map_map]
  show (t.pairs.map Prod.fst) ++ (t.keys.drop t.pairs.length).map id = t.keys
  rw [hpairs, List.map_id, List.take_append_drop]

/-- Everything a tier has loaded is its prefix. -/
theorem hitPrefix_reads : Reads.hitPrefix t.reads = t.pairs := by
  unfold reads
  rw [Reads.hitPrefix_append_unread]
  induction t.pairs with
  | nil => rfl
  | cons r rs ih => exact congrArg (r :: ·) ih

/-- A tier has a failed read when it comes out short. -/
theorem firstMiss_reads : Reads.firstMiss t.reads = none ↔ ¬ t.pairs.length < t.expectedChunks := by
  have hall : ∀ l : List Reference,
      Reads.firstMiss (l.map fun r => (r.1, some r.2) : Reads CacheEngineKey MemoryObjRef) = none := by
    intro l
    induction l with
    | nil => rfl
    | cons r rs ih => exact ih
  unfold reads
  rw [Reads.firstMiss_append, hall, Option.none_or, t.expected_eq, Nat.not_lt,
    ← List.drop_eq_nil_iff]
  cases t.keys.drop t.pairs.length with
  | nil => exact ⟨fun _ => rfl, fun _ => rfl⟩
  | cons key keys => exact ⟨fun h => (nomatch h), fun h => (nomatch h)⟩

end TierTask

/-- All that the tiers have loaded. -/
theorem flatMap_hitPrefix_taskReads (tasks : List TierTask) :
    (taskReads tasks).flatMap Reads.hitPrefix = (tasks.map TierTask.pairs).flatten := by
  induction tasks with
  | nil => rfl
  | cons t ts ih =>
    show Reads.hitPrefix t.reads ++ (taskReads ts).flatMap Reads.hitPrefix = _
    rw [ih, t.hitPrefix_reads]
    rfl

/-- The tasks of the tiers ask for the first of the keys, each for what the ones before it have left. -/
theorem prefix_flatMap_keys_tierTasks (totalChunks : Nat) (active : List AsyncBackend)
    (keys : List CacheEngineKey) (cumChunkLengths : List Nat) (hitChunks : Nat) :
    (tierTasks totalChunks active keys cumChunkLengths hitChunks).flatMap TierTask.keys <+: keys := by
  induction active generalizing keys cumChunkLengths hitChunks with
  | nil => exact List.nil_prefix
  | cons b rest ih =>
    unfold tierTasks
    dsimp only
    by_cases hn : b.batchedAsyncContains keys = 0
    · rw [if_pos hn]
      exact ih _ _ _
    · rw [if_neg hn, List.flatMap_cons]
      show keys.take _ ++ _ <+: keys
      split
      · rw [List.flatMap_nil, List.append_nil]
        exact List.take_prefix _ _
      · -- what follows is a prefix of the keys that are left
        obtain ⟨suffix, hsuffix⟩ := ih (keys.drop (b.batchedAsyncContains keys))
          (cumChunkLengths.drop (b.batchedAsyncContains keys))
          (hitChunks + b.batchedAsyncContains keys)
        refine ⟨suffix, ?_⟩
        rw [List.append_assoc, hsuffix, List.take_append_drop]

/-- Each task has something to load. -/
theorem expectedChunks_pos_of_mem_tierTasks {totalChunks : Nat} {active : List AsyncBackend}
    {keys : List CacheEngineKey} {cumChunkLengths : List Nat} {hitChunks : Nat} {t : TierTask}
    (h : t ∈ tierTasks totalChunks active keys cumChunkLengths hitChunks) :
    0 < t.expectedChunks := by
  induction active generalizing keys cumChunkLengths hitChunks with
  | nil => cases h
  | cons b rest ih =>
    unfold tierTasks at h
    dsimp only at h
    split at h
    · exact ih h
    · rename_i hn
      rcases List.mem_cons.mp h with rfl | h
      · exact Nat.pos_of_ne_zero hn
      · split at h
        · cases h
        · exact ih h

/-! ## The callback -/

/-- What the callback counts, where no tier raised: the contiguous prefix, unless a tier behind it has
loaded something. -/
theorem countRetrieved_tasks (tasks : List TierTask) (total : Nat) :
    countRetrieved (tasks.map TierTask.pairs) (tasks.map TierTask.expectedChunks) total =
      if Reads.strays (taskReads tasks) = [] then
        .ok (total + (Reads.hitPrefix (taskReads tasks).flatten).length)
      else .error (.attributeError tupleMessage) := by
  induction tasks generalizing total with
  | nil => rfl
  | cons t ts ih =>
    have hreads : taskReads (t :: ts) = t.reads :: taskReads ts := rfl
    rw [hreads, List.map_cons, List.map_cons, countRetrieved, Reads.strays, List.flatten_cons]
    cases hmiss : Reads.firstMiss t.reads with
    | none =>
      rw [if_neg (t.firstMiss_reads.mp hmiss), ih, Reads.hitPrefix_append_of_complete hmiss,
        t.hitPrefix_reads, List.length_append, Nat.add_assoc]
      rfl
    | some key =>
      -- the tier is short: the others are to be released
      have hshort : t.pairs.length < t.expectedChunks := by
        by_contra h
        rw [t.firstMiss_reads.mpr h] at hmiss
        cases hmiss
      rw [if_pos hshort, Reads.hitPrefix_append_of_miss (hmiss ▸ Option.some_ne_none key),
        t.hitPrefix_reads]
      show (releaseSubsequent _).map _ =
        if (taskReads ts).flatMap Reads.hitPrefix = [] then _ else _
      rw [flatMap_hitPrefix_taskReads, releaseSubsequent]
      split <;> rfl

/-- The contiguous prefix is no longer than the chunks of the lookup. -/
theorem length_hitPrefix_le (totalChunks : Nat) (active : List AsyncBackend)
    (keys : List CacheEngineKey) (cumChunkLengths : List Nat) (hitChunks : Nat) :
    (Reads.hitPrefix (taskReads
      (tierTasks totalChunks active keys cumChunkLengths hitChunks)).flatten).length ≤
        keys.length := by
  have hkeys : ∀ tasks : List TierTask,
      (taskReads tasks).flatten.map Prod.fst = tasks.flatMap TierTask.keys := by
    intro tasks
    induction tasks with
    | nil => rfl
    | cons t ts ih =>
      show (t.reads ++ (taskReads ts).flatten).map Prod.fst = t.keys ++ _
      rw [List.map_append, ih, t.map_fst_reads]
      rfl
  have hprefix := (Reads.prefix_map_fst_hitPrefix (taskReads
    (tierTasks totalChunks active keys cumChunkLengths hitChunks)).flatten).length_le
  rw [hkeys, List.length_map] at hprefix
  exact hprefix.trans (prefix_flatMap_keys_tierTasks _ _ _ _ _).length_le

/-- What the callback does: its answer, where no tier raises and none behind a short one has loaded
anything, else an exception and no answer.  The event is done then. -/
theorem prefetchAllDoneCallback_eq (m : EventManager (Except PyError PrefetchResult))
    (lookupId : String) (tasks : List TierTask) (cumChunkLengthsTotal : List Nat)
    (hlen : (Reads.hitPrefix (taskReads tasks).flatten).length < cumChunkLengthsTotal.length) :
    ∃ m', m'.done.get? lookupId = some (TierTask.gatherWithKeys tasks) ∧
      m'.getEventStatus lookupId = .done ∧
      prefetchAllDoneCallback (m.addEvent lookupId (TierTask.gatherWithKeys tasks)) lookupId
        (TierTask.gatherWithKeys tasks) cumChunkLengthsTotal (tasks.map TierTask.expectedChunks) =
      match tasks.findSome? TierTask.raised? with
      | some e => ⟨[], [], [e], m'⟩
      | none =>
        if Reads.strays (taskReads tasks) = [] then
          ⟨[(cumChunkLengthsTotal[(Reads.hitPrefix (taskReads tasks).flatten).length]?).getD 0], [],
            [], m'⟩
        else ⟨[], [], [.attributeError tupleMessage], m'⟩ := by
  obtain ⟨m', hupdate, hdone, hstatus⟩ :=
    m.updateEventStatus_addEvent lookupId (TierTask.gatherWithKeys tasks)
  refine ⟨m', hdone, hstatus, ?_⟩
  unfold prefetchAllDoneCallback
  rw [hupdate]
  unfold TierTask.gatherWithKeys
  cases tasks.findSome? TierTask.raised? with
  | some e => rfl
  | none =>
    dsimp only
    rw [countRetrieved_tasks]
    by_cases hstrays : Reads.strays (taskReads tasks) = []
    · rw [if_pos hstrays, if_pos hstrays]
      dsimp only
      rw [Nat.zero_add, List.getElem?_eq_getElem hlen]
      rfl
    · rw [if_neg hstrays, if_neg hstrays]

/-! ## The whole life -/

namespace LMCacheEngine

/-- What the end of a life needs, from the pairs that were loaded: a clean-up that finds nothing to
release; a retrieval whose walk does not get to see `process_tokens` raise. -/
def EndingAllowed (e : LMCacheEngine) (pairs : List Reference) (lookupId : String) :
    PrefetchEnding → Prop
  | .nothing => True
  | .cleanup => pairs = []
  | .retrieve req =>
    let chunkInfos := e.chunkInfos { req with reqId := some lookupId }
    chunkInfos.raised = none ∨ ∃ info ∈ chunkInfos.yields, info.key ∉ pairs.map Prod.fst

/-- **When a prefetch completes well.**  No tier held anything; or no tier raises, none behind a short
one has loaded anything, and the end of the life is allowed. -/
def PrefetchAllowed (e : LMCacheEngine) (active : List AsyncBackend) (lookupId : String)
    (chunks : List (CacheEngineKey × Nat)) (ending : PrefetchEnding) : Prop :=
  lookupTasks active chunks = [] ∨
    ((∀ t ∈ lookupTasks active chunks, t.raised? = none) ∧
      Reads.strays (lookupReads active chunks) = [] ∧
      e.EndingAllowed (((lookupTasks active chunks).map TierTask.pairs).flatten) lookupId ending)

/-- The end of a life raises nothing just when it is allowed, and it answers nobody. -/
theorem endPrefetch_spec (e : LMCacheEngine) (m : EventManager (Except PyError PrefetchResult))
    (lookupId : String) (keyed : PrefetchResult) (ending : PrefetchEnding)
    (hdone : m.done.get? lookupId = some (.ok keyed)) (hstatus : m.getEventStatus lookupId = .done) :
    (e.endPrefetch m lookupId ending).responses = [] ∧
      ((e.endPrefetch m lookupId ending).raised = [] ↔
        e.EndingAllowed keyed.flatten lookupId ending) := by
  have hpop : m.popEvent lookupId = .ok (.ok keyed, m.setEvents .done (m.done.erase lookupId)) := by
    unfold EventManager.popEvent
    rw [hdone]
  cases ending with
  | nothing => exact ⟨rfl, fun _ => trivial, fun _ => rfl⟩
  | cleanup =>
    show (cleanupMemoryObjs m lookupId).responses = [] ∧
      ((cleanupMemoryObjs m lookupId).raised = [] ↔ keyed.flatten = [])
    unfold cleanupMemoryObjs
    rw [if_neg (fun h => h hstatus), hpop]
    exact ⟨rfl, List.map_eq_nil_iff⟩
  | retrieve req =>
    unfold endPrefetch EndingAllowed asyncProcessTokensInternal
    dsimp only
    rw [hpop]
    dsimp only
    have hinfos : ({ e with eventManager := m } : LMCacheEngine).chunkInfos
        { req with reqId := some lookupId } = e.chunkInfos { req with reqId := some lookupId } := rfl
    rw [asyncWalk_eq, hinfos]
    have hstopped := walkChunks_stopped (.ofPairs keyed.flatten) (.init req.tokens.length)
      (e.chunkInfos { req with reqId := some lookupId }).yields
    have hmiss := firstMiss_mapReads keyed.flatten
      (e.chunkInfos { req with reqId := some lookupId }).yields
    rw [← hstopped] at hmiss
    rw [← hmiss]
    dsimp only
    generalize (TokenPass.init req.tokens.length).walkChunks (.ofPairs keyed.flatten)
      (e.chunkInfos { req with reqId := some lookupId }).yields = w
    cases w.2 <;> cases (e.chunkInfos { req with reqId := some lookupId }).raised <;>
      simp [asyncOutcome, finish]

/-- **A prefetch completes well exactly under the condition.** -/
theorem prefetchCompletes_iff_allowed (e : LMCacheEngine) (active : List AsyncBackend)
    (lookupId : String) (chunks : List (CacheEngineKey × Nat)) (ending : PrefetchEnding) :
    PrefetchCompletes active chunks (e.prefetchLife active lookupId chunks ending) ↔
      e.PrefetchAllowed active lookupId chunks ending := by
  have hlen : (Reads.hitPrefix (lookupReads active chunks).flatten).length <
      (0 :: chunks.map Prod.snd).length := by
    have := length_hitPrefix_le chunks.length active (chunks.map Prod.fst)
      (0 :: chunks.map Prod.snd) 0
    rw [List.length_map] at this
    rw [List.length_cons, List.length_map]
    exact Nat.lt_succ_of_le this
  have hsum : ((lookupTasks active chunks).map TierTask.expectedChunks).sum = 0 ↔
      lookupTasks active chunks = [] := by
    constructor
    · intro h
      refine List.eq_nil_iff_forall_not_mem.mpr fun t ht => ?_
      have hpos := expectedChunks_pos_of_mem_tierTasks ht
      have hle := List.single_le_sum (fun _ _ => Nat.zero_le _) _
        (List.mem_map_of_mem (f := TierTask.expectedChunks) ht)
      omega
    · intro h
      rw [h]
      rfl
  unfold prefetchLife PrefetchAllowed
  dsimp only
  by_cases hnone : lookupTasks active chunks = []
  · rw [if_pos (hsum.mpr hnone)]
    refine ⟨fun _ => .inl hnone, fun _ => ⟨?_, ?_, rfl⟩⟩ <;>
      · unfold lookupReads
        rw [hnone]
        simp [taskReads, Reads.strays, Reads.hitPrefix, tokenLength]
  · rw [if_neg (fun h => hnone (hsum.mp h)), or_iff_right hnone]
    obtain ⟨m', hdone, hstatus, hcallback⟩ := prefetchAllDoneCallback_eq e.eventManager lookupId
      (lookupTasks active chunks) (0 :: chunks.map Prod.snd) hlen
    rw [hcallback]
    cases hraise : (lookupTasks active chunks).findSome? TierTask.raised? with
    | some err =>
      -- a tier raises, and with it the callback
      refine ⟨fun h => (by cases h.raised), fun h => ?_⟩
      obtain ⟨t, ht, hterr⟩ := List.exists_of_findSome?_eq_some hraise
      rw [h.1 t ht] at hterr
      cases hterr
    | none =>
      have hnone : ∀ t ∈ lookupTasks active chunks, t.raised? = none :=
        List.findSome?_eq_none_iff.mp hraise
      have hgather : TierTask.gatherWithKeys (lookupTasks active chunks) =
          .ok ((lookupTasks active chunks).map TierTask.pairs) := by
        unfold TierTask.gatherWithKeys
        rw [hraise]
      rw [hgather] at hdone
      obtain ⟨hresponses, hraised⟩ := e.endPrefetch_spec m' lookupId _ ending hdone hstatus
      rw [and_iff_right hnone]
      dsimp only
      have hreads : taskReads (lookupTasks active chunks) = lookupReads active chunks := rfl
      rw [hreads]
      by_cases hstrays : Reads.strays (lookupReads active chunks) = []
      · rw [if_pos hstrays, and_iff_right hstrays, ← hraised]
        constructor
        · intro h
          exact h.raised
        · intro h
          refine ⟨?_, fun r hr => ?_, h⟩
          · show _ ++ (e.endPrefetch m' lookupId ending).responses = _
            rw [hresponses]
            rfl
          · rw [hstrays] at hr
            cases hr
      · -- the callback raises at the first object it is to release
        rw [if_neg hstrays]
        exact ⟨fun h => (by cases h.raised), fun h => absurd h.1 hstrays⟩

/-! ## A tier that comes out short -/

/-- A tier that says it holds so many chunks and loads only some of them. -/
def shortTier (held loaded : Nat) : AsyncBackend where
  batchedAsyncContains := fun keys => min held keys.length
  batchedGetNonBlocking := fun keys _ =>
    .ok ((keys.take loaded).map fun key => ⟨key.chunkHash.toNat, 8⟩)
  contains_le := fun _ => Nat.min_le_right _ _
  length_le := fun keys _ objs h => by
    cases h
    rw [List.length_map]
    exact List.length_take_le' _ _

/-- Two chunks of two tokens. -/
def twoChunks : List (CacheEngineKey × Nat) :=
  [(⟨"model", 1, 0, 2, .float16, none, none⟩, 2), (⟨"model", 1, 0, 4, .float16, none, none⟩, 4)]

/-- **A short tier leaves the scheduler without an answer.**  The first tier has lost its chunk, the
second has loaded its own: the callback raises at the pair it is to release. -/
theorem not_prefetchCompletes_shortTier :
    ¬ PrefetchCompletes [shortTier 1 0, shortTier 1 1] twoChunks
      ((smallEngine .empty).prefetchLife [shortTier 1 0, shortTier 1 1] "request" twoChunks
        .nothing) := by
  intro h
  have hresponses : ((smallEngine .empty).prefetchLife [shortTier 1 0, shortTier 1 1] "request"
    twoChunks .nothing).responses = [] := by decide +kernel
  rw [h.responses] at hresponses
  cases hresponses

end LMCacheEngine

end LMCache
