/-
# LMCache.CacheEngine.Retrieve — the references that `retrieve` takes and gives back.

Source: `LMCacheEngine.retrieve` and `_async_process_tokens_internal` in `v1/cache_engine.py`.

A reference is taken by a storage read of a key, and belongs to that key and the object that was read.
On the blocking path `retrieve` takes one with every successful read of `_process_tokens_internal`.
On the asynchronous path it takes over those of the prefetch, with the future it pops.  It gives back
one for each chunk it returns, and on the asynchronous path one for each prefetched key that it has no
use for.  The ledger of an outcome lists both sides, whether the call returns or raises.

`balanced_iff_releases` says when the two sides agree.
-/
import LMCache.CacheEngine.ProcessTokens

namespace LMCache

open LMCache.Lib LMCache.Storage

/-! ## The asynchronous token walk -/

/-- A key and the object that was read under it. -/
abbrev Reference := CacheEngineKey × MemoryObjRef

/-- The reference behind a processed chunk. -/
def ProcessedChunk.reference (c : ProcessedChunk) : Reference := (c.1.key, c.2)

/-- The keys of the chunks a walk has kept (`used_keys`). -/
def TokenPass.usedKeys (p : TokenPass) : List CacheEngineKey :=
  p.reorderedChunks.map fun c => c.1.key

/-- The loop over the chunks: it breaks at the first one without an object, and says whether it
did. -/
def TokenPass.walkChunks (map : Dict CacheEngineKey MemoryObjRef) (p : TokenPass) :
    List ChunkInfo → TokenPass × Bool
  | [] => (p, false)
  | info :: infos =>
    match map.get? info.key with
    | none => (p, true)
    | some obj => walkChunks map (p.keep info obj) infos

/-- What `_async_process_tokens_internal` comes to, whether it returns or raises. -/
structure AsyncOutcome where
  result : Except PyError TokenPass
  acquired : List Reference
  released : List Reference
  eventManager : EventManager (Except PyError PrefetchResult)

namespace LMCacheEngine

/-- The part of `_async_process_tokens_internal` behind `future.result()`. -/
def asyncWalk (e : LMCacheEngine) (req : RetrieveRequest) (pairs : List Reference)
    (eventManager : EventManager (Except PyError PrefetchResult)) : AsyncOutcome :=
  let map := Dict.ofPairs pairs
  let (p, stopped) := (TokenPass.init req.tokens.length).walkChunks map (e.chunkInfos req).yields
  -- behind a break the generator is not asked again, so it does not get to raise
  match if stopped then none else (e.chunkInfos req).raised with
  | some err => ⟨.error err, pairs, [], eventManager⟩
  | none => ⟨.ok p, pairs, map.entries.filter fun r => r.1 ∉ p.usedKeys, eventManager⟩

/-- `_async_process_tokens_internal`. -/
def asyncProcessTokensInternal (e : LMCacheEngine) (req : RetrieveRequest) : AsyncOutcome :=
  match req.reqId with
  | none =>
    ⟨.error (.assertionError "req_id is required for async loading"), [], [], e.eventManager⟩
  | some reqId =>
    match e.eventManager.popEvent reqId with
    | .error err => ⟨.error err, [], [], e.eventManager⟩
    | .ok (.error _, eventManager) => ⟨.ok (.init req.tokens.length), [], [], eventManager⟩
    | .ok (.ok keyedMemoryObjs, eventManager) =>
      e.asyncWalk req keyedMemoryObjs.flatten eventManager

/-! ## The call -/

/-- What a call of `retrieve` comes to, whether it returns or raises. -/
structure RetrieveOutcome where
  result : Except PyError (List Bool)
  acquired : List Reference
  released : List Reference
  /-- The keys that are taken out of the storage afterwards. -/
  removed : List CacheEngineKey
  eventManager : EventManager (Except PyError PrefetchResult)

/-- `_is_passive`. -/
def isPassive (e : LMCacheEngine) : Bool := e.saveOnlyFirstRank && !e.isFirstRank

/-- The references that the reads of the tiers take, up to a read that raises. -/
def acquiredFrom (e : LMCacheEngine) : List (String × List ChunkInfo) → List Reference
  | [] => []
  | tier :: tiers =>
    match e.storageManager.batchedGet (tier.2.map ChunkInfo.key) (some tier.1) with
    | .error _ => []
    | .ok read =>
      (Reads.hits (tier.2.zip read.objs)).map ProcessedChunk.reference ++ e.acquiredFrom tiers

/-- The references that `_process_tokens_internal` takes. -/
def acquired (e : LMCacheEngine) (req : RetrieveRequest) : List Reference :=
  match (e.chunkInfos req).collect with
  | .error _ => []
  | .ok infos => e.acquiredFrom (e.blockMapping req infos).entries

/-- The end of `retrieve`: each chunk is handed to the GPU, taken out of the storage if so configured,
and released. -/
def finish (e : LMCacheEngine) (p : TokenPass) (acquired released : List Reference)
    (eventManager : EventManager (Except PyError PrefetchResult)) : RetrieveOutcome where
  result := .ok p.retMask
  acquired := acquired
  released := released ++ p.reorderedChunks.map ProcessedChunk.reference
  removed := if e.removeAfterRetrieve then p.usedKeys else []
  eventManager := eventManager

/-- `retrieve`.  A passive rank reads nothing itself; `received` are the ranges it is sent by the
first rank. -/
def retrieve (e : LMCacheEngine) (req : RetrieveRequest) (received : List (Nat × Nat)) :
    RetrieveOutcome :=
  let retMask := List.replicate req.tokens.length false
  if !e.isHealthy then ⟨.ok retMask, [], [], [], e.eventManager⟩
  else if !e.hasGpuConnector then
    ⟨.error (.assertionError "gpu_connector is required for retrieve operation"), [], [], [],
      e.eventManager⟩
  else if e.isPassive then
    ⟨.ok (received.foldl (fun mask r => setSlice mask r.1 r.2 true) retMask), [], [], [],
      e.eventManager⟩
  else if e.asyncLoading then
    let out := e.asyncProcessTokensInternal req
    match out.result with
    | .error err => ⟨.error err, out.acquired, out.released, [], out.eventManager⟩
    | .ok p => e.finish p out.acquired out.released out.eventManager
  else
    match e.processTokensInternal req with
    | .error err => ⟨.error err, e.acquired req, [], [], e.eventManager⟩
    | .ok p => e.finish p (e.acquired req) [] e.eventManager

/-- **No reference leaks and none is given back twice**: what is released is what was acquired, each
reference as often. -/
def RetrieveOutcome.Balanced (out : RetrieveOutcome) : Prop := out.released.Perm out.acquired

end LMCacheEngine

/-! ## The blocking path -/

/-- The chunks that a trimmed walk keeps, of all that the tiers have read. -/
theorem trim_reorderedChunks_eq_hits_iff {p : TokenPass}
    {tiers : List (Reads ChunkInfo MemoryObjRef)}
    (hchunks : p.reorderedChunks = tiers.flatMap Reads.hitPrefix)
    (hlast : p.lastFailedBlockStart = (Reads.lastMiss tiers).map ChunkInfo.start) :
    p.trim.reorderedChunks = tiers.flatMap Reads.hits ↔
      (∀ l ∈ tiers, Reads.behind l = []) ∧
        ∀ info, Reads.lastMiss tiers = some info →
          ∀ c ∈ tiers.flatMap Reads.hitPrefix, c.1.stop < info.start := by
  have hle := (Reads.flatMap_hitPrefix_sublist_hits tiers).length_le
  rw [← Reads.flatMap_hitPrefix_eq_flatMap_hits]
  unfold TokenPass.trim
  rw [hlast]
  cases Reads.lastMiss tiers with
  | none =>
    rw [← hchunks]
    exact ⟨fun h => ⟨h, fun _ h => nomatch h⟩, And.left⟩
  | some info =>
    show p.reorderedChunks.filter _ = _ ↔ _
    rw [hchunks]
    constructor
    · intro h
      -- what the filter leaves is as long as all hits, so it has taken nothing out
      have hlen := List.length_filter_le (fun c : ProcessedChunk => decide (c.1.stop < info.start))
        (tiers.flatMap Reads.hitPrefix)
      rw [h] at hlen
      have hall := (Reads.flatMap_hitPrefix_sublist_hits tiers).eq_of_length (le_antisymm hle hlen)
      refine ⟨hall, fun info' hinfo c hc => ?_⟩
      cases hinfo
      rw [← hall] at h
      exact of_decide_eq_true (List.filter_eq_self.mp h c hc)
    · rintro ⟨hall, hends⟩
      rw [← hall]
      exact List.filter_eq_self.mpr fun c hc => decide_eq_true (hends info rfl c hc)

namespace LMCacheEngine

/-- **The condition on the blocking path.**  No tier reads anything behind its first failed read; and
if a read fails, every chunk that is read in front of its tier's first failure ends before the first
failed chunk of the last tier that has one starts.  If a read raises, no tier before it has read
anything. -/
def BlockingReleases (e : LMCacheEngine) (req : RetrieveRequest) (infos : List ChunkInfo) : Prop :=
  match e.requestReads req infos with
  | .error _ => e.acquiredFrom (e.blockMapping req infos).entries = []
  | .ok tiers =>
    (∀ l ∈ tiers, Reads.behind l = []) ∧
      ∀ info, Reads.lastMiss tiers = some info →
        ∀ c ∈ tiers.flatMap Reads.hitPrefix, c.1.stop < info.start

/-- Where no read raises, the references taken are those of all successful reads. -/
theorem acquiredFrom_eq {e : LMCacheEngine} {tiers : List (String × List ChunkInfo)}
    {reads : List (Reads ChunkInfo MemoryObjRef)} (h : e.tierReads tiers = .ok reads) :
    e.acquiredFrom tiers = (reads.flatMap Reads.hits).map ProcessedChunk.reference := by
  induction tiers generalizing reads with
  | nil => cases h; rfl
  | cons tier tiers ih =>
    obtain ⟨read, hread, h⟩ := bind_eq_ok.mp h
    obtain ⟨rest, hrest, h⟩ := bind_eq_ok.mp h
    cases h
    unfold acquiredFrom
    rw [hread, List.flatMap_cons, List.map_append, ← ih hrest]

/-- A blocking walk that returns releases everything just under the condition. -/
theorem released_perm_acquired_iff {e : LMCacheEngine} {req : RetrieveRequest}
    {infos : List ChunkInfo} {tiers : List (Reads ChunkInfo MemoryObjRef)}
    (hinfos : (e.chunkInfos req).collect = .ok infos) (h : e.requestReads req infos = .ok tiers) :
    ∃ p, e.processTokensInternal req = .ok p ∧
      ((p.reorderedChunks.map ProcessedChunk.reference).Perm (e.acquired req) ↔
        (∀ l ∈ tiers, Reads.behind l = []) ∧
          ∀ info, Reads.lastMiss tiers = some info →
            ∀ c ∈ tiers.flatMap Reads.hitPrefix, c.1.stop < info.start) := by
  have hlast := TokenPass.foldl_readBlocks_lastFailedBlockStart (.init req.tokens.length) tiers
    (pairwise_start_firstMiss (inOrder_requestReads hinfos h)) (fun s h => by cases h)
  have hchunks := TokenPass.foldl_readBlocks_reorderedChunks (.init req.tokens.length) tiers
  refine ⟨_, processTokensInternal_eq hinfos h, ?_⟩
  rw [← trim_reorderedChunks_eq_hits_iff hchunks (hlast.trans Option.or_none)]
  have hacq : e.acquired req = (tiers.flatMap Reads.hits).map ProcessedChunk.reference := by
    unfold acquired
    rw [hinfos]
    exact acquiredFrom_eq h
  rw [hacq]
  constructor
  · -- the kept chunks are some of those that were read; a permutation leaves none out
    intro hperm
    have hkept := TokenPass.trim_sublist
      (tiers.foldl TokenPass.readBlocks (.init req.tokens.length))
    rw [hchunks] at hkept
    refine (hkept.trans (Reads.flatMap_hitPrefix_sublist_hits tiers)).eq_of_length ?_
    simpa only [List.length_map] using hperm.length_eq
  · intro h
    rw [h]

end LMCacheEngine

/-! ## The asynchronous path -/

/-- The walk as reads of the dictionary. -/
def mapReads (map : Dict CacheEngineKey MemoryObjRef) (infos : List ChunkInfo) :
    Reads ChunkInfo MemoryObjRef :=
  infos.map fun info => (info, map.get? info.key)

variable (map : Dict CacheEngineKey MemoryObjRef)

theorem walkChunks_reorderedChunks (p : TokenPass) (infos : List ChunkInfo) :
    (p.walkChunks map infos).1.reorderedChunks =
      p.reorderedChunks ++ Reads.hitPrefix (mapReads map infos) := by
  induction infos generalizing p with
  | nil => exact (List.append_nil _).symm
  | cons info infos ih =>
    unfold TokenPass.walkChunks mapReads
    rw [List.map_cons]
    cases map.get? info.key with
    | none => exact (List.append_nil _).symm
    | some obj =>
      show ((p.keep info obj).walkChunks map infos).1.reorderedChunks = _
      rw [ih]
      exact List.append_assoc _ [(info, obj)] _

theorem walkChunks_stopped (p : TokenPass) (infos : List ChunkInfo) :
    (p.walkChunks map infos).2 = (Reads.firstMiss (mapReads map infos)).isSome := by
  induction infos generalizing p with
  | nil => rfl
  | cons info infos ih =>
    unfold TokenPass.walkChunks mapReads
    rw [List.map_cons]
    cases map.get? info.key with
    | none => rfl
    | some obj => exact ih (p.keep info obj)

/-- The keys a walk uses, from the prefetched pairs and the chunks: those up to the first that was not
prefetched. -/
def walkedKeys (pairs : List Reference) (infos : List ChunkInfo) : List CacheEngineKey :=
  (infos.map ChunkInfo.key).takeWhile fun key => key ∈ pairs.map Prod.fst

theorem walkedKeys_cons (pairs : List Reference) (info : ChunkInfo) (infos : List ChunkInfo) :
    walkedKeys pairs (info :: infos) =
      if ((Dict.ofPairs pairs).get? info.key).isSome then
        info.key :: walkedKeys pairs infos
      else [] := by
  have hmem : ((Dict.ofPairs pairs).get? info.key).isSome = true ↔
      info.key ∈ pairs.map Prod.fst := by
    rw [Option.isSome_iff_exists, ← Dict.mem_iff_get?, Dict.mem_ofPairs]
  unfold walkedKeys
  rw [List.map_cons, List.takeWhile_cons]
  simp only [decide_eq_true_eq, hmem]

/-- Each use of a key gives back the object that the dictionary has under it. -/
theorem count_walked (pairs : List Reference) (infos : List ChunkInfo) (r : Reference) :
    ((Reads.hitPrefix (mapReads (.ofPairs pairs) infos)).map ProcessedChunk.reference).count r =
      if (Dict.ofPairs pairs).get? r.1 = some r.2 then (walkedKeys pairs infos).count r.1 else 0 := by
  induction infos with
  | nil => simp [mapReads, Reads.hitPrefix, walkedKeys]
  | cons info infos ih =>
    unfold mapReads at *
    rw [List.map_cons, walkedKeys_cons]
    cases hget : (Dict.ofPairs pairs).get? info.key with
    | none => simp [Reads.hitPrefix]
    | some obj =>
      rw [Reads.hitPrefix, List.map_cons, List.count_cons, ih, if_pos Option.isSome_some,
        List.count_cons]
      by_cases hkey : info.key = r.1
      · by_cases hobj : obj = r.2
        · have hr : (Dict.ofPairs pairs).get? r.1 = some r.2 := by rw [← hkey, ← hobj, hget]
          simp [ProcessedChunk.reference, hkey, hobj, hr]
        · have hr : ¬ (Dict.ofPairs pairs).get? r.1 = some r.2 := by
            rw [← hkey, hget]
            exact fun h => hobj (Option.some.inj h)
          simp [ProcessedChunk.reference, hr, Prod.ext_iff, hobj]
      · simp [ProcessedChunk.reference, Prod.ext_iff, hkey]

/-- The keys a walk uses are those of the chunks it keeps. -/
theorem usedKeys_eq_walkedKeys (pairs : List Reference) (infos : List ChunkInfo) :
    (Reads.hitPrefix (mapReads (.ofPairs pairs) infos)).map (fun c => c.1.key) =
      walkedKeys pairs infos := by
  induction infos with
  | nil => rfl
  | cons info infos ih =>
    unfold mapReads at *
    rw [List.map_cons, walkedKeys_cons]
    cases (Dict.ofPairs pairs).get? info.key with
    | none => rfl
    | some obj => rw [Reads.hitPrefix, List.map_cons, ih, if_pos Option.isSome_some]

/-- The walk stops early at a chunk whose key was not prefetched. -/
theorem firstMiss_mapReads (pairs : List Reference) (infos : List ChunkInfo) :
    (Reads.firstMiss (mapReads (.ofPairs pairs) infos)).isSome = true ↔
      ∃ info ∈ infos, info.key ∉ pairs.map Prod.fst := by
  induction infos with
  | nil => simp [mapReads, Reads.firstMiss]
  | cons info infos ih =>
    unfold mapReads at *
    simp only [← Dict.mem_ofPairs, ← Dict.get?_eq_none] at ih ⊢
    rw [List.map_cons, List.exists_mem_cons_iff, ← ih]
    cases (Dict.ofPairs pairs).get? info.key <;> simp [Reads.firstMiss]

/-- What the walk and the clean-up after it give back, from the pairs and the chunks. -/
def asyncReleased (pairs : List Reference) (infos : List ChunkInfo) : List Reference :=
  ((Dict.ofPairs pairs).entries.filter fun r => r.1 ∉ walkedKeys pairs infos) ++
    (Reads.hitPrefix (mapReads (.ofPairs pairs) infos)).map ProcessedChunk.reference

/-- The object that the dictionary has under a key is given back once, or as often as it is used. -/
theorem count_asyncReleased (pairs : List Reference) (infos : List ChunkInfo) (r : Reference) :
    (asyncReleased pairs infos).count r =
      if (Dict.ofPairs pairs).get? r.1 = some r.2 then max 1 ((walkedKeys pairs infos).count r.1)
      else 0 := by
  rw [asyncReleased, List.count_append, count_walked]
  have hentry : r ∈ (Dict.ofPairs pairs).entries ↔
      (Dict.ofPairs pairs).get? r.1 = some r.2 := Dict.get?_eq_some.symm
  have hnodup : ((Dict.ofPairs pairs).entries.filter fun r =>
      r.1 ∉ walkedKeys pairs infos).Nodup := (Dict.nodup_entries _).filter _
  by_cases hget : (Dict.ofPairs pairs).get? r.1 = some r.2
  · rw [if_pos hget, if_pos hget]
    by_cases hused : r.1 ∈ walkedKeys pairs infos
    · have hpos := List.count_pos_iff.mpr hused
      rw [List.count_eq_zero_of_not_mem (by simp [hused])]
      omega
    · rw [List.count_eq_one_of_mem hnodup (by simp [hentry.mpr hget, hused]),
        List.count_eq_zero_of_not_mem hused]
      rfl
  · rw [if_neg hget, if_neg hget, List.count_eq_zero_of_not_mem (by simp [hentry, hget])]

/-- **The condition on the asynchronous path.**  Nothing was prefetched; or the walk does not get to
see `process_tokens` raise, pairs with one key hold one object, and each key was prefetched as often as
it is used, or once if it is not. -/
def AsyncReleases (pairs : List Reference) (chunkInfos : PyGen ChunkInfo) : Prop :=
  pairs = [] ∨
    ((chunkInfos.raised = none ∨ ∃ info ∈ chunkInfos.yields, info.key ∉ pairs.map Prod.fst) ∧
      (∀ r ∈ pairs, ∀ r' ∈ pairs, r.1 = r'.1 → r = r') ∧
      ∀ key ∈ pairs.map Prod.fst, (pairs.map Prod.fst).count key =
        max 1 ((walkedKeys pairs chunkInfos.yields).count key))

/-- Pairs in which a key has one object: the key occurs as often as the pair. -/
theorem count_key_eq {pairs : List Reference}
    (h : ∀ r ∈ pairs, ∀ r' ∈ pairs, r.1 = r'.1 → r = r') {r : Reference} (hr : r ∈ pairs) :
    (pairs.map Prod.fst).count r.1 = pairs.count r := by
  rw [List.count, List.countP_map, List.count]
  refine List.countP_congr fun r' hr' => ?_
  simp only [Function.comp_apply, beq_iff_eq]
  exact ⟨fun hk => h r' hr' r hr hk, fun hk => congrArg Prod.fst hk⟩

/-- The references of the pairs are given back exactly under the condition on keys. -/
theorem asyncReleased_perm_iff (pairs : List Reference) (infos : List ChunkInfo) :
    (asyncReleased pairs infos).Perm pairs ↔
      (∀ r ∈ pairs, ∀ r' ∈ pairs, r.1 = r'.1 → r = r') ∧
        ∀ key ∈ pairs.map Prod.fst, (pairs.map Prod.fst).count key =
          max 1 ((walkedKeys pairs infos).count key) := by
  rw [List.perm_iff_count]
  constructor
  · intro h
    -- a pair is given back, so it is the one the dictionary has
    have hget : ∀ r ∈ pairs, (Dict.ofPairs pairs).get? r.1 = some r.2 := by
      intro r hr
      by_contra hne
      have hcount := h r
      rw [count_asyncReleased, if_neg hne] at hcount
      exact absurd hr (List.count_eq_zero.mp hcount.symm)
    have hone : ∀ r ∈ pairs, ∀ r' ∈ pairs, r.1 = r'.1 → r = r' := by
      intro r hr r' hr' hk
      have := (hget r hr).symm.trans (hk ▸ hget r' hr')
      exact Prod.ext hk (Option.some.inj this)
    refine ⟨hone, fun key hkey => ?_⟩
    obtain ⟨r, hr, rfl⟩ := List.mem_map.mp hkey
    rw [count_key_eq hone hr, ← h r, count_asyncReleased, if_pos (hget r hr)]
  · rintro ⟨hone, hcount⟩ r
    rw [count_asyncReleased]
    by_cases hr : r ∈ pairs
    · have hmem : r.1 ∈ pairs.map Prod.fst := List.mem_map_of_mem hr
      obtain ⟨obj, hobj⟩ := Dict.mem_iff_get?.mp (Dict.mem_ofPairs.mpr hmem)
      have hsame := hone _ (Dict.mem_of_get?_ofPairs hobj) r hr rfl
      rw [← hsame] at hobj ⊢
      rw [if_pos hobj, ← count_key_eq hone (hsame ▸ hr), hcount _ (hsame ▸ hmem)]
    · have hne : ¬ (Dict.ofPairs pairs).get? r.1 = some r.2 :=
        fun h => hr (Dict.mem_of_get?_ofPairs h)
      rw [if_neg hne, List.count_eq_zero_of_not_mem hr]

namespace LMCacheEngine

/-! ## The whole call -/

/-- **When a call gives back all it takes.**  The condition of the path that the engine is on; a call
that returns early takes nothing. -/
def Releases (e : LMCacheEngine) (req : RetrieveRequest) : Prop :=
  e.isHealthy = true → e.hasGpuConnector = true → e.isPassive = false →
    if e.asyncLoading then
      ∀ reqId keyed, req.reqId = some reqId → e.eventManager.done.get? reqId = some (.ok keyed) →
        AsyncReleases keyed.flatten (e.chunkInfos req)
    else ∀ infos, (e.chunkInfos req).collect = .ok infos → e.BlockingReleases req infos

/-- The ledger of the blocking path. -/
def blockingOutcome (e : LMCacheEngine) (req : RetrieveRequest) : RetrieveOutcome :=
  match e.processTokensInternal req with
  | .error err => ⟨.error err, e.acquired req, [], [], e.eventManager⟩
  | .ok p => e.finish p (e.acquired req) [] e.eventManager

variable (e : LMCacheEngine)

theorem blockingOutcome_balanced_iff (req : RetrieveRequest) :
    (e.blockingOutcome req).Balanced ↔
      ∀ infos, (e.chunkInfos req).collect = .ok infos → e.BlockingReleases req infos := by
  cases hinfos : (e.chunkInfos req).collect with
  | error err =>
    -- `process_tokens` raises: nothing is read
    have hwalk : e.processTokensInternal req = .error err := by
      unfold processTokensInternal
      rw [hinfos]
      rfl
    have hacq : e.acquired req = [] := by
      unfold acquired
      rw [hinfos]
    unfold blockingOutcome RetrieveOutcome.Balanced
    rw [hwalk, hacq]
    exact ⟨fun _ _ h => (nomatch h), fun _ => List.Perm.nil⟩
  | ok infos =>
    have hforall : (∀ infos', (Except.ok infos : Except PyError _) = .ok infos' →
        e.BlockingReleases req infos') ↔ e.BlockingReleases req infos :=
      ⟨fun h => h infos rfl, fun h _ hi => Except.ok.inj hi ▸ h⟩
    rw [hforall]
    unfold BlockingReleases blockingOutcome RetrieveOutcome.Balanced
    cases htiers : e.requestReads req infos with
    | error err =>
      -- a read raises: nothing is released
      have hacq : e.acquired req = e.acquiredFrom (e.blockMapping req infos).entries := by
        unfold acquired
        rw [hinfos]
      rw [processTokensInternal_map hinfos, htiers]
      show List.Perm [] (e.acquired req) ↔ _
      rw [hacq, List.nil_perm]
    | ok tiers =>
      obtain ⟨p, hp, hiff⟩ := released_perm_acquired_iff hinfos htiers
      rw [hp]
      exact hiff

theorem asyncWalk_eq (req : RetrieveRequest) (pairs : List Reference)
    (eventManager : EventManager (Except PyError PrefetchResult)) :
    e.asyncWalk req pairs eventManager =
      let w := (TokenPass.init req.tokens.length).walkChunks (.ofPairs pairs)
        (e.chunkInfos req).yields
      match if w.2 then none else (e.chunkInfos req).raised with
      | some err => ⟨.error err, pairs, [], eventManager⟩
      | none => ⟨.ok w.1, pairs, (Dict.ofPairs pairs).entries.filter fun r =>
          r.1 ∉ w.1.usedKeys, eventManager⟩ := rfl

/-- The ledger of the asynchronous path. -/
def asyncOutcome (e : LMCacheEngine) (out : AsyncOutcome) : RetrieveOutcome :=
  match out.result with
  | .error err => ⟨.error err, out.acquired, out.released, [], out.eventManager⟩
  | .ok p => e.finish p out.acquired out.released out.eventManager

theorem asyncWalk_balanced_iff (req : RetrieveRequest) (pairs : List Reference)
    (eventManager : EventManager (Except PyError PrefetchResult)) :
    (e.asyncOutcome (e.asyncWalk req pairs eventManager)).Balanced ↔
      AsyncReleases pairs (e.chunkInfos req) := by
  have hstopped := walkChunks_stopped (.ofPairs pairs) (.init req.tokens.length)
    (e.chunkInfos req).yields
  have hmiss := firstMiss_mapReads pairs (e.chunkInfos req).yields
  rw [← hstopped] at hmiss
  have hchunks := walkChunks_reorderedChunks (.ofPairs pairs) (.init req.tokens.length)
    (e.chunkInfos req).yields
  rw [asyncWalk_eq]
  generalize (TokenPass.init req.tokens.length).walkChunks (.ofPairs pairs)
    (e.chunkInfos req).yields = w at *
  unfold AsyncReleases
  rw [← hmiss]
  dsimp only
  cases hraise : (if w.2 then none else (e.chunkInfos req).raised) with
  | some err =>
    -- the walk has got to the end of the generator, which raises: nothing is given back
    have hgo : w.2 = false ∧ (e.chunkInfos req).raised = some err := by
      cases hw : w.2 <;> simp_all
    show List.Perm [] pairs ↔ _
    rw [List.nil_perm, hgo.1, hgo.2]
    simp
  | none =>
    have hgo : (e.chunkInfos req).raised = none ∨ w.2 = true := by
      cases hw : w.2 <;> simp_all
    have hused : w.1.usedKeys = walkedKeys pairs (e.chunkInfos req).yields := by
      unfold TokenPass.usedKeys
      rw [hchunks]
      exact usedKeys_eq_walkedKeys pairs _
    have hreleased : (e.asyncOutcome ⟨.ok w.1, pairs, (Dict.ofPairs pairs).entries.filter fun r =>
        r.1 ∉ w.1.usedKeys, eventManager⟩).released = asyncReleased pairs (e.chunkInfos req).yields := by
      show (_ ++ w.1.reorderedChunks.map ProcessedChunk.reference) = _
      rw [hused, hchunks]
      rfl
    show List.Perm (RetrieveOutcome.released _) pairs ↔ _
    rw [hreleased, asyncReleased_perm_iff, and_iff_right hgo]
    constructor
    · exact Or.inr
    · rintro (rfl | h)
      · exact ⟨by simp, by simp⟩
      · exact h

theorem asyncProcess_balanced_iff (req : RetrieveRequest) :
    (e.asyncOutcome (e.asyncProcessTokensInternal req)).Balanced ↔
      ∀ reqId keyed, req.reqId = some reqId → e.eventManager.done.get? reqId = some (.ok keyed) →
        AsyncReleases keyed.flatten (e.chunkInfos req) := by
  unfold asyncProcessTokensInternal
  cases req.reqId with
  | none => exact ⟨fun _ _ _ h => (nomatch h), fun _ => List.Perm.nil⟩
  | some reqId =>
    dsimp only
    unfold EventManager.popEvent
    cases hdone : e.eventManager.done.get? reqId with
    | none => exact ⟨fun _ _ _ h h' => (by cases h; rw [hdone] at h'; cases h'), fun _ => List.Perm.nil⟩
    | some future =>
      cases future with
      | error err =>
        exact ⟨fun _ _ _ h h' => (by cases h; rw [hdone] at h'; cases h'), fun _ => List.Perm.nil⟩
      | ok keyed =>
        show (e.asyncOutcome (e.asyncWalk req keyed.flatten _)).Balanced ↔ _
        rw [asyncWalk_balanced_iff]
        constructor
        · intro h _ _ hid hkeyed
          cases hid
          rw [hdone] at hkeyed
          cases hkeyed
          exact h
        · intro h
          exact h reqId keyed rfl hdone

end LMCacheEngine

end LMCache
