/-
# LMCache.Vllm.KeyAgreement — the keys that are stored, looked up and retrieved.

Source: `save_kv_layer`, `wait_for_save` and `start_load_kv` of
`integration/vllm/vllm_v1_adapter.py`, `LMCacheLookupClient.lookup` with its server in
`v1/lookup_client/lmcache_lookup_client.py`, and the parts of `store`, `store_layer`, `lookup`,
`retrieve` and `retrieve_layer` of `v1/cache_engine.py` that make keys.

Three chains of calls make keys of the tokens of a request and of its configurations.  The lookup
sends the hashes of the chunks, and the worker makes keys of them; the other two hand over tokens.
The tags of a request are to be in all these keys.
-/
import LMCache.ChunkedTokenDatabase
import LMCache.Vllm.SaveCoverage
import LMCache.Vllm.LoadErrors

namespace LMCache.Vllm

open CacheEngineKey

/-! ## The three chains -/

/-- What the adapter hands to the engine, of which the engine makes keys. -/
structure EngineCall where
  tokens : List Int
  mask : List Bool
  requestConfigs : RequestConfigs
  deriving DecidableEq, Repr

/-- A mask that leaves out the first tokens. -/
def leadingMask (skipLeadingTokens numTokens : Nat) : List Bool :=
  (List.range numTokens).map fun i => skipLeadingTokens ≤ i

/-- The call of `store_layer` in `save_kv_layer`, for one request. -/
def saveKvLayerCall (c : AdapterConfig) (w : SavingWorker) (m : ReqMeta) :
    Except PyError (Option EngineCall) :=
  if w.kvRole = .kvConsumer then .ok none
  else
    match m.saveSpec.filter SaveSpec.canSave with
    | none => .ok none
    | some spec =>
      if m.slotMapping.length ≠ m.tokenIds.length then .error (.assertionError "")
      else if w.kvRole = .kvProducer then
        .ok (some ⟨m.tokenIds, leadingMask 0 m.tokenIds.length, none⟩)
      else if spec.skipLeadingTokens = m.tokenIds.length then .ok none
      else
        let skip := spec.skipLeadingTokens / c.chunkSize * c.chunkSize
        .ok (some ⟨m.tokenIds, leadingMask skip m.tokenIds.length, none⟩)

/-- The call of `store` in `wait_for_save`, for one request. -/
def waitForSaveCall (c : AdapterConfig) (w : SavingWorker) (m : ReqMeta) :
    Except PyError (Option EngineCall) :=
  (w.waitForSave c m).map fun saved => saved.range.map fun (skip, numTokens) =>
    ⟨m.tokenIds.take numTokens, (leadingMask skip m.tokenIds.length).take numTokens,
      m.requestConfigs⟩

/-- What is stored of a request. -/
def storeCall (c : AdapterConfig) (useLayerwise : Bool) (w : SavingWorker) (m : ReqMeta) :
    Except PyError (Option EngineCall) :=
  if useLayerwise then saveKvLayerCall c w m else waitForSaveCall c w m

/-- The call of `retrieve_layer` in `start_load_kv`. -/
def retrieveLayerCall (c : AdapterConfig) (m : ReqMeta) (spec : LoadSpec) : EngineCall where
  tokens := m.tokenIds.take spec.lmcacheCachedTokens
  mask := (tokenMask c spec m.tokenIds.length).take spec.lmcacheCachedTokens
  requestConfigs := none

/-- The call of `retrieve` in `start_load_kv`. -/
def retrieveCall (c : AdapterConfig) (m : ReqMeta) (spec : LoadSpec) : EngineCall where
  tokens := m.tokenIds.take spec.lmcacheCachedTokens
  mask := (tokenMask c spec m.tokenIds.length).take spec.lmcacheCachedTokens
  requestConfigs := m.requestConfigs

/-- What is retrieved for a request. -/
def loadCall (c : AdapterConfig) (useLayerwise : Bool) (m : ReqMeta) (spec : LoadSpec) :
    EngineCall :=
  if useLayerwise then retrieveLayerCall c m spec else retrieveCall c m spec

/-- The chunks of a call of `store`, `store_layer`, `retrieve` or `retrieve_layer`. -/
def callChunks (db : ChunkedTokenDatabase) (call : EngineCall) : PyGen ChunkInfo :=
  (TokenDatabase.chunked db).processTokens (.ofTokens call.tokens (some call.mask))
    call.requestConfigs

/-- The configurations as the lookup server reads them: nothing is sent for an empty dictionary. -/
def sentConfigs (requestConfigs : RequestConfigs) : RequestConfigs :=
  match requestConfigs.getD [] with
  | [] => none
  | configs => some configs

/-- The chunks that a lookup checks: the client hashes the tokens, and the engine gets the hashes
with the lengths of the chunks. -/
def lookupChunks (db : ChunkedTokenDatabase) (tokens : List Int) (requestConfigs : RequestConfigs) :
    PyGen ChunkInfo :=
  match (db.processHashes (.ofTokens tokens none)).collect with
  | .error e => .raise e
  | .ok chunks =>
    if chunks = [] then .pure []
    else (TokenDatabase.chunked db).processTokens (ChunkedTokenDatabase.handedOn chunks none)
      (sentConfigs requestConfigs)

/-- The keys of a chunk: one for each layer when they are stored apart. -/
def chunkKeys (useLayerwise : Bool) (numLayers : Nat) (info : ChunkInfo) : List CacheEngineKey :=
  if useLayerwise then info.key.splitLayers numLayers else [info.key]

/-! ## What the chains are to agree on -/

/-- The tags of a request, as they enter the keys. -/
def requestTags (kvTransferParams : RequestConfigs) : Option (List (String × String)) :=
  tagsOf (extractRequestConfigs kvTransferParams)

/-- Two entries are for one range, with the same tokens up to its end. -/
structure SameChunk (tokens tokens' : List Int) (info info' : ChunkInfo) : Prop where
  start : info.start = info'.start
  stop : info.stop = info'.stop
  tokens : tokens.take info.stop = tokens'.take info.stop

/-- The range of an entry is one that the tokens are cut into. -/
def IsChunkOf (db : ChunkedTokenDatabase) (tokens : List Int) (info : ChunkInfo) : Prop :=
  info.stop ≤ tokens.length ∧
    (info.stop = info.start + db.chunkSize ∨ info.stop = tokens.length)

/-- **The agreement of the keys**, for what is stored of a request with these parameters.  A later
request with the same tokens and tags looks the stored keys up, and retrieves by them; a request
with other tags looks up none of them. -/
structure KeysAgree (c : AdapterConfig) (db : ChunkedTokenDatabase) (numLayers : Nat)
    (useLayerwise : Bool) (kvTransferParams : RequestConfigs) : Prop where
  found : ∀ w m call, m.requestConfigs = extractRequestConfigs kvTransferParams →
    storeCall c useLayerwise w m = .ok (some call) → ∀ stored ∈ (callChunks db call).yields,
    ∀ kvTransferParams', requestTags kvTransferParams' = requestTags kvTransferParams →
    ∀ tokens, IsChunkOf db tokens stored →
      tokens.take stored.stop = call.tokens.take stored.stop →
    ∃ checked ∈ (lookupChunks db tokens (extractRequestConfigs kvTransferParams')).yields,
      SameChunk call.tokens tokens stored checked ∧
        chunkKeys useLayerwise numLayers stored = chunkKeys useLayerwise numLayers checked
  read : ∀ w m call, m.requestConfigs = extractRequestConfigs kvTransferParams →
    storeCall c useLayerwise w m = .ok (some call) → ∀ stored ∈ (callChunks db call).yields,
    ∀ kvTransferParams', requestTags kvTransferParams' = requestTags kvTransferParams →
    ∀ m' spec, m'.requestConfigs = extractRequestConfigs kvTransferParams' →
    ∀ loaded ∈ (callChunks db (loadCall c useLayerwise m' spec)).yields,
      SameChunk call.tokens (loadCall c useLayerwise m' spec).tokens stored loaded →
      chunkKeys useLayerwise numLayers stored = chunkKeys useLayerwise numLayers loaded
  separate : ∀ w m call, m.requestConfigs = extractRequestConfigs kvTransferParams →
    storeCall c useLayerwise w m = .ok (some call) → ∀ stored ∈ (callChunks db call).yields,
    ∀ kvTransferParams', requestTags kvTransferParams' ≠ requestTags kvTransferParams →
    ∀ tokens, ∀ checked ∈ (lookupChunks db tokens (extractRequestConfigs kvTransferParams')).yields,
    ∀ key ∈ chunkKeys useLayerwise numLayers stored,
      key ∉ chunkKeys useLayerwise numLayers checked

/-! ## What the chunks are -/

/-- The entry of the chunk of one number. -/
def chunkInfoAt (db : ChunkedTokenDatabase) (metadata : LMCacheMetadata)
    (requestConfigs : RequestConfigs) (tokens : List Int) (n : Nat) : ChunkInfo where
  key := .ofRequest metadata.modelName (if db.saveOnlyFirstRank then 1 else metadata.worldSize)
    metadata.workerId (db.hashAt tokens n) metadata.kvDtype requestConfigs
  start := (db.hashedAt tokens n).start
  stop := (db.hashedAt tokens n).stop

variable {c : AdapterConfig} {db : ChunkedTokenDatabase} {metadata : LMCacheMetadata}

/-- A worker knows what its keys are made of, so that each chunk gets a key. -/
theorem mapM_keyed (hmeta : db.metadata = some metadata) (requestConfigs : RequestConfigs)
    (tokens : List Int) (numbers : List Nat) :
    PyGen.mapM (db.keyed requestConfigs) (.pure (numbers.map (db.hashedAt tokens))) =
      .pure (numbers.map (chunkInfoAt db metadata requestConfigs tokens)) := by
  induction numbers with
  | nil => rfl
  | cons n numbers ih =>
    have hkeyed : db.keyed requestConfigs (db.hashedAt tokens n) =
        .ok (chunkInfoAt db metadata requestConfigs tokens n) := by
      unfold TokenDatabaseBase.keyed TokenDatabaseBase.makeKeyByHash
      rw [hmeta]
      rfl
    have hrest : PyGen.mapYields (db.keyed requestConfigs) (numbers.map (db.hashedAt tokens)) none =
        .pure (numbers.map (chunkInfoAt db metadata requestConfigs tokens)) := ih
    show PyGen.mapYields _ (_ :: _) none = _
    unfold PyGen.mapYields
    rw [hkeyed, hrest]
    rfl

/-- The chunks of a call are chunks of its tokens. -/
theorem mem_callChunks (hpos : db.chunkSize ≠ 0) (hmeta : db.metadata = some metadata)
    {call : EngineCall} {info : ChunkInfo} (h : info ∈ (callChunks db call).yields) :
    ∃ n, n < db.numChunks call.tokens ∧
      info = chunkInfoAt db metadata call.requestConfigs call.tokens n := by
  unfold callChunks TokenDatabase.processTokens at h
  by_cases hmask : (TokenInput.ofTokens call.tokens (some call.mask)).numFalses % db.chunkSize = 0
  · obtain ⟨q, hq⟩ := Nat.dvd_of_mod_eq_zero hmask
    rw [Nat.mul_comm] at hq
    have hrun : (TokenDatabase.chunked db).processHashes (.ofTokens call.tokens (some call.mask)) =
        _ := db.processHashes_tokens hpos call.tokens _ hq
    rw [hrun] at h
    have hkeyed := mapM_keyed hmeta call.requestConfigs call.tokens
      (List.range' q (db.numChunks call.tokens - q))
    obtain ⟨n, hn, rfl⟩ := List.mem_map.mp ((congrArg PyGen.yields hkeyed) ▸ h)
    rw [List.mem_range'_1] at hn
    exact ⟨n, by omega, rfl⟩
  · have hrun : (TokenDatabase.chunked db).processHashes (.ofTokens call.tokens (some call.mask)) =
        .raise (.valueError
          "The number of Falses in the mask is not a multiple of the chunk size.") := by
      show db.processHashes _ = _
      unfold ChunkedTokenDatabase.processHashes
      rw [if_neg hpos, if_pos hmask]
    rw [hrun] at h
    exact absurd h List.not_mem_nil

/-- A lookup checks all chunks of its tokens. -/
theorem lookupChunks_eq (hpos : db.chunkSize ≠ 0) (hmeta : db.metadata = some metadata)
    (tokens : List Int) (requestConfigs : RequestConfigs) :
    lookupChunks db tokens requestConfigs = .pure ((List.range (db.numChunks tokens)).map
      (chunkInfoAt db metadata (sentConfigs requestConfigs) tokens)) := by
  have hzero : (TokenInput.ofTokens tokens none).numFalses = 0 * db.chunkSize :=
    (Nat.zero_mul _).symm
  have hrun := db.processHashes_tokens hpos tokens none hzero
  rw [Nat.sub_zero, ← List.range_eq_range'] at hrun
  obtain ⟨l, hl, hlaw⟩ := db.processHashes_prefixLaw hpos tokens none (Nat.zero_mod _)
  have hback := hlaw.comesBack rfl none (Nat.zero_mod _)
  obtain rfl : _ = l := congrArg PyGen.yields (hrun.symm.trans hl)
  have hkeyed := mapM_keyed hmeta (sentConfigs requestConfigs) tokens
    (List.range (db.numChunks tokens))
  unfold lookupChunks
  rw [hrun]
  show (if _ = [] then _ else _) = _
  split
  · rename_i hnil
    rw [List.map_eq_nil_iff.mp hnil]
    rfl
  · unfold TokenDatabase.processTokens
    have hprocess : (TokenDatabase.chunked db).processHashes
        (ChunkedTokenDatabase.handedOn _ none) = _ := hback
    rw [hprocess]
    exact hkeyed

/-! ## When the keys agree -/

/-- Nothing that is in the dictionary is lost on the way. -/
theorem getD_sentConfigs (requestConfigs : RequestConfigs) :
    (sentConfigs requestConfigs).getD [] = requestConfigs.getD [] := by
  unfold sentConfigs
  split
  · rename_i hnil
    exact hnil.symm
  · rfl

theorem tagsOf_sentConfigs (requestConfigs : RequestConfigs) :
    tagsOf (sentConfigs requestConfigs) = tagsOf requestConfigs := by
  unfold tagsOf
  rw [getD_sentConfigs]

variable {useLayerwise : Bool} {kvTransferParams requestConfigs : RequestConfigs} {numLayers : Nat}

/-- Only one of the two ways to store hands over the configurations. -/
theorem storeCall_requestConfigs {w : SavingWorker} {m : ReqMeta} {call : EngineCall}
    (h : storeCall c useLayerwise w m = .ok (some call)) :
    call.requestConfigs = if useLayerwise then none else m.requestConfigs := by
  unfold storeCall at h
  split at h
  · rename_i hlayerwise
    rw [if_pos hlayerwise]
    unfold saveKvLayerCall at h
    split at h
    · cases h
    · split at h
      · cases h
      · split at h
        · cases h
        · split at h
          · cases h
            rfl
          · split at h
            · cases h
            · cases h
              rfl
  · rename_i hplain
    rw [if_neg hplain]
    unfold waitForSaveCall at h
    match hsave : w.waitForSave c m with
    | .error e =>
      rw [hsave] at h
      cases h
    | .ok saved =>
      rw [hsave] at h
      obtain ⟨range, -, hcall⟩ := Option.map_eq_some_iff.mp (Except.ok.inj h)
      rw [← hcall]

/-- Either the configurations are handed over, or there are no tags in them. -/
def TagsReach (useLayerwise : Bool) (kvTransferParams : RequestConfigs) : Prop :=
  useLayerwise = false ∨ requestTags kvTransferParams = none

theorem TagsReach.tagsOf (h : TagsReach useLayerwise kvTransferParams) :
    CacheEngineKey.tagsOf (if useLayerwise then none
      else extractRequestConfigs kvTransferParams) = requestTags kvTransferParams := by
  rcases h with rfl | hnone
  · rfl
  · rw [hnone]
    split
    · rfl
    · exact hnone

/-- The tags are the same in the keys of all layers. -/
theorem tags_of_mem_chunkKeys {info : ChunkInfo} {key : CacheEngineKey}
    (h : key ∈ chunkKeys useLayerwise numLayers info) : key.tags = info.key.tags := by
  unfold chunkKeys at h
  split at h
  · obtain ⟨layer, -, rfl⟩ := List.mem_map.mp h
    rfl
  · rw [List.mem_singleton.mp h]

/-- Entries for the same tokens, with the same tags, have the same keys. -/
theorem chunkKeys_congr {n : Nat} {tokens tokens' : List Int} {requestConfigs' : RequestConfigs}
    (hagree : tokens.take (db.hashedAt tokens n).stop = tokens'.take (db.hashedAt tokens n).stop)
    (hstop : (db.hashedAt tokens' n).stop = (db.hashedAt tokens n).stop)
    (htags : tagsOf requestConfigs = tagsOf requestConfigs') :
    chunkKeys useLayerwise numLayers (chunkInfoAt db metadata requestConfigs tokens n) =
      chunkKeys useLayerwise numLayers (chunkInfoAt db metadata requestConfigs' tokens' n) := by
  have hkey : (chunkInfoAt db metadata requestConfigs tokens n).key =
      (chunkInfoAt db metadata requestConfigs' tokens' n).key := by
    unfold chunkInfoAt CacheEngineKey.ofRequest
    dsimp only
    rw [db.hashAt_congr hagree hstop, htags]
  unfold chunkKeys
  rw [hkey]

/-- Other tokens are cut at a chunk too that is one of theirs. -/
theorem lt_numChunks_of_isChunkOf (hpos : db.chunkSize ≠ 0) {tokens tokens' : List Int} {n : Nat}
    (hn : n < db.numChunks tokens)
    (h : IsChunkOf db tokens' (chunkInfoAt db metadata requestConfigs tokens n)) :
    n < db.numChunks tokens' ∧ (db.hashedAt tokens' n).stop = (db.hashedAt tokens n).stop := by
  obtain ⟨hle, hcut⟩ := h
  have hstart := (db.lt_numChunks_iff hpos).mp hn
  have hend : db.chunkEnd tokens ≤ tokens.length := by
    unfold ChunkedTokenDatabase.chunkEnd
    split <;> omega
  replace hle : min (n * db.chunkSize + db.chunkSize) tokens.length ≤ tokens'.length := hle
  replace hcut : min (n * db.chunkSize + db.chunkSize) tokens.length =
      n * db.chunkSize + db.chunkSize ∨
    min (n * db.chunkSize + db.chunkSize) tokens.length = tokens'.length := hcut
  have hstop : (db.hashedAt tokens' n).stop = (db.hashedAt tokens n).stop := by
    show min (n * db.chunkSize + db.chunkSize) tokens'.length =
      min (n * db.chunkSize + db.chunkSize) tokens.length
    omega
  refine ⟨?_, hstop⟩
  by_cases hfull : n * db.chunkSize + db.chunkSize ≤ tokens'.length
  · apply db.le_numChunks hpos
    rw [Nat.succ_mul]
    exact hfull
  · -- only the unfull chunk can be shorter
    have hunfull : db.saveUnfullChunk = true := by
      by_contra hnot
      have hstop' : min (n * db.chunkSize + db.chunkSize) tokens.length = _ :=
        db.stop_hashedAt_of_full hpos hn (.inr (Bool.eq_false_of_not_eq_true hnot))
      have hlength : (db.hashedAt tokens n).start = n * db.chunkSize := rfl
      omega
    rw [db.lt_numChunks_iff hpos]
    unfold ChunkedTokenDatabase.chunkEnd
    rw [if_pos hunfull]
    omega

/-- **The keys agree** when the tags reach both sides. -/
theorem keysAgree_of_tagsReach (hpos : db.chunkSize ≠ 0) (hmeta : db.metadata = some metadata)
    (h : TagsReach useLayerwise kvTransferParams) (numLayers : Nat) :
    KeysAgree c db numLayers useLayerwise kvTransferParams := by
  have hstored : ∀ {w : SavingWorker} {m : ReqMeta} {call : EngineCall},
      m.requestConfigs = extractRequestConfigs kvTransferParams →
      storeCall c useLayerwise w m = .ok (some call) →
      tagsOf call.requestConfigs = requestTags kvTransferParams := by
    intro w m call hm hcall
    rw [storeCall_requestConfigs hcall, hm]
    exact h.tagsOf
  refine ⟨?_, ?_, ?_⟩
  · intro w m call hm hcall stored hmem kvTransferParams' htags tokens hchunk hagree
    obtain ⟨n, hn, rfl⟩ := mem_callChunks hpos hmeta hmem
    obtain ⟨hn', hstop⟩ := lt_numChunks_of_isChunkOf hpos hn hchunk
    rw [lookupChunks_eq hpos hmeta]
    refine ⟨_, List.mem_map_of_mem (List.mem_range.mpr hn'), ⟨rfl, hstop.symm, hagree.symm⟩, ?_⟩
    apply chunkKeys_congr hagree.symm hstop
    rw [hstored hm hcall, tagsOf_sentConfigs]
    exact htags.symm
  · intro w m call hm hcall stored hmem kvTransferParams' htags m' spec hm' loaded hloaded hsame
    obtain ⟨n, hn, rfl⟩ := mem_callChunks hpos hmeta hmem
    obtain ⟨n', hn', rfl⟩ := mem_callChunks hpos hmeta hloaded
    obtain ⟨hstart, hstop, hagree⟩ := hsame
    obtain rfl : n = n' := Nat.eq_of_mul_eq_mul_right (Nat.pos_of_ne_zero hpos) hstart
    apply chunkKeys_congr hagree hstop.symm
    rw [hstored hm hcall]
    -- a request with the same tags retrieves under them
    have hreach : TagsReach useLayerwise kvTransferParams' := h.imp_right htags.trans
    have hconfigs : (loadCall c useLayerwise m' spec).requestConfigs =
        if useLayerwise then none else extractRequestConfigs kvTransferParams' := by
      unfold loadCall
      split
      · rfl
      · exact hm'
    rw [hconfigs, hreach.tagsOf]
    exact htags.symm
  · intro w m call hm hcall stored hmem kvTransferParams' htags tokens checked hchecked key hkey
      hkey'
    obtain ⟨n, -, rfl⟩ := mem_callChunks hpos hmeta hmem
    rw [lookupChunks_eq hpos hmeta] at hchecked
    obtain ⟨n', -, rfl⟩ := List.mem_map.mp hchecked
    have htag : key.tags = tagsOf call.requestConfigs := tags_of_mem_chunkKeys hkey
    have htag' : key.tags = tagsOf (sentConfigs _) := tags_of_mem_chunkKeys hkey'
    rw [htag, hstored hm hcall, tagsOf_sentConfigs] at htag'
    exact htags htag'.symm

/-! ## When they do not -/

/-- A request of one chunk, with these configurations. -/
def oneChunk (c : AdapterConfig) (requestConfigs : RequestConfigs) : ReqMeta where
  reqId := "r"
  tokenIds := List.replicate c.chunkSize 0
  slotMapping := List.replicate c.chunkSize 0
  isLastPrefill := true
  saveSpec := some ⟨0, true⟩
  loadSpec := none
  disaggSpec := none
  requestConfigs := requestConfigs

/-- The worker of an engine that stores and loads. -/
def savingWorker : SavingWorker := ⟨.kvBoth, false, true, true⟩

/-- Layer by layer, the chunk is stored without the configurations. -/
theorem storeCall_oneChunk (c : AdapterConfig) (requestConfigs : RequestConfigs) :
    storeCall c true savingWorker (oneChunk c requestConfigs) = .ok (some
      ⟨List.replicate c.chunkSize 0, leadingMask 0 c.chunkSize, none⟩) := by
  have hpos := c.chunkSize_pos
  have hne : 0 ≠ (List.replicate c.chunkSize (0 : Int)).length := by
    rw [List.length_replicate]
    omega
  show saveKvLayerCall c savingWorker (oneChunk c requestConfigs) = _
  unfold saveKvLayerCall oneChunk savingWorker
  rw [if_neg (by decide)]
  show (if List.length _ ≠ List.length _ then _ else if _ then _ else _) = _
  rw [if_neg (by simp), if_neg (by decide)]
  show (if 0 = _ then _ else _) = _
  rw [if_neg hne, Nat.zero_div, Nat.zero_mul, List.length_replicate]

theorem numFalses_leadingMask_zero (tokens : List Int) (n : Nat) :
    (TokenInput.ofTokens tokens (some (leadingMask 0 n))).numFalses = 0 := by
  have hall : (leadingMask 0 n).count true = (leadingMask 0 n).length := by
    rw [List.count_eq_length]
    intro b hb
    obtain ⟨i, -, rfl⟩ := List.mem_map.mp hb
    exact (decide_eq_true (Nat.zero_le i)).symm
  show (leadingMask 0 n).length - (leadingMask 0 n).count true = 0
  rw [hall, Nat.sub_self]

/-- Layer by layer, a request with tags does not find what it has stored. -/
theorem tagsReach_of_keysAgree (hchunk : db.chunkSize = c.chunkSize)
    (hmeta : db.metadata = some metadata) (hlayers : 0 < numLayers)
    (h : KeysAgree c db numLayers useLayerwise kvTransferParams) :
    TagsReach useLayerwise kvTransferParams := by
  have hcpos := c.chunkSize_pos
  have hpos : db.chunkSize ≠ 0 := by omega
  match useLayerwise with
  | false => exact .inl rfl
  | true =>
    right
    have hcall := storeCall_oneChunk c (extractRequestConfigs kvTransferParams)
    have hone : 1 ≤ db.numChunks (List.replicate c.chunkSize 0) :=
      db.le_numChunks hpos (by rw [List.length_replicate]; omega)
    have hmem : chunkInfoAt db metadata none (List.replicate c.chunkSize 0) 0 ∈
        (callChunks db ⟨List.replicate c.chunkSize 0, leadingMask 0 c.chunkSize, none⟩).yields := by
      unfold callChunks TokenDatabase.processTokens
      have hrun : (TokenDatabase.chunked db).processHashes (.ofTokens
          (List.replicate c.chunkSize 0) (some (leadingMask 0 c.chunkSize))) = _ :=
        db.processHashes_tokens hpos _ _
          ((numFalses_leadingMask_zero _ _).trans (Nat.zero_mul db.chunkSize).symm)
      rw [hrun]
      have hkeyed := congrArg PyGen.yields (mapM_keyed hmeta none (List.replicate c.chunkSize 0)
        (List.range' 0 (db.numChunks (List.replicate c.chunkSize 0) - 0)))
      refine (congrArg _ hkeyed).mpr (List.mem_map_of_mem ?_)
      rw [List.mem_range'_1]
      omega
    have hstop : (chunkInfoAt db metadata none (List.replicate c.chunkSize 0) 0).stop =
        c.chunkSize := by
      show min (0 * db.chunkSize + db.chunkSize) (List.replicate c.chunkSize (0 : Int)).length = _
      rw [List.length_replicate, hchunk]
      omega
    have hisChunk : IsChunkOf db (List.replicate c.chunkSize 0)
        (chunkInfoAt db metadata none (List.replicate c.chunkSize 0) 0) := by
      unfold IsChunkOf
      rw [hstop, List.length_replicate]
      exact ⟨Nat.le_refl _, .inr rfl⟩
    obtain ⟨checked, hchecked, -, hkeys⟩ := h.found savingWorker
      (oneChunk c (extractRequestConfigs kvTransferParams)) _ rfl hcall _ hmem kvTransferParams rfl
      (List.replicate c.chunkSize 0) hisChunk rfl
    rw [lookupChunks_eq hpos hmeta] at hchecked
    obtain ⟨n, -, rfl⟩ := List.mem_map.mp hchecked
    -- the key of the first layer has no tags, and those of the request
    obtain ⟨key, hkey⟩ : ∃ key, key ∈ chunkKeys true numLayers
        (chunkInfoAt db metadata none (List.replicate c.chunkSize 0) 0) := by
      apply List.exists_mem_of_length_pos
      show 0 < (CacheEngineKey.splitLayers _ numLayers).length
      rw [splitLayers_eq, List.length_map, List.length_range]
      exact hlayers
    have htag : key.tags = none := tags_of_mem_chunkKeys hkey
    have htag' : key.tags = tagsOf (sentConfigs _) := tags_of_mem_chunkKeys (hkeys ▸ hkey)
    rw [htag, tagsOf_sentConfigs] at htag'
    exact htag'.symm

/-- Chunks of four tokens, each hashed to its sum on top of the hash before it. -/
def fourSums : ChunkedTokenDatabase where
  hashFunc := fun prefixHash tokens => prefixHash.getD 0 + tokens.sum
  noneHash := 0
  metadata := some ⟨"model", 1, 0, .float16⟩
  saveOnlyFirstRank := false
  chunkSize := 4
  saveUnfullChunk := true

end LMCache.Vllm
