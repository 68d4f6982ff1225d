/-
# LMCache.Vllm.RequestTracker — what the adapter keeps of a request, and the metadata of a step.

Source: `integration/vllm/vllm_v1_adapter.py` (`LoadSpec`, `SaveSpec`, `DisaggSpec`,
`RequestTracker`, `ReqMeta`) and `hex_hash_to_int16`, `apply_mm_hashes_to_token_ids` of
`integration/vllm/utils.py`.

A tracker holds the tokens that were scheduled so far, the blocks they have and how many of them
were saved.  Every step makes one metadata record of it, or none, with the tokens and the slots for
both the load and the save: the rule that cuts them is the one of the save.
-/
import LMCache.Lib.PyStr
import LMCache.TokenDatabase

namespace LMCache.Vllm

open LMCache.Lib

/-! ## The records -/

structure LoadSpec where
  /-- Number of tokens cached in vLLM. -/
  vllmCachedTokens : Nat
  /-- Number of tokens that are cached in LMCache. -/
  lmcacheCachedTokens : Nat
  /-- Whether the scheduler allows to load the tokens. -/
  canLoad : Bool
  deriving DecidableEq, Repr

structure SaveSpec where
  skipLeadingTokens : Nat
  canSave : Bool
  deriving DecidableEq, Repr

/-- What the adapter reads of a `DisaggSpec`; the receiver is passed on as it is. -/
structure DisaggSpec where
  isLastPrefill : Bool
  numTransferredTokens : Nat
  deriving DecidableEq, Repr

/-- Where the placeholders of a multimodal input stand. -/
structure PlaceholderRange where
  offset : Nat
  length : Nat
  deriving DecidableEq, Repr

/-- What the metadata depends on besides the request. -/
structure AdapterConfig where
  /-- `_block_size` -/
  blockSize : Nat
  /-- `_lmcache_chunk_size` -/
  chunkSize : Nat
  discardPartialChunks : Bool
  saveDecodeCache : Bool
  /-- `hashlib.sha256(_).digest()` -/
  sha256 : List UInt8 → List UInt8
  blockSize_pos : 0 < blockSize
  chunkSize_pos : 0 < chunkSize

/-- `mm_hashes` with `mm_positions`, two lists of one length. -/
abbrev MmFeatures := List (String × PlaceholderRange)

/-! ## Multimodal hashes in the place of tokens -/

/-- `string.hexdigits`. -/
def isHexDigit (c : Char) : Bool :=
  ('0' ≤ c ∧ c ≤ '9') ∨ ('a' ≤ c ∧ c ≤ 'f') ∨ ('A' ≤ c ∧ c ≤ 'F')

/-- `hex_hash_to_int16`. -/
def hexHashToInt16 (sha256 : List UInt8 → List UInt8) (s : String) : Int :=
  let stripped := PyStr.strip s.toList
  let hexPart := match stripped with
    | '0' :: 'x' :: rest => rest
    | '0' :: 'X' :: rest => rest
    | _ => stripped
  match if !hexPart.isEmpty && hexPart.all isHexDigit then PyStr.readDigits 16 0 hexPart
    else none with
  | some n => n % 65536
  | none =>
    match sha256 (PyStr.encode stripped) with
    | high :: low :: _ => high.toNat * 256 + low.toNat
    | _ => 0

/-- `token_ids[start:end] = value`. -/
def overwrite (tokenIds : List Int) (start stop : Nat) (value : Int) : List Int :=
  tokenIds.mapIdx fun i t => if start ≤ i ∧ i < stop then value else t

/-- `apply_mm_hashes_to_token_ids`. -/
def applyMmHashesToTokenIds (sha256 : List UInt8 → List UInt8) (tokenIds : List Int)
    (mmFeatures : MmFeatures) : List Int :=
  mmFeatures.foldl (fun ts f =>
    if f.2.offset < ts.length then
      overwrite ts f.2.offset (min (f.2.offset + f.2.length) ts.length) (hexHashToInt16 sha256 f.1)
    else ts) tokenIds

@[simp] theorem length_overwrite (tokenIds : List Int) (start stop : Nat) (value : Int) :
    (overwrite tokenIds start stop value).length = tokenIds.length := List.length_mapIdx

@[simp] theorem length_applyMmHashesToTokenIds (sha256 : List UInt8 → List UInt8)
    (tokenIds : List Int) (mmFeatures : MmFeatures) :
    (applyMmHashesToTokenIds sha256 tokenIds mmFeatures).length = tokenIds.length := by
  unfold applyMmHashesToTokenIds
  induction mmFeatures generalizing tokenIds with
  | nil => rfl
  | cons f fs ih =>
    rw [List.foldl_cons, ih]
    split
    · exact length_overwrite _ _ _ _
    · rfl

/-! ## The tracker -/

/-- The configurations that a request brings along for LMCache: `extract_request_configs`. -/
def extractRequestConfigs (kvTransferParams : RequestConfigs) : RequestConfigs :=
  match (kvTransferParams.getD []).filter fun p => "lmcache.".toList.isPrefixOf p.1.toList with
  | [] => none
  | configs => some configs

/-- What the scheduler tells about a new request. -/
structure NewRequestData where
  reqId : String
  promptTokenIds : List Int
  /-- The blocks of the one group that is supported. -/
  blockIds : List Nat
  numComputedTokens : Nat
  /-- `sampling_params.extra_args["kv_transfer_params"]` -/
  kvTransferParams : RequestConfigs
  mmFeatures : MmFeatures
  deriving DecidableEq, Repr

structure RequestTracker where
  reqId : String
  promptLen : Nat
  /-- The tokens that have been scheduled so far. -/
  tokenIds : List Int
  allocatedBlockIds : List Nat
  numSavedTokens : Nat
  disaggSpec : Option DisaggSpec
  mmFeatures : MmFeatures
  requestConfigs : RequestConfigs
  isDecodePhase : Bool
  skipSave : Bool
  deriving DecidableEq, Repr

namespace RequestTracker

/-- `from_new_request`; `disaggSpec` is what stands for the request in `tmp_disagg_tracker`. -/
def fromNewRequest (newRequest : NewRequestData) (numTokensToCompute lmcacheCachedTokens : Nat)
    (skipSave : Bool) (disaggSpec : Option DisaggSpec) : RequestTracker where
  reqId := newRequest.reqId
  promptLen := newRequest.promptTokenIds.length
  tokenIds := newRequest.promptTokenIds.take numTokensToCompute
  allocatedBlockIds := newRequest.blockIds
  numSavedTokens := lmcacheCachedTokens
  disaggSpec := disaggSpec
  mmFeatures := newRequest.mmFeatures
  requestConfigs := extractRequestConfigs newRequest.kvTransferParams
  isDecodePhase := false
  skipSave := skipSave

/-- The text of the assertion of `update`. -/
def noAllTokenIds (reqId : String) : String := s!"Preempted request {reqId} has no all_token_ids"

/-- `update`. -/
def update (t : RequestTracker) (newTokenIds : List Int) (newBlockIds : Option (List Nat))
    (preempted : Bool) (lmcacheCachedTokens vllmCachedTokens : Nat)
    (allTokenIds : Option (List Int)) : Except PyError RequestTracker := do
  let newBlockIds := newBlockIds.getD []
  let t ←
    if preempted then
      match allTokenIds with
      | none => .error (.assertionError (noAllTokenIds t.reqId))
      | some allTokenIds =>
        let numComputedTokens := max lmcacheCachedTokens vllmCachedTokens
        let numTokensNeeded := max (numComputedTokens + newTokenIds.length) lmcacheCachedTokens
        pure { t with
          allocatedBlockIds := newBlockIds
          numSavedTokens := lmcacheCachedTokens
          tokenIds := allTokenIds.take numTokensNeeded }
    else
      pure { t with
        allocatedBlockIds := t.allocatedBlockIds ++ newBlockIds
        tokenIds := t.tokenIds ++ newTokenIds }
  -- one new token counts as a step of the decode phase, also when it is one of the prefill
  return if newTokenIds.length = 1 then { t with isDecodePhase := true } else t

theorem update_running (t : RequestTracker) (newTokenIds : List Int)
    (newBlockIds : Option (List Nat)) (lmcacheCachedTokens vllmCachedTokens : Nat)
    (allTokenIds : Option (List Int)) :
    t.update newTokenIds newBlockIds false lmcacheCachedTokens vllmCachedTokens allTokenIds = .ok
      { t with
        allocatedBlockIds := t.allocatedBlockIds ++ newBlockIds.getD []
        tokenIds := t.tokenIds ++ newTokenIds
        isDecodePhase := newTokenIds.length = 1 || t.isDecodePhase } := by
  unfold update
  by_cases hone : newTokenIds.length = 1
  · simp [hone]
    rfl
  · simp [hone]
    rfl

theorem update_preempted (t : RequestTracker) (newTokenIds : List Int)
    (newBlockIds : Option (List Nat)) (lmcacheCachedTokens vllmCachedTokens : Nat)
    (allTokenIds : List Int) :
    t.update newTokenIds newBlockIds true lmcacheCachedTokens vllmCachedTokens (some allTokenIds) =
      .ok { t with
        allocatedBlockIds := newBlockIds.getD []
        numSavedTokens := lmcacheCachedTokens
        tokenIds := allTokenIds.take
          (max (max lmcacheCachedTokens vllmCachedTokens + newTokenIds.length) lmcacheCachedTokens)
        isDecodePhase := newTokenIds.length = 1 || t.isDecodePhase } := by
  unfold update
  by_cases hone : newTokenIds.length = 1
  · simp [hone]
    rfl
  · simp [hone]
    rfl

end RequestTracker

/-! ## The metadata -/

structure ReqMeta where
  reqId : String
  tokenIds : List Int
  slotMapping : List Nat
  isLastPrefill : Bool
  saveSpec : Option SaveSpec
  loadSpec : Option LoadSpec
  disaggSpec : Option DisaggSpec
  requestConfigs : RequestConfigs
  deriving DecidableEq, Repr

/-- The slots of blocks, one for each token they have room for. -/
def slotMapping (blockIds : List Nat) (blockSize : Nat) : List Nat :=
  blockIds.flatMap fun block => (List.range blockSize).map fun offset => offset + block * blockSize

/-- `cdiv`: division that rounds up. -/
def cdiv (a b : Nat) : Nat := (a + b - 1) / b

namespace RequestTracker

/-- `is_last_prefill`. -/
def isLastPrefill (t : RequestTracker) : Bool := t.promptLen ≤ t.tokenIds.length

/-- `(tracker.request_configs or {}).get("lmcache.skip_save", False)`, as a truth value. -/
def requestSkip (t : RequestTracker) : Bool :=
  ((t.requestConfigs.getD []).lookup "lmcache.skip_save").getD "" ≠ ""

/-- `chunk_boundary`: the next multiple of the chunk size behind the tokens that were saved. -/
def chunkBoundary (t : RequestTracker) (chunkSize : Nat) : Nat :=
  cdiv (t.numSavedTokens + 1) chunkSize * chunkSize

/-- `skip_save`. -/
def skipsSave (c : AdapterConfig) (t : RequestTracker) : Bool :=
  t.disaggSpec.isNone &&
    (t.skipSave || (0 < t.numSavedTokens ∧ t.tokenIds.length < t.chunkBoundary c.chunkSize) ||
      (t.isDecodePhase && !c.saveDecodeCache) || t.requestSkip)

/-- `num_tokens_to_save`. -/
def numTokensToSave (c : AdapterConfig) (t : RequestTracker) : Nat :=
  if !t.isLastPrefill || c.discardPartialChunks then t.tokenIds.length / c.chunkSize * c.chunkSize
  else t.tokenIds.length

end RequestTracker

/-- `ReqMeta.from_request_tracker`: the metadata, if any, and the tracker afterwards. -/
def fromRequestTracker (c : AdapterConfig) (tracker : RequestTracker) (loadSpec : Option LoadSpec) :
    Option ReqMeta × RequestTracker :=
  let skipSave := tracker.skipsSave c
  if skipSave && loadSpec.isNone then (none, tracker)
  else
    let numTokensToSave := tracker.numTokensToSave c
    let tokenIds := tracker.tokenIds.take numTokensToSave
    let tokenIds :=
      if tracker.mmFeatures.isEmpty then tokenIds
      else applyMmHashesToTokenIds c.sha256 tokenIds tracker.mmFeatures
    (some
      { reqId := tracker.reqId
        tokenIds := tokenIds
        slotMapping := (slotMapping tracker.allocatedBlockIds c.blockSize).take tokenIds.length
        isLastPrefill := tracker.isLastPrefill
        saveSpec := some ⟨tracker.numSavedTokens, !skipSave⟩
        loadSpec := loadSpec.filter LoadSpec.canLoad
        disaggSpec := tracker.disaggSpec
        requestConfigs := tracker.requestConfigs },
      if skipSave then tracker else { tracker with numSavedTokens := numTokensToSave })

/-! ### What the metadata says -/

/-- A slot stands in the block of its token, at the place of the token in the block. -/
theorem getElem?_slotMapping (blockIds : List Nat) {blockSize : Nat} (h : 0 < blockSize) (i : Nat) :
    (slotMapping blockIds blockSize)[i]? =
      (blockIds[i / blockSize]?).map fun block => block * blockSize + i % blockSize := by
  induction blockIds generalizing i with
  | nil => simp [slotMapping]
  | cons block blocks ih =>
    have hcons : slotMapping (block :: blocks) blockSize =
        ((List.range blockSize).map fun offset => offset + block * blockSize) ++
          slotMapping blocks blockSize := rfl
    rw [hcons]
    by_cases hi : i < blockSize
    · rw [List.getElem?_append_left (by simpa using hi), Nat.div_eq_of_lt hi, Nat.mod_eq_of_lt hi]
      simp [hi, Nat.add_comm]
    · rw [List.getElem?_append_right (by simpa using hi), List.length_map, List.length_range, ih]
      have hdiv : i / blockSize = (i - blockSize) / blockSize + 1 := by
        rw [← Nat.add_div_right _ h, Nat.sub_add_cancel (Nat.le_of_not_lt hi)]
      have hmod : (i - blockSize) % blockSize = i % blockSize := by
        rw [← Nat.add_mod_right, Nat.sub_add_cancel (Nat.le_of_not_lt hi)]
      rw [hdiv, List.getElem?_cons_succ, hmod]

@[simp] theorem length_slotMapping (blockIds : List Nat) (blockSize : Nat) :
    (slotMapping blockIds blockSize).length = blockIds.length * blockSize := by
  simp [slotMapping, List.length_flatMap]

/-- The tokens up to which a step loads and saves, of those scheduled so far. -/
def cutLength (c : AdapterConfig) (promptLen numTokens : Nat) : Nat :=
  if numTokens < promptLen ∨ c.discardPartialChunks then numTokens / c.chunkSize * c.chunkSize
  else numTokens

variable (c : AdapterConfig)

theorem cutLength_le (promptLen numTokens : Nat) : cutLength c promptLen numTokens ≤ numTokens := by
  unfold cutLength
  split
  · exact Nat.div_mul_le_self _ _
  · exact Nat.le_refl _

theorem RequestTracker.numTokensToSave_eq (t : RequestTracker) :
    t.numTokensToSave c = cutLength c t.promptLen t.tokenIds.length := by
  unfold numTokensToSave cutLength isLastPrefill
  simp

/-- What a step makes of a tracker: only the number of saved tokens may change. -/
theorem fromRequestTracker_tracker (tracker : RequestTracker) (loadSpec : Option LoadSpec) :
    ∃ n, (fromRequestTracker c tracker loadSpec).2 = { tracker with numSavedTokens := n } := by
  unfold fromRequestTracker
  dsimp only
  by_cases hskip : tracker.skipsSave c = true
  · refine ⟨tracker.numSavedTokens, ?_⟩
    split
    · rfl
    · rfl
  · refine ⟨tracker.numTokensToSave c, ?_⟩
    rw [if_neg (by simp [hskip])]
    exact if_neg hskip

/-- The metadata of a tracker, where there is any. -/
theorem fromRequestTracker_meta {c : AdapterConfig} {tracker : RequestTracker}
    {loadSpec : Option LoadSpec} {m : ReqMeta}
    (h : (fromRequestTracker c tracker loadSpec).1 = some m) :
    m.reqId = tracker.reqId ∧
      m.tokenIds.length = cutLength c tracker.promptLen tracker.tokenIds.length ∧
      m.slotMapping = (slotMapping tracker.allocatedBlockIds c.blockSize).take m.tokenIds.length ∧
      m.loadSpec = loadSpec.filter LoadSpec.canLoad := by
  unfold fromRequestTracker at h
  dsimp only at h
  split at h
  · cases h
  · cases h
    refine ⟨rfl, ?_, rfl, rfl⟩
    rw [← RequestTracker.numTokensToSave_eq]
    have hle := cutLength_le c tracker.promptLen tracker.tokenIds.length
    rw [← RequestTracker.numTokensToSave_eq] at hle
    split
    · exact List.length_take_of_le hle
    · rw [length_applyMmHashesToTokenIds]
      exact List.length_take_of_le hle

end LMCache.Vllm
