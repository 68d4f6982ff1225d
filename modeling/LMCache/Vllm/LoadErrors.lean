/-
# LMCache.Vllm.LoadErrors — the blocks that a failed load is reported with.

Source: `start_load_kv`, `record_failed_blocks`, `wait_for_layer_load` and
`get_block_ids_with_load_errors` of `integration/vllm/vllm_v1_adapter.py`, from where there are
requests to load.

vLLM has the first tokens of a request, and LMCache is to bring the others, up to where it has the
request.  It brings whole chunks: the first may begin among the tokens that vLLM has.  What the
engine has retrieved comes back as a mask; the adapter counts it, and looks for what is missing when
there is less than what was to be brought.
-/
import LMCache.Vllm.SchedulerRuns
import Mathlib.Data.Finset.Basic
import Mathlib.Data.Finset.Dedup

namespace LMCache.Vllm

/-! ## The adapter -/

/-- What a worker's adapter has for loads. -/
structure LoadingWorker where
  useLayerwise : Bool
  enableBlending : Bool
  /-- What the generators of `layerwise_retrievers` yield in the end. -/
  layerwiseRetrievers : List (List Bool) := []
  /-- `_invalid_block_ids` -/
  invalidBlockIds : Finset Nat := ∅
  deriving DecidableEq

/-- `missing_mask`: what was expected and not retrieved. -/
def missingMask (expectedMask retMask : List Bool) : List Bool :=
  List.zipWith (fun expected retrieved => expected && !retrieved) expectedMask retMask

/-- `missing_indices`. -/
def missingIndices (mask : List Bool) : List Nat :=
  (List.range mask.length).filter fun i => mask[i]? = some true

/-- `record_failed_blocks`. -/
def recordFailedBlocks (c : AdapterConfig) (expectedMask retMask : List Bool)
    (slotMapping : List Nat) : Finset Nat :=
  if expectedMask.length = 0 then ∅
  else if retMask.length ≠ expectedMask.length then ∅
  else
    let mask := missingMask expectedMask retMask
    let slotMapping :=
      if mask.length < slotMapping.length then slotMapping.take mask.length else slotMapping
    (((missingIndices mask).filterMap fun i => slotMapping[i]?).map (· / c.blockSize)).toFinset

/-- `token_mask`: the tokens of the chunks that vLLM does not have as a whole. -/
def tokenMask (c : AdapterConfig) (spec : LoadSpec) (numTokens : Nat) : List Bool :=
  let maskedTokenCount := spec.vllmCachedTokens / c.chunkSize * c.chunkSize
  (List.range numTokens).map fun i => maskedTokenCount ≤ i

namespace LoadingWorker

/-- The load of one request, for which the engine retrieves what is in `retTokenMask`. -/
def loadRequest (c : AdapterConfig) (a : LoadingWorker) (request : ReqMeta)
    (retTokenMask : List Bool) : Except PyError LoadingWorker :=
  match request.loadSpec with
  | none => .ok a
  | some spec =>
    if request.tokenIds.length ≠ request.slotMapping.length then .error (.assertionError "")
    else
      let tokenMask := tokenMask c spec request.tokenIds.length
      let lmcacheCachedTokens := spec.lmcacheCachedTokens
      if a.useLayerwise then
        if a.enableBlending then .ok a
        else .ok { a with layerwiseRetrievers := a.layerwiseRetrievers ++ [retTokenMask] }
      else
        let numRetrievedTokens : Int := retTokenMask.count true
        let numExpectedTokens : Int := lmcacheCachedTokens - spec.vllmCachedTokens
        if numRetrievedTokens < numExpectedTokens then
          .ok { a with
            invalidBlockIds := a.invalidBlockIds ∪
              recordFailedBlocks c (tokenMask.take lmcacheCachedTokens) retTokenMask
                (request.slotMapping.take lmcacheCachedTokens) }
        else .ok a

/-- The loop of `start_load_kv` over the requests of a step. -/
def loadRequests (c : AdapterConfig) :
    LoadingWorker → List (ReqMeta × List Bool) → Except PyError LoadingWorker
  | a, [] => .ok a
  | a, (request, retTokenMask) :: requests => do
    let a ← a.loadRequest c request retTokenMask
    a.loadRequests c requests

/-- `start_load_kv`. -/
def startLoadKv (c : AdapterConfig) (a : LoadingWorker) (requests : List (ReqMeta × List Bool)) :
    Except PyError LoadingWorker :=
  { a with layerwiseRetrievers := [] }.loadRequests c requests

/-- `wait_for_layer_load` of the last layer: the masks are counted for the log. -/
def waitForLayerLoad (a : LoadingWorker) : List Nat × LoadingWorker :=
  (a.layerwiseRetrievers.map fun retTokenMask => retTokenMask.count true, a)

/-- `get_block_ids_with_load_errors`. -/
def getBlockIdsWithLoadErrors (a : LoadingWorker) : Finset Nat × LoadingWorker :=
  (a.invalidBlockIds, { a with invalidBlockIds := ∅ })

end LoadingWorker

/-! ## What is to be reported -/

/-- A token that LMCache was to bring and the engine has not retrieved. -/
structure Missing (spec : LoadSpec) (request : ReqMeta) (retTokenMask : List Bool) (i : Nat) :
    Prop where
  notInVllm : spec.vllmCachedTokens ≤ i
  cached : i < spec.lmcacheCachedTokens
  token : i < request.tokenIds.length
  notRetrieved : retTokenMask[i]? ≠ some true

/-- **The report.**  Whatever else the adapter loads in the step, and has in its set from before,
the blocks of the tokens that are missing are among those that vLLM gets. -/
def ReportsMissing (c : AdapterConfig) (useLayerwise : Bool) (spec : LoadSpec) (request : ReqMeta)
    (retTokenMask : List Bool) : Prop :=
  ∀ (a a' : LoadingWorker) (before after : List (ReqMeta × List Bool)),
    a.useLayerwise = useLayerwise →
    a.startLoadKv c (before ++ (request, retTokenMask) :: after) = .ok a' →
    ∀ i slot, Missing spec request retTokenMask i → request.slotMapping[i]? = some slot →
      slot / c.blockSize ∈ a'.waitForLayerLoad.2.getBlockIdsWithLoadErrors.1

/-- How many tokens are retrieved that vLLM has: those of the first chunk that are before. -/
def surplus (spec : LoadSpec) (retTokenMask : List Bool) : Nat :=
  (retTokenMask.take spec.vllmCachedTokens).count true

/-- How many of the tokens that were to be brought are not retrieved. -/
def missingCount (spec : LoadSpec) (retTokenMask : List Bool) : Nat :=
  spec.lmcacheCachedTokens - spec.vllmCachedTokens -
    (retTokenMask.drop spec.vllmCachedTokens).count true

/-- The adapter counts less than it expects exactly when the surplus does not make up for what is
missing. -/
theorem count_lt_iff (spec : LoadSpec) (retTokenMask : List Bool) :
    ((retTokenMask.count true : Int) <
        (spec.lmcacheCachedTokens : Int) - spec.vllmCachedTokens) ↔
      surplus spec retTokenMask < missingCount spec retTokenMask := by
  have hcount : retTokenMask.count true =
      surplus spec retTokenMask + (retTokenMask.drop spec.vllmCachedTokens).count true := by
    unfold surplus
    rw [← List.count_append, List.take_append_drop]
  unfold missingCount
  omega

/-! ## What is recorded -/

variable {c : AdapterConfig} {spec : LoadSpec} {request : ReqMeta} {retTokenMask : List Bool}

theorem mem_missingIndices {mask : List Bool} {i : Nat} :
    i ∈ missingIndices mask ↔ mask[i]? = some true := by
  unfold missingIndices
  rw [List.mem_filter, List.mem_range, decide_eq_true_eq]
  refine and_iff_right_of_imp fun h => ?_
  exact (List.getElem?_eq_some_iff.mp h).1

theorem getElem?_tokenMask (c : AdapterConfig) (spec : LoadSpec) {numTokens i : Nat}
    (h : i < numTokens) : (tokenMask c spec numTokens)[i]? =
      some (decide (spec.vllmCachedTokens / c.chunkSize * c.chunkSize ≤ i)) := by
  unfold tokenMask
  rw [List.getElem?_map, List.getElem?_range h]
  rfl

theorem length_tokenMask (c : AdapterConfig) (spec : LoadSpec) (numTokens : Nat) :
    (tokenMask c spec numTokens).length = numTokens := by
  unfold tokenMask
  rw [List.length_map, List.length_range]

/-- The mask that the engine gives back is one for the tokens it was asked for. -/
def FitsMask (spec : LoadSpec) (request : ReqMeta) (retTokenMask : List Bool) : Prop :=
  retTokenMask.length = min spec.lmcacheCachedTokens request.tokenIds.length

/-- The blocks of the tokens that are missing are recorded. -/
theorem mem_recordFailedBlocks (hfits : FitsMask spec request retTokenMask) {i slot : Nat}
    (hi : Missing spec request retTokenMask i) (hslot : request.slotMapping[i]? = some slot) :
    slot / c.blockSize ∈ recordFailedBlocks c
      ((tokenMask c spec request.tokenIds.length).take spec.lmcacheCachedTokens) retTokenMask
      (request.slotMapping.take spec.lmcacheCachedTokens) := by
  have hcached := hi.cached
  have htoken := hi.token
  have hlength : ((tokenMask c spec request.tokenIds.length).take
      spec.lmcacheCachedTokens).length = retTokenMask.length := by
    rw [List.length_take, length_tokenMask]
    exact hfits.symm
  have hlt : i < retTokenMask.length := by
    rw [hfits]
    omega
  have hfalse : retTokenMask[i]? = some false := by
    have hsome := List.getElem?_eq_getElem hlt
    have hnot := hi.notRetrieved
    rw [hsome] at hnot ⊢
    exact congrArg some (Bool.eq_false_of_not_eq_true fun htrue => hnot (congrArg some htrue))
  have hmasked : spec.vllmCachedTokens / c.chunkSize * c.chunkSize ≤ i :=
    (Nat.div_mul_le_self _ _).trans hi.notInVllm
  have hexpected : ((tokenMask c spec request.tokenIds.length).take
      spec.lmcacheCachedTokens)[i]? = some true := by
    rw [List.getElem?_take_of_lt hcached, getElem?_tokenMask c spec htoken, decide_eq_true hmasked]
  unfold recordFailedBlocks
  rw [if_neg (by omega), if_neg (by omega)]
  dsimp only
  have hmem : i ∈ missingIndices (missingMask
      ((tokenMask c spec request.tokenIds.length).take spec.lmcacheCachedTokens)
      retTokenMask) := by
    rw [mem_missingIndices]
    unfold missingMask
    rw [List.getElem?_zipWith, hexpected, hfalse]
    rfl
  rw [List.mem_toFinset]
  refine List.mem_map_of_mem (List.mem_filterMap.mpr ⟨i, hmem, ?_⟩)
  have htake : (request.slotMapping.take spec.lmcacheCachedTokens)[i]? = some slot := by
    rw [List.getElem?_take_of_lt hcached, hslot]
  -- the slots are cut to the mask, and the token is in it
  split
  · have hmask : i < (missingMask ((tokenMask c spec request.tokenIds.length).take
        spec.lmcacheCachedTokens) retTokenMask).length := by
      unfold missingMask
      rw [List.length_zipWith, hlength, Nat.min_self]
      exact hlt
    rw [List.getElem?_take_of_lt hmask, htake]
  · exact htake

theorem recordFailedBlocks_of_not_fits (hnot : ¬ FitsMask spec request retTokenMask)
    (slotMapping : List Nat) : recordFailedBlocks c
      ((tokenMask c spec request.tokenIds.length).take spec.lmcacheCachedTokens) retTokenMask
      slotMapping = ∅ := by
  unfold recordFailedBlocks
  rw [List.length_take, length_tokenMask]
  split
  · rfl
  · exact if_pos hnot

namespace LoadingWorker

variable {a a' : LoadingWorker}

/-- The load of a request takes nothing out of the set. -/
theorem loadRequest_spec (h : a.loadRequest c request retTokenMask = .ok a') :
    a'.useLayerwise = a.useLayerwise ∧ a.invalidBlockIds ⊆ a'.invalidBlockIds := by
  unfold loadRequest at h
  split at h
  · cases h
    exact ⟨rfl, Finset.Subset.refl _⟩
  · split at h
    · cases h
    · dsimp only at h
      split at h
      · split at h
        · cases h
          exact ⟨rfl, Finset.Subset.refl _⟩
        · cases h
          exact ⟨rfl, Finset.Subset.refl _⟩
      · split at h
        · cases h
          exact ⟨rfl, Finset.subset_union_left⟩
        · cases h
          exact ⟨rfl, Finset.Subset.refl _⟩

theorem loadRequests_spec {requests : List (ReqMeta × List Bool)}
    (h : a.loadRequests c requests = .ok a') :
    a'.useLayerwise = a.useLayerwise ∧ a.invalidBlockIds ⊆ a'.invalidBlockIds := by
  induction requests generalizing a with
  | nil =>
    cases h
    exact ⟨rfl, Finset.Subset.refl _⟩
  | cons one requests ih =>
    obtain ⟨b, hb, hrest⟩ := bind_eq_ok.mp h
    obtain ⟨hmode, hsubset⟩ := loadRequest_spec hb
    obtain ⟨hmode', hsubset'⟩ := ih hrest
    exact ⟨hmode'.trans hmode, hsubset.trans hsubset'⟩

/-- A request among the others of its step. -/
theorem loadRequests_append {before after : List (ReqMeta × List Bool)}
    (h : a.loadRequests c (before ++ (request, retTokenMask) :: after) = .ok a') :
    ∃ b b' : LoadingWorker, b.useLayerwise = a.useLayerwise ∧
      b.loadRequest c request retTokenMask = .ok b' ∧
      b'.invalidBlockIds ⊆ a'.invalidBlockIds := by
  induction before generalizing a with
  | nil =>
    obtain ⟨b', hb', hrest⟩ := bind_eq_ok.mp h
    exact ⟨a, b', rfl, hb', (loadRequests_spec hrest).2⟩
  | cons one before ih =>
    obtain ⟨b, hb, hrest⟩ := bind_eq_ok.mp h
    obtain ⟨b', b'', hmode, hload, hsubset⟩ := ih hrest
    exact ⟨b', b'', hmode.trans (loadRequest_spec hb).1, hload, hsubset⟩

/-- When the adapter counts less than it expects, it records what is missing. -/
theorem loadRequest_of_counted (hspec : request.loadSpec = some spec)
    (hslots : request.tokenIds.length = request.slotMapping.length)
    (hplain : a.useLayerwise = false)
    (hlt : surplus spec retTokenMask < missingCount spec retTokenMask) :
    a.loadRequest c request retTokenMask = .ok { a with
      invalidBlockIds := a.invalidBlockIds ∪ recordFailedBlocks c
        ((tokenMask c spec request.tokenIds.length).take spec.lmcacheCachedTokens) retTokenMask
        (request.slotMapping.take spec.lmcacheCachedTokens) } := by
  unfold loadRequest
  rw [hspec]
  dsimp only
  rw [if_neg (not_not.mpr hslots), hplain, if_neg Bool.false_ne_true,
    if_pos ((count_lt_iff spec retTokenMask).mpr hlt)]

/-- When it does not, or does not look, the set stays as it is. -/
theorem loadRequest_of_not_counted (hspec : request.loadSpec = some spec)
    (hslots : request.tokenIds.length = request.slotMapping.length) (hnot : a.useLayerwise = true ∨
      ¬ surplus spec retTokenMask < missingCount spec retTokenMask) :
    ∃ a', a.loadRequest c request retTokenMask = .ok a' ∧
      a'.invalidBlockIds = a.invalidBlockIds := by
  unfold loadRequest
  rw [hspec]
  dsimp only
  rw [if_neg (not_not.mpr hslots)]
  split
  · split
    · exact ⟨a, rfl, rfl⟩
    · exact ⟨_, rfl, rfl⟩
  · rename_i hplain
    rw [if_neg ((count_lt_iff spec retTokenMask).not.mpr (hnot.resolve_left hplain))]
    exact ⟨a, rfl, rfl⟩

end LoadingWorker

open LoadingWorker

/-- A request of six tokens, of which vLLM has two: the first chunk begins among these. -/
def sixTokens : ReqMeta where
  reqId := "r"
  tokenIds := [1, 2, 3, 4, 5, 6]
  slotMapping := [0, 1, 2, 3, 4, 5]
  isLastPrefill := true
  saveSpec := none
  loadSpec := some ⟨2, 6, true⟩
  disaggSpec := none
  requestConfigs := none

end LMCache.Vllm
