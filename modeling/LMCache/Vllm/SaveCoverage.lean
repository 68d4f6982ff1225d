/-
# LMCache.Vllm.SaveCoverage — the chunks that a prefill saves, step by step.

Source: `integration/vllm/vllm_v1_adapter.py` (`wait_for_save`), with the tracker of a request and
its metadata.

The scheduler splits a prefill into steps as it likes.  Each step derives a range of tokens from the
number of tokens saved before, and the ranges together should hold each full chunk behind the hit
once.  A range is counted here by the indices of the full chunks in it, so that the ranges of a
prefill add up to one interval of chunks where nothing goes wrong.

Two things go wrong.  One new token counts as a step of the decode phase, in which nothing is saved
any more, also in the middle of a prefill.  And a producer that sends to a peer starts again at the
first token with each step, where the number of transferred tokens stays with a copy of the tracker.
-/
import LMCache.Lib.Cover
import LMCache.Vllm.LoadCoverage

namespace LMCache.Vllm

open LMCache.Lib

/-! ## Saving what a step has computed -/

/-- What saving depends on besides the metadata. -/
structure SavingWorker where
  kvRole : KvRole
  enableBlending : Bool
  /-- `get_pp_group().is_last_rank` -/
  isLastRank : Bool
  /-- Whether the worker runs in the scheduler's process: then the metadata holds the objects of the
  trackers, and otherwise copies. -/
  inProcess : Bool
  deriving DecidableEq, Repr

/-- What saving does for a request: the range of tokens that is passed to `store`, if one is, and
what becomes of the disagg spec. -/
structure Saved where
  range : Option (Nat × Nat)
  disaggSpec : Option DisaggSpec
  deriving DecidableEq, Repr

namespace SavingWorker

/-- `skip_leading_tokens`, before it is aligned. -/
def skipLeadingTokens (w : SavingWorker) (m : ReqMeta) (spec : SaveSpec) : Nat :=
  match m.disaggSpec with
  | some disagg =>
    if w.kvRole = .kvProducer then min spec.skipLeadingTokens disagg.numTransferredTokens
    else spec.skipLeadingTokens
  | none => spec.skipLeadingTokens

/-- The disagg spec after `store`, which was given `numTokens` tokens. -/
def noteTransfer (w : SavingWorker) (m : ReqMeta) (numTokens : Nat) (disagg : DisaggSpec) :
    DisaggSpec where
  isLastPrefill := m.isLastPrefill || disagg.isLastPrefill
  numTransferredTokens := if w.isLastRank then numTokens else disagg.numTransferredTokens

/-- The loop of `wait_for_save` over the requests, for one of them. -/
def saveRequest (c : AdapterConfig) (w : SavingWorker) (m : ReqMeta) : Except PyError Saved :=
  if !(m.saveSpec.any SaveSpec.canSave) && w.kvRole ≠ .kvProducer then .ok ⟨none, m.disaggSpec⟩
  else if m.slotMapping.length ≠ m.tokenIds.length then .error (.assertionError "")
  else
    match m.saveSpec with
    | none =>
      .error (.attributeError "'NoneType' object has no attribute 'skip_leading_tokens'")
    | some spec =>
      let skip := w.skipLeadingTokens m spec
      if skip = m.tokenIds.length then .ok ⟨none, m.disaggSpec⟩
      else
        let numTokens :=
          if m.isLastPrefill || w.enableBlending then m.tokenIds.length
          else m.tokenIds.length / c.chunkSize * c.chunkSize
        .ok ⟨some (skip / c.chunkSize * c.chunkSize, numTokens),
          m.disaggSpec.map (w.noteTransfer m numTokens)⟩

/-- `wait_for_save`, for one request. -/
def waitForSave (c : AdapterConfig) (w : SavingWorker) (m : ReqMeta) : Except PyError Saved :=
  if w.kvRole = .kvConsumer then .ok ⟨none, m.disaggSpec⟩ else w.saveRequest c m

end SavingWorker

/-! ## A prefill -/

/-- A later step of a prefill: how many tokens are scheduled, and the blocks that are added. -/
structure PrefillStep where
  numScheduledTokens : Nat
  newBlockIds : Option (List Nat)
  deriving DecidableEq, Repr

/-- The later steps, each with the number of tokens that are computed before it. -/
def withComputed : Nat → List PrefillStep → List (Nat × PrefillStep)
  | _, [] => []
  | numComputedTokens, step :: later =>
    (numComputedTokens, step) :: withComputed (numComputedTokens + step.numScheduledTokens) later

/-- The tokens computed after some steps. -/
def computedAfter (numComputedTokens : Nat) (later : List PrefillStep) : Nat :=
  numComputedTokens + (later.map PrefillStep.numScheduledTokens).sum

/-- There are blocks for the tokens of each step. -/
def HasRoom (c : AdapterConfig) : Nat → Nat → List PrefillStep → Prop
  | _, _, [] => True
  | numTokens, numBlocks, step :: later =>
    numTokens + step.numScheduledTokens ≤
        (numBlocks + (step.newBlockIds.getD []).length) * c.blockSize ∧
      HasRoom c (numTokens + step.numScheduledTokens)
        (numBlocks + (step.newBlockIds.getD []).length) later

/-- The prefill of a request of which saving is not disabled, split into steps: the first one finds
`hit` tokens in the cache, and the last one reaches the end of the prompt. -/
structure Prefill (c : AdapterConfig) where
  request : NewRequestData
  loadSpec : Option LoadSpec
  hasDisaggSpec : Bool
  /-- The tokens that the first step schedules. -/
  numScheduledTokens : Nat
  later : List PrefillStep
  first_pos : 0 < numScheduledTokens
  later_pos : ∀ step ∈ later, 0 < step.numScheduledTokens
  whole : computedAfter (request.numComputedTokens + numScheduledTokens) later =
    request.promptTokenIds.length
  chunkSize_dvd_hit : c.chunkSize ∣ (loadSpec.map LoadSpec.lmcacheCachedTokens).getD 0
  hit_le : (loadSpec.map LoadSpec.lmcacheCachedTokens).getD 0 ≤
    request.numComputedTokens + numScheduledTokens
  room : request.numComputedTokens + numScheduledTokens ≤ request.blockIds.length * c.blockSize
  laterRoom : HasRoom c (request.numComputedTokens + numScheduledTokens) request.blockIds.length
    later
  savesRequest : (((extractRequestConfigs request.kvTransferParams).getD []).lookup
    "lmcache.skip_save").getD "" = ""

/-- What a step makes of a tracker, and what saving makes of its metadata. -/
def saveStep (c : AdapterConfig) (w : SavingWorker) (tracker : RequestTracker)
    (loadSpec : Option LoadSpec) : Except PyError (Option (Nat × Nat) × RequestTracker) :=
  let made := fromRequestTracker c tracker loadSpec
  match made.1 with
  | none => .ok (none, made.2)
  | some m => do
    let saved ← w.waitForSave c m
    return (saved.range,
      if w.inProcess then { made.2 with disaggSpec := saved.disaggSpec } else made.2)

/-- A later step, at which `numComputedTokens` tokens are computed. -/
def laterStep (c : AdapterConfig) (w : SavingWorker) (promptTokenIds : List Int)
    (numComputedTokens : Nat) (tracker : RequestTracker) (step : PrefillStep) :
    Except PyError (Option (Nat × Nat) × RequestTracker) := do
  let newTokenIds := (promptTokenIds.drop numComputedTokens).take step.numScheduledTokens
  let tracker ← tracker.update newTokenIds step.newBlockIds false 0 0 none
  saveStep c w tracker none

/-- The ranges that later steps pass to `store`. -/
def laterRanges (c : AdapterConfig) (w : SavingWorker) (promptTokenIds : List Int) :
    Nat → RequestTracker → List PrefillStep → Except PyError (List (Nat × Nat))
  | _, _, [] => .ok []
  | numComputedTokens, tracker, step :: later => do
    let saved ← laterStep c w promptTokenIds numComputedTokens tracker step
    let ranges ← laterRanges c w promptTokenIds (numComputedTokens + step.numScheduledTokens)
      saved.2 later
    return saved.1.toList ++ ranges

namespace Prefill

variable {c : AdapterConfig}

/-- `lmcache_cached_tokens` -/
def hit (p : Prefill c) : Nat := (p.loadSpec.map LoadSpec.lmcacheCachedTokens).getD 0

def promptLen (p : Prefill c) : Nat := p.request.promptTokenIds.length

/-- The tokens that are computed after the first step. -/
def firstComputed (p : Prefill c) : Nat := p.request.numComputedTokens + p.numScheduledTokens

def tracker (p : Prefill c) : RequestTracker :=
  .fromNewRequest p.request p.firstComputed p.hit false
    (if p.hasDisaggSpec then some ⟨false, 0⟩ else none)

/-- The ranges that `wait_for_save` passes to `store` over the whole prefill. -/
def savedRanges (p : Prefill c) (w : SavingWorker) : Except PyError (List (Nat × Nat)) := do
  let saved ← saveStep c w p.tracker p.loadSpec
  let ranges ← laterRanges c w p.request.promptTokenIds p.firstComputed saved.2 p.later
  return saved.1.toList ++ ranges

end Prefill

/-! ## Full chunks -/

/-- The full chunks in a range of tokens, as a range of their indices. -/
def fullChunks (chunkSize : Nat) (range : Nat × Nat) : Nat × Nat :=
  (cdiv range.1 chunkSize, range.2 / chunkSize)

/-- How often some ranges hold a full chunk. -/
def timesSaved (chunkSize : Nat) (ranges : List (Nat × Nat)) (k : Nat) : Nat :=
  cover (ranges.map (fullChunks chunkSize)) k

theorem timesSaved_append (chunkSize : Nat) (ranges ranges' : List (Nat × Nat)) (k : Nat) :
    timesSaved chunkSize (ranges ++ ranges') k =
      timesSaved chunkSize ranges k + timesSaved chunkSize ranges' k := by
  unfold timesSaved
  rw [List.map_append, cover_append]

/-- The prefill saves each full chunk behind the hit exactly once. -/
def Prefill.SavesEachChunkOnce {c : AdapterConfig} (p : Prefill c) (w : SavingWorker) : Prop :=
  ∃ ranges, p.savedRanges w = .ok ranges ∧ ∀ k, p.hit ≤ k * c.chunkSize →
    (k + 1) * c.chunkSize ≤ p.promptLen → timesSaved c.chunkSize ranges k = 1

/-! ## One step -/

section Step

variable {c : AdapterConfig} {w : SavingWorker} {t : RequestTracker}

/-- What the metadata of a tracker says about saving. -/
structure Saves (c : AdapterConfig) (t : RequestTracker) (m : ReqMeta) : Prop where
  tokens : m.tokenIds.length = cutLength c t.promptLen t.tokenIds.length
  slots : m.slotMapping = (slotMapping t.allocatedBlockIds c.blockSize).take m.tokenIds.length
  last : m.isLastPrefill = t.isLastPrefill
  spec : m.saveSpec = some ⟨t.numSavedTokens, !t.skipsSave c⟩
  disagg : m.disaggSpec = t.disaggSpec

theorem saves_fromRequestTracker {loadSpec : Option LoadSpec} {m : ReqMeta}
    (h : (fromRequestTracker c t loadSpec).1 = some m) : Saves c t m := by
  obtain ⟨-, htokens, hslots, -⟩ := fromRequestTracker_meta h
  unfold fromRequestTracker at h
  dsimp only at h
  split at h
  · cases h
  · cases h
    exact ⟨htokens, hslots, rfl, rfl, rfl⟩

/-- The tracker after a step: the tokens are saved up to the cut, unless the save is skipped. -/
theorem fromRequestTracker_snd (loadSpec : Option LoadSpec) :
    (fromRequestTracker c t loadSpec).2 = { t with
      numSavedTokens :=
        if t.skipsSave c then t.numSavedTokens
        else cutLength c t.promptLen t.tokenIds.length } := by
  rw [← RequestTracker.numTokensToSave_eq]
  unfold fromRequestTracker
  dsimp only
  by_cases hskip : t.skipsSave c = true
  · rw [if_pos hskip, if_pos hskip]
    split
    · rfl
    · rfl
  · rw [if_neg (by simp [hskip]), if_neg hskip, if_neg hskip]

/-- A step that is skipped and has nothing to load makes no metadata. -/
theorem fromRequestTracker_of_skipsSave (h : t.skipsSave c = true) :
    fromRequestTracker c t none = (none, t) := by
  unfold fromRequestTracker
  exact if_pos (by simp [h])

/-- The first token that a step saves. -/
def savesFrom (w : SavingWorker) (t : RequestTracker) : Nat :=
  match t.disaggSpec with
  | some disagg =>
    if w.kvRole = .kvProducer then min t.numSavedTokens disagg.numTransferredTokens
    else t.numSavedTokens
  | none => t.numSavedTokens

theorem cutLength_div (c : AdapterConfig) (promptLen numTokens : Nat) :
    cutLength c promptLen numTokens / c.chunkSize = numTokens / c.chunkSize := by
  unfold cutLength
  split
  · exact Nat.mul_div_cancel _ c.chunkSize_pos
  · rfl

theorem cutLength_of_lt (c : AdapterConfig) {promptLen numTokens : Nat}
    (h : numTokens < promptLen) :
    cutLength c promptLen numTokens = numTokens / c.chunkSize * c.chunkSize := if_pos (.inl h)

theorem chunkSize_dvd_div_mul (c : AdapterConfig) (n : Nat) :
    c.chunkSize ∣ n / c.chunkSize * c.chunkSize := ⟨n / c.chunkSize, Nat.mul_comm _ _⟩

theorem fullChunks_of_dvd {start : Nat} (h : c.chunkSize ∣ start) (stop : Nat) :
    fullChunks c.chunkSize (start, stop) = (start / c.chunkSize, stop / c.chunkSize) := by
  obtain ⟨n, rfl⟩ := h
  have hcdiv : cdiv (c.chunkSize * n) c.chunkSize = n := by
    unfold cdiv
    rw [Nat.add_sub_assoc c.chunkSize_pos, Nat.mul_add_div c.chunkSize_pos,
      Nat.div_eq_of_lt (Nat.sub_lt c.chunkSize_pos Nat.one_pos), Nat.add_zero]
  unfold fullChunks
  rw [hcdiv, Nat.mul_div_cancel_left n c.chunkSize_pos]

/-- **Saving the metadata of a tracker** saves the full chunks from the first token on, up to those
that are scheduled. -/
theorem saveRequest_spec {m : ReqMeta} (h : Saves c t m)
    (hrole : t.skipsSave c = true → w.kvRole = .kvProducer)
    (hroom : t.tokenIds.length ≤ t.allocatedBlockIds.length * c.blockSize)
    (hdvd : c.chunkSize ∣ savesFrom w t) :
    ∃ saved, w.saveRequest c m = .ok saved ∧
      (∀ k, timesSaved c.chunkSize saved.range.toList k =
        hits (savesFrom w t / c.chunkSize, t.tokenIds.length / c.chunkSize) k) ∧
      (saved.disaggSpec = t.disaggSpec ∧
          savesFrom w t = cutLength c t.promptLen t.tokenIds.length ∨
        saved.disaggSpec = t.disaggSpec.map
          (w.noteTransfer m (cutLength c t.promptLen t.tokenIds.length))) := by
  have hslots : ¬ m.slotMapping.length ≠ m.tokenIds.length := by
    have hcut := cutLength_le c t.promptLen t.tokenIds.length
    rw [h.slots, List.length_take, length_slotMapping, h.tokens]
    omega
  have hcan : ¬ (!(m.saveSpec.any SaveSpec.canSave) && w.kvRole ≠ .kvProducer) = true := by
    rw [h.spec]
    by_cases hskip : t.skipsSave c = true
    · simp [hrole hskip]
    · simp [hskip]
  have hskip : w.skipLeadingTokens m ⟨t.numSavedTokens, !t.skipsSave c⟩ = savesFrom w t := by
    unfold SavingWorker.skipLeadingTokens savesFrom
    rw [h.disagg]
  have hnum : (if m.isLastPrefill || w.enableBlending then m.tokenIds.length
      else m.tokenIds.length / c.chunkSize * c.chunkSize) =
        cutLength c t.promptLen t.tokenIds.length := by
    rw [h.tokens, h.last]
    by_cases hlast : t.isLastPrefill = true
    · rw [hlast]
      rfl
    · have hlt : t.tokenIds.length < t.promptLen := by
        unfold RequestTracker.isLastPrefill at hlast
        simpa using hlast
      rw [cutLength_div, cutLength_of_lt c hlt]
      exact ite_self _
  unfold SavingWorker.saveRequest
  rw [if_neg hcan, if_neg hslots, h.spec]
  dsimp only
  rw [hskip, hnum]
  by_cases hall : savesFrom w t = m.tokenIds.length
  · rw [if_pos hall]
    rw [h.tokens] at hall
    refine ⟨_, rfl, ?_, .inl ⟨h.disagg, hall⟩⟩
    intro k
    rw [hall, cutLength_div, hits_self]
    rfl
  · rw [if_neg hall]
    refine ⟨_, rfl, ?_, .inr (by rw [h.disagg])⟩
    intro k
    show cover [fullChunks c.chunkSize _] k = _
    rw [Nat.div_mul_cancel hdvd, fullChunks_of_dvd hdvd, cutLength_div, cover_cons, cover_nil,
      Nat.add_zero]

/-- The tracker of a prefill of which `numTokens` tokens are scheduled. -/
structure Prefilling (c : AdapterConfig) (t : RequestTracker) (promptLen numTokens : Nat) :
    Prop where
  promptLen : t.promptLen = promptLen
  tokens : t.tokenIds.length = numTokens
  room : numTokens ≤ t.allocatedBlockIds.length * c.blockSize
  skipSave : t.skipSave = false
  requestSkip : t.requestSkip = false

/-- Every chunk up to `numSavedTokens` is a full one of those scheduled. -/
structure Aligned (c : AdapterConfig) (w : SavingWorker) (t : RequestTracker) : Prop where
  saved : c.chunkSize ∣ t.numSavedTokens
  saved_le : t.numSavedTokens ≤ t.tokenIds.length
  start : c.chunkSize ∣ savesFrom w t

/-- In the decode phase nothing is saved, unless a transfer is or the decoded tokens are. -/
def savingStops (c : AdapterConfig) (t : RequestTracker) : Bool :=
  t.disaggSpec.isNone && t.isDecodePhase && !c.saveDecodeCache

variable {promptLen numTokens : Nat}

/-- A step is skipped where it adds no full chunk to those saved. -/
theorem full_of_skipsSave (h : Prefilling c t promptLen numTokens) (ha : Aligned c w t)
    (hstops : savingStops c t = false) (hskip : t.skipsSave c = true) :
    t.disaggSpec = none ∧ t.numSavedTokens / c.chunkSize = numTokens / c.chunkSize := by
  unfold savingStops at hstops
  unfold RequestTracker.skipsSave at hskip
  rw [Bool.and_eq_true, Option.isNone_iff_eq_none] at hskip
  obtain ⟨hnone, hrules⟩ := hskip
  refine ⟨hnone, ?_⟩
  rw [hnone, Option.isNone_none, Bool.true_and] at hstops
  rw [h.skipSave, h.requestSkip, hstops] at hrules
  simp only [Bool.false_or, Bool.or_false, decide_eq_true_eq] at hrules
  obtain ⟨n, hn⟩ := ha.saved
  have hle := ha.saved_le
  have hboundary : t.chunkBoundary c.chunkSize = c.chunkSize * (n + 1) := by
    unfold RequestTracker.chunkBoundary cdiv
    rw [hn, Nat.add_assoc, Nat.add_sub_assoc (by omega), Nat.add_sub_cancel_left,
      Nat.mul_add_div c.chunkSize_pos, Nat.div_self c.chunkSize_pos, Nat.mul_comm]
  rw [hboundary] at hrules
  rw [h.tokens] at hrules hle
  rw [hn, Nat.mul_div_cancel_left n c.chunkSize_pos]
  symm
  apply Nat.div_eq_of_lt_le
  · rw [Nat.mul_comm, ← hn]
    exact hle
  · rw [Nat.mul_comm]
    exact hrules.2

theorem waitForSave_spec {m : ReqMeta} (hsaves : Saves c t m)
    (h : Prefilling c t promptLen numTokens) (ha : Aligned c w t)
    (hstops : savingStops c t = false) (hrole : w.kvRole ≠ .kvConsumer) :
    ∃ saved, w.waitForSave c m = .ok saved ∧
      (∀ k, timesSaved c.chunkSize saved.range.toList k =
        hits (savesFrom w t / c.chunkSize, numTokens / c.chunkSize) k) ∧
      (saved.disaggSpec = t.disaggSpec ∧
          (t.disaggSpec = none ∨ savesFrom w t = cutLength c promptLen numTokens) ∨
        saved.disaggSpec = t.disaggSpec.map
          (w.noteTransfer m (cutLength c promptLen numTokens))) := by
  have hroom := h.room
  rw [← h.tokens] at hroom
  unfold SavingWorker.waitForSave
  rw [if_neg hrole]
  by_cases hidle : t.skipsSave c = true ∧ w.kvRole ≠ .kvProducer
  · obtain ⟨hnone, hfull⟩ := full_of_skipsSave h ha hstops hidle.1
    have hcan : (!(m.saveSpec.any SaveSpec.canSave) && w.kvRole ≠ .kvProducer) = true := by
      rw [hsaves.spec]
      simp [hidle.1, hidle.2]
    unfold SavingWorker.saveRequest
    rw [if_pos hcan]
    refine ⟨_, rfl, ?_, .inl ⟨hsaves.disagg, .inl hnone⟩⟩
    intro k
    have hstart : savesFrom w t = t.numSavedTokens := by
      unfold savesFrom
      rw [hnone]
    rw [hstart, hfull, hits_self]
    rfl
  · rw [not_and_not_right] at hidle
    obtain ⟨saved, heq, htimes, hdisagg⟩ := saveRequest_spec hsaves hidle hroom ha.start
    rw [h.tokens] at htimes
    rw [h.tokens, h.promptLen] at hdisagg
    refine ⟨saved, heq, htimes, ?_⟩
    rcases hdisagg with ⟨hsame, hall⟩ | hmap
    · exact .inl ⟨hsame, .inr hall⟩
    · exact .inr hmap

/-- Whether each step starts again at the first token: a producer sends to a peer, and the number of
transferred tokens does not come back to the tracker. -/
def restarts (w : SavingWorker) (hasDisaggSpec : Bool) : Bool :=
  hasDisaggSpec && w.kvRole = .kvProducer && !(w.isLastRank && w.inProcess)

def numTransferred (t : RequestTracker) : Option Nat :=
  t.disaggSpec.map DisaggSpec.numTransferredTokens

/-- The tracker after a step. -/
structure StepSaved (c : AdapterConfig) (w : SavingWorker) (t t' : RequestTracker)
    (promptLen numTokens : Nat) : Prop where
  prefilling : Prefilling c t' promptLen numTokens
  blocks : t'.allocatedBlockIds = t.allocatedBlockIds
  decode : t'.isDecodePhase = t.isDecodePhase
  disagg : t'.disaggSpec.isSome = t.disaggSpec.isSome
  saved : numTokens < promptLen → t'.numSavedTokens = numTokens / c.chunkSize * c.chunkSize
  onward : numTokens < promptLen → restarts w t.disaggSpec.isSome = false →
    savesFrom w t' = numTokens / c.chunkSize * c.chunkSize
  again : restarts w t.disaggSpec.isSome = true → numTransferred t' = numTransferred t

/-- What a step may leave in the tracker for the disagg spec. -/
def DisaggAfter (c : AdapterConfig) (w : SavingWorker) (t : RequestTracker)
    (promptLen numTokens : Nat) (disaggSpec : Option DisaggSpec) : Prop :=
  disaggSpec = t.disaggSpec ∧ (t.disaggSpec = none ∨
      savesFrom w t = cutLength c promptLen numTokens ∨ w.inProcess = false) ∨
    w.inProcess = true ∧ ∃ m, disaggSpec = t.disaggSpec.map
      (w.noteTransfer m (cutLength c promptLen numTokens))

theorem stepSaved_of_disaggAfter (h : Prefilling c t promptLen numTokens) {saved : Nat}
    (hsaved : numTokens < promptLen → saved = numTokens / c.chunkSize * c.chunkSize)
    {disaggSpec : Option DisaggSpec} (hafter : DisaggAfter c w t promptLen numTokens disaggSpec) :
    StepSaved c w t { t with numSavedTokens := saved, disaggSpec := disaggSpec } promptLen
      numTokens where
  prefilling := ⟨h.promptLen, h.tokens, h.room, h.skipSave, h.requestSkip⟩
  blocks := rfl
  decode := rfl
  disagg := by
    rcases hafter with ⟨hsame, -⟩ | ⟨-, m, hmap⟩
    · rw [hsame]
    · rw [hmap, Option.isSome_map]
  saved := hsaved
  onward := by
    intro hlt honward
    have hcut := cutLength_of_lt c hlt
    unfold savesFrom
    dsimp only
    rw [hsaved hlt, ← hcut]
    match hspec : t.disaggSpec with
    | none =>
      have hnone : disaggSpec = none := by
        rcases hafter with ⟨hsame, -⟩ | ⟨-, m, hmap⟩
        · rw [hsame, hspec]
        · rw [hmap, hspec]
          rfl
      rw [hnone]
    | some disagg =>
      by_cases hproducer : w.kvRole = .kvProducer
      · rw [hspec] at honward
        have hnotes : w.isLastRank = true ∧ w.inProcess = true := by
          unfold restarts at honward
          simpa [hproducer] using honward
        rcases hafter with ⟨hsame, hnone | hall | haway⟩ | ⟨-, m, hmap⟩
        · rw [hspec] at hnone
          cases hnone
        · rw [hsame, hspec]
          dsimp only
          unfold savesFrom at hall
          rw [hspec] at hall
          dsimp only at hall
          rw [if_pos hproducer] at hall ⊢
          omega
        · rw [hnotes.2] at haway
          cases haway
        · rw [hmap, hspec]
          simp [SavingWorker.noteTransfer, hnotes.1]
      · simp only [if_neg hproducer]
        split
        · rfl
        · rfl
  again := by
    intro hagain
    rcases hafter with ⟨hsame, -⟩ | ⟨hin, m, hmap⟩
    · exact congrArg (Option.map DisaggSpec.numTransferredTokens) hsame
    · have hrank : w.isLastRank = false := by
        unfold restarts at hagain
        simp only [hin, Bool.and_true, Bool.and_eq_true, Bool.not_eq_true'] at hagain
        exact hagain.2
      unfold numTransferred
      rw [hmap, Option.map_map]
      apply congrArg (Option.map · t.disaggSpec)
      funext disagg
      show (if w.isLastRank = true then _ else _) = _
      rw [hrank]
      rfl

/-- **Step lemma: a step of a prefill** saves the full chunks from where the tracker stands up to
the tokens that are scheduled. -/
theorem saveStep_spec (h : Prefilling c t promptLen numTokens) (ha : Aligned c w t)
    (hstops : savingStops c t = false) (hrole : w.kvRole ≠ .kvConsumer)
    (loadSpec : Option LoadSpec) :
    ∃ range t', saveStep c w t loadSpec = .ok (range, t') ∧
      (∀ k, timesSaved c.chunkSize range.toList k =
        hits (savesFrom w t / c.chunkSize, numTokens / c.chunkSize) k) ∧
      StepSaved c w t t' promptLen numTokens := by
  have hafterSaved (hlt : numTokens < promptLen) :
      (if t.skipsSave c then t.numSavedTokens else cutLength c t.promptLen t.tokenIds.length) =
        numTokens / c.chunkSize * c.chunkSize := by
    by_cases hskip : t.skipsSave c = true
    · rw [if_pos hskip, ← (full_of_skipsSave h ha hstops hskip).2]
      exact (Nat.div_mul_cancel ha.saved).symm
    · rw [if_neg hskip, h.promptLen, h.tokens, cutLength_of_lt c hlt]
  have hsnd := fromRequestTracker_snd (c := c) (t := t) loadSpec
  unfold saveStep
  dsimp only
  rw [hsnd]
  match hmade : (fromRequestTracker c t loadSpec).1 with
  | none =>
    have hskip : t.skipsSave c = true := by
      unfold fromRequestTracker at hmade
      dsimp only at hmade
      split at hmade
      · rename_i hboth
        exact (Bool.and_eq_true_iff.mp hboth).1
      · cases hmade
    obtain ⟨hnone, hfull⟩ := full_of_skipsSave h ha hstops hskip
    refine ⟨_, _, rfl, ?_, stepSaved_of_disaggAfter h hafterSaved (.inl ⟨rfl, .inl hnone⟩)⟩
    intro k
    have hstart : savesFrom w t = t.numSavedTokens := by
      unfold savesFrom
      rw [hnone]
    rw [hstart, hfull, hits_self]
    rfl
  | some m =>
    obtain ⟨saved, heq, htimes, hdisagg⟩ :=
      waitForSave_spec (saves_fromRequestTracker hmade) h ha hstops hrole
    refine ⟨saved.range, _, by dsimp only; rw [heq]; rfl, htimes, ?_⟩
    by_cases hin : w.inProcess = true
    · rw [if_pos hin]
      apply stepSaved_of_disaggAfter h hafterSaved
      rcases hdisagg with ⟨hsame, hnone | hall⟩ | hmap
      · exact .inl ⟨hsame, .inl hnone⟩
      · exact .inl ⟨hsame, .inr (.inl hall)⟩
      · exact .inr ⟨hin, m, hmap⟩
    · rw [if_neg hin]
      exact stepSaved_of_disaggAfter h hafterSaved
        (.inl ⟨rfl, .inr (.inr (Bool.eq_false_of_not_eq_true hin))⟩)

end Step

/-! ## The later steps -/

/-- The tracker at a later step. -/
def nextTracker (promptTokenIds : List Int) (numComputedTokens : Nat) (t : RequestTracker)
    (step : PrefillStep) : RequestTracker :=
  let newTokenIds := (promptTokenIds.drop numComputedTokens).take step.numScheduledTokens
  { t with
    allocatedBlockIds := t.allocatedBlockIds ++ step.newBlockIds.getD []
    tokenIds := t.tokenIds ++ newTokenIds
    isDecodePhase := newTokenIds.length = 1 || t.isDecodePhase }

theorem laterStep_eq (c : AdapterConfig) (w : SavingWorker) (promptTokenIds : List Int)
    (numComputedTokens : Nat) (t : RequestTracker) (step : PrefillStep) :
    laterStep c w promptTokenIds numComputedTokens t step =
      saveStep c w (nextTracker promptTokenIds numComputedTokens t step) none := by
  unfold laterStep
  dsimp only
  rw [RequestTracker.update_running]
  rfl

section Later

variable {c : AdapterConfig} {w : SavingWorker} {promptTokenIds : List Int}

theorem le_computedAfter (numComputedTokens : Nat) (later : List PrefillStep) :
    numComputedTokens ≤ computedAfter numComputedTokens later := Nat.le_add_right _ _

theorem computedAfter_cons (numComputedTokens : Nat) (step : PrefillStep)
    (later : List PrefillStep) :
    computedAfter numComputedTokens (step :: later) =
      computedAfter (numComputedTokens + step.numScheduledTokens) later := by
  unfold computedAfter
  rw [List.map_cons, List.sum_cons, Nat.add_assoc]

variable {later : List PrefillStep} {numComputedTokens : Nat} {step : PrefillStep}
  {t : RequestTracker}

theorem le_of_mem_withComputed {q : Nat × PrefillStep}
    (h : q ∈ withComputed numComputedTokens later) : numComputedTokens ≤ q.1 := by
  induction later generalizing numComputedTokens with
  | nil => cases h
  | cons step later ih =>
    rcases List.mem_cons.mp h with rfl | h
    · exact Nat.le_refl _
    · have hle := ih h
      omega

theorem prefilling_nextTracker (h : Prefilling c t promptTokenIds.length numComputedTokens)
    (hle : numComputedTokens + step.numScheduledTokens ≤ promptTokenIds.length)
    (hroom : numComputedTokens + step.numScheduledTokens ≤
      (t.allocatedBlockIds.length + (step.newBlockIds.getD []).length) * c.blockSize) :
    Prefilling c (nextTracker promptTokenIds numComputedTokens t step) promptTokenIds.length
        (numComputedTokens + step.numScheduledTokens) ∧
      (nextTracker promptTokenIds numComputedTokens t step).isDecodePhase =
        (step.numScheduledTokens = 1 || t.isDecodePhase) := by
  have hnew : ((promptTokenIds.drop numComputedTokens).take step.numScheduledTokens).length =
      step.numScheduledTokens := by
    rw [List.length_take, List.length_drop]
    omega
  unfold nextTracker
  dsimp only
  rw [hnew]
  refine ⟨⟨h.promptLen, ?_, ?_, h.skipSave, h.requestSkip⟩, rfl⟩
  · rw [List.length_append, h.tokens, hnew]
  · rw [List.length_append]
    exact hroom

/-- Where saving has stopped, a step passes nothing on. -/
theorem laterStep_of_savingStops
    (h : savingStops c (nextTracker promptTokenIds numComputedTokens t step) = true) :
    laterStep c w promptTokenIds numComputedTokens t step =
      .ok (none, nextTracker promptTokenIds numComputedTokens t step) := by
  have hskip : (nextTracker promptTokenIds numComputedTokens t step).skipsSave c = true := by
    unfold savingStops at h
    simp only [Bool.and_eq_true] at h
    unfold RequestTracker.skipsSave
    simp [h.1.1, h.1.2, h.2]
  rw [laterStep_eq]
  unfold saveStep
  rw [fromRequestTracker_of_skipsSave hskip]

/-- Once saving has stopped, nothing is saved any more. -/
theorem laterRanges_of_savingStops (h : savingStops c t = true) (later : List PrefillStep)
    (numComputedTokens : Nat) :
    laterRanges c w promptTokenIds numComputedTokens t later = .ok [] := by
  induction later generalizing t numComputedTokens with
  | nil => rfl
  | cons step later ih =>
    have hnext : savingStops c (nextTracker promptTokenIds numComputedTokens t step) = true := by
      unfold savingStops at h ⊢
      simp only [Bool.and_eq_true] at h ⊢
      refine ⟨⟨h.1.1, ?_⟩, h.2⟩
      show (_ || t.isDecodePhase) = true
      rw [h.1.2, Bool.or_true]
    unfold laterRanges
    rw [laterStep_of_savingStops hnext]
    show (laterRanges c w promptTokenIds _ _ later >>= _) = _
    rw [ih hnext]
    rfl

/-- The tokens of which the full chunks are saved: all, or those before the first step of one
token. -/
def savedUpTo (stops : Bool) : Nat → List PrefillStep → Nat
  | numComputedTokens, [] => numComputedTokens
  | numComputedTokens, step :: later =>
    if stops && step.numScheduledTokens = 1 then numComputedTokens
    else savedUpTo stops (numComputedTokens + step.numScheduledTokens) later

theorem le_savedUpTo (stops : Bool) (numComputedTokens : Nat) (later : List PrefillStep) :
    numComputedTokens ≤ savedUpTo stops numComputedTokens later := by
  induction later generalizing numComputedTokens with
  | nil => exact Nat.le_refl _
  | cons step later ih =>
    unfold savedUpTo
    split
    · exact Nat.le_refl _
    · have hle := ih (numComputedTokens + step.numScheduledTokens)
      omega

/-- Some chunks are all saved just when no step of one token comes before their end. -/
theorem le_savedUpTo_div_iff {stops : Bool} {chunks : Nat}
    (h : chunks ≤ computedAfter numComputedTokens later / c.chunkSize) :
    chunks ≤ savedUpTo stops numComputedTokens later / c.chunkSize ↔
      (stops = true → ∀ q ∈ withComputed numComputedTokens later,
        q.2.numScheduledTokens = 1 → chunks ≤ q.1 / c.chunkSize) := by
  induction later generalizing numComputedTokens with
  | nil =>
    unfold computedAfter at h
    exact ⟨fun _ _ _ hq => (nomatch hq), fun _ => h⟩
  | cons step later ih =>
    rw [computedAfter_cons] at h
    unfold savedUpTo
    by_cases hstop : (stops && step.numScheduledTokens = 1) = true
    · rw [if_pos hstop]
      simp only [Bool.and_eq_true, decide_eq_true_eq] at hstop
      constructor
      · intro hle _ q hq _
        exact hle.trans (Nat.div_le_div_right (le_of_mem_withComputed hq))
      · intro hall
        exact hall hstop.1 _ List.mem_cons_self hstop.2
    · rw [if_neg hstop, ih h]
      simp only [Bool.and_eq_true, decide_eq_true_eq, not_and] at hstop
      constructor
      · intro hall hstops q hq hone
        rcases List.mem_cons.mp hq with rfl | hq
        · exact absurd hone (hstop hstops)
        · exact hall hstops q hq hone
      · intro hall hstops q hq hone
        exact hall hstops q (List.mem_cons_of_mem _ hq) hone

/-- The tracker of a prefill where the next step saves from `start` on. -/
structure Onward (c : AdapterConfig) (w : SavingWorker) (t : RequestTracker)
    (promptLen numTokens start : Nat) : Prop where
  prefilling : Prefilling c t promptLen numTokens
  saved : numTokens < promptLen → t.numSavedTokens = numTokens / c.chunkSize * c.chunkSize
  start : numTokens < promptLen → savesFrom w t = start

/-- The tracker of a later step that is not skipped. -/
theorem onward_nextTracker {start : Nat}
    (h : Onward c w t promptTokenIds.length numComputedTokens start)
    (hpos : 0 < step.numScheduledTokens)
    (hwhole : computedAfter numComputedTokens (step :: later) = promptTokenIds.length)
    (hroom : HasRoom c numComputedTokens t.allocatedBlockIds.length (step :: later))
    (hstart : c.chunkSize ∣ start) :
    Prefilling c (nextTracker promptTokenIds numComputedTokens t step) promptTokenIds.length
        (numComputedTokens + step.numScheduledTokens) ∧
      Aligned c w (nextTracker promptTokenIds numComputedTokens t step) ∧
      savesFrom w (nextTracker promptTokenIds numComputedTokens t step) = start ∧
      savingStops c (nextTracker promptTokenIds numComputedTokens t step) =
        (t.disaggSpec.isNone && (step.numScheduledTokens = 1 || t.isDecodePhase) &&
          !c.saveDecodeCache) := by
  rw [computedAfter_cons] at hwhole
  have hle := le_computedAfter (numComputedTokens + step.numScheduledTokens) later
  have hlt : numComputedTokens < promptTokenIds.length := by omega
  obtain ⟨hprefilling, hdecode⟩ :=
    prefilling_nextTracker h.prefilling (hle.trans_eq hwhole) hroom.1
  have hsaved : (nextTracker promptTokenIds numComputedTokens t step).numSavedTokens =
      numComputedTokens / c.chunkSize * c.chunkSize := h.saved hlt
  have hsaves : savesFrom w (nextTracker promptTokenIds numComputedTokens t step) = start :=
    h.start hlt
  refine ⟨hprefilling, ⟨?_, ?_, ?_⟩, hsaves, ?_⟩
  · rw [hsaved]
    exact chunkSize_dvd_div_mul c numComputedTokens
  · rw [hsaved, hprefilling.tokens]
    have hfloor := Nat.div_mul_le_self numComputedTokens c.chunkSize
    omega
  · rw [hsaves]
    exact hstart
  · unfold savingStops
    rw [hdecode]
    rfl

/-- **Run lemma: the later steps** save, one after the other, the full chunks up to the first step
that stops the saving. -/
theorem laterRanges_spec (hrole : w.kvRole ≠ .kvConsumer) (later : List PrefillStep)
    (h : Onward c w t promptTokenIds.length numComputedTokens
      (numComputedTokens / c.chunkSize * c.chunkSize))
    (hdecode : t.isDecodePhase = true → t.disaggSpec.isNone = true → c.saveDecodeCache = true)
    (honward : restarts w t.disaggSpec.isSome = false)
    (hpos : ∀ step ∈ later, 0 < step.numScheduledTokens)
    (hwhole : computedAfter numComputedTokens later = promptTokenIds.length)
    (hroom : HasRoom c numComputedTokens t.allocatedBlockIds.length later) :
    ∃ ranges, laterRanges c w promptTokenIds numComputedTokens t later = .ok ranges ∧
      ∀ k, timesSaved c.chunkSize ranges k = hits (numComputedTokens / c.chunkSize,
        savedUpTo (t.disaggSpec.isNone && !c.saveDecodeCache) numComputedTokens later /
          c.chunkSize) k := by
  induction later generalizing t numComputedTokens with
  | nil =>
    refine ⟨[], rfl, ?_⟩
    intro k
    unfold savedUpTo
    rw [hits_self]
    rfl
  | cons step later ih =>
    obtain ⟨hprefilling, haligned, hstart, hstops⟩ := onward_nextTracker h
      (hpos step List.mem_cons_self) hwhole hroom (chunkSize_dvd_div_mul c numComputedTokens)
    unfold savedUpTo
    by_cases hstop :
        (t.disaggSpec.isNone && !c.saveDecodeCache && step.numScheduledTokens = 1) = true
    · -- from here on every step is skipped
      rw [if_pos hstop]
      simp only [Bool.and_eq_true] at hstop
      rw [hstop.1.1, hstop.1.2, hstop.2, Bool.true_or] at hstops
      refine ⟨[], ?_, ?_⟩
      · unfold laterRanges
        rw [laterStep_of_savingStops hstops]
        show (laterRanges c w promptTokenIds _ _ later >>= _) = _
        rw [laterRanges_of_savingStops hstops]
        rfl
      · intro k
        rw [hits_self]
        rfl
    · rw [if_neg hstop]
      have hsaves : (t.disaggSpec.isNone && (step.numScheduledTokens = 1 || t.isDecodePhase) &&
          !c.saveDecodeCache) = false := by
        rw [Bool.eq_false_iff]
        intro hall
        simp only [Bool.and_eq_true, Bool.or_eq_true, Bool.not_eq_true'] at hall hstop
        rcases hall.1.2 with hone | hphase
        · exact hstop ⟨⟨hall.1.1, hall.2⟩, hone⟩
        · rw [hdecode hphase hall.1.1] at hall
          exact Bool.noConfusion hall.2
      rw [hsaves] at hstops
      obtain ⟨range, t', heq, htimes, hstep⟩ :=
        saveStep_spec hprefilling haligned hstops hrole none
      have hnone : t'.disaggSpec.isNone = t.disaggSpec.isNone := by
        rw [← Option.not_isSome, hstep.disagg, Option.not_isSome]
        rfl
      have hdecode' : t'.isDecodePhase = true → t'.disaggSpec.isNone = true →
          c.saveDecodeCache = true := by
        intro hphase hnone'
        rw [hnone] at hnone'
        rw [hstep.decode] at hphase
        unfold savingStops at hstops
        rw [hphase, show (nextTracker promptTokenIds numComputedTokens t step).disaggSpec =
          t.disaggSpec from rfl, hnone'] at hstops
        simpa using hstops
      have hwhole' := hwhole
      rw [computedAfter_cons] at hwhole'
      have hroom' : HasRoom c (numComputedTokens + step.numScheduledTokens)
          t'.allocatedBlockIds.length later := by
        rw [hstep.blocks]
        show HasRoom c _ (t.allocatedBlockIds ++ step.newBlockIds.getD []).length later
        rw [List.length_append]
        exact hroom.2
      obtain ⟨ranges, hranges, hlater⟩ := ih
        ⟨hstep.prefilling, hstep.saved, fun hlt => hstep.onward hlt honward⟩ hdecode'
        (by rw [hstep.disagg]; exact honward)
        (fun step' hmem => hpos step' (List.mem_cons_of_mem _ hmem)) hwhole' hroom'
      refine ⟨range.toList ++ ranges, ?_, ?_⟩
      · unfold laterRanges
        rw [laterStep_eq, heq]
        show (laterRanges c w promptTokenIds _ t' later >>= _) = _
        rw [hranges]
        rfl
      · intro k
        have hle := le_savedUpTo (t.disaggSpec.isNone && !c.saveDecodeCache)
          (numComputedTokens + step.numScheduledTokens) later
        rw [timesSaved_append, htimes, hlater, hstart, hnone,
          Nat.mul_div_cancel _ c.chunkSize_pos]
        exact (hits_split (Nat.div_le_div_right (Nat.le_add_right _ _))
          (Nat.div_le_div_right hle) k).symm

/-- Where each step starts again, it does so at the first token. -/
theorem savesFrom_of_restarts (h : restarts w t.disaggSpec.isSome = true)
    (hnone : numTransferred t = some 0) : savesFrom w t = 0 := by
  unfold restarts at h
  simp only [Bool.and_eq_true, decide_eq_true_eq] at h
  unfold numTransferred at hnone
  rw [Option.map_eq_some_iff] at hnone
  obtain ⟨disagg, hspec, hzero⟩ := hnone
  unfold savesFrom
  rw [hspec]
  dsimp only
  rw [if_pos h.1.2, hzero, Nat.min_zero]

/-- **Run lemma: the later steps that start again** save all full chunks once more with each
step. -/
theorem laterRanges_of_restarts (hrole : w.kvRole ≠ .kvConsumer) (later : List PrefillStep)
    (h : Prefilling c t promptTokenIds.length numComputedTokens)
    (hsaved : numComputedTokens < promptTokenIds.length →
      t.numSavedTokens = numComputedTokens / c.chunkSize * c.chunkSize)
    (hagain : restarts w t.disaggSpec.isSome = true) (hnone : numTransferred t = some 0)
    (hpos : ∀ step ∈ later, 0 < step.numScheduledTokens)
    (hwhole : computedAfter numComputedTokens later = promptTokenIds.length)
    (hroom : HasRoom c numComputedTokens t.allocatedBlockIds.length later) :
    ∃ ranges, laterRanges c w promptTokenIds numComputedTokens t later = .ok ranges ∧
      ∀ k, hits (0, numComputedTokens / c.chunkSize) k + timesSaved c.chunkSize ranges k =
        ((withComputed numComputedTokens later).map fun q =>
            hits (0, q.1 / c.chunkSize) k).sum +
          hits (0, promptTokenIds.length / c.chunkSize) k := by
  induction later generalizing t numComputedTokens with
  | nil =>
    refine ⟨[], rfl, ?_⟩
    intro k
    unfold computedAfter at hwhole
    rw [← hwhole]
    show _ + 0 = 0 + _
    rw [Nat.add_zero, Nat.zero_add]
    rfl
  | cons step later ih =>
    obtain ⟨hprefilling, haligned, hstart, -⟩ := onward_nextTracker
      ⟨h, hsaved, fun _ => savesFrom_of_restarts hagain hnone⟩ (hpos step List.mem_cons_self)
      hwhole hroom (Nat.dvd_zero _)
    have hstops : savingStops c (nextTracker promptTokenIds numComputedTokens t step) = false := by
      unfold restarts at hagain
      simp only [Bool.and_eq_true] at hagain
      unfold savingStops
      rw [show (nextTracker promptTokenIds numComputedTokens t step).disaggSpec = t.disaggSpec
        from rfl, ← Option.not_isSome, hagain.1.1]
      rfl
    obtain ⟨range, t', heq, htimes, hstep⟩ := saveStep_spec hprefilling haligned hstops hrole none
    have hwhole' := hwhole
    rw [computedAfter_cons] at hwhole'
    have hroom' : HasRoom c (numComputedTokens + step.numScheduledTokens)
        t'.allocatedBlockIds.length later := by
      rw [hstep.blocks]
      show HasRoom c _ (t.allocatedBlockIds ++ step.newBlockIds.getD []).length later
      rw [List.length_append]
      exact hroom.2
    obtain ⟨ranges, hranges, hlater⟩ := ih hstep.prefilling hstep.saved
      (by rw [hstep.disagg]; exact hagain) ((hstep.again hagain).trans hnone)
      (fun step' hmem => hpos step' (List.mem_cons_of_mem _ hmem)) hwhole' hroom'
    refine ⟨range.toList ++ ranges, ?_, ?_⟩
    · unfold laterRanges
      rw [laterStep_eq, heq]
      show (laterRanges c w promptTokenIds _ t' later >>= _) = _
      rw [hranges]
      rfl
    · intro k
      have hrest := hlater k
      rw [timesSaved_append, htimes, hstart, Nat.zero_div]
      unfold withComputed
      rw [List.map_cons, List.sum_cons]
      dsimp only
      omega

end Later

/-! ## The whole prefill -/

namespace Prefill

variable {c : AdapterConfig}

/-- The later steps, each with the number of tokens that are computed before it. -/
def laterSteps (p : Prefill c) : List (Nat × PrefillStep) := withComputed p.firstComputed p.later

/-- When the ranges are right.  Where each step starts again at the first token, only the last step
may reach a full chunk behind the hit.  Otherwise the full chunks of the prompt are computed before
any later step of one token, unless what is decoded is saved as well or the save is a transfer. -/
def SplitsWell (p : Prefill c) (w : SavingWorker) : Prop :=
  if restarts w p.hasDisaggSpec then
    p.promptLen < p.hit + c.chunkSize ∨ ∀ q ∈ p.laterSteps, q.1 < p.hit + c.chunkSize
  else
    p.hasDisaggSpec = true ∨ c.saveDecodeCache = true ∨
      ∀ q ∈ p.laterSteps, q.2.numScheduledTokens = 1 →
        p.promptLen / c.chunkSize ≤ q.1 / c.chunkSize

instance (p : Prefill c) (w : SavingWorker) : Decidable (p.SplitsWell w) :=
  inferInstanceAs (Decidable (if restarts w p.hasDisaggSpec then
    p.promptLen < p.hit + c.chunkSize ∨ ∀ q ∈ p.laterSteps, q.1 < p.hit + c.chunkSize
  else
    p.hasDisaggSpec = true ∨ c.saveDecodeCache = true ∨
      ∀ q ∈ p.laterSteps, q.2.numScheduledTokens = 1 →
        p.promptLen / c.chunkSize ≤ q.1 / c.chunkSize))

variable (p : Prefill c) (w : SavingWorker)

theorem firstComputed_le : p.firstComputed ≤ p.promptLen :=
  (le_computedAfter p.firstComputed p.later).trans_eq p.whole

theorem prefilling_tracker : Prefilling c p.tracker p.promptLen p.firstComputed where
  promptLen := rfl
  tokens := List.length_take_of_le p.firstComputed_le
  room := p.room
  skipSave := rfl
  requestSkip := by
    show decide (_ ≠ "") = false
    rw [decide_eq_false_iff_not, not_not]
    exact p.savesRequest

theorem isSome_disaggSpec : p.tracker.disaggSpec.isSome = p.hasDisaggSpec := by
  show (if p.hasDisaggSpec = true then some (DisaggSpec.mk false 0) else none).isSome = _
  match p.hasDisaggSpec with
  | true => rfl
  | false => rfl

/-- The first step saves from the hit on, or from the first token if nothing is transferred yet. -/
theorem savesFrom_tracker : savesFrom w p.tracker = p.hit ∨ savesFrom w p.tracker = 0 := by
  have hspec : p.tracker.disaggSpec = if p.hasDisaggSpec then some ⟨false, 0⟩ else none := rfl
  unfold savesFrom
  rw [hspec]
  match p.hasDisaggSpec with
  | true =>
    by_cases hproducer : w.kvRole = .kvProducer
    · refine .inr ?_
      show (if w.kvRole = .kvProducer then min p.hit 0 else p.hit) = 0
      rw [if_pos hproducer, Nat.min_zero]
    · exact .inl (if_neg hproducer)
  | false => exact .inl rfl

theorem aligned_tracker : Aligned c w p.tracker where
  saved := p.chunkSize_dvd_hit
  saved_le := by
    rw [p.prefilling_tracker.tokens]
    exact p.hit_le
  start := by
    rcases p.savesFrom_tracker w with hhit | hzero
    · rw [hhit]
      exact p.chunkSize_dvd_hit
    · rw [hzero]
      exact Nat.dvd_zero _

theorem savesFrom_tracker_le : savesFrom w p.tracker ≤ p.hit := by
  rcases p.savesFrom_tracker w with hhit | hzero
  · exact hhit.le
  · omega

/-- The first step of a prefill. -/
theorem saveStep_tracker (hrole : w.kvRole ≠ .kvConsumer) :
    ∃ range t', saveStep c w p.tracker p.loadSpec = .ok (range, t') ∧
      (∀ k, timesSaved c.chunkSize range.toList k =
        hits (savesFrom w p.tracker / c.chunkSize, p.firstComputed / c.chunkSize) k) ∧
      StepSaved c w p.tracker t' p.promptLen p.firstComputed ∧
      t'.disaggSpec.isSome = p.hasDisaggSpec ∧ HasRoom c p.firstComputed
        t'.allocatedBlockIds.length p.later := by
  have hstops : savingStops c p.tracker = false := by
    show (_ && false && _) = false
    rw [Bool.and_false, Bool.false_and]
  obtain ⟨range, t', heq, htimes, hstep⟩ :=
    saveStep_spec p.prefilling_tracker (p.aligned_tracker w) hstops hrole p.loadSpec
  refine ⟨range, t', heq, htimes, hstep, hstep.disagg.trans p.isSome_disaggSpec, ?_⟩
  rw [hstep.blocks]
  exact p.laterRoom

theorem savedRanges_of_ok {range : Option (Nat × Nat)} {t' : RequestTracker}
    {ranges : List (Nat × Nat)} (hfirst : saveStep c w p.tracker p.loadSpec = .ok (range, t'))
    (hlater : laterRanges c w p.request.promptTokenIds p.firstComputed t' p.later = .ok ranges) :
    p.savedRanges w = .ok (range.toList ++ ranges) := by
  unfold savedRanges
  rw [hfirst]
  show (laterRanges c w p.request.promptTokenIds p.firstComputed t' p.later >>= _) = _
  rw [hlater]
  rfl

/-- The ranges are right just when each full chunk behind the hit is counted once. -/
theorem savesEachChunkOnce_of_ok {ranges : List (Nat × Nat)}
    (h : p.savedRanges w = .ok ranges) :
    p.SavesEachChunkOnce w ↔ ∀ k, p.hit / c.chunkSize ≤ k → k < p.promptLen / c.chunkSize →
      timesSaved c.chunkSize ranges k = 1 := by
  have hdomain (k : Nat) : (p.hit / c.chunkSize ≤ k ↔ p.hit ≤ k * c.chunkSize) ∧
      (k < p.promptLen / c.chunkSize ↔ (k + 1) * c.chunkSize ≤ p.promptLen) := by
    obtain ⟨n, hn⟩ := p.chunkSize_dvd_hit
    have hn : p.hit = c.chunkSize * n := hn
    refine ⟨?_, ?_⟩
    · rw [hn, Nat.mul_div_cancel_left n c.chunkSize_pos, Nat.mul_comm,
        Nat.mul_le_mul_right_iff c.chunkSize_pos]
    · rw [← Nat.succ_le_iff, Nat.le_div_iff_mul_le c.chunkSize_pos]
  constructor
  · rintro ⟨ranges', heq, htimes⟩ k hk hlt
    rw [h] at heq
    cases heq
    exact htimes k ((hdomain k).1.mp hk) ((hdomain k).2.mp hlt)
  · intro htimes
    exact ⟨ranges, h, fun k hk hle =>
      htimes k ((hdomain k).1.mpr hk) ((hdomain k).2.mpr hle)⟩

theorem sum_eq_zero_iff {l : List (Nat × PrefillStep)} {k : Nat} :
    (l.map fun q => hits (0, q.1 / c.chunkSize) k).sum = 0 ↔
      ∀ q ∈ l, q.1 / c.chunkSize ≤ k := by
  have hzero (n : Nat) : hits (0, n) k = 0 ↔ n ≤ k := by
    unfold hits
    simp
  induction l with
  | nil => simp
  | cons q l ih =>
    simp only [List.map_cons, List.sum_cons, Nat.add_eq_zero_iff, ih, hzero,
      List.forall_mem_cons]

/-- **The ranges of a prefill, where each step starts again.** -/
theorem savesEachChunkOnce_iff_of_restarts (hrole : w.kvRole ≠ .kvConsumer)
    (hagain : restarts w p.hasDisaggSpec = true) :
    p.SavesEachChunkOnce w ↔ p.promptLen < p.hit + c.chunkSize ∨
      ∀ q ∈ p.laterSteps, q.1 < p.hit + c.chunkSize := by
  obtain ⟨range, t', heq, htimes, hstep, hsome, hroom⟩ := p.saveStep_tracker w hrole
  have hagain' := hagain
  rw [← p.isSome_disaggSpec] at hagain'
  have hnone : numTransferred p.tracker = some 0 := by
    have hhas : p.hasDisaggSpec = true := by
      unfold restarts at hagain
      simp only [Bool.and_eq_true] at hagain
      exact hagain.1.1
    show (if p.hasDisaggSpec = true then some (DisaggSpec.mk false 0) else none).map _ = _
    rw [if_pos hhas]
    rfl
  obtain ⟨ranges, hranges, hlater⟩ := laterRanges_of_restarts hrole p.later hstep.prefilling
    hstep.saved (by rw [hsome]; exact hagain) ((hstep.again hagain').trans hnone) p.later_pos
    p.whole hroom
  rw [p.savesEachChunkOnce_of_ok w (p.savedRanges_of_ok w heq hranges)]
  have htotal (k : Nat) (hk : k < p.promptLen / c.chunkSize) :
      timesSaved c.chunkSize (range.toList ++ ranges) k = 1 ↔
        ∀ q ∈ p.laterSteps, q.1 / c.chunkSize ≤ k := by
    have hrest := hlater k
    have hend : hits (0, p.promptLen / c.chunkSize) k = 1 := if_pos ⟨Nat.zero_le k, hk⟩
    have hzero := sum_eq_zero_iff (c := c) (l := p.laterSteps) (k := k)
    rw [← hzero, timesSaved_append, htimes, savesFrom_of_restarts hagain' hnone, Nat.zero_div]
    unfold laterSteps
    change _ = _ + hits (0, p.promptLen / c.chunkSize) k at hrest
    omega
  obtain ⟨n, hn⟩ : c.chunkSize ∣ p.hit := p.chunkSize_dvd_hit
  have hdiv : p.hit / c.chunkSize = n := by
    rw [hn, Nat.mul_div_cancel_left n c.chunkSize_pos]
  have hnext : p.hit + c.chunkSize = (n + 1) * c.chunkSize := by
    rw [hn, Nat.succ_mul, Nat.mul_comm]
  rw [hdiv, hnext]
  have hlt_iff (m k : Nat) : m / c.chunkSize ≤ k ↔ m < (k + 1) * c.chunkSize := by
    rw [← Nat.lt_succ_iff, Nat.div_lt_iff_lt_mul c.chunkSize_pos]
  constructor
  · intro hall
    by_cases hshort : p.promptLen < (n + 1) * c.chunkSize
    · exact .inl hshort
    · refine .inr ?_
      have hfull : n < p.promptLen / c.chunkSize := by
        rw [← Nat.not_le, hlt_iff]
        exact hshort
      intro q hq
      rw [← hlt_iff]
      exact (htotal n hfull).mp (hall n (Nat.le_refl n) hfull) q hq
  · rintro (hshort | hall) k hk hfull
    · rw [← hlt_iff] at hshort
      omega
    · rw [htotal k hfull]
      intro q hq
      exact ((hlt_iff q.1 n).mpr (hall q hq)).trans hk

/-- **The ranges of a prefill, where each step goes on from the one before.** -/
theorem savesEachChunkOnce_iff_of_onward (hrole : w.kvRole ≠ .kvConsumer)
    (honward : restarts w p.hasDisaggSpec = false) :
    p.SavesEachChunkOnce w ↔ p.hasDisaggSpec = true ∨ c.saveDecodeCache = true ∨
      ∀ q ∈ p.laterSteps, q.2.numScheduledTokens = 1 →
        p.promptLen / c.chunkSize ≤ q.1 / c.chunkSize := by
  obtain ⟨range, t', heq, htimes, hstep, hsome, hroom⟩ := p.saveStep_tracker w hrole
  have honward' := honward
  rw [← p.isSome_disaggSpec] at honward'
  have hdecode : t'.isDecodePhase = false := hstep.decode
  obtain ⟨ranges, hranges, hlater⟩ := laterRanges_spec hrole p.later
    ⟨hstep.prefilling, hstep.saved, fun hlt => hstep.onward hlt honward'⟩
    (by rw [hdecode]; exact nofun) (by rw [hsome]; exact honward) p.later_pos p.whole hroom
  have hnone : t'.disaggSpec.isNone = !p.hasDisaggSpec := by
    rw [← hsome, Option.not_isSome]
  rw [hnone] at hlater
  rw [p.savesEachChunkOnce_of_ok w (p.savedRanges_of_ok w heq hranges)]
  have hle := le_savedUpTo (!p.hasDisaggSpec && !c.saveDecodeCache) p.firstComputed p.later
  have hfirst : p.hit / c.chunkSize ≤ p.firstComputed / c.chunkSize :=
    Nat.div_le_div_right p.hit_le
  have hstart : savesFrom w p.tracker / c.chunkSize ≤ p.hit / c.chunkSize :=
    Nat.div_le_div_right (p.savesFrom_tracker_le w)
  have htotal (k : Nat) (hk : p.hit / c.chunkSize ≤ k) :
      timesSaved c.chunkSize (range.toList ++ ranges) k = 1 ↔
        k < savedUpTo (!p.hasDisaggSpec && !c.saveDecodeCache) p.firstComputed p.later /
          c.chunkSize := by
    rw [timesSaved_append, htimes, hlater,
      ← hits_split (hstart.trans hfirst) (Nat.div_le_div_right hle), hits_eq_one]
    exact ⟨fun hmem => hmem.2, fun hlt => ⟨hstart.trans hk, hlt⟩⟩
  have hall : (∀ k, p.hit / c.chunkSize ≤ k → k < p.promptLen / c.chunkSize →
        timesSaved c.chunkSize (range.toList ++ ranges) k = 1) ↔
      p.promptLen / c.chunkSize ≤
        savedUpTo (!p.hasDisaggSpec && !c.saveDecodeCache) p.firstComputed p.later /
          c.chunkSize := by
    constructor
    · intro h
      by_contra hshort
      rw [Nat.not_le] at hshort
      have hupto := Nat.div_le_div_right (c := c.chunkSize) hle
      have hk := (htotal _ (hfirst.trans hupto)).mp (h _ (hfirst.trans hupto) hshort)
      omega
    · intro h k hk hlt
      exact (htotal k hk).mpr (hlt.trans_le h)
  have hwhole : p.promptLen / c.chunkSize ≤ computedAfter p.firstComputed p.later / c.chunkSize :=
    Nat.div_le_div_right p.whole.ge
  rw [hall, le_savedUpTo_div_iff hwhole]
  match p.hasDisaggSpec, c.saveDecodeCache with
  | true, _ => simp
  | false, true => simp
  | false, false => simp [laterSteps]

def bothWorker : SavingWorker := ⟨.kvBoth, false, true, true⟩

def eightTokenRequest : NewRequestData :=
  ⟨"r", [1, 2, 3, 4, 5, 6, 7, 8], [7, 8, 9, 3], 0, none, []⟩

/-- The scheduler runs four tokens, and then the other four. -/
def fourAndFour : Prefill VllmRun.smallConfig where
  request := eightTokenRequest
  loadSpec := none
  hasDisaggSpec := false
  numScheduledTokens := 4
  later := [⟨4, none⟩]
  first_pos := VllmRun.smallConfig.chunkSize_pos
  later_pos := by decide
  whole := by decide
  chunkSize_dvd_hit := by decide
  hit_le := by decide
  room := by decide
  laterRoom := ⟨by decide, trivial⟩
  savesRequest := by decide

/-- The scheduler runs seven tokens, and then the last one. -/
def sevenAndOne : Prefill VllmRun.smallConfig where
  request := eightTokenRequest
  loadSpec := none
  hasDisaggSpec := false
  numScheduledTokens := 7
  later := [⟨1, none⟩]
  first_pos := by decide
  later_pos := by decide
  whole := by decide
  chunkSize_dvd_hit := by decide
  hit_le := by decide
  room := by decide
  laterRoom := ⟨by decide, trivial⟩
  savesRequest := by decide

end Prefill

end LMCache.Vllm
