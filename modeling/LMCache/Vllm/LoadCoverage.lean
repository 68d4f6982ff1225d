/-
# LMCache.Vllm.LoadCoverage — the metadata covers what is to be loaded.

A worker loads the first `lmcache_cached_tokens` of the tokens of the metadata, into the slots of
the metadata.  Both are cut by the rule of the save: at the last full chunk, unless the step reaches
the end of the prompt and partial chunks are kept.  A hit that ends inside a chunk may be cut off.
-/
import LMCache.Vllm.SchedulerRuns

namespace LMCache.Vllm

open LMCache.Lib SchedulerConnector

/-! ## What is asked of the metadata -/

/-- The slots are those of the request's blocks, and they and the tokens cover the hit that is to be
loaded. -/
structure CoversLoad (c : AdapterConfig) (t : Tracked) (m : ReqMeta) : Prop where
  slots : ∀ (i slot : Nat), m.slotMapping[i]? = some slot → ∃ block,
    t.blockIds[i / c.blockSize]? = some block ∧ slot = block * c.blockSize + i % c.blockSize
  tokens : ∀ spec ∈ m.loadSpec, spec.lmcacheCachedTokens ≤ m.tokenIds.length
  mapped : ∀ spec ∈ m.loadSpec, spec.lmcacheCachedTokens ≤ m.slotMapping.length

/-- A hit is not cut off by the rule of the save: it ends at the last full chunk of the step or
before, or the step reaches the end of the prompt and partial chunks are kept. -/
def Uncut (c : AdapterConfig) (hit promptLen numTokens : Nat) : Prop :=
  hit ≤ numTokens / c.chunkSize * c.chunkSize ∨
    promptLen ≤ numTokens ∧ c.discardPartialChunks = false

instance (c : AdapterConfig) (hit promptLen numTokens : Nat) :
    Decidable (Uncut c hit promptLen numTokens) := inferInstanceAs (Decidable (_ ∨ _ ∧ _))

/-- The rule cuts behind the hit just in these cases. -/
theorem le_cutLength_iff (c : AdapterConfig) {hit promptLen numTokens : Nat} (h : hit ≤ numTokens) :
    hit ≤ cutLength c promptLen numTokens ↔ Uncut c hit promptLen numTokens := by
  unfold cutLength Uncut
  by_cases hcut : numTokens < promptLen ∨ c.discardPartialChunks = true
  · rw [if_pos hcut]
    constructor
    · exact .inl
    · rintro (hle | ⟨hend, hkeep⟩)
      · exact hle
      · rcases hcut with hlt | hdiscard
        · omega
        · rw [hkeep] at hdiscard
          cases hdiscard
  · rw [if_neg hcut]
    rw [not_or] at hcut
    exact ⟨fun _ => .inr ⟨Nat.le_of_not_lt hcut.1, Bool.eq_false_of_not_eq_true hcut.2⟩, fun _ => h⟩

/-- What is built covers the hit just when the rule does not cut it. -/
theorem coversLoad_iff {c : AdapterConfig} {t : Tracked} {m : ReqMeta} (h : Builds c t m) :
    CoversLoad c t m ↔ ∀ spec ∈ m.loadSpec,
      Uncut c spec.lmcacheCachedTokens t.request.promptTokenIds.length
        t.request.numComputedTokens := by
  constructor
  · intro hcovers spec hspec
    obtain ⟨hle, hlength, -⟩ := h.loads spec hspec
    rw [← le_cutLength_iff c hle, ← hlength]
    exact hcovers.tokens spec hspec
  · intro huncut
    have htokens (spec : LoadSpec) (hspec : spec ∈ m.loadSpec) :
        spec.lmcacheCachedTokens ≤ m.tokenIds.length := by
      obtain ⟨hle, hlength, -⟩ := h.loads spec hspec
      rw [hlength, le_cutLength_iff c hle]
      exact huncut spec hspec
    refine ⟨h.slots, htokens, ?_⟩
    intro spec hspec
    rw [(h.loads spec hspec).2.2]
    exact htokens spec hspec

/-! ## Runs -/

namespace VllmRun

/-- What the last step has built covers what is to be loaded. -/
def LoadsCovered (c : AdapterConfig) (s : VllmRun) : Prop :=
  ∀ m ∈ s.metas, ∃ t, s.requests.get? m.reqId = some t ∧ CoversLoad c t m

/-- The condition on a step: no hit that is to be loaded is cut off. -/
def HitsUncut (c : AdapterConfig) (s : VllmRun) : VllmEvent → Prop
  | .buildConnectorMeta new cached _ => ∀ sched ∈ new ++ cached,
    ∀ t ∈ s.requests.get? sched.reqId, ∀ spec ∈ s.connector.loadSpecs.get? sched.reqId,
      spec.canLoad = true →
        Uncut c spec.lmcacheCachedTokens t.request.promptTokenIds.length
          (t.request.numComputedTokens + sched.numScheduledTokens)
  | _ => True

instance (c : AdapterConfig) (s : VllmRun) : ∀ e, Decidable (s.HitsUncut c e)
  | .buildConnectorMeta new cached _ => inferInstanceAs (Decidable (∀ sched ∈ new ++ cached,
    ∀ t ∈ (_ : Option Tracked), ∀ spec ∈ (_ : Option LoadSpec), _ → _))
  | .addRequest _ | .getNumNewMatchedTokens _ _ _ _ | .updateStateAfterAlloc _ | .appendToken _ _
  | .preempt _ | .finish _ => .isTrue trivial

variable {c : AdapterConfig} {s : VllmRun}

/-- **Step lemma: what is built covers the load**, where no hit is cut off. -/
theorem loadsCovered_step (h : Steady c s) {e : VllmEvent} (he : s.HitsUncut c e) :
    (s.step e).LoadsCovered c := by
  intro m hm
  obtain ⟨new, cached, asList, rfl, hstep⟩ := eq_buildConnectorMeta_of_mem hm
  rw [hstep] at hm ⊢
  obtain ⟨p, hp, -, hbuilds, hget, hload⟩ :=
    (steady_buildConnectorMeta h new cached asList).2.2 m hm
  refine ⟨advance p, hget, ?_⟩
  rw [coversLoad_iff hbuilds]
  intro spec hspec
  rw [hload, Option.mem_def, Option.filter_eq_some_iff] at hspec
  obtain ⟨hsched, ht⟩ := mem_tracked.mp hp
  exact he p.1 hsched p.2 ht spec hspec.1 hspec.2

/-- **What is built covers every load in every run** in which the rule of the save cuts off no hit
that is to be loaded. -/
theorem always_loadsCovered (c : AdapterConfig) (kvRole : KvRole) (forceSkipSave : Bool)
    (priorityLimit : Option Int) (skipLastNTokens : Nat) (es : List VllmEvent)
    (h : Guarded step (HitsUncut c)
      (init (.init c kvRole forceSkipSave priorityLimit skipLastNTokens)) es) :
    Always step (LoadsCovered c)
      (init (.init c kvRole forceSkipSave priorityLimit skipLastNTokens)) es := by
  have hboth : Always step (fun s => Steady c s ∧ s.LoadsCovered c)
      (init (.init c kvRole forceSkipSave priorityLimit skipLastNTokens)) es :=
    always_of_guarded
      (fun _ e hs he => ⟨steady_step hs.1 e, loadsCovered_step hs.1 he⟩)
      ⟨steady_init c kvRole forceSkipSave priorityLimit skipLastNTokens, nofun⟩ h
  exact Always.mono (fun (s : VllmRun) (hs : Steady c s ∧ s.LoadsCovered c) => hs.2) hboth

/-! ### Hits that end inside a chunk -/

/-- The lookup leaves the last two tokens out: a hit may end inside a chunk. -/
def skippingConnector : SchedulerConnector := .init smallConfig .kvBoth false none 2

/-- Six of the eight tokens are found, and the request runs some of the last two. -/
def partialHitRun (numScheduledTokens : Nat) : List VllmEvent :=
  [.addRequest eightTokens, .getNumNewMatchedTokens "r" 0 none (some 6),
    .updateStateAfterAlloc "r",
    .buildConnectorMeta [⟨"r", numScheduledTokens, some [7, 8, 9, 3]⟩] [] false]

theorem always_loadsCovered_partialHitRun :
    Always step (LoadsCovered smallConfig) (init skippingConnector) (partialHitRun 2) :=
  always_loadsCovered smallConfig .kvBoth false none 2 (partialHitRun 2) (by decide +kernel)

theorem LoadsCovered.tokens (h : s.LoadsCovered c) :
    ∀ m ∈ s.metas, ∀ spec ∈ m.loadSpec, spec.lmcacheCachedTokens ≤ m.tokenIds.length := by
  intro m hm
  obtain ⟨t, -, hcovers⟩ := h m hm
  exact hcovers.tokens

/-- It can fail: the step runs the seventh of eight tokens, and is cut behind the fourth, though
six are to be loaded. -/
theorem not_always_loadsCovered :
    ¬ Always step (LoadsCovered smallConfig) (init skippingConnector) (partialHitRun 1) := by
  intro h
  have hlast := h.last.tokens
  revert hlast
  decide +kernel

end VllmRun

end LMCache.Vllm
