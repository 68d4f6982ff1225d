/-
# LMCache.Experiment.VramMonitor — the memory of a GPU, cut into regions.

Source: `VRAMSnapshot` and `FullVRAMMonitor.measure` of `experiment/run_vram_experiment.py`.

`measure` gets three measurements (of the driver, of the KV cache of vLLM and of the allocator of
PyTorch) and, but for the first call, a baseline.  The weights and the runtime are what is left of
the memory in use when other regions are taken from it, and a rest that would be negative is zero:
there the regions come to more than the memory in use.  Numbers are exact here; the floats of the
source round.
-/
import Mathlib.Algebra.Order.Field.Rat
import Mathlib.Data.NNRat.Defs
import Mathlib.Tactic.Linarith
import Mathlib.Tactic.NormNum
import Mathlib.Tactic.Positivity
import Mathlib.Tactic.Ring

namespace LMCache.Experiment

/-! ## Measurements -/

/-- What `_get_nvidia_smi_memory` returns, in GB. -/
structure NvidiaMemory where
  total : ℚ≥0
  used : ℚ≥0
  free : ℚ≥0

/-- What `_get_vllm_kv_stats` returns. -/
structure KvStats where
  blocksTotal : Nat
  blocksFree : Nat
  blocksUsed : Int
  usageRatio : ℚ≥0
  allocatedGb : ℚ≥0

/-- What `_get_torch_memory` returns. -/
structure TorchMemory where
  allocatedGb : ℚ≥0
  reservedGb : ℚ≥0
  peakGb : ℚ≥0

/-- `VRAMSnapshot`. -/
structure VRAMSnapshot where
  totalVramGb : ℚ≥0
  usedVramGb : ℚ≥0
  freeVramGb : ℚ≥0
  modelWeightsGb : ℚ
  vllmKvCacheAllocatedGb : ℚ≥0
  vllmKvBlocksTotal : Nat
  vllmKvBlocksFree : Nat
  vllmKvCacheUsedGb : ℚ
  vllmKvBlocksUsed : Int
  vllmKvUsageRatio : ℚ≥0
  activationTensorsGb : ℚ
  cudaRuntimeGb : ℚ
  torchAllocatedGb : ℚ≥0
  torchReservedGb : ℚ≥0
  torchPeakGb : ℚ≥0
  estimatedCachegenBufferGb : ℚ
  sumValidatedGb : ℚ
  sumDiffGb : ℚ

/-! ## Regions -/

/-- The KV cache is in the memory in use. -/
def KvStats.within (kv : KvStats) (nvidia : NvidiaMemory) : Bool :=
  0 < kv.allocatedGb && kv.allocatedGb ≤ nvidia.used

/-- The part of the KV cache that is used, or all of it when no ratio is known. -/
def KvStats.usedGb (kv : KvStats) : ℚ :=
  if 0 < kv.usageRatio then kv.allocatedGb * kv.usageRatio else kv.allocatedGb

/-- The weights, by a baseline. -/
def VRAMSnapshot.weights (baseline : VRAMSnapshot) : ℚ :=
  let modelWeights : ℚ := baseline.usedVramGb - baseline.vllmKvCacheAllocatedGb
  if modelWeights < 0 then baseline.usedVramGb else modelWeights

/-- The regions that `measure` works out: the weights, the KV cache that is used, the activations
and the runtime. -/
structure Regions where
  modelWeightsGb : ℚ
  kvUsedGb : ℚ
  activationGb : ℚ
  cudaRuntimeGb : ℚ

/-- The first measurement, and the ones after it. -/
def regions (nvidia : NvidiaMemory) (kv : KvStats) (torch : TorchMemory) :
    Option VRAMSnapshot → Regions
  | none =>
    let usedVram : ℚ := nvidia.used
    let activation : ℚ := torch.peakGb
    if kv.within nvidia then
      let modelWeights : ℚ := max 0 (usedVram - kv.allocatedGb)
      ⟨modelWeights, kv.usedGb, activation,
        max 0 (usedVram - modelWeights - kv.usedGb - activation)⟩
    else ⟨usedVram * (75 / 100), usedVram * (15 / 100), activation, usedVram * (10 / 100)⟩
  | some baseline =>
    let usedVram : ℚ := nvidia.used
    let activation : ℚ := max 0 ((torch.peakGb : ℚ) - baseline.torchAllocatedGb)
    ⟨baseline.weights, kv.usedGb, activation,
      max 0 (usedVram - baseline.weights - kv.usedGb - activation)⟩

/-- `measure`. -/
def measure (nvidia : NvidiaMemory) (kv : KvStats) (torch : TorchMemory)
    (baseline : Option VRAMSnapshot) : VRAMSnapshot :=
  let r := regions nvidia kv torch baseline
  let sumRegions := r.modelWeightsGb + r.kvUsedGb + r.activationGb + r.cudaRuntimeGb
  { totalVramGb := nvidia.total
    usedVramGb := nvidia.used
    freeVramGb := nvidia.free
    modelWeightsGb := r.modelWeightsGb
    vllmKvCacheAllocatedGb := kv.allocatedGb
    vllmKvBlocksTotal := kv.blocksTotal
    vllmKvBlocksFree := kv.blocksFree
    vllmKvCacheUsedGb := r.kvUsedGb
    vllmKvBlocksUsed := kv.blocksUsed
    vllmKvUsageRatio := kv.usageRatio
    activationTensorsGb := r.activationGb
    cudaRuntimeGb := r.cudaRuntimeGb
    torchAllocatedGb := torch.allocatedGb
    torchReservedGb := torch.reservedGb
    torchPeakGb := torch.peakGb
    estimatedCachegenBufferGb :=
      match baseline with
      | none => 0
      | some baseline => max 0 ((torch.allocatedGb : ℚ) - baseline.torchAllocatedGb)
    sumValidatedGb := sumRegions
    sumDiffGb := nvidia.used - sumRegions }

/-! ## The sum -/

namespace VRAMSnapshot

/-- No region is negative. -/
structure Nonnegative (s : VRAMSnapshot) : Prop where
  modelWeights : 0 ≤ s.modelWeightsGb
  kvAllocated : (0 : ℚ) ≤ s.vllmKvCacheAllocatedGb
  kvUsed : 0 ≤ s.vllmKvCacheUsedGb
  activation : 0 ≤ s.activationTensorsGb
  cudaRuntime : 0 ≤ s.cudaRuntimeGb

/-- The sum of the five regions, as the docstring of `measure` has it. -/
def regionSum (s : VRAMSnapshot) : ℚ :=
  s.modelWeightsGb + s.vllmKvCacheAllocatedGb + s.vllmKvCacheUsedGb + s.activationTensorsGb +
    s.cudaRuntimeGb

end VRAMSnapshot

/-- What is taken from the memory in use is no more than it: the other regions in it, or the KV
cache that is used and the activations in the KV cache that is allocated. -/
def Unclipped (nvidia : NvidiaMemory) (kv : KvStats) (torch : TorchMemory) :
    Option VRAMSnapshot → Prop
  | none =>
    if kv.within nvidia then kv.usedGb + torch.peakGb ≤ kv.allocatedGb else torch.peakGb = 0
  | some baseline =>
    baseline.weights + kv.usedGb + max 0 ((torch.peakGb : ℚ) - baseline.torchAllocatedGb) ≤
      nvidia.used

theorem KvStats.usedGb_nonneg (kv : KvStats) : 0 ≤ kv.usedGb := by
  unfold usedGb
  split <;> positivity

theorem VRAMSnapshot.weights_nonneg (baseline : VRAMSnapshot) : 0 ≤ baseline.weights := by
  unfold weights
  dsimp only
  split
  · positivity
  · rename_i hnonneg
    exact not_lt.mp hnonneg

/-- Three parts and what is left of the whole are the whole, or the parts when they are more. -/
theorem add_rest (m k p u : ℚ) : m + k + p + max 0 (u - m - k - p) = max (m + k + p) u := by
  rw [sub_sub, sub_sub, ← add_assoc, ← max_add_add_left, add_zero, add_sub_cancel]

variable (nvidia : NvidiaMemory) (kv : KvStats) (torch : TorchMemory)
  (baseline : Option VRAMSnapshot)

theorem nonnegative_measure : (measure nvidia kv torch baseline).Nonnegative := by
  have hkv := kv.usedGb_nonneg
  suffices hregions : 0 ≤ (regions nvidia kv torch baseline).modelWeightsGb ∧
      0 ≤ (regions nvidia kv torch baseline).kvUsedGb ∧
        0 ≤ (regions nvidia kv torch baseline).activationGb ∧
          0 ≤ (regions nvidia kv torch baseline).cudaRuntimeGb by
    obtain ⟨h1, h2, h3, h4⟩ := hregions
    exact ⟨h1, NNRat.cast_nonneg _, h2, h3, h4⟩
  cases baseline with
  | none =>
    unfold regions
    dsimp only
    split
    · exact ⟨le_max_left _ _, hkv, NNRat.cast_nonneg _, le_max_left _ _⟩
    · refine ⟨?_, ?_, NNRat.cast_nonneg _, ?_⟩ <;> positivity
  | some baseline =>
    exact ⟨baseline.weights_nonneg, hkv, le_max_left _ _, le_max_left _ _⟩

/-- **The regions but for the allocated KV cache** come to the memory in use, or to more where a
rest was clipped. -/
theorem sumValidated_cases : (nvidia.used : ℚ) ≤ (measure nvidia kv torch baseline).sumValidatedGb ∧
    ((measure nvidia kv torch baseline).sumValidatedGb = nvidia.used ↔
      Unclipped nvidia kv torch baseline) := by
  cases baseline with
  | none =>
    unfold measure regions Unclipped
    dsimp only
    split
    · rename_i hwithin
      obtain ⟨-, hle⟩ := Bool.and_eq_true_iff.mp hwithin
      have hfits : (kv.allocatedGb : ℚ) ≤ nvidia.used := NNRat.cast_le.mpr (of_decide_eq_true hle)
      rw [add_rest, max_eq_right (sub_nonneg.mpr hfits), max_eq_right_iff]
      refine ⟨le_max_right _ _, ?_⟩
      constructor <;> intro h <;> linarith
    · have hpeak : (0 : ℚ) ≤ torch.peakGb := NNRat.cast_nonneg _
      -- the proportions come to the whole, and the activations are counted on top of it
      have hsum : (nvidia.used : ℚ) * (75 / 100) + nvidia.used * (15 / 100) + torch.peakGb +
          nvidia.used * (10 / 100) = nvidia.used + torch.peakGb := by ring
      rw [hsum, add_eq_left, NNRat.cast_eq_zero]
      exact ⟨le_add_of_nonneg_right hpeak, Iff.rfl⟩
  | some baseline =>
    unfold measure regions Unclipped
    dsimp only
    rw [add_rest, max_eq_right_iff]
    exact ⟨le_max_right _ _, Iff.rfl⟩

/-- The five regions are the four, and the KV cache that is allocated. -/
theorem regionSum_measure : (measure nvidia kv torch baseline).regionSum =
    (measure nvidia kv torch baseline).sumValidatedGb + kv.allocatedGb := by
  unfold VRAMSnapshot.regionSum measure
  dsimp only
  ring

/-- **When the regions come to the memory in use.**  No region is negative.  The five come to the
memory in use just when there is no KV cache and nothing was clipped, and the four that `measure`
adds up just when nothing was clipped. -/
theorem measure_sum_iff : (measure nvidia kv torch baseline).Nonnegative ∧
    ((measure nvidia kv torch baseline).regionSum = nvidia.used ↔
      kv.allocatedGb = 0 ∧ Unclipped nvidia kv torch baseline) ∧
    ((measure nvidia kv torch baseline).sumDiffGb = 0 ↔
      Unclipped nvidia kv torch baseline) := by
  obtain ⟨hle, hiff⟩ := sumValidated_cases nvidia kv torch baseline
  refine ⟨nonnegative_measure nvidia kv torch baseline, ?_, ?_⟩
  · have hkv : (0 : ℚ) ≤ kv.allocatedGb := NNRat.cast_nonneg _
    rw [regionSum_measure, ← hiff, ← NNRat.cast_eq_zero (α := ℚ)]
    constructor
    · intro h
      constructor <;> linarith
    · rintro ⟨h0, h⟩
      rw [h, h0, add_zero]
  · show (nvidia.used : ℚ) - (measure nvidia kv torch baseline).sumValidatedGb = 0 ↔ _
    rw [sub_eq_zero, eq_comm, hiff]

/-- Of 10 GB in use 4 are the KV cache, half of it used, and the allocator had a peak of 3: the five
regions come to 15 GB, and those that are added up to 11. -/
theorem measure_sum_ne :
    let s := measure ⟨24, 10, 14⟩ ⟨4096, 2048, 2048, 1 / 2, 4⟩ ⟨2, 3, 3⟩ none
    s.regionSum = 15 ∧ s.sumValidatedGb = 11 ∧ s.usedVramGb = 10 := by
  decide +kernel

end LMCache.Experiment
