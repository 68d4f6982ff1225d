/-
# LMCache.Storage.CpuAllocate — allocation in the CPU backend, with eviction.

Source: `v1/storage_backend/local_cpu_backend.py`, `allocate` and `batched_allocate`.

When the pinned buffer has no room, both calls loop: a round under `cpu_lock` evicts one candidate of
the policy, then the allocator is tried again.  The candidate itself may be evicted: it is not pinned
and `hot_cache` holds its only reference.  `allocate` removes the candidate and nothing else.
`batched_allocate` takes the candidate for one layer of a chunk, pops all layers of that chunk, as many
as the batch is long, and frees them together without a look at their counters.

Between the rounds the lock is free, so the rounds of several calls, the other calls of the backend
and whatever the holders of objects do to them interleave.  The allocator is the
`MixedMemoryAllocator`; with the paged one of the peer-to-peer mode, `batched_allocate` stops at its
assertion before the loop.
-/
import LMCache.Lib.Run
import LMCache.Storage.HotCache
import LMCache.Storage.LocalCPUBackend

namespace LMCache.Storage

open LMCache.Lib LMCache.Memory

/-! ## What an eviction may release -/

/-- How many of its references `hot_cache` holds on an object. -/
def references (hotCache : Dict CacheEngineKey Nat) (memoryObj : Nat) : Nat :=
  hotCache.entries.countP fun e => e.2 = memoryObj

/-- The object is pinned, or its reference count shows a holder other than `hot_cache`. -/
def HeldElsewhere (hotCache : Dict CacheEngineKey Nat) (memoryObj : Nat) (o : TensorMemoryObj) :
    Prop := o.isPinned = true ∨ (references hotCache memoryObj : Int) < o.metadata.refCount

instance (hotCache : Dict CacheEngineKey Nat) (memoryObj : Nat) (o : TensorMemoryObj) :
    Decidable (HeldElsewhere hotCache memoryObj o) := inferInstanceAs (Decidable (_ ∨ _))

/-- One round of an allocation: the cache and the objects it started from, the objects whose memory it
gave back, and what it raised. -/
structure Eviction where
  hotCache : Dict CacheEngineKey Nat
  objs : List TensorMemoryObj
  released : List Nat
  raised : Option CacheError

/-- The round raised nothing, and gave back no memory that someone other than the cache held. -/
def Eviction.Safe (e : Eviction) : Prop :=
  e.raised = none ∧ ∀ i ∈ e.released, ∀ o ∈ e.objs[i]?, ¬ HeldElsewhere e.hotCache i o

instance (e : Eviction) : Decidable e.Safe := inferInstanceAs (Decidable (_ ∧ _))

namespace HotCache

/-- What a round did to this cache. -/
def eviction (c : HotCache) (r : Round) : Eviction :=
  ⟨c.hotCache, c.memory.objs, ObjectPool.released c.memory r.after.memory, r.raised⟩

/-- The condition on a round of `batched_allocate`: the batch is not empty, every layer of the
candidate that the batch stands for is cached, and none of their objects is held elsewhere. -/
def LayersEvictable (c : HotCache) (batchSize : Nat) : Prop :=
  ∀ key ∈ c.evictKeys, 0 < batchSize ∧ ∀ layer ∈ key.splitLayers batchSize, layer ∈ c.hotCache ∧
    ∀ i ∈ c.hotCache.get? layer, ∀ o ∈ c.memory.objs[i]?, o.valid = true →
      ¬ HeldElsewhere c.hotCache i o

instance (c : HotCache) (batchSize : Nat) : Decidable (c.LayersEvictable batchSize) :=
  inferInstanceAs (Decidable (∀ key ∈ c.evictKeys, _ ∧ _))

/-- The candidate is a cached key whose object may be evicted. -/
theorem evictKeys_cases (c : HotCache) :
    c.evictKeys = [] ∨ ∃ key i o, c.evictKeys = [key] ∧ c.hotCache.get? key = some i ∧
      c.memory.objs[i]? = some o ∧ o.canEvict = true := by
  unfold evictKeys
  rw [LRUCachePolicy.getEvictCandidates_one]
  cases hfind : c.hotCache.entries.find? fun e => c.canEvict e.2 with
  | none => exact .inl rfl
  | some e =>
    obtain ⟨key, i⟩ := e
    have hcan : c.canEvict i = true := by simpa using List.find?_some hfind
    have hget : c.hotCache.get? key = some i :=
      Dict.get?_eq_some.mpr (List.mem_of_find?_eq_some hfind)
    unfold canEvict at hcan
    cases hobj : c.memory.objs[i]? with
    | none =>
      rw [hobj] at hcan
      cases hcan
    | some o =>
      rw [hobj] at hcan
      exact .inr ⟨key, i, o, rfl, hget, hobj, hcan⟩

/-! ## A round of `allocate` -/

variable {hotCache : Dict CacheEngineKey Nat} {key : CacheEngineKey} {c : HotCache}
  {keys : List CacheEngineKey} {batchSize : Nat}

/-- A cached object is held by the cache. -/
theorem references_pos {i : Nat} (h : hotCache.get? key = some i) : 0 < references hotCache i :=
  List.countP_pos_iff.mpr ⟨(key, i), Dict.get?_eq_some.mp h, by simp⟩

/-- An object that may be evicted is held by the cache alone. -/
theorem not_heldElsewhere_of_canEvict {i : Nat} {o : TensorMemoryObj}
    (h : hotCache.get? key = some i) (hcan : o.canEvict = true) : ¬ HeldElsewhere hotCache i o := by
  have hpos := references_pos h
  unfold TensorMemoryObj.canEvict at hcan
  rw [Bool.and_eq_true, Bool.not_eq_true', decide_eq_true_eq] at hcan
  obtain ⟨hpin, href⟩ := hcan
  rintro (h | h)
  · rw [hpin] at h
    cases h
  · omega

/-- **A round of `allocate` is safe** in every state. -/
theorem safe_allocateRound (c : HotCache) : (c.eviction c.allocateRound).Safe := by
  unfold allocateRound
  rcases c.evictKeys_cases with hnone | ⟨key, i, o, hkeys, hget, hobj, hcan⟩
  · rw [hnone]
    refine ⟨rfl, fun j hj => ?_⟩
    have hnil : (c.eviction ⟨false, none, c⟩).released = [] := ObjectPool.released_of_eq rfl
    rw [hnil] at hj
    cases hj
  · rw [hkeys]
    have hremove : (c.batchedRemove [key]).2.memory = c.memory.refCountDown i := by
      simp only [batchedRemove, remove, hget]
    refine ⟨rfl, fun j hj o' ho' => ?_⟩
    change j ∈ ObjectPool.released c.memory (c.batchedRemove [key]).2.memory at hj
    rw [hremove, ObjectPool.mem_released_refCountDown] at hj
    obtain ⟨rfl, -⟩ := hj
    change o' ∈ c.memory.objs[j]? at ho'
    rw [hobj] at ho'
    cases ho'
    exact not_heldElsewhere_of_canEvict hget hcan

/-! ## A round of `batched_allocate` -/

/-- Popping layers leaves the memory alone. -/
theorem kept_popLayers (keys : List CacheEngineKey) (c : HotCache) (old : List Nat) :
    Kept c (c.popLayers old keys).2 ∧ (c.popLayers old keys).2.memory = c.memory := by
  induction keys generalizing c old with
  | nil => exact ⟨.refl c, rfl⟩
  | cons key keys ih =>
    unfold popLayers
    cases c.hotCache.get? key with
    | none => exact ⟨.refl c, rfl⟩
    | some i =>
      obtain ⟨hkept, hmemory⟩ := ih { c with hotCache := c.hotCache.erase key } (old ++ [i])
      have hpop : Kept c { c with hotCache := c.hotCache.erase key } :=
        ⟨fun e he => .inl (Dict.mem_entries_of_erase he), rfl⟩
      exact ⟨hpop.trans hkept, hmemory⟩

theorem popLayers_of_cached (hnodup : keys.Nodup) (old : List Nat)
    (h : ∀ key ∈ keys, key ∈ c.hotCache) :
    (c.popLayers old keys).1 = .ok (old ++ keys.filterMap c.hotCache.get?) := by
  induction keys generalizing c old with
  | nil => simp [popLayers]
  | cons key keys ih =>
    obtain ⟨hnot, hnodup⟩ := List.nodup_cons.mp hnodup
    obtain ⟨i, hi⟩ := Dict.mem_iff_get?.mp (h key List.mem_cons_self)
    have hne : ∀ k ∈ keys, k ≠ key := fun k hk hkey => hnot (hkey ▸ hk)
    have hrest := ih hnodup (c := { c with hotCache := c.hotCache.erase key }) (old ++ [i])
      fun k hk => (Dict.mem_erase _ _ _).mpr ⟨hne k hk, h k (List.mem_cons_of_mem _ hk)⟩
    have hvals : keys.filterMap (c.hotCache.erase key).get? = keys.filterMap c.hotCache.get? := by
      refine List.filterMap_congr fun k hk => ?_
      rw [Dict.get?_erase, if_neg (hne k hk)]
    unfold popLayers
    rw [hi]
    dsimp only
    rw [hrest, hvals, List.filterMap_cons_some hi, List.append_assoc, List.singleton_append]

theorem popLayers_of_missing (old : List Nat) (h : ∃ key ∈ keys, key ∉ c.hotCache) :
    ∃ key, (c.popLayers old keys).1 = .error (.keyError key) := by
  induction keys generalizing c old with
  | nil => simp at h
  | cons key keys ih =>
    unfold popLayers
    cases hget : c.hotCache.get? key with
    | none => exact ⟨key, rfl⟩
    | some i =>
      obtain ⟨k, hk, hnot⟩ := h
      rcases List.mem_cons.mp hk with rfl | hk
      · exact absurd (Dict.mem_iff_get?.mpr ⟨i, hget⟩) hnot
      · exact ih _ ⟨k, hk, fun hmem => hnot ((Dict.mem_erase _ _ _).mp hmem).2⟩

/-- The round of `batched_allocate` on its one candidate. -/
theorem batchedAllocateRound_of_candidate (hkeys : c.evictKeys = [key]) (batchSize : Nat) :
    c.batchedAllocateRound batchSize = ⟨true, (evictAllLayers batchSize c [key]).1,
      (evictAllLayers batchSize c [key]).2⟩ := by
  unfold batchedAllocateRound
  rw [hkeys]

/-- What freeing the popped objects does, when each of them is an object of the pinned buffer. -/
theorem batchedFree_of_wellFormed {c : HotCache} (hc : c.WellFormed) {is : List Nat}
    (his : ∀ i ∈ is, i < c.memory.objs.length) :
    MixedMemoryAllocator.batchedFree c.memory is =
      if is = [] then .error (.indexError indexMessage) else .ok (c.memory.batchedFree is) := by
  cases is with
  | nil => rfl
  | cons i is =>
    obtain ⟨o, ho⟩ : ∃ o, c.memory.objs[i]? = some o :=
      ⟨_, List.getElem?_eq_getElem (his i List.mem_cons_self)⟩
    have hfmt : o.metadata.fmt ∈ MixedMemoryAllocator.pinFormats :=
      hc.formats _ (List.mem_map_of_mem (List.mem_of_getElem? ho))
    have hbuffer : o.metadata.fmt ≠ .BINARY_BUFFER := fun h => by
      rw [h] at hfmt
      revert hfmt
      decide
    have hformat : MixedMemoryAllocator.formatOf c.memory i = o.metadata.fmt := by
      rw [MixedMemoryAllocator.formatOf, ho]
      rfl
    simp only [MixedMemoryAllocator.batchedFree, hformat, if_neg hbuffer, if_pos hfmt]
    rw [if_neg (List.cons_ne_nil i is)]

/-- The objects of cached keys are objects of the pool. -/
theorem lt_of_mem_filterMap (hc : c.WellFormed) {i : Nat} (hi : i ∈ keys.filterMap c.hotCache.get?) :
    i < c.memory.objs.length := by
  obtain ⟨key, -, hget⟩ := List.mem_filterMap.mp hi
  exact hc.stored (key, i) (Dict.get?_eq_some.mp hget)

/-- The candidate's layers, as many as the batch is long, are all cached. -/
def LayersCached (c : HotCache) (batchSize : Nat) (key : CacheEngineKey) : Prop :=
  ∀ layer ∈ key.splitLayers batchSize, layer ∈ c.hotCache

/-- The objects of the layers. -/
def layerObjs (c : HotCache) (batchSize : Nat) (key : CacheEngineKey) : List Nat :=
  (key.splitLayers batchSize).filterMap c.hotCache.get?

theorem layerObjs_eq_nil_iff (hall : c.LayersCached batchSize key) :
    c.layerObjs batchSize key = [] ↔ batchSize = 0 := by
  constructor
  · intro h
    by_contra hpos
    have hmem : { key with layerId := some ((0 : Nat) : Int) } ∈ key.splitLayers batchSize := by
      rw [CacheEngineKey.splitLayers_eq]
      exact List.mem_map.mpr ⟨0, List.mem_range.mpr (Nat.pos_of_ne_zero hpos), rfl⟩
    obtain ⟨i, hi⟩ := Dict.mem_iff_get?.mp (hall _ hmem)
    have hin : i ∈ c.layerObjs batchSize key := List.mem_filterMap.mpr ⟨_, hmem, hi⟩
    rw [h] at hin
    cases hin
  · rintro rfl
    simp [layerObjs, CacheEngineKey.splitLayers_eq]

/-- With every layer cached and a batch that is not empty, the round frees their objects. -/
theorem evictAllLayers_of_cached (hc : c.WellFormed) (hpos : 0 < batchSize)
    (hall : c.LayersCached batchSize key) :
    (evictAllLayers batchSize c [key]).1 = none ∧ (evictAllLayers batchSize c [key]).2.memory =
      c.memory.batchedFree (c.layerObjs batchSize key) := by
  have hne : c.layerObjs batchSize key ≠ [] := fun h =>
    absurd ((layerObjs_eq_nil_iff hall).mp h) (Nat.ne_of_gt hpos)
  have hold := popLayers_of_cached (key.nodup_splitLayers batchSize) [] hall
  have hfree := @batchedFree_of_wellFormed c hc (c.layerObjs batchSize key)
    fun _ => lt_of_mem_filterMap hc
  obtain ⟨-, hmemory⟩ := kept_popLayers (key.splitLayers batchSize) c []
  rw [List.nil_append] at hold
  rw [if_neg hne] at hfree
  unfold evictAllLayers
  generalize c.popLayers [] (key.splitLayers batchSize) = r at hold hmemory
  obtain ⟨result, c'⟩ := r
  obtain rfl := hold
  change c'.memory = c.memory at hmemory
  simp only [hmemory]
  rw [layerObjs] at hfree ⊢
  rw [hfree]
  exact ⟨rfl, rfl⟩

/-- With an empty batch, or a layer that is not cached, the round raises and frees nothing. -/
theorem evictAllLayers_raises (h : ¬ (0 < batchSize ∧ c.LayersCached batchSize key)) :
    (evictAllLayers batchSize c [key]).1 ≠ none ∧
      (evictAllLayers batchSize c [key]).2.memory = c.memory := by
  obtain ⟨-, hmemory⟩ := kept_popLayers (key.splitLayers batchSize) c []
  have hresult : (∃ e, (c.popLayers [] (key.splitLayers batchSize)).1 = .error e) ∨
      (c.popLayers [] (key.splitLayers batchSize)).1 = .ok [] := by
    by_cases hall : c.LayersCached batchSize key
    · right
      have hzero : batchSize = 0 := by
        by_contra hne
        exact h ⟨Nat.pos_of_ne_zero hne, hall⟩
      rw [popLayers_of_cached (key.nodup_splitLayers batchSize) [] hall, List.nil_append]
      exact congrArg _ ((layerObjs_eq_nil_iff hall).mpr hzero)
    · left
      unfold LayersCached at hall
      push Not at hall
      obtain ⟨k, hk⟩ := popLayers_of_missing [] hall
      exact ⟨_, hk⟩
  unfold evictAllLayers
  generalize c.popLayers [] (key.splitLayers batchSize) = r at hresult hmemory
  obtain ⟨result, c'⟩ := r
  rcases hresult with ⟨e, rfl⟩ | rfl
  · exact ⟨by simp, hmemory⟩
  · exact ⟨by simp [MixedMemoryAllocator.batchedFree], hmemory⟩

/-- **A round of `batched_allocate` is safe exactly when every layer is there and unheld.** -/
theorem safe_batchedAllocateRound_iff (hc : c.WellFormed) (batchSize : Nat) :
    (c.eviction (c.batchedAllocateRound batchSize)).Safe ↔ c.LayersEvictable batchSize := by
  rcases c.evictKeys_cases with hnone | ⟨key, -, -, hkeys, -⟩
  · have hround : c.batchedAllocateRound batchSize = ⟨false, none, c⟩ := by
      unfold batchedAllocateRound
      rw [hnone]
    have hnil : (c.eviction ⟨false, none, c⟩).released = [] := ObjectPool.released_of_eq rfl
    rw [hround]
    unfold LayersEvictable
    rw [hnone]
    exact ⟨fun _ k hk => (nomatch hk), fun _ => ⟨rfl, fun j hj => by rw [hnil] at hj; cases hj⟩⟩
  · rw [batchedAllocateRound_of_candidate hkeys]
    unfold LayersEvictable
    rw [hkeys]
    simp only [List.mem_singleton, forall_eq]
    by_cases h : 0 < batchSize ∧ c.LayersCached batchSize key
    · obtain ⟨hnone, hmemory⟩ := evictAllLayers_of_cached hc h.1 h.2
      have hreleased : ∀ j, j ∈ (c.eviction ⟨true, (evictAllLayers batchSize c [key]).1,
          (evictAllLayers batchSize c [key]).2⟩).released ↔
          j ∈ c.layerObjs batchSize key ∧ ObjectPool.IsValid c.memory.objs j := fun j => by
        rw [← ObjectPool.mem_released_batchedFree, ← hmemory]
        rfl
      constructor
      · rintro ⟨-, hunheld⟩
        refine ⟨h.1, fun layer hlayer => ⟨h.2 layer hlayer, fun j hj o ho hv => ?_⟩⟩
        have hin : j ∈ c.layerObjs batchSize key := List.mem_filterMap.mpr ⟨layer, hlayer, hj⟩
        exact hunheld j ((hreleased j).mpr ⟨hin, o, ho, hv⟩) o ho
      · rintro ⟨-, hlayers⟩
        refine ⟨hnone, fun j hj o ho => ?_⟩
        obtain ⟨hin, o', ho', hv⟩ := (hreleased j).mp hj
        obtain ⟨layer, hlayer, hget⟩ := List.mem_filterMap.mp hin
        obtain rfl : o = o' := Option.mem_unique ho ho'
        exact (hlayers layer hlayer).2 j hget o ho hv
    · -- the round raises, and the condition asks for what is missing
      obtain ⟨hraised, -⟩ := evictAllLayers_raises h
      constructor
      · rintro ⟨hnone, -⟩
        exact absurd hnone hraised
      · rintro ⟨hpos, hlayers⟩
        exact absurd ⟨hpos, fun layer hlayer => (hlayers layer hlayer).1⟩ h

/-! ## The rounds keep the cache well formed -/

theorem kept_batchedRemove (keys : List CacheEngineKey) (c : HotCache) :
    Kept c (c.batchedRemove keys).2 := by
  induction keys generalizing c with
  | nil => exact .refl c
  | cons key keys ih => exact (kept_remove c key).trans (ih _)

theorem kept_allocateRound (c : HotCache) : Kept c c.allocateRound.after := by
  unfold allocateRound
  cases c.evictKeys with
  | nil => exact .refl c
  | cons key keys => exact kept_batchedRemove _ c

theorem kept_evictAllLayers (batchSize : Nat) (keys : List CacheEngineKey) (c : HotCache) :
    Kept c (evictAllLayers batchSize c keys).2 := by
  induction keys generalizing c with
  | nil => exact .refl c
  | cons key keys ih =>
    obtain ⟨hkept, -⟩ := kept_popLayers (key.splitLayers batchSize) c []
    unfold evictAllLayers
    generalize c.popLayers [] (key.splitLayers batchSize) = r at hkept
    obtain ⟨result, c'⟩ := r
    cases result with
    | error e => exact hkept
    | ok oldMemObjs =>
      dsimp only
      cases hfree : MixedMemoryAllocator.batchedFree c'.memory oldMemObjs with
      | error e => exact hkept
      | ok memory =>
        refine hkept.trans (Kept.trans (.of_memory ?_) (ih _))
        -- whichever allocator the first object names, no object changes its format
        cases oldMemObjs with
        | nil => cases hfree
        | cons i is =>
          simp only [MixedMemoryAllocator.batchedFree] at hfree
          split at hfree
          · cases hfree
            rfl
          · split at hfree
            · cases hfree
              exact ObjectPool.formats_batchedFree _ _
            · cases hfree

theorem kept_batchedAllocateRound (c : HotCache) (batchSize : Nat) :
    Kept c (c.batchedAllocateRound batchSize).after := by
  unfold batchedAllocateRound
  cases c.evictKeys with
  | nil => exact .refl c
  | cons key keys => exact kept_evictAllLayers batchSize _ c

end HotCache

/-! ## The calls and their interleavings -/

/-- The arguments of `allocate` (`batchSize = none`) or `batched_allocate`. -/
structure AllocateCall where
  shapes : OneOrList TorchSize
  dtypes : OneOrList TorchDtype
  batchSize : Option Nat
  fmt : Option MemoryFormat
  eviction : Bool
  busyLoop : Bool
  deriving DecidableEq, Repr

/-- Where a thread is. -/
inductive AllocatePc where
  | idle
  /-- At the top of the loop: the round under the lock comes next. -/
  | evicting (call : AllocateCall)
  /-- Behind the round, perhaps after a sleep: the allocator is tried again. -/
  | retrying (call : AllocateCall)
  deriving DecidableEq, Repr

/-- The CPU backend over a `MixedMemoryAllocator`, the threads inside its allocation calls and, for the
statements only, the rounds so far. -/
structure AllocatingBackend where
  layerwise : Bool
  enableBlending : Bool
  useHot : Bool
  cache : HotCache
  threads : List AllocatePc
  evictions : List Eviction

inductive AllocatingAction where
  /-- An idle thread enters `allocate` or `batched_allocate`. -/
  | allocate (t : Nat) (call : AllocateCall)
  /-- A thread inside one goes on. -/
  | advance (t : Nat)
  /-- Another call of the backend. -/
  | cache (call : HotCache.CacheCall)
  /-- A holder of an object takes or drops a reference or a pin. -/
  | object (memoryObj : Nat) (call : ObjectCall)
  deriving DecidableEq, Repr

/-- What a holder does to an object of the pool. -/
def ObjectCall.onPool (call : ObjectCall) (s : ObjectPool) (i : Nat) : ObjectPool :=
  match call with
  | .refCountUp => s.updateObj i TensorMemoryObj.refCountUp
  | .refCountDown => s.refCountDown i
  | .pin => s.updateObj i TensorMemoryObj.pin
  | .unpin => s.unpin i

namespace AllocatingBackend

/-- A backend nothing was called on. -/
def init (layerwise enableBlending useHot : Bool) (numel threads : Nat) : AllocatingBackend where
  layerwise := layerwise
  enableBlending := enableBlending
  useHot := useHot
  cache := .init numel
  threads := .replicate threads .idle
  evictions := []

def moveTo (b : AllocatingBackend) (t : Nat) (pc : AllocatePc) : AllocatingBackend :=
  { b with threads := b.threads.set t pc }

/-- The format of the call, or the one for the way the engine stores its caches. -/
def formatFor (b : AllocatingBackend) : Option MemoryFormat → MemoryFormat
  | some fmt => fmt
  | none => if b.layerwise then (if b.enableBlending then .KV_2TD else .KV_T2D) else .KV_2LTD

/-- The allocator is asked: the number of objects it hands out, or `None`. -/
def tryAllocate (b : AllocatingBackend) (call : AllocateCall) :
    Except PyError (Option Nat) × ObjectPool :=
  match call.batchSize with
  | none => MixedMemoryAllocator.allocate b.cache.memory call.shapes call.dtypes
      (b.formatFor call.fmt)
  | some batchSize => MixedMemoryAllocator.batchedAllocate b.cache.memory call.shapes call.dtypes
      batchSize (b.formatFor call.fmt)

def setMemory (b : AllocatingBackend) (memory : ObjectPool) : AllocatingBackend :=
  { b with cache := { b.cache with memory := memory } }

/-- The call up to its loop: it ends here with what the allocator gave or raised, or with `None` when
it must not evict. -/
def enter (b : AllocatingBackend) (t : Nat) (call : AllocateCall) : AllocatingBackend :=
  match b.tryAllocate call with
  | (.ok none, memory) =>
    if call.eviction then (b.setMemory memory).moveTo t (.evicting call) else b.setMemory memory
  | (_, memory) => b.setMemory memory

/-- The round of the loop, by the kind of call. -/
def roundOf (b : AllocatingBackend) (call : AllocateCall) : HotCache.Round :=
  match call.batchSize with
  | none => b.cache.allocateRound
  | some batchSize => b.cache.batchedAllocateRound batchSize

/-- One round.  The call ends when the round raises, and when nothing could be evicted and it is not
to wait for others. -/
def evict (b : AllocatingBackend) (t : Nat) (call : AllocateCall) : AllocatingBackend :=
  if b.useHot then
    let r := b.roundOf call
    let b' := { b with cache := r.after, evictions := b.evictions ++ [b.cache.eviction r] }
    if r.raised ≠ none then b'.moveTo t .idle
    else if !r.found && !call.busyLoop then b'.moveTo t .idle
    else b'.moveTo t (.retrying call)
  else if call.busyLoop then b.moveTo t (.retrying call)
  else b.moveTo t .idle

/-- The end of the loop body.  `batched_allocate` goes on with an empty list as with `None`. -/
def retry (b : AllocatingBackend) (t : Nat) (call : AllocateCall) : AllocatingBackend :=
  match b.tryAllocate call with
  | (.error _, memory) => (b.setMemory memory).moveTo t .idle
  | (.ok none, memory) => (b.setMemory memory).moveTo t (.evicting call)
  | (.ok (some n), memory) =>
    if call.batchSize = none ∨ n ≠ 0 then (b.setMemory memory).moveTo t .idle
    else (b.setMemory memory).moveTo t (.evicting call)

def step (b : AllocatingBackend) : AllocatingAction → AllocatingBackend
  | .allocate t call => if b.threads[t]? = some .idle then b.enter t call else b
  | .advance t =>
    match b.threads[t]? with
    | some (.evicting call) => b.evict t call
    | some (.retrying call) => b.retry t call
    | _ => b
  | .cache call => { b with cache := b.cache.call call }
  | .object i call => b.setMemory (call.onPool b.cache.memory i)

/-! ## Every run -/

/-- Every round so far was safe. -/
def EvictionsSafe (b : AllocatingBackend) : Prop := ∀ e ∈ b.evictions, e.Safe

/-- The condition on a thread that goes on: the round of `batched_allocate` finds every layer of its
candidate cached and unheld. -/
def PcAllowed (b : AllocatingBackend) : AllocatePc → Prop
  | .evicting call => b.useHot = true → ∀ n ∈ call.batchSize, b.cache.LayersEvictable n
  | _ => True

def Allowed (b : AllocatingBackend) : AllocatingAction → Prop
  | .advance t => ∀ pc ∈ b.threads[t]?, b.PcAllowed pc
  | _ => True

instance (b : AllocatingBackend) : Decidable b.EvictionsSafe :=
  inferInstanceAs (Decidable (∀ e ∈ b.evictions, e.Safe))

section Frame

variable (b : AllocatingBackend) (t : Nat) (call : AllocateCall)

/-- Up to its loop a call only asks the allocator. -/
theorem enter_spec : (b.enter t call).evictions = b.evictions ∧
    (b.enter t call).cache = { b.cache with memory := (b.tryAllocate call).2 } := by
  unfold enter
  rcases b.tryAllocate call with ⟨_ | _ | n, memory⟩
  · exact ⟨rfl, rfl⟩
  · dsimp only
    split <;> exact ⟨rfl, rfl⟩
  · exact ⟨rfl, rfl⟩

/-- Behind its round a call only asks the allocator. -/
theorem retry_spec : (b.retry t call).evictions = b.evictions ∧
    (b.retry t call).cache = { b.cache with memory := (b.tryAllocate call).2 } := by
  unfold retry
  rcases b.tryAllocate call with ⟨_ | _ | n, memory⟩
  · exact ⟨rfl, rfl⟩
  · exact ⟨rfl, rfl⟩
  · dsimp only
    split <;> exact ⟨rfl, rfl⟩

/-- The round itself, when there is a cache to evict from. -/
theorem evict_of_useHot (h : b.useHot = true) :
    (b.evict t call).evictions = b.evictions ++ [b.cache.eviction (b.roundOf call)] ∧
      (b.evict t call).cache = (b.roundOf call).after := by
  unfold evict
  rw [if_pos h]
  dsimp only
  split
  · exact ⟨rfl, rfl⟩
  · split <;> exact ⟨rfl, rfl⟩

theorem evict_of_not_useHot (h : b.useHot ≠ true) :
    (b.evict t call).evictions = b.evictions ∧ (b.evict t call).cache = b.cache := by
  unfold evict
  rw [if_neg h]
  split <;> exact ⟨rfl, rfl⟩

end Frame

/-! ### The cache stays well formed -/

theorem wellFormed_setMemory {c : HotCache} (hc : c.WellFormed) {memory : ObjectPool}
    (h : MixedMemoryAllocator.Adds c.memory memory) :
    HotCache.WellFormed { c with memory := memory } := by
  obtain ⟨os, hobjs, hfmt⟩ := h.objs
  refine ⟨fun e he => ?_, fun fmt h => ?_⟩
  · have hlt := hc.stored e he
    show e.2 < memory.objs.length
    rw [hobjs, List.length_append]
    omega
  · change fmt ∈ memory.objs.map _ at h
    rw [hobjs, List.map_append, List.mem_append] at h
    rcases h with h | h
    · exact hc.formats fmt h
    · obtain ⟨o, ho, rfl⟩ := List.mem_map.mp h
      exact hfmt o ho

theorem adds_tryAllocate (b : AllocatingBackend) (call : AllocateCall) :
    MixedMemoryAllocator.Adds b.cache.memory (b.tryAllocate call).2 := by
  unfold tryAllocate
  cases call.batchSize with
  | none => exact MixedMemoryAllocator.adds_allocate _ _ _ _
  | some n => exact MixedMemoryAllocator.adds_batchedAllocate _ _ _ _ _

theorem wellFormed_roundOf {b : AllocatingBackend} (hb : b.cache.WellFormed)
    (call : AllocateCall) : (b.roundOf call).after.WellFormed := by
  unfold roundOf
  cases call.batchSize with
  | none => exact (HotCache.kept_allocateRound _).wellFormed hb
  | some n => exact (HotCache.kept_batchedAllocateRound _ n).wellFormed hb

theorem formats_onPool (call : ObjectCall) (s : ObjectPool) (i : Nat) :
    (call.onPool s i).formats = s.formats := by
  cases call with
  | refCountUp => exact s.formats_updateObj i fun _ => rfl
  | refCountDown => exact s.formats_refCountDown i
  | pin => exact s.formats_updateObj i fun _ => rfl
  | unpin => exact s.formats_unpin i

/-- **Step lemma.** -/
theorem wellFormed_step (b : AllocatingBackend) (a : AllocatingAction) (hb : b.cache.WellFormed) :
    (b.step a).cache.WellFormed := by
  cases a with
  | allocate t call =>
    simp only [step]
    split
    · rw [(b.enter_spec t call).2]
      exact wellFormed_setMemory hb (b.adds_tryAllocate call)
    · exact hb
  | advance t =>
    simp only [step]
    split
    · rename_i call _
      by_cases h : b.useHot = true
      · rw [(b.evict_of_useHot t call h).2]
        exact wellFormed_roundOf hb call
      · rw [(b.evict_of_not_useHot t call h).2]
        exact hb
    · rename_i call _
      rw [(b.retry_spec t call).2]
      exact wellFormed_setMemory hb (b.adds_tryAllocate call)
    · exact hb
  | cache call => exact (HotCache.kept_call b.cache call).wellFormed hb
  | object i call =>
    exact (HotCache.Kept.of_memory (formats_onPool call b.cache.memory i)).wellFormed hb

/-! ### When every round is safe -/

theorem evictionsSafe_of_evictions_eq {b b' : AllocatingBackend} (h : b'.evictions = b.evictions) :
    b'.EvictionsSafe ↔ b.EvictionsSafe := by
  unfold EvictionsSafe
  rw [h]

/-- The round of a call is safe exactly when the call is `allocate`, or the layers can go. -/
theorem safe_roundOf_iff {b : AllocatingBackend} (hb : b.cache.WellFormed) (call : AllocateCall) :
    (b.cache.eviction (b.roundOf call)).Safe ↔ ∀ n ∈ call.batchSize, b.cache.LayersEvictable n := by
  unfold roundOf
  cases call.batchSize with
  | none => exact ⟨fun _ n hn => (nomatch hn), fun _ => b.cache.safe_allocateRound⟩
  | some n =>
    dsimp only
    rw [HotCache.safe_batchedAllocateRound_iff hb n]
    exact ⟨fun h m hm => by cases hm; exact h, fun h => h n rfl⟩

/-- **Step lemma.** -/
theorem evictionsSafe_step_iff {b : AllocatingBackend} (hb : b.cache.WellFormed)
    (hsafe : b.EvictionsSafe) (a : AllocatingAction) : (b.step a).EvictionsSafe ↔ b.Allowed a := by
  have hsame {b' : AllocatingBackend} (h : b'.evictions = b.evictions) :
      b'.EvictionsSafe ↔ True := by
    rw [evictionsSafe_of_evictions_eq h]
    exact iff_true_intro hsafe
  cases a with
  | allocate t call =>
    refine hsame ?_
    simp only [step]
    split
    · exact (b.enter_spec t call).1
    · rfl
  | advance t =>
    simp only [step, Allowed]
    cases hpc : b.threads[t]? with
    | none => simpa using hsafe
    | some pc =>
      simp only [Option.mem_def, Option.some.injEq, forall_eq']
      cases pc with
      | idle => exact hsame rfl
      | retrying call => exact hsame (b.retry_spec t call).1
      | evicting call =>
        simp only [PcAllowed]
        by_cases h : b.useHot = true
        · -- the round is the only thing the step adds to the history
          rw [← safe_roundOf_iff hb call, EvictionsSafe, (b.evict_of_useHot t call h).1]
          simp only [List.mem_append, List.mem_singleton]
          exact ⟨fun hall _ => hall _ (.inr rfl), fun hround e he => by
            rcases he with he | rfl
            · exact hsafe e he
            · exact hround h⟩
        · rw [hsame (b.evict_of_not_useHot t call h).1]
          exact ⟨fun _ h' => absurd h' h, fun _ => trivial⟩
  | cache call => exact hsame rfl
  | object i call => exact hsame rfl

/-- **Eviction safety, exactly.**  Whatever calls and holders interleave, every round of every
allocation raises nothing and gives back nothing that is pinned or held outside the cache, exactly
when each round of a `batched_allocate` finds all layers of its candidate cached and unheld.  The
rounds of `allocate` need no condition. -/
theorem evictionsSafe_iff_guarded (layerwise enableBlending useHot : Bool) (numel threads : Nat)
    (actions : List AllocatingAction) :
    Always step EvictionsSafe (init layerwise enableBlending useHot numel threads) actions ↔
      Guarded step Allowed (init layerwise enableBlending useHot numel threads) actions :=
  always_iff_guarded_of_inv (fun b a hb => wellFormed_step b a hb)
    (fun _ a hb hsafe => evictionsSafe_step_iff hb hsafe a) (HotCache.wellFormed_init numel)
    fun _ h => (nomatch h)

/-! ### Two ways to go wrong -/

/-- A layer of a chunk. -/
def layerKey (chunkHash layerId : Int) : CacheEngineKey :=
  ⟨"m", 1, 0, chunkHash, .float16, none, some layerId⟩

/-- One layer's worth of pinned buffer for each of two layers. -/
def twoLayers : AllocateCall := ⟨.one [4096], .one .uint8, some 2, some .KV_T2D, true, false⟩

/-- Two layers are allocated and stored, and their first holder lets them go. -/
def storeTwoLayers : List AllocatingAction :=
  [.allocate 0 twoLayers, .cache (.submitPutTask (layerKey 7 0) 0),
    .cache (.submitPutTask (layerKey 7 1) 1), .object 0 .refCountDown, .object 1 .refCountDown]

/-- A retrieve holds the second layer, or the second layer was removed: the next batch frees what is
held, or raises. -/
theorem not_evictionsSafe :
    ¬ (Always step EvictionsSafe (init true false true 8192 1) (storeTwoLayers ++
        [.cache (.getBlocking (layerKey 7 1)), .allocate 0 twoLayers, .advance 0])) ∧
      ¬ (Always step EvictionsSafe (init true false true 8192 1) (storeTwoLayers ++
        [.cache (.remove (layerKey 7 1)), .allocate 0 twoLayers, .advance 0])) := by
  decide +kernel

end AllocatingBackend

end LMCache.Storage
