/-
# LMCache.Storage.HotCache — the CPU cache over its memory, one locked section at a time.

Source: `v1/storage_backend/local_cpu_backend.py` and `v1/storage_backend/cache_policy/lru.py`.

`hot_cache` is an `OrderedDict`: its order is the recency order of the policy, with the key to evict
first in front.  A put appends, a touch moves to the end, nothing else changes the order.  Each method
runs under `cpu_lock` from its first look at `hot_cache` to its last change, so that one call is one
step here; what goes to the controller, and where the lock is given up before that is sent, is the
subject of `LMCache.Storage.LocalCPUBackend`.  The times that the policy keeps for its statistics are
left out.
-/
import LMCache.Lib.Dict
import LMCache.CacheEngineKey
import LMCache.Memory.MixedAllocator

namespace LMCache.Storage

open LMCache.Lib LMCache.Memory

/-! ## The policy -/

namespace LRUCachePolicy

universe u v

variable {κ : Type u} {ν : Type v}

/-- `update_on_hit`; `move_to_end` raises `KeyError` when the key is gone. -/
def updateOnHit [DecidableEq κ] (key : κ) (cacheDict : Dict κ ν) : Option (Dict κ ν) :=
  if key ∈ cacheDict then some (cacheDict.moveToEnd key) else none

/-- The loop of `get_evict_candidates`. -/
def candidatesFrom (canEvict : ν → Bool) (numCandidates : Nat) : List (κ × ν) → List κ → List κ
  | [], evictKeys => evictKeys
  | (key, cache) :: items, evictKeys =>
    if !canEvict cache then candidatesFrom canEvict numCandidates items evictKeys
    else if (evictKeys ++ [key]).length = numCandidates then evictKeys ++ [key]
    else candidatesFrom canEvict numCandidates items (evictKeys ++ [key])

def getEvictCandidates (canEvict : ν → Bool) (cacheDict : Dict κ ν) (numCandidates : Nat) :
    List κ := candidatesFrom canEvict numCandidates cacheDict.entries []

/-- One candidate is the first entry that may be evicted. -/
theorem getEvictCandidates_one (canEvict : ν → Bool) (cacheDict : Dict κ ν) :
    getEvictCandidates canEvict cacheDict 1 =
      ((cacheDict.entries.find? fun e => canEvict e.2).map Prod.fst).toList := by
  unfold getEvictCandidates
  induction cacheDict.entries with
  | nil => rfl
  | cons e items ih =>
    obtain ⟨key, cache⟩ := e
    unfold candidatesFrom
    cases h : canEvict cache with
    | false => simpa [h] using ih
    | true => simp [h]

end LRUCachePolicy

/-! ## The cache -/

/-- What the methods raise: the `KeyError` of a dictionary, with the key, or another exception. -/
inductive CacheError where
  | keyError (key : CacheEngineKey)
  | other (e : PyError)
  deriving DecidableEq, Repr

structure HotCache where
  /-- Keys and the objects stored under them, by their place in `memory`. -/
  hotCache : Dict CacheEngineKey Nat
  keysInRequest : List CacheEngineKey
  memory : ObjectPool

namespace HotCache

/-- An empty cache over a fresh pinned buffer. -/
def init (numel : Nat) : HotCache := ⟨.empty, [], .init (.init numel)⟩

/-- `contains`; a pin is taken and remembered for `touch_cache`. -/
def contains (c : HotCache) (key : CacheEngineKey) (pin : Bool := false) : Bool × HotCache :=
  match c.hotCache.get? key with
  | none => (false, c)
  | some i =>
    if pin then
      (true, { c with
        memory := c.memory.updateObj i TensorMemoryObj.pin
        keysInRequest := c.keysInRequest ++ [key] })
    else (true, c)

/-- The loop of `touch_cache`: what was moved before a `KeyError` stays moved. -/
def touchKeys (d : Dict CacheEngineKey Nat) :
    List CacheEngineKey → Option CacheError × Dict CacheEngineKey Nat
  | [] => (none, d)
  | key :: keys =>
    match LRUCachePolicy.updateOnHit key d with
    | none => (some (.keyError key), d)
    | some d => touchKeys d keys

/-- `touch_cache`: the keys of the request in reverse, so that its first key ends up last. -/
def touchCache (c : HotCache) : Option CacheError × HotCache :=
  match touchKeys c.hotCache c.keysInRequest.reverse with
  | (none, d) => (none, { c with hotCache := d, keysInRequest := [] })
  | (some e, d) => (some e, { c with hotCache := d })

def submitPutTask (c : HotCache) (key : CacheEngineKey) (memoryObj : Nat) : HotCache :=
  if key ∈ c.hotCache then c
  else
    { c with
      hotCache := c.hotCache.set key memoryObj
      memory := c.memory.updateObj memoryObj TensorMemoryObj.refCountUp }

def getBlocking (c : HotCache) (key : CacheEngineKey) : Option Nat × HotCache :=
  match c.hotCache.get? key with
  | none => (none, c)
  | some i => (some i, { c with memory := c.memory.updateObj i TensorMemoryObj.refCountUp })

/-- `batched_get_non_blocking`: a missing key raises, the references taken before it stay taken. -/
def batchedGetNonBlocking (c : HotCache) :
    List CacheEngineKey → Except CacheError (List Nat) × HotCache
  | [] => (.ok [], c)
  | key :: keys =>
    match c.hotCache.get? key with
    | none => (.error (.keyError key), c)
    | some i =>
      let r := batchedGetNonBlocking
        { c with memory := c.memory.updateObj i TensorMemoryObj.refCountUp } keys
      (r.1.map fun objs => i :: objs, r.2)

/-- `batched_async_contains`. -/
def batchedAsyncContains (c : HotCache) (pin : Bool) : List CacheEngineKey → Nat × HotCache
  | [] => (0, c)
  | key :: keys =>
    match c.contains key pin with
    | (false, c) => (0, c)
    | (true, c) => ((batchedAsyncContains c pin keys).1 + 1, (batchedAsyncContains c pin keys).2)

def pin (c : HotCache) (key : CacheEngineKey) : Bool × HotCache :=
  match c.hotCache.get? key with
  | none => (false, c)
  | some i => (true, { c with memory := c.memory.updateObj i TensorMemoryObj.pin })

def unpin (c : HotCache) (key : CacheEngineKey) : Bool × HotCache :=
  match c.hotCache.get? key with
  | none => (false, c)
  | some i => (true, { c with memory := c.memory.unpin i })

/-- `remove`, forced or not: the policy keeps no state that `update_on_force_evict` would change. -/
def remove (c : HotCache) (key : CacheEngineKey) : Bool × HotCache :=
  match c.hotCache.get? key with
  | none => (false, c)
  | some i => (true, { c with hotCache := c.hotCache.erase key, memory := c.memory.refCountDown i })

/-- `batched_remove`: the number of keys removed. -/
def batchedRemove (c : HotCache) : List CacheEngineKey → Nat × HotCache
  | [] => (0, c)
  | key :: keys =>
    let r := c.remove key
    ((if r.1 then 1 else 0) + (batchedRemove r.2 keys).1, (batchedRemove r.2 keys).2)

/-- A call of another thread between the rounds of an allocation. -/
inductive CacheCall where
  | contains (key : CacheEngineKey) (pin : Bool)
  | touchCache
  | submitPutTask (key : CacheEngineKey) (memoryObj : Nat)
  | getBlocking (key : CacheEngineKey)
  | batchedGetNonBlocking (keys : List CacheEngineKey)
  | batchedAsyncContains (keys : List CacheEngineKey) (pin : Bool)
  | pin (key : CacheEngineKey)
  | unpin (key : CacheEngineKey)
  | remove (key : CacheEngineKey)
  deriving DecidableEq, Repr

/-- The cache a call leaves; only an object that exists can be put. -/
def call (c : HotCache) : CacheCall → HotCache
  | .contains key pin => (c.contains key pin).2
  | .touchCache => c.touchCache.2
  | .submitPutTask key memoryObj =>
    if memoryObj < c.memory.objs.length then c.submitPutTask key memoryObj else c
  | .getBlocking key => (c.getBlocking key).2
  | .batchedGetNonBlocking keys => (c.batchedGetNonBlocking keys).2
  | .batchedAsyncContains keys pin => (c.batchedAsyncContains pin keys).2
  | .pin key => (c.pin key).2
  | .unpin key => (c.unpin key).2
  | .remove key => (c.remove key).2

/-! ## The rounds of the allocation loops -/

/-- `can_evict` of a cached object. -/
def canEvict (c : HotCache) (memoryObj : Nat) : Bool :=
  (c.memory.objs[memoryObj]?.map TensorMemoryObj.canEvict).getD false

/-- `self.cache_policy.get_evict_candidates(self.hot_cache, num_candidates=1)`. -/
def evictKeys (c : HotCache) : List CacheEngineKey :=
  LRUCachePolicy.getEvictCandidates c.canEvict c.hotCache 1

/-- What a round does: whether it found a candidate, what it raised, and the cache it leaves. -/
structure Round where
  found : Bool
  raised : Option CacheError
  after : HotCache

/-- The locked part of the loop of `allocate`. -/
def allocateRound (c : HotCache) : Round :=
  match c.evictKeys with
  | [] => ⟨false, none, c⟩
  | key :: keys => ⟨true, none, (c.batchedRemove (key :: keys)).2⟩

/-- The inner loop of `batched_allocate`: the objects of the layers, which are popped on the way. -/
def popLayers (c : HotCache) (oldMemObjs : List Nat) :
    List CacheEngineKey → Except CacheError (List Nat) × HotCache
  | [] => (.ok oldMemObjs, c)
  | key :: keys =>
    match c.hotCache.get? key with
    | none => (.error (.keyError key), c)
    | some i => popLayers { c with hotCache := c.hotCache.erase key } (oldMemObjs ++ [i]) keys

/-- The outer loop of `batched_allocate`, over the candidates. -/
def evictAllLayers (batchSize : Nat) (c : HotCache) :
    List CacheEngineKey → Option CacheError × HotCache
  | [] => (none, c)
  | evictKey :: evictKeys =>
    match c.popLayers [] (evictKey.splitLayers batchSize) with
    | (.error e, c) => (some e, c)
    | (.ok oldMemObjs, c) =>
      match MixedMemoryAllocator.batchedFree c.memory oldMemObjs with
      | .error e => (some (.other e), c)
      | .ok memory => evictAllLayers batchSize { c with memory := memory } evictKeys

/-- The locked part of the loop of `batched_allocate`. -/
def batchedAllocateRound (c : HotCache) (batchSize : Nat) : Round :=
  match c.evictKeys with
  | [] => ⟨false, none, c⟩
  | key :: keys =>
    ⟨true, (evictAllLayers batchSize c (key :: keys)).1,
      (evictAllLayers batchSize c (key :: keys)).2⟩

/-! ## Every key has its object, in the pinned buffer -/

structure WellFormed (c : HotCache) : Prop where
  stored : ∀ e ∈ c.hotCache.entries, e.2 < c.memory.objs.length
  formats : ∀ fmt ∈ c.memory.formats, fmt ∈ MixedMemoryAllocator.pinFormats

/-- What every step that hands out no object keeps: a key is stored only with an object there is, and
no object changes its format. -/
structure Kept (c c' : HotCache) : Prop where
  entries : ∀ e ∈ c'.hotCache.entries, e ∈ c.hotCache.entries ∨ e.2 < c.memory.objs.length
  formats : c'.memory.formats = c.memory.formats

theorem wellFormed_init (numel : Nat) : (init numel).WellFormed where
  stored := fun _ h => (nomatch h)
  formats := fun _ h => (nomatch h)

namespace Kept

variable {c c' c'' : HotCache}

theorem length (h : Kept c c') : c'.memory.objs.length = c.memory.objs.length := by
  rw [← ObjectPool.length_formats, h.formats, ObjectPool.length_formats]

theorem refl (c : HotCache) : Kept c c := ⟨fun _ he => .inl he, rfl⟩

theorem trans (h : Kept c c') (h' : Kept c' c'') : Kept c c'' where
  entries := fun e he => by
    rcases h'.entries e he with he | hlt
    · exact h.entries e he
    · exact .inr (h.length ▸ hlt)
  formats := h'.formats.trans h.formats

/-- A step that changes counters only. -/
theorem of_memory {memory : ObjectPool} {keys : List CacheEngineKey}
    (h : memory.formats = c.memory.formats) : Kept c ⟨c.hotCache, keys, memory⟩ :=
  ⟨fun _ he => .inl he, h⟩

theorem wellFormed (h : Kept c c') (hc : c.WellFormed) : c'.WellFormed where
  stored := fun e he => by
    rw [h.length]
    rcases h.entries e he with he | hlt
    · exact hc.stored e he
    · exact hlt
  formats := by
    rw [h.formats]
    exact hc.formats

end Kept

theorem kept_pinned (c : HotCache) (i : Nat) (keys : List CacheEngineKey) :
    Kept c ⟨c.hotCache, keys, c.memory.updateObj i TensorMemoryObj.pin⟩ :=
  .of_memory (c.memory.formats_updateObj i fun _ => rfl)

theorem kept_referenced (c : HotCache) (i : Nat) (keys : List CacheEngineKey) :
    Kept c ⟨c.hotCache, keys, c.memory.updateObj i TensorMemoryObj.refCountUp⟩ :=
  .of_memory (c.memory.formats_updateObj i fun _ => rfl)

theorem kept_contains (c : HotCache) (key : CacheEngineKey) (pin : Bool) :
    Kept c (c.contains key pin).2 := by
  unfold contains
  cases c.hotCache.get? key with
  | none => exact .refl c
  | some i =>
    cases pin with
    | false => exact .refl c
    | true => exact kept_pinned c i _

theorem mem_entries_touchKeys (keys : List CacheEngineKey) (d : Dict CacheEngineKey Nat)
    {e : CacheEngineKey × Nat} : e ∈ (touchKeys d keys).2.entries ↔ e ∈ d.entries := by
  induction keys generalizing d with
  | nil => rfl
  | cons key keys ih =>
    unfold touchKeys LRUCachePolicy.updateOnHit
    split
    · rfl
    · rename_i d' hd
      split at hd
      · cases hd
        rw [ih, Dict.mem_entries_moveToEnd]
      · cases hd

/-- A touch changes the recency order and nothing else. -/
theorem touchCache_spec (c : HotCache) :
    c.touchCache.2.memory = c.memory ∧
      ∀ e, e ∈ c.touchCache.2.hotCache.entries ↔ e ∈ c.hotCache.entries := by
  have hmem : ∀ e, e ∈ (touchKeys c.hotCache c.keysInRequest.reverse).2.entries ↔
      e ∈ c.hotCache.entries := fun _ => mem_entries_touchKeys _ _
  unfold touchCache
  generalize touchKeys c.hotCache c.keysInRequest.reverse = r at hmem
  obtain ⟨raised, d⟩ := r
  cases raised with
  | none => exact ⟨rfl, hmem⟩
  | some e => exact ⟨rfl, hmem⟩

theorem kept_submitPutTask (c : HotCache) (key : CacheEngineKey) {i : Nat}
    (hi : i < c.memory.objs.length) : Kept c (c.submitPutTask key i) := by
  unfold submitPutTask
  split
  · exact .refl c
  · rename_i hnot
    refine ⟨fun e he => ?_, c.memory.formats_updateObj i fun _ => rfl⟩
    rw [Dict.entries_set_of_notMem hnot] at he
    rcases List.mem_append.mp he with he | he
    · exact .inl he
    · exact .inr (List.mem_singleton.mp he ▸ hi)

theorem kept_batchedGetNonBlocking (keys : List CacheEngineKey) (c : HotCache) :
    Kept c (c.batchedGetNonBlocking keys).2 := by
  induction keys generalizing c with
  | nil => exact .refl c
  | cons key keys ih =>
    unfold batchedGetNonBlocking
    cases c.hotCache.get? key with
    | none => exact .refl c
    | some i => exact (kept_referenced c i _).trans (ih _)

theorem kept_batchedAsyncContains (pin : Bool) (keys : List CacheEngineKey) (c : HotCache) :
    Kept c (c.batchedAsyncContains pin keys).2 := by
  induction keys generalizing c with
  | nil => exact .refl c
  | cons key keys ih =>
    have hkept := kept_contains c key pin
    unfold batchedAsyncContains
    generalize c.contains key pin = r at hkept
    obtain ⟨found, c'⟩ := r
    cases found with
    | false => exact hkept
    | true => exact hkept.trans (ih c')

theorem kept_remove (c : HotCache) (key : CacheEngineKey) : Kept c (c.remove key).2 := by
  unfold remove
  cases c.hotCache.get? key with
  | none => exact .refl c
  | some i =>
    exact ⟨fun e he => .inl (Dict.mem_entries_of_erase he), c.memory.formats_refCountDown i⟩

/-- **Step lemma** for the calls between the rounds. -/
theorem kept_call (c : HotCache) (a : CacheCall) : Kept c (c.call a) := by
  cases a with
  | contains key pin => exact kept_contains c key pin
  | touchCache =>
    obtain ⟨hmemory, hentries⟩ := touchCache_spec c
    exact ⟨fun e he => .inl ((hentries e).mp he), congrArg _ hmemory⟩
  | submitPutTask key i =>
    simp only [call]
    split
    · rename_i hi
      exact kept_submitPutTask c key hi
    · exact .refl c
  | getBlocking key =>
    show Kept c (c.getBlocking key).2
    unfold getBlocking
    cases c.hotCache.get? key with
    | none => exact .refl c
    | some i => exact kept_referenced c i _
  | batchedGetNonBlocking keys => exact kept_batchedGetNonBlocking keys c
  | batchedAsyncContains keys pin => exact kept_batchedAsyncContains pin keys c
  | pin key =>
    show Kept c (c.pin key).2
    unfold HotCache.pin
    cases c.hotCache.get? key with
    | none => exact .refl c
    | some i => exact kept_pinned c i _
  | unpin key =>
    show Kept c (c.unpin key).2
    unfold unpin
    cases c.hotCache.get? key with
    | none => exact .refl c
    | some i => exact .of_memory (c.memory.formats_unpin i)
  | remove key => exact kept_remove c key

end HotCache

end LMCache.Storage
