/-
# LMCache.Storage.PrefixClosed — do prefixes outlive their suffixes in the CPU cache?

Source: `v1/storage_backend/local_cpu_backend.py`, `v1/storage_backend/cache_policy/lru.py`; the
guarantee is the one a comment in `v1/cache_controller/controllers/kv_controller.py` asks for.

A lookup walks the chunks of a token sequence from the front and stops at the first miss, so a cached
chunk is of use only while the chunks before it are cached too.  A touch keeps the chunks of a request
in an order in which the last one is evicted first.  A store does not: it puts the chunks front first,
and until a touch the policy evicts them in that order.

A token sequence enters here through its chunks: a chunk is its key together with the keys of the
chunks before it.  The puts of a store, and those of a retrieve that brings chunks back from another
tier, are single steps, so that other threads may come between them.
-/
import LMCache.Storage.CpuAllocate

namespace LMCache.Storage

open LMCache.Lib LMCache.Memory

/-! ## Chunks and runs -/

/-- A chunk of a token sequence: its key, behind the keys of the chunks before it. -/
structure SequenceChunk where
  earlier : List CacheEngineKey
  key : CacheEngineKey
  deriving DecidableEq, Repr

/-- If the chunk is cached, and it and all chunks before it were stored, those are cached too. -/
def SequenceChunk.ClosedAt (hot stored : CacheEngineKey → Prop) (c : SequenceChunk) : Prop :=
  (∀ key ∈ c.earlier, stored key) → hot c.key → ∀ key ∈ c.earlier, hot key

instance (hot stored : CacheEngineKey → Prop) [DecidablePred hot] [DecidablePred stored]
    (c : SequenceChunk) : Decidable (c.ClosedAt hot stored) := inferInstanceAs (Decidable (_ → _))

/-- The calls that read the cache: lookups, touches, retrieves and their pins. -/
def HotCache.CacheCall.readsOnly : HotCache.CacheCall → Bool
  | .submitPutTask _ _ | .remove _ => false
  | _ => true

/-- The backend, and for the statement only, what the stores so far were about. -/
structure PrefixRun where
  backend : AllocatingBackend
  /-- The chunks put so far, each with its place in the token sequence it was put for. -/
  offered : List SequenceChunk
  /-- The keys put so far. -/
  stored : List CacheEngineKey

inductive PrefixAction where
  /-- `submit_put_task` for a chunk of a token sequence. -/
  | put (chunk : SequenceChunk) (memoryObj : Nat)
  | read (call : {call : HotCache.CacheCall // call.readsOnly = true})
  | allocate (t : Nat) (call : AllocateCall)
  | advance (t : Nat)
  | object (memoryObj : Nat) (call : ObjectCall)

namespace PrefixRun

def init (layerwise enableBlending useHot : Bool) (numel threads : Nat) : PrefixRun :=
  ⟨.init layerwise enableBlending useHot numel threads, [], []⟩

/-- The cached keys. -/
def IsHot (s : PrefixRun) (key : CacheEngineKey) : Prop := key ∈ s.backend.cache.hotCache

instance (s : PrefixRun) : DecidablePred s.IsHot := fun key =>
  inferInstanceAs (Decidable (key ∈ s.backend.cache.hotCache))

def step (s : PrefixRun) : PrefixAction → PrefixRun
  | .put chunk memoryObj =>
    if memoryObj < s.backend.cache.memory.objs.length then
      { backend := s.backend.step (.cache (.submitPutTask chunk.key memoryObj))
        offered := chunk :: s.offered
        stored := chunk.key :: s.stored }
    else s
  | .read call => { s with backend := s.backend.step (.cache call.1) }
  | .allocate t call => { s with backend := s.backend.step (.allocate t call) }
  | .advance t => { s with backend := s.backend.step (.advance t) }
  | .object i call => { s with backend := s.backend.step (.object i call) }

/-- Of every token sequence whose chunks were stored, the cached chunks have all earlier ones cached:
every chunk of the sequence is the last one of such a sequence. -/
def PrefixClosed (s : PrefixRun) : Prop := ∀ c ∈ s.offered, c.ClosedAt s.IsHot (· ∈ s.stored)

instance (s : PrefixRun) : Decidable s.PrefixClosed :=
  inferInstanceAs (Decidable (∀ c ∈ s.offered, c.ClosedAt s.IsHot (· ∈ s.stored)))

/-! ## When a step is safe -/

/-- The keys the round of this call takes out: the candidate, or its layers up to the first that is
not cached. -/
def victims (b : AllocatingBackend) (call : AllocateCall) : List CacheEngineKey :=
  match b.cache.evictKeys, call.batchSize with
  | [], _ => []
  | key :: _, none => [key]
  | key :: _, some n => (key.splitLayers n).takeWhile fun layer => decide (layer ∈ b.cache.hotCache)

/-- The condition on a put: of every stored sequence through the chunk, the chunks before a cached one
are cached. -/
def PutAllowed (s : PrefixRun) (chunk : SequenceChunk) : Prop :=
  ∀ c ∈ chunk :: s.offered, c.key = chunk.key ∨ chunk.key ∈ c.earlier →
    c.ClosedAt (fun key => key = chunk.key ∨ s.IsHot key) (· ∈ chunk.key :: s.stored)

/-- The condition on a round: it takes no chunk out in front of one that stays. -/
def EvictAllowed (s : PrefixRun) (call : AllocateCall) : Prop :=
  ∀ victim ∈ victims s.backend call, ∀ c ∈ s.offered, victim ∈ c.earlier →
    (∀ key ∈ c.earlier, key ∈ s.stored) → s.IsHot c.key → c.key ∈ victims s.backend call

def PcAllowed (s : PrefixRun) : AllocatePc → Prop
  | .evicting call => s.backend.useHot = true → s.EvictAllowed call
  | _ => True

def Allowed (s : PrefixRun) : PrefixAction → Prop
  | .put chunk memoryObj => memoryObj < s.backend.cache.memory.objs.length → s.PutAllowed chunk
  | .advance t => ∀ pc ∈ s.backend.threads[t]?, s.PcAllowed pc
  | _ => True

end PrefixRun

/-! ## What a step does to the set of cached keys -/

namespace HotCache

variable (c : HotCache)

theorem mem_contains (key : CacheEngineKey) (pin : Bool) (k : CacheEngineKey) :
    k ∈ (c.contains key pin).2.hotCache ↔ k ∈ c.hotCache := by
  unfold contains
  cases c.hotCache.get? key with
  | none => rfl
  | some i => cases pin <;> rfl

theorem mem_batchedAsyncContains (pin : Bool) (keys : List CacheEngineKey) (c : HotCache)
    (k : CacheEngineKey) : k ∈ (c.batchedAsyncContains pin keys).2.hotCache ↔ k ∈ c.hotCache := by
  induction keys generalizing c with
  | nil => rfl
  | cons key keys ih =>
    have hmem := c.mem_contains key pin k
    unfold batchedAsyncContains
    generalize c.contains key pin = r at hmem
    obtain ⟨found, c'⟩ := r
    cases found with
    | false => exact hmem
    | true => exact (ih c').trans hmem

theorem mem_batchedGetNonBlocking (keys : List CacheEngineKey) (c : HotCache)
    (k : CacheEngineKey) : k ∈ (c.batchedGetNonBlocking keys).2.hotCache ↔ k ∈ c.hotCache := by
  induction keys generalizing c with
  | nil => rfl
  | cons key keys ih =>
    unfold batchedGetNonBlocking
    cases c.hotCache.get? key with
    | none => rfl
    | some i => exact ih _

/-- Reading calls, touches among them, neither store nor remove a key. -/
theorem mem_call_of_readsOnly {call : CacheCall} (h : call.readsOnly = true) (k : CacheEngineKey) :
    k ∈ (c.call call).hotCache ↔ k ∈ c.hotCache := by
  cases call with
  | contains key pin => exact c.mem_contains key pin k
  | touchCache =>
    obtain ⟨-, hentries⟩ := touchCache_spec c
    show k ∈ c.touchCache.2.hotCache.entries.map Prod.fst ↔ k ∈ c.hotCache.entries.map Prod.fst
    simp only [List.mem_map, hentries]
  | submitPutTask key i => cases h
  | getBlocking key =>
    show k ∈ (c.getBlocking key).2.hotCache ↔ _
    unfold getBlocking
    cases c.hotCache.get? key <;> rfl
  | batchedGetNonBlocking keys => exact mem_batchedGetNonBlocking keys c k
  | batchedAsyncContains keys pin => exact mem_batchedAsyncContains pin keys c k
  | pin key =>
    show k ∈ (c.pin key).2.hotCache ↔ _
    unfold HotCache.pin
    cases c.hotCache.get? key <;> rfl
  | unpin key =>
    show k ∈ (c.unpin key).2.hotCache ↔ _
    unfold unpin
    cases c.hotCache.get? key <;> rfl
  | remove key => cases h

theorem mem_submitPutTask (key : CacheEngineKey) (i : Nat) (k : CacheEngineKey) :
    k ∈ (c.submitPutTask key i).hotCache ↔ k = key ∨ k ∈ c.hotCache := by
  unfold submitPutTask
  split
  · rename_i hin
    exact ⟨.inr, fun h => h.elim (fun hk => hk ▸ hin) id⟩
  · exact Dict.mem_set _ _ _ _

/-- Popping a key that is not among them leaves the run of cached layers as it was. -/
theorem takeWhile_erase {d : Dict CacheEngineKey Nat} {key : CacheEngineKey}
    {keys : List CacheEngineKey} (h : key ∉ keys) :
    keys.takeWhile (fun k => decide (k ∈ d.erase key)) =
      keys.takeWhile fun k => decide (k ∈ d) := by
  induction keys with
  | nil => rfl
  | cons k keys ih =>
    obtain ⟨hne, hnot⟩ := not_or.mp (fun hor => h (List.mem_cons.mpr hor))
    have hk : (k ∈ d.erase key) ↔ k ∈ d := by
      rw [Dict.mem_erase]
      exact ⟨And.right, fun hk => ⟨fun hkey => hne hkey.symm, hk⟩⟩
    simp only [List.takeWhile_cons, hk, ih hnot]

/-- The layers are popped up to the first that is not cached. -/
theorem mem_popLayers {keys : List CacheEngineKey} (hnodup : keys.Nodup) (c : HotCache)
    (old : List Nat) (k : CacheEngineKey) :
    k ∈ (c.popLayers old keys).2.hotCache ↔
      k ∈ c.hotCache ∧ k ∉ keys.takeWhile fun layer => decide (layer ∈ c.hotCache) := by
  induction keys generalizing c old with
  | nil => simp [popLayers]
  | cons key keys ih =>
    obtain ⟨hnot, hnodup⟩ := List.nodup_cons.mp hnodup
    unfold popLayers
    cases hget : c.hotCache.get? key with
    | none =>
      have hmiss : key ∉ c.hotCache := Dict.get?_eq_none.mp hget
      simp [hmiss]
    | some i =>
      have hin : key ∈ c.hotCache := Dict.mem_iff_get?.mpr ⟨i, hget⟩
      dsimp only
      rw [ih hnodup, takeWhile_erase hnot, Dict.mem_erase, List.takeWhile_cons_of_pos (by simpa),
        List.mem_cons, not_or]
      tauto

theorem mem_evictAllLayers (batchSize : Nat) (c : HotCache) (key k : CacheEngineKey) :
    k ∈ (evictAllLayers batchSize c [key]).2.hotCache ↔
      k ∈ c.hotCache ∧
        k ∉ (key.splitLayers batchSize).takeWhile fun layer => decide (layer ∈ c.hotCache) := by
  rw [← mem_popLayers (key.nodup_splitLayers batchSize) c []]
  unfold evictAllLayers
  rcases c.popLayers [] (key.splitLayers batchSize) with ⟨_ | old, c'⟩
  · rfl
  · dsimp only
    cases MixedMemoryAllocator.batchedFree c'.memory old <;> rfl

end HotCache

namespace PrefixRun

/-- A round takes out its victims and no other key. -/
theorem mem_roundOf (b : AllocatingBackend) (call : AllocateCall) (k : CacheEngineKey) :
    k ∈ (b.roundOf call).after.hotCache ↔ k ∈ b.cache.hotCache ∧ k ∉ victims b call := by
  unfold AllocatingBackend.roundOf victims
  rcases b.cache.evictKeys_cases with hnone | ⟨key, i, -, hkeys, hget, -⟩
  · cases call.batchSize with
    | none => simp [HotCache.allocateRound, hnone]
    | some n => simp [HotCache.batchedAllocateRound, hnone]
  · cases call.batchSize with
    | none =>
      simp only [HotCache.allocateRound, hkeys, HotCache.batchedRemove, HotCache.remove, hget,
        Dict.mem_erase, List.mem_singleton]
      exact and_comm
    | some n =>
      simp only [hkeys]
      rw [HotCache.batchedAllocateRound_of_candidate hkeys]
      exact HotCache.mem_evictAllLayers n b.cache key k

/-! ## When prefixes outlive their suffixes -/

variable {s : PrefixRun}

/-- A step that neither stores nor removes a key changes nothing here. -/
theorem prefixClosed_of_same {b : AllocatingBackend} (h : ∀ k, k ∈ b.cache.hotCache ↔ s.IsHot k) :
    PrefixClosed { s with backend := b } ↔ s.PrefixClosed := by
  have hhot : IsHot { s with backend := b } = s.IsHot := funext fun k => propext (h k)
  unfold PrefixClosed
  rw [hhot]

theorem prefixClosed_put_iff (hs : s.PrefixClosed) (chunk : SequenceChunk) {memoryObj : Nat}
    (hobj : memoryObj < s.backend.cache.memory.objs.length) :
    (s.step (.put chunk memoryObj)).PrefixClosed ↔ s.PutAllowed chunk := by
  have hhot : (s.step (.put chunk memoryObj)).IsHot =
      fun key => key = chunk.key ∨ s.IsHot key := by
    funext key
    refine propext ?_
    simp only [step, if_pos hobj, IsHot, AllocatingBackend.step, HotCache.call]
    exact HotCache.mem_submitPutTask _ _ _ _
  have hstep : (s.step (.put chunk memoryObj)).offered = chunk :: s.offered ∧
      (s.step (.put chunk memoryObj)).stored = chunk.key :: s.stored := by
    simp only [step, if_pos hobj, and_self]
  unfold PrefixClosed PutAllowed
  rw [hhot, hstep.1, hstep.2]
  constructor
  · exact fun h c hc _ => h c hc
  · intro h c hc
    by_cases hthrough : c.key = chunk.key ∨ chunk.key ∈ c.earlier
    · exact h c hc hthrough
    · -- a sequence that does not pass through the chunk is as closed as it was
      obtain ⟨hkey, hearlier⟩ := not_or.mp hthrough
      have hold : c ∈ s.offered := by
        rcases List.mem_cons.mp hc with rfl | hc
        · exact absurd rfl hkey
        · exact hc
      intro hstored hcached key hmem
      have hne : ∀ k ∈ c.earlier, k ≠ chunk.key := fun k hk hkk => hearlier (hkk ▸ hk)
      refine .inr (hs c hold (fun k hk => ?_) (hcached.resolve_left hkey) key hmem)
      exact (List.mem_cons.mp (hstored k hk)).resolve_left (hne k hk)

theorem prefixClosed_evict_iff (hs : s.PrefixClosed) (t : Nat) (call : AllocateCall)
    (huse : s.backend.useHot = true) :
    PrefixClosed { s with backend := s.backend.evict t call } ↔ s.EvictAllowed call := by
  have hhot : IsHot { s with backend := s.backend.evict t call } =
      fun k => s.IsHot k ∧ k ∉ victims s.backend call := by
    funext k
    refine propext ?_
    rw [IsHot, (s.backend.evict_of_useHot t call huse).2]
    exact mem_roundOf s.backend call k
  unfold PrefixClosed EvictAllowed
  rw [hhot]
  constructor
  · intro h victim hvictim c hc hearlier hstored hkey
    by_contra hstays
    exact (h c hc hstored ⟨hkey, hstays⟩ victim hearlier).2 hvictim
  · intro h c hc hstored hcached key hmem
    exact ⟨hs c hc hstored hcached.1 key hmem, fun hvictim =>
      hcached.2 (h key hvictim c hc hmem hstored hcached.1)⟩

/-- **Step lemma.** -/
theorem prefixClosed_step_iff (s : PrefixRun) (a : PrefixAction) (hs : s.PrefixClosed) :
    (s.step a).PrefixClosed ↔ s.Allowed a := by
  have hsame {b : AllocatingBackend} (h : ∀ k, k ∈ b.cache.hotCache ↔ s.IsHot k) :
      PrefixClosed { s with backend := b } ↔ True := by
    rw [prefixClosed_of_same h]
    exact iff_true_intro hs
  cases a with
  | put chunk memoryObj =>
    simp only [Allowed]
    by_cases hobj : memoryObj < s.backend.cache.memory.objs.length
    · rw [prefixClosed_put_iff hs chunk hobj]
      exact ⟨fun h _ => h, fun h => h hobj⟩
    · have hstay : s.step (.put chunk memoryObj) = s := by simp only [step, if_neg hobj]
      rw [hstay]
      exact ⟨fun _ h => absurd h hobj, fun _ => hs⟩
  | read call => exact hsame fun k => s.backend.cache.mem_call_of_readsOnly call.2 k
  | allocate t call =>
    refine hsame fun k => ?_
    simp only [AllocatingBackend.step]
    split
    · rw [(s.backend.enter_spec t call).2]
      exact Iff.rfl
    · exact Iff.rfl
  | advance t =>
    simp only [step, AllocatingBackend.step, Allowed]
    cases hpc : s.backend.threads[t]? with
    | none => simpa using hs
    | some pc =>
      simp only [Option.mem_def, Option.some.injEq, forall_eq']
      cases pc with
      | idle => exact hsame fun _ => Iff.rfl
      | retrying call =>
        refine hsame fun k => ?_
        rw [(s.backend.retry_spec t call).2]
        exact Iff.rfl
      | evicting call =>
        simp only [PcAllowed]
        by_cases huse : s.backend.useHot = true
        · rw [prefixClosed_evict_iff hs t call huse]
          exact ⟨fun h _ => h, fun h => h huse⟩
        · rw [hsame fun k => by rw [(s.backend.evict_of_not_useHot t call huse).2]; rfl]
          exact ⟨fun _ h => absurd h huse, fun _ => trivial⟩
  | object i call => exact hsame fun _ => Iff.rfl

/-- A chunk key outside the layerwise mode. -/
def chunkKey (chunkHash : Int) : CacheEngineKey :=
  ⟨"m", 1, 0, chunkHash, .float16, none, none⟩

/-- Half of a buffer of two pages. -/
def onePage : AllocateCall := ⟨.one [4096], .one .uint8, none, none, true, false⟩

end PrefixRun

end LMCache.Storage
