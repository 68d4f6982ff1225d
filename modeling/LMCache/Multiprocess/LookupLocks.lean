/-
# LMCache.Multiprocess.LookupLocks — the locks of a lookup and the unlocks of its retrieves.

The lock manager counts; who is counted is not written down anywhere.  Here it is: the count of a
key is the sum of what the requests hold of it, and what a request holds is what its lookup
reported, less what its retrieves have unlocked and what has expired.

A lookup locks shard by shard and reports chunk by chunk.  A chunk of which only the first workers'
shards are there is locked in part and not reported, and nobody unlocks that part.
-/
import LMCache.Lib.Counts
import LMCache.Multiprocess.MPCacheEngine

namespace LMCache.Multiprocess

open LMCache.Lib LMCache.Memory

/-! ## The lock manager counts -/

namespace LockManager

variable {κ : Type} [DecidableEq κ] {m : LockManager κ} {f : κ → Nat}

/-- The manager counts this many locks of each key. -/
def Counts (m : LockManager κ) (f : κ → Nat) : Prop :=
  ∀ key, match m.locks.get? key with
    | none => f key = 0
    | some lockMeta => lockMeta.count = f key ∧ 0 < f key

theorem Counts.eq_zero (h : m.Counts f) {key : κ} (hkey : key ∉ m.locks) : f key = 0 := by
  have hcount := h key
  rwa [Dict.get?_eq_none.mpr hkey] at hcount

/-- Writing a positive count down counts it. -/
theorem Counts.set (h : m.Counts f) (key : κ) {lockMeta : LockMetadata} {n : Nat}
    (hcount : lockMeta.count = n) (hpos : 0 < n) :
    LockManager.Counts ⟨m.locks.set key lockMeta⟩ (Function.update f key n) := by
  intro key'
  rw [Dict.get?_set, Function.update_apply]
  by_cases hkey : key' = key
  · rw [if_pos hkey, if_pos hkey]
    exact ⟨hcount, hpos⟩
  · rw [if_neg hkey, if_neg hkey]
    exact h key'

theorem Counts.erase (h : m.Counts f) (key : κ) :
    LockManager.Counts ⟨m.locks.erase key⟩ (Function.update f key 0) := by
  intro key'
  rw [Dict.get?_erase, Function.update_apply]
  by_cases hkey : key' = key
  · rw [if_pos hkey, if_pos hkey]
  · rw [if_neg hkey, if_neg hkey]
    exact h key'

theorem counts_lock (h : m.Counts f) (key : κ) (currTime : Rat) :
    (m.lock key currTime).Counts (raise f key) := by
  have hcount := h key
  unfold lock
  match hget : m.locks.get? key with
  | some lockMeta =>
    rw [hget] at hcount
    exact h.set key (by rw [hcount.1]; rfl) (Nat.succ_pos _)
  | none =>
    rw [hget] at hcount
    exact h.set key (by rw [hcount]; rfl) (Nat.succ_pos _)

theorem counts_unlock (h : m.Counts f) (key : κ) : (m.unlock key).Counts (lower f key) := by
  have hcount := h key
  unfold unlock
  match hget : m.locks.get? key with
  | some lockMeta =>
    rw [hget] at hcount
    obtain ⟨hcount, hpos⟩ := hcount
    dsimp only
    by_cases hlast : lockMeta.count - 1 ≤ 0
    · have hzero : f key - 1 = 0 := by omega
      rw [if_pos hlast, lower, hzero]
      exact h.erase key
    · rw [if_neg hlast]
      exact h.set key (by show lockMeta.count - 1 = _; omega) (by omega)
  | none =>
    -- there is nothing to take away from
    rw [hget] at hcount
    have hsame : lower f key = f := by
      rw [lower, hcount, Nat.zero_sub, ← hcount, Function.update_eq_self]
    rw [hsame]
    exact h

/-- Locks have been dropped, and nothing else has happened. -/
def Shrinks (m m' : LockManager κ) : Prop :=
  ∀ key, m'.locks.get? key = m.locks.get? key ∨ m'.locks.get? key = none

theorem Shrinks.refl (m : LockManager κ) : m.Shrinks m := fun _ => .inl rfl

theorem Shrinks.trans {m' m'' : LockManager κ} (h : m.Shrinks m') (h' : m'.Shrinks m'') :
    m.Shrinks m'' := by
  intro key
  rcases h' key with heq | hnone
  · rw [heq]
    exact h key
  · exact .inr hnone

theorem shrinks_isLocked (m : LockManager κ) (key : κ) (currTime : Rat) :
    m.Shrinks (m.isLocked key currTime).2 := by
  intro key'
  unfold isLocked
  match m.locks.get? key with
  | none => exact .inl rfl
  | some lockMeta =>
    dsimp only
    split
    · rw [Dict.get?_erase]
      split
      · exact .inr rfl
      · exact .inl rfl
    · exact .inl rfl

/-- What is still locked is counted as before. -/
theorem Counts.shrink (h : m.Counts f) {m' : LockManager κ} (hs : m.Shrinks m') :
    m'.Counts fun key => if key ∈ m'.locks then f key else 0 := by
  intro key
  dsimp only
  match hget : m'.locks.get? key with
  | none => exact if_neg (Dict.get?_eq_none.mp hget)
  | some lockMeta =>
    have hcount := h key
    rw [if_pos (Dict.mem_iff_get?.mpr ⟨lockMeta, hget⟩)]
    rcases hs key with heq | hnone
    · rw [← heq, hget] at hcount
      exact hcount
    · rw [hget] at hnone
      cases hnone

end LockManager

/-! ## What the sections do to the locks -/

namespace MPStorageManager

variable (s : MPStorageManager)

/-- The shards that `lookup` finds are the leading ones that are committed; it locks each of them
and does nothing else. -/
theorem lookup_spec (clock : StorageKey → Rat) (keys : List StorageKey) {f : StorageKey → Nat}
    (h : s.objLockManager.Counts f) :
    (s.lookup clock keys).1 = (keys.takeWhile fun key => key ∈ s.commitedMemoryObjects).length ∧
      (s.lookup clock keys).2.objLockManager.Counts
        (raiseAll f (keys.takeWhile fun key => key ∈ s.commitedMemoryObjects)) := by
  induction keys generalizing s f with
  | nil => exact ⟨rfl, h⟩
  | cons key keys ih =>
    unfold lookup
    by_cases hkey : key ∈ s.commitedMemoryObjects
    · rw [if_pos hkey, List.takeWhile_cons_of_pos (by simpa using hkey)]
      obtain ⟨hcount, hlocks⟩ :=
        ih { s with objLockManager := s.objLockManager.lock key (clock key) }
          (LockManager.counts_lock h key (clock key))
      exact ⟨by rw [List.length_cons, ← hcount], hlocks⟩
    · rw [if_neg hkey, List.takeWhile_cons_of_neg (by simpa using hkey)]
      exact ⟨rfl, h⟩

theorem shrinks_candidatesFrom (canEvict : Nat → Bool) (clock : StorageKey → Rat) (n : Nat)
    (items : List (StorageKey × Nat)) (locks : LockManager StorageKey)
    (evictKeys : List StorageKey) :
    locks.Shrinks
      (LRUCachePolicyWithLock.candidatesFrom canEvict clock n items locks evictKeys).2 := by
  induction items generalizing locks evictKeys with
  | nil => exact LockManager.Shrinks.refl locks
  | cons e items ih =>
    have hlocked := LockManager.shrinks_isLocked locks e.1 (clock e.1)
    unfold LRUCachePolicyWithLock.candidatesFrom
    split
    · rename_i heq
      rw [heq] at hlocked
      exact hlocked.trans (ih _ _)
    · rename_i heq
      rw [heq] at hlocked
      split
      · exact hlocked.trans (ih _ _)
      · split
        · exact hlocked
        · exact hlocked.trans (ih _ _)

theorem objLockManager_evictKey (key : StorageKey) :
    (s.evictKey key).objLockManager = s.objLockManager := by
  unfold evictKey
  split
  · rfl
  · rfl

theorem shrinks_evictLoop (clock : Nat → StorageKey → Rat) (r : Reserve) (turns round : Nat)
    (s : MPStorageManager) :
    s.objLockManager.Shrinks (evictLoop clock r turns round s).2.objLockManager := by
  induction turns generalizing round s with
  | zero => exact LockManager.Shrinks.refl _
  | succ turns ih =>
    have hlocks : s.objLockManager.Shrinks
        (s.evictCandidates (clock round) r.numObjectsToAllocate).2 :=
      shrinks_candidatesFrom _ _ _ _ _ _
    unfold evictLoop
    dsimp only
    split
    · exact hlocks
    · rename_i key keys _
      have hkeys (s' : MPStorageManager) :
          ((key :: keys).foldl evictKey s').objLockManager = s'.objLockManager :=
        List.foldlRecOn (motive := fun s'' : MPStorageManager =>
          s''.objLockManager = s'.objLockManager) (key :: keys) evictKey rfl
          fun s'' h'' key' _ => (objLockManager_evictKey s'' key').trans h''
      have hmade (s' : MPStorageManager) :
          (((key :: keys).foldl evictKey s').allocateFor r).2.objLockManager = s'.objLockManager :=
        hkeys s'
      split
      · rename_i s' heq
        have hs' := hmade { s with
          objLockManager := (s.evictCandidates (clock round) r.numObjectsToAllocate).2 }
        rw [heq] at hs'
        dsimp only at hs'
        rw [← hs'] at hlocks
        exact hlocks.trans (ih _ _)
      · rw [hmade]
        exact hlocks

theorem objLockManager_afterAllocation (handle : Nat) (r : Reserve) (next : Option MPError)
    (result : Except PyError (Option (List Nat))) :
    (s.afterAllocation handle r next result).2.objLockManager = s.objLockManager := by
  unfold afterAllocation
  split
  · rfl
  · rfl
  · split
    · rfl
    · rfl

/-- A section of `reserve` drops locks at most. -/
theorem shrinks_proceed (handle : Nat) (clock : Nat → StorageKey → Rat) :
    s.objLockManager.Shrinks (s.proceed handle clock).2.objLockManager := by
  unfold proceed
  split
  · exact LockManager.Shrinks.refl _
  · split
    · unfold markKey
      split
      · exact LockManager.Shrinks.refl _
      · exact LockManager.Shrinks.refl _
    · split
      · exact LockManager.Shrinks.refl _
      · dsimp only
        rw [objLockManager_afterAllocation]
        exact LockManager.Shrinks.refl _
    · dsimp only
      rw [objLockManager_afterAllocation]
      exact shrinks_evictLoop clock _ _ _ s
    · exact LockManager.Shrinks.refl _

theorem objLockManager_commit (handle : Nat) :
    (s.commit handle).2.objLockManager = s.objLockManager := by
  unfold commit
  split
  · rfl
  · rfl

end MPStorageManager

/-! ## Chunks and shards -/

namespace IPCCacheEngineKey

/-- The shard of a worker. -/
def shard (k : IPCCacheEngineKey) (worker : Int) : StorageKey :=
  ⟨k.modelName, k.worldSize, worker, k.chunkHash⟩

theorem storageKeys_of_none {k : IPCCacheEngineKey} (h : k.workerId = none) :
    k.storageKeys = (range k.worldSize).map k.shard := by
  unfold storageKeys
  rw [h]
  rfl

theorem nodup_range (n : Int) : (range n).Nodup :=
  List.nodup_range.map fun _ _ h => Int.ofNat.inj h

/-- A chunk has one shard a worker. -/
theorem count_storageKeys {k : IPCCacheEngineKey} (h : k.workerId = none) (key : StorageKey) :
    k.storageKeys.count key =
      if key.workerId ∈ range k.worldSize then [k.shard key.workerId].count key else 0 := by
  rw [storageKeys_of_none h]
  have hinj : Function.Injective k.shard := fun _ _ heq => congrArg StorageKey.workerId heq
  by_cases hkey : k.shard key.workerId = key
  · have hcount := List.count_map_of_injective (range k.worldSize) k.shard hinj key.workerId
    rw [hkey] at hcount ⊢
    rw [hcount, List.count_singleton_self]
    split
    · rename_i hmem
      exact List.count_eq_one_of_mem (nodup_range _) hmem
    · rename_i hmem
      exact List.count_eq_zero_of_not_mem hmem
  · have hzero : ((range k.worldSize).map k.shard).count key = 0 := by
      rw [List.count_eq_zero]
      intro hmem
      obtain ⟨w, -, rfl⟩ := List.mem_map.mp hmem
      exact hkey rfl
    have hsingle : [k.shard key.workerId].count key = 0 := by
      rw [List.count_singleton, if_neg (by simpa using hkey)]
    rw [hzero, hsingle, ite_self]

end IPCCacheEngineKey

open IPCCacheEngineKey in
/-- The shards of chunks, worker by worker. -/
theorem count_shards {chunks : List IPCCacheEngineKey} {workers : List Int}
    (h : ∀ k ∈ chunks, k.workerId = none ∧ range k.worldSize = workers) (key : StorageKey) :
    (chunks.flatMap storageKeys).count key =
      if key.workerId ∈ workers then (chunks.map fun k => k.shard key.workerId).count key
      else 0 := by
  induction chunks with
  | nil => simp
  | cons k chunks ih =>
    obtain ⟨hnone, hworkers⟩ := h k List.mem_cons_self
    rw [List.flatMap_cons, List.count_append, count_storageKeys hnone, hworkers,
      ih fun k' hk' => h k' (List.mem_cons_of_mem _ hk'), List.map_cons]
    split
    · rw [← List.count_append, List.singleton_append]
    · rfl

namespace MPStorageManager

/-- All shards of the chunk are committed. -/
def Complete (s : MPStorageManager) (k : IPCCacheEngineKey) : Prop :=
  ∀ key ∈ k.storageKeys, key ∈ s.commitedMemoryObjects

instance (s : MPStorageManager) (k : IPCCacheEngineKey) : Decidable (s.Complete k) :=
  inferInstanceAs (Decidable (∀ key ∈ k.storageKeys, _))

/-- The lookup stops at a whole chunk: of the first chunk that is not complete, the first worker's
shard is not there either. -/
def StopsAtChunk (s : MPStorageManager) : List IPCCacheEngineKey → Prop
  | [] => True
  | k :: ks =>
    if s.Complete k then s.StopsAtChunk ks
    else ∀ key ∈ k.storageKeys.head?, key ∉ s.commitedMemoryObjects

instance decidableStopsAtChunk (s : MPStorageManager) : ∀ ks, Decidable (s.StopsAtChunk ks)
  | [] => .isTrue trivial
  | k :: ks =>
    haveI := decidableStopsAtChunk s ks
    inferInstanceAs (Decidable (if s.Complete k then s.StopsAtChunk ks
      else ∀ key ∈ k.storageKeys.head?, key ∉ s.commitedMemoryObjects))

/-- Then the shards found are those of the leading complete chunks. -/
theorem takeWhile_of_stopsAtChunk {s : MPStorageManager} {ks : List IPCCacheEngineKey}
    (h : s.StopsAtChunk ks) :
    (ks.flatMap IPCCacheEngineKey.storageKeys).takeWhile
        (fun key => key ∈ s.commitedMemoryObjects) =
      (ks.takeWhile fun k => s.Complete k).flatMap IPCCacheEngineKey.storageKeys := by
  induction ks with
  | nil => rfl
  | cons k ks ih =>
    unfold StopsAtChunk at h
    rw [List.flatMap_cons]
    by_cases hk : s.Complete k
    · rw [if_pos hk] at h
      rw [List.takeWhile_cons_of_pos (by simpa using hk), List.flatMap_cons,
        List.takeWhile_append_of_pos fun key hkey => decide_eq_true (hk key hkey), ih h]
    · rw [if_neg hk] at h
      rw [List.takeWhile_cons_of_neg (by simpa using hk), List.flatMap_nil]
      match hkeys : k.storageKeys with
      | [] =>
        refine absurd (fun key hkey => ?_) hk
        rw [hkeys] at hkey
        cases hkey
      | key :: keys =>
        rw [hkeys] at h
        have hnot : key ∉ s.commitedMemoryObjects := h key rfl
        rw [List.cons_append, List.takeWhile_cons_of_neg (by simpa using hnot)]

end MPStorageManager

/-! ## What a lookup reports -/

/-- The keys of a lookup: none names a worker, and they agree on the world size. -/
def OfScheduler (ipcKeys : List IPCCacheEngineKey) : Prop :=
  ∀ k ∈ ipcKeys, k.workerId = none ∧ ∀ first ∈ ipcKeys.head?, k.worldSize = first.worldSize

instance (ipcKeys : List IPCCacheEngineKey) : Decidable (OfScheduler ipcKeys) :=
  inferInstanceAs (Decidable (∀ k ∈ ipcKeys, _ ∧ ∀ first ∈ (_ : Option _), _))

/-- A lookup that reports a chunk has asked for all its keys in the scheduler's way. -/
theorem lookup_of_not_ofScheduler (e : MPCacheEngine) {ipcKeys : List IPCCacheEngineKey}
    (h : ¬ OfScheduler ipcKeys) (lock : Option Bool) (clock : StorageKey → Rat) :
    ∃ err, e.lookup ipcKeys lock clock = (.error err, 0, e) := by
  match ipcKeys with
  | [] => exact absurd (fun _ hk => nomatch hk) h
  | first :: rest =>
    unfold MPCacheEngine.lookup
    dsimp only
    by_cases hnone : (first :: rest).all fun k => k.workerId = none
    · rw [if_neg (not_not.mpr hnone)]
      have hsize : ¬ (first :: rest).all fun k => k.worldSize = first.worldSize := by
        intro hsize
        apply h
        intro k hk
        rw [List.all_eq_true] at hnone hsize
        refine ⟨of_decide_eq_true (hnone k hk), ?_⟩
        rintro _ ⟨⟩
        exact of_decide_eq_true (hsize k hk)
      unfold ipcKeysToStorageKeys
      dsimp only
      rw [if_neg hsize]
      exact ⟨_, rfl⟩
    · rw [if_pos hnone]
      exact ⟨_, rfl⟩

/-- A lookup in the scheduler's way asks the storage manager, and reports whole chunks. -/
theorem lookup_of_ofScheduler (e : MPCacheEngine) {first : IPCCacheEngineKey}
    {rest : List IPCCacheEngineKey} (h : OfScheduler (first :: rest)) (lock : Option Bool)
    (clock : StorageKey → Rat) :
    let keys := (first :: rest).flatMap IPCCacheEngineKey.storageKeys
    let found := (e.storageManager.lookup clock keys).1
    let chunks := ((found : Int).fdiv first.worldSize).toNat
    e.lookup (first :: rest) lock clock =
      (if first.worldSize = 0 then
          .error (.raised (.zeroDivisionError "integer division or modulo by zero"))
        else .ok (List.replicate chunks true ++
          List.replicate ((first :: rest).length - chunks) false),
        found, { e with storageManager := (e.storageManager.lookup clock keys).2 }) := by
  have hnone : (first :: rest).all fun k => k.workerId = none :=
    List.all_eq_true.mpr fun k hk => decide_eq_true (h k hk).1
  have hsize : (first :: rest).all fun k => k.worldSize = first.worldSize :=
    List.all_eq_true.mpr fun k hk => decide_eq_true ((h k hk).2 first rfl)
  intro keys found chunks
  unfold MPCacheEngine.lookup ipcKeysToStorageKeys
  dsimp only
  rw [if_neg (not_not.mpr hnone), if_pos hsize]
  dsimp only
  split
  · rfl
  · rfl

/-- The chunks in front that are reported as found. -/
theorem filter_zip_replicate {α : Type} (l : List α) (n : Nat) :
    ((l.zip (List.replicate n true ++ List.replicate (l.length - n) false)).filter
      Prod.snd).map Prod.fst = l.take n := by
  induction l generalizing n with
  | nil => simp
  | cons a l ih =>
    match n with
    | 0 =>
      have hnone := ih 0
      simp only [List.replicate_zero, List.nil_append, Nat.sub_zero, List.take_zero] at hnone ⊢
      rw [List.length_cons, List.replicate_succ, List.zip_cons_cons,
        List.filter_cons_of_neg (by simp), hnone]
    | n + 1 =>
      rw [List.replicate_succ, List.cons_append, List.zip_cons_cons,
        List.filter_cons_of_pos (by simp), List.map_cons, List.length_cons, Nat.add_sub_add_right,
        ih, List.take_succ_cons]

/-! ## A request -/

namespace Request

/-- The shards of the reported chunks that belong to a worker. -/
def shardsOf (r : Request) (worker : Int) : List StorageKey :=
  (r.keysOf worker).flatMap IPCCacheEngineKey.storageKeys

theorem shardsOf_eq (r : Request) (worker : Int) :
    r.shardsOf worker = r.hits.map fun k => k.shard worker := by
  unfold shardsOf keysOf
  induction r.hits with
  | nil => rfl
  | cons k ks ih =>
    rw [List.map_cons, List.flatMap_cons, ih]
    rfl

variable {key : StorageKey} {r : Request} {worker : Int}

theorem workerId_of_mem_shardsOf (h : key ∈ r.shardsOf worker) : key.workerId = worker := by
  rw [shardsOf_eq] at h
  obtain ⟨k, -, rfl⟩ := List.mem_map.mp h
  rfl

/-- What the retrieve of a worker is still to unlock. -/
def left (r : Request) (worker : Int) : List StorageKey :=
  if worker ∈ r.workers then
    match r.retrieves worker with
    | .waiting => r.shardsOf worker
    | .running _ remaining => remaining
    | .finished _ => []
  else []

/-- The stage of a worker fits what was reported. -/
def StageOk (r : Request) (worker : Int) : Prop :=
  match r.retrieves worker with
  | .waiting => True
  | .running unlocked remaining =>
    worker ∈ r.workers ∧ r.shardsOf worker = unlocked ++ remaining
  | .finished unlocked => worker ∈ r.workers ∧ r.shardsOf worker = unlocked

/-- Everything about a request is in order: it has locked what was reported, its callbacks unlock
that and nothing else, and what it holds is what is left to unlock, less what has expired. -/
structure Settled (r : Request) : Prop where
  chunks : ∀ k ∈ r.hits,
    k.workerId = none ∧ ∃ first ∈ r.ipcKeys.head?, k.worldSize = first.worldSize
  locked : r.locked = r.shards
  stolen : r.stolen = []
  stages : ∀ worker, r.StageOk worker
  held : ∀ key, r.held.count key + r.expired.count key = (r.left key.workerId).count key

/-- The workers are those that any chunk of the request is spread over. -/
theorem workers_of_chunk {k : IPCCacheEngineKey}
    (h : k.workerId = none ∧ ∃ first ∈ r.ipcKeys.head?, k.worldSize = first.worldSize) :
    k.workerId = none ∧ IPCCacheEngineKey.range k.worldSize = r.workers := by
  obtain ⟨hnone, first, hfirst, hsize⟩ := h
  refine ⟨hnone, ?_⟩
  unfold workers
  match hkeys : r.ipcKeys with
  | [] =>
    rw [hkeys] at hfirst
    cases hfirst
  | first' :: rest =>
    rw [hkeys] at hfirst
    cases hfirst
    rw [hsize]

/-- The locks of a request, worker by worker. -/
theorem Settled.count_locked (h : r.Settled) (hkey : key.workerId ∈ r.workers) :
    r.locked.count key = (r.shardsOf key.workerId).count key := by
  rw [h.locked, shards, count_shards fun k hk => workers_of_chunk (h.chunks k hk), if_pos hkey,
    shardsOf_eq]

/-- A retrieve of another worker does not matter to a key. -/
theorem left_update_ne {worker' : Int} (h : worker' ≠ worker) (stage : RetrieveStage) :
    left { r with retrieves := Function.update r.retrieves worker stage } worker' =
      r.left worker' := by
  unfold left
  dsimp only
  rw [Function.update_of_ne h]
  rfl

/-- A retrieve of a worker comes to a stage with the same keys left. -/
theorem Settled.toStage (h : r.Settled) {stage : RetrieveStage}
    (hok : StageOk { r with retrieves := Function.update r.retrieves worker stage } worker)
    (hleft : left { r with retrieves := Function.update r.retrieves worker stage } worker =
      r.left worker) :
    Settled { r with retrieves := Function.update r.retrieves worker stage } := by
  refine ⟨h.chunks, h.locked, h.stolen, ?_, ?_⟩
  · intro worker'
    by_cases hne : worker' = worker
    · rw [hne]
      exact hok
    · have hstage := h.stages worker'
      unfold StageOk at hstage ⊢
      dsimp only
      rw [Function.update_of_ne hne]
      exact hstage
  · intro key
    by_cases hne : key.workerId = worker
    · rw [hne, hleft, ← hne]
      exact h.held key
    · rw [left_update_ne hne]
      exact h.held key

theorem count_erase_add {l : List StorageKey} (h : key ∈ l) (key' : StorageKey) :
    (l.erase key).count key' + [key].count key' = l.count key' := by
  rw [List.count_singleton, (List.perm_cons_erase h).count_eq key', List.count_cons]

/-- **A callback unlocks its next key.** -/
theorem Settled.unlock (h : r.Settled) {unlocked remaining : List StorageKey}
    (hstage : r.retrieves worker = .running unlocked (key :: remaining)) (wasLocked : Bool)
    (hown : key ∈ r.expired → key ∉ r.held → wasLocked = false) :
    Settled (r.unlock worker key unlocked remaining wasLocked) ∧
      (key ∉ r.held → wasLocked = false) := by
  have hok := h.stages worker
  unfold StageOk at hok
  rw [hstage] at hok
  obtain ⟨hworker, hshards⟩ := hok
  have hkey : key.workerId = worker := by
    apply workerId_of_mem_shardsOf (r := r)
    rw [hshards]
    exact List.mem_append_right _ List.mem_cons_self
  have hleft : r.left worker = key :: remaining := by
    unfold left
    rw [if_pos hworker, hstage]
  have hopen := h.held key
  rw [hkey, hleft, List.count_cons_self] at hopen
  have hgone : key ∉ r.held → key ∈ r.expired := by
    intro hnot
    rw [List.count_eq_zero_of_not_mem hnot] at hopen
    exact List.count_pos_iff.mp (by omega)
  have hlocked (hnot : key ∉ r.held) : wasLocked = false := hown (hgone hnot) hnot
  refine ⟨⟨h.chunks, h.locked, ?_, ?_, ?_⟩, hlocked⟩
  · unfold Request.unlock
    dsimp only
    rw [if_neg, h.stolen]
    rintro ⟨hnot, hwas⟩
    rw [hlocked hnot] at hwas
    cases hwas
  · intro worker'
    unfold StageOk Request.unlock
    dsimp only
    by_cases hne : worker' = worker
    · rw [hne, Function.update_self]
      refine ⟨hworker, ?_⟩
      rw [List.append_assoc, List.singleton_append]
      exact hshards
    · rw [Function.update_of_ne hne]
      exact h.stages worker'
  · intro key'
    have hafter : (r.unlock worker key unlocked remaining wasLocked).left key'.workerId =
        if key'.workerId = worker then remaining else r.left key'.workerId := by
      split
      · rename_i heq
        rw [heq]
        unfold left Request.unlock
        dsimp only
        rw [Function.update_self]
        exact if_pos hworker
      · rename_i hne
        exact left_update_ne hne _
    have hcount : (r.unlock worker key unlocked remaining wasLocked).held.count key' +
        (r.unlock worker key unlocked remaining wasLocked).expired.count key' +
          [key].count key' = r.held.count key' + r.expired.count key' := by
      unfold Request.unlock
      dsimp only
      by_cases hmem : key ∈ r.held
      · have herase := count_erase_add hmem key'
        rw [if_pos hmem]
        omega
      · have herase := count_erase_add (hgone hmem) key'
        rw [if_neg hmem, List.erase_of_not_mem hmem]
        omega
    have hheld := h.held key'
    rw [hafter]
    split
    · rename_i heq
      rw [heq, hleft, List.count_cons, ← List.count_singleton] at hheld
      omega
    · rename_i hne
      have hother : [key].count key' = 0 := by
        rw [List.count_eq_zero, List.mem_singleton]
        rintro rfl
        exact hne hkey
      omega

/-- Locks of the request expire. -/
theorem Settled.expire (h : r.Settled) (locks : LockManager StorageKey) :
    (r.expire locks).Settled := by
  refine ⟨h.chunks, h.locked, h.stolen, h.stages, ?_⟩
  intro key
  have hheld := h.held key
  have hsplit := List.countP_eq_countP_filter_add r.held (· == key) fun key => key ∈ locks.locks
  unfold Request.expire
  dsimp only
  rw [List.count_append]
  have hleft : left { r with
      held := r.held.filter fun key => key ∈ locks.locks
      expired := r.expired ++ r.held.filter fun key => key ∉ locks.locks } key.workerId =
      r.left key.workerId := rfl
  rw [hleft]
  simp only [List.count, decide_not] at hheld ⊢ hsplit
  omega

end Request

/-! ## The server -/

namespace MPServer

/-- How often the requests hold a key. -/
def heldCount (s : MPServer) (key : StorageKey) : Nat :=
  (s.requests.map fun r => r.held.count key).sum

/-- Every request is in order, and the lock manager counts what they hold. -/
structure Settled (s : MPServer) : Prop where
  requests : ∀ r ∈ s.requests, r.Settled
  counts : s.engine.storageManager.objLockManager.Counts s.heldCount

theorem settled_init (sizeInBytes : Nat) (disableLazyAlloc : Bool) :
    Settled (init sizeInBytes disableLazyAlloc) where
  requests := fun _ h => (nomatch h)
  counts := fun _ => rfl

variable {r : Request} {e : MPCacheEngine} {s : MPServer}

/-- One request has changed. -/
theorem sum_set {l : List Request} {i : Nat} (h : l[i]? = some r) (r' : Request) (f : Request → Nat) :
    ((l.set i r').map f).sum + f r = (l.map f).sum + f r' := by
  have hnew := ((set_perm (b := r') h).map f).sum_eq
  have hold := ((SortedKeyList.perm_of_getElem? h).map f).sum_eq
  rw [List.map_cons, List.sum_cons] at hnew hold
  omega

/-- A request has changed and holds what it held. -/
theorem Settled.setRequest (h : s.Settled) {i : Nat} {r' : Request} (hr : s.requests[i]? = some r)
    (hr' : r'.Settled) (hheld : r'.held = r.held)
    (he : e.storageManager.objLockManager = s.engine.storageManager.objLockManager) :
    Settled ⟨e, s.requests.set i r'⟩ := by
  refine ⟨?_, ?_⟩
  · intro r'' hmem
    rcases List.mem_or_eq_of_mem_set hmem with hmem | rfl
    · exact h.requests r'' hmem
    · exact hr'
  · have hcount : heldCount ⟨e, s.requests.set i r'⟩ = s.heldCount := by
      funext key
      have hsum := sum_set hr r' fun r => r.held.count key
      rw [hheld] at hsum
      exact Nat.add_right_cancel hsum
    dsimp only
    rw [he, hcount]
    exact h.counts

/-- The storage manager has made a step that leaves the locks alone. -/
theorem Settled.withStorage (h : s.Settled) {m : MPStorageManager}
    (hm : m.objLockManager = s.engine.storageManager.objLockManager) :
    Settled (s.withStorage m) := by
  refine ⟨h.requests, ?_⟩
  show m.objLockManager.Counts s.heldCount
  rw [hm]
  exact h.counts

/-! ### A lookup -/

/-- A request whose lookup has locked what it reports, before any retrieve. -/
theorem settled_fresh (hchunks : ∀ k ∈ r.hits,
      k.workerId = none ∧ ∃ first ∈ r.ipcKeys.head?, k.worldSize = first.worldSize)
    (hlocked : r.locked = r.shards) (hheld : r.held = r.shards) (hexpired : r.expired = [])
    (hstolen : r.stolen = []) (hwaiting : ∀ worker, r.retrieves worker = .waiting) : r.Settled where
  chunks := hchunks
  locked := hlocked
  stolen := hstolen
  stages := by
    intro worker
    unfold Request.StageOk
    rw [hwaiting]
    trivial
  held := by
    intro key
    unfold Request.left
    rw [hheld, hexpired, List.count_nil, Nat.add_zero, hwaiting, Request.shards,
      count_shards fun k hk => Request.workers_of_chunk (hchunks k hk)]
    split
    · rw [Request.shardsOf_eq]
    · rfl

/-- A lookup that has locked nothing and reports nothing. -/
theorem settled_unlocked (hhits : r.hits = []) (hlocked : r.locked = []) (hheld : r.held = [])
    (hexpired : r.expired = []) (hstolen : r.stolen = [])
    (hwaiting : ∀ worker, r.retrieves worker = .waiting) : r.Settled := by
  have hshards : r.shards = [] := by
    unfold Request.shards
    rw [hhits, List.flatMap_nil]
  apply settled_fresh ?_ (hlocked.trans hshards.symm) (hheld.trans hshards.symm) hexpired hstolen
    hwaiting
  intro k hk
  rw [hhits] at hk
  cases hk

/-- The request of a lookup joins the others. -/
theorem Settled.snoc (h : s.Settled) (hr : r.Settled)
    (hcounts : e.storageManager.objLockManager.Counts (raiseAll s.heldCount r.held)) :
    Settled ⟨e, s.requests ++ [r]⟩ := by
  refine ⟨?_, ?_⟩
  · intro r' hmem
    rcases List.mem_append.mp hmem with hmem | hmem
    · exact h.requests r' hmem
    · rw [List.mem_singleton.mp hmem]
      exact hr
  · have hcount : heldCount ⟨e, s.requests ++ [r]⟩ = raiseAll s.heldCount r.held := by
      funext key
      rw [raiseAll_apply]
      unfold heldCount
      rw [List.map_append, List.sum_append, List.map_singleton, List.sum_singleton]
    rw [hcount]
    exact hcounts

theorem length_storageKeys {k : IPCCacheEngineKey} (h : k.workerId = none) :
    k.storageKeys.length = k.worldSize.toNat := by
  rw [IPCCacheEngineKey.storageKeys_of_none h, List.length_map]
  unfold IPCCacheEngineKey.range
  rw [List.length_map, List.length_range]

/-- Chunks over `n` workers have `n` shards each. -/
theorem length_flatMap_storageKeys {chunks : List IPCCacheEngineKey} {n : Nat}
    (h : ∀ k ∈ chunks, k.storageKeys.length = n) :
    (chunks.flatMap IPCCacheEngineKey.storageKeys).length = chunks.length * n := by
  rw [List.length_flatMap, List.map_congr_left h, List.map_const', List.sum_replicate, smul_eq_mul]

/-- What a lookup locks and reports, when it stops at a whole chunk. -/
theorem settled_lookup (h : s.Settled) {ipcKeys : List IPCCacheEngineKey}
    (hstops : OfScheduler ipcKeys → s.engine.storageManager.StopsAtChunk ipcKeys)
    (lock : Option Bool) (clock : StorageKey → Rat) : Settled (s.lookup ipcKeys lock clock) := by
  unfold lookup
  dsimp only
  by_cases hsched : OfScheduler ipcKeys
  case neg =>
    obtain ⟨err, heq⟩ := lookup_of_not_ofScheduler s.engine hsched lock clock
    rw [heq]
    exact h.snoc (settled_unlocked rfl rfl rfl rfl rfl fun _ => rfl) h.counts
  match ipcKeys with
  | [] => exact h.snoc (settled_unlocked rfl rfl rfl rfl rfl fun _ => rfl) h.counts
  | first :: rest =>
    have hstop := hstops hsched
    have heq := lookup_of_ofScheduler s.engine hsched lock clock
    have hlen (k : IPCCacheEngineKey) (hk : k ∈ first :: rest) :
        k.storageKeys.length = first.worldSize.toNat := by
      obtain ⟨hnone, hsize⟩ := hsched k hk
      rw [length_storageKeys hnone, hsize first rfl]
    obtain ⟨hfound, hcounts⟩ := s.engine.storageManager.lookup_spec clock
      ((first :: rest).flatMap IPCCacheEngineKey.storageKeys) h.counts
    have hprefix := List.prefix_iff_eq_take.mp (List.takeWhile_prefix
      (fun key => decide (key ∈ s.engine.storageManager.commitedMemoryObjects))
      (l := (first :: rest).flatMap IPCCacheEngineKey.storageKeys))
    have hwhole := List.prefix_iff_eq_take.mp (List.takeWhile_prefix
      (fun k => decide (s.engine.storageManager.Complete k)) (l := first :: rest))
    rw [MPStorageManager.takeWhile_of_stopsAtChunk hstop] at hfound hcounts hprefix
    rw [heq]
    dsimp only
    generalize hchunks : (first :: rest).takeWhile
      (fun k => decide (s.engine.storageManager.Complete k)) = chunks at *
    have hin (k : IPCCacheEngineKey) (hk : k ∈ chunks) : k ∈ first :: rest := by
      rw [← hchunks] at hk
      exact List.takeWhile_subset _ hk
    have hshards := length_flatMap_storageKeys fun k hk => hlen k (hin k hk)
    rw [hfound, ← hprefix]
    apply h.snoc ?_ hcounts
    by_cases hpos : 0 < first.worldSize
    · have hdiv : (((chunks.length * first.worldSize.toNat : Nat) : Int).fdiv
          first.worldSize).toNat = chunks.length := by
        have hcast : ((chunks.length * first.worldSize.toNat : Nat) : Int) =
            chunks.length * first.worldSize := by
          push_cast
          rw [Int.toNat_of_nonneg (Int.le_of_lt hpos)]
        rw [hcast, Int.fdiv_eq_ediv_of_nonneg _ (Int.le_of_lt hpos),
          Int.mul_ediv_cancel _ (Int.ne_of_gt hpos), Int.toNat_natCast]
      rw [hshards, hdiv, if_neg (Int.ne_of_gt hpos)]
      have hhits := filter_zip_replicate (first :: rest) chunks.length
      rw [← hwhole] at hhits
      apply settled_fresh ?_ ?_ ?_ rfl rfl fun _ => rfl
      · intro k hk
        obtain ⟨hnone, hsize⟩ := hsched k (hin k (hhits ▸ hk))
        exact ⟨hnone, first, rfl, hsize first rfl⟩
      · exact congrArg (fun ks => ks.flatMap IPCCacheEngineKey.storageKeys) hhits.symm
      · exact congrArg (fun ks => ks.flatMap IPCCacheEngineKey.storageKeys) hhits.symm
    · -- no workers, so there is nothing to lock, and nothing is reported
      have hzero : first.worldSize.toNat = 0 := by omega
      have hnil : chunks.flatMap IPCCacheEngineKey.storageKeys = [] := by
        apply List.eq_nil_of_length_eq_zero
        rw [hshards, hzero, Nat.mul_zero]
      rw [hnil]
      apply settled_unlocked ?_ rfl rfl rfl rfl fun _ => rfl
      by_cases hworld : first.worldSize = 0
      · rw [if_pos hworld]
        rfl
      · rw [if_neg hworld, List.length_nil, Int.natCast_zero, Int.zero_fdiv]
        exact (filter_zip_replicate (first :: rest) 0).trans List.take_zero

/-! ### A retrieve -/

/-- A retrieve leaves the locks alone, and launches no callback or one for its keys. -/
theorem retrieve_cases (e : MPCacheEngine) (ipcKeys : List IPCCacheEngineKey) (instanceId : Int)
    (slotMapping loop : Option PyError) :
    (e.retrieve ipcKeys instanceId slotMapping loop).2.2.storageManager.objLockManager =
        e.storageManager.objLockManager ∧
      ((e.retrieve ipcKeys instanceId slotMapping loop).2.1 = none ∨
        ∃ keys, ipcKeysToStorageKeys ipcKeys = .ok keys ∧
          (e.retrieve ipcKeys instanceId slotMapping loop).2.1 = some keys) := by
  unfold MPCacheEngine.retrieve
  split
  · exact ⟨rfl, .inl rfl⟩
  · split
    · exact ⟨rfl, .inl rfl⟩
    · rename_i keys hkeys
      split
      · exact ⟨rfl, .inl rfl⟩
      · split
        · exact ⟨rfl, .inl rfl⟩
        · dsimp only
          split
          · exact ⟨rfl, .inr ⟨keys, hkeys, rfl⟩⟩
          · exact ⟨rfl, .inr ⟨keys, hkeys, rfl⟩⟩

/-- The retrieve of the reported chunks comes to launch its callback for their shards. -/
theorem retrieve_of_registered (e : MPCacheEngine) (h : r.Settled) (worker : Int) {instanceId : Int}
    (hinstance : instanceId ∈ e.gpuContexts) (loop : Option PyError) :
    (e.retrieve (r.keysOf worker) instanceId none loop).2.1 = some (r.shardsOf worker) := by
  have hworker : (r.keysOf worker).all fun k => k.workerId ≠ none := by
    rw [List.all_eq_true]
    intro k hk
    obtain ⟨k', -, rfl⟩ := List.mem_map.mp hk
    exact decide_eq_true nofun
  have hkeys : ipcKeysToStorageKeys (r.keysOf worker) = .ok (r.shardsOf worker) := by
    have hsize (k k' : IPCCacheEngineKey) (hk : k ∈ r.keysOf worker) (hk' : k' ∈ r.keysOf worker) :
        k.worldSize = k'.worldSize := by
      obtain ⟨c, hc, rfl⟩ := List.mem_map.mp hk
      obtain ⟨c', hc', rfl⟩ := List.mem_map.mp hk'
      obtain ⟨-, first, hfirst, heq⟩ := h.chunks c hc
      obtain ⟨-, first', hfirst', heq'⟩ := h.chunks c' hc'
      rw [Option.mem_unique hfirst hfirst'] at heq
      exact heq.trans heq'.symm
    unfold Request.shardsOf ipcKeysToStorageKeys
    match hlist : r.keysOf worker with
    | [] => rfl
    | first :: rest =>
      rw [hlist] at hsize
      dsimp only
      rw [if_pos]
      rw [List.all_eq_true]
      intro k hk
      exact decide_eq_true (hsize k first hk List.mem_cons_self)
  unfold MPCacheEngine.retrieve
  rw [if_neg (not_not.mpr hworker), hkeys]
  dsimp only
  rw [if_neg (not_not.mpr hinstance)]
  split
  · rfl
  · rfl

/-- A retrieve comes to a stage with the same keys left. -/
theorem Settled.toStage (h : s.Settled) {i : Nat} (hr : s.requests[i]? = some r) {worker : Int}
    (hworker : worker ∈ r.workers) {stage : RetrieveStage} (unlocked : List StorageKey)
    (hstage : stage = .running unlocked (r.left worker) ∨
      stage = .finished unlocked ∧ r.left worker = [])
    (hshards : r.shardsOf worker = unlocked ++ r.left worker)
    (he : e.storageManager.objLockManager = s.engine.storageManager.objLockManager) :
    Settled ⟨e, s.requests.set i
      { r with retrieves := Function.update r.retrieves worker stage }⟩ := by
  have hsettled := h.requests r (List.mem_of_getElem? hr)
  have hok : Request.StageOk { r with retrieves := Function.update r.retrieves worker stage }
      worker := by
    unfold Request.StageOk
    dsimp only
    rw [Function.update_self]
    rcases hstage with rfl | ⟨rfl, hnil⟩
    · exact ⟨hworker, hshards⟩
    · rw [hnil, List.append_nil] at hshards
      exact ⟨hworker, hshards⟩
  have hleft : Request.left
      { r with retrieves := Function.update r.retrieves worker stage } worker = r.left worker := by
    conv_lhs => unfold Request.left
    dsimp only
    rw [Function.update_self]
    refine (if_pos hworker).trans ?_
    rcases hstage with rfl | ⟨rfl, hnil⟩
    · rfl
    · exact hnil.symm
  exact h.setRequest hr (hsettled.toStage hok hleft) rfl he

/-! ### The steps -/

/-- What a callback is to unlock next. -/
def nextUnlock (r : Request) (worker : Int) : Option StorageKey :=
  match r.retrieves worker with
  | .running _ (key :: _) => some key
  | _ => none

/-- The condition on a step: a lookup stops at a whole chunk; a retrieve of something comes from a
registered instance and gets to its `try`; and a lock that has expired has not been taken by others
when its request unlocks it. -/
def Proper (s : MPServer) : ServerEvent → Prop
  | .lookup ipcKeys _ _ =>
    OfScheduler ipcKeys → s.engine.storageManager.StopsAtChunk ipcKeys
  | .retrieve request worker instanceId slotMapping _ => ∀ r ∈ s.requests[request]?,
    r.keysOf worker = [] ∨ instanceId ∈ s.engine.gpuContexts ∧ slotMapping = none
  | .onRetrieveFinished request worker => ∀ r ∈ s.requests[request]?,
    ∀ key ∈ nextUnlock r worker,
      key ∈ r.expired → key ∉ r.held → key ∉ s.engine.storageManager.objLockManager.locks
  | _ => True

instance (s : MPServer) : ∀ e, Decidable (s.Proper e)
  | .lookup _ _ _ => inferInstanceAs (Decidable (_ → _))
  | .retrieve _ _ _ _ _ => inferInstanceAs (Decidable (∀ r ∈ (_ : Option Request), _ ∨ _ ∧ _))
  | .onRetrieveFinished _ _ =>
    inferInstanceAs (Decidable (∀ r ∈ (_ : Option Request), ∀ key ∈ (_ : Option StorageKey),
      _ → _ → _))
  | .registerKvCache _ | .unregisterKvCache _ | .reserve _ _ _ _ | .proceed _ _ | .commit _
  | .clear | .expand => .isTrue trivial

theorem settled_retrieve (h : s.Settled) (request : Nat) (worker instanceId : Int)
    (slotMapping loop : Option PyError)
    (hp : s.Proper (.retrieve request worker instanceId slotMapping loop)) :
    Settled (s.retrieve request worker instanceId slotMapping loop) := by
  unfold retrieve
  match hr : s.requests[request]? with
  | none => exact h
  | some r =>
    have hsettled := h.requests r (List.mem_of_getElem? hr)
    dsimp only
    split
    case isFalse => exact h
    rename_i hwaiting
    obtain ⟨hworker, hwaiting⟩ := hwaiting
    have hleft : r.left worker = r.shardsOf worker := by
      unfold Request.left
      rw [if_pos hworker, hwaiting]
    obtain ⟨hlocks, hcases⟩ :=
      retrieve_cases s.engine (r.keysOf worker) instanceId slotMapping loop
    rcases hp r hr with hnil | ⟨hinstance, rfl⟩
    · -- nothing was reported, so whatever the retrieve comes to there is nothing to unlock
      have hshards : r.shardsOf worker = [] := by
        unfold Request.shardsOf
        rw [hnil, List.flatMap_nil]
      rw [hshards] at hleft
      have hall : r.shardsOf worker = [] ++ r.left worker := by rw [hleft, hshards, List.append_nil]
      rcases hcases with hnone | ⟨keys, hkeys, hsome⟩
      · rw [hnone]
        exact h.toStage hr hworker [] (.inr ⟨rfl, hleft⟩) hall hlocks
      · rw [hnil] at hkeys
        cases hkeys
        rw [hsome]
        refine h.toStage hr hworker [] (.inl ?_) hall hlocks
        rw [hleft]
    · rw [retrieve_of_registered s.engine hsettled worker hinstance loop]
      refine h.toStage hr hworker [] (.inl ?_) ?_ hlocks
      · rw [hleft]
      · rw [hleft, List.nil_append]

theorem settled_onRetrieveFinished (h : s.Settled) (request : Nat) (worker : Int)
    (hp : s.Proper (.onRetrieveFinished request worker)) :
    Settled (s.onRetrieveFinished request worker) := by
  unfold onRetrieveFinished
  match hr : s.requests[request]? with
  | none => exact h
  | some r =>
    have hsettled := h.requests r (List.mem_of_getElem? hr)
    dsimp only
    match hstage : r.retrieves worker with
    | .waiting => exact h
    | .finished unlocked => exact h
    | .running unlocked [] =>
      have hok := hsettled.stages worker
      unfold Request.StageOk at hok
      rw [hstage] at hok
      obtain ⟨hworker, hshards⟩ := hok
      have hleft : r.left worker = [] := by
        unfold Request.left
        rw [if_pos hworker, hstage]
      rw [← hleft] at hshards
      exact h.toStage hr hworker unlocked (.inr ⟨rfl, hleft⟩) hshards rfl
    | .running unlocked (key :: remaining) =>
      have hnext : nextUnlock r worker = some key := by
        unfold nextUnlock
        rw [hstage]
      have hown := hp r hr key hnext
      obtain ⟨hr', hlocked⟩ := hsettled.unlock hstage
        (decide (key ∈ s.engine.storageManager.objLockManager.locks))
        fun hexpired hnot => decide_eq_false (hown hexpired hnot)
      have hunlocked := LockManager.counts_unlock h.counts key
      dsimp only
      refine ⟨?_, ?_⟩
      · intro r'' hmem
        rcases List.mem_or_eq_of_mem_set hmem with hmem | rfl
        · exact h.requests r'' hmem
        · exact hr'
      · have hcount : heldCount ⟨(s.withStorage (s.engine.storageManager.unlock key)).engine,
            s.requests.set request (r.unlock worker key unlocked remaining
              (decide (key ∈ s.engine.storageManager.objLockManager.locks)))⟩ =
            lower s.heldCount key := by
          funext key'
          have hsum := sum_set hr (r.unlock worker key unlocked remaining
            (decide (key ∈ s.engine.storageManager.objLockManager.locks)))
            fun r => r.held.count key'
          have hheld : (r.unlock worker key unlocked remaining
              (decide (key ∈ s.engine.storageManager.objLockManager.locks))).held =
              r.held.erase key := rfl
          rw [hheld] at hsum
          rw [lower_apply]
          unfold heldCount
          dsimp only
          by_cases hmem : key ∈ r.held
          · have herase := Request.count_erase_add hmem key'
            omega
          · -- nobody holds the key, or else it would be locked
            have hzero := h.counts.eq_zero (of_decide_eq_false (hlocked hmem))
            rw [List.erase_of_not_mem hmem] at hsum
            unfold heldCount at hzero
            rw [List.count_singleton]
            split
            · rename_i heq
              rw [← eq_of_beq heq] at hsum ⊢
              omega
            · omega
        exact hcount ▸ hunlocked

theorem settled_proceed (h : s.Settled) (handle : Nat) (clock : Nat → StorageKey → Rat) :
    Settled (s.proceed handle clock) := by
  have hshrinks := s.engine.storageManager.shrinks_proceed handle clock
  unfold proceed
  dsimp only
  generalize (s.engine.storageManager.proceed handle clock).2 = m at *
  refine ⟨?_, ?_⟩
  · intro r hmem
    obtain ⟨r', hmem', rfl⟩ := List.mem_map.mp hmem
    exact (h.requests r' hmem').expire m.objLockManager
  · have hcount : heldCount ⟨(s.withStorage m).engine,
        s.requests.map fun r => r.expire m.objLockManager⟩ =
        fun key => if key ∈ m.objLockManager.locks then s.heldCount key else 0 := by
      funext key
      unfold heldCount
      rw [List.map_map]
      split
      · rename_i hmem
        congr 1
        apply List.map_congr_left
        intro r _
        exact List.count_filter (by simpa using hmem)
      · rename_i hmem
        apply List.sum_eq_zero
        intro n hn
        obtain ⟨r, -, rfl⟩ := List.mem_map.mp hn
        rw [Function.comp_apply, List.count_eq_zero]
        intro hin
        exact hmem (of_decide_eq_true (List.mem_filter.mp hin).2)
    have hcounts := h.counts.shrink hshrinks
    rw [← hcount] at hcounts
    exact hcounts

theorem settled_step {e : ServerEvent} (h : s.Settled) (hp : s.Proper e) : (s.step e).Settled := by
  match e with
  | .registerKvCache _ => exact ⟨h.requests, h.counts⟩
  | .unregisterKvCache _ => exact ⟨h.requests, h.counts⟩
  | .lookup ipcKeys lock clock => exact settled_lookup h hp lock clock
  | .retrieve request worker instanceId slotMapping loop =>
    exact settled_retrieve h request worker instanceId slotMapping loop hp
  | .onRetrieveFinished request worker => exact settled_onRetrieveFinished h request worker hp
  | .reserve _ _ _ _ => exact h.withStorage rfl
  | .proceed handle clock => exact settled_proceed h handle clock
  | .commit handle => exact h.withStorage (MPStorageManager.objLockManager_commit _ handle)
  | .clear => exact h.withStorage rfl
  | .expand => exact h.withStorage rfl

end MPServer

/-! ## What is asked for -/

namespace Request

/-- What the retrieve of a worker has unlocked. -/
def unlockedBy (r : Request) (worker : Int) : List StorageKey :=
  match r.retrieves worker with
  | .waiting => []
  | .running unlocked _ => unlocked
  | .finished unlocked => unlocked

/-- **The locks and unlocks of a request balance**: what is locked are the shards of the reported
chunks; each lock is held, has expired or was unlocked, and is so once; a retrieve that is over has
unlocked the shards of its worker; and no callback has taken a lock of others. -/
structure Balanced (r : Request) : Prop where
  locked : r.locked = r.shards
  once : ∀ key, r.held.count key + r.expired.count key + (r.unlockedBy key.workerId).count key =
    r.locked.count key
  finished : ∀ worker unlocked, r.retrieves worker = .finished unlocked →
    unlocked = r.locked.filter fun key => key.workerId = worker
  stolen : r.stolen = []

theorem filter_storageKeys {k : IPCCacheEngineKey} {worker : Int} (h : k.workerId = none)
    (hworker : worker ∈ IPCCacheEngineKey.range k.worldSize) :
    k.storageKeys.filter (fun key => key.workerId = worker) = [k.shard worker] := by
  have hcomp : ((fun key : StorageKey => decide (key.workerId = worker)) ∘ k.shard) =
      fun w => w == worker := rfl
  rw [IPCCacheEngineKey.storageKeys_of_none h, List.filter_map, hcomp, List.filter_beq,
    List.count_eq_one_of_mem (IPCCacheEngineKey.nodup_range _) hworker]
  rfl

/-- The shards of a worker among those of the reported chunks. -/
theorem Settled.filter_shards {r : Request} (h : r.Settled) {worker : Int}
    (hworker : worker ∈ r.workers) :
    r.shards.filter (fun key => key.workerId = worker) = r.shardsOf worker := by
  have hchunks : ∀ k ∈ r.hits, k.storageKeys.filter (fun key => key.workerId = worker) =
      [k.shard worker] := by
    intro k hk
    obtain ⟨hnone, hrange⟩ := workers_of_chunk (h.chunks k hk)
    rw [← hrange] at hworker
    exact filter_storageKeys hnone hworker
  rw [shardsOf_eq]
  unfold shards
  rw [List.filter_flatMap]
  generalize r.hits = hits at hchunks ⊢
  induction hits with
  | nil => rfl
  | cons k ks ih =>
    rw [List.flatMap_cons, List.map_cons, hchunks k List.mem_cons_self,
      ih fun k' hk' => hchunks k' (List.mem_cons_of_mem _ hk')]
    rfl

theorem Settled.balanced {r : Request} (h : r.Settled) : r.Balanced where
  locked := h.locked
  once := by
    intro key
    rw [h.held key]
    have hstage := h.stages key.workerId
    unfold StageOk at hstage
    unfold left unlockedBy
    match hretrieve : r.retrieves key.workerId with
    | .waiting =>
      dsimp only
      rw [List.count_nil, Nat.add_zero]
      split
      · rename_i hworker
        exact (h.count_locked hworker).symm
      · rename_i hworker
        rw [h.locked, shards, count_shards fun k hk => workers_of_chunk (h.chunks k hk),
          if_neg hworker, List.count_nil]
    | .running unlocked remaining =>
      rw [hretrieve] at hstage
      obtain ⟨hworker, hshards⟩ := hstage
      dsimp only
      rw [if_pos hworker, h.count_locked hworker, hshards, List.count_append]
      exact Nat.add_comm _ _
    | .finished unlocked =>
      rw [hretrieve] at hstage
      obtain ⟨hworker, hshards⟩ := hstage
      dsimp only
      rw [if_pos hworker, h.count_locked hworker, hshards, List.count_nil, Nat.zero_add]
  finished := by
    intro worker unlocked hretrieve
    have hstage := h.stages worker
    unfold StageOk at hstage
    rw [hretrieve] at hstage
    rw [h.locked, h.filter_shards hstage.1]
    exact hstage.2.symm
  stolen := h.stolen

end Request

namespace MPServer

/-- Every request balances, and the lock manager counts what the requests hold. -/
structure Balanced (s : MPServer) : Prop where
  requests : ∀ r ∈ s.requests, r.Balanced
  counts : s.engine.storageManager.objLockManager.Counts s.heldCount

theorem Settled.balanced {s : MPServer} (h : s.Settled) : s.Balanced :=
  ⟨fun r hr => (h.requests r hr).balanced, h.counts⟩

def chunkOf (n : UInt8) : IPCCacheEngineKey := ⟨"m", 2, none, [n]⟩

/-- A store of a page for each key, from the draw of the handle to the commit. -/
def storePages (handle : Nat) (keys : List StorageKey) (clock : Rat) : List ServerEvent :=
  [.reserve keys [4096] .uint8 ⟨.KV_2LTD, kv2ltd_mem_pinFormats⟩] ++
    List.replicate (keys.length + 3) (.proceed handle fun _ _ => clock) ++ [.commit handle]

def lookupChunks (chunks : List IPCCacheEngineKey) (clock : Rat) : ServerEvent :=
  .lookup chunks none fun _ => clock

/-- Two requests look the same chunk up; the retrieve of one of them fails, and its callback unlocks
between the steps of the others. -/
def sharedRun : List ServerEvent :=
  storePages 0 (chunkOf 0).storageKeys 0 ++
    [.registerKvCache 5, .registerKvCache 6, lookupChunks [chunkOf 0, chunkOf 1] 1,
      lookupChunks [chunkOf 0] 2, .retrieve 0 0 5 none (some (.runtimeError "copy")),
      .retrieve 1 0 5 none none, .onRetrieveFinished 0 0, .retrieve 0 1 6 none none,
      .onRetrieveFinished 1 0, .onRetrieveFinished 0 0, .onRetrieveFinished 0 1,
      .onRetrieveFinished 1 0, .onRetrieveFinished 0 1]

/-- Only the shard of the first worker is there when the chunk is looked up. -/
def partialRun : List ServerEvent :=
  storePages 0 [(chunkOf 0).shard 0] 0 ++ [lookupChunks [chunkOf 0] 1]

/-- The chunk is there, and the instance that retrieves it is not registered. -/
def unregisteredRun : List ServerEvent :=
  storePages 0 (chunkOf 0).storageKeys 0 ++
    [lookupChunks [chunkOf 0] 1, .retrieve 0 0 5 none none]

/-- The locks of a request expire, its chunk is evicted, stored anew and looked up by another, and
then the callback of the first unlocks. -/
def expiredRun : List ServerEvent :=
  storePages 0 (chunkOf 0).storageKeys 0 ++
    [.registerKvCache 5, lookupChunks [chunkOf 0] 1, .retrieve 0 0 5 none none] ++
    storePages 1 (chunkOf 1).storageKeys 1000 ++ storePages 2 (chunkOf 0).storageKeys 2000 ++
    [lookupChunks [chunkOf 0] 2001, .onRetrieveFinished 0 0]

end MPServer

end LMCache.Multiprocess
