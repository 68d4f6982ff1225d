/-
# LMCache.CacheEngine.TierLookups — the three lookups that split keys among the tiers.

Source: `batched_contains`, `get_block_mapping` and the tier loop of `async_lookup_and_prefetch` in
`v1/storage_backend/storage_manager.py`; `batched_contains` in
`v1/storage_backend/abstract_backend.py`, and `batched_async_contains` in
`v1/storage_backend/nixl_storage_backend.py`, for what a backend answers.

The first loop slices the remaining keys, the second the chunks at the count so far, the third the
remaining keys along with their cumulated lengths.  Each is the same walk over the tiers, so each
splits a prefix of the keys among tiers that hold them.

What a backend holds is fixed while a lookup runs.  A backend answers with a count of the first keys
that never goes beyond what it holds; it may say less, as a remote one does that has timed out.
Pinning changes no answer: what the backends are asked to pin is collected beside the mapping.
-/
import LMCache.CacheEngine.Prefetch
import LMCache.Lib.TierWalk

namespace LMCache.Storage

open LMCache.Lib

/-! ## What a backend answers -/

namespace StorageBackend

theorem countContained_append (contains : CacheEngineKey → Bool)
    (front back : List CacheEngineKey) :
    countContained contains (front ++ back) =
      if countContained contains front < front.length then countContained contains front
      else front.length + countContained contains back := by
  induction front with
  | nil => simp [countContained]
  | cons key front ih =>
    simp only [List.cons_append, countContained, ih, List.length_cons]
    by_cases hkey : contains key
    · simp only [hkey, if_true]
      split <;> split <;> omega
    · simp [hkey]

/-- `NixlDynamicStorageBackend.batched_async_contains`: 16 keys are checked at a time, and the first
batch with a miss ends the count. -/
def countInBatches (contains : CacheEngineKey → Bool) (keys : List CacheEngineKey) : Nat :=
  if _h : keys = [] then 0
  else
    let hits := countContained contains (keys.take 16)
    if hits < (keys.take 16).length then hits
    else (keys.take 16).length + countInBatches contains (keys.drop 16)
termination_by keys.length
decreasing_by
  have hpos := List.length_pos_iff.mpr _h
  rw [List.length_drop]
  omega

end StorageBackend

/-- What the backends of a manager hold, and how their calls relate to it. -/
structure TierContents (sm : StorageManager) where
  holds : String → CacheEngineKey → Bool
  /-- The asynchronous calls of each backend. -/
  async : String → AsyncBackend
  counts : ∀ b ∈ sm.storageBackends.entries,
    CountsHeld (fun t key => holds t.1 key = true) (fun t keys => t.2.batchedContains keys) b
  counts_async : ∀ name (keys : List CacheEngineKey),
    ∀ key ∈ keys.take ((async name).batchedAsyncContains keys), holds name key = true

/-! ## The loops -/

/-- What `batched_contains` gives back, and what it asks the backends to pin. -/
structure TierLookup where
  totalHitChunks : Nat
  blockMapping : Dict String (List CacheEngineKey)
  pinned : List (String × CacheEngineKey)

namespace StorageManager

/-- `pin_in_backend`: nothing is pinned in a `PDBackend`. -/
def pinInBackend (pin : Bool) (backendName : String) : Bool :=
  if backendName != "PDBackend" then pin else false

/-- The loop of `batched_contains` over the backends. -/
def batchedContainsFrom (totalKeys : Nat) (pin : Bool) : List (String × StorageBackend) →
    List CacheEngineKey → TierLookup → TierLookup
  | [], _, r => r
  | (name, backend) :: rest, keys, r =>
    let hitChunks := backend.batchedContains keys
    if hitChunks = 0 then batchedContainsFrom totalKeys pin rest keys r
    else
      let r : TierLookup :=
        ⟨r.totalHitChunks + hitChunks, r.blockMapping.set name (keys.take hitChunks),
          r.pinned ++
            if pinInBackend pin name then (keys.take hitChunks).map fun key => (name, key) else []⟩
      if r.totalHitChunks = totalKeys then r
      else batchedContainsFrom totalKeys pin rest (keys.drop hitChunks) r

/-- `batched_contains`: the number of leading keys that are held, and which tier holds which. -/
def batchedContains (sm : StorageManager) (keys : List CacheEngineKey)
    (searchRange : Option (List String)) (pin : Bool) : TierLookup :=
  batchedContainsFrom keys.length pin (sm.getActiveStorageBackends none searchRange) keys
    ⟨0, .empty, []⟩

/-! ## Each loop is the walk -/

/-- How many of the keys a backend counts. -/
def countKeys (b : String × StorageBackend) (keys : List CacheEngineKey) : Nat :=
  b.2.batchedContains keys

/-- The keys to be pinned in the tiers of a mapping. -/
def pinsOf (pin : Bool) (slices : List (String × List CacheEngineKey)) :
    List (String × CacheEngineKey) :=
  slices.flatMap fun s => if pinInBackend pin s.1 then s.2.map fun key => (s.1, key) else []

/-- A walk with the tiers by their names. -/
def named {σ κ : Type} (slices : List ((String × σ) × List κ)) : List (String × List κ) :=
  slices.map fun s => (s.1.1, s.2)

theorem notMem_set_of_new {ν : Type} {name : String} {v : ν} {d : Dict String ν}
    {rest : List (String × StorageBackend)} (hname : name ∉ rest.map Prod.fst)
    (hnew : ∀ b ∈ rest, b.1 ∉ d) : ∀ b ∈ rest, b.1 ∉ d.set name v := by
  intro b hb hmem
  rcases (Dict.mem_set _ _ _ _).mp hmem with rfl | hmem
  · exact hname (List.mem_map_of_mem hb)
  · exact hnew b hb hmem

/-- A backend counts nothing of no keys. -/
theorem batchedContains_nil {b : String × StorageBackend}
    (hle : ∀ keys, countKeys b keys ≤ keys.length) : b.2.batchedContains [] = 0 :=
  Nat.le_zero.mp (hle [])

variable {active : List (String × StorageBackend)}

/-- With no keys left the loop of `batched_contains` changes nothing. -/
theorem batchedContainsFrom_nil (totalKeys : Nat) (pin : Bool)
    (hle : ∀ b ∈ active, ∀ keys, countKeys b keys ≤ keys.length) (r : TierLookup) :
    batchedContainsFrom totalKeys pin active [] r = r := by
  induction active with
  | nil => rfl
  | cons b rest ih =>
    rw [List.forall_mem_cons] at hle
    exact (if_pos (batchedContains_nil hle.1)).trans (ih hle.2)

/-- **The loop of `batched_contains` is the walk over the tiers**: leaving early, once every key is
assigned, leaves nothing out. -/
theorem batchedContainsFrom_eq {totalKeys : Nat} (pin : Bool) {keys : List CacheEngineKey}
    {r : TierLookup} (hle : ∀ b ∈ active, ∀ keys, countKeys b keys ≤ keys.length)
    (hnodup : (active.map Prod.fst).Nodup) (hnew : ∀ b ∈ active, b.1 ∉ r.blockMapping)
    (htotal : r.totalHitChunks + keys.length = totalKeys) :
    let out := batchedContainsFrom totalKeys pin active keys r
    let slices := named (tierWalk countKeys active keys)
    out.totalHitChunks = r.totalHitChunks + tierTotal countKeys active keys ∧
      out.blockMapping.entries = r.blockMapping.entries ++ slices ∧
      out.pinned = r.pinned ++ pinsOf pin slices := by
  induction active generalizing keys r with
  | nil => simp [batchedContainsFrom, tierWalk, tierTotal, named, pinsOf]
  | cons b rest ih =>
    rw [List.map_cons, List.nodup_cons] at hnodup
    rw [List.forall_mem_cons] at hnew hle
    have hfirst := hle.1 keys
    by_cases hzero : countKeys b keys = 0
    · have hskip : batchedContainsFrom totalKeys pin (b :: rest) keys r =
          batchedContainsFrom totalKeys pin rest keys r := if_pos hzero
      rw [tierWalk_cons_of_eq_zero hzero, tierTotal_cons_of_eq_zero hzero, hskip]
      exact ih hle.2 hnodup.2 hnew.2 htotal
    · rw [tierWalk_cons_of_ne_zero hzero]
      have hset := Dict.entries_set_of_notMem hnew.1 (keys.take (countKeys b keys))
      generalize hr : (⟨r.totalHitChunks + countKeys b keys,
        r.blockMapping.set b.1 (keys.take (countKeys b keys)),
        r.pinned ++ if pinInBackend pin b.1 then
          (keys.take (countKeys b keys)).map fun key => (b.1, key) else []⟩ : TierLookup) = r'
      have hstep : batchedContainsFrom totalKeys pin (b :: rest) keys r =
          if r'.totalHitChunks = totalKeys then r'
          else batchedContainsFrom totalKeys pin rest (keys.drop (countKeys b keys)) r' := by
        subst hr
        exact if_neg hzero
      have htotal' : r'.totalHitChunks + (keys.drop (countKeys b keys)).length = totalKeys := by
        subst hr
        rw [List.length_drop]
        show r.totalHitChunks + countKeys b keys + _ = _
        omega
      have hrest : batchedContainsFrom totalKeys pin (b :: rest) keys r =
          batchedContainsFrom totalKeys pin rest (keys.drop (countKeys b keys)) r' := by
        rw [hstep]
        split
        · -- the tiers behind have nothing left to be asked for
          have hleft : keys.drop (countKeys b keys) = [] :=
            List.eq_nil_of_length_eq_zero (by omega)
          rw [hleft, batchedContainsFrom_nil totalKeys pin hle.2]
        · rfl
      have hnew' : ∀ b' ∈ rest, b'.1 ∉ r'.blockMapping := by
        subst hr
        exact notMem_set_of_new hnodup.1 hnew.2
      obtain ⟨htot, hentries, hpinned⟩ := ih hle.2 hnodup.2 hnew' htotal'
      rw [hrest]
      refine ⟨htot.trans ?_, hentries.trans ?_, hpinned.trans ?_⟩
      · subst hr
        exact Nat.add_assoc _ _ _
      · subst hr
        show (r.blockMapping.set _ _).entries ++ _ = _
        rw [hset, List.append_assoc]
        rfl
      · subst hr
        exact List.append_assoc _ _ _

/-- How many of the chunks a backend counts. -/
def countInfos (b : String × StorageBackend) (infos : List ChunkInfo) : Nat :=
  countKeys b (infos.map ChunkInfo.key)

theorem getBlockMappingFrom_nil (chunkInfos : List ChunkInfo)
    (hle : ∀ b ∈ active, ∀ keys, countKeys b keys ≤ keys.length)
    (mapping : Dict String (List ChunkInfo)) (total : Nat) :
    getBlockMappingFrom chunkInfos active [] mapping total = mapping := by
  induction active with
  | nil => rfl
  | cons b rest ih =>
    rw [List.forall_mem_cons] at hle
    exact (if_pos (batchedContains_nil hle.1)).trans (ih hle.2)

/-- **The loop of `get_block_mapping` is the walk over the tiers**, with slices of the chunks. -/
theorem getBlockMappingFrom_eq {chunkInfos : List ChunkInfo}
    {mapping : Dict String (List ChunkInfo)} {total : Nat}
    (hle : ∀ b ∈ active, ∀ keys, countKeys b keys ≤ keys.length)
    (hnodup : (active.map Prod.fst).Nodup) (hnew : ∀ b ∈ active, b.1 ∉ mapping) :
    (getBlockMappingFrom chunkInfos active ((chunkInfos.drop total).map ChunkInfo.key) mapping
        total).entries =
      mapping.entries ++ named (tierWalk countInfos active (chunkInfos.drop total)) := by
  induction active generalizing mapping total with
  | nil => simp [getBlockMappingFrom, tierWalk, named]
  | cons b rest ih =>
    rw [List.map_cons, List.nodup_cons] at hnodup
    rw [List.forall_mem_cons] at hnew hle
    generalize hleft : chunkInfos.drop total = left
    have hfirst : countInfos b left ≤ (left.map ChunkInfo.key).length := hle.1 _
    by_cases hzero : countInfos b left = 0
    · have hskip : getBlockMappingFrom chunkInfos (b :: rest) (left.map ChunkInfo.key) mapping
          total = getBlockMappingFrom chunkInfos rest (left.map ChunkInfo.key) mapping total :=
        if_pos hzero
      rw [tierWalk_cons_of_eq_zero hzero, hskip, ← hleft]
      exact ih hle.2 hnodup.2 hnew.2
    · have hset := Dict.entries_set_of_notMem hnew.1 (left.take (countInfos b left))
      generalize hmapping : mapping.set b.1 (left.take (countInfos b left)) = mapping' at hset
      have hdrop : left.drop (countInfos b left) = chunkInfos.drop (total + countInfos b left) := by
        rw [← hleft, List.drop_drop]
      have hstep : getBlockMappingFrom chunkInfos (b :: rest) (left.map ChunkInfo.key) mapping
          total = if total + countInfos b left = chunkInfos.length then mapping'
          else getBlockMappingFrom chunkInfos rest
            ((left.map ChunkInfo.key).drop (countInfos b left)) mapping'
            (total + countInfos b left) := by
        rw [← hmapping, ← hleft]
        rw [← hleft] at hzero
        exact if_neg hzero
      have hrest : getBlockMappingFrom chunkInfos (b :: rest) (left.map ChunkInfo.key) mapping
          total = getBlockMappingFrom chunkInfos rest
            ((chunkInfos.drop (total + countInfos b left)).map ChunkInfo.key) mapping'
            (total + countInfos b left) := by
        rw [hstep, ← List.map_drop, hdrop]
        split
        · rename_i hall
          rw [hall, List.drop_length, List.map_nil, getBlockMappingFrom_nil chunkInfos hle.2]
        · rfl
      have hnew' : ∀ b' ∈ rest, b'.1 ∉ mapping' :=
        hmapping ▸ notMem_set_of_new hnodup.1 hnew.2
      rw [tierWalk_cons_of_ne_zero hzero, hrest, ih hle.2 hnodup.2 hnew', hset, hdrop,
        List.append_assoc]
      rfl

/-! ## The tasks of the tiers -/

/-- How many of the keys a backend counts, when asked asynchronously. -/
def countAsync (b : String × AsyncBackend) (keys : List CacheEngineKey) : Nat :=
  b.2.batchedAsyncContains keys

/-- What the tasks of some slices load, and from where: each tier reads its own keys, and is given
the cumulated lengths from the end of the tier before it on. -/
def tasksOf : List ((String × AsyncBackend) × List CacheEngineKey) → List Nat →
    List (List CacheEngineKey × Nat × Except PyError (List MemoryObjRef))
  | [], _ => []
  | (b, keys) :: rest, cumChunkLengths =>
    (keys, keys.length,
        b.2.batchedGetNonBlocking keys (cumChunkLengths.take (keys.length + 1))) ::
      tasksOf rest (cumChunkLengths.drop keys.length)

theorem tasksOf_cons (b : String × AsyncBackend) (keys : List CacheEngineKey)
    (rest : List ((String × AsyncBackend) × List CacheEngineKey)) (cumChunkLengths : List Nat) :
    tasksOf ((b, keys) :: rest) cumChunkLengths =
      (keys, keys.length,
          b.2.batchedGetNonBlocking keys (cumChunkLengths.take (keys.length + 1))) ::
        tasksOf rest (cumChunkLengths.drop keys.length) := rfl

theorem sum_expected_tasksOf (slices : List ((String × AsyncBackend) × List CacheEngineKey))
    (cumChunkLengths : List Nat) :
    ((tasksOf slices cumChunkLengths).map fun t => t.2.1).sum =
      (slices.flatMap Prod.snd).length := by
  induction slices generalizing cumChunkLengths with
  | nil => rfl
  | cons s rest ih =>
    obtain ⟨b, keys⟩ := s
    rw [tasksOf_cons, List.map_cons, List.sum_cons, ih, List.flatMap_cons, List.length_append]

theorem tierTasks_nil (totalChunks : Nat) (active : List AsyncBackend) (cumChunkLengths : List Nat)
    (hitChunks : Nat) : tierTasks totalChunks active [] cumChunkLengths hitChunks = [] := by
  induction active with
  | nil => rfl
  | cons b rest ih =>
    have hzero : b.batchedAsyncContains [] = 0 := Nat.le_zero.mp (b.contains_le [])
    exact (if_pos hzero).trans ih

/-- **The tier loop of `async_lookup_and_prefetch` is the walk over the tiers.** -/
theorem tierTasks_eq {totalChunks : Nat} {active : List (String × AsyncBackend)}
    {keys : List CacheEngineKey} {cumChunkLengths : List Nat} {hitChunks : Nat}
    (htotal : hitChunks + keys.length = totalChunks) :
    (tierTasks totalChunks (active.map Prod.snd) keys cumChunkLengths hitChunks).map
        (fun t => (t.keys, t.expectedChunks, t.result)) =
      tasksOf (tierWalk countAsync active keys) cumChunkLengths := by
  induction active generalizing keys cumChunkLengths hitChunks with
  | nil => rfl
  | cons b rest ih =>
    have hle : countAsync b keys ≤ keys.length := b.2.contains_le keys
    have hlength : (keys.take (countAsync b keys)).length = countAsync b keys := by
      rw [List.length_take]
      omega
    by_cases hzero : countAsync b keys = 0
    · have hskip : tierTasks totalChunks ((b :: rest).map Prod.snd) keys cumChunkLengths hitChunks =
          tierTasks totalChunks (rest.map Prod.snd) keys cumChunkLengths hitChunks := if_pos hzero
      rw [tierWalk_cons_of_eq_zero hzero, hskip]
      exact ih htotal
    · have hstep : tierTasks totalChunks ((b :: rest).map Prod.snd) keys cumChunkLengths hitChunks =
          .ofBackend b.2 keys cumChunkLengths ::
            if hitChunks + countAsync b keys = totalChunks then []
            else tierTasks totalChunks (rest.map Prod.snd) (keys.drop (countAsync b keys))
              (cumChunkLengths.drop (countAsync b keys)) (hitChunks + countAsync b keys) :=
        if_neg hzero
      have hrest : tierTasks totalChunks ((b :: rest).map Prod.snd) keys cumChunkLengths hitChunks =
          .ofBackend b.2 keys cumChunkLengths ::
            tierTasks totalChunks (rest.map Prod.snd) (keys.drop (countAsync b keys))
              (cumChunkLengths.drop (countAsync b keys)) (hitChunks + countAsync b keys) := by
        rw [hstep]
        split
        · have hleft : keys.drop (countAsync b keys) = [] := List.drop_eq_nil_of_le (by omega)
          rw [hleft, tierTasks_nil]
        · rfl
      rw [tierWalk_cons_of_ne_zero hzero, hrest, List.map_cons,
        ih (by rw [List.length_drop]; omega), tasksOf_cons, hlength]
      rfl

/-! ## The claims of the three lookups -/

section

variable {sm : StorageManager}

theorem mem_of_active {location : Option String} {searchRange : Option (List String)}
    {b : String × StorageBackend}
    (h : b ∈ sm.getActiveStorageBackends location searchRange) :
    b ∈ sm.storageBackends.entries := List.mem_of_mem_filter h

theorem countKeys_le (c : TierContents sm) (searchRange : Option (List String)) :
    ∀ b ∈ sm.getActiveStorageBackends none searchRange, ∀ keys,
      countKeys b keys ≤ keys.length :=
  fun b hb => (c.counts b (mem_of_active hb)).le

/-- The slices of a walk, by the names of the backends, split the keys among backends that hold
them. -/
theorem tierPartition_named (c : TierContents sm) (searchRange : Option (List String))
    (keys : List CacheEngineKey) :
    TierPartition (fun name key => c.holds name key = true)
      ((sm.getActiveStorageBackends none searchRange).map Prod.fst) keys
      (tierTotal countKeys (sm.getActiveStorageBackends none searchRange) keys)
      (named (tierWalk countKeys (sm.getActiveStorageBackends none searchRange) keys)) :=
  (tierPartition_tierWalk (fun b hb => c.counts b (mem_of_active hb)) keys).mapTiers
    Prod.fst fun _ _ _ h => h

theorem batchedContains_eq (c : TierContents sm) (searchRange : Option (List String))
    (keys : List CacheEngineKey) (pin : Bool) :
    let out := sm.batchedContains keys searchRange pin
    let active := sm.getActiveStorageBackends none searchRange
    out.totalHitChunks = tierTotal countKeys active keys ∧
      out.blockMapping.entries = named (tierWalk countKeys active keys) ∧
      out.pinned = pinsOf pin out.blockMapping.entries := by
  obtain ⟨htotal, hentries, hpinned⟩ := batchedContainsFrom_eq pin (countKeys_le c searchRange)
    (sm.nodup_getActiveStorageBackends none searchRange) (r := ⟨0, .empty, []⟩)
    (fun _ _ h => Dict.not_mem_empty _ h) (Nat.zero_add keys.length)
  refine ⟨htotal.trans (Nat.zero_add _), hentries, ?_⟩
  exact hpinned.trans (congrArg (pinsOf pin) hentries.symm)

theorem entries_getBlockMappingFrom (c : TierContents sm) (searchRange : Option (List String))
    (chunkInfos : List ChunkInfo) :
    let active := sm.getActiveStorageBackends none searchRange
    (getBlockMappingFrom chunkInfos active (chunkInfos.map ChunkInfo.key) .empty 0).entries =
      named (tierWalk countInfos active chunkInfos) := by
  intro active
  have h : (getBlockMappingFrom chunkInfos active ((chunkInfos.drop 0).map ChunkInfo.key) .empty
      0).entries = [] ++ named (tierWalk countInfos active (chunkInfos.drop 0)) :=
    getBlockMappingFrom_eq (countKeys_le c searchRange)
      (sm.nodup_getActiveStorageBackends none searchRange) (fun _ _ h => Dict.not_mem_empty _ h)
  exact h

/-- The tasks of any tiers split a prefix of the keys among them. -/
theorem tasks_partition (c : TierContents sm) (names : List String) (keys : List CacheEngineKey)
    (cumChunkLengths : List Nat) :
    let tasks := tierTasks keys.length (names.map c.async) keys cumChunkLengths 0
    ∃ slices, TierPartition (fun b key => c.holds b.1 key = true)
        (names.map fun name => (name, c.async name)) keys
        (tasks.map TierTask.expectedChunks).sum slices ∧
      tasks.map (fun t => (t.keys, t.expectedChunks, t.result)) =
        tasksOf slices cumChunkLengths := by
  intro tasks
  generalize hactive : names.map (fun name => (name, c.async name)) = active
  have htasks : tasks.map (fun t => (t.keys, t.expectedChunks, t.result)) =
      tasksOf (tierWalk countAsync active keys) cumChunkLengths := by
    rw [← tierTasks_eq (Nat.zero_add keys.length), ← hactive, List.map_map]
    rfl
  have hcounts : ∀ b ∈ active, CountsHeld (fun b key => c.holds b.1 key = true) countAsync b := by
    subst hactive
    rw [List.forall_mem_map]
    intro name _
    exact ⟨(c.async name).contains_le, c.counts_async name⟩
  have hpartition := tierPartition_tierWalk hcounts keys
  -- the chunks expected from the tasks are the keys of the slices
  have hsum : (tasks.map TierTask.expectedChunks).sum = tierTotal countAsync active keys := by
    have hexpected := congrArg (fun l => (l.map fun t => t.2.1).sum) htasks
    simp only [List.map_map] at hexpected
    refine hexpected.trans ((sum_expected_tasksOf _ _).trans ?_)
    rw [hpartition.tiles, List.length_take, Nat.min_eq_left hpartition.total_le]
  exact ⟨_, hsum ▸ hpartition, htasks⟩

end

end StorageManager

end LMCache.Storage
