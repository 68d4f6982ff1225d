/-
# LMCache.CacheEngine.ProcessTokens — the blocking token walk of `retrieve`, and when it is exact.

Source: `LMCacheEngine._process_tokens_internal` in `v1/cache_engine.py`.

The chunks of the tokens are split over the tiers of the storage, and each tier is read in one batch.
Of a batch the walk uses what stands before its first failed read.  It remembers where the failed
chunk starts, and after the last tier it cuts the mask off there and throws away the chunks that do
not end before.  Three things in this interact:

* a chunk that ends exactly where the failed chunk starts is thrown away, and its mask stays;
* with failures in several tiers the cut is at the last of them, not the first;
* what was read in a tier behind the first failing one lies behind a gap.

`TrimSafe` is the condition on the reads under which none of them shows, and
`prefixExact_iff_trimsExactly` says that it is exactly the condition for the result to be the longest
run of chunks that were read, with its mask.
-/
import LMCache.Lib.Reads
import LMCache.EventManager
import LMCache.Storage.StorageManager

namespace LMCache

open LMCache.Lib LMCache.Storage

/-! ## The engine -/

/-- What the future of a prefetch gives: for each tier, the keys and objects that were read. -/
abbrev PrefetchResult := List (List (CacheEngineKey × MemoryObjRef))

/-- The fields of `LMCacheEngine` that `retrieve` reads. -/
structure LMCacheEngine where
  tokenDatabase : TokenDatabase
  storageManager : StorageManager
  /-- lookup id → location → pinned keys -/
  lookupPins : Dict String (Dict String (List CacheEngineKey))
  eventManager : EventManager (Except PyError PrefetchResult)
  isHealthy : Bool
  hasGpuConnector : Bool
  asyncLoading : Bool
  removeAfterRetrieve : Bool
  saveOnlyFirstRank : Bool
  isFirstRank : Bool

/-- The arguments of `retrieve`. -/
structure RetrieveRequest where
  tokens : List Int
  mask : Option (List Bool)
  reqId : Option String
  requestConfigs : RequestConfigs

/-- A chunk with the object that was read for it: `(key, memory_obj, start, end)`. -/
abbrev ProcessedChunk := ChunkInfo × MemoryObjRef

/-- `ret_mask[start:end] = value`. -/
def setSlice (mask : List Bool) (start stop : Nat) (value : Bool) : List Bool :=
  mask.mapIdx fun i b => if start ≤ i ∧ i < stop then value else b

@[simp] theorem length_setSlice (mask : List Bool) (start stop : Nat) (value : Bool) :
    (setSlice mask start stop value).length = mask.length := List.length_mapIdx

theorem getElem?_setSlice {mask : List Bool} {i : Nat} (h : i < mask.length) (start stop : Nat)
    (value : Bool) : (setSlice mask start stop value)[i]? =
      if start ≤ i ∧ i < stop then some value else mask[i]? := by
  rw [setSlice, List.getElem?_mapIdx, List.getElem?_eq_getElem h, Option.map_some]
  split <;> rfl

/-- What the walk has gathered: its local variables and the mask it writes to. -/
structure TokenPass where
  lastFailedBlockStart : Option Nat
  reorderedChunks : List ProcessedChunk
  totKvSize : Nat
  retMask : List Bool
  deriving DecidableEq, Repr

namespace TokenPass

/-- The pass before the first read, over an empty mask. -/
def init (len : Nat) : TokenPass := ⟨none, [], 0, List.replicate len false⟩

/-- The body of the inner loop for a chunk that was read. -/
def keep (p : TokenPass) (info : ChunkInfo) (obj : MemoryObjRef) : TokenPass :=
  { p with
    reorderedChunks := p.reorderedChunks ++ [(info, obj)]
    totKvSize := p.totKvSize + obj.size
    retMask := setSlice p.retMask info.start info.stop true }

/-- The test and the assignment for a chunk that could not be read: the later start wins. -/
def laterFailure (last : Option Nat) (start : Nat) : Option Nat :=
  match last with
  | none => some start
  | some s => if s < start then some start else some s

/-- The inner loop over one tier; it breaks at the first failed read. -/
def readBlocks (p : TokenPass) : Reads ChunkInfo MemoryObjRef → TokenPass
  | [] => p
  | (info, none) :: _ =>
    { p with lastFailedBlockStart := laterFailure p.lastFailedBlockStart info.start }
  | (info, some obj) :: rest => readBlocks (p.keep info obj) rest

/-- What follows the loops: cut the mask at the failed chunk, keep the chunks that end before it. -/
def trim (p : TokenPass) : TokenPass :=
  match p.lastFailedBlockStart with
  | none => p
  | some start =>
    { p with
      retMask := setSlice p.retMask start p.retMask.length false
      reorderedChunks := p.reorderedChunks.filter fun c => c.1.stop < start }

end TokenPass

namespace LMCacheEngine

/-- What `process_tokens` yields for the request. -/
def chunkInfos (e : LMCacheEngine) (req : RetrieveRequest) : PyGen ChunkInfo :=
  e.tokenDatabase.processTokens (.ofTokens req.tokens req.mask) req.requestConfigs

/-- The block mapping: all chunks under the one location that a lookup has pinned, or the tiers that
hold them now. -/
def blockMapping (e : LMCacheEngine) (req : RetrieveRequest) (infos : List ChunkInfo) :
    Dict String (List ChunkInfo) :=
  match (req.reqId.bind e.lookupPins.get?).map Dict.keys with
  | some [location] => Dict.empty.set location infos
  | _ => e.storageManager.getBlockMapping infos

/-- One turn of the outer loop: read a tier in one batch, then walk over it. -/
def readTier (e : LMCacheEngine) (p : TokenPass) (tier : String × List ChunkInfo) :
    Except PyError TokenPass := do
  let read ← e.storageManager.batchedGet (tier.2.map ChunkInfo.key) (some tier.1)
  return p.readBlocks (tier.2.zip read.objs)

/-- The outer loop. -/
def readMapping (e : LMCacheEngine) (p : TokenPass) :
    List (String × List ChunkInfo) → Except PyError TokenPass
  | [] => .ok p
  | tier :: tiers => do
    let p ← e.readTier p tier
    e.readMapping p tiers

/-- `_process_tokens_internal`, over the empty mask that `retrieve` gives it. -/
def processTokensInternal (e : LMCacheEngine) (req : RetrieveRequest) :
    Except PyError TokenPass := do
  let infos ← (e.chunkInfos req).collect
  let p ← e.readMapping (.init req.tokens.length) (e.blockMapping req infos).entries
  return p.trim

/-! ## What the storage gives, read by read -/

/-- The chunks of the tiers, each with what its read gives. -/
def tierReads (e : LMCacheEngine) :
    List (String × List ChunkInfo) → Except PyError (List (Reads ChunkInfo MemoryObjRef))
  | [] => .ok []
  | tier :: tiers => do
    let read ← e.storageManager.batchedGet (tier.2.map ChunkInfo.key) (some tier.1)
    let reads ← e.tierReads tiers
    return tier.2.zip read.objs :: reads

/-- The reads of the request: the chunks, split over the tiers that are asked for them. -/
def requestReads (e : LMCacheEngine) (req : RetrieveRequest) (infos : List ChunkInfo) :
    Except PyError (List (Reads ChunkInfo MemoryObjRef)) :=
  e.tierReads (e.blockMapping req infos).entries

/-- The walk reads the tiers one after the other, and stops only where a read raises. -/
theorem readMapping_eq (e : LMCacheEngine) (p : TokenPass) (tiers : List (String × List ChunkInfo)) :
    e.readMapping p tiers =
      (e.tierReads tiers).map fun reads => reads.foldl TokenPass.readBlocks p := by
  induction tiers generalizing p with
  | nil => rfl
  | cons tier tiers ih =>
    unfold readMapping tierReads readTier
    cases e.storageManager.batchedGet (tier.2.map ChunkInfo.key) (some tier.1) with
    | error err => rfl
    | ok read =>
      show e.readMapping (p.readBlocks (tier.2.zip read.objs)) tiers = _
      rw [ih]
      cases e.tierReads tiers <;> rfl

/-- The blocks of the mapping are the first of the chunks. -/
theorem mapped_blockMapping_prefix (e : LMCacheEngine) (req : RetrieveRequest)
    (infos : List ChunkInfo) : StorageManager.mapped (e.blockMapping req infos) <+: infos := by
  unfold blockMapping
  split
  · show infos ++ [] <+: infos
    rw [List.append_nil]
  · exact e.storageManager.mapped_getBlockMapping_prefix infos

/-- Every chunk of a tier gets an entry of the read. -/
theorem map_fst_tierReads {e : LMCacheEngine} {tiers : List (String × List ChunkInfo)}
    {reads : List (Reads ChunkInfo MemoryObjRef)} (h : e.tierReads tiers = .ok reads) :
    reads.flatten.map Prod.fst = tiers.flatMap Prod.snd := by
  induction tiers generalizing reads with
  | nil => cases h; rfl
  | cons tier tiers ih =>
    obtain ⟨read, hread, h⟩ := bind_eq_ok.mp h
    obtain ⟨rest, hrest, h⟩ := bind_eq_ok.mp h
    cases h
    have hlen : tier.2.length = read.objs.length := by
      rw [StorageManager.length_batchedGet hread, List.length_map]
    rw [List.flatten_cons, List.map_append, ih hrest, List.flatMap_cons,
      List.map_fst_zip hlen.le]

end LMCacheEngine

/-! ## The walk in closed form -/

namespace TokenPass

theorem readBlocks_reorderedChunks (p : TokenPass) (l : Reads ChunkInfo MemoryObjRef) :
    (p.readBlocks l).reorderedChunks = p.reorderedChunks ++ Reads.hitPrefix l := by
  induction l generalizing p with
  | nil => exact (List.append_nil _).symm
  | cons c l ih =>
    rcases c with ⟨info, _ | obj⟩
    · exact (List.append_nil _).symm
    · show ((p.keep info obj).readBlocks l).reorderedChunks = _
      rw [ih]
      exact List.append_assoc _ [(info, obj)] _

theorem readBlocks_lastFailedBlockStart (p : TokenPass) (l : Reads ChunkInfo MemoryObjRef) :
    (p.readBlocks l).lastFailedBlockStart = (Reads.firstMiss l).elim p.lastFailedBlockStart
      fun info => laterFailure p.lastFailedBlockStart info.start := by
  induction l generalizing p with
  | nil => rfl
  | cons c l ih =>
    rcases c with ⟨info, _ | obj⟩
    · rfl
    · exact ih (p.keep info obj)

/-- The mask of a pass has the length of the tokens, and is set where a chunk was kept. -/
structure Marks (len : Nat) (p : TokenPass) : Prop where
  length : p.retMask.length = len
  set_iff : ∀ i < len, p.retMask[i]? = some true ↔
    ∃ c ∈ p.reorderedChunks, c.1.start ≤ i ∧ i < c.1.stop

theorem marks_init (len : Nat) : Marks len (init len) where
  length := List.length_replicate
  set_iff i hi := by
    rw [init, List.getElem?_replicate, if_pos hi]
    simp

variable {p : TokenPass}

theorem Marks.keep {len : Nat} (h : Marks len p) (info : ChunkInfo) (obj : MemoryObjRef) :
    Marks len (p.keep info obj) where
  length := (length_setSlice _ _ _ _).trans h.length
  set_iff i hi := by
    show (setSlice p.retMask info.start info.stop true)[i]? = some true ↔
      ∃ c ∈ p.reorderedChunks ++ [(info, obj)], c.1.start ≤ i ∧ i < c.1.stop
    rw [getElem?_setSlice (h.length.symm ▸ hi)]
    by_cases hin : info.start ≤ i ∧ i < info.stop
    · rw [if_pos hin]
      exact ⟨fun _ => ⟨(info, obj), by simp, hin⟩, fun _ => rfl⟩
    · rw [if_neg hin, h.set_iff i hi]
      constructor
      · rintro ⟨c, hc, hci⟩
        exact ⟨c, List.mem_append_left _ hc, hci⟩
      · rintro ⟨c, hc, hci⟩
        rcases List.mem_append.mp hc with hc | hc
        · exact ⟨c, hc, hci⟩
        · cases List.mem_singleton.mp hc
          exact absurd hci hin

theorem Marks.readBlocks {len : Nat} (h : Marks len p) (l : Reads ChunkInfo MemoryObjRef) :
    Marks len (p.readBlocks l) := by
  induction l generalizing p with
  | nil => exact h
  | cons c l ih =>
    rcases c with ⟨info, _ | obj⟩
    · exact ⟨h.length, h.set_iff⟩
    · exact ih (h.keep info obj)

/-- The walk over all tiers keeps the prefix of each. -/
theorem foldl_readBlocks_reorderedChunks (p : TokenPass)
    (tiers : List (Reads ChunkInfo MemoryObjRef)) :
    (tiers.foldl readBlocks p).reorderedChunks =
      p.reorderedChunks ++ tiers.flatMap Reads.hitPrefix := by
  induction tiers generalizing p with
  | nil => exact (List.append_nil _).symm
  | cons l tiers ih =>
    rw [List.foldl_cons, ih, readBlocks_reorderedChunks, List.flatMap_cons, List.append_assoc]

theorem Marks.foldl_readBlocks {len : Nat} (h : Marks len p)
    (tiers : List (Reads ChunkInfo MemoryObjRef)) :
    Marks len (tiers.foldl TokenPass.readBlocks p) := by
  induction tiers generalizing p with
  | nil => exact h
  | cons l tiers ih => exact ih (h.readBlocks l)

/-- The later failure wins, so with failures in order the last one does. -/
theorem foldl_readBlocks_lastFailedBlockStart (p : TokenPass)
    (tiers : List (Reads ChunkInfo MemoryObjRef))
    (hord : (tiers.filterMap Reads.firstMiss).Pairwise fun a b => a.start ≤ b.start)
    (hp : ∀ s, p.lastFailedBlockStart = some s →
      ∀ a ∈ tiers.filterMap Reads.firstMiss, s ≤ a.start) :
    (tiers.foldl readBlocks p).lastFailedBlockStart =
      ((Reads.lastMiss tiers).map ChunkInfo.start).or p.lastFailedBlockStart := by
  induction tiers generalizing p with
  | nil => rfl
  | cons l tiers ih =>
    rw [List.foldl_cons]
    cases h : Reads.firstMiss l with
    | none =>
      rw [List.filterMap_cons_none h] at hord hp
      have hlast : (p.readBlocks l).lastFailedBlockStart = p.lastFailedBlockStart := by
        rw [readBlocks_lastFailedBlockStart, h]
        rfl
      rw [ih (p.readBlocks l) hord (by rwa [hlast]), hlast, Reads.lastMiss, Reads.lastMiss,
        List.filterMap_cons_none h]
    | some a =>
      rw [List.filterMap_cons_some h] at hord hp
      rw [List.pairwise_cons] at hord
      -- the failure of this tier is no earlier than the one remembered, so it is remembered now
      have hlast : (p.readBlocks l).lastFailedBlockStart = some a.start := by
        rw [readBlocks_lastFailedBlockStart, h]
        show laterFailure p.lastFailedBlockStart a.start = some a.start
        unfold laterFailure
        cases hs : p.lastFailedBlockStart with
        | none => rfl
        | some s =>
          have hle := hp s hs a List.mem_cons_self
          show (if s < a.start then some a.start else some s) = some a.start
          split
          · rfl
          · exact congrArg some (by omega)
      rw [ih (p.readBlocks l) hord.2 (by
        intro s hs b hb
        rw [hlast] at hs
        cases hs
        exact hord.1 b hb), hlast, Reads.lastMiss, Reads.lastMiss, List.filterMap_cons_some h,
        List.getLast?_cons]
      cases (tiers.filterMap Reads.firstMiss).getLast? <;> rfl

theorem trim_sublist (p : TokenPass) : p.trim.reorderedChunks.Sublist p.reorderedChunks := by
  unfold trim
  split
  · exact List.Sublist.refl _
  · exact List.filter_sublist

end TokenPass

/-! ## Exactness -/

/-- Every processed chunk with what its read gave; the chunks that no tier was asked for come last
and were not read. -/
def storageReads (infos : List ChunkInfo) (tiers : List (Reads ChunkInfo MemoryObjRef)) :
    Reads ChunkInfo MemoryObjRef :=
  tiers.flatten ++ (infos.drop tiers.flatten.length).map fun info => (info, none)

/-- The result is the longest run of chunks from the first one on whose reads succeeded, and the mask
is set exactly on their ranges. -/
structure ExactPrefix (len : Nat) (reads : Reads ChunkInfo MemoryObjRef) (out : TokenPass) :
    Prop where
  chunks : out.reorderedChunks = Reads.hitPrefix reads
  marks : out.Marks len

/-- **The condition on the reads.**  Either no read failed, or, for the first failed read of the last
tier that has one: every chunk in front of the first failed read of all ends before it starts, and
every chunk that its tier read in spite of an earlier tier's failure ends no earlier than that and
covers no token in front of it. -/
def TrimSafe (len : Nat) (tiers : List (Reads ChunkInfo MemoryObjRef)) : Prop :=
  ∀ info, Reads.lastMiss tiers = some info →
    (∀ c ∈ Reads.hitPrefix tiers.flatten, c.1.stop < info.start) ∧
    ∀ c ∈ Reads.strays tiers, info.start ≤ c.1.stop ∧
      ∀ i < len, c.1.start ≤ i → i < c.1.stop → info.start ≤ i

/-- The ranges of a list of reads. -/
def readRanges (reads : Reads ChunkInfo MemoryObjRef) : List (Nat × Nat) :=
  reads.map fun r => (r.1.start, r.1.stop)

theorem readRanges_eq (reads : Reads ChunkInfo MemoryObjRef) :
    readRanges reads = (reads.map Prod.fst).map fun info => (info.start, info.stop) := by
  rw [List.map_map]
  rfl

variable {tiers : List (Reads ChunkInfo MemoryObjRef)}

/-- A chunk of the run ends before a stray starts. -/
theorem stop_le_start_of_stray (hord : InOrder (readRanges tiers.flatten)) {c d : ProcessedChunk}
    (hc : c ∈ Reads.hitPrefix tiers.flatten) (hd : d ∈ Reads.strays tiers) :
    c.1.stop ≤ d.1.start := by
  rw [readRanges_eq] at hord
  have hkept := hord.sublist ((Reads.flatMap_hitPrefix_sublist tiers).map _)
  rw [Reads.flatMap_hitPrefix, List.map_append, List.map_append] at hkept
  have hcross := (List.pairwise_append.mp hkept.stop_le_start).2.2
  exact hcross _ (List.mem_map_of_mem (List.mem_map_of_mem hc))
    _ (List.mem_map_of_mem (List.mem_map_of_mem hd))

/-- The failures of the tiers come in order. -/
theorem pairwise_start_firstMiss (hord : InOrder (readRanges tiers.flatten)) :
    (tiers.filterMap Reads.firstMiss).Pairwise fun a b => a.start ≤ b.start := by
  rw [readRanges_eq] at hord
  have hmiss := hord.sublist ((Reads.filterMap_firstMiss_sublist tiers).map _)
  refine (List.pairwise_map.mp hmiss.stop_le_start).imp_of_mem fun {a b} ha _ hab => ?_
  exact le_trans (hmiss.start_le_stop _ (List.mem_map.mpr ⟨a, ha, rfl⟩)) hab

/-- **What trimming does to a walk.**  The trimmed pass is exact just when the reads are safe to
trim. -/
theorem exactPrefix_trim_iff {len : Nat} {p : TokenPass} {reads : Reads ChunkInfo MemoryObjRef}
    (hreads : Reads.hitPrefix reads = Reads.hitPrefix tiers.flatten)
    (hord : InOrder (readRanges tiers.flatten)) (hm : p.Marks len)
    (hchunks : p.reorderedChunks = tiers.flatMap Reads.hitPrefix)
    (hlast : p.lastFailedBlockStart = (Reads.lastMiss tiers).map ChunkInfo.start) :
    ExactPrefix len reads p.trim ↔ TrimSafe len tiers := by
  cases hmiss : Reads.lastMiss tiers with
  | none =>
    -- no read failed: nothing is trimmed, and there are no strays
    rw [hmiss] at hlast
    have htrim : p.trim = p := by
      unfold TokenPass.trim
      rw [hlast]
      rfl
    have hrun : p.reorderedChunks = Reads.hitPrefix reads := by
      rw [hchunks, hreads, Reads.flatMap_hitPrefix, Reads.strays_eq_nil_of_complete hmiss,
        List.append_nil]
    rw [htrim]
    exact ⟨fun _ info h => (nomatch hmiss.symm.trans h), fun _ => ⟨hrun, hm⟩⟩
  | some info =>
    rw [hmiss] at hlast
    have hkept : p.trim.reorderedChunks =
        (tiers.flatMap Reads.hitPrefix).filter fun c => c.1.stop < info.start := by
      unfold TokenPass.trim
      rw [hlast, ← hchunks]
      rfl
    have hmask : ∀ i < len, p.trim.retMask[i]? = some true ↔
        (∃ c ∈ tiers.flatMap Reads.hitPrefix, c.1.start ≤ i ∧ i < c.1.stop) ∧ i < info.start := by
      intro i hi
      have hlen : i < p.retMask.length := hm.length.symm ▸ hi
      rw [← hchunks, ← hm.set_iff i hi]
      unfold TokenPass.trim
      rw [hlast]
      show (setSlice p.retMask info.start p.retMask.length false)[i]? = some true ↔ _
      rw [getElem?_setSlice hlen]
      by_cases hcut : info.start ≤ i
      · simp [hcut, hlen]
      · simp [hcut, Nat.lt_of_not_le hcut]
    have hlength : p.trim.retMask.length = len := by
      unfold TokenPass.trim
      rw [hlast]
      exact (length_setSlice _ _ _ _).trans hm.length
    constructor
    · rintro ⟨hrun, hmarks⟩ info' hinfo
      rw [hmiss] at hinfo
      cases hinfo
      rw [hkept, hreads, Reads.filter_flatMap_hitPrefix_eq] at hrun
      refine ⟨fun c hc => of_decide_eq_true (hrun.1 c hc), fun c hc => ⟨?_, ?_⟩⟩
      · have := hrun.2 c hc
        simpa using this
      · -- a token of a stray in front of the cut would stay set, and no chunk of the run covers it
        intro i hi hci hic
        by_contra hcut
        have hset := (hmask i hi).mpr ⟨⟨c, by
          rw [Reads.flatMap_hitPrefix]
          exact List.mem_append_right _ hc, hci, hic⟩, Nat.lt_of_not_le hcut⟩
        obtain ⟨d, hd, hdi, hid⟩ := (hmarks.set_iff i hi).mp hset
        have hd : d ∈ Reads.hitPrefix tiers.flatten := by
          rw [hkept, (Reads.filter_flatMap_hitPrefix_eq).mpr hrun] at hd
          exact hd
        have := stop_le_start_of_stray hord hd hc
        omega
    · intro hsafe
      obtain ⟨hends, hstrays⟩ := hsafe info hmiss
      have hrun : p.trim.reorderedChunks = Reads.hitPrefix tiers.flatten := by
        rw [hkept, Reads.filter_flatMap_hitPrefix_eq]
        exact ⟨fun c hc => decide_eq_true (hends c hc), fun c hc => by
          simpa using (hstrays c hc).1⟩
      refine ⟨hrun.trans hreads.symm, hlength, fun i hi => ?_⟩
      rw [hmask i hi, hrun, Reads.flatMap_hitPrefix]
      constructor
      · rintro ⟨⟨c, hc, hci⟩, hcut⟩
        rcases List.mem_append.mp hc with hc | hc
        · exact ⟨c, hc, hci⟩
        · have := (hstrays c hc).2 i hi hci.1 hci.2
          omega
      · rintro ⟨c, hc, hci⟩
        have := hends c hc
        exact ⟨⟨c, List.mem_append_left _ hc, hci⟩, by omega⟩

namespace LMCacheEngine

/-- **Prefix retrieval is exact** for a request: the walk raises only what `process_tokens` raises,
and otherwise returns the longest run of chunks that were read, with their mask. -/
def PrefixExact (e : LMCacheEngine) (req : RetrieveRequest) : Prop :=
  (∀ err, (e.chunkInfos req).collect = .error err → e.processTokensInternal req = .error err) ∧
  ∀ infos, (e.chunkInfos req).collect = .ok infos →
    ∃ out tiers, e.processTokensInternal req = .ok out ∧ e.requestReads req infos = .ok tiers ∧
      ExactPrefix req.tokens.length (storageReads infos tiers) out

/-- No read of the request raises, and what the reads give meets the condition. -/
def TrimsExactly (e : LMCacheEngine) (req : RetrieveRequest) : Prop :=
  ∀ infos, (e.chunkInfos req).collect = .ok infos →
    ∃ tiers, e.requestReads req infos = .ok tiers ∧ TrimSafe req.tokens.length tiers

variable {e : LMCacheEngine} {infos : List ChunkInfo} {req : RetrieveRequest}
  {tiers : List (Reads ChunkInfo MemoryObjRef)}

/-- The ranges that are read come in order: they are the first ranges of `process_tokens`. -/
theorem inOrder_requestReads (hinfos : (e.chunkInfos req).collect = .ok infos)
    (h : e.requestReads req infos = .ok tiers) : InOrder (readRanges tiers.flatten) := by
  have hall := e.tokenDatabase.inOrder_processTokens (.ofTokens req.tokens req.mask)
    req.requestConfigs
  change InOrder ((e.chunkInfos req).yields.map fun c => (c.start, c.stop)) at hall
  rw [PyGen.yields_of_collect hinfos] at hall
  have hsub : (tiers.flatten.map Prod.fst).Sublist infos := by
    rw [map_fst_tierReads h]
    exact (e.mapped_blockMapping_prefix req infos).sublist
  rw [readRanges_eq]
  exact hall.sublist (hsub.map _)

/-- The walk is the fold over the reads of the request, and then the trim. -/
theorem processTokensInternal_map (hinfos : (e.chunkInfos req).collect = .ok infos) :
    e.processTokensInternal req = (e.requestReads req infos).map fun tiers =>
      (tiers.foldl TokenPass.readBlocks (.init req.tokens.length)).trim := by
  unfold processTokensInternal requestReads
  rw [hinfos]
  show (e.readMapping _ _ >>= fun p => pure p.trim) = _
  rw [readMapping_eq]
  cases e.tierReads (e.blockMapping req infos).entries <;> rfl

theorem processTokensInternal_eq (hinfos : (e.chunkInfos req).collect = .ok infos)
    (h : e.requestReads req infos = .ok tiers) :
    e.processTokensInternal req =
      .ok (tiers.foldl TokenPass.readBlocks (.init req.tokens.length)).trim := by
  rw [processTokensInternal_map hinfos, h]
  rfl

/-- **Prefix retrieval is exact exactly on the requests whose reads are safe to trim.** -/
theorem prefixExact_iff_trimsExactly (e : LMCacheEngine) (req : RetrieveRequest) :
    e.PrefixExact req ↔ e.TrimsExactly req := by
  have hraise : ∀ err, (e.chunkInfos req).collect = .error err →
      e.processTokensInternal req = .error err := by
    intro err h
    unfold processTokensInternal
    rw [h]
    rfl
  unfold PrefixExact TrimsExactly
  rw [and_iff_right hraise]
  refine forall_congr' fun infos => forall_congr' fun hinfos => ?_
  cases htiers : e.requestReads req infos with
  | error err =>
    constructor
    · rintro ⟨_, _, _, h, _⟩
      cases h
    · rintro ⟨_, h, _⟩
      cases h
  | ok tiers =>
    have hwalk := processTokensInternal_eq hinfos htiers
    have hord := inOrder_requestReads hinfos htiers
    have hlast := TokenPass.foldl_readBlocks_lastFailedBlockStart (.init req.tokens.length) tiers
      (pairwise_start_firstMiss hord) (fun s h => by cases h)
    have hiff : ExactPrefix req.tokens.length (storageReads infos tiers) _ ↔ _ :=
      exactPrefix_trim_iff (Reads.hitPrefix_append_unread _ _) hord
        ((TokenPass.marks_init req.tokens.length).foldl_readBlocks tiers)
        (TokenPass.foldl_readBlocks_reorderedChunks _ tiers) (hlast.trans Option.or_none)
    constructor
    · rintro ⟨out, tiers', hout, htiers', hexact⟩
      cases htiers'
      cases hwalk.symm.trans hout
      exact ⟨tiers, rfl, hiff.mp hexact⟩
    · rintro ⟨tiers', htiers', hsafe⟩
      cases htiers'
      exact ⟨_, tiers, hwalk, rfl, hiff.mpr hsafe⟩

/-! ## Two requests whose reads are not safe to trim -/

/-- A backend that says it holds the chunks of some hashes and has lost those of others. -/
def lossyBackend (held lost : List Int) : StorageBackend :=
  .ofKeyed (fun key => held.contains key.chunkHash) fun key =>
    .ok (if lost.contains key.chunkHash then none else some ⟨key.chunkHash.toNat, 8⟩)

/-- An engine over chunks of two tokens, each hashed to its sum on top of the hash before it. -/
def smallEngine (tiers : Dict String StorageBackend) : LMCacheEngine where
  tokenDatabase := .chunked
    { hashFunc := fun prefixHash tokens => prefixHash.getD 0 + tokens.sum
      noneHash := 0
      metadata := some ⟨"model", 1, 0, .float16⟩
      saveOnlyFirstRank := false
      chunkSize := 2
      saveUnfullChunk := true }
  storageManager := ⟨tiers, false, []⟩
  lookupPins := .empty
  eventManager := .empty
  isHealthy := true
  hasGpuConnector := true
  asyncLoading := false
  removeAfterRetrieve := false
  saveOnlyFirstRank := false
  isFirstRank := true

/-- Eight tokens, that is, four chunks with the hashes 2, 4, 6 and 8. -/
def eightTokens : RetrieveRequest := ⟨List.replicate 8 1, none, none, none⟩

/-- One tier holds all chunks and has lost the second. -/
def oneLossyTier : LMCacheEngine :=
  smallEngine (.set .empty "LocalCPUBackend" (lossyBackend [2, 4, 6, 8] [4]))

/-- The first tier holds the first chunk and has lost it; the second holds the others and has lost the
last. -/
def twoLossyTiers : LMCacheEngine :=
  smallEngine ((Dict.empty.set "LocalCPUBackend" (lossyBackend [2] [2])).set "LocalDiskBackend"
    (lossyBackend [4, 6, 8] [8]))

/-- A token that stays set although no returned chunk covers it. -/
theorem not_prefixExact_of_uncovered (infos : List ChunkInfo) (mask : List Bool)
    (ranges : List (Nat × Nat)) (i : Nat) (hinfos : (e.chunkInfos req).collect = .ok infos)
    (hout : (e.processTokensInternal req).map (fun out =>
      (out.retMask, out.reorderedChunks.map fun c => (c.1.start, c.1.stop))) = .ok (mask, ranges))
    (hi : i < req.tokens.length) (hset : mask[i]? = some true)
    (huncovered : ∀ r ∈ ranges, ¬ (r.1 ≤ i ∧ i < r.2)) : ¬ e.PrefixExact req := by
  rintro ⟨-, h⟩
  obtain ⟨out, tiers, hrun, -, hexact⟩ := h infos hinfos
  rw [hrun] at hout
  cases hout
  obtain ⟨c, hc, hci⟩ := (hexact.marks.set_iff i hi).mp hset
  exact huncovered _ (List.mem_map.mpr ⟨c, hc, rfl⟩) hci

/-- **Trimming is not exact.**  With one lossy tier the first chunk is thrown away and its tokens stay
set.  With two, the second chunk is returned although the first could not be read, and the tokens of
the third stay set although it is not returned. -/
theorem not_prefixExact_lossyTiers :
    ¬ oneLossyTier.PrefixExact eightTokens ∧ ¬ twoLossyTiers.PrefixExact eightTokens := by
  constructor
  · refine not_prefixExact_of_uncovered (oneLossyTier.chunkInfos eightTokens).yields
      [true, true, false, false, false, false, false, false] [] 0 ?_ ?_ ?_ ?_ ?_
    all_goals decide +kernel
  · refine not_prefixExact_of_uncovered (twoLossyTiers.chunkInfos eightTokens).yields
      [false, false, true, true, true, true, false, false] [(2, 4)] 4 ?_ ?_ ?_ ?_ ?_
    all_goals decide +kernel

end LMCacheEngine

end LMCache
