/-
# LMCache.Controller.PrefixLookup — which instances hold a prefix of some tokens.

Source: `RegistryTree` and the nodes below it in `cache_controller/utils.py`, and
`KVController.lookup`.

The controller keeps a tree: an instance has workers, a worker has a set of chunk hashes for each of
its locations.  `lookup` asks for one chunk after the other where it is, gets the instance
registered first among those that hold it, and writes down the end of the chunk for that instance.
So the entry of an instance says that it is first for one chunk, and nothing about the chunks before
it.
-/
import LMCache.ChunkedTokenDatabase
import LMCache.Controller.WorkerNode

namespace LMCache.Controller

open LMCache.Lib

/-! ## The tree -/

structure KVChunkInfo where
  instanceId : String
  workerId : Nat
  location : String
  deriving DecidableEq, Repr

/-- `find_key_simple` of the worker registered under a number.  It does not know its instance. -/
def WorkerNode.findKeySimple (w : WorkerNode) (workerId : Nat) (key : Int) : Option KVChunkInfo :=
  (w.kvStore.entries.find? fun e => key ∈ e.2).map fun e => ⟨"", workerId, e.1⟩

structure InstanceNode where
  instanceId : String
  workers : Dict Nat WorkerNode

namespace InstanceNode

/-- `find_key_simple`: the first worker that finds the key. -/
def findKeySimple (n : InstanceNode) (key : Int) : Option KVChunkInfo :=
  n.workers.entries.findSome? fun e =>
    (e.2.findKeySimple e.1 key).map fun info => ⟨n.instanceId, e.1, info.location⟩

/-- A worker of the instance holds the chunk, in one location or another. -/
def Holds (n : InstanceNode) (key : Int) : Prop :=
  ∃ e ∈ n.workers.entries, ∃ l ∈ e.2.kvStore.entries, key ∈ l.2

instance (n : InstanceNode) (key : Int) : Decidable (n.Holds key) :=
  inferInstanceAs (Decidable (∃ e ∈ n.workers.entries, ∃ l ∈ e.2.kvStore.entries, key ∈ l.2))

end InstanceNode

/-- The instances, in the order in which they were registered, each under its own name. -/
structure RegistryTree where
  instances : Dict String InstanceNode
  named : ∀ e ∈ instances.entries, e.2.instanceId = e.1

namespace RegistryTree

def empty : RegistryTree := ⟨.empty, by simp [Dict.empty]⟩

/-- Give an instance these workers. -/
def setWorkers (r : RegistryTree) (instanceId : String) (workers : Dict Nat WorkerNode) :
    RegistryTree where
  instances := r.instances.set instanceId ⟨instanceId, workers⟩
  named := by
    intro e he
    have hget := Dict.get?_eq_some.mpr he
    rw [Dict.get?_set] at hget
    split at hget
    · rename_i hid
      rw [← Option.some.inj hget, hid]
    · exact r.named e (Dict.get?_eq_some.mp hget)

/-- `register_worker`, for a node that knows nothing yet. -/
def registerWorker (r : RegistryTree) (instanceId : String) (workerId : Nat) : RegistryTree :=
  match r.instances.get? instanceId with
  | none => r.setWorkers instanceId (Dict.empty.set workerId {})
  | some n => r.setWorkers instanceId (n.workers.set workerId {})

/-- `handle_batched_kv_operations` of the tree: the worker named in the message handles it. -/
def handleBatchedKvOperations (r : RegistryTree) (msg : BatchedKVOperationMsg) (isFullSync : Bool) :
    RegistryTree :=
  match r.instances.get? msg.instanceId with
  | none => r
  | some n =>
    match n.workers.get? msg.workerId with
    | none => r
    | some w => r.setWorkers msg.instanceId
        (n.workers.set msg.workerId (w.handleBatchedKvOperations msg isFullSync).1)

/-- `find_kv`. -/
def findKv (r : RegistryTree) (key : Int) (excludeInstanceId : Option String) :
    Option KVChunkInfo :=
  r.instances.entries.findSome? fun e =>
    if excludeInstanceId = some e.1 then none else e.2.findKeySimple key

/-- The instance registered under a name holds the chunk. -/
def Holds (r : RegistryTree) (instanceId : String) (key : Int) : Prop :=
  ∃ n ∈ r.instances.get? instanceId, n.Holds key

instance (r : RegistryTree) (instanceId : String) (key : Int) :
    Decidable (r.Holds instanceId key) :=
  inferInstanceAs (Decidable (∃ n ∈ r.instances.get? instanceId, n.Holds key))

end RegistryTree

/-! ## The lookup -/

namespace KVController

/-- The loop of `lookup`, which leaves the generator at the first chunk that nobody holds. -/
def lookupLoop (registry : RegistryTree) :
    List HashedChunk → Dict String (String × Nat) → Bool × Dict String (String × Nat)
  | [], layoutInfo => (true, layoutInfo)
  | c :: chunks, layoutInfo =>
    match registry.findKv c.chunkHash none with
    | none => (false, layoutInfo)
    | some result =>
      lookupLoop registry chunks (layoutInfo.set result.instanceId (result.location, c.stop))

/-- `lookup`: what `layout_info` of the answer is.  An exception of the generator leaves the loop if
the loop comes to it. -/
def lookup (db : ChunkedTokenDatabase) (registry : RegistryTree) (tokens : List Int) :
    Except PyError (Dict String (String × Nat)) :=
  let chunks := db.processHashes (.ofTokens tokens none)
  match lookupLoop registry chunks.yields .empty, chunks.raised with
  | (true, _), some e => .error e
  | (_, layoutInfo), _ => .ok layoutInfo

end KVController

/-! ## Who is found -/

theorem WorkerNode.findKeySimple_eq_none {w : WorkerNode} {workerId : Nat} {key : Int} :
    w.findKeySimple workerId key = none ↔ ∀ l ∈ w.kvStore.entries, key ∉ l.2 := by
  unfold WorkerNode.findKeySimple
  rw [Option.map_eq_none_iff, List.find?_eq_none]
  simp

namespace InstanceNode

/-- An instance finds what one of its workers holds. -/
theorem findKeySimple_eq_none {n : InstanceNode} {key : Int} :
    n.findKeySimple key = none ↔ ¬ n.Holds key := by
  unfold findKeySimple Holds
  rw [List.findSome?_eq_none_iff]
  simp only [Option.map_eq_none_iff, WorkerNode.findKeySimple_eq_none, not_exists, not_and]

theorem instanceId_of_findKeySimple {n : InstanceNode} {key : Int} {info : KVChunkInfo}
    (h : n.findKeySimple key = some info) : info.instanceId = n.instanceId := by
  obtain ⟨e, -, he⟩ := List.exists_of_findSome?_eq_some h
  obtain ⟨_, -, rfl⟩ := Option.map_eq_some_iff.mp he
  rfl

end InstanceNode

namespace RegistryTree

variable {r : RegistryTree}

/-- The name of the instance that is found for a chunk. -/
def firstHolder (r : RegistryTree) (key : Int) : Option String :=
  (r.findKv key none).map KVChunkInfo.instanceId

/-- **The first holder** is the instance that holds the chunk and was registered before all others
that do. -/
theorem firstHolder_eq_some {key : Int} {id : String} (h : r.firstHolder key = some id) :
    r.Holds id key ∧
      ∀ id', r.Holds id' key → r.instances.keys.idxOf id ≤ r.instances.keys.idxOf id' := by
  unfold firstHolder findKv at h
  obtain ⟨info, hinfo, rfl⟩ := Option.map_eq_some_iff.mp h
  obtain ⟨pre, e, post, hsplit, he, hpre⟩ := List.findSome?_eq_some_iff.mp hinfo
  simp only [reduceCtorEq, if_false] at he hpre
  have hmem : e ∈ r.instances.entries := hsplit ▸ List.mem_append_right _ List.mem_cons_self
  have hid : info.instanceId = e.1 :=
    (InstanceNode.instanceId_of_findKeySimple he).trans (r.named e hmem)
  have hholds : e.2.Holds key := by
    by_contra hno
    rw [InstanceNode.findKeySimple_eq_none.mpr hno] at he
    cases he
  rw [hid]
  refine ⟨⟨e.2, Dict.get?_eq_some.mpr hmem, hholds⟩, ?_⟩
  rintro id' ⟨n, hn, hholds'⟩
  -- no holder stands in front of the one that is found
  have hkeys : r.instances.keys = pre.map Prod.fst ++ e.1 :: post.map Prod.fst := by
    unfold Dict.keys
    rw [hsplit, List.map_append, List.map_cons]
  have hfront : ∀ name ∈ pre.map Prod.fst, ¬ r.Holds name key := by
    rintro name hname ⟨m, hm, hmholds⟩
    obtain ⟨p, hp, rfl⟩ := List.mem_map.mp hname
    have hpget : r.instances.get? p.1 = some p.2 :=
      Dict.get?_eq_some.mpr (hsplit ▸ List.mem_append_left _ hp)
    cases hpget.symm.trans hm
    exact InstanceNode.findKeySimple_eq_none.mp (hpre p hp) hmholds
  have hnotin : id' ∉ pre.map Prod.fst := fun hin => hfront id' hin ⟨n, hn, hholds'⟩
  have hnotin' : e.1 ∉ pre.map Prod.fst := fun hin =>
    hfront e.1 hin ⟨e.2, Dict.get?_eq_some.mpr hmem, hholds⟩
  rw [hkeys, List.idxOf_append_of_notMem hnotin', List.idxOf_append_of_notMem hnotin,
    List.idxOf_cons_self]
  omega

theorem firstHolder_eq_none {key : Int} :
    r.firstHolder key = none ↔ ∀ id, ¬ r.Holds id key := by
  unfold firstHolder findKv
  rw [Option.map_eq_none_iff, List.findSome?_eq_none_iff]
  simp only [reduceCtorEq, if_false, InstanceNode.findKeySimple_eq_none]
  constructor
  · rintro h id ⟨n, hn, hholds⟩
    exact h _ (Dict.get?_eq_some.mp hn) hholds
  · intro h e he hholds
    exact h e.1 ⟨e.2, Dict.get?_eq_some.mpr he, hholds⟩

/-- Of two instances none of which stands behind the other, both registered, one is the other. -/
theorem eq_of_idxOf_eq {id id' : String} {key : Int} (h : r.Holds id key)
    (heq : r.instances.keys.idxOf id = r.instances.keys.idxOf id') : id = id' := by
  obtain ⟨n, hn, -⟩ := h
  have hmem : id ∈ r.instances.keys := Dict.mem_iff_get?.mpr ⟨n, hn⟩
  exact (List.idxOf_inj hmem).mp heq

end RegistryTree

/-! ## What an entry promises -/

/-- **An entry says how long a prefix its instance holds**: it ends where a chunk ends, the instance
holds every chunk up to there, and no longer prefix of the chunks. -/
def PrefixExact (r : RegistryTree) (chunks : List HashedChunk)
    (layoutInfo : Dict String (String × Nat)) : Prop :=
  ∀ id location stop, layoutInfo.get? id = some (location, stop) →
    (∃ c ∈ chunks, c.stop = stop) ∧ (∀ c ∈ chunks, c.stop ≤ stop → r.Holds id c.chunkHash) ∧
      ∀ c ∈ chunks, (∀ d ∈ chunks, d.stop ≤ c.stop → r.Holds id d.chunkHash) → c.stop ≤ stop

/-- Up to the first chunk that nobody holds, the first holder of a chunk holds those before it. -/
def HoldersHoldPrefix (r : RegistryTree) (chunks : List HashedChunk) : Prop :=
  ∀ pre c post, chunks = pre ++ c :: post → (∀ d ∈ pre, r.firstHolder d.chunkHash ≠ none) →
    ∀ id ∈ r.firstHolder c.chunkHash, ∀ d ∈ pre, r.Holds id d.chunkHash

namespace KVController

variable {r : RegistryTree}

/-- What the loop writes for a chunk. -/
def entryOf (r : RegistryTree) (c : HashedChunk) : Option (String × String × Nat) :=
  (r.findKv c.chunkHash none).map fun result => (result.instanceId, result.location, c.stop)

/-- The chunks in front of the first one that nobody holds. -/
def heldChunks (r : RegistryTree) (chunks : List HashedChunk) : List HashedChunk :=
  chunks.takeWhile fun c => (r.findKv c.chunkHash none).isSome

variable {c : HashedChunk}

theorem entryOf_fst {id : String} {v : String × Nat} (h : entryOf r c = some (id, v)) :
    r.firstHolder c.chunkHash = some id ∧ v.2 = c.stop := by
  obtain ⟨result, hresult, he⟩ := Option.map_eq_some_iff.mp h
  cases he
  exact ⟨congrArg (Option.map KVChunkInfo.instanceId) hresult, rfl⟩

theorem exists_entryOf {id : String} (h : r.firstHolder c.chunkHash = some id) :
    ∃ v, entryOf r c = some (id, v) := by
  obtain ⟨result, hresult, rfl⟩ := Option.map_eq_some_iff.mp h
  exact ⟨_, congrArg (Option.map _) hresult⟩

theorem lookupLoop_eq (chunks : List HashedChunk) (layoutInfo : Dict String (String × Nat)) :
    (lookupLoop r chunks layoutInfo).2 = ((heldChunks r chunks).filterMap (entryOf r)).foldl
      (fun d p => d.set p.1 p.2) layoutInfo := by
  induction chunks generalizing layoutInfo with
  | nil => rfl
  | cons c chunks ih =>
    unfold lookupLoop heldChunks
    cases hc : r.findKv c.chunkHash none with
    | none => simp [hc]
    | some result =>
      dsimp only
      rw [ih, List.takeWhile_cons_of_pos (by rw [hc]; rfl), List.filterMap_cons]
      unfold entryOf
      rw [hc]
      rfl

/-- The answer has the entries of the held chunks; of those for one instance the last stays. -/
theorem get?_of_lookup {db : ChunkedTokenDatabase} {tokens : List Int}
    {layoutInfo : Dict String (String × Nat)} (h : lookup db r tokens = .ok layoutInfo) :
    layoutInfo = .ofPairs ((heldChunks r
      (db.processHashes (.ofTokens tokens none)).yields).filterMap (entryOf r)) := by
  unfold lookup at h
  rw [Dict.ofPairs, ← lookupLoop_eq]
  dsimp only at h
  generalize lookupLoop r _ _ = p at h ⊢
  obtain ⟨ended, layout⟩ := p
  split at h
  · cases h
  · rename_i heq _
    cases heq
    cases h
    rfl

/-- **The entry of an instance** is that of the last chunk for which it is found. -/
theorem get?_ofPairs_iff {chunks : List HashedChunk} {id : String} {v : String × Nat} :
    (Dict.ofPairs (chunks.filterMap (entryOf r))).get? id = some v ↔
      ∃ pre c post, chunks = pre ++ c :: post ∧ entryOf r c = some (id, v) ∧
        ∀ d ∈ post, r.firstHolder d.chunkHash ≠ some id := by
  rw [Dict.get?_ofPairs_eq_some]
  constructor
  · rintro ⟨pairs, pairs', hsplit, hlast⟩
    obtain ⟨l, l', rfl, -, htail⟩ := List.filterMap_eq_append_iff.mp hsplit
    obtain ⟨front, c, post, rfl, -, hc, rfl⟩ := List.filterMap_eq_cons_iff.mp htail
    refine ⟨l ++ front, c, post, by rw [List.append_assoc], hc, fun d hd hfirst => hlast ?_⟩
    obtain ⟨w, hw⟩ := exists_entryOf hfirst
    exact List.mem_map.mpr ⟨(id, w), List.mem_filterMap.mpr ⟨d, hd, hw⟩, rfl⟩
  · rintro ⟨pre, c, post, rfl, hc, hlast⟩
    refine ⟨pre.filterMap (entryOf r), post.filterMap (entryOf r), ?_, ?_⟩
    · rw [List.filterMap_append, List.filterMap_cons, hc]
    · intro hmem
      obtain ⟨p, hp, rfl⟩ := List.mem_map.mp hmem
      obtain ⟨d, hd, hdp⟩ := List.mem_filterMap.mp hp
      exact hlast d hd (entryOf_fst hdp).1

/-- Behind a held chunk the held chunks go on as far as they do without it. -/
theorem heldChunks_append {pre post : List HashedChunk}
    (hpre : ∀ d ∈ pre, r.firstHolder d.chunkHash ≠ none) (hc : r.firstHolder c.chunkHash ≠ none) :
    heldChunks r (pre ++ c :: post) = pre ++ c :: heldChunks r post := by
  have hsome : ∀ d : HashedChunk, r.firstHolder d.chunkHash ≠ none →
      (r.findKv d.chunkHash none).isSome = true := by
    intro d hd
    unfold RegistryTree.firstHolder at hd
    rw [Option.isSome_iff_ne_none]
    exact fun hnone => hd (by rw [hnone]; rfl)
  unfold heldChunks
  rw [List.takeWhile_append_of_pos (fun d hd => hsome d (hpre d hd)), List.takeWhile_cons,
    hsome c hc]
  rfl

/-- The held chunks are a front part of the chunks, and each has a first holder. -/
theorem heldChunks_split (r : RegistryTree) (chunks : List HashedChunk) :
    ∃ rest, chunks = heldChunks r chunks ++ rest ∧
      ∀ d ∈ heldChunks r chunks, r.firstHolder d.chunkHash ≠ none := by
  refine ⟨_, List.takeWhile_append_dropWhile.symm, fun d hd hnone => ?_⟩
  have hsome := List.all_eq_true.mp List.all_takeWhile d hd
  unfold RegistryTree.firstHolder at hnone
  rw [Option.map_eq_none_iff.mp hnone] at hsome
  cases hsome

section Chunks

variable {chunks : List HashedChunk}

/-- Where the entries are exact, the last chunk of an instance vouches for the chunks before it. -/
theorem holdersHoldPrefix_of_exact (hstops : chunks.Pairwise fun c d => c.stop < d.stop)
    (h : PrefixExact r chunks (.ofPairs ((heldChunks r chunks).filterMap (entryOf r)))) :
    HoldersHoldPrefix r chunks := by
  intro pre c post hsplit hpre id hid d hd
  have hne : r.firstHolder c.chunkHash ≠ none := fun hnone => by rw [hnone] at hid; cases hid
  have hheld : heldChunks r chunks = pre ++ c :: heldChunks r post := by
    rw [hsplit]
    exact heldChunks_append hpre hne
  have hcheld : c ∈ heldChunks r chunks := hheld ▸ List.mem_append_right _ List.mem_cons_self
  obtain ⟨v, hv⟩ := exists_entryOf hid
  obtain ⟨w, hw⟩ := Dict.mem_iff_get?.mp (Dict.mem_ofPairs.mpr
    (List.mem_map.mpr ⟨(id, v), List.mem_filterMap.mpr ⟨c, hcheld, hv⟩, rfl⟩))
  obtain ⟨pre', c', post', hsplit', hc', hlast⟩ := get?_ofPairs_iff.mp hw
  obtain ⟨-, hstop⟩ := entryOf_fst hc'
  -- the entry is that of `c` or of a later chunk
  have hle : c.stop ≤ w.2 := by
    rw [hstop]
    rw [hsplit', List.mem_append, List.mem_cons] at hcheld
    have hsub : (heldChunks r chunks).Pairwise fun c d => c.stop < d.stop :=
      hstops.sublist (List.takeWhile_sublist _)
    rw [hsplit'] at hsub
    rcases hcheld with hin | rfl | hin
    · exact le_of_lt ((List.pairwise_append.mp hsub).2.2 c hin c' List.mem_cons_self)
    · exact le_rfl
    · exact absurd hid (hlast c hin)
  have hlt : d.stop < c.stop := by
    rw [hsplit] at hstops
    exact (List.pairwise_append.mp hstops).2.2 d hd c List.mem_cons_self
  exact (h id w.1 w.2 hw).2.1 d (hsplit ▸ List.mem_append_left _ hd) (le_trans hlt.le hle)

/-- Where the first holder of a chunk holds what is before it, the entries are exact. -/
theorem exact_of_holdersHoldPrefix (hstops : chunks.Pairwise fun c d => c.stop < d.stop)
    (h : HoldersHoldPrefix r chunks) :
    PrefixExact r chunks (.ofPairs ((heldChunks r chunks).filterMap (entryOf r))) := by
  intro id location stop hget
  obtain ⟨pre, c, post, hsplit, hc, hlast⟩ := get?_ofPairs_iff.mp hget
  obtain ⟨hfirst, rfl⟩ := entryOf_fst hc
  obtain ⟨rest, hchunks, hheld⟩ := heldChunks_split r chunks
  have hmem : c ∈ heldChunks r chunks := hsplit ▸ List.mem_append_right _ List.mem_cons_self
  have hwhole : chunks = pre ++ c :: (post ++ rest) := by
    rw [hsplit] at hchunks
    rw [hchunks, List.append_assoc, List.cons_append]
  have hpre : ∀ d ∈ pre, r.firstHolder d.chunkHash ≠ none := fun d hd =>
    hheld d (hsplit ▸ List.mem_append_left _ hd)
  have hholds := RegistryTree.firstHolder_eq_some hfirst
  have hsorted := hstops
  rw [hwhole, List.pairwise_append, List.pairwise_cons] at hsorted
  refine ⟨⟨c, hwhole ▸ List.mem_append_right _ List.mem_cons_self, rfl⟩, ?_, ?_⟩
  · intro d hd hle
    rw [hwhole, List.mem_append, List.mem_cons] at hd
    rcases hd with hd | rfl | hd
    · exact h pre c (post ++ rest) hwhole hpre id hfirst d hd
    · exact hholds.1
    · exact absurd (hsorted.2.1.1 d hd) (Nat.not_lt.mpr hle)
  · intro d hd hall
    by_contra hlt
    rw [Nat.not_le] at hlt
    -- the chunk behind `c` is held by the instance, and found at another one
    obtain ⟨e, tail, htail⟩ : ∃ e tail, post ++ rest = e :: tail := by
      cases hpr : post ++ rest with
      | cons e tail => exact ⟨e, tail, rfl⟩
      | nil =>
        rw [hwhole, hpr, List.mem_append, List.mem_singleton] at hd
        rcases hd with hd | rfl
        · exact absurd (hsorted.2.2 d hd c List.mem_cons_self) (Nat.not_lt.mpr hlt.le)
        · exact absurd hlt (lt_irrefl _)
    have hde : e.stop ≤ d.stop := by
      rw [hwhole, htail, List.mem_append, List.mem_cons, List.mem_cons] at hd
      rw [htail, List.pairwise_cons] at hsorted
      rcases hd with hd | rfl | rfl | hd
      · exact absurd (hsorted.2.2 d hd c List.mem_cons_self) (Nat.not_lt.mpr hlt.le)
      · exact absurd hlt (lt_irrefl _)
      · exact le_rfl
      · exact (hsorted.2.1.2.1 d hd).le
    have heholds : r.Holds id e.chunkHash := by
      refine hall e ?_ hde
      rw [hwhole, htail]
      exact List.mem_append_right _ (List.mem_cons_of_mem _ List.mem_cons_self)
    have hefound : r.firstHolder e.chunkHash ≠ none := fun hnone =>
      RegistryTree.firstHolder_eq_none.mp hnone id heholds
    obtain ⟨b, hb⟩ := Option.ne_none_iff_exists'.mp hefound
    have hpre' : ∀ x ∈ pre ++ [c], r.firstHolder x.chunkHash ≠ none := by
      intro x hx
      rcases List.mem_append.mp hx with hx | hx
      · exact hpre x hx
      · cases List.mem_singleton.mp hx
        exact hheld c hmem
    have hsplit' : chunks = (pre ++ [c]) ++ e :: tail := by
      rw [hwhole, htail, List.append_assoc]
      rfl
    -- so that one holds `c`, too, and none of the two is registered before the other
    have hbholds : r.Holds b c.chunkHash := h (pre ++ [c]) e tail hsplit' hpre' b hb c
      (List.mem_append_right _ List.mem_cons_self)
    have hle₁ := hholds.2 b hbholds
    have hle₂ := (RegistryTree.firstHolder_eq_some hb).2 id heholds
    have hsame : id = b := RegistryTree.eq_of_idxOf_eq hholds.1 (le_antisymm hle₁ hle₂)
    -- but `c` is the last chunk for which the instance is found
    have hein : e ∈ post := by
      have heheld : e ∈ heldChunks r chunks := by
        rw [hsplit', heldChunks_append hpre' hefound]
        exact List.mem_append_right _ List.mem_cons_self
      rw [hsplit, List.mem_append, List.mem_cons] at heheld
      have hce := hsorted.2.1.1 e (htail ▸ List.mem_cons_self)
      rcases heheld with hin | rfl | hin
      · exact absurd (hsorted.2.2 e hin c List.mem_cons_self) (Nat.not_lt.mpr hce.le)
      · exact absurd hce (lt_irrefl _)
      · exact hin
    exact hlast e hein (hsame ▸ hb)

end Chunks

/-! ## All tokens and registries -/

/-- The chunks of some tokens end one behind the other. -/
theorem stops_processHashes (db : ChunkedTokenDatabase) (tokens : List Int) :
    (db.processHashes (.ofTokens tokens none)).yields.Pairwise fun c d => c.stop < d.stop := by
  by_cases hpos : db.chunkSize = 0
  · unfold ChunkedTokenDatabase.processHashes
    rw [if_pos hpos]
    exact List.Pairwise.nil
  · have hfalses : (TokenInput.ofTokens tokens none).numFalses = 0 * db.chunkSize :=
      (Nat.zero_mul _).symm
    rw [db.processHashes_tokens hpos tokens none hfalses]
    exact (db.tiles_hashedAt hpos tokens 0 _ rfl).stops

/-- **Prefixes, exactly.**  What `lookup` answers about some tokens is exact for every instance if
and only if, up to the first chunk that nobody holds, the instance found for a chunk holds the
chunks before it. -/
theorem lookup_prefixExact_iff (db : ChunkedTokenDatabase) (r : RegistryTree) (tokens : List Int) :
    (∀ layoutInfo, lookup db r tokens = .ok layoutInfo →
      PrefixExact r (db.processHashes (.ofTokens tokens none)).yields layoutInfo) ↔
    HoldersHoldPrefix r (db.processHashes (.ofTokens tokens none)).yields := by
  have hstops := stops_processHashes db tokens
  constructor
  · intro h
    by_cases hpos : db.chunkSize = 0
    · -- nothing is yielded
      have hnil : (db.processHashes (.ofTokens tokens none)).yields = [] := by
        unfold ChunkedTokenDatabase.processHashes
        rw [if_pos hpos]
        rfl
      intro pre c post hsplit
      rw [hnil] at hsplit
      exact absurd hsplit.symm (List.append_ne_nil_of_right_ne_nil _ (List.cons_ne_nil _ _))
    · obtain ⟨layoutInfo, hlayout⟩ : ∃ layoutInfo, lookup db r tokens = .ok layoutInfo := by
        have hraised : (db.processHashes (.ofTokens tokens none)).raised = none := by
          rw [db.processHashes_tokens hpos tokens none (Nat.zero_mul _).symm]
          rfl
        unfold lookup
        dsimp only
        rw [hraised]
        generalize lookupLoop r _ _ = p
        obtain ⟨ended, layoutInfo⟩ := p
        cases ended with
        | true => exact ⟨layoutInfo, rfl⟩
        | false => exact ⟨layoutInfo, rfl⟩
      have hexact := h layoutInfo hlayout
      rw [get?_of_lookup hlayout] at hexact
      exact holdersHoldPrefix_of_exact hstops hexact
  · intro h layoutInfo hlayout
    rw [get?_of_lookup hlayout]
    exact exact_of_holdersHoldPrefix hstops h

/-! ## An instance that has lost a prefix -/

/-- Chunks of two tokens, hashed by a sum. -/
def sumDatabase : ChunkedTokenDatabase where
  hashFunc := fun prefixHash tokens => prefixHash.getD 0 + tokens.sum
  noneHash := 0
  metadata := none
  saveOnlyFirstRank := false
  chunkSize := 2
  saveUnfullChunk := true

/-- A worker that has put these chunks into its CPU cache. -/
def cpuWorker (r : RegistryTree) (instanceId : String) (hashes : List Int) : RegistryTree :=
  (r.registerWorker instanceId 0).handleBatchedKvOperations
    ⟨instanceId, 0, "LocalCPUBackend", hashes.zipIdx.map fun p => ⟨.ADMIT, p.1, p.2⟩⟩ false

/-- The first instance has only the second chunk left, the other one has both. -/
def suffixHolder : RegistryTree := cpuWorker (cpuWorker .empty "a" [10]) "b" [3, 10]

/-- **An entry for a suffix.**  The second chunk is found at an instance that does not hold the
first, and the entry of the instance that holds both ends at the first. -/
theorem not_prefixExact_suffixHolder :
    ¬ ∀ layoutInfo, lookup sumDatabase suffixHolder [1, 2, 3, 4] = .ok layoutInfo →
      PrefixExact suffixHolder (sumDatabase.processHashes (.ofTokens [1, 2, 3, 4] none)).yields
        layoutInfo := by
  intro h
  have hchunks : (sumDatabase.processHashes (.ofTokens [1, 2, 3, 4] none)).yields =
      [⟨0, 2, 3⟩, ⟨2, 4, 10⟩] := by decide
  have hlookup : ∃ layoutInfo, lookup sumDatabase suffixHolder [1, 2, 3, 4] = .ok layoutInfo ∧
      layoutInfo.get? "a" = some ("LocalCPUBackend", 4) := by
    refine ⟨_, rfl, ?_⟩
    decide
  obtain ⟨layoutInfo, hlayout, hget⟩ := hlookup
  have hexact := (h layoutInfo hlayout "a" "LocalCPUBackend" 4 hget).2.1
  rw [hchunks] at hexact
  have hholds := hexact ⟨0, 2, 3⟩ List.mem_cons_self (by decide)
  revert hholds
  decide

end KVController

end LMCache.Controller
