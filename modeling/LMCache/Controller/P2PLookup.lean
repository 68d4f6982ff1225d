/-
# LMCache.Controller.P2PLookup — the peer that a worker is told to read from.

Source: `KVController.batched_p2p_lookup`, with `find_kv_with_worker_info` and `find_key` of
`cache_controller/utils.py`.

A worker asks which of the other instances has the chunks it is missing.  A chunk hash says nothing
of a rank: all ranks of an instance share it, and the peer that is asked for the chunks looks them
up under the rank of the requester.  The registry is searched for the first hash, and the search
stops at the first place that holds it, whatever rank the worker has and whether or not it has a URL
to read from.
-/
import LMCache.Controller.PrefixLookup
import LMCache.Controller.Registration

namespace LMCache.Controller

open LMCache.Lib

/-! ## Messages -/

structure BatchedP2PLookupMsg where
  hashes : List Int
  instanceId : String
  /-- TP rank -/
  workerId : Nat
  deriving DecidableEq, Repr

structure BatchedP2PLookupRetMsg where
  /-- (instance_id, location, num_hit_chunks, peer_init_url) -/
  layoutInfo : List (String × String × Nat × String)
  deriving DecidableEq, Repr

/-- What a search for a key finds: the place, the URL of the worker, and all that is there. -/
structure KeyFound where
  kvInfo : KVChunkInfo
  peerInitUrl : Option String
  keys : Finset Int
  deriving DecidableEq

/-! ## The search -/

/-- `WorkerNode.find_key`: the first location that has the key. -/
def WorkerEntry.findKey (e : WorkerEntry) (workerId : Nat) (key : Int) : Option KeyFound :=
  (e.node.kvStore.entries.find? fun l => key ∈ l.2).map fun l =>
    ⟨⟨"", workerId, l.1⟩, e.peerInitUrl, l.2⟩

namespace Registry

/-- `InstanceNode.find_key`: the first worker that finds the key. -/
def findKey (instanceId : String) (workers : Dict Nat WorkerEntry) (key : Int) : Option KeyFound :=
  workers.entries.findSome? fun w => (w.2.findKey w.1 key).map fun found =>
    ⟨⟨instanceId, w.1, found.kvInfo.location⟩, found.peerInitUrl, found.keys⟩

/-- `find_kv_with_worker_info`: the first instance in which it is found. -/
def findKvWithWorkerInfo (r : Registry) (key : Int) (excludeInstanceId : Option String) :
    Option KeyFound :=
  r.instances.entries.findSome? fun i =>
    if excludeInstanceId = some i.1 then none else findKey i.1 i.2 key

/-- `batched_p2p_lookup`. -/
def batchedP2pLookup (r : Registry) (msg : BatchedP2PLookupMsg) : BatchedP2PLookupRetMsg :=
  match msg.hashes with
  | [] => ⟨[("", "", 0, "")]⟩
  | key :: _ =>
    match r.findKvWithWorkerInfo key (some msg.instanceId) with
    | none => ⟨[("", "", 0, "")]⟩
    | some found =>
      match found.peerInitUrl with
      | none => ⟨[("", "", 0, "")]⟩
      | some peerInitUrl =>
        ⟨[(found.kvInfo.instanceId, found.kvInfo.location,
          (msg.hashes.takeWhile fun key => key ∈ found.keys).length, peerInitUrl)]⟩

/-! ## All the places of a chunk -/

/-- The locations in which a worker holds a chunk. -/
def placesOfWorker (instanceId : String) (workerId : Nat) (e : WorkerEntry) (key : Int) :
    List KeyFound :=
  (e.node.kvStore.entries.filter fun l => key ∈ l.2).map fun l =>
    ⟨⟨instanceId, workerId, l.1⟩, e.peerInitUrl, l.2⟩

def placesOfInstance (instanceId : String) (workers : Dict Nat WorkerEntry) (key : Int) :
    List KeyFound :=
  workers.entries.flatMap fun w => placesOfWorker instanceId w.1 w.2 key

/-- Where the other instances hold a chunk, in the order of the registry. -/
def places (r : Registry) (key : Int) (excludeInstanceId : Option String) : List KeyFound :=
  r.instances.entries.flatMap fun i =>
    if excludeInstanceId = some i.1 then [] else placesOfInstance i.1 i.2 key

theorem findKey_eq_head? (instanceId : String) (workers : Dict Nat WorkerEntry) (key : Int) :
    findKey instanceId workers key = (placesOfInstance instanceId workers key).head? := by
  unfold findKey placesOfInstance
  rw [List.head?_flatMap]
  congr 1
  funext w
  unfold WorkerEntry.findKey placesOfWorker
  rw [Option.map_map, List.head?_map, List.head?_filter]
  rfl

/-- The search stops at the first of the places. -/
theorem findKvWithWorkerInfo_eq_head? (r : Registry) (key : Int)
    (excludeInstanceId : Option String) :
    r.findKvWithWorkerInfo key excludeInstanceId = (r.places key excludeInstanceId).head? := by
  unfold findKvWithWorkerInfo places
  rw [List.head?_flatMap]
  congr 1
  funext i
  by_cases hexclude : excludeInstanceId = some i.1
  · rw [if_pos hexclude, if_pos hexclude]
    rfl
  · rw [if_neg hexclude, if_neg hexclude]
    exact findKey_eq_head? i.1 i.2 key

/-- The places are the key sets, of the workers of other instances, that have the chunk. -/
theorem mem_places {r : Registry} {key : Int} {instanceId : String} {p : KeyFound} :
    p ∈ r.places key (some instanceId) ↔
      p.kvInfo.instanceId ≠ instanceId ∧ ∃ entry,
        r.getWorker p.kvInfo.instanceId p.kvInfo.workerId = some entry ∧
        entry.peerInitUrl = p.peerInitUrl ∧
        entry.node.kvStore.get? p.kvInfo.location = some p.keys ∧ key ∈ p.keys := by
  unfold places placesOfInstance placesOfWorker getWorker
  constructor
  · intro hp
    obtain ⟨i, hi, hp⟩ := List.mem_flatMap.mp hp
    split at hp
    · exact absurd hp List.not_mem_nil
    · rename_i hother
      obtain ⟨w, hw, hp⟩ := List.mem_flatMap.mp hp
      obtain ⟨l, hl, rfl⟩ := List.mem_map.mp hp
      obtain ⟨hl, hkey⟩ := List.mem_filter.mp hl
      refine ⟨fun heq => hother (congrArg some heq.symm), w.2, ?_, rfl, ?_, of_decide_eq_true hkey⟩
      · show (r.instances.get? i.1).bind (fun workers => workers.get? w.1) = some w.2
        rw [Dict.get?_eq_some.mpr hi]
        exact Dict.get?_eq_some.mpr hw
      · exact Dict.get?_eq_some.mpr hl
  · rintro ⟨hother, entry, hworker, hurl, hkeys, hkey⟩
    obtain ⟨workers, hinstance, hworker⟩ := Option.bind_eq_some_iff.mp hworker
    apply List.mem_flatMap.mpr
    refine ⟨(p.kvInfo.instanceId, workers), Dict.get?_eq_some.mp hinstance, ?_⟩
    rw [if_neg (fun heq => hother (Option.some.inj heq).symm)]
    apply List.mem_flatMap.mpr
    refine ⟨(p.kvInfo.workerId, entry), Dict.get?_eq_some.mp hworker, ?_⟩
    apply List.mem_map.mpr
    refine ⟨(p.kvInfo.location, p.keys), ?_, ?_⟩
    · exact List.mem_filter.mpr ⟨Dict.get?_eq_some.mp hkeys, decide_eq_true hkey⟩
    · dsimp only
      rw [hurl]

/-! ## What the peer can serve -/

/-- Behind the URL is a worker of another instance that has the rank of the requester and holds the
first `n` chunks in the location. -/
def Readable (r : Registry) (msg : BatchedP2PLookupMsg) (location url : String) (n : Nat) : Prop :=
  ∃ id entry, id ≠ msg.instanceId ∧ r.getWorker id msg.workerId = some entry ∧
    entry.peerInitUrl = some url ∧ ∀ key ∈ msg.hashes.take n, key ∈ entry.node.getKvKeys location

/-- No worker of another instance, that has the rank of the requester and a URL, holds the first
chunk in any location. -/
def NothingReadable (r : Registry) (msg : BatchedP2PLookupMsg) : Prop :=
  ∀ id entry, id ≠ msg.instanceId → r.getWorker id msg.workerId = some entry →
    entry.peerInitUrl ≠ none → ∀ location, ∀ key ∈ msg.hashes.head?,
      key ∉ entry.node.getKvKeys location

/-- The answer names what can be read, and nothing only when nothing can be. -/
def ReportsReadable (r : Registry) (msg : BatchedP2PLookupMsg) (ret : BatchedP2PLookupRetMsg) :
    Prop :=
  ∃ instanceId location n url, ret.layoutInfo = [(instanceId, location, n, url)] ∧
    (0 < n → r.Readable msg location url n) ∧ (n = 0 → r.NothingReadable msg)

/-- The place is that of a worker with the rank of the requester, or has the URL of such a worker
that holds the same leading chunks in the same location.  Where the place has no URL, no place of
the requester's rank has one. -/
def RankFirst (r : Registry) (msg : BatchedP2PLookupMsg) (key : Int) (first : KeyFound) : Prop :=
  match first.peerInitUrl with
  | some url => first.kvInfo.workerId = msg.workerId ∨
      ∃ p ∈ r.places key (some msg.instanceId), p.kvInfo.workerId = msg.workerId ∧
        p.peerInitUrl = some url ∧ p.kvInfo.location = first.kvInfo.location ∧
        ∀ key ∈ msg.hashes.takeWhile fun key => key ∈ first.keys, key ∈ p.keys
  | none => ∀ p ∈ r.places key (some msg.instanceId), p.kvInfo.workerId = msg.workerId →
      p.peerInitUrl = none

/-- The first of the places of the first chunk, if it has any, is one that the requester can read
from. -/
def RequesterRankFirst (r : Registry) (msg : BatchedP2PLookupMsg) : Prop :=
  ∀ key ∈ msg.hashes.head?, ∀ first ∈ (r.places key (some msg.instanceId)).head?,
    r.RankFirst msg key first

/-! ## When it does -/

section Report

variable {r : Registry} {msg : BatchedP2PLookupMsg} {key : Int}

/-- The leading hashes that a place has are the ones that are counted. -/
theorem take_leading (keys : Finset Int) (hashes : List Int) :
    hashes.take (hashes.takeWhile fun key => key ∈ keys).length =
      hashes.takeWhile fun key => key ∈ keys :=
  (List.prefix_iff_eq_take.mp (List.takeWhile_prefix _)).symm

theorem mem_of_mem_leading {keys : Finset Int} {hashes : List Int}
    (h : key ∈ hashes.takeWhile fun key => key ∈ keys) : key ∈ keys :=
  by
  have hall := List.all_takeWhile (p := fun key => decide (key ∈ keys)) (l := hashes)
  exact of_decide_eq_true (List.all_eq_true.mp hall key h)

theorem ReportsReadable.singleton_iff {instanceId location url : String} {n : Nat} :
    r.ReportsReadable msg ⟨[(instanceId, location, n, url)]⟩ ↔
      (0 < n → r.Readable msg location url n) ∧ (n = 0 → r.NothingReadable msg) := by
  constructor
  · rintro ⟨instanceId', location', n', url', hlayout, hreadable, hnothing⟩
    cases hlayout
    exact ⟨hreadable, hnothing⟩
  · rintro ⟨hreadable, hnothing⟩
    exact ⟨instanceId, location, n, url, rfl, hreadable, hnothing⟩

theorem mem_leading {keys : Finset Int} (hhead : msg.hashes.head? = some key) (hkey : key ∈ keys) :
    key ∈ msg.hashes.takeWhile fun key => key ∈ keys := by
  obtain ⟨rest, hrest⟩ := List.head?_eq_some_iff.mp hhead
  rw [hrest, List.takeWhile_cons_of_pos (by simpa using hkey)]
  exact List.mem_cons_self

/-- To say that there is nothing is right just when no place of the rank has a URL. -/
theorem nothingReadable_iff (hhead : msg.hashes.head? = some key) :
    r.NothingReadable msg ↔ ∀ p ∈ r.places key (some msg.instanceId),
      p.kvInfo.workerId = msg.workerId → p.peerInitUrl = none := by
  unfold NothingReadable
  rw [hhead]
  constructor
  · intro h p hp hrank
    obtain ⟨hother, entry, hworker, hurl, hkeys, hkey⟩ := mem_places.mp hp
    rw [hrank] at hworker
    by_contra hne
    apply h _ entry hother hworker (hurl ▸ hne) p.kvInfo.location key rfl
    unfold WorkerNode.getKvKeys
    rw [hkeys]
    exact hkey
  · rintro h id entry hother hworker hurl location _ ⟨⟩ hkey
    unfold WorkerNode.getKvKeys at hkey
    match hkeys : entry.node.kvStore.get? location with
    | none =>
      rw [hkeys] at hkey
      exact absurd hkey (Finset.notMem_empty key)
    | some keys =>
      rw [hkeys] at hkey
      apply hurl
      exact h ⟨⟨id, msg.workerId, location⟩, entry.peerInitUrl, keys⟩
        (mem_places.mpr ⟨hother, entry, hworker, rfl, hkeys, hkey⟩) rfl

variable {first : KeyFound}

/-- The chunks that were counted at a place can be read from a URL just when a place of the rank,
with this URL and in the same location, has them. -/
theorem readable_iff (hhead : msg.hashes.head? = some key) {url : String} (hkey : key ∈ first.keys)
    :
    r.Readable msg first.kvInfo.location url
        (msg.hashes.takeWhile fun key => key ∈ first.keys).length ↔
      ∃ p ∈ r.places key (some msg.instanceId), p.kvInfo.workerId = msg.workerId ∧
        p.peerInitUrl = some url ∧ p.kvInfo.location = first.kvInfo.location ∧
        ∀ key ∈ msg.hashes.takeWhile fun key => key ∈ first.keys, key ∈ p.keys := by
  unfold Readable
  rw [take_leading]
  constructor
  · rintro ⟨id, entry, hother, hworker, hurl, hheld⟩
    -- the first chunk is among those that are counted, so the location has a key set
    have hfirst := mem_leading hhead hkey
    unfold WorkerNode.getKvKeys at hheld
    match hkeys : entry.node.kvStore.get? first.kvInfo.location with
    | none =>
      rw [hkeys] at hheld
      exact absurd (hheld key hfirst) (Finset.notMem_empty key)
    | some keys =>
      rw [hkeys] at hheld
      exact ⟨⟨⟨id, msg.workerId, first.kvInfo.location⟩, entry.peerInitUrl, keys⟩,
        mem_places.mpr ⟨hother, entry, hworker, rfl, hkeys, hheld key hfirst⟩, rfl, hurl, rfl,
        hheld⟩
  · rintro ⟨p, hp, hrank, hurl, hlocation, hheld⟩
    obtain ⟨hother, entry, hworker, hentry, hkeys, -⟩ := mem_places.mp hp
    rw [hrank] at hworker
    refine ⟨p.kvInfo.instanceId, entry, hother, hworker, hentry.trans hurl, ?_⟩
    intro key hkey
    unfold WorkerNode.getKvKeys
    rw [← hlocation, hkeys]
    exact hheld key hkey

/-- With the first place, the answer is told by its URL. -/
theorem batchedP2pLookup_of_first (hhead : msg.hashes.head? = some key)
    (hfirst : (r.places key (some msg.instanceId)).head? = some first) :
    r.batchedP2pLookup msg = match first.peerInitUrl with
      | none => ⟨[("", "", 0, "")]⟩
      | some peerInitUrl =>
        ⟨[(first.kvInfo.instanceId, first.kvInfo.location,
          (msg.hashes.takeWhile fun key => key ∈ first.keys).length, peerInitUrl)]⟩ := by
  obtain ⟨rest, hhashes⟩ := List.head?_eq_some_iff.mp hhead
  unfold batchedP2pLookup
  rw [hhashes]
  dsimp only
  rw [findKvWithWorkerInfo_eq_head?, hfirst]

theorem batchedP2pLookup_of_nowhere
    (h : ∀ key ∈ msg.hashes.head?, (r.places key (some msg.instanceId)).head? = none) :
    r.batchedP2pLookup msg = ⟨[("", "", 0, "")]⟩ := by
  unfold batchedP2pLookup
  match hhashes : msg.hashes with
  | [] => rfl
  | key :: rest =>
    rw [hhashes] at h
    dsimp only
    rw [findKvWithWorkerInfo_eq_head?, h key rfl]

/-- With the first place, the report is right just when this place suits the requester. -/
theorem reportsReadable_iff_of_first (hhead : msg.hashes.head? = some key)
    (hfirst : (r.places key (some msg.instanceId)).head? = some first) :
    r.ReportsReadable msg (r.batchedP2pLookup msg) ↔ r.RankFirst msg key first := by
  have hmem : first ∈ r.places key (some msg.instanceId) := List.mem_of_mem_head? hfirst
  obtain ⟨-, _, -, -, -, hkey⟩ := mem_places.mp hmem
  rw [batchedP2pLookup_of_first hhead hfirst]
  unfold RankFirst
  match hurl : first.peerInitUrl with
  | none =>
    dsimp only
    rw [ReportsReadable.singleton_iff, nothingReadable_iff hhead]
    constructor
    · rintro ⟨-, hnothing⟩
      exact hnothing rfl
    · intro h
      exact ⟨fun hpos => absurd hpos (Nat.lt_irrefl 0), fun _ => h⟩
  | some url =>
    have hpos : 0 < (msg.hashes.takeWhile fun key => key ∈ first.keys).length :=
      List.length_pos_of_mem (mem_leading hhead hkey)
    dsimp only
    rw [ReportsReadable.singleton_iff, readable_iff hhead hkey]
    constructor
    · rintro ⟨hreadable, -⟩
      exact .inr (hreadable hpos)
    · intro h
      refine ⟨fun _ => ?_, fun hzero => by omega⟩
      rcases h with hrank | hother
      · exact ⟨first, hmem, hrank, hurl, rfl, fun key => mem_of_mem_leading⟩
      · exact hother

/-- **The controller reports only what can be read, and nothing only when nothing can be, just
when** the search for the first chunk comes first to a worker with the rank of the requester, or to
one that happens to have the URL of such a worker with the same chunks; and where it comes first to
a worker without a URL, none of the requester's rank that has the chunk has one. -/
theorem reportsReadable_batchedP2pLookup_iff (r : Registry) (msg : BatchedP2PLookupMsg) :
    r.ReportsReadable msg (r.batchedP2pLookup msg) ↔ r.RequesterRankFirst msg := by
  by_cases hfound : ∃ key first, msg.hashes.head? = some key ∧
      (r.places key (some msg.instanceId)).head? = some first
  · obtain ⟨key, first, hhead, hfirst⟩ := hfound
    rw [reportsReadable_iff_of_first hhead hfirst]
    constructor
    · intro h key' hhead' first' hfirst'
      rw [hhead] at hhead'
      cases hhead'
      rw [hfirst] at hfirst'
      cases hfirst'
      exact h
    · intro h
      exact h key hhead first hfirst
  · have hnowhere (key : Int) (hkey : key ∈ msg.hashes.head?) :
        (r.places key (some msg.instanceId)).head? = none := by
      apply Option.eq_none_iff_forall_not_mem.mpr
      intro first hfirst
      exact hfound ⟨key, first, hkey, hfirst⟩
    rw [batchedP2pLookup_of_nowhere hnowhere, ReportsReadable.singleton_iff]
    refine iff_of_true ⟨fun hpos => absurd hpos (Nat.lt_irrefl 0), fun _ => ?_⟩ ?_
    · match hhead : msg.hashes.head? with
      | none =>
        unfold NothingReadable
        rw [hhead]
        exact fun _ _ _ _ _ _ _ => nofun
      | some key =>
        rw [nothingReadable_iff hhead, List.head?_eq_none_iff.mp (hnowhere key hhead)]
        exact nofun
    · intro key hkey first hfirst
      rw [hnowhere key hkey] at hfirst
      cases hfirst

end Report

/-! ### Two ranks -/

/-- Both ranks of instance `b` are registered, and only the first has reported the chunk. -/
def oneRankReported : Registry :=
  handleBatchedKvOperations
    (RegistrationController.register
      (RegistrationController.register empty ⟨"b", 0, "10.0.0.2", 8000, some "10.0.0.2:9000"⟩ 0)
      ⟨"b", 1, "10.0.0.2", 8001, some "10.0.0.2:9001"⟩ 0)
    ⟨"b", 0, "LocalCPUBackend", [⟨.ADMIT, 7, 0⟩]⟩ false

/-- It can fail: rank 1 of instance `a` is told to read the chunk from a worker of rank 0. -/
theorem not_reportsReadable_oneRankReported :
    ¬ oneRankReported.ReportsReadable ⟨[7], "a", 1⟩
      (oneRankReported.batchedP2pLookup ⟨[7], "a", 1⟩) := by
  have hplaces : oneRankReported.places 7 (some "a") =
      [⟨⟨"b", 0, "LocalCPUBackend"⟩, some "10.0.0.2:9000", {7}⟩] := by decide +kernel
  rw [reportsReadable_iff_of_first rfl (by rw [hplaces]; rfl)]
  rintro (hrank | ⟨p, hp, hrank, -⟩)
  · cases hrank
  · rw [hplaces, List.mem_singleton] at hp
    subst hp
    cases hrank

end Registry

end LMCache.Controller
