/-
# LMCache.Storage.RemoteReads — the five ways `RemoteBackend` reads a key.

Source: `contains`, `get_blocking`, `batched_get_blocking`, `batched_async_contains` and
`batched_get_non_blocking` of `v1/storage_backend/remote_backend.py`, over the batched defaults of
`v1/storage_backend/connector/base_connector.py`.

A worker of an MLA model may read what worker 0 has stored, and what is stored may be compressed.
So a read has to rewrite its key and to deserialize its object.  Both are written out in each
method; the non-blocking read does neither.

The connector is a parameter.  `Connector.Serves` says what a connector over a given remote store
answers; the base class does so (`Connector.ofBase_serves`).  `readsAgree_iff` says over which
stores all the reads of a backend come to the same.
-/
import LMCache.CacheEngineKey
import LMCache.Lib.Reads
import LMCache.PyError

namespace LMCache

/-- `with_new_worker_id`: a key of the whole chunk, whatever layer the key itself names.  The tags
are read from the same request configurations again. -/
def CacheEngineKey.withNewWorkerId (k : CacheEngineKey) (newWorkerId : Int) : CacheEngineKey :=
  { k with workerId := newWorkerId, layerId := none }

end LMCache

namespace LMCache.Storage

open LMCache.Lib

variable {Obj : Type}

/-! ## The connector -/

/-- The reads of a `RemoteConnector`; a timeout of the caller counts as an exception. -/
structure Connector (Obj : Type) where
  existsKey : CacheEngineKey → Except PyError Bool
  existsSync : CacheEngineKey → Except PyError Bool
  get : CacheEngineKey → Except PyError (Option Obj)
  supportBatchedGet : Bool
  batchedGet : List CacheEngineKey → Except PyError (List (Option Obj))
  supportBatchedAsyncContains : Bool
  batchedAsyncContains : List CacheEngineKey → Bool → Except PyError Nat
  batchedGetNonBlocking : List CacheEngineKey → Except PyError (List Obj)

namespace Connector

/-- The loop of the base class over the gathered results: the objects before the first failure. -/
def beforeFailure : List (Except PyError (Option Obj)) → List Obj
  | .ok (some obj) :: results => obj :: beforeFailure results
  | _ => []

/-- A connector that defines the reads of one key and leaves the batches to the base class, where
`batched_get` raises `NotImplementedError`, a `RuntimeError`. -/
def ofBase (existsKey existsSync : CacheEngineKey → Except PyError Bool)
    (get : CacheEngineKey → Except PyError (Option Obj)) : Connector Obj where
  existsKey := existsKey
  existsSync := existsSync
  get := get
  supportBatchedGet := false
  batchedGet := fun _ => .error (.runtimeError "")
  supportBatchedAsyncContains := true
  -- `results.index(False)`, or the number of results when there is none
  batchedAsyncContains := fun keys _ => (keys.mapM existsKey).map (List.idxOf false)
  batchedGetNonBlocking := fun keys => .ok (beforeFailure (keys.map get))

/-- What a store holds for the keys of a batch. -/
def held (store : CacheEngineKey → Option Obj) (keys : List CacheEngineKey) :
    Reads CacheEngineKey Obj :=
  keys.map fun k => (k, store k)

/-- **A connector over a remote store**: what it answers when the server can be reached.  The
connectors differ in what they return behind a missing key, so nothing is said about a batch with a
hole. -/
structure Serves (c : Connector Obj) (store : CacheEngineKey → Option Obj) : Prop where
  existsKey : ∀ k, c.existsKey k = .ok (store k).isSome
  existsSync : ∀ k, c.existsSync k = .ok (store k).isSome
  get : ∀ k, c.get k = .ok (store k)
  batchedGet : c.supportBatchedGet = true → ∀ keys, c.batchedGet keys = .ok (keys.map store)
  supportBatchedAsyncContains : c.supportBatchedAsyncContains = true
  batchedAsyncContains : ∀ keys pin,
    c.batchedAsyncContains keys pin = .ok (Reads.hitPrefix (held store keys)).length
  batchedGetNonBlocking : ∀ present absent, (∀ k ∈ present, (store k).isSome) →
    (∀ k ∈ absent, store k = none) →
    c.batchedGetNonBlocking (present ++ absent) = .ok (present.filterMap store)

end Connector

/-! ## The backend -/

/-- `RemoteBackend`, with what its reads use of the configuration and of the metadata. -/
structure RemoteBackend (Obj : Type) where
  /-- Whether there is a local CPU backend to allocate from; a scheduler has none. -/
  localCpuBackend : Bool
  connection : Option (Connector Obj)
  useMla : Bool
  worldSize : Int
  workerId : Int
  remoteEnableMlaWorkerIdAs0 : Option Bool
  useExistsSync : Bool
  deserialize : Obj → Except PyError Obj

namespace RemoteBackend

/-- `_mla_worker_id_as0_mode`. -/
def mlaWorkerIdAs0Mode (b : RemoteBackend Obj) : Bool :=
  b.remoteEnableMlaWorkerIdAs0.getD b.useMla && b.useMla && decide (1 < b.worldSize) &&
    decide (b.workerId ≠ 0)

/-- The key that is looked up for `k`, where a method rewrites it. -/
def remoteKey (b : RemoteBackend Obj) (k : CacheEngineKey) : CacheEngineKey :=
  if b.mlaWorkerIdAs0Mode then k.withNewWorkerId 0 else k

/-- `contains`. -/
def contains (b : RemoteBackend Obj) (k : CacheEngineKey) : Bool :=
  match b.connection with
  | none => false
  | some c =>
    match if b.useExistsSync then c.existsSync (b.remoteKey k) else c.existsKey (b.remoteKey k) with
    | .ok res => res
    | .error _ => false

/-- `get_blocking`: an exception of the connector is `None`, one of the deserializer is passed on.
-/
def getBlocking (b : RemoteBackend Obj) (k : CacheEngineKey) : Except PyError (Option Obj) :=
  if b.localCpuBackend then
    match b.connection with
    | none => .ok none
    | some c =>
      match c.get (b.remoteKey k) with
      | .error _ => .ok none
      | .ok none => .ok none
      | .ok (some obj) => (b.deserialize obj).map some
  else .ok none

/-- The reads of one key after another: behind an exception everything is `None`. -/
def getUntilRaised (get : CacheEngineKey → Except PyError (Option Obj)) :
    List CacheEngineKey → List (Option Obj)
  | [] => []
  | k :: keys =>
    match get k with
    | .ok obj => obj :: getUntilRaised get keys
    | .error _ => none :: List.replicate keys.length none

/-- What `batched_get_blocking` makes of one result. -/
def decompress (b : RemoteBackend Obj) : Option Obj → Except PyError (Option Obj)
  | none => .ok none
  | some obj => (b.deserialize obj).map some

/-- The message of the assertion at the end of `batched_get_blocking`. -/
def lengthMessage (keys objs : Nat) : String :=
  s!"keys length: {keys}, decompressed memory objs length: {objs}"

/-- `batched_get_blocking`. -/
def batchedGetBlocking (b : RemoteBackend Obj) (keys : List CacheEngineKey) :
    Except PyError (List (Option Obj)) :=
  if b.localCpuBackend then
    match b.connection with
    | none => .ok (List.replicate keys.length none)
    | some c =>
      let objs :=
        if c.supportBatchedGet then
          match c.batchedGet (keys.map b.remoteKey) with
          | .ok objs => objs
          | .error _ => List.replicate keys.length none
        else getUntilRaised c.get (keys.map b.remoteKey)
      do
        let decompressed ← objs.mapM b.decompress
        if decompressed.length = keys.length then pure decompressed
        else throw (.assertionError (lengthMessage keys.length decompressed.length))
  else .ok (List.replicate keys.length none)

/-- `batched_async_contains`: a connector that does not support it fails an assertion, which is
caught like any other exception. -/
def batchedAsyncContains (b : RemoteBackend Obj) (keys : List CacheEngineKey) (pin : Bool) : Nat :=
  match b.connection with
  | none => 0
  | some c =>
    if c.supportBatchedAsyncContains then
      match c.batchedAsyncContains (keys.map b.remoteKey) pin with
      | .ok n => n
      | .error _ => 0
    else 0

/-- `batched_get_non_blocking`: the keys go to the connector, and its objects to the caller, as they
are. -/
def batchedGetNonBlocking (b : RemoteBackend Obj) (keys : List CacheEngineKey) : List Obj :=
  if b.localCpuBackend then
    match b.connection with
    | none => []
    | some c =>
      match c.batchedGetNonBlocking keys with
      | .ok objs => objs
      | .error _ => []
  else []

/-! ## Agreement -/

/-- **The reads agree on a batch**: reading the keys one by one or together gives the same, the
non-blocking read gives the objects up to the first key without one, and as many are counted as
hits. -/
def ReadsAgree (b : RemoteBackend Obj) (keys : List CacheEngineKey) : Prop :=
  ∃ objs : List (Option Obj),
    keys.map b.getBlocking = objs.map Except.ok ∧
    b.batchedGetBlocking keys = .ok objs ∧
    b.batchedGetNonBlocking keys = (Reads.hitPrefix (keys.zip objs)).map Prod.snd ∧
    ∀ pin, b.batchedAsyncContains keys pin = (b.batchedGetNonBlocking keys).length

/-- The store has an object for `k`, under its own name or under the one it is looked up by. -/
def Present (b : RemoteBackend Obj) (store : CacheEngineKey → Option Obj) (k : CacheEngineKey) :
    Prop :=
  (store k).isSome ∨ (store (b.remoteKey k)).isSome

/-- What is stored under the name that `k` is looked up by decodes to the very object that is stored
under `k`, and there is a backend to read it into; or nothing is stored under that name, and there
is none. -/
def SameRead (b : RemoteBackend Obj) (store : CacheEngineKey → Option Obj) (k : CacheEngineKey) :
    Prop :=
  match store (b.remoteKey k) with
  | some obj => b.localCpuBackend = true ∧
      ∃ obj', store k = some obj' ∧ b.deserialize obj = .ok obj'
  | none => b.localCpuBackend = false

end RemoteBackend

/-! ## The reads over a remote store -/

namespace Connector

variable {get : CacheEngineKey → Except PyError (Option Obj)} {store : CacheEngineKey → Option Obj}
  {existsKey : CacheEngineKey → Except PyError Bool}

theorem beforeFailure_map (hget : ∀ k, get k = .ok (store k)) {present absent : List CacheEngineKey}
    (hpresent : ∀ k ∈ present, (store k).isSome) (habsent : ∀ k ∈ absent, store k = none) :
    beforeFailure ((present ++ absent).map get) = present.filterMap store := by
  induction present with
  | nil =>
    cases absent with
    | nil => rfl
    | cons k keys =>
      have hk : get k = .ok none := by rw [hget, habsent k (List.mem_cons_self ..)]
      rw [List.nil_append, List.map_cons, hk]
      rfl
  | cons k keys ih =>
    obtain ⟨obj, hobj⟩ := Option.isSome_iff_exists.mp (hpresent k (List.mem_cons_self ..))
    have ih' := ih fun k hk => hpresent k (List.mem_cons_of_mem _ hk)
    rw [List.cons_append, List.map_cons, hget, hobj, List.filterMap_cons_some hobj, ← ih']
    rfl

theorem idxOf_false_mapM (hexists : ∀ k, existsKey k = .ok (store k).isSome)
    (keys : List CacheEngineKey) :
    (keys.mapM existsKey).map (List.idxOf false) =
      .ok (Reads.hitPrefix (held store keys)).length := by
  have hmapM : ∀ keys : List CacheEngineKey,
      keys.mapM existsKey = .ok (keys.map fun k => (store k).isSome) := by
    intro keys
    induction keys with
    | nil => rfl
    | cons k keys ih =>
      rw [List.mapM_cons, hexists, ih]
      rfl
  rw [hmapM]
  refine congrArg Except.ok ?_
  induction keys with
  | nil => rfl
  | cons k keys ih =>
    unfold held
    rw [List.map_cons, List.map_cons]
    cases hk : store k with
    | none => rfl
    | some obj =>
      show List.idxOf false (true :: _) = (Reads.hitPrefix (held store keys)).length + 1
      rw [List.idxOf_cons_ne _ (by decide), ih]

/-- **The base class serves a store** when the reads of one key do. -/
theorem ofBase_serves {existsSync : CacheEngineKey → Except PyError Bool}
    (hexists : ∀ k, existsKey k = .ok (store k).isSome)
    (hsync : ∀ k, existsSync k = .ok (store k).isSome) (hget : ∀ k, get k = .ok (store k)) :
    (ofBase existsKey existsSync get).Serves store where
  existsKey := hexists
  existsSync := hsync
  get := hget
  batchedGet := fun h => (nomatch h)
  supportBatchedAsyncContains := rfl
  batchedAsyncContains := fun keys _ => idxOf_false_mapM hexists keys
  batchedGetNonBlocking := fun _ _ hpresent habsent =>
    congrArg Except.ok (beforeFailure_map hget hpresent habsent)

end Connector

namespace RemoteBackend

variable {b : RemoteBackend Obj} {c : Connector Obj} {store : CacheEngineKey → Option Obj}

/-- With nothing to read into, every blocking read is `None`. -/
theorem blocking_of_noCpu (hcpu : b.localCpuBackend = false) (keys : List CacheEngineKey) :
    keys.map b.getBlocking = (List.replicate keys.length none).map Except.ok ∧
      b.batchedGetBlocking keys = .ok (List.replicate keys.length none) := by
  have hget : ∀ k, b.getBlocking k = .ok none := by
    intro k
    unfold getBlocking
    rw [hcpu]
    rfl
  constructor
  · rw [List.map_replicate, ← List.map_const']
    exact List.map_congr_left fun k _ => hget k
  · unfold batchedGetBlocking
    rw [hcpu]
    rfl

/-- So it is without a connection. -/
theorem blocking_of_noConnection (hconn : b.connection = none) (keys : List CacheEngineKey) :
    keys.map b.getBlocking = (List.replicate keys.length none).map Except.ok ∧
      b.batchedGetBlocking keys = .ok (List.replicate keys.length none) := by
  cases hcpu : b.localCpuBackend with
  | false => exact blocking_of_noCpu hcpu keys
  | true =>
    have hget : ∀ k, b.getBlocking k = .ok none := by
      intro k
      unfold getBlocking
      rw [hcpu, hconn]
      rfl
    constructor
    · rw [List.map_replicate, ← List.map_const']
      exact List.map_congr_left fun k _ => hget k
    · unfold batchedGetBlocking
      rw [hcpu, hconn]
      rfl

/-- A blocking read decodes what is stored under the name the key is looked up by. -/
theorem getBlocking_eq (hserves : c.Serves store) (hcpu : b.localCpuBackend = true)
    (hconn : b.connection = some c) (k : CacheEngineKey) :
    b.getBlocking k = b.decompress (store (b.remoteKey k)) := by
  unfold getBlocking
  rw [hcpu, hconn]
  simp only [if_true, hserves.get]
  cases store (b.remoteKey k) <;> rfl

theorem getUntilRaised_eq {get : CacheEngineKey → Except PyError (Option Obj)}
    (hget : ∀ k, get k = .ok (store k)) (keys : List CacheEngineKey) :
    getUntilRaised get keys = keys.map store := by
  induction keys with
  | nil => rfl
  | cons k keys ih =>
    unfold getUntilRaised
    rw [hget, ih]
    rfl

variable {keys : List CacheEngineKey}

/-- **The batched blocking read gives what the reads one by one give.** -/
theorem batchedGetBlocking_eq_ok_iff (hserves : c.Serves store) (hcpu : b.localCpuBackend = true)
    (hconn : b.connection = some c) {objs : List (Option Obj)} :
    b.batchedGetBlocking keys = .ok objs ↔ keys.map b.getBlocking = objs.map Except.ok := by
  have hread : (if c.supportBatchedGet then
      match c.batchedGet (keys.map b.remoteKey) with
      | .ok objs => objs
      | .error _ => List.replicate keys.length none
      else getUntilRaised c.get (keys.map b.remoteKey)) = (keys.map b.remoteKey).map store := by
    cases hbatch : c.supportBatchedGet with
    | true => simp only [if_true, hserves.batchedGet hbatch]
    | false => exact getUntilRaised_eq hserves.get _
  have hdecompress : ((keys.map b.remoteKey).map store).map b.decompress =
      keys.map b.getBlocking := by
    rw [List.map_map, List.map_map]
    exact List.map_congr_left fun k _ => (getBlocking_eq hserves hcpu hconn k).symm
  unfold batchedGetBlocking
  rw [hcpu, hconn]
  simp only [if_true, hread]
  rw [bind_eq_ok]
  constructor
  · rintro ⟨decompressed, hmap, hret⟩
    split at hret
    · cases hret
      rw [← hdecompress]
      exact mapM_eq_ok_iff.mp hmap
    · cases hret
  · intro h
    have hlength : objs.length = keys.length := by
      have := congrArg List.length h
      rwa [List.length_map, List.length_map, eq_comm] at this
    refine ⟨objs, mapM_eq_ok_iff.mpr (hdecompress.trans h), ?_⟩
    rw [if_pos hlength]
    rfl

theorem batchedAsyncContains_eq (hserves : c.Serves store) (hconn : b.connection = some c)
    (keys : List CacheEngineKey) (pin : Bool) : b.batchedAsyncContains keys pin =
      (Reads.hitPrefix (Connector.held store (keys.map b.remoteKey))).length := by
  unfold batchedAsyncContains
  rw [hconn]
  simp only [hserves.supportBatchedAsyncContains, if_true, hserves.batchedAsyncContains]

theorem batchedGetNonBlocking_of_noCpu (hcpu : b.localCpuBackend = false)
    (keys : List CacheEngineKey) : b.batchedGetNonBlocking keys = [] := by
  unfold batchedGetNonBlocking
  rw [hcpu]
  rfl

theorem batchedGetNonBlocking_eq (hserves : c.Serves store) (hcpu : b.localCpuBackend = true)
    (hconn : b.connection = some c) {present absent : List CacheEngineKey}
    (hpresent : ∀ k ∈ present, (store k).isSome) (habsent : ∀ k ∈ absent, store k = none) :
    b.batchedGetNonBlocking (present ++ absent) = present.filterMap store := by
  unfold batchedGetNonBlocking
  rw [hcpu, hconn]
  simp only [if_true, hserves.batchedGetNonBlocking present absent hpresent habsent]

theorem batchedGetNonBlocking_singleton (hserves : c.Serves store)
    (hcpu : b.localCpuBackend = true) (hconn : b.connection = some c) (k : CacheEngineKey) :
    b.batchedGetNonBlocking [k] = (store k).toList := by
  cases hk : store k with
  | none =>
    have hread : b.batchedGetNonBlocking ([] ++ [k]) = _ :=
      batchedGetNonBlocking_eq hserves hcpu hconn (by simp) (by simpa using hk)
    exact hread
  | some obj =>
    have hread : b.batchedGetNonBlocking ([k] ++ []) = _ :=
      batchedGetNonBlocking_eq hserves hcpu hconn (by simp [hk]) (by simp)
    rwa [List.append_nil, List.filterMap_cons_some hk] at hread

/-! ## When the reads agree -/

/-- Keys of which nothing is stored count as no hits. -/
theorem hitPrefix_held_of_absent (h : ∀ k ∈ keys, store k = none) :
    Reads.hitPrefix (Connector.held store keys) = [] := by
  cases keys with
  | nil => rfl
  | cons k keys =>
    unfold Connector.held
    rw [List.map_cons, h k (List.mem_cons_self ..)]
    rfl

/-- The prefix of a batch that is stored as a whole is the batch. -/
theorem hitPrefix_held_of_present (h : ∀ k ∈ keys, (store k).isSome) :
    (Reads.hitPrefix (Connector.held store keys)).map Prod.snd = keys.filterMap store := by
  induction keys with
  | nil => rfl
  | cons k keys ih =>
    obtain ⟨obj, hobj⟩ := Option.isSome_iff_exists.mp (h k (List.mem_cons_self ..))
    have ih' := ih fun k hk => h k (List.mem_cons_of_mem _ hk)
    rw [List.filterMap_cons_some hobj, ← ih']
    unfold Connector.held
    rw [List.map_cons, hobj]
    rfl

theorem hitPrefix_zip_none (keys : List CacheEngineKey) :
    Reads.hitPrefix (keys.zip (List.replicate keys.length (none : Option Obj))) = [] := by
  cases keys <;> rfl

/-- A backend that cannot read agrees on a batch that it counts no hits in. -/
theorem readsAgree_of_unreadable
    (hblocking : keys.map b.getBlocking = (List.replicate keys.length none).map Except.ok ∧
      b.batchedGetBlocking keys = .ok (List.replicate keys.length none))
    (hnon : b.batchedGetNonBlocking keys = []) (hcount : ∀ pin, b.batchedAsyncContains keys pin = 0) :
    b.ReadsAgree keys := by
  refine ⟨List.replicate keys.length none, hblocking.1, hblocking.2, ?_, ?_⟩
  · rw [hnon, hitPrefix_zip_none]
    rfl
  · intro pin
    rw [hcount, hnon]
    rfl

/-- Without a connection nothing is read and nothing is counted. -/
theorem readsAgree_of_noConnection (hconn : b.connection = none) (keys : List CacheEngineKey) :
    b.ReadsAgree keys := by
  refine readsAgree_of_unreadable (blocking_of_noConnection hconn keys) ?_ ?_
  · unfold batchedGetNonBlocking
    rw [hconn]
    exact ite_self _
  · intro pin
    unfold batchedAsyncContains
    rw [hconn]

/-- **Keys that read the same under both names are read alike by every method.** -/
theorem readsAgree_of_sameRead (hserves : c.Serves store) (hconn : b.connection = some c)
    (h : ∀ k ∈ keys, b.SameRead store k) : b.ReadsAgree keys := by
  cases hcpu : b.localCpuBackend with
  | false =>
    -- nothing is stored under the names that are counted
    have habsent : ∀ k' ∈ keys.map b.remoteKey, store k' = none := by
      intro k' hk'
      obtain ⟨k, hk, rfl⟩ := List.mem_map.mp hk'
      have hsame := h k hk
      unfold SameRead at hsame
      cases hstore : store (b.remoteKey k) with
      | none => rfl
      | some obj =>
        rw [hstore] at hsame
        cases hcpu.symm.trans hsame.1
    refine readsAgree_of_unreadable (blocking_of_noCpu hcpu keys)
      (batchedGetNonBlocking_of_noCpu hcpu keys) ?_
    intro pin
    rw [batchedAsyncContains_eq hserves hconn, hitPrefix_held_of_absent habsent]
    rfl
  | true =>
    have hboth : ∀ k ∈ keys, ∃ obj obj', store (b.remoteKey k) = some obj ∧
        store k = some obj' ∧ b.deserialize obj = .ok obj' := by
      intro k hk
      have hsame := h k hk
      unfold SameRead at hsame
      cases hstore : store (b.remoteKey k) with
      | none =>
        rw [hstore] at hsame
        cases hcpu.symm.trans hsame
      | some obj =>
        rw [hstore] at hsame
        obtain ⟨-, obj', hk', hdes⟩ := hsame
        exact ⟨obj, obj', rfl, hk', hdes⟩
    have hpresent : ∀ k ∈ keys, (store k).isSome := by
      intro k hk
      obtain ⟨-, obj', -, hk', -⟩ := hboth k hk
      exact Option.isSome_of_eq_some hk'
    have hremote : ∀ k' ∈ keys.map b.remoteKey, (store k').isSome := by
      intro k' hk'
      obtain ⟨k, hk, rfl⟩ := List.mem_map.mp hk'
      obtain ⟨obj, -, hstore, -, -⟩ := hboth k hk
      exact Option.isSome_of_eq_some hstore
    have hblocking : keys.map b.getBlocking = (keys.map store).map Except.ok := by
      rw [List.map_map]
      refine List.map_congr_left fun k hk => ?_
      obtain ⟨obj, obj', hstore, hk', hdes⟩ := hboth k hk
      rw [getBlocking_eq hserves hcpu hconn, hstore, Function.comp_apply, hk']
      show (b.deserialize obj).map some = _
      rw [hdes]
      rfl
    have hnon : b.batchedGetNonBlocking keys = keys.filterMap store := by
      have hread : b.batchedGetNonBlocking (keys ++ []) = _ :=
        batchedGetNonBlocking_eq hserves hcpu hconn hpresent (by simp)
      rwa [List.append_nil] at hread
    refine ⟨keys.map store, hblocking,
      (batchedGetBlocking_eq_ok_iff hserves hcpu hconn).mpr hblocking, ?_, ?_⟩
    · have hzip : keys.zip (keys.map store) = Connector.held store keys :=
        List.map_prod_left_eq_zip.symm
      rw [hnon, hzip, hitPrefix_held_of_present hpresent]
    · intro pin
      rw [batchedAsyncContains_eq hserves hconn, hnon, ← List.length_map Prod.snd,
        hitPrefix_held_of_present hremote, List.filterMap_length_eq_length.mpr hremote,
        List.filterMap_length_eq_length.mpr hpresent, List.length_map]

/-- A decoded object is read exactly when the deserializer gives it. -/
theorem deserialize_of_decompress {obj r : Obj}
    (h : b.decompress (some obj) = .ok (some r)) : b.deserialize obj = .ok r := by
  change (b.deserialize obj).map some = .ok (some r) at h
  cases hd : b.deserialize obj with
  | error e =>
    rw [hd] at h
    cases h
  | ok d =>
    rw [hd] at h
    cases h
    rfl

/-- A present key that the reads agree on reads the same under both names. -/
theorem sameRead_of_readsAgree (hserves : c.Serves store) (hconn : b.connection = some c)
    {k : CacheEngineKey} (hpresent : b.Present store k) (h : b.ReadsAgree [k]) :
    b.SameRead store k := by
  obtain ⟨objs, hblocking, -, hnon, hcount⟩ := h
  have hcount' := hcount false
  rw [batchedAsyncContains_eq hserves hconn] at hcount'
  unfold SameRead
  cases hstore : store (b.remoteKey k) with
  | none =>
    -- no hit is counted, so nothing may be returned for what is stored under `k` itself
    rw [hitPrefix_held_of_absent (by simpa using hstore)] at hcount'
    have hnil : b.batchedGetNonBlocking [k] = [] := List.length_eq_zero_iff.mp hcount'.symm
    have hk : (store k).isSome := by
      rcases hpresent with hk | hk
      · exact hk
      · rw [hstore] at hk
        cases hk
    cases hcpu : b.localCpuBackend with
    | false => rfl
    | true =>
      rw [batchedGetNonBlocking_singleton hserves hcpu hconn, Option.toList_eq_nil_iff] at hnil
      rw [hnil] at hk
      cases hk
  | some obj =>
    have hone : (Reads.hitPrefix (Connector.held store ([k].map b.remoteKey))).length = 1 := by
      unfold Connector.held
      rw [List.map_singleton, List.map_singleton, hstore]
      rfl
    rw [hone] at hcount'
    cases hcpu : b.localCpuBackend with
    | false =>
      rw [batchedGetNonBlocking_of_noCpu hcpu] at hcount'
      cases hcount'
    | true =>
      rw [batchedGetNonBlocking_singleton hserves hcpu hconn] at hcount' hnon
      refine ⟨rfl, ?_⟩
      cases hk : store k with
      | none =>
        rw [hk] at hcount'
        cases hcount'
      | some obj' =>
        refine ⟨obj', rfl, ?_⟩
        rw [hk] at hnon
        -- the one object that is returned is the one the blocking read decodes
        obtain _ | ⟨r, _ | ⟨r', rs⟩⟩ := objs
        · exact absurd (congrArg List.length hblocking) (by simp)
        · rw [List.map_singleton, List.map_singleton, getBlocking_eq hserves hcpu hconn,
            hstore] at hblocking
          obtain _ | r := r
          · cases hnon
          · cases hnon
            exact deserialize_of_decompress (List.cons.inj hblocking).1
        · exact absurd (congrArg List.length hblocking) (by simp)

/-- **Blocking and non-blocking reads.**  All the reads of a backend agree on every batch of present
keys, taken from some keys, exactly when it has no connection or each of these keys reads the same
under both names: the object that is stored under the name it is looked up by decodes to the object
that is stored under the key itself. -/
theorem readsAgree_iff (b : RemoteBackend Obj) (store : CacheEngineKey → Option Obj)
    (hserves : ∀ c, b.connection = some c → c.Serves store) (keys : List CacheEngineKey) :
    (∀ batch, batch ⊆ keys → (∀ k ∈ batch, b.Present store k) → b.ReadsAgree batch) ↔
      b.connection = none ∨ ∀ k ∈ keys, b.Present store k → b.SameRead store k := by
  cases hconn : b.connection with
  | none => exact ⟨fun _ => .inl rfl, fun _ batch _ _ => readsAgree_of_noConnection hconn batch⟩
  | some c =>
    have hc := hserves c hconn
    constructor
    · intro h
      refine .inr fun k hk hpresent => ?_
      have hagree := h [k] (by simpa using hk) (by simpa using hpresent)
      exact sameRead_of_readsAgree hc hconn hpresent hagree
    · rintro (h | h)
      · cases h
      · intro batch hsub hpresent
        exact readsAgree_of_sameRead hc hconn fun k hk => h k (hsub hk) (hpresent k hk)

/-- The key of the one chunk that `worker` computes. -/
def workerKey (worker : Int) : CacheEngineKey := ⟨"model", 4, worker, 1, .float16, none, none⟩

/-- A store that holds this chunk of worker 0 only. -/
def worker0Store (k : CacheEngineKey) : Option (List UInt8) :=
  if k = workerKey 0 then some [1, 2] else none

/-- A connector of the base class over it. -/
def worker0Connector : Connector (List UInt8) :=
  .ofBase (fun k => .ok (worker0Store k).isSome) (fun k => .ok (worker0Store k).isSome)
    (fun k => .ok (worker0Store k))

/-- Worker 3 of an MLA model, with the naive serializer. -/
def mlaWorker3 : RemoteBackend (List UInt8) where
  localCpuBackend := true
  connection := some worker0Connector
  useMla := true
  worldSize := 4
  workerId := 3
  remoteEnableMlaWorkerIdAs0 := none
  useExistsSync := false
  deserialize := .ok

theorem readsAgree_iff_mlaWorker3 :
    (∀ batch, batch ⊆ [workerKey 3] → (∀ k ∈ batch, mlaWorker3.Present worker0Store k) →
        mlaWorker3.ReadsAgree batch) ↔
      mlaWorker3.connection = none ∨
        ∀ k ∈ [workerKey 3], mlaWorker3.Present worker0Store k →
          mlaWorker3.SameRead worker0Store k :=
  readsAgree_iff mlaWorker3 worker0Store
    (fun c hc => by
      cases hc
      exact Connector.ofBase_serves (fun _ => rfl) (fun _ => rfl) fun _ => rfl)
    [workerKey 3]

/-- **The non-blocking read looks for worker 3.**  The blocking reads and the lookup find the chunk
of worker 0, which the non-blocking read then does not. -/
theorem not_readsAgree_mlaWorker3 :
    mlaWorker3.contains (workerKey 3) = true ∧
      mlaWorker3.getBlocking (workerKey 3) = .ok (some [1, 2]) ∧
      mlaWorker3.batchedGetBlocking [workerKey 3] = .ok [some [1, 2]] ∧
      mlaWorker3.batchedAsyncContains [workerKey 3] true = 1 ∧
      mlaWorker3.batchedGetNonBlocking [workerKey 3] = [] ∧
      ¬ mlaWorker3.ReadsAgree [workerKey 3] := by
  have hcount : mlaWorker3.batchedAsyncContains [workerKey 3] true = 1 := by decide +kernel
  have hnon : mlaWorker3.batchedGetNonBlocking [workerKey 3] = [] := by decide +kernel
  refine ⟨by decide +kernel, by decide +kernel, by decide +kernel, hcount, hnon, ?_⟩
  rintro ⟨-, -, -, -, h⟩
  have hlength := h true
  rw [hcount, hnon] at hlength
  cases hlength

-- outside that mode a serializer that compresses is enough: what is stored comes back as it is
example : let b := { mlaWorker3 with useMla := false, deserialize := fun obj => .ok obj.reverse }
    b.connection = some worker0Connector ∧
      b.getBlocking (workerKey 0) = .ok (some [2, 1]) ∧
      b.batchedGetNonBlocking [workerKey 0] = [[1, 2]] :=
  ⟨rfl, by decide +kernel, by decide +kernel⟩

end RemoteBackend

end LMCache.Storage
