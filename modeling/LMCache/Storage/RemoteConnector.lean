/-
# LMCache.Storage.RemoteConnector — non-blocking batched reads of the remote connectors.

Source: `batched_get_non_blocking` and the reads of one key in
`v1/storage_backend/connector/base_connector.py`, `redis_connector.py`, `s3_connector.py` and
`sagemaker_hyperpod_connector.py`.

A read of one key is a function of what the remote store and the allocator answer.  It gives an object
with the data of that key, or nothing, or raises; on the way it may release an object that it has
allocated, or forget it.  The connectors differ in what they make of a batch of such reads: the base
class keeps the consecutive prefix and releases the rest, the others keep everything that was read.

The caller pairs the result with the keys by position, so only the prefix may be returned.  This is the
`Contract`; `contract_iff_allowed` says when each connector keeps it.
-/
import LMCache.Lib.Reads
import LMCache.Storage.StorageManager

namespace LMCache.Storage

open LMCache.Lib

/-! ## One key -/

/-- An object with the bytes that were loaded into it. -/
structure LoadedObj where
  obj : MemoryObjRef
  kvBytes : List UInt8
  deriving DecidableEq, Repr

/-- What a read of one key comes to.  The objects it has allocated are the one it returns, those it has
released, and those it has abandoned. -/
structure KeyGet where
  result : Except PyError (Option LoadedObj)
  released : List MemoryObjRef
  abandoned : List MemoryObjRef

namespace KeyGet

/-- `None`, with nothing allocated. -/
def missing : KeyGet := ⟨.ok none, [], []⟩

/-- The object that is returned, if one is. -/
def loaded? (g : KeyGet) : Option LoadedObj := g.result.toOption.join

/-- The exception, if one is raised. -/
def raised? (g : KeyGet) : Option PyError :=
  match g.result with
  | .error e => some e
  | .ok _ => none

end KeyGet

/-! ## A batch -/

/-- What a batched read comes to, with the objects it has released and abandoned. -/
structure BatchOutcome where
  returned : Except PyError (List LoadedObj)
  released : List MemoryObjRef
  abandoned : List MemoryObjRef

/-- The keys of a batch, each with its read. -/
abbrev KeyGets := List (CacheEngineKey × KeyGet)

namespace KeyGets

/-- The batch as reads: an exception counts as a failure. -/
def reads (gets : KeyGets) : Reads CacheEngineKey LoadedObj :=
  gets.map fun g => (g.1, g.2.loaded?)

/-- What the reads of the keys release themselves. -/
def released (gets : KeyGets) : List MemoryObjRef := gets.flatMap fun g => g.2.released

/-- What the reads of the keys abandon. -/
def abandoned (gets : KeyGets) : List MemoryObjRef := gets.flatMap fun g => g.2.abandoned

/-- The loop of `RemoteConnector.batched_get_non_blocking` over the gathered results: what it returns
and what it releases. -/
def splitAtFailure (foundFailure : Bool) : KeyGets → List LoadedObj × List MemoryObjRef
  | [] => ([], [])
  | (_, g) :: gets =>
    match g.loaded? with
    | none => splitAtFailure true gets
    | some l =>
      let (kept, dropped) := splitAtFailure foundFailure gets
      if foundFailure then (kept, l.obj :: dropped) else (l :: kept, dropped)

/-- `RemoteConnector.batched_get_non_blocking`: exceptions are results like any other. -/
def batchedGetPrefix (gets : KeyGets) : BatchOutcome where
  returned := .ok (splitAtFailure false gets).1
  released := released gets ++ (splitAtFailure false gets).2
  abandoned := abandoned gets

/-- `[r for r in await gather(…) if r is not None]`: an exception is passed on, and what the other keys
have loaded is abandoned. -/
def batchedGetFiltered (gets : KeyGets) : BatchOutcome :=
  let loaded := gets.filterMap fun g => g.2.loaded?
  match gets.findSome? fun g => g.2.raised? with
  | some e => ⟨.error e, released gets, abandoned gets ++ loaded.map LoadedObj.obj⟩
  | none => ⟨.ok loaded, released gets, abandoned gets⟩

/-- **The contract of a batched read**: the objects of the consecutive prefix are returned, each at the
place of its key, and no allocated object is abandoned. -/
def Contract (gets : KeyGets) (out : BatchOutcome) : Prop :=
  out.returned = .ok ((Reads.hitPrefix (reads gets)).map Prod.snd) ∧ out.abandoned = []

/-- `gather_with_keys` for one tier: the requested keys and the result, paired by position. -/
def gatherWithKeys (gets : KeyGets) (loaded : List LoadedObj) : List (CacheEngineKey × LoadedObj) :=
  (gets.map Prod.fst).zip loaded

/-! ### The base class -/

theorem splitAtFailure_true_fst (gets : KeyGets) : (splitAtFailure true gets).1 = [] := by
  induction gets with
  | nil => rfl
  | cons g gets ih =>
    obtain ⟨key, g⟩ := g
    unfold splitAtFailure
    cases g.loaded? <;> exact ih

/-- The loop of the base class returns the consecutive prefix. -/
theorem splitAtFailure_false_fst (gets : KeyGets) :
    (splitAtFailure false gets).1 = (Reads.hitPrefix (reads gets)).map Prod.snd := by
  induction gets with
  | nil => rfl
  | cons g gets ih =>
    obtain ⟨key, g⟩ := g
    unfold splitAtFailure reads
    rw [List.map_cons]
    cases g.loaded? with
    | none => exact splitAtFailure_true_fst gets
    | some l => exact congrArg (l :: ·) ih

theorem batchedGetPrefix_contract_iff (gets : KeyGets) :
    Contract gets (batchedGetPrefix gets) ↔ ∀ g ∈ gets, g.2.abandoned = [] := by
  unfold Contract batchedGetPrefix
  rw [splitAtFailure_false_fst, and_iff_right rfl]
  exact List.flatMap_eq_nil_iff

/-! ### The filtering connectors -/

theorem filterMap_loaded (gets : KeyGets) :
    gets.filterMap (fun g => g.2.loaded?) = (Reads.hits (reads gets)).map Prod.snd := by
  induction gets with
  | nil => rfl
  | cons g gets ih =>
    obtain ⟨key, g⟩ := g
    unfold reads at ih ⊢
    rw [List.map_cons, List.filterMap_cons]
    cases g.loaded? with
    | none => exact ih
    | some l => exact congrArg (l :: ·) ih

theorem batchedGetFiltered_contract_iff (gets : KeyGets) :
    Contract gets (batchedGetFiltered gets) ↔
      (∀ g ∈ gets, g.2.raised? = none) ∧ (∀ g ∈ gets, g.2.abandoned = []) ∧
        Reads.behind (reads gets) = [] := by
  unfold Contract batchedGetFiltered
  rw [← List.findSome?_eq_none_iff]
  cases gets.findSome? fun g => g.2.raised? with
  | some e => exact ⟨fun h => (nomatch h.1), fun h => (nomatch h.1)⟩
  | none =>
    have hflat : abandoned gets = [] ↔ ∀ g ∈ gets, g.2.abandoned = [] := List.flatMap_eq_nil_iff
    dsimp only
    rw [filterMap_loaded, Reads.hits_eq_append, List.map_append, Except.ok.injEq,
      List.append_right_eq_self, List.map_eq_nil_iff, hflat, and_comm]
    exact (and_iff_right rfl).symm

end KeyGets

/-! ## The connectors -/

/-- What a Redis server and the allocator answer to the read of one key. -/
structure RedisReply where
  /-- The length in the metadata, if there is metadata. -/
  metadata : Except PyError (Option Nat)
  allocation : Option MemoryObjRef
  kvBytes : Except PyError (Option (List UInt8))
  /-- The answer to `delete` of the metadata, when the data is gone. -/
  delete : Except PyError Unit

/-- The message of a slice assignment to a memory view of another length. -/
def viewMessage : String :=
  "memoryview assignment: lvalue and rvalue have different structures"

/-- `RedisConnector._get`.  The object is allocated between the two reads, and only a successful return
hands it on. -/
def RedisReply.get (r : RedisReply) : KeyGet :=
  match r.metadata with
  | .error e => ⟨.error e, [], []⟩
  | .ok none => .missing
  | .ok (some length) =>
    match r.allocation with
    | none => .missing
    | some obj =>
      match r.kvBytes with
      | .error e => ⟨.error e, [], [obj]⟩
      | .ok none =>
        match r.delete with
        | .error e => ⟨.error e, [], [obj]⟩
        | .ok () => ⟨.ok none, [], [obj]⟩
      | .ok (some bytes) =>
        if bytes.length = min length obj.size then ⟨.ok (some ⟨obj, bytes⟩), [], []⟩
        else ⟨.error (.valueError viewMessage), [], [obj]⟩

/-- What S3 and the allocator answer to the read of one key. -/
structure S3Reply where
  /-- The size in `object_size_cache`, if there is one. -/
  cachedSize : Option Int
  /-- What the HEAD request gives: 0 when it fails. -/
  headSize : Int
  allocation : Option MemoryObjRef
  download : Except PyError (List UInt8)

/-- The turn of `S3Connector.batched_get` for one key. -/
def S3Reply.get (r : S3Reply) : KeyGet :=
  if r.cachedSize = none ∧ r.headSize ≤ 0 then .missing
  else
    match r.allocation with
    | none => .missing
    | some obj =>
      if r.cachedSize.getD r.headSize ≠ obj.size then ⟨.ok none, [obj], []⟩
      else
        match r.download with
        | .error _ => ⟨.ok none, [obj], []⟩
        | .ok bytes => ⟨.ok (some ⟨obj, bytes⟩), [], []⟩

/-- What the shared memory under a lease and the allocator give. -/
structure SharedRead where
  /-- The length in the header, if the header could be read. -/
  length : Option Nat
  allocation : Option MemoryObjRef
  copied : Except PyError (List UInt8)

/-- What the agent answers to the read of one key: a lease, none, or an exception. -/
structure SageMakerReply where
  lease : Except PyError (Option SharedRead)

/-- `SageMakerHyperPodConnector.get`, with `_read_from_shared_memory`. -/
def SageMakerReply.get (r : SageMakerReply) : KeyGet :=
  match r.lease with
  | .error e => ⟨.error e, [], []⟩
  | .ok none => .missing
  | .ok (some shared) =>
    match shared.length, shared.allocation with
    | some length, some obj =>
      match shared.copied with
      | .error _ => ⟨.ok none, [obj], []⟩
      | .ok bytes =>
        if bytes.length = length then ⟨.ok (some ⟨obj, bytes⟩), [], []⟩ else ⟨.ok none, [obj], []⟩
    | _, _ => .missing

/-- A batched read of one of the connectors: the keys, each with what is answered for it. -/
inductive RemoteBatch where
  /-- The base class, over whatever `get` of the connector does. -/
  | base (keys : KeyGets)
  | redis (keys : List (CacheEngineKey × RedisReply))
  | redisCluster (keys : List (CacheEngineKey × RedisReply))
  | s3 (connectionDisabled : Bool) (keys : List (CacheEngineKey × S3Reply))
  | sageMaker (keys : List (CacheEngineKey × SageMakerReply))

namespace RemoteBatch

open KeyGets

/-- The read of each key. -/
def gets : RemoteBatch → KeyGets
  | base keys => keys
  | redis keys | redisCluster keys => keys.map fun k => (k.1, k.2.get)
  | s3 true keys => keys.map fun k => (k.1, .missing)
  | s3 false keys => keys.map fun k => (k.1, k.2.get)
  | sageMaker keys => keys.map fun k => (k.1, k.2.get)

/-- `batched_get_non_blocking`. -/
def batchedGetNonBlocking (b : RemoteBatch) : BatchOutcome :=
  match b with
  | base keys => batchedGetPrefix keys
  | b => batchedGetFiltered b.gets

/-- No key is read behind one that could not be read. -/
def NoHole (b : RemoteBatch) : Prop := Reads.behind (KeyGets.reads b.gets) = []

/-- A Redis read that neither raises nor loses an object: there is no metadata, or no memory, or the
data is there in the length of the metadata. -/
def CleanReply (r : RedisReply) : Prop :=
  r.metadata = .ok none ∨ ∃ length, r.metadata = .ok (some length) ∧
    (r.allocation = none ∨ ∃ obj bytes, r.allocation = some obj ∧ r.kvBytes = .ok (some bytes) ∧
      bytes.length = min length obj.size)

/-- **When a connector keeps the contract.**  The base class: the reads of the keys abandon nothing.
The others: no key is read behind one that could not be read; for Redis also every reply is clean, and
for SageMaker no lease request raises. -/
def Allowed (b : RemoteBatch) : Prop :=
  match b with
  | base keys => ∀ k ∈ keys, k.2.abandoned = []
  | redis keys | redisCluster keys => (∀ k ∈ keys, CleanReply k.2) ∧ b.NoHole
  | s3 _ _ => b.NoHole
  | sageMaker keys => (∀ k ∈ keys, ∃ lease, k.2.lease = .ok lease) ∧ b.NoHole

/-! ## When the contract is kept -/

theorem redisGet_clean_iff (r : RedisReply) :
    r.get.raised? = none ∧ r.get.abandoned = [] ↔ CleanReply r := by
  unfold CleanReply RedisReply.get
  rcases r.metadata with e | _ | length
  · simp [KeyGet.raised?]
  · simp [KeyGet.raised?, KeyGet.missing]
  · cases r.allocation with
    | none => simp [KeyGet.raised?, KeyGet.missing]
    | some obj =>
      rcases r.kvBytes with e | _ | bytes
      · simp [KeyGet.raised?]
      · cases r.delete <;> simp [KeyGet.raised?]
      · by_cases hlen : bytes.length = min length obj.size <;> simp [KeyGet.raised?, hlen]

/-- A read from S3 releases the object whenever it gives none, and never raises. -/
theorem s3Get_clean (r : S3Reply) : r.get.raised? = none ∧ r.get.abandoned = [] := by
  unfold S3Reply.get
  split
  · exact ⟨rfl, rfl⟩
  · cases r.allocation with
    | none => exact ⟨rfl, rfl⟩
    | some obj =>
      dsimp only
      split
      · exact ⟨rfl, rfl⟩
      · cases r.download <;> exact ⟨rfl, rfl⟩

/-- A read from SageMaker abandons nothing, and raises only where the lease request does. -/
theorem sageMakerGet_clean (r : SageMakerReply) :
    (r.get.raised? = none ↔ ∃ lease, r.lease = .ok lease) ∧ r.get.abandoned = [] := by
  unfold SageMakerReply.get
  rcases r.lease with e | _ | shared
  · exact ⟨⟨fun h => (nomatch h), fun ⟨_, h⟩ => (nomatch h)⟩, rfl⟩
  · exact ⟨⟨fun _ => ⟨_, rfl⟩, fun _ => rfl⟩, rfl⟩
  · dsimp only
    rcases shared.length with _ | length
    · exact ⟨⟨fun _ => ⟨_, rfl⟩, fun _ => rfl⟩, rfl⟩
    · rcases shared.allocation with _ | obj
      · exact ⟨⟨fun _ => ⟨_, rfl⟩, fun _ => rfl⟩, rfl⟩
      · rcases shared.copied with e | bytes
        · exact ⟨⟨fun _ => ⟨_, rfl⟩, fun _ => rfl⟩, rfl⟩
        · dsimp only
          split <;> exact ⟨⟨fun _ => ⟨_, rfl⟩, fun _ => rfl⟩, rfl⟩

/-- A filtering connector whose reads are all of one kind. -/
theorem filtered_contract_iff {ρ : Type} {get : ρ → KeyGet} {clean : ρ → Prop}
    (hclean : ∀ r, (get r).raised? = none ∧ (get r).abandoned = [] ↔ clean r)
    (keys : List (CacheEngineKey × ρ)) :
    Contract (keys.map fun k => (k.1, get k.2))
        (batchedGetFiltered (keys.map fun k => (k.1, get k.2))) ↔
      (∀ k ∈ keys, clean k.2) ∧
        Reads.behind (KeyGets.reads (keys.map fun k => (k.1, get k.2))) = [] := by
  rw [batchedGetFiltered_contract_iff, ← and_assoc, ← forall₂_and]
  simp only [List.forall_mem_map, hclean]

/-- **A connector keeps the contract exactly when it is allowed to.** -/
theorem contract_iff_allowed (b : RemoteBatch) :
    Contract b.gets b.batchedGetNonBlocking ↔ b.Allowed := by
  cases b with
  | base keys => exact batchedGetPrefix_contract_iff keys
  | redis keys => exact filtered_contract_iff redisGet_clean_iff keys
  | redisCluster keys => exact filtered_contract_iff redisGet_clean_iff keys
  | s3 disabled keys =>
    have hiff : ∀ get : S3Reply → KeyGet,
        (∀ r, (get r).raised? = none ∧ (get r).abandoned = []) →
        (Contract (keys.map fun k => (k.1, get k.2))
          (batchedGetFiltered (keys.map fun k => (k.1, get k.2))) ↔
        Reads.behind (KeyGets.reads (keys.map fun k => (k.1, get k.2))) = []) := by
      intro get hget
      rw [filtered_contract_iff (fun r => iff_of_true (hget r) trivial) keys]
      exact and_iff_right fun _ _ => trivial
    cases disabled with
    | true => exact hiff (fun _ => .missing) fun _ => ⟨rfl, rfl⟩
    | false => exact hiff S3Reply.get s3Get_clean
  | sageMaker keys =>
    have hclean : ∀ r : SageMakerReply, r.get.raised? = none ∧ r.get.abandoned = [] ↔
        ∃ lease, r.lease = .ok lease := by
      intro r
      rw [and_iff_left (sageMakerGet_clean r).2]
      exact (sageMakerGet_clean r).1
    exact filtered_contract_iff hclean keys

/-- The key of a chunk by its hash alone. -/
def chunkKey (chunkHash : Int) : CacheEngineKey :=
  ⟨"model", 1, 0, chunkHash, .float16, none, none⟩

/-- A Redis server that has lost the second of three chunks. -/
def lostMiddle : RemoteBatch :=
  .redis [
    (chunkKey 1, ⟨.ok (some 1), some ⟨1, 1⟩, .ok (some [1]), .ok ()⟩),
    (chunkKey 2, ⟨.ok none, none, .ok none, .ok ()⟩),
    (chunkKey 3, ⟨.ok (some 1), some ⟨3, 1⟩, .ok (some [3]), .ok ()⟩)]

/-- **A hole shifts the objects behind it.**  The data of the third chunk is returned in second place,
where the caller pairs it with the second key. -/
theorem not_contract_lostMiddle :
    ¬ Contract lostMiddle.gets lostMiddle.batchedGetNonBlocking ∧
      lostMiddle.batchedGetNonBlocking.returned = .ok [⟨⟨1, 1⟩, [1]⟩, ⟨⟨3, 1⟩, [3]⟩] ∧
      gatherWithKeys lostMiddle.gets [⟨⟨1, 1⟩, [1]⟩, ⟨⟨3, 1⟩, [3]⟩] =
        [(chunkKey 1, ⟨⟨1, 1⟩, [1]⟩), (chunkKey 2, ⟨⟨3, 1⟩, [3]⟩)] := by
  have hreturned : lostMiddle.batchedGetNonBlocking.returned =
      .ok [⟨⟨1, 1⟩, [1]⟩, ⟨⟨3, 1⟩, [3]⟩] := by decide +kernel
  refine ⟨?_, hreturned, by decide +kernel⟩
  rintro ⟨h, -⟩
  rw [hreturned] at h
  exact absurd h (by decide +kernel)

end RemoteBatch

end LMCache.Storage
