/-
# LMCache.Storage.P2PPeer — a peer that serves chunks from its cache.

Source: `v1/storage_backend/p2p_backend.py` (`_handle_batched_lookup_and_get`, the messages), with
`batched_async_contains` and `batched_get_non_blocking` of `local_cpu_backend.py`.

A peer pins the objects of the first keys it has, fetches them with a reference each, writes them
into the buffers of the client and says how many they are.  The pins are taken in one locked section
and the references in another, and between the two other threads may put and remove keys: the
dictionary of either section is an input.  What these threads do to the counters is theirs; the
counters here are those that the requests change.
-/
import LMCache.KeyString
import LMCache.Memory.ObjectCounts
import LMCache.Storage.HotCache

namespace LMCache.Storage

open LMCache.Lib LMCache.Memory

/-! ## The two calls of the local backend -/

/-- The objects under the first keys, up to one that is missing. -/
def hitObjs (hotCache : Dict CacheEngineKey Nat) : List CacheEngineKey → List Nat
  | [] => []
  | key :: keys =>
    match hotCache.get? key with
    | none => []
    | some i => i :: hitObjs hotCache keys

variable {hotCache : Dict CacheEngineKey Nat} {keys : List CacheEngineKey}

theorem hitObjs_of_none {key : CacheEngineKey} (h : hotCache.get? key = none)
    (keys : List CacheEngineKey) : hitObjs hotCache (key :: keys) = [] := by
  unfold hitObjs
  rw [h]

theorem hitObjs_of_some {key : CacheEngineKey} {i : Nat} (h : hotCache.get? key = some i)
    (keys : List CacheEngineKey) : hitObjs hotCache (key :: keys) = i :: hitObjs hotCache keys := by
  conv_lhs => unfold hitObjs
  rw [h]

theorem length_hitObjs_le (hotCache : Dict CacheEngineKey Nat) (keys : List CacheEngineKey) :
    (hitObjs hotCache keys).length ≤ keys.length := by
  induction keys with
  | nil => exact Nat.le_refl _
  | cons key keys ih =>
    cases hget : hotCache.get? key with
    | none =>
      rw [hitObjs_of_none hget]
      exact Nat.zero_le _
    | some i =>
      rw [hitObjs_of_some hget]
      exact Nat.succ_le_succ ih

/-- When no key is missing, the objects stand in the order of the keys. -/
theorem getElem?_hitObjs (h : (hitObjs hotCache keys).length = keys.length) (i : Nat) :
    (hitObjs hotCache keys)[i]? = keys[i]?.bind hotCache.get? := by
  induction keys generalizing i with
  | nil => rfl
  | cons key keys ih =>
    cases hget : hotCache.get? key with
    | none =>
      rw [hitObjs_of_none hget] at h
      cases h
    | some obj =>
      rw [hitObjs_of_some hget] at h ⊢
      cases i with
      | zero => exact hget.symm
      | succ i => exact ih (Nat.succ.inj h) i

namespace HotCache

variable {c : HotCache} {pins refs : Nat → Nat}

/-- What `batched_async_contains` pins. -/
theorem batchedAsyncContains_spec {n : Nat} (h : c.memory.HasCounts n refs pins)
    (hstored : ∀ e ∈ c.hotCache.entries, e.2 < n) (keys : List CacheEngineKey) :
    (c.batchedAsyncContains true keys).1 = (hitObjs c.hotCache keys).length ∧
      (c.batchedAsyncContains true keys).2.memory.HasCounts n refs
        (raiseAll pins (hitObjs c.hotCache keys)) := by
  induction keys generalizing c pins with
  | nil => exact ⟨rfl, h⟩
  | cons key keys ih =>
    unfold batchedAsyncContains contains
    cases hget : c.hotCache.get? key with
    | none =>
      rw [hitObjs_of_none hget]
      exact ⟨rfl, h⟩
    | some i =>
      rw [hitObjs_of_some hget]
      obtain ⟨hlength, hcounts⟩ := @ih { c with
        memory := c.memory.updateObj i TensorMemoryObj.pin
        keysInRequest := c.keysInRequest ++ [key] } _
          (h.pin (hstored _ (Dict.get?_eq_some.mp hget))) hstored
      exact ⟨congrArg (· + 1) hlength, hcounts⟩

/-- What `batched_get_non_blocking` takes references to, also when it raises. -/
theorem batchedGetNonBlocking_spec {n : Nat} (h : c.memory.HasCounts n refs pins)
    (hstored : ∀ e ∈ c.hotCache.entries, e.2 < n) (keys : List CacheEngineKey) :
    (c.batchedGetNonBlocking keys).2.hotCache = c.hotCache ∧
      (c.batchedGetNonBlocking keys).2.memory.HasCounts n
        (raiseAll refs (hitObjs c.hotCache keys)) pins ∧
      ((c.batchedGetNonBlocking keys).1 = .ok (hitObjs c.hotCache keys) ∧
          (hitObjs c.hotCache keys).length = keys.length ∨
        (∃ e, (c.batchedGetNonBlocking keys).1 = .error e) ∧
          (hitObjs c.hotCache keys).length < keys.length) := by
  induction keys generalizing c refs with
  | nil => exact ⟨rfl, h, .inl ⟨rfl, rfl⟩⟩
  | cons key keys ih =>
    unfold batchedGetNonBlocking
    cases hget : c.hotCache.get? key with
    | none =>
      rw [hitObjs_of_none hget]
      exact ⟨rfl, h, .inr ⟨⟨_, rfl⟩, Nat.succ_pos _⟩⟩
    | some i =>
      rw [hitObjs_of_some hget]
      obtain ⟨hdict, hcounts, hresult⟩ := @ih
        { c with memory := c.memory.updateObj i TensorMemoryObj.refCountUp } _
          (h.refCountUp (hstored _ (Dict.get?_eq_some.mp hget))) hstored
      refine ⟨hdict, hcounts, ?_⟩
      rcases hresult with ⟨hok, hlength⟩ | ⟨⟨e, herror⟩, hlength⟩
      · left
        dsimp only at hok ⊢
        rw [hok]
        exact ⟨rfl, congrArg (· + 1) hlength⟩
      · right
        dsimp only at herror ⊢
        rw [herror]
        exact ⟨⟨e, rfl⟩, Nat.succ_lt_succ hlength⟩

/-- The `finally` of the handler: a reference and a pin of each object. -/
def releaseAll (c : HotCache) (memObjs : List Nat) : HotCache :=
  { c with memory := memObjs.foldl (fun memory i => (memory.refCountDown i).unpin i) c.memory }

theorem releaseAll_spec {n : Nat} (h : c.memory.HasCounts n refs pins) (memObjs : List Nat) :
    (c.releaseAll memObjs).memory.HasCounts n (lowerAll refs memObjs) (lowerAll pins memObjs) := by
  obtain ⟨hotCache, keysInRequest, memory⟩ := c
  unfold releaseAll
  dsimp only at h ⊢
  induction memObjs generalizing memory refs pins with
  | nil => exact h
  | cons i memObjs ih => exact ih _ ((h.refCountDown i).unpin i)

end HotCache

/-! ## The peer -/

inductive P2PErrorCode where
  | p2pServerError
  | unknownMsgType
  | remoteXferHandlerNotInitialized
  deriving DecidableEq, Repr

/-- The answers to a `BatchedLookupAndGetMsg`: `BatchedLookupAndGetRetMsg` and `P2PErrorMsg`. -/
inductive P2PReply where
  | numHitChunks (n : Nat)
  | error (errorCode : P2PErrorCode)
  deriving DecidableEq, Repr

/-- How `async_batched_write` ends; a transfer that fails may have written some of the objects. -/
inductive BatchedWrite where
  | done
  | failed (written : Nat)
  deriving DecidableEq, Repr

/-- What the peer meets while it handles a request. -/
structure Serving where
  /-- `transfer_channel.remote_xfer_handler_exists` of the client. -/
  remoteXferHandlerExists : Bool
  /-- `hot_cache` when the keys are looked up. -/
  atLookup : Dict CacheEngineKey Nat
  /-- `hot_cache` when the objects are fetched. -/
  atGet : Dict CacheEngineKey Nat
  transfer : BatchedWrite

/-- The keys a peer reads from what the client writes. -/
def readKeys (keys : List CacheEngineKey) : Except PyError (List CacheEngineKey) :=
  (keys.map CacheEngineKey.toString).mapM CacheEngineKey.fromString

namespace Serving

/-- The objects that are pinned. -/
def pinned (s : Serving) (read : List CacheEngineKey) : List Nat := hitObjs s.atLookup read

/-- The objects that are fetched, of the keys whose objects are pinned. -/
def fetched (s : Serving) (read : List CacheEngineKey) : List Nat :=
  hitObjs s.atGet (read.take (s.pinned read).length)

/-- Whatever is cached is an object that there is. -/
structure Stored (s : Serving) (numObjs : Nat) : Prop where
  atLookup : ∀ e ∈ s.atLookup.entries, e.2 < numObjs
  atGet : ∀ e ∈ s.atGet.entries, e.2 < numObjs

instance (s : Serving) (numObjs : Nat) : Decidable (s.Stored numObjs) :=
  decidable_of_iff ((∀ e ∈ s.atLookup.entries, e.2 < numObjs) ∧
    ∀ e ∈ s.atGet.entries, e.2 < numObjs) ⟨fun h => ⟨h.1, h.2⟩, fun h => ⟨h.1, h.2⟩⟩

/-- **The cache is steady**: what is fetched is what was pinned, if the request gets so far. -/
def Steady (s : Serving) (keys : List CacheEngineKey) : Prop :=
  s.remoteXferHandlerExists = true → ∀ read, readKeys keys = .ok read →
    (s.pinned read).Perm (s.fetched read)

/-- The keys that the peer reads lead to what is cached under the keys of the client. -/
def Faithful (s : Serving) (keys : List CacheEngineKey) : Prop :=
  s.remoteXferHandlerExists = true → s.transfer = .done → ∀ read, readKeys keys = .ok read →
    ∀ i < (s.pinned read).length, ∀ key ∈ keys[i]?,
      read[i]?.bind s.atGet.get? = s.atGet.get? key

end Serving

/-- The peer, and the buffers of the client that it writes to. -/
structure Peer where
  cache : HotCache
  /-- The object of the peer that was last written into each buffer. -/
  filled : Nat → Option Nat
  /-- The memory before and after each request that was handled. -/
  handled : List (ObjectPool × ObjectPool)

namespace Peer

/-- `_handle_batched_lookup_and_get`: the answer, the cache it leaves, and the objects written to
the first of the buffers. -/
def answer (c : HotCache) (keys : List CacheEngineKey) (s : Serving) :
    P2PReply × HotCache × List Nat :=
  if ¬s.remoteXferHandlerExists then (.error .remoteXferHandlerNotInitialized, c, [])
  else
    match readKeys keys with
    | .error _ => (.error .p2pServerError, c, [])
    | .ok read =>
      let looked := { c with hotCache := s.atLookup }.batchedAsyncContains true read
      match { looked.2 with hotCache := s.atGet }.batchedGetNonBlocking (read.take looked.1) with
      -- `mem_objs` is still `None` here, and the `finally` passes over what was pinned
      | (.error _, c) => (.error .p2pServerError, c, [])
      | (.ok memObjs, c) =>
        match s.transfer with
        | .failed written =>
          (.error .p2pServerError, c.releaseAll memObjs, memObjs.take written)
        | .done => (.numHitChunks looked.1, c.releaseAll memObjs, memObjs)

/-- A request is handled. -/
def handle (keys : List CacheEngineKey) (p : Peer) (s : Serving) : P2PReply × Peer :=
  let r := answer p.cache keys s
  (r.1, {
    cache := r.2.1
    filled := fun buffer => (r.2.2[buffer]?).or (p.filled buffer)
    handled := p.handled ++ [(p.cache.memory, r.2.1.memory)] })

end Peer

/-! ## What an answer comes to -/

namespace Peer

/-- The answers, case by case, with the counters they leave. -/
inductive Answers (c : HotCache) (keys : List CacheEngineKey) (s : Serving) (n : Nat)
    (refs pins : Nat → Nat) : P2PReply × HotCache × List Nat → Prop where
  | unknown (hknown : s.remoteXferHandlerExists = false) :
    Answers c keys s n refs pins (.error .remoteXferHandlerNotInitialized, c, [])
  | unread (hknown : s.remoteXferHandlerExists = true) {e : PyError}
    (hread : readKeys keys = .error e) :
    Answers c keys s n refs pins (.error .p2pServerError, c, [])
  /-- A key that was pinned is gone. -/
  | vanished (hknown : s.remoteXferHandlerExists = true) (read : List CacheEngineKey)
    (hread : readKeys keys = .ok read) (hless : (s.fetched read).length < (s.pinned read).length)
    {c' : HotCache} (hc : c'.memory.HasCounts n (raiseAll refs (s.fetched read))
      (raiseAll pins (s.pinned read))) :
    Answers c keys s n refs pins (.error .p2pServerError, c', [])
  | failed (hknown : s.remoteXferHandlerExists = true) (read : List CacheEngineKey)
    (hread : readKeys keys = .ok read) (hlength : (s.fetched read).length = (s.pinned read).length)
    {written : Nat} (htransfer : s.transfer = .failed written)
    {c' : HotCache} (hc : c'.memory.HasCounts n refs
      (lowerAll (raiseAll pins (s.pinned read)) (s.fetched read))) :
    Answers c keys s n refs pins (.error .p2pServerError, c', (s.fetched read).take written)
  | done (hknown : s.remoteXferHandlerExists = true) (read : List CacheEngineKey)
    (hread : readKeys keys = .ok read) (hlength : (s.fetched read).length = (s.pinned read).length)
    (htransfer : s.transfer = .done) {c' : HotCache} (hdict : c'.hotCache = s.atGet)
    (hc : c'.memory.HasCounts n refs
      (lowerAll (raiseAll pins (s.pinned read)) (s.fetched read))) :
    Answers c keys s n refs pins
      (.numHitChunks (s.pinned read).length, c', s.fetched read)

/-- The handler gives one of these answers. -/
theorem answers_answer {c : HotCache} {n : Nat} {refs pins : Nat → Nat}
    (h : c.memory.HasCounts n refs pins) (keys : List CacheEngineKey) {s : Serving}
    (hs : s.Stored n) : Answers c keys s n refs pins (answer c keys s) := by
  unfold answer
  by_cases hknown : s.remoteXferHandlerExists = true
  · rw [if_neg (not_not_intro hknown)]
    cases hread : readKeys keys with
    | error e => exact .unread hknown hread
    | ok read =>
      obtain ⟨hhits, hlooked⟩ := HotCache.batchedAsyncContains_spec
        (c := { c with hotCache := s.atLookup }) h hs.atLookup read
      dsimp only
      generalize { c with hotCache := s.atLookup }.batchedAsyncContains true read = looked
        at hhits hlooked
      obtain ⟨hdict, hgot, hresult⟩ := HotCache.batchedGetNonBlocking_spec
        (c := { looked.2 with hotCache := s.atGet }) hlooked hs.atGet (read.take looked.1)
      have hlength : (read.take looked.1).length = (s.pinned read).length := by
        rw [hhits, List.length_take]
        exact Nat.min_eq_left (length_hitObjs_le _ _)
      have hfetched : hitObjs s.atGet (read.take looked.1) = s.fetched read := by
        rw [hhits]
        rfl
      dsimp only at hdict hgot hresult
      rw [hfetched] at hgot hresult
      rw [hlength] at hresult
      generalize { looked.2 with hotCache := s.atGet }.batchedGetNonBlocking (read.take looked.1) =
        got at hdict hgot hresult
      obtain ⟨result, c'⟩ := got
      rcases hresult with ⟨hok, hall⟩ | ⟨⟨e, herror⟩, hless⟩
      · cases hok
        have hreleased := HotCache.releaseAll_spec hgot (s.fetched read)
        rw [lowerAll_raiseAll] at hreleased
        cases htransfer : s.transfer with
        | failed written => exact .failed hknown read hread hall htransfer hreleased
        | done =>
          dsimp only
          rw [hhits]
          exact .done hknown read hread hall htransfer hdict hreleased
      · cases herror
        exact .vanished hknown read hread hless hgot
  · rw [if_pos hknown]
    exact .unknown (Bool.eq_false_iff.mpr hknown)

/-! ## What a request leaves behind -/

/-- The counters of the objects are the same. -/
def SameCounts (s s' : ObjectPool) : Prop :=
  s'.refCounts = s.refCounts ∧ s'.pinCounts = s.pinCounts

/-- The memory of the peer, of which there is so much, is in order. -/
def Counts (p : Peer) (n : Nat) : Prop := ∃ refs pins, p.cache.memory.HasCounts n refs pins

/-- The first so many buffers hold what the peer caches under the first keys. -/
def Filled (p : Peer) (keys : List CacheEngineKey) (numHitChunks : Nat) : Prop :=
  ∀ i < numHitChunks, ∀ key ∈ keys[i]?, ∃ obj, p.cache.hotCache.get? key = some obj ∧
    p.filled i = some obj

variable {p : Peer} {n : Nat} {s : Serving}

/-- A memory that has these counters has those of another one just when they are equal. -/
theorem sameCounts_iff {m m' : ObjectPool} {refs pins refs' pins' : Nat → Nat}
    (h : m.HasCounts n refs pins) (h' : m'.HasCounts n refs' pins') :
    SameCounts m m' ↔ refs' = refs ∧ pins' = pins := by
  unfold SameCounts
  rw [h.refs, h.pins, h'.refs, h'.pins]

theorem counts_handle (h : p.Counts n) (keys : List CacheEngineKey) (hs : s.Stored n) :
    (p.handle keys s).2.Counts n := by
  obtain ⟨refs, pins, hp⟩ := h
  have hanswer := answers_answer hp keys hs
  unfold handle Counts
  dsimp only
  generalize answer p.cache keys s = r at hanswer
  match hanswer with
  | .unknown _ => exact ⟨_, _, hp⟩
  | .unread _ _ => exact ⟨_, _, hp⟩
  | .vanished _ _ _ _ hc => exact ⟨_, _, hc⟩
  | .failed _ _ _ _ _ hc => exact ⟨_, _, hc⟩
  | .done _ _ _ _ _ _ hc => exact ⟨_, _, hc⟩

/-- **A request leaves the counters as they were** just when the cache is steady. -/
theorem sameCounts_handle_iff (h : p.Counts n) (keys : List CacheEngineKey) (hs : s.Stored n) :
    SameCounts p.cache.memory (p.handle keys s).2.cache.memory ↔ s.Steady keys := by
  obtain ⟨refs, pins, hp⟩ := h
  have hanswer := answers_answer hp keys hs
  unfold handle Serving.Steady
  dsimp only
  generalize answer p.cache keys s = r at hanswer
  match hanswer with
  | .unknown hknown => simp [SameCounts, hknown]
  | .unread hknown hread => simp [SameCounts, hread]
  | .vanished hknown _ hread hless hc =>
    rw [sameCounts_iff hp hc]
    constructor
    · rintro ⟨-, hpins⟩
      -- pins were taken, and none of them was given back
      have hperm := (@lowerAll_raiseAll_eq_iff _ _ pins _ [] (Nat.zero_le _)).mp hpins
      rw [List.perm_nil.mp hperm] at hless
      cases hless
    · intro hsteady
      exact absurd (hsteady hknown _ hread).length_eq hless.ne'
  | .failed hknown _ hread hlength _ hc | .done hknown _ hread hlength _ _ hc =>
    rw [sameCounts_iff hp hc, lowerAll_raiseAll_eq_iff pins hlength.le]
    constructor
    · rintro ⟨-, hperm⟩ - read hread'
      rw [hread] at hread'
      cases hread'
      exact hperm
    · intro hsteady
      exact ⟨rfl, hsteady hknown _ hread⟩

/-- The connection is said not to be initialized just when it is not. -/
theorem notInitialized_handle_iff (h : p.Counts n) (keys : List CacheEngineKey) (hs : s.Stored n) :
    (p.handle keys s).1 = .error .remoteXferHandlerNotInitialized ↔
      s.remoteXferHandlerExists = false := by
  obtain ⟨refs, pins, hp⟩ := h
  have hanswer := answers_answer hp keys hs
  unfold handle
  dsimp only
  generalize answer p.cache keys s = r at hanswer
  match hanswer with
  | .unknown hknown => simp [hknown]
  | .unread hknown _ => simp [hknown]
  | .vanished hknown _ _ _ _ => simp [hknown]
  | .failed hknown _ _ _ _ _ => simp [hknown]
  | .done hknown _ _ _ _ _ _ => simp [hknown]

/-- **The buffers are filled** just when the keys that the peer reads lead to the right objects. -/
theorem filled_handle_iff (h : p.Counts n) (keys : List CacheEngineKey) (hs : s.Stored n)
    (hsteady : s.Steady keys) :
    (∀ m, (p.handle keys s).1 = .numHitChunks m → (p.handle keys s).2.Filled keys m) ↔
      s.Faithful keys := by
  obtain ⟨refs, pins, hp⟩ := h
  have hanswer := answers_answer hp keys hs
  unfold handle Serving.Faithful Filled
  dsimp only
  generalize answer p.cache keys s = r at hanswer
  match hanswer with
  | .unknown hknown => simp [hknown]
  | .unread hknown hread => simp [hread]
  | .vanished hknown _ hread hless hc =>
    exact absurd (hsteady hknown _ hread).length_eq hless.ne'
  | .failed _ _ _ _ htransfer _ => simp [htransfer]
  | .done hknown read hread hlength htransfer hdict hc =>
    have hat (i : Nat) (hi : i < (s.pinned read).length) :
        (s.fetched read)[i]? = read[i]?.bind s.atGet.get? := by
      have hall : (read.take (s.pinned read).length).length = (s.pinned read).length := by
        rw [List.length_take]
        exact Nat.min_eq_left (length_hitObjs_le _ _)
      have hget := getElem?_hitObjs (hlength.trans hall.symm) i
      rwa [List.getElem?_take_of_lt hi] at hget
    have hfound (i : Nat) (hi : i < (s.pinned read).length) :
        ∃ obj, (s.fetched read)[i]? = some obj :=
      ⟨_, List.getElem?_eq_getElem (hlength.symm ▸ hi)⟩
    simp only [P2PReply.numHitChunks.injEq, hdict]
    constructor
    · intro hfilled _ _ read' hread' i hi key hkey
      rw [hread] at hread'
      cases hread'
      obtain ⟨obj, hcached, hobj⟩ := hfilled _ rfl i hi key hkey
      obtain ⟨obj', hobj'⟩ := hfound i hi
      rw [hobj', Option.some_or] at hobj
      rw [← hat i hi, hobj', hcached, hobj]
    · intro hfaithful m hm i hi key hkey
      subst hm
      obtain ⟨obj, hobj⟩ := hfound i hi
      refine ⟨obj, ?_, ?_⟩
      · rw [← hfaithful hknown htransfer read hread i hi key hkey, ← hat i hi, hobj]
      · rw [hobj, Option.some_or]

/-- The counters at the end of several requests, and after each of them. -/
theorem handled_foldl (h : p.Counts n) (keys : List CacheEngineKey) (requests : List Serving)
    (hs : ∀ s ∈ requests, s.Stored n) :
    (requests.foldl (fun p s => (p.handle keys s).2) p).Counts n ∧
      ((∀ m ∈ (requests.foldl (fun p s => (p.handle keys s).2) p).handled, SameCounts m.1 m.2) ↔
        (∀ m ∈ p.handled, SameCounts m.1 m.2) ∧ ∀ s ∈ requests, s.Steady keys) := by
  induction requests generalizing p with
  | nil => exact ⟨h, by simp⟩
  | cons s requests ih =>
    obtain ⟨hs, hrest⟩ := List.forall_mem_cons.mp hs
    obtain ⟨hcounts, hiff⟩ := ih (counts_handle h keys hs) hrest
    refine ⟨hcounts, hiff.trans ?_⟩
    have hhandled : (p.handle keys s).2.handled =
      p.handled ++ [(p.cache.memory, (p.handle keys s).2.cache.memory)] := rfl
    rw [hhandled, List.forall_mem_append, List.forall_mem_singleton,
      sameCounts_handle_iff h keys hs, List.forall_mem_cons, and_assoc]

/-- The counters after one request. -/
theorem handled_handle (h : p.Counts n) (keys : List CacheEngineKey) (hs : s.Stored n) :
    (∀ m ∈ (p.handle keys s).2.handled, SameCounts m.1 m.2) ↔
      (∀ m ∈ p.handled, SameCounts m.1 m.2) ∧ s.Steady keys := by
  have hiff := (handled_foldl h keys [s] (List.forall_mem_singleton.mpr hs)).2
  rwa [List.forall_mem_singleton] at hiff

end Peer

end LMCache.Storage
