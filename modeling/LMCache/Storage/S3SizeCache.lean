/-
# LMCache.Storage.S3SizeCache — the object sizes that an S3 connector remembers.

Source: `S3Connector` in `storage_backend/connector/s3_connector.py`.

Several connectors share a bucket, and each keeps the sizes of the objects it has asked for or
uploaded.  A size of 0 stands for an object that is not there, and for a HEAD request that failed.
The reads and `batched_async_contains` remember a 0, `exists_sync` does not, and nobody asks again
for what is remembered.  An upload remembers the physical size of the memory object, which is what
it is checked by; what is sent are the bytes of its buffer.

The coroutines of a connector run up to their next request, which S3 answers at some time; they go
on at some time after that.  An object is taken to be stored when its upload returns.
-/
import LMCache.Storage.RemoteConnector
import LMCache.Lib.Run

namespace LMCache.Storage

open LMCache.Lib

/-! ## A connector -/

/-- The state of an `S3Connector`. -/
structure S3Connector where
  /-- The size of a full chunk, which is that of the objects the reads allocate. -/
  s3PartSize : Nat
  objectSizeCache : Dict String Nat := .empty
  connectionFailures : Nat := 0
  connectionDisabled : Bool := false

/-- The methods that look a size up. -/
inductive HeadUser where
  | existsSync
  /-- `get`, or a key of `batched_get`. -/
  | get
  | batchedAsyncContains
  deriving DecidableEq, Repr

/-- The memory object of a `put`. -/
structure S3Upload where
  physicalSize : Nat
  byteArray : List UInt8
  deriving DecidableEq, Repr

namespace S3Connector

def maxConnectionFailures : Nat := 3

/-- The text of a connection error has one of these in it. -/
def isConnectionError (errorMsg : String) : Bool :=
  ["CONNECTION_REFUSED", "SOCKET", "DNS", "TIMEOUT"].any fun part =>
    decide (part.toList <:+: errorMsg.toList)

/-- `_update_connection_failures`. -/
def updateConnectionFailures (c : S3Connector) (errorMsg : String) : S3Connector :=
  if isConnectionError errorMsg then
    { c with
      connectionFailures := c.connectionFailures + 1
      connectionDisabled :=
        c.connectionDisabled || decide (maxConnectionFailures ≤ c.connectionFailures + 1) }
  else c

/-- `_reset_connection_failures`. -/
def resetConnectionFailures (c : S3Connector) : S3Connector := { c with connectionFailures := 0 }

/-- What is remembered of the answer to a HEAD request. -/
def recordHead (c : S3Connector) (user : HeadUser) (key : String) (objSize : Nat) : S3Connector :=
  match user with
  | .existsSync =>
    if 0 < objSize then { c with objectSizeCache := c.objectSizeCache.set key objSize } else c
  | .get | .batchedAsyncContains =>
    { c with objectSizeCache := c.objectSizeCache.set key objSize }

/-- What is remembered of an upload that has gone well. -/
def recordPut (c : S3Connector) (key : String) (obj : S3Upload) : S3Connector :=
  { c with objectSizeCache := c.objectSizeCache.set key obj.physicalSize }

/-- `exists_sync`, with the answer to its HEAD request if it makes one. -/
def existsSync (c : S3Connector) (key : String) (headSize : Nat) : Bool × S3Connector :=
  if c.connectionDisabled then (false, c)
  else
    match c.objectSizeCache.get? key with
    | some cachedSize => (decide (0 < cachedSize), c)
    | none => (decide (0 < headSize), c.recordHead .existsSync key headSize)

/-- The loop of `_batched_async_contains`. -/
def containsLoop (c : S3Connector) : List (String × Nat) → Nat × S3Connector
  | [] => (0, c)
  | (key, headSize) :: rest =>
    match c.objectSizeCache.get? key with
    | some cachedSize =>
      if 0 < cachedSize then
        let counted := c.containsLoop rest
        (counted.1 + 1, counted.2)
      else (0, c)
    | none =>
      let recorded := c.recordHead .batchedAsyncContains key headSize
      if 0 < headSize then
        let counted := recorded.containsLoop rest
        (counted.1 + 1, counted.2)
      else (0, recorded)

/-- `_batched_async_contains`, with the answers to the HEAD requests it may make. -/
def batchedAsyncContains (c : S3Connector) (keys : List (String × Nat)) : Nat × S3Connector :=
  if c.connectionDisabled then (0, c) else c.containsLoop keys

/-- `get`, with what S3 and the allocator answer. -/
def get (c : S3Connector) (key : String) (headSize : Nat) (allocation : Option MemoryObjRef)
    (download : Except PyError (List UInt8)) : KeyGet :=
  if c.connectionDisabled then .missing
  else
    S3Reply.get ⟨(c.objectSizeCache.get? key).map Int.ofNat, headSize, allocation, download⟩

end S3Connector

/-! ## Several connectors -/

/-- A coroutine that waits for S3: for the answer to a HEAD request, or for an upload. -/
inductive S3Call where
  | head (connector : Nat) (user : HeadUser) (key : String) (answer : Option Nat)
  | upload (connector : Nat) (key : String) (obj : S3Upload)
  deriving DecidableEq, Repr

/-- How an upload ends.  One that raises may have stored the object. -/
inductive UploadEnd where
  | ok
  | error (stored : Bool) (errorMsg : String)
  deriving DecidableEq, Repr

def UploadEnd.stores : UploadEnd → Bool
  | .ok => true
  | .error stored _ => stored

/-- What an upload that ends does to the count of connection failures. -/
def UploadEnd.breaker : UploadEnd → S3Connector → S3Connector
  | .ok => S3Connector.resetConnectionFailures
  | .error _ errorMsg => (·.updateConnectionFailures errorMsg)

structure S3Run where
  connectors : Nat → S3Connector
  /-- The objects, under their keys. -/
  bucket : Dict String (List UInt8)
  calls : Dict Nat S3Call
  /-- The keys of the puts that have succeeded. -/
  succeeded : List String

inductive S3Event where
  /-- A size is looked up: a HEAD request goes out if none is remembered. -/
  | lookup (call connector : Nat) (user : HeadUser) (key : String)
  /-- S3 answers a HEAD request, or it fails. -/
  | answer (call : Nat) (fails : Bool)
  /-- The coroutine goes on with the answer. -/
  | resume (call : Nat)
  | put (call connector : Nat) (key : String) (obj : S3Upload)
  | uploaded (call : Nat) (how : UploadEnd)
  /-- A download has ended, with an error or without. -/
  | downloaded (connector : Nat) (error? : Option String)
  deriving DecidableEq, Repr

namespace S3Run

/-- Connectors that have just been made. -/
def init (s3PartSize : Nat → Nat) : S3Run :=
  ⟨fun c => { s3PartSize := s3PartSize c }, .empty, .empty, []⟩

/-- The size of the object under a key, 0 if there is none. -/
def objectSize (s : S3Run) (key : String) : Nat := ((s.bucket.get? key).map List.length).getD 0

/-- `_get_object_size_async`: a request that fails gives 0, too. -/
def headSize (s : S3Run) (key : String) (fails : Bool) : Nat :=
  if fails then 0 else s.objectSize key

def modify (s : S3Run) (c : Nat) (f : S3Connector → S3Connector) : S3Run :=
  { s with connectors := Function.update s.connectors c (f (s.connectors c)) }

def endCall (s : S3Run) (call : Nat) : S3Run := { s with calls := s.calls.erase call }

/-- The end of an upload: the bucket, and what `_put` does then. -/
def finishPut (s : S3Run) (c : Nat) (key : String) (obj : S3Upload) : UploadEnd → S3Run
  | .ok =>
    let s := s.modify c fun connector => (connector.recordPut key obj).resetConnectionFailures
    { s with bucket := s.bucket.set key obj.byteArray, succeeded := key :: s.succeeded }
  | .error stored errorMsg =>
    let s := s.modify c (·.updateConnectionFailures errorMsg)
    { s with bucket := if stored then s.bucket.set key obj.byteArray else s.bucket }

def step (s : S3Run) : S3Event → S3Run
  | .lookup call c user key =>
    if call ∈ s.calls ∨ (s.connectors c).connectionDisabled ∨
        key ∈ (s.connectors c).objectSizeCache then s
    else { s with calls := s.calls.set call (.head c user key none) }
  | .answer call fails =>
    match s.calls.get? call with
    | some (.head c user key none) =>
      { s with calls := s.calls.set call (.head c user key (some (s.headSize key fails))) }
    | _ => s
  | .resume call =>
    match s.calls.get? call with
    | some (.head c user key (some objSize)) =>
      (s.endCall call).modify c (·.recordHead user key objSize)
    | _ => s
  | .put call c key obj =>
    if call ∈ s.calls ∨ (s.connectors c).connectionDisabled ∨
        obj.physicalSize ≠ (s.connectors c).s3PartSize then s
    else { s with calls := s.calls.set call (.upload c key obj) }
  | .uploaded call how =>
    match s.calls.get? call with
    | some (.upload c key obj) =>
      (s.endCall call).finishPut c key obj how
    | _ => s
  | .downloaded c none => s.modify c S3Connector.resetConnectionFailures
  | .downloaded c (some errorMsg) => s.modify c (·.updateConnectionFailures errorMsg)

/-! ## The property -/

/-- The remembered sizes are those of the objects.  A key whose put has succeeded is counted by
every connector that is not disabled, when its HEAD request is answered, and is read back, when
there is memory and the download goes well. -/
structure Coherent (s : S3Run) : Prop where
  sizes : ∀ c key size, (s.connectors c).objectSizeCache.get? key = some size →
    size = s.objectSize key
  present : ∀ c, (s.connectors c).connectionDisabled = false → ∀ key ∈ s.succeeded,
    ((s.connectors c).existsSync key (s.objectSize key)).1 = true ∧
      ((s.connectors c).batchedAsyncContains [(key, s.objectSize key)]).1 = 1
  readBack : ∀ c, (s.connectors c).connectionDisabled = false → ∀ key ∈ s.succeeded,
    ∃ bytes, s.bucket.get? key = some bytes ∧ ∀ obj : MemoryObjRef,
      obj.size = (s.connectors c).s3PartSize →
        (s.connectors c).get key (s.objectSize key) (some obj) (.ok bytes) =
          ⟨.ok (some ⟨obj, bytes⟩), [], []⟩

/-- The connectors that may read once an upload of `c` has ended. -/
def EnabledAfter (s : S3Run) (c : Nat) (how : UploadEnd) (c' : Nat) : Prop :=
  (if c' = c then how.breaker (s.connectors c) else s.connectors c').connectionDisabled =
    false

/-- An answer is remembered only when it is the size of the object by then.  When an object is
stored, nobody remembers another size for it, but for the connector that uploads it if the upload
goes well; this one is told the size of what it has sent.  And an object that readers rely on has
some bytes, as many as those who may read it allocate. -/
def Careful (s : S3Run) : S3Event → Prop
  | .resume call => ∀ c user key objSize,
      s.calls.get? call = some (.head c user key (some objSize)) →
        user ≠ .existsSync ∨ 0 < objSize → objSize = s.objectSize key
  | .uploaded call how => ∀ c key obj, s.calls.get? call = some (.upload c key obj) →
      how.stores = true →
        (how = .ok → obj.physicalSize = obj.byteArray.length) ∧
        (∀ c', (how = .ok → c' ≠ c) → ∀ size,
          (s.connectors c').objectSizeCache.get? key = some size →
            size = obj.byteArray.length) ∧
        (how = .ok ∨ key ∈ s.succeeded → ∀ c', s.EnabledAfter c how c' →
          0 < obj.byteArray.length ∧ (s.connectors c').s3PartSize = obj.byteArray.length)
  | _ => True

/-! ## The invariant -/

/-- A key whose put has succeeded has an object. -/
def Stored (s : S3Run) : Prop := ∀ key ∈ s.succeeded, ∃ bytes, s.bucket.get? key = some bytes

/-- The sizes are right, and an object whose put has succeeded has the size that those who may read
it allocate. -/
structure Inv (s : S3Run) : Prop where
  sizes : ∀ c key size, (s.connectors c).objectSizeCache.get? key = some size →
    size = s.objectSize key
  fits : ∀ key ∈ s.succeeded, ∀ c, (s.connectors c).connectionDisabled = false →
    0 < s.objectSize key ∧ (s.connectors c).s3PartSize = s.objectSize key

variable {s : S3Run}

variable {key : String} {c : Nat} {connectors : Nat → S3Connector}

theorem cached_of_sizes (h : ∀ size, (s.connectors c).objectSizeCache.get? key = some size →
      size = s.objectSize key) :
    (s.connectors c).objectSizeCache.get? key = none ∨
      (s.connectors c).objectSizeCache.get? key = some (s.objectSize key) := by
  match hget : (s.connectors c).objectSizeCache.get? key with
  | none => exact .inl rfl
  | some size => exact .inr (congrArg some (h size hget))

/-- Whoever remembers the right size or none counts the key just when the object has some bytes. -/
theorem counts_iff (henabled : (s.connectors c).connectionDisabled = false)
    (h : (s.connectors c).objectSizeCache.get? key = none ∨
      (s.connectors c).objectSizeCache.get? key = some (s.objectSize key)) :
    (((s.connectors c).existsSync key (s.objectSize key)).1 = true ↔ 0 < s.objectSize key) ∧
      (0 < s.objectSize key →
        ((s.connectors c).batchedAsyncContains [(key, s.objectSize key)]).1 = 1) := by
  unfold S3Connector.existsSync S3Connector.batchedAsyncContains S3Connector.containsLoop
  rw [henabled]
  rcases h with hnone | hsome
  · rw [hnone]
    refine ⟨by simp, fun hpos => ?_⟩
    simp [hpos, S3Connector.containsLoop]
  · rw [hsome]
    refine ⟨by simp, fun hpos => ?_⟩
    simp [hpos, S3Connector.containsLoop]

/-- Whoever remembers the right size or none reads the object just when it fits what is
allocated. -/
theorem get_iff {bytes : List UInt8} {obj : MemoryObjRef}
    (henabled : (s.connectors c).connectionDisabled = false)
    (h : (s.connectors c).objectSizeCache.get? key = none ∨
      (s.connectors c).objectSizeCache.get? key = some (s.objectSize key))
    (hpos : 0 < s.objectSize key) :
    (s.connectors c).get key (s.objectSize key) (some obj) (.ok bytes) =
        ⟨.ok (some ⟨obj, bytes⟩), [], []⟩ ↔ obj.size = s.objectSize key := by
  unfold S3Connector.get S3Reply.get
  rw [henabled]
  rcases h with hnone | hsome
  · have hzero : s.objectSize key ≠ 0 := Nat.ne_of_gt hpos
    rw [hnone]
    by_cases heq : obj.size = s.objectSize key
    · simp [heq, hzero]
    · have hne : ((s.objectSize key : Nat) : Int) ≠ obj.size := by omega
      simp [heq, hne, hzero]
  · rw [hsome]
    by_cases heq : obj.size = s.objectSize key
    · simp [heq]
    · have hne : ((s.objectSize key : Nat) : Int) ≠ obj.size := by omega
      simp [heq, hne]

/-- The property in terms of sizes. -/
theorem coherent_iff_inv (hstored : s.Stored) : s.Coherent ↔ s.Inv := by
  constructor
  · intro h
    refine ⟨h.sizes, fun key hkey c henabled => ?_⟩
    have hcached := cached_of_sizes (h.sizes c key)
    have hpos := (counts_iff henabled hcached).1.mp (h.present c henabled key hkey).1
    obtain ⟨bytes, -, hread⟩ := h.readBack c henabled key hkey
    refine ⟨hpos, ?_⟩
    exact (get_iff henabled hcached hpos).mp (hread ⟨0, (s.connectors c).s3PartSize⟩ rfl)
  · intro h
    refine ⟨h.sizes, fun c henabled key hkey => ?_, fun c henabled key hkey => ?_⟩
    · obtain ⟨hexists, hcontains⟩ := counts_iff henabled (cached_of_sizes (h.sizes c key))
      obtain ⟨hpos, -⟩ := h.fits key hkey c henabled
      exact ⟨hexists.mpr hpos, hcontains hpos⟩
    · obtain ⟨bytes, hbytes⟩ := hstored key hkey
      obtain ⟨hpos, hpart⟩ := h.fits key hkey c henabled
      refine ⟨bytes, hbytes, fun obj hobj => ?_⟩
      exact (get_iff henabled (cached_of_sizes (h.sizes c key)) hpos).mpr (hobj.trans hpart)

theorem inv_init (s3PartSize : Nat → Nat) : (init s3PartSize).Inv := ⟨nofun, nofun⟩

/-! ### The connectors -/

/-- No method changes the part size, or enables a connector again. -/
structure Keeps (c c' : S3Connector) : Prop where
  partSize : c'.s3PartSize = c.s3PartSize
  disabled : c'.connectionDisabled = false → c.connectionDisabled = false

theorem Keeps.refl (c : S3Connector) : Keeps c c := ⟨rfl, id⟩

theorem keeps_updateConnectionFailures (c : S3Connector) (errorMsg : String) :
    Keeps c (c.updateConnectionFailures errorMsg) := by
  unfold S3Connector.updateConnectionFailures
  split
  · exact ⟨rfl, fun h => (Bool.or_eq_false_iff.mp h).1⟩
  · exact Keeps.refl c

theorem keeps_recordHead (c : S3Connector) (user : HeadUser) (key : String) (objSize : Nat) :
    Keeps c (c.recordHead user key objSize) := by
  unfold S3Connector.recordHead
  split
  · split <;> exact ⟨rfl, id⟩
  · exact ⟨rfl, id⟩
  · exact ⟨rfl, id⟩

theorem objectSizeCache_updateConnectionFailures (c : S3Connector) (errorMsg : String) :
    (c.updateConnectionFailures errorMsg).objectSizeCache = c.objectSizeCache := by
  unfold S3Connector.updateConnectionFailures
  split <;> rfl

theorem Keeps.update {connector : S3Connector} (h : Keeps (connectors c) connector) (c' : Nat) :
    Keeps (connectors c') (Function.update connectors c connector c') := by
  rw [Function.update_apply]
  split
  · rename_i heq
    rw [heq]
    exact h
  · exact Keeps.refl _

/-- What a connector remembers after an answer. -/
theorem get?_recordHead (c : S3Connector) (user : HeadUser) (key : String) (objSize : Nat)
    (key' : String) : (c.recordHead user key objSize).objectSizeCache.get? key' =
      if key' = key ∧ (user ≠ .existsSync ∨ 0 < objSize) then some objSize
      else c.objectSizeCache.get? key' := by
  unfold S3Connector.recordHead
  match user with
  | .existsSync =>
    dsimp only
    by_cases hpos : 0 < objSize
    · rw [if_pos hpos, Dict.get?_set]
      simp [hpos]
    · rw [if_neg hpos]
      simp [hpos]
  | .get | .batchedAsyncContains =>
    dsimp only
    rw [Dict.get?_set]
    simp

/-! ### Steps -/

/-- The connectors change as they may, and remember what they did. -/
theorem Inv.of_connectors (h : s.Inv) {calls : Dict Nat S3Call}
    (hkeeps : ∀ c, Keeps (s.connectors c) (connectors c))
    (hcache : ∀ c, (connectors c).objectSizeCache = (s.connectors c).objectSizeCache) :
    Inv { s with connectors := connectors, calls := calls } := by
  refine ⟨fun c key size hget => ?_, fun key hkey c henabled => ?_⟩
  · exact h.sizes c key size (hcache c ▸ hget)
  · obtain ⟨hpos, hpart⟩ := h.fits key hkey c ((hkeeps c).disabled henabled)
    exact ⟨hpos, (hkeeps c).partSize.trans hpart⟩

/-- A request has failed or gone well. -/
theorem Inv.modify (h : s.Inv) (c : Nat) (f : S3Connector → S3Connector)
    (hkeeps : Keeps (s.connectors c) (f (s.connectors c)))
    (hcache : (f (s.connectors c)).objectSizeCache = (s.connectors c).objectSizeCache) :
    (s.modify c f).Inv := by
  apply h.of_connectors (fun c' => hkeeps.update c')
  intro c'
  rw [Function.update_apply]
  split
  · rename_i heq
    rw [heq]
    exact hcache
  · rfl

/-- **Step lemma: an answer is remembered.** -/
theorem inv_recordHead_iff (h : s.Inv) (c : Nat) (user : HeadUser) (key : String)
    (objSize : Nat) : (s.modify c (·.recordHead user key objSize)).Inv ↔
      (user ≠ .existsSync ∨ 0 < objSize → objSize = s.objectSize key) := by
  have hget (c' : Nat) (key' : String) : (Function.update s.connectors c
      ((s.connectors c).recordHead user key objSize) c').objectSizeCache.get? key' =
        if c' = c ∧ key' = key ∧ (user ≠ .existsSync ∨ 0 < objSize) then some objSize
        else (s.connectors c').objectSizeCache.get? key' := by
    rw [Function.update_apply]
    by_cases hc : c' = c
    · rw [if_pos hc, get?_recordHead, hc]
      simp
    · rw [if_neg hc, if_neg (fun h => hc h.1)]
  constructor
  · intro hinv hwritten
    exact hinv.sizes c key objSize ((hget c key).trans (if_pos ⟨rfl, rfl, hwritten⟩))
  · intro hsize
    have hkeeps := keeps_recordHead (s.connectors c) user key objSize
    refine ⟨fun c' key' size hcached => ?_, fun key' hkey c' henabled => ?_⟩
    · have hread := (hget c' key').symm.trans hcached
      split at hread
      · rename_i hplace
        cases hread
        rw [hplace.2.1]
        exact hsize hplace.2.2
      · exact h.sizes c' key' size hread
    · obtain ⟨hpos, hpart⟩ := h.fits key' hkey c' ((hkeeps.update c').disabled henabled)
      exact ⟨hpos, (hkeeps.update c').partSize.trans hpart⟩

/-- An object is stored: it is the sizes for its key that must be right. -/
theorem inv_store_iff (h : s.Inv) (connectors : Nat → S3Connector) (key : String)
    (bytes : List UInt8) (succeeded : List String)
    (hkeeps : ∀ c, Keeps (s.connectors c) (connectors c))
    (hother : ∀ c key', key' ≠ key →
      (connectors c).objectSizeCache.get? key' = (s.connectors c).objectSizeCache.get? key')
    (hsucceeded : ∀ key', key' ≠ key → key' ∈ succeeded → key' ∈ s.succeeded) :
    Inv { s with
        connectors := connectors, bucket := s.bucket.set key bytes, succeeded := succeeded } ↔
      (∀ c size, (connectors c).objectSizeCache.get? key = some size → size = bytes.length) ∧
      (key ∈ succeeded → ∀ c, (connectors c).connectionDisabled = false →
        0 < bytes.length ∧ (s.connectors c).s3PartSize = bytes.length) := by
  have hsize (key' : String) : objectSize { s with
      connectors := connectors, bucket := s.bucket.set key bytes, succeeded := succeeded } key' =
        if key' = key then bytes.length else s.objectSize key' := by
    unfold objectSize
    dsimp only
    rw [Dict.get?_set]
    split <;> rfl
  constructor
  · intro hinv
    have hkey := (hsize key).trans (if_pos rfl)
    refine ⟨fun c size hget => (hinv.sizes c key size hget).trans hkey, ?_⟩
    intro hmem c henabled
    obtain ⟨hpos, hpart⟩ := hinv.fits key hmem c henabled
    rw [hkey] at hpos hpart
    exact ⟨hpos, (hkeeps c).partSize.symm.trans hpart⟩
  · rintro ⟨hcached, hfits⟩
    refine ⟨fun c key' size hget => ?_, fun key' hmem c henabled => ?_⟩
    · rw [hsize]
      by_cases heq : key' = key
      · rw [if_pos heq]
        exact hcached c size (heq ▸ hget)
      · rw [if_neg heq]
        exact h.sizes c key' size ((hother c key' heq).symm.trans hget)
    · rw [hsize, (hkeeps c).partSize]
      by_cases heq : key' = key
      · rw [if_pos heq]
        exact hfits (heq ▸ hmem) c henabled
      · rw [if_neg heq]
        exact h.fits key' (hsucceeded key' heq hmem) c ((hkeeps c).disabled henabled)

/-- **Step lemma: an upload ends.** -/
theorem inv_finishPut_iff (h : s.Inv) (c : Nat) (key : String) (obj : S3Upload)
    (how : UploadEnd) : (s.finishPut c key obj how).Inv ↔ (how.stores = true →
      (how = .ok → obj.physicalSize = obj.byteArray.length) ∧
      (∀ c', (how = .ok → c' ≠ c) → ∀ size,
        (s.connectors c').objectSizeCache.get? key = some size → size = obj.byteArray.length) ∧
      (how = .ok ∨ key ∈ s.succeeded → ∀ c', s.EnabledAfter c how c' →
        0 < obj.byteArray.length ∧ (s.connectors c').s3PartSize = obj.byteArray.length)) := by
  match how with
  | .ok =>
    have hkeeps : Keeps (s.connectors c)
        ((s.connectors c).recordPut key obj).resetConnectionFailures := ⟨rfl, id⟩
    have hget (c' : Nat) (key' : String) : (Function.update s.connectors c
        ((s.connectors c).recordPut key obj).resetConnectionFailures
          c').objectSizeCache.get? key' =
            if c' = c ∧ key' = key then some obj.physicalSize
            else (s.connectors c').objectSizeCache.get? key' := by
      rw [Function.update_apply]
      by_cases hc : c' = c
      · rw [if_pos hc, hc]
        show ((s.connectors c).objectSizeCache.set key obj.physicalSize).get? key' = _
        rw [Dict.get?_set]
        simp
      · rw [if_neg hc, if_neg (fun h => hc h.1)]
    have henabled (c' : Nat) : (Function.update s.connectors c
        ((s.connectors c).recordPut key obj).resetConnectionFailures
          c').connectionDisabled = false ↔ s.EnabledAfter c .ok c' := by
      unfold EnabledAfter
      rw [Function.update_apply]
      split <;> exact Iff.rfl
    refine (inv_store_iff h _ key obj.byteArray (key :: s.succeeded) (fun c' => hkeeps.update c')
      (fun c' key' hne => (hget c' key').trans (if_neg fun h => hne h.2))
      (fun key' hne hmem => (List.mem_cons.mp hmem).resolve_left hne)).trans ⟨?_, ?_⟩
    · rintro ⟨hcached, hfits⟩ -
      refine ⟨fun _ => ?_, fun c' hc size hold => ?_, fun _ c' hafter => ?_⟩
      · exact hcached c obj.physicalSize ((hget c key).trans (if_pos ⟨rfl, rfl⟩))
      · exact hcached c' size ((hget c' key).trans ((if_neg fun h => hc rfl h.1).trans hold))
      · exact hfits List.mem_cons_self c' ((henabled c').mpr hafter)
    · intro hcareful
      obtain ⟨hsent, hcached, hfits⟩ := hcareful rfl
      refine ⟨fun c' size hnew => ?_, fun _ c' hafter => ?_⟩
      · have hread := (hget c' key).symm.trans hnew
        split at hread
        · cases hread
          exact hsent rfl
        · rename_i hplace
          exact hcached c' (fun _ hc => hplace ⟨hc, rfl⟩) size hread
      · exact hfits (.inl rfl) c' ((henabled c').mp hafter)
  | .error false errorMsg =>
    refine iff_of_true ?_ nofun
    exact h.modify c (·.updateConnectionFailures errorMsg)
      (keeps_updateConnectionFailures _ errorMsg)
      (objectSizeCache_updateConnectionFailures _ errorMsg)
  | .error true errorMsg =>
    have hkeeps := keeps_updateConnectionFailures (s.connectors c) errorMsg
    have hcache (c' : Nat) : (Function.update s.connectors c
        ((s.connectors c).updateConnectionFailures errorMsg) c').objectSizeCache =
          (s.connectors c').objectSizeCache := by
      rw [Function.update_apply]
      split
      · rename_i hc
        rw [hc, objectSizeCache_updateConnectionFailures]
      · rfl
    have henabled (c' : Nat) : (Function.update s.connectors c
        ((s.connectors c).updateConnectionFailures errorMsg) c').connectionDisabled = false ↔
          s.EnabledAfter c (.error true errorMsg) c' := by
      unfold EnabledAfter
      rw [Function.update_apply]
      split <;> exact Iff.rfl
    refine (inv_store_iff h _ key obj.byteArray s.succeeded (fun c' => hkeeps.update c')
      (fun c' key' _ => by rw [hcache]) (fun key' _ hmem => hmem)).trans ⟨?_, ?_⟩
    · rintro ⟨hcached, hfits⟩ -
      refine ⟨nofun, fun c' _ size hold => ?_, fun hrely c' hafter => ?_⟩
      · exact hcached c' size (by rw [hcache]; exact hold)
      · exact hfits (hrely.resolve_left nofun) c' ((henabled c').mpr hafter)
    · intro hcareful
      obtain ⟨-, hcached, hfits⟩ := hcareful rfl
      refine ⟨fun c' size hnew => ?_, fun hmem c' hafter => ?_⟩
      · rw [hcache] at hnew
        exact hcached c' nofun size hnew
      · exact hfits (.inr hmem) c' ((henabled c').mp hafter)

theorem Inv.endCall (h : s.Inv) (call : Nat) : (s.endCall call).Inv :=
  h.of_connectors (fun _ => Keeps.refl _) (fun _ => rfl)

/-- **Step lemma.**  An event keeps the sizes right just when it is careful. -/
theorem step_inv_iff (s : S3Run) (e : S3Event) (h : s.Inv) : (s.step e).Inv ↔ s.Careful e := by
  match e with
  | .lookup call c user key =>
    refine iff_of_true ?_ trivial
    unfold step
    dsimp only
    split
    · exact h
    · exact h.of_connectors (fun _ => Keeps.refl _) (fun _ => rfl)
  | .answer call fails =>
    refine iff_of_true ?_ trivial
    unfold step
    dsimp only
    split
    · exact h.of_connectors (fun _ => Keeps.refl _) (fun _ => rfl)
    · exact h
  | .resume call =>
    unfold step Careful
    dsimp only
    split
    · rename_i c user key objSize hcall
      refine (inv_recordHead_iff (h.endCall call) c user key objSize).trans ⟨?_, ?_⟩
      · intro hsize c' user' key' objSize' hcall'
        rw [hcall] at hcall'
        cases hcall'
        exact hsize
      · intro hcareful
        exact hcareful c user key objSize hcall
    · rename_i hnone
      refine iff_of_true h fun c user key objSize hcall => ?_
      exact absurd hcall (hnone c user key objSize)
  | .put call c key obj =>
    refine iff_of_true ?_ trivial
    unfold step
    dsimp only
    split
    · exact h
    · exact h.of_connectors (fun _ => Keeps.refl _) (fun _ => rfl)
  | .uploaded call how =>
    unfold step Careful
    dsimp only
    split
    · rename_i c key obj hcall
      refine (inv_finishPut_iff (h.endCall call) c key obj how).trans ⟨?_, ?_⟩
      · intro hends c' key' obj' hcall'
        rw [hcall] at hcall'
        cases hcall'
        exact hends
      · intro hcareful
        exact hcareful c key obj hcall
    · rename_i hnone
      refine iff_of_true h fun c key obj hcall => ?_
      exact absurd hcall (hnone c key obj)
  | .downloaded c none =>
    exact iff_of_true (h.modify c S3Connector.resetConnectionFailures ⟨rfl, id⟩ rfl) trivial
  | .downloaded c (some errorMsg) =>
    refine iff_of_true ?_ trivial
    exact h.modify c (·.updateConnectionFailures errorMsg)
      (keeps_updateConnectionFailures _ errorMsg)
      (objectSizeCache_updateConnectionFailures _ errorMsg)

theorem Stored.finishPut (h : s.Stored) (c : Nat) (key : String) (obj : S3Upload)
    (how : UploadEnd) : (s.finishPut c key obj how).Stored := by
  have hset {key' : String} (hold : key' ≠ key → key' ∈ s.succeeded) :
      ∃ bytes, (s.bucket.set key obj.byteArray).get? key' = some bytes := by
    rw [Dict.get?_set]
    by_cases heq : key' = key
    · rw [if_pos heq]
      exact ⟨obj.byteArray, rfl⟩
    · rw [if_neg heq]
      exact h key' (hold heq)
  match how with
  | .ok => exact fun key' hmem => hset fun hne => (List.mem_cons.mp hmem).resolve_left hne
  | .error true errorMsg => exact fun key' hmem => hset fun _ => hmem
  | .error false errorMsg => exact h

/-- Objects are never deleted. -/
theorem step_stored (s : S3Run) (e : S3Event) (h : s.Stored) : (s.step e).Stored := by
  match e with
  | .uploaded call how =>
    unfold step
    dsimp only
    split
    · exact Stored.finishPut (s := s.endCall call) h _ _ _ how
    · exact h
  | .lookup .. | .answer .. | .resume .. | .put .. =>
    unfold step
    dsimp only
    split <;> exact h
  | .downloaded c none | .downloaded c (some errorMsg) => exact h

/-! ### Every run -/

/-- **The size caches are coherent in every state of a run just when** no answer is remembered that
is wrong by then, and an object that is stored has the size that is remembered for it, by the
uploading connector or by others, and the size that its readers allocate. -/
theorem always_coherent_iff (s3PartSize : Nat → Nat) (es : List S3Event) :
    Always step Coherent (init s3PartSize) es ↔ Guarded step Careful (init s3PartSize) es := by
  have hstored := always_of_step step_stored (s := init s3PartSize) nofun es
  rw [← always_iff_guarded step_inv_iff (inv_init s3PartSize)]
  constructor
  · intro h
    exact (hstored.and h).mono fun (s : S3Run) (h : s.Stored ∧ s.Coherent) =>
      (coherent_iff_inv h.1).mp h.2
  · intro h
    exact (hstored.and h).mono fun (s : S3Run) (h : s.Stored ∧ s.Inv) =>
      (coherent_iff_inv h.1).mpr h.2

/-! ### A lookup that comes first -/

/-- A connector asks for a chunk, and then another one uploads it. -/
def askedThenUploaded : List S3Event :=
  [.lookup 0 0 .batchedAsyncContains "k", .answer 0 false, .resume 0, .put 1 1 "k" ⟨2, [7, 7]⟩,
    .uploaded 1 .ok]

/-- It can fail: the first connector remembers that the chunk is not there. -/
theorem not_always_coherent : ¬ Always step Coherent (init fun _ => 2) askedThenUploaded := by
  intro h
  have hsize := h.last.sizes 0 "k" 0 (by decide +kernel)
  revert hsize
  decide +kernel

end S3Run

end LMCache.Storage
