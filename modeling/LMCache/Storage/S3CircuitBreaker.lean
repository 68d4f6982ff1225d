/-
# LMCache.Storage.S3CircuitBreaker — when an S3 connector stops trying.

Source: `get`, `batched_get` and `_put` of `S3Connector` in
`storage_backend/connector/s3_connector.py`, with `put` of `InstrumentedRemoteConnector`.

A connection error is counted, a success sets the count back, and at `max_connection_failures` the
connector is disabled for good.  `batched_get` counts all the errors of its transfers first, in the
order of the keys, and looks at its successes after that; what is true of the transfers depends on
the order in which they ended, so an operation here comes with that order.

A read allocates a memory object for a key and then downloads into it.  `batched_get` finds the
object of a transfer again by the place that it noted for it.
-/
import LMCache.Storage.S3SizeCache

namespace LMCache.Storage

open LMCache.Lib

/-! ## Errors with no success between them -/

/-- How a transfer ends. -/
inductive TransferEnd where
  | success
  | connectionError
  | otherError
  deriving DecidableEq, Repr

/-- The connection errors since the last success, after one more transfer. -/
def streakAfter (streak : Nat) : TransferEnd → Nat
  | .success => 0
  | .connectionError => streak + 1
  | .otherError => streak

/-- The most connection errors with no success between them, if `streak` come before. -/
def longestRun : Nat → List TransferEnd → Nat
  | streak, [] => streak
  | streak, e :: es => max streak (longestRun (streakAfter streak e) es)

/-- Without a success, all connection errors count. -/
theorem foldl_streakAfter_of_noSuccess {es : List TransferEnd} (h : .success ∉ es) (streak : Nat) :
    es.foldl streakAfter streak = streak + es.count .connectionError := by
  induction es generalizing streak with
  | nil => rfl
  | cons e es ih =>
    obtain ⟨he, hes⟩ := List.ne_and_not_mem_of_not_mem_cons h
    rw [List.foldl_cons, ih hes]
    cases e with
    | success => exact absurd rfl he
    | connectionError =>
      rw [List.count_cons_self]
      show streak + 1 + _ = _
      omega
    | otherError =>
      rw [List.count_cons_of_ne (by decide)]
      rfl

/-! ## Reads and writes -/

/-- A key that is read: the answer to a HEAD request, if it is made, what is allocated, and how the
download ends, if it is started. -/
structure KeyRequest where
  key : String
  headSize : Nat
  allocation : Option MemoryObjRef
  download : Except PyError (List UInt8)

/-- What becomes of a key before the transfers are waited for: it is skipped, and the object that
does not fit released, or a transfer is under way. -/
inductive Start where
  | skipped (released : Option MemoryObjRef)
  | transfer (obj : MemoryObjRef) (download : Except PyError (List UInt8))

/-- What a read or a write has come to: what a read returns for each key, the objects that were
released, and the connector.  The ends of its transfers are in the order of the keys. -/
structure Transferred (α : Type) where
  memoryObjs : List (Option α)
  released : List α
  connector : S3Connector
  ends : List TransferEnd

/-- How a download or an upload has ended. -/
def transferEnd {α : Type} : Except PyError α → TransferEnd
  | .ok _ => .success
  | .error e => if S3Connector.isConnectionError e.message then .connectionError else .otherError

namespace S3Connector

/-- What is done to the count of failures after one transfer. -/
def afterTransfer {α : Type} (c : S3Connector) : Except PyError α → S3Connector
  | .ok _ => c.resetConnectionFailures
  | .error e => c.updateConnectionFailures e.message

/-- An object is allocated, and the download started if it has the size of what is there. -/
def allocate (r : KeyRequest) (objSize : Nat) : Start :=
  match r.allocation with
  | none => .skipped none
  | some memoryObj =>
    if objSize ≠ memoryObj.size then .skipped (some memoryObj)
    else .transfer memoryObj r.download

/-- The part of `get` and of the loop of `batched_get` up to the transfer. -/
def startDownload (c : S3Connector) (r : KeyRequest) : Start × S3Connector :=
  match c.objectSizeCache.get? r.key with
  | some objSize => (allocate r objSize, c)
  | none =>
    (if r.headSize = 0 then .skipped none else allocate r r.headSize,
      c.recordHead .get r.key r.headSize)

/-- `get` -/
def getTransferred (c : S3Connector) (r : KeyRequest) : Transferred MemoryObjRef :=
  if c.connectionDisabled then ⟨[none], [], c, []⟩
  else
    match c.startDownload r with
    | (.skipped released, c) => ⟨[none], released.toList, c, []⟩
    | (.transfer memoryObj download, c) =>
      match download with
      | .ok _ => ⟨[some memoryObj], [], c.afterTransfer download, [transferEnd download]⟩
      | .error _ => ⟨[none], [memoryObj], c.afterTransfer download, [transferEnd download]⟩

/-- The lists that the first loop of `batched_get` fills. -/
structure Batch where
  memoryObjs : List (Option MemoryObjRef)
  futures : List (Except PyError (List UInt8))
  futureToMemobjIdx : List Nat
  released : List MemoryObjRef
  connector : S3Connector

/-- A round of the first loop. -/
def startRound (b : Batch) (r : KeyRequest) : Batch :=
  match b.connector.startDownload r with
  | (.skipped released, c) =>
    { b with
      memoryObjs := b.memoryObjs ++ [none]
      released := b.released ++ released.toList
      connector := c }
  | (.transfer memoryObj download, c) =>
    { b with
      memoryObjs := b.memoryObjs ++ [some memoryObj]
      futures := b.futures ++ [download]
      futureToMemobjIdx := b.futureToMemobjIdx ++ [(b.memoryObjs ++ [some memoryObj]).length - 1]
      connector := c }

/-- What the loop over the results changes. -/
structure Gathered where
  memoryObjs : List (Option MemoryObjRef)
  released : List MemoryObjRef
  connector : S3Connector
  hadSuccess : Bool

/-- A round of the loop over the results. -/
def finishRound (g : Gathered) (future : Except PyError (List UInt8) × Nat) : Gathered :=
  match future.1 with
  | .ok _ => { g with hadSuccess := true }
  | .error e =>
    { g with
      connector := g.connector.updateConnectionFailures e.message
      released := g.released ++ (g.memoryObjs[future.2]?.join).toList
      memoryObjs := g.memoryObjs.set future.2 none }

/-- `batched_get` -/
def batchedGetTransferred (c : S3Connector) (keys : List KeyRequest) : Transferred MemoryObjRef :=
  if c.connectionDisabled then ⟨List.replicate keys.length none, [], c, []⟩
  else
    let b := keys.foldl startRound ⟨[], [], [], [], c⟩
    -- the two lists are as long as each other, so that zipping them is indexing
    let g := (b.futures.zip b.futureToMemobjIdx).foldl finishRound
      ⟨b.memoryObjs, b.released, b.connector, false⟩
    ⟨g.memoryObjs, g.released,
      if g.hadSuccess then g.connector.resetConnectionFailures else g.connector,
      b.futures.map transferEnd⟩

/-- `_put` within `put` of the instrumented connector, which releases the object in the end. -/
def putTransferred (c : S3Connector) (key : String) (obj : S3Upload)
    (upload : Except PyError Unit) :
    Transferred S3Upload :=
  if c.connectionDisabled then ⟨[], [obj], c, []⟩
  else if obj.physicalSize ≠ c.s3PartSize then ⟨[], [obj], c, []⟩
  else
    match upload with
    | .ok _ => ⟨[], [obj], (c.recordPut key obj).afterTransfer upload, [transferEnd upload]⟩
    | .error _ => ⟨[], [obj], c.afterTransfer upload, [transferEnd upload]⟩

end S3Connector

/-! ## The objects -/

namespace Start

/-- What is returned for the key in the end. -/
def returned : Start → Option MemoryObjRef
  | skipped _ => none
  | transfer obj (.ok _) => some obj
  | transfer _ (.error _) => none

/-- What is released for the key: the object that was skipped, or that of a transfer that failed. -/
def released : Start → List MemoryObjRef
  | skipped released => released.toList
  | transfer _ (.ok _) => []
  | transfer obj (.error _) => [obj]

/-- The object that a transfer is under way for. -/
def obj? : Start → Option MemoryObjRef
  | skipped _ => none
  | transfer obj _ => some obj

/-- The object that does not fit. -/
def skippedObj : Start → List MemoryObjRef
  | skipped released => released.toList
  | transfer _ _ => []

/-- The object of a transfer that failed. -/
def failedObj : Start → List MemoryObjRef
  | transfer obj (.error _) => [obj]
  | _ => []

theorem skippedObj_append_failedObj (start : Start) :
    start.skippedObj ++ start.failedObj = start.released := by
  match start with
  | skipped released => exact List.append_nil _
  | transfer obj (.ok _) => rfl
  | transfer obj (.error _) => rfl

end Start

namespace S3Connector

/-- The keys of a batch one after the other, and the connector. -/
def starts : S3Connector → List KeyRequest → List Start × S3Connector
  | c, [] => ([], c)
  | c, r :: rs =>
    ((c.startDownload r).1 :: ((c.startDownload r).2.starts rs).1,
      ((c.startDownload r).2.starts rs).2)

variable (c : S3Connector)

theorem starts_cons (r : KeyRequest) (rs : List KeyRequest) :
    c.starts (r :: rs) = ((c.startDownload r).1 :: ((c.startDownload r).2.starts rs).1,
      ((c.startDownload r).2.starts rs).2) := rfl

/-- The places of the transfers among the keys, if the first has the place `n`. -/
def places : Nat → List Start → List Nat
  | _, [] => []
  | n, .skipped _ :: ss => places (n + 1) ss
  | n, .transfer _ _ :: ss => n :: places (n + 1) ss

/-- The transfers. -/
def downloads : List Start → List (Except PyError (List UInt8))
  | [] => []
  | .skipped _ :: ss => downloads ss
  | .transfer _ download :: ss => download :: downloads ss

/-- The first loop notes the starts. -/
theorem foldl_startRound (keys : List KeyRequest) (b : Batch) : keys.foldl startRound b =
    { memoryObjs := b.memoryObjs ++ (b.connector.starts keys).1.map Start.obj?
      futures := b.futures ++ downloads (b.connector.starts keys).1
      futureToMemobjIdx :=
        b.futureToMemobjIdx ++ places b.memoryObjs.length (b.connector.starts keys).1
      released := b.released ++ (b.connector.starts keys).1.flatMap Start.skippedObj
      connector := (b.connector.starts keys).2 } := by
  induction keys generalizing b with
  | nil => simp [starts, places, downloads]
  | cons r keys ih =>
    rw [List.foldl_cons, ih, starts_cons]
    unfold startRound
    obtain ⟨start, c⟩ := b.connector.startDownload r
    cases start with
    | skipped released => simp [places, Start.obj?, downloads, Start.skippedObj]
    | transfer obj download => simp [places, Start.obj?, downloads, Start.skippedObj]

/-- The count of failures after a result of a batch: successes come later. -/
def countFailure (c : S3Connector) : Except PyError (List UInt8) → S3Connector
  | .ok _ => c
  | .error e => c.updateConnectionFailures e.message

/-- **The loop over the results** takes each failed transfer's object out, and no other. -/
theorem foldl_finishRound (ss : List Start) (done : List (Option MemoryObjRef))
    (released : List MemoryObjRef) (c : S3Connector) (hadSuccess : Bool) :
    ((downloads ss).zip (places done.length ss)).foldl finishRound
        ⟨done ++ ss.map Start.obj?, released, c, hadSuccess⟩ =
      ⟨done ++ ss.map Start.returned, released ++ ss.flatMap Start.failedObj,
        (downloads ss).foldl countFailure c,
        hadSuccess || (downloads ss).any Except.toBool⟩ := by
  induction ss generalizing done released c hadSuccess with
  | nil => simp [places, downloads]
  | cons start ss ih =>
    match start with
    | .skipped r =>
      have h := ih (done ++ [none]) released c hadSuccess
      simpa [places, Start.obj?, downloads, Start.returned, Start.failedObj] using h
    | .transfer obj (.ok bytes) =>
      have h := ih (done ++ [some obj]) released c true
      simpa [places, Start.obj?, downloads, Start.returned, Start.failedObj, finishRound,
        countFailure, Except.toBool] using h
    | .transfer obj (.error e) =>
      have h := ih (done ++ [none]) (released ++ [obj]) (c.updateConnectionFailures e.message)
        hadSuccess
      simpa [places, Start.obj?, downloads, Start.returned, Start.failedObj, finishRound,
        countFailure, Except.toBool] using h

/-- `batched_get` in terms of the starts. -/
theorem batchedGetTransferred_eq {c : S3Connector} (h : c.connectionDisabled = false)
    (keys : List KeyRequest) : c.batchedGetTransferred keys =
      let transfers := downloads (c.starts keys).1
      let counted := transfers.foldl countFailure (c.starts keys).2
      ⟨(c.starts keys).1.map Start.returned,
        (c.starts keys).1.flatMap Start.skippedObj ++ (c.starts keys).1.flatMap Start.failedObj,
        if transfers.any Except.toBool then counted.resetConnectionFailures else counted,
        transfers.map transferEnd⟩ := by
  unfold batchedGetTransferred
  rw [h, if_neg Bool.false_ne_true, foldl_startRound]
  dsimp only
  have hfinish := foldl_finishRound (c.starts keys).1 []
    ((c.starts keys).1.flatMap Start.skippedObj) (c.starts keys).2 false
  simp only [List.nil_append, List.length_nil] at hfinish ⊢
  rw [hfinish]
  rfl

/-! ## The count of failures -/

/-- The connector has stopped, or is below its limit. -/
def Below (c : S3Connector) : Prop :=
  c.connectionDisabled = false → c.connectionFailures < maxConnectionFailures

theorem startDownload_breaker (r : KeyRequest) :
    (c.startDownload r).2.connectionFailures = c.connectionFailures ∧
      (c.startDownload r).2.connectionDisabled = c.connectionDisabled := by
  unfold startDownload
  split <;> exact ⟨rfl, rfl⟩

/-- A `get` of each key, by the connector that the HEAD requests for the keys before it leave. -/
def gets : S3Connector → List KeyRequest → List (Transferred MemoryObjRef)
  | _, [] => []
  | c, r :: rs => c.getTransferred r :: gets (c.startDownload r).2 rs

theorem getTransferred_eq {c : S3Connector} (h : c.connectionDisabled = false) (r : KeyRequest) :
    let start := (c.startDownload r).1
    (c.getTransferred r).memoryObjs = [start.returned] ∧
      (c.getTransferred r).released = start.released ∧
      (c.getTransferred r).ends = (downloads [start]).map transferEnd := by
  unfold getTransferred
  rw [h, if_neg Bool.false_ne_true]
  obtain ⟨start, c'⟩ := c.startDownload r
  match start with
  | .skipped released => exact ⟨rfl, rfl, rfl⟩
  | .transfer obj (.ok _) => exact ⟨rfl, rfl, rfl⟩
  | .transfer obj (.error _) => exact ⟨rfl, rfl, rfl⟩

theorem gets_eq {c : S3Connector} (h : c.connectionDisabled = false) (keys : List KeyRequest) :
    let ss := (c.starts keys).1
    (c.gets keys).flatMap Transferred.memoryObjs = ss.map Start.returned ∧
      (c.gets keys).flatMap Transferred.released = ss.flatMap Start.released ∧
      (c.gets keys).flatMap Transferred.ends = (downloads ss).map transferEnd := by
  induction keys generalizing c with
  | nil => exact ⟨rfl, rfl, rfl⟩
  | cons r keys ih =>
    obtain ⟨hobjs, hreleased, hends⟩ := getTransferred_eq h r
    obtain ⟨ihobjs, ihreleased, ihends⟩ := ih ((c.startDownload_breaker r).2.trans h)
    have hdownloads (start : Start) (ss : List Start) :
        downloads (start :: ss) = downloads [start] ++ downloads ss := by
      cases start <;> rfl
    unfold gets
    rw [starts_cons]
    refine ⟨?_, ?_, ?_⟩
    · rw [List.flatMap_cons, hobjs, ihobjs]
      rfl
    · rw [List.flatMap_cons, hreleased, ihreleased]
      rfl
    · rw [List.flatMap_cons, hends, ihends, ← List.map_append, ← hdownloads]

/-- **A batch is read as its keys are**: each key has the object that a `get` of it returns, and what
the `get`s release is released, if not in their order. -/
theorem batchedGet_eq_gets {c : S3Connector} (h : c.connectionDisabled = false)
    (keys : List KeyRequest) :
    (c.batchedGetTransferred keys).memoryObjs = (c.gets keys).flatMap Transferred.memoryObjs ∧
      (c.batchedGetTransferred keys).released.Perm
        ((c.gets keys).flatMap Transferred.released) ∧
      (c.batchedGetTransferred keys).ends = (c.gets keys).flatMap Transferred.ends := by
  obtain ⟨hobjs, hreleased, hends⟩ := gets_eq h keys
  have hparts : Start.released = fun start => start.skippedObj ++ start.failedObj :=
    funext fun start => start.skippedObj_append_failedObj.symm
  rw [batchedGetTransferred_eq h, hobjs, hreleased, hends, hparts]
  exact ⟨rfl, List.flatMap_append_perm _ _ _, rfl⟩

/-- One key is not there, the transfer of another fails. -/
theorem batchedGet_eq_gets_threeKeys :
    let keys : List KeyRequest :=
      [⟨"a", 0, none, .ok []⟩, ⟨"b", 4, some ⟨4, 4⟩, .error (.runtimeError "timeout")⟩,
        ⟨"c", 4, some ⟨8, 4⟩, .ok []⟩]
    (batchedGetTransferred { s3PartSize := 4 } keys).memoryObjs =
      (gets { s3PartSize := 4 } keys).flatMap Transferred.memoryObjs :=
  (batchedGet_eq_gets rfl _).1

theorem starts_breaker (keys : List KeyRequest) :
    (c.starts keys).2.connectionFailures = c.connectionFailures ∧
      (c.starts keys).2.connectionDisabled = c.connectionDisabled := by
  induction keys generalizing c with
  | nil => exact ⟨rfl, rfl⟩
  | cons r keys ih =>
    obtain ⟨hfailures, hdisabled⟩ := ih (c.startDownload r).2
    obtain ⟨hfailures', hdisabled'⟩ := c.startDownload_breaker r
    exact ⟨hfailures.trans hfailures', hdisabled.trans hdisabled'⟩

/-- One transfer: the count goes the way of the errors, and the connector stops at the limit. -/
theorem afterTransfer_breaker {α : Type} (t : Except PyError α) :
    (c.afterTransfer t).connectionFailures = streakAfter c.connectionFailures (transferEnd t) ∧
      ((c.afterTransfer t).connectionDisabled = true ↔ c.connectionDisabled = true ∨
        transferEnd t = .connectionError ∧ maxConnectionFailures ≤ c.connectionFailures + 1) := by
  unfold afterTransfer transferEnd
  match t with
  | .ok _ => exact ⟨rfl, by simp [resetConnectionFailures]⟩
  | .error e =>
    unfold updateConnectionFailures
    dsimp only
    split
    · exact ⟨rfl, by simp⟩
    · exact ⟨rfl, by simp⟩

/-- The errors of a batch are all counted. -/
theorem foldl_countFailure (ts : List (Except PyError (List UInt8))) :
    (ts.foldl countFailure c).connectionFailures =
        c.connectionFailures + (ts.map transferEnd).count .connectionError ∧
      ((ts.foldl countFailure c).connectionDisabled = true ↔ c.connectionDisabled = true ∨
        0 < (ts.map transferEnd).count .connectionError ∧
          maxConnectionFailures ≤
            c.connectionFailures + (ts.map transferEnd).count .connectionError) := by
  induction ts generalizing c with
  | nil => simp
  | cons t ts ih =>
    obtain ⟨hfailures, hdisabled⟩ := ih (c.countFailure t)
    rw [List.foldl_cons, hfailures, hdisabled, List.map_cons]
    match t with
    | .ok bytes =>
      have hend : transferEnd (.ok bytes : Except PyError (List UInt8)) = .success := rfl
      rw [hend, List.count_cons_of_ne (by decide)]
      exact ⟨rfl, Iff.rfl⟩
    | .error e =>
      have hcount : c.countFailure (.error e) = c.updateConnectionFailures e.message := rfl
      rw [hcount]
      unfold updateConnectionFailures
      by_cases he : isConnectionError e.message
      · have hend : transferEnd (.error e : Except PyError (List UInt8)) = .connectionError :=
          if_pos he
        rw [if_pos he, hend, List.count_cons_self]
        generalize (ts.map transferEnd).count .connectionError = n
        dsimp only
        rw [Bool.or_eq_true, decide_eq_true_iff]
        refine ⟨by omega, ?_⟩
        constructor
        · rintro ((h | h) | ⟨-, h⟩)
          · exact .inl h
          · exact .inr ⟨Nat.succ_pos n, by omega⟩
          · exact .inr ⟨Nat.succ_pos n, by omega⟩
        · rintro (h | ⟨-, h⟩)
          · exact .inl (.inl h)
          · by_cases hpos : 0 < n
            · exact .inr ⟨hpos, by omega⟩
            · exact .inl (.inr (by omega))
      · have hend : transferEnd (.error e : Except PyError (List UInt8)) = .otherError := if_neg he
        rw [if_neg he, hend, List.count_cons_of_ne (by decide)]
        exact ⟨rfl, Iff.rfl⟩

end S3Connector

/-! ## Runs -/

/-- An operation.  Of a batch it is known at which time each of its transfers ends. -/
inductive S3Op where
  | get (r : KeyRequest)
  | batchedGet (keys : List KeyRequest) (endedAt : Nat → Nat)
  | put (key : String) (obj : S3Upload) (upload : Except PyError Unit)

/-- Ends in the order of their times. -/
def byTime (ends : List TransferEnd) (endedAt : Nat → Nat) : List TransferEnd :=
  (ends.zipIdx.insertionSort fun a b => endedAt a.2 ≤ endedAt b.2).map Prod.fst

theorem byTime_perm (ends : List TransferEnd) (endedAt : Nat → Nat) :
    (byTime ends endedAt).Perm ends := by
  have hperm := (List.perm_insertionSort
    (fun a b : TransferEnd × Nat => endedAt a.2 ≤ endedAt b.2) ends.zipIdx).map Prod.fst
  rwa [List.zipIdx_map_fst] at hperm

namespace S3Op

/-- The connector after the operation. -/
def connectorAfter (c : S3Connector) : S3Op → S3Connector
  | get r => (c.getTransferred r).connector
  | batchedGet keys _ => (c.batchedGetTransferred keys).connector
  | put key obj upload => (c.putTransferred key obj upload).connector

/-- The ends of the transfers of the operation, in the order in which they came. -/
def completed (c : S3Connector) : S3Op → List TransferEnd
  | get r => (c.getTransferred r).ends
  | batchedGet keys endedAt => byTime (c.batchedGetTransferred keys).ends endedAt
  | put key obj upload => (c.putTransferred key obj upload).ends

/-- The objects of a skipped or failed transfer are released once, and those of the others
returned.  What a `put` was given is released in every case. -/
def ReleasesOnce (c : S3Connector) : S3Op → Prop
  | get r =>
    let start := if c.connectionDisabled then .skipped none else (c.startDownload r).1
    (c.getTransferred r).memoryObjs = [start.returned] ∧
      (c.getTransferred r).released = start.released
  | batchedGet keys _ =>
    let started :=
      if c.connectionDisabled then keys.map fun _ => .skipped none else (c.starts keys).1
    (c.batchedGetTransferred keys).memoryObjs = started.map Start.returned ∧
      (c.batchedGetTransferred keys).released.Perm (started.flatMap Start.released)
  | put key obj upload =>
    (c.putTransferred key obj upload).memoryObjs = [] ∧
      (c.putTransferred key obj upload).released = [obj]

end S3Op

/-- A connector, and the connection errors since the last success of any of its transfers. -/
structure BreakerRun where
  connector : S3Connector
  streak : Nat

namespace BreakerRun

/-- A connector that has just been made. -/
def init (s3PartSize : Nat) : BreakerRun := ⟨{ s3PartSize := s3PartSize }, 0⟩

def step (s : BreakerRun) (op : S3Op) : BreakerRun :=
  ⟨op.connectorAfter s.connector, (op.completed s.connector).foldl streakAfter s.streak⟩

/-- If the operation disables the connector, so many connection errors as there may be have come
with no success between them. -/
def Justified (s : BreakerRun) (op : S3Op) : Prop :=
  s.connector.connectionDisabled = false → (s.step op).connector.connectionDisabled = true →
    S3Connector.maxConnectionFailures ≤ longestRun s.streak (op.completed s.connector)

/-- A batch whose connection errors come to the limit, with the failures that were counted before,
has that many of them with no success between them. -/
def Unbroken (s : BreakerRun) : S3Op → Prop
  | .batchedGet keys endedAt =>
    s.connector.connectionDisabled = true ∨
      s.connector.connectionFailures +
        (s.connector.batchedGetTransferred keys).ends.count .connectionError <
          S3Connector.maxConnectionFailures ∨
      S3Connector.maxConnectionFailures ≤
        longestRun s.streak (byTime (s.connector.batchedGetTransferred keys).ends endedAt)
  | _ => True

/-- No more failures are counted than there were errors since the last success. -/
structure Tracked (s : BreakerRun) : Prop where
  counted : s.connector.connectionFailures ≤ s.streak
  below : s.connector.Below

end BreakerRun

/-! ## One operation -/

namespace S3Connector

/-- What an operation of at most one transfer does to the count of failures. -/
def OneByOne (c after : S3Connector) (ends : List TransferEnd) : Prop :=
  (ends = [] ∧ after.connectionFailures = c.connectionFailures ∧
      after.connectionDisabled = c.connectionDisabled) ∨
    ∃ e, ends = [e] ∧ after.connectionFailures = streakAfter c.connectionFailures e ∧
      (after.connectionDisabled = true ↔ c.connectionDisabled = true ∨
        e = .connectionError ∧ maxConnectionFailures ≤ c.connectionFailures + 1)

/-- A transfer of a connector with the same counts. -/
theorem oneByOne_afterTransfer {α : Type} {c c' : S3Connector}
    (hfailures : c'.connectionFailures = c.connectionFailures)
    (hdisabled : c'.connectionDisabled = c.connectionDisabled) (t : Except PyError α) :
    OneByOne c (c'.afterTransfer t) [transferEnd t] := by
  have h := c'.afterTransfer_breaker t
  rw [hfailures, hdisabled] at h
  exact .inr ⟨_, rfl, h⟩

variable (c : S3Connector)

theorem oneByOne_get (r : KeyRequest) :
    OneByOne c (c.getTransferred r).connector (c.getTransferred r).ends := by
  obtain ⟨hfailures, hdisabled⟩ := c.startDownload_breaker r
  unfold getTransferred
  split
  · exact .inl ⟨rfl, rfl, rfl⟩
  · generalize c.startDownload r = started at hfailures hdisabled
    match started with
    | (.skipped released, c') => exact .inl ⟨rfl, hfailures, hdisabled⟩
    | (.transfer obj (.ok bytes), c') => exact oneByOne_afterTransfer hfailures hdisabled _
    | (.transfer obj (.error e), c') => exact oneByOne_afterTransfer hfailures hdisabled _

theorem oneByOne_put (key : String) (obj : S3Upload) (upload : Except PyError Unit) :
    OneByOne c (c.putTransferred key obj upload).connector
      (c.putTransferred key obj upload).ends := by
  unfold putTransferred
  split
  · exact .inl ⟨rfl, rfl, rfl⟩
  · split
    · exact .inl ⟨rfl, rfl, rfl⟩
    · match upload with
      | .ok _ => exact oneByOne_afterTransfer rfl rfl _
      | .error _ => exact oneByOne_afterTransfer rfl rfl _

theorem releasesOnce (op : S3Op) : op.ReleasesOnce c := by
  match op with
  | .get r =>
    dsimp only [S3Op.ReleasesOnce, getTransferred]
    split
    · exact ⟨rfl, rfl⟩
    · generalize c.startDownload r = started
      match started with
      | (.skipped released, c') => exact ⟨rfl, rfl⟩
      | (.transfer obj (.ok bytes), c') => exact ⟨rfl, rfl⟩
      | (.transfer obj (.error e), c') => exact ⟨rfl, rfl⟩
  | .batchedGet keys endedAt =>
    dsimp only [S3Op.ReleasesOnce]
    cases hdisabled : c.connectionDisabled with
    | true =>
      unfold batchedGetTransferred
      rw [hdisabled, if_pos rfl, if_pos rfl]
      dsimp only
      constructor
      · rw [List.map_map]
        exact List.map_const'.symm
      · rw [List.flatMap_map]
        simp [Start.released]
    | false =>
      rw [batchedGetTransferred_eq hdisabled, if_neg Bool.false_ne_true]
      have hreleased : Start.released = fun start => start.skippedObj ++ start.failedObj :=
        funext fun start => start.skippedObj_append_failedObj.symm
      rw [hreleased]
      exact ⟨rfl, List.flatMap_append_perm _ _ _⟩
  | .put key obj upload =>
    dsimp only [S3Op.ReleasesOnce, putTransferred]
    split
    · exact ⟨rfl, rfl⟩
    · split
      · exact ⟨rfl, rfl⟩
      · match upload with
        | .ok _ => exact ⟨rfl, rfl⟩
        | .error _ => exact ⟨rfl, rfl⟩

end S3Connector

namespace BreakerRun

open S3Connector

variable {s : BreakerRun}

/-- One transfer at a time keeps the count below the truth, and disables at the limit only. -/
theorem tracked_of_oneByOne (h : s.Tracked) (op : S3Op)
    (hop : OneByOne s.connector (op.connectorAfter s.connector) (op.completed s.connector)) :
    (s.step op).Tracked ∧ s.Justified op := by
  have hcounted := h.counted
  have hbelow := h.below
  rcases hop with ⟨hends, hfailures, hdisabled⟩ | ⟨e, hends, hfailures, hdisabled⟩
  · refine ⟨⟨?_, ?_⟩, fun hfalse htrue => ?_⟩
    · show (op.connectorAfter s.connector).connectionFailures ≤
        (op.completed s.connector).foldl streakAfter s.streak
      rw [hends, hfailures]
      exact hcounted
    · show (op.connectorAfter s.connector).connectionDisabled = false →
        (op.connectorAfter s.connector).connectionFailures < _
      rw [hfailures, hdisabled]
      exact hbelow
    · cases hfalse.symm.trans (hdisabled.symm.trans htrue)
  · refine ⟨⟨?_, ?_⟩, fun hfalse htrue => ?_⟩
    · show (op.connectorAfter s.connector).connectionFailures ≤
        (op.completed s.connector).foldl streakAfter s.streak
      rw [hends, hfailures, List.foldl_cons, List.foldl_nil]
      cases e with
      | success => exact Nat.zero_le _
      | connectionError => exact Nat.succ_le_succ hcounted
      | otherError => exact hcounted
    · intro hfalse
      have hnot := (not_congr hdisabled).mp (by
        show ¬(s.step op).connector.connectionDisabled = true
        rw [hfalse]
        exact Bool.false_ne_true)
      have hlt := hbelow (Bool.eq_false_iff.mpr fun htrue => hnot (.inl htrue))
      show (op.connectorAfter s.connector).connectionFailures < _
      rw [hfailures]
      cases e with
      | success => exact Nat.succ_pos 2
      | connectionError => exact not_le.mp fun hle => hnot (.inr ⟨rfl, hle⟩)
      | otherError => exact hlt
    · rcases hdisabled.mp htrue with htrue | ⟨rfl, hle⟩
      · cases hfalse.symm.trans htrue
      · rw [hends]
        show _ ≤ max s.streak (s.streak + 1)
        omega

/-- What a batch does to the counts of a connector that is not disabled. -/
theorem batchedGet_breaker {c : S3Connector} (hbelow : c.Below)
    (hfalse : c.connectionDisabled = false)
    (keys : List KeyRequest) :
    ((c.batchedGetTransferred keys).connector.connectionFailures =
        if .success ∈ (c.batchedGetTransferred keys).ends then 0
        else c.connectionFailures + (c.batchedGetTransferred keys).ends.count .connectionError) ∧
      ((c.batchedGetTransferred keys).connector.connectionDisabled = true ↔
        maxConnectionFailures ≤
          c.connectionFailures + (c.batchedGetTransferred keys).ends.count .connectionError) := by
  rw [batchedGetTransferred_eq hfalse]
  dsimp only
  obtain ⟨hfailures, hdisabled⟩ := c.starts_breaker keys
  obtain ⟨hcount, hstop⟩ :=
    (c.starts keys).2.foldl_countFailure (downloads (c.starts keys).1)
  rw [hfailures] at hcount hstop
  rw [hdisabled] at hstop
  generalize downloads (c.starts keys).1 = transfers at hcount hstop ⊢
  have hsuccess : transfers.any Except.toBool = true ↔ .success ∈ transfers.map transferEnd := by
    rw [List.any_eq_true, List.mem_map]
    refine exists_congr fun t => and_congr_right fun _ => ?_
    match t with
    | .ok _ => exact iff_of_true rfl rfl
    | .error e =>
      refine iff_of_false (fun h => nomatch h) fun h => ?_
      unfold transferEnd at h
      dsimp only at h
      split at h <;> cases h
  constructor
  · by_cases hany : transfers.any Except.toBool = true
    · rw [if_pos hany, if_pos (hsuccess.mp hany)]
      rfl
    · rw [if_neg hany, if_neg (fun h => hany (hsuccess.mpr h)), hcount]
  · have hsame : (if transfers.any Except.toBool then
        (transfers.foldl countFailure (c.starts keys).2).resetConnectionFailures
        else transfers.foldl countFailure (c.starts keys).2).connectionDisabled =
          (transfers.foldl countFailure (c.starts keys).2).connectionDisabled := by
      split <;> rfl
    rw [hsame, hstop, hfalse]
    have hlt := hbelow hfalse
    constructor
    · rintro (h | ⟨-, h⟩)
      · cases h
      · exact h
    · intro h
      exact .inr ⟨by omega, h⟩

/-- A batch keeps the count below the truth. -/
theorem tracked_batchedGet (h : s.Tracked) (keys : List KeyRequest) (endedAt : Nat → Nat) :
    (s.step (.batchedGet keys endedAt)).Tracked ∧
      (s.Justified (.batchedGet keys endedAt) ↔ s.Unbroken (.batchedGet keys endedAt)) := by
  cases hfalse : s.connector.connectionDisabled with
  | true =>
    have hskipped : s.connector.batchedGetTransferred keys =
        ⟨List.replicate keys.length none, [], s.connector, []⟩ := if_pos hfalse
    refine ⟨⟨?_, ?_⟩, iff_of_true (fun hfalse' => ?_) (.inl hfalse)⟩
    · show (s.connector.batchedGetTransferred keys).connector.connectionFailures ≤
        (byTime (s.connector.batchedGetTransferred keys).ends endedAt).foldl streakAfter s.streak
      rw [hskipped]
      exact h.counted
    · show (s.connector.batchedGetTransferred keys).connector.Below
      rw [hskipped]
      exact h.below
    · cases hfalse.symm.trans hfalse'
  | false =>
    obtain ⟨hfailures, hdisabled⟩ := batchedGet_breaker h.below hfalse keys
    have hperm := byTime_perm (s.connector.batchedGetTransferred keys).ends endedAt
    refine ⟨⟨?_, ?_⟩, ?_⟩
    · show (s.connector.batchedGetTransferred keys).connector.connectionFailures ≤
        (byTime (s.connector.batchedGetTransferred keys).ends endedAt).foldl streakAfter s.streak
      rw [hfailures]
      split
      · exact Nat.zero_le _
      · rename_i hnone
        rw [foldl_streakAfter_of_noSuccess (fun hmem => hnone (hperm.mem_iff.mp hmem)),
          hperm.count_eq]
        exact Nat.add_le_add_right h.counted _
    · show (s.connector.batchedGetTransferred keys).connector.Below
      intro hfalse'
      have hlt := not_le.mp ((not_congr hdisabled).mp (by
        rw [hfalse']
        exact Bool.false_ne_true))
      rw [hfailures]
      split
      · exact Nat.succ_pos 2
      · exact hlt
    · unfold Justified Unbroken
      show (_ →
        (s.connector.batchedGetTransferred keys).connector.connectionDisabled = true → _) ↔ _
      rw [hdisabled, hfalse]
      constructor
      · intro hjustified
        rcases Nat.lt_or_ge (s.connector.connectionFailures +
          (s.connector.batchedGetTransferred keys).ends.count .connectionError)
          maxConnectionFailures with hlt | hle
        · exact .inr (.inl hlt)
        · exact .inr (.inr (hjustified rfl hle))
      · rintro (hfalse' | hlt | hle)
        · cases hfalse'
        · exact fun _ hle => absurd hle (Nat.not_le.mpr hlt)
        · exact fun _ _ => hle

/-- **One operation** keeps the count below the truth.  It disables the connector with reason, but
for a batch that is broken. -/
theorem tracked_step (h : s.Tracked) (op : S3Op) :
    (s.step op).Tracked ∧ (s.Justified op ↔ s.Unbroken op) := by
  cases op with
  | get r =>
    obtain ⟨htracked, hjustified⟩ := tracked_of_oneByOne h (.get r) (oneByOne_get _ r)
    exact ⟨htracked, iff_of_true hjustified trivial⟩
  | put key obj upload =>
    obtain ⟨htracked, hjustified⟩ :=
      tracked_of_oneByOne h (.put key obj upload) (oneByOne_put _ key obj upload)
    exact ⟨htracked, iff_of_true hjustified trivial⟩
  | batchedGet keys endedAt => exact tracked_batchedGet h keys endedAt

theorem tracked_init (s3PartSize : Nat) : (init s3PartSize).Tracked :=
  ⟨le_rfl, fun _ => Nat.succ_pos 2⟩

/-! ## Whole runs -/

/-- **When the circuit breaker is right.**  In every run of a connector, every operation releases
what it does not return, once.  Each time the connector is disabled there is a reason for it, just
when no batch of the run is broken. -/
theorem justified_iff_unbroken (s3PartSize : Nat) (ops : List S3Op) :
    Guarded step (fun s op => s.Justified op ∧ op.ReleasesOnce s.connector) (init s3PartSize) ops ↔
      Guarded step Unbroken (init s3PartSize) ops := by
  have h0 := tracked_init s3PartSize
  constructor
  · exact Guarded.mono_of_inv (P := Tracked) (fun s op hs _ => (tracked_step hs op).1)
      (fun s op hs hok => (tracked_step hs op).2.mp hok.1) h0
  · exact Guarded.mono_of_inv (P := Tracked) (fun s op hs _ => (tracked_step hs op).1)
      (fun s op hs hok => ⟨(tracked_step hs op).2.mpr hok, releasesOnce s.connector op⟩) h0

/-- Of four downloads the second succeeds and the others time out: three errors are counted, and the
connector is disabled. -/
theorem not_justified_mixed_batch :
    let timeout : Except PyError (List UInt8) := .error (.runtimeError "AWS_IO_SOCKET_TIMEOUT")
    let keys : List KeyRequest := [⟨"a", 1, some ⟨0, 1⟩, timeout⟩, ⟨"b", 1, some ⟨1, 1⟩, .ok [0]⟩,
      ⟨"c", 1, some ⟨2, 1⟩, timeout⟩, ⟨"d", 1, some ⟨3, 1⟩, timeout⟩]
    let s := init 1
    (s.connector.batchedGetTransferred keys).ends =
        [.connectionError, .success, .connectionError, .connectionError] ∧
      s.connector.connectionDisabled = false ∧
      (s.step (.batchedGet keys id)).connector.connectionDisabled = true ∧
      ¬s.Justified (.batchedGet keys id) := by
  refine ⟨by decide, rfl, by decide, fun h => ?_⟩
  exact absurd (h rfl (by decide)) (by decide)

end BreakerRun

end LMCache.Storage
