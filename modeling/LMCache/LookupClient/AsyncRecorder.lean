/-
# LMCache.LookupClient.AsyncRecorder — recording in the background.

Source: `AsyncRecorder` of `v1/lookup_client/record_strategies/base.py`.

Callers put what is to be recorded into a queue, and a worker thread takes it out and records it.  A
step is one operation on the queue, or the recording of one item.  A `put` into a full queue waits,
so it is a step only when there is room, and a caller that raises while it preprocesses puts
nothing.

`wait_for_completion` looks at the queue alone: it returns `True` while the worker still holds the
last item.  After `close` the worker takes out what is left in a second loop, and that loop ends at
the first exception.

What was put and what the worker is done with is kept in a ledger that no step reads.
-/
import LMCache.Lib.Run
import LMCache.LookupClient.RecordStrategies
import Mathlib.Data.List.ReduceOption

namespace LMCache.LookupClient

open LMCache.Lib

/-! ## The recorder -/

/-- What the constructor is given.  A capacity that is not positive is none. -/
structure RecorderConfig where
  queueCapacity : Int
  preprocessInCaller : Bool
  deriving DecidableEq, Repr

/-- What is queued for a lookup.  Its data are the preprocessed tokens, where the caller has
preprocessed them, and else the tokens. -/
structure Item (δ : Type) where
  tokenIds : List Int
  preprocessed : Option δ
  lookupId : String
  deriving DecidableEq, Repr

/-- Where the worker is. -/
inductive Worker (δ : Type) where
  /-- Before it looks at `async_shutdown`. -/
  | top
  | getting
  | holding (item : Item δ)
  /-- In the second loop, before it looks whether the queue is empty. -/
  | draining
  | drainGetting
  | drainHolding (item : Item δ)
  | ended
  deriving DecidableEq, Repr

/-- Where a thread is in `wait_for_completion`, with the number of items queued before its call. -/
inductive Waiter where
  /-- No call, or one that has returned `False`. -/
  | idle
  | looping (before : Nat)
  /-- Between the two looks at the queue. -/
  | sawEmpty (before : Nat)
  /-- The call has returned `True`. -/
  | completed (before : Nat)
  deriving DecidableEq, Repr

/-- `AsyncRecorder`, with its threads `τ` and its ledger. -/
structure AsyncRecorder (σ δ τ : Type) where
  strategy : σ
  asyncQueue : List (Option (Item δ))
  asyncShutdown : Bool
  queueFullBlocks : Nat
  worker : Worker δ
  waiters : τ → Waiter
  /-- The calls of `close` that have not put their `None`. -/
  closing : Nat
  /-- The items that were queued. -/
  puts : List (Item δ)
  /-- The items the worker is done with, and whether they were recorded. -/
  finished : List (Item δ × Bool)
  /-- How many items had been queued when `close` was called last. -/
  closedAt : Nat

inductive RecorderEvent (τ : Type) where
  | recordAsync (tokenIds : List Int) (lookupId : String)
  /-- The first `put` of a caller gives up. -/
  | putTimeout
  /-- The worker goes on.  If it has an item, then preprocessing or recording it may raise. -/
  | work (raises : Bool)
  | waitForCompletion (t : τ)
  /-- A thread in `wait_for_completion` looks at the queue. -/
  | check (t : τ)
  /-- The time of a thread in `wait_for_completion` is up. -/
  | timeout (t : τ)
  | close
  /-- A thread in `close` puts `None`. -/
  | putNone
  deriving DecidableEq, Repr

section

variable {σ δ τ : Type}

/-- What the worker has taken out and is not done with. -/
def Worker.held : Worker δ → Option (Item δ)
  | .holding item => some item
  | .drainHolding item => some item
  | _ => none

def Waiter.before : Waiter → Nat
  | .idle => 0
  | .looping before => before
  | .sawEmpty before => before
  | .completed before => before

namespace AsyncRecorder

def init (S : RecordStrategy σ δ) : AsyncRecorder σ δ τ where
  strategy := S.initial
  asyncQueue := []
  asyncShutdown := false
  queueFullBlocks := 0
  worker := .top
  waiters := fun _ => .idle
  closing := 0
  puts := []
  finished := []
  closedAt := 0

/-- `async_queue.full()`. -/
def full (cfg : RecorderConfig) (s : AsyncRecorder σ δ τ) : Bool :=
  0 < cfg.queueCapacity && cfg.queueCapacity ≤ (s.asyncQueue.length : Int)

/-- The `put` of `_queue_item`. -/
def queueItem (cfg : RecorderConfig) (item : Item δ) (s : AsyncRecorder σ δ τ) :
    AsyncRecorder σ δ τ :=
  if s.full cfg then s
  else { s with asyncQueue := s.asyncQueue ++ [some item], puts := s.puts ++ [item] }

/-- `record_async`. -/
def recordAsync (S : RecordStrategy σ δ) (cfg : RecorderConfig) (tokenIds : List Int)
    (lookupId : String) (s : AsyncRecorder σ δ τ) : AsyncRecorder σ δ τ :=
  if cfg.preprocessInCaller then
    match S.preprocess tokenIds with
    | .ok data => s.queueItem cfg ⟨tokenIds, some data, lookupId⟩
    | .error _ => s
  else s.queueItem cfg ⟨tokenIds, none, lookupId⟩

/-- Preprocessing, if the caller has not done it, and recording.  `none` is an exception. -/
def recordItem (S : RecordStrategy σ δ) (raises : Bool) (item : Item δ) (strategy : σ) : Option σ :=
  if raises then none
  else
    match item.preprocessed with
    | some data => some (S.record data strategy)
    | none =>
      match S.preprocess item.tokenIds with
      | .ok data => some (S.record data strategy)
      | .error _ => none

/-- The worker is done with an item, and goes on behind it or at the handler of the exception. -/
def finish (s : AsyncRecorder σ δ τ) (item : Item δ) (recorded : Option σ)
    (next handler : Worker δ) : AsyncRecorder σ δ τ :=
  match recorded with
  | some strategy =>
    { s with strategy, finished := s.finished ++ [(item, true)], worker := next }
  | none => { s with finished := s.finished ++ [(item, false)], worker := handler }

/-- `get`, and where the worker goes with an item, with `None`, and when the queue is empty. -/
def get (s : AsyncRecorder σ δ τ) (holding : Item δ → Worker δ) (gotNone empty : Worker δ) :
    AsyncRecorder σ δ τ :=
  match s.asyncQueue with
  | [] => { s with worker := empty }
  | none :: asyncQueue => { s with asyncQueue, worker := gotNone }
  | some item :: asyncQueue => { s with asyncQueue, worker := holding item }

/-- `_async_worker`. -/
def work (S : RecordStrategy σ δ) (raises : Bool) (s : AsyncRecorder σ δ τ) :
    AsyncRecorder σ δ τ :=
  match s.worker with
  | .top => { s with worker := if s.asyncShutdown then .draining else .getting }
  | .getting => s.get .holding .draining .top
  | .holding item => s.finish item (recordItem S raises item s.strategy) .top .top
  | .draining => { s with worker := if s.asyncQueue.isEmpty then .ended else .drainGetting }
  | .drainGetting => s.get .drainHolding .draining .ended
  | .drainHolding item => s.finish item (recordItem S raises item s.strategy) .draining .ended
  | .ended => s

/-- The handler of `queue.Full` in `_queue_item`, up to its `put`. -/
def putTimeout (cfg : RecorderConfig) (s : AsyncRecorder σ δ τ) : AsyncRecorder σ δ τ :=
  if s.full cfg then { s with queueFullBlocks := s.queueFullBlocks + 1 } else s

/-- `close`, up to its `put`. -/
def close (s : AsyncRecorder σ δ τ) : AsyncRecorder σ δ τ :=
  { s with asyncShutdown := true, closing := s.closing + 1, closedAt := s.puts.length }

/-- The `put` of `close`, which does not wait for room. -/
def putNone (cfg : RecorderConfig) (s : AsyncRecorder σ δ τ) : AsyncRecorder σ δ τ :=
  if s.closing = 0 then s
  else if s.full cfg then { s with closing := s.closing - 1 }
  else { s with closing := s.closing - 1, asyncQueue := s.asyncQueue ++ [none] }

variable [DecidableEq τ]

def setWaiter (s : AsyncRecorder σ δ τ) (t : τ) (w : Waiter) : AsyncRecorder σ δ τ :=
  { s with waiters := Function.update s.waiters t w }

/-- A call of `wait_for_completion`, up to its loop. -/
def waitForCompletion (s : AsyncRecorder σ δ τ) (t : τ) : AsyncRecorder σ δ τ :=
  match s.waiters t with
  | .idle => s.setWaiter t (.looping s.puts.length)
  | .completed _ => s.setWaiter t (.looping s.puts.length)
  | _ => s

/-- A look at the queue in the loop of `wait_for_completion`. -/
def check (s : AsyncRecorder σ δ τ) (t : τ) : AsyncRecorder σ δ τ :=
  match s.waiters t with
  | .looping before => if s.asyncQueue.isEmpty then s.setWaiter t (.sawEmpty before) else s
  | .sawEmpty before =>
    s.setWaiter t (if s.asyncQueue.isEmpty then .completed before else .looping before)
  | _ => s

/-- The last line of `wait_for_completion`. -/
def timeout (s : AsyncRecorder σ δ τ) (t : τ) : AsyncRecorder σ δ τ :=
  match s.waiters t with
  | .looping before => s.setWaiter t (if s.asyncQueue.isEmpty then .completed before else .idle)
  | _ => s

def step (S : RecordStrategy σ δ) (cfg : RecorderConfig) (s : AsyncRecorder σ δ τ) :
    RecorderEvent τ → AsyncRecorder σ δ τ
  | .recordAsync tokenIds lookupId => s.recordAsync S cfg tokenIds lookupId
  | .putTimeout => s.putTimeout cfg
  | .work raises => s.work S raises
  | .waitForCompletion t => s.waitForCompletion t
  | .check t => s.check t
  | .timeout t => s.timeout t
  | .close => s.close
  | .putNone => s.putNone cfg

/-! ## What the ledger should say -/

/-- The items that were recorded, in order. -/
def recorded (s : AsyncRecorder σ δ τ) : List (Item δ) := (s.finished.filter Prod.snd).map Prod.fst

/-- The hashes that were recorded, in order. -/
def hashes (db : ChunkedTokenDatabase) (s : AsyncRecorder σ δ τ) : List Nat :=
  s.recorded.flatMap fun item => chunkHashes db item.tokenIds

/-- The sum of the chunk counts of items. -/
def chunkCount (db : ChunkedTokenDatabase) (items : List (Item δ)) : Nat :=
  (items.map fun item => (chunkHashes db item.tokenIds).length).sum

/-- The first items that were queued are recorded. -/
def Recorded (s : AsyncRecorder σ δ τ) (before : Nat) : Prop :=
  s.finished.take before = (s.puts.take before).map fun item => (item, true)

/-- The statistics are exact. -/
structure Exact (S : RecordStrategy σ δ) (db : ChunkedTokenDatabase) (Dup : σ → List Nat → Prop)
    (s : AsyncRecorder σ δ τ) : Prop where
  /-- The worker is done with every item at most once, in the order of the queue. -/
  once : s.finished.map Prod.fst <+: s.puts
  totalChunks : (S.counts s.strategy).totalChunks = chunkCount db s.recorded
  /-- When `wait_for_completion` has returned `True`, the items queued before it are recorded. -/
  completed : ∀ t before, s.waiters t = .completed before → s.Recorded before
  /-- If these are all items, then the total is of all items. -/
  completed_total : ∀ t, s.waiters t = .completed s.puts.length →
    (S.counts s.strategy).totalChunks = chunkCount db s.puts
  /-- When the worker has ended, it is done with every item queued before `close`. -/
  closed : s.worker = .ended → s.closedAt ≤ s.finished.length
  duplicates : Dup s.strategy (s.hashes db)

/-! ## When it does -/

/-- The worker holds no item queued before, and it has lost none of them to an exception. -/
def Settled (s : AsyncRecorder σ δ τ) (before : Nat) : Prop :=
  (s.worker.held.isSome → before ≤ s.finished.length) ∧
    ∀ entry ∈ s.finished.take before, entry.2 = true

/-- What an event must not do. -/
def Careful (S : RecordStrategy σ δ) (db : ChunkedTokenDatabase)
    (fresh : List Nat → List Nat → Prop) (s : AsyncRecorder σ δ τ) : RecorderEvent τ → Prop
  | .check t => ∀ before, s.waiters t = .sawEmpty before → s.asyncQueue = [] → s.Settled before
  | .timeout t => ∀ before, s.waiters t = .looping before → s.asyncQueue = [] → s.Settled before
  -- an exception in the second loop with more items queued before `close`; hashes recorded twice
  | .work raises =>
    (∀ item, s.worker = .drainHolding item → recordItem S raises item s.strategy = none →
      s.closedAt ≤ s.finished.length + 1) ∧
    (∀ item, s.worker.held = some item → (recordItem S raises item s.strategy).isSome →
      fresh (s.hashes db) (chunkHashes db item.tokenIds))
  -- a second `close`, with items queued behind the end of the worker
  | .close => s.worker = .ended → s.asyncQueue.reduceOption = []
  | _ => True

/-! ## The ledger is of the queue -/

/-- What no step can break. -/
structure Inv (S : RecordStrategy σ δ) (db : ChunkedTokenDatabase) (LInv : σ → List Nat → Prop)
    (s : AsyncRecorder σ δ τ) : Prop where
  queued : s.puts = s.finished.map Prod.fst ++ (s.worker.held.toList ++ s.asyncQueue.reduceOption)
  preprocessed : ∀ item ∈ s.puts, ∀ data, item.preprocessed = some data →
    S.preprocess item.tokenIds = .ok data
  strategy : LInv s.strategy (s.hashes db)
  before : ∀ t, (s.waiters t).before ≤ s.puts.length
  closedAt : s.closedAt ≤ s.puts.length

variable {S : RecordStrategy σ δ} {db : ChunkedTokenDatabase} {cfg : RecorderConfig}
  {LInv Dup : σ → List Nat → Prop} {fresh : List Nat → List Nat → Prop} {s : AsyncRecorder σ δ τ}

omit [DecidableEq τ] in
theorem inv_init (L : S.Lawful db LInv Dup fresh) :
    Inv S db LInv (init S : AsyncRecorder σ δ τ) where
  queued := rfl
  preprocessed := List.forall_mem_nil _
  strategy := L.inv_initial
  before := fun _ => Nat.le_refl _
  closedAt := Nat.le_refl _

variable {item : Item δ} {gotNone : Worker δ} {holding : Item δ → Worker δ}
  {s' : AsyncRecorder σ δ τ} {before : Nat}

/-- Recording is recording of the preprocessed tokens, whoever has preprocessed them. -/
theorem exists_of_recordItem {raises : Bool} {strategy strategy' : σ}
    (hitem : ∀ data, item.preprocessed = some data → S.preprocess item.tokenIds = .ok data)
    (h : recordItem S raises item strategy = some strategy') :
    ∃ data, S.preprocess item.tokenIds = .ok data ∧ strategy' = S.record data strategy := by
  unfold recordItem at h
  split at h
  · cases h
  · split at h
    · rename_i data hdata
      exact ⟨data, hitem data hdata, (Option.some.inj h).symm⟩
    · split at h
      · rename_i data hdata
        exact ⟨data, hdata, (Option.some.inj h).symm⟩
      · cases h

omit [DecidableEq τ] in
theorem inv_queueItem (h : Inv S db LInv s)
    (hitem : ∀ data, item.preprocessed = some data → S.preprocess item.tokenIds = .ok data) :
    Inv S db LInv (s.queueItem cfg item) := by
  unfold queueItem
  split
  · exact h
  · exact
      { queued := by
          show s.puts ++ [item] = _
          rw [h.queued]
          simp [List.reduceOption_append]
        preprocessed := fun other hother => by
          rcases List.mem_append.mp hother with hother | hother
          · exact h.preprocessed other hother
          · rw [List.mem_singleton.mp hother]
            exact hitem
        strategy := h.strategy
        before := fun t => (h.before t).trans (List.sublist_append_left _ _).length_le
        closedAt := h.closedAt.trans (List.sublist_append_left _ _).length_le }

omit [DecidableEq τ] in
theorem inv_recordAsync (cfg : RecorderConfig) (h : Inv S db LInv s) (tokenIds : List Int)
    (lookupId : String) :
    Inv S db LInv (s.recordAsync S cfg tokenIds lookupId) := by
  unfold recordAsync
  split
  · split
    · rename_i data hdata
      refine inv_queueItem h fun data' hdata' => ?_
      rw [← Option.some.inj hdata']
      exact hdata
    · exact h
  · exact inv_queueItem h fun _ hdata => nomatch hdata

omit [DecidableEq τ] in
theorem inv_get (h : Inv S db LInv s) (hheld : s.worker.held = none) {empty : Worker δ}
    (hholding : ∀ item, (holding item).held = some item) (hgotNone : gotNone.held = none)
    (hempty : empty.held = none) : Inv S db LInv (s.get holding gotNone empty) := by
  have hqueued := h.queued
  rw [hheld] at hqueued
  unfold get
  split
  · rename_i hq
    refine { h with queued := ?_ }
    rw [hempty]
    exact hqueued
  · rename_i q hq
    refine { h with queued := ?_ }
    rw [hq] at hqueued
    rw [hgotNone]
    exact hqueued
  · rename_i item q hq
    refine { h with queued := ?_ }
    rw [hq] at hqueued
    rw [hholding item]
    exact hqueued

omit [DecidableEq τ] in
theorem hashes_finished (finished : List (Item δ × Bool)) (item : Item δ) (ok : Bool) :
    hashes db { s with finished := finished ++ [(item, ok)] } =
      hashes db { s with finished := finished } ++
        if ok then chunkHashes db item.tokenIds else [] := by
  cases ok with
  | false => simp [hashes, recorded]
  | true => simp [hashes, recorded]

omit [DecidableEq τ] in
theorem inv_finish (L : S.Lawful db LInv Dup fresh) (h : Inv S db LInv s)
    (hheld : s.worker.held = some item) (raises : Bool) {next handler : Worker δ}
    (hnext : next.held = none) (hhandler : handler.held = none) :
    Inv S db LInv (s.finish item (recordItem S raises item s.strategy) next handler) := by
  have hqueued := h.queued
  rw [hheld] at hqueued
  have hitem := h.preprocessed item (by rw [hqueued]; simp)
  unfold finish
  split
  · rename_i strategy hrecord
    obtain ⟨data, hdata, rfl⟩ := exists_of_recordItem hitem hrecord
    refine { h with queued := ?_, strategy := ?_ }
    · show s.puts = (s.finished ++ [(item, true)]).map Prod.fst ++ _
      rw [hnext, hqueued]
      simp
    · show LInv (S.record data s.strategy) (hashes db { s with finished := s.finished ++ _ })
      rw [hashes_finished]
      exact L.inv_record hdata h.strategy
  · refine { h with queued := ?_, strategy := ?_ }
    · show s.puts = (s.finished ++ [(item, false)]).map Prod.fst ++ _
      rw [hhandler, hqueued]
      simp
    · show LInv s.strategy (hashes db { s with finished := s.finished ++ _ })
      rw [hashes_finished]
      simpa using h.strategy

omit [DecidableEq τ] in
theorem inv_work (L : S.Lawful db LInv Dup fresh) (h : Inv S db LInv s) (raises : Bool) :
    Inv S db LInv (s.work S raises) := by
  unfold work
  split
  · rename_i hw
    refine { h with queued := ?_ }
    rw [h.queued, hw]
    show _ = _ ++ ((if s.asyncShutdown then Worker.draining else Worker.getting).held.toList ++ _)
    split <;> rfl
  · rename_i hw
    exact inv_get h (by rw [hw]; rfl) (fun _ => rfl) rfl rfl
  · rename_i item hw
    exact inv_finish L h (by rw [hw]; rfl) _ rfl rfl
  · rename_i hw
    refine { h with queued := ?_ }
    rw [h.queued, hw]
    show _ = _ ++ ((if s.asyncQueue.isEmpty then Worker.ended else Worker.drainGetting).held.toList
      ++ _)
    split <;> rfl
  · rename_i hw
    exact inv_get h (by rw [hw]; rfl) (fun _ => rfl) rfl rfl
  · rename_i item hw
    exact inv_finish L h (by rw [hw]; rfl) _ rfl rfl
  · exact h

theorem inv_setWaiter (h : Inv S db LInv s) {t : τ} {w : Waiter} (hw : w.before ≤ s.puts.length) :
    Inv S db LInv (s.setWaiter t w) := by
  refine { h with before := fun u => ?_ }
  show (Function.update s.waiters t w u).before ≤ s.puts.length
  rw [Function.update_apply]
  split
  · exact hw
  · exact h.before u

theorem inv_check (h : Inv S db LInv s) (t : τ) : Inv S db LInv (s.check t) := by
  have hbefore := h.before t
  unfold check
  split
  · rename_i hw
    rw [hw] at hbefore
    split
    · exact inv_setWaiter h hbefore
    · exact h
  · rename_i hw
    rw [hw] at hbefore
    refine inv_setWaiter h ?_
    split <;> exact hbefore
  · exact h

theorem inv_timeout (h : Inv S db LInv s) (t : τ) : Inv S db LInv (s.timeout t) := by
  have hbefore := h.before t
  unfold timeout
  split
  · rename_i hw
    rw [hw] at hbefore
    refine inv_setWaiter h ?_
    split
    · exact hbefore
    · exact Nat.zero_le _
  · exact h

omit [DecidableEq τ] in
theorem inv_putTimeout (h : Inv S db LInv s) : Inv S db LInv (s.putTimeout cfg) := by
  unfold putTimeout
  split
  · exact { h with }
  · exact h

omit [DecidableEq τ] in
theorem inv_putNone (h : Inv S db LInv s) : Inv S db LInv (s.putNone cfg) := by
  unfold putNone
  split
  · exact h
  · split
    · exact { h with }
    · refine { h with queued := ?_ }
      show s.puts = _ ++ (s.worker.held.toList ++ (s.asyncQueue ++ [none]).reduceOption)
      rw [List.reduceOption_append]
      simpa using h.queued

theorem inv_waitForCompletion (h : Inv S db LInv s) (t : τ) :
    Inv S db LInv (s.waitForCompletion t) := by
  unfold waitForCompletion
  split
  · exact inv_setWaiter h (Nat.le_refl _)
  · exact inv_setWaiter h (Nat.le_refl _)
  · exact h

theorem inv_step (L : S.Lawful db LInv Dup fresh) (h : Inv S db LInv s) (e : RecorderEvent τ) :
    Inv S db LInv (step S cfg s e) := by
  cases e with
  | recordAsync tokenIds lookupId => exact inv_recordAsync cfg h tokenIds lookupId
  | putTimeout => exact inv_putTimeout h
  | work raises => exact inv_work L h raises
  | waitForCompletion t => exact inv_waitForCompletion h t
  | check t => exact inv_check h t
  | timeout t => exact inv_timeout h t
  | close => exact { h with closedAt := Nat.le_refl _ }
  | putNone => exact inv_putNone h

/-! ## What is exact is so because of the care -/

omit [DecidableEq τ] in
theorem hashes_congr (h : s'.finished = s.finished) : s'.hashes db = s.hashes db := by
  unfold hashes recorded
  rw [h]

omit [DecidableEq τ] in
theorem Recorded.le_length (h : s.Recorded before) (hbefore : before ≤ s.puts.length) :
    before ≤ s.finished.length := by
  have hlen := congrArg List.length h
  rw [List.length_take, List.length_map, List.length_take] at hlen
  omega

omit [DecidableEq τ] in
/-- What is recorded stays so. -/
theorem Recorded.mono (h : s.Recorded before) (hbefore : before ≤ s.puts.length)
    (hputs : s.puts <+: s'.puts) (hfinished : s.finished <+: s'.finished) : s'.Recorded before := by
  have hle := h.le_length hbefore
  obtain ⟨puts, hputs⟩ := hputs
  obtain ⟨finished, hfinished⟩ := hfinished
  unfold Recorded
  rw [← hputs, ← hfinished, List.take_append_of_le_length hle,
    List.take_append_of_le_length hbefore]
  exact h

omit [DecidableEq τ] in
theorem Inv.totalChunks (L : S.Lawful db LInv Dup fresh) (h : Inv S db LInv s) :
    (S.counts s.strategy).totalChunks = chunkCount db s.recorded := by
  rw [L.totalChunks h.strategy, hashes, List.length_flatMap]
  rfl

omit [DecidableEq τ] in
theorem Inv.recorded_eq (h : Inv S db LInv s) (hall : s.Recorded s.puts.length) :
    s.recorded = s.puts := by
  have hle : s.finished.length ≤ s.puts.length := by
    rw [h.queued, List.length_append, List.length_map]
    omega
  unfold Recorded at hall
  rw [List.take_of_length_le hle, List.take_length] at hall
  unfold recorded
  rw [hall, List.filter_map, List.map_map]
  simp [Function.comp_def]

omit [DecidableEq τ] in
/-- Only three of the parts need care. -/
theorem Inv.exact (L : S.Lawful db LInv Dup fresh) (h : Inv S db LInv s)
    (hcompleted : ∀ t before, s.waiters t = .completed before → s.Recorded before)
    (hclosed : s.worker = .ended → s.closedAt ≤ s.finished.length)
    (hdup : Dup s.strategy (s.hashes db)) : Exact S db Dup s where
  once := ⟨_, h.queued.symm⟩
  totalChunks := h.totalChunks L
  completed := hcompleted
  completed_total := fun t ht => by
    rw [h.totalChunks L, h.recorded_eq (hcompleted t _ ht)]
  closed := hclosed
  duplicates := hdup

omit [DecidableEq τ] in
/-- A step that leaves the strategy and what is finished, and no thread with a result it had not. -/
theorem Exact.keep (L : S.Lawful db LInv Dup fresh) (hexact : Exact S db Dup s)
    (hinv : Inv S db LInv s) (hinv' : Inv S db LInv s') (hputs : s.puts <+: s'.puts)
    (hfinished : s'.finished = s.finished) (hstrategy : s'.strategy = s.strategy)
    (hwaiters : ∀ t before, s'.waiters t = .completed before →
      s.waiters t = .completed before ∨ s'.Recorded before)
    (hclosed : s'.worker = .ended → s'.closedAt ≤ s.finished.length) : Exact S db Dup s' := by
  refine hinv'.exact L (fun t before ht => ?_) (by rw [hfinished]; exact hclosed) ?_
  · rcases hwaiters t before ht with ht | hrecorded
    · have hbefore := hinv.before t
      rw [ht] at hbefore
      exact (hexact.completed t before ht).mono hbefore hputs (by rw [hfinished])
    · exact hrecorded
  · rw [hstrategy, hashes_congr hfinished]
    exact hexact.duplicates

omit [DecidableEq τ] in
/-- With the queue empty, what was queued before is recorded unless the worker still has one of it
or has lost one. -/
theorem recorded_iff_settled (h : Inv S db LInv s) (hq : s.asyncQueue = [])
    (hbefore : before ≤ s.puts.length) : s.Recorded before ↔ s.Settled before := by
  have hqueued := h.queued
  rw [hq, List.reduceOption_nil, List.append_nil] at hqueued
  constructor
  · intro hrecorded
    refine ⟨fun _ => hrecorded.le_length hbefore, fun entry hentry => ?_⟩
    rw [hrecorded] at hentry
    obtain ⟨item, -, rfl⟩ := List.mem_map.mp hentry
    rfl
  · rintro ⟨hheld, hok⟩
    have hle : before ≤ s.finished.length := by
      cases hw : s.worker.held with
      | some item => exact hheld (by rw [hw]; rfl)
      | none =>
        rw [hw, Option.toList_none, List.append_nil] at hqueued
        rwa [hqueued, List.length_map] at hbefore
    unfold Recorded
    rw [hqueued, List.take_append_of_le_length (by rwa [List.length_map]), ← List.map_take,
      List.map_map]
    refine (List.map_id _).symm.trans (List.map_congr_left fun entry hentry => ?_)
    exact Prod.ext rfl (hok entry hentry)

theorem exact_setWaiter_iff (L : S.Lawful db LInv Dup fresh) (hinv : Inv S db LInv s)
    (hexact : Exact S db Dup s) {t : τ} {w : Waiter} (hw : w.before ≤ s.puts.length) :
    Exact S db Dup (s.setWaiter t w) ↔ ∀ before, w = .completed before → s.Recorded before := by
  constructor
  · intro h before hbefore
    refine h.completed t before ?_
    show Function.update s.waiters t w t = _
    rw [Function.update_self, hbefore]
  · intro h
    refine hexact.keep L hinv (inv_setWaiter hinv hw) (List.prefix_refl _) rfl rfl
      (fun u before hu => ?_) hexact.closed
    replace hu : Function.update s.waiters t w u = .completed before := hu
    rw [Function.update_apply] at hu
    split at hu
    · exact Or.inr (h before hu)
    · exact Or.inl hu

theorem exact_waitForCompletion (L : S.Lawful db LInv Dup fresh) (hinv : Inv S db LInv s)
    (hexact : Exact S db Dup s) (t : τ) : Exact S db Dup (s.waitForCompletion t) := by
  have hset := (exact_setWaiter_iff L hinv hexact (t := t) (w := .looping s.puts.length)
    (Nat.le_refl _)).mpr (fun _ h => nomatch h)
  unfold waitForCompletion
  split
  · exact hset
  · exact hset
  · exact hexact

theorem exact_check_iff (L : S.Lawful db LInv Dup fresh) (hinv : Inv S db LInv s)
    (hexact : Exact S db Dup s) (t : τ) :
    Exact S db Dup (s.check t) ↔
      ∀ before, s.waiters t = .sawEmpty before → s.asyncQueue = [] → s.Settled before := by
  have hbefore := hinv.before t
  unfold check
  cases hw : s.waiters t with
  | looping before =>
    replace hbefore : before ≤ s.puts.length := by rw [hw] at hbefore; exact hbefore
    refine iff_of_true ?_ (fun _ h => nomatch h)
    dsimp only
    split
    · exact (exact_setWaiter_iff L hinv hexact (w := .sawEmpty before) hbefore).mpr
        (fun _ h => nomatch h)
    · exact hexact
  | sawEmpty before =>
    replace hbefore : before ≤ s.puts.length := by rw [hw] at hbefore; exact hbefore
    dsimp only
    cases hq : s.asyncQueue with
    | nil =>
      rw [List.isEmpty_nil, if_pos rfl,
        exact_setWaiter_iff L hinv hexact (w := .completed before) hbefore]
      simp only [Waiter.completed.injEq, Waiter.sawEmpty.injEq, forall_eq', forall_const]
      exact recorded_iff_settled hinv hq hbefore
    | cons item q =>
      rw [List.isEmpty_cons, if_neg Bool.false_ne_true]
      exact iff_of_true
        ((exact_setWaiter_iff L hinv hexact (w := .looping before) hbefore).mpr
          (fun _ h => nomatch h))
        (fun _ _ h => nomatch h)
  | idle => exact iff_of_true hexact (fun _ h => nomatch h)
  | completed before => exact iff_of_true hexact (fun _ h => nomatch h)

theorem exact_timeout_iff (L : S.Lawful db LInv Dup fresh) (hinv : Inv S db LInv s)
    (hexact : Exact S db Dup s) (t : τ) :
    Exact S db Dup (s.timeout t) ↔
      ∀ before, s.waiters t = .looping before → s.asyncQueue = [] → s.Settled before := by
  have hbefore := hinv.before t
  unfold timeout
  cases hw : s.waiters t with
  | looping before =>
    replace hbefore : before ≤ s.puts.length := by rw [hw] at hbefore; exact hbefore
    dsimp only
    cases hq : s.asyncQueue with
    | nil =>
      rw [List.isEmpty_nil, if_pos rfl,
        exact_setWaiter_iff L hinv hexact (w := .completed before) hbefore]
      simp only [Waiter.completed.injEq, Waiter.looping.injEq, forall_eq', forall_const]
      exact recorded_iff_settled hinv hq hbefore
    | cons item q =>
      rw [List.isEmpty_cons, if_neg Bool.false_ne_true]
      exact iff_of_true
        ((exact_setWaiter_iff L hinv hexact (w := .idle) (Nat.zero_le _)).mpr
          (fun _ h => nomatch h))
        (fun _ _ h => nomatch h)
  | sawEmpty before => exact iff_of_true hexact (fun _ h => nomatch h)
  | idle => exact iff_of_true hexact (fun _ h => nomatch h)
  | completed before => exact iff_of_true hexact (fun _ h => nomatch h)

omit [DecidableEq τ] in
theorem exact_recordAsync (L : S.Lawful db LInv Dup fresh) (hinv : Inv S db LInv s)
    (hexact : Exact S db Dup s) (tokenIds : List Int) (lookupId : String) :
    Exact S db Dup (s.recordAsync S cfg tokenIds lookupId) := by
  have hinv' := inv_recordAsync cfg hinv tokenIds lookupId
  have hput : ∀ item, Inv S db LInv (s.queueItem cfg item) →
      Exact S db Dup (s.queueItem cfg item) := by
    intro item hinv'
    unfold queueItem at hinv' ⊢
    split at hinv'
    · rename_i hfull
      rw [if_pos hfull]
      exact hexact
    · rename_i hfull
      rw [if_neg hfull]
      exact hexact.keep L hinv hinv' (List.prefix_append ..) rfl rfl (fun _ _ h => Or.inl h)
        hexact.closed
  unfold recordAsync at hinv' ⊢
  split at hinv'
  · rename_i hcaller
    rw [if_pos hcaller]
    split at hinv'
    · exact hput _ hinv'
    · exact hexact
  · rename_i hcaller
    rw [if_neg hcaller]
    exact hput _ hinv'

omit [DecidableEq τ] in
theorem exact_close_iff (L : S.Lawful db LInv Dup fresh) (hinv : Inv S db LInv s)
    (hexact : Exact S db Dup s) :
    Exact S db Dup s.close ↔ (s.worker = .ended → s.asyncQueue.reduceOption = []) := by
  have hlen : s.worker = .ended →
      (s.puts.length ≤ s.finished.length ↔ s.asyncQueue.reduceOption = []) := by
    intro hw
    have hqueued := congrArg List.length hinv.queued
    rw [hw, List.length_append, List.length_map, List.length_append] at hqueued
    rw [← List.length_eq_zero_iff]
    replace hqueued : s.puts.length = s.finished.length + (0 + s.asyncQueue.reduceOption.length) :=
      hqueued
    omega
  constructor
  · exact fun h hw => (hlen hw).mp (h.closed hw)
  · exact fun h => hexact.keep L hinv { hinv with closedAt := Nat.le_refl _ } (List.prefix_refl _)
      rfl rfl (fun _ _ ht => Or.inl ht) fun hw => (hlen hw).mpr (h hw)

omit [DecidableEq τ] in
/-- With nothing held and nothing queued, everything queued is done with. -/
theorem Inv.closed (h : Inv S db LInv s) (hheld : s.worker.held = none) (hq : s.asyncQueue = []) :
    s.closedAt ≤ s.finished.length := by
  have hqueued := congrArg List.length h.queued
  rw [hheld, hq, List.length_append, List.length_map] at hqueued
  exact h.closedAt.trans (Nat.le_of_eq hqueued)

omit [DecidableEq τ] in
/-- The worker ends at a `get` only if the queue is empty. -/
theorem exists_get_eq (empty : Worker δ) (hholding : ∀ item, (holding item).held = some item)
    (hnext : gotNone ≠ .ended) :
    ∃ asyncQueue worker, s.get holding gotNone empty = { s with asyncQueue, worker } ∧
      (worker = .ended → s.asyncQueue = []) := by
  unfold get
  split
  · rename_i hq
    exact ⟨s.asyncQueue, empty, rfl, fun _ => hq⟩
  · rename_i q hq
    exact ⟨q, gotNone, rfl, fun hw => absurd hw hnext⟩
  · rename_i item q hq
    refine ⟨q, holding item, rfl, fun hw => ?_⟩
    have hitem := hholding item
    rw [hw] at hitem
    cases hitem

omit [DecidableEq τ] in
theorem exact_get (L : S.Lawful db LInv Dup fresh) (hinv : Inv S db LInv s)
    (hexact : Exact S db Dup s) (hheld : s.worker.held = none) {empty : Worker δ}
    (hholding : ∀ item, (holding item).held = some item) (hgotNone : gotNone.held = none)
    (hempty : empty.held = none) (hnext : gotNone ≠ .ended) :
    Exact S db Dup (s.get holding gotNone empty) := by
  have hinv' := inv_get hinv hheld hholding hgotNone hempty
  obtain ⟨q, worker, heq, hended⟩ := exists_get_eq (s := s) empty hholding hnext
  rw [heq] at hinv' ⊢
  exact hexact.keep L hinv hinv' (List.prefix_refl _) rfl rfl (fun _ _ h => Or.inl h)
    fun hw => hinv.closed hheld (hended hw)

omit [DecidableEq τ] in
theorem exact_finish_iff (L : S.Lawful db LInv Dup fresh) (hinv : Inv S db LInv s)
    (hexact : Exact S db Dup s) (hheld : s.worker.held = some item) (raises : Bool)
    {next handler : Worker δ} (hnext : next.held = none) (hhandler : handler.held = none)
    (hended : next ≠ .ended) :
    Exact S db Dup (s.finish item (recordItem S raises item s.strategy) next handler) ↔
      (handler = .ended → recordItem S raises item s.strategy = none →
        s.closedAt ≤ s.finished.length + 1) ∧
      ((recordItem S raises item s.strategy).isSome →
        fresh (s.hashes db) (chunkHashes db item.tokenIds)) := by
  have hinv' := inv_finish L hinv hheld raises hnext hhandler
  have hitem := hinv.preprocessed item (by rw [hinv.queued, hheld]; simp)
  have hkept : ∀ t before, s.waiters t = .completed before → ∀ entry,
      before ≤ s.puts.length ∧ s.finished <+: s.finished ++ [entry] := fun t before ht entry =>
    ⟨by have := hinv.before t; rwa [ht] at this, List.prefix_append ..⟩
  unfold finish at hinv' ⊢
  cases hrecord : recordItem S raises item s.strategy with
  | none =>
    rw [hrecord] at hinv'
    dsimp only at hinv' ⊢
    have hdup : Dup s.strategy
        (hashes db { s with finished := s.finished ++ [(item, false)] }) := by
      rw [hashes_finished]
      simpa using hexact.duplicates
    constructor
    · refine fun h => ⟨fun hw _ => ?_, fun hsome => nomatch hsome⟩
      have := h.closed hw
      rwa [List.length_append] at this
    · rintro ⟨hclosed, -⟩
      refine hinv'.exact L (fun t before ht => ?_) (fun hw => ?_) hdup
      · exact (hexact.completed t before ht).mono (hkept t before ht (item, false)).1
          (List.prefix_refl _) (hkept t before ht (item, false)).2
      · show s.closedAt ≤ (s.finished ++ [(item, false)]).length
        rw [List.length_append]
        exact hclosed hw rfl
  | some strategy =>
    obtain ⟨data, hdata, rfl⟩ := exists_of_recordItem hitem hrecord
    rw [hrecord] at hinv'
    dsimp only at hinv' ⊢
    have hdup : Dup (S.record data s.strategy)
        (hashes db { s with finished := s.finished ++ [(item, true)] }) ↔
        fresh (s.hashes db) (chunkHashes db item.tokenIds) := by
      rw [hashes_finished]
      exact L.dup_record hdata hinv.strategy hexact.duplicates
    constructor
    · exact fun h => ⟨fun _ hnone => (nomatch hnone), fun _ => hdup.mp h.duplicates⟩
    · rintro ⟨-, hfresh⟩
      refine hinv'.exact L (fun t before ht => ?_) (fun hw => absurd hw hended)
        (hdup.mpr (hfresh rfl))
      exact (hexact.completed t before ht).mono (hkept t before ht (item, true)).1
        (List.prefix_refl _) (hkept t before ht (item, true)).2

omit [DecidableEq τ] in
theorem exact_work_iff (L : S.Lawful db LInv Dup fresh) (hinv : Inv S db LInv s)
    (hexact : Exact S db Dup s) (raises : Bool) :
    Exact S db Dup (s.work S raises) ↔
      (∀ item, s.worker = .drainHolding item → recordItem S raises item s.strategy = none →
        s.closedAt ≤ s.finished.length + 1) ∧
      (∀ item, s.worker.held = some item → (recordItem S raises item s.strategy).isSome →
        fresh (s.hashes db) (chunkHashes db item.tokenIds)) := by
  have hinv' := inv_work L hinv raises
  -- a step that records nothing has nothing to be careful of
  have hfree : s.worker.held = none → Exact S db Dup (s.work S raises) →
      (Exact S db Dup (s.work S raises) ↔
        (∀ item, s.worker = .drainHolding item → recordItem S raises item s.strategy = none →
          s.closedAt ≤ s.finished.length + 1) ∧
        (∀ item, s.worker.held = some item → (recordItem S raises item s.strategy).isSome →
          fresh (s.hashes db) (chunkHashes db item.tokenIds))) := by
    intro hheld h
    refine iff_of_true h ⟨fun item hw => ?_, fun item hitem => ?_⟩
    · rw [hw] at hheld
      cases hheld
    · rw [hheld] at hitem
      cases hitem
  cases hw : s.worker with
  | top =>
    rw [← hw]
    refine hfree (by rw [hw]; rfl) ?_
    unfold work at hinv' ⊢
    rw [hw] at hinv' ⊢
    refine hexact.keep L hinv hinv' (List.prefix_refl _) rfl rfl (fun _ _ h => Or.inl h) fun h => ?_
    replace h : (if s.asyncShutdown then Worker.draining else .getting : Worker δ) = .ended := h
    split at h <;> cases h
  | getting =>
    rw [← hw]
    refine hfree (by rw [hw]; rfl) ?_
    unfold work
    rw [hw]
    exact exact_get L hinv hexact (by rw [hw]; rfl) (fun _ => rfl) rfl rfl (fun h => nomatch h)
  | holding item =>
    unfold work
    rw [hw]
    refine Iff.trans (exact_finish_iff L hinv hexact (by rw [hw]; rfl) raises rfl rfl
      (fun h => nomatch h)) ?_
    constructor
    · rintro ⟨-, hfresh⟩
      exact ⟨fun _ h => (nomatch h), fun other hother => Option.some.inj hother ▸ hfresh⟩
    · rintro ⟨-, hfresh⟩
      exact ⟨fun h => (nomatch h), hfresh item rfl⟩
  | draining =>
    rw [← hw]
    refine hfree (by rw [hw]; rfl) ?_
    unfold work at hinv' ⊢
    rw [hw] at hinv' ⊢
    refine hexact.keep L hinv hinv' (List.prefix_refl _) rfl rfl (fun _ _ h => Or.inl h) fun h => ?_
    replace h : (if s.asyncQueue.isEmpty then Worker.ended else .drainGetting : Worker δ) =
        .ended := h
    split at h
    · rename_i hq
      exact hinv.closed (by rw [hw]; rfl) (List.isEmpty_iff.mp hq)
    · cases h
  | drainGetting =>
    rw [← hw]
    refine hfree (by rw [hw]; rfl) ?_
    unfold work
    rw [hw]
    exact exact_get L hinv hexact (by rw [hw]; rfl) (fun _ => rfl) rfl rfl (fun h => nomatch h)
  | drainHolding item =>
    unfold work
    rw [hw]
    refine Iff.trans (exact_finish_iff L hinv hexact (by rw [hw]; rfl) raises rfl rfl
      (fun h => nomatch h)) ?_
    constructor
    · rintro ⟨hclosed, hfresh⟩
      exact ⟨fun other hother => by cases hother; exact hclosed rfl,
        fun other hother => Option.some.inj hother ▸ hfresh⟩
    · rintro ⟨hclosed, hfresh⟩
      exact ⟨fun _ => hclosed item rfl, hfresh item rfl⟩
  | ended =>
    rw [← hw]
    refine hfree (by rw [hw]; rfl) ?_
    unfold work
    rw [hw]
    exact hexact

/-- One step keeps the statistics exact if and only if it is careful. -/
theorem exact_step_iff (L : S.Lawful db LInv Dup fresh) (hinv : Inv S db LInv s)
    (hexact : Exact S db Dup s) (e : RecorderEvent τ) :
    Exact S db Dup (step S cfg s e) ↔ s.Careful S db fresh e := by
  cases e with
  | recordAsync tokenIds lookupId =>
    exact iff_of_true (exact_recordAsync L hinv hexact tokenIds lookupId) trivial
  | putTimeout =>
    refine iff_of_true ?_ trivial
    have hinv' : Inv S db LInv (s.putTimeout cfg) := inv_putTimeout hinv
    show Exact S db Dup (s.putTimeout cfg)
    unfold putTimeout at hinv' ⊢
    split
    · exact { hexact with }
    · exact hexact
  | work raises => exact exact_work_iff L hinv hexact raises
  | waitForCompletion t => exact iff_of_true (exact_waitForCompletion L hinv hexact t) trivial
  | check t => exact exact_check_iff L hinv hexact t
  | timeout t => exact exact_timeout_iff L hinv hexact t
  | close => exact exact_close_iff L hinv hexact
  | putNone =>
    refine iff_of_true ?_ trivial
    show Exact S db Dup (s.putNone cfg)
    unfold putNone
    split
    · exact hexact
    · split
      · exact { hexact with }
      · exact { hexact with }

theorem always_exact_iff_careful (L : S.Lawful db LInv Dup fresh) (es : List (RecorderEvent τ)) :
    Always (step S cfg) (Exact S db Dup) (init S) es ↔
      Guarded (step S cfg) (Careful S db fresh) (init S) es := by
  refine always_iff_guarded_of_inv (fun _ e h => inv_step L h e)
    (fun _ e hinv hexact => exact_step_iff L hinv hexact e) (inv_init L) ?_
  exact (inv_init L).exact L (fun _ _ h => nomatch h) (fun h => nomatch h) L.dup_initial

/-- **In every run the statistics are exact if and only if every step is careful**: `True` is
returned only when the worker has recorded what was queued before, the second loop meets no
exception with items left, and, where the strategy forgets what it has recorded, no hash is recorded
twice. -/
theorem statistics_exact_iff (db : ChunkedTokenDatabase) (bloom : BloomConfig)
    (cfg : RecorderConfig) (es : List (RecorderEvent τ)) :
    (Always (step (fileHashStrategy db) cfg) (Exact (fileHashStrategy db) db FileHashStrategy.Exact)
        (init (fileHashStrategy db)) es ↔
      Guarded (step (fileHashStrategy db) cfg)
        (Careful (fileHashStrategy db) db fun hashes more => ∀ hash ∈ more, hash ∉ hashes)
        (init (fileHashStrategy db)) es) ∧
    (Always (step (memoryBloomFilterStrategy db bloom) cfg)
        (Exact (memoryBloomFilterStrategy db bloom) db (MemoryBloomFilterStrategy.OverCounts bloom))
        (init (memoryBloomFilterStrategy db bloom)) es ↔
      Guarded (step (memoryBloomFilterStrategy db bloom) cfg)
        (Careful (memoryBloomFilterStrategy db bloom) db fun _ _ => True)
        (init (memoryBloomFilterStrategy db bloom)) es) :=
  ⟨always_exact_iff_careful (FileHashStrategy.lawful db) es,
    always_exact_iff_careful (MemoryBloomFilterStrategy.lawful db bloom) es⟩

/-- Chunks of two tokens, whose hash is the sum. -/
def pairs : ChunkedTokenDatabase where
  hashFunc := fun _ tokens => tokens.sum
  noneHash := 0
  metadata := none
  saveOnlyFirstRank := false
  chunkSize := 2
  saveUnfullChunk := true

/-- `wait_for_completion` returns `True` while the worker holds the only item; an exception in the
second loop leaves the other item in the queue; and two lookups of one chunk have two unique chunks.
-/
theorem statistics_not_exact :
    (¬ Always (step (memoryBloomFilterStrategy pairs ⟨64, 1, fun item i => item + i⟩) ⟨0, false⟩)
        (Exact (memoryBloomFilterStrategy pairs ⟨64, 1, fun item i => item + i⟩) pairs
          (MemoryBloomFilterStrategy.OverCounts ⟨64, 1, fun item i => item + i⟩))
        (init (memoryBloomFilterStrategy pairs ⟨64, 1, fun item i => item + i⟩))
        [.recordAsync [1, 2] "a", .work false, .work false, .waitForCompletion (), .check (),
          .check ()]) ∧
    (¬ Always (step (memoryBloomFilterStrategy pairs ⟨64, 1, fun item i => item + i⟩) ⟨0, false⟩)
        (Exact (memoryBloomFilterStrategy pairs ⟨64, 1, fun item i => item + i⟩) pairs
          (MemoryBloomFilterStrategy.OverCounts ⟨64, 1, fun item i => item + i⟩))
        (init (memoryBloomFilterStrategy pairs ⟨64, 1, fun item i => item + i⟩))
        ([.recordAsync [1, 2] "a", .recordAsync [3, 4] "b", .close, .work false, .work false,
          .work false, .work true] : List (RecorderEvent Unit))) ∧
    (¬ Always (step (fileHashStrategy pairs) ⟨0, false⟩)
        (Exact (fileHashStrategy pairs) pairs FileHashStrategy.Exact)
        (init (fileHashStrategy pairs))
        ([.recordAsync [1, 2] "a", .recordAsync [1, 2] "b", .work false, .work false, .work false,
          .work false, .work false, .work false] : List (RecorderEvent Unit))) := by
  refine ⟨fun h => ?_, fun h => ?_, fun h => ?_⟩
  · have hrecorded := h.last.completed () 1 rfl
    unfold Recorded at hrecorded
    revert hrecorded
    decide
  · have hclosed := h.last.closed rfl
    revert hclosed
    decide
  · have hdup := h.last.duplicates
    revert hdup
    decide

end AsyncRecorder

end

end LMCache.LookupClient
