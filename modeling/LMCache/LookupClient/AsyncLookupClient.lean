/-
# LMCache.LookupClient.AsyncLookupClient — the lookup client of the scheduler, over its two threads.

Source: `LMCacheAsyncLookupClient` of `v1/lookup_client/lmcache_async_lookup_client.py`.

The scheduler calls `lookup_cache`, `lookup`, `clear_lookup_status` and `cancel_lookup` one at a
time; a second thread takes in the responses of the workers.  A step is a section under the lock, or
what a call does between two such sections, and a response may come between any two steps.
`lookup_cache` first cleans up behind cancelled lookups, in several steps, and then reads a status.

What a request has been looked up for, and what was answered, is kept in a history that no step of
the client reads.
-/
import LMCache.Lib.Dict
import LMCache.Lib.Run
import LMCache.PyError

namespace LMCache.LookupClient

open LMCache.Lib

/-! ## The client -/

/-- What is configured: `lookup_timeout_ms`, and how many workers are asked. -/
structure AsyncLookupConfig where
  timeoutMs : Rat
  worldSize : Nat
  worldSize_pos : 0 < worldSize

/-- What has become of one lookup. -/
structure Lookup where
  /-- The workers that have answered, with their hit tokens, in the order of their answers. -/
  responses : List (Nat × Int)
  cancelled : Bool
  /-- How many cleanup messages the workers were sent for it. -/
  cleanups : Nat
  deriving DecidableEq, Repr

/-- What has become of one lookup id. -/
structure History where
  /-- The lookups, the last one first. -/
  lookups : List Lookup
  /-- `lookup_cache` has given up waiting, and the lookup is not cleared. -/
  timedOut : Bool
  /-- `lookup_cache` has answered -1, and the lookup is not cleared. -/
  asked : Bool
  deriving DecidableEq, Repr

/-- Where the scheduler is in a call of `lookup_cache`.  Each stage has the id of the call and the
history when it began. -/
inductive Pc where
  | idle
  /-- Before `finished_lookups` is complete: what is left to check, and what is finished. -/
  | checking (id : String) (todo finished : List String) (begun : String → History)
  /-- Before the cleanup messages for these are sent. -/
  | sending (id : String) (finished : List String) (begun : String → History)
  /-- Between the cleanup message for one of them and `clear_lookup_status`. -/
  | clearing (id next : String) (finished : List String) (begun : String → History)

/-- `LMCacheAsyncLookupClient`. -/
structure AsyncLookupClient where
  reqsStatus : Dict String (Option Int)
  firstLookupTime : Dict String Rat
  resForEachWorker : Dict String (List Int)
  abortedLookups : List String
  pc : Pc
  /-- What the last call of `lookup_cache` has returned or raised. -/
  answer : Option (Except PyError (Option Int))
  history : String → History

/-- What the two threads do. -/
inductive ClientEvent where
  /-- `lookup_cache` is called; a set has its own order. -/
  | lookupCache (id : String) (order : List String)
  /-- The next step of `_cleanup_finished_aborted_lookups`. -/
  | cleanup
  /-- The section of `lookup_cache` that reads the status, with `time.time()` before and after the
  sleep. -/
  | readStatus (now later : Rat)
  | lookup (id : String)
  | clearLookupStatus (id : String)
  | cancelLookup (id : String)
  /-- A worker's response to one of the lookups of an id is taken in. -/
  | respond (id : String) (idx worker : Nat) (numHitTokens : Int)
  deriving DecidableEq, Repr

namespace AsyncLookupClient

def init : AsyncLookupClient where
  reqsStatus := .empty
  firstLookupTime := .empty
  resForEachWorker := .empty
  abortedLookups := []
  pc := .idle
  answer := none
  history := fun _ => ⟨[], false, false⟩

/-- `clear_lookup_status`. -/
def clearLookupStatus (s : AsyncLookupClient) (id : String) : AsyncLookupClient :=
  { s with
    reqsStatus := s.reqsStatus.erase id
    firstLookupTime := s.firstLookupTime.erase id
    history := Function.update s.history id
      { s.history id with timedOut := false, asked := false } }

/-- `_send_cleanup_message`, to every worker. -/
def sendCleanupMessage (s : AsyncLookupClient) (id : String) : AsyncLookupClient :=
  { s with
    history := Function.update s.history id
      { s.history id with
        lookups := (s.history id).lookups.modifyHead fun l =>
          { l with cleanups := l.cleanups + 1 } } }

/-- A step of `_cleanup_finished_aborted_lookups`. -/
def cleanup (s : AsyncLookupClient) : AsyncLookupClient :=
  match s.pc with
  | .idle => s
  | .checking id (next :: todo) finished begun =>
    match s.reqsStatus.get? next with
    | some (some _) => { s with pc := .checking id todo (finished ++ [next]) begun }
    | _ => { s with pc := .checking id todo finished begun }
  | .checking id [] finished begun =>
    { s with
      abortedLookups := s.abortedLookups.filter (· ∉ finished)
      pc := .sending id finished begun }
  | .sending id (next :: finished) begun =>
    { s.sendCleanupMessage next with pc := .clearing id next finished begun }
  | .sending _ [] _ => s
  | .clearing id next finished begun =>
    { s.clearLookupStatus next with pc := .sending id finished begun }

/-- The section of `lookup_cache` that reads the status: -1 when there is none, and 0 when the
answer is too late. -/
def readStatus (c : AsyncLookupConfig) (s : AsyncLookupClient) (id : String) (now later : Rat) :
    AsyncLookupClient :=
  match s.reqsStatus.get? id with
  | none =>
    { s with
      reqsStatus := s.reqsStatus.set id none
      firstLookupTime := s.firstLookupTime.set id now
      answer := some (.ok (some (-1)))
      history := Function.update s.history id
        { s.history id with timedOut := false, asked := true } }
  | some none =>
    match s.firstLookupTime.get? id with
    | none => { s with answer := some (.error (.keyError id)) }
    | some first =>
      if c.timeoutMs < (later - first) * 1000 then
        { s with
          firstLookupTime := s.firstLookupTime.erase id
          answer := some (.ok (some 0))
          history := Function.update s.history id { s.history id with timedOut := true } }
      else { s with answer := some (.ok none) }
  | some (some v) => { s with answer := some (.ok (some v)) }

/-- `lookup`, which asks every worker. -/
def lookup (s : AsyncLookupClient) (id : String) : AsyncLookupClient :=
  { s with
    history := Function.update s.history id
      { s.history id with lookups := ⟨[], false, 0⟩ :: (s.history id).lookups } }

/-- `cancel_lookup`, of the last lookup of this id. -/
def cancelLookup (s : AsyncLookupClient) (id : String) : AsyncLookupClient :=
  { s with
    abortedLookups := if id ∈ s.abortedLookups then s.abortedLookups else s.abortedLookups ++ [id]
    history := Function.update s.history id
      { s.history id with
        lookups := (s.history id).lookups.modifyHead fun l => { l with cancelled := true } } }

/-- What `process_responses_from_workers` does with a response.  `min` of a list that is not empty
is an integer. -/
def processResponse (c : AsyncLookupConfig) (s : AsyncLookupClient) (id : String) (res : Int) :
    AsyncLookupClient :=
  let allRes := ((s.resForEachWorker.get? id).getD []) ++ [res]
  if allRes.length = c.worldSize then
    { s with
      resForEachWorker := s.resForEachWorker.erase id
      reqsStatus := s.reqsStatus.set id allRes.min? }
  else { s with resForEachWorker := s.resForEachWorker.set id allRes }

/-- A worker answers each lookup once. -/
def respond (c : AsyncLookupConfig) (s : AsyncLookupClient) (id : String) (idx worker : Nat)
    (numHitTokens : Int) : AsyncLookupClient :=
  match (s.history id).lookups[idx]? with
  | none => s
  | some l =>
    if worker < c.worldSize ∧ worker ∉ l.responses.map Prod.fst then
      { s.processResponse c id numHitTokens with
        history := Function.update s.history id
          { s.history id with
            lookups := (s.history id).lookups.set idx
              { l with responses := l.responses ++ [(worker, numHitTokens)] } } }
    else s

/-- A step of one of the threads.  The scheduler makes a call when the last one has returned. -/
def step (c : AsyncLookupConfig) (s : AsyncLookupClient) (e : ClientEvent) : AsyncLookupClient :=
  match e, s.pc with
  | .lookupCache id order, .idle =>
    if order.Perm s.abortedLookups then { s with pc := .checking id order [] s.history } else s
  | .cleanup, _ => s.cleanup
  | .readStatus now later, .sending id [] _ => { s.readStatus c id now later with pc := .idle }
  | .lookup id, .idle => s.lookup id
  | .clearLookupStatus id, .idle => s.clearLookupStatus id
  | .cancelLookup id, .idle => s.cancelLookup id
  | .respond id idx worker numHitTokens, _ => s.respond c id idx worker numHitTokens
  | _, _ => s

end AsyncLookupClient

/-! ## What the client promises -/

def Lookup.hits (l : Lookup) : List Int := l.responses.map Prod.snd

def Lookup.workers (l : Lookup) : List Nat := l.responses.map Prod.fst

/-- Every worker has answered. -/
def Lookup.Complete (c : AsyncLookupConfig) (l : Lookup) : Prop := l.responses.length = c.worldSize

instance (c : AsyncLookupConfig) (l : Lookup) : Decidable (l.Complete c) :=
  inferInstanceAs (Decidable (_ = _))

/-- Workers that answer once each are all workers when they are as many. -/
theorem Lookup.workers_perm {c : AsyncLookupConfig} (l : Lookup) (hnodup : l.workers.Nodup)
    (hlt : ∀ w ∈ l.workers, w < c.worldSize) (h : l.Complete c) :
    l.workers.Perm (List.range c.worldSize) := by
  have hsubset : l.workers ⊆ List.range c.worldSize := fun w hw => List.mem_range.mpr (hlt w hw)
  refine (List.subperm_of_subset hnodup hsubset).perm_of_length_le ?_
  rw [List.length_range, Lookup.workers, List.length_map]
  exact h.ge

def History.last (h : History) : Option Lookup := h.lookups.head?

namespace AsyncLookupClient

/-- The client has an answer for this id. -/
def Answered (s : AsyncLookupClient) (id : String) : Prop :=
  ∃ v, s.reqsStatus.get? id = some (some v)

def Clearing (s : AsyncLookupClient) (id : String) : Prop :=
  ∃ id' finished begun, s.pc = .clearing id' id finished begun

/-- **The client is correct.** -/
structure Correct (c : AsyncLookupConfig) (s : AsyncLookupClient) : Prop where
  /-- `lookup_cache` has not raised. -/
  returned : ∀ e, s.answer ≠ some (.error e)
  /-- An answer is the least of what the workers said to the last lookup, each of them once. -/
  least : ∀ id v, s.reqsStatus.get? id = some (some v) → ∃ l, (s.history id).last = some l ∧
    l.workers.Perm (List.range c.worldSize) ∧ l.hits.min? = some v
  /-- No cancelled lookup gets two cleanup messages. -/
  once : ∀ id, ∀ l ∈ (s.history id).lookups, l.cancelled = true → l.cleanups ≤ 1
  /-- When `lookup_cache` has cleaned up, each cancelled lookup that was complete when it was called
  has got its message. -/
  cleaned : ∀ id' begun, s.pc = .sending id' [] begun → ∀ id (idx : Nat) l,
    (begun id).lookups[idx]? = some l → l.cancelled = true → l.Complete c →
      ∃ l', (s.history id).lookups[idx]? = some l' ∧ l'.cleanups = 1
  /-- Then no map has an entry for it, unless it is asked for again. -/
  gone : ∀ id l, (s.history id).last = some l → l.cancelled = true → l.cleanups = 1 →
    (s.history id).asked = false → ¬ s.Clearing id →
      id ∉ s.reqsStatus ∧ id ∉ s.firstLookupTime ∧ id ∉ s.resForEachWorker ∧
        id ∉ s.abortedLookups

/-- **What the scheduler has to keep to.**  It does not ask again for a lookup that has timed out,
while it waits; it looks an id up again when all workers have answered and the answer is cleared; it
does not clear the answer of a cancelled lookup; and it cancels a lookup while it waits for the
answer or the client has it. -/
def Proper (c : AsyncLookupConfig) (s : AsyncLookupClient) (e : ClientEvent) : Prop :=
  match e with
  | .readStatus _ _ =>
    match s.pc with
    | .sending id [] _ => ¬(s.reqsStatus.get? id = some none ∧ (s.history id).timedOut = true)
    | _ => True
  | .lookup id => ∀ l ∈ (s.history id).last, l.Complete c ∧ ¬ s.Answered id
  | .clearLookupStatus id =>
    ∀ l ∈ (s.history id).last, l.cancelled = true → l.Complete c → l.cleanups ≠ 0
  | .cancelLookup id => ∀ l ∈ (s.history id).last, l.Complete c → s.Answered id
  | _ => True

instance (s : AsyncLookupClient) (id : String) : Decidable (s.Answered id) :=
  match h : s.reqsStatus.get? id with
  | some (some v) => .isTrue ⟨v, h⟩
  | some none => .isFalse fun ⟨_, hv⟩ => (nomatch h.symm.trans hv)
  | none => .isFalse fun ⟨_, hv⟩ => (nomatch h.symm.trans hv)

instance (c : AsyncLookupConfig) (s : AsyncLookupClient) (e : ClientEvent) :
    Decidable (s.Proper c e) :=
  match e with
  | .readStatus _ _ =>
    match h : s.pc with
    | .sending id [] _ =>
      decidable_of_iff (¬(s.reqsStatus.get? id = some none ∧ (s.history id).timedOut = true))
        (by rw [Proper, h])
    | .sending _ (_ :: _) _ => .isTrue (by rw [Proper, h]; trivial)
    | .idle => .isTrue (by rw [Proper, h]; trivial)
    | .checking .. => .isTrue (by rw [Proper, h]; trivial)
    | .clearing .. => .isTrue (by rw [Proper, h]; trivial)
  | .lookup id =>
    inferInstanceAs (Decidable (∀ l ∈ (s.history id).last, l.Complete c ∧ ¬ s.Answered id))
  | .clearLookupStatus id =>
    inferInstanceAs (Decidable (∀ l ∈ (s.history id).last,
      l.cancelled = true → l.Complete c → l.cleanups ≠ 0))
  | .cancelLookup id =>
    inferInstanceAs (Decidable (∀ l ∈ (s.history id).last, l.Complete c → s.Answered id))
  | .lookupCache .. => .isTrue trivial
  | .cleanup => .isTrue trivial
  | .respond .. => .isTrue trivial

end AsyncLookupClient

end LMCache.LookupClient
