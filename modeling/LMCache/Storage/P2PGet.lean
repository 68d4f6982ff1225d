/-
# LMCache.Storage.P2PGet — chunks from the cache of a peer.

Source: `v1/storage_backend/p2p_backend.py`, `batched_get_non_blocking`, and `get_local_mem_indices`
of `transfer_channel/nixl_channel.py`.

The client allocates a buffer for each key, sends the keys and the places of the buffers, and tries
again when the connection fails or the peer does not know it.  Everything that may go wrong is an
input: each turn of the loop says what it meets, and the peer handles the requests that reach it.
-/
import LMCache.Storage.P2PPeer

namespace LMCache.Storage

open LMCache.Lib LMCache.Memory

/-! ## The client -/

/-- What ends a call of the client early. -/
inductive P2PError where
  | zmqError
  | unboundLocalError (name : String)
  | other (e : PyError)
  deriving DecidableEq, Repr

/-- What becomes of a message that is sent. -/
inductive Exchange where
  | answered (s : Serving)
  /-- `send`, `recv` or `decode` raises.  The peer may have handled the message all the same. -/
  | failed (handled : List Serving) (e : P2PError)

/-- What a turn of the retry loop meets. -/
structure Attempt where
  /-- `target_peer_info_mapping` has the peer, unless `close` has cleared it. -/
  peerKnown : Bool
  exchange : Exchange
  /-- `_ensure_peer_connection` after the answer that the connection is not initialized. -/
  reinit : Except P2PError Unit
  /-- `_ensure_peer_connection` in the handler of `ZMQError`. -/
  reconnect : Except P2PError Unit

/-- How a turn of the loop ends. -/
inductive Turn where
  | answered (retMsg : P2PReply)
  /-- Another turn; `ret_msg` may be bound by now. -/
  | again (retMsg : Option P2PReply)
  /-- The buffers are cleaned up, and nothing is returned. -/
  | givenUp
  | raised (e : P2PError)
  deriving DecidableEq, Repr

namespace Attempt

/-- The requests that the peer handles. -/
def servings (a : Attempt) : List Serving :=
  match a.exchange with
  | .answered s => [s]
  | .failed handled _ => handled

/-- The handlers of the loop. -/
def onError (a : Attempt) (last : Bool) (retMsg : Option P2PReply) : P2PError → Turn
  | .zmqError =>
    match a.reconnect with
    | .error e => .raised e
    | .ok _ => if last then .givenUp else .again retMsg
  | _ => .givenUp

/-- The rest of the `try` when the answer has been decoded. -/
def onReply (a : Attempt) (last : Bool) (retMsg : P2PReply) : Turn :=
  if retMsg = .error .remoteXferHandlerNotInitialized then
    match a.reinit with
    | .ok _ => .again (some retMsg)
    | .error e => a.onError last (some retMsg) e
  else .answered retMsg

def turn (url : String) (keys : List CacheEngineKey) (a : Attempt) (last : Bool)
    (retMsg : Option P2PReply) (p : Peer) : Turn × Peer :=
  if ¬a.peerKnown then (.raised (.other (.keyError s!"'{url}'")), p)
  else
    match a.exchange with
    | .failed handled e =>
      (a.onError last retMsg e, handled.foldl (fun p s => (p.handle keys s).2) p)
    | .answered s => (a.onReply last (p.handle keys s).1, (p.handle keys s).2)

end Attempt

/-- How the loop ends. -/
inductive LoopEnd where
  | left (retMsg : P2PReply)
  | givenUp
  | raised (e : P2PError)
  deriving DecidableEq, Repr

/-- The retry loop, over the turns that `max_retry_count` allows. -/
def tries (url : String) (keys : List CacheEngineKey) :
    List Attempt → Option P2PReply → Peer → LoopEnd × Peer
  | [], none, p => (.raised (.unboundLocalError "ret_msg"), p)
  | [], some retMsg, p => (.left retMsg, p)
  | a :: rest, retMsg, p =>
    match a.turn url keys rest.isEmpty retMsg p with
    | (.answered retMsg, p) => (.left retMsg, p)
    | (.again retMsg, p) => tries url keys rest retMsg p
    | (.givenUp, p) => (.givenUp, p)
    | (.raised e, p) => (.raised e, p)

/-- A call of `batched_get_non_blocking`, and how the rest of the world behaves. -/
structure P2PGet where
  lookupId : String
  /-- `lookup_id_to_peer_mapping[lookup_id]`. -/
  targetPeerInitUrl : Option String
  /-- `cum_chunk_lengths`, or the assertion on `transfer_spec` that fails. -/
  cumChunkLengths : Except PyError (List Int)
  saveUnfullChunk : Bool
  keys : List CacheEngineKey
  /-- `allocate` for the key at this place, with the number of tokens of a chunk that is not full.
  With eviction and the busy loop it hands out an object unless it raises. -/
  allocate : Nat → Option Int → Except PyError Unit
  /-- What each turn of the loop meets, for the `max_retry_count` turns there may be. -/
  attempts : List Attempt
  cache : HotCache
  counted : cache.memory.Counted
  stored : ∀ a ∈ attempts, ∀ s ∈ a.servings, s.Stored cache.memory.objs.length

/-- What a call comes to.  A buffer is named by the place of its key. -/
structure GetRun where
  ended : Except P2PError (List Nat)
  numHitChunks : Nat
  allocated : List Nat
  released : List Nat
  peer : Peer

namespace P2PGet

/-- `cum_chunk_lengths[idx + 1] - cum_chunk_lengths[idx]`. -/
def numTokens (cumChunkLengths : List Int) (idx : Nat) : Except PyError Int :=
  match cumChunkLengths[idx + 1]?, cumChunkLengths[idx]? with
  | some stop, some start => .ok (stop - start)
  | _, _ => .error (.indexError indexMessage)

/-- The body of the loop over the keys. -/
def allocateAt (g : P2PGet) (cumChunkLengths : List Int) (idx : Nat) : Except PyError Unit :=
  if ¬g.saveUnfullChunk ∨ idx + 1 < g.keys.length then g.allocate idx none
  else (numTokens cumChunkLengths idx).bind fun n => g.allocate idx (some n)

/-- The loop over the keys, and what it raises. -/
def allocateAll (g : P2PGet) (cumChunkLengths : List Int) :
    List Nat → List Nat → List Nat × Except PyError Unit
  | [], memObjs => (memObjs, .ok ())
  | idx :: idxs, memObjs =>
    match g.allocateAt cumChunkLengths idx with
    | .error e => (memObjs, .error e)
    | .ok _ => g.allocateAll cumChunkLengths idxs (memObjs ++ [idx])

def peer (g : P2PGet) : Peer := ⟨g.cache, fun _ => none, []⟩

/-- A call that raises, with the buffers it has allocated by then. -/
def raises (e : P2PError) (memObjs : List Nat) (p : Peer) : GetRun := ⟨.error e, 0, memObjs, [], p⟩

/-- The end of the call: the buffers behind the hits are released. -/
def finish (memObjs : List Nat) : LoopEnd × Peer → GetRun
  | (.raised e, p) => raises e memObjs p
  | (.givenUp, p) => ⟨.ok [], 0, memObjs, memObjs, p⟩
  | (.left (.error _), p) => ⟨.ok [], 0, memObjs, memObjs, p⟩
  | (.left (.numHitChunks n), p) => ⟨.ok (memObjs.take n), n, memObjs, memObjs.drop n, p⟩

/-- `batched_get_non_blocking`. -/
def run (g : P2PGet) : GetRun :=
  match g.targetPeerInitUrl with
  | none => raises (.other (.keyError s!"'{g.lookupId}'")) [] g.peer
  | some url =>
    match g.cumChunkLengths with
    | .error e => raises (.other e) [] g.peer
    | .ok cumChunkLengths =>
      match g.allocateAll cumChunkLengths (List.range g.keys.length) [] with
      | (memObjs, .error e) => raises (.other e) memObjs g.peer
      | (memObjs, .ok _) =>
        -- `objects[0]` of `get_local_mem_indices`
        if memObjs = [] then raises (.other (.indexError indexMessage)) [] g.peer
        else finish memObjs (tries url g.keys g.attempts none g.peer)

end P2PGet

/-! ## The retry loop -/

namespace Attempt

/-- The turn comes to the handler of `ZMQError`. -/
def MeetsZmqError (a : Attempt) : Prop :=
  match a.exchange with
  | .failed _ e => e = .zmqError
  | .answered s => s.remoteXferHandlerExists = false ∧ a.reinit = .error .zmqError

/-- The loop goes on behind the turn, if there is another one. -/
def GoesOn (a : Attempt) : Prop :=
  a.MeetsZmqError ∨
    match a.exchange with
    | .failed _ _ => False
    | .answered s => s.remoteXferHandlerExists = false ∧ a.reinit = .ok ()

/-- **A turn does no harm**: the peer is known and is steady and faithful, and a reconnect in the
handler of `ZMQError` does not raise. -/
structure Harmless (a : Attempt) (keys : List CacheEngineKey) : Prop where
  peerKnown : a.peerKnown = true
  steady : ∀ s ∈ a.servings, s.Steady keys
  faithful : ∀ s, a.exchange = .answered s → s.Faithful keys
  reconnect : a.MeetsZmqError → a.reconnect = .ok ()

end Attempt

/-- No turn that the loop comes to does harm. -/
def HarmlessTurns (keys : List CacheEngineKey) : List Attempt → Prop
  | [] => True
  | a :: rest => a.Harmless keys ∧ (a.GoesOn → HarmlessTurns keys rest)

/-- The loop has done no harm: the counters of the peer are as before each request, nothing was
raised, and the hits are in the buffers. -/
structure LoopEnd.Accounted (keys : List CacheEngineKey) (r : LoopEnd × Peer) : Prop where
  counts : ∀ m ∈ r.2.handled, Peer.SameCounts m.1 m.2
  quiet : ∀ e, r.1 ≠ .raised e
  filled : ∀ m, r.1 = .left (.numHitChunks m) → r.2.Filled keys m

variable {keys : List CacheEngineKey} {p : Peer}

/-- A loop that gives up has only the peer to account for. -/
theorem LoopEnd.accounted_givenUp :
    LoopEnd.Accounted keys (.givenUp, p) ↔ ∀ m ∈ p.handled, Peer.SameCounts m.1 m.2 := by
  constructor
  · exact fun h => h.counts
  · intro h
    exact ⟨h, fun _ h => (nomatch h), fun _ h => (nomatch h)⟩

theorem LoopEnd.accounted_left {retMsg : P2PReply} :
    LoopEnd.Accounted keys (.left retMsg, p) ↔
      (∀ m ∈ p.handled, Peer.SameCounts m.1 m.2) ∧
        ∀ m, retMsg = .numHitChunks m → p.Filled keys m := by
  constructor
  · intro h
    exact ⟨h.counts, fun m hm => h.filled m (congrArg LoopEnd.left hm)⟩
  · rintro ⟨hcounts, hfilled⟩
    exact ⟨hcounts, fun _ h => (nomatch h), fun m hm => hfilled m (LoopEnd.left.inj hm)⟩

/-- A loop that raises has lost the buffers. -/
theorem LoopEnd.not_accounted_raised {e : P2PError} :
    ¬ LoopEnd.Accounted keys (.raised e, p) := fun h => h.quiet e rfl

namespace Attempt

variable {a : Attempt}

theorem harmless_failed_iff {handled : List Serving} {e : P2PError} (hknown : a.peerKnown = true)
    (hexchange : a.exchange = .failed handled e) :
    a.Harmless keys ↔
      (∀ s ∈ handled, s.Steady keys) ∧ (e = .zmqError → a.reconnect = .ok ()) := by
  have hservings : a.servings = handled := by
    unfold servings
    rw [hexchange]
  have hmeets : a.MeetsZmqError ↔ e = .zmqError := by
    unfold MeetsZmqError
    rw [hexchange]
  constructor
  · intro h
    exact ⟨hservings ▸ h.steady, fun he => h.reconnect (hmeets.mpr he)⟩
  · rintro ⟨hsteady, hreconnect⟩
    refine ⟨hknown, hservings.symm ▸ hsteady, ?_, fun hm => hreconnect (hmeets.mp hm)⟩
    intro s hs
    rw [hexchange] at hs
    cases hs

theorem harmless_answered_iff {s : Serving} (hknown : a.peerKnown = true)
    (hexchange : a.exchange = .answered s) :
    a.Harmless keys ↔ (s.Steady keys ∧ s.Faithful keys) ∧
      (s.remoteXferHandlerExists = false ∧ a.reinit = .error .zmqError → a.reconnect = .ok ()) := by
  have hservings : a.servings = [s] := by
    unfold servings
    rw [hexchange]
  have hmeets : a.MeetsZmqError ↔
      s.remoteXferHandlerExists = false ∧ a.reinit = .error .zmqError := by
    unfold MeetsZmqError
    rw [hexchange]
  constructor
  · intro h
    have hsteady := h.steady s (by rw [hservings]; exact List.mem_singleton_self s)
    exact ⟨⟨hsteady, h.faithful s hexchange⟩, fun hm => h.reconnect (hmeets.mpr hm)⟩
  · rintro ⟨⟨hsteady, hfaithful⟩, hreconnect⟩
    refine ⟨hknown, ?_, ?_, fun hm => hreconnect (hmeets.mp hm)⟩
    · rw [hservings]
      exact List.forall_mem_singleton.mpr hsteady
    · intro s' hs'
      rw [hexchange] at hs'
      cases hs'
      exact hfaithful

theorem goesOn_failed_iff {handled : List Serving} {e : P2PError}
    (hexchange : a.exchange = .failed handled e) : a.GoesOn ↔ e = .zmqError := by
  unfold GoesOn MeetsZmqError
  rw [hexchange]
  exact Iff.of_eq (or_false _)

theorem goesOn_answered_iff {s : Serving} (hexchange : a.exchange = .answered s) :
    a.GoesOn ↔ s.remoteXferHandlerExists = false ∧
      (a.reinit = .error .zmqError ∨ a.reinit = .ok ()) := by
  unfold GoesOn MeetsZmqError
  rw [hexchange, ← and_or_left]

end Attempt

/-- What the loop makes of a turn. -/
def afterTurn (url : String) (keys : List CacheEngineKey) (rest : List Attempt) :
    Turn × Peer → LoopEnd × Peer
  | (.answered retMsg, p) => (.left retMsg, p)
  | (.again retMsg, p) => tries url keys rest retMsg p
  | (.givenUp, p) => (.givenUp, p)
  | (.raised e, p) => (.raised e, p)

section Loop

variable {url : String} {rest : List Attempt} {n : Nat}

theorem tries_cons (a : Attempt) (retMsg : Option P2PReply) :
    tries url keys (a :: rest) retMsg p =
      afterTurn url keys rest (a.turn url keys rest.isEmpty retMsg p) := by
  unfold tries afterTurn
  rfl

/-- The handlers of the loop do no harm unless a reconnect raises or a later turn does. -/
theorem accounted_onError_iff (a : Attempt) {retMsg : Option P2PReply}
    (ih : rest ≠ [] → (LoopEnd.Accounted keys (tries url keys rest retMsg p) ↔
      (∀ m ∈ p.handled, Peer.SameCounts m.1 m.2) ∧ HarmlessTurns keys rest)) (e : P2PError) :
    LoopEnd.Accounted keys (afterTurn url keys rest (a.onError rest.isEmpty retMsg e, p)) ↔
      (∀ m ∈ p.handled, Peer.SameCounts m.1 m.2) ∧
        (e = .zmqError → a.reconnect = .ok () ∧ HarmlessTurns keys rest) := by
  match e with
  | .zmqError =>
    unfold Attempt.onError
    cases hreconnect : a.reconnect with
    | error e =>
      constructor
      · exact fun h => absurd h LoopEnd.not_accounted_raised
      · rintro ⟨-, h⟩
        cases (h rfl).1
    | ok =>
      match rest with
      | [] =>
        refine LoopEnd.accounted_givenUp.trans ?_
        simp [HarmlessTurns]
      | _ :: _ =>
        refine (ih (List.cons_ne_nil _ _)).trans ?_
        simp
  | .unboundLocalError _ | .other _ =>
    refine LoopEnd.accounted_givenUp.trans ?_
    simp

end Loop

/-- **The retry loop** does no harm just when none of its turns does. -/
theorem accounted_tries_iff (url : String) (keys : List CacheEngineKey) {n : Nat}
    (attempts : List Attempt) (hs : ∀ a ∈ attempts, ∀ s ∈ a.servings, s.Stored n)
    {retMsg : Option P2PReply}
    (hret : attempts = [] → retMsg = some (.error .remoteXferHandlerNotInitialized)) (h : p.Counts n) :
    LoopEnd.Accounted keys (tries url keys attempts retMsg p) ↔
      (∀ m ∈ p.handled, Peer.SameCounts m.1 m.2) ∧ HarmlessTurns keys attempts := by
  induction attempts generalizing retMsg p with
  | nil =>
    rw [hret rfl]
    constructor
    · exact fun h => ⟨h.counts, trivial⟩
    · rintro ⟨hcounts, -⟩
      exact ⟨hcounts, fun _ h => (nomatch h), fun _ h => (nomatch h)⟩
  | cons a rest ih =>
    obtain ⟨hserved, hrest⟩ := List.forall_mem_cons.mp hs
    rw [tries_cons]
    unfold Attempt.turn HarmlessTurns
    by_cases hknown : a.peerKnown = true
    · rw [if_neg (not_not_intro hknown)]
      match hexchange : a.exchange with
      | .failed handled e =>
        have hstored : ∀ s ∈ handled, s.Stored n := by
          intro s hs
          apply hserved
          unfold Attempt.servings
          rw [hexchange]
          exact hs
        obtain ⟨hcounts, hhandled⟩ := Peer.handled_foldl h keys handled hstored
        rw [Attempt.harmless_failed_iff hknown hexchange, Attempt.goesOn_failed_iff hexchange]
        refine (accounted_onError_iff a
          (fun hne => ih hrest (fun hnil => absurd hnil hne) hcounts) e).trans ?_
        rw [hhandled]
        tauto
      | .answered s =>
        have hstored : s.Stored n := by
          apply hserved
          unfold Attempt.servings
          rw [hexchange]
          exact List.mem_singleton_self s
        have hcounts := Peer.counts_handle h keys hstored
        have hhandled := Peer.handled_handle h keys hstored
        have hinit := Peer.notInitialized_handle_iff h keys hstored
        have hfilled := Peer.filled_handle_iff h keys hstored
        rw [Attempt.harmless_answered_iff hknown hexchange, Attempt.goesOn_answered_iff hexchange]
        dsimp only
        generalize p.handle keys s = r at hcounts hhandled hinit hfilled
        obtain ⟨reply, p'⟩ := r
        dsimp only at hcounts hhandled hinit hfilled
        unfold Attempt.onReply
        by_cases hreply : reply = .error .remoteXferHandlerNotInitialized
        · -- nothing was looked up, and the connection is set up again
          have hremote := hinit.mp hreply
          have hsteady : s.Steady keys := fun h => absurd (hremote.symm.trans h) Bool.false_ne_true
          have hfaithful : s.Faithful keys :=
            fun h => absurd (hremote.symm.trans h) Bool.false_ne_true
          rw [if_pos hreply, hreply]
          cases hreinit : a.reinit with
          | ok =>
            refine (ih hrest (fun _ => rfl) hcounts).trans ?_
            rw [hhandled]
            simp [hsteady, hfaithful, hremote]
          | error e =>
            refine (accounted_onError_iff a (fun _ => ih hrest (fun _ => rfl) hcounts) e).trans ?_
            rw [hhandled]
            simp only [hsteady, hfaithful, hremote, and_true, true_and, Except.error.injEq,
              reduceCtorEq, or_false]
            tauto
        · have hremote : s.remoteXferHandlerExists ≠ false := fun h => hreply (hinit.mpr h)
          rw [if_neg hreply]
          refine LoopEnd.accounted_left.trans ?_
          rw [hhandled]
          constructor
          · rintro ⟨⟨hcounts, hsteady⟩, hfill⟩
            exact ⟨hcounts, ⟨⟨hsteady, (hfilled hsteady).mp hfill⟩, fun h => absurd h.1 hremote⟩,
              fun h => absurd h.1 hremote⟩
          · rintro ⟨hcounts, ⟨⟨hsteady, hfaithful⟩, -⟩, -⟩
            exact ⟨⟨hcounts, hsteady⟩, (hfilled hsteady).mpr hfaithful⟩
    · rw [if_pos hknown]
      constructor
      · exact fun h => absurd h LoopEnd.not_accounted_raised
      · rintro ⟨-, hharmless, -⟩
        exact absurd hharmless.peerKnown hknown

/-! ## The call -/

namespace GetRun

/-- `hit_mem_objs`, if the call returns. -/
def returned (r : GetRun) : List Nat :=
  match r.ended with
  | .ok memObjs => memObjs
  | .error _ => []

/-- **Everything is accounted for**: each request leaves the counters of the peer as they were,
every buffer is returned or released, and once, the returned ones are the first `num_hit_chunks`,
and they hold what the peer caches under their keys. -/
structure Accounted (r : GetRun) (keys : List CacheEngineKey) : Prop where
  counts : ∀ m ∈ r.peer.handled, Peer.SameCounts m.1 m.2
  buffers : (r.returned ++ r.released).Perm r.allocated
  hits : r.returned = r.allocated.take r.numHitChunks
  filled : ∀ i buffer : Nat, r.returned[i]? = some buffer → ∃ key ∈ keys[i]?, ∃ obj,
    r.peer.cache.hotCache.get? key = some obj ∧ r.peer.filled buffer = some obj

end GetRun

namespace P2PGet

variable (g : P2PGet)

/-- The call ends before the first buffer is allocated. -/
def AllocatesNothing : Prop :=
  g.targetPeerInitUrl = none ∨
    ∀ cumChunkLengths, g.cumChunkLengths = .ok cumChunkLengths →
      g.keys = [] ∨ g.allocateAt cumChunkLengths 0 ≠ .ok ()

/-- **When a call does no harm**: no buffer is allocated, or all of them are, there is a turn of the
loop, and no turn does harm. -/
def Harmless : Prop :=
  g.AllocatesNothing ∨
    (∀ cumChunkLengths, g.cumChunkLengths = .ok cumChunkLengths →
      ∀ idx < g.keys.length, g.allocateAt cumChunkLengths idx = .ok ()) ∧
    g.attempts ≠ [] ∧ HarmlessTurns g.keys g.attempts

variable {g}

variable {cumChunkLengths : List Int}

theorem allocateAll_of_ok (idxs memObjs : List Nat)
    (h : ∀ idx ∈ idxs, g.allocateAt cumChunkLengths idx = .ok ()) :
    g.allocateAll cumChunkLengths idxs memObjs = (memObjs ++ idxs, .ok ()) := by
  induction idxs generalizing memObjs with
  | nil => rw [List.append_nil]; rfl
  | cons idx idxs ih =>
    obtain ⟨hidx, hidxs⟩ := List.forall_mem_cons.mp h
    unfold allocateAll
    rw [hidx]
    dsimp only
    rw [ih _ hidxs, List.append_assoc, List.singleton_append]

/-- An allocation that raises leaves the buffers before it. -/
theorem allocateAll_of_not_ok (idxs memObjs : List Nat)
    (h : ¬ ∀ idx ∈ idxs, g.allocateAt cumChunkLengths idx = .ok ()) :
    ∃ memObjs' e, g.allocateAll cumChunkLengths idxs memObjs = (memObjs', .error e) ∧
      memObjs <+: memObjs' := by
  induction idxs generalizing memObjs with
  | nil => exact absurd (fun _ h => (nomatch h)) h
  | cons idx idxs ih =>
    unfold allocateAll
    cases hidx : g.allocateAt cumChunkLengths idx with
    | error e => exact ⟨memObjs, e, rfl, List.prefix_rfl⟩
    | ok =>
      have hidxs : ¬ ∀ idx ∈ idxs, g.allocateAt cumChunkLengths idx = .ok () := by
        intro hall
        exact h (List.forall_mem_cons.mpr ⟨hidx, hall⟩)
      obtain ⟨memObjs', e, heq, hpre⟩ := ih (memObjs ++ [idx]) hidxs
      exact ⟨memObjs', e, heq, (List.prefix_append _ _).trans hpre⟩

/-- A call that raises has lost the buffers it has allocated. -/
theorem accounted_raises_iff {e : P2PError} {memObjs : List Nat} : (raises e memObjs p).Accounted keys ↔
      (∀ m ∈ p.handled, Peer.SameCounts m.1 m.2) ∧ memObjs = [] := by
  constructor
  · intro h
    exact ⟨h.counts, List.nil_perm.mp h.buffers⟩
  · rintro ⟨hcounts, rfl⟩
    exact ⟨hcounts, List.Perm.refl _, rfl, fun i buffer h => (nomatch h)⟩

/-- The end of a call that has allocated a buffer for each key. -/
theorem accounted_finish_iff (hne : keys ≠ []) (r : LoopEnd × Peer) :
    (finish (List.range keys.length) r).Accounted keys ↔ LoopEnd.Accounted keys r := by
  obtain ⟨ended, p⟩ := r
  match ended with
  | .raised e =>
    refine (accounted_raises_iff.trans ?_)
    simp [hne, LoopEnd.not_accounted_raised]
  | .givenUp | .left (.error _) =>
    constructor
    · intro h
      exact ⟨h.counts, fun _ h => (nomatch h), fun _ h => (nomatch h)⟩
    · intro h
      exact ⟨h.counts, List.Perm.refl _, rfl, fun i buffer h => (nomatch h)⟩
  | .left (.numHitChunks m) =>
    refine Iff.trans ?_ LoopEnd.accounted_left.symm
    have hat (i buffer : Nat) : ((List.range keys.length).take m)[i]? = some buffer ↔
        i < m ∧ i < keys.length ∧ buffer = i := by
      rw [List.getElem?_take]
      by_cases hi : i < m
      · rw [if_pos hi, List.getElem?_eq_some_iff]
        simp [hi, eq_comm]
      · simp [hi]
    constructor
    · intro h
      refine ⟨h.counts, fun m' hm i hi key hkey => ?_⟩
      cases hm
      obtain ⟨hlt, -⟩ := List.getElem?_eq_some_iff.mp hkey
      obtain ⟨key', hkey', obj, hobj⟩ := h.filled i i ((hat i i).mpr ⟨hi, hlt, rfl⟩)
      rw [Option.mem_def.mp hkey] at hkey'
      cases hkey'
      exact ⟨obj, hobj⟩
    · rintro ⟨hcounts, hfilled⟩
      refine ⟨hcounts, ?_, rfl, ?_⟩
      · exact List.Perm.of_eq (List.take_append_drop _ _)
      · intro i buffer h
        obtain ⟨hi, hlt, rfl⟩ := (hat i buffer).mp h
        have hkey := List.getElem?_eq_getElem hlt
        obtain ⟨obj, hobj⟩ := hfilled m rfl _ hi _ hkey
        exact ⟨_, hkey, obj, hobj⟩

/-- The loop of a call, before its first turn. -/
theorem accounted_loop_iff (g : P2PGet) (url : String) :
    LoopEnd.Accounted g.keys (tries url g.keys g.attempts none g.peer) ↔
      g.attempts ≠ [] ∧ HarmlessTurns g.keys g.attempts := by
  by_cases hne : g.attempts = []
  · rw [hne]
    exact iff_of_false LoopEnd.not_accounted_raised fun h => h.1 rfl
  · have hpeer : g.peer.Counts g.cache.memory.objs.length := ⟨_, _, g.counted.hasCounts⟩
    have hnone : ∀ m ∈ g.peer.handled, Peer.SameCounts m.1 m.2 := fun _ h => (nomatch h)
    rw [accounted_tries_iff url g.keys g.attempts g.stored (fun h => absurd h hne) hpeer,
      and_iff_right hnone, and_iff_right hne]

/-- When the first buffer is allocated, the others have to be, too. -/
theorem harmless_iff_of_first {k : Nat} (hurl : g.targetPeerInitUrl ≠ none)
    (hcum : g.cumChunkLengths = .ok cumChunkLengths) (hlength : g.keys.length = k + 1)
    (hfirst : g.allocateAt cumChunkLengths 0 = .ok ()) :
    g.Harmless ↔
      (∀ idx ∈ (List.range k).map Nat.succ, g.allocateAt cumChunkLengths idx = .ok ()) ∧
        g.attempts ≠ [] ∧ HarmlessTurns g.keys g.attempts := by
  have hsome : ¬ g.AllocatesNothing := by
    rintro (hnone | h)
    · exact hurl hnone
    · rcases h _ hcum with hnil | hne
      · rw [hnil] at hlength
        cases hlength
      · exact hne hfirst
  have hall : (∀ cum, g.cumChunkLengths = .ok cum →
        ∀ idx < g.keys.length, g.allocateAt cum idx = .ok ()) ↔
      ∀ idx ∈ (List.range k).map Nat.succ, g.allocateAt cumChunkLengths idx = .ok () := by
    rw [hcum, hlength]
    constructor
    · intro h idx hidx
      obtain ⟨i, hi, rfl⟩ := List.mem_map.mp hidx
      exact h _ rfl _ (Nat.succ_lt_succ (List.mem_range.mp hi))
    · intro h cum heq idx hidx
      cases heq
      cases idx with
      | zero => exact hfirst
      | succ i =>
        exact h _ (List.mem_map_of_mem (List.mem_range.mpr (Nat.lt_of_succ_lt_succ hidx)))
  unfold Harmless
  rw [or_iff_right hsome, hall]

/-- **A get from a peer accounts for everything** just when it does no harm. -/
theorem accounted_run_iff (g : P2PGet) : g.run.Accounted g.keys ↔ g.Harmless := by
  have hnone : ∀ m ∈ g.peer.handled, Peer.SameCounts m.1 m.2 := fun _ h => (nomatch h)
  have hnothing {e : P2PError} (h : g.AllocatesNothing) :
      (raises e [] g.peer).Accounted g.keys ↔ g.Harmless :=
    ⟨fun _ => .inl h, fun _ => accounted_raises_iff.mpr ⟨hnone, rfl⟩⟩
  unfold run
  cases hurl : g.targetPeerInitUrl with
  | none => exact hnothing (.inl hurl)
  | some url =>
    cases hcum : g.cumChunkLengths with
    | error e =>
      refine hnothing (.inr fun cum h => ?_)
      rw [hcum] at h
      cases h
    | ok cum =>
      have hnothing_of (h : g.keys = [] ∨ g.allocateAt cum 0 ≠ .ok ()) : g.AllocatesNothing := by
        refine .inr fun cum' heq => ?_
        rw [hcum] at heq
        cases heq
        exact h
      dsimp only
      match hlength : g.keys.length with
      | 0 => exact hnothing (hnothing_of (.inl (List.length_eq_zero_iff.mp hlength)))
      | k + 1 =>
        have hkeys : g.keys ≠ [] := List.ne_nil_of_length_eq_add_one hlength
        rw [List.range_succ_eq_map]
        unfold allocateAll
        match hfirst : g.allocateAt cum 0 with
        | .error e =>
          refine hnothing (hnothing_of (.inr ?_))
          rw [hfirst]
          exact fun h => (nomatch h)
        | .ok () =>
          rw [harmless_iff_of_first (hurl ▸ Option.some_ne_none url) hcum hlength hfirst]
          dsimp only
          by_cases hall : ∀ idx ∈ (List.range k).map Nat.succ, g.allocateAt cum idx = .ok ()
          · have hbuffers : [] ++ [0] ++ (List.range k).map Nat.succ =
                List.range g.keys.length := by
              rw [hlength, List.range_succ_eq_map]
              rfl
            have hne : List.range g.keys.length ≠ [] := by simp [hkeys]
            rw [allocateAll_of_ok _ _ hall, hbuffers]
            dsimp only
            rw [if_neg hne, accounted_finish_iff hkeys, accounted_loop_iff, and_iff_right hall]
          · obtain ⟨memObjs, e, heq, hpre⟩ := allocateAll_of_not_ok _ ([] ++ [0]) hall
            rw [heq]
            refine accounted_raises_iff.trans (iff_of_false ?_ fun h => hall h.1)
            rintro ⟨-, rfl⟩
            cases List.prefix_nil.mp hpre

/-! ## Two calls that lose something, and one that does not -/

def exampleKey : CacheEngineKey := .plainKey .float16 none

/-- The peer holds one object. -/
def oneObject : HotCache where
  hotCache := .empty
  keysInRequest := []
  memory := { ObjectPool.init (.init 0) with
    objs := [.init ⟨0, 8⟩ [4] .float16 0 8 .KV_2LTD [] []] }

/-- One key is asked for, in one turn. -/
def oneTurn (a : Attempt) (h : ∀ s ∈ a.servings, s.Stored 1) : P2PGet where
  lookupId := "lookup"
  targetPeerInitUrl := some "peer"
  cumChunkLengths := .ok [0, 256]
  saveUnfullChunk := false
  keys := [exampleKey]
  allocate := fun _ _ => .ok ()
  attempts := [a]
  cache := oneObject
  counted := by decide
  stored := List.forall_mem_singleton.mpr h

/-- The socket fails, and so does the reconnect. -/
def unreachable : Attempt := ⟨true, .failed [] .zmqError, .ok (), .error .zmqError⟩

/-- The key is removed between the lookup and the fetch. -/
def removed : Attempt :=
  ⟨true, .answered ⟨true, Dict.empty.set exampleKey 0, .empty, .done⟩, .ok (), .ok ()⟩

/-- The key is there all the time. -/
def served : Attempt :=
  ⟨true, .answered ⟨true, Dict.empty.set exampleKey 0, Dict.empty.set exampleKey 0, .done⟩,
    .ok (), .ok ()⟩

example : (oneTurn served (by decide)).run.ended = .ok [0] := by decide +kernel

/-- **A buffer that is lost, and a pin.**  The reconnect raises out of the handler past the cleanup;
and the `finally` of the peer passes over an object that was pinned and never fetched. -/
theorem not_accounted_oneTurn :
    ¬ (oneTurn unreachable (by decide)).run.Accounted (oneTurn unreachable (by decide)).keys ∧
      ¬ (oneTurn removed (by decide)).run.Accounted (oneTurn removed (by decide)).keys := by
  constructor
  · intro h
    have hlength := h.buffers.length_eq
    revert hlength
    decide +kernel
  · intro h
    have hpins : ∀ m ∈ (oneTurn removed (by decide)).run.peer.handled,
        m.2.pinCounts 0 = m.1.pinCounts 0 := fun m hm => congrFun (h.counts m hm).2 0
    revert hpins
    decide +kernel

end P2PGet

end LMCache.Storage
