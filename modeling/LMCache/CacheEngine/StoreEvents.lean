/-
# LMCache.CacheEngine.StoreEvents — what a store tells of the chunks it has stored.

Source: `store` and `store_layer` of `v1/cache_engine.py`, and `convert_tokens_to_list` of
`utils.py`.

Both walk over the chunks that the token database yields, allocate memory for each, and stop at the
first that gets none; `store_layer` passes over those that are there already.  For each chunk that
is stored an event is queued, with the hash of the chunk, its parent and its tokens, from which the
consumer builds a tree of prefixes.

Two things are wrong with the events.  The end of the slice of tokens is taken for inclusive, so
that every chunk but the last of the tokens has one token too many.  And the parent is the chunk
that was stored before in the same call, or 0, whichever chunk precedes in the tokens: a chunk
behind a masked or a present one gets the wrong parent.
-/
import LMCache.Lib.Scatter
import LMCache.ChunkedTokenDatabase

namespace LMCache

open LMCache.Lib

/-! ## The walk of a store -/

/-- The fields of the engine that a store reads. -/
structure StoringEngine where
  tokenDatabase : TokenDatabase
  numLayers : Nat
  /-- A model has a layer. -/
  numLayers_pos : 0 < numLayers
  kvEventsEnabled : Bool
  isHealthy : Bool
  hasGpuConnector : Bool
  isPassive : Bool
  isFrozen : Bool

/-- What becomes of a chunk that the walk comes to. -/
inductive ChunkOutcome (α : Type) where
  /-- Its first layer is there; `store` does not look. -/
  | present
  | unallocated
  | allocated (objs : α)

structure CacheStoreEvent where
  blockHashes : List Int
  parentBlockHash : Option Int
  tokenIds : List Int
  blockSize : Nat
  deriving DecidableEq, Repr

/-- `convert_tokens_to_list`. -/
def convertTokensToList (tokens : Option (List Int)) (tokenStart tokenEnd : Nat) : List Int :=
  match tokens with
  | none => []
  | some tokens => slice tokens tokenStart (tokenEnd + 1)

/-- The `token_ids` of an event: from the tokens, or else from the hashes. -/
def eventTokenIds (i : TokenInput) (start stop : Nat) : List Int :=
  match i.tokens, i.hashes with
  | some tokens, _ => convertTokensToList tokens start stop
  | none, some hashes => slice hashes start (stop + 1)
  | none, none => []

/-- What a walk has gathered: the chunks with their memory objects, and the events, for the
statement only each with its chunk. -/
structure StoreWalk (α : Type) where
  prevKey : Int
  stored : List (ChunkInfo × α)
  kvEvents : List (ChunkInfo × CacheStoreEvent)

namespace StoreWalk

variable {α : Type}

def init : StoreWalk α := ⟨0, [], []⟩

/-- The body of the loop for a chunk that has got memory. -/
def keep (kvEventsEnabled : Bool) (i : TokenInput) (w : StoreWalk α) (info : ChunkInfo) (objs : α) :
    StoreWalk α :=
  if kvEventsEnabled then
    { prevKey := info.key.chunkHash
      stored := w.stored ++ [(info, objs)]
      kvEvents := w.kvEvents ++ [(info,
        { blockHashes := [info.key.chunkHash]
          parentBlockHash := if info.start = 0 then none else some w.prevKey
          tokenIds := eventTokenIds i info.start info.stop
          blockSize := info.stop - info.start })] }
  else { w with stored := w.stored ++ [(info, objs)] }

/-- The loop, with what becomes of the first chunk, the second and so on. -/
def walk (kvEventsEnabled : Bool) (i : TokenInput) (w : StoreWalk α)
    (outcome : Nat → ChunkOutcome α) : List ChunkInfo → StoreWalk α
  | [] => w
  | info :: infos =>
    match outcome 0 with
    -- `prev_key` is not set, so that the next event gets the parent of this chunk
    | .present => walk kvEventsEnabled i w (fun n => outcome (n + 1)) infos
    | .unallocated => w
    | .allocated objs =>
      walk kvEventsEnabled i (keep kvEventsEnabled i w info objs) (fun n => outcome (n + 1)) infos

end StoreWalk

namespace StoringEngine

variable {α : Type}

/-- What becomes of a chunk in `store`. -/
def allocateOutcome (allocate : Nat → Option α) (n : Nat) : ChunkOutcome α :=
  match allocate n with
  | none => .unallocated
  | some obj => .allocated obj

/-- The walk of `store`.  An exception of the token database, or of an assertion before the loop,
ends the call, and the events that are queued stay. -/
def store (e : StoringEngine) (i : TokenInput) (requestConfigs : RequestConfigs)
    (allocate : Nat → Option α) : StoreWalk α :=
  if !e.isHealthy || !e.hasGpuConnector || e.isPassive || e.isFrozen then .init
  else
    StoreWalk.init.walk e.kvEventsEnabled i (allocateOutcome allocate)
      (e.tokenDatabase.processTokens i requestConfigs).yields

/-- The walk of `store_layer`, in the first step of the generator. -/
def storeLayer (e : StoringEngine) (tokens : List Int) (mask : Option (List Bool))
    (requestConfigs : RequestConfigs) (outcome : Nat → ChunkOutcome α) : StoreWalk α :=
  if !e.isHealthy || !e.hasGpuConnector || e.isFrozen then .init
  else
    StoreWalk.init.walk e.kvEventsEnabled (.ofTokens tokens mask) outcome
      (e.tokenDatabase.processTokens (.ofTokens tokens mask) requestConfigs).yields

/-- The chunks of the whole sequence, whatever the mask. -/
def sequence (e : StoringEngine) (i : TokenInput) (requestConfigs : RequestConfigs) :
    List ChunkInfo :=
  (e.tokenDatabase.processTokens { i with mask := none } requestConfigs).yields

end StoringEngine

/-! ## What an event should say -/

/-- The hash of the chunk in front of another. -/
def hashBefore (sequence : List ChunkInfo) (info : ChunkInfo) : Option Int :=
  (sequence.takeWhile (· ≠ info)).getLast?.map fun before => before.key.chunkHash

/-- The event describes the chunk.  A store that is given hashes has no tokens to tell. -/
structure CacheStoreEvent.Describes (i : TokenInput) (sequence : List ChunkInfo) (info : ChunkInfo)
    (event : CacheStoreEvent) : Prop where
  blockHashes : event.blockHashes = [info.key.chunkHash]
  blockSize : event.blockSize = info.stop - info.start
  tokenIds : ∀ tokens ∈ i.tokens, event.tokenIds = slice tokens info.start info.stop ∧
    event.tokenIds.length = event.blockSize
  parent : event.parentBlockHash = hashBefore sequence info

/-- The chunk ends where the tokens do; an empty one may also lie behind them. -/
def EndsTokens (i : TokenInput) (info : ChunkInfo) : Prop :=
  ∀ tokens ∈ i.tokens, info.stop = tokens.length ∨
    (tokens.length < info.stop ∧ info.start = info.stop)

/-- The chunks that are stored, with the hash that is carried to the first of them: each ends the
tokens, and the carried hash is that of the chunk in front, which only the chunk at 0 has not. -/
def TreeFits (i : TokenInput) (sequence : List ChunkInfo) : Int → List ChunkInfo → Prop
  | _, [] => True
  | prevKey, info :: infos =>
    EndsTokens i info ∧
      hashBefore sequence info = (if info.start = 0 then none else some prevKey) ∧
      TreeFits i sequence info.key.chunkHash infos

/-! ## The tokens of an event -/

/-- A slice that ends one later is the same just at the end of the list. -/
theorem slice_succ_iff {tokens : List Int} {start stop : Nat} (h : start ≤ stop) :
    slice tokens start (stop + 1) = slice tokens start stop ∧
      (slice tokens start (stop + 1)).length = stop - start ↔
    stop = tokens.length ∨ (tokens.length < stop ∧ start = stop) := by
  have hlength := length_slice tokens start (stop + 1)
  constructor
  · -- one token more, if there is one
    rintro ⟨-, hsize⟩
    omega
  · intro hend
    have htake : tokens.take (stop + 1) = tokens.take stop := by
      rw [List.take_of_length_le (by omega), List.take_of_length_le (by omega)]
    refine ⟨?_, by omega⟩
    unfold slice
    rw [htake]

/-- The tokens of an event are those of its chunk just when the chunk ends the tokens. -/
theorem eventTokenIds_iff {i : TokenInput} {info : ChunkInfo} (h : info.start ≤ info.stop) :
    (∀ tokens ∈ i.tokens, eventTokenIds i info.start info.stop = slice tokens info.start info.stop ∧
      (eventTokenIds i info.start info.stop).length = info.stop - info.start) ↔
    EndsTokens i info := by
  unfold EndsTokens eventTokenIds convertTokensToList
  cases i.tokens with
  | none => simp
  | some tokens => simpa using slice_succ_iff h

/-! ## The events of a walk -/

section Walk

variable {α : Type} {i : TokenInput} {sequence : List ChunkInfo}

/-- Without events nothing is queued. -/
theorem walk_kvEvents_of_disabled (w : StoreWalk α) (outcome : Nat → ChunkOutcome α)
    (infos : List ChunkInfo) : (w.walk false i outcome infos).kvEvents = w.kvEvents := by
  induction infos generalizing w outcome with
  | nil => rfl
  | cons info infos ih =>
    unfold StoreWalk.walk
    cases outcome 0 with
    | present => exact ih w _
    | unallocated => rfl
    | allocated objs => exact ih _ _

/-- The chunks that a walk stores, each with its memory objects. -/
def takenChunks (outcome : Nat → ChunkOutcome α) : List ChunkInfo → List (ChunkInfo × α)
  | [] => []
  | info :: infos =>
    match outcome 0 with
    | .present => takenChunks (fun n => outcome (n + 1)) infos
    | .unallocated => []
    | .allocated objs => (info, objs) :: takenChunks (fun n => outcome (n + 1)) infos

theorem stored_walk (kvEventsEnabled : Bool) (w : StoreWalk α) (outcome : Nat → ChunkOutcome α)
    (infos : List ChunkInfo) :
    (w.walk kvEventsEnabled i outcome infos).stored = w.stored ++ takenChunks outcome infos := by
  induction infos generalizing w outcome with
  | nil => exact (List.append_nil _).symm
  | cons info infos ih =>
    unfold StoreWalk.walk takenChunks
    cases outcome 0 with
    | present => exact ih w _
    | unallocated => exact (List.append_nil _).symm
    | allocated objs =>
      have hkeep : (w.keep kvEventsEnabled i info objs).stored = w.stored ++ [(info, objs)] := by
        unfold StoreWalk.keep
        split <;> rfl
      refine (ih _ _).trans ?_
      rw [hkeep, List.append_assoc, List.singleton_append]

/-- **The events of a walk** describe their chunks exactly when the chunks it stores fit. -/
theorem describes_walk_iff (w : StoreWalk α) (outcome : Nat → ChunkOutcome α)
    {infos : List ChunkInfo} (h : ∀ info ∈ infos, info.start ≤ info.stop) :
    (∀ p ∈ (w.walk true i outcome infos).kvEvents, p.2.Describes i sequence p.1) ↔
      (∀ p ∈ w.kvEvents, p.2.Describes i sequence p.1) ∧
        TreeFits i sequence w.prevKey ((takenChunks outcome infos).map Prod.fst) := by
  induction infos generalizing w outcome with
  | nil => exact (and_iff_left trivial).symm
  | cons info infos ih =>
    obtain ⟨hle, hrest⟩ := List.forall_mem_cons.mp h
    unfold StoreWalk.walk takenChunks
    cases outcome 0 with
    | present => exact ih w _ hrest
    | unallocated => exact (and_iff_left trivial).symm
    | allocated objs =>
      refine (ih _ _ hrest).trans ?_
      have hkeep : w.keep true i info objs =
        { prevKey := info.key.chunkHash
          stored := w.stored ++ [(info, objs)]
          kvEvents := w.kvEvents ++ [(info,
            { blockHashes := [info.key.chunkHash]
              parentBlockHash := if info.start = 0 then none else some w.prevKey
              tokenIds := eventTokenIds i info.start info.stop
              blockSize := info.stop - info.start })] } := rfl
      rw [hkeep, List.forall_mem_append, List.forall_mem_singleton, and_assoc]
      refine and_congr_right fun _ => ?_
      -- hash and size are right in any case; the tokens and the parent are what is left
      rw [List.map_cons, TreeFits, ← eventTokenIds_iff hle, ← and_assoc]
      refine and_congr_left fun _ => ?_
      constructor
      · exact fun hdescribes => ⟨hdescribes.tokenIds, hdescribes.parent.symm⟩
      · exact fun hboth => ⟨rfl, rfl, hboth.1, hboth.2.symm⟩

end Walk

/-! ## The two methods -/

variable (e : StoringEngine)

/-- The chunks of any input do not end before they start. -/
theorem StoringEngine.start_le_stop (i : TokenInput) (requestConfigs : RequestConfigs) :
    ∀ info ∈ (e.tokenDatabase.processTokens i requestConfigs).yields, info.start ≤ info.stop :=
  fun info hinfo => (e.tokenDatabase.inOrder_processTokens i requestConfigs).start_le_stop
    (info.start, info.stop) (List.mem_map_of_mem hinfo)

/-- A walk of the engine over the chunks of an input. -/
theorem StoringEngine.describes_iff {α : Type} (i : TokenInput) (requestConfigs : RequestConfigs)
    (sequence : List ChunkInfo) (outcome : Nat → ChunkOutcome α) :
    (∀ p ∈ (StoreWalk.init.walk e.kvEventsEnabled i outcome
        (e.tokenDatabase.processTokens i requestConfigs).yields).kvEvents,
      p.2.Describes i sequence p.1) ↔
    (e.kvEventsEnabled → TreeFits i sequence 0 ((takenChunks outcome
        (e.tokenDatabase.processTokens i requestConfigs).yields).map Prod.fst)) := by
  cases e.kvEventsEnabled with
  | false =>
    rw [walk_kvEvents_of_disabled]
    exact iff_of_true (fun p hp => absurd hp List.not_mem_nil) (fun h => nomatch h)
  | true =>
    rw [describes_walk_iff _ _ (e.start_le_stop i requestConfigs)]
    refine Iff.trans (and_iff_right fun p hp => absurd hp List.not_mem_nil) ?_
    exact ⟨fun h _ => h, fun h => h rfl⟩

/-- The same of a method that may leave before its loop. -/
theorem StoringEngine.describes_unless_iff {α : Type} (i : TokenInput)
    (requestConfigs : RequestConfigs) (sequence : List ChunkInfo) (outcome : Nat → ChunkOutcome α)
    (leaves : Bool) :
    (∀ p ∈ (if leaves then StoreWalk.init else StoreWalk.init.walk e.kvEventsEnabled i outcome
        (e.tokenDatabase.processTokens i requestConfigs).yields).kvEvents,
      p.2.Describes i sequence p.1) ↔
    (e.kvEventsEnabled ∧ leaves = false → TreeFits i sequence 0 ((takenChunks outcome
        (e.tokenDatabase.processTokens i requestConfigs).yields).map Prod.fst)) := by
  cases leaves with
  | true =>
    exact iff_of_true (fun p hp => absurd hp List.not_mem_nil) (fun h => nomatch h.2)
  | false =>
    refine (e.describes_iff i requestConfigs sequence outcome).trans ?_
    rw [and_iff_left rfl]

/-- `store` comes to its loop, and events are on. -/
def StoringEngine.TellsStore (e : StoringEngine) : Prop :=
  e.kvEventsEnabled ∧ e.isHealthy ∧ e.hasGpuConnector ∧ e.isPassive = false ∧ e.isFrozen = false

/-- `store_layer` comes to its loop, and events are on. -/
def StoringEngine.TellsStoreLayer (e : StoringEngine) : Prop :=
  e.kvEventsEnabled ∧ e.isHealthy ∧ e.hasGpuConnector ∧ e.isFrozen = false

/-- **Every store.**  The events describe their chunks exactly when none are told, or the chunks for
which there is room fit the tokens and each other, in `store` and in `store_layer`. -/
theorem StoringEngine.describes_kvEvents_iff (e : StoringEngine) {α β : Type} (i : TokenInput)
    (tokens : List Int) (mask : Option (List Bool)) (requestConfigs : RequestConfigs)
    (allocate : Nat → Option α) (outcome : Nat → ChunkOutcome β) :
    ((∀ p ∈ (e.store i requestConfigs allocate).kvEvents,
        p.2.Describes i (e.sequence i requestConfigs) p.1) ↔
      (e.TellsStore → TreeFits i (e.sequence i requestConfigs) 0
        ((takenChunks (allocateOutcome allocate)
          (e.tokenDatabase.processTokens i requestConfigs).yields).map Prod.fst))) ∧
    ((∀ p ∈ (e.storeLayer tokens mask requestConfigs outcome).kvEvents,
        p.2.Describes (.ofTokens tokens mask)
          (e.sequence (.ofTokens tokens mask) requestConfigs) p.1) ↔
      (e.TellsStoreLayer → TreeFits (.ofTokens tokens mask)
        (e.sequence (.ofTokens tokens mask) requestConfigs) 0
        ((takenChunks outcome (e.tokenDatabase.processTokens (.ofTokens tokens mask)
          requestConfigs).yields).map Prod.fst))) := by
  constructor
  · unfold store TellsStore
    rw [describes_unless_iff]
    simp [and_assoc]
  · unfold storeLayer TellsStoreLayer
    rw [describes_unless_iff]
    simp [and_assoc]

/-- Two chunks of two tokens are stored: the first event has three tokens. -/
theorem StoringEngine.not_describes_kvEvents :
    ¬∀ (e : StoringEngine) (i : TokenInput) (requestConfigs : RequestConfigs)
      (allocate : Nat → Option Unit), ∀ p ∈ (e.store i requestConfigs allocate).kvEvents,
        p.2.Describes i (e.sequence i requestConfigs) p.1 := by
  intro h
  let e : StoringEngine :=
    ⟨.chunked { ChunkedTokenDatabase.pairSums with metadata := some ⟨"model", 1, 0, .float16⟩ }, 1,
      Nat.one_pos, true, true, true, false, false⟩
  let i : TokenInput := .ofTokens [1, 2, 3, 4] none
  have hfirst : ∃ p ∈ (e.store i none fun _ => some ()).kvEvents,
      (p.1.start, p.1.stop) = (0, 2) ∧ p.2.tokenIds = [1, 2, 3] := by decide +kernel
  obtain ⟨p, hp, hrange, htokens⟩ := hfirst
  have hslice := ((h e i none (fun _ => some ()) p hp).tokenIds [1, 2, 3, 4] rfl).1
  rw [htokens, (Prod.mk.inj hrange).1, (Prod.mk.inj hrange).2] at hslice
  exact absurd hslice (by decide)

end LMCache
