/-
# LMCache.TokenDatabase — from tokens to the ranges and keys of their chunks.

Source: `v1/token_database.py`.  `ChunkedTokenDatabase` cuts the tokens into chunks of one size and
hashes each together with the hash of the chunks before it; `SegmentTokenDatabase` cuts them at a
separator and hashes each segment alone.  Both are generators and both leave out what the mask
excludes.  They can also be given hashes and lengths instead of tokens.

The hash function and the hash before the first chunk are parameters: they come from the serving
engine.  `make_key=False` gives `processHashes`, `make_key=True` gives `processTokens`.

What a caller may rely on, whichever database it has, is the order of the ranges (`InOrder`): no range
ends before it starts, and none starts before an earlier one has ended.
-/
import LMCache.CacheEngineKey

namespace LMCache

open LMCache.Memory

/-! ## What both databases share -/

/-- The request configurations, in the order of their dictionary. -/
abbrev RequestConfigs := Option (List (String × String))

/-- The fields of `LMCacheMetadata` that enter a key. -/
structure LMCacheMetadata where
  modelName : String
  worldSize : Nat
  workerId : Nat
  kvDtype : TorchDtype
  deriving DecidableEq, Repr

/-- The state of `TokenDatabase`.  `hashFunc` gets the hash of the chunks before, if any, and the
tokens; its third argument, the extra keys, is always `None`. -/
structure TokenDatabaseBase where
  hashFunc : Option Int → List Int → Int
  noneHash : Int
  metadata : Option LMCacheMetadata
  saveOnlyFirstRank : Bool

/-- `(start, end, hash)`. -/
structure HashedChunk where
  start : Nat
  stop : Nat
  chunkHash : Int
  deriving DecidableEq, Repr

/-- `(start, end, key)`. -/
structure ChunkInfo where
  key : CacheEngineKey
  start : Nat
  stop : Nat
  deriving DecidableEq, Repr

/-- What `process_tokens` is given. -/
structure TokenInput where
  tokens : Option (List Int)
  hashes : Option (List Int)
  offsets : Option (List Nat)
  mask : Option (List Bool)
  deriving DecidableEq, Repr

/-- `process_tokens(tokens=tokens, mask=mask)`. -/
def TokenInput.ofTokens (tokens : List Int) (mask : Option (List Bool)) : TokenInput :=
  ⟨some tokens, none, none, mask⟩

/-- `mask.numel() - mask.long().sum()`, and 0 without a mask. -/
def TokenInput.numFalses (i : TokenInput) : Nat :=
  match i.mask with
  | some mask => mask.length - mask.count true
  | none => 0

namespace TokenDatabaseBase

/-- `_hash_tokens`. -/
def hashTokens (db : TokenDatabaseBase) (tokens : List Int) (prefixHash : Option Int) : Int :=
  db.hashFunc prefixHash tokens

/-- `_make_key_by_hash`. -/
def makeKeyByHash (db : TokenDatabaseBase) (chunkHash : Int) (requestConfigs : RequestConfigs) :
    Except PyError CacheEngineKey :=
  match db.metadata with
  | none => .error (.assertionError "")
  | some m => .ok (.ofRequest m.modelName (if db.saveOnlyFirstRank then 1 else m.worldSize)
      m.workerId chunkHash m.kvDtype requestConfigs)

/-- A yield of `make_key=True` from the one of `make_key=False`. -/
def keyed (db : TokenDatabaseBase) (requestConfigs : RequestConfigs) (c : HashedChunk) :
    Except PyError ChunkInfo :=
  (db.makeKeyByHash c.chunkHash requestConfigs).map fun key => ⟨key, c.start, c.stop⟩

theorem range_of_keyed {db : TokenDatabaseBase} {requestConfigs : RequestConfigs} {c : HashedChunk}
    {info : ChunkInfo} (h : db.keyed requestConfigs c = .ok info) :
    (info.start, info.stop) = (c.start, c.stop) := by
  unfold keyed at h
  cases hk : db.makeKeyByHash c.chunkHash requestConfigs with
  | error e => rw [hk] at h; cases h
  | ok key => rw [hk] at h; cases h; rfl

end TokenDatabaseBase

/-- The branch of `process_tokens` that is given hashes: ranges of the given lengths, one behind the
other. -/
def offsetRanges : Nat → List Int → List Nat → List HashedChunk
  | start, hash :: hashes, offset :: offsets =>
    ⟨start, start + offset, hash⟩ :: offsetRanges (start + offset) hashes offsets
  | _, _, _ => []

/-- The part of `process_tokens` behind the test of `tokens`. -/
def processOffsets (i : TokenInput) : PyGen HashedChunk :=
  match i.hashes with
  | none => .raise (.valueError "Either tokens or hashes must be provided.")
  | some hashes =>
    match i.offsets with
    | none => .raise (.assertionError "If hashes are provided, offsets must also be provided.")
    | some offsets => .pure (offsetRanges 0 hashes offsets)

/-! ## Chunks of one size -/

structure ChunkedTokenDatabase extends TokenDatabaseBase where
  chunkSize : Nat
  saveUnfullChunk : Bool

namespace ChunkedTokenDatabase

/-- `_chunk_tokens`. -/
def chunkTokens (db : ChunkedTokenDatabase) (tokens : List Int) : List (List Int) :=
  let stop := if db.saveUnfullChunk then tokens.length
    else tokens.length - tokens.length % db.chunkSize
  (List.range ((stop + db.chunkSize - 1) / db.chunkSize)).map fun i =>
    (tokens.drop (i * db.chunkSize)).take db.chunkSize

/-- `_prefix_hash`, from a given hash on. -/
def prefixHashFrom (db : ChunkedTokenDatabase) : Int → List (List Int) → List Int
  | _, [] => []
  | prefixHash, chunk :: chunks =>
    let prefixHash := db.hashTokens chunk (some prefixHash)
    prefixHash :: prefixHashFrom db prefixHash chunks

def prefixHash (db : ChunkedTokenDatabase) (chunks : List (List Int)) : List Int :=
  db.prefixHashFrom db.noneHash chunks

/-- What the loop over the hashes yields for the chunk of one number, if anything. -/
def chunkOf (db : ChunkedTokenDatabase) (totalLen numFalses : Nat) (chunkId : Nat) (hash : Int) :
    Option HashedChunk :=
  let startIdx := chunkId * db.chunkSize
  let endIdx := min (startIdx + db.chunkSize) totalLen
  if startIdx < numFalses then none else some ⟨startIdx, endIdx, hash⟩

/-- `process_tokens(make_key=False)`. -/
def processHashes (db : ChunkedTokenDatabase) (i : TokenInput) : PyGen HashedChunk :=
  if db.chunkSize = 0 then .raise (.zeroDivisionError "integer modulo by zero")
  else if i.numFalses % db.chunkSize ≠ 0 then
    .raise (.valueError "The number of Falses in the mask is not a multiple of the chunk size.")
  else
    match i.tokens with
    | some tokens => .pure ((db.prefixHash (db.chunkTokens tokens)).zipIdx.filterMap fun (hash, n) =>
        db.chunkOf tokens.length i.numFalses n hash)
    | none => processOffsets i

end ChunkedTokenDatabase

/-! ## Segments between separators -/

structure SegmentTokenDatabase extends TokenDatabaseBase where
  sepTokens : List Int

namespace SegmentTokenDatabase

def sepLen (db : SegmentTokenDatabase) : Nat := db.sepTokens.length

/-- The places at which the separator stands in the tokens. -/
def sepMatches (db : SegmentTokenDatabase) (tokens : List Int) : List Nat :=
  (List.range (tokens.length - db.sepLen + 1)).filter fun i =>
    (tokens.drop i).take db.sepLen = db.sepTokens

/-- The loop over the matches, from `start` on. -/
def splitAtMatches (db : SegmentTokenDatabase) (tokens : List Int) : Nat → List Nat →
    List (List Int)
  | start, [] => [tokens.drop start]
  | start, idx :: idxs =>
    (tokens.take idx).drop start :: splitAtMatches db tokens (idx + db.sepLen) idxs

/-- The message of `tensor.unfold` when the window is longer than the tensor. -/
def unfoldMessage (size window : Nat) : String :=
  s!"maximum size for tensor at dimension 0 is {size} but size is {window}"

/-- `_fast_split_by_subtensor`.  The yield for short inputs is not followed by a return. -/
def fastSplitBySubtensor (db : SegmentTokenDatabase) (tokens : List Int) : PyGen (List Int) :=
  let whole := if db.sepLen = 0 ∨ tokens.length < db.sepLen then [tokens] else []
  if tokens.length < db.sepLen then
    ⟨whole, some (.runtimeError (unfoldMessage tokens.length db.sepLen))⟩
  else .pure (whole ++ db.splitAtMatches tokens 0 (db.sepMatches tokens))

/-- The ranges of the segments behind the first one: each starts one separator behind the end of the
one before. -/
def laterRanges (db : SegmentTokenDatabase) : Nat → List (List Int) → List HashedChunk
  | _, [] => []
  | startIdx, chunk :: chunks =>
    let startIdx := startIdx + db.sepLen
    let endIdx := startIdx + chunk.length
    ⟨startIdx, endIdx, db.hashTokens chunk none⟩ :: laterRanges db endIdx chunks

/-- The ranges of all segments. -/
def segmentRanges (db : SegmentTokenDatabase) : List (List Int) → List HashedChunk
  | [] => []
  | chunk :: chunks =>
    ⟨0, chunk.length, db.hashTokens chunk none⟩ :: db.laterRanges chunk.length chunks

/-- `process_tokens(make_key=False)`. -/
def processHashes (db : SegmentTokenDatabase) (i : TokenInput) : PyGen HashedChunk :=
  match i.tokens with
  | some tokens =>
    if i.numFalses < tokens.length then
      let split := db.fastSplitBySubtensor tokens
      ⟨(db.segmentRanges split.yields).filter fun c => i.numFalses ≤ c.start, split.raised⟩
    else .raise (.assertionError
      "The number of Falses in the mask shouldn't be less than the length of tokens.")
  | none => processOffsets i

end SegmentTokenDatabase

/-! ## Either database -/

inductive TokenDatabase where
  | chunked (db : ChunkedTokenDatabase)
  | segment (db : SegmentTokenDatabase)

namespace TokenDatabase

def base : TokenDatabase → TokenDatabaseBase
  | chunked db => db.toTokenDatabaseBase
  | segment db => db.toTokenDatabaseBase

/-- `process_tokens(make_key=False)`. -/
def processHashes (db : TokenDatabase) (i : TokenInput) : PyGen HashedChunk :=
  match db with
  | chunked db => db.processHashes i
  | segment db => db.processHashes i

/-- `process_tokens(make_key=True)`. -/
def processTokens (db : TokenDatabase) (i : TokenInput) (requestConfigs : RequestConfigs) :
    PyGen ChunkInfo :=
  (db.processHashes i).mapM (db.base.keyed requestConfigs)

end TokenDatabase

/-! ## The ranges come in order -/

/-- Ranges that do not end before they start, none of which starts before an earlier one ends. -/
structure InOrder (ranges : List (Nat × Nat)) : Prop where
  start_le_stop : ∀ r ∈ ranges, r.1 ≤ r.2
  stop_le_start : ranges.Pairwise fun r r' => r.2 ≤ r'.1

namespace InOrder

theorem nil : InOrder [] := ⟨by simp, List.Pairwise.nil⟩

theorem sublist {l l' : List (Nat × Nat)} (h : InOrder l) (hs : l'.Sublist l) : InOrder l' :=
  ⟨fun r hr => h.start_le_stop r (hs.subset hr), h.stop_le_start.sublist hs⟩

/-- A range in front of ranges that start no earlier than it ends. -/
theorem cons {a b : Nat} {l : List (Nat × Nat)} (hab : a ≤ b) (hl : ∀ r ∈ l, b ≤ r.1)
    (h : InOrder l) : InOrder ((a, b) :: l) :=
  ⟨by simpa [hab] using h.start_le_stop, List.pairwise_cons.mpr ⟨hl, h.stop_le_start⟩⟩

end InOrder

/-- The ranges of hashed chunks. -/
def hashedRanges (l : List HashedChunk) : List (Nat × Nat) := l.map fun c => (c.start, c.stop)

theorem hashedRanges_filter_sublist (l : List HashedChunk) (p : HashedChunk → Bool) :
    (hashedRanges (l.filter p)).Sublist (hashedRanges l) :=
  List.filter_sublist.map _

/-- Ranges of given lengths start where the first one does, or later. -/
theorem le_start_offsetRanges (start : Nat) (hashes : List Int) (offsets : List Nat) :
    ∀ r ∈ hashedRanges (offsetRanges start hashes offsets), start ≤ r.1 := by
  induction hashes generalizing start offsets with
  | nil => simp [offsetRanges, hashedRanges]
  | cons hash hashes ih =>
    cases offsets with
    | nil => simp [offsetRanges, hashedRanges]
    | cons offset offsets =>
      intro r hr
      rcases List.mem_cons.mp hr with rfl | hr
      · exact le_rfl
      · exact le_trans (Nat.le_add_right start offset) (ih (start + offset) offsets r hr)

theorem inOrder_offsetRanges (start : Nat) (hashes : List Int) (offsets : List Nat) :
    InOrder (hashedRanges (offsetRanges start hashes offsets)) := by
  induction hashes generalizing start offsets with
  | nil => exact InOrder.nil
  | cons hash hashes ih =>
    cases offsets with
    | nil => exact InOrder.nil
    | cons offset offsets =>
      exact InOrder.cons (Nat.le_add_right start offset)
        (le_start_offsetRanges (start + offset) hashes offsets) (ih (start + offset) offsets)

theorem inOrder_processOffsets (i : TokenInput) :
    InOrder (hashedRanges (processOffsets i).yields) := by
  unfold processOffsets
  cases i.hashes with
  | none => exact InOrder.nil
  | some hashes =>
    cases i.offsets with
    | none => exact InOrder.nil
    | some offsets => exact inOrder_offsetRanges 0 hashes offsets

namespace ChunkedTokenDatabase

variable (db : ChunkedTokenDatabase)

/-- There is one hash for each chunk. -/
theorem length_prefixHashFrom (h : Int) (chunks : List (List Int)) :
    (db.prefixHashFrom h chunks).length = chunks.length := by
  induction chunks generalizing h with
  | nil => rfl
  | cons chunk chunks ih => exact congrArg (· + 1) (ih _)

/-- Every chunk starts inside the tokens. -/
theorem start_le_of_mem_zipIdx {tokens : List Int} (hpos : db.chunkSize ≠ 0) {hash : Int} {n : Nat}
    (h : (hash, n) ∈ (db.prefixHash (db.chunkTokens tokens)).zipIdx) :
    n * db.chunkSize ≤ tokens.length := by
  have hn : n < (db.chunkTokens tokens).length := by
    have := (List.mem_zipIdx h).2.1
    rwa [Nat.zero_add, prefixHash, length_prefixHashFrom] at this
  unfold chunkTokens at hn
  rw [List.length_map, List.length_range] at hn
  have hlt := (Nat.lt_div_iff_mul_lt (Nat.pos_of_ne_zero hpos)).mp hn
  split at hlt <;> omega

/-- The chunks of increasing numbers have ranges in order. -/
theorem inOrder_chunkOf (total falses : Nat) (l : List (Int × Nat))
    (hl : l.Pairwise fun p q => p.2 < q.2) (hle : ∀ p ∈ l, p.2 * db.chunkSize ≤ total) :
    InOrder (hashedRanges (l.filterMap fun p => db.chunkOf total falses p.2 p.1)) := by
  induction l with
  | nil => exact InOrder.nil
  | cons p l ih =>
    rw [List.pairwise_cons] at hl
    rw [List.forall_mem_cons] at hle
    have ih := ih hl.2 hle.2
    by_cases hf : p.2 * db.chunkSize < falses
    · rw [List.filterMap_cons_none (by simp [chunkOf, hf])]
      exact ih
    · rw [List.filterMap_cons_some (b := ⟨p.2 * db.chunkSize,
        min (p.2 * db.chunkSize + db.chunkSize) total, p.1⟩) (by simp [chunkOf, hf])]
      refine InOrder.cons (Nat.le_min.mpr ⟨Nat.le_add_right _ _, hle.1⟩) ?_ ih
      -- a later chunk has a greater number, so it starts at the next multiple or behind it
      intro r hr
      obtain ⟨c, hc, rfl⟩ := List.mem_map.mp hr
      obtain ⟨q, hq, hqc⟩ := List.mem_filterMap.mp hc
      have hstart : c.start = q.2 * db.chunkSize := by
        unfold chunkOf at hqc
        dsimp only at hqc
        split at hqc
        · cases hqc
        · cases hqc; rfl
      have hnext : (p.2 + 1) * db.chunkSize ≤ q.2 * db.chunkSize :=
        Nat.mul_le_mul_right _ (hl.1 q hq)
      rw [Nat.succ_mul] at hnext
      show min (p.2 * db.chunkSize + db.chunkSize) total ≤ c.start
      omega

theorem inOrder_processHashes (i : TokenInput) :
    InOrder (hashedRanges (db.processHashes i).yields) := by
  unfold processHashes
  split
  · exact InOrder.nil
  · rename_i hpos
    split
    · exact InOrder.nil
    · cases i.tokens with
      | none => exact inOrder_processOffsets i
      | some tokens =>
        refine db.inOrder_chunkOf tokens.length i.numFalses _ ?_ fun p hp =>
          db.start_le_of_mem_zipIdx hpos hp
        rw [List.pairwise_iff_getElem]
        intro a b ha hb hab
        simpa only [List.getElem_zipIdx, Nat.zero_add] using hab

end ChunkedTokenDatabase

namespace SegmentTokenDatabase

variable (db : SegmentTokenDatabase)

theorem le_start_laterRanges (start : Nat) (chunks : List (List Int)) :
    ∀ r ∈ hashedRanges (db.laterRanges start chunks), start ≤ r.1 := by
  induction chunks generalizing start with
  | nil => simp [laterRanges, hashedRanges]
  | cons chunk chunks ih =>
    intro r hr
    rcases List.mem_cons.mp hr with rfl | hr
    · exact Nat.le_add_right start db.sepLen
    · have := ih _ r hr
      omega

theorem inOrder_laterRanges (start : Nat) (chunks : List (List Int)) :
    InOrder (hashedRanges (db.laterRanges start chunks)) := by
  induction chunks generalizing start with
  | nil => exact InOrder.nil
  | cons chunk chunks ih =>
    exact InOrder.cons (Nat.le_add_right _ _) (db.le_start_laterRanges _ chunks) (ih _)

theorem inOrder_segmentRanges (chunks : List (List Int)) :
    InOrder (hashedRanges (db.segmentRanges chunks)) := by
  cases chunks with
  | nil => exact InOrder.nil
  | cons chunk chunks =>
    exact InOrder.cons (Nat.zero_le _) (db.le_start_laterRanges _ chunks)
      (db.inOrder_laterRanges _ chunks)

theorem inOrder_processHashes (i : TokenInput) :
    InOrder (hashedRanges (db.processHashes i).yields) := by
  unfold processHashes
  cases i.tokens with
  | none => exact inOrder_processOffsets i
  | some tokens =>
    dsimp only
    split
    · exact (db.inOrder_segmentRanges _).sublist (hashedRanges_filter_sublist _ _)
    · exact InOrder.nil

end SegmentTokenDatabase

namespace TokenDatabase

theorem inOrder_processHashes (db : TokenDatabase) (i : TokenInput) :
    InOrder (hashedRanges (db.processHashes i).yields) := by
  cases db with
  | chunked db => exact db.inOrder_processHashes i
  | segment db => exact db.inOrder_processHashes i

/-- **The ranges of processed chunks come in order**, whatever the database, the tokens and the
mask. -/
theorem inOrder_processTokens (db : TokenDatabase) (i : TokenInput)
    (requestConfigs : RequestConfigs) :
    InOrder ((db.processTokens i requestConfigs).yields.map fun c => (c.start, c.stop)) :=
  (db.inOrder_processHashes i).sublist
    (PyGen.map_mapM_prefix (fun _ _ => TokenDatabaseBase.range_of_keyed) _).sublist

end TokenDatabase

end LMCache
