/-
# LMCache.ChunkedTokenDatabase — what chunks of one size are worth as keys.

`ChunkedTokenDatabase.process_tokens` in `v1/token_database.py` names a chunk by the hash of its tokens
on top of the hash of the chunk before it.  The store and the retrieval of a request never compare
tokens, so everything rests on four facts about what it yields: the ranges tile what the mask leaves;
a hash is a function of the tokens up to the end of its range; the mask only drops entries; and the
hashes with the lengths of the ranges can be handed on in place of the tokens.

The last is true of an output that starts at the first token.  The ranges of the hashes path start at
0 whatever the mask, so a masked output comes back moved down by the tokens that were masked.
-/
import LMCache.TokenDatabase

namespace LMCache

/-! ## Tiles -/

/-- Non-empty ranges, one behind the other, from `start` to `stop`. -/
def Tiles : Nat → Nat → List HashedChunk → Prop
  | start, stop, [] => start = stop
  | start, stop, c :: l => c.start = start ∧ c.start < c.stop ∧ Tiles c.stop stop l

/-- A chunk with its range moved down. -/
def HashedChunk.shiftDown (m : Nat) (c : HashedChunk) : HashedChunk :=
  ⟨c.start - m, c.stop - m, c.chunkHash⟩

@[simp] theorem HashedChunk.shiftDown_zero : HashedChunk.shiftDown 0 = id := rfl

/-- **The way back.**  Tiles are what the hashes path makes of their hashes and lengths, from the place
where the first one starts. -/
theorem Tiles.offsetRanges_eq {start stop m : Nat} {l : List HashedChunk} (h : Tiles start stop l)
    (hm : m ≤ start) :
    offsetRanges (start - m) (l.map HashedChunk.chunkHash) (l.map fun c => c.stop - c.start) =
      l.map (HashedChunk.shiftDown m) := by
  induction l generalizing start with
  | nil => rfl
  | cons c l ih =>
    obtain ⟨rfl, hlt, h⟩ := h
    have hstop : c.start - m + (c.stop - c.start) = c.stop - m := by omega
    rw [List.map_cons, List.map_cons, offsetRanges, hstop, ih h (by omega)]
    rfl

/-- Tiles end one behind the other. -/
theorem Tiles.stops {start stop : Nat} {l : List HashedChunk} (h : Tiles start stop l) :
    l.Pairwise fun c d => c.stop < d.stop := by
  have hbehind : ∀ {start stop : Nat} {l : List HashedChunk}, Tiles start stop l →
      ∀ c ∈ l, start < c.stop := by
    intro start stop l
    induction l generalizing start with
    | nil => exact fun _ c hc => absurd hc List.not_mem_nil
    | cons c l ih =>
      rintro ⟨rfl, hlt, h⟩ d hd
      rcases List.mem_cons.mp hd with rfl | hd
      · exact hlt
      · exact lt_trans hlt (ih h d hd)
  induction l generalizing start with
  | nil => exact List.Pairwise.nil
  | cons c l ih =>
    obtain ⟨-, -, h⟩ := h
    exact List.pairwise_cons.mpr ⟨hbehind h, ih h⟩

namespace ChunkedTokenDatabase

variable (db : ChunkedTokenDatabase)

/-! ## The chunks of the tokens -/

/-- The tokens behind the last chunk: `end` in `_chunk_tokens`. -/
def chunkEnd (tokens : List Int) : Nat :=
  if db.saveUnfullChunk then tokens.length else tokens.length - tokens.length % db.chunkSize

/-- The number of chunks. -/
def numChunks (tokens : List Int) : Nat := (db.chunkEnd tokens + db.chunkSize - 1) / db.chunkSize

/-- The tokens of the chunk of one number. -/
def chunkAt (tokens : List Int) (n : Nat) : List Int :=
  (tokens.drop (n * db.chunkSize)).take db.chunkSize

/-- The hash of the chunk of one number, on top of those before it. -/
def hashAt (tokens : List Int) (n : Nat) : Int :=
  ((List.range (n + 1)).map (db.chunkAt tokens)).foldl
    (fun prefixHash chunk => db.hashTokens chunk (some prefixHash)) db.noneHash

/-- What is yielded for the chunk of one number. -/
def hashedAt (tokens : List Int) (n : Nat) : HashedChunk :=
  ⟨n * db.chunkSize, min (n * db.chunkSize + db.chunkSize) tokens.length, db.hashAt tokens n⟩

theorem chunkTokens_eq (tokens : List Int) :
    db.chunkTokens tokens = (List.range (db.numChunks tokens)).map (db.chunkAt tokens) := rfl

variable {n : Nat} {tokens : List Int}

/-- A chunk starts in front of the end just when its number is one of theirs. -/
theorem lt_numChunks_iff (hpos : db.chunkSize ≠ 0) :
    n < db.numChunks tokens ↔ n * db.chunkSize < db.chunkEnd tokens := by
  unfold numChunks
  rw [Nat.lt_div_iff_mul_lt (Nat.pos_of_ne_zero hpos)]
  omega

/-- A chunk that is yielded ends where the chunks do, or where it is full. -/
theorem stop_hashedAt (hpos : db.chunkSize ≠ 0) (hn : n < db.numChunks tokens) :
    (db.hashedAt tokens n).stop =
      min (n * db.chunkSize + db.chunkSize) (db.chunkEnd tokens) := by
  rw [db.lt_numChunks_iff hpos] at hn
  show min (n * db.chunkSize + db.chunkSize) tokens.length = _
  unfold chunkEnd at hn ⊢
  split
  · rfl
  · -- without the unfull chunk the end is a multiple of the chunk size
    rename_i hfull
    rw [if_neg hfull] at hn
    obtain ⟨q, hq⟩ : db.chunkSize ∣ tokens.length - tokens.length % db.chunkSize :=
      Nat.dvd_sub_mod _
    have hle : (n + 1) * db.chunkSize ≤ tokens.length - tokens.length % db.chunkSize := by
      rw [hq, Nat.mul_comm n] at hn
      rw [hq, Nat.mul_comm]
      exact Nat.mul_le_mul_left _ (Nat.lt_of_mul_lt_mul_left hn)
    rw [Nat.succ_mul] at hle
    omega

/-! ## The hashes -/

/-- The running hash, chunk by chunk. -/
theorem prefixHashFrom_eq (h : Int) (chunks : List (List Int)) :
    db.prefixHashFrom h chunks = (List.range chunks.length).map fun n =>
      (chunks.take (n + 1)).foldl
        (fun prefixHash chunk => db.hashTokens chunk (some prefixHash)) h := by
  induction chunks generalizing h with
  | nil => rfl
  | cons chunk chunks ih =>
    rw [List.length_cons, List.range_succ_eq_map, List.map_cons, List.map_map]
    show db.hashTokens chunk (some h) :: db.prefixHashFrom _ chunks = _
    rw [ih]
    rfl

theorem prefixHash_chunkTokens (tokens : List Int) :
    db.prefixHash (db.chunkTokens tokens) =
      (List.range (db.numChunks tokens)).map (db.hashAt tokens) := by
  unfold prefixHash
  rw [prefixHashFrom_eq, chunkTokens_eq, List.length_map, List.length_range]
  refine List.map_congr_left fun n hn => ?_
  rw [List.mem_range] at hn
  rw [← List.map_take, List.take_range, Nat.min_eq_left hn]
  rfl

/-- **A hash is a function of the tokens up to the end of its range.** -/
theorem hashAt_congr {tokens' : List Int}
    (h : tokens.take (db.hashedAt tokens n).stop = tokens'.take (db.hashedAt tokens n).stop)
    (hstop : (db.hashedAt tokens' n).stop = (db.hashedAt tokens n).stop) :
    db.hashAt tokens n = db.hashAt tokens' n := by
  unfold hashAt
  congr 1
  refine List.map_congr_left fun k hk => ?_
  rw [List.mem_range, Nat.lt_succ_iff] at hk
  -- the chunk of an earlier number, cut out of the tokens up to the end of this one
  have hcut : ∀ ts : List Int, (db.hashedAt ts n).stop = (db.hashedAt tokens n).stop →
      db.chunkAt ts k = db.chunkAt (ts.take (db.hashedAt tokens n).stop) k := by
    intro ts hts
    have hmul : k * db.chunkSize ≤ n * db.chunkSize := Nat.mul_le_mul_right _ hk
    unfold chunkAt
    rw [List.drop_take, List.take_take, ← hts, List.take_eq_take_iff, List.length_drop]
    show _ = min (min db.chunkSize
      (min (n * db.chunkSize + db.chunkSize) ts.length - k * db.chunkSize)) _
    omega
  rw [hcut tokens rfl, h, ← hcut tokens' hstop]

/-- Sequences that agree on a full chunk and all before it have the same entry for it. -/
theorem hashedAt_congr {tokens' : List Int} {k : Nat} (hn : n < k)
    (hlen : k * db.chunkSize ≤ tokens.length) (hlen' : k * db.chunkSize ≤ tokens'.length)
    (h : tokens.take (k * db.chunkSize) = tokens'.take (k * db.chunkSize)) :
    db.hashedAt tokens n = db.hashedAt tokens' n := by
  have hnext : (n + 1) * db.chunkSize ≤ k * db.chunkSize := Nat.mul_le_mul_right _ hn
  rw [Nat.succ_mul] at hnext
  have hstop : ∀ ts : List Int, k * db.chunkSize ≤ ts.length →
      (db.hashedAt ts n).stop = n * db.chunkSize + db.chunkSize :=
    fun ts hts => Nat.min_eq_left (le_trans hnext hts)
  have hagree := congrArg (List.take (n * db.chunkSize + db.chunkSize)) h
  rw [List.take_take, List.take_take, Nat.min_eq_left hnext] at hagree
  have hhash : db.hashAt tokens n = db.hashAt tokens' n := by
    refine db.hashAt_congr ?_ ?_
    · rw [hstop tokens hlen]
      exact hagree
    · rw [hstop tokens hlen, hstop tokens' hlen']
  unfold hashedAt
  rw [hhash, Nat.min_eq_left (le_trans hnext hlen), Nat.min_eq_left (le_trans hnext hlen')]

/-! ## What is yielded -/

/-- The numbers from `q` on, among those below `n`. -/
theorem filterMap_range_of_le {α : Type} (f : Nat → α) (n q : Nat) :
    (List.range n).filterMap (fun i => if i < q then none else some (f i)) =
      (List.range' q (n - q)).map f := by
  rw [← List.take_append_drop q (List.range n), List.filterMap_append]
  have hnone : ((List.range n).take q).filterMap
      (fun i => if i < q then none else some (f i)) = [] := by
    refine List.filterMap_eq_nil_iff.mpr fun i hi => ?_
    rw [List.take_range, List.mem_range] at hi
    rw [if_pos (by omega)]
  rw [hnone, List.nil_append, List.range_eq_range', List.drop_range', Nat.mul_one, Nat.zero_add,
    ← List.filterMap_eq_map]
  refine List.filterMap_congr fun i hi => ?_
  rw [List.mem_range'_1] at hi
  rw [if_neg (by omega)]
  rfl

/-- **What `process_tokens` yields for tokens**: the chunks from the first one on that is not
masked. -/
theorem processHashes_tokens (hpos : db.chunkSize ≠ 0) (tokens : List Int)
    (mask : Option (List Bool)) {q : Nat}
    (hmask : (TokenInput.ofTokens tokens mask).numFalses = q * db.chunkSize) :
    db.processHashes (.ofTokens tokens mask) =
      .pure ((List.range' q (db.numChunks tokens - q)).map (db.hashedAt tokens)) := by
  unfold processHashes
  rw [if_neg hpos, hmask, Nat.mul_mod_left, if_neg (fun h => h rfl)]
  show PyGen.pure _ = _
  congr 1
  rw [prefixHash_chunkTokens]
  have hzip : ((List.range (db.numChunks tokens)).map (db.hashAt tokens)).zipIdx =
      (List.range (db.numChunks tokens)).map fun n => (db.hashAt tokens n, n) := by
    apply List.ext_getElem <;> simp
  rw [hzip, List.filterMap_map, ← filterMap_range_of_le]
  refine List.filterMap_congr fun n _ => ?_
  show (if n * db.chunkSize < q * db.chunkSize then none else some (db.hashedAt tokens n)) = _
  simp only [Nat.mul_lt_mul_right (Nat.pos_of_ne_zero hpos)]

/-- The chunks from one number on tile what the tokens in front of it leave. -/
theorem tiles_hashedAt (hpos : db.chunkSize ≠ 0) (tokens : List Int) (q k : Nat)
    (hk : k = db.numChunks tokens - q) :
    Tiles (q * db.chunkSize) (max (q * db.chunkSize) (db.chunkEnd tokens))
      ((List.range' q k).map (db.hashedAt tokens)) := by
  induction k generalizing q with
  | zero =>
    -- there is no chunk left, so the end is reached
    have hend : ¬ q * db.chunkSize < db.chunkEnd tokens := by
      rw [← db.lt_numChunks_iff hpos]
      omega
    exact (Nat.max_eq_left (Nat.le_of_not_lt hend)).symm
  | succ k ih =>
    have hq : q < db.numChunks tokens := by omega
    have hstart := (db.lt_numChunks_iff hpos).mp hq
    have ih := ih (q + 1) (by omega)
    rw [Nat.succ_mul] at ih
    refine ⟨rfl, ?_, ?_⟩
    · rw [db.stop_hashedAt hpos hq]
      show q * db.chunkSize < _
      omega
    · rw [db.stop_hashedAt hpos hq]
      by_cases hfull : q * db.chunkSize + db.chunkSize ≤ db.chunkEnd tokens
      · rw [Nat.min_eq_left hfull, Nat.max_eq_right (le_of_lt hstart)]
        rwa [Nat.max_eq_right hfull] at ih
      · -- the unfull chunk is the last one
        have hlast : k = 0 := by
          have : ¬ q + 1 < db.numChunks tokens := by
            rw [db.lt_numChunks_iff hpos, Nat.succ_mul]
            omega
          omega
        subst hlast
        show min _ _ = _
        omega

/-- Every chunk but the last is full; without the unfull chunk the last is, too. -/
theorem stop_hashedAt_of_full (hpos : db.chunkSize ≠ 0) (hn : n < db.numChunks tokens)
    (h : n + 1 < db.numChunks tokens ∨ db.saveUnfullChunk = false) :
    (db.hashedAt tokens n).stop = (db.hashedAt tokens n).start + db.chunkSize := by
  rw [db.stop_hashedAt hpos hn]
  show min _ _ = n * db.chunkSize + db.chunkSize
  rw [db.lt_numChunks_iff hpos] at hn
  rcases h with h | h
  · rw [db.lt_numChunks_iff hpos, Nat.succ_mul] at h
    omega
  · -- the end is a multiple of the chunk size, so the next multiple is not behind it
    unfold chunkEnd at hn ⊢
    rw [h] at hn ⊢
    have hdvd : db.chunkSize ∣ tokens.length - tokens.length % db.chunkSize := Nat.dvd_sub_mod _
    obtain ⟨q, hq⟩ := hdvd
    simp only [Bool.false_eq_true, if_false, hq, Nat.mul_comm n] at hn ⊢
    have hle := Nat.mul_le_mul_left db.chunkSize (Nat.lt_of_mul_lt_mul_left hn)
    rw [Nat.mul_succ] at hle
    omega

/-- Sequences have as many chunks as there are full ones, or one more. -/
theorem le_numChunks (hpos : db.chunkSize ≠ 0) {k : Nat} (h : k * db.chunkSize ≤ tokens.length) :
    k ≤ db.numChunks tokens := by
  have hend : k * db.chunkSize ≤ db.chunkEnd tokens := by
    unfold chunkEnd
    split
    · exact h
    · rw [← Nat.div_mul_self_eq_mod_sub_self]
      exact Nat.mul_le_mul_right _ ((Nat.le_div_iff_mul_le (Nat.pos_of_ne_zero hpos)).mpr h)
  unfold numChunks
  rw [Nat.le_div_iff_mul_le (Nat.pos_of_ne_zero hpos)]
  omega

/-- An output for tokens is their chunks from some number on. -/
theorem eq_of_processHashes (hpos : db.chunkSize ≠ 0) {mask : Option (List Bool)}
    {l : List HashedChunk} (h : db.processHashes (.ofTokens tokens mask) = .pure l) :
    ∃ q, (TokenInput.ofTokens tokens mask).numFalses = q * db.chunkSize ∧
      l = (List.range' q (db.numChunks tokens - q)).map (db.hashedAt tokens) := by
  by_cases hmask : (TokenInput.ofTokens tokens mask).numFalses % db.chunkSize = 0
  · obtain ⟨q, hq⟩ := Nat.dvd_of_mod_eq_zero hmask
    rw [Nat.mul_comm] at hq
    rw [db.processHashes_tokens hpos tokens mask hq] at h
    exact ⟨q, hq, (congrArg PyGen.yields h).symm⟩
  · unfold processHashes at h
    rw [if_neg hpos, if_pos hmask] at h
    cases h

/-! ## The law -/

/-- An output handed on in place of the tokens. -/
def handedOn (l : List HashedChunk) (mask : Option (List Bool)) : TokenInput :=
  ⟨none, some (l.map HashedChunk.chunkHash), some (l.map fun c => c.stop - c.start), mask⟩

/-- **The law of chunk hashing**, for what is yielded for some tokens under a mask. -/
structure PrefixLaw (tokens : List Int) (mask : Option (List Bool)) (l : List HashedChunk) :
    Prop where
  /-- The ranges tile what the mask leaves of the chunks. -/
  tiles : Tiles (TokenInput.ofTokens tokens mask).numFalses
    (max (TokenInput.ofTokens tokens mask).numFalses (db.chunkEnd tokens)) l
  full : ∀ c ∈ l.dropLast, c.stop = c.start + db.chunkSize
  length_le : ∀ c ∈ l, c.stop ≤ c.start + db.chunkSize
  all_full : db.saveUnfullChunk = false → ∀ c ∈ l, c.stop = c.start + db.chunkSize
  /-- Entries for one range have one hash, if the tokens up to its end are the same. -/
  determined : ∀ tokens' mask' l', db.processHashes (.ofTokens tokens' mask') = .pure l' →
    ∀ c ∈ l, ∀ c' ∈ l', c'.start = c.start → c'.stop = c.stop →
      tokens.take c.stop = tokens'.take c.stop → c.chunkHash = c'.chunkHash
  /-- Sequences that agree on their first full chunks have the same entries for them. -/
  agree : ∀ tokens' l' k, db.processHashes (.ofTokens tokens' mask) = .pure l' →
    k * db.chunkSize ≤ tokens.length → k * db.chunkSize ≤ tokens'.length →
      tokens.take (k * db.chunkSize) = tokens'.take (k * db.chunkSize) →
        l.take (k - (TokenInput.ofTokens tokens mask).numFalses / db.chunkSize) =
          l'.take (k - (TokenInput.ofTokens tokens mask).numFalses / db.chunkSize)
  /-- The mask drops the entries of the chunks it covers. -/
  masks : ∃ whole, db.processHashes (.ofTokens tokens none) = .pure whole ∧
    l = whole.drop ((TokenInput.ofTokens tokens mask).numFalses / db.chunkSize)
  /-- Handed on, the output comes back, moved down to start at 0. -/
  handedOn : ∀ mask', (TokenInput.ofTokens tokens mask').numFalses % db.chunkSize = 0 →
    db.processHashes (handedOn l mask') =
      .pure (l.map (HashedChunk.shiftDown (TokenInput.ofTokens tokens mask).numFalses))
  /-- In particular it comes back as it was, if nothing is masked. -/
  comesBack : (TokenInput.ofTokens tokens mask).numFalses = 0 →
    ∀ mask', (TokenInput.ofTokens tokens mask').numFalses % db.chunkSize = 0 →
      db.processHashes (ChunkedTokenDatabase.handedOn l mask') = .pure l

/-- **The law holds for all tokens and masks.** -/
theorem processHashes_prefixLaw (hpos : db.chunkSize ≠ 0) (tokens : List Int)
    (mask : Option (List Bool))
    (hmask : (TokenInput.ofTokens tokens mask).numFalses % db.chunkSize = 0) :
    ∃ l, db.processHashes (.ofTokens tokens mask) = .pure l ∧ db.PrefixLaw tokens mask l := by
  obtain ⟨q, hq⟩ := Nat.dvd_of_mod_eq_zero hmask
  rw [Nat.mul_comm] at hq
  have hdiv : (TokenInput.ofTokens tokens mask).numFalses / db.chunkSize = q := by
    rw [hq, Nat.mul_div_cancel _ (Nat.pos_of_ne_zero hpos)]
  have hrun := db.processHashes_tokens hpos tokens mask hq
  have htiles := db.tiles_hashedAt hpos tokens q _ rfl
  have hback : ∀ mask', (TokenInput.ofTokens tokens mask').numFalses % db.chunkSize = 0 →
      db.processHashes (handedOn ((List.range' q (db.numChunks tokens - q)).map
        (db.hashedAt tokens)) mask') = .pure (((List.range' q (db.numChunks tokens - q)).map
          (db.hashedAt tokens)).map (HashedChunk.shiftDown (q * db.chunkSize))) := by
    intro mask' hmask'
    have hfalses : (handedOn ((List.range' q (db.numChunks tokens - q)).map (db.hashedAt tokens))
      mask').numFalses % db.chunkSize = 0 := hmask'
    unfold processHashes
    rw [if_neg hpos, if_neg (fun h => h hfalses)]
    show PyGen.pure (offsetRanges 0 _ _) = _
    rw [← htiles.offsetRanges_eq le_rfl, Nat.sub_self]
  refine ⟨_, hrun, ?_⟩
  refine ⟨?_, ?_, ?_, ?_, ?_, ?_, ?_, ?_, ?_⟩
  · rw [hq]
    exact htiles
  · intro c hc
    rw [List.dropLast_eq_take, List.length_map, List.length_range', ← List.map_take,
      List.take_range'_of_length_ge (by omega)] at hc
    obtain ⟨n, hn, rfl⟩ := List.mem_map.mp hc
    rw [List.mem_range'_1] at hn
    exact db.stop_hashedAt_of_full hpos (by omega) (.inl (by omega))
  · intro c hc
    obtain ⟨n, -, rfl⟩ := List.mem_map.mp hc
    exact Nat.min_le_left _ _
  · intro hfull c hc
    obtain ⟨n, hn, rfl⟩ := List.mem_map.mp hc
    rw [List.mem_range'_1] at hn
    exact db.stop_hashedAt_of_full hpos (by omega) (.inr hfull)
  · intro tokens' mask' l' hrun' c hc c' hc' hstart hstop hagree
    obtain ⟨q', -, rfl⟩ := db.eq_of_processHashes hpos hrun'
    obtain ⟨n, -, rfl⟩ := List.mem_map.mp hc
    obtain ⟨n', -, rfl⟩ := List.mem_map.mp hc'
    have hn : n' = n := Nat.eq_of_mul_eq_mul_right (Nat.pos_of_ne_zero hpos) hstart
    subst hn
    exact db.hashAt_congr hagree hstop
  · intro tokens' l' k hrun' hlen hlen' hagree
    have hq' : (TokenInput.ofTokens tokens' mask).numFalses = q * db.chunkSize := hq
    obtain rfl : _ = l' :=
      congrArg PyGen.yields ((db.processHashes_tokens hpos tokens' mask hq').symm.trans hrun')
    have hk := db.le_numChunks hpos hlen
    have hk' := db.le_numChunks hpos hlen'
    rw [hdiv]
    -- both outputs have the first chunks, whatever follows them
    show List.take (k - q) (List.map _ _) = List.take (k - q) (List.map _ _)
    rw [← List.map_take, ← List.map_take, List.take_range'_of_length_ge (by omega),
      List.take_range'_of_length_ge (by omega)]
    refine List.map_congr_left fun n hn => ?_
    rw [List.mem_range'_1] at hn
    exact db.hashedAt_congr (by omega) hlen hlen' hagree
  · refine ⟨_, db.processHashes_tokens hpos tokens none (Nat.zero_mul _).symm, ?_⟩
    rw [hdiv, ← List.map_drop, List.drop_range', Nat.sub_zero, Nat.mul_one, Nat.zero_add]
  · rw [hq]
    exact hback
  · intro hnone
    rw [← hq, hnone, HashedChunk.shiftDown_zero, List.map_id] at hback
    exact hback

/-! ## A masked output handed on -/

/-- What is yielded for the tokens comes back as it is when it is handed on. -/
def ComesBack (tokens : List Int) (mask mask' : Option (List Bool)) : Prop :=
  ∀ l, db.processHashes (.ofTokens tokens mask) = .pure l →
    db.processHashes (handedOn l mask') = .pure l

/-- Chunks of two tokens, each hashed to its sum on top of the hash before it. -/
def pairSums : ChunkedTokenDatabase where
  hashFunc := fun prefixHash tokens => prefixHash.getD 0 + tokens.sum
  noneHash := 0
  metadata := none
  saveOnlyFirstRank := false
  chunkSize := 2
  saveUnfullChunk := true

/-- The law for the second of two chunks. -/
theorem prefixLaw_pairSums :
    ∃ l, pairSums.processHashes (.ofTokens [1, 1, 1, 1] (some [false, false, true, true])) = .pure l ∧
      pairSums.PrefixLaw [1, 1, 1, 1] (some [false, false, true, true]) l :=
  pairSums.processHashes_prefixLaw (by decide) _ _ (by decide)

/-- **A masked output does not come back as it was.**  The second of two chunks is handed on, without
the mask or with it, and comes back as the first. -/
theorem not_comesBack_masked :
    ¬ pairSums.ComesBack [1, 1, 1, 1] (some [false, false, true, true]) none ∧
      ¬ pairSums.ComesBack [1, 1, 1, 1] (some [false, false, true, true])
        (some [false, false, true, true]) := by
  have hrun : pairSums.processHashes (.ofTokens [1, 1, 1, 1] (some [false, false, true, true])) =
      .pure [⟨2, 4, 4⟩] := by decide +kernel
  constructor <;>
    · intro h
      have hback := h _ hrun
      revert hback
      decide +kernel

end ChunkedTokenDatabase

end LMCache
