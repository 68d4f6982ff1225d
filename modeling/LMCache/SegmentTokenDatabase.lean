/-
# LMCache.SegmentTokenDatabase — when the ranges of the segments hold the segments.

`SegmentTokenDatabase.process_tokens` in `v1/token_database.py` hashes the segments between separators
and derives their ranges from their lengths.  A range that does not hold its segment stores the KV data
of one segment under the hash of another.

`_fast_split_by_subtensor` takes every window that equals the separator for a separator.  Where two
such windows overlap, the segments with separators between them are longer than the tokens, and the
ranges behind the overlap come too late.  Tokens shorter than the separator are yielded, and then
`unfold` raises.  `faithful_iff_noOverlap` says that these are the only two ways to go wrong.
-/
import LMCache.TokenDatabase

namespace LMCache

/-- The tokens in the range of a chunk. -/
def tokensIn (tokens : List Int) (c : HashedChunk) : List Int :=
  (tokens.take c.stop).drop c.start

namespace SegmentTokenDatabase

variable (db : SegmentTokenDatabase)

/-! ## What is asked of the ranges -/

/-- The chunk holds the segment and is named by its hash. -/
def Holds (tokens segment : List Int) (c : HashedChunk) : Prop :=
  c.chunkHash = db.hashTokens segment none ∧ tokensIn tokens c = segment

/-- **Faithful**: nothing raises; each segment that was hashed stands in the range it is given, and the
ranges from the first one on that is not masked are yielded; and the segments, with separators between
them, are the tokens. -/
structure Faithful (tokens : List Int) (mask : Option (List Bool)) : Prop where
  raised : (db.processHashes (.ofTokens tokens mask)).raised = none
  holds : ∃ chunks, List.Forall₂ (db.Holds tokens) (db.fastSplitBySubtensor tokens).yields chunks ∧
    (db.processHashes (.ofTokens tokens mask)).yields =
      chunks.filter fun c => (TokenInput.ofTokens tokens mask).numFalses ≤ c.start
  joins : db.sepTokens.intercalate (db.fastSplitBySubtensor tokens).yields = tokens

/-- The separator stands at a place. -/
def SepAt (tokens : List Int) (i : Nat) : Prop := (tokens.drop i).take db.sepLen = db.sepTokens

/-- No two places of the separator overlap. -/
def NoOverlap (tokens : List Int) : Prop :=
  ∀ i j, db.SepAt tokens i → db.SepAt tokens j → i < j → i + db.sepLen ≤ j

/-- Places that come one separator behind each other, from `start` on. -/
def Fits (start : Nat) : List Nat → Prop
  | [] => True
  | i :: is => start ≤ i ∧ Fits (i + db.sepLen) is

/-! ## Ranges from lengths -/

/-- The ranges of segments, the first of which starts at a given place. -/
def rangesFrom (start : Nat) : List (List Int) → List HashedChunk
  | [] => []
  | chunk :: chunks =>
    ⟨start, start + chunk.length, db.hashTokens chunk none⟩ ::
      db.laterRanges (start + chunk.length) chunks

theorem laterRanges_eq (stop : Nat) (chunks : List (List Int)) :
    db.laterRanges stop chunks = db.rangesFrom (stop + db.sepLen) chunks := by
  cases chunks <;> rfl

theorem segmentRanges_eq (chunks : List (List Int)) :
    db.segmentRanges chunks = db.rangesFrom 0 chunks := by
  cases chunks with
  | nil => rfl
  | cons chunk chunks =>
    show _ = ⟨0, 0 + chunk.length, _⟩ :: db.laterRanges (0 + chunk.length) chunks
    rw [Nat.zero_add]
    rfl

variable {start : Nat} {tokens : List Int} {is : List Nat}

/-- **Segments that join to the tokens stand in their ranges.** -/
theorem holds_rangesFrom {chunks : List (List Int)}
    (h : db.sepTokens.intercalate chunks = tokens.drop start) :
    List.Forall₂ (db.Holds tokens) chunks (db.rangesFrom start chunks) := by
  induction chunks generalizing start with
  | nil => exact .nil
  | cons chunk chunks ih =>
    have hcut : ∀ rest, tokens.drop start = chunk ++ rest →
        db.Holds tokens chunk ⟨start, start + chunk.length, db.hashTokens chunk none⟩ := by
      intro rest hrest
      refine ⟨rfl, ?_⟩
      show (tokens.take (start + chunk.length)).drop start = chunk
      rw [List.drop_take, Nat.add_sub_cancel_left, hrest, List.take_left]
    cases chunks with
    | nil =>
      rw [List.intercalate_singleton] at h
      exact .cons (hcut [] (by rw [List.append_nil, h])) .nil
    | cons next chunks =>
      rw [List.intercalate_cons_cons, List.append_assoc] at h
      refine .cons (hcut _ h.symm) ?_
      -- behind the segment and a separator the other segments join to the rest
      rw [laterRanges_eq]
      refine ih ?_
      rw [← List.drop_drop, ← List.drop_drop, ← h, List.drop_left, sepLen, List.drop_left]

/-! ## The places of the separator -/

theorem add_sepLen_le_of_sepAt (hsep : db.sepTokens ≠ []) {i : Nat} (h : db.SepAt tokens i) :
    i + db.sepLen ≤ tokens.length := by
  have hlen := congrArg List.length h
  have hpos := List.length_pos_iff.mpr hsep
  rw [List.length_take, List.length_drop] at hlen
  unfold sepLen at hlen ⊢
  omega

theorem mem_sepMatches (hsep : db.sepTokens ≠ []) {i : Nat} :
    i ∈ db.sepMatches tokens ↔ db.SepAt tokens i := by
  unfold sepMatches
  rw [List.mem_filter, List.mem_range, decide_eq_true_iff]
  constructor
  · intro h
    exact h.2
  · intro h
    have := db.add_sepLen_le_of_sepAt hsep h
    exact ⟨by omega, h⟩

theorem fits_iff :
    db.Fits start is ↔ (∀ i ∈ is, start ≤ i) ∧ is.Pairwise fun i j => i + db.sepLen ≤ j := by
  induction is generalizing start with
  | nil => simp [Fits]
  | cons i is ih =>
    rw [Fits, ih, List.forall_mem_cons, List.pairwise_cons]
    constructor
    · rintro ⟨hi, hnext, hpair⟩
      refine ⟨⟨hi, fun j hj => ?_⟩, hnext, hpair⟩
      have := hnext j hj
      omega
    · rintro ⟨⟨hi, -⟩, hnext, hpair⟩
      exact ⟨hi, hnext, hpair⟩

theorem fits_sepMatches_iff (hsep : db.sepTokens ≠ []) (tokens : List Int) :
    db.Fits 0 (db.sepMatches tokens) ↔ db.NoOverlap tokens := by
  have hsorted : (db.sepMatches tokens).Pairwise (· < ·) := List.pairwise_lt_range.filter _
  rw [fits_iff]
  constructor
  · rintro ⟨-, hpair⟩ i j hi hj hij
    rw [← db.mem_sepMatches hsep] at hi hj
    rw [List.pairwise_iff_getElem] at hpair hsorted
    obtain ⟨a, ha, rfl⟩ := List.getElem_of_mem hi
    obtain ⟨b, hb, rfl⟩ := List.getElem_of_mem hj
    refine hpair a b ha hb ?_
    -- the places are sorted, so the smaller one comes first
    rcases Nat.lt_trichotomy a b with h | h | h
    · exact h
    · subst h
      exact absurd hij (Nat.lt_irrefl _)
    · exact absurd (hsorted b a hb ha h) (Nat.lt_asymm hij)
  · intro h
    refine ⟨fun i _ => Nat.zero_le i, hsorted.imp_of_mem fun hi hj hij => ?_⟩
    exact h _ _ ((db.mem_sepMatches hsep).mp hi) ((db.mem_sepMatches hsep).mp hj) hij

/-! ## The split -/

theorem splitAtMatches_ne_nil (tokens : List Int) (start : Nat) (is : List Nat) :
    db.splitAtMatches tokens start is ≠ [] := by
  cases is <;> exact List.cons_ne_nil _ _

/-- Places that fit are cut out, and the segments between them join to the tokens. -/
theorem joins_of_fits (hat : ∀ i ∈ is, db.SepAt tokens i) (h : db.Fits start is) :
    db.sepTokens.intercalate (db.splitAtMatches tokens start is) = tokens.drop start := by
  induction is generalizing start with
  | nil => exact List.intercalate_singleton
  | cons i is ih =>
    rw [List.forall_mem_cons] at hat
    have hsep : tokens.drop i = db.sepTokens ++ tokens.drop (i + db.sepLen) := by
      have hcut := (List.take_append_drop db.sepLen (tokens.drop i)).symm
      rwa [hat.1, List.drop_drop] at hcut
    rw [splitAtMatches, List.intercalate_cons_of_ne_nil (db.splitAtMatches_ne_nil _ _ _),
      ih hat.2 h.2, List.append_assoc, ← hsep, List.drop_take]
    -- the segment up to the place, and everything from it on
    have hrest : tokens.drop i = (tokens.drop start).drop (i - start) := by
      rw [List.drop_drop, Nat.add_sub_cancel' h.1]
    rw [hrest, List.take_append_drop]

/-- Segments join to at least the tokens, and to more of them unless the places fit. -/
theorem length_joined (hsep : db.sepTokens ≠ []) (hat : ∀ i ∈ is, db.SepAt tokens i) :
    tokens.length - start ≤
        (db.sepTokens.intercalate (db.splitAtMatches tokens start is)).length ∧
      (start ≤ tokens.length →
        (db.sepTokens.intercalate (db.splitAtMatches tokens start is)).length =
          tokens.length - start → db.Fits start is) := by
  induction is generalizing start with
  | nil =>
    rw [splitAtMatches, List.intercalate_singleton, List.length_drop]
    exact ⟨le_rfl, fun _ _ => trivial⟩
  | cons i is ih =>
    rw [List.forall_mem_cons] at hat
    obtain ⟨hle, hfits⟩ := @ih (i + db.sepLen) hat.2
    have hi := db.add_sepLen_le_of_sepAt hsep hat.1
    have hpos : 0 < db.sepLen := List.length_pos_iff.mpr hsep
    have hlen : (db.sepTokens.intercalate (db.splitAtMatches tokens start (i :: is))).length =
        (i - start) + db.sepLen + (db.sepTokens.intercalate
          (db.splitAtMatches tokens (i + db.sepLen) is)).length := by
      rw [splitAtMatches, List.intercalate_cons_of_ne_nil (db.splitAtMatches_ne_nil _ _ _),
        List.length_append, List.length_append, List.length_drop, List.length_take,
        Nat.min_eq_left (by omega)]
      rfl
    rw [hlen]
    refine ⟨by omega, fun hstart heq => ⟨by omega, hfits hi (by omega)⟩⟩

/-- **The segments join to the tokens just when no two places of the separator overlap.** -/
theorem joins_iff_noOverlap (hsep : db.sepTokens ≠ []) (tokens : List Int) :
    db.sepTokens.intercalate (db.splitAtMatches tokens 0 (db.sepMatches tokens)) = tokens ↔
      db.NoOverlap tokens := by
  have hat : ∀ i ∈ db.sepMatches tokens, db.SepAt tokens i :=
    fun i hi => (db.mem_sepMatches hsep).mp hi
  rw [← db.fits_sepMatches_iff hsep]
  constructor
  · intro h
    exact (db.length_joined hsep hat).2 (Nat.zero_le _) (congrArg List.length h)
  · intro h
    exact db.joins_of_fits hat h

/-! ## The database -/

/-- **The ranges are faithful exactly when the tokens are at least as long as the separator and no two
places of it overlap.**  Under a mask that leaves nothing the call is refused. -/
theorem faithful_iff_noOverlap (hsep : db.sepTokens ≠ []) (tokens : List Int)
    (mask : Option (List Bool)) :
    db.Faithful tokens mask ↔ (TokenInput.ofTokens tokens mask).numFalses < tokens.length ∧
      db.sepLen ≤ tokens.length ∧ db.NoOverlap tokens := by
  have hpos : db.sepLen ≠ 0 := Nat.pos_iff_ne_zero.mp (List.length_pos_iff.mpr hsep)
  by_cases hmask : (TokenInput.ofTokens tokens mask).numFalses < tokens.length
  · have hrun : db.processHashes (.ofTokens tokens mask) =
        ⟨(db.segmentRanges (db.fastSplitBySubtensor tokens).yields).filter fun c =>
          (TokenInput.ofTokens tokens mask).numFalses ≤ c.start,
          (db.fastSplitBySubtensor tokens).raised⟩ := by
      unfold processHashes
      exact if_pos hmask
    rw [and_iff_right hmask]
    by_cases hlen : tokens.length < db.sepLen
    · -- the tokens are yielded whole, and then the windows are asked for
      constructor
      · intro h
        have hraised := h.raised
        rw [hrun] at hraised
        unfold fastSplitBySubtensor at hraised
        dsimp only at hraised
        rw [if_pos hlen] at hraised
        cases hraised
      · rintro ⟨hle, -⟩
        exact absurd hlen (Nat.not_lt.mpr hle)
    · have hsplit : db.fastSplitBySubtensor tokens =
          .pure (db.splitAtMatches tokens 0 (db.sepMatches tokens)) := by
        unfold fastSplitBySubtensor
        rw [if_neg hlen, if_neg (not_or.mpr ⟨hpos, hlen⟩)]
        rfl
      rw [and_iff_right (Nat.le_of_not_lt hlen), ← db.joins_iff_noOverlap hsep]
      constructor
      · intro h
        have hjoins := h.joins
        rwa [hsplit] at hjoins
      · intro h
        refine ⟨?_, ⟨_, ?_, congrArg PyGen.yields hrun⟩, ?_⟩
        · rw [hrun, hsplit]
          rfl
        · rw [segmentRanges_eq]
          refine db.holds_rangesFrom ?_
          rw [hsplit]
          exact h
        · rw [hsplit]
          exact h
  · have hrun : db.processHashes (.ofTokens tokens mask) = .raise (.assertionError
        "The number of Falses in the mask shouldn't be less than the length of tokens.") := by
      unfold processHashes
      exact if_neg hmask
    constructor
    · intro h
      have hraised := h.raised
      rw [hrun] at hraised
      cases hraised
    · rintro ⟨h, -⟩
      exact absurd h hmask

/-- A database whose separator is two zeros. -/
def twoZeros : SegmentTokenDatabase where
  hashFunc := fun _ tokens => tokens.sum
  noneHash := 0
  metadata := none
  saveOnlyFirstRank := false
  sepTokens := [0, 0]

/-- Two separators side by side do not overlap. -/
theorem faithful_iff_noOverlap_adjacent :
    twoZeros.Faithful [1, 0, 0, 0, 0, 2] none ↔
      (TokenInput.ofTokens [1, 0, 0, 0, 0, 2] none).numFalses < 6 ∧ twoZeros.sepLen ≤ 6 ∧
        twoZeros.NoOverlap [1, 0, 0, 0, 0, 2] :=
  twoZeros.faithful_iff_noOverlap (by decide) [1, 0, 0, 0, 0, 2] none

/-- **Three zeros in a row are two separators.**  The segment behind them is given a range behind the
tokens.  And tokens that are shorter than the separator raise. -/
theorem not_faithful_twoZeros :
    ¬ twoZeros.Faithful [0, 0, 0, 1] none ∧ ¬ twoZeros.Faithful [1] none := by
  constructor
  · intro h
    have hjoins := h.joins
    revert hjoins
    decide +kernel
  · intro h
    have hraised := h.raised
    revert hraised
    decide +kernel

end SegmentTokenDatabase

end LMCache
