/-
# LMCache.LookupClient.RecordStrategies — what the chunks of lookups are counted with.

Source: `v1/lookup_client/record_strategies/base.py`, `file_hash.py` and `memory_bloom_filter.py`
beside it, and `v1/utils/bloom_filter.py`.

A strategy turns the tokens of a lookup into the hashes of their chunks, in a form of its own, and
records them: it counts all chunks, and those it takes for new.  `FileHashStrategy` takes for new
what is new in its own record, and `MemoryBloomFilterStrategy` what its filter does not know.

The files are left out: a write that raises does so before anything is counted.  The digests of the
filter are a parameter, and so are its size and the number of positions of a hash, which the
constructor computes in floating point.
-/
import LMCache.TokenDatabase
import LMCache.Lib.PyStr
import LMCache.Lib.SeenBefore

namespace LMCache.LookupClient

open LMCache.Lib

/-! ## The hashes of a lookup -/

/-- `_compute_chunk_hashes`. -/
def computeChunkHashes (db : ChunkedTokenDatabase) (tokenIds : List Int) :
    Except PyError (List Int) :=
  (db.processHashes (.ofTokens tokenIds none)).collect.map (List.map HashedChunk.chunkHash)

/-- `hash_val & ((1 << 64) - 1)` below 0.  The hash as both strategies record it. -/
def unsigned (hashVal : Int) : Nat :=
  if hashVal < 0 then (hashVal % 2 ^ 64).toNat else hashVal.toNat

/-- The hashes of the chunks of a lookup, none where computing them raises. -/
def chunkHashes (db : ChunkedTokenDatabase) (tokenIds : List Int) : List Nat :=
  ((computeChunkHashes db tokenIds).toOption.getD []).map unsigned

theorem chunkHashes_eq {db : ChunkedTokenDatabase} {tokenIds : List Int} {hashes : List Int}
    (h : computeChunkHashes db tokenIds = .ok hashes) :
    chunkHashes db tokenIds = hashes.map unsigned := by
  unfold chunkHashes
  rw [h]
  rfl

/-- `total_chunks` and `unique_chunks_count`. -/
structure ChunkCounts where
  totalChunks : Nat
  uniqueChunksCount : Nat
  deriving DecidableEq, Repr

/-- `duplicate_chunks` of `get_statistics`. -/
def ChunkCounts.duplicateChunks (c : ChunkCounts) : Int :=
  (c.totalChunks : Int) - (c.uniqueChunksCount : Int)

/-- `RecordStrategy`: a state, and a form `δ` of preprocessed tokens. -/
structure RecordStrategy (σ δ : Type) where
  initial : σ
  preprocess : List Int → Except PyError δ
  record : δ → σ → σ
  counts : σ → ChunkCounts

/-- What a strategy keeps true of its state and the hashes it has recorded (`Inv`), what its counts
should say of them (`Dup`), and when recording more hashes keeps that (`fresh`). -/
structure RecordStrategy.Lawful {σ δ : Type} (S : RecordStrategy σ δ) (db : ChunkedTokenDatabase)
    (Inv Dup : σ → List Nat → Prop) (fresh : List Nat → List Nat → Prop) : Prop where
  inv_initial : Inv S.initial []
  inv_record : ∀ {st : σ} {hashes : List Nat} {tokenIds : List Int} {data : δ},
    S.preprocess tokenIds = .ok data → Inv st hashes →
      Inv (S.record data st) (hashes ++ chunkHashes db tokenIds)
  totalChunks : ∀ {st : σ} {hashes : List Nat}, Inv st hashes →
    (S.counts st).totalChunks = hashes.length
  dup_initial : Dup S.initial []
  dup_record : ∀ {st : σ} {hashes : List Nat} {tokenIds : List Int} {data : δ},
    S.preprocess tokenIds = .ok data → Inv st hashes → Dup st hashes →
      (Dup (S.record data st) (hashes ++ chunkHashes db tokenIds) ↔
        fresh hashes (chunkHashes db tokenIds))

/-! ## `FileHashStrategy` -/

/-- `hex`. -/
def hex (n : Nat) : List Char := '0' :: 'x' :: Nat.toDigits 16 n

theorem hex_injective : Function.Injective hex := by
  intro n m h
  have hdigits : Nat.toDigits 16 n = Nat.toDigits 16 m := by simpa [hex] using h
  have hn := PyStr.readDigits_toDigits (b := 16) (by decide) (by decide) n
  rw [hdigits, PyStr.readDigits_toDigits (by decide) (by decide)] at hn
  exact (Option.some.inj hn).symm

/-- `_compute_chunk_hashes_hex`. -/
def computeChunkHashesHex (db : ChunkedTokenDatabase) (tokenIds : List Int) :
    Except PyError (List (List Char)) :=
  (computeChunkHashes db tokenIds).map (List.map fun hashVal => hex (unsigned hashVal))

namespace FileHashStrategy

/-- The counting at the end of `record`. -/
def record (chunkHashes : List (List Char)) (c : ChunkCounts) : ChunkCounts where
  totalChunks := c.totalChunks + chunkHashes.length
  uniqueChunksCount := c.uniqueChunksCount + chunkHashes.toFinset.card

/-- Every chunk whose hash was seen before is a duplicate, and no other. -/
def Exact (c : ChunkCounts) (hashes : List Nat) : Prop := c.duplicateChunks = repeats hashes

instance (c : ChunkCounts) (hashes : List Nat) : Decidable (Exact c hashes) :=
  inferInstanceAs (Decidable (_ = _))

end FileHashStrategy

/-- `FileHashStrategy`. -/
def fileHashStrategy (db : ChunkedTokenDatabase) :
    RecordStrategy ChunkCounts (List (List Char)) where
  initial := ⟨0, 0⟩
  preprocess := computeChunkHashesHex db
  record := FileHashStrategy.record
  counts := id

namespace FileHashStrategy

theorem eq_of_preprocess {db : ChunkedTokenDatabase} {tokenIds : List Int}
    {data : List (List Char)} (h : computeChunkHashesHex db tokenIds = .ok data) :
    data = (chunkHashes db tokenIds).map hex := by
  unfold computeChunkHashesHex at h
  cases hc : computeChunkHashes db tokenIds with
  | error e => rw [hc] at h; cases h
  | ok hashes =>
    rw [hc] at h
    rw [chunkHashes_eq hc, List.map_map]
    exact (Except.ok.inj h).symm

theorem card_map_hex (l : List Nat) : (l.map hex).toFinset.card = l.toFinset.card := by
  have himage : (l.map hex).toFinset = l.toFinset.image hex := by
    ext s
    simp
  rw [himage, Finset.card_image_of_injective _ hex_injective]

theorem exact_iff {c : ChunkCounts} {hashes : List Nat} (htotal : c.totalChunks = hashes.length) :
    Exact c hashes ↔ c.uniqueChunksCount = hashes.toFinset.card := by
  have := repeats_add_card hashes
  unfold Exact ChunkCounts.duplicateChunks
  omega

/-- The counts stay exact as long as no hash is recorded by two lookups. -/
theorem lawful (db : ChunkedTokenDatabase) :
    (fileHashStrategy db).Lawful db (fun c hashes => c.totalChunks = hashes.length) Exact
      (fun hashes more => ∀ hash ∈ more, hash ∉ hashes) where
  inv_initial := rfl
  inv_record := by
    intro c hashes tokenIds data hdata hinv
    show c.totalChunks + data.length = (hashes ++ chunkHashes db tokenIds).length
    rw [eq_of_preprocess hdata, List.length_map, List.length_append, hinv]
  totalChunks := fun hinv => hinv
  dup_initial := (exact_iff rfl).mpr rfl
  dup_record := by
    intro c hashes tokenIds data hdata hinv hexact
    have htotal : (record data c).totalChunks = (hashes ++ chunkHashes db tokenIds).length := by
      show c.totalChunks + data.length = _
      rw [eq_of_preprocess hdata, List.length_map, List.length_append, hinv]
    have hunique : (record data c).uniqueChunksCount =
        hashes.toFinset.card + (chunkHashes db tokenIds).toFinset.card := by
      show c.uniqueChunksCount + data.toFinset.card = _
      rw [(exact_iff hinv).mp hexact, eq_of_preprocess hdata, card_map_hex]
    show Exact (record data c) _ ↔ _
    rw [exact_iff htotal, hunique, eq_comm, card_toFinset_append_iff]

end FileHashStrategy

/-! ## `MemoryBloomFilterStrategy` -/

/-- What the constructor of `BloomFilter` computes, and the first bytes of the digest of an item and
a number, as a number. -/
structure BloomConfig where
  size : Nat
  hashCount : Nat
  digest : Nat → Nat → Nat

namespace BloomConfig

/-- `_hashes` of an `int`. -/
def hashes (bloom : BloomConfig) (item : Nat) : Except PyError (List Nat) :=
  if bloom.size = 0 ∧ bloom.hashCount ≠ 0 then .error (.zeroDivisionError "integer modulo by zero")
  else .ok ((List.range bloom.hashCount).map fun i => bloom.digest item i % bloom.size)

/-- The positions of a hash, none where computing them raises. -/
def positions (bloom : BloomConfig) (item : Nat) : List Nat :=
  (bloom.hashes item).toOption.getD []

/-- The bits of a new filter. -/
def bitArray (bloom : BloomConfig) : List Nat := wordsFor bloom.size

theorem fits_of_mem_positions {bloom : BloomConfig} (item : Nat) :
    ∀ pos ∈ bloom.positions item, Fits bloom.bitArray pos := by
  intro pos hpos
  unfold positions hashes at hpos
  split at hpos
  · cases hpos
  · rename_i h
    obtain ⟨i, hi, rfl⟩ := List.mem_map.mp hpos
    refine fits_wordsFor (Nat.mod_lt _ (Nat.pos_of_ne_zero fun hsize => h ⟨hsize, ?_⟩))
    have := List.mem_range.mp hi
    omega

theorem eq_of_mapM_hashes {bloom : BloomConfig} {items : List Nat} {data : List (List Nat)}
    (h : items.mapM bloom.hashes = .ok data) : data = items.map bloom.positions := by
  rw [mapM_eq_ok_iff_forall₂] at h
  induction h with
  | nil => rfl
  | cons hitem _ ih =>
    rw [List.map_cons, ← ih, positions, hitem]
    rfl

end BloomConfig

/-- What changes of a `BloomFilter`. -/
structure BloomFilter where
  bitArray : List Nat
  itemCount : Nat
  deriving DecidableEq, Repr

/-- `add_batch_with_hashes_and_check`. -/
def BloomFilter.addBatchWithHashesAndCheck (b : BloomFilter) (positionsList : List (List Nat)) :
    Nat × BloomFilter :=
  let added := (BitFilter.mk b.bitArray 0).insertAll positionsList
  (added.count, ⟨added.words, b.itemCount + added.count⟩)

/-- The state of `MemoryBloomFilterStrategy`. -/
structure MemoryBloomFilterStrategy where
  counts : ChunkCounts
  globalBloom : BloomFilter
  deriving DecidableEq, Repr

namespace MemoryBloomFilterStrategy

/-- `preprocess`. -/
def preprocess (db : ChunkedTokenDatabase) (bloom : BloomConfig) (tokenIds : List Int) :
    Except PyError (List (List Nat)) :=
  (computeChunkHashes db tokenIds).bind fun prefixHashes =>
    (prefixHashes.map unsigned).mapM bloom.hashes

/-- `record`. -/
def record (chunkBloomPositions : List (List Nat)) (st : MemoryBloomFilterStrategy) :
    MemoryBloomFilterStrategy :=
  let (unique, globalBloom) := st.globalBloom.addBatchWithHashesAndCheck chunkBloomPositions
  { counts := ⟨st.counts.totalChunks + chunkBloomPositions.length,
      st.counts.uniqueChunksCount + unique⟩
    globalBloom }

/-- A new filter that has inserted hashes one by one. -/
def filterAfter (bloom : BloomConfig) (hashes : List Nat) : BitFilter :=
  (BitFilter.mk bloom.bitArray 0).insertAll (hashes.map bloom.positions)

/-- The filter knows the recorded hashes, and the counts are of those it found new. -/
structure Tracks (bloom : BloomConfig) (st : MemoryBloomFilterStrategy) (hashes : List Nat) :
    Prop where
  totalChunks : st.counts.totalChunks = hashes.length
  uniqueChunksCount : st.counts.uniqueChunksCount = (filterAfter bloom hashes).count
  bitArray : st.globalBloom.bitArray = (filterAfter bloom hashes).words

/-- Every chunk whose hash was seen before is a duplicate, and others may be. -/
structure OverCounts (bloom : BloomConfig) (st : MemoryBloomFilterStrategy) (hashes : List Nat) :
    Prop where
  repeats_le : (repeats hashes : Int) ≤ st.counts.duplicateChunks
  /-- What is counted as unique is what was new in the filter when it was recorded. -/
  uniqueChunksCount : st.counts.uniqueChunksCount = (filterAfter bloom hashes).count
  /-- A hash recorded before was not new. -/
  not_new : ∀ (before : List Nat) (hash : Nat) (after : List Nat),
    hashes = before ++ hash :: after → hash ∈ before →
      (filterAfter bloom before).isNew (bloom.positions hash) = false

end MemoryBloomFilterStrategy

/-- `MemoryBloomFilterStrategy`. -/
def memoryBloomFilterStrategy (db : ChunkedTokenDatabase) (bloom : BloomConfig) :
    RecordStrategy MemoryBloomFilterStrategy (List (List Nat)) where
  initial := ⟨⟨0, 0⟩, ⟨bloom.bitArray, 0⟩⟩
  preprocess := MemoryBloomFilterStrategy.preprocess db bloom
  record := MemoryBloomFilterStrategy.record
  counts := MemoryBloomFilterStrategy.counts

namespace MemoryBloomFilterStrategy

variable {bloom : BloomConfig} {st : MemoryBloomFilterStrategy}

theorem eq_of_preprocess {db : ChunkedTokenDatabase} {tokenIds : List Int} {data : List (List Nat)}
    (h : preprocess db bloom tokenIds = .ok data) :
    data = (chunkHashes db tokenIds).map bloom.positions := by
  unfold preprocess at h
  cases hc : computeChunkHashes db tokenIds with
  | error e => rw [hc] at h; cases h
  | ok hashes =>
    rw [hc] at h
    rw [chunkHashes_eq hc]
    exact BloomConfig.eq_of_mapM_hashes h

theorem filterAfter_append (bloom : BloomConfig) (hashes more : List Nat) :
    filterAfter bloom (hashes ++ more) =
      (filterAfter bloom hashes).insertAll (more.map bloom.positions) := by
  unfold filterAfter
  rw [List.map_append, BitFilter.insertAll_append]

/-- A batch does to the filter what its hashes do one by one. -/
theorem Tracks.record {hashes : List Nat} (h : Tracks bloom st hashes) (more : List Nat) :
    Tracks bloom (MemoryBloomFilterStrategy.record (more.map bloom.positions) st)
      (hashes ++ more) where
  totalChunks := by
    show st.counts.totalChunks + (more.map bloom.positions).length = _
    rw [h.totalChunks, List.length_map, List.length_append]
  uniqueChunksCount := by
    show st.counts.uniqueChunksCount +
      ((BitFilter.mk st.globalBloom.bitArray 0).insertAll (more.map bloom.positions)).count = _
    rw [filterAfter_append, BitFilter.insertAll_eq (filterAfter bloom hashes), h.uniqueChunksCount,
      h.bitArray]
  bitArray := by
    show ((BitFilter.mk st.globalBloom.bitArray 0).insertAll (more.map bloom.positions)).words = _
    rw [filterAfter_append, BitFilter.insertAll_eq (filterAfter bloom hashes), h.bitArray]

/-- **The filter takes no hash that was recorded before for new.** -/
theorem Tracks.overCounts {hashes : List Nat} (h : Tracks bloom st hashes) :
    OverCounts bloom st hashes where
  repeats_le := by
    have hcount := BitFilter.count_insertAll_add_repeatsFrom_le bloom.positions
      (f := BitFilter.mk bloom.bitArray 0) BloomConfig.fits_of_mem_positions
      (List.forall_mem_nil _) hashes
    have hunique := h.uniqueChunksCount
    have htotal := h.totalChunks
    unfold filterAfter at hunique
    unfold ChunkCounts.duplicateChunks repeats
    dsimp only at hcount
    omega
  uniqueChunksCount := h.uniqueChunksCount
  not_new := fun _ hash _ _ hmem =>
    BitFilter.isNew_insertAll_of_mem (BloomConfig.fits_of_mem_positions hash)
      (List.mem_map_of_mem hmem)

theorem lawful (db : ChunkedTokenDatabase) (bloom : BloomConfig) :
    (memoryBloomFilterStrategy db bloom).Lawful db (Tracks bloom) (OverCounts bloom)
      (fun _ _ => True) where
  inv_initial := ⟨rfl, rfl, rfl⟩
  inv_record := by
    intro st hashes tokenIds data hdata hinv
    have hrecord := hinv.record (chunkHashes db tokenIds)
    rwa [← eq_of_preprocess hdata] at hrecord
  totalChunks := fun hinv => hinv.totalChunks
  dup_initial := Tracks.overCounts ⟨rfl, rfl, rfl⟩
  dup_record := by
    intro st hashes tokenIds data hdata hinv _
    have hrecord := hinv.record (chunkHashes db tokenIds)
    rw [← eq_of_preprocess hdata] at hrecord
    exact iff_of_true hrecord.overCounts trivial

end MemoryBloomFilterStrategy

end LMCache.LookupClient
