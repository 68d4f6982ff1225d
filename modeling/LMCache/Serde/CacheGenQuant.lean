/-
# LMCache.Serde.CacheGenQuant — quantised rows, and the chunks of tokens they are coded in.

Source: `torch_quant_vectorized` and the chunk loop of `encode_function` in
`serde/cachegen_encoder.py`, `do_dequantize` and the chunk loop of `decode_function_gpu` in
`serde/cachegen_decoder.py`.

A row is scaled by its largest absolute value and shifted, so that its symbols start at zero; they are
held as eight-bit integers with a sign, which 128 bins fill.  Numbers are rationals here.  The coder
of a chunk of tokens is a GPU kernel: it is a parameter, of which only that it is lossless is used.
-/
import LMCache.Lib.RoundEven
import LMCache.Lib.Splice
import LMCache.Lib.Stride

namespace LMCache.Serde

open LMCache.Lib

/-! ## Quantisation -/

/-- `torch.amax(torch.abs(row), dim=-1)`. -/
def amax (row : List ℚ) : ℚ := (row.map fun x => |x|).foldr max 0

/-- How a number becomes an `int8`: what is in range stays, anything else becomes one or another. -/
structure Int8Cast where
  toInt8 : ℤ → Int8
  toInt_toInt8 : ∀ n, -128 ≤ n → n ≤ 127 → (toInt8 n).toInt = n

/-- The bits that there is room for. -/
def Int8Cast.wrapping : Int8Cast where
  toInt8 := Int8.ofInt
  toInt_toInt8 := by
    intro n hlow hhigh
    rw [Int8.toInt_ofInt]
    exact Int.bmod_eq_of_le (by simpa using hlow) (by simp [Int8.size]; omega)

/-- `bins // 2 - 1`, the symbol of zero. -/
def middle (bins : ℤ) : ℤ := bins / 2 - 1

/-- A row of `torch_quant_vectorized`: the symbols, and the largest absolute value. -/
def quantRow (cast : Int8Cast) (bins : ℤ) (row : List ℚ) : List Int8 × ℚ :=
  let max1 := amax row
  let factor := middle bins / max1
  (row.map fun x => cast.toInt8 (roundEven (x * factor + middle bins)), max1)

/-- `torch_quant_vectorized`, of layers of tokens of channels with the bins of each layer. -/
def torchQuantVectorized (cast : Int8Cast) (bins : List ℤ) (inputGroups : List (List (List ℚ))) :
    List (List (List Int8)) × List (List ℚ) :=
  let rows := List.zipWith (fun b layer => layer.map (quantRow cast b)) bins inputGroups
  (rows.map fun layer => layer.map Prod.fst, rows.map fun layer => layer.map Prod.snd)

/-- A row of `do_dequantize`. -/
def dequantRow (bins : ℤ) (symbols : List ℚ) (maxtensor : ℚ) : List ℚ :=
  symbols.map fun t => (t - middle bins) / middle bins * maxtensor

/-- `do_dequantize`. -/
def doDequantize (t : List (List (List ℚ))) (bins : List ℤ) (maxtensors : List (List ℚ)) :
    List (List (List ℚ)) :=
  List.zipWith (fun b e => List.zipWith (dequantRow b) e.1 e.2) bins (t.zip maxtensors)

/-- The entry of a tensor. -/
def at3 {α : Type} (t : List (List (List α))) (layer token channel : ℕ) : Option α :=
  ((t[layer]?).bind fun rows => rows[token]?).bind fun row => row[channel]?

/-- The symbols as the decoder hands them on. -/
def decoded (symbols : List (List (List Int8))) : List (List (List ℚ)) :=
  symbols.map fun layer => layer.map fun row => row.map fun s => (s.toInt : ℚ)

/-! ## Chunks of tokens -/

/-- `CACHEGEN_GPU_MAX_TOKENS_PER_CHUNK`. -/
def maxTokensPerChunk : ℕ := 256

/-- `range(0, n, step)`. -/
def rangeStep (n step : ℕ) : List ℕ := (List.range ((n + step - 1) / step)).map (· * step)

/-- The coder of a chunk: the tokens come back when it is told how many they are. -/
structure ChunkCoder (α β : Type) where
  encode : List α → β
  decode : β → ℕ → List α
  decode_encode : ∀ tokens, decode (encode tokens) tokens.length = tokens

/-- `CacheGenGPUBytestream`; the lengths are part of the stream here. -/
structure CacheGenGPUBytestream (β : Type) where
  bytestream : β
  ntokens : ℕ
  deriving DecidableEq, Repr

variable {α β : Type}

/-- The `start` and `end` of the encoder's loop. -/
def encodeRanges (chunkSize : ℕ) : List (ℕ × ℕ) :=
  (rangeStep chunkSize maxTokensPerChunk).map fun i => (i, min (i + maxTokensPerChunk) chunkSize)

/-- The loop of `encode_function`. -/
def encodeChunks (coder : ChunkCoder α β) (tokens : List α) : List (CacheGenGPUBytestream β) :=
  (encodeRanges tokens.length).map fun r => ⟨coder.encode (slice tokens r.1 r.2), r.2 - r.1⟩

/-- The `start` and `end` of the decoder's loop, from a start on. -/
def decodeRanges : ℕ → List ℕ → List (ℕ × ℕ)
  | _, [] => []
  | start, ntokens :: rest => (start, start + ntokens) :: decodeRanges (start + ntokens) rest

/-- The loop of `decode_function_gpu`, from a start on: each chunk is written into the output. -/
def decodeChunks (coder : ChunkCoder α β) :
    ℕ → List (CacheGenGPUBytestream β) → List α → List α
  | _, [], output => output
  | start, chunk :: rest, output =>
    decodeChunks coder (start + chunk.ntokens) rest
      (splice output start (coder.decode chunk.bytestream chunk.ntokens))

/-! ## What a symbol keeps of a value -/

theorem abs_le_amax {row : List ℚ} {x : ℚ} (h : x ∈ row) : |x| ≤ amax row := by
  unfold amax
  induction row with
  | nil => cases h
  | cons y row ih =>
    rw [List.map_cons, List.foldr_cons]
    rcases List.mem_cons.mp h with rfl | h
    · exact le_max_left _ _
    · exact (ih h).trans (le_max_right _ _)

theorem amax_nonneg (row : List ℚ) : 0 ≤ amax row := by
  unfold amax
  cases row with
  | nil => exact le_refl 0
  | cons y row => exact (abs_nonneg y).trans (le_max_left _ _)

section Value

variable {bins : ℤ} {m x : ℚ} (hbins : 4 ≤ bins) (hm : 0 < m) (hx : |x| ≤ m)

include hbins

theorem one_le_middle : 1 ≤ middle bins := by
  unfold middle
  omega

include hm hx

/-- The scaled and shifted value lies between the extreme symbols. -/
theorem scaled_mem : 0 ≤ x * (middle bins / m) + middle bins ∧
    x * (middle bins / m) + middle bins ≤ 2 * middle bins := by
  have hC : (1 : ℚ) ≤ middle bins := by exact_mod_cast one_le_middle hbins
  have hscaled : |x * (middle bins / m)| ≤ middle bins := by
    rw [abs_mul, abs_of_pos (div_pos (by linarith) hm), mul_div_assoc', div_le_iff₀ hm, mul_comm]
    exact mul_le_mul_of_nonneg_left hx (by linarith)
  obtain ⟨hlow, hhigh⟩ := abs_le.mp hscaled
  constructor <;> linarith

/-- A symbol is one of those that the bins allow. -/
theorem symbol_mem : 0 ≤ roundEven (x * (middle bins / m) + middle bins) ∧
    roundEven (x * (middle bins / m) + middle bins) ≤ 2 * middle bins := by
  obtain ⟨hlow, hhigh⟩ := scaled_mem hbins hm hx
  exact ⟨le_roundEven (by exact_mod_cast hlow), roundEven_le (by push_cast; exact hhigh)⟩

omit hx in
/-- A symbol that is rounded by a half gives a value that is off by half a step. -/
theorem abs_dequant_sub_le :
    |(roundEven (x * (middle bins / m) + middle bins) - middle bins) / middle bins * m - x| ≤
      m / (2 * middle bins) := by
  have hC : (0 : ℚ) < middle bins := by exact_mod_cast one_le_middle hbins
  set y : ℚ := x * (middle bins / m) + middle bins with hy
  have hback : (roundEven y - (middle bins : ℚ)) / middle bins * m - x =
      (roundEven y - y) * (m / middle bins) := by
    have hx : x = (y - middle bins) / middle bins * m := by
      rw [hy]
      field_simp
      ring
    rw [hx]
    field_simp
    ring
  rw [hback, abs_mul, abs_of_pos (div_pos hm hC)]
  calc |(roundEven y : ℚ) - y| * (m / middle bins)
      ≤ 1 / 2 * (m / middle bins) :=
        mul_le_mul_of_nonneg_right (abs_roundEven_sub_le y) (div_pos hm hC).le
    _ = m / (2 * middle bins) := by
        field_simp

end Value

/-! ## What comes back of a tensor -/

section Tensor

variable (cast : Int8Cast) {bins : List ℤ} {inputGroups : List (List (List ℚ))} {layer token : ℕ}
  {b : ℤ} {tokens : List (List ℚ)} {row : List ℚ} (hb : bins[layer]? = some b)
  (htokens : inputGroups[layer]? = some tokens) (hrow : tokens[token]? = some row)

include hb htokens hrow

/-- The symbols of a row, wherever it stands. -/
theorem at3_symbols (channel : ℕ) :
    at3 (torchQuantVectorized cast bins inputGroups).1 layer token channel =
      (quantRow cast b row).1[channel]? := by
  unfold at3 torchQuantVectorized
  rw [List.getElem?_map, List.getElem?_zipWith, hb, htokens]
  show ((((tokens.map (quantRow cast b)).map Prod.fst)[token]?).bind fun row => row[channel]?) = _
  rw [List.getElem?_map, List.getElem?_map, hrow]
  rfl

/-- What its symbols are turned back into. -/
theorem at3_dequantized (channel : ℕ) :
    at3 (doDequantize (decoded (torchQuantVectorized cast bins inputGroups).1) bins
        (torchQuantVectorized cast bins inputGroups).2) layer token channel =
      (dequantRow b ((quantRow cast b row).1.map fun s => (s.toInt : ℚ)) (amax row))[channel]? := by
  have hzip : ((decoded (torchQuantVectorized cast bins inputGroups).1).zip
      (torchQuantVectorized cast bins inputGroups).2)[layer]? =
        some (tokens.map fun row => (quantRow cast b row).1.map fun s => (s.toInt : ℚ),
          tokens.map amax) := by
    unfold decoded torchQuantVectorized
    rw [List.zip, List.getElem?_zipWith, List.getElem?_map, List.getElem?_map, List.getElem?_map,
      List.getElem?_zipWith, hb, htokens]
    simp only [Option.map_some, List.map_map]
    rfl
  unfold at3 doDequantize
  rw [List.getElem?_zipWith, hb, hzip]
  show ((List.zipWith (dequantRow b) _ _)[token]?.bind fun row => row[channel]?) = _
  rw [List.getElem?_zipWith, List.getElem?_map, List.getElem?_map, hrow]
  rfl

/-- **A value and its symbol.**  With as many bins as an `int8` has room for, the symbol is one of the
bins', and the value that comes back is at most half a step away. -/
theorem quantizes_value {channel : ℕ} {x : ℚ} (hx : row[channel]? = some x) (hm : amax row ≠ 0)
    (hlow : 4 ≤ b) (hhigh : b ≤ 128) :
    ∃ s v, at3 (torchQuantVectorized cast bins inputGroups).1 layer token channel = some s ∧
      at3 (doDequantize (decoded (torchQuantVectorized cast bins inputGroups).1) bins
        (torchQuantVectorized cast bins inputGroups).2) layer token channel = some v ∧
      0 ≤ s.toInt ∧ s.toInt ≤ 2 * middle b ∧ |v - x| ≤ amax row / (2 * middle b) := by
  have hpos : 0 < amax row := lt_of_le_of_ne (amax_nonneg row) hm.symm
  have hle := abs_le_amax (List.mem_of_getElem? hx)
  obtain ⟨hsymbol, hsymbol'⟩ := symbol_mem hlow hpos hle
  have hfits : middle b ≤ 63 := by
    unfold middle
    omega
  -- the symbol is in the range of an `int8`, so it is kept
  have hkept := cast.toInt_toInt8 _ (by linarith) (hsymbol'.trans (by omega))
  have hsym : (quantRow cast b row).1[channel]? =
      some (cast.toInt8 (roundEven (x * (middle b / amax row) + middle b))) := by
    show (row.map _)[channel]? = _
    rw [List.getElem?_map, hx]
    rfl
  refine ⟨_, (roundEven (x * (middle b / amax row) + middle b) - middle b) / middle b * amax row,
    (at3_symbols cast hb htokens hrow channel).trans hsym,
    (at3_dequantized cast hb htokens hrow channel).trans ?_, ?_, ?_, ?_⟩
  · unfold dequantRow
    rw [List.getElem?_map, List.getElem?_map, hsym, Option.map_some, Option.map_some, hkept]
  · rw [hkept]
    exact hsymbol
  · rw [hkept]
    exact hsymbol'
  · exact abs_dequant_sub_le hlow hpos

end Tensor

/-! ## What comes back of the chunks -/

variable (chunkSize : ℕ)

/-- Both loops cut the tokens into ranges that stand one behind the other. -/
theorem endToEnd_encodeRanges : EndToEnd 0 chunkSize (encodeRanges chunkSize) := by
  unfold encodeRanges rangeStep
  rw [List.map_map]
  exact endToEnd_steps (by decide) chunkSize

/-- The decoder's ranges are those of the encoder. -/
theorem decodeRanges_of_endToEnd {start stop : ℕ} {ranges : List (ℕ × ℕ)}
    (h : EndToEnd start stop ranges) :
    decodeRanges start (ranges.map fun r => r.2 - r.1) = ranges := by
  induction h with
  | nil => rfl
  | @cons start middle stop ranges hle _ ih =>
    rw [List.map_cons, decodeRanges, Nat.add_sub_cancel' hle, ih]

variable {chunkSize}

/-- The chunks of some ranges are written where their tokens stood. -/
theorem decodeChunks_of_endToEnd (coder : ChunkCoder α β) {start stop : ℕ} {ranges : List (ℕ × ℕ)}
    (h : EndToEnd start stop ranges) {tokens : List α} (hstop : stop ≤ tokens.length)
    {output : List α} (houtput : stop ≤ output.length) :
    decodeChunks coder start (ranges.map fun r =>
        ⟨coder.encode (slice tokens r.1 r.2), r.2 - r.1⟩) output =
      splice output start (slice tokens start stop) := by
  induction h generalizing output with
  | nil start =>
    have hnone : slice tokens start start = [] := by
      rw [slice]
      exact List.drop_of_length_le (by rw [List.length_take]; omega)
    rw [hnone, splice_nil]
    rfl
  | @cons start middle stop ranges hle hrest ih =>
    have hmiddle := hrest.le
    have hlength : (slice tokens start middle).length = middle - start :=
      length_slice_of_le (hmiddle.trans hstop)
    have hdecode : coder.decode (coder.encode (slice tokens start middle)) (middle - start) =
        slice tokens start middle := by
      rw [← hlength, coder.decode_encode]
    rw [List.map_cons, decodeChunks]
    dsimp only
    have hroom : start + (slice tokens start middle).length ≤ output.length := by
      rw [hlength]
      omega
    have hsplice := splice_splice hroom (slice tokens middle stop)
    rw [hlength, Nat.add_sub_cancel' hle] at hsplice
    rw [hdecode, Nat.add_sub_cancel' hle, ih hstop (by rwa [length_splice hroom]), hsplice,
      slice_append_slice tokens hle hmiddle]

/-! ## The codec as a whole -/

/-- What a value of a tensor must find when it comes back: a symbol of its bins, and a value at most
half a step away. -/
def ComesBack (cast : Int8Cast) (bins : List ℤ) (inputGroups : List (List (List ℚ)))
    (layer token channel : ℕ) (b : ℤ) (row : List ℚ) (x : ℚ) : Prop :=
  ∃ s v, at3 (torchQuantVectorized cast bins inputGroups).1 layer token channel = some s ∧
    at3 (doDequantize (decoded (torchQuantVectorized cast bins inputGroups).1) bins
      (torchQuantVectorized cast bins inputGroups).2) layer token channel = some v ∧
    0 ≤ s.toInt ∧ s.toInt ≤ 2 * middle b ∧ |v - x| ≤ amax row / (2 * middle b)

/-- **Values and tokens come back.**  With up to 128 bins every value of a row that is not zero comes
back within half a step; and both loops cut the tokens into the same consecutive ranges, so that each
token is decoded once, at its own position. -/
theorem quantizes_and_chunks (cast : Int8Cast) {bins : List ℤ} {inputGroups : List (List (List ℚ))}
    {layer token channel : ℕ} {b : ℤ} {tokens : List (List ℚ)} {row : List ℚ} {x : ℚ}
    (hb : bins[layer]? = some b) (hlow : 4 ≤ b) (hhigh : b ≤ 128)
    (htokens : inputGroups[layer]? = some tokens) (hrow : tokens[token]? = some row)
    (hx : row[channel]? = some x) (hm : amax row ≠ 0) (coder : ChunkCoder α β)
    {coded output : List α} (houtput : output.length = coded.length) :
    ComesBack cast bins inputGroups layer token channel b row x ∧
      decodeRanges 0 ((encodeChunks coder coded).map CacheGenGPUBytestream.ntokens) =
        encodeRanges coded.length ∧
      ((encodeRanges coded.length).flatMap fun r => List.range' r.1 (r.2 - r.1)) =
        List.range coded.length ∧
      decodeChunks coder 0 (encodeChunks coder coded) output = coded := by
  have htiles := endToEnd_encodeRanges coded.length
  refine ⟨quantizes_value cast hb htokens hrow hx hm hlow hhigh, ?_, ?_, ?_⟩
  · unfold encodeChunks
    rw [List.map_map]
    exact decodeRanges_of_endToEnd htiles
  · rw [htiles.flatMap_range', Nat.sub_zero, List.range_eq_range']
  · have hall : slice coded 0 coded.length = coded := by
      rw [slice, List.take_length, List.drop_zero]
    unfold encodeChunks
    rw [decodeChunks_of_endToEnd coder htiles (le_refl _) houtput.ge, hall,
      splice_of_length houtput.symm]

/-- The coder that does nothing. -/
def plainCoder : ChunkCoder α (List α) := ⟨id, fun tokens _ => tokens, fun _ => rfl⟩

theorem quantizes_and_chunks_sample :
    ComesBack .wrapping [32, 128] [[[1, -3]], [[5, -2]]] 1 0 0 128 [5, -2] 5 ∧
      decodeRanges 0 ((encodeChunks plainCoder [7, 8]).map CacheGenGPUBytestream.ntokens) =
        encodeRanges 2 ∧
      ((encodeRanges 2).flatMap fun r => List.range' r.1 (r.2 - r.1)) = List.range 2 ∧
      decodeChunks plainCoder 0 (encodeChunks plainCoder [7, 8]) [0, 0] = [7, 8] :=
  quantizes_and_chunks .wrapping rfl (by decide) (by decide) rfl rfl rfl
    (ne_of_gt (lt_of_lt_of_le (by norm_num) (abs_le_amax List.mem_cons_self))) plainCoder rfl

/-- With 130 bins the largest value would have the symbol 128, for which an `int8` has no room. -/
theorem not_comesBack_130 :
    ¬ComesBack .wrapping [130] [[[1]]] 0 0 0 130 [1] 1 := by
  rintro ⟨s, -, hs, -, hnonneg, -⟩
  have hround : roundEven ((1 : ℚ) * (middle 130 / amax [1]) + middle 130) = 128 := by
    have hamax : amax [1] = 1 := by
      unfold amax
      norm_num
    have hmiddle : middle 130 = 64 := rfl
    have hvalue : (1 : ℚ) * (middle 130 / amax [1]) + middle 130 = ((128 : ℤ) : ℚ) := by
      rw [hamax, hmiddle]
      norm_num
    rw [hvalue]
    exact le_antisymm (roundEven_le (le_refl _)) (le_roundEven (le_refl _))
  have hsymbol : at3 (torchQuantVectorized .wrapping [130] [[[1]]]).1 0 0 0 =
      some (Int8.ofInt (roundEven ((1 : ℚ) * (middle 130 / amax [1]) + middle 130))) := rfl
  rw [hsymbol, hround] at hs
  cases hs
  revert hnonneg
  decide

end LMCache.Serde
