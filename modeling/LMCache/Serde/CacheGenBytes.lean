/-
# LMCache.Serde.CacheGenBytes — the bytes of the coded rows, put together and taken apart.

Source: `collect_bytes` in `serde/cachegen_encoder.py` and `recombine_bytes` in
`serde/cachegen_decoder.py`.

The encoder leaves a row of bytes for each layer and channel, of which only a part is used.
`collect_bytes` takes the used parts, one behind the other, with one tensor of indices;
`recombine_bytes` puts them back into rows of 256 bytes, and cuts an index that would be too large
down to that of the last byte.  When there is no byte at all, there is no last one.
-/
import LMCache.Lib.Tensor

namespace LMCache.Serde

open LMCache.Lib

/-! ## The two functions -/

/-- The rows of an output buffer in the order in which they lie in memory, with the lengths of what is
used of them. -/
structure EncodedRows where
  nlayers : Nat
  nchannels : Nat
  /-- `output_buffer.shape[-1]`. -/
  width : Nat
  buffer : List (List UInt8)
  lengths : List Nat
  length_buffer : buffer.length = nlayers * nchannels
  length_lengths : lengths.length = nlayers * nchannels
  length_row : ∀ row ∈ buffer, row.length = width
  bounded : ∀ n ∈ lengths, n ≤ width

/-- `collect_bytes`. -/
def collectBytes (width : Nat) (buffer : List (List UInt8)) (lengths : List Nat) :
    Except PyError (List UInt8) := do
  let summedLength := cumsum 0 (lengths.map fun n : Nat => (width : Int) - n)
  let summedLength ← setFirst (roll summedLength) 0
  let indexes := repeatInterleave summedLength lengths
  let indexes := List.zipWith (· + ·) indexes (arange indexes.length)
  gather buffer.flatten indexes

/-- `CACHEGEN_GPU_MAX_TOKENS_PER_CHUNK`, the width of the rows of `recombine_bytes`. -/
def outputBufferSize : Nat := 256

/-- `recombine_bytes`: the rows in the order of the lengths. -/
def recombineBytes (bytesTensor : List UInt8) (lengths : List Nat) :
    Except PyError (List (List UInt8)) := do
  let offsets ← setFirst (roll (cumsum 0 (lengths.map Int.ofNat))) 0
  offsets.mapM fun offset =>
    gather bytesTensor ((arange outputBufferSize).map fun i =>
      min (i + offset) ((bytesTensor.length : Int) - 1))

namespace EncodedRows

/-- The used parts of the rows. -/
def used (e : EncodedRows) : List (List UInt8) := List.zipWith List.take e.lengths e.buffer

/-- **Nothing is lost**: the used parts are put one behind the other, and each row that is restored
begins with its part. -/
def Lossless (e : EncodedRows) : Prop :=
  collectBytes e.width e.buffer e.lengths = .ok e.used.flatten ∧
    ∃ restored, recombineBytes e.used.flatten e.lengths = .ok restored ∧
      List.zipWith List.take e.lengths restored = e.used

end EncodedRows

/-! ## Putting together -/

theorem length_repeatInterleave {xs : List Int} {counts : List Nat} (h : xs.length = counts.length) :
    (repeatInterleave xs counts).length = counts.sum := by
  unfold repeatInterleave
  induction xs generalizing counts with
  | nil =>
    rw [List.length_nil] at h
    rw [List.length_eq_zero_iff.mp h.symm]
    rfl
  | cons x xs ih =>
    obtain ⟨n, counts, rfl⟩ := List.exists_cons_of_length_eq_add_one h.symm
    rw [List.zipWith_cons_cons, List.flatten_cons, List.length_append, List.length_replicate,
      ih (Nat.succ.inj h), List.sum_cons]

/-- The indices of the used parts, from some bytes on: a part's offset and the number of the byte add
up to where its row starts. -/
theorem gather_used {width : Nat} (lengths : List Nat) (rows : List (List UInt8))
    (hlength : rows.length = lengths.length) (hrow : ∀ row ∈ rows, row.length = width)
    (hbounded : ∀ n ∈ lengths, n ≤ width) (before : List UInt8) (offset : Int) (start : Nat)
    (hbefore : offset + start = before.length) :
    gather (before ++ rows.flatten)
      (List.zipWith (· + ·)
        (repeatInterleave (sumsBefore offset (lengths.map fun n : Nat => (width : Int) - n)) lengths)
        ((List.range lengths.sum).map fun j => ((start + j : Nat) : Int))) =
      .ok (List.zipWith List.take lengths rows).flatten := by
  induction lengths generalizing rows before offset start with
  | nil => rfl
  | cons n lengths ih =>
    obtain ⟨row, rows, rfl⟩ := List.exists_cons_of_length_eq_add_one hlength
    rw [List.forall_mem_cons] at hrow hbounded
    have hn : n ≤ row.length := by
      rw [hrow.1]
      exact hbounded.1
    have hrest := ih rows (Nat.succ.inj hlength) hrow.2 hbounded.2 (before ++ row)
      (offset + ((width : Int) - n)) (start + n) (by
        rw [List.length_append, hrow.1]
        push_cast
        omega)
    have hfirst := gather_stretch before (row.take n) (row.drop n ++ rows.flatten)
    have hwhole : before ++ row.take n ++ (row.drop n ++ rows.flatten) =
        before ++ row ++ rows.flatten := by
      rw [List.append_assoc, ← List.append_assoc (row.take n), List.take_append_drop,
        List.append_assoc]
    rw [hwhole, List.length_take, Nat.min_eq_left hn] at hfirst
    have hindexes : List.zipWith (· + ·)
        (repeatInterleave (sumsBefore offset ((n :: lengths).map fun n : Nat => (width : Int) - n))
          (n :: lengths))
        ((List.range (n :: lengths).sum).map fun j => ((start + j : Nat) : Int)) =
        ((List.range n).map fun j => ((before.length + j : Nat) : Int)) ++
          List.zipWith (· + ·)
            (repeatInterleave (sumsBefore (offset + ((width : Int) - n))
              (lengths.map fun n : Nat => (width : Int) - n)) lengths)
            ((List.range lengths.sum).map fun j => ((start + n + j : Nat) : Int)) := by
      rw [List.map_cons, sumsBefore, repeatInterleave, List.zipWith_cons_cons, List.flatten_cons,
        List.sum_cons, List.range_add, List.map_append, List.map_map, List.zipWith_append (by simp)]
      congr 1
      · apply List.ext_getElem
        · simp
        · intro j _ _
          simp only [List.getElem_zipWith, List.getElem_replicate, List.getElem_map,
            List.getElem_range]
          push_cast
          omega
      · congr 1
        apply List.map_congr_left
        intro j _
        simp only [Function.comp_apply, Nat.add_assoc]
    rw [hindexes, List.flatten_cons, List.zipWith_cons_cons, List.flatten_cons, ← List.append_assoc]
    exact gather_append hfirst hrest

theorem EncodedRows.length_buffer_eq (e : EncodedRows) : e.buffer.length = e.lengths.length :=
  e.length_buffer.trans e.length_lengths.symm

/-- `collect_bytes` yields the used parts, one behind the other, unless there is no row. -/
theorem collectBytes_eq (e : EncodedRows) (h : e.lengths ≠ []) :
    collectBytes e.width e.buffer e.lengths = .ok e.used.flatten := by
  have hne : (e.lengths.map fun n : Nat => (e.width : Int) - n) ≠ [] :=
    fun hnil => h (List.map_eq_nil_iff.mp hnil)
  have hlength : (repeatInterleave
      (sumsBefore 0 (e.lengths.map fun n : Nat => (e.width : Int) - n)) e.lengths).length =
        e.lengths.sum :=
    length_repeatInterleave (by rw [length_sumsBefore, List.length_map])
  unfold collectBytes
  refine bind_eq_ok.mpr ⟨_, setFirst_roll_cumsum hne, ?_⟩
  have hused := gather_used e.lengths e.buffer e.length_buffer_eq e.length_row e.bounded [] 0 0 rfl
  simp only [Nat.zero_add, List.nil_append] at hused
  dsimp only
  rw [hlength]
  exact hused

/-! ## Taking apart -/

/-- What is in bounds is taken. -/
theorem exists_gather {bytes : List UInt8} {indexes : List Int}
    (h : ∀ i ∈ indexes, 0 ≤ i ∧ i < bytes.length) :
    ∃ row, gather bytes indexes = .ok row ∧ row.length = indexes.length := by
  induction indexes with
  | nil => exact ⟨[], rfl, rfl⟩
  | cons i indexes ih =>
    rw [List.forall_mem_cons] at h
    obtain ⟨row, hrow, hlength⟩ := ih h.2
    obtain ⟨n, rfl⟩ := Int.eq_ofNat_of_zero_le h.1.1
    have hn : n < bytes.length := Int.ofNat_lt.mp h.1.2
    have hfirst : gather bytes [(n : Int)] = .ok [bytes[n]] := by
      unfold gather
      rw [mapM_eq_ok_iff, List.map_singleton, List.map_singleton,
        elementAt_of_lt (List.getElem?_eq_getElem hn)]
    exact ⟨bytes[n] :: row, gather_append hfirst hrow, by rw [List.length_cons, hlength]; rfl⟩

/-- The indices of a restored row. -/
def rowIndexes (bytes : List UInt8) (offset : Int) : List Int :=
  (arange outputBufferSize).map fun i => min (i + offset) ((bytes.length : Int) - 1)

/-- A row that is restored begins with its part, as far as it has room. -/
theorem exists_restoredRow {before part after : List UInt8}
    (hne : before ++ part ++ after ≠ []) :
    ∃ row, gather (before ++ part ++ after)
        (rowIndexes (before ++ part ++ after) before.length) = .ok row ∧
      row.length = outputBufferSize ∧ row.take part.length = part.take outputBufferSize := by
  set bytes := before ++ part ++ after with hbytes
  have hpos := List.length_pos_of_ne_nil hne
  -- the first indices are those of the part, the others are at most that of the last byte
  set room := min part.length outputBufferSize with hroom
  have hle : room ≤ part.length := Nat.min_le_left _ _
  have hle' : room ≤ outputBufferSize := Nat.min_le_right _ _
  have hcut : rowIndexes bytes before.length =
      ((List.range (part.take room).length).map fun j => ((before.length + j : Nat) : Int)) ++
        (List.range (outputBufferSize - room)).map fun j =>
          min ((room + j : Nat) + (before.length : Int)) ((bytes.length : Int) - 1) := by
    have hrange : List.range outputBufferSize =
        List.range room ++ (List.range (outputBufferSize - room)).map (room + ·) := by
      rw [← List.range_add, Nat.add_sub_cancel' hle']
    unfold rowIndexes arange
    rw [hrange, List.map_append, List.map_append, List.length_take, Nat.min_eq_left hle,
      List.map_map, List.map_map, List.map_map]
    congr 1
    apply List.map_congr_left
    intro j hj
    rw [List.mem_range] at hj
    have hlength : before.length + part.length ≤ bytes.length := by
      rw [hbytes, List.length_append, List.length_append]
      omega
    show min ((j : Int) + before.length) ((bytes.length : Int) - 1) = ((before.length + j : Nat) : Int)
    push_cast
    omega
  have hfirst := gather_stretch before (part.take room) (part.drop room ++ after)
  have hwhole : before ++ part.take room ++ (part.drop room ++ after) = bytes := by
    rw [List.append_assoc, ← List.append_assoc (part.take room), List.take_append_drop, hbytes,
      List.append_assoc]
  rw [hwhole] at hfirst
  have hbounds : ∀ i ∈ (List.range (outputBufferSize - room)).map (fun j =>
      min ((room + j : Nat) + (before.length : Int)) ((bytes.length : Int) - 1)),
      0 ≤ i ∧ i < bytes.length := by
    intro i hi
    obtain ⟨j, -, rfl⟩ := List.mem_map.mp hi
    push_cast
    omega
  obtain ⟨rest, hrest, hlength⟩ := exists_gather hbounds
  refine ⟨part.take room ++ rest, ?_, ?_, ?_⟩
  · rw [hcut]
    exact gather_append hfirst hrest
  · rw [List.length_append, List.length_take, hlength, List.length_map, List.length_range]
    omega
  · rw [List.length_map, List.length_range] at hlength
    rcases le_total part.length outputBufferSize with hfits | hlong
    · rw [hroom, Nat.min_eq_left hfits, List.take_length, List.take_left,
        List.take_of_length_le hfits]
    · have hnil : rest = [] := by
        rw [← List.length_eq_zero_iff]
        omega
      rw [hnil, List.append_nil, hroom, Nat.min_eq_right hlong, List.take_take,
        Nat.min_eq_right hlong]

/-- The rows are restored one by one, from some bytes on. -/
theorem exists_restored (lengths : List Nat) (parts : List (List UInt8))
    (hparts : parts.map List.length = lengths) (before : List UInt8)
    (hne : before ++ parts.flatten ≠ []) :
    ∃ restored, (sumsBefore before.length (lengths.map Int.ofNat)).mapM (fun offset =>
        gather (before ++ parts.flatten) (rowIndexes (before ++ parts.flatten) offset)) =
          .ok restored ∧
      (∀ row ∈ restored, row.length = outputBufferSize) ∧
      List.zipWith List.take lengths restored = parts.map (List.take outputBufferSize) := by
  induction parts generalizing lengths before with
  | nil =>
    subst hparts
    exact ⟨[], rfl, by simp, rfl⟩
  | cons part parts ih =>
    subst hparts
    rw [List.flatten_cons, ← List.append_assoc] at hne ⊢
    obtain ⟨row, hrow, hlength, htake⟩ := exists_restoredRow hne
    obtain ⟨restored, hrestored, hlengths, htakes⟩ := ih _ rfl (before ++ part) hne
    refine ⟨row :: restored, ?_, List.forall_mem_cons.mpr ⟨hlength, hlengths⟩, ?_⟩
    · rw [List.map_cons, List.map_cons, sumsBefore, mapM_eq_ok_iff, List.map_cons, List.map_cons,
        hrow, ← mapM_eq_ok_iff.mp hrestored, List.length_append]
      rfl
    · rw [List.map_cons, List.zipWith_cons_cons, htake, htakes, List.map_cons]

namespace EncodedRows

variable (e : EncodedRows)

/-- A used part has the length that is given for it. -/
theorem map_length_used : e.used.map List.length = e.lengths := by
  unfold used
  have hlength := e.length_buffer_eq
  have hrow := e.length_row
  have hbounded := e.bounded
  generalize e.lengths = lengths at hlength hbounded ⊢
  generalize e.buffer = rows at hlength hrow ⊢
  induction lengths generalizing rows with
  | nil => rfl
  | cons n lengths ih =>
    obtain ⟨row, rows, rfl⟩ := List.exists_cons_of_length_eq_add_one hlength
    rw [List.forall_mem_cons] at hrow hbounded
    rw [List.zipWith_cons_cons, List.map_cons, List.length_take, hrow.1,
      Nat.min_eq_left hbounded.1, ih hbounded.2 rows (Nat.succ.inj hlength) hrow.2]

/-- There is a byte when some length is positive. -/
theorem used_flatten_ne_nil : e.used.flatten ≠ [] ↔ ∃ n ∈ e.lengths, 0 < n := by
  rw [← e.map_length_used, ne_eq, List.flatten_eq_nil_iff]
  push Not
  simp only [List.mem_map]
  constructor
  · rintro ⟨part, hpart, hne⟩
    exact ⟨part.length, ⟨part, hpart, rfl⟩, List.length_pos_of_ne_nil hne⟩
  · rintro ⟨_, ⟨part, hpart, rfl⟩, hpos⟩
    exact ⟨part, hpart, List.ne_nil_of_length_pos hpos⟩

/-- What `recombine_bytes` restores, if there is a byte. -/
theorem exists_recombined (h : ∃ n ∈ e.lengths, 0 < n) :
    ∃ restored, recombineBytes e.used.flatten e.lengths = .ok restored ∧
      List.zipWith List.take e.lengths restored = e.used.map (List.take outputBufferSize) := by
  obtain ⟨restored, hrestored, -, htakes⟩ := exists_restored e.lengths e.used e.map_length_used []
    (by rw [List.nil_append]; exact e.used_flatten_ne_nil.mpr h)
  refine ⟨restored, ?_, htakes⟩
  have hne : e.lengths.map Int.ofNat ≠ [] := by
    obtain ⟨n, hn, -⟩ := h
    exact List.ne_nil_of_mem (List.mem_map_of_mem hn)
  unfold recombineBytes
  exact bind_eq_ok.mpr ⟨_, setFirst_roll_cumsum hne, hrestored⟩

/-- Without a byte nothing is restored: there is no row, or the first one cannot be filled. -/
theorem recombineBytes_nil (lengths : List Nat) : ∃ err, recombineBytes [] lengths = .error err := by
  unfold recombineBytes
  cases lengths with
  | nil => exact ⟨_, rfl⟩
  | cons n lengths =>
    have hfirst : setFirst (roll (cumsum 0 ((n :: lengths).map Int.ofNat))) 0 =
        .ok (sumsBefore 0 ((n :: lengths).map Int.ofNat)) :=
      setFirst_roll_cumsum (List.cons_ne_nil _ _)
    rw [hfirst]
    exact ⟨_, rfl⟩

/-- **The packing is lossless exactly when there is a byte to take and no row is wider than those that
are restored.** -/
theorem lossless_iff : e.Lossless ↔
    (∃ n ∈ e.lengths, 0 < n) ∧ ∀ n ∈ e.lengths, n ≤ outputBufferSize := by
  constructor
  · rintro ⟨-, restored, hrestored, htakes⟩
    have hsome : ∃ n ∈ e.lengths, 0 < n := by
      rw [← e.used_flatten_ne_nil]
      intro hnil
      rw [hnil] at hrestored
      obtain ⟨err, herr⟩ := recombineBytes_nil e.lengths
      rw [herr] at hrestored
      cases hrestored
    refine ⟨hsome, ?_⟩
    obtain ⟨restored', hrestored', htakes'⟩ := e.exists_recombined hsome
    rw [hrestored] at hrestored'
    cases hrestored'
    -- each part is what is left of it in 256 bytes
    rw [htakes] at htakes'
    rw [← e.map_length_used]
    intro n hn
    obtain ⟨part, hpart, rfl⟩ := List.mem_map.mp hn
    have hsame : part = part.take outputBufferSize :=
      List.map_eq_map_iff.mp ((List.map_id _).trans htakes') part hpart
    rw [hsame, List.length_take]
    exact Nat.min_le_left _ _
  · rintro ⟨hsome, hfits⟩
    obtain ⟨restored, hrestored, htakes⟩ := e.exists_recombined hsome
    refine ⟨collectBytes_eq e ?_, restored, hrestored, ?_⟩
    · obtain ⟨n, hn, -⟩ := hsome
      exact List.ne_nil_of_mem hn
    · rw [htakes]
      conv_rhs => rw [← List.map_id e.used]
      apply List.map_congr_left
      intro part hpart
      apply List.take_of_length_le
      apply hfits
      rw [← e.map_length_used]
      exact List.mem_map_of_mem hpart

/-- Two channels of which nothing is used. -/
def nothingUsed : EncodedRows where
  nlayers := 1
  nchannels := 2
  width := 4
  buffer := [[0, 0, 0, 0], [0, 0, 0, 0]]
  lengths := [0, 0]
  length_buffer := rfl
  length_lengths := rfl
  length_row := by decide
  bounded := by decide

/-- They are put together to no byte at all, and `recombine_bytes` raises. -/
theorem not_lossless_nothingUsed : ¬nothingUsed.Lossless := by
  rintro ⟨-, restored, hrestored, -⟩
  obtain ⟨err, herr⟩ := recombineBytes_nil nothingUsed.lengths
  have hnil : nothingUsed.used.flatten = [] := rfl
  rw [hnil, herr] at hrestored
  cases hrestored

end EncodedRows

end LMCache.Serde
