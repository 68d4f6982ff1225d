/-
# LMCache.Memory.PageLayouts — what a recycled page says of its own layout.

Source: `v1/memory_management.py`, `TensorMemoryObj.__init__`, `TensorMemoryObj.get_size`,
`TensorMemoryObj.get_tensor`, and `PagedTensorMemoryAllocator.allocate` and `batched_allocate`.

A page is built once, for the shapes of a full chunk, and `group_prefix_sum` is computed then.  An
allocation writes the shapes that were asked for into the metadata of the page and cuts its buffer;
the prefix sums stay.  So `get_size` and `get_tensor` answer for the shapes of the allocator, and a
page reports its own layout exactly when the two have the same group sizes.

The property and the condition are both about one call, on the page objects and the queue before it;
they are compared along whole runs, in which pages come back in any order, from any owner, more than
once or not at all.
-/
import LMCache.Memory.PagedAllocator

namespace LMCache.Memory

open LMCache.Lib

/-! ## The source -/

/-- The bytes of each layer group. -/
def groupSizes (shapes : List TorchSize) (dtypes : List TorchDtype) : List Nat :=
  List.zipWith (fun s d => TorchSize.numel s * d.itemsize) shapes dtypes

/-- The loop of `__init__` over the group sizes, from a `size_in_bytes` on. -/
def prefixSumsFrom : Nat → List Nat → List Nat
  | _, [] => []
  | sizeInBytes, n :: sizes => (sizeInBytes + n) :: prefixSumsFrom (sizeInBytes + n) sizes

/-- `[0, size_of_group_1, size_of_group_1 + size_of_group_2]`, and so on. -/
def prefixSums (sizes : List Nat) : List Nat := 0 :: prefixSumsFrom 0 sizes

/-- How torch names a dtype in its errors. -/
def TorchDtype.scalarName : TorchDtype → String
  | .float16 => "Half" | .bfloat16 => "BFloat16" | .float32 => "Float" | .float64 => "Double"
  | .int8 => "Char" | .uint8 => "Byte" | .int16 => "Short" | .int32 => "Int" | .int64 => "Long"
  | .bool => "Bool"
  | .float8_e4m3fn => "Float8_e4m3fn" | .float8_e4m3fnuz => "Float8_e4m3fnuz"
  | .float8_e5m2 => "Float8_e5m2" | .float8_e5m2fnuz => "Float8_e5m2fnuz"

/-- A typed view of a stretch of bytes. -/
structure TensorView where
  bytes : BufferSlice
  dtype : TorchDtype
  shape : TorchSize
  deriving DecidableEq, Repr

namespace BufferSlice

/-- What `t.view(dtype)` says when a size or an offset is not a multiple of the item size. -/
def viewMessage (what : String) (dtype : TorchDtype) (got : Nat) : String :=
  s!"self.{what} must be divisible by {dtype.itemsize} to view Byte as {dtype.scalarName} " ++
    s!"(different element sizes), but got {got}"

/-- `t.view(dtype)` of a flat byte tensor whose buffer starts `storageOffset` bytes into its
storage: the number of elements. -/
def viewDtype (storageOffset : Nat) (t : BufferSlice) (dtype : TorchDtype) : Except PyError Nat :=
  if t.length % dtype.itemsize ≠ 0 then
    .error (.runtimeError (viewMessage "size(-1)" dtype t.length))
  else if (storageOffset + t.start) % dtype.itemsize ≠ 0 then
    .error (.runtimeError (viewMessage "storage_offset()" dtype (storageOffset + t.start)))
  else .ok (t.length / dtype.itemsize)

end BufferSlice

/-- `t.view(shape)` of a flat tensor of `n` elements. -/
def viewShape (n : Nat) (shape : TorchSize) : Except PyError TorchSize :=
  if TorchSize.numel shape = n then .ok shape
  else .error (.runtimeError ("shape '[" ++ ", ".intercalate (shape.map toString) ++
    s!"]' is invalid for input of size {n}"))

namespace TensorMemoryObj

/-- `group_prefix_sum`, as `__init__` computes it. -/
def groupPrefixSum (o : TensorMemoryObj) : List Nat :=
  prefixSums (groupSizes o.metadata.shapes o.metadata.dtypes)

/-- `get_size`: the last prefix sum. -/
def getSize (groupPrefixSum : List Nat) : Nat := groupPrefixSum.getLastD 0

/-- `get_tensor`. -/
def getTensor (storageOffset : Nat) (groupPrefixSum : List Nat) (o : TensorMemoryObj)
    (index : Nat) : Except PyError (Option TensorView) :=
  if !o.valid then .ok none
  else
    match groupPrefixSum[index]?, groupPrefixSum[index + 1]?, o.metadata.dtypes[index]?,
      o.metadata.shapes[index]? with
    | some start, some stop, some dtype, some shape =>
      let t := o.rawData.slice start stop
      match t.viewDtype storageOffset dtype with
      | .error e => .error e
      | .ok n =>
        match viewShape n shape with
        | .error e => .error e
        | .ok shape => .ok (some ⟨t, dtype, shape⟩)
    | _, _, _, _ => .error (.indexError indexMessage)

end TensorMemoryObj

/-! ## Pages that are handed out -/

/-- A paged allocator with the prefix sums of its pages, and what the last call handed out. -/
structure PagedLayouts where
  allocator : PagedTensorMemoryAllocator
  /-- `group_prefix_sum` of each page, which nothing assigns after the page is built. -/
  groupPrefixSums : List (List Nat)
  /-- Where the buffer starts in its storage. -/
  storageOffset : Nat
  handed : List Nat
  /-- The shapes the last call was made with, and the dtypes. -/
  shapes : List TorchSize
  dtypes : List TorchDtype

/-- The shapes and dtypes of an allocating call. -/
def PagedCall.request : PagedCall → List TorchSize × List TorchDtype
  | .allocate shapes dtypes _ => (shapes.toList, dtypes.toList)
  | .batchedAllocate shapes dtypes _ _ => (shapes.toList, dtypes.toList)
  | _ => ([], [])

/-- How many pages a call asks for. -/
def PagedCall.count : PagedCall → Nat
  | .allocate _ _ _ => 1
  | .batchedAllocate _ _ batchSize _ => batchSize
  | _ => 0

namespace PagedLayouts

def init (a : PagedTensorMemoryAllocator) (storageOffset : Nat) : PagedLayouts where
  allocator := a
  groupPrefixSums := a.pages.map TensorMemoryObj.groupPrefixSum
  storageOffset := storageOffset
  handed := []
  shapes := []
  dtypes := []

def step (s : PagedLayouts) (c : PagedCall) : PagedLayouts where
  allocator := PagedPool.callAllocator s.allocator c
  groupPrefixSums := s.groupPrefixSums
  storageOffset := s.storageOffset
  handed := PagedPool.handedOut s.allocator c
  shapes := c.request.1
  dtypes := c.request.2

/-- The object with these prefix sums says of itself that it has these groups. -/
structure ReportsGroups (storageOffset : Nat) (groupPrefixSum : List Nat) (o : TensorMemoryObj)
    (shapes : List TorchSize) (dtypes : List TorchDtype) : Prop where
  size : TensorMemoryObj.getSize groupPrefixSum = (groupSizes shapes dtypes).sum
  shapes_eq : o.metadata.shapes = shapes
  dtypes_eq : o.metadata.dtypes = dtypes
  views : ∀ i dtype shape, dtypes[i]? = some dtype → shapes[i]? = some shape →
    o.getTensor storageOffset groupPrefixSum i = .ok (some
      ⟨⟨o.rawData.start + ((groupSizes shapes dtypes).take i).sum,
        TorchSize.numel shape * dtype.itemsize⟩, dtype, shape⟩)

/-- **Every page that the last call handed out reports the layout it was asked for.** -/
def Reports (s : PagedLayouts) : Prop :=
  ∀ p ∈ s.handed, ∃ o sums, s.allocator.pages[p]? = some o ∧ s.groupPrefixSums[p]? = some sums ∧
    ReportsGroups s.storageOffset sums o s.shapes s.dtypes

/-- The groups that are asked for are, in bytes, those of the allocator, which has only empty groups
beyond them; the page has a buffer, in which every group starts on a multiple of its item size. -/
structure SameGroups (s : PagedLayouts) (p : Nat) (shapes : List TorchSize)
    (dtypes : List TorchDtype) : Prop where
  groups : groupSizes shapes dtypes <+: groupSizes s.allocator.shapes s.allocator.dtypes
  sum : (groupSizes shapes dtypes).sum = s.allocator.alignBytes
  buffer : ∃ buf, s.allocator.pagedBuffers[p]? = some buf ∧ buf.length = s.allocator.alignBytes ∧
    ∀ i dtype, dtypes[i]? = some dtype →
      (s.storageOffset + (buf.start + ((groupSizes shapes dtypes).take i).sum)) %
        dtype.itemsize = 0

instance (s : PagedLayouts) (p : Nat) (shapes : List TorchSize) (dtypes : List TorchDtype) :
    Decidable (s.SameGroups p shapes dtypes) :=
  decidable_of_iff
    (groupSizes shapes dtypes <+: groupSizes s.allocator.shapes s.allocator.dtypes ∧
      (groupSizes shapes dtypes).sum = s.allocator.alignBytes ∧
      ∃ buf ∈ s.allocator.pagedBuffers[p]?, buf.length = s.allocator.alignBytes ∧
        ∀ i < dtypes.length, ∀ dtype ∈ dtypes[i]?,
          (s.storageOffset + (buf.start + ((groupSizes shapes dtypes).take i).sum)) %
            dtype.itemsize = 0) <| by
    constructor
    · rintro ⟨hgroups, hsum, buf, hbuf, hlength, hoffset⟩
      refine ⟨hgroups, hsum, buf, hbuf, hlength, fun i dtype hi => ?_⟩
      exact hoffset i (List.getElem?_eq_some_iff.mp hi).1 dtype hi
    · rintro ⟨hgroups, hsum, buf, hbuf, hlength, hoffset⟩
      exact ⟨hgroups, hsum, buf, hbuf, hlength, fun i _ dtype hi => hoffset i dtype hi⟩

/-- The pages that a call takes: the front of the queue, if it is long enough, and if there are as
many shapes as dtypes, and one at least. -/
def taken (a : PagedTensorMemoryAllocator) (shapes : List TorchSize) (dtypes : List TorchDtype)
    (n : Nat) : List Nat :=
  if shapes.length = dtypes.length ∧ shapes ≠ [] ∧ n ≤ a.freeBlocks.length then
    a.freeBlocks.take n
  else []

/-- The condition on one call: a page that it takes has the groups that it asks for. -/
def Fits (s : PagedLayouts) (c : PagedCall) : Prop :=
  ∀ p ∈ taken s.allocator c.request.1 c.request.2 c.count, s.SameGroups p c.request.1 c.request.2

instance (s : PagedLayouts) (c : PagedCall) : Decidable (s.Fits c) :=
  inferInstanceAs (Decidable (∀ p ∈ _, _))

end PagedLayouts

/-! ## Group sizes and prefix sums -/

theorem TorchDtype.itemsize_pos (d : TorchDtype) : 0 < d.itemsize := by
  cases d <;> decide

variable {dtypes : List TorchDtype} {i : Nat} {shapes : List TorchSize} {o : TensorMemoryObj}

theorem getElem?_groupSizes {shape : TorchSize} {dtype : TorchDtype}
    (hshape : shapes[i]? = some shape) (hdtype : dtypes[i]? = some dtype) :
    (groupSizes shapes dtypes)[i]? = some (TorchSize.numel shape * dtype.itemsize) := by
  unfold groupSizes
  rw [List.getElem?_zipWith, hshape, hdtype]

theorem length_groupSizes (h : shapes.length = dtypes.length) :
    (groupSizes shapes dtypes).length = shapes.length := by
  unfold groupSizes
  rw [List.length_zipWith, h, Nat.min_self]

theorem getSizeBytes_eq (h : shapes.length = dtypes.length) :
    getSizeBytes shapes dtypes = .ok (groupSizes shapes dtypes).sum := by
  unfold getSizeBytes
  rw [if_pos h]
  rfl

theorem sum_take_le (l : List Nat) (i : Nat) : (l.take i).sum ≤ l.sum := by
  have hsplit := congrArg List.sum (List.take_append_drop i l)
  rw [List.sum_append] at hsplit
  omega

/-- The sum of the first entries, and one more. -/
theorem sum_take_succ_of_getElem? {l : List Nat} {n : Nat} (h : l[i]? = some n) :
    (l.take (i + 1)).sum = (l.take i).sum + n := by
  obtain ⟨hlt, rfl⟩ := List.getElem?_eq_some_iff.mp h
  exact List.sum_take_succ l i hlt

/-- A list whose sums of first entries are those of another is the beginning of the other. -/
theorem isPrefix_of_sums {g G : List Nat} (hlen : g.length ≤ G.length)
    (hsums : ∀ i ≤ g.length, (g.take i).sum = (G.take i).sum) : g <+: G := by
  rw [List.prefix_iff_eq_take]
  refine List.ext_getElem (by rw [List.length_take]; omega) fun i hi hi' => ?_
  have hG : i < G.length := by omega
  have hbefore := hsums i hi.le
  have hafter := hsums (i + 1) hi
  rw [List.sum_take_succ g i hi, List.sum_take_succ G i hG] at hafter
  rw [List.getElem_take]
  omega

theorem sum_take_of_isPrefix {g G : List Nat} (h : g <+: G) (hi : i ≤ g.length) :
    (G.take i).sum = (g.take i).sum := by
  obtain ⟨t, rfl⟩ := h
  rw [List.take_append_of_le_length hi]

variable (sizes : List Nat)

theorem getElem?_prefixSumsFrom (k i : Nat) :
    (k :: prefixSumsFrom k sizes)[i]? =
      if i ≤ sizes.length then some (k + (sizes.take i).sum) else none := by
  induction sizes generalizing k i with
  | nil =>
    cases i with
    | zero => rfl
    | succ i => rfl
  | cons n sizes ih =>
    cases i with
    | zero => rfl
    | succ i =>
      rw [List.getElem?_cons_succ, prefixSumsFrom, ih, List.take_succ_cons, List.sum_cons,
        List.length_cons, Nat.add_assoc]
      by_cases hi : i ≤ sizes.length
      · rw [if_pos hi, if_pos (by omega)]
      · rw [if_neg hi, if_neg (by omega)]

theorem getElem?_prefixSums (i : Nat) :
    (prefixSums sizes)[i]? = if i ≤ sizes.length then some (sizes.take i).sum else none := by
  unfold prefixSums
  rw [getElem?_prefixSumsFrom]
  simp only [Nat.zero_add]

theorem getLastD_prefixSums : (prefixSums sizes).getLastD 0 = sizes.sum := by
  have hlast : ∀ (k : Nat) (sizes : List Nat),
      (k :: prefixSumsFrom k sizes).getLastD 0 = k + sizes.sum := by
    intro k sizes
    induction sizes generalizing k with
    | nil => rfl
    | cons n sizes ih =>
      have hnext := ih (k + n)
      rw [prefixSumsFrom, List.sum_cons]
      simp only [List.getLastD_cons] at hnext ⊢
      omega
  exact (hlast 0 sizes).trans (Nat.zero_add _)

/-! ## One object -/

theorem BufferSlice.slice_natCast (t : BufferSlice) (start stop : Nat) :
    t.slice start stop =
      ⟨t.start + min start t.length, min stop t.length - min start t.length⟩ := by
  unfold BufferSlice.slice BufferSlice.clampBound
  rw [if_neg (by omega), if_neg (by omega)]
  simp only [Int.toNat_natCast]

/-- When `get_tensor` returns a view, and which. -/
theorem getTensor_eq_iff {storageOffset : Nat} {sums : List Nat} (hvalid : o.valid = true)
    {start stop : Nat} (hstart : sums[i]? = some start) (hstop : sums[i + 1]? = some stop)
    {dtype : TorchDtype} {shape : TorchSize} (hdtype : o.metadata.dtypes[i]? = some dtype)
    (hshape : o.metadata.shapes[i]? = some shape) {t : BufferSlice} :
    o.getTensor storageOffset sums i = .ok (some ⟨t, dtype, shape⟩) ↔
      o.rawData.slice start stop = t ∧ t.length % dtype.itemsize = 0 ∧
        (storageOffset + t.start) % dtype.itemsize = 0 ∧
        TorchSize.numel shape = t.length / dtype.itemsize := by
  unfold TensorMemoryObj.getTensor
  rw [hvalid, hstart, hstop, hdtype, hshape]
  simp only [Bool.not_true, Bool.false_eq_true, if_false]
  unfold BufferSlice.viewDtype viewShape
  generalize o.rawData.slice start stop = t'
  by_cases hsize : t'.length % dtype.itemsize = 0
  · rw [if_neg (not_not.mpr hsize)]
    by_cases hoffset : (storageOffset + t'.start) % dtype.itemsize = 0
    · rw [if_neg (not_not.mpr hoffset)]
      dsimp only
      by_cases hnumel : TorchSize.numel shape = t'.length / dtype.itemsize
      · rw [if_pos hnumel]
        simp only [Except.ok.injEq, Option.some.injEq, TensorView.mk.injEq, and_true]
        constructor
        · rintro rfl
          exact ⟨rfl, hsize, hoffset, hnumel⟩
        · exact fun h => h.1
      · rw [if_neg hnumel]
        refine iff_of_false (by simp) ?_
        rintro ⟨rfl, -, -, h⟩
        exact hnumel h
    · rw [if_pos hoffset]
      refine iff_of_false (by simp) ?_
      rintro ⟨rfl, -, h, -⟩
      exact hoffset h
  · rw [if_pos hsize]
    refine iff_of_false (by simp) ?_
    rintro ⟨rfl, h, -⟩
    exact hsize h

/-- An index beyond the prefix sums raises. -/
theorem getTensor_of_none {storageOffset : Nat} {sums : List Nat} (hvalid : o.valid = true)
    (hstop : sums[i + 1]? = none) :
    o.getTensor storageOffset sums i = .error (.indexError indexMessage) := by
  unfold TensorMemoryObj.getTensor
  rw [hvalid, hstop]
  cases sums[i]? with
  | none => rfl
  | some start => rfl

/-- What an object needs to report its groups, when its prefix sums are those of other groups.  The
buffer may be cut to the size of its own. -/
theorem reportsGroups_iff (storageOffset : Nat) (G : List Nat) (hvalid : o.valid = true)
    (hlen : shapes.length = dtypes.length) (hne : shapes ≠ [])
    (hshapes : o.metadata.shapes = shapes) (hdtypes : o.metadata.dtypes = dtypes) :
    PagedLayouts.ReportsGroups storageOffset (prefixSums G) o shapes dtypes ↔
      groupSizes shapes dtypes <+: G ∧ (groupSizes shapes dtypes).sum = G.sum ∧
        G.sum ≤ o.rawData.length ∧ ∀ i dtype, dtypes[i]? = some dtype →
          (storageOffset + (o.rawData.start + ((groupSizes shapes dtypes).take i).sum)) %
            dtype.itemsize = 0 := by
  have hcount := length_groupSizes hlen
  constructor
  · rintro ⟨hsize, -, -, hviews⟩
    rw [TensorMemoryObj.getSize, getLastD_prefixSums] at hsize
    -- what a view says of the prefix sums at its two ends
    have hends : ∀ i < shapes.length, i + 1 ≤ G.length ∧
        min (G.take i).sum o.rawData.length = ((groupSizes shapes dtypes).take i).sum ∧
        min (G.take (i + 1)).sum o.rawData.length =
          ((groupSizes shapes dtypes).take (i + 1)).sum ∧
        ∀ dtype, dtypes[i]? = some dtype →
          (storageOffset + (o.rawData.start + ((groupSizes shapes dtypes).take i).sum)) %
            dtype.itemsize = 0 := by
      intro i hi
      have hshape := List.getElem?_eq_getElem hi
      have hdtype := List.getElem?_eq_getElem (hlen ▸ hi : i < dtypes.length)
      have hview := hviews i _ _ hdtype hshape
      have hsucc := sum_take_succ_of_getElem? (getElem?_groupSizes hshape hdtype)
      have hG : i + 1 ≤ G.length := by
        by_contra hout
        rw [getTensor_of_none hvalid (by rw [getElem?_prefixSums, if_neg hout])] at hview
        cases hview
      have hstart : (prefixSums G)[i]? = some (G.take i).sum := by
        rw [getElem?_prefixSums, if_pos (by omega)]
      have hstop : (prefixSums G)[i + 1]? = some (G.take (i + 1)).sum := by
        rw [getElem?_prefixSums, if_pos hG]
      rw [getTensor_eq_iff hvalid hstart hstop (hdtypes ▸ hdtype) (hshapes ▸ hshape)] at hview
      obtain ⟨hslice, -, hoffset, -⟩ := hview
      rw [BufferSlice.slice_natCast, BufferSlice.mk.injEq] at hslice
      have hmono : (G.take i).sum ≤ (G.take (i + 1)).sum := by
        have hGi := List.getElem?_eq_getElem (show i < G.length by omega)
        rw [sum_take_succ_of_getElem? hGi]
        omega
      refine ⟨hG, by omega, by omega, fun dtype hd => ?_⟩
      rw [hdtype] at hd
      cases hd
      exact hoffset
    -- the last group ends where all of them do
    have hlast : 0 < shapes.length := List.length_pos_iff.mpr hne
    obtain ⟨hG, -, hend, -⟩ := hends (shapes.length - 1) (by omega)
    rw [Nat.sub_add_cancel hlast] at hG hend
    rw [← hcount, List.take_length, ← hsize] at hend
    have hle : G.sum ≤ o.rawData.length := by omega
    refine ⟨isPrefix_of_sums (by omega) fun i hi => ?_, hsize.symm, hle, fun i dtype hi => ?_⟩
    · have hbound := sum_take_le G i
      rcases Nat.lt_or_ge i shapes.length with hlt | hge
      · have := (hends i hlt).2.1
        omega
      · rw [show i = (groupSizes shapes dtypes).length by omega, List.take_length, ← hsize]
        have := sum_take_le G (groupSizes shapes dtypes).length
        omega
    · have hlt := (List.getElem?_eq_some_iff.mp hi).1
      exact (hends i (by omega)).2.2.2 dtype hi
  · rintro ⟨hstarts, hsum, hle, hoffset⟩
    refine ⟨?_, hshapes, hdtypes, fun i dtype shape hdtype hshape => ?_⟩
    · rw [TensorMemoryObj.getSize, getLastD_prefixSums, hsum]
    · have hlt := (List.getElem?_eq_some_iff.mp hshape).1
      have hG := hstarts.length_le
      have hsize := getElem?_groupSizes hshape hdtype
      have hsucc := sum_take_succ_of_getElem? hsize
      have hstart : (prefixSums G)[i]? = some ((groupSizes shapes dtypes).take i).sum := by
        rw [getElem?_prefixSums, if_pos (by omega), sum_take_of_isPrefix hstarts (by omega)]
      have hstop : (prefixSums G)[i + 1]? = some ((groupSizes shapes dtypes).take (i + 1)).sum := by
        rw [getElem?_prefixSums, if_pos (by omega), sum_take_of_isPrefix hstarts (by omega)]
      rw [getTensor_eq_iff hvalid hstart hstop (hdtypes ▸ hdtype) (hshapes ▸ hshape),
        BufferSlice.slice_natCast]
      have hend := sum_take_le (groupSizes shapes dtypes) (i + 1)
      refine ⟨?_, Nat.mul_mod_left _ _, hoffset i dtype hdtype,
        (Nat.mul_div_cancel _ dtype.itemsize_pos).symm⟩
      rw [BufferSlice.mk.injEq]
      omega

/-! ## Pages from call to call -/

namespace PagedTensorMemoryAllocator

/-- What was asked for is cut out of a buffer, unless it is what the allocator was made for. -/
def cut (a : PagedTensorMemoryAllocator) (shapes : List TorchSize) (dtypes : List TorchDtype)
    (buf : BufferSlice) : BufferSlice :=
  if shapes ≠ a.shapes then buf.slice 0 ((groupSizes shapes dtypes).sum : Nat) else buf

theorem cut_start (a : PagedTensorMemoryAllocator) (shapes : List TorchSize)
    (dtypes : List TorchDtype) (buf : BufferSlice) :
    (a.cut shapes dtypes buf).start = buf.start := by
  have hslice := buf.slice_natCast 0 (groupSizes shapes dtypes).sum
  unfold cut
  split
  · rw [← Nat.cast_zero, hslice]
    simp
  · rfl

theorem cut_length (a : PagedTensorMemoryAllocator) (shapes : List TorchSize)
    (dtypes : List TorchDtype) (buf : BufferSlice) :
    (a.cut shapes dtypes buf).length =
      if shapes ≠ a.shapes then min (groupSizes shapes dtypes).sum buf.length else buf.length := by
  have hslice := buf.slice_natCast 0 (groupSizes shapes dtypes).sum
  unfold cut
  split
  · rw [← Nat.cast_zero, hslice]
    simp
  · rfl

variable {a b c : PagedTensorMemoryAllocator} {dtypes : List TorchDtype} {shapes : List TorchSize}
  {ps : List Nat}

theorem cut_eq_self {buf : BufferSlice}
    (h : shapes ≠ a.shapes → buf.length ≤ (groupSizes shapes dtypes).sum) :
    a.cut shapes dtypes buf = buf := by
  have hstart := a.cut_start shapes dtypes buf
  have hlength := a.cut_length shapes dtypes buf
  have hkeep : (a.cut shapes dtypes buf).length = buf.length := by
    rw [hlength]
    split
    · exact Nat.min_eq_right (h ‹_›)
    · rfl
  generalize a.cut shapes dtypes buf = t at *
  obtain ⟨start, length⟩ := t
  obtain ⟨start', length'⟩ := buf
  dsimp only at hstart hkeep
  rw [hstart, hkeep]

theorem cut_cut (a : PagedTensorMemoryAllocator) (shapes : List TorchSize)
    (dtypes : List TorchDtype) (buf : BufferSlice) :
    a.cut shapes dtypes (a.cut shapes dtypes buf) = a.cut shapes dtypes buf := by
  apply cut_eq_self
  intro hne
  rw [cut_length, if_pos hne]
  exact Nat.min_le_left _ _

/-- Page `p` has its whole buffer. -/
structure WholePage (a : PagedTensorMemoryAllocator) (p : Nat) (o : TensorMemoryObj) : Prop where
  valid : o.valid = true
  address : o.metadata.address = p
  buffer : a.pagedBuffers[p]? = some o.rawData

/-- Page `p` was made what was asked for. -/
structure CutPage (a : PagedTensorMemoryAllocator) (shapes : List TorchSize)
    (dtypes : List TorchDtype) (p : Nat) (o : TensorMemoryObj) : Prop where
  valid : o.valid = true
  address : o.metadata.address = p
  shapes_eq : o.metadata.shapes = shapes
  dtypes_eq : o.metadata.dtypes = dtypes
  buffer : ∃ buf, a.pagedBuffers[p]? = some buf ∧ o.rawData = a.cut shapes dtypes buf

/-- What no call changes. -/
structure SameFrame (a a' : PagedTensorMemoryAllocator) : Prop where
  buffers : a'.pagedBuffers = a.pagedBuffers
  shapes : a'.shapes = a.shapes
  dtypes : a'.dtypes = a.dtypes
  alignBytes : a'.alignBytes = a.alignBytes
  pages : a'.pages.length = a.pages.length

theorem SameFrame.refl (a : PagedTensorMemoryAllocator) : SameFrame a a := ⟨rfl, rfl, rfl, rfl, rfl⟩

theorem SameFrame.trans (h : SameFrame a b) (h' : SameFrame b c) : SameFrame a c :=
  ⟨h'.buffers.trans h.buffers, h'.shapes.trans h.shapes, h'.dtypes.trans h.dtypes,
    h'.alignBytes.trans h.alignBytes, h'.pages.trans h.pages⟩

/-- From `a` to `b` the pages `ps` were made what was asked for, the others have their buffers. -/
structure Takes (a b : PagedTensorMemoryAllocator) (shapes : List TorchSize)
    (dtypes : List TorchDtype) (ps : List Nat) : Prop where
  frame : SameFrame a b
  taken : ∀ p ∈ ps, ∀ o, b.pages[p]? = some o → a.CutPage shapes dtypes p o
  others : ∀ p ∉ ps, ∀ o, b.pages[p]? = some o → a.WholePage p o

def AllWhole (a : PagedTensorMemoryAllocator) : Prop :=
  ∀ p o, a.pages[p]? = some o → a.WholePage p o

/-- With no page taken, every page has its buffer. -/
theorem Takes.nil (h : SameFrame a b) (hwhole : ∀ p o, b.pages[p]? = some o → a.WholePage p o) :
    Takes a b shapes dtypes [] :=
  ⟨h, by simp, fun p _ o ho => hwhole p o ho⟩

/-! ### Pages that change by themselves -/

/-- A page is given another version of itself, with the same address and buffer. -/
theorem wholePages_set (h : a.AllWhole) {p : Nat} {o o' : TensorMemoryObj}
    (hget : a.pages[p]? = some o) (hvalid : o'.valid = o.valid)
    (haddress : o'.metadata.address = o.metadata.address) (hraw : o'.rawData = o.rawData) :
    ∀ q d, (a.pages.set p o')[q]? = some d → a.WholePage q d := by
  intro q d hd
  by_cases hpq : p = q
  · subst hpq
    rw [List.getElem?_set_self (List.getElem?_eq_some_iff.mp hget).1] at hd
    cases hd
    have hwhole := h p o hget
    exact ⟨hvalid.trans hwhole.valid, haddress.trans hwhole.address, hraw ▸ hwhole.buffer⟩
  · rw [List.getElem?_set_ne hpq] at hd
    exact h q d hd

/-- From `a` to `b` nothing is handed out, and every page keeps its buffer. -/
structure KeepsPages (a b : PagedTensorMemoryAllocator) : Prop where
  frame : SameFrame a b
  whole : a.AllWhole → b.AllWhole

theorem KeepsPages.refl (a : PagedTensorMemoryAllocator) : KeepsPages a a := ⟨.refl a, id⟩

theorem KeepsPages.trans (h : KeepsPages a b) (h' : KeepsPages b c) : KeepsPages a c :=
  ⟨h.frame.trans h'.frame, fun hw => h'.whole (h.whole hw)⟩

theorem keepsPages_updatePage (a : PagedTensorMemoryAllocator) (p : Nat)
    {f : TensorMemoryObj → TensorMemoryObj} (hvalid : ∀ o, (f o).valid = o.valid)
    (haddress : ∀ o, (f o).metadata.address = o.metadata.address)
    (hraw : ∀ o, (f o).rawData = o.rawData) : KeepsPages a (a.updatePage p f) := by
  refine ⟨⟨rfl, rfl, rfl, rfl, List.length_modify ..⟩, fun h q d hd => ?_⟩
  have hd : (a.pages.modify p f)[q]? = some d := hd
  rw [List.getElem?_modify] at hd
  obtain ⟨o, ho, heq⟩ := Option.map_eq_some_iff.mp hd
  have hwhole := h q o ho
  split at heq
  · subst heq
    exact ⟨(hvalid o).trans hwhole.valid, (haddress o).trans hwhole.address,
      (hraw o) ▸ hwhole.buffer⟩
  · subst heq
    exact ⟨hwhole.valid, hwhole.address, hwhole.buffer⟩

/-- A page that has its buffer is given it again. -/
theorem keepsPages_giveBack (a : PagedTensorMemoryAllocator) (p : Nat) :
    KeepsPages a (a.giveBack p) := by
  unfold giveBack
  split
  · exact .refl a
  rename_i o hget
  split
  · exact .refl a
  refine ⟨⟨rfl, rfl, rfl, rfl, List.length_set ..⟩, fun h q d hd => ?_⟩
  have hwhole := h p o hget
  have hd := wholePages_set h hget ?_ ?_ ?_ q d hd
  · exact ⟨hd.valid, hd.address, hd.buffer⟩
  · split <;> rfl
  · split <;> rfl
  · split
    · dsimp only
      rw [hwhole.address, Int.toNat_natCast, hwhole.buffer, Option.getD_some]
    · rfl

theorem keepsPages_free (a : PagedTensorMemoryAllocator) (p : Nat) : KeepsPages a (a.free p) := by
  have hgive := keepsPages_giveBack a p
  unfold free
  split
  · exact ⟨⟨hgive.frame.buffers, hgive.frame.shapes, hgive.frame.dtypes, hgive.frame.alignBytes,
      hgive.frame.pages⟩, fun h q d hd => ⟨(hgive.whole h q d hd).valid,
        (hgive.whole h q d hd).address, (hgive.whole h q d hd).buffer⟩⟩
  · exact .refl a

theorem keepsPages_foldl_giveBack (ps : List Nat) (a : PagedTensorMemoryAllocator) :
    KeepsPages a (ps.foldl giveBack a) := by
  induction ps generalizing a with
  | nil => exact .refl a
  | cons p ps ih => exact (keepsPages_giveBack a p).trans (ih _)

/-- Only the counters of the allocator change. -/
theorem KeepsPages.counters (h : KeepsPages a b) (n m : Int) :
    KeepsPages a { b with numActiveAllocations := n, totalAllocatedSize := m } :=
  ⟨⟨h.frame.buffers, h.frame.shapes, h.frame.dtypes, h.frame.alignBytes, h.frame.pages⟩,
    fun hw q d hd => ⟨(h.whole hw q d hd).valid, (h.whole hw q d hd).address,
      (h.whole hw q d hd).buffer⟩⟩

theorem keepsPages_batchedFree (a : PagedTensorMemoryAllocator) (ps : List Nat)
    (updateStats : Bool) : KeepsPages a (a.batchedFree ps updateStats) := by
  have hfold := keepsPages_foldl_giveBack ps a
  unfold batchedFree
  dsimp only
  split
  · exact hfold.counters _ _
  · exact hfold

theorem keepsPages_decrement (a : PagedTensorMemoryAllocator) (p : Nat)
    {f : TensorMemoryObj → TensorMemoryObj × Bool} (hvalid : ∀ o, (f o).1.valid = o.valid)
    (haddress : ∀ o, (f o).1.metadata.address = o.metadata.address)
    (hraw : ∀ o, (f o).1.rawData = o.rawData) : KeepsPages a (a.decrement p f) := by
  unfold decrement
  split
  · exact .refl a
  rename_i o hget
  have hset : KeepsPages a { a with pages := a.pages.set p (f o).1 } := by
    refine ⟨⟨rfl, rfl, rfl, rfl, List.length_set ..⟩, fun h q d hd => ?_⟩
    have hd := wholePages_set h hget (hvalid o) (haddress o) (hraw o) q d hd
    exact ⟨hd.valid, hd.address, hd.buffer⟩
  dsimp only
  split
  · exact hset.trans (keepsPages_free _ p)
  · exact hset

theorem keepsPages_refCountDown (a : PagedTensorMemoryAllocator) (p : Nat) :
    KeepsPages a (a.refCountDown p) :=
  keepsPages_decrement a p (fun _ => rfl) (fun _ => rfl) fun _ => rfl

theorem keepsPages_unpin (a : PagedTensorMemoryAllocator) (p : Nat) : KeepsPages a (a.unpin p) := by
  have hdecrement : KeepsPages a (a.decrement p TensorMemoryObj.unpinDecrement) :=
    keepsPages_decrement a p (fun _ => rfl) (fun _ => rfl) fun _ => rfl
  apply hdecrement.trans
  apply keepsPages_updatePage
  all_goals
    intro o
    unfold TensorMemoryObj.unpinClamp
    split <;> rfl

theorem keepsPages_unpinWhilePinned (fuel : Nat) (a : PagedTensorMemoryAllocator) (p : Nat) :
    KeepsPages a (unpinWhilePinned fuel a p) := by
  induction fuel generalizing a with
  | zero => exact .refl a
  | succ fuel ih =>
    unfold unpinWhilePinned
    split
    · exact (keepsPages_unpin a p).trans (ih _)
    · exact .refl a

/-! ### Pages that are taken -/

/-- What `allocate` makes of a page. -/
theorem reuse_eq (a : PagedTensorMemoryAllocator) (shape : TorchSize) (dtype : TorchDtype)
    (hlen : shapes.length = dtypes.length) (fmt : MemoryFormat) (o : TensorMemoryObj) :
    a.reuse shape dtype shapes dtypes fmt o =
      { o with
        rawData := a.cut shapes dtypes o.rawData
        metadata := { o.metadata with
          shape := shape, dtype := dtype, shapes := shapes, dtypes := dtypes, fmt := fmt
          refCount := 1 } } := by
  unfold reuse cut
  rw [getSizeBytes_eq hlen]
  dsimp only
  split
  · rfl
  · rfl

/-- One more page is taken, which may have been taken before. -/
theorem Takes.reuse (h : Takes a b shapes dtypes ps) (hlen : shapes.length = dtypes.length)
    (shape : TorchSize) (dtype : TorchDtype) (fmt : MemoryFormat) (p : Nat) (rest : List Nat) :
    Takes a { b with
      freeBlocks := rest
      pages := b.pages.modify p (b.reuse shape dtype shapes dtypes fmt) } shapes dtypes
      (ps ++ [p]) := by
  have hcutEq : ∀ buf, b.cut shapes dtypes buf = a.cut shapes dtypes buf := by
    intro buf
    unfold cut
    rw [h.frame.shapes]
  refine ⟨⟨h.frame.buffers, h.frame.shapes, h.frame.dtypes, h.frame.alignBytes,
    (List.length_modify ..).trans h.frame.pages⟩, fun q hq d hd => ?_, fun q hq d hd => ?_⟩
  all_goals
    dsimp only at hd
    rw [List.getElem?_modify] at hd
    obtain ⟨o, ho, heq⟩ := Option.map_eq_some_iff.mp hd
  · by_cases hpq : p = q
    · subst hpq
      rw [if_pos rfl, reuse_eq b shape dtype hlen] at heq
      subst heq
      by_cases hp : p ∈ ps
      · obtain ⟨hvalid, haddress, -, -, buf, hbuf, hraw⟩ := h.taken p hp o ho
        refine ⟨hvalid, haddress, rfl, rfl, buf, hbuf, ?_⟩
        dsimp only
        rw [hcutEq, hraw, cut_cut]
      · have hwhole := h.others p hp o ho
        exact ⟨hwhole.valid, hwhole.address, rfl, rfl, o.rawData, hwhole.buffer, hcutEq _⟩
    · rw [if_neg hpq] at heq
      subst heq
      have hq : q ∈ ps := by
        rcases List.mem_append.mp hq with hq | hq
        · exact hq
        · exact absurd (List.mem_singleton.mp hq).symm hpq
      exact h.taken q hq o ho
  · have hpq : p ≠ q := by
      rintro rfl
      exact hq (List.mem_append_right _ List.mem_cons_self)
    rw [if_neg hpq] at heq
    subst heq
    exact h.others q (fun hmem => hq (List.mem_append_left _ hmem)) o ho

/-- A page that goes back has its buffer again. -/
theorem wholePage_giveBack (hframe : SameFrame a b) {p : Nat} {o : TensorMemoryObj}
    (h : a.CutPage shapes dtypes p o ∨ a.WholePage p o) :
    a.WholePage p (if o.metadata.shapes ≠ b.shapes then
      { o with rawData := (b.pagedBuffers[o.metadata.address.toNat]?).getD o.rawData } else o) := by
  rcases h with ⟨hvalid, haddress, hshapes, -, buf, hbuf, hraw⟩ | ⟨hvalid, haddress, hbuf⟩
  · split
    · refine ⟨hvalid, haddress, ?_⟩
      dsimp only
      rw [haddress, Int.toNat_natCast, hframe.buffers, hbuf, Option.getD_some]
    · rename_i heq
      refine ⟨hvalid, haddress, ?_⟩
      rw [hraw, hbuf, cut_eq_self]
      intro hne
      rw [hframe.shapes, hshapes] at heq
      exact absurd hne heq
  · split
    · refine ⟨hvalid, haddress, ?_⟩
      dsimp only
      rw [haddress, Int.toNat_natCast, hframe.buffers, hbuf, Option.getD_some]
    · exact ⟨hvalid, haddress, hbuf⟩

/-- Pages that were taken and go back have their buffers again. -/
theorem whole_foldl_giveBack (ps : List Nat) (hframe : SameFrame a b)
    (hpages : ∀ p o, b.pages[p]? = some o →
      (p ∈ ps ∧ a.CutPage shapes dtypes p o) ∨ a.WholePage p o) :
    ∀ p o, (ps.foldl giveBack b).pages[p]? = some o → a.WholePage p o := by
  induction ps generalizing b with
  | nil =>
    intro p o ho
    rcases hpages p o ho with ⟨hp, -⟩ | hwhole
    · cases hp
    · exact hwhole
  | cons q ps ih =>
    rw [List.foldl_cons]
    apply ih (hframe.trans (keepsPages_giveBack b q).frame)
    intro p o ho
    -- a page other than the one that goes back is as it was
    have hrest : p ≠ q → b.pages[p]? = some o →
        (p ∈ ps ∧ a.CutPage shapes dtypes p o) ∨ a.WholePage p o := by
      intro hpq hp
      rcases hpages p o hp with ⟨hmem, hcut⟩ | hwhole
      · exact .inl ⟨(List.mem_cons.mp hmem).resolve_left hpq, hcut⟩
      · exact .inr hwhole
    unfold giveBack at ho
    split at ho
    · rename_i hnone
      refine hrest (fun hpq => ?_) ho
      rw [hpq, hnone] at ho
      cases ho
    · rename_i d hget
      have hpage : a.CutPage shapes dtypes q d ∨ a.WholePage q d :=
        (hpages q d hget).imp And.right id
      have hvalid : d.valid = true := by
        rcases hpage with hcut | hwhole
        · exact hcut.valid
        · exact hwhole.valid
      rw [if_neg (by rw [hvalid]; simp)] at ho
      dsimp only at ho
      by_cases hpq : p = q
      · subst hpq
        rw [List.getElem?_set_self (List.getElem?_eq_some_iff.mp hget).1] at ho
        cases ho
        exact .inr (wholePage_giveBack hframe hpage)
      · rw [List.getElem?_set_ne (Ne.symm hpq)] at ho
        exact hrest hpq ho

/-- The loop of `batched_allocate`: as many pages from the front of the queue as are asked for, or
none, and every page with its buffer. -/
theorem takes_batchedAllocateLoop {shape : TorchSize} {ss : List TorchSize} {dtype : TorchDtype}
    {ds : List TorchDtype} (hlen : (shape :: ss).length = (dtype :: ds).length) (fmt : MemoryFormat)
    (n : Nat) (h : Takes a b (shape :: ss) (dtype :: ds) ps) :
    let r := batchedAllocateLoop (shape :: ss) (dtype :: ds) fmt n b ps
    (n ≤ b.freeBlocks.length ∧ r.1 = .ok (some (ps ++ b.freeBlocks.take n)) ∧
        Takes a r.2 (shape :: ss) (dtype :: ds) (ps ++ b.freeBlocks.take n)) ∨
      (b.freeBlocks.length < n ∧ r.1 = .ok none ∧
        Takes a r.2 (shape :: ss) (dtype :: ds) []) := by
  induction n generalizing b ps with
  | zero =>
    refine .inl ⟨Nat.zero_le _, ?_, ?_⟩
    · rw [List.take_zero, List.append_nil]
      rfl
    · rw [List.take_zero, List.append_nil]
      exact h
  | succ n ih =>
    unfold batchedAllocateLoop
    cases hq : b.freeBlocks with
    | nil =>
      -- the queue is dry: what was taken goes back
      refine .inr ⟨Nat.succ_pos n, rfl, ?_⟩
      refine Takes.nil (h.frame.trans (keepsPages_batchedFree b ps false).frame) ?_
      apply whole_foldl_giveBack ps h.frame
      intro p o ho
      by_cases hp : p ∈ ps
      · exact .inl ⟨hp, h.taken p hp o ho⟩
      · exact .inr (h.others p hp o ho)
    | cons p rest =>
      have hnext := ih (h.reuse hlen shape dtype fmt p rest)
      dsimp only at hnext ⊢
      rw [List.append_assoc, List.singleton_append] at hnext
      rw [List.take_succ_cons, List.length_cons]
      rcases hnext with ⟨hle, hok, htakes⟩ | ⟨hlt, hok, htakes⟩
      · exact .inl ⟨by omega, hok, htakes⟩
      · exact .inr ⟨by omega, hok, htakes⟩

/-- An allocating call that raises, or for which there is nothing to do, takes nothing. -/
theorem takes_self (h : a.AllWhole) (freeBlocks : List Nat) (shapes : List TorchSize)
    (dtypes : List TorchDtype) : Takes a { a with freeBlocks := freeBlocks } shapes dtypes [] := by
  apply Takes.nil
  · exact ⟨rfl, rfl, rfl, rfl, rfl⟩
  · exact h

/-- Only the counters of the allocator change. -/
theorem Takes.counters (h : Takes a b shapes dtypes ps) (n m : Int) :
    Takes a { b with numActiveAllocations := n, totalAllocatedSize := m } shapes dtypes ps :=
  ⟨⟨h.frame.buffers, h.frame.shapes, h.frame.dtypes, h.frame.alignBytes, h.frame.pages⟩,
    h.taken, h.others⟩

theorem takes_allocate (h : a.AllWhole) (shapes : OneOrList TorchSize)
    (dtypes : OneOrList TorchDtype) (fmt : MemoryFormat) :
    PagedPool.pageOf (a.allocate shapes dtypes fmt).1 =
        PagedLayouts.taken a shapes.toList dtypes.toList 1 ∧
      Takes a (a.allocate shapes dtypes fmt).2 shapes.toList dtypes.toList
        (PagedLayouts.taken a shapes.toList dtypes.toList 1) := by
  have hself := takes_self h
  unfold allocate adaptShapesAndDtypes PagedLayouts.taken
  by_cases hlen : shapes.toList.length = dtypes.toList.length
  · rw [if_pos hlen]
    dsimp only
    cases hq : a.freeBlocks with
    | nil =>
      rw [if_neg (by simp)]
      exact ⟨rfl, .nil (.refl a) h⟩
    | cons p rest =>
      dsimp only
      cases hshapes : shapes.toList with
      | nil =>
        rw [if_neg (by simp)]
        exact ⟨rfl, hself _ _ _⟩
      | cons shape ss =>
        cases hdtypes : dtypes.toList with
        | nil => simp [hshapes, hdtypes] at hlen
        | cons dtype ds =>
          rw [hshapes, hdtypes] at hlen
          rw [if_pos ⟨hlen, by simp, by simp⟩, List.take_succ_cons, List.take_zero]
          have hnone : Takes a a (shape :: ss) (dtype :: ds) [] := .nil (.refl a) h
          exact ⟨rfl, (hnone.reuse hlen shape dtype fmt p rest).counters _ _⟩
  · rw [if_neg hlen, if_neg (fun hc => hlen hc.1)]
    exact ⟨rfl, .nil (.refl a) h⟩

theorem takes_batchedAllocate (h : a.AllWhole) (shapes : OneOrList TorchSize)
    (dtypes : OneOrList TorchDtype) (n : Nat) (fmt : MemoryFormat) :
    PagedPool.pagesOf (a.batchedAllocate shapes dtypes n fmt).1 =
        PagedLayouts.taken a shapes.toList dtypes.toList n ∧
      Takes a (a.batchedAllocate shapes dtypes n fmt).2 shapes.toList dtypes.toList
        (PagedLayouts.taken a shapes.toList dtypes.toList n) := by
  have hself := takes_self h
  unfold batchedAllocate adaptShapesAndDtypes PagedLayouts.taken
  by_cases hlen : shapes.toList.length = dtypes.toList.length
  · rw [if_pos hlen]
    dsimp only
    cases hshapes : shapes.toList with
    | nil =>
      rw [if_neg (by simp)]
      -- no shape: the first page is lost
      cases n with
      | zero => exact ⟨rfl, (hself a.freeBlocks _ _).counters _ _⟩
      | succ n =>
        unfold batchedAllocateLoop
        cases hq : a.freeBlocks with
        | nil => exact ⟨rfl, .nil (keepsPages_batchedFree a [] false).frame h⟩
        | cons p rest => exact ⟨rfl, hself _ _ _⟩
    | cons shape ss =>
      cases hdtypes : dtypes.toList with
      | nil => simp [hshapes, hdtypes] at hlen
      | cons dtype ds =>
        rw [hshapes, hdtypes] at hlen
        have hloop := takes_batchedAllocateLoop hlen fmt n (Takes.nil (.refl a) h)
        dsimp only at hloop
        rw [List.nil_append] at hloop
        generalize batchedAllocateLoop (shape :: ss) (dtype :: ds) fmt n a [] = r at hloop
        obtain ⟨res, b⟩ := r
        dsimp only at hloop
        rcases hloop with ⟨hle, rfl, htakes⟩ | ⟨hlt, rfl, htakes⟩
        · rw [if_pos ⟨hlen, by simp, hle⟩]
          exact ⟨rfl, htakes.counters _ _⟩
        · rw [if_neg (by omega)]
          exact ⟨rfl, htakes⟩
  · rw [if_neg hlen, if_neg (fun hc => hlen hc.1)]
    exact ⟨rfl, .nil (.refl a) h⟩

/-- **What a call does to the pages**: those it hands out it took from the front of the queue and
made what was asked for; the others have their buffers. -/
theorem takes_call (h : a.AllWhole) (c : PagedCall) :
    PagedPool.handedOut a c = PagedLayouts.taken a c.request.1 c.request.2 c.count ∧
      Takes a (PagedPool.callAllocator a c) c.request.1 c.request.2
        (PagedLayouts.taken a c.request.1 c.request.2 c.count) := by
  have hnone : ∀ {b}, KeepsPages a b → ([] : List Nat) = PagedLayouts.taken a [] [] 0 ∧
      Takes a b [] [] (PagedLayouts.taken a [] [] 0) := by
    intro b hb
    have htaken : PagedLayouts.taken a [] [] 0 = [] := by simp [PagedLayouts.taken]
    rw [htaken]
    refine ⟨rfl, .nil hb.frame fun p o ho => ?_⟩
    have hwhole := hb.whole h p o ho
    exact ⟨hwhole.valid, hwhole.address, hb.frame.buffers ▸ hwhole.buffer⟩
  cases c with
  | allocate shapes dtypes fmt => exact takes_allocate h shapes dtypes fmt
  | batchedAllocate shapes dtypes n fmt => exact takes_batchedAllocate h shapes dtypes n fmt
  | refCountUp k =>
    exact hnone (keepsPages_updatePage a k.page (fun _ => rfl) (fun _ => rfl) fun _ => rfl)
  | refCountDown k => exact hnone (keepsPages_refCountDown a k.page)
  | pin k => exact hnone (keepsPages_updatePage a k.page (fun _ => rfl) (fun _ => rfl) fun _ => rfl)
  | unpin k => exact hnone (keepsPages_unpin a k.page)
  | free k => exact hnone (keepsPages_free a k.page)
  | batchedFree ks => exact hnone (keepsPages_batchedFree a _ true)
  | forceUnpin p => exact hnone (keepsPages_unpinWhilePinned _ a p)

end PagedTensorMemoryAllocator

/-! ## Whole runs -/

namespace PagedLayouts

open PagedTensorMemoryAllocator (AllWhole CutPage Takes)

/-- Every page has its whole buffer, and the prefix sums of the shapes of the allocator. -/
structure Recycled (s : PagedLayouts) : Prop where
  whole : s.allocator.AllWhole
  pagesOk : PagedPool.PagesOk s.allocator
  sums : s.groupPrefixSums = List.replicate s.allocator.pages.length
    (prefixSums (groupSizes s.allocator.shapes s.allocator.dtypes))
  align : (groupSizes s.allocator.shapes s.allocator.dtypes).sum = s.allocator.alignBytes
  bound : ∀ (p : Nat) (buf : BufferSlice), s.allocator.pagedBuffers[p]? = some buf →
    buf.length ≤ s.allocator.alignBytes

variable {a : PagedTensorMemoryAllocator}

theorem recycled_init {numel : Nat} {shapes : List TorchSize} {dtypes : List TorchDtype}
    {fmt : MemoryFormat} (h : PagedTensorMemoryAllocator.init numel shapes dtypes fmt = .ok a)
    (storageOffset : Nat) : (init a storageOffset).Recycled := by
  have hpagesOk := (PagedPool.init_spec h).1
  unfold PagedTensorMemoryAllocator.init at h
  split at h
  · cases h
  rename_i alignBytes hbytes
  have hlen : shapes.length = dtypes.length := by
    unfold getSizeBytes at hbytes
    split at hbytes
    · assumption
    · cases hbytes
  rw [getSizeBytes_eq hlen, Except.ok.injEq] at hbytes
  split at h
  · cases h
  split at h
  · cases h
  split at h
  · cases h
    refine ⟨fun p o ho => ?_, hpagesOk, ?_, hbytes, fun p buf hbuf => ?_⟩
    · -- page `p` was built with the buffer of that index
      dsimp only [init] at ho ⊢
      rw [List.getElem?_map, List.getElem?_zipIdx, Option.map_map] at ho
      obtain ⟨buf, hbuf, rfl⟩ := Option.map_eq_some_iff.mp ho
      exact ⟨rfl, by simp [TensorMemoryObj.init], hbuf⟩
    · dsimp only [init]
      rw [List.eq_replicate_iff, List.length_map]
      refine ⟨rfl, fun sums hsums => ?_⟩
      obtain ⟨o, ho, rfl⟩ := List.mem_map.mp hsums
      obtain ⟨q, -, rfl⟩ := List.mem_map.mp ho
      rfl
    · dsimp only [init] at hbuf ⊢
      unfold PagedTensorMemoryAllocator.torchSplit at hbuf
      obtain ⟨i, -, rfl⟩ := List.mem_map.mp (List.mem_of_getElem? hbuf)
      exact Nat.min_le_left _ _
  · cases h

/-- The pages that a call takes are in the queue. -/
theorem mem_of_taken {shapes : List TorchSize} {dtypes : List TorchDtype} {n p : Nat}
    (h : p ∈ taken a shapes dtypes n) :
    shapes.length = dtypes.length ∧ shapes ≠ [] ∧ p ∈ a.freeBlocks := by
  unfold taken at h
  split at h
  · rename_i hc
    exact ⟨hc.1, hc.2.1, List.mem_of_mem_take h⟩
  · cases h

theorem recycled_step {s : PagedLayouts} (h : s.Recycled) {c : PagedCall} (hfits : s.Fits c) :
    (s.step c).Recycled := by
  obtain ⟨-, hframe, htaken, hothers⟩ := PagedTensorMemoryAllocator.takes_call h.whole c
  have hstep : (s.step c).allocator = PagedPool.callAllocator s.allocator c := rfl
  have hsums : (s.step c).groupPrefixSums = s.groupPrefixSums := rfl
  refine ⟨fun p o ho => ?_, ?_, ?_, ?_, ?_⟩
  · rw [hstep] at ho ⊢
    by_cases hp : p ∈ taken s.allocator c.request.1 c.request.2 c.count
    · obtain ⟨hvalid, haddress, -, -, buf, hbuf, hraw⟩ := htaken p hp o ho
      obtain ⟨-, hsum, buf', hbuf', hlength, -⟩ := hfits p hp
      rw [hbuf] at hbuf'
      cases hbuf'
      refine ⟨hvalid, haddress, ?_⟩
      rw [hframe.buffers, hraw, hbuf, PagedTensorMemoryAllocator.cut_eq_self]
      intro _
      omega
    · obtain ⟨hvalid, haddress, hbuffer⟩ := hothers p hp o ho
      exact ⟨hvalid, haddress, hframe.buffers ▸ hbuffer⟩
  · exact (PagedPool.step_spec (s := ⟨s.allocator, 0, []⟩) h.pagesOk c).1
  · rw [hsums, hstep, hframe.pages, hframe.shapes, hframe.dtypes]
    exact h.sums
  · rw [hstep, hframe.shapes, hframe.dtypes, hframe.alignBytes]
    exact h.align
  · rw [hstep, hframe.buffers, hframe.alignBytes]
    exact h.bound

/-- **Step lemma.**  The pages of a call report their layout exactly when they have the groups that
the call asks for. -/
theorem reports_step_iff {s : PagedLayouts} (h : s.Recycled) (c : PagedCall) :
    (s.step c).Reports ↔ s.Fits c := by
  obtain ⟨hhanded, hframe, htaken, -⟩ := PagedTensorMemoryAllocator.takes_call h.whole c
  have hpage : ∀ p ∈ taken s.allocator c.request.1 c.request.2 c.count,
      (∃ o sums, (s.step c).allocator.pages[p]? = some o ∧
        (s.step c).groupPrefixSums[p]? = some sums ∧
        ReportsGroups s.storageOffset sums o c.request.1 c.request.2) ↔
      s.SameGroups p c.request.1 c.request.2 := by
    intro p hp
    obtain ⟨hlen, hne, hqueue⟩ := mem_of_taken hp
    have hlt := h.pagesOk.2 p hqueue
    obtain ⟨o, ho⟩ : ∃ o, (s.step c).allocator.pages[p]? = some o := by
      refine ⟨_, List.getElem?_eq_getElem ?_⟩
      exact hframe.pages ▸ hlt
    have hsums : (s.step c).groupPrefixSums[p]? =
        some (prefixSums (groupSizes s.allocator.shapes s.allocator.dtypes)) := by
      show s.groupPrefixSums[p]? = _
      rw [h.sums, List.getElem?_replicate, if_pos hlt]
    obtain ⟨hvalid, -, hshapes, hdtypes, buf, hbuf, hraw⟩ := htaken p hp o ho
    have hiff := reportsGroups_iff s.storageOffset
      (groupSizes s.allocator.shapes s.allocator.dtypes) hvalid hlen hne hshapes hdtypes
    have hbound := h.bound p buf hbuf
    have hlength := s.allocator.cut_length c.request.1 c.request.2 buf
    rw [hraw, s.allocator.cut_start, hlength, h.align] at hiff
    constructor
    · rintro ⟨o', sums, ho', hsums', hreports⟩
      rw [ho] at ho'
      rw [hsums] at hsums'
      cases ho'
      cases hsums'
      obtain ⟨hgroups, hsum, hle, hoffset⟩ := hiff.mp hreports
      refine ⟨hgroups, hsum, buf, hbuf, ?_, hoffset⟩
      split at hle
      · omega
      · omega
    · rintro ⟨hgroups, hsum, buf', hbuf', hwhole, hoffset⟩
      rw [hbuf] at hbuf'
      cases hbuf'
      refine ⟨o, _, ho, hsums, hiff.mpr ⟨hgroups, hsum, ?_, hoffset⟩⟩
      split
      · omega
      · omega
  have hreports : (s.step c).Reports ↔ ∀ p ∈ taken s.allocator c.request.1 c.request.2 c.count,
      ∃ o sums, (s.step c).allocator.pages[p]? = some o ∧
        (s.step c).groupPrefixSums[p]? = some sums ∧
        ReportsGroups s.storageOffset sums o c.request.1 c.request.2 := by
    rw [← hhanded]
    rfl
  rw [hreports]
  exact forall₂_congr hpage

/-- **Pages report their own layout exactly as long as they have it.**  Along every run of a fresh
allocator. -/
theorem reports_iff_fits {numel : Nat} {shapes : List TorchSize} {dtypes : List TorchDtype}
    {fmt : MemoryFormat} {a : PagedTensorMemoryAllocator}
    (h : PagedTensorMemoryAllocator.init numel shapes dtypes fmt = .ok a) (storageOffset : Nat)
    (calls : List PagedCall) :
    Always step Reports (init a storageOffset) calls ↔
      Guarded step Fits (init a storageOffset) calls := by
  apply always_iff_guarded_of_stronger (Q := fun s => s.Recycled ∧ s.Reports)
  · exact fun s hs => hs.2
  · exact fun s c hs hfits => ⟨recycled_step hs.1 hfits, (reports_step_iff hs.1 c).mpr hfits⟩
  · exact fun s c hs hreports => (reports_step_iff hs.1 c).mp hreports
  · refine ⟨recycled_init h storageOffset, fun p hp => ?_⟩
    cases hp

/-- A full chunk, and two of other shapes with the same group sizes, one of them in its page. -/
theorem reports_reshaped :
    ∃ a, PagedTensorMemoryAllocator.init 24 [[2, 2], [4]] [.float16, .uint8] .KV_2LTD = .ok a ∧
      Always step Reports (init a 0)
        [.allocate (.list [[2, 2], [4]]) (.list [.float16, .uint8]) .KV_2LTD,
          .refCountDown ⟨0, 0⟩,
          .batchedAllocate (.list [[4], [2, 2]]) (.list [.bfloat16, .int8]) 2 .KV_2LTD] :=
  ⟨_, rfl, (@reports_iff_fits 24 [[2, 2], [4]] [.float16, .uint8] .KV_2LTD _ rfl 0 _).mpr
    (by decide +kernel)⟩

/-- It can fail: a page of two groups of four bytes that comes back is handed out for two groups of
two bytes, and says that it holds eight bytes. -/
theorem not_reports_partialChunk :
    ∃ a, PagedTensorMemoryAllocator.init 16 [[4], [4]] [.uint8, .uint8] .KV_2LTD = .ok a ∧
      ¬Always step Reports (init a 0)
        [.allocate (.list [[4], [4]]) (.list [.uint8, .uint8]) .KV_2LTD, .refCountDown ⟨0, 0⟩,
          .batchedAllocate (.list [[2], [2]]) (.list [.uint8, .uint8]) 2 .KV_2LTD] := by
  refine ⟨_, rfl, fun h => ?_⟩
  obtain ⟨o, sums, -, hsums, hreports⟩ := h.last 0 (by decide +kernel)
  have hsize := hreports.size
  have heq : sums = [0, 4, 8] := Option.some.inj (hsums.symm.trans (by decide +kernel))
  rw [heq] at hsize
  revert hsize
  decide +kernel

end PagedLayouts

end LMCache.Memory
