/-
# LMCache.RemoteMetadata — the header in front of a stored chunk.

Source: `v1/protocol.py` (`init_remote_metadata_info` and `RemoteMetadata`).

The header is a C struct of integers: the length of the payload, its format, and for each group of
layers the code of its dtype and its four dimensions.  How many groups there are is fixed once for
the process, so a header of another number of groups is refused; and so are shapes of other than
four dimensions and dtypes that have no code.  Everything that is not refused comes back.
-/
import LMCache.Protocol

namespace LMCache

open LMCache.Memory

/-! ## The header -/

structure RemoteMetadata where
  length : Int
  shapes : List (List Int)
  dtypes : List (Option TorchDtype)
  fmt : MemoryFormat
  deriving DecidableEq, Repr

namespace RemoteMetadata

/-- The number of integers of `REMOTE_METADATA_FMT`. -/
def fmtLength (numGroups : Nat) : Nat := 2 + 5 * numGroups

/-- `get_remote_metadata_bytes`. -/
def remoteMetadataBytes (numGroups : Nat) : Nat := 4 * fmtLength numGroups

/-- The loop of `_prepare_params` over the groups. -/
def groupParams : List (List Int) → List (Option TorchDtype) → Except PyError (List Int)
  | [], [] => .ok []
  | [], _ :: _ => .error (.valueError "zip() argument 2 is longer than argument 1")
  | _ :: _, [] => .error (.valueError "zip() argument 2 is shorter than argument 1")
  | shape :: shapes, dtype :: dtypes =>
    if shape.length ≠ 4 then .error (.assertionError shapeMessage)
    else do
      let code ← dtypeToInt dtype
      let rest ← groupParams shapes dtypes
      .ok (code :: shape ++ rest)

/-- `_prepare_params`. -/
def prepareParams (m : RemoteMetadata) : Except PyError (List Int) := do
  let groups ← groupParams m.shapes m.dtypes
  .ok (m.length :: m.fmt.value :: groups)

/-- `serialize`. -/
def serialize (numGroups : Nat) (m : RemoteMetadata) : Except PyError (List UInt8) := do
  let params ← m.prepareParams
  if params.length ≠ fmtLength numGroups then
    .error (.structError
      s!"pack expected {fmtLength numGroups} items for packing (got {params.length})")
  else packInts params

/-- `serialize_into`. -/
def serializeInto (numGroups : Nat) (m : RemoteMetadata) (buffer : List UInt8) :
    Except PyError (List UInt8) := do
  let params ← m.prepareParams
  if params.length ≠ fmtLength numGroups then
    .error (.structError
      s!"pack_into expected {fmtLength numGroups} items for packing (got {params.length})")
  else if buffer.length < remoteMetadataBytes numGroups then
    .error (.structError
      (s!"pack_into requires a buffer of at least {remoteMetadataBytes numGroups} bytes for " ++
        s!"packing {remoteMetadataBytes numGroups} bytes at offset 0 " ++
        s!"(actual buffer size is {buffer.length})"))
  else do
    let packed ← packInts params
    .ok (packed ++ buffer.drop packed.length)

/-- The loop of `deserialize` over the groups, from an index of the integers on. -/
def groupsFrom (bs : List UInt8) (start : Nat) :
    Nat → Except PyError (List (List Int) × List (Option TorchDtype))
  | 0 => .ok ([], [])
  | n + 1 => do
    let dtype ← intToDtype (intAt bs start)
    let rest ← groupsFrom bs (start + 5) n
    .ok ([intAt bs (start + 1), intAt bs (start + 2), intAt bs (start + 3), intAt bs (start + 4)]
      :: rest.1, dtype :: rest.2)

/-- `deserialize`. -/
def deserialize (numGroups : Nat) (bs : List UInt8) : Except PyError RemoteMetadata :=
  if bs.length < remoteMetadataBytes numGroups then
    .error (.structError
      (s!"unpack_from requires a buffer of at least {remoteMetadataBytes numGroups} bytes for " ++
        s!"unpacking {remoteMetadataBytes numGroups} bytes at offset 0 " ++
        s!"(actual buffer size is {bs.length})"))
  else do
    let fmt ← MemoryFormat.ofInt (intAt bs 1)
    let groups ← groupsFrom bs 2 numGroups
    .ok ⟨intAt bs 0, groups.1, groups.2, fmt⟩

/-! ## What is not refused -/

/-- A header that can be packed. -/
structure Packs (numGroups : Nat) (m : RemoteMetadata) : Prop where
  shapes_length : m.shapes.length = numGroups
  dtypes_length : m.dtypes.length = numGroups
  four : ∀ shape ∈ m.shapes, shape.length = 4
  coded : ∀ dtype ∈ m.dtypes, dtype ∈ dtypeTable.map Prod.fst
  dims : ∀ shape ∈ m.shapes, ∀ n ∈ shape, IsCInt n
  length : IsCInt m.length

/-- The integers of the groups, when none of them is refused. -/
inductive GroupInts : List (List Int) → List (Option TorchDtype) → List Int → Prop where
  | nil : GroupInts [] [] []
  | cons {shape shapes dtype dtypes code ints} : shape.length = 4 → dtypeToInt dtype = .ok code →
      GroupInts shapes dtypes ints →
      GroupInts (shape :: shapes) (dtype :: dtypes) (code :: shape ++ ints)

theorem groupParams_eq_ok_iff {shapes : List (List Int)} {dtypes : List (Option TorchDtype)}
    {ints : List Int} : groupParams shapes dtypes = .ok ints ↔ GroupInts shapes dtypes ints := by
  induction shapes generalizing dtypes ints with
  | nil =>
    cases dtypes with
    | nil =>
      constructor
      · intro h
        cases h
        exact .nil
      · rintro ⟨⟩
        rfl
    | cons dtype dtypes => exact ⟨fun h => (nomatch h), fun h => (nomatch h)⟩
  | cons shape shapes ih =>
    cases dtypes with
    | nil => exact ⟨fun h => (nomatch h), fun h => (nomatch h)⟩
    | cons dtype dtypes =>
      unfold groupParams
      by_cases hfour : shape.length = 4
      · rw [if_neg (not_not.mpr hfour), bind_eq_ok]
        constructor
        · rintro ⟨code, hcode, h⟩
          obtain ⟨rest, hrest, h⟩ := bind_eq_ok.mp h
          cases h
          exact .cons hfour hcode (ih.mp hrest)
        · intro h
          cases h with
          | cons _ hcode hrest => exact ⟨_, hcode, bind_eq_ok.mpr ⟨_, ih.mpr hrest, rfl⟩⟩
      · rw [if_pos hfour]
        refine iff_of_false (fun h => nomatch h) fun h => ?_
        cases h with
        | cons hfour' => exact hfour hfour'

namespace GroupInts

variable {shapes : List (List Int)} {dtypes : List (Option TorchDtype)} {ints : List Int}

theorem length_eq (h : GroupInts shapes dtypes ints) :
    ints.length = 5 * shapes.length ∧ dtypes.length = shapes.length := by
  induction h with
  | nil => exact ⟨rfl, rfl⟩
  | cons hfour _ _ ih =>
    simp only [List.length_cons, List.length_append, List.cons_append, hfour, ih.1, ih.2, and_true]
    omega

theorem isCInt_iff (h : GroupInts shapes dtypes ints) :
    (∀ n ∈ ints, IsCInt n) ↔ ∀ shape ∈ shapes, ∀ n ∈ shape, IsCInt n := by
  induction h with
  | nil => simp
  | cons _ hcode _ ih =>
    rw [List.cons_append, List.forall_mem_cons, List.forall_mem_append, ih, List.forall_mem_cons]
    exact and_iff_right (isCInt_of_dtypeToInt hcode)

theorem exists_iff : (∃ ints, GroupInts shapes dtypes ints) ↔
    dtypes.length = shapes.length ∧ (∀ shape ∈ shapes, shape.length = 4) ∧
      ∀ dtype ∈ dtypes, dtype ∈ dtypeTable.map Prod.fst := by
  constructor
  · rintro ⟨ints, h⟩
    refine ⟨h.length_eq.2, ?_, ?_⟩
    · induction h with
      | nil => simp
      | cons hfour _ _ ih => exact List.forall_mem_cons.mpr ⟨hfour, ih⟩
    · induction h with
      | nil => simp
      | cons _ hcode _ ih => exact List.forall_mem_cons.mpr ⟨dtypeToInt_ok_iff.mp ⟨_, hcode⟩, ih⟩
  · induction shapes generalizing dtypes with
    | nil =>
      rintro ⟨hlength, -⟩
      rw [List.length_eq_zero_iff.mp hlength]
      exact ⟨[], .nil⟩
    | cons shape shapes ih =>
      rintro ⟨hlength, hfour, hcoded⟩
      obtain ⟨dtype, dtypes, rfl⟩ := List.exists_cons_of_length_eq_add_one hlength
      rw [List.forall_mem_cons] at hfour hcoded
      obtain ⟨code, hcode⟩ := dtypeToInt_ok_iff.mpr hcoded.1
      obtain ⟨ints, hints⟩ := ih ⟨Nat.succ.inj hlength, hfour.2, hcoded.2⟩
      exact ⟨_, .cons hfour.1 hcode hints⟩

/-- The groups are read back from behind whatever integers stand before them. -/
theorem groupsFrom_eq (h : GroupInts shapes dtypes ints) (before : List Int) (rest : List UInt8)
    (hints : ∀ n ∈ before ++ ints, IsCInt n) :
    groupsFrom ((before ++ ints).flatMap packInt ++ rest) before.length shapes.length =
      .ok (shapes, dtypes) := by
  induction h generalizing before with
  | nil => rfl
  | @cons shape shapes dtype dtypes code ints hfour hcode _ ih =>
    obtain ⟨s0, s1, s2, s3, rfl⟩ := List.length_eq_four.mp hfour
    have hat (i : Nat) {n : Int} (hi : (code :: [s0, s1, s2, s3] ++ ints)[i]? = some n) :
        intAt ((before ++ (code :: [s0, s1, s2, s3] ++ ints)).flatMap packInt ++ rest)
          (before.length + i) = n := by
      apply intAt_flatMap_packInt hints rest
      rw [List.getElem?_append_right (Nat.le_add_right _ _), Nat.add_sub_cancel_left]
      exact hi
    have hnext := ih (before ++ [code, s0, s1, s2, s3]) (by simpa using hints)
    rw [List.append_assoc, List.length_append] at hnext
    show groupsFrom _ before.length (shapes.length + 1) = _
    unfold groupsFrom
    rw [hat 1 rfl, hat 2 rfl, hat 3 rfl, hat 4 rfl]
    refine bind_eq_ok.mpr ⟨dtype, ?_, bind_eq_ok.mpr ⟨_, hnext, rfl⟩⟩
    rw [show intAt _ before.length = code from hat 0 rfl]
    exact intToDtype_of_dtypeToInt hcode

end GroupInts

variable {bs : List UInt8} {m : RemoteMetadata} {numGroups : Nat}

/-- **What `serialize` makes of a header**: its integers, one after the other. -/
theorem serialize_eq_ok_iff :
    m.serialize numGroups = .ok bs ↔
      ∃ ints, GroupInts m.shapes m.dtypes ints ∧ m.shapes.length = numGroups ∧
        (∀ n ∈ m.length :: m.fmt.value :: ints, IsCInt n) ∧
        bs = (m.length :: m.fmt.value :: ints).flatMap packInt := by
  unfold serialize prepareParams
  rw [bind_eq_ok]
  constructor
  · rintro ⟨params, hparams, h⟩
    obtain ⟨ints, hints, hparams⟩ := bind_eq_ok.mp hparams
    cases hparams
    have hgroups := groupParams_eq_ok_iff.mp hints
    split at h
    · cases h
    · rename_i hlength
      obtain ⟨hfits, rfl⟩ := packInts_eq_ok.mp h
      refine ⟨ints, hgroups, ?_, hfits, rfl⟩
      have := hgroups.length_eq.1
      simp only [List.length_cons, fmtLength, not_not] at hlength
      omega
  · rintro ⟨ints, hgroups, hnum, hfits, rfl⟩
    refine ⟨_, bind_eq_ok.mpr ⟨ints, groupParams_eq_ok_iff.mpr hgroups, rfl⟩, ?_⟩
    rw [if_neg, packInts_eq_ok]
    · exact ⟨hfits, rfl⟩
    · simp only [List.length_cons, fmtLength, hgroups.length_eq.1, hnum]
      omega

/-- **A header is packed exactly when nothing in it is refused.** -/
theorem serialize_ok_iff : (∃ bs, m.serialize numGroups = .ok bs) ↔ m.Packs numGroups := by
  simp only [serialize_eq_ok_iff, List.forall_mem_cons]
  constructor
  · rintro ⟨bs, ints, hgroups, hnum, ⟨hlength, -, hints⟩, -⟩
    obtain ⟨hdtypes, hfour, hcoded⟩ := GroupInts.exists_iff.mp ⟨ints, hgroups⟩
    exact ⟨hnum, hdtypes.trans hnum, hfour, hcoded, hgroups.isCInt_iff.mp hints, hlength⟩
  · intro h
    obtain ⟨ints, hgroups⟩ := GroupInts.exists_iff.mpr
      ⟨h.dtypes_length.trans h.shapes_length.symm, h.four, h.coded⟩
    exact ⟨_, ints, hgroups, h.shapes_length,
      ⟨h.length, isCInt_fmt m.fmt, hgroups.isCInt_iff.mpr h.dims⟩, rfl⟩

theorem length_serialize (h : m.serialize numGroups = .ok bs) :
    bs.length = remoteMetadataBytes numGroups := by
  obtain ⟨ints, hgroups, hnum, -, rfl⟩ := serialize_eq_ok_iff.mp h
  rw [length_flatMap_packInt]
  simp only [List.length_cons, hgroups.length_eq.1, hnum, remoteMetadataBytes, fmtLength]
  omega

/-- **A header comes back**, whatever stands behind it. -/
theorem deserialize_serialize (h : m.serialize numGroups = .ok bs) (rest : List UInt8) :
    deserialize numGroups (bs ++ rest) = .ok m := by
  have hlength := length_serialize h
  obtain ⟨ints, hgroups, hnum, hints, rfl⟩ := serialize_eq_ok_iff.mp h
  have hfrom := hgroups.groupsFrom_eq [m.length, m.fmt.value] rest hints
  have hat {i : Nat} {n : Int} (hi : (m.length :: m.fmt.value :: ints)[i]? = some n) :
      intAt ((m.length :: m.fmt.value :: ints).flatMap packInt ++ rest) i = n :=
    intAt_flatMap_packInt hints rest hi
  unfold deserialize
  rw [if_neg (by rw [List.length_append]; omega), @hat 0 _ rfl, @hat 1 _ rfl, ← hnum]
  exact bind_eq_ok.mpr ⟨_, MemoryFormat.ofInt_value _, bind_eq_ok.mpr ⟨_, hfrom, rfl⟩⟩

/-- Into a buffer a header is packed as `serialize` packs it, if there is room. -/
theorem serializeInto_eq_ok_iff {buffer : List UInt8} :
    m.serializeInto numGroups buffer = .ok bs ↔
      remoteMetadataBytes numGroups ≤ buffer.length ∧ ∃ packed,
        m.serialize numGroups = .ok packed ∧ bs = packed ++ buffer.drop packed.length := by
  unfold serializeInto serialize
  simp only [bind_eq_ok]
  constructor
  · rintro ⟨params, hparams, h⟩
    split at h
    · cases h
    · rename_i hlength
      split at h
      · cases h
      · rename_i hroom
        obtain ⟨packed, hpacked, h⟩ := bind_eq_ok.mp h
        cases h
        exact ⟨not_lt.mp hroom, packed, ⟨params, hparams, by rwa [if_neg hlength]⟩, rfl⟩
  · rintro ⟨hroom, packed, ⟨params, hparams, h⟩, rfl⟩
    refine ⟨params, hparams, ?_⟩
    split at h
    · cases h
    · rename_i hlength
      rw [if_neg hlength, if_neg (not_lt.mpr hroom)]
      exact bind_eq_ok.mpr ⟨packed, h, rfl⟩

/-! ## Headers and replies come back -/

/-- **Whatever can be packed comes back.**  A header takes the bytes that are announced for it, stands
in front of any buffer with room as `serialize` gives it, and is read from whatever begins with it; a
reply takes its 36 bytes and is read from them. -/
theorem codecs_roundTrip {numGroups : Nat} {m : RemoteMetadata} {reply : ServerMetaMessage}
    (hm : m.Packs numGroups) (hreply : reply.Packs) :
    (∃ bs, m.serialize numGroups = .ok bs ∧ bs.length = remoteMetadataBytes numGroups ∧
      (∀ buffer : List UInt8, remoteMetadataBytes numGroups ≤ buffer.length →
        m.serializeInto numGroups buffer = .ok (bs ++ buffer.drop bs.length)) ∧
      ∀ rest, deserialize numGroups (bs ++ rest) = .ok m) ∧
    ∃ bs, reply.serialize = .ok bs ∧ bs.length = ServerMetaMessage.packlength ∧
      ServerMetaMessage.deserialize bs = .ok reply := by
  constructor
  · obtain ⟨bs, hbs⟩ := serialize_ok_iff.mpr hm
    refine ⟨bs, hbs, length_serialize hbs, fun buffer hroom => ?_, deserialize_serialize hbs⟩
    exact serializeInto_eq_ok_iff.mpr ⟨hroom, bs, hbs, rfl⟩
  · obtain ⟨bs, hbs⟩ := ServerMetaMessage.serialize_ok_iff.mpr hreply
    exact ⟨bs, hbs, ServerMetaMessage.length_serialize hbs,
      ServerMetaMessage.deserialize_serialize hbs⟩

/-- Two groups of layers, of different types and shapes. -/
def twoGroups : RemoteMetadata :=
  ⟨4096, [[2, 4, 256, 1024], [1, 2, 256, 576]], [some .bfloat16, some .uint8], .KV_2LTD⟩

/-- A reply about a chunk of half floats. -/
def halfReply : ServerMetaMessage :=
  ⟨.success, 512, .KV_T2D, some .float16, [256, 2, 32, 1], some "LocalCPUBackend"⟩

theorem codecs_roundTrip_twoGroups :
    (∃ bs, twoGroups.serialize 2 = .ok bs ∧ bs.length = 48 ∧
      (∀ buffer : List UInt8, 48 ≤ buffer.length →
        twoGroups.serializeInto 2 buffer = .ok (bs ++ buffer.drop bs.length)) ∧
      ∀ rest, deserialize 2 (bs ++ rest) = .ok twoGroups) ∧
    ∃ bs, halfReply.serialize = .ok bs ∧ bs.length = 36 ∧
      ServerMetaMessage.deserialize bs = .ok halfReply :=
  codecs_roundTrip ⟨rfl, rfl, by decide, by decide, by decide, by decide⟩
    ⟨rfl, by decide, by decide, by decide, by decide⟩

end RemoteMetadata

end LMCache
