/-
# LMCache.Protocol — the messages between a worker and the remote cache server.

Source: `v1/protocol.py` (`ClientMetaMessage`, `ServerMetaMessage` and their code tables).

A message is a C struct: nine integers, and in a client's message the string of a key, padded with
spaces to 150 bytes.  The length that is checked before counts characters, so a string with other than
ASCII characters can be cut; and the padding is taken away with `strip`, so a key that starts or ends
with white space loses it.  Everything but the key comes back as it was sent.
-/
import LMCache.KeyString

namespace LMCache

open LMCache.Lib LMCache.Lib.PyStr LMCache.Memory

/-! ## Integers on the wire -/

/-- The four bytes of a C `int`, the lowest first. -/
def packInt (n : Int) : List UInt8 :=
  let u := (n % 2 ^ 32).toNat
  [UInt8.ofNat u, UInt8.ofNat (u / 2 ^ 8), UInt8.ofNat (u / 2 ^ 16), UInt8.ofNat (u / 2 ^ 24)]

/-- The C `int` of four bytes. -/
def unpackInt (bs : List UInt8) : Int :=
  let u : Nat := bs.foldr (fun b u => b.toNat + 256 * u) 0
  if u < 2 ^ 31 then (u : Int) else (u : Int) - 2 ^ 32

/-- The integer in one place of a struct. -/
def intAt (bs : List UInt8) (i : Nat) : Int := unpackInt ((bs.drop (4 * i)).take 4)

/-- What `struct.pack` takes for an `i`. -/
def IsCInt (n : Int) : Prop := -(2 ^ 31) ≤ n ∧ n < 2 ^ 31

instance (n : Int) : Decidable (IsCInt n) := inferInstanceAs (Decidable (_ ∧ _))

/-- `struct.pack("i" * len(ints), *ints)`. -/
def packInts (ints : List Int) : Except PyError (List UInt8) :=
  if ∀ n ∈ ints, IsCInt n then .ok (ints.flatMap packInt)
  else .error (.structError "'i' format requires -2147483648 <= number <= 2147483647")

/-! ## The code tables -/

inductive ClientCommand where
  | put | get | exist | list | health
  deriving DecidableEq, Repr

namespace ClientCommand

def value : ClientCommand → Int
  | .put => 1
  | .get => 2
  | .exist => 3
  | .list => 4
  | .health => 5

/-- `ClientCommand(n)`. -/
def ofInt (n : Int) : Except PyError ClientCommand :=
  match [ClientCommand.put, .get, .exist, .list, .health].find? fun c => c.value = n with
  | some c => .ok c
  | none => .error (.valueError s!"{n} is not a valid ClientCommand")

end ClientCommand

inductive ServerReturnCode where
  | success | fail
  deriving DecidableEq, Repr

namespace ServerReturnCode

def value : ServerReturnCode → Int
  | .success => 200
  | .fail => 400

/-- `ServerReturnCode(n)`. -/
def ofInt (n : Int) : Except PyError ServerReturnCode :=
  match [ServerReturnCode.success, .fail].find? fun c => c.value = n with
  | some c => .ok c
  | none => .error (.valueError s!"{n} is not a valid ServerReturnCode")

end ServerReturnCode

namespace Memory.MemoryFormat

def value : MemoryFormat → Int
  | .UNDEFINED => 0
  | .KV_2LTD => 1
  | .KV_T2D => 2
  | .KV_2TD => 3
  | .BINARY => 4
  | .BINARY_BUFFER => 5
  | .KV_MLA_FMT => 6

/-- `MemoryFormat(n)`. -/
def ofInt (n : Int) : Except PyError MemoryFormat :=
  match [MemoryFormat.UNDEFINED, .KV_2LTD, .KV_T2D, .KV_2TD, .BINARY, .BINARY_BUFFER,
      .KV_MLA_FMT].find? fun f => f.value = n with
  | some f => .ok f
  | none => .error (.valueError s!"{n} is not a valid MemoryFormat")

end Memory.MemoryFormat

/-- `DTYPE_TO_INT`.  `torch.half` and `torch.float16` are one dtype, and the later entry stays. -/
def dtypeTable : List (Option TorchDtype × Int) :=
  [(none, 0), (some .float16, 2), (some .bfloat16, 3), (some .float32, 4), (some .float64, 5),
    (some .uint8, 6), (some .float8_e4m3fn, 7), (some .float8_e5m2, 8)]

/-- `INT_TO_DTYPE`. -/
def intTable : List (Int × Option TorchDtype) :=
  [(0, none), (1, some .float16), (2, some .float16), (3, some .bfloat16), (4, some .float32),
    (5, some .float64), (6, some .uint8), (7, some .float8_e4m3fn), (8, some .float8_e5m2)]

/-- `LOCATION_TO_INT`; `INT_TO_LOCATION` is the same table read the other way. -/
def locationTable : List (Option String × Int) :=
  [(none, 0), (some "LocalCPUBackend", 1), (some "LocalDiskBackend", 2)]

/-- `DTYPE_TO_INT[dtype]`. -/
def dtypeToInt (dtype : Option TorchDtype) : Except PyError Int :=
  match dtypeTable.find? fun e => e.1 = dtype with
  | some e => .ok e.2
  | none => .error (.keyError ((dtype.map TorchDtype.repr).getD "None"))

/-- `INT_TO_DTYPE[n]`. -/
def intToDtype (n : Int) : Except PyError (Option TorchDtype) :=
  match intTable.find? fun e => e.1 = n with
  | some e => .ok e.2
  | none => .error (.keyError s!"{n}")

/-- `LOCATION_TO_INT[location]`. -/
def locationToInt (location : Option String) : Except PyError Int :=
  match locationTable.find? fun e => e.1 = location with
  | some e => .ok e.2
  | none => .error (.keyError ((location.map fun s => s!"'{s}'").getD "None"))

/-- `INT_TO_LOCATION[n]`. -/
def intToLocation (n : Int) : Except PyError (Option String) :=
  match locationTable.find? fun e => e.2 = n with
  | some e => .ok e.1
  | none => .error (.keyError s!"{n}")

/-! ## The messages -/

/-- `MAX_KEY_LENGTH`. -/
def maxKeyLength : Nat := 150

/-- The message of the assertions on shapes. -/
def shapeMessage : String := "Shape dimension should be 4"

structure ClientMetaMessage where
  command : ClientCommand
  key : CacheEngineKey
  length : Int
  fmt : MemoryFormat
  dtype : Option TorchDtype
  shape : List Int
  location : Option String
  deriving DecidableEq, Repr

namespace ClientMetaMessage

/-- The key field: `struct.pack` cuts what does not fit. -/
def packKey (s : List Char) : List UInt8 :=
  (encode s ++ List.replicate (maxKeyLength - (encode s).length) 32).take maxKeyLength

/-- `serialize`. -/
def serialize (m : ClientMetaMessage) : Except PyError (List UInt8) :=
  let keyStr := m.key.toString.toList
  if maxKeyLength < keyStr.length then
    .error (.assertionError s!"Key length {keyStr.length} exceeds maximum {maxKeyLength}")
  else if m.shape.length ≠ 4 then .error (.assertionError shapeMessage)
  else do
    let dtype ← dtypeToInt m.dtype
    let location ← locationToInt m.location
    let ints ← packInts ([m.command.value, m.length, m.fmt.value, dtype, location] ++ m.shape)
    .ok (ints ++ packKey keyStr)

/-- `packlength`. -/
def packlength : Nat := 4 * 9 + maxKeyLength

/-- `parse_cache_key(key.decode().strip())`. -/
def unpackKey (bs : List UInt8) : Except PyError CacheEngineKey :=
  match decode? bs with
  | none => .error (.valueError "'utf-8' codec can't decode the key")
  | some s => CacheEngineKey.parseCacheKey (String.ofList (strip s))

/-- `deserialize`. -/
def deserialize (bs : List UInt8) : Except PyError ClientMetaMessage :=
  if bs.length ≠ packlength then
    .error (.structError s!"unpack requires a buffer of {packlength} bytes")
  else do
    let command ← ClientCommand.ofInt (intAt bs 0)
    let key ← unpackKey (bs.drop 36)
    let fmt ← MemoryFormat.ofInt (intAt bs 2)
    let dtype ← intToDtype (intAt bs 3)
    let location ← intToLocation (intAt bs 4)
    .ok ⟨command, key, intAt bs 1, fmt, dtype, [intAt bs 5, intAt bs 6, intAt bs 7, intAt bs 8],
      location⟩

end ClientMetaMessage

structure ServerMetaMessage where
  code : ServerReturnCode
  length : Int
  fmt : MemoryFormat
  dtype : Option TorchDtype
  shape : List Int
  location : Option String
  deriving DecidableEq, Repr

namespace ServerMetaMessage

/-- `serialize`. -/
def serialize (m : ServerMetaMessage) : Except PyError (List UInt8) :=
  if m.shape.length ≠ 4 then .error (.assertionError shapeMessage)
  else do
    let dtype ← dtypeToInt m.dtype
    let location ← locationToInt m.location
    packInts ([m.code.value, m.length, m.fmt.value, dtype] ++ m.shape ++ [location])

/-- `packlength`. -/
def packlength : Nat := 4 * 9

/-- `deserialize`. -/
def deserialize (bs : List UInt8) : Except PyError ServerMetaMessage :=
  if bs.length ≠ packlength then
    .error (.structError s!"unpack requires a buffer of {packlength} bytes")
  else do
    let code ← ServerReturnCode.ofInt (intAt bs 0)
    let fmt ← MemoryFormat.ofInt (intAt bs 2)
    let dtype ← intToDtype (intAt bs 3)
    let location ← intToLocation (intAt bs 8)
    .ok ⟨code, intAt bs 1, fmt, dtype, [intAt bs 4, intAt bs 5, intAt bs 6, intAt bs 7], location⟩

end ServerMetaMessage

/-! ## What comes back -/

theorem length_packInt (n : Int) : (packInt n).length = 4 := rfl

variable {n : Int} {dtype : Option TorchDtype} {location : Option String}

theorem unpackInt_packInt (h : IsCInt n) : unpackInt (packInt n) = n := by
  obtain ⟨hlow, hhigh⟩ := h
  have hu : ((n % 2 ^ 32).toNat : Int) = n % 2 ^ 32 := Int.toNat_of_nonneg (by omega)
  have hlt : (n % 2 ^ 32).toNat < 2 ^ 32 := by omega
  unfold unpackInt packInt
  generalize (n % 2 ^ 32).toNat = u at hu hlt
  have hbytes : List.foldr (fun (b : UInt8) u => b.toNat + 256 * u) 0
      [UInt8.ofNat u, UInt8.ofNat (u / 2 ^ 8), UInt8.ofNat (u / 2 ^ 16),
        UInt8.ofNat (u / 2 ^ 24)] = u := by
    simp only [List.foldr_cons, List.foldr_nil, UInt8.toNat_ofNat']
    omega
  dsimp only
  rw [hbytes]
  split <;> omega

theorem length_flatMap_packInt (ints : List Int) :
    (ints.flatMap packInt).length = 4 * ints.length := by
  induction ints with
  | nil => rfl
  | cons n ints ih =>
    rw [List.flatMap_cons, List.length_append, ih, length_packInt, List.length_cons]
    omega

/-- The integers are read back from their places. -/
theorem intAt_flatMap_packInt {ints : List Int} (h : ∀ n ∈ ints, IsCInt n) (rest : List UInt8)
    {i : Nat} (hi : ints[i]? = some n) : intAt (ints.flatMap packInt ++ rest) i = n := by
  induction ints generalizing i with
  | nil => cases hi
  | cons m ints ih =>
    rw [List.forall_mem_cons] at h
    rw [List.flatMap_cons, List.append_assoc]
    cases i with
    | zero =>
      have hmn : m = n := Option.some.inj hi
      subst hmn
      show unpackInt ((packInt m ++ _).take 4) = m
      rw [← length_packInt m, List.take_left, unpackInt_packInt h.1]
    | succ i =>
      have hdrop : (packInt m ++ (ints.flatMap packInt ++ rest)).drop (4 * (i + 1)) =
          (ints.flatMap packInt ++ rest).drop (4 * i) := by
        rw [Nat.mul_succ, Nat.add_comm, ← List.drop_drop, ← length_packInt m, List.drop_left]
      unfold intAt at ih ⊢
      rw [hdrop]
      exact ih h.2 hi

theorem packInts_eq_ok {ints : List Int} {bs : List UInt8} :
    packInts ints = .ok bs ↔ (∀ n ∈ ints, IsCInt n) ∧ bs = ints.flatMap packInt := by
  unfold packInts
  split
  · rename_i h
    exact ⟨fun hok => ⟨h, (Except.ok.inj hok).symm⟩, fun hok => by rw [hok.2]⟩
  · rename_i h
    exact ⟨fun hok => (nomatch hok), fun hok => absurd hok.1 h⟩

theorem ClientCommand.ofInt_value (c : ClientCommand) : ofInt c.value = .ok c := by
  cases c <;> rfl

theorem ServerReturnCode.ofInt_value (c : ServerReturnCode) : ofInt c.value = .ok c := by
  cases c <;> rfl

theorem Memory.MemoryFormat.ofInt_value (f : MemoryFormat) : ofInt f.value = .ok f := by
  cases f <;> rfl

/-- A dtype that has a code is read back from it. -/
theorem intToDtype_of_dtypeToInt (h : dtypeToInt dtype = .ok n) : intToDtype n = .ok dtype := by
  have hback : ∀ e ∈ dtypeTable, intToDtype e.2 = .ok e.1 := by decide
  unfold dtypeToInt at h
  split at h
  · rename_i e he
    cases h
    have hd : e.1 = dtype := by simpa using List.find?_some he
    rw [← hd]
    exact hback e (List.mem_of_find?_eq_some he)
  · cases h

/-- A location that has a code is read back from it. -/
theorem intToLocation_of_locationToInt (h : locationToInt location = .ok n) :
    intToLocation n = .ok location := by
  have hback : ∀ e ∈ locationTable, intToLocation e.2 = .ok e.1 := by decide
  unfold locationToInt at h
  split at h
  · rename_i e he
    cases h
    have hd : e.1 = location := by simpa using List.find?_some he
    rw [← hd]
    exact hback e (List.mem_of_find?_eq_some he)
  · cases h

/-- A table has an entry for what is among its left sides. -/
theorem exists_find?_fst_iff {α β : Type} [DecidableEq α] {table : List (α × β)} {a : α} :
    (∃ e, (table.find? fun e => e.1 = a) = some e) ↔ a ∈ table.map Prod.fst := by
  rw [← Option.isSome_iff_exists, List.find?_isSome, List.mem_map]
  simp only [decide_eq_true_eq]

theorem dtypeToInt_ok_iff :
    (∃ code, dtypeToInt dtype = .ok code) ↔ dtype ∈ dtypeTable.map Prod.fst := by
  rw [← exists_find?_fst_iff]
  unfold dtypeToInt
  cases dtypeTable.find? fun e => e.1 = dtype with
  | none => exact ⟨fun ⟨_, h⟩ => (nomatch h), fun ⟨_, h⟩ => (nomatch h)⟩
  | some e => exact ⟨fun _ => ⟨e, rfl⟩, fun _ => ⟨e.2, rfl⟩⟩

theorem locationToInt_ok_iff :
    (∃ code, locationToInt location = .ok code) ↔ location ∈ locationTable.map Prod.fst := by
  rw [← exists_find?_fst_iff]
  unfold locationToInt
  cases locationTable.find? fun e => e.1 = location with
  | none => exact ⟨fun ⟨_, h⟩ => (nomatch h), fun ⟨_, h⟩ => (nomatch h)⟩
  | some e => exact ⟨fun _ => ⟨e, rfl⟩, fun _ => ⟨e.2, rfl⟩⟩

theorem isCInt_of_dtypeToInt {code : Int} (h : dtypeToInt dtype = .ok code) : IsCInt code := by
  have hcodes : ∀ e ∈ dtypeTable, IsCInt e.2 := by decide
  unfold dtypeToInt at h
  split at h
  · rename_i e he
    cases h
    exact hcodes e (List.mem_of_find?_eq_some he)
  · cases h

theorem isCInt_of_locationToInt {code : Int} (h : locationToInt location = .ok code) :
    IsCInt code := by
  have hcodes : ∀ e ∈ locationTable, IsCInt e.2 := by decide
  unfold locationToInt at h
  split at h
  · rename_i e he
    cases h
    exact hcodes e (List.mem_of_find?_eq_some he)
  · cases h

theorem isCInt_fmt (fmt : MemoryFormat) : IsCInt fmt.value := by cases fmt <;> decide

theorem isCInt_code (code : ServerReturnCode) : IsCInt code.value := by cases code <;> decide

/-! ## The key field -/

namespace ClientMetaMessage

theorem length_packKey (s : List Char) : (packKey s).length = maxKeyLength := by
  unfold packKey
  rw [List.length_take, List.length_append, List.length_replicate]
  omega

/-- Spaces are encoded as they stand. -/
theorem encode_spaces (n : Nat) : encode (List.replicate n ' ') = List.replicate n 32 := by
  induction n with
  | zero => rfl
  | succ n ih =>
    rw [List.replicate_succ, List.replicate_succ, ← ih]
    rfl

variable {s : List Char} {bs : List UInt8} {m : ClientMetaMessage}

/-- A string that fits is unpacked with its padding. -/
theorem decode?_packKey (h : size s ≤ maxKeyLength) :
    decode? (packKey s) = some (s ++ List.replicate (maxKeyLength - size s) ' ') := by
  rw [decode?_eq_some, encode_append, encode_spaces]
  unfold packKey
  rw [length_encode, List.take_of_length_le]
  rw [List.length_append, List.length_replicate, length_encode]
  omega

/-- A field that a string fills keeps nothing of what is behind the string. -/
theorem decode?_packKey_of_full (t : List Char) (h : size s = maxKeyLength) :
    decode? (packKey (s ++ t)) = some s := by
  rw [decode?_eq_some]
  unfold packKey
  rw [encode_append, List.append_assoc, List.take_left']
  rw [length_encode, h]

/-- The key that is read from a field of which the bytes are text. -/
theorem unpackKey_of_decode? (h : decode? bs = some s) :
    unpackKey bs = CacheEngineKey.parseCacheKey (String.ofList (strip s)) := by
  unfold unpackKey
  rw [h]

/-- What is unpacked from the key field takes no more bytes than the field. -/
theorem size_le_of_decode? {t : List Char} (h : decode? (packKey s) = some t) :
    size t = maxKeyLength := by
  rw [← length_encode, decode?_eq_some.mp h, length_packKey]

/-- **The keys that come back from the key field**: their string fits, has no white space around it and
is parsed as the key. -/
theorem unpackKey_packKey_iff (k : CacheEngineKey) :
    unpackKey (packKey k.toString.toList) = .ok k ↔
      k.Parseable ∧ size k.toString.toList ≤ maxKeyLength ∧
        strip k.toString.toList = k.toString.toList := by
  constructor
  · intro h
    cases hdecode : decode? (packKey k.toString.toList) with
    | none =>
      unfold unpackKey at h
      rw [hdecode] at h
      cases h
    | some t =>
      rw [unpackKey_of_decode? hdecode] at h
      obtain ⟨hparse, hfrom⟩ := CacheEngineKey.parseable_of_parseCacheKey h
      have hle := CacheEngineKey.size_toString_le hfrom
      rw [String.toList_ofList] at hle
      have hstrip : size (strip t) ≤ size t := by
        by_cases hs : strip t = t
        · rw [hs]
        · exact le_of_lt (size_strip_lt hs)
      -- the field is long enough for all that is read from it
      have hfits : size k.toString.toList ≤ maxKeyLength := by
        rw [← size_le_of_decode? hdecode]
        exact le_trans hle hstrip
      refine ⟨hparse, hfits, ?_⟩
      rw [decode?_packKey hfits] at hdecode
      cases hdecode
      rw [strip_append_spaces] at hle
      by_contra hne
      exact absurd hle (Nat.not_le.mpr (size_strip_lt hne))
  · rintro ⟨hparse, hfits, hstrip⟩
    rw [unpackKey_of_decode? (decode?_packKey hfits), strip_append_spaces, hstrip,
      String.ofList_toList]
    exact (CacheEngineKey.parseCacheKey_toString_eq_iff k).mpr hparse

/-! ## The whole message -/

/-- **What `serialize` makes of a message it accepts.** -/
theorem of_serialize (h : m.serialize = .ok bs) :
    ∃ dtype location shape0 shape1 shape2 shape3,
      dtypeToInt m.dtype = .ok dtype ∧ locationToInt m.location = .ok location ∧
        m.shape = [shape0, shape1, shape2, shape3] ∧
          (∀ n ∈ [m.command.value, m.length, m.fmt.value, dtype, location, shape0, shape1, shape2,
            shape3], IsCInt n) ∧
          bs = [m.command.value, m.length, m.fmt.value, dtype, location, shape0, shape1, shape2,
            shape3].flatMap packInt ++ packKey m.key.toString.toList := by
  unfold serialize at h
  dsimp only at h
  split at h
  · cases h
  · split at h
    · cases h
    · rename_i hshape
      obtain ⟨dtype, hdtype, h⟩ := bind_eq_ok.mp h
      obtain ⟨location, hlocation, h⟩ := bind_eq_ok.mp h
      obtain ⟨ints, hints, h⟩ := bind_eq_ok.mp h
      cases h
      rw [not_not] at hshape
      obtain ⟨shape0, shape1, shape2, shape3, hs⟩ := List.length_eq_four.mp hshape
      rw [hs] at hints
      obtain ⟨hcints, rfl⟩ := packInts_eq_ok.mp hints
      exact ⟨dtype, location, shape0, shape1, shape2, shape3, hdtype, hlocation, hs, hcints, rfl⟩

theorem length_serialize (h : m.serialize = .ok bs) : bs.length = packlength := by
  obtain ⟨_, _, _, _, _, _, -, -, -, -, rfl⟩ := of_serialize h
  rw [List.length_append, length_flatMap_packInt, length_packKey]
  rfl

/-- **A message comes back as it was but for its key**, which is what its field is read as. -/
theorem deserialize_serialize (h : m.serialize = .ok bs) :
    deserialize bs = (unpackKey (packKey m.key.toString.toList)).map fun key =>
      { m with key := key } := by
  have hlen := length_serialize h
  obtain ⟨dtype, location, shape0, shape1, shape2, shape3, hdtype, hlocation, hshape, hints, rfl⟩ :=
    of_serialize h
  have hat : ∀ {i : Nat} {n : Int}, [m.command.value, m.length, m.fmt.value, dtype, location, shape0,
      shape1, shape2, shape3][i]? = some n → intAt _ i = n :=
    fun hi => intAt_flatMap_packInt hints (packKey m.key.toString.toList) hi
  unfold deserialize
  rw [if_neg (not_not.mpr hlen)]
  rw [@hat 0 _ rfl, @hat 1 _ rfl, @hat 2 _ rfl, @hat 3 _ rfl, @hat 4 _ rfl, @hat 5 _ rfl,
    @hat 6 _ rfl, @hat 7 _ rfl, @hat 8 _ rfl, ClientCommand.ofInt_value]
  have hkey : (([m.command.value, m.length, m.fmt.value, dtype, location, shape0, shape1, shape2,
      shape3].flatMap packInt ++ packKey m.key.toString.toList).drop 36) =
        packKey m.key.toString.toList := List.drop_left' (length_flatMap_packInt _)
  rw [hkey, MemoryFormat.ofInt_value, intToDtype_of_dtypeToInt hdtype,
    intToLocation_of_locationToInt hlocation]
  cases unpackKey (packKey m.key.toString.toList) with
  | error e => rfl
  | ok key =>
    show Except.ok _ = Except.ok _
    rw [← hshape]

end ClientMetaMessage

namespace ServerMetaMessage

variable {bs : List UInt8} {m : ServerMetaMessage}

/-- **What `serialize` makes of a reply it accepts.** -/
theorem of_serialize (h : m.serialize = .ok bs) :
    ∃ dtype shape0 shape1 shape2 shape3 location,
      dtypeToInt m.dtype = .ok dtype ∧ locationToInt m.location = .ok location ∧
        m.shape = [shape0, shape1, shape2, shape3] ∧
          (∀ n ∈ [m.code.value, m.length, m.fmt.value, dtype, shape0, shape1, shape2, shape3,
            location], IsCInt n) ∧
          bs = [m.code.value, m.length, m.fmt.value, dtype, shape0, shape1, shape2, shape3,
            location].flatMap packInt := by
  unfold serialize at h
  split at h
  · cases h
  · rename_i hshape
    obtain ⟨dtype, hdtype, h⟩ := bind_eq_ok.mp h
    obtain ⟨location, hlocation, h⟩ := bind_eq_ok.mp h
    rw [not_not] at hshape
    obtain ⟨shape0, shape1, shape2, shape3, hs⟩ := List.length_eq_four.mp hshape
    rw [hs] at h
    obtain ⟨hcints, rfl⟩ := packInts_eq_ok.mp h
    exact ⟨dtype, shape0, shape1, shape2, shape3, location, hdtype, hlocation, hs, hcints, rfl⟩

theorem length_serialize (h : m.serialize = .ok bs) : bs.length = packlength := by
  obtain ⟨_, _, _, _, _, _, -, -, -, -, rfl⟩ := of_serialize h
  rw [length_flatMap_packInt]
  rfl

/-- **A reply comes back as it was.** -/
theorem deserialize_serialize (h : m.serialize = .ok bs) : deserialize bs = .ok m := by
  have hlen := length_serialize h
  obtain ⟨dtype, shape0, shape1, shape2, shape3, location, hdtype, hlocation, hshape, hints, rfl⟩ :=
    of_serialize h
  have hat : ∀ {i : Nat} {n : Int}, [m.code.value, m.length, m.fmt.value, dtype, shape0, shape1,
      shape2, shape3, location][i]? = some n → intAt _ i = n :=
    fun hi => intAt_flatMap_packInt hints [] hi
  rw [List.append_nil] at hat
  unfold deserialize
  rw [if_neg (not_not.mpr hlen), @hat 0 _ rfl, @hat 1 _ rfl, @hat 2 _ rfl, @hat 3 _ rfl,
    @hat 4 _ rfl, @hat 5 _ rfl, @hat 6 _ rfl, @hat 7 _ rfl, @hat 8 _ rfl,
    ServerReturnCode.ofInt_value, MemoryFormat.ofInt_value, intToDtype_of_dtypeToInt hdtype,
    intToLocation_of_locationToInt hlocation, ← hshape]
  rfl

/-- A reply that can be packed. -/
structure Packs (m : ServerMetaMessage) : Prop where
  four : m.shape.length = 4
  coded : m.dtype ∈ dtypeTable.map Prod.fst
  located : m.location ∈ locationTable.map Prod.fst
  length : IsCInt m.length
  dims : ∀ n ∈ m.shape, IsCInt n

/-- **A reply is packed exactly when nothing in it is refused.** -/
theorem serialize_ok_iff : (∃ bs, m.serialize = .ok bs) ↔ m.Packs := by
  constructor
  · rintro ⟨bs, h⟩
    obtain ⟨dtype, shape0, shape1, shape2, shape3, location, hdtype, hlocation, hshape, hints, -⟩ :=
      of_serialize h
    simp only [List.forall_mem_cons] at hints
    obtain ⟨-, hlength, -, -, h0, h1, h2, h3, -⟩ := hints
    refine ⟨by rw [hshape]; rfl, dtypeToInt_ok_iff.mp ⟨dtype, hdtype⟩,
      locationToInt_ok_iff.mp ⟨location, hlocation⟩, hlength, ?_⟩
    rw [hshape]
    simp only [List.forall_mem_cons]
    exact ⟨h0, h1, h2, h3, List.forall_mem_nil _⟩
  · intro h
    obtain ⟨dtype, hdtype⟩ := dtypeToInt_ok_iff.mpr h.coded
    obtain ⟨location, hlocation⟩ := locationToInt_ok_iff.mpr h.located
    have hints : ∀ n ∈ [m.code.value, m.length, m.fmt.value, dtype] ++ m.shape ++ [location],
        IsCInt n := by
      simp only [List.forall_mem_append, List.forall_mem_cons]
      exact ⟨⟨⟨isCInt_code m.code, h.length, isCInt_fmt m.fmt, isCInt_of_dtypeToInt hdtype,
        List.forall_mem_nil _⟩, h.dims⟩, isCInt_of_locationToInt hlocation, List.forall_mem_nil _⟩
    unfold serialize
    rw [if_neg (not_not.mpr h.four)]
    exact ⟨_, bind_eq_ok.mpr ⟨dtype, hdtype, bind_eq_ok.mpr ⟨location, hlocation,
      packInts_eq_ok.mpr ⟨hints, rfl⟩⟩⟩⟩

end ServerMetaMessage

namespace ClientMetaMessage

/-- A key that a message carries unharmed. -/
structure Carried (k : CacheEngineKey) : Prop where
  plain : k.layerId = none
  dtype : k.dtype ≠ .float8_e4m3fn ∧ k.dtype ≠ .float8_e5m2
  noSeparators : k.NoSeparators
  /-- The string of the key fits into its field as bytes. -/
  fits : size k.toString.toList ≤ maxKeyLength
  /-- The string of the key has no white space at its ends. -/
  stripped : strip k.toString.toList = k.toString.toList

theorem unpackKey_packKey_iff_carried {k : CacheEngineKey} (hk : k.Constructed) :
    unpackKey (packKey k.toString.toList) = .ok k ↔ Carried k := by
  rw [unpackKey_packKey_iff]
  constructor
  · rintro ⟨hparse, hfits, hstrip⟩
    exact ⟨hparse.plain, (TorchDtype.ofStr_str _).mp hparse.dtype, hparse.noSeparators, hfits,
      hstrip⟩
  · intro h
    exact ⟨⟨h.plain, (TorchDtype.ofStr_str _).mpr h.dtype, hk.distinctTags, h.noSeparators⟩,
      h.fits, h.stripped⟩

/-- A message comes back just when its key does. -/
theorem deserialize_eq_iff {m : ClientMetaMessage} {bs : List UInt8} (h : m.serialize = .ok bs) :
    deserialize bs = .ok m ↔ unpackKey (packKey m.key.toString.toList) = .ok m.key := by
  rw [deserialize_serialize h]
  cases unpackKey (packKey m.key.toString.toList) with
  | error e => exact ⟨fun h => (nomatch h), fun h => (nomatch h)⟩
  | ok key =>
    constructor
    · intro hm
      exact congrArg Except.ok (congrArg ClientMetaMessage.key (Except.ok.inj hm))
    · intro hkey
      cases hkey
      rfl

/-- The message of `LMCServerConnector.get`. -/
def getMessage (key : CacheEngineKey) : ClientMetaMessage :=
  ⟨.get, key, 0, .KV_2LTD, some .float16, [0, 0, 0, 0], none⟩

/-- A key with one tag, whose value is some number of letters of two bytes each. -/
def accentKey (n : Nat) : CacheEngineKey :=
  ⟨"model", 1, 0, 255, .float16, some [("t", String.ofList (List.replicate n 'é'))], none⟩

theorem carried_plainKey : Carried (CacheEngineKey.plainKey .float16 none) :=
  ⟨rfl, by decide, CacheEngineKey.noSeparators_plainKey _ _, by decide +kernel, by decide +kernel⟩

/-- A message about a plain key comes back. -/
theorem deserialize_plainKey {m : ClientMetaMessage} {bs : List UInt8}
    (hkey : m.key = CacheEngineKey.plainKey .float16 none) (h : m.serialize = .ok bs) :
    deserialize bs = .ok m := by
  rw [deserialize_eq_iff h, hkey,
    unpackKey_packKey_iff_carried (CacheEngineKey.constructed_plainKey _ _)]
  exact carried_plainKey

theorem toList_toString_accentKey (n : Nat) :
    (accentKey n).toString.toList = "model@1@0@ff@half@t%".toList ++ List.replicate n 'é' := by
  have hnumbers : format 10 1 = ['1'] ∧ format 10 0 = ['0'] ∧ format 16 255 = ['f', 'f'] := by
    decide +kernel
  unfold CacheEngineKey.toString accentKey
  dsimp only
  rw [hnumbers.1, hnumbers.2.1, hnumbers.2.2]
  simp [CacheEngineKey.tagString, TorchDtype.str]

theorem parseable_accentKey (n : Nat) : (accentKey n).Parseable := by
  refine ⟨rfl, rfl, ?_, ?_, ?_⟩
  · rintro _ ⟨⟩
    exact ⟨List.cons_ne_nil _ _, List.nodup_singleton _⟩
  · show '@' ∉ "model".toList
    decide
  · rintro _ ⟨⟩ t ht
    cases List.mem_singleton.mp ht
    refine ⟨show '%' ∉ "t".toList by decide, show '@' ∉ "t".toList by decide, ?_⟩
    show '@' ∉ (String.ofList (List.replicate n 'é')).toList
    rw [String.toList_ofList]
    exact fun h => absurd (List.eq_of_mem_replicate h) (by decide)

/-- The key of which the field holds 65 letters is read as one with 65 letters. -/
theorem unpackKey_accentKey :
    unpackKey (packKey (accentKey 70).toString.toList) = .ok (accentKey 65) := by
  have hsplit : (accentKey 70).toString.toList =
      (accentKey 65).toString.toList ++ List.replicate 5 'é' := by
    rw [toList_toString_accentKey, toList_toString_accentKey, List.append_assoc,
      List.replicate_append_replicate]
  have hfull : size (accentKey 65).toString.toList = maxKeyLength := by
    rw [toList_toString_accentKey]
    decide +kernel
  have hstrip : strip (accentKey 65).toString.toList = (accentKey 65).toString.toList := by
    rw [toList_toString_accentKey]
    decide +kernel
  rw [hsplit, unpackKey_of_decode? (decode?_packKey_of_full _ hfull), hstrip, String.ofList_toList]
  exact (CacheEngineKey.parseCacheKey_toString_eq_iff _).mpr (parseable_accentKey 65)

end ClientMetaMessage

end LMCache
