/-
# LMCache.KeyString — cache keys as strings, and back.

Source: `TORCH_DTYPE_TO_STR_DTYPE`, `parse_cache_key`, and `to_string` and `from_string` of
`CacheEngineKey` and `LayerCacheEngineKey` in `utils.py`.

A key is written as its fields with `@` between them: model name, world size, worker id, hash, dtype,
the layer id of a layer key, and a `name%value` for each tag.  `parse_cache_key` looks for the layer id
where the dtype stands, so it takes every layer key for a key whose first tag is the layer id, and
fails on it.  And a name of a dtype is read as the last of the dtypes that share it.
-/
import LMCache.CacheEngineKey
import LMCache.Lib.Dict
import LMCache.Lib.PyStr

namespace LMCache

open LMCache.Lib LMCache.Memory

/-! ## The names of the dtypes -/

namespace Memory.TorchDtype

/-- `TORCH_DTYPE_TO_STR_DTYPE[dtype]`. -/
def str : TorchDtype → String
  | .float16 => "half"
  | .bfloat16 => "bfloat16"
  | .float32 => "float"
  | .float64 => "double"
  | .int8 => "int8"
  | .uint8 => "uint8"
  | .int16 => "int16"
  | .int32 => "int32"
  | .int64 => "int64"
  | .bool => "bool"
  | .float8_e4m3fn => "fp8_e4m3"
  | .float8_e4m3fnuz => "fp8_e4m3"
  | .float8_e5m2 => "fp8_e5m2"
  | .float8_e5m2fnuz => "fp8_e5m2"

/-- The keys of `TORCH_DTYPE_TO_STR_DTYPE`, in the order in which they are put in. -/
def all : List TorchDtype :=
  [.float16, .bfloat16, .float32, .float64, .int8, .uint8, .int16, .int32, .int64, .bool,
    .float8_e4m3fn, .float8_e4m3fnuz, .float8_e5m2, .float8_e5m2fnuz]

/-- `STR_DTYPE_TO_TORCH_DTYPE`: of the dtypes with one name the last stays. -/
def ofStr : Dict String TorchDtype := .ofPairs (all.map fun d => (d.str, d))

/-- A name is read back as its dtype but for the dtypes whose name goes to a later one. -/
theorem ofStr_str (d : TorchDtype) :
    ofStr.get? d.str = some d ↔ d ≠ .float8_e4m3fn ∧ d ≠ .float8_e5m2 := by
  cases d <;> decide +kernel

/-- What is read from a name has that name. -/
theorem str_of_ofStr {s : String} {d : TorchDtype} (h : ofStr.get? s = some d) : d.str = s := by
  have hmem := Dict.mem_of_get?_ofPairs h
  obtain ⟨d', -, heq⟩ := List.mem_map.mp hmem
  cases heq
  rfl

end Memory.TorchDtype

namespace CacheEngineKey

open PyStr

/-! ## Writing -/

/-- `f"{k}%{v}"`. -/
def tagString (tag : String × String) : String := tag.1 ++ "%" ++ tag.2

/-- `to_string` of either class. -/
def toString (k : CacheEngineKey) : String :=
  let s := k.modelName ++ "@" ++ String.ofList (format 10 k.worldSize) ++
    "@" ++ String.ofList (format 10 k.workerId) ++ "@" ++ String.ofList (format 16 k.chunkHash) ++
    "@" ++ k.dtype.str
  let s := match k.layerId with
    | none => s
    | some layerId => s ++ "@" ++ String.ofList (format 10 layerId)
  match k.tags with
  | none => s
  | some [] => s
  | some tags => s ++ "@" ++ "@".intercalate (tags.map tagString)

/-! ## Reading -/

/-- The message of `from_string`. -/
def invalidMessage (s : String) : String := s!"Invalid key string: {s}"

/-- `int(s, b)`. -/
def readInt (b : Nat) (s : List Char) : Except PyError Int :=
  match int? b s with
  | some n => .ok n
  | none => .error (.valueError
      s!"invalid literal for int() with base {b}: '{String.ofList s}'")

/-- `STR_DTYPE_TO_TORCH_DTYPE[s]`. -/
def readDtype (s : List Char) : Except PyError TorchDtype :=
  match TorchDtype.ofStr.get? (String.ofList s) with
  | some d => .ok d
  | none => .error (.keyError s!"'{String.ofList s}'")

/-- The loop of `from_string` over the parts behind the fields. -/
def readTags (s : String) : Dict String String → List (List Char) →
    Except PyError (Dict String String)
  | d, [] => .ok d
  | d, kv :: kvs =>
    match cut '%' kv with
    | none => .error (.valueError (invalidMessage s))
    | some (name, value) =>
      readTags s (d.set (tagPrefix ++ String.ofList name) (String.ofList value)) kvs

/-- The `request_configs` of `from_string`. -/
def readConfigs (s : String) (kvs : List (List Char)) :
    Except PyError (Option (List (String × String))) :=
  if kvs.isEmpty then .ok none else (readTags s .empty kvs).map fun d => some d.entries

/-- `CacheEngineKey.from_string`. -/
def fromString (s : String) : Except PyError CacheEngineKey :=
  match split '@' s.toList with
  | modelName :: worldSize :: workerId :: chunkHash :: dtype :: kvs => do
    let requestConfigs ← readConfigs s kvs
    let worldSize ← readInt 10 worldSize
    let workerId ← readInt 10 workerId
    let chunkHash ← readInt 16 chunkHash
    let dtype ← readDtype dtype
    .ok (.ofRequest (String.ofList modelName) worldSize workerId chunkHash dtype requestConfigs)
  | _ => .error (.valueError (invalidMessage s))

/-- `LayerCacheEngineKey.from_string`. -/
def layerFromString (s : String) : Except PyError CacheEngineKey :=
  match split '@' s.toList with
  | modelName :: worldSize :: workerId :: chunkHash :: dtype :: layerId :: kvs => do
    let requestConfigs ← readConfigs s kvs
    let worldSize ← readInt 10 worldSize
    let workerId ← readInt 10 workerId
    let chunkHash ← readInt 16 chunkHash
    let dtype ← readDtype dtype
    let layerId ← readInt 10 layerId
    .ok { CacheEngineKey.ofRequest (String.ofList modelName) worldSize workerId chunkHash dtype
      requestConfigs with layerId := some layerId }
  | _ => .error (.valueError (invalidMessage s))

/-- `parse_cache_key`. -/
def parseCacheKey (s : String) : Except PyError CacheEngineKey :=
  match (split '@' (strip s.toList))[4]? with
  | some part => if isDigit part then layerFromString s else fromString s
  | none => fromString s

/-! ## The parts of a key's string -/

/-- The fields of a key behind its dtype. -/
def tailParts (k : CacheEngineKey) : List (List Char) :=
  (k.layerId.toList.map (format 10)) ++ (k.tags.getD []).map fun t => (tagString t).toList

/-- The fields that a key is written with. -/
def parts (k : CacheEngineKey) : List (List Char) :=
  k.modelName.toList :: format 10 k.worldSize :: format 10 k.workerId :: format 16 k.chunkHash ::
    k.dtype.str.toList :: k.tailParts

theorem toList_tagString (t : String × String) :
    (tagString t).toList = t.1.toList ++ '%' :: t.2.toList := by
  unfold tagString
  rw [String.toList_append, String.toList_append, List.append_assoc]
  rfl

/-- A key is written as its fields with the separator between them. -/
theorem toList_toString (k : CacheEngineKey) :
    k.toString.toList = ['@'].intercalate k.parts := by
  have hat : "@".toList = ['@'] := rfl
  have htags : ∀ ts : List (String × String), ("@".intercalate (ts.map tagString)).toList =
      ['@'].intercalate (ts.map fun t => (tagString t).toList) := by
    intro ts
    rw [String.toList_intercalate, List.map_map, hat]
    rfl
  unfold toString parts tailParts
  cases k.layerId <;> rcases k.tags with _ | _ | ⟨t, ts⟩ <;>
    simp only [Option.toList_none, Option.toList_some, Option.getD_none, Option.getD_some,
      List.map_nil, List.map_cons, List.nil_append, List.cons_append, List.append_nil,
      List.intercalate_cons_cons, List.intercalate_singleton, String.toList_append,
      String.toList_ofList, hat, List.append_assoc]
  all_goals
    rw [← List.map_cons, htags, List.map_cons]

/-! ## Keys that can be taken apart -/

/-- The tags are what `__post_init__` reads from the request configurations, which are a
dictionary. -/
def Constructed (k : CacheEngineKey) : Prop :=
  ∃ configs : Option (List (String × String)),
    (∀ l, configs = some l → (l.map Prod.fst).Nodup) ∧ k.tags = tagsOf configs

/-- No separator stands in a field where it would be taken for one. -/
structure NoSeparators (k : CacheEngineKey) : Prop where
  modelName : '@' ∉ k.modelName.toList
  tags : ∀ tags, k.tags = some tags →
    ∀ t ∈ tags, '%' ∉ t.1.toList ∧ '@' ∉ t.1.toList ∧ '@' ∉ t.2.toList

/-- The tags as a dictionary has them: some, with a name each. -/
def DistinctTags (k : CacheEngineKey) : Prop :=
  ∀ tags, k.tags = some tags → tags ≠ [] ∧ (tags.map Prod.fst).Nodup

variable {k : CacheEngineKey} {kvs : List (List Char)} {s : String}
  {configs : Option (List (String × String))} {d : TorchDtype}

theorem DistinctTags.ne_some_nil (h : k.DistinctTags) : k.tags ≠ some [] :=
  fun hk => (h [] hk).1 rfl

/-- The name behind the prefix of a tag determines the name with it. -/
theorem eq_of_drop_tagPrefix {a b : String} (ha : tagPrefix.toList.isPrefixOf a.toList = true)
    (hb : tagPrefix.toList.isPrefixOf b.toList = true)
    (h : a.toList.drop tagPrefix.length = b.toList.drop tagPrefix.length) : a = b := by
  obtain ⟨t, ht⟩ := List.isPrefixOf_iff_prefix.mp ha
  obtain ⟨u, hu⟩ := List.isPrefixOf_iff_prefix.mp hb
  have hlen : tagPrefix.length = tagPrefix.toList.length := rfl
  rw [← ht, ← hu, hlen, List.drop_left, List.drop_left] at h
  rw [← String.toList_inj, ← ht, ← hu, h]

/-- Tags read from a dictionary are distinct. -/
theorem Constructed.distinctTags (h : k.Constructed) : k.DistinctTags := by
  obtain ⟨configs, hnodup, htags⟩ := h
  intro tags hk
  rw [htags] at hk
  unfold tagsOf at hk
  split at hk
  · cases hk
  · rename_i tags' hne
    cases hk
    refine ⟨hne, ?_⟩
    have hconfigs : ((configs.getD []).map Prod.fst).Nodup := by
      cases configs with
      | none => exact List.nodup_nil
      | some l => exact hnodup l rfl
    rw [List.Nodup, List.pairwise_map] at hconfigs ⊢
    rw [List.pairwise_filterMap]
    refine hconfigs.imp fun {a b} hab t ht u hu htu => ?_
    dsimp only at ht hu
    split at ht
    · split at hu
      · rename_i ha hb
        cases ht
        cases hu
        exact hab (eq_of_drop_tagPrefix ha hb (String.ofList_inj.mp htu))
      · cases hu
    · cases ht

/-! ## The parts of what is written -/

theorem notMem_str (d : TorchDtype) : '@' ∉ d.str.toList := by
  cases d <;> decide

/-- No part of a key has a separator in it. -/
theorem notMem_parts (h : k.NoSeparators) : ∀ p ∈ k.parts, '@' ∉ p := by
  unfold parts tailParts
  simp only [List.forall_mem_cons, List.forall_mem_append, List.forall_mem_map]
  refine ⟨h.modelName, notMem_format (by decide) (by decide) _ (by decide) (by decide),
    notMem_format (by decide) (by decide) _ (by decide) (by decide),
    notMem_format (by decide) (by decide) _ (by decide) (by decide), notMem_str _, ?_, ?_⟩
  · intro n _
    exact notMem_format (by decide) (by decide) _ (by decide) (by decide)
  · intro t ht
    cases htags : k.tags with
    | none =>
      rw [htags] at ht
      cases ht
    | some tags =>
      rw [htags] at ht
      obtain ⟨-, hname, hvalue⟩ := h.tags tags htags t ht
      rw [toList_tagString]
      simp [hname, hvalue]

/-- **A written key is split into its parts.** -/
theorem split_toString (h : k.NoSeparators) : split '@' k.toString.toList = k.parts := by
  unfold split
  rw [toList_toString, List.splitOn_intercalate _ (notMem_parts h) (List.cons_ne_nil _ _)]

/-! ## Reading tags -/

/-- The dictionary of the tags, as `from_string` builds it. -/
def tagDict (d : Dict String String) (tags : List (String × String)) : Dict String String :=
  tags.foldl (fun d t => d.set (tagPrefix ++ t.1) t.2) d

/-- **What the loop over the tags reads**: pairs of a name without `%` and a value. -/
theorem readTags_eq_ok {d d' : Dict String String} :
    readTags s d kvs = .ok d' ↔ ∃ tags : List (String × String),
      (∀ t ∈ tags, '%' ∉ t.1.toList) ∧ kvs = tags.map (fun t => (tagString t).toList) ∧
        d' = tagDict d tags := by
  induction kvs generalizing d with
  | nil =>
    constructor
    · intro h
      cases h
      exact ⟨[], by simp, rfl, rfl⟩
    · rintro ⟨tags, -, hkvs, rfl⟩
      rw [List.nil_eq, List.map_eq_nil_iff] at hkvs
      subst hkvs
      rfl
  | cons kv kvs ih =>
    unfold readTags
    constructor
    · intro h
      cases hcut : cut '%' kv with
      | none => rw [hcut] at h; cases h
      | some p =>
        rw [hcut] at h
        obtain ⟨tags, hnames, hkvs, hd⟩ := ih.mp h
        obtain ⟨rfl, hname⟩ := cut_eq_some.mp hcut
        refine ⟨(String.ofList p.1, String.ofList p.2) :: tags, ?_, ?_, hd⟩
        · rw [List.forall_mem_cons, String.toList_ofList]
          exact ⟨hname, hnames⟩
        · rw [List.map_cons, toList_tagString, String.toList_ofList, String.toList_ofList, hkvs]
    · rintro ⟨tags, hnames, hkvs, rfl⟩
      cases tags with
      | nil => cases hkvs
      | cons t tags =>
        rw [List.forall_mem_cons] at hnames
        cases hkvs
        have hcut : cut '%' (tagString t).toList = some (t.1.toList, t.2.toList) :=
          cut_eq_some.mpr ⟨toList_tagString t, hnames.1⟩
        rw [hcut]
        dsimp only
        rw [String.ofList_toList, String.ofList_toList]
        exact ih.mpr ⟨tags, hnames.2, rfl, rfl⟩

/-- The name of a tag in the request configurations. -/
def configOf (t : String × String) : String × String := (tagPrefix ++ t.1, t.2)

variable (tags : List (String × String))

theorem tagDict_eq : tagDict .empty tags = .ofPairs (tags.map configOf) := by
  unfold tagDict Dict.ofPairs
  rw [List.foldl_map]
  rfl

theorem filterMap_map_configOf :
    (tags.map configOf).filterMap (fun (k, v) =>
      if tagPrefix.toList.isPrefixOf k.toList then
        some (String.ofList (k.toList.drop tagPrefix.length), v)
      else none) = tags := by
  induction tags with
  | nil => rfl
  | cons t tags ih =>
    have hprefix : tagPrefix.toList.isPrefixOf (tagPrefix ++ t.1).toList = true := by
      rw [String.toList_append]
      exact List.isPrefixOf_iff_prefix.mpr (List.prefix_append _ _)
    have hlen : tagPrefix.length = tagPrefix.toList.length := rfl
    rw [List.map_cons, List.filterMap_cons_some (b := t), ih]
    unfold configOf
    dsimp only
    rw [if_pos hprefix, String.toList_append, hlen, List.drop_left, String.ofList_toList]

/-- The tags read from configurations that are all tags. -/
theorem tagsOf_map_configOf :
    tagsOf (some (tags.map configOf)) = if tags = [] then none else some tags := by
  unfold tagsOf
  rw [Option.getD_some, filterMap_map_configOf]
  cases tags <;> rfl

/-- The entries of the dictionary are some of the tags that were read. -/
theorem entries_tagDict :
    ∃ kept : List (String × String), (tagDict .empty tags).entries = kept.map configOf ∧
      (∀ t ∈ kept, t ∈ tags) ∧ (kept.map Prod.fst).Nodup := by
  have hmem : ∀ e ∈ (tagDict .empty tags).entries, ∃ t ∈ tags, configOf t = e := by
    intro e he
    rw [tagDict_eq] at he
    have := Dict.mem_of_get?_ofPairs (Dict.get?_eq_some.mpr he)
    exact List.mem_map.mp this
  have hnodup := (tagDict .empty tags).nodup
  generalize (tagDict .empty tags).entries = es at hmem hnodup
  induction es with
  | nil => exact ⟨[], rfl, by simp, List.nodup_nil⟩
  | cons e es ih =>
    rw [List.forall_mem_cons] at hmem
    rw [List.map_cons, List.nodup_cons] at hnodup
    obtain ⟨⟨t, ht, rfl⟩, hmem⟩ := hmem
    obtain ⟨kept, rfl, hkept, hdistinct⟩ := ih hmem hnodup.2
    refine ⟨t :: kept, rfl, ?_, ?_⟩
    · rw [List.forall_mem_cons]
      exact ⟨ht, hkept⟩
    · rw [List.map_cons, List.nodup_cons]
      refine ⟨fun hm => hnodup.1 ?_, hdistinct⟩
      obtain ⟨u, hu, hut⟩ := List.mem_map.mp hm
      rw [List.map_map]
      refine List.mem_map.mpr ⟨u, hu, ?_⟩
      show tagPrefix ++ u.1 = tagPrefix ++ t.1
      rw [hut]

/-- The tags of a key are read back from its string. -/
theorem readConfigs_tags (hk : k.DistinctTags) (h : k.NoSeparators) (s : String) : ∃ configs,
      readConfigs s ((k.tags.getD []).map fun t => (tagString t).toList) = .ok configs ∧
        tagsOf configs = k.tags := by
  unfold readConfigs
  cases htags : k.tags with
  | none => exact ⟨none, rfl, rfl⟩
  | some tags =>
    obtain ⟨hne, hnodup⟩ := hk tags htags
    have hnames : ∀ t ∈ tags, '%' ∉ t.1.toList := fun t ht => (h.tags tags htags t ht).1
    have hread : readTags s .empty (tags.map fun t => (tagString t).toList) =
        .ok (tagDict .empty tags) := readTags_eq_ok.mpr ⟨tags, hnames, rfl, rfl⟩
    have hconfigs : ((tags.map configOf).map Prod.fst).Nodup := by
      rw [List.Nodup, List.pairwise_map] at hnodup
      rw [List.map_map, List.Nodup, List.pairwise_map]
      refine hnodup.imp fun {a b} hab heq => hab ?_
      have hlist := congrArg String.toList heq
      simpa [configOf, String.toList_append, String.toList_inj] using hlist
    refine ⟨some (tags.map configOf), ?_, ?_⟩
    · rw [Option.getD_some, if_neg (by simpa using hne), hread, tagDict_eq]
      show Except.ok (some (Dict.ofPairs (tags.map configOf)).entries) = _
      rw [Dict.entries_ofPairs hconfigs]
    · rw [tagsOf_map_configOf, if_neg hne]

/-- Tags that are read are distinct and have no separator in them. -/
theorem tags_of_readConfigs (h : readConfigs s kvs = .ok configs) (hat : ∀ kv ∈ kvs, '@' ∉ kv)
    (tags : List (String × String)) (htags : tagsOf configs = some tags) :
    (tags ≠ [] ∧ (tags.map Prod.fst).Nodup) ∧
      ∀ t ∈ tags, '%' ∉ t.1.toList ∧ '@' ∉ t.1.toList ∧ '@' ∉ t.2.toList := by
  unfold readConfigs at h
  split at h
  · cases h
    cases htags
  · cases hread : readTags s .empty kvs with
    | error e => rw [hread] at h; cases h
    | ok d =>
      rw [hread] at h
      cases h
      obtain ⟨read, hnames, rfl, rfl⟩ := readTags_eq_ok.mp hread
      obtain ⟨kept, hentries, hkept, hnodup⟩ := entries_tagDict read
      change tagsOf (some (tagDict .empty read).entries) = some tags at htags
      rw [hentries, tagsOf_map_configOf] at htags
      split at htags
      · cases htags
      · rename_i hne
        cases htags
        refine ⟨⟨hne, hnodup⟩, fun t ht => ⟨hnames t (hkept t ht), ?_⟩⟩
        have hkv := hat _ (List.mem_map_of_mem (hkept t ht))
        rw [toList_tagString, List.mem_append, List.mem_cons, not_or, not_or] at hkv
        exact ⟨hkv.1, hkv.2.2⟩

/-! ## Reading keys -/

/-- What a key must be like to be read back: not a layer key, with a dtype that its name is read as,
and with nothing in its fields that would be taken for a separator. -/
structure Parseable (k : CacheEngineKey) : Prop where
  plain : k.layerId = none
  dtype : TorchDtype.ofStr.get? k.dtype.str = some k.dtype
  distinctTags : k.DistinctTags
  noSeparators : k.NoSeparators

theorem readInt_format {b : Nat} (hb : 1 < b) (hb' : b ≤ 16) (n : Int) :
    readInt b (format b n) = .ok n := by
  unfold readInt
  rw [int?_format hb hb']

theorem readDtype_str (h : TorchDtype.ofStr.get? d.str = some d) :
    readDtype d.str.toList = .ok d := by
  unfold readDtype
  rw [String.ofList_toList, h]

/-- `from_string` reads back the keys that are not layer keys. -/
theorem fromString_toString (h : k.Parseable) : fromString k.toString = .ok k := by
  obtain ⟨configs, hread, htags⟩ := readConfigs_tags h.distinctTags h.noSeparators k.toString
  unfold fromString
  rw [split_toString h.noSeparators]
  unfold parts tailParts
  rw [h.plain]
  show (readConfigs k.toString ((k.tags.getD []).map fun t => (tagString t).toList) >>= _) = _
  rw [hread]
  show (readInt 10 (format 10 k.worldSize) >>= _) = _
  rw [readInt_format (by decide) (by decide)]
  show (readInt 10 (format 10 k.workerId) >>= _) = _
  rw [readInt_format (by decide) (by decide)]
  show (readInt 16 (format 16 k.chunkHash) >>= _) = _
  rw [readInt_format (by decide) (by decide)]
  show (readDtype k.dtype.str.toList >>= _) = _
  rw [readDtype_str h.dtype]
  show Except.ok (ofRequest (String.ofList k.modelName.toList) _ _ _ _ configs) = _
  unfold ofRequest
  rw [htags, String.ofList_toList, ← h.plain]

/-- What a key is read from. -/
structure ReadFrom (k : CacheEngineKey) (modelName worldSize workerId chunkHash dtype : List Char) :
    Prop where
  modelName : k.modelName.toList = modelName
  worldSize : int? 10 worldSize = some k.worldSize
  workerId : int? 10 workerId = some k.workerId
  chunkHash : int? 16 chunkHash = some k.chunkHash
  dtype : TorchDtype.ofStr.get? (String.ofList dtype) = some k.dtype

theorem int?_of_readInt {b : Nat} {s : List Char} {n : Int} (h : readInt b s = .ok n) :
    int? b s = some n := by
  unfold readInt at h
  cases hn : int? b s with
  | none => rw [hn] at h; cases h
  | some m => rw [hn] at h; cases h; rfl

theorem ofStr_of_readDtype {s : List Char} (h : readDtype s = .ok d) :
    TorchDtype.ofStr.get? (String.ofList s) = some d := by
  unfold readDtype at h
  cases hd : TorchDtype.ofStr.get? (String.ofList s) with
  | none => rw [hd] at h; cases h
  | some e => rw [hd] at h; cases h; rfl

/-- **What `from_string` reads.** -/
theorem of_fromString (h : fromString s = .ok k) :
    ∃ modelName worldSize workerId chunkHash dtype kvs configs,
      split '@' s.toList = modelName :: worldSize :: workerId :: chunkHash :: dtype :: kvs ∧
        k.ReadFrom modelName worldSize workerId chunkHash dtype ∧ k.layerId = none ∧
          readConfigs s kvs = .ok configs ∧ k.tags = tagsOf configs := by
  unfold fromString at h
  split at h
  · rename_i modelName worldSize workerId chunkHash dtype kvs hsplit
    obtain ⟨configs, hconfigs, h⟩ := bind_eq_ok.mp h
    obtain ⟨ws, hws, h⟩ := bind_eq_ok.mp h
    obtain ⟨wid, hwid, h⟩ := bind_eq_ok.mp h
    obtain ⟨hash, hhash, h⟩ := bind_eq_ok.mp h
    obtain ⟨d, hd, h⟩ := bind_eq_ok.mp h
    cases h
    exact ⟨modelName, worldSize, workerId, chunkHash, dtype, kvs, configs, hsplit,
      ⟨String.toList_ofList, int?_of_readInt hws, int?_of_readInt hwid, int?_of_readInt hhash,
        ofStr_of_readDtype hd⟩, rfl, hconfigs, rfl⟩
  · cases h

/-- Where `layerFromString` reads a key, a dtype stands in the fifth place, with the layer id behind
it. -/
theorem of_layerFromString (h : layerFromString s = .ok k) :
    ∃ modelName worldSize workerId chunkHash dtype layerId kvs,
      split '@' s.toList =
          modelName :: worldSize :: workerId :: chunkHash :: dtype :: layerId :: kvs ∧
        ∃ d : TorchDtype, d.str.toList = dtype := by
  unfold layerFromString at h
  split at h
  · rename_i modelName worldSize workerId chunkHash dtype layerId kvs hsplit
    obtain ⟨configs, hconfigs, h⟩ := bind_eq_ok.mp h
    obtain ⟨ws, hws, h⟩ := bind_eq_ok.mp h
    obtain ⟨wid, hwid, h⟩ := bind_eq_ok.mp h
    obtain ⟨hash, hhash, h⟩ := bind_eq_ok.mp h
    obtain ⟨d, hd, h⟩ := bind_eq_ok.mp h
    refine ⟨modelName, worldSize, workerId, chunkHash, dtype, layerId, kvs, hsplit, d, ?_⟩
    rw [TorchDtype.str_of_ofStr (ofStr_of_readDtype hd), String.toList_ofList]
  · cases h

/-! ## Round trip -/

/-- The name of a dtype, or what stripping leaves of it, is not a number. -/
theorem isDigit_of_prefix_str {p : List Char} (h : p <+: d.str.toList) : isDigit p = false := by
  cases d <;> exact isDigit_eq_false_of_prefix (by decide) h

/-- Where a dtype stands in the fifth place, a key is not read as a layer key. -/
theorem parseCacheKey_eq_fromString (h : (split '@' s.toList)[4]? = some d.str.toList) :
    parseCacheKey s = fromString s := by
  obtain ⟨part, hpart, hprefix⟩ := getElem?_split_strip (by decide) h
  unfold parseCacheKey
  rw [hpart]
  dsimp only
  rw [isDigit_of_prefix_str hprefix]
  rfl

/-- What `from_string` reads could have been written. -/
theorem parseable_of_fromString (h : fromString s = .ok k) : k.Parseable := by
  obtain ⟨modelName, worldSize, workerId, chunkHash, dtype, kvs, configs, hsplit, hread, hplain,
    hconfigs, htags⟩ := of_fromString h
  have hat : ∀ p ∈ split '@' s.toList, '@' ∉ p := fun p hp => notMem_of_mem_splitOn hp
  rw [hsplit] at hat
  simp only [List.forall_mem_cons] at hat
  obtain ⟨hmodel, -, -, -, -, hkvs⟩ := hat
  refine ⟨hplain, ?_, ?_, ?_, ?_⟩
  · rw [TorchDtype.str_of_ofStr hread.dtype]
    exact hread.dtype
  · intro tags hk
    exact (tags_of_readConfigs hconfigs hkvs tags (htags.symm.trans hk)).1
  · rw [hread.modelName]
    exact hmodel
  · intro tags hk
    exact (tags_of_readConfigs hconfigs hkvs tags (htags.symm.trans hk)).2

/-- **Every key that is read could have been written.** -/
theorem parseable_of_parseCacheKey (h : parseCacheKey s = .ok k) :
    k.Parseable ∧ fromString s = .ok k := by
  have hfrom : fromString s = .ok k := by
    by_cases hlayer : layerFromString s = .ok k
    · -- then a dtype stands where the layer id is looked for
      obtain ⟨_, _, _, _, _, _, _, hsplit, d, rfl⟩ := of_layerFromString hlayer
      rw [← h, parseCacheKey_eq_fromString (d := d) (by rw [hsplit]; rfl)]
    · unfold parseCacheKey at h
      split at h
      · split at h
        · exact absurd h hlayer
        · exact h
      · exact h
  exact ⟨parseable_of_fromString hfrom, hfrom⟩

/-- **The keys that come back from their strings.** -/
theorem parseCacheKey_toString_eq_iff (k : CacheEngineKey) :
    parseCacheKey k.toString = .ok k ↔ k.Parseable := by
  constructor
  · intro h
    exact (parseable_of_parseCacheKey h).1
  · intro h
    have hdtype : (split '@' k.toString.toList)[4]? = some k.dtype.str.toList := by
      rw [split_toString h.noSeparators]
      rfl
    rw [parseCacheKey_eq_fromString hdtype, fromString_toString h]

/-! ## Different keys, different strings -/

theorem tagString_injective {t u : String × String} (ht : '%' ∉ t.1.toList) (hu : '%' ∉ u.1.toList)
    (h : (tagString t).toList = (tagString u).toList) : t = u := by
  have hcut : cut '%' (tagString t).toList = some (t.1.toList, t.2.toList) :=
    cut_eq_some.mpr ⟨toList_tagString t, ht⟩
  rw [h, cut_eq_some.mpr ⟨toList_tagString u, hu⟩] at hcut
  obtain ⟨hname, hvalue⟩ := Prod.mk.inj (Option.some.inj hcut)
  exact Prod.ext (String.toList_inj.mp hname.symm) (String.toList_inj.mp hvalue.symm)

/-- A layer id is not taken for a tag. -/
theorem format_ne_tagString (n : Int) (t : String × String) : format 10 n ≠ (tagString t).toList := by
  intro h
  have hno : '%' ∉ format 10 n :=
    notMem_format (by decide) (by decide) n (by decide) (by decide)
  rw [h, toList_tagString] at hno
  exact hno (by simp)

theorem map_tagString_injective {l l' : List (String × String)}
    (hl : ∀ t ∈ l, '%' ∉ t.1.toList) (hl' : ∀ t ∈ l', '%' ∉ t.1.toList)
    (h : l.map (fun t => (tagString t).toList) = l'.map fun t => (tagString t).toList) : l = l' := by
  induction l generalizing l' with
  | nil => exact (List.map_eq_nil_iff.mp h.symm).symm
  | cons t l ih =>
    cases l' with
    | nil => cases h
    | cons t' l' =>
      rw [List.forall_mem_cons] at hl hl'
      obtain ⟨hhead, htail⟩ := List.cons.inj h
      rw [tagString_injective hl.1 hl'.1 hhead, ih hl.2 hl'.2 htail]

/-- **The fields behind the dtype determine the layer id and the tags.** -/
theorem tailParts_injective {k' : CacheEngineKey} (hk : k.tags ≠ some []) (hk' : k'.tags ≠ some [])
    (h : k.NoSeparators) (h' : k'.NoSeparators) (heq : k.tailParts = k'.tailParts) :
    k.layerId = k'.layerId ∧ k.tags = k'.tags := by
  have hnames : ∀ {k : CacheEngineKey}, k.NoSeparators →
      ∀ t ∈ k.tags.getD [], '%' ∉ t.1.toList := by
    intro k h t ht
    cases htags : k.tags with
    | none => rw [htags] at ht; cases ht
    | some tags => rw [htags] at ht; exact (h.tags tags htags t ht).1
  -- a list of tags is never empty, so the tags are known from the list with none for `None`
  have htags : k.tags.getD [] = k'.tags.getD [] → k.tags = k'.tags := by
    intro hget
    cases hl : k.tags with
    | none =>
      cases hl' : k'.tags with
      | none => rfl
      | some tags' =>
        rw [hl, hl'] at hget
        exact absurd (hl'.trans (congrArg some hget.symm)) hk'
    | some tags =>
      cases hl' : k'.tags with
      | none =>
        rw [hl, hl'] at hget
        exact absurd (hl.trans (congrArg some hget)) hk
      | some tags' =>
        rw [hl, hl'] at hget
        exact congrArg some hget
  have hlist : ∀ {k k' : CacheEngineKey}, k.NoSeparators → k'.NoSeparators →
      (k.tags.getD []).map (fun t => (tagString t).toList) =
        (k'.tags.getD []).map (fun t => (tagString t).toList) →
          k.tags.getD [] = k'.tags.getD [] :=
    fun h h' heq => map_tagString_injective (hnames h) (hnames h') heq
  have hmixed : ∀ (n : Int) (l l' : List (String × String)),
      format 10 n :: l.map (fun t => (tagString t).toList) ≠
        l'.map fun t => (tagString t).toList := by
    intro n l l' heq
    cases l' with
    | nil => cases heq
    | cons t l' => exact format_ne_tagString n t (List.cons.inj heq).1
  unfold tailParts at heq
  cases hlayer : k.layerId with
  | none =>
    cases hlayer' : k'.layerId with
    | none =>
      rw [hlayer, hlayer'] at heq
      exact ⟨rfl, htags (hlist h h' heq)⟩
    | some n =>
      rw [hlayer, hlayer'] at heq
      exact absurd heq.symm (hmixed n _ _)
  | some n =>
    cases hlayer' : k'.layerId with
    | none =>
      rw [hlayer, hlayer'] at heq
      exact absurd heq (hmixed n _ _)
    | some n' =>
      rw [hlayer, hlayer'] at heq
      obtain ⟨hhead, htail⟩ := List.cons.inj heq
      rw [format_injective (by decide) (by decide) hhead]
      exact ⟨rfl, htags (hlist h h' htail)⟩

/-- **Two keys share a string just when they differ in nothing but dtypes of one name.** -/
theorem toString_eq_iff {k' : CacheEngineKey} (hk : k.tags ≠ some []) (hk' : k'.tags ≠ some [])
    (h : k.NoSeparators) (h' : k'.NoSeparators) :
    k.toString = k'.toString ↔
      k.dtype.str = k'.dtype.str ∧ k' = { k with dtype := k'.dtype } := by
  constructor
  · intro heq
    have hparts : k.parts = k'.parts := by
      rw [← split_toString h, ← split_toString h', heq]
    unfold parts at hparts
    simp only [List.cons.injEq, String.toList_inj] at hparts
    obtain ⟨hmodel, hws, hwid, hhash, hdtype, htail⟩ := hparts
    obtain ⟨hlayer, htags⟩ := tailParts_injective hk hk' h h' htail
    refine ⟨hdtype, ?_⟩
    cases k
    cases k'
    simp only [CacheEngineKey.mk.injEq]
    exact ⟨hmodel.symm, (format_injective (by decide) (by decide) hws).symm,
      (format_injective (by decide) (by decide) hwid).symm,
      (format_injective (by decide) (by decide) hhash).symm, trivial, htags.symm, hlayer.symm⟩
  · rintro ⟨hdtype, heq⟩
    rw [heq]
    unfold toString
    rw [hdtype]

/-- **When a key comes back from its string, and when two keys share one.**  A key comes back unless it
is a layer key or its dtype shares its name with a later one; and only keys that differ in such a dtype
share a string. -/
theorem parseCacheKey_toString_iff {k k' : CacheEngineKey} (hk : k.Constructed)
    (hk' : k'.Constructed) (h : k.NoSeparators) (h' : k'.NoSeparators) :
    (parseCacheKey k.toString = .ok k ↔
        k.layerId = none ∧ k.dtype ≠ .float8_e4m3fn ∧ k.dtype ≠ .float8_e5m2) ∧
      (k.toString = k'.toString ↔
        k.dtype.str = k'.dtype.str ∧ k' = { k with dtype := k'.dtype }) := by
  refine ⟨?_, toString_eq_iff hk.distinctTags.ne_some_nil hk'.distinctTags.ne_some_nil h h'⟩
  rw [parseCacheKey_toString_eq_iff, ← TorchDtype.ofStr_str]
  constructor
  · intro hp
    exact ⟨hp.plain, hp.dtype⟩
  · rintro ⟨hplain, hdtype⟩
    exact ⟨hplain, hdtype, hk.distinctTags, h⟩

/-! ## Reading does not lengthen -/

/-- The tags of a key take no more bytes than what they are read from. -/
theorem sum_size_tags_le (h : readConfigs s kvs = .ok configs) :
    (((tagsOf configs).getD []).map fun t => size (tagString t).toList + 1).sum ≤
      (kvs.map fun kv => size kv + 1).sum := by
  unfold readConfigs at h
  split at h
  · cases h
    exact Nat.zero_le _
  · cases hread : readTags s .empty kvs with
    | error e => rw [hread] at h; cases h
    | ok d =>
      rw [hread] at h
      cases h
      obtain ⟨read, -, rfl, rfl⟩ := readTags_eq_ok.mp hread
      obtain ⟨kept, hentries, hkept, hnodup⟩ := entries_tagDict read
      -- each tag that is kept was read, and none is kept twice
      have hsub : List.Subperm kept read := (List.Nodup.of_map Prod.fst hnodup).subperm hkept
      obtain ⟨l, hperm, hl⟩ := hsub
      have hle : (kept.map fun t => size (tagString t).toList + 1).sum ≤
          (read.map fun t => size (tagString t).toList + 1).sum := by
        rw [← (hperm.map _).sum_eq]
        exact (hl.map _).sum_le_sum fun _ _ => Nat.zero_le _
      show (((tagsOf (some (tagDict .empty read).entries)).getD []).map _).sum ≤ _
      rw [hentries, tagsOf_map_configOf, List.map_map]
      split
      · exact Nat.zero_le _
      · exact hle

/-- **A key takes no more bytes than the string it is read from.** -/
theorem size_toString_le (h : fromString s = .ok k) : size k.toString.toList ≤ size s.toList := by
  obtain ⟨modelName, worldSize, workerId, chunkHash, dtype, kvs, configs, hsplit, hread, hplain,
    hconfigs, htags⟩ := of_fromString h
  have hs := size_intercalate '@' (List.splitOn_ne_nil '@' s.toList)
  rw [List.intercalate_splitOn] at hs
  change size s.toList + 1 = ((split '@' s.toList).map fun p => size p + 1).sum at hs
  have hne : k.parts ≠ [] := List.cons_ne_nil _ _
  have hk := size_intercalate '@' hne
  rw [← toList_toString] at hk
  change size k.toString.toList + 1 = (k.parts.map fun p => size p + 1).sum at hk
  have htail := sum_size_tags_le hconfigs
  rw [← htags] at htail
  have hws := size_format_le (by decide) (by decide) hread.worldSize
  have hwid := size_format_le (by decide) (by decide) hread.workerId
  have hhash := size_format_le (by decide) (by decide) hread.chunkHash
  have hdtype := TorchDtype.str_of_ofStr hread.dtype
  have hparts : (k.tailParts.map fun p => size p + 1).sum =
      ((k.tags.getD []).map fun t => size (tagString t).toList + 1).sum := by
    unfold tailParts
    rw [hplain, Option.toList_none, List.map_nil, List.nil_append, List.map_map]
    rfl
  rw [hsplit] at hs
  unfold parts at hk
  simp only [List.map_cons, List.sum_cons] at hs hk
  rw [hread.modelName, hdtype, String.toList_ofList, hparts] at hk
  omega

/-! ## Keys that do not come back -/

/-- A key without tags. -/
def plainKey (dtype : TorchDtype) (layerId : Option Int) : CacheEngineKey :=
  ⟨"model", 1, 0, 255, dtype, none, layerId⟩

theorem constructed_plainKey (dtype : TorchDtype) (layerId : Option Int) :
    (plainKey dtype layerId).Constructed := ⟨none, by simp, rfl⟩

theorem noSeparators_plainKey (dtype : TorchDtype) (layerId : Option Int) :
    (plainKey dtype layerId).NoSeparators :=
  ⟨show '@' ∉ "model".toList by decide, fun _ h => (nomatch h)⟩

/-- The key of a chunk of half precision, and that of its first layer. -/
theorem parseCacheKey_toString_iff_plainKey :
    (parseCacheKey (plainKey .float16 none).toString = .ok (plainKey .float16 none) ↔
        (plainKey .float16 none).layerId = none ∧ (plainKey .float16 none).dtype ≠ .float8_e4m3fn ∧
          (plainKey .float16 none).dtype ≠ .float8_e5m2) ∧
      ((plainKey .float16 none).toString = (plainKey .float16 (some 0)).toString ↔
        (plainKey .float16 none).dtype.str = (plainKey .float16 (some 0)).dtype.str ∧
          plainKey .float16 (some 0) =
            { plainKey .float16 none with dtype := (plainKey .float16 (some 0)).dtype }) :=
  parseCacheKey_toString_iff (constructed_plainKey _ _) (constructed_plainKey _ _)
    (noSeparators_plainKey _ _) (noSeparators_plainKey _ _)

/-- **A layer key is refused, and a dtype comes back as another.**  The layer id is taken for a tag
without a value; and both `fp8_e4m3` keys have one string. -/
theorem not_parseCacheKey_layerKey :
    parseCacheKey (plainKey .float16 (some 0)).toString =
        .error (.valueError "Invalid key string: model@1@0@ff@half@0") ∧
      parseCacheKey (plainKey .float8_e4m3fn none).toString =
        .ok (plainKey .float8_e4m3fnuz none) ∧
      plainKey .float8_e4m3fn none ≠ plainKey .float8_e4m3fnuz none ∧
      (plainKey .float8_e4m3fn none).toString = (plainKey .float8_e4m3fnuz none).toString := by
  decide +kernel

end CacheEngineKey

end LMCache
