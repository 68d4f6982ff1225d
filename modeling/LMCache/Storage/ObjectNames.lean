/-
# LMCache.Storage.ObjectNames — the files and objects that keys are kept under.

Source: `LocalDiskBackend._key_to_path`, `FSConnector._get_base_path`, `_get_file_name` and
`_get_file_and_tmp_path`, and `NixlDynamicStorageBackend._format_object_key`.

A backend makes a name of the string of a key.  A `/` of the string would be taken for a directory, so
it is replaced: by `-`, by `-SEP-`, or by `_`, which then also stands for `@`.  None of the replacements
is kept out of the string, so a key with `/` in its model name or in a tag shares its name with the key
that has the replacement there.
-/
import LMCache.KeyString

namespace LMCache

open LMCache.Lib LMCache.Lib.PyStr LMCache.Memory

namespace Storage

/-! ## Names -/

/-- `os.path.join(dir, name)`. -/
def pathJoin (dir name : List Char) : List Char :=
  if name.head? = some '/' then name
  else if dir = [] ∨ dir.getLast? = some '/' then dir ++ name
  else dir ++ '/' :: name

/-- `LocalDiskBackend._key_to_path`. -/
def keyToPath (path : String) (key : CacheEngineKey) : String :=
  String.ofList (pathJoin path.toList (replace '/' ['-'] key.toString.toList ++ ".pt".toList))

/-- The paths of an `FSConnector`, each as the list of its components. -/
structure FSConnector where
  basePaths : List (List String)
  basePaths_ne_nil : basePaths ≠ []
  relativeTmpDir : Option (List String)

/-- `Path.with_suffix`, of the last component of a path. -/
def withSuffix (name suffix : List Char) : List Char :=
  let ext := name.rtakeWhile (· ≠ '.')
  let stem := (name.rdropWhile (· ≠ '.')).dropLast
  if '.' ∈ name ∧ stem ≠ [] ∧ ext ≠ [] then stem ++ suffix else name ++ suffix

namespace FSConnector

/-- `_get_base_path`.  With one path the remainder is 0, so the source's case for it is this one. -/
def getBasePath (c : FSConnector) (key : CacheEngineKey) : List String :=
  c.basePaths.get ⟨key.chunkHash.natAbs % c.basePaths.length,
    Nat.mod_lt _ (List.length_pos_of_ne_nil c.basePaths_ne_nil)⟩

/-- `_get_file_name`. -/
def getFileName (key : CacheEngineKey) : List Char :=
  replace '/' "-SEP-".toList key.toString.toList ++ ".data".toList

/-- `_get_file_and_tmp_path`. -/
def getFileAndTmpPath (c : FSConnector) (key : CacheEngineKey) : List String × List String :=
  let basePath := c.getBasePath key
  let fileName := getFileName key
  (basePath ++ [String.ofList fileName],
    match c.relativeTmpDir with
    | some dir => basePath ++ dir ++ [String.ofList fileName]
    | none => basePath ++ [String.ofList (withSuffix fileName ".tmp".toList)])

end FSConnector

/-- `NixlDynamicStorageBackend._format_object_key`. -/
def formatObjectKey (key : CacheEngineKey) : String :=
  String.ofList (quote (replace '@' ['_'] (replace '/' ['_'] key.toString.toList)))

end Storage

/-! ## What a name keeps of a key -/

namespace CacheEngineKey

/-- The fields of a key, cut at every `@`. -/
def pieces (k : CacheEngineKey) : List (List Char) := k.parts.flatMap (split '@')

/-- The pieces with `/` read as `r`. -/
def piecesReading (r : String) (k : CacheEngineKey) : List (List Char) :=
  k.pieces.map (replace '/' r.toList)

/-- The characters that are `_` in the name of an object. -/
def isFlattened (c : Char) : Bool := c == '/' || c == '@' || c == '_'

/-- The fields of a key, cut at every `@`, `/` and `_`. -/
def flatPieces (k : CacheEngineKey) : List (List Char) :=
  k.parts.flatMap (List.splitOnP isFlattened)

theorem parts_ne_nil (k : CacheEngineKey) : k.parts ≠ [] := List.cons_ne_nil _ _

theorem toString_toList_ne_nil (k : CacheEngineKey) : k.toString.toList ≠ [] := by
  rw [toList_toString]
  unfold parts
  rw [List.intercalate_cons_cons]
  simp

/-- **A string with `/` replaced keeps the pieces of its key, with `/` replaced.** -/
theorem replace_toString_eq_iff {r : String} (hr : '@' ∉ r.toList) {k k' : CacheEngineKey} :
    replace '/' r.toList k.toString.toList = replace '/' r.toList k'.toString.toList ↔
      k.piecesReading r = k'.piecesReading r := by
  have hpieces : ∀ k : CacheEngineKey,
      (replace '/' r.toList k.toString.toList).splitOn '@' = k.piecesReading r := by
    intro k
    rw [splitOn_replace (by decide) hr, toList_toString]
    show (List.splitOnP (· == '@') _).map _ = _
    rw [splitOnP_intercalate_flatMap (by decide) k.parts_ne_nil]
    rfl
  rw [← hpieces, ← hpieces]
  exact (splitOn_injective '@').eq_iff.symm

/-- Replacing `/` and then `@` is replacing all the flattened characters at once. -/
theorem replace_replace_eq_unify (s : List Char) :
    replace '@' ['_'] (replace '/' ['_'] s) = unify isFlattened '_' s := by
  induction s with
  | nil => rfl
  | cons c s ih =>
    have hcons : unify isFlattened '_' (c :: s) =
        (if isFlattened c then '_' else c) :: unify isFlattened '_' s := rfl
    rw [replace_cons, replace_append, ih, hcons]
    by_cases hslash : c = '/'
    · subst hslash
      rfl
    · by_cases hat : c = '@'
      · subst hat
        rfl
      · by_cases hunder : c = '_'
        · subst hunder
          rfl
        · have hflat : isFlattened c = false := by simp [isFlattened, hslash, hat, hunder]
          rw [if_neg hslash, hflat, replace_cons, if_neg hat]
          rfl

/-- **A flattened string keeps the pieces between the flattened characters.** -/
theorem unify_toString_eq_iff {k k' : CacheEngineKey} :
    unify isFlattened '_' k.toString.toList = unify isFlattened '_' k'.toString.toList ↔
      k.flatPieces = k'.flatPieces := by
  have hpieces : ∀ k : CacheEngineKey,
      (unify isFlattened '_' k.toString.toList).splitOn '_' = k.flatPieces := by
    intro k
    rw [splitOn_unify (by decide), toList_toString]
    exact splitOnP_intercalate_flatMap (by decide) k.parts_ne_nil
  rw [← hpieces, ← hpieces]
  exact (splitOn_injective '_').eq_iff.symm

end CacheEngineKey

namespace Storage

/-! ## When two keys share a name -/

/-- Names that do not begin with `/` are told apart in a directory. -/
theorem pathJoin_inj {dir name name' : List Char} (h : '/' ∉ name) (h' : '/' ∉ name') :
    pathJoin dir name = pathJoin dir name' ↔ name = name' := by
  have hhead : ∀ {name : List Char}, '/' ∉ name → ¬ name.head? = some '/' :=
    fun h hhead => h (List.mem_of_mem_head? hhead)
  unfold pathJoin
  rw [if_neg (hhead h), if_neg (hhead h')]
  split
  · exact List.append_right_inj dir
  · rw [List.append_right_inj, List.cons.injEq, and_iff_right rfl]

variable {k k' : CacheEngineKey}

theorem keyToPath_eq_iff {path : String} :
    keyToPath path k = keyToPath path k' ↔ k.piecesReading "-" = k'.piecesReading "-" := by
  have hslash : ∀ k : CacheEngineKey,
      '/' ∉ replace '/' ['-'] k.toString.toList ++ ".pt".toList := by
    intro k
    rw [List.mem_append, not_or]
    exact ⟨notMem_replace_self (by decide) _, by decide⟩
  unfold keyToPath
  rw [String.ofList_inj, pathJoin_inj (hslash k) (hslash k'), List.append_left_inj]
  exact CacheEngineKey.replace_toString_eq_iff (r := "-") (by decide)

namespace FSConnector

theorem getFileName_eq_iff :
    getFileName k = getFileName k' ↔ k.piecesReading "-SEP-" = k'.piecesReading "-SEP-" := by
  unfold getFileName
  rw [List.append_left_inj]
  exact CacheEngineKey.replace_toString_eq_iff (by decide)

/-- The suffix `.data` becomes `.tmp`. -/
theorem withSuffix_append {stem : List Char} (h : stem ≠ []) :
    withSuffix (stem ++ ".data".toList) ".tmp".toList = stem ++ ".tmp".toList := by
  have hdot : '.' ∈ stem ++ ".data".toList := List.mem_append_right _ (by decide)
  have hext : (stem ++ ".data".toList).rtakeWhile (· ≠ '.') = "data".toList := by
    simp [List.rtakeWhile]
  have hstem : (stem ++ ".data".toList).rdropWhile (· ≠ '.') = stem ++ ['.'] := by
    simp [List.rdropWhile]
  unfold withSuffix
  rw [hext, hstem, List.dropLast_concat, if_pos ⟨hdot, h, by decide⟩]

/-- **Two keys have one file just when they are kept in one directory and share a name.** -/
theorem filePath_eq_iff {c : FSConnector} :
    (c.getFileAndTmpPath k).1 = (c.getFileAndTmpPath k').1 ↔
      c.getBasePath k = c.getBasePath k' ∧
        k.piecesReading "-SEP-" = k'.piecesReading "-SEP-" := by
  show c.getBasePath k ++ [_] = c.getBasePath k' ++ [_] ↔ _
  rw [List.append_singleton_inj, String.ofList_inj, getFileName_eq_iff]

/-- Two keys have one temporary file just when they have one file. -/
theorem tmpPath_eq_iff {c : FSConnector} :
    (c.getFileAndTmpPath k).2 = (c.getFileAndTmpPath k').2 ↔
      (c.getFileAndTmpPath k).1 = (c.getFileAndTmpPath k').1 := by
  have hfile : (c.getFileAndTmpPath k).1 = (c.getFileAndTmpPath k').1 ↔
      c.getBasePath k = c.getBasePath k' ∧ getFileName k = getFileName k' := by
    show c.getBasePath k ++ [_] = c.getBasePath k' ++ [_] ↔ _
    rw [List.append_singleton_inj, String.ofList_inj]
  rw [hfile]
  unfold getFileAndTmpPath
  cases c.relativeTmpDir with
  | some dir =>
    show c.getBasePath k ++ dir ++ [_] = c.getBasePath k' ++ dir ++ [_] ↔ _
    rw [List.append_singleton_inj, String.ofList_inj, List.append_left_inj]
  | none =>
    show c.getBasePath k ++ [_] = c.getBasePath k' ++ [_] ↔ _
    rw [List.append_singleton_inj, String.ofList_inj]
    have hstem : ∀ k : CacheEngineKey,
        replace '/' "-SEP-".toList k.toString.toList ≠ [] := fun k =>
      replace_ne_nil (by decide) k.toString_toList_ne_nil
    unfold getFileName
    rw [withSuffix_append (hstem k), withSuffix_append (hstem k'), List.append_left_inj,
      List.append_left_inj]

end FSConnector

theorem formatObjectKey_eq_iff :
    formatObjectKey k = formatObjectKey k' ↔ k.flatPieces = k'.flatPieces := by
  unfold formatObjectKey
  rw [String.ofList_inj, quote_injective.eq_iff, CacheEngineKey.replace_replace_eq_unify,
    CacheEngineKey.replace_replace_eq_unify, CacheEngineKey.unify_toString_eq_iff]

end Storage

/-! ## Keys without separators -/

namespace CacheEngineKey

/-- A string with `/` read as `r`. -/
def readString (r s : String) : String := String.ofList (replace '/' r.toList s.toList)

/-- The key with `/` read as `r` in its model name and its tags. -/
def reading (r : String) (k : CacheEngineKey) : CacheEngineKey :=
  { k with
    modelName := readString r k.modelName
    tags := k.tags.map fun tags => tags.map fun t => (readString r t.1, readString r t.2) }

/-- No part but the model name and the tags has a `/`, so the others are read as they are. -/
theorem parts_reading (r : String) (k : CacheEngineKey) :
    (k.reading r).parts = k.parts.map (replace '/' r.toList) := by
  have hformat : ∀ {b : Nat} (n : Int), 1 < b → b ≤ 16 →
      replace '/' r.toList (format b n) = format b n := fun n hb hb' =>
    replace_eq_self _ (notMem_format hb hb' n (by decide) (by decide))
  have hdtype : replace '/' r.toList k.dtype.str.toList = k.dtype.str.toList := by
    refine replace_eq_self _ ?_
    cases k.dtype <;> decide
  have hmodel : (k.reading r).modelName.toList = replace '/' r.toList k.modelName.toList :=
    String.toList_ofList
  have htag : ∀ t : String × String, (tagString (readString r t.1, readString r t.2)).toList =
      replace '/' r.toList (tagString t).toList := by
    intro t
    rw [toList_tagString, toList_tagString, replace_append, replace_cons, if_neg (by decide)]
    unfold readString
    rw [String.toList_ofList, String.toList_ofList]
    rfl
  have htail : (k.reading r).tailParts = k.tailParts.map (replace '/' r.toList) := by
    unfold tailParts
    rw [List.map_append]
    congr 1
    · show k.layerId.toList.map (format 10) = _
      cases k.layerId with
      | none => rfl
      | some n => exact congrArg (· :: []) (hformat n (by decide) (by decide)).symm
    · show ((k.tags.map _).getD []).map _ = _
      cases k.tags with
      | none => rfl
      | some tags =>
        show (tags.map _).map _ = (tags.map _).map _
        rw [List.map_map, List.map_map]
        exact List.map_congr_left fun t _ => htag t
  unfold parts
  rw [hmodel, htail]
  simp only [List.map_cons, hformat _ (show 1 < 10 by decide) (show 10 ≤ 16 by decide),
    hformat _ (show 1 < 16 by decide) (le_refl 16), hdtype]
  rfl

/-- **The string of a key with `/` replaced is the string of the key read so.** -/
theorem toString_reading (r : String) (k : CacheEngineKey) :
    (k.reading r).toString.toList = replace '/' r.toList k.toString.toList := by
  rw [toList_toString, toList_toString, replace_intercalate _ (by decide), parts_reading]

variable {k : CacheEngineKey}

theorem NoSeparators.reading {r : String} (hat : '@' ∉ r.toList) (hpercent : '%' ∉ r.toList)
    (h : k.NoSeparators) : (k.reading r).NoSeparators := by
  have hread : ∀ {c : Char} {s : String}, c ∉ r.toList → c ∉ s.toList →
      c ∉ (readString r s).toList := by
    intro c s hr hs
    unfold readString
    rw [String.toList_ofList]
    exact notMem_replace hr hs
  refine ⟨hread hat h.modelName, ?_⟩
  intro tags htags t ht
  obtain ⟨tags', htags', rfl⟩ := Option.map_eq_some_iff.mp htags
  obtain ⟨t', ht', rfl⟩ := List.mem_map.mp ht
  obtain ⟨hname, hname', hvalue⟩ := h.tags tags' htags' t' ht'
  exact ⟨hread hpercent hname, hread hat hname', hread hat hvalue⟩

theorem tags_reading_ne {r : String} (h : k.tags ≠ some []) : (k.reading r).tags ≠ some [] := by
  intro hnil
  obtain ⟨tags, htags, hmap⟩ := Option.map_eq_some_iff.mp hnil
  rw [List.map_eq_nil_iff] at hmap
  exact h (htags.trans (congrArg some hmap))

/-- **Keys without separators share a name field by field**: they have dtypes of one name, and but for
the dtype they are read as one key. -/
theorem piecesReading_eq_iff {r : String} (hat : '@' ∉ r.toList) (hpercent : '%' ∉ r.toList)
    {k' : CacheEngineKey} (hk : k.Constructed) (hk' : k'.Constructed) (h : k.NoSeparators)
    (h' : k'.NoSeparators) :
    k.piecesReading r = k'.piecesReading r ↔
      k.dtype.str = k'.dtype.str ∧ k'.reading r = { k.reading r with dtype := k'.dtype } := by
  rw [← replace_toString_eq_iff hat, ← toString_reading, ← toString_reading, String.toList_inj]
  exact toString_eq_iff (tags_reading_ne hk.distinctTags.ne_some_nil)
    (tags_reading_ne hk'.distinctTags.ne_some_nil) (h.reading hat hpercent)
    (h'.reading hat hpercent)

end CacheEngineKey

namespace Storage

/-- Different keys have different names, so that what is written for one is not read for the other. -/
def KeptApart {ν : Type} [DecidableEq ν] (name : CacheEngineKey → ν) (k k' : CacheEngineKey) :
    Prop :=
  k ≠ k' → name k ≠ name k' ∧ ∀ (files : Dict ν (List UInt8)) (data : List UInt8),
    (files.set (name k) data).get? (name k') = files.get? (name k')

theorem keptApart_iff_or {ν : Type} [DecidableEq ν] {name : CacheEngineKey → ν} : KeptApart name k k' ↔ k = k' ∨ name k ≠ name k' := by
  constructor
  · intro h
    by_cases heq : k = k'
    · exact Or.inl heq
    · exact Or.inr (h heq).1
  · rintro h hne
    have hname := h.resolve_left hne
    exact ⟨hname, fun files data => by rw [Dict.get?_set, if_neg hname.symm]⟩

/-- **When two keys are kept apart.**  On the local disk, unless their fields have the same pieces
with `/` read as `-`; in a file system, unless they also belong in one directory and have the same
pieces with `/` read as `-SEP-`; as objects, unless their fields have the same pieces between `@`, `/`
and `_`. -/
theorem keptApart_iff (path : String) (c : FSConnector) (k k' : CacheEngineKey) :
    (KeptApart (keyToPath path) k k' ↔
        k = k' ∨ k.piecesReading "-" ≠ k'.piecesReading "-") ∧
      (KeptApart (fun k => (c.getFileAndTmpPath k).1) k k' ↔
        k = k' ∨ c.getBasePath k ≠ c.getBasePath k' ∨
          k.piecesReading "-SEP-" ≠ k'.piecesReading "-SEP-") ∧
      (KeptApart (fun k => (c.getFileAndTmpPath k).2) k k' ↔
        k = k' ∨ c.getBasePath k ≠ c.getBasePath k' ∨
          k.piecesReading "-SEP-" ≠ k'.piecesReading "-SEP-") ∧
      (KeptApart formatObjectKey k k' ↔ k = k' ∨ k.flatPieces ≠ k'.flatPieces) := by
  refine ⟨?_, ?_, ?_, ?_⟩
  · rw [keptApart_iff_or, Ne, keyToPath_eq_iff]
  · rw [keptApart_iff_or, Ne, FSConnector.filePath_eq_iff, not_and_or]
  · rw [keptApart_iff_or, Ne, FSConnector.tmpPath_eq_iff, FSConnector.filePath_eq_iff, not_and_or]
  · rw [keptApart_iff_or, Ne, formatObjectKey_eq_iff]

/-- The key of a chunk of a model. -/
def modelKey (modelName : String) : CacheEngineKey :=
  ⟨modelName, 1, 0, 255, .float16, none, none⟩

/-- **Three models lose their chunks to others.** -/
theorem not_keptApart :
    ¬ KeptApart (keyToPath "/cache") (modelKey "org/model") (modelKey "org-model") ∧
      ¬ KeptApart (fun k => (FSConnector.getFileAndTmpPath ⟨[["cache"]], by decide, none⟩ k).1)
        (modelKey "org/model") (modelKey "org-SEP-model") ∧
      ¬ KeptApart formatObjectKey (modelKey "org/model") (modelKey "org_model") := by
  refine ⟨fun h => (h ?_).1 ?_, fun h => (h ?_).1 ?_, fun h => (h ?_).1 ?_⟩
  all_goals decide +kernel

end Storage

end LMCache
