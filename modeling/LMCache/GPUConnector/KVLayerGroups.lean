/-
# LMCache.GPUConnector.KVLayerGroups — layers of one shape and dtype together.

Source: `v1/kv_layer_groups.py`, `get_dtypes`, `get_shapes` and `get_num_groups` of `v1/metadata.py`,
and the pointers of `_initialize_kv_cache_pointers` of `VLLMPagedMemGPUConnectorV3`.

The layers of a model are grouped by the shape and the dtype of their caches.  A chunk has one tensor
for each group, and a transfer between the tensor and the caches goes through the pointers of the
group, in the order of its layers.  So the groups must be the layers, each once (`Partitions`), a
pointer must stand where its layer stands (`kvCachePointers_eq`), and a chunk has room for each layer
(`getSizeBytes_getShapes`).
-/
import LMCache.Lib.GroupInto
import LMCache.Memory.PageLayouts
import Mathlib.Data.List.Sort
import Mathlib.Tactic.Ring

namespace LMCache.GPUConnector

open LMCache.Lib LMCache.Memory

/-! ## Groups -/

/-- The cache of a layer. -/
structure KVCache where
  shape : TorchSize
  dtype : TorchDtype
  dataPtr : Nat
  deriving DecidableEq, Repr

structure KVLayerGroupInfo where
  layerNames : List String
  layerIndices : List Nat
  shape : TorchSize
  dtype : TorchDtype
  deriving DecidableEq, Repr

namespace KVLayerGroupInfo

def numLayers (g : KVLayerGroupInfo) : Nat := g.layerNames.length

/-- `hidden_dim_size`, of a shape. -/
def hiddenDimSize : TorchSize → Except PyError Nat
  -- MHA
  | [_, _, _, numHeads, headSize] => .ok (numHeads * headSize)
  -- MLA
  | [_, _, headSize] => .ok headSize
  | shape => .error (.valueError s!"Invalid shape: {TorchSize.repr shape}")

end KVLayerGroupInfo

structure KVLayerGroupsManager where
  kvLayerGroups : List KVLayerGroupInfo
  deriving DecidableEq, Repr

namespace KVLayerGroupsManager

def numGroups (m : KVLayerGroupsManager) : Nat := m.kvLayerGroups.length

def getGroupByLayerIdx (m : KVLayerGroupsManager) (layerIdx : Nat) : Option KVLayerGroupInfo :=
  m.kvLayerGroups.find? fun g => layerIdx ∈ g.layerIndices

def getGroupByLayerName (m : KVLayerGroupsManager) (layerName : String) :
    Option KVLayerGroupInfo :=
  m.kvLayerGroups.find? fun g => layerName ∈ g.layerNames

def getLayerShape (m : KVLayerGroupsManager) (layerIdx : Nat) : Option TorchSize :=
  (m.getGroupByLayerIdx layerIdx).map (·.shape)

def getLayerDtype (m : KVLayerGroupsManager) (layerIdx : Nat) : Option TorchDtype :=
  (m.getGroupByLayerIdx layerIdx).map (·.dtype)

/-- `_get_first_layer_index`; no group is empty. -/
def firstLayerIndex (layers : List (String × Nat)) : Nat := (layers.map Prod.snd).headD 0

/-- `groups_dict`. -/
def groupsDict (kvCaches : Dict String KVCache) :
    Dict (TorchSize × TorchDtype) (List (String × Nat)) :=
  groupInto (fun e => (e.1.2.shape, e.1.2.dtype)) (fun e => (e.1.1, e.2)) kvCaches.entries.zipIdx

def groupInfo (e : (TorchSize × TorchDtype) × List (String × Nat)) : KVLayerGroupInfo :=
  ⟨e.2.map Prod.fst, e.2.map Prod.snd, e.1.1, e.1.2⟩

def buildKvLayerGroups (m : KVLayerGroupsManager) (kvCaches : Dict String KVCache) :
    KVLayerGroupsManager :=
  if m.kvLayerGroups ≠ [] then m
  else if kvCaches.entries = [] then m
  else
    let sorted := (groupsDict kvCaches).entries.insertionSort fun a b =>
      firstLayerIndex a.2 ≤ firstLayerIndex b.2
    ⟨sorted.map groupInfo⟩

end KVLayerGroupsManager

/-- `LMCacheMetadata`, as far as it is about the shape of a chunk. -/
structure LMCacheMetadata where
  kvDtype : TorchDtype
  /-- `(num_layer, 2, chunk_size, num_kv_head, head_size)`. -/
  kvShape : Nat × Nat × Nat × Nat × Nat
  useMla : Bool
  chunkSize : Nat
  kvLayerGroupsManager : KVLayerGroupsManager

namespace LMCacheMetadata

def getDtypes (m : LMCacheMetadata) : List TorchDtype :=
  match m.kvLayerGroupsManager.kvLayerGroups with
  | [] => [m.kvDtype]
  | groups => groups.map (·.dtype)

def getShapes (m : LMCacheMetadata) (numTokens : Option Nat) : Except PyError (List TorchSize) :=
  let numTokens := numTokens.getD m.chunkSize
  match m.kvLayerGroupsManager.kvLayerGroups with
  | [] =>
    let (numLayer, kvSize, _, numKvHead, headSize) := m.kvShape
    .ok [[kvSize, numLayer, numTokens, numKvHead * headSize]]
  | groups => groups.mapM fun g => do
    let hiddenDimSize ← KVLayerGroupInfo.hiddenDimSize g.shape
    .ok [if m.useMla then 1 else 2, g.numLayers, numTokens, hiddenDimSize]

def getNumGroups (m : LMCacheMetadata) : Nat :=
  match m.kvLayerGroupsManager.kvLayerGroups with
  | [] => 1
  | _ => m.kvLayerGroupsManager.numGroups

end LMCacheMetadata

/-- The pointers of a group: `[t.data_ptr() for i, t in enumerate(kvcaches) if i in layer_indices]`.
-/
def kvCachePointers (kvcaches : List KVCache) (g : KVLayerGroupInfo) : List Nat :=
  (kvcaches.zipIdx.filter fun e => e.2 ∈ g.layerIndices).map fun e => e.1.dataPtr

/-! ## The groups are the layers -/

/-- The layers, with their indices, that have the shape and the dtype of a group. -/
def layersOf (kvCaches : Dict String KVCache) (g : KVLayerGroupInfo) :
    List ((String × KVCache) × Nat) :=
  kvCaches.entries.zipIdx.filter fun e => (e.1.2.shape, e.1.2.dtype) = (g.shape, g.dtype)

/-- **The groups are the layers, each once**: a group has the names and the indices of all layers of
its shape and dtype, in their order; no group is empty, no two are of one shape and dtype, and they
come in the order of their first layers. -/
structure Partitions (kvCaches : Dict String KVCache) (groups : List KVLayerGroupInfo) :
    Prop where
  names : ∀ g ∈ groups, g.layerNames = (layersOf kvCaches g).map (·.1.1)
  indices : ∀ g ∈ groups, g.layerIndices = (layersOf kvCaches g).map Prod.snd
  nonempty : ∀ g ∈ groups, g.layerIndices ≠ []
  distinct : groups.Pairwise fun a b => (a.shape, a.dtype) ≠ (b.shape, b.dtype)
  ordered : groups.Pairwise fun a b => a.layerIndices.headD 0 ≤ b.layerIndices.headD 0
  once : (groups.flatMap (·.layerIndices)).Perm (List.range kvCaches.entries.length)

namespace KVLayerGroupsManager

variable {kvCaches : Dict String KVCache} {m : KVLayerGroupsManager}

theorem buildKvLayerGroups_eq (hm : m.kvLayerGroups = []) (h : kvCaches.entries ≠ []) :
    (m.buildKvLayerGroups kvCaches).kvLayerGroups =
      ((groupsDict kvCaches).entries.insertionSort fun a b =>
        firstLayerIndex a.2 ≤ firstLayerIndex b.2).map groupInfo := by
  unfold buildKvLayerGroups
  rw [if_neg (not_not.mpr hm), if_neg h]

/-- The groups, up to their order. -/
theorem perm_buildKvLayerGroups (hm : m.kvLayerGroups = []) (h : kvCaches.entries ≠ []) :
    (m.buildKvLayerGroups kvCaches).kvLayerGroups.Perm
      ((groupsDict kvCaches).entries.map groupInfo) := by
  rw [buildKvLayerGroups_eq hm h]
  exact (List.perm_insertionSort _ _).map _

theorem partitions_build (hm : m.kvLayerGroups = []) (h : kvCaches.entries ≠ []) :
    Partitions kvCaches (m.buildKvLayerGroups kvCaches).kvLayerGroups := by
  have hperm := perm_buildKvLayerGroups hm h
  have hgroup : ∀ g ∈ (m.buildKvLayerGroups kvCaches).kvLayerGroups, ∃ layers,
      (groupsDict kvCaches).get? (g.shape, g.dtype) = some layers ∧
        groupInfo ((g.shape, g.dtype), layers) = g := by
    intro g hg
    obtain ⟨e, he, rfl⟩ := List.mem_map.mp (hperm.mem_iff.mp hg)
    exact ⟨e.2, Dict.get?_eq_some.mpr he, rfl⟩
  have hlayers : ∀ g ∈ (m.buildKvLayerGroups kvCaches).kvLayerGroups,
      groupInfo ((g.shape, g.dtype), (layersOf kvCaches g).map fun e => (e.1.1, e.2)) = g := by
    intro g hg
    obtain ⟨layers, hget, hinfo⟩ := hgroup g hg
    have hmap : layers = (layersOf kvCaches g).map fun e => (e.1.1, e.2) :=
      groupInto_eq_some _ _ _ hget
    rw [← hmap, hinfo]
  refine ⟨fun g hg => ?_, fun g hg => ?_, fun g hg => ?_, ?_, ?_, ?_⟩
  · rw [← congrArg KVLayerGroupInfo.layerNames (hlayers g hg)]
    simp [groupInfo, layersOf, Function.comp_def]
  · rw [← congrArg KVLayerGroupInfo.layerIndices (hlayers g hg)]
    simp [groupInfo, layersOf, Function.comp_def]
  · obtain ⟨layers, hget, hinfo⟩ := hgroup g hg
    rw [← hinfo]
    exact fun hnil => ne_nil_of_groupInto _ _ _ hget (List.map_eq_nil_iff.mp hnil)
  · -- the keys of a dictionary are distinct
    have hnodup := (groupsDict kvCaches).keys_nodup
    have hkeys := (hperm.map fun g => (g.shape, g.dtype)).nodup_iff.mpr
      (by rw [List.map_map]; exact hnodup)
    exact List.pairwise_map.mp hkeys
  · rw [buildKvLayerGroups_eq hm h, List.pairwise_map]
    have : Std.Total fun a b : (TorchSize × TorchDtype) × List (String × Nat) =>
        firstLayerIndex a.2 ≤ firstLayerIndex b.2 := ⟨fun a b => Nat.le_total _ _⟩
    have : IsTrans ((TorchSize × TorchDtype) × List (String × Nat)) fun a b =>
        firstLayerIndex a.2 ≤ firstLayerIndex b.2 := ⟨fun _ _ _ => Nat.le_trans⟩
    exact List.pairwise_insertionSort _ _
  · have hflat := (flatMap_groupInto_perm (fun e : (String × KVCache) × Nat =>
      (e.1.2.shape, e.1.2.dtype)) (fun e => (e.1.1, e.2)) kvCaches.entries.zipIdx).map
        fun p => p.2.2
    rw [List.map_map, List.map_flatMap] at hflat
    refine ((hperm.flatMap_right _).trans (.of_eq ?_)).trans (hflat.trans (.of_eq ?_))
    · rw [List.flatMap_map]
      simp [groupInfo, groupsDict, Function.comp_def]
    · rw [List.range_eq_range']
      exact List.zipIdx_map_snd 0 kvCaches.entries

/-! ## Looking a layer up -/

variable {groups : List KVLayerGroupInfo} {g : KVLayerGroupInfo}

theorem mem_layersOf {e : (String × KVCache) × Nat} : e ∈ layersOf kvCaches g ↔
    kvCaches.entries[e.2]? = some e.1 ∧ (e.1.2.shape, e.1.2.dtype) = (g.shape, g.dtype) := by
  unfold layersOf
  rw [List.mem_filter, List.mem_zipIdx_iff_getElem?, decide_eq_true_eq]

theorem mem_layerIndices (h : Partitions kvCaches groups) (hg : g ∈ groups) {i : Nat} :
    i ∈ g.layerIndices ↔ ∃ c, kvCaches.values[i]? = some c ∧
      (c.shape, c.dtype) = (g.shape, g.dtype) := by
  rw [h.indices g hg, Dict.values, List.getElem?_map]
  constructor
  · intro hi
    obtain ⟨e, he, rfl⟩ := List.mem_map.mp hi
    obtain ⟨hentry, hkey⟩ := mem_layersOf.mp he
    exact ⟨e.1.2, by rw [hentry]; rfl, hkey⟩
  · rintro ⟨c, hc, hkey⟩
    obtain ⟨entry, hentry, rfl⟩ := Option.map_eq_some_iff.mp hc
    exact List.mem_map.mpr ⟨(entry, i), mem_layersOf.mpr ⟨hentry, hkey⟩, rfl⟩

theorem mem_layerNames (h : Partitions kvCaches groups) (hg : g ∈ groups) {name : String} :
    name ∈ g.layerNames ↔ ∃ c, kvCaches.get? name = some c ∧
      (c.shape, c.dtype) = (g.shape, g.dtype) := by
  rw [h.names g hg]
  constructor
  · intro hname
    obtain ⟨e, he, rfl⟩ := List.mem_map.mp hname
    obtain ⟨hentry, hkey⟩ := mem_layersOf.mp he
    exact ⟨e.1.2, Dict.get?_eq_some.mpr (List.mem_of_getElem? hentry), hkey⟩
  · rintro ⟨c, hc, hkey⟩
    obtain ⟨i, hi⟩ := List.getElem?_of_mem (Dict.get?_eq_some.mp hc)
    exact List.mem_map.mpr ⟨((name, c), i), mem_layersOf.mpr ⟨hi, hkey⟩, rfl⟩

/-- The group of a layer. -/
theorem exists_group (h : Partitions kvCaches groups) {c : KVCache} (hc : c ∈ kvCaches.values) :
    ∃ g ∈ groups, (c.shape, c.dtype) = (g.shape, g.dtype) := by
  obtain ⟨i, hi⟩ := List.getElem?_of_mem hc
  have hlt : i < kvCaches.entries.length := by
    have := (List.getElem?_eq_some_iff.mp hi).1
    rwa [Dict.values, List.length_map] at this
  obtain ⟨g, hg, hmem⟩ := List.mem_flatMap.mp (h.once.mem_iff.mpr (List.mem_range.mpr hlt))
  obtain ⟨c', hc', hkey⟩ := (mem_layerIndices h hg).mp hmem
  cases hi.symm.trans hc'
  exact ⟨g, hg, hkey⟩

/-- The first group that has a layer is one of its shape and dtype. -/
theorem find?_group (h : Partitions kvCaches groups) {p : KVLayerGroupInfo → Bool}
    {layer : Option KVCache} (hlayer : ∀ c, layer = some c → c ∈ kvCaches.values)
    (hp : ∀ g ∈ groups, p g = true ↔
      ∃ c, layer = some c ∧ (c.shape, c.dtype) = (g.shape, g.dtype)) :
    (groups.find? p).map (fun g => (g.shape, g.dtype)) = layer.map fun c => (c.shape, c.dtype) := by
  cases hfind : groups.find? p with
  | some g =>
    obtain ⟨c, rfl, hkey⟩ := (hp g (List.mem_of_find?_eq_some hfind)).mp (List.find?_some hfind)
    rw [Option.map_some, Option.map_some, hkey]
  | none =>
    cases layer with
    | none => rfl
    | some c =>
      obtain ⟨g, hg, hkey⟩ := exists_group h (hlayer c rfl)
      exact absurd ((hp g hg).mpr ⟨c, rfl, hkey⟩) (List.find?_eq_none.mp hfind g hg)

/-- A pointer stands where its layer stands in the group. -/
theorem kvCachePointers_eq (h : Partitions kvCaches groups) (hg : g ∈ groups) :
    (kvCachePointers kvCaches.values g).map some =
      g.layerNames.map fun name => (kvCaches.get? name).map KVCache.dataPtr := by
  have hzip : kvCaches.values.zipIdx = kvCaches.entries.zipIdx.map fun e => (e.1.2, e.2) := by
    rw [Dict.values, List.zipIdx_map]
    rfl
  have hfilter : (kvCaches.entries.zipIdx.filter fun e => e.2 ∈ g.layerIndices) =
      layersOf kvCaches g := by
    refine List.filter_congr fun e he => decide_eq_decide.mpr ?_
    rw [mem_layerIndices h hg, Dict.values, List.getElem?_map,
      List.mem_zipIdx_iff_getElem?.mp he]
    simp
  have hpointers : kvCachePointers kvCaches.values g =
      (layersOf kvCaches g).map fun e => e.1.2.dataPtr := by
    unfold kvCachePointers
    rw [hzip, List.filter_map, List.map_map, ← hfilter]
    rfl
  rw [hpointers, h.names g hg, List.map_map, List.map_map]
  refine List.map_congr_left fun e he => ?_
  have hget := Dict.get?_eq_some.mpr (List.mem_of_getElem? (mem_layersOf.mp he).1)
  simp only [Function.comp_apply, hget, Option.map_some]

/-- **The layers of a model are grouped without loss**: the groups are the layers, each once; a look-up
by index or by name gives each layer its own shape and dtype, and gives nothing for what is no layer;
and the pointers of a group are those of its layers, one for each and in their order. -/
theorem layers_grouped (m : KVLayerGroupsManager) (kvCaches : Dict String KVCache)
    (hm : m.kvLayerGroups = []) (hcaches : kvCaches.entries ≠ []) :
    Partitions kvCaches (m.buildKvLayerGroups kvCaches).kvLayerGroups ∧
    (∀ i, ((m.buildKvLayerGroups kvCaches).getGroupByLayerIdx i).map (fun g => (g.shape, g.dtype)) =
      kvCaches.values[i]?.map fun c => (c.shape, c.dtype)) ∧
    (∀ name, ((m.buildKvLayerGroups kvCaches).getGroupByLayerName name).map
      (fun g => (g.shape, g.dtype)) = (kvCaches.get? name).map fun c => (c.shape, c.dtype)) ∧
    ∀ g ∈ (m.buildKvLayerGroups kvCaches).kvLayerGroups,
      (kvCachePointers kvCaches.values g).map some =
        g.layerNames.map fun name => (kvCaches.get? name).map KVCache.dataPtr := by
  have h := partitions_build hm hcaches
  refine ⟨h, fun i => ?_, fun name => ?_, fun g hg => kvCachePointers_eq h hg⟩
  · refine find?_group h (fun c hc => List.mem_of_getElem? hc) fun g hg => ?_
    rw [decide_eq_true_eq]
    exact mem_layerIndices h hg
  · refine find?_group h (fun c hc => Dict.mem_values_of_get? hc) fun g hg => ?_
    rw [decide_eq_true_eq]
    exact mem_layerNames h hg

end KVLayerGroupsManager

/-! ## The size of a chunk -/

/-- **A chunk has room for each layer, once**: what the shapes and the dtypes of the groups come to is
what the layers come to, one by one. -/
theorem getSizeBytes_getShapes (m : LMCacheMetadata) (kvCaches : Dict String KVCache)
    (hbuilt : m.kvLayerGroupsManager = KVLayerGroupsManager.buildKvLayerGroups ⟨[]⟩ kvCaches)
    (hcaches : kvCaches.entries ≠ []) (hidden : TorchSize → Nat)
    (hhidden : ∀ c ∈ kvCaches.values,
      KVLayerGroupInfo.hiddenDimSize c.shape = .ok (hidden c.shape)) (numTokens : Nat) :
    ∃ shapes, m.getShapes (some numTokens) = .ok shapes ∧ shapes.length = m.getNumGroups ∧
      getSizeBytes shapes m.getDtypes = .ok (kvCaches.values.map fun c =>
        (if m.useMla then 1 else 2) * numTokens * hidden c.shape * c.dtype.itemsize).sum := by
  have hpartitions := KVLayerGroupsManager.partitions_build (m := ⟨[]⟩) rfl hcaches
  have hperm := KVLayerGroupsManager.perm_buildKvLayerGroups (m := ⟨[]⟩) rfl hcaches
  rw [← hbuilt] at hpartitions hperm
  let kvSize := if m.useMla then 1 else 2
  let shapeOf (g : KVLayerGroupInfo) : TorchSize := [kvSize, g.numLayers, numTokens, hidden g.shape]
  generalize hgroups : m.kvLayerGroupsManager.kvLayerGroups = groups at hpartitions hperm
  have hne : groups ≠ [] := by
    obtain ⟨c, hc⟩ := List.exists_mem_of_ne_nil _ (show kvCaches.values ≠ [] by simpa [Dict.values])
    obtain ⟨g, hg, -⟩ := KVLayerGroupsManager.exists_group hpartitions hc
    exact List.ne_nil_of_mem hg
  have hdtypes : m.getDtypes = groups.map (·.dtype) := by
    unfold LMCacheMetadata.getDtypes
    rw [hgroups]
    cases groups with
    | nil => exact absurd rfl hne
    | cons g groups => rfl
  have hvalid : ∀ g ∈ groups, KVLayerGroupInfo.hiddenDimSize g.shape = .ok (hidden g.shape) := by
    intro g hg
    obtain ⟨i, hi⟩ := List.exists_mem_of_ne_nil _ (hpartitions.nonempty g hg)
    obtain ⟨c, hc, hkey⟩ := (KVLayerGroupsManager.mem_layerIndices hpartitions hg).mp hi
    rw [← (Prod.mk.inj hkey).1]
    exact hhidden c (List.mem_of_getElem? hc)
  have hmapM : (groups.mapM fun g => do
      let hiddenDimSize ← KVLayerGroupInfo.hiddenDimSize g.shape
      .ok [kvSize, g.numLayers, numTokens, hiddenDimSize]) = .ok (groups.map shapeOf) := by
    rw [mapM_eq_ok_iff, List.map_map]
    exact List.map_congr_left fun g hg => bind_eq_ok.mpr ⟨_, hvalid g hg, rfl⟩
  refine ⟨groups.map shapeOf, ?_, ?_, ?_⟩
  · unfold LMCacheMetadata.getShapes
    rw [hgroups]
    cases groups with
    | nil => exact absurd rfl hne
    | cons g groups => exact hmapM
  · unfold LMCacheMetadata.getNumGroups
    rw [hgroups, List.length_map]
    cases groups with
    | nil => exact absurd rfl hne
    | cons g groups => rw [KVLayerGroupsManager.numGroups, hgroups]
  · rw [hdtypes, getSizeBytes_eq (by rw [List.length_map, List.length_map])]
    congr 1
    let w (key : TorchSize × TorchDtype) : Nat :=
      kvSize * numTokens * hidden key.1 * key.2.itemsize
    have hsizes : groupSizes (groups.map shapeOf) (groups.map (·.dtype)) =
        groups.map fun g => g.numLayers * w (g.shape, g.dtype) := by
      unfold groupSizes
      rw [List.zipWith_map, List.zipWith_self]
      refine List.map_congr_left fun g _ => ?_
      simp only [shapeOf, w, TorchSize.numel, List.foldl_cons, List.foldl_nil]
      ring
    have hsum := sum_groupInto (fun e : (String × KVCache) × Nat => (e.1.2.shape, e.1.2.dtype))
      (fun e => (e.1.1, e.2)) kvCaches.entries.zipIdx w
    rw [hsizes, (hperm.map _).sum_nat, List.map_map]
    refine Eq.trans ?_ (hsum.trans ?_)
    · simp [Function.comp_def, KVLayerGroupsManager.groupInfo, KVLayerGroupInfo.numLayers,
        KVLayerGroupsManager.groupsDict]
    · rw [Dict.values, List.map_map]
      conv_rhs => rw [← List.zipIdx_map_fst 0 kvCaches.entries, List.map_map]
      rfl

/-- A model of three layers, two of them of one kind. -/
def threeLayers : Dict String KVCache :=
  .ofPairs [("a", ⟨[2, 8, 16, 4, 8], .float16, 100⟩), ("b", ⟨[8, 16, 64], .uint8, 200⟩),
    ("c", ⟨[2, 8, 16, 4, 8], .float16, 300⟩)]

theorem layers_grouped_threeLayers :
    Partitions threeLayers
      (KVLayerGroupsManager.buildKvLayerGroups ⟨[]⟩ threeLayers).kvLayerGroups ∧
    (∀ i, ((KVLayerGroupsManager.buildKvLayerGroups ⟨[]⟩ threeLayers).getGroupByLayerIdx i).map
      (fun g => (g.shape, g.dtype)) = threeLayers.values[i]?.map fun c => (c.shape, c.dtype)) ∧
    (∀ name, ((KVLayerGroupsManager.buildKvLayerGroups ⟨[]⟩ threeLayers).getGroupByLayerName
      name).map (fun g => (g.shape, g.dtype)) =
        (threeLayers.get? name).map fun c => (c.shape, c.dtype)) ∧
    ∀ g ∈ (KVLayerGroupsManager.buildKvLayerGroups ⟨[]⟩ threeLayers).kvLayerGroups,
      (kvCachePointers threeLayers.values g).map some =
        g.layerNames.map fun name => (threeLayers.get? name).map KVCache.dataPtr :=
  KVLayerGroupsManager.layers_grouped ⟨[]⟩ threeLayers rfl (by decide)

/-- Its metadata, for chunks of 256 tokens. -/
def threeLayersMetadata : LMCacheMetadata :=
  ⟨.float16, (3, 2, 256, 4, 8), false, 256, KVLayerGroupsManager.buildKvLayerGroups ⟨[]⟩ threeLayers⟩

theorem getSizeBytes_getShapes_threeLayers :
    ∃ shapes, threeLayersMetadata.getShapes (some 256) = .ok shapes ∧
      shapes.length = threeLayersMetadata.getNumGroups ∧
      getSizeBytes shapes threeLayersMetadata.getDtypes = .ok (threeLayers.values.map fun c =>
        (if threeLayersMetadata.useMla then 1 else 2) * 256 *
          (if c.shape.length = 5 then 32 else 64) * c.dtype.itemsize).sum :=
  getSizeBytes_getShapes threeLayersMetadata threeLayers rfl (by decide)
    (fun shape => if shape.length = 5 then 32 else 64) (by decide) 256

end LMCache.GPUConnector
