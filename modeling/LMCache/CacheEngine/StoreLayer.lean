/-
# LMCache.CacheEngine.StoreLayer — how often the generator of a layerwise store can be advanced.

Source: `store_layer` of `v1/cache_engine.py`, driven by `save_kv_layer` and `wait_for_save` of
`integration/vllm/vllm_v1_adapter.py`.

The adapter advances the generator once in each layer and once more at the end, without a look at
what it is: one advance too many raises `StopIteration` in the forward pass.  The generator yields
that often when it stores something, and when there is nothing to store.  A frozen engine yields
once less, and an unhealthy one returns at once.

The GPU connector, and `batched_put`, are given by what their turns raise.
-/
import LMCache.CacheEngine.StoreEvents

namespace LMCache

open LMCache.Lib

/-! ## The generator -/

/-- A key and the memory object that is put under it. -/
abbrev LayerPut := CacheEngineKey × Nat

/-- What `store_layer` depends on besides the engine. -/
structure LayerStorage (numLayers : Nat) where
  /-- `contains` and `batched_allocate` for each chunk the walk comes to; a batch has an object for
  each layer. -/
  outcome : Nat → ChunkOutcome (Fin numLayers → Nat)
  /-- `isinstance` of one of the layerwise connectors. -/
  isLayerwise : Bool
  /-- `batched_from_gpu` for the chunks and objects. -/
  fromGpu : List (ChunkInfo × (Fin numLayers → Nat)) → PyGen Unit
  /-- What `batched_put` of a layer raises. -/
  putRaises : Fin numLayers → Option PyError

/-- What a call of `store_layer` comes to: the puts of each advance, and all objects it allocates.
-/
structure LayerStore where
  advances : PyGen (List LayerPut)
  allocated : List Nat

/-- The keys and objects of one layer. -/
def layerPuts {numLayers : Nat} (stored : List (ChunkInfo × (Fin numLayers → Nat)))
    (layerId : Fin numLayers) : List LayerPut :=
  stored.map fun p => ({ p.1.key with layerId := some (layerId : Nat) }, p.2 layerId)

/-- The loop over the layers, from an advance on: the connector is advanced, and the layer is put.
-/
def layerTurns : PyGen Unit → List (List LayerPut × Option PyError) → PyGen (List LayerPut)
  | _, [] => .pure []
  | fromGpu, (puts, putRaises) :: layers =>
    match fromGpu.nextInside with
    | .error e => .raise e
    | .ok (_, fromGpu) =>
      match putRaises with
      | some e => .raise e
      | none => ⟨puts :: (layerTurns fromGpu layers).yields, (layerTurns fromGpu layers).raised⟩

namespace StoringEngine

variable (e : StoringEngine)

/-- What the walk sees of the exception that ends `process_tokens`: nothing, if it stops before. -/
def walkRaises {α : Type} :
    (Nat → ChunkOutcome α) → List ChunkInfo → Option PyError → Option PyError
  | _, [], raised => raised
  | outcome, _ :: infos, raised =>
    match outcome 0 with
    -- the loop breaks, and the rest of `process_tokens` is not run
    | .unallocated => none
    | .present | .allocated _ => walkRaises (fun n => outcome (n + 1)) infos raised

/-- `store_layer`.  The yields of an engine that stores nothing come with no puts. -/
def storeLayerGenerator (tokens : List Int) (mask : Option (List Bool))
    (requestConfigs : RequestConfigs) (storage : LayerStorage e.numLayers) : LayerStore :=
  let infos := e.tokenDatabase.processTokens (.ofTokens tokens mask) requestConfigs
  let stored := (e.storeLayer tokens mask requestConfigs storage.outcome).stored
  let allocated := stored.flatMap fun p => List.ofFn p.2
  if !e.isHealthy then ⟨.pure [], []⟩
  else if !e.hasGpuConnector then
    ⟨.raise (.assertionError "gpu_connector is required for store_layer operation"), []⟩
  else if e.isFrozen then
    -- Still need to yield to avoid StopIteration
    ⟨.pure (List.replicate e.numLayers []), []⟩
  else
    match walkRaises storage.outcome infos.yields infos.raised with
    | some err => ⟨.raise err, allocated⟩
    | none =>
      if stored.isEmpty then
        ⟨.pure (List.replicate e.numLayers [] ++ [[]]), allocated⟩
      else if !storage.isLayerwise then ⟨.raise (.assertionError ""), allocated⟩
      else
        match (storage.fromGpu stored).nextInside with
        | .error err => ⟨.raise err, allocated⟩
        | .ok (_, fromGpu) =>
          let turns := layerTurns fromGpu
            ((List.finRange e.numLayers).map fun layerId =>
              (layerPuts stored layerId, storage.putRaises layerId))
          ⟨⟨[] :: turns.yields, turns.raised⟩, allocated⟩

end StoringEngine

/-! ## The protocol -/

/-- The calls of `next` by `save_kv_layer`, one in each layer, and by `wait_for_save`. -/
def numStoreAdvances (numLayers : Nat) : Nat := numLayers + 1

/-- **The protocol**: the generator can be advanced so often and no more, and by then every object
it has allocated is handed to the storage manager. -/
def LayerStore.KeepsProtocol (numLayers : Nat) (s : LayerStore) : Prop :=
  ∃ puts, s.advances.advance (numStoreAdvances numLayers) = .ok (puts, .pure []) ∧
    (puts.flatten.map Prod.snd).Perm s.allocated

/-- The connector yields once for each layer and once more, and no turn raises. -/
def LayerStorage.Transfers {numLayers : Nat} (storage : LayerStorage numLayers)
    (stored : List (ChunkInfo × (Fin numLayers → Nat))) : Prop :=
  storage.isLayerwise ∧ numLayers + 1 ≤ (storage.fromGpu stored).yields.length ∧
    ∀ layerId, storage.putRaises layerId = none

/-! ## The turns of the connector -/

theorem nextInside_cons {α : Type} {g : PyGen α} {a : α} {as : List α} (h : g.yields = a :: as) :
    g.nextInside = .ok (a, ⟨as, g.raised⟩) := by
  unfold PyGen.nextInside PyGen.next
  rw [h]

theorem nextInside_nil {α : Type} {g : PyGen α} (h : g.yields = []) :
    ∃ e, g.nextInside = .error e := by
  unfold PyGen.nextInside PyGen.next
  rw [h]
  cases g.raised with
  | none => exact ⟨_, rfl⟩
  | some e => cases e <;> exact ⟨_, rfl⟩

/-- **The loop over the layers** comes to its end exactly when the connector yields for each of them
and no put raises. -/
theorem layerTurns_eq_pure_iff {fromGpu : PyGen Unit}
    {layers : List (List LayerPut × Option PyError)} {puts : List (List LayerPut)} :
    layerTurns fromGpu layers = .pure puts ↔ puts = layers.map Prod.fst ∧
      layers.length ≤ fromGpu.yields.length ∧ ∀ l ∈ layers, l.2 = none := by
  induction layers generalizing fromGpu puts with
  | nil =>
    constructor
    · intro h
      exact ⟨(congrArg PyGen.yields h).symm, Nat.zero_le _, fun l hl => absurd hl List.not_mem_nil⟩
    · rintro ⟨rfl, -⟩
      rfl
  | cons layer layers ih =>
    obtain ⟨layer, putRaises⟩ := layer
    unfold layerTurns
    cases hyields : fromGpu.yields with
    | nil =>
      -- the connector returns or raises while there are layers left
      obtain ⟨e, he⟩ := nextInside_nil hyields
      rw [he]
      refine iff_of_false (fun h => nomatch congrArg PyGen.raised h) fun h => ?_
      exact absurd h.2.1 (by simp)
    | cons _ rest =>
      rw [nextInside_cons hyields]
      dsimp only
      cases putRaises with
      | some e =>
        refine iff_of_false (fun h => nomatch congrArg PyGen.raised h) fun h => ?_
        exact absurd (h.2.2 _ List.mem_cons_self) (by simp)
      | none =>
        have hrest := @ih ⟨rest, fromGpu.raised⟩ (layers.map Prod.fst)
        constructor
        · intro h
          have hyields := congrArg PyGen.yields h
          have hraised := congrArg PyGen.raised h
          have hpure : layerTurns ⟨rest, fromGpu.raised⟩ layers =
              .pure (layerTurns ⟨rest, fromGpu.raised⟩ layers).yields := by
            generalize layerTurns ⟨rest, fromGpu.raised⟩ layers = g at hraised
            obtain ⟨yields, raised⟩ := g
            cases hraised
            rfl
          obtain ⟨hputs, hlength, hnone⟩ := ih.mp hpure
          refine ⟨?_, by simpa using hlength, ?_⟩
          · rw [List.map_cons, ← hputs]
            exact hyields.symm
          · exact List.forall_mem_cons.mpr ⟨rfl, hnone⟩
        · rintro ⟨rfl, hlength, hnone⟩
          have hpure := hrest.mpr ⟨rfl, by simpa using hlength, (List.forall_mem_cons.mp hnone).2⟩
          rw [hpure]
          rfl

/-- Layer by layer or chunk by chunk, the objects are the same. -/
theorem perm_flatMap_swap {α β γ : Type} (f : α → β → γ) (as : List α) (bs : List β) :
    (as.flatMap fun a => bs.map fun b => f a b).Perm
      (bs.flatMap fun b => as.map fun a => f a b) := by
  induction bs with
  | nil => simp
  | cons b bs ih =>
    have hfirst := List.map_append_flatMap_perm as (fun a => f a b) fun a => bs.map fun b => f a b
    simp only [List.map_cons, List.flatMap_cons]
    exact hfirst.symm.trans (ih.append_left _)

theorem perm_layerPuts {numLayers : Nat} (stored : List (ChunkInfo × (Fin numLayers → Nat))) :
    ((((List.finRange numLayers).map (layerPuts stored)).flatten).map Prod.snd).Perm
      (stored.flatMap fun p => List.ofFn p.2) := by
  have hswap := perm_flatMap_swap
    (fun layerId (p : ChunkInfo × (Fin numLayers → Nat)) => p.2 layerId)
    (List.finRange numLayers) stored
  simp only [List.ofFn_eq_map]
  refine List.Perm.trans (List.Perm.of_eq ?_) hswap
  rw [List.map_flatten, List.map_map, ← List.flatMap_def]
  simp only [layerPuts, Function.comp_def, List.map_map]

/-! ## The generator keeps to the protocol -/

namespace StoringEngine

variable (e : StoringEngine)

/-- What the engine, the tokens and the storage have to be like: something to advance, an end of
`process_tokens` that raises nothing, and a connector that plays its part if a chunk is stored. -/
def StoresLayerwise (tokens : List Int) (mask : Option (List Bool))
    (requestConfigs : RequestConfigs) (storage : LayerStorage e.numLayers) : Prop :=
  let infos := e.tokenDatabase.processTokens (.ofTokens tokens mask) requestConfigs
  e.isHealthy ∧ e.hasGpuConnector ∧ e.isFrozen = false ∧
    walkRaises storage.outcome infos.yields infos.raised = none ∧
    (takenChunks storage.outcome infos.yields ≠ [] →
      storage.Transfers (takenChunks storage.outcome infos.yields))

variable {numLayers : Nat}

/-- A generator that raises does not keep to the protocol, and one that returns does if it yields as
often as it is advanced. -/
theorem keepsProtocol_raise (err : PyError) (allocated : List Nat) :
    ¬LayerStore.KeepsProtocol numLayers ⟨.raise err, allocated⟩ := by
  rintro ⟨puts, hadvance, -⟩
  have hpure := (PyGen.advance_eq_pure_nil_iff.mp hadvance).1
  exact nomatch congrArg PyGen.raised hpure

theorem keepsProtocol_pure_iff (puts : List (List LayerPut)) (allocated : List Nat) :
    LayerStore.KeepsProtocol numLayers ⟨.pure puts, allocated⟩ ↔
      puts.length = numLayers + 1 ∧ (puts.flatten.map Prod.snd).Perm allocated := by
  constructor
  · rintro ⟨puts', hadvance, hperm⟩
    obtain ⟨hpure, hlength⟩ := PyGen.advance_eq_pure_nil_iff.mp hadvance
    have hputs : puts = puts' := congrArg PyGen.yields hpure
    rw [hputs]
    exact ⟨hlength, hperm⟩
  · rintro ⟨hlength, hperm⟩
    exact ⟨puts, PyGen.advance_eq_pure_nil_iff.mpr ⟨rfl, hlength⟩, hperm⟩

/-- The turns behind the first one. -/
theorem keepsProtocol_turns_iff (storage : LayerStorage numLayers)
    (stored : List (ChunkInfo × (Fin numLayers → Nat))) {fromGpu : PyGen Unit}
    {turns : PyGen (List LayerPut)}
    (hturns : layerTurns fromGpu ((List.finRange numLayers).map fun layerId =>
      (layerPuts stored layerId, storage.putRaises layerId)) = turns) :
    LayerStore.KeepsProtocol numLayers
      ⟨⟨[] :: turns.yields, turns.raised⟩, stored.flatMap fun p => List.ofFn p.2⟩ ↔
      numLayers ≤ fromGpu.yields.length ∧ ∀ layerId, storage.putRaises layerId = none := by
  have hspec (puts : List (List LayerPut)) : turns = .pure puts ↔
      puts = (List.finRange numLayers).map (layerPuts stored) ∧
        numLayers ≤ fromGpu.yields.length ∧ ∀ layerId, storage.putRaises layerId = none := by
    rw [← hturns, layerTurns_eq_pure_iff]
    simp [Function.comp_def]
  obtain ⟨yields, raised⟩ := turns
  constructor
  · rintro ⟨puts, hadvance, -⟩
    have hpure := (PyGen.advance_eq_pure_nil_iff.mp hadvance).1
    have hraised : raised = none := congrArg PyGen.raised hpure
    subst hraised
    exact ((hspec yields).mp rfl).2
  · intro hgoes
    have hpure := (hspec _).mpr ⟨rfl, hgoes⟩
    cases hpure
    refine (keepsProtocol_pure_iff _ _).mpr ⟨by simp, ?_⟩
    exact perm_layerPuts stored

/-- **The generator keeps to the protocol exactly when** the engine is healthy and not frozen, and
nothing raises. -/
theorem storeLayer_keepsProtocol_iff (tokens : List Int) (mask : Option (List Bool))
    (requestConfigs : RequestConfigs) (storage : LayerStorage e.numLayers) :
    (e.storeLayerGenerator tokens mask requestConfigs storage).KeepsProtocol e.numLayers ↔
      e.StoresLayerwise tokens mask requestConfigs storage := by
  unfold storeLayerGenerator StoresLayerwise
  dsimp only
  cases hhealthy : e.isHealthy with
  | false =>
    refine iff_of_false ?_ fun h => nomatch h.1
    exact fun h => nomatch ((keepsProtocol_pure_iff [] []).mp h).1
  | true =>
  cases hgpu : e.hasGpuConnector with
  | false => exact iff_of_false (keepsProtocol_raise _ _) fun h => nomatch h.2.1
  | true =>
  cases hfrozen : e.isFrozen with
  | true =>
    -- one yield for each layer, and none for the advance of `wait_for_save`
    refine iff_of_false (fun h => ?_) fun h => nomatch h.2.2.1
    have hlength := ((keepsProtocol_pure_iff _ _).mp h).1
    rw [List.length_replicate] at hlength
    omega
  | false =>
  have hstored : (e.storeLayer tokens mask requestConfigs storage.outcome).stored =
      takenChunks storage.outcome
        (e.tokenDatabase.processTokens (.ofTokens tokens mask) requestConfigs).yields := by
    unfold storeLayer
    rw [hhealthy, hgpu, hfrozen]
    exact stored_walk _ _ _ _
  rw [hstored]
  generalize takenChunks storage.outcome _ = stored
  cases hraises : walkRaises storage.outcome _ _ with
  | some err => exact iff_of_false (keepsProtocol_raise _ _) fun h => nomatch h.2.2.2.1
  | none =>
    simp only [true_and, Bool.not_true, Bool.false_eq_true, if_false]
    cases stored with
    -- nothing is allocated, and the yields are as many as the advances
    | nil => simp [keepsProtocol_pure_iff]
    | cons chunk stored =>
      rw [List.isEmpty_cons, if_neg (by simp)]
      unfold LayerStorage.Transfers
      cases hlayerwise : storage.isLayerwise with
      | false => exact iff_of_false (keepsProtocol_raise _ _) (by simp)
      | true =>
        rw [if_neg (by simp)]
        cases hyields : (storage.fromGpu (chunk :: stored)).yields with
        | nil =>
          obtain ⟨err, herr⟩ := nextInside_nil hyields
          rw [herr]
          exact iff_of_false (keepsProtocol_raise _ _) (by simp)
        | cons _ rest =>
          rw [nextInside_cons hyields]
          refine (keepsProtocol_turns_iff storage _ rfl).trans ?_
          simp

/-- **A frozen engine** of one layer yields once, and is advanced twice. -/
theorem not_keepsProtocol :
    ¬∀ (e : StoringEngine) (tokens : List Int) (mask : Option (List Bool))
      (requestConfigs : RequestConfigs) (storage : LayerStorage e.numLayers),
      (e.storeLayerGenerator tokens mask requestConfigs storage).KeepsProtocol e.numLayers := by
  intro h
  let e : StoringEngine :=
    ⟨.chunked .pairSums, 1, Nat.one_pos, true, true, true, false, true⟩
  have hkeeps := h e [1, 2] none none
    ⟨fun _ => .unallocated, true, fun _ => .pure [(), ()], fun _ => none⟩
  exact nomatch ((keepsProtocol_pure_iff [[]] []).mp hkeeps).1

end StoringEngine

end LMCache
