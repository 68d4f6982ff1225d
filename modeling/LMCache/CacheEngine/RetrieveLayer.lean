/-
# LMCache.CacheEngine.RetrieveLayer — how often the generator of a layerwise retrieval can be
advanced.

Source: `retrieve_layer` of `v1/cache_engine.py` and `layerwise_batched_get` of
`v1/storage_backend/storage_manager.py`, driven by `start_load_kv` and `wait_for_layer_load` of
`integration/vllm/vllm_v1_adapter.py`.

The adapter advances the generator twice at the start and once in each layer, and reads the mask off
the last value.  With chunks to load, the generator yields that often.  Without, it yields in the
loop and once more, and then advances a consumer that it has not made; an unhealthy engine yields
its mask at once, and nothing after.  The chunks must be in one location, and the mask is that of
the chunks whose first layer was found, whether or not the reads give them.

What the storage gives for each layer, and what the turns of the GPU connector raise, are
parameters.
-/
import LMCache.CacheEngine.ProcessTokens

namespace LMCache

open LMCache.Lib

/-! ## The generator -/

/-- The fields of the engine that `retrieve_layer` reads. -/
structure RetrievingEngine where
  tokenDatabase : TokenDatabase
  numLayers : Nat
  /-- A model has a layer. -/
  numLayers_pos : 0 < numLayers
  isHealthy : Bool
  hasGpuConnector : Bool

/-- What `retrieve_layer` depends on besides the engine. -/
structure LayerSource (numLayers : Nat) where
  /-- `contains` of the first layer of each chunk that the walk comes to. -/
  location : Nat → Option String
  /-- `isinstance` of one of the layerwise connectors. -/
  isLayerwise : Bool
  /-- What the advances of `batched_to_gpu` for the chunks raise, by their number and with the
  objects that have been sent. -/
  toGpu : List ChunkInfo → Nat → List (List Nat) → Option PyError
  /-- The result of the future of each layer. -/
  results : Fin numLayers → Except PyError (List Nat)

/-- What the generator yields. -/
inductive LayerYield where
  | none
  | numTokens (n : Nat)
  | retMask (mask : List Bool)
  deriving DecidableEq, Repr

/-- What a call of `retrieve_layer` comes to: its yields, the objects that it gets from the futures
and those it releases. -/
structure LayerRetrieval where
  advances : PyGen LayerYield
  read : List Nat
  released : List Nat

namespace LayerRetrieval

/-- The generator raises with these objects read. -/
def fail (y : List LayerYield) (e : PyError) (read : List Nat) : LayerRetrieval :=
  ⟨⟨y, some e⟩, read, []⟩

/-- A yield in front. -/
def yielding (y : LayerYield) (r : LayerRetrieval) : LayerRetrieval :=
  { r with advances := ⟨y :: r.advances.yields, r.advances.raised⟩ }

end LayerRetrieval

/-- The loop over the chunks: those in front of the first whose first layer is nowhere. -/
def locateChunks : (Nat → Option String) → Option String → List ChunkInfo → Option PyError →
    Except PyError (List ChunkInfo)
  | _, _, [], none => .ok []
  | _, _, [], some e => .error e
  | locations, location, info :: infos, raised =>
    match locations 0 with
    -- the loop breaks: an exception of `process_tokens` behind this chunk is not met
    | none => .ok []
    | some currentLocation =>
      if location = none ∨ location = some currentLocation then do
        let found ← locateChunks (fun n => locations (n + 1)) (some currentLocation) infos raised
        .ok (info :: found)
      else
        .error (.assertionError ("All retrieved keys should be from the same location " ++
          "when use layerwise retrieval." ++
          "Please support multi-location retrieval in the future."))

/-- `ret_mask` after the loop. -/
def retMaskOf (numTokens : Nat) (found : List ChunkInfo) : List Bool :=
  found.foldl (fun mask info => setSlice mask info.start info.stop true)
    (List.replicate numTokens false)

/-- The loop over the layers, with what has been sent to the connector.  The value of the first
yield is another one. -/
def retrieveTurns (toGpu : Nat → List (List Nat) → Option PyError)
    (finish : List (List Nat) → LayerRetrieval) :
    LayerYield → List (List Nat) → List (Except PyError (List Nat)) → LayerRetrieval
  | _, sent, [] => finish sent
  | y, sent, result :: results =>
    match result with
    -- the objects of the layers before are only released behind the loop
    | .error e => .fail [y] e sent.flatten
    | .ok memObjsLayer =>
      match toGpu (sent.length + 1) (sent ++ [memObjsLayer]) with
      | some e => .fail [y] e (sent ++ [memObjsLayer]).flatten
      | none =>
        .yielding y (retrieveTurns toGpu finish .none (sent ++ [memObjsLayer]) results)

/-- Behind the loop: the objects are released, the connector synchronizes, and the mask comes last.
-/
def finishRetrieval (toGpu : Nat → List (List Nat) → Option PyError) (retMask : List Bool)
    (sent : List (List Nat)) : LayerRetrieval :=
  match toGpu (sent.length + 1) sent with
  | some e => ⟨⟨[.none], some e⟩, sent.flatten, sent.flatten⟩
  | none => ⟨.pure [.none, .retMask retMask], sent.flatten, sent.flatten⟩

namespace RetrievingEngine

variable (e : RetrievingEngine)

/-- The chunks of the walk. -/
def located (tokens : List Int) (mask : Option (List Bool)) (requestConfigs : RequestConfigs)
    (source : LayerSource e.numLayers) : Except PyError (List ChunkInfo) :=
  let infos := e.tokenDatabase.processTokens (.ofTokens tokens mask) requestConfigs
  locateChunks source.location none infos.yields infos.raised

/-- `retrieve_layer` with chunks to load. -/
def retrieveFound (numTokens : Nat) (found : List ChunkInfo) (source : LayerSource e.numLayers) :
    LayerRetrieval :=
  let retMask := retMaskOf numTokens found
  if !source.isLayerwise then .fail [] (.assertionError "") []
  else
    match source.toGpu found 0 [] with
    | some err => .fail [] err []
    | none =>
      retrieveTurns (source.toGpu found) (finishRetrieval (source.toGpu found) retMask)
        (.numTokens (retMask.count true)) [] ((List.finRange e.numLayers).map source.results)

/-- `retrieve_layer`. -/
def retrieveLayer (tokens : List Int) (mask : Option (List Bool)) (requestConfigs : RequestConfigs)
    (source : LayerSource e.numLayers) : LayerRetrieval :=
  if !e.isHealthy then
    ⟨.pure [.retMask (List.replicate tokens.length false)], [], []⟩
  else if !e.hasGpuConnector then
    .fail [] (.assertionError "gpu_connector is required for retrieve_layer operation") []
  else
    match e.located tokens mask requestConfigs source with
    | .error err => .fail [] err []
    | .ok [] =>
      -- there is no consumer to synchronize
      .fail (List.replicate e.numLayers .none ++ [.none]) (.nameError ("cannot access local " ++
        "variable 'mem_obj_consumer' where it is not associated with a value")) []
    | .ok found => e.retrieveFound tokens.length found source

end RetrievingEngine

/-! ## The protocol -/

/-- The calls of `next`: two by `start_load_kv`, and one by `wait_for_layer_load` in each layer. -/
def numRetrieveAdvances (numLayers : Nat) : Nat := numLayers + 2

/-- The token is in a chunk that every layer has an object for. -/
def Retrieved {numLayers : Nat} (found : List ChunkInfo)
    (results : Fin numLayers → Except PyError (List Nat)) (t : Nat) : Prop :=
  ∃ i info, found[i]? = some info ∧ info.start ≤ t ∧ t < info.stop ∧
    ∀ layerId, ∃ objs, results layerId = .ok objs ∧ i < objs.length

/-- **The protocol**: the generator can be advanced so often and no more; its last value is the mask
of the tokens that are retrieved; and what it has read is released, each object as often. -/
def LayerRetrieval.KeepsProtocol {numLayers : Nat} (numTokens : Nat) (found : List ChunkInfo)
    (results : Fin numLayers → Except PyError (List Nat)) (r : LayerRetrieval) : Prop :=
  ∃ yields mask, r.advances.advance (numRetrieveAdvances numLayers) = .ok (yields, .pure []) ∧
    yields.getLast? = some (.retMask mask) ∧
    mask.length = numTokens ∧ (∀ t < numTokens, mask[t]? = some true ↔ Retrieved found results t) ∧
    r.released.Perm r.read

/-! ## The mask -/

theorem length_retMaskOf (numTokens : Nat) (found : List ChunkInfo) :
    (retMaskOf numTokens found).length = numTokens := by
  have hfold (mask : List Bool) (found : List ChunkInfo) :
      (found.foldl (fun mask info => setSlice mask info.start info.stop true) mask).length =
        mask.length := by
    induction found generalizing mask with
    | nil => rfl
    | cons info found ih => exact (ih _).trans (length_setSlice _ _ _ _)
  exact (hfold _ found).trans List.length_replicate

/-- The mask is set where a chunk is found. -/
theorem getElem?_retMaskOf {numTokens t : Nat} (ht : t < numTokens) (found : List ChunkInfo) :
    (retMaskOf numTokens found)[t]? = some true ↔
      ∃ info ∈ found, info.start ≤ t ∧ t < info.stop := by
  have hfold (mask : List Bool) (hmask : t < mask.length) (found : List ChunkInfo) :
      (found.foldl (fun mask info => setSlice mask info.start info.stop true) mask)[t]? =
        some true ↔ mask[t]? = some true ∨ ∃ info ∈ found, info.start ≤ t ∧ t < info.stop := by
    induction found generalizing mask with
    | nil => simp
    | cons info found ih =>
      rw [List.foldl_cons, ih _ (by rwa [length_setSlice]), getElem?_setSlice hmask]
      by_cases hin : info.start ≤ t ∧ t < info.stop
      · rw [if_pos hin]
        exact iff_of_true (.inl rfl) (.inr ⟨info, List.mem_cons_self, hin⟩)
      · rw [if_neg hin]
        refine or_congr_right ⟨?_, ?_⟩
        · rintro ⟨c, hc, hct⟩
          exact ⟨c, List.mem_cons_of_mem info hc, hct⟩
        · rintro ⟨c, hc, hct⟩
          rcases List.mem_cons.mp hc with rfl | hc
          · exact absurd hct hin
          · exact ⟨c, hc, hct⟩
  have hreplicate : (List.replicate numTokens false)[t]? = some false := by
    rw [List.getElem?_replicate, if_pos ht]
  rw [retMaskOf, hfold _ (by rwa [List.length_replicate]), hreplicate]
  simp

variable {found : List ChunkInfo} {numLayers : Nat} {objs : List (List Nat)}

/-- No token is in two of the chunks. -/
theorem eq_of_mem_chunks (h : InOrder (found.map fun c => (c.start, c.stop))) {i j t : Nat}
    {c d : ChunkInfo} (hc : found[i]? = some c) (hd : found[j]? = some d)
    (hct : c.start ≤ t ∧ t < c.stop) (hdt : d.start ≤ t ∧ t < d.stop) : i = j := by
  have hbehind {i j : Nat} {c d : ChunkInfo} (hij : i < j) (hc : found[i]? = some c)
      (hd : found[j]? = some d) : c.stop ≤ d.start := by
    obtain ⟨hi, rfl⟩ := List.getElem?_eq_some_iff.mp hc
    obtain ⟨hj, rfl⟩ := List.getElem?_eq_some_iff.mp hd
    exact List.pairwise_iff_getElem.mp (List.pairwise_map.mp h.stop_le_start) i j hi hj hij
  rcases Nat.lt_trichotomy i j with hij | hij | hij
  · have := hbehind hij hc hd
    omega
  · exact hij
  · have := hbehind hij hd hc
    omega

/-! ## The loop over the layers -/

section Turns

variable {toGpu : Nat → List (List Nat) → Option PyError}
  {finish : List (List Nat) → LayerRetrieval}

/-- Every future gives its objects, and the connector takes them. -/
def TakesAll (toGpu : Nat → List (List Nat) → Option PyError) (sent objs : List (List Nat)) :
    Prop :=
  ∀ k < objs.length, toGpu (sent.length + k + 1) (sent ++ objs.take (k + 1)) = none

variable {sent : List (List Nat)}

/-- The first turn and the others. -/
theorem takesAll_cons {objs : List (List Nat)} {layer : List Nat} :
    TakesAll toGpu sent (layer :: objs) ↔
      toGpu (sent.length + 1) (sent ++ [layer]) = none ∧ TakesAll toGpu (sent ++ [layer]) objs := by
  constructor
  · intro h
    refine ⟨h 0 (Nat.zero_lt_succ _), fun k hk => ?_⟩
    have hnext := h (k + 1) (Nat.succ_lt_succ hk)
    rw [List.take_succ_cons, ← List.singleton_append, ← List.append_assoc] at hnext
    rw [List.length_append, List.length_singleton]
    have hnumber : sent.length + 1 + k + 1 = sent.length + (k + 1) + 1 := by omega
    rw [hnumber]
    exact hnext
  · rintro ⟨hfirst, hrest⟩ k hk
    cases k with
    | zero => exact hfirst
    | succ k =>
      have hnext := hrest k (Nat.lt_of_succ_lt_succ hk)
      rw [List.length_append, List.length_singleton] at hnext
      rw [List.take_succ_cons, ← List.singleton_append, ← List.append_assoc]
      have hnumber : sent.length + (k + 1) + 1 = sent.length + 1 + k + 1 := by omega
      rw [hnumber]
      exact hnext

variable (finish) in
/-- A loop that nothing stops yields once for each layer. -/
theorem retrieveTurns_of_takesAll {objs : List (List Nat)} (h : TakesAll toGpu sent objs)
    (y : LayerYield) : ∃ yields : List LayerYield, yields.length = objs.length ∧
      retrieveTurns toGpu finish y sent (objs.map .ok) =
        yields.foldr LayerRetrieval.yielding (finish (sent ++ objs)) := by
  induction objs generalizing y sent with
  | nil => exact ⟨[], rfl, by rw [List.append_nil]; rfl⟩
  | cons layer objs ih =>
    obtain ⟨hfirst, hrest⟩ := takesAll_cons.mp h
    obtain ⟨yields, hlength, hturns⟩ := ih hrest .none
    refine ⟨y :: yields, congrArg (· + 1) hlength, ?_⟩
    rw [List.map_cons, retrieveTurns, hfirst, hturns, List.append_assoc, List.singleton_append]
    rfl

/-- And a loop that does not raise is one that nothing stops. -/
theorem exists_takesAll_of_raised {y : LayerYield} {results : List (Except PyError (List Nat))}
    (h : (retrieveTurns toGpu finish y sent results).advances.raised = none) :
    ∃ objs, results = objs.map .ok ∧ TakesAll toGpu sent objs := by
  induction results generalizing y sent with
  | nil => exact ⟨[], rfl, fun k hk => absurd hk (Nat.not_lt_zero k)⟩
  | cons result results ih =>
    unfold retrieveTurns at h
    cases result with
    | error e => exact nomatch h
    | ok layer =>
      dsimp only at h
      cases hfirst : toGpu (sent.length + 1) (sent ++ [layer]) with
      | some e =>
        rw [hfirst] at h
        exact nomatch h
      | none =>
        rw [hfirst] at h
        obtain ⟨objs, rfl, hrest⟩ := ih h
        exact ⟨layer :: objs, rfl, takesAll_cons.mpr ⟨hfirst, hrest⟩⟩

end Turns

/-! ## The generator keeps to the protocol -/

/-- A generator that raises does not keep to the protocol. -/
theorem LayerRetrieval.not_keepsProtocol_of_raised {numTokens : Nat}
    {results : Fin numLayers → Except PyError (List Nat)} {r : LayerRetrieval}
    (h : r.advances.raised ≠ none) : ¬r.KeepsProtocol numTokens found results := by
  rintro ⟨yields, mask, hadvance, -⟩
  rw [PyGen.advance_eq_pure_nil_iff] at hadvance
  exact h (congrArg PyGen.raised hadvance.1)

/-- Every future gives its objects, and the connector takes them: its first advance, one for each
layer, and its last. -/
def LayerSource.Transfers {numLayers : Nat} (source : LayerSource numLayers)
    (found : List ChunkInfo) (objs : List (List Nat)) : Prop :=
  source.isLayerwise ∧ (List.finRange numLayers).map source.results = objs.map .ok ∧
    ∀ n ≤ numLayers + 1, source.toGpu found n (objs.take n) = none

/-- What the reads and the connector have to be like for the chunks: the objects are transferred,
and in each layer there is one for each chunk with a token. -/
def LayerSource.Loads {numLayers : Nat} (source : LayerSource numLayers) (numTokens : Nat)
    (found : List ChunkInfo) : Prop :=
  ∃ objs, source.Transfers found objs ∧ ∀ layer ∈ objs, ∀ i info t, found[i]? = some info →
    info.start ≤ t → t < info.stop → t < numTokens → i < layer.length

/-- The mask is right exactly when the objects are there. -/
theorem retMaskOf_retrieved_iff (numTokens : Nat)
    (h : InOrder (found.map fun c => (c.start, c.stop)))
    {results : Fin numLayers → Except PyError (List Nat)}
    (hobjs : (List.finRange numLayers).map results = objs.map .ok) :
    (∀ t < numTokens, (retMaskOf numTokens found)[t]? = some true ↔ Retrieved found results t) ↔
      ∀ layer ∈ objs, ∀ i info t, found[i]? = some info → info.start ≤ t → t < info.stop →
        t < numTokens → i < layer.length := by
  have hlayers (i : Nat) : (∀ layerId, ∃ layer, results layerId = .ok layer ∧ i < layer.length) ↔
      ∀ layer ∈ objs, i < layer.length := by
    have hall : (∀ r ∈ (List.finRange numLayers).map results, ∃ layer, r = .ok layer ∧
        i < layer.length) ↔ ∀ r ∈ objs.map (Except.ok (ε := PyError)), ∃ layer, r = .ok layer ∧
          i < layer.length := by rw [hobjs]
    simpa using hall
  unfold Retrieved
  simp only [hlayers]
  constructor
  · -- a token that the mask is set for is in one chunk only, so this is the one that was loaded
    intro hmask layer hlayer i info t hinfo hstart hstop ht
    have hset := (getElem?_retMaskOf ht found).mpr
      ⟨info, List.mem_of_getElem? hinfo, hstart, hstop⟩
    obtain ⟨j, info', hinfo', hstart', hstop', hlonger⟩ := (hmask t ht).mp hset
    rw [eq_of_mem_chunks h hinfo hinfo' ⟨hstart, hstop⟩ ⟨hstart', hstop'⟩]
    exact hlonger layer hlayer
  · intro hlonger t ht
    rw [getElem?_retMaskOf ht]
    constructor
    · rintro ⟨info, hinfo, hstart, hstop⟩
      obtain ⟨i, hi⟩ := List.mem_iff_getElem?.mp hinfo
      exact ⟨i, info, hi, hstart, hstop,
        fun layer hlayer => hlonger layer hlayer i info t hi hstart hstop ht⟩
    · rintro ⟨i, info, hinfo, hstart, hstop, -⟩
      exact ⟨info, List.mem_of_getElem? hinfo, hstart, hstop⟩

theorem advances_foldr_yielding (yields : List LayerYield) (r : LayerRetrieval) :
    (yields.foldr LayerRetrieval.yielding r).advances =
      ⟨yields ++ r.advances.yields, r.advances.raised⟩ ∧
    (yields.foldr LayerRetrieval.yielding r).read = r.read ∧
    (yields.foldr LayerRetrieval.yielding r).released = r.released := by
  induction yields with
  | nil => exact ⟨rfl, rfl, rfl⟩
  | cons y yields ih =>
    obtain ⟨hadvances, hread, hreleased⟩ := ih
    refine ⟨?_, hread, hreleased⟩
    rw [List.foldr_cons, LayerRetrieval.yielding, hadvances]
    rfl

/-- The advances of the connector, one by one: the first, those of the layers, and the last. -/
theorem takes_iff {toGpu : Nat → List (List Nat) → Option PyError}
    (hlength : objs.length = numLayers) :
    (∀ n ≤ numLayers + 1, toGpu n (objs.take n) = none) ↔
      toGpu 0 [] = none ∧ TakesAll toGpu [] objs ∧ toGpu (objs.length + 1) objs = none := by
  have hall : objs.take (objs.length + 1) = objs := List.take_of_length_le (Nat.le_succ _)
  constructor
  · intro h
    refine ⟨h 0 (Nat.zero_le _), fun k hk => ?_, ?_⟩
    · rw [List.length_nil, Nat.zero_add, List.nil_append]
      exact h (k + 1) (by omega)
    · have hlast := h (objs.length + 1) (by omega)
      rwa [hall] at hlast
  · rintro ⟨hfirst, hturns, hlast⟩ n hn
    match n with
    | 0 => exact hfirst
    | k + 1 =>
      by_cases hk : k < objs.length
      · have hturn := hturns k hk
        rwa [List.length_nil, Nat.zero_add, List.nil_append] at hturn
      · have hk : k = objs.length := by omega
        rw [hk, hall]
        exact hlast

theorem LayerSource.length_of_results {source : LayerSource numLayers}
    (h : (List.finRange numLayers).map source.results = objs.map .ok) :
    objs.length = numLayers := by
  have hlength := congrArg List.length h
  rw [List.length_map, List.length_map, List.length_finRange] at hlength
  exact hlength.symm

namespace RetrievingEngine

variable (e : RetrievingEngine)

/-- **With chunks to load** the generator raises and the transfer fails, or the objects are
transferred and it yields as it should. -/
theorem retrieveFound_cases (numTokens : Nat) (found : List ChunkInfo)
    (source : LayerSource e.numLayers) :
    ((e.retrieveFound numTokens found source).advances.raised ≠ none ∧
        ∀ objs, ¬source.Transfers found objs) ∨
      ∃ objs, source.Transfers found objs ∧
        ∃ yields : List LayerYield, yields.length = e.numLayers ∧
          e.retrieveFound numTokens found source = yields.foldr LayerRetrieval.yielding
            ⟨.pure [.none, .retMask (retMaskOf numTokens found)], objs.flatten, objs.flatten⟩ := by
  unfold retrieveFound LayerSource.Transfers
  cases hlayerwise : source.isLayerwise with
  | false => exact .inl ⟨nofun, fun objs h => nomatch h.1⟩
  | true =>
    rw [if_neg (by simp)]
    cases hfirst : source.toGpu found 0 [] with
    | some err =>
      refine .inl ⟨nofun, fun objs h => ?_⟩
      rw [((takes_iff (LayerSource.length_of_results h.2.1)).mp h.2.2).1] at hfirst
      cases hfirst
    | none =>
      dsimp only
      by_cases hgives : ∃ objs : List (List Nat),
          (List.finRange e.numLayers).map source.results = objs.map .ok ∧
            TakesAll (source.toGpu found) [] objs
      · obtain ⟨objs, hobjs, hturns⟩ := hgives
        have hlength := LayerSource.length_of_results hobjs
        obtain ⟨yields, hyields, hrun⟩ := retrieveTurns_of_takesAll
          (finishRetrieval (source.toGpu found) (retMaskOf numTokens found)) hturns
          (.numTokens ((retMaskOf numTokens found).count true))
        rw [hobjs, hrun, List.nil_append]
        unfold finishRetrieval
        cases hlast : source.toGpu found (objs.length + 1) objs with
        | some err =>
          -- it raises in the synchronization, with all that it has yielded in the loop
          refine .inl ⟨?_, fun objs' h => ?_⟩
          · rw [(advances_foldr_yielding _ _).1]
            exact nofun
          · have hsame : objs = objs' :=
              List.map_injective_iff.mpr (fun _ _ h => Except.ok.inj h) h.2.1
            rw [← hsame] at h
            rw [((takes_iff hlength).mp h.2.2).2.2] at hlast
            cases hlast
        | none =>
          exact .inr ⟨objs, ⟨rfl, rfl, (takes_iff hlength).mpr ⟨hfirst, hturns, hlast⟩⟩,
            yields, hyields.trans hlength, rfl⟩
      · refine .inl ⟨fun h => hgives (exists_takesAll_of_raised h), fun objs h => ?_⟩
        have hlength := LayerSource.length_of_results h.2.1
        exact hgives ⟨objs, h.2.1, ((takes_iff hlength).mp h.2.2).2.1⟩

/-- With chunks to load, the protocol is kept exactly when they are loaded. -/
theorem retrieveFound_keepsProtocol_iff {numTokens : Nat} {found : List ChunkInfo}
    (h : InOrder (found.map fun c => (c.start, c.stop))) (source : LayerSource e.numLayers) :
    (e.retrieveFound numTokens found source).KeepsProtocol numTokens found source.results ↔
      source.Loads numTokens found := by
  rcases e.retrieveFound_cases numTokens found source with
    ⟨hraised, hnot⟩ | ⟨objs, htransfers, yields, hyields, hrun⟩
  · refine iff_of_false (LayerRetrieval.not_keepsProtocol_of_raised hraised) ?_
    rintro ⟨objs, htransfers, -⟩
    exact hnot objs htransfers
  · obtain ⟨hadvances, hread, hreleased⟩ := advances_foldr_yielding yields
      ⟨.pure [.none, .retMask (retMaskOf numTokens found)], objs.flatten, objs.flatten⟩
    have hpure : (e.retrieveFound numTokens found source).advances =
        .pure (yields ++ [.none, .retMask (retMaskOf numTokens found)]) := by
      rw [hrun, hadvances]
      rfl
    have hmask := retMaskOf_retrieved_iff numTokens h htransfers.2.1
    constructor
    · rintro ⟨yields', mask, hadvance, hlast, -, hset, -⟩
      rw [hpure, PyGen.advance_eq_pure_nil_iff] at hadvance
      have hsame := congrArg PyGen.yields hadvance.1
      have hlast' : (yields ++ [.none, LayerYield.retMask (retMaskOf numTokens found)]).getLast? =
          some (.retMask mask) := by
        rw [← hlast]
        exact congrArg List.getLast? hsame
      rw [List.getLast?_append] at hlast'
      have heq : retMaskOf numTokens found = mask := by simpa using hlast'
      rw [← heq] at hset
      exact ⟨objs, htransfers, hmask.mp hset⟩
    · rintro ⟨objs', htransfers', hcovers⟩
      have hsame : objs = objs' := List.map_injective_iff.mpr (fun _ _ h => Except.ok.inj h)
        (htransfers.2.1.symm.trans htransfers'.2.1)
      rw [← hsame] at hcovers
      refine ⟨yields ++ [.none, .retMask (retMaskOf numTokens found)], retMaskOf numTokens found,
        ?_, ?_, length_retMaskOf _ _, hmask.mpr hcovers, ?_⟩
      · rw [hpure, PyGen.advance_eq_pure_nil_iff]
        refine ⟨rfl, ?_⟩
        rw [List.length_append, hyields]
        rfl
      · rw [List.getLast?_append]
        rfl
      · rw [hrun, hread, hreleased]

/-- The chunks that are found are the first of those that `process_tokens` yields. -/
theorem isPrefix_of_locateChunks {locations : Nat → Option String} {location : Option String}
    {infos found : List ChunkInfo} {raised : Option PyError}
    (h : locateChunks locations location infos raised = .ok found) : found <+: infos := by
  induction infos generalizing locations location found with
  | nil =>
    cases raised with
    | none =>
      cases h
      exact List.nil_prefix
    | some e => cases h
  | cons info infos ih =>
    unfold locateChunks at h
    split at h
    · cases h
      exact List.nil_prefix
    · split at h
      · obtain ⟨rest, hrest, h⟩ := bind_eq_ok.mp h
        cases h
        exact (List.prefix_cons_inj info).mpr (ih hrest)
      · cases h

/-- What the engine, the tokens and the storage have to be like: a chunk is found, in one location
with all others that are, and they are loaded. -/
def RetrievesLayerwise (tokens : List Int) (mask : Option (List Bool))
    (requestConfigs : RequestConfigs) (source : LayerSource e.numLayers) : Prop :=
  e.isHealthy ∧ e.hasGpuConnector ∧
    ∃ found, e.located tokens mask requestConfigs source = .ok found ∧ found ≠ [] ∧
      source.Loads tokens.length found

/-- **The generator keeps to the protocol exactly when** the engine is healthy and the chunks that
it finds, one at least, are loaded. -/
theorem retrieveLayer_keepsProtocol_iff (tokens : List Int) (mask : Option (List Bool))
    (requestConfigs : RequestConfigs) (source : LayerSource e.numLayers) :
    (e.retrieveLayer tokens mask requestConfigs source).KeepsProtocol tokens.length
        ((e.located tokens mask requestConfigs source).toOption.getD []) source.results ↔
      e.RetrievesLayerwise tokens mask requestConfigs source := by
  unfold retrieveLayer RetrievesLayerwise
  cases hhealthy : e.isHealthy with
  | false =>
    -- the mask is the only yield, and there are three advances or more
    refine iff_of_false ?_ fun h => nomatch h.1
    rintro ⟨yields, mask, hadvance, -⟩
    obtain ⟨hpure, hlength⟩ := PyGen.advance_eq_pure_nil_iff.mp hadvance
    have hyields := congrArg (fun g => g.yields.length) hpure
    have hpos := e.numLayers_pos
    have hyields : 1 = yields.length := hyields
    unfold numRetrieveAdvances at hlength
    omega
  | true =>
  cases hgpu : e.hasGpuConnector with
  | false =>
    refine iff_of_false ?_ fun h => nomatch h.2.1
    exact LayerRetrieval.not_keepsProtocol_of_raised nofun
  | true =>
  simp only [Bool.not_true, Bool.false_eq_true, if_false, true_and]
  cases hlocated : e.located tokens mask requestConfigs source with
  | error err =>
    refine iff_of_false (LayerRetrieval.not_keepsProtocol_of_raised nofun) ?_
    rintro ⟨found, hfound, -⟩
    cases hfound
  | ok found =>
    cases found with
    | nil =>
      refine iff_of_false (LayerRetrieval.not_keepsProtocol_of_raised nofun) ?_
      rintro ⟨found, hfound, hne, -⟩
      cases hfound
      exact hne rfl
    | cons info found =>
      have horder : InOrder ((info :: found).map fun c => (c.start, c.stop)) :=
        (e.tokenDatabase.inOrder_processTokens (.ofTokens tokens mask) requestConfigs).sublist
          ((isPrefix_of_locateChunks hlocated).sublist.map _)
      refine (e.retrieveFound_keepsProtocol_iff horder source).trans ?_
      constructor
      · exact fun hloads => ⟨info :: found, rfl, by simp, hloads⟩
      · rintro ⟨found', hfound, -, hloads⟩
        cases hfound
        exact hloads

/-- **No chunk is found** on an engine of one layer: the third advance raises. -/
theorem not_keepsProtocol_noHit :
    ¬∀ (e : RetrievingEngine) (tokens : List Int) (mask : Option (List Bool))
      (requestConfigs : RequestConfigs) (source : LayerSource e.numLayers),
      (e.retrieveLayer tokens mask requestConfigs source).KeepsProtocol tokens.length
        ((e.located tokens mask requestConfigs source).toOption.getD []) source.results := by
  intro h
  let e : RetrievingEngine :=
    ⟨.segment ⟨⟨fun _ _ => 0, 0, some ⟨"model", 1, 0, .float16⟩, false⟩, [0]⟩, 1, Nat.one_pos,
      true, true⟩
  refine LayerRetrieval.not_keepsProtocol_of_raised ?_
    (h e [1, 2] none none ⟨fun _ => none, true, fun _ _ _ => none, fun _ => .ok []⟩)
  decide +kernel

end RetrievingEngine

end LMCache
