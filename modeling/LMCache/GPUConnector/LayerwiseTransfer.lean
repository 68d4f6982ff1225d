/-
# LMCache.GPUConnector.LayerwiseTransfer — moving the KV cache of chunks layer by layer.

Source: `VLLMPagedMemLayerwiseGPUConnector` and `batched_from_gpu` of
`VLLMBufferLayerwiseGPUConnector` in `v1/gpu_connector.py`.

vLLM's paged memory has a row for each slot of each layer, the K and V of one token, and a request
has a slot for each of its tokens.  The connectors move the rows of some ranges of the tokens
between the paged memory and the memory objects of the chunks.  Both gather the slots of the
ranges, without the gaps between them, into one list, by which `single_layer_kv_transfer` copies
between the paged memory and a buffer: row `j` of the buffer goes with slot `j` of the list.  Where
a chunk is in the buffer is a matter of each connector: the one of the paged memory takes the
difference between the start of the chunk and that of the first one, the other one adds the lengths
up.
-/
import LMCache.Lib.Scatter
import LMCache.Memory.MemoryObj

namespace LMCache.GPUConnector

open LMCache.Lib LMCache.Memory

/-! ## The data -/

/-- The K and V of one token in one layer, or its MLA row, as bytes. -/
abbrev KVRow := List UInt8

/-- A memory object of one layer and one chunk: the rows of its tensor, and what of its metadata the
connectors look at. -/
structure LayerObj where
  rows : List KVRow
  fmt : MemoryFormat
  cachedPositions : Option (List Nat) := none
  deriving DecidableEq

/-- The paged memory: for each layer the row of each slot.  K and V of a layer may be its first
dimension or its second. -/
structure KVCaches where
  twoMajor : Bool
  layers : List (Nat → KVRow)

/-- `self.tensor.copy_(src)`: as many rows, or one that is repeated. -/
def copyRows (dst src : List KVRow) : Except PyError (List KVRow) :=
  if src.length = dst.length then .ok src
  else
    match src with
    | [row] => .ok (List.replicate dst.length row)
    | _ => .error (.runtimeError "The size of tensor a must match the size of tensor b")

/-- `tensor[start:stop].copy_(src)`. -/
def copyIntoSlice (tensor : List KVRow) (start stop : Nat) (src : List KVRow) :
    Except PyError (List KVRow) := do
  let rows ← copyRows (slice tensor start stop) src
  .ok (tensor.take start ++ rows ++ tensor.drop (start + rows.length))

/-- `torch.cat` of the slices of `slot_mapping`. -/
def slotMappingFull (slotMapping : List Nat) (starts ends : List Nat) : Except PyError (List Nat) :=
  match starts.zip ends with
  | [] => .error (.runtimeError "torch.cat(): expected a non-empty list of Tensors")
  | ranges => .ok (ranges.flatMap fun r => slice slotMapping r.1 r.2)

/-- `list[i]`. -/
def getItem {α : Type} (list : List α) (i : Nat) : Except PyError α :=
  match list[i]? with
  | some a => .ok a
  | none => .error (.indexError "list index out of range")

/-- Copy the parts of a buffer to the memory objects of a layer. -/
def copyFromBuffer (buffer : List KVRow) :
    List (Nat × Nat) → List LayerObj → Except PyError (List LayerObj)
  | part :: parts, obj :: objs => do
    let rows ← copyRows obj.rows (slice buffer part.1 part.2)
    let copied ← copyFromBuffer buffer parts objs
    .ok ({ obj with rows := rows } :: copied)
  | _, objs => .ok objs

/-! ### Copying -/

/-- Only rows of the source are copied. -/
theorem copyRows_subset {dst src rows : List KVRow} (h : copyRows dst src = .ok rows) :
    rows ⊆ src := by
  unfold copyRows at h
  split at h
  · cases h
    exact List.Subset.refl _
  · split at h
    · cases h
      -- one row, repeated
      intro row hrow
      rw [List.eq_of_mem_replicate hrow]
      exact List.mem_singleton_self _
    · cases h

theorem copyRows_of_length {dst src : List KVRow} (h : src.length = dst.length) :
    copyRows dst src = .ok src := by
  unfold copyRows
  rw [if_pos h]

/-- The parts of a buffer that have the sizes of the memory objects are copied to them. -/
theorem copyFromBuffer_of_fits {buffer : List KVRow} {parts : List (Nat × Nat)}
    {objs : List LayerObj}
    (h : List.Forall₂ (fun part obj => (slice buffer part.1 part.2).length = obj.rows.length)
      parts objs) :
    ∃ out, copyFromBuffer buffer parts objs = .ok out ∧
      out.map LayerObj.rows = parts.map fun part => slice buffer part.1 part.2 := by
  induction h with
  | nil => exact ⟨[], rfl, rfl⟩
  | @cons part obj parts objs hlength hrest ih =>
    obtain ⟨out, hout, hrows⟩ := ih
    refine ⟨{ obj with rows := slice buffer part.1 part.2 } :: out, ?_, ?_⟩
    · rw [copyFromBuffer, copyRows_of_length hlength, hout]
      rfl
    · rw [List.map_cons, hrows, List.map_cons]

/-- A memory object gets rows of its part of the buffer only. -/
theorem copyFromBuffer_subset {buffer : List KVRow} {parts : List (Nat × Nat)}
    {objs out : List LayerObj} (h : copyFromBuffer buffer parts objs = .ok out)
    (hlength : parts.length = objs.length) :
    List.Forall₂ (fun part rows => rows ⊆ slice buffer part.1 part.2) parts
      (out.map LayerObj.rows) := by
  induction parts generalizing objs out with
  | nil =>
    rw [List.length_eq_zero_iff.mp hlength.symm] at h
    cases h
    exact List.Forall₂.nil
  | cons part parts ih =>
    match objs with
    | obj :: objs =>
      rw [copyFromBuffer, bind_eq_ok] at h
      obtain ⟨rows, hrows, h⟩ := h
      obtain ⟨copied, hcopied, h⟩ := bind_eq_ok.mp h
      cases h
      rw [List.map_cons]
      apply List.Forall₂.cons
      · exact copyRows_subset hrows
      · exact ih hcopied (Nat.succ.inj hlength)

/-- The rounds over the layers, by number, are rounds over the layers themselves. -/
theorem mapM_getItem {α β γ : Type} {as : List α} {bs : List β} (f : α → β → Except PyError γ)
    {n : Nat} (ha : as.length = n) (hb : bs.length = n) :
    (List.range n).mapM (fun i => do
      let a ← getItem as i
      let b ← getItem bs i
      f a b) = (as.zip bs).mapM fun p => f p.1 p.2 := by
  -- from any number on
  have hrange' : ∀ k i, i + k = n →
      (List.range' i k).mapM (fun i => do
        let a ← getItem as i
        let b ← getItem bs i
        f a b) = ((as.drop i).zip (bs.drop i)).mapM fun p => f p.1 p.2 := by
    intro k
    induction k with
    | zero =>
      intro i hi
      rw [List.drop_eq_nil_of_le (by omega)]
      rfl
    | succ k ih =>
      intro i hi
      have hia : i < as.length := by omega
      have hib : i < bs.length := by omega
      rw [List.range'_succ, List.mapM_cons, ih (i + 1) (by omega), List.drop_eq_getElem_cons hia,
        List.drop_eq_getElem_cons hib, List.zip_cons_cons, List.mapM_cons]
      simp only [getItem, List.getElem?_eq_getElem hia, List.getElem?_eq_getElem hib]
      rfl
  rw [List.range_eq_range', hrange' n 0 (Nat.zero_add n), List.drop_zero, List.drop_zero]

/-- A loop whose rounds return returns. -/
theorem exists_mapM_eq_ok {α β γ : Type} {f : α → Except PyError β} {g : β → γ} {w : α → γ}
    {as : List α} (h : ∀ a ∈ as, ∃ b, f a = .ok b ∧ g b = w a) :
    ∃ bs, as.mapM f = .ok bs ∧ bs.map g = as.map w := by
  induction as with
  | nil => exact ⟨[], rfl, rfl⟩
  | cons a as ih =>
    obtain ⟨⟨b, hb, hgb⟩, h⟩ := List.forall_mem_cons.mp h
    obtain ⟨bs, hbs, hgbs⟩ := ih h
    refine ⟨b :: bs, ?_, ?_⟩
    · rw [List.mapM_cons, hb, hbs]
      rfl
    · rw [List.map_cons, hgb, hgbs, List.map_cons]

/-! ## The connector of the paged memory -/

/-- `VLLMPagedMemLayerwiseGPUConnector`. -/
structure PagedLayerwiseConnector where
  numLayers : Nat
  useGpu : Bool
  useMla : Bool
  hasGpuBufferAllocator : Bool := false
  /-- `vllm_two_major`, if the attribute is there. -/
  vllmTwoMajor : Option Bool := none
  deriving DecidableEq, Repr

namespace PagedLayerwiseConnector

/-- `_lazy_initialize_buffer`. -/
def lazyInitializeBuffer (c : PagedLayerwiseConnector) (kvcaches : KVCaches) :
    Except PyError PagedLayerwiseConnector :=
  if c.useGpu ∧ c.hasGpuBufferAllocator = false then do
    let _ ← getItem kvcaches.layers 0
    .ok { c with
      hasGpuBufferAllocator := true
      vllmTwoMajor := some (if c.useMla then false else kvcaches.twoMajor) }
  else .ok c

/-- `self.vllm_two_major`, an argument of every transfer. -/
def getVllmTwoMajor (c : PagedLayerwiseConnector) : Except PyError Bool :=
  match c.vllmTwoMajor with
  | some twoMajor => .ok twoMajor
  | none => .error (.attributeError
      "'VLLMPagedMemLayerwiseGPUConnector' object has no attribute 'vllm_two_major'")

/-- `single_layer_kv_transfer` from the paged memory. -/
def transferFrom (c : PagedLayerwiseConnector) (layer : Nat → KVRow) (slots : List Nat) :
    Except PyError (List KVRow) := do
  let _ ← c.getVllmTwoMajor
  .ok (slots.map layer)

/-- `single_layer_kv_transfer` to the paged memory. -/
def transferTo (c : PagedLayerwiseConnector) (layer : Nat → KVRow) (slots : List Nat)
    (rows : List KVRow) : Except PyError (Nat → KVRow) := do
  let _ ← c.getVllmTwoMajor
  .ok (scatter layer slots rows)

/-- The format the objects have: `KV_T2D` or `KV_MLA_FMT`. -/
def fmt (c : PagedLayerwiseConnector) : MemoryFormat := if c.useMla then .KV_MLA_FMT else .KV_T2D

/-- `memory_obj.metadata.fmt = MemoryFormat.KV_MLA_FMT` -/
def setFormat (c : PagedLayerwiseConnector) (obj : LayerObj) : LayerObj :=
  if c.useMla then { obj with fmt := .KV_MLA_FMT } else obj

/-- The chunks of a layer, without the buffer. -/
def storeDirectly (c : PagedLayerwiseConnector) (layer : Nat → KVRow) (slotMapping : List Nat) :
    List (Nat × Nat) → List LayerObj → Except PyError (List LayerObj)
  | r :: ranges, obj :: objs => do
    let rows ← c.transferFrom layer (slice slotMapping r.1 r.2)
    let stored ← c.storeDirectly layer slotMapping ranges objs
    .ok ({ obj with rows := rows } :: stored)
  | _, objs => .ok objs

/-- Where the chunks are in the buffer: `start - offset : end - offset`. -/
def bufferParts (starts ends : List Nat) : List (Nat × Nat) :=
  (starts.zip ends).map fun r => (r.1 - starts.headD 0, r.2 - starts.headD 0)

/-- The turn of `batched_from_gpu` for one layer. -/
def storeLayer (c : PagedLayerwiseConnector) (layer : Nat → KVRow) (slotMapping slots : List Nat)
    (objs : List LayerObj) (starts ends : List Nat) : Except PyError (List LayerObj) := do
  let stored ←
    if c.useGpu then do
      let buffer ← c.transferFrom layer slots
      copyFromBuffer buffer (bufferParts starts ends) objs
    else c.storeDirectly layer slotMapping (starts.zip ends) objs
  .ok (stored.map c.setFormat)

/-- `batched_from_gpu`, run to its end: the memory objects as they are then.  `room` says whether
the allocator of the GPU buffer has room for this one. -/
def batchedFromGpu (c : PagedLayerwiseConnector) (room : Bool) (kvcaches : KVCaches)
    (slotMapping : List Nat) (memoryObjs : List (List LayerObj)) (starts ends : List Nat) :
    Except PyError (List (List LayerObj)) := do
  let c ← c.lazyInitializeBuffer kvcaches
  let slots ← slotMappingFull slotMapping starts ends
  if c.useGpu ∧ room = false then
    .error (.assertionError "Failed to allocate GPU buffer in GPUConnector")
  else
    (List.range c.numLayers).mapM fun layerId => do
      let objs ← getItem memoryObjs layerId
      let layer ← getItem kvcaches.layers layerId
      c.storeLayer layer slotMapping slots objs starts ends

/-- `assert memory_obj.metadata.fmt == …` -/
def assertFormat (c : PagedLayerwiseConnector) (obj : LayerObj) : Except PyError Unit :=
  if obj.fmt = c.fmt then .ok () else .error (.assertionError "Expected memory format")

/-- The chunks of a layer are copied into the buffer. -/
def copyToBuffer (c : PagedLayerwiseConnector) (buffer : List KVRow) :
    List (Nat × Nat) → List LayerObj → Except PyError (List KVRow)
  | part :: parts, obj :: objs => do
    let _ ← c.assertFormat obj
    let buffer ← copyIntoSlice buffer part.1 part.2 obj.rows
    c.copyToBuffer buffer parts objs
  | _, _ => .ok buffer

/-- The chunks of a layer, without the buffer: each with the slots of all. -/
def loadDirectly (c : PagedLayerwiseConnector) (layer : Nat → KVRow) (slots : List Nat) :
    List (Nat × Nat) → List LayerObj → Except PyError (Nat → KVRow)
  | _ :: ranges, obj :: objs => do
    let _ ← c.assertFormat obj
    let layer ← c.transferTo layer slots obj.rows
    c.loadDirectly layer slots ranges objs
  | _, _ => .ok layer

/-- The turn of `batched_to_gpu` for one layer: the layer, and the buffer as it is left. -/
def loadLayer (c : PagedLayerwiseConnector) (layer : Nat → KVRow) (slots : List Nat)
    (buffer : List KVRow) (objs : List LayerObj) (starts ends : List Nat) :
    Except PyError ((Nat → KVRow) × List KVRow) :=
  if c.useGpu then do
    let buffer ← c.copyToBuffer buffer (bufferParts starts ends) objs
    let layer ← c.transferTo layer slots buffer
    .ok (layer, buffer)
  else do
    let layer ← c.loadDirectly layer slots (starts.zip ends) objs
    .ok (layer, buffer)

/-- The layers, one after the other, over one buffer. -/
def loadLayers (c : PagedLayerwiseConnector) (kvcaches : KVCaches) (slots : List Nat)
    (memoryObjs : List (List LayerObj)) (starts ends : List Nat) :
    List KVRow → List Nat → Except PyError (List (Nat → KVRow))
  | _, [] => .ok []
  | buffer, layerId :: layerIds => do
    let objs ← getItem memoryObjs layerId
    let layer ← getItem kvcaches.layers layerId
    let loaded ← c.loadLayer layer slots buffer objs starts ends
    let rest ← c.loadLayers kvcaches slots memoryObjs starts ends loaded.2 layerIds
    .ok (loaded.1 :: rest)

/-- `batched_to_gpu`, run to its end, with the memory objects of each layer sent to it: the layers
as they are then.  `contents` is what the GPU buffer holds when it is allocated. -/
def batchedToGpu (c : PagedLayerwiseConnector) (room : Bool) (contents : Nat → KVRow)
    (kvcaches : KVCaches) (slotMapping : List Nat) (memoryObjs : List (List LayerObj))
    (starts ends : List Nat) : Except PyError (List (Nat → KVRow)) := do
  let c ← c.lazyInitializeBuffer kvcaches
  let slots ← slotMappingFull slotMapping starts ends
  if c.useGpu ∧ room = false then
    .error (.assertionError "Failed to allocate GPU buffer in GPUConnector")
  else
    let buffer := if c.useGpu then (List.range slots.length).map contents else []
    c.loadLayers kvcaches slots memoryObjs starts ends buffer (List.range c.numLayers)

end PagedLayerwiseConnector

/-! ## The connector with its own buffer -/

/-- `VLLMBufferLayerwiseGPUConnector`. -/
structure BufferLayerwiseConnector where
  numLayers : Nat
  hasGpuBufferAllocator : Bool := false
  /-- Hard-coded in the constructor. -/
  cachePositions : Bool := true
  deriving DecidableEq, Repr

namespace BufferLayerwiseConnector

/-- `buf_starts_ends`: the lengths of the ranges, added up. -/
def bufStartsEnds (starts ends : List Nat) : List (Nat × Nat) :=
  cuts 0 ((starts.zip ends).map fun r => r.2 - r.1)

/-- `old_positions_chunks`, with an entry for each range if the positions are cached. -/
def oldPositionsChunks (c : BufferLayerwiseConnector) (starts ends : List Nat) : List (List Nat) :=
  if c.cachePositions then (starts.zip ends).map fun r => List.range' r.1 (r.2 - r.1) else []

/-- `memory_obj.metadata.cached_positions = old_positions` -/
def setCachedPositions (objs : List LayerObj) (positions : List (List Nat)) : List LayerObj :=
  (objs.zip positions).map (fun p => { p.1 with cachedPositions := some p.2 }) ++
    objs.drop positions.length

/-- The turn of `batched_from_gpu` for one layer. -/
def storeLayer (c : BufferLayerwiseConnector) (layer : Nat → KVRow) (slots : List Nat)
    (objs : List LayerObj) (starts ends : List Nat) : Except PyError (List LayerObj) := do
  let positions := c.oldPositionsChunks starts ends
  -- the three lists are zipped, so without positions nothing is copied
  let stored ← copyFromBuffer (slots.map layer)
    ((bufStartsEnds starts ends).take positions.length) objs
  .ok (if c.cachePositions then setCachedPositions stored positions else stored)

/-- `kv_caches[0]`: the allocator of the GPU buffer has its size from there, and the positions have
their device. -/
def lookAtFirstLayer (c : BufferLayerwiseConnector) (kvcaches : KVCaches)
    (ranges : List (Nat × Nat)) : Except PyError Unit :=
  if c.hasGpuBufferAllocator = false ∨ c.cachePositions = true ∧ ranges ≠ [] then
    (getItem kvcaches.layers 0).map fun _ => ()
  else .ok ()

/-- `batched_from_gpu`, run to its end: the memory objects as they are then.  `room` says whether
the allocator of the GPU buffer has room for this one. -/
def batchedFromGpu (c : BufferLayerwiseConnector) (room : Bool) (kvcaches : KVCaches)
    (slotMapping : List Nat) (memoryObjs : List (List LayerObj)) (starts ends : List Nat) :
    Except PyError (List (List LayerObj)) := do
  let _ ← c.lookAtFirstLayer kvcaches (starts.zip ends)
  let slots ← slotMappingFull slotMapping starts ends
  if room = false then
    .error (.assertionError "Failed to allocate GPU buffer in GPUConnector")
  else
    (List.range c.numLayers).mapM fun layerId => do
      let objs ← getItem memoryObjs layerId
      let layer ← getItem kvcaches.layers layerId
      c.storeLayer layer slots objs starts ends

end BufferLayerwiseConnector

/-! ## What a transfer is to do -/

/-- A request whose tokens have slots of their own, and ranges of its tokens, one after another. -/
structure LayerRequest where
  slotMapping : List Nat
  distinct : slotMapping.Nodup
  ranges : List (Nat × Nat)
  increasing : ranges.Pairwise fun a b => a.2 ≤ b.1
  within : ∀ r ∈ ranges, r.1 < r.2 ∧ r.2 ≤ slotMapping.length

namespace LayerRequest

def starts (q : LayerRequest) : List Nat := q.ranges.map Prod.fst

def ends (q : LayerRequest) : List Nat := q.ranges.map Prod.snd

/-- The slots of a range: `slot_mapping[start:end]`. -/
def slots (q : LayerRequest) (r : Nat × Nat) : List Nat := slice q.slotMapping r.1 r.2

/-- The slots of all ranges. -/
def allSlots (q : LayerRequest) : List Nat := q.ranges.flatMap q.slots

/-- The lengths of the ranges. -/
def lengths (q : LayerRequest) : List Nat := q.ranges.map fun r => r.2 - r.1

/-- There are no gaps between the ranges. -/
def Contiguous (q : LayerRequest) : Prop := q.ranges.IsChain fun a b => a.2 = b.1

instance (q : LayerRequest) : Decidable q.Contiguous :=
  inferInstanceAs (Decidable (q.ranges.IsChain fun a b => a.2 = b.1))

/-- Memory objects of a layer, each with a row for each token of its range. -/
def Fits (q : LayerRequest) (objs : List LayerObj) : Prop :=
  List.Forall₂ (fun r obj => obj.rows.length = r.2 - r.1) q.ranges objs

/-- `layer'` is the layer with the rows of the memory objects in the slots of their ranges, and else
as it was. -/
def Loaded (q : LayerRequest) (layer : Nat → KVRow) (objs : List LayerObj)
    (layer' : Nat → KVRow) : Prop :=
  List.Forall₂ (fun r obj => (q.slots r).map layer' = obj.rows) q.ranges objs ∧
    ∀ slot, (∀ r ∈ q.ranges, slot ∉ q.slots r) → layer' slot = layer slot

/-- Memory objects for the ranges, with nothing in them yet. -/
def blankObjs (q : LayerRequest) : List LayerObj :=
  q.ranges.map fun r => { rows := List.replicate (r.2 - r.1) [], fmt := .KV_T2D }

/-- The rows the memory objects of each layer are to get. -/
def storedRows (q : LayerRequest) (kvcaches : KVCaches) : List (List (List KVRow)) :=
  kvcaches.layers.map fun layer => q.ranges.map fun r => (q.slots r).map layer

end LayerRequest

/-- A store of the connector of the paged memory returns, with the right rows. -/
def PagedLayerwiseConnector.StoresRight (c : PagedLayerwiseConnector) (room : Bool)
    (q : LayerRequest) : Prop :=
  ∀ (kvcaches : KVCaches) (memoryObjs : List (List LayerObj)),
    kvcaches.layers.length = c.numLayers → memoryObjs.length = c.numLayers →
    (∀ objs ∈ memoryObjs, q.Fits objs) →
    ∃ out, c.batchedFromGpu room kvcaches q.slotMapping memoryObjs q.starts q.ends = .ok out ∧
      out.map (·.map LayerObj.rows) = q.storedRows kvcaches

/-- A load of the connector of the paged memory returns, with the rows in the right slots. -/
def PagedLayerwiseConnector.LoadsRight (c : PagedLayerwiseConnector) (room : Bool)
    (q : LayerRequest) : Prop :=
  ∀ (contents : Nat → KVRow) (kvcaches : KVCaches) (memoryObjs : List (List LayerObj)),
    kvcaches.layers.length = c.numLayers → memoryObjs.length = c.numLayers →
    (∀ objs ∈ memoryObjs, q.Fits objs ∧ ∀ obj ∈ objs, obj.fmt = c.fmt) →
    ∃ out, c.batchedToGpu room contents kvcaches q.slotMapping memoryObjs q.starts q.ends =
        .ok out ∧
      List.Forall₂ (fun p layer' => q.Loaded p.1 p.2 layer') (kvcaches.layers.zip memoryObjs) out

/-- A store of the connector with its own buffer returns, with the right rows. -/
def BufferLayerwiseConnector.StoresRight (c : BufferLayerwiseConnector) (room : Bool)
    (q : LayerRequest) : Prop :=
  ∀ (kvcaches : KVCaches) (memoryObjs : List (List LayerObj)),
    kvcaches.layers.length = c.numLayers → memoryObjs.length = c.numLayers →
    (∀ objs ∈ memoryObjs, q.Fits objs) →
    ∃ out, c.batchedFromGpu room kvcaches q.slotMapping memoryObjs q.starts q.ends = .ok out ∧
      out.map (·.map LayerObj.rows) = q.storedRows kvcaches

/-- The connector as it is constructed, or as an earlier transfer has left it. -/
def PagedLayerwiseConnector.OfConfig (c : PagedLayerwiseConnector) (numLayers : Nat)
    (useGpu useMla : Bool) : Prop :=
  c = { numLayers, useGpu, useMla } ∨
    ∃ kvcaches, lazyInitializeBuffer { numLayers, useGpu, useMla } kvcaches = .ok c

/-- **The transfers of a request move the right tokens.** -/
def MovesRightTokens (numLayers : Nat) (useGpu useMla room : Bool) (q : LayerRequest) : Prop :=
  (∀ c : PagedLayerwiseConnector, c.OfConfig numLayers useGpu useMla →
    c.StoresRight room q ∧ c.LoadsRight room q) ∧
  ∀ hasGpuBufferAllocator,
    BufferLayerwiseConnector.StoresRight { numLayers, hasGpuBufferAllocator } room q

/-! ## The ranges and the buffer -/

namespace LayerRequest

variable {q : LayerRequest} {r : Nat × Nat}

theorem zip_starts_ends (q : LayerRequest) : q.starts.zip q.ends = q.ranges := by
  show (q.ranges.map Prod.fst).zip (q.ranges.map Prod.snd) = q.ranges
  rw [List.zip_map']
  exact List.map_id q.ranges

theorem length_slots (h : r ∈ q.ranges) : (q.slots r).length = r.2 - r.1 :=
  length_slice_of_le (q.within r h).2

theorem lengths_eq (q : LayerRequest) : q.lengths = q.ranges.map fun r => (q.slots r).length := by
  apply List.map_congr_left
  intro r hr
  exact (length_slots hr).symm

theorem slotMappingFull_eq (h : q.ranges ≠ []) :
    slotMappingFull q.slotMapping q.starts q.ends = .ok q.allSlots := by
  unfold slotMappingFull
  rw [zip_starts_ends]
  split
  · contradiction
  · rfl

/-- Without ranges there is nothing to put together. -/
theorem slotMappingFull_ne_ok (h : q.ranges = []) (slots : List Nat) :
    slotMappingFull q.slotMapping q.starts q.ends ≠ .ok slots := by
  unfold slotMappingFull
  rw [zip_starts_ends, h]
  rintro ⟨⟩

/-- No slot is there twice. -/
theorem allSlots_nodup (q : LayerRequest) : q.allSlots.Nodup := by
  have hsublist : q.allSlots.Sublist (q.slotMapping.drop 0) :=
    flatMap_slice_sublist q.increasing (fun r hr => (q.within r hr).1.le) fun r _ =>
      Nat.zero_le r.1
  exact hsublist.nodup q.distinct

/-- What is gathered for all ranges is what is gathered for each, one behind the other. -/
theorem map_allSlots {ρ : Type} (q : LayerRequest) (f : Nat → ρ) :
    q.allSlots.map f = (q.ranges.map fun r => (q.slots r).map f).flatten := by
  rw [allSlots, List.map_flatMap, List.flatMap_def]

/-- The buffer, cut by the lengths of the ranges. -/
theorem map_slice_allSlots {ρ : Type} (q : LayerRequest) (f : Nat → ρ) :
    (cuts 0 q.lengths).map (fun part => slice (q.allSlots.map f) part.1 part.2) =
      q.ranges.map fun r => (q.slots r).map f := by
  have hcuts := map_slice_cuts [] (q.ranges.map fun r => (q.slots r).map f)
  rw [List.map_map] at hcuts
  rw [map_allSlots, lengths_eq]
  simpa only [Function.comp_def, List.length_map, List.nil_append, List.length_nil] using hcuts

/-- Without gaps, the differences to the first start are the lengths added up. -/
theorem map_sub_eq_cuts {offset start : Nat} {ranges : List (Nat × Nat)}
    (hchain : (r :: ranges).IsChain fun a b => a.2 = b.1) (hle : ∀ x ∈ r :: ranges, x.1 < x.2)
    (hstart : r.1 = offset + start) :
    (r :: ranges).map (fun r => (r.1 - offset, r.2 - offset)) =
      cuts start ((r :: ranges).map fun r => r.2 - r.1) := by
  induction ranges generalizing r start with
  | nil =>
    have hr := hle r List.mem_cons_self
    simp only [List.map_cons, List.map_nil, cuts, List.cons.injEq, Prod.mk.injEq, and_true]
    omega
  | cons r' ranges ih =>
    obtain ⟨hnext, hchain⟩ := List.isChain_cons_cons.mp hchain
    obtain ⟨hr, hle⟩ := List.forall_mem_cons.mp hle
    have hend : r'.1 = offset + (start + (r.2 - r.1)) := by omega
    rw [List.map_cons, ih hchain hle hend, List.map_cons (a := r), cuts]
    congr 2
    · omega
    · omega

theorem fits_blankObjs (q : LayerRequest) : q.Fits q.blankObjs := by
  apply List.forall₂_map_right_iff.mpr
  apply List.forall₂_same.mpr
  intro r _
  exact List.length_replicate

open PagedLayerwiseConnector in
theorem bufferParts_of_contiguous (h : q.Contiguous) :
    bufferParts q.starts q.ends = cuts 0 q.lengths := by
  unfold bufferParts
  rw [zip_starts_ends, lengths, starts]
  have hchain : q.ranges.IsChain fun a b => a.2 = b.1 := h
  have hwithin := q.within
  revert hchain hwithin
  cases q.ranges with
  | nil => intros; rfl
  | cons r ranges =>
    intro hchain hwithin
    exact map_sub_eq_cuts hchain (fun r hr => (hwithin r hr).1) (Nat.add_zero r.1).symm

end LayerRequest

/-! ## Stores -/

section Store

variable {q : LayerRequest} {objs : List LayerObj} {layer : Nat → KVRow}

/-- With the parts of the lengths, each memory object gets the rows of its range. -/
theorem copyFromBuffer_cuts (hfits : q.Fits objs) (layer : Nat → KVRow) :
    ∃ out, copyFromBuffer (q.allSlots.map layer) (cuts 0 q.lengths) objs = .ok out ∧
      out.map LayerObj.rows = q.ranges.map fun r => (q.slots r).map layer := by
  rw [← q.map_slice_allSlots layer]
  apply copyFromBuffer_of_fits
  refine (forall₂_eq_iff (f := fun part : Nat × Nat =>
    (slice (q.allSlots.map layer) part.1 part.2).length) (g := fun obj : LayerObj =>
    obj.rows.length)).mpr ?_
  have hobjs : q.lengths = objs.map fun obj => obj.rows.length :=
    forall₂_eq_iff.mp (hfits.imp fun _ _ h => h.symm)
  have hparts := congrArg (List.map List.length) (q.map_slice_allSlots layer)
  simp only [List.map_map, Function.comp_def, List.length_map] at hparts
  rw [← hobjs]
  exact hparts.trans q.lengths_eq.symm

/-- The layers of a store, one after the other. -/
theorem exists_storeLayers {store : List LayerObj → (Nat → KVRow) → Except PyError (List LayerObj)}
    (hstore : ∀ objs layer, q.Fits objs → ∃ out, store objs layer = .ok out ∧
      out.map LayerObj.rows = q.ranges.map fun r => (q.slots r).map layer)
    {kvcaches : KVCaches} {memoryObjs : List (List LayerObj)} {n : Nat}
    (hlayers : kvcaches.layers.length = n) (hobjs : memoryObjs.length = n)
    (hfits : ∀ objs ∈ memoryObjs, q.Fits objs) :
    ∃ out, ((List.range n).mapM fun layerId => do
        let objs ← getItem memoryObjs layerId
        let layer ← getItem kvcaches.layers layerId
        store objs layer) = .ok out ∧
      out.map (·.map LayerObj.rows) = q.storedRows kvcaches := by
  rw [mapM_getItem store hobjs hlayers]
  have heach : ∀ p ∈ memoryObjs.zip kvcaches.layers, ∃ out, store p.1 p.2 = .ok out ∧
      out.map LayerObj.rows = q.ranges.map fun r => (q.slots r).map p.2 := by
    rintro ⟨objs, layer⟩ hp
    exact hstore objs layer (hfits objs (List.of_mem_zip hp).1)
  obtain ⟨out, hout, hrows⟩ := exists_mapM_eq_ok heach
  refine ⟨out, hout, hrows.trans ?_⟩
  -- the second of each pair is the layer
  have hsnd : (memoryObjs.zip kvcaches.layers).map Prod.snd = kvcaches.layers :=
    List.map_snd_zip (hlayers.trans hobjs.symm).le
  rw [LayerRequest.storedRows, ← hsnd, List.map_map, hsnd]
  rfl

namespace PagedLayerwiseConnector

variable {c : PagedLayerwiseConnector} {n : Nat} {useMla : Bool}

@[simp] theorem setFormat_rows (c : PagedLayerwiseConnector) (obj : LayerObj) :
    (c.setFormat obj).rows = obj.rows := by
  unfold setFormat
  split <;> rfl

theorem transferFrom_of_initialized {twoMajor : Bool} (h : c.vllmTwoMajor = some twoMajor)
    (layer : Nat → KVRow) (slots : List Nat) :
    c.transferFrom layer slots = .ok (slots.map layer) := by
  unfold transferFrom getVllmTwoMajor
  rw [h]
  rfl

/-- What a transfer does not change. -/
theorem eq_of_ofConfig {useGpu : Bool} (h : c.OfConfig n useGpu useMla) :
    c.numLayers = n ∧ c.useGpu = useGpu ∧ c.useMla = useMla := by
  rcases h with rfl | ⟨kvcaches, h⟩
  · exact ⟨rfl, rfl, rfl⟩
  · unfold lazyInitializeBuffer at h
    split at h
    · obtain ⟨_, _, h⟩ := bind_eq_ok.mp h
      cases h
      exact ⟨rfl, rfl, rfl⟩
    · cases h
      exact ⟨rfl, rfl, rfl⟩

/-- With the GPU buffer, a transfer finds the connector initialised. -/
theorem lazyInitializeBuffer_ofConfig (h : c.OfConfig n true useMla) {kvcaches : KVCaches}
    (hlayers : kvcaches.layers ≠ []) :
    ∃ twoMajor, c.lazyInitializeBuffer kvcaches =
      .ok ⟨n, true, useMla, true, some twoMajor⟩ := by
  have hinit : ∀ kvcaches : KVCaches, kvcaches.layers ≠ [] →
      lazyInitializeBuffer ⟨n, true, useMla, false, none⟩ kvcaches =
        .ok ⟨n, true, useMla, true, some (if useMla then false else kvcaches.twoMajor)⟩ := by
    rintro ⟨twoMajor, _ | ⟨layer, layers⟩⟩ hne
    · contradiction
    · rfl
  rcases h with rfl | ⟨kvcaches', h⟩
  · exact ⟨_, hinit kvcaches hlayers⟩
  · -- only the first transfer changes it
    obtain ⟨_, hitem, h⟩ := bind_eq_ok.mp h
    cases h
    exact ⟨_, rfl⟩

theorem storeLayer_of_contiguous {twoMajor : Bool} (hcontiguous : q.Contiguous)
    (hfits : q.Fits objs) (layer : Nat → KVRow) :
    ∃ out, storeLayer ⟨n, true, useMla, true, some twoMajor⟩ layer q.slotMapping q.allSlots objs
        q.starts q.ends = .ok out ∧
      out.map LayerObj.rows = q.ranges.map fun r => (q.slots r).map layer := by
  obtain ⟨out, hout, hrows⟩ := copyFromBuffer_cuts hfits layer
  unfold storeLayer
  rw [if_pos rfl, transferFrom_of_initialized rfl, q.bufferParts_of_contiguous hcontiguous]
  refine ⟨out.map (setFormat ⟨n, true, useMla, true, some twoMajor⟩), ?_, ?_⟩
  · show (copyFromBuffer _ _ _ >>= _) = _
    rw [hout]
    rfl
  · rw [← hrows, List.map_map]
    apply List.map_congr_left
    intro obj _
    exact setFormat_rows _ obj

/-- **Stores of adjacent ranges.**  With the GPU buffer, the memory objects get the right rows. -/
theorem storesRight_of_contiguous (hc : c.OfConfig n true useMla) (hn : 0 < n)
    (hranges : q.ranges ≠ []) (hcontiguous : q.Contiguous) : c.StoresRight true q := by
  intro kvcaches memoryObjs hlayers hobjs hfits
  rw [(eq_of_ofConfig hc).1] at hlayers hobjs
  obtain ⟨twoMajor, hinit⟩ :=
    lazyInitializeBuffer_ofConfig hc (List.ne_nil_of_length_pos (hlayers ▸ hn))
  unfold batchedFromGpu
  rw [hinit, q.slotMappingFull_eq hranges]
  exact exists_storeLayers
    (fun objs layer hfits => storeLayer_of_contiguous hcontiguous hfits layer) hlayers hobjs hfits

end PagedLayerwiseConnector

end Store

/-! ## Stores with the lengths added up -/

namespace BufferLayerwiseConnector

variable {q : LayerRequest} {objs : List LayerObj} {c : BufferLayerwiseConnector}

/-- The positions are kept beside the rows. -/
theorem map_rows_setCachedPositions (objs : List LayerObj) (positions : List (List Nat)) :
    (setCachedPositions objs positions).map LayerObj.rows = objs.map LayerObj.rows := by
  unfold setCachedPositions
  induction objs generalizing positions with
  | nil => rw [List.drop_nil, List.zip_nil_left, List.map_nil, List.append_nil]
  | cons obj objs ih =>
    match positions with
    | [] => rfl
    | position :: positions =>
      simp only [List.zip_cons_cons, List.map_cons, List.cons_append, List.length_cons,
        List.drop_succ_cons, ih]

theorem storeLayer_of_fits (hc : c.cachePositions = true) (hfits : q.Fits objs)
    (layer : Nat → KVRow) :
    ∃ out, c.storeLayer layer q.allSlots objs q.starts q.ends = .ok out ∧
      out.map LayerObj.rows = q.ranges.map fun r => (q.slots r).map layer := by
  obtain ⟨out, hout, hrows⟩ := copyFromBuffer_cuts hfits layer
  unfold storeLayer oldPositionsChunks bufStartsEnds
  rw [q.zip_starts_ends, if_pos hc]
  -- there are positions for every range
  have htake : (cuts 0 (q.ranges.map fun r => r.2 - r.1)).take
      (q.ranges.map fun r => List.range' r.1 (r.2 - r.1)).length = cuts 0 q.lengths := by
    apply List.take_of_length_le
    rw [length_cuts, List.length_map, List.length_map]
  dsimp only
  rw [htake, hout]
  refine ⟨_, rfl, ?_⟩
  rw [if_pos hc, map_rows_setCachedPositions, hrows]

/-- **The other connector is right with gaps too.** -/
theorem storesRight_iff (hc : c.cachePositions = true) (room : Bool) (q : LayerRequest) :
    c.StoresRight room q ↔ room = true ∧ 0 < c.numLayers ∧ q.ranges ≠ [] := by
  constructor
  · intro h
    -- one store that returns is enough
    obtain ⟨out, hout, -⟩ := h ⟨false, List.replicate c.numLayers fun _ => []⟩
      (List.replicate c.numLayers q.blankObjs) List.length_replicate List.length_replicate
      (fun objs hobjs => List.eq_of_mem_replicate hobjs ▸ q.fits_blankObjs)
    unfold batchedFromGpu at hout
    rw [q.zip_starts_ends] at hout
    obtain ⟨_, hfirst, hout⟩ := bind_eq_ok.mp hout
    obtain ⟨slots, hslots, hout⟩ := bind_eq_ok.mp hout
    have hranges : q.ranges ≠ [] := by
      intro hranges
      exact q.slotMappingFull_ne_ok hranges slots hslots
    refine ⟨?_, ?_, hranges⟩
    · by_contra hroom
      rw [if_pos (Bool.eq_false_of_not_eq_true hroom)] at hout
      cases hout
    · by_contra hnone
      unfold lookAtFirstLayer at hfirst
      rw [if_pos (Or.inr ⟨hc, hranges⟩), Nat.eq_zero_of_not_pos hnone] at hfirst
      cases hfirst
  · rintro ⟨rfl, hn, hranges⟩ kvcaches memoryObjs hlayers hobjs hfits
    have hfirst : c.lookAtFirstLayer kvcaches q.ranges = .ok () := by
      obtain ⟨layer, layers, hcons⟩ := List.exists_cons_of_length_pos (hlayers ▸ hn)
      unfold lookAtFirstLayer
      rw [if_pos (Or.inr ⟨hc, hranges⟩), hcons]
      rfl
    unfold batchedFromGpu
    rw [q.zip_starts_ends, hfirst, q.slotMappingFull_eq hranges]
    exact exists_storeLayers (fun objs layer hfits => storeLayer_of_fits hc hfits layer) hlayers
      hobjs hfits

end BufferLayerwiseConnector

/-! ## Loads -/

namespace PagedLayerwiseConnector

variable {q : LayerRequest} {c : PagedLayerwiseConnector} {n : Nat} {useMla : Bool}

/-- A part in the middle of a tensor is overwritten. -/
theorem copyIntoSlice_middle (before middle after : List KVRow) {src : List KVRow}
    (hlength : src.length = middle.length) :
    copyIntoSlice (before ++ middle ++ after) before.length (before.length + middle.length) src =
      .ok (before ++ src ++ after) := by
  unfold copyIntoSlice
  rw [slice_append_append, copyRows_of_length hlength]
  show Except.ok _ = _
  rw [hlength, List.append_assoc before middle after, List.take_left, ← List.append_assoc before,
    ← List.length_append, List.drop_left]

variable {objs : List LayerObj}

/-- With the parts of the lengths, the buffer comes to hold the memory objects, one behind the
other. -/
theorem copyToBuffer_cuts (hfmt : ∀ obj ∈ objs, obj.fmt = c.fmt) (before buffer : List KVRow)
    (hlength : buffer.length = (objs.map fun obj => obj.rows.length).sum) :
    c.copyToBuffer (before ++ buffer) (cuts before.length (objs.map fun obj => obj.rows.length))
      objs = .ok (before ++ objs.flatMap LayerObj.rows) := by
  induction objs generalizing before buffer with
  | nil =>
    rw [List.map_nil, List.sum_nil, List.length_eq_zero_iff] at hlength
    rw [hlength]
    rfl
  | cons obj objs ih =>
    obtain ⟨hobj, hfmt⟩ := List.forall_mem_cons.mp hfmt
    rw [List.map_cons, List.sum_cons] at hlength
    -- what the object overwrites, and what is behind it
    have htake : (buffer.take obj.rows.length).length = obj.rows.length := by
      rw [List.length_take]
      omega
    have hdrop : (buffer.drop obj.rows.length).length =
        (objs.map fun obj => obj.rows.length).sum := by
      rw [List.length_drop]
      omega
    have hcopy := copyIntoSlice_middle before (buffer.take obj.rows.length)
      (buffer.drop obj.rows.length) htake.symm
    rw [htake, List.append_assoc, List.take_append_drop] at hcopy
    have hassert : c.assertFormat obj = .ok () := if_pos hobj
    rw [List.map_cons, cuts, copyToBuffer, hassert]
    show (copyIntoSlice _ _ _ _ >>= _) = _
    rw [hcopy]
    show c.copyToBuffer _ _ _ = _
    rw [← List.length_append, ih hfmt (before ++ obj.rows) _ hdrop, List.flatMap_cons,
      List.append_assoc]

/-- What is in the slots of all ranges is in the slots of each. -/
theorem forall₂_of_map_allSlots {layer : Nat → KVRow} (hfits : q.Fits objs)
    (h : q.allSlots.map layer = objs.flatMap LayerObj.rows) :
    List.Forall₂ (fun r obj => (q.slots r).map layer = obj.rows) q.ranges objs := by
  rw [forall₂_eq_iff (f := fun r => (q.slots r).map layer), ← q.map_slice_allSlots layer, h]
  have hobjs : q.lengths = (objs.map LayerObj.rows).map List.length := by
    rw [List.map_map]
    exact forall₂_eq_iff.mp (hfits.imp fun _ _ h => h.symm)
  rw [hobjs, List.flatMap_def]
  exact map_slice_cuts [] (objs.map LayerObj.rows)

theorem loadLayer_of_contiguous {twoMajor : Bool} (hcontiguous : q.Contiguous) (hfits : q.Fits objs)
    (hfmt : ∀ obj ∈ objs, obj.fmt = fmt ⟨n, true, useMla, true, some twoMajor⟩)
    (layer : Nat → KVRow) {buffer : List KVRow} (hbuffer : buffer.length = q.allSlots.length) :
    ∃ layer' buffer', loadLayer ⟨n, true, useMla, true, some twoMajor⟩ layer q.allSlots buffer objs
        q.starts q.ends = .ok (layer', buffer') ∧
      buffer'.length = q.allSlots.length ∧ q.Loaded layer objs layer' := by
  have hlengths : q.lengths = objs.map fun obj => obj.rows.length :=
    forall₂_eq_iff.mp (hfits.imp fun _ _ h => h.symm)
  have hsum : q.allSlots.length = (objs.map fun obj => obj.rows.length).sum := by
    rw [LayerRequest.allSlots, List.length_flatMap, ← q.lengths_eq, hlengths]
  have hcopy := copyToBuffer_cuts hfmt [] buffer (hbuffer.trans hsum)
  rw [List.nil_append, List.nil_append, List.length_nil, ← hlengths] at hcopy
  have hlength : (objs.flatMap LayerObj.rows).length = q.allSlots.length := by
    rw [List.length_flatMap, hsum]
  refine ⟨scatter layer q.allSlots (objs.flatMap LayerObj.rows), objs.flatMap LayerObj.rows, ?_,
    hlength, ?_, ?_⟩
  · unfold loadLayer
    rw [if_pos rfl, q.bufferParts_of_contiguous hcontiguous, hcopy]
    rfl
  · apply forall₂_of_map_allSlots hfits
    exact map_scatter q.allSlots_nodup layer hlength
  · intro slot hslot
    apply scatter_of_notMem
    intro hmem
    obtain ⟨r, hr, hslotr⟩ := List.mem_flatMap.mp hmem
    exact hslot r hr hslotr

/-- **The layers of a load, from any number on**: the buffer keeps its size from one to the next. -/
theorem loadLayers_of_loadLayer {kvcaches : KVCaches} {memoryObjs : List (List LayerObj)}
    (hlayers : kvcaches.layers.length = n) (hobjs : memoryObjs.length = n)
    (hload : ∀ objs ∈ memoryObjs, ∀ layer buffer, buffer.length = q.allSlots.length →
      ∃ layer' buffer', c.loadLayer layer q.allSlots buffer objs q.starts q.ends =
          .ok (layer', buffer') ∧
        buffer'.length = q.allSlots.length ∧ q.Loaded layer objs layer') :
    ∀ k i buffer, i + k = n → buffer.length = q.allSlots.length →
      ∃ out, c.loadLayers kvcaches q.allSlots memoryObjs q.starts q.ends buffer (List.range' i k) =
          .ok out ∧
        List.Forall₂ (fun p layer' => q.Loaded p.1 p.2 layer')
          ((kvcaches.layers.drop i).zip (memoryObjs.drop i)) out := by
  intro k
  induction k with
  | zero =>
    intro i buffer hi _
    refine ⟨[], rfl, ?_⟩
    rw [List.drop_eq_nil_of_le (by omega)]
    exact List.Forall₂.nil
  | succ k ih =>
    intro i buffer hi hbuffer
    have hil : i < kvcaches.layers.length := by omega
    have hio : i < memoryObjs.length := by omega
    obtain ⟨layer', buffer', hlayer, hbuffer', hloaded⟩ :=
      hload memoryObjs[i] (List.getElem_mem hio) kvcaches.layers[i] buffer hbuffer
    obtain ⟨out, hout, hrest⟩ := ih (i + 1) buffer' (by omega) hbuffer'
    refine ⟨layer' :: out, ?_, ?_⟩
    · rw [List.range'_succ, loadLayers]
      simp only [getItem, List.getElem?_eq_getElem hil, List.getElem?_eq_getElem hio]
      show (c.loadLayer _ _ _ _ _ _ >>= _) = _
      rw [hlayer]
      show (c.loadLayers _ _ _ _ _ _ _ >>= _) = _
      rw [hout]
      rfl
    · rw [List.drop_eq_getElem_cons hil, List.drop_eq_getElem_cons hio, List.zip_cons_cons]
      exact List.Forall₂.cons hloaded hrest

/-- **Loads of adjacent ranges.**  With the GPU buffer, the rows go to the right slots. -/
theorem loadsRight_of_contiguous (hc : c.OfConfig n true useMla) (hn : 0 < n)
    (hranges : q.ranges ≠ []) (hcontiguous : q.Contiguous) : c.LoadsRight true q := by
  intro contents kvcaches memoryObjs hlayers hobjs hfits
  obtain ⟨hnum, -, hmla⟩ := eq_of_ofConfig hc
  rw [hnum] at hlayers hobjs
  obtain ⟨twoMajor, hinit⟩ :=
    lazyInitializeBuffer_ofConfig hc (List.ne_nil_of_length_pos (hlayers ▸ hn))
  have hload : ∀ objs ∈ memoryObjs, ∀ layer buffer, buffer.length = q.allSlots.length →
      ∃ layer' buffer', loadLayer ⟨n, true, useMla, true, some twoMajor⟩ layer q.allSlots buffer
          objs q.starts q.ends = .ok (layer', buffer') ∧
        buffer'.length = q.allSlots.length ∧ q.Loaded layer objs layer' := by
    intro objs hmem layer buffer hbuffer
    apply loadLayer_of_contiguous hcontiguous (hfits objs hmem).1 _ layer hbuffer
    intro obj hobj
    rw [(hfits objs hmem).2 obj hobj, fmt, hmla]
    rfl
  obtain ⟨out, hout, hloaded⟩ := loadLayers_of_loadLayer hlayers hobjs hload n 0
    ((List.range q.allSlots.length).map contents) (Nat.zero_add n)
    (by rw [List.length_map, List.length_range])
  refine ⟨out, ?_, hloaded⟩
  unfold batchedToGpu
  rw [hinit, q.slotMappingFull_eq hranges]
  rw [← List.range_eq_range'] at hout
  exact hout

end PagedLayerwiseConnector

/-! ## Gaps, and no buffer -/

namespace PagedLayerwiseConnector

variable {q : LayerRequest} {n : Nat} {useGpu useMla room : Bool}

/-- What a store that is right does with one layer. -/
theorem StoresRight.storeLayer (h : StoresRight { numLayers := n, useGpu, useMla } room q)
    (hn : 0 < n) (hranges : q.ranges ≠ []) (layer : Nat → KVRow) :
    ∃ c out, lazyInitializeBuffer { numLayers := n, useGpu, useMla }
        ⟨false, List.replicate n layer⟩ = .ok c ∧
      c.storeLayer layer q.slotMapping q.allSlots q.blankObjs q.starts q.ends = .ok out ∧
      out.map LayerObj.rows = q.ranges.map fun r => (q.slots r).map layer := by
  obtain ⟨out, hout, hrows⟩ := h ⟨false, List.replicate n layer⟩ (List.replicate n q.blankObjs)
    List.length_replicate List.length_replicate
    (fun objs hobjs => List.eq_of_mem_replicate hobjs ▸ q.fits_blankObjs)
  unfold batchedFromGpu at hout
  obtain ⟨c, hinit, hout⟩ := bind_eq_ok.mp hout
  rw [q.slotMappingFull_eq hranges] at hout
  have hnum : c.numLayers = n := (eq_of_ofConfig (Or.inr ⟨_, hinit⟩)).1
  change (if _ then _ else _) = _ at hout
  split at hout
  · cases hout
  · rw [hnum, mapM_getItem (fun objs layer => c.storeLayer layer q.slotMapping q.allSlots objs
      q.starts q.ends) List.length_replicate List.length_replicate,
      mapM_eq_ok_iff_forall₂] at hout
    obtain ⟨m, rfl⟩ := Nat.exists_eq_succ_of_ne_zero hn.ne'
    rw [List.replicate_succ, List.replicate_succ, List.zip_cons_cons] at hout
    obtain ⟨objs, out, hlayer, -, rfl⟩ := List.forall₂_cons_left_iff.mp hout
    refine ⟨c, objs, hinit, hlayer, ?_⟩
    rw [List.map_cons, LayerRequest.storedRows, List.replicate_succ, List.map_cons] at hrows
    exact (List.cons.inj hrows).1

/-- Without the GPU buffer, `vllm_two_major` is never set. -/
theorem not_storesRight_of_no_buffer (hn : 0 < n) (hranges : q.ranges ≠ []) :
    ¬ StoresRight { numLayers := n, useGpu := false, useMla } room q := by
  intro h
  obtain ⟨c, out, hinit, hout, -⟩ := h.storeLayer hn hranges fun _ => []
  cases hinit
  obtain ⟨r, ranges, hcons⟩ := List.exists_cons_of_ne_nil hranges
  unfold PagedLayerwiseConnector.storeLayer at hout
  rw [q.zip_starts_ends, LayerRequest.blankObjs, hcons] at hout
  cases hout

end PagedLayerwiseConnector

namespace LayerRequest

variable {q : LayerRequest}

/-- Ranges that are one after another have at least their lengths between them. -/
theorem add_length_le {before after : List (Nat × Nat)} {r : Nat × Nat} {start : Nat}
    (hranges : q.ranges = before ++ r :: after) (hstart : ∀ x ∈ q.ranges, start ≤ x.1) :
    start + (before.flatMap q.slots).length ≤ r.1 := by
  have hincreasing := q.increasing
  have hwithin := q.within
  have hslots : ∀ x ∈ q.ranges, (q.slots x).length = x.2 - x.1 := fun x => length_slots
  rw [hranges] at hincreasing hwithin hstart hslots
  clear hranges
  induction before generalizing start with
  | nil => exact hstart r List.mem_cons_self
  | cons x before ih =>
    obtain ⟨hx, hincreasing⟩ := List.pairwise_cons.mp hincreasing
    have hstart := hstart x List.mem_cons_self
    have hlt := (hwithin x List.mem_cons_self).1
    have hlength := hslots x List.mem_cons_self
    have hle := ih hx hincreasing (fun y hy => hwithin y (List.mem_cons_of_mem _ hy))
      (fun y hy => hslots y (List.mem_cons_of_mem _ hy))
    rw [List.flatMap_cons, List.length_append]
    omega

end LayerRequest

namespace LayerRequest

variable {q : LayerRequest}

/-- The first range has the least start. -/
theorem headD_starts_le (q : LayerRequest) : ∀ r ∈ q.ranges, q.starts.headD 0 ≤ r.1 := by
  unfold starts
  have hincreasing := q.increasing
  have hwithin := q.within
  revert hincreasing hwithin
  cases q.ranges with
  | nil => exact fun _ _ r hr => absurd hr List.not_mem_nil
  | cons first ranges =>
    intro hincreasing hwithin r hr
    show first.1 ≤ r.1
    rcases List.mem_cons.mp hr with rfl | hr
    · exact Nat.le_refl _
    · have hlt := (hwithin first List.mem_cons_self).1
      have hle := (List.pairwise_cons.mp hincreasing).1 r hr
      omega

end LayerRequest

namespace PagedLayerwiseConnector

variable {q : LayerRequest} {n : Nat} {useMla room : Bool}

/-- What a store is to put in the object of a range is in the part of the buffer it takes. -/
theorem StoresRight.map_slots_subset
    (h : StoresRight { numLayers := n, useGpu := true, useMla } room q) (hn : 0 < n)
    (hranges : q.ranges ≠ []) (layer : Nat → KVRow) {r : Nat × Nat} (hr : r ∈ q.ranges) :
    (q.slots r).map layer ⊆
      slice (q.allSlots.map layer) (r.1 - q.starts.headD 0) (r.2 - q.starts.headD 0) := by
  obtain ⟨c, out, hinit, hout, hrows⟩ := h.storeLayer hn hranges layer
  have hlayers : (KVCaches.mk false (List.replicate n layer)).layers ≠ [] :=
    List.ne_nil_of_length_pos (List.length_replicate ▸ hn)
  obtain ⟨twoMajor, hinit'⟩ := lazyInitializeBuffer_ofConfig
    (Or.inl rfl : OfConfig ⟨n, true, useMla, false, none⟩ n true useMla) hlayers
  cases hinit.symm.trans hinit'
  unfold PagedLayerwiseConnector.storeLayer at hout
  rw [if_pos rfl, transferFrom_of_initialized rfl] at hout
  obtain ⟨buffer, hbuffer, hout⟩ := bind_eq_ok.mp hout
  cases hbuffer
  obtain ⟨stored, hstored, hout⟩ := bind_eq_ok.mp hout
  cases hout
  have hsubset := copyFromBuffer_subset hstored (by
    rw [bufferParts, q.zip_starts_ends, LayerRequest.blankObjs, List.length_map, List.length_map])
  have hstoredRows : stored.map LayerObj.rows = q.ranges.map fun r => (q.slots r).map layer := by
    rw [← hrows, List.map_map]
    apply List.map_congr_left
    intro obj _
    exact (setFormat_rows _ obj).symm
  rw [hstoredRows, bufferParts, q.zip_starts_ends, List.forall₂_map_left_iff,
    List.forall₂_map_right_iff, List.forall₂_same] at hsubset
  exact hsubset r hr

/-- **A gap goes wrong.**  A store that is right has adjacent ranges: behind a gap, the part of the
buffer that is taken begins behind the first row of the range. -/
theorem StoresRight.contiguous
    (h : StoresRight { numLayers := n, useGpu := true, useMla } room q) (hn : 0 < n)
    (hranges : q.ranges ≠ []) : q.Contiguous := by
  apply List.isChain_iff_forall_rel_of_append_cons_cons.mpr
  intro a b before after heq
  have ha : a ∈ q.ranges := by simp [heq]
  have hb : b ∈ q.ranges := by simp [heq]
  have hab : a.2 ≤ b.1 := by
    have hincreasing := q.increasing
    rw [heq, List.pairwise_append, List.pairwise_cons] at hincreasing
    exact hincreasing.2.1.1 b List.mem_cons_self
  obtain ⟨hblt, hble⟩ := q.within b hb
  -- a layer in which only the first slot of `b` is marked
  have hlt : b.1 < q.slotMapping.length := by omega
  let layer : Nat → KVRow := fun slot => if slot = q.slotMapping[b.1] then [1] else [0]
  have hslots : q.slots b = q.slotMapping[b.1] :: slice q.slotMapping (b.1 + 1) b.2 :=
    slice_eq_cons hblt hlt
  have hmark : layer q.slotMapping[b.1] ∈ (q.allSlots.map layer).drop (b.1 - q.starts.headD 0) := by
    apply slice_subset_drop
    apply h.map_slots_subset hn hranges layer hb
    rw [hslots, List.map_cons]
    exact List.mem_cons_self
  rw [← List.map_drop, List.mem_map] at hmark
  obtain ⟨slot, hslot, hmark⟩ := hmark
  have hslotEq : slot = q.slotMapping[b.1] := by
    by_contra hne
    simp [layer, hne] at hmark
  -- so the mark is in front of the part that is taken, or at its beginning
  have hall : q.allSlots = (before ++ [a]).flatMap q.slots ++ q.slotMapping[b.1] ::
      (slice q.slotMapping (b.1 + 1) b.2 ++ after.flatMap q.slots) := by
    rw [LayerRequest.allSlots, heq, ← List.cons_append, ← hslots, ← List.flatMap_cons,
      ← List.flatMap_append, List.append_assoc, List.singleton_append]
  have hnodup := q.allSlots_nodup
  rw [hslotEq, hall] at hslot
  rw [hall] at hnodup
  have hle := le_length_of_mem_drop hnodup hslot
  rw [List.flatMap_append, List.length_append, List.flatMap_singleton,
    LayerRequest.length_slots ha] at hle
  have hbefore := q.add_length_le heq q.headD_starts_le
  have hstart := q.headD_starts_le b hb
  have hawithin := (q.within a ha).1
  omega

end PagedLayerwiseConnector

/-- **Layerwise transfers.**  They move the right tokens if and only if there is a range and a
layer, the GPU buffer is used and can be had, and the ranges have no gaps between them. -/
theorem movesRightTokens_iff (numLayers : Nat) (useGpu useMla room : Bool) (q : LayerRequest) :
    MovesRightTokens numLayers useGpu useMla room q ↔
      q.ranges ≠ [] ∧ 0 < numLayers ∧ room = true ∧ useGpu = true ∧ q.Contiguous := by
  constructor
  · rintro ⟨hpaged, hbuffer⟩
    obtain ⟨hroom, hn, hranges⟩ :=
      (BufferLayerwiseConnector.storesRight_iff rfl room q).mp (hbuffer false)
    have hstores := (hpaged _ (.inl rfl)).1
    have hgpu : useGpu = true := by
      by_contra hgpu
      rw [Bool.eq_false_of_not_eq_true hgpu] at hstores
      exact PagedLayerwiseConnector.not_storesRight_of_no_buffer hn hranges hstores
    subst hgpu
    exact ⟨hranges, hn, hroom, rfl, hstores.contiguous hn hranges⟩
  · rintro ⟨hranges, hn, rfl, rfl, hcontiguous⟩
    refine ⟨?_, ?_⟩
    · intro c hc
      exact ⟨c.storesRight_of_contiguous hc hn hranges hcontiguous,
        c.loadsRight_of_contiguous hc hn hranges hcontiguous⟩
    · intro hasGpuBufferAllocator
      exact (BufferLayerwiseConnector.storesRight_iff rfl true q).mpr ⟨rfl, hn, hranges⟩

/-- Two chunks with one between them that is stored already. -/
def gapRequest : LayerRequest where
  slotMapping := [10, 11, 12, 13, 14, 15]
  distinct := by decide
  ranges := [(0, 2), (4, 6)]
  increasing := by decide
  within := by decide

theorem not_movesRightTokens_gapRequest : ¬ MovesRightTokens 1 true false true gapRequest := by
  intro h
  have hcontiguous : gapRequest.Contiguous :=
    (h.1 _ (.inl rfl)).1.contiguous Nat.one_pos (by decide)
  exact absurd hcontiguous (by decide)

end LMCache.GPUConnector
