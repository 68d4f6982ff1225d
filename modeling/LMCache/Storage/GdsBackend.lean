/-
# LMCache.Storage.GdsBackend — reading a batch with a thread pool.

Source: `get_blocking`, `_load_bytes_from_disk_with_memory` and
`_batched_get_blocking_by_thread_pool_impl` of `v1/storage_backend/gds_backend.py`.

The batch looks all keys up under the lock, allocates a buffer for each that is there, and loads
them on the threads of a pool, in any order.  It should give for each key what `get_blocking`
gives.  Three things are in the way.  It does not hand the format of the entry to the allocator, so
that every buffer is `KV_2LTD`.  A load that raises ends the batch, and the buffers of the others
are lost.  And a load that fails takes its key out of the index, which raises when the key is in the
batch a second time.

The allocator and the files are parameters: whether there is memory, and what a load of a file
gives.
-/
import LMCache.CacheEngineKey
import LMCache.Lib.Dict
import Mathlib.Data.Fintype.Basic
import Mathlib.Data.List.FinRange

namespace LMCache.Storage

open LMCache.Lib LMCache.Memory

/-! ## The backend -/

/-- `DiskCacheMetadata`, as `insert_key` and `_read_metadata` make it. -/
structure GdsEntry where
  path : String
  shape : TorchSize
  dtype : TorchDtype
  fmt : MemoryFormat
  deriving DecidableEq, Repr

/-- A new memory object, before it is filled. -/
structure GdsBuffer where
  shape : TorchSize
  dtype : TorchDtype
  fmt : MemoryFormat
  deriving DecidableEq, Repr

/-- A memory object with its bytes. -/
structure GdsMemoryObj where
  buffer : GdsBuffer
  bytes : List UInt8
  deriving DecidableEq, Repr

/-- `get_size`. -/
def GdsBuffer.size (buffer : GdsBuffer) : Nat := buffer.shape.numel * buffer.dtype.itemsize

/-- What a load comes to, and whether it releases its buffer. -/
structure LoadOutcome where
  result : Except PyError (Option GdsMemoryObj)
  released : Bool

structure GdsBackend where
  hotCache : Dict CacheEngineKey GdsEntry
  /-- `_load_gds` of so many bytes of a file: what it returns, and what is in the buffer then. -/
  loadGds : String → Nat → Except PyError (Int × List UInt8)

namespace GdsBackend

variable (b : GdsBackend)

/-- `_load_bytes_from_disk_with_memory`, with the index as it is. -/
def loadBytesWithMemory (hotCache : Dict CacheEngineKey GdsEntry) (key : CacheEngineKey)
    (path : String) (memoryObj : Option GdsBuffer) : LoadOutcome × Dict CacheEngineKey GdsEntry :=
  match memoryObj with
  | none => (⟨.ok none, false⟩, hotCache)
  | some buffer =>
    match b.loadGds path buffer.size with
    -- raised in the thread, which has the only reference to the buffer
    | .error e => (⟨.error e, false⟩, hotCache)
    | .ok (ret, bytes) =>
      if ret = buffer.size then (⟨.ok (some ⟨buffer, bytes⟩), false⟩, hotCache)
      else if ret < 0 then
        -- removing entry from cache
        if key ∈ hotCache then (⟨.ok none, true⟩, hotCache.erase key)
        else (⟨.error (.keyError ""), false⟩, hotCache)
      else (⟨.ok none, true⟩, hotCache)

/-- `get_blocking`, when there is memory for the key or not. -/
def getBlocking (allocates : Bool) (key : CacheEngineKey) : Except PyError (Option GdsMemoryObj) :=
  match b.hotCache.get? key with
  | none => .ok none
  | some entry =>
    if allocates then
      (b.loadBytesWithMemory b.hotCache key entry.path
        (some ⟨entry.shape, entry.dtype, entry.fmt⟩)).1.result
    else .ok none

/-- What a thread of the pool is given. -/
structure LoadTask where
  key : CacheEngineKey
  path : Option String
  memoryObj : Option GdsBuffer
  deriving DecidableEq, Repr

/-- The entry of the three lists for a key; the format is the default one of the allocator. -/
def loadTask (key : CacheEngineKey) (allocates : Bool) : LoadTask :=
  match b.hotCache.get? key with
  | none => ⟨key, none, none⟩
  | some entry =>
    ⟨key, some entry.path, if allocates then some ⟨entry.shape, entry.dtype, .KV_2LTD⟩ else none⟩

/-- The pool takes the tasks in some order; only the index is shared between them. -/
def runTasks {n : Nat} (tasks : Fin n → LoadTask) :
    Dict CacheEngineKey GdsEntry → List (Fin n) → List (Fin n × LoadOutcome)
  | _, [] => []
  | hotCache, i :: order =>
    let r := b.loadBytesWithMemory hotCache (tasks i).key ((tasks i).path.getD "")
      (tasks i).memoryObj
    (i, r.1) :: runTasks tasks r.2 order

section Batch

variable (keys : List CacheEngineKey) (allocates : Fin keys.length → Bool)
  (order : Equiv.Perm (Fin keys.length))

def tasks (i : Fin keys.length) : LoadTask := b.loadTask keys[i] (allocates i)

/-- What the tasks come to. -/
def outcomes : List (Fin keys.length × LoadOutcome) :=
  b.runTasks (b.tasks keys allocates) b.hotCache ((List.finRange keys.length).map order)

/-- `_batched_get_blocking_by_thread_pool_impl`: the results in the order of the keys; the first of
them that is an exception is raised. -/
def batchedGetBlocking : Except PyError (List (Option GdsMemoryObj)) :=
  (List.finRange keys.length).mapM fun i =>
    match (b.outcomes keys allocates order).lookup i with
    | some outcome => outcome.result
    | none => .ok none

/-! ## The property -/

/-- **The batch agrees with the single reads.**  It returns, for each key what `get_blocking`
returns if it does, and every buffer is in what it returns or released. -/
structure AgreesWithSingle (allocatesSingle : Fin keys.length → Bool) : Prop where
  returns : ∃ results, b.batchedGetBlocking keys allocates order = .ok results ∧
    ∀ i x, b.getBlocking (allocatesSingle i) keys[i] = .ok x → results[(i : Nat)]? = some x
  keepsBuffers : ∀ p ∈ b.outcomes keys allocates order,
    (b.tasks keys allocates p.1).memoryObj ≠ none →
      p.2.released ∨ ∃ obj, p.2.result = .ok (some obj)

/-- There is memory for the key, and the load of its file returns an error. -/
def Fails (i : Fin keys.length) : Prop :=
  allocates i ∧ ∃ entry ret bytes, b.hotCache.get? keys[i] = some entry ∧
    b.loadGds entry.path (entry.shape.numel * entry.dtype.itemsize) = .ok (ret, bytes) ∧ ret < 0

/-- No load raises, no key fails twice, and what is loaded whole is of the default format and gets
its memory in the batch as it does alone. -/
structure ReadsAgree (allocatesSingle : Fin keys.length → Bool) : Prop where
  reads : ∀ i entry, b.hotCache.get? keys[i] = some entry → allocates i →
    ∃ r, b.loadGds entry.path (entry.shape.numel * entry.dtype.itemsize) = .ok r
  failsOnce : ∀ i j, i ≠ j → b.Fails keys allocates i → b.Fails keys allocates j →
    keys[i] ≠ keys[j]
  same : ∀ i entry bytes, b.hotCache.get? keys[i] = some entry →
    b.loadGds entry.path (entry.shape.numel * entry.dtype.itemsize) =
      .ok ((entry.shape.numel * entry.dtype.itemsize : Nat), bytes) →
    allocates i = allocatesSingle i ∧ (allocates i → entry.fmt = .KV_2LTD)

end Batch

/-! ## One load -/

section Load

variable (t : LoadTask)

/-- The load of the task raises. -/
def Raises : Prop :=
  ∃ buffer e, t.memoryObj = some buffer ∧ b.loadGds (t.path.getD "") buffer.size = .error e

/-- The load of the task returns an error. -/
def ReturnsError : Prop :=
  ∃ buffer ret bytes, t.memoryObj = some buffer ∧
    b.loadGds (t.path.getD "") buffer.size = .ok (ret, bytes) ∧ ret < 0

/-- What is loaded, if it is loaded whole. -/
def loaded : Option GdsMemoryObj :=
  match t.memoryObj with
  | none => none
  | some buffer =>
    match b.loadGds (t.path.getD "") buffer.size with
    | .error _ => none
    | .ok (ret, bytes) => if ret = buffer.size then some ⟨buffer, bytes⟩ else none

variable {b t}

theorem ReturnsError.not_raises (h : b.ReturnsError t) : ¬ b.Raises t := by
  rintro ⟨buffer', e, hmemory', he⟩
  obtain ⟨buffer, ret, bytes, hmemory, hret, -⟩ := h
  rw [hmemory, Option.some.injEq] at hmemory'
  rw [hmemory', he] at hret
  cases hret

theorem ReturnsError.loaded_eq (h : b.ReturnsError t) : b.loaded t = none := by
  obtain ⟨buffer, ret, bytes, hmemory, hret, hneg⟩ := h
  unfold loaded
  rw [hmemory]
  simp only [hret]
  exact if_neg (by omega)

variable (b t)

/-- **What a load can come to**: it raises, returns an error with its key in the index or not, or
leaves the index as it is. -/
theorem loadBytesWithMemory_cases (hot : Dict CacheEngineKey GdsEntry) {r}
    (hr : b.loadBytesWithMemory hot t.key (t.path.getD "") t.memoryObj = r) :
    (b.Raises t ∧ (∃ e, r.1.result = .error e) ∧ r.2 = hot) ∨
    (b.ReturnsError t ∧ t.key ∉ hot ∧ (∃ e, r.1.result = .error e) ∧ r.2 = hot) ∨
    (b.ReturnsError t ∧ t.key ∈ hot ∧ r = (⟨.ok none, true⟩, hot.erase t.key)) ∨
    (¬ b.Raises t ∧ ¬ b.ReturnsError t ∧ r.1.result = .ok (b.loaded t) ∧
      (t.memoryObj ≠ none → r.1.released ∨ b.loaded t ≠ none) ∧ r.2 = hot) := by
  subst hr
  unfold loadBytesWithMemory loaded Raises ReturnsError
  cases hmemory : t.memoryObj with
  | none => simp
  | some buffer =>
    cases hload : b.loadGds (t.path.getD "") buffer.size with
    | error e => exact Or.inl ⟨⟨buffer, e, rfl, hload⟩, ⟨e, by simp [hload]⟩, by simp [hload]⟩
    | ok p =>
      obtain ⟨ret, bytes⟩ := p
      by_cases hwhole : ret = buffer.size
      · refine Or.inr (Or.inr (Or.inr ?_))
        simp [hload, hwhole]
      · by_cases hneg : ret < 0
        · have hfails : ∃ buffer' ret bytes, some buffer = some buffer' ∧
              b.loadGds (t.path.getD "") buffer'.size = .ok (ret, bytes) ∧ ret < 0 :=
            ⟨buffer, ret, bytes, rfl, hload, hneg⟩
          by_cases hkey : t.key ∈ hot
          · exact Or.inr (Or.inr (Or.inl ⟨hfails, hkey, by simp [hload, hwhole, hneg, hkey]⟩))
          · refine Or.inr (Or.inl ⟨hfails, hkey, ⟨.keyError "", ?_⟩, ?_⟩)
            · simp [hload, hwhole, hneg, hkey]
            · simp [hload, hwhole, hneg, hkey]
        · refine Or.inr (Or.inr (Or.inr ?_))
          simp [hload, hwhole, hneg]

variable {b t} {hot : Dict CacheEngineKey GdsEntry}

theorem load_ok_iff :
    (∃ x, (b.loadBytesWithMemory hot t.key (t.path.getD "") t.memoryObj).1.result = .ok x) ↔
      ¬ b.Raises t ∧ (b.ReturnsError t → t.key ∈ hot) := by
  obtain ⟨hraises, ⟨e, he⟩, -⟩ | ⟨hfails, hkey, ⟨e, he⟩, -⟩ | ⟨hfails, hkey, h⟩ |
    ⟨hraises, hfails, h, -⟩ := b.loadBytesWithMemory_cases t hot rfl
  · simp [he, hraises]
  · simp [he, hfails, hkey]
  · simp [h, hfails.not_raises, hkey]
  · simp [h, hraises, hfails]

theorem load_eq_ok {x : Option GdsMemoryObj}
    (h : (b.loadBytesWithMemory hot t.key (t.path.getD "") t.memoryObj).1.result = .ok x) :
    x = b.loaded t ∧ (t.memoryObj ≠ none →
      (b.loadBytesWithMemory hot t.key (t.path.getD "") t.memoryObj).1.released ∨ x ≠ none) := by
  obtain ⟨-, ⟨e, he⟩, -⟩ | ⟨-, -, ⟨e, he⟩, -⟩ | ⟨hfails, -, hr⟩ | ⟨-, -, hr, hreleased, -⟩ :=
    b.loadBytesWithMemory_cases t hot rfl
  · rw [he] at h
    cases h
  · rw [he] at h
    cases h
  · rw [hr] at h ⊢
    cases h
    exact ⟨hfails.loaded_eq.symm, fun _ => Or.inl rfl⟩
  · rw [hr] at h
    cases h
    exact ⟨rfl, hreleased⟩

/-- A load takes no key out of the index but its own, and that one if it returns an error. -/
theorem mem_load {k : CacheEngineKey} :
    k ∈ (b.loadBytesWithMemory hot t.key (t.path.getD "") t.memoryObj).2 ↔
      k ∈ hot ∧ (b.ReturnsError t → k ≠ t.key) := by
  obtain ⟨hraises, -, h⟩ | ⟨hfails, hkey, -, h⟩ | ⟨hfails, hkey, h⟩ | ⟨-, hfails, -, -, h⟩ :=
    b.loadBytesWithMemory_cases t hot rfl
  · simp only [h, iff_self_and]
    exact fun _ hfails => absurd hraises hfails.not_raises
  · simp only [h, iff_self_and]
    rintro hk - rfl
    exact hkey hk
  · simp [h, hfails, and_comm]
  · simp [h, hfails]

end Load

/-! ## The pool -/

section Pool

variable {b} {n : Nat} {tasks : Fin n → LoadTask}

theorem map_fst_runTasks (hot : Dict CacheEngineKey GdsEntry) (order : List (Fin n)) :
    (b.runTasks tasks hot order).map Prod.fst = order := by
  induction order generalizing hot with
  | nil => rfl
  | cons i order ih => exact congrArg (i :: ·) (ih _)

/-- **When every load of the pool returns**: none raises, and those that return an error find their
keys, each once, in the index. -/
theorem runTasks_ok_iff (hot : Dict CacheEngineKey GdsEntry) (order : List (Fin n)) :
    (∀ p ∈ b.runTasks tasks hot order, ∃ x, p.2.result = .ok x) ↔
      (∀ i ∈ order, ¬ b.Raises (tasks i)) ∧
      (∀ i ∈ order, b.ReturnsError (tasks i) → (tasks i).key ∈ hot) ∧
      order.Pairwise fun i j => b.ReturnsError (tasks i) → b.ReturnsError (tasks j) →
        (tasks i).key ≠ (tasks j).key := by
  induction order generalizing hot with
  | nil => simp [runTasks]
  | cons i order ih =>
    rw [List.pairwise_cons, List.forall_mem_cons, List.forall_mem_cons]
    unfold runTasks
    rw [List.forall_mem_cons, ih, load_ok_iff]
    -- the loads behind this one find the index without its key, if it returns an error
    simp only [mem_load]
    constructor
    · rintro ⟨⟨hraises, hkey⟩, hrest, hkeys, hpairs⟩
      refine ⟨⟨hraises, hrest⟩, ⟨hkey, fun j hj hfails => (hkeys j hj hfails).1⟩, ?_, hpairs⟩
      exact fun j hj hfails hfails' => ((hkeys j hj hfails').2 hfails).symm
    · rintro ⟨⟨hraises, hrest⟩, ⟨hkey, hkeys⟩, hfirst, hpairs⟩
      refine ⟨⟨hraises, hkey⟩, hrest, fun j hj hfails => ⟨hkeys j hj hfails, ?_⟩, hpairs⟩
      exact fun hfails' => (hfirst j hj hfails' hfails).symm

/-- **Whatever the order**, a load that returns gives what its task loads, and keeps its buffer or
releases it. -/
theorem runTasks_eq_ok (hot : Dict CacheEngineKey GdsEntry) (order : List (Fin n)) :
    ∀ p ∈ b.runTasks tasks hot order, ∀ x, p.2.result = .ok x →
      x = b.loaded (tasks p.1) ∧
        ((tasks p.1).memoryObj ≠ none → p.2.released ∨ x ≠ none) := by
  induction order generalizing hot with
  | nil => simp [runTasks]
  | cons i order ih =>
    unfold runTasks
    rw [List.forall_mem_cons]
    exact ⟨fun x hx => load_eq_ok hx, ih _⟩

end Pool

/-! ## The batch -/

section Batch

variable {b} {keys : List CacheEngineKey} {allocates : Fin keys.length → Bool}
  {order : Equiv.Perm (Fin keys.length)}

variable (i : Fin keys.length)

theorem raises_tasks_iff :
    b.Raises (b.tasks keys allocates i) ↔ ∃ entry e, b.hotCache.get? keys[i] = some entry ∧
      allocates i ∧ b.loadGds entry.path (entry.shape.numel * entry.dtype.itemsize) = .error e := by
  unfold Raises tasks loadTask
  cases b.hotCache.get? keys[i] with
  | none => simp
  | some entry => cases allocates i <;> simp [GdsBuffer.size]

theorem returnsError_tasks_iff :
    b.ReturnsError (b.tasks keys allocates i) ↔ b.Fails keys allocates i := by
  unfold ReturnsError Fails tasks loadTask
  cases b.hotCache.get? keys[i] with
  | none => simp
  | some entry => cases allocates i <;> simp [GdsBuffer.size]

/-- Where one key agrees: what is loaded whole has the default format and its memory both times. -/
theorem loaded_agrees_iff (key : CacheEngineKey) (allocates allocatesSingle : Bool) :
    (∀ x, b.getBlocking allocatesSingle key = .ok x → b.loaded (b.loadTask key allocates) = x) ↔
      ∀ entry bytes, b.hotCache.get? key = some entry →
        b.loadGds entry.path (entry.shape.numel * entry.dtype.itemsize) =
          .ok ((entry.shape.numel * entry.dtype.itemsize : Nat), bytes) →
        allocates = allocatesSingle ∧ (allocates → entry.fmt = .KV_2LTD) := by
  unfold getBlocking loadTask
  cases hentry : b.hotCache.get? key with
  | none => simp [loaded]
  | some entry =>
    have hkey : key ∈ b.hotCache := Dict.mem_iff_get?.mpr ⟨entry, hentry⟩
    unfold loadBytesWithMemory loaded
    simp only [@forall_comm GdsEntry (List UInt8), Option.some.injEq, forall_eq', GdsBuffer.size,
      Option.getD_some]
    cases hload : b.loadGds entry.path (entry.shape.numel * entry.dtype.itemsize) with
    | error e => cases allocates <;> cases allocatesSingle <;> simp [hload]
    | ok p =>
      obtain ⟨ret, bytes⟩ := p
      by_cases hwhole : ret = (entry.shape.numel * entry.dtype.itemsize : Nat)
      · cases allocates <;> cases allocatesSingle <;> simp [hload, hwhole, eq_comm]
      · push_cast at hwhole
        by_cases hneg : ret < 0
        · cases allocates <;> cases allocatesSingle <;> simp [hload, hwhole, hneg, hkey]
        · cases allocates <;> cases allocatesSingle <;> simp [hload, hwhole, hneg]

theorem nodup_order : ((List.finRange keys.length).map order).Nodup :=
  (List.nodup_finRange _).map order.injective

theorem mem_order : i ∈ (List.finRange keys.length).map order :=
  List.mem_map.mpr ⟨order.symm i, List.mem_finRange _, order.apply_symm_apply i⟩

variable (b allocates order) in
/-- The pool returns one outcome for each key. -/
theorem lookup_outcomes :
    ∃ outcome, (b.outcomes keys allocates order).lookup i = some outcome ∧
      (i, outcome) ∈ b.outcomes keys allocates order := by
  have hmem : i ∈ (b.outcomes keys allocates order).map Prod.fst := by
    rw [outcomes, map_fst_runTasks]
    exact mem_order i
  cases h : (b.outcomes keys allocates order).lookup i with
  | none =>
    obtain ⟨p, hp, rfl⟩ := List.mem_map.mp hmem
    exact absurd (List.lookup_eq_none_iff.mp h p hp) (by simp)
  | some outcome =>
    obtain ⟨before, after, hsplit, -⟩ := List.lookup_eq_some_iff.mp h
    exact ⟨outcome, rfl, by rw [hsplit]; simp⟩

theorem lookup_eq_of_mem {p : Fin keys.length × LoadOutcome}
    (hp : p ∈ b.outcomes keys allocates order) :
    (b.outcomes keys allocates order).lookup p.1 = some p.2 := by
  have hnodup : ((b.outcomes keys allocates order).map Prod.fst).Nodup := by
    rw [outcomes, map_fst_runTasks]
    exact nodup_order
  obtain ⟨outcome, hlookup, hmem⟩ := lookup_outcomes b allocates order p.1
  rw [hlookup]
  exact congrArg (some ·.2) (List.inj_on_of_nodup_map hnodup hmem hp rfl)

/-- The batch returns when every load of the pool does, and then it returns what the tasks load. -/
theorem batchedGetBlocking_eq_ok_iff {results : List (Option GdsMemoryObj)} :
    b.batchedGetBlocking keys allocates order = .ok results ↔
      (∀ p ∈ b.outcomes keys allocates order, ∃ x, p.2.result = .ok x) ∧
      results = (List.finRange keys.length).map fun i => b.loaded (b.tasks keys allocates i) := by
  have hmap (hok : ∀ p ∈ b.outcomes keys allocates order, ∃ x, p.2.result = .ok x) :
      (List.finRange keys.length).map (fun i =>
        match (b.outcomes keys allocates order).lookup i with
        | some outcome => outcome.result
        | none => .ok none) =
      ((List.finRange keys.length).map fun i => b.loaded (b.tasks keys allocates i)).map .ok := by
    rw [List.map_map]
    refine List.map_congr_left fun i _ => ?_
    obtain ⟨outcome, hlookup, hmem⟩ := lookup_outcomes b allocates order i
    obtain ⟨x, hx⟩ := hok _ hmem
    rw [hlookup]
    show outcome.result = .ok (b.loaded (b.tasks keys allocates i))
    rw [← (runTasks_eq_ok _ _ _ hmem x hx).1]
    exact hx
  unfold batchedGetBlocking
  rw [mapM_eq_ok_iff]
  constructor
  · intro h
    have hok : ∀ p ∈ b.outcomes keys allocates order, ∃ x, p.2.result = .ok x := by
      intro p hp
      have hmem := List.mem_map_of_mem (f := fun i =>
        match (b.outcomes keys allocates order).lookup i with
        | some outcome => outcome.result
        | none => .ok none) (List.mem_finRange p.1)
      rw [h, List.mem_map] at hmem
      obtain ⟨x, -, hx⟩ := hmem
      rw [lookup_eq_of_mem hp] at hx
      exact ⟨x, hx.symm⟩
    rw [hmap hok] at h
    exact ⟨hok, (List.map_injective_iff.mpr (fun _ _ => Except.ok.inj) h).symm⟩
  · rintro ⟨hok, rfl⟩
    exact hmap hok

theorem key_tasks : (b.tasks keys allocates i).key = keys[i] := by
  unfold tasks loadTask
  cases b.hotCache.get? keys[i] <;> rfl

/-- **Whatever the order**, every load of the pool returns just when no read raises and no key fails
twice. -/
theorem outcomes_ok_iff :
    (∀ p ∈ b.outcomes keys allocates order, ∃ x, p.2.result = .ok x) ↔
      (∀ i entry, b.hotCache.get? keys[i] = some entry → allocates i →
        ∃ r, b.loadGds entry.path (entry.shape.numel * entry.dtype.itemsize) = .ok r) ∧
      ∀ i j, i ≠ j → b.Fails keys allocates i → b.Fails keys allocates j → keys[i] ≠ keys[j] := by
  have hsymm : Std.Symm fun i j => b.Fails keys allocates i → b.Fails keys allocates j →
      keys[i] ≠ keys[j] := ⟨fun i j h hj hi => (h hi hj).symm⟩
  unfold outcomes
  rw [runTasks_ok_iff]
  simp only [raises_tasks_iff, returnsError_tasks_iff, key_tasks, mem_order, forall_true_left]
  constructor
  · rintro ⟨hraises, -, honce⟩
    refine ⟨fun i entry hentry hi => ?_, fun i j hij =>
      honce.forall (mem_order i) (mem_order j) hij⟩
    cases hload : b.loadGds entry.path (entry.shape.numel * entry.dtype.itemsize) with
    | error e => exact absurd ⟨entry, e, hentry, hi, hload⟩ (hraises i)
    | ok r => exact ⟨r, rfl⟩
  · rintro ⟨hreads, honce⟩
    refine ⟨?_, ?_, nodup_order.pairwise_of_forall_ne fun i _ j _ hij => honce i j hij⟩
    · rintro i ⟨entry, e, hentry, hi, hload⟩
      obtain ⟨r, hr⟩ := hreads i entry hentry hi
      rw [hload] at hr
      cases hr
    · -- every key that has a buffer is in the index when the pool starts
      rintro i ⟨-, entry, ret, bytes, hentry, -⟩
      exact Dict.mem_iff_get?.mpr ⟨entry, hentry⟩

/-- **Exactly when a batch agrees with single reads.** -/
theorem agreesWithSingle_iff (b : GdsBackend) (keys : List CacheEngineKey)
    (allocates allocatesSingle : Fin keys.length → Bool) (order : Equiv.Perm (Fin keys.length)) :
    b.AgreesWithSingle keys allocates order allocatesSingle ↔
      b.ReadsAgree keys allocates allocatesSingle := by
  constructor
  · rintro ⟨⟨results, hresults, hsame⟩, -⟩
    obtain ⟨hall, rfl⟩ := batchedGetBlocking_eq_ok_iff.mp hresults
    obtain ⟨hreads, honce⟩ := outcomes_ok_iff.mp hall
    refine ⟨hreads, honce, fun i => ?_⟩
    refine (loaded_agrees_iff keys[i] _ _).mp fun x hx => ?_
    show b.loaded (b.tasks keys allocates i) = x
    simpa using hsame i x hx
  · rintro ⟨hreads, honce, hsame⟩
    have hall : ∀ p ∈ b.outcomes keys allocates order, ∃ x, p.2.result = .ok x :=
      outcomes_ok_iff.mpr ⟨hreads, honce⟩
    refine ⟨⟨_, batchedGetBlocking_eq_ok_iff.mpr ⟨hall, rfl⟩, fun i x hx => ?_⟩,
      fun p hp hmemory => ?_⟩
    · have hagrees : b.loaded (b.tasks keys allocates i) = x :=
        (loaded_agrees_iff keys[i] _ _).mpr (hsame i) x hx
      simpa using hagrees
    · obtain ⟨x, hx⟩ := hall p hp
      obtain hreleased | hx' := (runTasks_eq_ok _ _ p hp x hx).2 hmemory
      · exact Or.inl hreleased
      · obtain ⟨obj, rfl⟩ := Option.ne_none_iff_exists'.mp hx'
        exact Or.inr ⟨obj, hx⟩

end Batch

/-! ## A chunk of the MLA format, and a file that is gone -/

def mlaKey : CacheEngineKey := ⟨"m", 1, 0, 7, .uint8, none, none⟩

def mlaEntry : GdsEntry := ⟨"/gds/7", [2], .uint8, .KV_MLA_FMT⟩

/-- Two bytes that are there, in the format of MLA. -/
def mlaBackend : GdsBackend := ⟨Dict.empty.set mlaKey mlaEntry, fun _ _ => .ok (2, [1, 2])⟩

/-- Their file has been removed. -/
def goneBackend : GdsBackend :=
  ⟨Dict.empty.set mlaKey mlaEntry, fun _ _ => .error (.runtimeError "No such file or directory")⟩

theorem not_agreesWithSingle_mla :
    ¬ mlaBackend.AgreesWithSingle [mlaKey] (fun _ => true) (Equiv.refl _) (fun _ => true) ∧
    ¬ goneBackend.AgreesWithSingle [mlaKey] (fun _ => true) (Equiv.refl _) (fun _ => true) := by
  constructor
  · rintro ⟨⟨results, hresults, hsame⟩, -⟩
    have hbatch : mlaBackend.batchedGetBlocking [mlaKey] (fun _ => true) (Equiv.refl _) =
        .ok [some ⟨⟨[2], .uint8, .KV_2LTD⟩, [1, 2]⟩] := by rfl
    have hsingle : mlaBackend.getBlocking true mlaKey =
        .ok (some ⟨⟨[2], .uint8, .KV_MLA_FMT⟩, [1, 2]⟩) := by rfl
    rw [hbatch] at hresults
    cases hresults
    exact absurd (hsame ⟨0, by decide⟩ _ hsingle) (by decide)
  · rintro ⟨⟨results, hresults, -⟩, -⟩
    have hbatch : goneBackend.batchedGetBlocking [mlaKey] (fun _ => true) (Equiv.refl _) =
        .error (.runtimeError "No such file or directory") := by rfl
    rw [hbatch] at hresults
    cases hresults

end GdsBackend

end LMCache.Storage
