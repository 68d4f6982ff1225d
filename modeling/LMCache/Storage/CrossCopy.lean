/-
# LMCache.Storage.CrossCopy — copying chunks into the allocator of another backend.

Source: `allocate_and_copy_objects` in `v1/storage_backend/storage_manager.py`.

A put hands the same keys and objects to every backend.  A backend with an allocator of its own
needs copies, so the objects are allocated there one by one and filled.  A key that the backend
holds is passed over, and the first allocation that fails ends the loop.

What comes back is the list of the copies and the front of the key list, as long as that list.  A
key that was passed over is still in that front: from there on each copy stands under the key before
its own.  The backend then stores the contents of one chunk under the hash of another.

The backend may evict what it holds to make room, so its answers follow its state.
-/
import LMCache.CacheEngineKey
import LMCache.Memory.MemoryObj

namespace LMCache.Storage

open LMCache.Memory

/-! ## The two sides of a copy -/

/-- What an allocation is asked for: the shape, dtype and format of the source object. -/
structure CopyRequest where
  shape : TorchSize
  dtype : TorchDtype
  fmt : MemoryFormat
  deriving DecidableEq, Repr

/-- What the copy reads of a source object; `tensor` is its contents. -/
structure SourceObj (β : Type) where
  request : CopyRequest
  tensor : β

/-- A new memory object of the target: which one it is, and whether it has a tensor. -/
structure NewObj where
  ident : Nat
  hasTensor : Bool
  deriving DecidableEq, Repr

/-- What the copy uses of an `AllocatorBackendInterface` with states `σ`. -/
structure AllocatorBackend (σ : Type) where
  contains : σ → CacheEngineKey → Bool
  allocate : σ → CopyRequest → Option NewObj × σ
  refCountDown : σ → Nat → σ

/-- An object of the target that has been filled: with what, and the place of the object in
`src_memory_objs` that this was read from. -/
structure CopiedObj (β : Type) where
  ident : Nat
  source : Nat
  tensor : β
  deriving DecidableEq, Repr

/-- What the copy returns and leaves: the keys, the copies, the objects it let go of again, and all
that it allocated. -/
structure CopyResult (σ β : Type) where
  keys : List CacheEngineKey
  objects : List (CopiedObj β)
  released : List Nat
  allocated : List Nat
  state : σ

namespace AllocatorBackend

variable {σ β : Type} (b : AllocatorBackend σ)

/-- The loop of `allocate_and_copy_objects`.  Its keys are empty here. -/
def copyFrom : σ → Nat → List (CacheEngineKey × SourceObj β) → CopyResult σ β
  | s, _, [] => ⟨[], [], [], [], s⟩
  | s, place, (key, src) :: rest =>
    if b.contains s key then copyFrom s (place + 1) rest
    else
      match b.allocate s src.request with
      | (none, s) => ⟨[], [], [], [], s⟩
      | (some obj, s) =>
        -- an object without a tensor is released at once, and ends the loop
        if !obj.hasTensor then ⟨[], [], [obj.ident], [obj.ident], b.refCountDown s obj.ident⟩
        else
          let r := copyFrom s (place + 1) rest
          { r with
            objects := ⟨obj.ident, place, src.tensor⟩ :: r.objects
            allocated := obj.ident :: r.allocated }

/-- `allocate_and_copy_objects`. -/
def allocateAndCopyObjects (s : σ) (keys : List CacheEngineKey)
    (srcMemoryObjs : List (SourceObj β)) : CopyResult σ β :=
  let r := b.copyFrom s 0 (keys.zip srcMemoryObjs)
  { r with keys := keys.take r.objects.length }

/-! ## What the target answers -/

/-- What the target says to one key: it holds it, an object has been allocated for it, or none with
a tensor could be. -/
inductive CopyAnswer where
  | present
  | allocated
  | failed
  deriving DecidableEq, Repr

/-- The answers of the target, up to the first failure. -/
def answers : σ → List (CacheEngineKey × SourceObj β) → List CopyAnswer
  | _, [] => []
  | s, (key, src) :: rest =>
    if b.contains s key then .present :: answers s rest
    else
      match b.allocate s src.request with
      | (none, _) => [.failed]
      | (some obj, s) => if !obj.hasTensor then [.failed] else .allocated :: answers s rest

/-- The places of the keys that an object was allocated for. -/
def allocatedAt : Nat → List CopyAnswer → List Nat
  | _, [] => []
  | place, .allocated :: rest => place :: allocatedAt (place + 1) rest
  | place, _ :: rest => allocatedAt (place + 1) rest

theorem allocatedAt_eq_nil_iff (place : Nat) (l : List CopyAnswer) :
    allocatedAt place l = [] ↔ .allocated ∉ l := by
  induction l generalizing place with
  | nil => simp [allocatedAt]
  | cons a l ih => cases a <;> simp [allocatedAt, ih]

theorem le_of_mem_allocatedAt {place i : Nat} {l : List CopyAnswer} (h : i ∈ allocatedAt place l) :
    place ≤ i := by
  induction l generalizing place with
  | nil => cases h
  | cons a l ih =>
    have hrest : i ∈ allocatedAt (place + 1) l → place ≤ i := fun h => by
      have := ih h
      omega
    cases a with
    | present | failed => exact hrest h
    | allocated =>
      rcases List.mem_cons.mp h with rfl | h
      · exact Nat.le_refl _
      · exact hrest h

/-- Behind a key that was passed over, no further place is in step. -/
theorem allocatedAt_succ_eq_range'_iff (place : Nat) (l : List CopyAnswer) :
    allocatedAt (place + 1) l = List.range' place (allocatedAt (place + 1) l).length ↔
      .allocated ∉ l := by
  rw [← allocatedAt_eq_nil_iff (place + 1)]
  constructor
  · intro h
    by_contra hne
    have hpos := List.length_pos_iff.mpr hne
    have hmem : place ∈ allocatedAt (place + 1) l := by
      rw [h, List.mem_range'_1]
      omega
    have := le_of_mem_allocatedAt hmem
    omega
  · intro h
    rw [h]
    rfl

/-- The places are consecutive if and only if nothing is allocated after an answer of another kind.
-/
theorem allocatedAt_eq_range'_iff (place : Nat) (l : List CopyAnswer) :
    allocatedAt place l = List.range' place (allocatedAt place l).length ↔
      .allocated ∉ l.dropWhile (· = .allocated) := by
  induction l generalizing place with
  | nil => simp [allocatedAt]
  | cons a l ih =>
    cases a with
    | allocated =>
      rw [List.dropWhile_cons_of_pos (by simp), ← ih (place + 1)]
      simp [allocatedAt, List.range'_succ]
    | present | failed =>
      rw [List.dropWhile_cons_of_neg (by simp)]
      exact (allocatedAt_succ_eq_range'_iff place l).trans (by simp)

/-! ## What the loop does -/

/-- The copies are read from the places the target allocated for. -/
theorem map_source_copyFrom (s : σ) (place : Nat) (pairs : List (CacheEngineKey × SourceObj β)) :
    (b.copyFrom s place pairs).objects.map CopiedObj.source =
      allocatedAt place (b.answers s pairs) := by
  induction pairs generalizing s place with
  | nil => rfl
  | cons p rest ih =>
    obtain ⟨key, src⟩ := p
    unfold copyFrom answers
    split
    · exact ih s (place + 1)
    · rcases b.allocate s src.request with ⟨_ | obj, s'⟩
      · rfl
      · dsimp only
        split
        · rfl
        · exact congrArg (place :: ·) (ih s' (place + 1))

/-- Each copy has the contents of the object at its place. -/
theorem tensor_copyFrom {s : σ} {place : Nat} {pairs : List (CacheEngineKey × SourceObj β)}
    {obj : CopiedObj β} (h : obj ∈ (b.copyFrom s place pairs).objects) :
    ∃ i p, obj.source = place + i ∧ pairs[i]? = some p ∧ obj.tensor = p.2.tensor := by
  induction pairs generalizing s place with
  | nil => cases h
  | cons p rest ih =>
    obtain ⟨key, src⟩ := p
    -- a copy of a later pair is one place further
    have hlater : ∀ {s : σ}, obj ∈ (b.copyFrom s (place + 1) rest).objects →
        ∃ i p, obj.source = place + i ∧ ((key, src) :: rest)[i]? = some p ∧
          obj.tensor = p.2.tensor := by
      intro s h
      obtain ⟨i, p, hsource, hp, htensor⟩ := ih h
      exact ⟨i + 1, p, by omega, hp, htensor⟩
    unfold copyFrom at h
    split at h
    · exact hlater h
    · rcases hnew : b.allocate s src.request with ⟨_ | new, s'⟩
      · simp [hnew] at h
      · cases htensor : new.hasTensor with
        | false => simp [hnew, htensor] at h
        | true =>
          simp only [hnew, htensor, Bool.not_true, Bool.false_eq_true, if_false] at h
          rcases List.mem_cons.mp h with rfl | h
          · exact ⟨0, (key, src), rfl, rfl, rfl⟩
          · exact hlater h

/-- What was allocated is among the copies or was released. -/
theorem allocated_copyFrom (s : σ) (place : Nat) (pairs : List (CacheEngineKey × SourceObj β)) :
    (b.copyFrom s place pairs).allocated =
      (b.copyFrom s place pairs).objects.map CopiedObj.ident ++
        (b.copyFrom s place pairs).released := by
  induction pairs generalizing s place with
  | nil => rfl
  | cons p rest ih =>
    obtain ⟨key, src⟩ := p
    unfold copyFrom
    split
    · exact ih s (place + 1)
    · rcases b.allocate s src.request with ⟨_ | obj, s'⟩
      · rfl
      · dsimp only
        split
        · rfl
        · exact congrArg (obj.ident :: ·) (ih s' (place + 1))

theorem length_objects_copyFrom_le (s : σ) (place : Nat)
    (pairs : List (CacheEngineKey × SourceObj β)) :
    (b.copyFrom s place pairs).objects.length ≤ pairs.length := by
  induction pairs generalizing s place with
  | nil => exact Nat.le_refl 0
  | cons p rest ih =>
    obtain ⟨key, src⟩ := p
    unfold copyFrom
    split
    · exact Nat.le_succ_of_le (ih s (place + 1))
    · rcases b.allocate s src.request with ⟨_ | obj, s'⟩
      · exact Nat.zero_le _
      · dsimp only
        split
        · exact Nat.zero_le _
        · exact Nat.succ_le_succ (ih s' (place + 1))

/-! ## When keys and copies belong together -/

/-- **The copies belong to the keys**: the lists are as long, the `i`-th copy is that of the `i`-th
source object, whose key is the `i`-th returned key, and no allocated object is lost. -/
structure CopiesPaired (keys : List CacheEngineKey) (srcMemoryObjs : List (SourceObj β))
    (r : CopyResult σ β) : Prop where
  length_eq : r.keys.length = r.objects.length
  paired : ∀ (i : Nat) (obj : CopiedObj β), r.objects[i]? = some obj → obj.source = i ∧
    ∃ key src, (keys.zip srcMemoryObjs)[i]? = some (key, src) ∧ r.keys[i]? = some key ∧
      obj.tensor = src.tensor
  accounted : r.allocated.Perm (r.objects.map CopiedObj.ident ++ r.released)

/-- The condition: once a key has been passed over, nothing is allocated any more. -/
def PresentLast (s : σ) (pairs : List (CacheEngineKey × SourceObj β)) : Prop :=
  .allocated ∉ (b.answers s pairs).dropWhile (· = .allocated)

/-- **The copies belong to the keys if and only if no key that the target holds comes before one
that is copied.** -/
theorem copiesPaired_iff (s : σ) (keys : List CacheEngineKey)
    (srcMemoryObjs : List (SourceObj β)) :
    CopiesPaired keys srcMemoryObjs (b.allocateAndCopyObjects s keys srcMemoryObjs) ↔
      b.PresentLast s (keys.zip srcMemoryObjs) := by
  unfold PresentLast
  rw [← allocatedAt_eq_range'_iff 0, ← b.map_source_copyFrom s 0, List.length_map]
  constructor
  · intro h
    apply List.ext_getElem
    · simp
    · intro i hi _
      rw [List.getElem_map, List.getElem_range']
      have hobj : i < (b.copyFrom s 0 (keys.zip srcMemoryObjs)).objects.length := by
        simpa using hi
      have := (h.paired i _ (List.getElem?_eq_getElem hobj)).1
      show ((b.copyFrom s 0 (keys.zip srcMemoryObjs)).objects[i]).source = 0 + 1 * i
      rw [Nat.zero_add, Nat.one_mul]
      exact this
  · intro hsources
    refine ⟨?_, ?_, ?_⟩
    · have hle := b.length_objects_copyFrom_le s 0 (keys.zip srcMemoryObjs)
      rw [List.length_zip] at hle
      show (keys.take (b.copyFrom s 0 (keys.zip srcMemoryObjs)).objects.length).length = _
      rw [List.length_take]
      show min _ _ = (b.copyFrom s 0 (keys.zip srcMemoryObjs)).objects.length
      omega
    · intro i obj hobj
      have hobj : (b.copyFrom s 0 (keys.zip srcMemoryObjs)).objects[i]? = some obj := hobj
      obtain ⟨hi, hget⟩ := List.getElem?_eq_some_iff.mp hobj
      -- the `i`-th source place is `i`
      have hsource : obj.source = i := by
        have := congrArg (fun l => l[i]?) hsources
        simp only [List.getElem?_map, hobj, Option.map_some] at this
        rw [List.getElem?_range' hi] at this
        simpa using this
      obtain ⟨j, ⟨key, src⟩, hj, hpair, htensor⟩ := b.tensor_copyFrom (List.mem_of_getElem? hobj)
      obtain rfl : i = j := by omega
      refine ⟨hsource, key, src, hpair, ?_, htensor⟩
      show (keys.take _)[i]? = some key
      rw [List.getElem?_take_of_lt hi]
      exact (List.getElem?_zip_eq_some.mp hpair).1
    · exact .of_eq (b.allocated_copyFrom s 0 (keys.zip srcMemoryObjs))

/-! ## A key in the way -/

/-- A target that holds the chunk with hash 1 and has room for any object. -/
def holdingFirst : AllocatorBackend Nat where
  contains := fun _ key => key.chunkHash = 1
  allocate := fun next _ => (some ⟨next, true⟩, next + 1)
  refCountDown := fun next _ => next

/-- Two chunks, the first of which the target holds. -/
def copyKeys : List CacheEngineKey :=
  [⟨"model", 1, 0, 1, .float16, none, none⟩, ⟨"model", 1, 0, 2, .float16, none, none⟩]

def copySources : List (SourceObj Nat) :=
  [⟨⟨[2, 1, 4, 8], .float16, .KV_2LTD⟩, 10⟩, ⟨⟨[2, 1, 4, 8], .float16, .KV_2LTD⟩, 20⟩]

/-- It can fail: the copy of the second chunk comes back under the key of the first. -/
theorem not_copiesPaired_holdingFirst :
    let r := holdingFirst.allocateAndCopyObjects 0 copyKeys copySources
    r.keys.map CacheEngineKey.chunkHash = [1] ∧ r.objects.map CopiedObj.tensor = [20] ∧
      ¬ CopiesPaired copyKeys copySources r := by
  intro r
  refine ⟨by decide +kernel, by decide +kernel, ?_⟩
  intro h
  have hplace := (h.paired 0 ⟨0, 1, 20⟩ (by decide +kernel)).1
  cases hplace

end AllocatorBackend

end LMCache.Storage
