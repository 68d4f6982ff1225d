/-
# LMCache.Storage.PutReferences — the references of one `batched_put`, from its call to its end.

`batched_put` gathers the objects for each allocator in a dictionary: the caller's own for the
manager's allocator, and copies for every other one that some backend needs.  Each backend is given
the objects of its allocator and takes a reference to what it keeps.  What is in the dictionary is
released in a last loop; a backend that raises ends the call in front of it.

Source: `StorageManager.batched_put` and `allocate_and_copy_objects` of
`v1/storage_backend/storage_manager.py`; `submit_put_task` and `batched_submit_put_task` of
`LocalDiskBackend`.
-/
import LMCache.Lib.Counts
import LMCache.Lib.Dict
import LMCache.Storage.CrossCopy
import LMCache.Storage.FailedPuts

namespace LMCache.Storage

open LMCache.Lib

/-! ## The manager and its backends -/

/-- How a backend answers `batched_submit_put_task`: the references that it takes and keeps, the
state it leaves, and what it raises. -/
structure PutAnswer (σ : Type) where
  held : List Nat
  world : σ
  raised : Option PyError

/-- What `batched_put` uses of a backend. -/
structure PutTarget (σ : Type) where
  /-- The class name of `get_allocator_backend()`. -/
  allocatorName : String
  allocator : AllocatorBackend σ
  submit : σ → List CacheEngineKey → List Nat → PutAnswer σ
  /-- It keeps nothing but what it was given. -/
  held_subperm : ∀ s keys objs, (submit s keys objs).held.Subperm objs

structure PutManager (σ : Type) where
  /-- The class name of `allocator_backend`, which the scheduler has none of. -/
  allocatorBackend : Option String
  storageBackends : Dict String (PutTarget σ)
  bypassedBackends : List String

/-- The books of a `batched_put`: the reference counts, the dictionary of keys and objects, the
references that were dropped, the copies that were allocated, and the answers of the backends. -/
structure PutBooks (σ : Type) where
  world : σ
  refs : Nat → Nat
  objDict : Dict String (List CacheEngineKey × List Nat)
  released : List Nat
  copies : List Nat
  answers : List (PutAnswer σ)

namespace PutBooks

variable {σ : Type} (s : PutBooks σ)

/-- The objects of the dictionary. -/
def objs : List Nat := s.objDict.values.flatMap Prod.snd

/-- What the backends hold. -/
def held : List Nat := s.answers.flatMap PutAnswer.held

/-- `obj_dict[cname]`, after it was filled if need be. -/
def provide {β : Type} (target : PutTarget σ) (keys : List CacheEngineKey)
    (memoryObjs : List (Nat × SourceObj β)) : PutBooks σ :=
  if target.allocatorName ∈ s.objDict then s
  else
    let r := target.allocator.allocateAndCopyObjects s.world keys (memoryObjs.map Prod.snd)
    { s with
      world := r.state
      refs := lowerAll (raiseAll s.refs r.allocated) r.released
      objDict := s.objDict.set target.allocatorName (r.keys, r.objects.map CopiedObj.ident)
      released := s.released ++ r.released
      copies := s.copies ++ r.allocated }

/-- A backend has answered. -/
def submitted (answer : PutAnswer σ) : PutBooks σ :=
  { s with
    world := answer.world
    refs := raiseAll s.refs answer.held
    answers := s.answers ++ [answer] }

/-- The last loop. -/
def releaseAll : PutBooks σ :=
  { s with refs := lowerAll s.refs s.objs, released := s.released ++ s.objs }

end PutBooks

namespace PutManager

variable {σ β : Type} (m : PutManager σ)

/-- `location and backend_name != location`, or the backend is bypassed. -/
def skips (location : Option String) (backendName : String) : Bool :=
  (match location with
    | none => false
    | some l => l != "" && backendName != l) || m.bypassedBackends.contains backendName

/-- The loop over the backends. -/
def putLoop (keys : List CacheEngineKey) (memoryObjs : List (Nat × SourceObj β))
    (location : Option String) :
    List (String × PutTarget σ) → PutBooks σ → PutBooks σ × Option PyError
  | [], s => (s, none)
  | (backendName, backend) :: rest, s =>
    if m.skips location backendName then putLoop keys memoryObjs location rest s
    else
      let s := s.provide backend keys memoryObjs
      match s.objDict.get? backend.allocatorName with
      | none => (s, some (.keyError backend.allocatorName))
      | some (ks, objs) =>
        let answer := backend.submit s.world ks objs
        match answer.raised with
        | some e => (s.submitted answer, some e)
        | none => putLoop keys memoryObjs location rest (s.submitted answer)

/-- Books in which nothing has happened. -/
def opened (world : σ) (refs : Nat → Nat) : PutBooks σ := ⟨world, refs, .empty, [], [], []⟩

/-- `batched_put`: the books at its end, and what it raises. -/
def batchedPut (world : σ) (refs : Nat → Nat) (keys : List CacheEngineKey)
    (memoryObjs : List (Nat × SourceObj β)) (location : Option String) :
    PutBooks σ × Option PyError :=
  match m.allocatorBackend with
  | none =>
    (opened world refs, some (.runtimeError "Batched put not available for scheduler role"))
  | some cname =>
    match m.putLoop keys memoryObjs location m.storageBackends.entries
        { opened world refs with objDict := Dict.empty.set cname (keys, memoryObjs.map Prod.fst) } with
    | (s, some e) => (s, some e)
    | (s, none) => (s.releaseAll, none)

end PutManager

/-! ## The local disk as a backend -/

/-- What `submit_put_task` of the local disk meets: whether the object has a tensor, its size, what
the eviction loop comes upon, and whether the write can be scheduled. -/
structure DiskQuery where
  hasTensor : Bool
  physicalSize : Nat
  turns : List EvictTurn
  scheduled : Except PyError Unit

namespace LocalDiskBackend

/-- `submit_put_task`, without the write that it schedules. -/
def submitOne (b : LocalDiskBackend) (key : CacheEngineKey) (memoryObj : Nat) (q : DiskQuery) :
    PutAnswer LocalDiskBackend :=
  if ¬q.hasTensor then ⟨[], b, some (.assertionError "")⟩
  else if key ∈ b.putTasks then ⟨[], b, none⟩
  else
    match { b with putTasks := b.putTasks ++ [key] }.makeRoomFor q.physicalSize q.turns with
    | (b', .error (.raised e)) => ⟨[], b', some e⟩
    | (b', .error _) => ⟨[], b', none⟩
    | (b', .ok _) =>
      match q.scheduled with
      | .error e => ⟨[memoryObj], b', some e⟩
      | .ok _ => ⟨[memoryObj], b', none⟩

/-- `batched_submit_put_task`. -/
def submitEach (ask : CacheEngineKey → Nat → DiskQuery) (b : LocalDiskBackend) :
    List (CacheEngineKey × Nat) → PutAnswer LocalDiskBackend
  | [] => ⟨[], b, none⟩
  | (key, memoryObj) :: rest =>
    let answer := b.submitOne key memoryObj (ask key memoryObj)
    match answer.raised with
    | some _ => answer
    | none =>
      let r := submitEach ask answer.world rest
      { r with held := answer.held ++ r.held }

theorem held_submitOne (b : LocalDiskBackend) (key : CacheEngineKey) (memoryObj : Nat)
    (q : DiskQuery) : (b.submitOne key memoryObj q).held.Sublist [memoryObj] := by
  unfold submitOne
  split
  · exact List.nil_sublist _
  · split
    · exact List.nil_sublist _
    · split
      · exact List.nil_sublist _
      · exact List.nil_sublist _
      · split
        · exact List.Sublist.refl _
        · exact List.Sublist.refl _

theorem held_submitEach (ask : CacheEngineKey → Nat → DiskQuery) (b : LocalDiskBackend)
    (pairs : List (CacheEngineKey × Nat)) :
    (b.submitEach ask pairs).held.Sublist (pairs.map Prod.snd) := by
  induction pairs generalizing b with
  | nil => exact List.Sublist.refl _
  | cons pair rest ih =>
    obtain ⟨key, memoryObj⟩ := pair
    have hone := b.held_submitOne key memoryObj (ask key memoryObj)
    unfold submitEach
    dsimp only
    split
    · exact hone.trans (List.singleton_sublist.mpr List.mem_cons_self)
    · exact hone.append (ih _)

theorem map_snd_zip_sublist (keys : List CacheEngineKey) (objs : List Nat) :
    ((keys.zip objs).map Prod.snd).Sublist objs := by
  induction keys generalizing objs with
  | nil => exact List.nil_sublist _
  | cons key keys ih =>
    cases objs with
    | nil => exact List.Sublist.refl _
    | cons obj objs => exact (ih objs).cons_cons obj

/-- The local disk as `batched_put` uses it. -/
def putTarget (allocatorName : String) (allocator : AllocatorBackend LocalDiskBackend)
    (ask : CacheEngineKey → Nat → DiskQuery) : PutTarget LocalDiskBackend where
  allocatorName := allocatorName
  allocator := allocator
  submit := fun b keys objs => b.submitEach ask (keys.zip objs)
  held_subperm := by
    intro b keys objs
    exact ((b.held_submitEach ask _).trans (map_snd_zip_sublist keys objs)).subperm

end LocalDiskBackend

/-! ## The books in the loop -/

section
variable {σ β : Type}

/-- The books of a put of these objects, with these counts at its beginning, before the last loop:
what is in the dictionary is what was passed in and what was copied, but for what was dropped. -/
structure PutInv (memoryObjs : List Nat) (refs : Nat → Nat) (s : PutBooks σ) : Prop where
  gathered : (s.released ++ s.objs).Perm (memoryObjs ++ s.copies)
  counted : ∀ obj, s.refs obj + s.released.count obj =
    refs obj + s.copies.count obj + s.held.count obj
  whole : memoryObjs.length ≤ s.objs.length
  empty : memoryObjs = [] → s.copies = [] ∧ s.held = []

variable {s : PutBooks σ} {refs : Nat → Nat} {memoryObjs : List Nat}

theorem PutBooks.objs_set {cname : String} (h : cname ∉ s.objDict)
    (entry : List CacheEngineKey × List Nat) :
    (s.objDict.set cname entry).values.flatMap Prod.snd = s.objs ++ entry.2 := by
  rw [Dict.values_set_of_notMem h, List.flatMap_append, List.flatMap_singleton]
  rfl

theorem putInv_opened (world : σ) (refs : Nat → Nat) (cname : String)
    (keys : List CacheEngineKey) (memoryObjs : List Nat) :
    PutInv memoryObjs refs { PutManager.opened world refs with
      objDict := Dict.empty.set cname (keys, memoryObjs) } := by
  have hobjs : ∀ s : PutBooks σ, s.objDict = Dict.empty.set cname (keys, memoryObjs) →
      s.objs = memoryObjs := by
    intro s hs
    have hnew : cname ∉ (PutManager.opened world refs).objDict := Dict.not_mem_empty cname
    have hset := PutBooks.objs_set hnew (keys, memoryObjs)
    unfold PutBooks.objs
    rw [hs]
    exact hset
  constructor
  case gathered => rw [hobjs _ rfl]; simp [PutManager.opened]
  case counted => intro obj; rfl
  case whole => rw [hobjs _ rfl]
  case empty => exact fun _ => ⟨rfl, rfl⟩

/-- **Copies for another allocator** come with a reference each, and are in the dictionary unless
they were dropped at once. -/
theorem PutInv.provide {memoryObjs : List (Nat × SourceObj β)}
    (h : PutInv (memoryObjs.map Prod.fst) refs s) (target : PutTarget σ)
    (keys : List CacheEngineKey) :
    PutInv (memoryObjs.map Prod.fst) refs (s.provide target keys memoryObjs) := by
  unfold PutBooks.provide
  split
  · exact h
  · rename_i hnew
    have hallocated : (target.allocator.allocateAndCopyObjects s.world keys
        (memoryObjs.map Prod.snd)).allocated = _ :=
      target.allocator.allocated_copyFrom s.world 0 (keys.zip (memoryObjs.map Prod.snd))
    have hnil : memoryObjs = [] → (target.allocator.allocateAndCopyObjects s.world keys
        (memoryObjs.map Prod.snd)).allocated = [] := by
      rintro rfl
      unfold AllocatorBackend.allocateAndCopyObjects
      rw [List.map_nil, List.zip_nil_right]
      rfl
    change (target.allocator.allocateAndCopyObjects s.world keys
        (memoryObjs.map Prod.snd)).allocated =
      (target.allocator.allocateAndCopyObjects s.world keys
        (memoryObjs.map Prod.snd)).objects.map CopiedObj.ident ++
      (target.allocator.allocateAndCopyObjects s.world keys
        (memoryObjs.map Prod.snd)).released at hallocated
    generalize target.allocator.allocateAndCopyObjects s.world keys (memoryObjs.map Prod.snd) = r
      at *
    have hobjs : PutBooks.objs { s with
        world := r.state
        refs := lowerAll (raiseAll s.refs r.allocated) r.released
        objDict := s.objDict.set target.allocatorName (r.keys, r.objects.map CopiedObj.ident)
        released := s.released ++ r.released
        copies := s.copies ++ r.allocated } = s.objs ++ r.objects.map CopiedObj.ident :=
      PutBooks.objs_set hnew _
    constructor
    case gathered =>
      rw [hobjs, List.perm_iff_count]
      intro obj
      have hgathered := h.gathered.count_eq obj
      simp only [hallocated, List.count_append] at hgathered ⊢
      omega
    case counted =>
      intro obj
      have hcounted := h.counted obj
      have hheld : PutBooks.held { s with
        world := r.state
        refs := lowerAll (raiseAll s.refs r.allocated) r.released
        objDict := s.objDict.set target.allocatorName (r.keys, r.objects.map CopiedObj.ident)
        released := s.released ++ r.released
        copies := s.copies ++ r.allocated } = s.held := rfl
      rw [hheld]
      simp only [lowerAll_apply, raiseAll_apply, hallocated, List.count_append] at hcounted ⊢
      omega
    case whole =>
      rw [hobjs, List.length_append]
      exact le_trans h.whole (Nat.le_add_right _ _)
    case empty =>
      intro hempty
      obtain ⟨hcopies, hheld⟩ := h.empty hempty
      exact ⟨List.append_eq_nil_iff.mpr ⟨hcopies, hnil (List.map_eq_nil_iff.mp hempty)⟩, hheld⟩

/-- Of no objects no copies are released, and none are in the dictionary. -/
theorem PutInv.eq_nil (h : PutInv memoryObjs refs s) (hempty : memoryObjs = []) :
    s.released = [] ∧ s.objs = [] := by
  have hgathered := h.gathered
  rw [hempty, (h.empty hempty).1] at hgathered
  exact List.append_eq_nil_iff.mp hgathered.eq_nil

/-- A backend takes references to what it was given from the dictionary. -/
theorem PutInv.submitted (h : PutInv memoryObjs refs s) {answer : PutAnswer σ} {objs : List Nat}
    (hobjs : objs ⊆ s.objs) (hheld : answer.held.Subperm objs) :
    PutInv memoryObjs refs (s.submitted answer) where
  gathered := h.gathered
  counted := by
    intro obj
    have hcounted := h.counted obj
    simp only [PutBooks.submitted, PutBooks.held, raiseAll_apply, List.flatMap_append,
      List.flatMap_singleton, List.count_append] at hcounted ⊢
    omega
  whole := h.whole
  empty := by
    intro hempty
    obtain ⟨hcopies, hnone⟩ := h.empty hempty
    -- there is nothing in the dictionary
    have hobjs : objs = [] := by
      rw [(h.eq_nil hempty).2] at hobjs
      exact List.subset_nil.mp hobjs
    refine ⟨hcopies, ?_⟩
    rw [hobjs, List.subperm_nil] at hheld
    unfold PutBooks.submitted PutBooks.held
    rw [List.flatMap_append, List.flatMap_singleton, hheld, List.append_nil]
    exact hnone

/-- **The loop keeps the books**, and raises just when a backend does. -/
theorem PutInv.putLoop (m : PutManager σ) {memoryObjs : List (Nat × SourceObj β)}
    (keys : List CacheEngineKey) (location : Option String) (backends : List (String × PutTarget σ))
    (h : PutInv (memoryObjs.map Prod.fst) refs s) (hquiet : ∀ a ∈ s.answers, a.raised = none) :
    PutInv (memoryObjs.map Prod.fst) refs (m.putLoop keys memoryObjs location backends s).1 ∧
      ((m.putLoop keys memoryObjs location backends s).2 = none ↔
        ∀ a ∈ (m.putLoop keys memoryObjs location backends s).1.answers, a.raised = none) := by
  induction backends generalizing s with
  | nil => exact ⟨h, iff_of_true rfl hquiet⟩
  | cons entry rest ih =>
    obtain ⟨backendName, backend⟩ := entry
    unfold PutManager.putLoop
    split
    · exact ih h hquiet
    · have hprovided := h.provide backend keys
      have hquiet' : ∀ a ∈ (s.provide backend keys memoryObjs).answers, a.raised = none := by
        unfold PutBooks.provide
        split <;> exact hquiet
      have hmem : backend.allocatorName ∈ (s.provide backend keys memoryObjs).objDict := by
        unfold PutBooks.provide
        split
        · assumption
        · exact (Dict.mem_set _ _ _ _).mpr (.inl rfl)
      dsimp only
      generalize s.provide backend keys memoryObjs = s' at *
      obtain ⟨⟨ks, objs⟩, hentry⟩ := Dict.mem_iff_get?.mp hmem
      have hobjs : objs ⊆ s'.objs := fun obj hobj =>
        List.mem_flatMap.mpr ⟨(ks, objs), Dict.mem_values_of_get? hentry, hobj⟩
      have hsubmitted := hprovided.submitted hobjs (backend.held_subperm s'.world ks objs)
      rw [hentry]
      dsimp only
      generalize backend.submit s'.world ks objs = answer at *
      have hanswers : (s'.submitted answer).answers = s'.answers ++ [answer] := rfl
      cases hraised : answer.raised with
      | some e =>
        refine ⟨hsubmitted, iff_of_false (fun h => by cases h) fun hall => ?_⟩
        rw [hall answer (by simp [hanswers])] at hraised
        cases hraised
      | none =>
        refine ih hsubmitted ?_
        rw [hanswers, List.forall_mem_append, List.forall_mem_singleton]
        exact ⟨hquiet', hraised⟩

/-! ## The references at the end -/

/-- Every object that was passed in has lost one of the caller's references for each time it was
passed, and every copy its first one; what is left are the references of the backends. -/
structure ReferencesBalance (memoryObjs : List Nat) (refs : Nat → Nat) (s : PutBooks σ) : Prop where
  released : s.released.Perm (memoryObjs ++ s.copies)
  counted : ∀ obj, s.refs obj = refs obj + s.held.count obj - memoryObjs.count obj

theorem PutInv.releaseAll (h : PutInv memoryObjs refs s) :
    ReferencesBalance memoryObjs refs s.releaseAll where
  released := h.gathered
  counted := by
    intro obj
    have hcounted := h.counted obj
    have hgathered := h.gathered.count_eq obj
    have hheld : s.releaseAll.held = s.held := rfl
    have hrefs : s.releaseAll.refs obj = s.refs obj - s.objs.count obj := lowerAll_apply _ _ _
    rw [hheld, hrefs]
    simp only [List.count_append] at hgathered
    omega

/-- Without the last loop the references balance only where there is nothing to release. -/
theorem PutInv.referencesBalance_iff (h : PutInv memoryObjs refs s) :
    ReferencesBalance memoryObjs refs s ↔ memoryObjs = [] := by
  constructor
  · intro hbalance
    have hlength := (h.gathered.trans hbalance.released.symm).length_eq
    have hwhole := h.whole
    rw [List.length_append] at hlength
    exact List.eq_nil_of_length_eq_zero (by omega)
  · intro hempty
    have hcopies := (h.empty hempty).1
    have hreleased := (h.eq_nil hempty).1
    constructor
    case released =>
      rw [hreleased, hempty, hcopies]
      exact List.Perm.refl _
    case counted =>
      intro obj
      have hcounted := h.counted obj
      rw [hreleased, hcopies] at hcounted
      rw [hempty]
      simpa using hcounted

end

namespace PutManager

variable {σ β : Type} (m : PutManager σ)

/-- **A `batched_put` balances its references** if and only if it is called with no objects, or on a
manager with an allocator and no backend raises. -/
theorem batchedPut_balances_iff (world : σ) (refs : Nat → Nat) (keys : List CacheEngineKey)
    (memoryObjs : List (Nat × SourceObj β)) (location : Option String) :
    ReferencesBalance (memoryObjs.map Prod.fst) refs
        (m.batchedPut world refs keys memoryObjs location).1 ↔
      memoryObjs = [] ∨ (m.allocatorBackend ≠ none ∧
        ∀ answer ∈ (m.batchedPut world refs keys memoryObjs location).1.answers,
          answer.raised = none) := by
  have hnil : memoryObjs.map Prod.fst = [] ↔ memoryObjs = [] := List.map_eq_nil_iff
  unfold batchedPut
  cases hallocator : m.allocatorBackend with
  | none =>
    have hiff : ReferencesBalance (memoryObjs.map Prod.fst) refs (opened world refs) ↔
        memoryObjs = [] := by
      constructor
      · intro hbalance
        have hlength := hbalance.released.length_eq
        exact hnil.mp (List.eq_nil_of_length_eq_zero (by simpa [opened] using hlength.symm))
      · rintro rfl
        exact ⟨List.Perm.refl _, fun _ => rfl⟩
    rw [hiff]
    simp
  | some cname =>
    obtain ⟨hinv, hraised⟩ := (putInv_opened world refs cname keys
      (memoryObjs.map Prod.fst)).putLoop m keys location m.storageBackends.entries
      (fun _ h => nomatch h)
    dsimp only
    generalize m.putLoop keys memoryObjs location m.storageBackends.entries _ = r at *
    obtain ⟨s, raised⟩ := r
    cases raised with
    | none =>
      have hquiet := hraised.mp rfl
      exact iff_of_true hinv.releaseAll (.inr ⟨by simp, hquiet⟩)
    | some e =>
      have hloud : ¬ ∀ a ∈ s.answers, a.raised = none := fun h => by
        cases hraised.mpr h
      rw [hinv.referencesBalance_iff, hnil]
      exact ⟨.inl, fun h => h.resolve_right fun hquiet => hloud hquiet.2⟩

/-! ## A disk that cannot schedule a write -/

/-- A manager with a local disk whose event loop is closed. -/
def closedLoopManager : PutManager LocalDiskBackend where
  allocatorBackend := some "LocalCPUBackend"
  storageBackends := Dict.empty.set "LocalDiskBackend"
    (LocalDiskBackend.putTarget "LocalCPUBackend"
      ⟨fun _ _ => false, fun b _ => (none, b), fun b _ => b⟩
      fun _ _ => ⟨true, 4, [], .error (.runtimeError "Event loop is closed")⟩)
  bypassedBackends := []

/-- The put of one object with one reference. -/
def closedLoopPut : PutBooks LocalDiskBackend × Option PyError :=
  closedLoopManager.batchedPut LocalDiskBackend.smallDisk (fun _ => 1)
    [LocalDiskBackend.storedChunk] [(0, (⟨⟨[4], .uint8, .BINARY⟩, ()⟩ : SourceObj Unit))] none

/-- The disk holds the object, and the caller's reference is never dropped. -/
theorem not_balances_closedLoop :
    (closedLoopPut.2 = some (.runtimeError "Event loop is closed") ∧ closedLoopPut.1.refs 0 = 2 ∧
      closedLoopPut.1.held = [0]) ∧
    ¬ ReferencesBalance [0] (fun _ => 1) closedLoopPut.1 := by
  have hrefs : closedLoopPut.1.refs 0 = 2 := by decide +kernel
  have hheld : closedLoopPut.1.held = [0] := by decide +kernel
  refine ⟨⟨by decide +kernel, hrefs, hheld⟩, fun hbalance => ?_⟩
  have hcounted := hbalance.counted 0
  rw [hrefs, hheld] at hcounted
  cases hcounted

end PutManager

end LMCache.Storage
