/-
# LMCache.Memory.PagedAllocator — recycled pages and their owners.

Source: `v1/memory_management.py`, `PagedTensorMemoryAllocator` with the free paths of
`TensorMemoryObj`, and `v1/pin_monitor.py`, `PinMonitor._force_unpin_timeout_object`.

The memory objects of this allocator are its pages: built once, queued, handed out and queued again.
`allocate` resets the reference count of a page but not its pin count, and `free` appends the page
to the queue *without invalidating it* (the call of `invalidate` is commented out), so a decrement
issued by an earlier owner still reaches a free path.

`PagedPool` adds, for the statements only, one `Handle` per page handed out.  A handle is held until
a page goes back to the queue through it.  `Good` is the ownership property; `Allowed` says of one
call, from the counters before it, that each page it returns is returned through a handle still held.
The result is exact: `Good` holds all along a run exactly when every call of the run is `Allowed`.
It rests on a count, since a page that goes back through a handle no longer held makes one page too
many.
-/
import Mathlib.Tactic
import LMCache.Lib.Run
import LMCache.Memory.MemoryObj

namespace LMCache.Memory

open LMCache.Lib

/-! ## The source -/

structure PagedTensorMemoryAllocator where
  pagedBuffers : List BufferSlice
  shapes : List TorchSize
  dtypes : List TorchDtype
  fmt : MemoryFormat
  alignBytes : Nat
  /-- The page objects, by page index. -/
  pages : List TensorMemoryObj
  /-- `free_blocks`, by page index. -/
  freeBlocks : List Nat
  numActiveAllocations : Int
  totalAllocatedSize : Int

namespace PagedTensorMemoryAllocator

/-- `torch.split(buffer, split_size)`, for a buffer whose size is a multiple of the split size; an
empty buffer gives one empty piece. -/
def torchSplit (numel splitSize : Nat) : List BufferSlice :=
  (List.range (max 1 (numel / splitSize))).map fun i =>
    ⟨i * splitSize, min splitSize (numel - i * splitSize)⟩

/-- The message of the assertion on the buffer size. -/
def unalignedMessage (bufferSize alignBytes : Nat) : String :=
  s!"Buffer size {bufferSize} must be a multiple of align bytes {alignBytes}" ++
    " in paged memory allocator."

/-- `PagedTensorMemoryAllocator(tensor, shapes, dtypes, fmt)` over a buffer of `numel` bytes. -/
def init (numel : Nat) (shapes : List TorchSize) (dtypes : List TorchDtype) (fmt : MemoryFormat) :
    Except PyError PagedTensorMemoryAllocator :=
  match getSizeBytes shapes dtypes with
  | .error e => .error e
  | .ok alignBytes =>
  if alignBytes = 0 then .error (.zeroDivisionError "integer modulo by zero")
  else if numel % alignBytes ≠ 0 then
    .error (.assertionError (unalignedMessage numel alignBytes))
  else
    match shapes, dtypes with
    | shape :: _, dtype :: _ =>
      let pagedBuffers := torchSplit numel alignBytes
      .ok {
        pagedBuffers := pagedBuffers
        shapes := shapes
        dtypes := dtypes
        fmt := fmt
        alignBytes := alignBytes
        pages := pagedBuffers.zipIdx.map fun (buf, idx) =>
          .init buf shape dtype idx alignBytes fmt shapes dtypes
        freeBlocks := List.range pagedBuffers.length
        numActiveAllocations := 0
        totalAllocatedSize := 0 }
    | _, _ => .error (.indexError indexMessage)

/-- What `allocate` writes into a page it takes from the queue. -/
def reuse (a : PagedTensorMemoryAllocator) (shape : TorchSize) (dtype : TorchDtype)
    (shapes : List TorchSize) (dtypes : List TorchDtype) (fmt : MemoryFormat)
    (o : TensorMemoryObj) : TensorMemoryObj :=
  let o := { o with
    metadata := { o.metadata with
      shape := shape, dtype := dtype, shapes := shapes, dtypes := dtypes, fmt := fmt,
      refCount := 1 } }
  if shapes ≠ a.shapes then
    match getSizeBytes shapes dtypes with
    | .ok sizeInBytes => { o with rawData := o.rawData.slice 0 sizeInBytes }
    | .error _ => o
  else o

/-- `allocate`: the index of the page, `None` when the queue is empty, or an exception. -/
def allocate (a : PagedTensorMemoryAllocator) (shapes : OneOrList TorchSize)
    (dtypes : OneOrList TorchDtype) (fmt : MemoryFormat) :
    Except PyError (Option Nat) × PagedTensorMemoryAllocator :=
  match adaptShapesAndDtypes shapes dtypes with
  | .error e => (.error e, a)
  | .ok (shapes, dtypes) =>
  match a.freeBlocks with
  | [] => (.ok none, a)
  | p :: rest =>
    match shapes, dtypes with
    | shape :: _, dtype :: _ =>
      (.ok (some p), { a with
        freeBlocks := rest
        pages := a.pages.modify p (a.reuse shape dtype shapes dtypes fmt)
        numActiveAllocations := a.numActiveAllocations + 1
        totalAllocatedSize := a.totalAllocatedSize + a.alignBytes })
    | _, _ => (.error (.indexError indexMessage), { a with freeBlocks := rest })

/-- The part of `free` and of the loop of `batched_free` that gives a page back: an invalid page is
skipped, a truncated one gets its whole buffer again. -/
def giveBack (a : PagedTensorMemoryAllocator) (p : Nat) : PagedTensorMemoryAllocator :=
  match a.pages[p]? with
  | none => a
  | some o =>
    if !o.valid then a
    else
      let o := if o.metadata.shapes ≠ a.shapes then
          { o with rawData := (a.pagedBuffers[o.metadata.address.toNat]?).getD o.rawData }
        else o
      -- `memory_obj.invalidate()` is commented out in the source
      { a with pages := a.pages.set p o, freeBlocks := a.freeBlocks ++ [p] }

/-- `free`. -/
def free (a : PagedTensorMemoryAllocator) (p : Nat) : PagedTensorMemoryAllocator :=
  if (a.pages[p]?).any fun o => o.valid then
    let a := a.giveBack p
    { a with
      totalAllocatedSize := a.totalAllocatedSize - a.alignBytes
      numActiveAllocations := a.numActiveAllocations - 1 }
  else a

/-- `batched_free`. -/
def batchedFree (a : PagedTensorMemoryAllocator) (ps : List Nat) (updateStats : Bool := true) :
    PagedTensorMemoryAllocator :=
  let a := ps.foldl giveBack a
  if updateStats then
    { a with
      totalAllocatedSize := a.totalAllocatedSize - a.alignBytes * ps.length
      numActiveAllocations := a.numActiveAllocations - ps.length }
  else a

/-- The loop of `batched_allocate`; when the queue runs dry the pages taken so far go back. -/
def batchedAllocateLoop (shapes : List TorchSize) (dtypes : List TorchDtype) (fmt : MemoryFormat) :
    Nat → PagedTensorMemoryAllocator → List Nat →
      Except PyError (Option (List Nat)) × PagedTensorMemoryAllocator
  | 0, a, allocatedBlocks => (.ok (some allocatedBlocks), a)
  | n + 1, a, allocatedBlocks =>
    match a.freeBlocks with
    | [] => (.ok none, a.batchedFree allocatedBlocks false)
    | p :: rest =>
      match shapes, dtypes with
      | shape :: _, dtype :: _ =>
        batchedAllocateLoop shapes dtypes fmt n
          { a with
            freeBlocks := rest
            pages := a.pages.modify p (a.reuse shape dtype shapes dtypes fmt) }
          (allocatedBlocks ++ [p])
      | _, _ => (.error (.indexError indexMessage), { a with freeBlocks := rest })

/-- `batched_allocate`. -/
def batchedAllocate (a : PagedTensorMemoryAllocator) (shapes : OneOrList TorchSize)
    (dtypes : OneOrList TorchDtype) (batchSize : Nat) (fmt : MemoryFormat) :
    Except PyError (Option (List Nat)) × PagedTensorMemoryAllocator :=
  match adaptShapesAndDtypes shapes dtypes with
  | .error e => (.error e, a)
  | .ok (shapes, dtypes) =>
  match batchedAllocateLoop shapes dtypes fmt batchSize a [] with
  | (.ok (some ps), a) =>
    let n := a.numActiveAllocations + batchSize
    (.ok (some ps), { a with numActiveAllocations := n, totalAllocatedSize := n * a.alignBytes })
  | r => r

/-! ### The counters of a page -/

/-- Replace page `p` by `f` of it. -/
def updatePage (a : PagedTensorMemoryAllocator) (p : Nat) (f : TensorMemoryObj → TensorMemoryObj) :
    PagedTensorMemoryAllocator := { a with pages := a.pages.modify p f }

/-- A counter decrement `f` on page `p`, followed by `free` when it asks for it. -/
def decrement (a : PagedTensorMemoryAllocator) (p : Nat)
    (f : TensorMemoryObj → TensorMemoryObj × Bool) : PagedTensorMemoryAllocator :=
  match a.pages[p]? with
  | none => a
  | some o =>
    let a := { a with pages := a.pages.set p (f o).1 }
    if (f o).2 then a.free p else a

def refCountDown (a : PagedTensorMemoryAllocator) (p : Nat) : PagedTensorMemoryAllocator :=
  a.decrement p TensorMemoryObj.refCountDown

def unpin (a : PagedTensorMemoryAllocator) (p : Nat) : PagedTensorMemoryAllocator :=
  (a.decrement p TensorMemoryObj.unpinDecrement).updatePage p TensorMemoryObj.unpinClamp

/-- The pin count of page `p`. -/
def pinCount (a : PagedTensorMemoryAllocator) (p : Nat) : Int :=
  (a.pages[p]?.map fun o => o.metadata.pinCount).getD 0

/-- `while memory_obj.meta.pin_count > 0: memory_obj.unpin()`, for at most `fuel` rounds. -/
def unpinWhilePinned : Nat → PagedTensorMemoryAllocator → Nat → PagedTensorMemoryAllocator
  | 0, a, _ => a
  | fuel + 1, a, p => if a.pinCount p > 0 then unpinWhilePinned fuel (a.unpin p) p else a

/-- `PinMonitor._force_unpin_timeout_object`.  Every round lowers the pin count by one, so as many
rounds as it says are enough (`forceUnpin_pinCount`). -/
def forceUnpin (a : PagedTensorMemoryAllocator) (p : Nat) : PagedTensorMemoryAllocator :=
  unpinWhilePinned (a.pinCount p).toNat a p

end PagedTensorMemoryAllocator

/-! ## Pages and their owners -/

/-- One hand-out of a page; `id` tells apart the successive owners of the same page. -/
structure Handle where
  id : Nat
  page : Nat
  deriving DecidableEq, Repr

/-- An allocator and the handles through which no page has gone back yet. -/
structure PagedPool where
  allocator : PagedTensorMemoryAllocator
  nextId : Nat
  held : List Handle

/-- One call on the allocator, on a page through one of its owners, or of the pin monitor. -/
inductive PagedCall where
  | allocate (shapes : OneOrList TorchSize) (dtypes : OneOrList TorchDtype) (fmt : MemoryFormat)
  | batchedAllocate (shapes : OneOrList TorchSize) (dtypes : OneOrList TorchDtype)
      (batchSize : Nat) (fmt : MemoryFormat)
  | refCountUp (h : Handle)
  | refCountDown (h : Handle)
  | pin (h : Handle)
  | unpin (h : Handle)
  | free (h : Handle)
  | batchedFree (hs : List Handle)
  | forceUnpin (page : Nat)

namespace PagedPool

/-- A fresh allocator, every page in the queue. -/
def init (a : PagedTensorMemoryAllocator) : PagedPool := ⟨a, 0, []⟩

/-- The owner on whose behalf the pin monitor acts. -/
def ownerOf (s : PagedPool) (p : Nat) : Option Handle := s.held.find? fun h => decide (h.page = p)

/-- The page of a handle, when the condition on its counters holds. -/
def returningIf (s : PagedPool) (h : Handle) (cond : MemoryObjMetadata → Bool) :
    List (Nat × Option Handle) :=
  if (s.allocator.pages[h.page]?).any fun o => cond o.metadata then [(h.page, some h)] else []

/-- The pages a call returns to the queue and the handles it returns them through, read off the
counters before the call. -/
def returning (s : PagedPool) : PagedCall → List (Nat × Option Handle)
  | .refCountDown h => s.returningIf h fun m => decide (m.refCount ≤ 1 ∧ m.pinCount = 0)
  | .unpin h => s.returningIf h fun m => decide (m.pinCount ≤ 1 ∧ m.refCount ≤ 0)
  | .free h => s.returningIf h fun _ => true
  | .batchedFree hs => hs.flatMap fun h => s.returningIf h fun _ => true
  | .forceUnpin p =>
    if (s.allocator.pages[p]?).any fun o =>
        decide (o.metadata.pinCount > 0 ∧ o.metadata.refCount ≤ 0) then [(p, s.ownerOf p)]
    else []
  | _ => []

/-- The handles left after a list of returns. -/
def release (held : List Handle) (vias : List (Option Handle)) : List Handle :=
  vias.foldl (fun held via => match via with
    | some h => held.erase h
    | none => held) held

/-- Every page of the list goes back through a handle that is still held at that point. -/
def ReleasesHeld : List Handle → List (Option Handle) → Prop
  | _, [] => True
  | _, none :: _ => False
  | held, some h :: vias => h ∈ held ∧ ReleasesHeld (held.erase h) vias

/-- New handles for a list of pages, numbered from `id` on. -/
def handles : Nat → List Nat → List Handle
  | _, [] => []
  | id, p :: ps => ⟨id, p⟩ :: handles (id + 1) ps

/-- The pages in the result of `allocate`. -/
def pageOf : Except PyError (Option Nat) → List Nat
  | .ok (some p) => [p]
  | _ => []

/-- The pages in the result of `batched_allocate`. -/
def pagesOf : Except PyError (Option (List Nat)) → List Nat
  | .ok (some ps) => ps
  | _ => []

/-- Hand out pages. -/
def handOut (s : PagedPool) (a : PagedTensorMemoryAllocator) (ps : List Nat) : PagedPool :=
  ⟨a, s.nextId + ps.length, handles s.nextId ps ++ s.held⟩

/-- What a call does to the allocator. -/
def callAllocator (a : PagedTensorMemoryAllocator) : PagedCall → PagedTensorMemoryAllocator
  | .allocate shapes dtypes fmt => (a.allocate shapes dtypes fmt).2
  | .batchedAllocate shapes dtypes batchSize fmt => (a.batchedAllocate shapes dtypes batchSize fmt).2
  | .refCountUp h => a.updatePage h.page TensorMemoryObj.refCountUp
  | .refCountDown h => a.refCountDown h.page
  | .pin h => a.updatePage h.page TensorMemoryObj.pin
  | .unpin h => a.unpin h.page
  | .free h => a.free h.page
  | .batchedFree hs => a.batchedFree (hs.map Handle.page)
  | .forceUnpin p => a.forceUnpin p

/-- The pages a call hands out. -/
def handedOut (a : PagedTensorMemoryAllocator) : PagedCall → List Nat
  | .allocate shapes dtypes fmt => pageOf (a.allocate shapes dtypes fmt).1
  | .batchedAllocate shapes dtypes batchSize fmt =>
    pagesOf (a.batchedAllocate shapes dtypes batchSize fmt).1
  | _ => []

/-- One call: the allocator changes, handles are released or handed out. -/
def step (s : PagedPool) (c : PagedCall) : PagedPool :=
  let released := { s with held := release s.held ((s.returning c).map Prod.snd) }
  released.handOut (callAllocator s.allocator c) (handedOut s.allocator c)

/-- No page has two owners: the queue holds no page twice, no two handles hold one page, no queued
page is held, and the queued and the held pages are exactly the pages there are. -/
structure Good (s : PagedPool) : Prop where
  queue_nodup : s.allocator.freeBlocks.Nodup
  held_nodup : (s.held.map Handle.page).Nodup
  disjoint : ∀ p ∈ s.allocator.freeBlocks, p ∉ s.held.map Handle.page
  all : ∀ p, p < s.allocator.pages.length ↔
    p ∈ s.allocator.freeBlocks ∨ p ∈ s.held.map Handle.page

/-- The condition on one call, on the state before it.  Each page the call returns goes back through
a handle that is still held; an allocating call with a free page at hand names a shape. -/
def Allowed (s : PagedPool) : PagedCall → Prop
  | .allocate shapes dtypes _ =>
    shapes.toList = [] → dtypes.toList = [] → s.allocator.freeBlocks = []
  | .batchedAllocate shapes dtypes batchSize _ =>
    shapes.toList = [] → dtypes.toList = [] → batchSize = 0 ∨ s.allocator.freeBlocks = []
  | c => ReleasesHeld s.held ((s.returning c).map Prod.snd)

end PagedPool

/-! ## What a call does to the queue -/

namespace PagedTensorMemoryAllocator

/-- No page is ever invalid. -/
def AllValid (a : PagedTensorMemoryAllocator) : Prop := ∀ o ∈ a.pages, o.valid = true

/-- From `a` to `a'` exactly the pages `ps` went to the end of the queue. -/
structure Queued (a a' : PagedTensorMemoryAllocator) (ps : List Nat) : Prop where
  queue : a'.freeBlocks = a.freeBlocks ++ ps
  bound : ∀ p ∈ ps, p < a.pages.length
  length : a'.pages.length = a.pages.length
  valid : a'.AllValid

variable {a : PagedTensorMemoryAllocator} {p : Nat}

theorem Queued.trans {b c : PagedTensorMemoryAllocator} {ps qs : List Nat} (hab : Queued a b ps)
    (hbc : Queued b c qs) : Queued a c (ps ++ qs) where
  queue := by rw [hbc.queue, hab.queue, List.append_assoc]
  bound := fun p hp => by
    rcases List.mem_append.mp hp with hp | hp
    · exact hab.bound p hp
    · exact hab.length ▸ hbc.bound p hp
  length := hbc.length.trans hab.length
  valid := hbc.valid

/-- `[p]` when the page exists and meets the condition. -/
def pageIf (a : PagedTensorMemoryAllocator) (p : Nat) (cond : TensorMemoryObj → Bool) : List Nat :=
  if (a.pages[p]?).any cond then [p] else []

theorem lt_of_mem_pageIf {q : Nat} {cond : TensorMemoryObj → Bool} (h : q ∈ a.pageIf p cond) :
    q < a.pages.length := by
  unfold pageIf at h
  split at h
  · rename_i hany
    obtain rfl := List.mem_singleton.mp h
    cases hget : a.pages[q]? with
    | none => simp [hget] at hany
    | some o => exact (List.getElem?_eq_some_iff.mp hget).1
  · simp at h

theorem queued_giveBack (h : a.AllValid) (p : Nat) :
    Queued a (a.giveBack p) (a.pageIf p fun _ => true) := by
  unfold giveBack
  split
  · rename_i hnone
    exact ⟨by simp [pageIf, hnone], fun q => lt_of_mem_pageIf, rfl, h⟩
  · rename_i o hget
    have hv := h o (List.mem_of_getElem? hget)
    simp only [hv, Bool.not_true, Bool.false_eq_true, if_false]
    refine ⟨by simp [pageIf, hget], fun q => lt_of_mem_pageIf, by simp, fun d hd => ?_⟩
    rcases List.mem_or_eq_of_mem_set hd with hd | rfl
    · exact h d hd
    · split
      · rfl
      · exact hv

theorem giveBack_metadata (a : PagedTensorMemoryAllocator) (p q : Nat) :
    (a.giveBack p).pages[q]?.map TensorMemoryObj.metadata =
      a.pages[q]?.map TensorMemoryObj.metadata := by
  unfold giveBack
  split
  · rfl
  · rename_i o hget
    split
    · rfl
    · by_cases hpq : p = q
      · subst hpq
        have hlt : p < a.pages.length := (List.getElem?_eq_some_iff.mp hget).1
        rw [List.getElem?_set_self hlt, hget]
        dsimp only [Option.map_some]
        split <;> rfl
      · rw [List.getElem?_set_ne hpq]

theorem queued_free (h : a.AllValid) (p : Nat) :
    Queued a (a.free p) (a.pageIf p fun _ => true) := by
  have hgive := queued_giveBack h p
  unfold free
  split
  · exact ⟨hgive.queue, hgive.bound, hgive.length, hgive.valid⟩
  · rename_i hno
    have hnil : a.pageIf p (fun _ => true) = [] := by
      unfold pageIf
      cases hget : a.pages[p]? with
      | none => simp
      | some o =>
        rw [hget] at hno
        exact absurd (h o (List.mem_of_getElem? hget)) (by simpa using hno)
    rw [hnil]
    exact ⟨by simp, by simp, rfl, h⟩

theorem free_metadata (a : PagedTensorMemoryAllocator) (p q : Nat) :
    (a.free p).pages[q]?.map TensorMemoryObj.metadata =
      a.pages[q]?.map TensorMemoryObj.metadata := by
  unfold free
  split
  · exact giveBack_metadata a p q
  · rfl

theorem queued_foldl_giveBack (h : a.AllValid) (ps : List Nat) :
    Queued a (ps.foldl giveBack a) (ps.flatMap fun p => a.pageIf p fun _ => true) := by
  induction ps generalizing a with
  | nil => exact ⟨by simp, by simp, rfl, h⟩
  | cons p ps ih =>
    have hp := queued_giveBack h p
    have hps := ih hp.valid
    have hsame : ∀ q, (a.giveBack p).pageIf q (fun _ => true) = a.pageIf q fun _ => true := by
      intro q
      have := giveBack_metadata a p q
      unfold pageIf
      cases h1 : (a.giveBack p).pages[q]? <;> cases h2 : a.pages[q]? <;> simp_all
    simp only [hsame] at hps
    exact hp.trans hps

theorem queued_batchedFree (h : a.AllValid) (ps : List Nat) (updateStats : Bool) :
    Queued a (a.batchedFree ps updateStats) (ps.flatMap fun p => a.pageIf p fun _ => true) := by
  have := queued_foldl_giveBack h ps
  unfold batchedFree
  dsimp only
  split
  · exact ⟨this.queue, this.bound, this.length, this.valid⟩
  · exact this

theorem allValid_set (h : a.AllValid) {o : TensorMemoryObj} (ho : o.valid = true) :
    ({ a with pages := a.pages.set p o } : PagedTensorMemoryAllocator).AllValid := fun d hd => by
  rcases List.mem_or_eq_of_mem_set hd with hd | rfl
  · exact h d hd
  · exact ho

theorem mem_modify {α : Type} {l : List α} {i : Nat} {f : α → α} {x : α}
    (h : x ∈ l.modify i f) : x ∈ l ∨ ∃ y ∈ l, x = f y := by
  induction l generalizing i with
  | nil => simp at h
  | cons y ys ih => cases i with
    | zero =>
      rcases List.mem_cons.mp h with rfl | h
      · exact .inr ⟨y, by simp, rfl⟩
      · exact .inl (by simp [h])
    | succ i =>
      rcases List.mem_cons.mp h with rfl | h
      · exact .inl (by simp)
      · rcases ih h with h | ⟨z, hz, rfl⟩
        · exact .inl (by simp [h])
        · exact .inr ⟨z, by simp [hz], rfl⟩

theorem queued_updatePage (h : a.AllValid) (p : Nat) {f : TensorMemoryObj → TensorMemoryObj}
    (hf : ∀ o : TensorMemoryObj, o.SameRange (f o)) : Queued a (a.updatePage p f) [] where
  queue := (List.append_nil _).symm
  bound := by simp
  length := List.length_modify ..
  valid := fun d hd => by
    rcases mem_modify hd with hd | ⟨o, ho, rfl⟩
    · exact h d hd
    · exact (hf o).2.trans (h o ho)

theorem queued_decrement (h : a.AllValid) (p : Nat) {f : TensorMemoryObj → TensorMemoryObj × Bool}
    (hf : ∀ o : TensorMemoryObj, o.SameRange (f o).1) :
    Queued a (a.decrement p f) (a.pageIf p fun o => (f o).2) := by
  unfold decrement
  split
  · rename_i hnone
    exact ⟨by simp [pageIf, hnone], fun q => lt_of_mem_pageIf, rfl, h⟩
  · rename_i o hget
    have hlt : p < a.pages.length := (List.getElem?_eq_some_iff.mp hget).1
    have hv := (hf o).2.trans (h o (List.mem_of_getElem? hget))
    have hset := allValid_set (p := p) h hv
    refine ⟨?_, fun q => lt_of_mem_pageIf, ?_, ?_⟩
    all_goals simp only [pageIf, hget, Option.any_some]
    all_goals split
    · have hfree := queued_free hset p
      have hone : pageIf { a with pages := a.pages.set p (f o).1 } p (fun _ => true) = [p] := by
        simp [pageIf, hlt]
      rw [hfree.queue, hone]
    · exact (List.append_nil _).symm
    · rw [(queued_free hset p).length]
      exact List.length_set ..
    · exact List.length_set ..
    · exact (queued_free hset p).valid
    · exact hset

theorem decrement_metadata (a : PagedTensorMemoryAllocator) (p : Nat)
    (f : TensorMemoryObj → TensorMemoryObj × Bool) :
    (a.decrement p f).pages[p]?.map TensorMemoryObj.metadata =
      a.pages[p]?.map fun o => (f o).1.metadata := by
  unfold decrement
  split
  · rename_i hnone
    simp [hnone]
  · rename_i o hget
    have hlt : p < a.pages.length := (List.getElem?_eq_some_iff.mp hget).1
    have hset : ((a.pages.set p (f o).1)[p]?).map TensorMemoryObj.metadata
        = some (f o).1.metadata := by simp [hlt]
    simp only [hget, Option.map_some]
    split
    · rw [free_metadata]
      exact hset
    · exact hset

theorem queued_unpin (h : a.AllValid) (p : Nat) :
    Queued a (a.unpin p) (a.pageIf p fun o => o.unpinDecrement.2) := by
  have hdec := queued_decrement h p TensorMemoryObj.sameRange_unpinDecrement
  have hclamp := queued_updatePage hdec.valid p TensorMemoryObj.sameRange_unpinClamp
  have hall := hdec.trans hclamp
  rwa [List.append_nil] at hall

/-- The two counters of a page. -/
def counters (a : PagedTensorMemoryAllocator) (p : Nat) : Option (Int × Int) :=
  a.pages[p]?.map fun o => (o.metadata.refCount, o.metadata.pinCount)

theorem counters_unpin {r k : Int} (h : a.counters p = some (r, k)) :
    (a.unpin p).counters p = some (r, max 0 (k - 1)) := by
  obtain ⟨o, hget, hrk⟩ := Option.map_eq_some_iff.mp h
  obtain ⟨rfl, rfl⟩ := Prod.mk.inj hrk
  have hmeta := decrement_metadata a p TensorMemoryObj.unpinDecrement
  rw [hget, Option.map_some] at hmeta
  obtain ⟨d, hd, hdm⟩ := Option.map_eq_some_iff.mp hmeta
  have hget' : (a.unpin p).pages[p]? = some d.unpinClamp := by
    simp [unpin, updatePage, hd]
  simp only [counters, hget', Option.map_some, Option.some.injEq]
  unfold TensorMemoryObj.unpinClamp
  simp only [TensorMemoryObj.unpinDecrement, TensorMemoryObj.setPinCount] at hdm
  split
  · rename_i hneg
    simp only [TensorMemoryObj.setPinCount, hdm] at hneg ⊢
    congr 1
    omega
  · rename_i hnn
    simp only [hdm] at hnn ⊢
    congr 1
    omega

/-- The loop of the pin monitor: it ends with no pin, and the page goes to the queue once if no
reference is left. -/
theorem unpinWhilePinned_spec {r : Int} (n : Nat) (h : a.AllValid)
    (hc : a.counters p = some (r, (n : Int))) :
    Queued a (unpinWhilePinned n a p) (if 0 < n ∧ r ≤ 0 then [p] else []) ∧
      (unpinWhilePinned n a p).counters p = some (r, 0) := by
  induction n generalizing a with
  | zero => exact ⟨⟨by simp [unpinWhilePinned], by simp, rfl, h⟩, hc⟩
  | succ n ih =>
    obtain ⟨o, hget, hrk⟩ := Option.map_eq_some_iff.mp hc
    obtain ⟨hr, hk⟩ := Prod.mk.inj hrk
    have hpos : a.pinCount p > 0 := by
      simp only [pinCount, hget, Option.map_some, Option.getD_some, hk]
      omega
    have hstep := queued_unpin h p
    have hcount := counters_unpin hc
    rw [show max 0 (((n + 1 : Nat) : Int) - 1) = (n : Int) by omega] at hcount
    obtain ⟨hq, hend⟩ := ih hstep.valid hcount
    rw [unpinWhilePinned, if_pos hpos]
    refine ⟨?_, hend⟩
    have hall := hstep.trans hq
    have hlist : (a.pageIf p fun o => o.unpinDecrement.2) ++ (if 0 < n ∧ r ≤ 0 then [p] else [])
        = if 0 < n + 1 ∧ r ≤ 0 then [p] else [] := by
      simp only [pageIf, hget, Option.any_some, TensorMemoryObj.unpinDecrement,
        TensorMemoryObj.setPinCount, hr, hk, decide_eq_true_eq]
      -- only the last round can free
      rcases Nat.eq_zero_or_pos n with rfl | hn
      · by_cases hr0 : r ≤ 0 <;> simp [hr0]
      · have hfirst : ¬ (((n + 1 : Nat) : Int) - 1 ≤ 0 ∧ r ≤ 0) := by omega
        rw [if_neg hfirst]
        by_cases hr0 : r ≤ 0 <;> simp [hr0, hn]
    rwa [hlist] at hall

theorem queued_forceUnpin (h : a.AllValid) (p : Nat) :
    Queued a (a.forceUnpin p)
      (a.pageIf p fun o => decide (o.metadata.pinCount > 0 ∧ o.metadata.refCount ≤ 0)) := by
  unfold forceUnpin
  rcases le_or_gt (a.pinCount p) 0 with hle | hgt
  · have hzero : (a.pinCount p).toNat = 0 := by omega
    rw [hzero, unpinWhilePinned]
    refine ⟨?_, fun q => lt_of_mem_pageIf, rfl, h⟩
    unfold pageIf pinCount at *
    cases hget : a.pages[p]? with
    | none => simp
    | some o =>
      simp only [hget, Option.map_some, Option.getD_some] at hle
      simp [hle]
  · unfold pinCount at hgt
    cases hget : a.pages[p]? with
    | none => simp [hget] at hgt
    | some o =>
      simp only [hget, Option.map_some, Option.getD_some] at hgt
      have hcast : ((a.pinCount p).toNat : Int) = o.metadata.pinCount := by
        simp only [pinCount, hget, Option.map_some, Option.getD_some]
        omega
      have hc : a.counters p = some (o.metadata.refCount, ((a.pinCount p).toNat : Int)) := by
        rw [hcast]
        simp [counters, hget]
      have hspec := (unpinWhilePinned_spec _ h hc).1
      have hn : 0 < (a.pinCount p).toNat := by omega
      simpa [pageIf, hget, hgt, hn] using hspec

theorem allValid_reuse (h : a.AllValid) (p : Nat) (shape : TorchSize) (dtype : TorchDtype)
    (shapes : List TorchSize) (dtypes : List TorchDtype) (fmt : MemoryFormat) :
    ∀ o ∈ a.pages.modify p (a.reuse shape dtype shapes dtypes fmt), o.valid = true := by
  intro o ho
  rcases mem_modify ho with ho | ⟨d, hd, rfl⟩
  · exact h o ho
  · have := h d hd
    unfold reuse
    dsimp only
    split
    · split <;> exact this
    · exact this

/-- An allocating call made without any shape. -/
def NoShape (shapes : OneOrList TorchSize) (dtypes : OneOrList TorchDtype) : Prop :=
  shapes.toList = [] ∧ dtypes.toList = []

theorem adapt_cases (shapes : OneOrList TorchSize) (dtypes : OneOrList TorchDtype) :
    (∃ e, adaptShapesAndDtypes shapes dtypes = .error e ∧ ¬ NoShape shapes dtypes) ∨
    (adaptShapesAndDtypes shapes dtypes = .ok ([], []) ∧ NoShape shapes dtypes) ∨
    ∃ s ss d ds, adaptShapesAndDtypes shapes dtypes = .ok (s :: ss, d :: ds) ∧
      ¬ NoShape shapes dtypes := by
  unfold adaptShapesAndDtypes NoShape
  cases hs : shapes.toList with
  | nil =>
    cases hd : dtypes.toList with
    | nil => simp
    | cons d ds => simp
  | cons s ss =>
    cases hd : dtypes.toList with
    | nil => simp
    | cons d ds =>
      by_cases hlen : ss.length = ds.length
      · simp [hlen]
      · simp [hlen]

/-- `allocate` takes the page it hands out off the queue; without a shape it loses one. -/
theorem allocate_cases (h : a.AllValid) (shapes : OneOrList TorchSize)
    (dtypes : OneOrList TorchDtype) (fmt : MemoryFormat) :
    let r := a.allocate shapes dtypes fmt
    r.2.AllValid ∧ r.2.pages.length = a.pages.length ∧
      ((¬ (NoShape shapes dtypes ∧ a.freeBlocks ≠ []) ∧
          a.freeBlocks = PagedPool.pageOf r.1 ++ r.2.freeBlocks) ∨
        (NoShape shapes dtypes ∧ PagedPool.pageOf r.1 = [] ∧
          ∃ p, a.freeBlocks = p :: r.2.freeBlocks)) := by
  intro r
  obtain ⟨e, hadapt, hno⟩ | ⟨hadapt, hno⟩ | ⟨s, ss, d, ds, hadapt, hno⟩ := adapt_cases shapes dtypes
  · have hr : r = (.error e, a) := by simp only [r, allocate, hadapt]
    rw [hr]
    exact ⟨h, rfl, .inl ⟨fun hc => hno hc.1, rfl⟩⟩
  · cases hq : a.freeBlocks with
    | nil =>
      have hr : r = (.ok none, a) := by simp only [r, allocate, hadapt, hq]
      rw [hr]
      exact ⟨h, rfl, .inl ⟨by simp, by simp [PagedPool.pageOf, hq]⟩⟩
    | cons p rest =>
      have hr : r = (.error (.indexError indexMessage), { a with freeBlocks := rest }) := by
        simp only [r, allocate, hadapt, hq]
      rw [hr]
      exact ⟨h, rfl, .inr ⟨hno, rfl, p, rfl⟩⟩
  · cases hq : a.freeBlocks with
    | nil =>
      have hr : r = (.ok none, a) := by simp only [r, allocate, hadapt, hq]
      rw [hr]
      exact ⟨h, rfl, .inl ⟨by simp, by simp [PagedPool.pageOf, hq]⟩⟩
    | cons p rest =>
      simp only [r, allocate, hadapt, hq]
      exact ⟨allValid_reuse h p s d _ _ fmt, List.length_modify .., .inl ⟨fun hc => hno hc.1, rfl⟩⟩

/-- The loop of `batched_allocate` when there is a shape: the pages come off the front of the queue,
or the whole queue is back in its old order. -/
theorem batchedAllocateLoop_spec (s : TorchSize) (ss : List TorchSize) (d : TorchDtype)
    (ds : List TorchDtype) (fmt : MemoryFormat) (n : Nat) (h : a.AllValid) {taken : List Nat}
    (htaken : ∀ p ∈ taken, p < a.pages.length) (hqueue : ∀ p ∈ a.freeBlocks, p < a.pages.length) :
    let r := batchedAllocateLoop (s :: ss) (d :: ds) fmt n a taken
    r.2.AllValid ∧ r.2.pages.length = a.pages.length ∧
      taken ++ a.freeBlocks = PagedPool.pagesOf r.1 ++ r.2.freeBlocks := by
  induction n generalizing a taken with
  | zero => exact ⟨h, rfl, rfl⟩
  | succ n ih =>
    intro r
    cases hq : a.freeBlocks with
    | nil =>
      have hr : r = (.ok none, a.batchedFree taken false) := by
        simp only [r, batchedAllocateLoop, hq]
      have hfree := queued_batchedFree h taken false
      have hall : (taken.flatMap fun p => a.pageIf p fun _ => true) = taken := by
        have hone : ∀ p ∈ taken, a.pageIf p (fun _ => true) = [p] := fun p hp => by
          simp [pageIf, List.getElem?_eq_getElem (htaken p hp)]
        rw [List.flatMap_congr hone, List.flatMap_singleton']
      rw [hr]
      refine ⟨hfree.valid, hfree.length, ?_⟩
      rw [hfree.queue, hall, hq]
      simp [PagedPool.pagesOf]
    | cons p rest =>
      have hp : p < a.pages.length := hqueue p (by simp [hq])
      let a₁ : PagedTensorMemoryAllocator := { a with
        freeBlocks := rest
        pages := a.pages.modify p (a.reuse s d (s :: ss) (d :: ds) fmt) }
      have hr : r = batchedAllocateLoop (s :: ss) (d :: ds) fmt n a₁ (taken ++ [p]) := by
        simp only [r, batchedAllocateLoop, hq, a₁]
      have hlen : a₁.pages.length = a.pages.length := List.length_modify ..
      have htaken' : ∀ q ∈ taken ++ [p], q < a₁.pages.length := fun q hq' => by
        rw [hlen]
        rcases List.mem_append.mp hq' with hq' | hq'
        · exact htaken q hq'
        · rw [List.mem_singleton.mp hq']; exact hp
      have hqueue' : ∀ q ∈ a₁.freeBlocks, q < a₁.pages.length := fun q hq' => by
        rw [hlen]
        exact hqueue q (by simp [hq, show q ∈ rest from hq'])
      have hrec := ih (a := a₁) (allValid_reuse h p s d _ _ fmt) htaken' hqueue'
      rw [hr]
      refine ⟨hrec.1, hrec.2.1.trans hlen, ?_⟩
      rw [← hrec.2.2]
      simp [a₁]

theorem batchedAllocate_cases (h : a.AllValid) (hqueue : ∀ p ∈ a.freeBlocks, p < a.pages.length)
    (shapes : OneOrList TorchSize) (dtypes : OneOrList TorchDtype) (n : Nat) (fmt : MemoryFormat) :
    let r := a.batchedAllocate shapes dtypes n fmt
    r.2.AllValid ∧ r.2.pages.length = a.pages.length ∧
      ((¬ (NoShape shapes dtypes ∧ n ≠ 0 ∧ a.freeBlocks ≠ []) ∧
          a.freeBlocks = PagedPool.pagesOf r.1 ++ r.2.freeBlocks) ∨
        (NoShape shapes dtypes ∧ n ≠ 0 ∧ PagedPool.pagesOf r.1 = [] ∧
          ∃ p, a.freeBlocks = p :: r.2.freeBlocks)) := by
  intro r
  obtain ⟨e, hadapt, hno⟩ | ⟨hadapt, hno⟩ | ⟨s, ss, d, ds, hadapt, hno⟩ := adapt_cases shapes dtypes
  · have hr : r = (.error e, a) := by simp only [r, batchedAllocate, hadapt]
    rw [hr]
    exact ⟨h, rfl, .inl ⟨fun hc => hno hc.1, rfl⟩⟩
  · cases n with
    | zero =>
      simp only [r, batchedAllocate, hadapt, batchedAllocateLoop]
      exact ⟨h, trivial, .inl ⟨by simp, rfl⟩⟩
    | succ n =>
      cases hq : a.freeBlocks with
      | nil =>
        have hr : r = (.ok none, a) := by
          simp only [r, batchedAllocate, hadapt, batchedAllocateLoop, hq]
          rfl
        rw [hr]
        exact ⟨h, rfl, .inl ⟨by simp, by simp [PagedPool.pagesOf, hq]⟩⟩
      | cons p rest =>
        have hr : r = (.error (.indexError indexMessage), { a with freeBlocks := rest }) := by
          simp only [r, batchedAllocate, hadapt, batchedAllocateLoop, hq]
        rw [hr]
        exact ⟨h, rfl, .inr ⟨hno, by simp, rfl, p, rfl⟩⟩
  · have hnone : ∀ p ∈ ([] : List Nat), p < a.pages.length := by simp
    have hspec := batchedAllocateLoop_spec s ss d ds fmt n h hnone hqueue
    simp only [r, batchedAllocate, hadapt]
    generalize batchedAllocateLoop (s :: ss) (d :: ds) fmt n a [] = res at hspec
    obtain ⟨h1, h2, h3⟩ := hspec
    refine ⟨?_, ?_, .inl ⟨fun hc => hno hc.1, ?_⟩⟩
    all_goals
      obtain ⟨_ | _ | _, a'⟩ := res
      all_goals first | exact h1 | exact h2 | exact h3

end PagedTensorMemoryAllocator

/-! ## Ownership is kept exactly by the allowed calls -/

namespace PagedPool

/-- The queued and the held pages, with multiplicity. -/
def ledger (s : PagedPool) : List Nat := s.allocator.freeBlocks ++ s.held.map Handle.page

/-- Ownership is a conservation law: the ledger is a permutation of the pages. -/
theorem good_iff_perm (s : PagedPool) :
    Good s ↔ s.ledger.Perm (List.range s.allocator.pages.length) := by
  have hnodup : s.ledger.Nodup ↔ s.allocator.freeBlocks.Nodup ∧ (s.held.map Handle.page).Nodup ∧
      ∀ p ∈ s.allocator.freeBlocks, p ∉ s.held.map Handle.page := by
    rw [ledger, List.nodup_append]
    constructor
    · rintro ⟨h1, h2, h3⟩
      exact ⟨h1, h2, fun p hp hp' => h3 p hp p hp' rfl⟩
    · rintro ⟨h1, h2, h3⟩
      exact ⟨h1, h2, fun p hp q hq hpq => h3 p hp (hpq ▸ hq)⟩
  constructor
  · intro h
    rw [List.perm_ext_iff_of_nodup (hnodup.mpr ⟨h.queue_nodup, h.held_nodup, h.disjoint⟩)
      List.nodup_range]
    intro p
    rw [ledger, List.mem_append, List.mem_range, h.all]
  · intro h
    obtain ⟨h1, h2, h3⟩ := hnodup.mp (h.nodup_iff.mpr List.nodup_range)
    refine ⟨h1, h2, h3, fun p => ?_⟩
    rw [← List.mem_range, ← h.mem_iff, ledger, List.mem_append]

/-- Releasing never frees more handles than it names; it frees as many exactly when each was held. -/
theorem release_length (held : List Handle) (vias : List (Option Handle)) :
    held.length ≤ (release held vias).length + vias.length ∧
      ((release held vias).length + vias.length = held.length ↔ ReleasesHeld held vias) := by
  induction vias generalizing held with
  | nil => simp [release, ReleasesHeld]
  | cons via vias ih =>
    cases via with
    | none =>
      have := (ih held).1
      have hrel : release held (none :: vias) = release held vias := rfl
      rw [hrel, List.length_cons]
      exact ⟨by omega, ⟨fun h => by omega, fun h => h.elim⟩⟩
    | some h =>
      have hrel : release held (some h :: vias) = release (held.erase h) vias := rfl
      obtain ⟨hle, hiff⟩ := ih (held.erase h)
      rw [hrel, List.length_cons]
      by_cases hmem : h ∈ held
      · have hlen := List.length_erase_of_mem hmem
        have hpos := List.length_pos_of_mem hmem
        refine ⟨by omega, ⟨fun heq => ⟨hmem, hiff.mp (by omega)⟩, fun hok => ?_⟩⟩
        have := hiff.mpr hok.2
        omega
      · rw [List.erase_of_not_mem hmem] at hle ⊢
        exact ⟨by omega, ⟨fun heq => by omega, fun hok => absurd hok.1 hmem⟩⟩

variable {rs : List (Nat × Option Handle)} {a : PagedTensorMemoryAllocator} {s : PagedPool}

/-- Returning pages through held handles moves them from one side of the ledger to the other. -/
theorem release_perm {held : List Handle} (hok : ReleasesHeld held (rs.map Prod.snd))
    (hvia : ∀ r ∈ rs, ∀ h, r.2 = some h → h.page = r.1) :
    (rs.map Prod.fst ++ (release held (rs.map Prod.snd)).map Handle.page).Perm
      (held.map Handle.page) := by
  induction rs generalizing held with
  | nil => exact List.Perm.refl _
  | cons r rs ih =>
    obtain ⟨p, via⟩ := r
    cases via with
    | none => exact hok.elim
    | some h =>
      obtain ⟨hmem, hrest⟩ := hok
      have hp : h.page = p := hvia (p, some h) (by simp) h rfl
      have hrec := ih hrest fun r hr => hvia r (by simp [hr])
      have herase := (List.perm_cons_erase hmem).map Handle.page
      rw [List.map_cons, hp] at herase
      exact (hrec.cons p).trans herase.symm

/-- Handles that carry their page. -/
def Through (rs : List (Nat × Option Handle)) : Prop := ∀ r ∈ rs, ∀ h, r.2 = some h → h.page = r.1

/-- **The count.**  When a call appends exactly the pages it returns, ownership survives it exactly
when each goes back through a handle still held: any other return leaves a page too many. -/
theorem good_return_iff (h : Good s)
    (hq : PagedTensorMemoryAllocator.Queued s.allocator a (rs.map Prod.fst)) (hvia : Through rs)
    (id : Nat) :
    Good ⟨a, id, release s.held (rs.map Prod.snd)⟩ ↔ ReleasesHeld s.held (rs.map Prod.snd) := by
  rw [good_iff_perm] at h
  rw [good_iff_perm, ← (release_length s.held (rs.map Prod.snd)).2]
  have hledger : ledger ⟨a, id, release s.held (rs.map Prod.snd)⟩ = s.allocator.freeBlocks ++
      (rs.map Prod.fst ++ (release s.held (rs.map Prod.snd)).map Handle.page) := by
    rw [ledger, hq.queue, List.append_assoc]
  rw [hledger]
  constructor
  · intro hperm
    have h1 := hperm.length_eq
    have h2 := h.length_eq
    have h3 := hq.length
    simp only [ledger, List.length_append, List.length_map, List.length_range] at h1 h2 ⊢
    omega
  · intro hlen
    have hok := (release_length s.held (rs.map Prod.snd)).2.mp hlen
    show List.Perm _ (List.range a.pages.length)
    rw [hq.length]
    exact ((release_perm hok hvia).append_left _).trans h

theorem handles_page (id : Nat) (ps : List Nat) : (handles id ps).map Handle.page = ps := by
  induction ps generalizing id with
  | nil => rfl
  | cons p ps ih => rw [handles, List.map_cons, ih]

/-- Handing out the front of the queue keeps ownership. -/
theorem good_handOut {ps : List Nat} (h : Good s) (hlen : a.pages.length = s.allocator.pages.length)
    (hq : s.allocator.freeBlocks = ps ++ a.freeBlocks) : Good (s.handOut a ps) := by
  rw [good_iff_perm] at h ⊢
  have hledger : (s.handOut a ps).ledger.Perm s.ledger := by
    simp only [ledger, handOut, List.map_append, handles_page, hq]
    rw [← List.append_assoc]
    exact List.perm_append_comm.append_right _
  show (s.handOut a ps).ledger.Perm (List.range a.pages.length)
  rw [hlen]
  exact hledger.trans h

/-- A page that leaves the queue without being handed out is lost. -/
theorem not_good_of_lost (h : Good s) (hlen : a.pages.length = s.allocator.pages.length)
    (hq : a.freeBlocks.length < s.allocator.freeBlocks.length) : ¬ Good (s.handOut a []) := by
  rw [good_iff_perm] at h ⊢
  intro h'
  have h1 := h.length_eq
  have h2 := h'.length_eq
  simp only [ledger, handOut, handles, List.nil_append, List.length_append, List.length_map,
    List.length_range] at h1 h2
  omega

theorem returningIf_fst (s : PagedPool) (h : Handle) (cond : MemoryObjMetadata → Bool) :
    (s.returningIf h cond).map Prod.fst =
      s.allocator.pageIf h.page fun o => cond o.metadata := by
  unfold returningIf PagedTensorMemoryAllocator.pageIf
  split <;> rfl

theorem through_returningIf (s : PagedPool) (h : Handle) (cond : MemoryObjMetadata → Bool) :
    Through (s.returningIf h cond) := by
  intro r hr g hg
  unfold returningIf at hr
  split at hr
  · obtain rfl := List.mem_singleton.mp hr
    cases hg
    rfl
  · simp at hr

/-- When `ref_count_down` frees, in terms of the counters before it. -/
theorem refCountDown_frees_iff (o : TensorMemoryObj) :
    o.refCountDown.2 = decide (o.metadata.refCount ≤ 1 ∧ o.metadata.pinCount = 0) := by
  have hdef : o.refCountDown.2 = decide
    (o.refCountDown.1.metadata.refCount = 0 ∧ o.refCountDown.1.metadata.pinCount = 0) := rfl
  rw [hdef, decide_eq_decide]
  simp only [TensorMemoryObj.refCountDown, TensorMemoryObj.setRefCount]
  split <;> omega

/-- When `unpin` frees, in terms of the counters before it. -/
theorem unpinDecrement_frees_iff (o : TensorMemoryObj) :
    o.unpinDecrement.2 = decide (o.metadata.pinCount ≤ 1 ∧ o.metadata.refCount ≤ 0) := by
  have hdef : o.unpinDecrement.2 = decide
    (o.unpinDecrement.1.metadata.pinCount ≤ 0 ∧ o.unpinDecrement.1.metadata.refCount ≤ 0) := rfl
  rw [hdef, decide_eq_decide]
  simp only [TensorMemoryObj.unpinDecrement, TensorMemoryObj.setPinCount]
  omega

/-- A call that hands out nothing returns to the queue exactly the pages `returning` lists. -/
theorem queued_call (hv : s.allocator.AllValid) {c : PagedCall}
    (hc : ∀ shapes dtypes fmt, c ≠ .allocate shapes dtypes fmt)
    (hb : ∀ shapes dtypes n fmt, c ≠ .batchedAllocate shapes dtypes n fmt) :
    PagedTensorMemoryAllocator.Queued s.allocator (callAllocator s.allocator c)
      ((s.returning c).map Prod.fst) ∧ Through (s.returning c) := by
  cases c with
  | allocate shapes dtypes fmt => exact absurd rfl (hc shapes dtypes fmt)
  | batchedAllocate shapes dtypes n fmt => exact absurd rfl (hb shapes dtypes n fmt)
  | refCountUp h =>
    exact ⟨PagedTensorMemoryAllocator.queued_updatePage hv h.page
      TensorMemoryObj.sameRange_refCountUp, by simp [Through, returning]⟩
  | pin h =>
    exact ⟨PagedTensorMemoryAllocator.queued_updatePage hv h.page TensorMemoryObj.sameRange_pin,
      by simp [Through, returning]⟩
  | refCountDown h =>
    have hq := PagedTensorMemoryAllocator.queued_decrement hv h.page
      TensorMemoryObj.sameRange_refCountDown
    rw [funext refCountDown_frees_iff] at hq
    rw [returning, returningIf_fst]
    exact ⟨hq, through_returningIf s h _⟩
  | unpin h =>
    have hq := PagedTensorMemoryAllocator.queued_unpin hv h.page
    rw [funext unpinDecrement_frees_iff] at hq
    rw [returning, returningIf_fst]
    exact ⟨hq, through_returningIf s h _⟩
  | free h =>
    rw [returning, returningIf_fst]
    exact ⟨PagedTensorMemoryAllocator.queued_free hv h.page, through_returningIf s h _⟩
  | batchedFree hs =>
    refine ⟨?_, fun r hr => ?_⟩
    · have hq := PagedTensorMemoryAllocator.queued_batchedFree hv (hs.map Handle.page) true
      rw [List.flatMap_map] at hq
      simp only [returning, List.map_flatMap, returningIf_fst]
      exact hq
    · obtain ⟨h, -, hr⟩ := List.mem_flatMap.mp hr
      exact through_returningIf s h _ r hr
  | forceUnpin p =>
    refine ⟨?_, fun r hr h hrh => ?_⟩
    · have hq := PagedTensorMemoryAllocator.queued_forceUnpin hv p
      have hfst : (s.returning (.forceUnpin p)).map Prod.fst = s.allocator.pageIf p fun o =>
          decide (o.metadata.pinCount > 0 ∧ o.metadata.refCount ≤ 0) := by
        simp only [returning, PagedTensorMemoryAllocator.pageIf]
        split <;> rfl
      rw [hfst]
      exact hq
    · simp only [returning] at hr
      split at hr
      · obtain rfl := List.mem_singleton.mp hr
        have := List.find?_some hrh
        exact of_decide_eq_true this
      · simp at hr

/-- What needs no condition: page objects stay valid and the queue names pages that exist. -/
def PagesOk (a : PagedTensorMemoryAllocator) : Prop :=
  a.AllValid ∧ ∀ p ∈ a.freeBlocks, p < a.pages.length

theorem pagesOk_queued {a' : PagedTensorMemoryAllocator} {ps : List Nat} (h : PagesOk a)
    (hq : PagedTensorMemoryAllocator.Queued a a' ps) : PagesOk a' := by
  refine ⟨hq.valid, fun p hp => ?_⟩
  rw [hq.queue] at hp
  rw [hq.length]
  rcases List.mem_append.mp hp with hp | hp
  · exact h.2 p hp
  · exact hq.bound p hp

/-- **Step lemma.**  Ownership survives a call exactly when the call is allowed. -/
theorem step_spec (hok : PagesOk s.allocator) (c : PagedCall) :
    PagesOk (s.step c).allocator ∧ (Good s → (Good (s.step c) ↔ s.Allowed c)) := by
  have hfew : ∀ {a : PagedTensorMemoryAllocator}, a.AllValid →
      a.pages.length = s.allocator.pages.length →
      (∀ p ∈ a.freeBlocks, p ∈ s.allocator.freeBlocks) → PagesOk a :=
    fun h1 h2 h3 => ⟨h1, fun p hp => h2 ▸ hok.2 p (h3 p hp)⟩
  have hplain : ∀ {c : PagedCall}, s.returning c = [] →
      s.step c = s.handOut (callAllocator s.allocator c) (handedOut s.allocator c) := by
    intro c hc
    simp only [step, hc, List.map_nil, release, List.foldl_nil]
  by_cases hc : ∃ shapes dtypes fmt, c = .allocate shapes dtypes fmt
  · obtain ⟨shapes, dtypes, fmt, rfl⟩ := hc
    rw [hplain rfl]
    obtain ⟨hv, hlen, hcase⟩ :=
      PagedTensorMemoryAllocator.allocate_cases hok.1 shapes dtypes fmt
    rcases hcase with ⟨hno, hq⟩ | ⟨hno, hnone, p, hq⟩
    · refine ⟨hfew hv hlen fun p hp => hq ▸ List.mem_append_right _ hp, fun h => ?_⟩
      refine iff_of_true (good_handOut h hlen hq) fun h1 h2 => ?_
      by_contra hne
      exact hno ⟨⟨h1, h2⟩, hne⟩
    · refine ⟨hfew hv hlen fun q hq' => hq ▸ List.mem_cons_of_mem _ hq', fun h => ?_⟩
      refine iff_of_false ?_ fun hall => ?_
      · simp only [handedOut, hnone]
        exact not_good_of_lost h hlen (by rw [hq]; exact Nat.lt_succ_self _)
      · rw [hall hno.1 hno.2] at hq
        cases hq
  by_cases hb : ∃ shapes dtypes n fmt, c = .batchedAllocate shapes dtypes n fmt
  · obtain ⟨shapes, dtypes, n, fmt, rfl⟩ := hb
    rw [hplain rfl]
    obtain ⟨hv, hlen, hcase⟩ :=
      PagedTensorMemoryAllocator.batchedAllocate_cases hok.1 hok.2 shapes dtypes n fmt
    rcases hcase with ⟨hno, hq⟩ | ⟨hno, hn, hnone, p, hq⟩
    · refine ⟨hfew hv hlen fun p hp => hq ▸ List.mem_append_right _ hp, fun h => ?_⟩
      refine iff_of_true (good_handOut h hlen hq) fun h1 h2 => ?_
      by_contra hne
      rw [not_or] at hne
      exact hno ⟨⟨h1, h2⟩, hne⟩
    · refine ⟨hfew hv hlen fun q hq' => hq ▸ List.mem_cons_of_mem _ hq', fun h => ?_⟩
      refine iff_of_false ?_ fun hall => ?_
      · simp only [handedOut, hnone]
        exact not_good_of_lost h hlen (by rw [hq]; exact Nat.lt_succ_self _)
      · rcases hall hno.1 hno.2 with h0 | hnil
        · exact hn h0
        · rw [hnil] at hq
          cases hq
  have hc' : ∀ shapes dtypes fmt, c ≠ .allocate shapes dtypes fmt :=
    fun shapes dtypes fmt h => hc ⟨shapes, dtypes, fmt, h⟩
  have hb' : ∀ shapes dtypes n fmt, c ≠ .batchedAllocate shapes dtypes n fmt :=
    fun shapes dtypes n fmt h => hb ⟨shapes, dtypes, n, fmt, h⟩
  obtain ⟨hq, hthrough⟩ := queued_call hok.1 hc' hb'
  have hnone : handedOut s.allocator c = [] := by
    cases c <;> first | rfl | exact absurd rfl (hc' _ _ _) | exact absurd rfl (hb' _ _ _ _)
  have hallowed : s.Allowed c ↔ ReleasesHeld s.held ((s.returning c).map Prod.snd) := by
    cases c <;> first | rfl | exact absurd rfl (hc' _ _ _) | exact absurd rfl (hb' _ _ _ _)
  refine ⟨pagesOk_queued hok hq, fun h => ?_⟩
  rw [hallowed, ← good_return_iff h hq hthrough (s.nextId + 0)]
  simp only [step, hnone, handOut, handles, List.nil_append, List.length_nil]

theorem init_spec {numel : Nat} {shapes : List TorchSize} {dtypes : List TorchDtype}
    {fmt : MemoryFormat} (h : PagedTensorMemoryAllocator.init numel shapes dtypes fmt = .ok a) :
    PagesOk a ∧ Good (init a) := by
  unfold PagedTensorMemoryAllocator.init at h
  split at h
  · cases h
  split at h
  · cases h
  split at h
  · cases h
  split at h
  · cases h
    refine ⟨⟨fun o ho => ?_, fun p hp => ?_⟩, ?_⟩
    · obtain ⟨q, -, rfl⟩ := List.mem_map.mp ho
      rfl
    · simpa using hp
    · rw [good_iff_perm]
      simp [ledger, init]
  · cases h

/-- **Ownership, exactly.**  Along a run from a fresh allocator no page ever has two owners if and
only if every call of the run that returns a page returns it through a handle still held. -/
theorem good_iff_allowed {numel : Nat} {shapes : List TorchSize} {dtypes : List TorchDtype}
    {fmt : MemoryFormat} {a : PagedTensorMemoryAllocator}
    (h : PagedTensorMemoryAllocator.init numel shapes dtypes fmt = .ok a)
    (calls : List PagedCall) :
    Always step Good (init a) calls ↔ Guarded step Allowed (init a) calls :=
  always_iff_guarded_of_inv (Q := fun s => PagesOk s.allocator)
    (fun _ c hok => (step_spec hok c).1) (fun _ c hok => (step_spec hok c).2)
    (init_spec h).1 (init_spec h).2

/-- Two owners one after the other, the second after a forced unpin on behalf of the first. -/
theorem good_iff_allowed_two_owners :
    ∃ a, PagedTensorMemoryAllocator.init 8 [[8]] [.uint8] .KV_2LTD = .ok a ∧
      (Always step Good (init a)
          [.allocate (.one [8]) (.one .uint8) .KV_2LTD, .pin ⟨0, 0⟩, .refCountDown ⟨0, 0⟩,
            .forceUnpin 0, .allocate (.one [4]) (.one .uint8) .KV_2LTD, .refCountDown ⟨1, 0⟩] ↔
        Guarded step Allowed (init a)
          [.allocate (.one [8]) (.one .uint8) .KV_2LTD, .pin ⟨0, 0⟩, .refCountDown ⟨0, 0⟩,
            .forceUnpin 0, .allocate (.one [4]) (.one .uint8) .KV_2LTD, .refCountDown ⟨1, 0⟩]) :=
  ⟨_, rfl, @good_iff_allowed 8 [[8]] [.uint8] .KV_2LTD _ rfl _⟩

/-- The owner drops its reference while it still pins the page, the pin monitor forces the pin away,
and the owner's own `unpin` queues the page a second time. -/
theorem late_unpin_queues_twice :
    ∃ a, PagedTensorMemoryAllocator.init 8 [[8]] [.uint8] .KV_2LTD = .ok a ∧
      ¬ Always step Good (init a)
        [.allocate (.one [8]) (.one .uint8) .KV_2LTD, .pin ⟨0, 0⟩, .refCountDown ⟨0, 0⟩,
          .forceUnpin 0, .unpin ⟨0, 0⟩] := by
  refine ⟨_, rfl, fun h => absurd h.last.queue_nodup ?_⟩
  decide

end PagedPool

end LMCache.Memory
