/-
# LMCache.Memory.PagedAccounting — the books of the paged allocator.

Source: `v1/memory_management.py`, `PagedTensorMemoryAllocator.allocate`, `batched_allocate`,
`free`, `batched_free` and `memcheck`.

A batch that the queue cannot serve has already rewritten the metadata of the pages it took and cut
their buffers; it gives them back with the statistics switched off, and a page gets its whole buffer
again when its shapes are not those of the allocator.  The counters are written by four functions,
two of which recompute the size from the count.

The books balance along a run when every page is in the queue or on the counters.  An allocating
call without a shape takes a page off the queue before it raises, and this page is on neither side.
-/
import LMCache.Memory.PagedAllocator
import LMCache.Memory.PageLayouts

namespace LMCache.Memory

open LMCache.Lib

namespace PagedTensorMemoryAllocator

/-! ## The source -/

/-- `memcheck`, over a buffer of `numel` bytes. -/
def memcheck (numel : Nat) (a : PagedTensorMemoryAllocator) : Bool :=
  let totalFreeSize := a.freeBlocks.length * a.alignBytes
  if totalFreeSize + a.totalAllocatedSize ≠ numel then false else true

/-! ## Buffers -/

/-- Page `p` knows its index, and it has its whole buffer unless its shapes say otherwise. -/
structure Restorable (a : PagedTensorMemoryAllocator) (p : Nat) (o : TensorMemoryObj) : Prop where
  valid : o.valid = true
  address : o.metadata.address = p
  buffer : o.metadata.shapes = a.shapes → a.pagedBuffers[p]? = some o.rawData

/-- Every page can be given its buffer again, and the pages in the queue have theirs. -/
structure Stocked (a : PagedTensorMemoryAllocator) : Prop where
  buffers : a.pagedBuffers.length = a.pages.length
  restorable : ∀ p o, a.pages[p]? = some o → a.Restorable p o
  queued : ∀ p ∈ a.freeBlocks, ∀ o, a.pages[p]? = some o → a.WholePage p o

/-- From `a` to `b` pages move between the queue and their owners, and the counters stay. -/
structure Restocks (a b : PagedTensorMemoryAllocator) : Prop where
  frame : SameFrame a b
  active : b.numActiveAllocations = a.numActiveAllocations
  size : b.totalAllocatedSize = a.totalAllocatedSize
  stocked : a.Stocked → b.Stocked

theorem Restocks.refl (a : PagedTensorMemoryAllocator) : Restocks a a := ⟨.refl a, rfl, rfl, id⟩

variable {a b : PagedTensorMemoryAllocator} {o : TensorMemoryObj} {numel p : Nat}
  {dtypes : OneOrList TorchDtype} {shapes : OneOrList TorchSize}

theorem Restocks.trans {c : PagedTensorMemoryAllocator} (h : Restocks a b) (h' : Restocks b c) :
    Restocks a c where
  frame := h.frame.trans h'.frame
  active := h'.active.trans h.active
  size := h'.size.trans h.size
  stocked hs := h'.stocked (h.stocked hs)

theorem WholePage.frame (h : a.WholePage p o) (hbuffers : b.pagedBuffers = a.pagedBuffers) :
    b.WholePage p o :=
  ⟨h.valid, h.address, hbuffers ▸ h.buffer⟩

theorem Restorable.frame (h : a.Restorable p o) (hbuffers : b.pagedBuffers = a.pagedBuffers)
    (hshapes : b.shapes = a.shapes) : b.Restorable p o := by
  refine ⟨h.valid, h.address, fun hsame => ?_⟩
  rw [hbuffers]
  exact h.buffer (hsame.trans hshapes)

/-- A whole page is restorable. -/
theorem WholePage.restorable (h : a.WholePage p o) : a.Restorable p o :=
  ⟨h.valid, h.address, fun _ => h.buffer⟩

/-- What `free` makes of a page that comes back. -/
theorem Stocked.whole_of_restorable (h : a.Stocked) (hget : a.pages[p]? = some o) :
    a.WholePage p (if o.metadata.shapes ≠ a.shapes then
      { o with rawData := (a.pagedBuffers[o.metadata.address.toNat]?).getD o.rawData } else o) := by
  obtain ⟨hvalid, haddress, hbuffer⟩ := h.restorable p o hget
  split
  · have hlt : p < a.pagedBuffers.length := by
      rw [h.buffers]
      exact (List.getElem?_eq_some_iff.mp hget).1
    refine ⟨hvalid, haddress, ?_⟩
    show a.pagedBuffers[p]? = some ((a.pagedBuffers[o.metadata.address.toNat]?).getD o.rawData)
    rw [haddress, Int.toNat_natCast, List.getElem?_eq_getElem hlt, Option.getD_some]
  · rename_i hsame
    exact ⟨hvalid, haddress, hbuffer (not_not.mp hsame)⟩

/-- A page that is given back is whole. -/
theorem restocks_giveBack (a : PagedTensorMemoryAllocator) (p : Nat) :
    Restocks a (a.giveBack p) := by
  unfold giveBack
  split
  · exact .refl a
  rename_i o hget
  split
  · exact .refl a
  have hlt := (List.getElem?_eq_some_iff.mp hget).1
  refine ⟨⟨rfl, rfl, rfl, rfl, List.length_set ..⟩, rfl, rfl, fun h => ?_⟩
  have hwhole := h.whole_of_restorable hget
  refine ⟨h.buffers.trans (List.length_set ..).symm, fun q d hd => ?_, fun q hq d hd => ?_⟩
  all_goals dsimp only at hd
  · by_cases hpq : p = q
    · subst hpq
      rw [List.getElem?_set_self hlt] at hd
      cases hd
      exact hwhole.restorable.frame rfl rfl
    · rw [List.getElem?_set_ne hpq] at hd
      exact (h.restorable q d hd).frame rfl rfl
  · by_cases hpq : p = q
    · subst hpq
      rw [List.getElem?_set_self hlt] at hd
      cases hd
      exact hwhole.frame rfl
    · rw [List.getElem?_set_ne hpq] at hd
      have hq := (List.mem_append.mp hq).resolve_right fun hq =>
        hpq (List.mem_singleton.mp hq).symm
      exact (h.queued q hq d hd).frame rfl

theorem restocks_foldl_giveBack (ps : List Nat) (a : PagedTensorMemoryAllocator) :
    Restocks a (ps.foldl giveBack a) := by
  induction ps generalizing a with
  | nil => exact .refl a
  | cons p ps ih => exact (restocks_giveBack a p).trans (ih _)

/-- The page at the front of the queue is whole, so it stays restorable whatever is asked for. -/
theorem restocks_reuse {rest : List Nat} (hqueue : a.freeBlocks = p :: rest)
    (hnodup : a.freeBlocks.Nodup) (shape : TorchSize) (dtype : TorchDtype) {shapes : List TorchSize}
    {dtypes : List TorchDtype} (hlen : shapes.length = dtypes.length) (fmt : MemoryFormat) :
    Restocks a { a with
      freeBlocks := rest
      pages := a.pages.modify p (a.reuse shape dtype shapes dtypes fmt) } := by
  rw [hqueue] at hnodup
  refine ⟨⟨rfl, rfl, rfl, rfl, List.length_modify ..⟩, rfl, rfl, fun h => ?_⟩
  refine ⟨h.buffers.trans (List.length_modify ..).symm, fun q d hd => ?_, fun q hq d hd => ?_⟩
  all_goals
    dsimp only at hd
    rw [List.getElem?_modify] at hd
    obtain ⟨o, ho, heq⟩ := Option.map_eq_some_iff.mp hd
  · by_cases hpq : p = q
    · subst hpq
      have hwhole := h.queued p (hqueue ▸ List.mem_cons_self) o ho
      rw [if_pos rfl, reuse_eq a shape dtype hlen] at heq
      subst heq
      -- only other shapes than those of the allocator cut the buffer
      refine ⟨hwhole.valid, hwhole.address, fun hsame => ?_⟩
      show a.pagedBuffers[p]? = some (a.cut shapes dtypes o.rawData)
      rw [hwhole.buffer, cut_eq_self]
      exact fun hne => absurd hsame hne
    · rw [if_neg hpq] at heq
      subst heq
      exact (h.restorable q o ho).frame rfl rfl
  · have hpq : p ≠ q := by
      rintro rfl
      exact (List.nodup_cons.mp hnodup).1 hq
    rw [if_neg hpq] at heq
    subst heq
    exact (h.queued q (hqueue ▸ List.mem_cons_of_mem _ hq) o ho).frame rfl

/-- The loop of `batched_allocate` serves the whole batch or nothing of it. -/
theorem restocks_batchedAllocateLoop {shape : TorchSize} {ss : List TorchSize} {dtype : TorchDtype}
    {ds : List TorchDtype} (hlen : (shape :: ss).length = (dtype :: ds).length) (fmt : MemoryFormat)
    (n : Nat) (hnodup : a.freeBlocks.Nodup) (taken : List Nat) :
    let r := batchedAllocateLoop (shape :: ss) (dtype :: ds) fmt n a taken
    Restocks a r.2 ∧
      (r.1 = .ok none ∨ ∃ ps, r.1 = .ok (some ps) ∧ ps.length = taken.length + n) := by
  induction n generalizing a taken with
  | zero => exact ⟨.refl a, .inr ⟨taken, rfl, rfl⟩⟩
  | succ n ih =>
    unfold batchedAllocateLoop
    cases hqueue : a.freeBlocks with
    | nil =>
      -- the queue is dry: what was taken goes back, and the counters stay
      exact ⟨restocks_foldl_giveBack taken a, .inl rfl⟩
    | cons p rest =>
      have hpop := restocks_reuse hqueue hnodup shape dtype hlen fmt
      rw [hqueue] at hnodup
      obtain ⟨hrestocks, hresult⟩ := @ih { a with
        freeBlocks := rest
        pages := a.pages.modify p (a.reuse shape dtype (shape :: ss) (dtype :: ds) fmt) }
        (List.nodup_cons.mp hnodup).2 (taken ++ [p])
      refine ⟨hpop.trans hrestocks, ?_⟩
      rw [List.length_append, List.length_singleton, Nat.add_right_comm, Nat.add_assoc] at hresult
      exact hresult

/-! ## The books -/

/-- Every page is in the queue or on the counters, and the pages fill the buffer. -/
structure Balanced (numel : Nat) (a : PagedTensorMemoryAllocator) : Prop where
  stocked : a.Stocked
  full : ∀ buf ∈ a.pagedBuffers, buf.length = a.alignBytes
  active : a.numActiveAllocations + a.freeBlocks.length = a.pages.length
  size : a.totalAllocatedSize = a.numActiveAllocations * a.alignBytes
  numel_eq : numel = a.pages.length * a.alignBytes
  align_pos : 0 < a.alignBytes

/-- What `memcheck` compares. -/
theorem memcheck_iff (numel : Nat) (a : PagedTensorMemoryAllocator) :
    a.memcheck numel = true ↔
      a.totalAllocatedSize + (a.freeBlocks.length * a.alignBytes : Nat) = numel := by
  unfold memcheck
  dsimp only
  split
  · rename_i hne
    exact iff_of_false Bool.false_ne_true fun heq => hne (by rw [← heq]; push_cast; ring)
  · rename_i heq
    refine iff_of_true rfl ?_
    rw [← not_not.mp heq]
    push_cast
    ring

/-- Balanced books pass the check. -/
theorem Balanced.memcheck (h : a.Balanced numel) : a.memcheck numel = true := by
  rw [memcheck_iff, h.size, h.numel_eq]
  have hpages := congrArg (· * (a.alignBytes : Int)) h.active
  push_cast
  rw [← hpages]
  ring

/-- A page that leaves the queue and is on no counter is missed by the check. -/
theorem Balanced.not_memcheck_of_lost (h : a.Balanced numel) {rest : List Nat}
    (hqueue : a.freeBlocks = p :: rest) :
    ¬({ a with freeBlocks := rest } : PagedTensorMemoryAllocator).memcheck numel = true := by
  have hbefore := (memcheck_iff numel a).mp h.memcheck
  have hpos := h.align_pos
  rw [hqueue, List.length_cons, Nat.add_mul] at hbefore
  rw [memcheck_iff]
  show ¬(a.totalAllocatedSize + (rest.length * a.alignBytes : Nat) = numel)
  omega

/-- Books stay balanced when the counters follow the queue. -/
theorem Balanced.restocks (h : a.Balanced numel) (hr : Restocks a b) {n m : Int}
    (hactive : n + b.freeBlocks.length = a.pages.length) (hsize : m = n * a.alignBytes) :
    Balanced numel { b with numActiveAllocations := n, totalAllocatedSize := m } := by
  have hstocked := hr.stocked h.stocked
  refine ⟨⟨hstocked.buffers, fun p o ho => ?_, fun p hp o ho => ?_⟩, ?_, ?_, ?_, ?_, ?_⟩
  · exact (hstocked.restorable p o ho).frame rfl rfl
  · exact (hstocked.queued p hp o ho).frame rfl
  · show ∀ buf ∈ b.pagedBuffers, buf.length = b.alignBytes
    rw [hr.frame.buffers, hr.frame.alignBytes]
    exact h.full
  · show n + b.freeBlocks.length = b.pages.length
    rw [hr.frame.pages, hactive]
  · show m = n * b.alignBytes
    rw [hr.frame.alignBytes, hsize]
  · show numel = b.pages.length * b.alignBytes
    rw [hr.frame.pages, hr.frame.alignBytes, h.numel_eq]
  · show 0 < b.alignBytes
    rw [hr.frame.alignBytes]
    exact h.align_pos

theorem balanced_free (h : a.Balanced numel) (hvalid : a.AllValid) (hp : p < a.pages.length) :
    (a.free p).Balanced numel := by
  have hqueue := (queued_giveBack hvalid p).queue
  have hget := List.getElem?_eq_getElem hp
  have hv := hvalid _ (List.getElem_mem hp)
  have hone : a.pageIf p (fun _ => true) = [p] := by simp [pageIf, hp]
  have hr := restocks_giveBack a p
  unfold free
  rw [if_pos (by rw [hget, Option.any_some]; exact hv)]
  apply h.restocks hr
  · rw [hr.active, hqueue, hone, List.length_append, List.length_singleton, ← h.active]
    push_cast
    ring
  · rw [hr.size, hr.active, hr.frame.alignBytes, h.size]
    ring

theorem balanced_batchedFree (h : a.Balanced numel) (hvalid : a.AllValid) {ps : List Nat}
    (hps : ∀ p ∈ ps, p < a.pages.length) : (a.batchedFree ps true).Balanced numel := by
  have hqueue := (queued_foldl_giveBack hvalid ps).queue
  have hall : (ps.flatMap fun p => a.pageIf p fun _ => true) = ps := by
    have hone : ∀ p ∈ ps, a.pageIf p (fun _ => true) = [p] := fun p hp => by
      simp [pageIf, hps p hp]
    rw [List.flatMap_congr hone, List.flatMap_singleton']
  have hr := restocks_foldl_giveBack ps a
  unfold batchedFree
  dsimp only
  rw [if_pos rfl]
  apply h.restocks hr
  · rw [hr.active, hqueue, hall, List.length_append, ← h.active]
    push_cast
    ring
  · rw [hr.size, hr.active, hr.frame.alignBytes, h.size]
    ring

theorem length_of_adapt {ss : List TorchSize} {ds : List TorchDtype}
    (h : adaptShapesAndDtypes shapes dtypes = .ok (ss, ds)) : ss.length = ds.length := by
  unfold adaptShapesAndDtypes at h
  split at h
  · cases h
    assumption
  · cases h

theorem balanced_allocate (h : a.Balanced numel) (hnodup : a.freeBlocks.Nodup)
    (hnamed : NoShape shapes dtypes → a.freeBlocks = []) (fmt : MemoryFormat) :
    (a.allocate shapes dtypes fmt).2.Balanced numel := by
  unfold allocate
  obtain ⟨e, hadapt, -⟩ | ⟨hadapt, hno⟩ | ⟨s, ss, d, ds, hadapt, -⟩ := adapt_cases shapes dtypes
  · rw [hadapt]
    exact h
  · rw [hadapt, hnamed hno]
    exact h
  · have hlen := length_of_adapt hadapt
    rw [hadapt]
    cases hqueue : a.freeBlocks with
    | nil => exact h
    | cons p rest =>
      apply h.restocks (restocks_reuse hqueue hnodup s d hlen fmt)
      · rw [← h.active, hqueue, List.length_cons]
        push_cast
        ring
      · rw [h.size]
        ring

/-- Without a shape, `allocate` loses the page it takes. -/
theorem not_memcheck_allocate (h : a.Balanced numel) (hno : NoShape shapes dtypes)
    (hfree : a.freeBlocks ≠ []) (fmt : MemoryFormat) :
    ¬(a.allocate shapes dtypes fmt).2.memcheck numel = true := by
  obtain ⟨p, rest, hqueue⟩ := List.exists_cons_of_ne_nil hfree
  have hlost := h.not_memcheck_of_lost hqueue
  unfold allocate adaptShapesAndDtypes
  rw [hno.1, hno.2, hqueue]
  exact hlost

/-! ## A batch is served whole or not at all -/

/-- From `a` to `b` the queue and the counters are as they were, and the pages in the queue have
their whole buffers. -/
structure Unchanged (a b : PagedTensorMemoryAllocator) : Prop where
  queue : b.freeBlocks = a.freeBlocks
  buffers : ∀ p ∈ b.freeBlocks, ∃ o, b.pages[p]? = some o ∧
    b.pagedBuffers[p]? = some o.rawData ∧ o.rawData.length = b.alignBytes
  active : b.numActiveAllocations = a.numActiveAllocations
  size : b.totalAllocatedSize = a.totalAllocatedSize

/-- `batched_allocate` returns as many distinct pages from the queue as it was asked for, or `None`
and changes nothing. -/
def AllOrNothing (a : PagedTensorMemoryAllocator) (n : Nat) :
    Except PyError (Option (List Nat)) × PagedTensorMemoryAllocator → Prop
  | (.ok (some ps), b) => ps.length = n ∧ ps.Nodup ∧ a.freeBlocks = ps ++ b.freeBlocks
  | (.ok none, b) => Unchanged a b
  | (.error _, _) => False

/-- As many shapes as dtypes, and at least one when a page is taken. -/
def Requested (a : PagedTensorMemoryAllocator) (shapes : OneOrList TorchSize)
    (dtypes : OneOrList TorchDtype) (n : Nat) : Prop :=
  shapes.toList.length = dtypes.toList.length ∧
    (shapes.toList = [] → n = 0 ∨ a.freeBlocks = [])

theorem unchanged_of_restocks (h : a.Balanced numel) (hr : Restocks a b)
    (hqueue : b.freeBlocks = a.freeBlocks) (hbound : ∀ p ∈ a.freeBlocks, p < a.pages.length) :
    Unchanged a b := by
  refine ⟨hqueue, fun p hp => ?_, hr.active, hr.size⟩
  have hlt : p < b.pages.length := by
    rw [hr.frame.pages]
    exact hbound p (hqueue ▸ hp)
  have hwhole := (hr.stocked h.stocked).queued p hp _ (List.getElem?_eq_getElem hlt)
  refine ⟨_, List.getElem?_eq_getElem hlt, hwhole.buffer, ?_⟩
  rw [hr.frame.alignBytes]
  exact h.full _ (hr.frame.buffers ▸ List.mem_of_getElem? hwhole.buffer)

/-- A batch that is asked for properly is served whole or not at all, and the books are kept. -/
theorem balanced_batchedAllocate (h : a.Balanced numel) (hvalid : a.AllValid)
    (hbound : ∀ p ∈ a.freeBlocks, p < a.pages.length) (hnodup : a.freeBlocks.Nodup) {n : Nat}
    (hreq : a.Requested shapes dtypes n) (fmt : MemoryFormat) :
    (a.batchedAllocate shapes dtypes n fmt).2.Balanced numel ∧
      a.AllOrNothing n (a.batchedAllocate shapes dtypes n fmt) := by
  have hqueue := (batchedAllocate_cases hvalid hbound shapes dtypes n fmt).2.2
  have hself : Unchanged a a := unchanged_of_restocks h (.refl a) rfl hbound
  unfold batchedAllocate at hqueue ⊢
  obtain ⟨e, hadapt, -⟩ | ⟨hadapt, hno⟩ | ⟨s, ss, d, ds, hadapt, hno⟩ := adapt_cases shapes dtypes
  · unfold adaptShapesAndDtypes at hadapt
    rw [if_pos hreq.1] at hadapt
    cases hadapt
  · -- without a shape there is nothing to take, or nothing is asked for
    rw [hadapt] at hqueue ⊢
    cases n with
    | zero =>
      refine ⟨h.restocks (.refl a) ?_ ?_, rfl, List.nodup_nil, rfl⟩
      · rw [Nat.cast_zero, add_zero, h.active]
      · rw [Nat.cast_zero, add_zero]
    | succ n =>
      have hdry := (hreq.2 hno.1).resolve_left (Nat.succ_ne_zero n)
      dsimp only
      unfold batchedAllocateLoop
      rw [hdry]
      exact ⟨h, hself⟩
  · have hlen := length_of_adapt hadapt
    obtain ⟨hr, hresult⟩ := restocks_batchedAllocateLoop hlen fmt n hnodup []
    rw [hadapt] at hqueue ⊢
    dsimp only at hqueue ⊢
    generalize batchedAllocateLoop (s :: ss) (d :: ds) fmt n a [] = r at hr hresult hqueue ⊢
    obtain ⟨res, b⟩ := r
    dsimp only at hr hresult
    have hfront := hqueue.resolve_right fun hc => hno hc.1
    obtain rfl | ⟨ps, rfl, hcount⟩ := hresult
    · have hsame : b.freeBlocks = a.freeBlocks := hfront.2.symm
      refine ⟨h.restocks hr ?_ ?_, unchanged_of_restocks h hr hsame hbound⟩
      · rw [hr.active, hsame, h.active]
      · rw [hr.size, hr.active, h.size]
    · have hsplit : a.freeBlocks = ps ++ b.freeBlocks := hfront.2
      rw [List.length_nil, Nat.zero_add] at hcount
      refine ⟨h.restocks hr ?_ ?_, hcount, ?_, hsplit⟩
      · rw [hr.active, ← h.active, hsplit, List.length_append, hcount]
        push_cast
        ring
      · rw [hr.frame.alignBytes]
      · exact (List.nodup_append.mp (hsplit ▸ hnodup)).1

/-- Any other batch raises. -/
theorem not_allOrNothing {n : Nat} (hreq : ¬a.Requested shapes dtypes n) (fmt : MemoryFormat) :
    ¬a.AllOrNothing n (a.batchedAllocate shapes dtypes n fmt) := by
  unfold batchedAllocate adaptShapesAndDtypes
  by_cases hlen : shapes.toList.length = dtypes.toList.length
  · rw [if_pos hlen]
    have htake : ¬(shapes.toList = [] → n = 0 ∨ a.freeBlocks = []) := fun hc => hreq ⟨hlen, hc⟩
    push Not at htake
    obtain ⟨hshapes, hn, hfree⟩ := htake
    obtain ⟨n, rfl⟩ := Nat.exists_eq_succ_of_ne_zero hn
    obtain ⟨p, rest, hqueue⟩ := List.exists_cons_of_ne_nil hfree
    have hdtypes : dtypes.toList = [] := by
      rw [hshapes] at hlen
      exact List.length_eq_zero_iff.mp hlen.symm
    rw [hshapes, hdtypes]
    dsimp only
    unfold batchedAllocateLoop
    rw [hqueue]
    exact id
  · rw [if_neg hlen]
    exact id

end PagedTensorMemoryAllocator

/-! ## Whole runs -/

namespace PagedPool

/-- The calls of the claim, which free live pages only. -/
def Live (s : PagedPool) : PagedCall → Prop
  | .allocate _ _ _ | .batchedAllocate _ _ _ _ => True
  | .free h => h ∈ s.held
  | .batchedFree hs => hs.Nodup ∧ ∀ h ∈ hs, h ∈ s.held
  | _ => False

/-- **The accounting is exact**, for a buffer of `numel` bytes. -/
def Accounted (numel : Nat) (s : PagedPool) : Prop := s.allocator.memcheck numel = true

/-- **A batch is all or nothing.** -/
def Delivers (s : PagedPool) : PagedCall → Prop
  | .batchedAllocate shapes dtypes n fmt =>
    s.allocator.AllOrNothing n (s.allocator.batchedAllocate shapes dtypes n fmt)
  | _ => True

/-- The condition on one call: a batch has as many shapes as dtypes, and a call that takes a page
has a shape. -/
def Named (s : PagedPool) : PagedCall → Prop
  | .allocate shapes dtypes _ =>
    shapes.toList = [] → dtypes.toList = [] → s.allocator.freeBlocks = []
  | .batchedAllocate shapes dtypes n _ => s.allocator.Requested shapes dtypes n
  | _ => True

instance (s : PagedPool) : ∀ c, Decidable (s.Live c)
  | .allocate _ _ _ | .batchedAllocate _ _ _ _ => .isTrue trivial
  | .free h => inferInstanceAs (Decidable (h ∈ s.held))
  | .batchedFree hs => inferInstanceAs (Decidable (hs.Nodup ∧ ∀ h ∈ hs, h ∈ s.held))
  | .refCountUp _ | .refCountDown _ | .pin _ | .unpin _ | .forceUnpin _ => .isFalse id

instance (s : PagedPool) : ∀ c, Decidable (s.Named c)
  | .allocate shapes dtypes _ => inferInstanceAs
    (Decidable (shapes.toList = [] → dtypes.toList = [] → s.allocator.freeBlocks = []))
  | .batchedAllocate shapes dtypes n _ => inferInstanceAs
    (Decidable (shapes.toList.length = dtypes.toList.length ∧
      (shapes.toList = [] → n = 0 ∨ s.allocator.freeBlocks = [])))
  | .refCountUp _ | .refCountDown _ | .pin _ | .unpin _ | .free _ | .batchedFree _
  | .forceUnpin _ => .isTrue trivial

/-- The owners of the pages are known and the books are balanced. -/
structure Sound (numel : Nat) (s : PagedPool) : Prop where
  good : s.Good
  pagesOk : PagesOk s.allocator
  balanced : s.allocator.Balanced numel

variable {s : PagedPool} {c : PagedCall} {numel : Nat}

theorem Good.lt_of_held (h : s.Good) {k : Handle} (hk : k ∈ s.held) :
    k.page < s.allocator.pages.length :=
  (h.all k.page).mpr (.inr (List.mem_map_of_mem hk))

/-- Distinct handles that are held are released one after the other. -/
theorem releasesHeld_map_some {held hs : List Handle} (hnodup : hs.Nodup)
    (hmem : ∀ h ∈ hs, h ∈ held) : ReleasesHeld held (hs.map some) := by
  induction hs generalizing held with
  | nil => trivial
  | cons h hs ih =>
    obtain ⟨hnotin, hnodup⟩ := List.nodup_cons.mp hnodup
    refine ⟨hmem h List.mem_cons_self, ih hnodup fun k hk => ?_⟩
    have hne : k ≠ h := fun heq => hnotin (heq ▸ hk)
    exact (List.mem_erase_of_ne hne).mpr (hmem k (List.mem_cons_of_mem _ hk))

/-- A page that is held goes back through its handle. -/
theorem returningIf_of_held (h : s.Good) {k : Handle} (hk : k ∈ s.held) :
    s.returningIf k (fun _ => true) = [(k.page, some k)] := by
  unfold returningIf
  rw [List.getElem?_eq_getElem (h.lt_of_held hk)]
  rfl

/-- Live calls with a shape keep the owners of the pages apart. -/
theorem allowed_of_live (h : s.Good) (hlive : s.Live c) (hnamed : s.Named c) : s.Allowed c := by
  cases c with
  | allocate shapes dtypes fmt => exact hnamed
  | batchedAllocate shapes dtypes n fmt => exact fun hshapes _ => hnamed.2 hshapes
  | free k =>
    show ReleasesHeld s.held ((s.returningIf k fun _ => true).map Prod.snd)
    rw [returningIf_of_held h hlive]
    exact ⟨hlive, trivial⟩
  | batchedFree hs =>
    show ReleasesHeld s.held ((hs.flatMap fun k => s.returningIf k fun _ => true).map Prod.snd)
    rw [List.flatMap_congr fun k hk => returningIf_of_held h (hlive.2 k hk), List.map_flatMap]
    have hvias := releasesHeld_map_some hlive.1 hlive.2
    rwa [← List.flatMap_pure_eq_map] at hvias
  | refCountUp k => exact hlive.elim
  | refCountDown k => exact hlive.elim
  | pin k => exact hlive.elim
  | unpin k => exact hlive.elim
  | forceUnpin p => exact hlive.elim

/-- **Step lemma.**  A live call that names what it takes is served whole or not at all, and keeps
the books. -/
theorem sound_step (h : s.Sound numel) (hlive : s.Live c) (hnamed : s.Named c) :
    (s.step c).Sound numel ∧ s.Delivers c := by
  have hstep := step_spec h.pagesOk c
  have hgood := (hstep.2 h.good).mpr (allowed_of_live h.good hlive hnamed)
  obtain ⟨hvalid, hbound⟩ := h.pagesOk
  have hbalanced : (callAllocator s.allocator c).Balanced numel ∧ s.Delivers c := by
    cases c with
    | allocate shapes dtypes fmt =>
      refine ⟨?_, trivial⟩
      exact PagedTensorMemoryAllocator.balanced_allocate h.balanced h.good.queue_nodup
        (fun hno => hnamed hno.1 hno.2) fmt
    | batchedAllocate shapes dtypes n fmt =>
      exact PagedTensorMemoryAllocator.balanced_batchedAllocate h.balanced hvalid hbound
        h.good.queue_nodup hnamed fmt
    | free k =>
      refine ⟨?_, trivial⟩
      exact PagedTensorMemoryAllocator.balanced_free h.balanced hvalid (h.good.lt_of_held hlive)
    | batchedFree hs =>
      refine ⟨?_, trivial⟩
      apply PagedTensorMemoryAllocator.balanced_batchedFree h.balanced hvalid
      intro p hp
      obtain ⟨k, hk, rfl⟩ := List.mem_map.mp hp
      exact h.good.lt_of_held (hlive.2 k hk)
    | refCountUp k => exact hlive.elim
    | refCountDown k => exact hlive.elim
    | pin k => exact hlive.elim
    | unpin k => exact hlive.elim
    | forceUnpin p => exact hlive.elim
  exact ⟨⟨hgood, hstep.1, hbalanced.1⟩, hbalanced.2⟩

/-- A call that takes a page without a shape shows: in the batch, or in the books after it. -/
theorem named_of_step (h : s.Sound numel) (haccounted : (s.step c).Accounted numel)
    (hdelivers : s.Delivers c) : s.Named c := by
  cases c with
  | allocate shapes dtypes fmt =>
    intro hshapes hdtypes
    by_contra hfree
    exact PagedTensorMemoryAllocator.not_memcheck_allocate h.balanced ⟨hshapes, hdtypes⟩ hfree fmt
      haccounted
  | batchedAllocate shapes dtypes n fmt =>
    by_contra hnamed
    exact PagedTensorMemoryAllocator.not_allOrNothing hnamed fmt hdelivers
  | refCountUp k => trivial
  | refCountDown k => trivial
  | pin k => trivial
  | unpin k => trivial
  | free k => trivial
  | batchedFree hs => trivial
  | forceUnpin p => trivial

/-- **Run lemma.**  From sound books on. -/
theorem accounted_and_delivers_iff (h : s.Sound numel) {calls : List PagedCall}
    (hlive : Guarded step Live s calls) :
    Always step (Accounted numel) s calls ∧ Guarded step Delivers s calls ↔
      Guarded step Named s calls := by
  induction calls generalizing s with
  | nil => exact iff_of_true ⟨h.balanced.memcheck, trivial⟩ trivial
  | cons c calls ih =>
    constructor
    · rintro ⟨haccounted, hdelivers⟩
      have hnamed := named_of_step h haccounted.2.head hdelivers.1
      have hsound := (sound_step h hlive.1 hnamed).1
      exact ⟨hnamed, (ih hsound hlive.2).mp ⟨haccounted.2, hdelivers.2⟩⟩
    · rintro ⟨hnamed, hrest⟩
      obtain ⟨hsound, hdelivers⟩ := sound_step h hlive.1 hnamed
      have hnext := (ih hsound hlive.2).mpr hrest
      exact ⟨⟨h.balanced.memcheck, hnext.1⟩, hdelivers, hnext.2⟩

/-- A fresh allocator has sound books, unless its buffer is empty: then it has one empty page, which
the books count as a full one. -/
theorem sound_init {shapes : List TorchSize} {dtypes : List TorchDtype} {fmt : MemoryFormat}
    {a : PagedTensorMemoryAllocator}
    (h : PagedTensorMemoryAllocator.init numel shapes dtypes fmt = .ok a) :
    if numel = 0 then ¬(init a).Accounted numel else (init a).Sound numel := by
  obtain ⟨hpagesOk, hgood⟩ := init_spec h
  unfold PagedTensorMemoryAllocator.init at h
  split at h
  · cases h
  rename_i alignBytes hbytes
  split at h
  · cases h
  rename_i halign
  split at h
  · cases h
  rename_i hmod
  have hmul : numel / alignBytes * alignBytes = numel :=
    Nat.div_mul_cancel (Nat.dvd_of_mod_eq_zero (not_not.mp hmod))
  have hpos := Nat.pos_of_ne_zero halign
  split at h
  · cases h
    split
    · rename_i hzero
      unfold Accounted
      rw [PagedTensorMemoryAllocator.memcheck_iff]
      simp [init, PagedTensorMemoryAllocator.torchSplit, hzero, halign]
    · rename_i hnumel
      have hcount : max 1 (numel / alignBytes) = numel / alignBytes := by
        apply Nat.max_eq_right
        by_contra hlt
        rw [Nat.lt_one_iff.mp (Nat.lt_of_not_le hlt), Nat.zero_mul] at hmul
        exact hnumel hmul.symm
      refine ⟨hgood, hpagesOk, ⟨?_, fun p o ho => ?_, fun p hp o ho => ?_⟩, fun buf hbuf => ?_,
        ?_, ?_, ?_, hpos⟩
      · simp [init]
      all_goals dsimp only [init] at *
      · rw [List.getElem?_map, List.getElem?_zipIdx, Option.map_map] at ho
        obtain ⟨buf, hbuf, rfl⟩ := Option.map_eq_some_iff.mp ho
        exact ⟨rfl, by simp [TensorMemoryObj.init], fun _ => hbuf⟩
      · rw [List.getElem?_map, List.getElem?_zipIdx, Option.map_map] at ho
        obtain ⟨buf, hbuf, rfl⟩ := Option.map_eq_some_iff.mp ho
        exact ⟨rfl, by simp [TensorMemoryObj.init], hbuf⟩
      · unfold PagedTensorMemoryAllocator.torchSplit at hbuf
        rw [hcount] at hbuf
        obtain ⟨i, hi, rfl⟩ := List.mem_map.mp hbuf
        have hlast : (i + 1) * alignBytes ≤ numel / alignBytes * alignBytes :=
          Nat.mul_le_mul_right _ (List.mem_range.mp hi)
        rw [hmul, Nat.succ_mul] at hlast
        exact Nat.min_eq_left (by omega)
      · simp
      · simp
      · simp [PagedTensorMemoryAllocator.torchSplit, hcount, hmul]
  · cases h

/-- **Batches are all or nothing and the books balance, exactly.**  Along every run of live calls
from a fresh allocator, if and only if there is something to allocate and every call names it. -/
theorem batches_and_books_iff {numel : Nat} {shapes : List TorchSize} {dtypes : List TorchDtype}
    {fmt : MemoryFormat} {a : PagedTensorMemoryAllocator}
    (h : PagedTensorMemoryAllocator.init numel shapes dtypes fmt = .ok a) {calls : List PagedCall}
    (hlive : Guarded step Live (init a) calls) :
    Always step (Accounted numel) (init a) calls ∧ Guarded step Delivers (init a) calls ↔
      numel ≠ 0 ∧ Guarded step Named (init a) calls := by
  have hinit := sound_init h
  split at hinit
  · rename_i hzero
    exact iff_of_false (fun hall => hinit hall.1.head) fun hall => hall.1 hzero
  · rename_i hnumel
    rw [accounted_and_delivers_iff hinit hlive]
    exact (and_iff_right hnumel).symm

/-- A batch of three for a queue of two, between a batch of one cut page and its return. -/
theorem batches_and_books_iff_dryQueue :
    ∃ a, PagedTensorMemoryAllocator.init 24 [[2, 4]] [.uint8] .KV_2LTD = .ok a ∧
      (Always step (Accounted 24) (init a)
          [.batchedAllocate (.one [2, 2]) (.one .uint8) 1 .KV_2LTD,
            .batchedAllocate (.one [2, 3]) (.one .uint8) 3 .KV_2LTD, .batchedFree [⟨0, 0⟩]] ∧
        Guarded step Delivers (init a)
          [.batchedAllocate (.one [2, 2]) (.one .uint8) 1 .KV_2LTD,
            .batchedAllocate (.one [2, 3]) (.one .uint8) 3 .KV_2LTD, .batchedFree [⟨0, 0⟩]]) :=
  ⟨_, rfl, (@batches_and_books_iff 24 [[2, 4]] [.uint8] .KV_2LTD _ rfl _
    (by decide +kernel)).mpr (by decide +kernel)⟩

/-- It can fail: a batch without shapes raises and has taken a page of the queue with it, which the
check then misses. -/
theorem not_batches_and_books_noShape :
    ∃ a, PagedTensorMemoryAllocator.init 24 [[2, 4]] [.uint8] .KV_2LTD = .ok a ∧
      Guarded step Live (init a) [.batchedAllocate (.list []) (.list []) 1 .KV_2LTD] ∧
      ¬Always step (Accounted 24) (init a) [.batchedAllocate (.list []) (.list []) 1 .KV_2LTD] ∧
      ¬Guarded step Delivers (init a) [.batchedAllocate (.list []) (.list []) 1 .KV_2LTD] := by
  refine ⟨_, rfl, ⟨trivial, trivial⟩, fun h => ?_, fun h => h.1⟩
  have hcheck := h.last
  revert hcheck
  unfold Accounted
  decide +kernel

end PagedPool

end LMCache.Memory
