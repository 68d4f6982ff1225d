/-
# LMCache.Storage.SourceBuffers — the memory objects of a put while they are read.

Source: `StorageManager.batched_put` and `allocate_and_copy_objects` of
`v1/storage_backend/storage_manager.py`, and the `batched_submit_put_task` of each backend.

`batched_put` hands its objects to one backend after the other and then drops the reference that
came with them.  Most backends read the objects later, in another thread.  An object goes back to
its allocator when its last reference is dropped, whoever drops it; so a backend that reads later
has to hold a reference until it has read.  Two do not: the Nixl backend with a pool takes none, and
a remote backend with the KIVI serializer drops one that it has not taken.

References are followed here as a ledger: each is with somebody outside, with a running
`batched_put`, or with a write.
-/
import LMCache.Lib.Counts
import LMCache.Lib.Run
import LMCache.Lib.Weights
import LMCache.Storage.FailedPuts

namespace LMCache.Storage

open LMCache.Lib

/-! ## Backends and writes -/

/-- What matters of a backend for the objects that are put to it. -/
inductive PutKind where
  | localCpu
  | localDisk
  | remote (serializer : Serializer)
  | nixlStatic
  | nixlDynamic (asyncMode : Bool)
  | pd
  deriving DecidableEq, Repr

/-- A backend of the storage manager, with the class name of its allocator backend. -/
structure ManagedBackend where
  name : String
  kind : PutKind
  allocator : String
  deriving DecidableEq, Repr

/-- A write that was scheduled and has not ended. -/
structure WriteJob where
  kind : PutKind
  /-- The objects that it reads. -/
  objs : List Nat
  /-- The references that it drops at its end. -/
  refs : List Nat
  deriving DecidableEq, Repr

/-- How a write ends. -/
inductive WriteEnd where
  | done
  /-- It raises, in the transfer itself or before. -/
  | failed (inTransfer : Bool)
  deriving DecidableEq, Repr

/-- Whether the references are dropped at the end.  The connector of a remote backend and
`_wait_for_transfer` do it in a `finally`. -/
def PutKind.dropsRefs : PutKind → WriteEnd → Bool
  | _, .done => true
  | .remote _, .failed _ => true
  | .nixlDynamic _, .failed inTransfer => inTransfer
  | _, .failed _ => false

/-! ## `batched_put` -/

/-- Where a `batched_put` is.  `objDict` has the objects for each allocator backend. -/
inductive PutPc where
  /-- In the loop over the backends. -/
  | submitting (todo : List ManagedBackend) (objDict : List (String × List Nat))
  /-- In a backend that writes before it returns. -/
  | waiting (job : WriteJob) (todo : List ManagedBackend) (objDict : List (String × List Nat))
  /-- In the loop that drops the references. -/
  | dropping (objs : List Nat)
  deriving DecidableEq, Repr

namespace PutPc

/-- The references that came with the objects, or with their copies. -/
def objs : PutPc → List Nat
  | submitting _ objDict => objDict.flatMap Prod.snd
  | waiting _ _ objDict => objDict.flatMap Prod.snd
  | dropping objs => objs

/-- All references, with those of a write that is waited for. -/
def refs : PutPc → List Nat
  | waiting job _ objDict => job.refs ++ objDict.flatMap Prod.snd
  | pc => pc.objs

/-- The objects that are being read. -/
def reads : PutPc → List Nat
  | waiting job _ _ => job.objs
  | _ => []

end PutPc

/-- Objects are numbered as they are allocated. -/
structure SourceBuffers where
  /-- `StorageManager.storage_backends`, and the class name of `allocator_backend`. -/
  backends : List ManagedBackend
  allocatorBackend : String
  nextObj : Nat
  refCount : Nat → Nat
  pinCount : Nat → Nat
  /-- The objects that were returned to their allocators. -/
  returned : List Nat
  /-- The references of everybody else: engines, caches, and calls that have raised. -/
  held : List Nat
  puts : List PutPc
  jobs : List WriteJob

inductive BufferEvent where
  | allocate
  /-- Somebody who has a reference takes one more, or drops it. -/
  | refCountUp (obj : Nat)
  | refCountDown (obj : Nat)
  | pin (obj : Nat)
  | unpin (obj : Nat)
  /-- A `batched_put` begins, with the references of its caller. -/
  | batchedPut (memoryObjs : List Nat) (location : Option String)
  /-- It goes on.  In the loop: the next backend may be bypassed, may refuse the put, and may skip
  some of the objects; `copies` is how many objects `allocate_and_copy_objects` allocates, if it is
  called. -/
  | putStep (t : Nat) (bypassed refused : Bool) (skipped : List Nat) (copies : Nat)
  /-- A backend raises in its submission, with a reference to an object taken or without. -/
  | putRaises (t : Nat) (leaked : Option Nat)
  /-- The write that a `batched_put` waits for ends. -/
  | putWritten (t : Nat) (ended : WriteEnd)
  /-- A scheduled write ends. -/
  | jobEnds (job : WriteJob) (ended : WriteEnd)
  deriving DecidableEq, Repr

namespace SourceBuffers

def init (backends : List ManagedBackend) (allocatorBackend : String) : SourceBuffers where
  backends := backends
  allocatorBackend := allocatorBackend
  nextObj := 0
  refCount := fun _ => 0
  pinCount := fun _ => 0
  returned := []
  held := []
  puts := []
  jobs := []

/-- `ref_count_up` of each. -/
def refUp (s : SourceBuffers) (objs : List Nat) : SourceBuffers :=
  { s with refCount := raiseAll s.refCount objs }

/-- `ref_count_down` of each: what has no reference left and no pin is returned. -/
def refDown (s : SourceBuffers) (objs : List Nat) : SourceBuffers :=
  { s with
    refCount := lowerAll s.refCount objs
    returned := objs.filter (fun obj => lowerAll s.refCount objs obj = 0 ∧ s.pinCount obj = 0) ++
      s.returned }

/-- New objects, with a reference each. -/
def allocateObjs (s : SourceBuffers) (n : Nat) : SourceBuffers × List Nat :=
  ({ s with
      nextObj := s.nextObj + n
      refCount := raiseAll s.refCount (List.range' s.nextObj n) }, List.range' s.nextObj n)

/-- `batched_submit_put_task` of a backend: the state, and the write to wait for if there is one.

* `LocalCPUBackend` stores the objects that are new, with a reference.
* `LocalDiskBackend` takes a reference to each object that it schedules a write for.
* `RemoteBackend` serializes at once; the object that is put then is the same one with a reference
  of its own (naive), the same one (KIVI) or another (CacheGen).
* `NixlStaticStorageBackend` schedules the transfer of the objects as they are.
* `NixlDynamicStorageBackend` takes references in the asynchronous mode, and else waits.
* `PDBackend` takes references and writes. -/
def submitPut (s : SourceBuffers) (kind : PutKind) (memoryObjs : List Nat) (refused : Bool)
    (skipped : List Nat) : SourceBuffers × Option WriteJob :=
  let accepted := if refused then [] else memoryObjs.filter (· ∉ skipped)
  match kind with
  | .localCpu => ({ s.refUp accepted with held := accepted ++ s.held }, none)
  | .localDisk | .remote .naive =>
    ({ s.refUp accepted with jobs := s.jobs ++ accepted.map fun obj => ⟨kind, [obj], [obj]⟩ }, none)
  | .remote .kivi =>
    ({ s with jobs := s.jobs ++ accepted.map fun obj => ⟨kind, [obj], [obj]⟩ }, none)
  | .remote .cachegen => (s, none)
  | .nixlStatic =>
    if refused then (s, none) else ({ s with jobs := s.jobs ++ [⟨kind, memoryObjs, []⟩] }, none)
  | .nixlDynamic true =>
    ({ s.refUp memoryObjs with jobs := s.jobs ++ [⟨kind, memoryObjs, memoryObjs⟩] }, none)
  | .nixlDynamic false => (s, some ⟨kind, memoryObjs, []⟩)
  | .pd => (s.refUp memoryObjs, some ⟨kind, memoryObjs, memoryObjs⟩)

def setPut (s : SourceBuffers) (t : Nat) (pc : PutPc) : SourceBuffers :=
  { s with puts := s.puts.set t pc }

/-- The loop goes on behind a submission. -/
def proceed (t : Nat) (todo : List ManagedBackend) (objDict : List (String × List Nat))
    (r : SourceBuffers × Option WriteJob) : SourceBuffers :=
  match r.2 with
  | none => r.1.setPut t (.submitting todo objDict)
  | some job => r.1.setPut t (.waiting job todo objDict)

/-- The next part of a `batched_put`. -/
def stepPut (s : SourceBuffers) (t : Nat) (bypassed refused : Bool) (skipped : List Nat)
    (copies : Nat) : PutPc → SourceBuffers
  | .submitting [] objDict => s.setPut t (.dropping (objDict.flatMap Prod.snd))
  | .submitting (backend :: todo) objDict =>
    if bypassed then s.setPut t (.submitting todo objDict)
    else
      match objDict.lookup backend.allocator with
      | some objs => proceed t todo objDict (s.submitPut backend.kind objs refused skipped)
      | none =>
        let (s', objs) := s.allocateObjs copies
        proceed t todo (objDict ++ [(backend.allocator, objs)])
          (s'.submitPut backend.kind objs refused skipped)
  | .waiting job todo objDict => s.setPut t (.waiting job todo objDict)
  | .dropping (obj :: objs) => (s.refDown [obj]).setPut t (.dropping objs)
  | .dropping [] => s

/-- A call that raises drops nothing. -/
def raisePut (s : SourceBuffers) (t : Nat) (leaked : List Nat) (pc : PutPc) : SourceBuffers :=
  { s.refUp leaked with held := leaked ++ (pc.refs ++ s.held) }.setPut t (.dropping [])

/-- The references of a write at its end: they are dropped, or nobody does. -/
def endJob (s : SourceBuffers) (job : WriteJob) (ended : WriteEnd) : SourceBuffers :=
  if job.kind.dropsRefs ended then s.refDown job.refs else { s with held := job.refs ++ s.held }

def step (s : SourceBuffers) : BufferEvent → SourceBuffers
  | .allocate => { (s.allocateObjs 1).1 with held := (s.allocateObjs 1).2 ++ s.held }
  | .refCountUp obj => if obj ∈ s.held then { s.refUp [obj] with held := obj :: s.held } else s
  | .refCountDown obj =>
    if obj ∈ s.held then { s.refDown [obj] with held := s.held.erase obj } else s
  | .pin obj => if obj ∈ s.held then { s with pinCount := raise s.pinCount obj } else s
  | .unpin obj =>
    if obj < s.nextObj ∧ 0 < s.pinCount obj then
      { s with
        pinCount := lower s.pinCount obj
        returned := if s.pinCount obj = 1 ∧ s.refCount obj = 0 then obj :: s.returned
          else s.returned }
    else s
  | .batchedPut memoryObjs location =>
    if memoryObjs.Subperm s.held then
      { s with
        held := s.held.diff memoryObjs
        puts := s.puts ++ [.submitting
          (s.backends.filter fun b => location = none ∨ location = some "" ∨ location = some b.name)
          [(s.allocatorBackend, memoryObjs)]] }
    else s
  | .putStep t bypassed refused skipped copies =>
    match s.puts[t]? with
    | some pc => s.stepPut t bypassed refused skipped copies pc
    | none => s
  | .putRaises t leaked =>
    match s.puts[t]? with
    | some (.submitting todo objDict) =>
      s.raisePut t (leaked.toList.filter (· ∈ objDict.flatMap Prod.snd)) (.submitting todo objDict)
    | _ => s
  | .putWritten t ended =>
    match s.puts[t]? with
    | some (.waiting job todo objDict) =>
      match ended with
      | .done => (s.endJob job .done).setPut t (.submitting todo objDict)
      | .failed _ => s.raisePut t [] (.waiting job todo objDict)
    | _ => s
  | .jobEnds job ended =>
    if job ∈ s.jobs then { s.endJob job ended with jobs := s.jobs.erase job } else s

/-- **Nothing is read after it was returned**: neither by a write nor by a `batched_put` that still
has it to hand on. -/
def Safe (s : SourceBuffers) : Prop :=
  (∀ job ∈ s.jobs, ∀ obj ∈ job.objs, obj ∉ s.returned) ∧
    ∀ pc ∈ s.puts, ∀ obj ∈ pc.objs ++ pc.reads, obj ∉ s.returned

/-- The references that an event drops. -/
def drops (s : SourceBuffers) : BufferEvent → List Nat
  | .refCountDown obj => if obj ∈ s.held then [obj] else []
  | .putStep t _ _ _ _ =>
    match s.puts[t]? with
    | some (.dropping (obj :: _)) => [obj]
    | _ => []
  | .putWritten t .done =>
    match s.puts[t]? with
    | some (.waiting job _ _) => job.refs
    | _ => []
  | .jobEnds job ended => if job ∈ s.jobs ∧ job.kind.dropsRefs ended then job.refs else []
  | _ => []

/-- The event drops the last reference of an object, or takes its last pin away. -/
def Returns (s : SourceBuffers) (obj : Nat) : BufferEvent → Prop
  | .unpin obj' => obj = obj' ∧ s.pinCount obj = 1 ∧ s.refCount obj = 0
  | e => obj ∈ s.drops e ∧ s.refCount obj ≤ (s.drops e).count obj ∧ s.pinCount obj = 0

/-- A remote backend with the KIVI serializer accepts no object. -/
def PutsNoKivi (s : SourceBuffers) : BufferEvent → Prop
  | .putStep t bypassed refused _ _ =>
    match s.puts[t]? with
    | some (.submitting (backend :: _) _) =>
      bypassed = true ∨ refused = true ∨ backend.kind ≠ .remote .kivi
    | _ => True
  | _ => True

/-- What the two backends that hold no reference need: KIVI writes nothing, and nothing goes back to
its allocator while a write of the Nixl backend with a pool still has it to read. -/
def Careful (s : SourceBuffers) (e : BufferEvent) : Prop :=
  s.PutsNoKivi e ∧
    ∀ job ∈ s.jobs, job.kind = .nixlStatic → ∀ obj ∈ job.objs, ¬s.Returns obj e

instance (s : SourceBuffers) (obj : Nat) (e : BufferEvent) : Decidable (s.Returns obj e) := by
  unfold Returns
  split <;> infer_instance

instance (s : SourceBuffers) (e : BufferEvent) : Decidable (s.PutsNoKivi e) := by
  unfold PutsNoKivi
  split
  · split <;> infer_instance
  · infer_instance

instance (s : SourceBuffers) (e : BufferEvent) : Decidable (s.Careful e) :=
  inferInstanceAs (Decidable (_ ∧ _))

instance (s : SourceBuffers) : Decidable s.Safe := inferInstanceAs (Decidable (_ ∧ _))

/-! ## The ledger of the references -/

/-- The references to an object, wherever they are. -/
def references (s : SourceBuffers) (obj : Nat) : Nat :=
  s.held.count obj + ((s.puts.map fun pc => pc.refs.count obj).sum +
    (s.jobs.map fun job => job.refs.count obj).sum)

/-- The counts are those of the ledger; what was returned has no reference; and the numbers from
`nextObj` on are free. -/
structure Ledger (s : SourceBuffers) : Prop where
  counted : ∀ obj, s.refCount obj = s.references obj
  returned : ∀ obj ∈ s.returned, s.refCount obj = 0
  fresh : ∀ obj, s.nextObj ≤ obj → s.refCount obj = 0 ∧ obj ∉ s.returned

/-- What is read is covered by a reference, but for the writes that take none. -/
structure Covered (s : SourceBuffers) : Prop where
  puts : ∀ pc ∈ s.puts, ∀ obj ∈ pc.objs ++ pc.reads, obj ∈ pc.refs
  jobs : ∀ job ∈ s.jobs, job.kind = .nixlStatic ∨ ∀ obj ∈ job.objs, obj ∈ job.refs

/-- The writes that take no reference have not lost what they read. -/
def Unreturned (s : SourceBuffers) : Prop :=
  ∀ job ∈ s.jobs, job.kind = .nixlStatic → ∀ obj ∈ job.objs, obj ∉ s.returned

variable {s s' : SourceBuffers}

variable {obj t : Nat} {pc : PutPc} {job : WriteJob} {objDict : List (String × List Nat)}
  {todo : List ManagedBackend}

theorem Ledger.notMem_returned (h : s.Ledger) (hpos : 0 < s.references obj) : obj ∉ s.returned := by
  intro hin
  have hzero := h.returned obj hin
  rw [h.counted] at hzero
  omega

theorem references_pos_of_held (h : obj ∈ s.held) : 0 < s.references obj := by
  have hpos := List.count_pos_iff.mpr h
  unfold references
  omega

theorem references_pos_of_put (hpc : pc ∈ s.puts) (h : obj ∈ pc.refs) : 0 < s.references obj := by
  have hpos := List.count_pos_iff.mpr h
  have hle : pc.refs.count obj ≤ (s.puts.map fun pc => pc.refs.count obj).sum :=
    List.le_sum_of_mem (List.mem_map.mpr ⟨pc, hpc, rfl⟩)
  unfold references
  omega

theorem references_pos_of_job (hjob : job ∈ s.jobs) (h : obj ∈ job.refs) :
    0 < s.references obj := by
  have hpos := List.count_pos_iff.mpr h
  have hle : job.refs.count obj ≤ (s.jobs.map fun job => job.refs.count obj).sum :=
    List.le_sum_of_mem (List.mem_map.mpr ⟨job, hjob, rfl⟩)
  unfold references
  omega

/-- **Covered reads are safe**, and so are the others while nothing of theirs is returned. -/
theorem safe_of_inv (h : s.Ledger) (hcovered : s.Covered) (hunreturned : s.Unreturned) :
    s.Safe := by
  constructor
  · intro job hjob obj hobj
    rcases hcovered.jobs job hjob with hstatic | hrefs
    · exact hunreturned job hjob hstatic obj hobj
    · apply h.notMem_returned
      exact references_pos_of_job hjob (hrefs obj hobj)
  · intro pc hpc obj hobj
    apply h.notMem_returned
    exact references_pos_of_put hpc (hcovered.puts pc hpc obj hobj)

/-! ## How the ledger moves -/

/-- References change hands, and none is taken or dropped. -/
theorem Ledger.move (h : s.Ledger) (hcount : s'.refCount = s.refCount)
    (hreturned : s'.returned = s.returned) (hnext : s'.nextObj = s.nextObj)
    (hrefs : ∀ obj, s'.references obj = s.references obj) : s'.Ledger := by
  constructor
  case counted =>
    intro obj
    rw [hcount, hrefs]
    exact h.counted obj
  case returned =>
    rw [hreturned, hcount]
    exact h.returned
  case fresh =>
    rw [hreturned, hcount, hnext]
    exact h.fresh

/-- References are taken to objects that have one. -/
theorem Ledger.take (h : s.Ledger) (objs : List Nat) (hpos : ∀ obj ∈ objs, 0 < s.references obj)
    (hcount : s'.refCount = raiseAll s.refCount objs) (hreturned : s'.returned = s.returned)
    (hnext : s'.nextObj = s.nextObj)
    (hrefs : ∀ obj, s'.references obj = s.references obj + objs.count obj) : s'.Ledger := by
  have hnone : ∀ obj, s.refCount obj = 0 → objs.count obj = 0 := by
    intro obj hzero
    apply List.count_eq_zero_of_not_mem
    intro hin
    have := hpos obj hin
    rw [h.counted] at hzero
    omega
  constructor
  case counted =>
    intro obj
    rw [hcount, raiseAll_apply, hrefs, h.counted]
  case returned =>
    intro obj hin
    rw [hreturned] at hin
    rw [hcount, raiseAll_apply, h.returned obj hin, hnone obj (h.returned obj hin)]
  case fresh =>
    intro obj hle
    rw [hnext] at hle
    obtain ⟨hzero, hnot⟩ := h.fresh obj hle
    rw [hcount, hreturned, raiseAll_apply, hzero, hnone obj hzero]
    exact ⟨rfl, hnot⟩

/-- References are dropped. -/
theorem Ledger.drop (h : s.Ledger) (objs : List Nat)
    (hcount : s'.refCount = (s.refDown objs).refCount)
    (hreturned : s'.returned = (s.refDown objs).returned) (hnext : s'.nextObj = s.nextObj)
    (hrefs : ∀ obj, s'.references obj + objs.count obj = s.references obj) : s'.Ledger := by
  constructor
  case counted =>
    intro obj
    rw [hcount]
    show lowerAll s.refCount objs obj = _
    rw [lowerAll_apply, h.counted, ← hrefs]
    omega
  case returned =>
    intro obj hin
    rw [hreturned] at hin
    rw [hcount]
    show lowerAll s.refCount objs obj = 0
    rcases List.mem_append.mp hin with hin | hin
    · simp only [List.mem_filter, decide_eq_true_eq] at hin
      exact hin.2.1
    · rw [lowerAll_apply, h.returned obj hin, Nat.zero_sub]
  case fresh =>
    intro obj hle
    rw [hnext] at hle
    obtain ⟨hzero, hnot⟩ := h.fresh obj hle
    constructor
    · rw [hcount]
      show lowerAll s.refCount objs obj = 0
      rw [lowerAll_apply, hzero, Nat.zero_sub]
    · rw [hreturned]
      intro hin
      rcases List.mem_append.mp hin with hin | hin
      · have hmem := (List.mem_filter.mp hin).1
        have hpos := List.count_pos_iff.mpr hmem
        have := hrefs obj
        have := h.counted obj
        omega
      · exact hnot hin

/-- Objects are allocated. -/
theorem Ledger.allocate (h : s.Ledger) (n : Nat)
    (hcount : s'.refCount = raiseAll s.refCount (List.range' s.nextObj n))
    (hreturned : s'.returned = s.returned) (hnext : s'.nextObj = s.nextObj + n)
    (hrefs : ∀ obj, s'.references obj =
      s.references obj + (List.range' s.nextObj n).count obj) : s'.Ledger := by
  constructor
  case counted =>
    intro obj
    rw [hcount, raiseAll_apply, hrefs, h.counted]
  case returned =>
    intro obj hin
    rw [hreturned] at hin
    have hlt : obj < s.nextObj := by
      by_contra hle
      exact (h.fresh obj (Nat.le_of_not_lt hle)).2 hin
    rw [hcount, raiseAll_apply, h.returned obj hin, List.count_eq_zero_of_not_mem]
    intro hmem
    have := (List.mem_range'_1.mp hmem).1
    omega
  case fresh =>
    intro obj hle
    rw [hnext] at hle
    obtain ⟨hzero, hnot⟩ := h.fresh obj (by omega)
    rw [hcount, hreturned, raiseAll_apply, hzero, List.count_eq_zero_of_not_mem]
    · exact ⟨rfl, hnot⟩
    · intro hmem
      have := (List.mem_range'_1.mp hmem).2
      omega

/-! ## What one step keeps -/

/-- The invariant of all runs that are careful. -/
structure Inv (s : SourceBuffers) : Prop where
  ledger : s.Ledger
  covered : s.Covered
  unreturned : s.Unreturned

/-- The place of one `batched_put` is written. -/
theorem references_set {pc' : PutPc} (ht : s.puts[t]? = some pc) (s' : SourceBuffers)
    (hheld : s'.held = s.held) (hputs : s'.puts = s.puts.set t pc') (hjobs : s'.jobs = s.jobs)
    (obj : Nat) :
    s'.references obj + pc.refs.count obj = s.references obj + pc'.refs.count obj := by
  have hsum := sum_map_set (fun pc : PutPc => pc.refs.count obj) ht pc'
  unfold references
  rw [hheld, hputs, hjobs]
  omega

/-- What is outside changes. -/
theorem references_held (s s' : SourceBuffers) (hputs : s'.puts = s.puts) (hjobs : s'.jobs = s.jobs)
    (obj : Nat) :
    s'.references obj + s.held.count obj = s.references obj + s'.held.count obj := by
  unfold references
  rw [hputs, hjobs]
  omega

theorem Covered.of_eq (h : s.Covered) (hputs : s'.puts = s.puts) (hjobs : s'.jobs = s.jobs) :
    s'.Covered := by
  constructor
  · rw [hputs]
    exact h.puts
  · rw [hjobs]
    exact h.jobs

theorem Covered.set (h : s.Covered) {pc' : PutPc}
    (hpc' : ∀ obj ∈ pc'.objs ++ pc'.reads, obj ∈ pc'.refs) (hputs : s'.puts = s.puts.set t pc')
    (hjobs : ∀ job ∈ s'.jobs, job ∈ s.jobs ∨ job.kind = .nixlStatic ∨
      ∀ obj ∈ job.objs, obj ∈ job.refs) : s'.Covered := by
  constructor
  · intro pc hpc
    rw [hputs] at hpc
    rcases List.mem_or_eq_of_mem_set hpc with hold | rfl
    · exact h.puts pc hold
    · exact hpc'
  · intro job hjob
    rcases hjobs job hjob with hold | hnew
    · exact h.jobs job hold
    · exact hnew

/-- A `batched_put` that waits for nothing reads nothing. -/
theorem covered_submitting (todo : List ManagedBackend) (objDict : List (String × List Nat)) :
    ∀ obj ∈ (PutPc.submitting todo objDict).objs ++ (PutPc.submitting todo objDict).reads,
      obj ∈ (PutPc.submitting todo objDict).refs := by
  intro obj hobj
  simpa [PutPc.reads, PutPc.refs] using hobj

theorem covered_dropping (objs : List Nat) :
    ∀ obj ∈ (PutPc.dropping objs).objs ++ (PutPc.dropping objs).reads,
      obj ∈ (PutPc.dropping objs).refs := by
  intro obj hobj
  simpa [PutPc.reads, PutPc.refs] using hobj

/-- **A submission** takes references `up` and gives them away: to a cache, to writes that it
schedules, or to the write that it waits for. -/
theorem Inv.submitted (h : s.Inv) {pc' : PutPc} (ht : s.puts[t]? = some pc) (up extra : List Nat)
    (newJobs : List WriteJob) (hup : ∀ obj ∈ up, obj ∈ pc.refs)
    (hbalance : ∀ obj, extra.count obj + ((newJobs.map fun job => job.refs.count obj).sum +
      pc'.refs.count obj) = up.count obj + pc.refs.count obj)
    (hpc' : ∀ obj ∈ pc'.objs ++ pc'.reads, obj ∈ pc'.refs)
    (hnew : ∀ job ∈ newJobs, (job.kind = .nixlStatic ∧ ∀ obj ∈ job.objs, obj ∈ pc.refs) ∨
      job.kind ≠ .nixlStatic ∧ ∀ obj ∈ job.objs, obj ∈ job.refs)
    (hcount : s'.refCount = raiseAll s.refCount up) (hreturned : s'.returned = s.returned)
    (hnext : s'.nextObj = s.nextObj) (hheld : s'.held = extra ++ s.held)
    (hputs : s'.puts = s.puts.set t pc') (hjobs : s'.jobs = s.jobs ++ newJobs) : s'.Inv := by
  have hpos : ∀ obj ∈ pc.refs, 0 < s.references obj := by
    intro obj hobj
    exact references_pos_of_put (List.mem_of_getElem? ht) hobj
  constructor
  case ledger =>
    apply h.ledger.take up (fun obj hobj => hpos obj (hup obj hobj)) hcount hreturned
      hnext
    intro obj
    have hsum := sum_map_set (fun pc : PutPc => pc.refs.count obj) ht pc'
    have hbal := hbalance obj
    unfold references
    rw [hheld, hputs, hjobs, List.count_append, List.map_append, List.sum_append]
    omega
  case covered =>
    apply h.covered.set hpc' hputs
    intro job hjob
    rw [hjobs] at hjob
    rcases List.mem_append.mp hjob with hold | hin
    · exact .inl hold
    · exact .inr ((hnew job hin).imp And.left And.right)
  case unreturned =>
    intro job hjob hstatic obj hobj
    rw [hreturned]
    rw [hjobs] at hjob
    rcases List.mem_append.mp hjob with hold | hin
    · exact h.unreturned job hold hstatic obj hobj
    · rcases hnew job hin with ⟨-, hsource⟩ | ⟨hne, -⟩
      · exact h.ledger.notMem_returned (hpos obj (hsource obj hobj))
      · exact absurd hstatic hne

/-- Writes of one object each have one reference each. -/
theorem sum_refs_singletons (kind : PutKind) (objs : List Nat) (obj : Nat) :
    (((objs.map fun o => (⟨kind, [o], [o]⟩ : WriteJob)).map fun job => job.refs.count obj)).sum =
      objs.count obj := by
  induction objs with
  | nil => rfl
  | cons o objs ih =>
    rw [List.map_cons, List.map_cons, List.sum_cons, ih, List.count_cons, List.count_cons,
      List.count_nil]
    omega

/-- **The loop goes on behind a submission**, unless it is one of a KIVI put. -/
theorem inv_proceed (h : s.Inv) {todo' : List ManagedBackend}
    (ht : s.puts[t]? = some (.submitting todo' objDict)) {objs : List Nat}
    (hobjs : ∀ obj ∈ objs, obj ∈ objDict.flatMap Prod.snd) (kind : PutKind) {refused : Bool}
    (hkivi : refused = true ∨ kind ≠ .remote .kivi) (skipped : List Nat) :
    (proceed t todo objDict (s.submitPut kind objs refused skipped)).Inv := by
  have haccepted : ∀ obj ∈ (if refused then [] else objs.filter (· ∉ skipped)),
      obj ∈ objDict.flatMap Prod.snd := by
    intro obj hobj
    split at hobj
    · cases hobj
    · exact hobjs obj (List.mem_filter.mp hobj).1
  have hcovered := covered_submitting todo objDict
  have hsingle : ∀ (k : PutKind) (l : List Nat), k ≠ .nixlStatic →
      ∀ job ∈ l.map (fun o => (⟨k, [o], [o]⟩ : WriteJob)),
        (job.kind = .nixlStatic ∧ ∀ obj ∈ job.objs, obj ∈ objDict.flatMap Prod.snd) ∨
          job.kind ≠ .nixlStatic ∧ ∀ obj ∈ job.objs, obj ∈ job.refs := by
    intro k l hk job hjob
    obtain ⟨o, -, rfl⟩ := List.mem_map.mp hjob
    exact .inr ⟨hk, fun _ hobj => hobj⟩
  -- nothing is taken and nothing scheduled
  have hnothing : (s.setPut t (.submitting todo objDict)).Inv := by
    refine h.submitted ht [] [] [] ?_ ?_ hcovered ?_ rfl rfl rfl rfl rfl (List.append_nil _).symm
    · simp
    · intro obj
      simp [PutPc.refs, PutPc.objs]
    · simp
  unfold submitPut proceed
  dsimp only
  generalize haccept : (if refused then [] else objs.filter (· ∉ skipped)) = accepted at haccepted ⊢
  match kind with
  | .localCpu =>
    refine h.submitted ht accepted accepted [] haccepted ?_ hcovered ?_ rfl rfl rfl rfl rfl
      (List.append_nil _).symm
    · intro obj
      simp [PutPc.refs, PutPc.objs]
    · simp
  | .localDisk =>
    refine h.submitted ht accepted [] _ haccepted ?_ hcovered (hsingle .localDisk accepted ?_) rfl
      rfl rfl rfl rfl rfl
    · intro obj
      rw [sum_refs_singletons, List.count_nil, Nat.zero_add]
      rfl
    · simp
  | .remote .naive =>
    refine h.submitted ht accepted [] _ haccepted ?_ hcovered
      (hsingle (.remote .naive) accepted ?_) rfl rfl rfl rfl rfl rfl
    · intro obj
      rw [sum_refs_singletons, List.count_nil, Nat.zero_add]
      rfl
    · simp
  | .remote .kivi =>
    have hnil : accepted = [] := by
      rcases hkivi with hrefused | hne
      · rw [← haccept, if_pos hrefused]
      · exact absurd rfl hne
    rw [hnil, List.map_nil, List.append_nil]
    exact hnothing
  | .remote .cachegen => exact hnothing
  | .nixlStatic =>
    cases refused with
    | true => exact hnothing
    | false =>
      refine h.submitted ht [] [] [⟨.nixlStatic, objs, []⟩] ?_ ?_ hcovered ?_ rfl rfl rfl rfl rfl
        rfl
      · simp
      · intro obj
        simp [PutPc.refs, PutPc.objs]
      · intro job hjob
        rw [List.mem_singleton.mp hjob]
        exact .inl ⟨rfl, hobjs⟩
  | .nixlDynamic true =>
    refine h.submitted ht objs [] [⟨.nixlDynamic true, objs, objs⟩] hobjs ?_ hcovered ?_ rfl rfl rfl
      rfl rfl rfl
    · intro obj
      simp [PutPc.refs, PutPc.objs]
    · intro job hjob
      rw [List.mem_singleton.mp hjob]
      exact .inr ⟨by simp, fun _ hobj => hobj⟩
  | .nixlDynamic false =>
    refine h.submitted ht [] [] [] ?_ ?_ ?_ ?_ rfl rfl rfl rfl rfl (List.append_nil _).symm
    · simp
    · intro obj
      simp [PutPc.refs, PutPc.objs]
    · intro obj hobj
      rcases List.mem_append.mp hobj with hin | hin
      · simpa [PutPc.refs, PutPc.objs] using hin
      · simpa [PutPc.refs] using hobjs obj hin
    · simp
  | .pd =>
    refine h.submitted ht objs [] [] hobjs ?_ ?_ ?_ rfl rfl rfl rfl rfl (List.append_nil _).symm
    · intro obj
      simp [PutPc.refs, PutPc.objs]
    · intro obj hobj
      rcases List.mem_append.mp hobj with hin | hin
      · exact List.mem_append_right _ hin
      · exact List.mem_append_left _ hin
    · simp

/-- A submission does not look at the calls. -/
theorem submitPut_setPut (t : Nat) (pc : PutPc) (kind : PutKind) (objs : List Nat) (refused : Bool)
    (skipped : List Nat) :
    (s.setPut t pc).submitPut kind objs refused skipped =
      ((s.submitPut kind objs refused skipped).1.setPut t pc,
        (s.submitPut kind objs refused skipped).2) := by
  unfold submitPut
  match kind with
  | .localCpu | .localDisk | .remote .naive | .remote .kivi | .remote .cachegen |
    .nixlDynamic true | .nixlDynamic false | .pd => rfl
  | .nixlStatic => cases refused <;> rfl

theorem setPut_setPut (t : Nat) (pc pc' : PutPc) :
    (s.setPut t pc).setPut t pc' = s.setPut t pc' := by
  unfold setPut
  dsimp only
  rw [List.set_set]

/-- What the loop overwrites does not matter to it. -/
theorem proceed_setPut (t : Nat) (pc : PutPc) (todo : List ManagedBackend)
    (objDict : List (String × List Nat)) (r : SourceBuffers × Option WriteJob) :
    proceed t todo objDict (r.1.setPut t pc, r.2) = proceed t todo objDict r := by
  unfold proceed
  rcases r with ⟨s', _ | job⟩
  · exact setPut_setPut ..
  · exact setPut_setPut ..

/-- **References are dropped** by somebody, and no write that takes none loses what it reads. -/
theorem Inv.dropped (h : s.Inv) (objs : List Nat)
    (hcareful : ∀ job ∈ s.jobs, job.kind = .nixlStatic → ∀ obj ∈ job.objs,
      ¬(obj ∈ objs ∧ s.refCount obj ≤ objs.count obj ∧ s.pinCount obj = 0))
    (hcount : s'.refCount = (s.refDown objs).refCount)
    (hreturned : s'.returned = (s.refDown objs).returned) (hnext : s'.nextObj = s.nextObj)
    (hrefs : ∀ obj, s'.references obj + objs.count obj = s.references obj)
    (hcovered : s'.Covered) (hjobs : ∀ job ∈ s'.jobs, job ∈ s.jobs) : s'.Inv := by
  refine ⟨h.ledger.drop objs hcount hreturned hnext hrefs, hcovered, ?_⟩
  intro job hjob hstatic obj hobj hin
  have hold := hjobs job hjob
  rw [hreturned] at hin
  rcases List.mem_append.mp hin with hin | hin
  · simp only [List.mem_filter, decide_eq_true_eq] at hin
    obtain ⟨hmem, hzero, hpin⟩ := hin
    rw [lowerAll_apply] at hzero
    apply hcareful job hold hstatic obj hobj
    exact ⟨hmem, by omega, hpin⟩
  · exact h.unreturned job hold hstatic obj hobj hin

/-- The references of a `batched_put` that raises, and of what it waits for, stay with nobody. -/
theorem inv_raisePut (h : s.Inv) (ht : s.puts[t]? = some pc) {leaked : List Nat}
    (hleaked : ∀ obj ∈ leaked, obj ∈ pc.refs) : (s.raisePut t leaked pc).Inv := by
  refine h.submitted ht leaked (leaked ++ pc.refs) [] hleaked ?_ (covered_dropping []) ?_ rfl rfl
    rfl (List.append_assoc ..).symm rfl (List.append_nil _).symm
  · intro obj
    simp [PutPc.refs, PutPc.objs]
  · simp

theorem mem_flatMap_of_lookup {name : String} {objs : List Nat}
    (h : objDict.lookup name = some objs) : ∀ obj ∈ objs, obj ∈ objDict.flatMap Prod.snd := by
  intro obj hobj
  induction objDict with
  | nil => cases h
  | cons e objDict ih =>
    rw [List.flatMap_cons]
    rw [List.lookup_cons] at h
    split at h
    · cases h
      exact List.mem_append_left _ hobj
    · exact List.mem_append_right _ (ih h)

/-- The copies for another allocator come with a reference each. -/
theorem inv_copies (h : s.Inv) (ht : s.puts[t]? = some (.submitting todo objDict)) (name : String)
    (n : Nat) :
    ((s.allocateObjs n).1.setPut t
      (.submitting todo (objDict ++ [(name, List.range' s.nextObj n)]))).Inv := by
  constructor
  case ledger =>
    refine h.ledger.allocate n rfl rfl rfl ?_
    intro obj
    have hset := references_set ht ((s.allocateObjs n).1.setPut t
      (.submitting todo (objDict ++ [(name, List.range' s.nextObj n)]))) rfl rfl rfl obj
    simp only [PutPc.refs, PutPc.objs, List.flatMap_append, List.count_append, List.flatMap_cons,
      List.flatMap_nil, List.append_nil] at hset
    omega
  case covered => exact h.covered.set (covered_submitting _ _) rfl fun job hjob => .inl hjob
  case unreturned => exact h.unreturned

/-- **One part of a `batched_put`.** -/
theorem inv_stepPut (h : s.Inv) (ht : s.puts[t]? = some pc) {bypassed refused : Bool}
    {skipped : List Nat} {copies : Nat}
    (hcareful : s.Careful (.putStep t bypassed refused skipped copies)) :
    (s.stepPut t bypassed refused skipped copies pc).Inv := by
  obtain ⟨hkivi, hreturns⟩ := hcareful
  unfold stepPut
  match pc with
  | .submitting [] objDict =>
    refine h.submitted ht [] [] [] ?_ ?_ (covered_dropping _) ?_ rfl rfl rfl rfl rfl
      (List.append_nil _).symm
    · simp
    · intro obj
      simp [PutPc.refs, PutPc.objs]
    · simp
  | .submitting (backend :: todo) objDict =>
    dsimp only
    split
    · refine h.submitted ht [] [] [] ?_ ?_ (covered_submitting _ _) ?_ rfl rfl rfl rfl rfl
        (List.append_nil _).symm
      · simp
      · intro obj
        simp [PutPc.refs, PutPc.objs]
      · simp
    · rename_i hbypassed
      have hkivi' : refused = true ∨ backend.kind ≠ .remote .kivi := by
        simp only [PutsNoKivi, ht] at hkivi
        exact hkivi.resolve_left hbypassed
      split
      · rename_i objs hlookup
        exact inv_proceed h ht (mem_flatMap_of_lookup hlookup) backend.kind hkivi' skipped
      · have hcopies := inv_copies h ht backend.allocator copies
        have ht' : ((s.allocateObjs copies).1.setPut t (.submitting (backend :: todo)
            (objDict ++ [(backend.allocator, List.range' s.nextObj copies)]))).puts[t]? =
              some (.submitting (backend :: todo)
                (objDict ++ [(backend.allocator, List.range' s.nextObj copies)])) :=
          List.getElem?_set_self (List.getElem?_eq_some_iff.mp ht).1
        rw [← proceed_setPut t (.submitting (backend :: todo)
          (objDict ++ [(backend.allocator, List.range' s.nextObj copies)])), ← submitPut_setPut]
        refine inv_proceed hcopies ht' ?_ backend.kind hkivi' skipped
        intro obj hobj
        rw [List.flatMap_append]
        apply List.mem_append_right
        rw [List.flatMap_cons, List.flatMap_nil, List.append_nil]
        exact hobj
  | .waiting job todo objDict =>
    refine h.submitted ht [] [] [] ?_ ?_ ?_ ?_ rfl rfl rfl rfl rfl (List.append_nil _).symm
    · simp
    · intro obj
      simp
    · exact h.covered.puts _ (List.mem_of_getElem? ht)
    · simp
  | .dropping [] => exact h
  | .dropping (obj :: objs) =>
    refine h.dropped [obj] ?_ rfl rfl rfl ?_ ?_ fun job hjob => hjob
    · intro job hjob hstatic o ho hlast
      apply hreturns job hjob hstatic o ho
      simp only [Returns, drops, ht]
      exact hlast
    · intro o
      have hset := references_set ht ((s.refDown [obj]).setPut t (.dropping objs)) rfl rfl rfl o
      simp only [PutPc.refs, PutPc.objs, List.count_cons, List.count_nil] at hset ⊢
      omega
    · exact h.covered.set (covered_dropping objs) rfl fun job hjob => .inl hjob

/-- The last pin of an object goes, and no write that takes no reference is to read it. -/
theorem inv_unpin (h : s.Inv) (hlt : obj < s.nextObj)
    (hcareful : ∀ job ∈ s.jobs, job.kind = .nixlStatic → ∀ o ∈ job.objs,
      ¬s.Returns o (.unpin obj)) :
    Inv { s with
      pinCount := lower s.pinCount obj
      returned := if s.pinCount obj = 1 ∧ s.refCount obj = 0 then obj :: s.returned
        else s.returned } := by
  by_cases hlast : s.pinCount obj = 1 ∧ s.refCount obj = 0
  · simp only [if_pos hlast]
    constructor
    case ledger =>
      constructor
      case counted => exact h.ledger.counted
      case returned =>
        intro o ho
        rcases List.mem_cons.mp ho with rfl | ho
        · exact hlast.2
        · exact h.ledger.returned o ho
      case fresh =>
        intro o hle
        obtain ⟨hzero, hnot⟩ := h.ledger.fresh o hle
        refine ⟨hzero, ?_⟩
        intro hin
        rcases List.mem_cons.mp hin with rfl | hin
        · exact absurd hlt (Nat.not_lt.mpr hle)
        · exact hnot hin
    case covered => exact h.covered.of_eq rfl rfl
    case unreturned =>
      intro job hjob hstatic o ho hin
      rcases List.mem_cons.mp hin with rfl | hin
      · exact hcareful job hjob hstatic o ho ⟨rfl, hlast⟩
      · exact h.unreturned job hjob hstatic o ho hin
  · simp only [if_neg hlast]
    exact ⟨h.ledger.move rfl rfl rfl fun _ => rfl, h.covered.of_eq rfl rfl, h.unreturned⟩

/-- A `batched_put` begins with the references of its caller. -/
theorem inv_batchedPut (h : s.Inv) {memoryObjs : List Nat} (hsub : memoryObjs.Subperm s.held)
    (todo : List ManagedBackend) (name : String) :
    Inv { s with
      held := s.held.diff memoryObjs
      puts := s.puts ++ [.submitting todo [(name, memoryObjs)]] } := by
  constructor
  case ledger =>
    refine h.ledger.move rfl rfl rfl ?_
    intro obj
    have hle := hsub.count_le obj
    unfold references
    simp only [List.map_append, List.sum_append, List.map_cons, List.map_nil, List.sum_cons,
      List.sum_nil, List.count_diff, PutPc.refs, PutPc.objs, List.flatMap_cons, List.flatMap_nil,
      List.append_nil]
    omega
  case covered =>
    constructor
    · intro pc hpc
      rcases List.mem_append.mp hpc with hold | hnew
      · exact h.covered.puts pc hold
      · rw [List.mem_singleton.mp hnew]
        exact covered_submitting _ _
    · exact h.covered.jobs
  case unreturned => exact h.unreturned

/-- The write that a `batched_put` waits for has ended, and drops its references. -/
theorem inv_putWritten (h : s.Inv) (ht : s.puts[t]? = some (.waiting job todo objDict))
    (hcareful : ∀ job' ∈ s.jobs, job'.kind = .nixlStatic → ∀ obj ∈ job'.objs,
      ¬(obj ∈ job.refs ∧ s.refCount obj ≤ job.refs.count obj ∧ s.pinCount obj = 0)) :
    ((s.refDown job.refs).setPut t (.submitting todo objDict)).Inv := by
  refine h.dropped job.refs hcareful rfl rfl rfl ?_ ?_ fun job hjob => hjob
  · intro obj
    have hset := references_set ht ((s.refDown job.refs).setPut t (.submitting todo objDict)) rfl
      rfl rfl obj
    simp only [PutPc.refs, PutPc.objs, List.count_append] at hset
    omega
  · exact h.covered.set (covered_submitting todo objDict) rfl fun job hjob => .inl hjob

/-- A scheduled write ends. -/
theorem inv_jobEnds (h : s.Inv) (hjob : job ∈ s.jobs) (ended : WriteEnd)
    (hcareful : job.kind.dropsRefs ended = true → ∀ job' ∈ s.jobs, job'.kind = .nixlStatic →
      ∀ obj ∈ job'.objs,
        ¬(obj ∈ job.refs ∧ s.refCount obj ≤ job.refs.count obj ∧ s.pinCount obj = 0)) :
    Inv { s.endJob job ended with jobs := s.jobs.erase job } := by
  have hsum := fun obj => sum_map_erase (fun job : WriteJob => job.refs.count obj) hjob
  have hcovered : ∀ {s' : SourceBuffers}, s'.puts = s.puts → s'.jobs = s.jobs.erase job →
      s'.Covered := by
    intro s' hputs hjobs
    constructor
    · rw [hputs]
      exact h.covered.puts
    · intro job' hjob'
      rw [hjobs] at hjob'
      exact h.covered.jobs job' (List.mem_of_mem_erase hjob')
  unfold endJob
  split
  · rename_i hdrops
    refine h.dropped job.refs (hcareful hdrops) rfl rfl rfl ?_ (hcovered rfl rfl)
      fun job' hjob' => List.mem_of_mem_erase hjob'
    intro obj
    have hsum := hsum obj
    unfold references
    show s.held.count obj + ((s.puts.map _).sum + ((s.jobs.erase job).map _).sum) + _ = _
    omega
  · constructor
    case ledger =>
      refine h.ledger.move rfl rfl rfl ?_
      intro obj
      have hsum := hsum obj
      unfold references
      show (job.refs ++ s.held).count obj +
        ((s.puts.map _).sum + ((s.jobs.erase job).map _).sum) = _
      rw [List.count_append]
      omega
    case covered => exact hcovered rfl rfl
    case unreturned =>
      intro job' hjob'
      exact h.unreturned job' (List.mem_of_mem_erase hjob')

/-- **One step** that is careful. -/
theorem inv_step (h : s.Inv) (e : BufferEvent) (hcareful : s.Careful e) : (s.step e).Inv := by
  obtain ⟨-, hreturns⟩ := id hcareful
  match e with
  | .allocate =>
    constructor
    case ledger =>
      refine h.ledger.allocate 1 rfl rfl rfl ?_
      intro obj
      have hheld := references_held s (s.step .allocate) rfl rfl obj
      change _ = _ + (List.range' s.nextObj 1 ++ s.held).count obj at hheld
      rw [List.count_append] at hheld
      omega
    case covered => exact h.covered.of_eq rfl rfl
    case unreturned => exact h.unreturned
  | .refCountUp obj =>
    simp only [step]
    split
    · rename_i hin
      constructor
      case ledger =>
        refine h.ledger.take [obj] ?_ rfl rfl rfl ?_
        · intro o ho
          rw [List.mem_singleton.mp ho]
          exact references_pos_of_held hin
        · intro o
          have hheld := references_held s { s.refUp [obj] with held := obj :: s.held } rfl rfl o
          simp only [List.count_cons, List.count_nil] at hheld ⊢
          omega
      case covered => exact h.covered.of_eq rfl rfl
      case unreturned => exact h.unreturned
    · exact h
  | .refCountDown obj =>
    simp only [step]
    split
    · rename_i hin
      refine h.dropped [obj] ?_ rfl rfl rfl ?_ (h.covered.of_eq rfl rfl) fun job hjob => hjob
      · intro job hjob hstatic o ho hlast
        apply hreturns job hjob hstatic o ho
        simp only [Returns, drops, if_pos hin]
        exact hlast
      · intro o
        have hcount := (List.perm_cons_erase hin).count_eq o
        have hheld := references_held s { s.refDown [obj] with held := s.held.erase obj } rfl rfl o
        simp only [List.count_cons, List.count_nil] at hheld hcount ⊢
        omega
    · exact h
  | .pin obj =>
    simp only [step]
    split
    · exact ⟨h.ledger.move rfl rfl rfl fun _ => rfl, h.covered.of_eq rfl rfl, h.unreturned⟩
    · exact h
  | .unpin obj =>
    simp only [step]
    split
    · rename_i hpinned
      exact inv_unpin h hpinned.1 hreturns
    · exact h
  | .batchedPut memoryObjs location =>
    simp only [step]
    split
    · rename_i hsub
      exact inv_batchedPut h hsub _ _
    · exact h
  | .putStep t bypassed refused skipped copies =>
    simp only [step]
    split
    · rename_i pc ht
      exact inv_stepPut h ht hcareful
    · exact h
  | .putRaises t leaked =>
    simp only [step]
    split
    · rename_i todo objDict ht
      apply inv_raisePut h ht
      intro obj hobj
      exact of_decide_eq_true (List.mem_filter.mp hobj).2
    · exact h
  | .putWritten t ended =>
    simp only [step]
    split
    · rename_i job todo objDict ht
      cases ended with
      | done =>
        apply inv_putWritten h ht
        intro job' hjob' hstatic obj hobj hlast
        apply hreturns job' hjob' hstatic obj hobj
        simp only [Returns, drops, ht]
        exact hlast
      | failed inTransfer =>
        apply inv_raisePut h ht
        simp
    · exact h
  | .jobEnds job ended =>
    simp only [step]
    split
    · rename_i hjob
      apply inv_jobEnds h hjob
      intro hdrops job' hjob' hstatic obj hobj hlast
      apply hreturns job' hjob' hstatic obj hobj
      simp only [Returns, drops, if_pos (And.intro hjob hdrops)]
      exact hlast
    · exact h

/-! ## Runs -/

theorem inv_init (backends : List ManagedBackend) (allocatorBackend : String) :
    (init backends allocatorBackend).Inv := by
  constructor
  case ledger =>
    constructor
    case counted => exact fun _ => rfl
    case returned => exact fun _ hin => (nomatch hin)
    case fresh => exact fun _ _ => ⟨rfl, List.not_mem_nil⟩
  case covered => exact ⟨fun _ hpc => (nomatch hpc), fun _ hjob => (nomatch hjob)⟩
  case unreturned => exact fun _ hjob => (nomatch hjob)

/-- **No object is read after it went back to its allocator**, in any run, whatever the backends
are, in which KIVI writes nothing and the Nixl backend with a pool does not lose what it is to
read. -/
theorem always_safe (backends : List ManagedBackend) (allocatorBackend : String)
    (es : List BufferEvent) (h : Guarded step Careful (init backends allocatorBackend) es) :
    Always step Safe (init backends allocatorBackend) es := by
  have hinv : Always step Inv (init backends allocatorBackend) es :=
    always_of_guarded (fun _ e hs hcareful => inv_step hs e hcareful)
      (inv_init backends allocatorBackend) h
  exact hinv.mono fun _ hs => safe_of_inv hs.ledger hs.covered hs.unreturned

/-- A CPU cache, a disk and a Nixl backend with buffers of its own. -/
def threeBackends : List ManagedBackend :=
  [⟨"LocalCPUBackend", .localCpu, "LocalCPUBackend"⟩,
    ⟨"LocalDiskBackend", .localDisk, "LocalCPUBackend"⟩,
    ⟨"NixlStorageBackend", .nixlStatic, "NixlStaticStorageBackend"⟩]

/-- One object is put to all of them; the transfer of its copy ends before the last drop. -/
def putToThree : List BufferEvent :=
  [.allocate, .batchedPut [0] none, .putStep 0 false false [] 0, .putStep 0 false false [] 0,
    .putStep 0 false false [] 1, .putStep 0 false false [] 0, .putStep 0 false false [] 0,
    .jobEnds ⟨.nixlStatic, [1], []⟩ .done, .putStep 0 false false [] 0,
    .jobEnds ⟨.localDisk, [0], [0]⟩ .done, .refCountDown 0]

theorem always_safe_putToThree :
    Always step Safe (init threeBackends "LocalCPUBackend") putToThree :=
  always_safe threeBackends "LocalCPUBackend" putToThree (by decide +kernel)

/-- A put of one object to one backend, up to the last drop, with the write still to come. -/
def putAndDrop : List BufferEvent :=
  [.allocate, .batchedPut [0] none, .putStep 0 false false [] 0, .putStep 0 false false [] 0,
    .putStep 0 false false [] 0]

/-- **Two backends read what is returned**: Nixl with a pool, and a remote one with KIVI. -/
theorem not_safe_putAndDrop :
    ¬ Always step Safe (init [⟨"NixlStorageBackend", .nixlStatic, "NixlStaticStorageBackend"⟩]
        "NixlStaticStorageBackend") putAndDrop ∧
      ¬ Always step Safe (init [⟨"RemoteBackend", .remote .kivi, "LocalCPUBackend"⟩]
        "LocalCPUBackend") putAndDrop := by
  constructor <;> decide +kernel

end SourceBuffers

end LMCache.Storage
