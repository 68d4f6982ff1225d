/-
# LMCache.Storage.DiskSizes — `current_cache_size` against what is on disk.

Source: `remove`, `insert_key`, `submit_put_task`, `async_save_bytes_to_disk` and `read_file` of
`v1/storage_backend/local_disk_backend.py`.

The counter is raised when a put is submitted, before anything is written.  From then on the size is
reserved, and when the write has been recorded it is the size of an entry of `dict`.  Eviction
lowers the counter with the entry it takes out.  Four other ways to take a size out of the account
leave the counter as it is: a forced `remove`, a write that raises, a write of a key that was
recorded meanwhile, and a read that finds no file.

So the counter drifts above what it should be, and never back: `drift_stepEvent` gives by how much.
-/
import LMCache.Lib.Run
import LMCache.Lib.Weights
import LMCache.Storage.LocalDiskBackend

namespace LMCache.Storage

open LMCache.Lib

/-! ## Events -/

/-- What may happen to the backend: a step of a thread, or an exception of the file system. -/
inductive DiskEvent where
  | act (a : DiskAction)
  /-- A `submit_put_task` goes on that has looked at `put_tasks` at some time before, when the key
  was not there. -/
  | submitChecked (t : Nat)
  /-- `write_file` raises: `async_save_bytes_to_disk` ends there. -/
  | writeRaises (key : CacheEngineKey) (size : Nat)
  /-- `read_file` finds no file and takes the key out of `dict`, without the lock. -/
  | fileNotFound (key : CacheEngineKey)
  /-- `os.remove` raises.  A forced `remove` then never releases the lock. -/
  | unlinkRaises (t : Nat)
  deriving DecidableEq, Repr

namespace DiskPc

/-- The size of a put whose data is written and whose key is not recorded yet. -/
def reserved : DiskPc → Nat
  | locked (.insertKey _ size) => size
  | _ => 0

end DiskPc

namespace LocalDiskBackend

/-- `LocalDiskBackend.__init__`, with `n` threads that may call it. -/
def init (maxCacheSize : Int) (n : Nat) (sender : BatchedMessageSender) : LocalDiskBackend where
  dict := .empty
  maxCacheSize := maxCacheSize
  currentCacheSize := 0
  putTasks := []
  writes := []
  diskLock := none
  threads := List.replicate n .idle
  batchedMsgSender := sender

def stepEvent (b : LocalDiskBackend) : DiskEvent → LocalDiskBackend
  | .act a => b.step a
  | .submitChecked t =>
    match b.threads[t]? with
    | some (.locked (.submitPutTask key requiredSize)) =>
      { b with putTasks := b.putTasks ++ [key] }.moveTo t (.makingRoom key requiredSize)
    | _ => b
  | .writeRaises key size => { b with writes := b.writes.erase (key, size) }
  | .fileNotFound key => { b with dict := b.dict.erase key }
  | .unlinkRaises t =>
    match b.threads[t]? with
    | some (.evicting _ _ _) => b.moveTo t .releasing
    | some (.removed _) => b.moveTo t .idle
    | _ => b

/-! ## The account -/

/-- The sizes of the entries of `dict`. -/
def storedSize (b : LocalDiskBackend) : Nat := b.dict.weight DiskCacheMetadata.size

/-- The sizes reserved for puts in flight: scheduled and not written yet, or written and not
recorded yet. -/
def reservedSize (b : LocalDiskBackend) : Nat :=
  (b.writes.map Prod.snd).sum + (b.threads.map DiskPc.reserved).sum

/-- **The sizes are accounted for**: `current_cache_size` is what is stored and what is reserved,
and it is within the limit. -/
def Accounted (b : LocalDiskBackend) : Prop :=
  b.currentCacheSize = b.storedSize + b.reservedSize ∧ b.currentCacheSize ≤ b.maxCacheSize

instance (b : LocalDiskBackend) : Decidable b.Accounted := inferInstanceAs (Decidable (_ ∧ _))

/-- The size of the entry of a key, and 0 without one. -/
def entrySize (b : LocalDiskBackend) (key : CacheEngineKey) : Nat :=
  ((b.dict.get? key).map DiskCacheMetadata.size).getD 0

/-- The size that a thread takes out of the account as it goes on, and leaves in the counter. -/
def pcLeaves (b : LocalDiskBackend) : DiskPc → Nat
  | .locked (.remove key) => b.entrySize key
  | .locked (.insertKey key size) => if key ∈ b.dict then size else 0
  | _ => 0

/-- The size that an event takes out of the account and leaves in the counter. -/
def leaves (b : LocalDiskBackend) : DiskEvent → Nat
  | .act (.advance t _) => (b.threads[t]?.map b.pcLeaves).getD 0
  | .act _ | .submitChecked _ | .unlinkRaises _ => 0
  | .writeRaises key size => if (key, size) ∈ b.writes then size else 0
  | .fileNotFound key => b.entrySize key

/-- No size is lost: an entry that is removed by force, or whose file is gone, is empty; a write
that raises is one of nothing; and so is one of a key that has been recorded meanwhile. -/
def LosesNoSize (b : LocalDiskBackend) (e : DiskEvent) : Prop := b.leaves e = 0

instance (b : LocalDiskBackend) (e : DiskEvent) : Decidable (b.LosesNoSize e) :=
  inferInstanceAs (Decidable (_ = _))

/-- How far the counter is above what is stored and reserved. -/
def drift (b : LocalDiskBackend) : Int := b.currentCacheSize - (b.storedSize + b.reservedSize : Nat)

variable {b : LocalDiskBackend} {t : Nat}

theorem accounted_iff : b.Accounted ↔ b.drift = 0 ∧ b.currentCacheSize ≤ b.maxCacheSize := by
  unfold Accounted drift
  refine and_congr_left' ?_
  omega

/-! ## One step -/

/-- A thread that moves takes its reservation from one position to the other. -/
theorem sum_reserved_set {p : DiskPc} (h : b.threads[t]? = some p) (q : DiskPc) :
    ((b.threads.set t q).map DiskPc.reserved).sum + p.reserved =
      (b.threads.map DiskPc.reserved).sum + q.reserved :=
  sum_map_set DiskPc.reserved h q

/-- What is stored without a key, and the size of that key. -/
theorem weight_erase_entrySize (b : LocalDiskBackend) (key : CacheEngineKey) :
    (b.dict.erase key).weight DiskCacheMetadata.size + b.entrySize key = b.storedSize :=
  Dict.weight_erase DiskCacheMetadata.size b.dict key

/-- The position of a thread changes and nothing that is counted does. -/
theorem drift_moveTo {b' : LocalDiskBackend} {p q : DiskPc} (ht : b.threads[t]? = some p)
    (hp : p.reserved = 0) (hq : q.reserved = 0) (hthreads : b'.threads = b.threads.set t q)
    (hdict : b'.dict = b.dict) (hwrites : b'.writes = b.writes)
    (hsize : b'.currentCacheSize = b.currentCacheSize) : b'.drift = b.drift := by
  have hsum := sum_reserved_set ht q
  unfold drift reservedSize storedSize
  rw [hthreads, hdict, hwrites, hsize]
  omega

theorem drift_enter {call : DiskCall} (ht : b.threads[t]? = some (.locked call)) :
    (b.enter t call).drift = b.drift + b.pcLeaves (.locked call) := by
  cases call with
  | submitPutTask key requiredSize =>
    simp only [enter, pcLeaves]
    rw [Nat.cast_zero, add_zero]
    by_cases h : key ∈ b.putTasks
    · rw [if_pos h]
      exact drift_moveTo ht rfl rfl rfl rfl rfl rfl
    · rw [if_neg h]
      exact drift_moveTo ht rfl rfl rfl rfl rfl rfl
  | insertKey key size =>
    simp only [enter, pcLeaves]
    by_cases h : key ∈ b.dict
    · -- the reserved size is let go of, and nothing is stored for it
      rw [if_pos h, if_pos h]
      have hsum := sum_reserved_set ht (.inserted key true)
      unfold drift reservedSize storedSize moveTo
      simp only [DiskPc.reserved] at hsum
      dsimp only
      omega
    · -- the reserved size is now that of an entry
      rw [if_neg h, if_neg h]
      have hsum := sum_reserved_set ht (.inserted key false)
      have hstored := Dict.weight_set_of_notMem DiskCacheMetadata.size h ⟨size, 0⟩
      unfold drift reservedSize storedSize moveTo
      simp only [DiskPc.reserved] at hsum
      dsimp only at hstored ⊢
      omega
  | remove key =>
    simp only [enter, pcLeaves]
    cases h : b.dict.get? key with
    | none =>
      have hzero : b.entrySize key = 0 := by
        unfold entrySize
        rw [h]
        rfl
      rw [hzero, Nat.cast_zero, add_zero]
      exact drift_moveTo ht rfl rfl rfl rfl rfl rfl
    | some diskMeta =>
      have hsum := sum_reserved_set ht (.removed key)
      have herase := b.weight_erase_entrySize key
      unfold storedSize at herase
      unfold drift reservedSize storedSize moveTo
      simp only [DiskPc.reserved] at hsum
      dsimp only
      omega

/-- A victim is an entry that may go. -/
theorem get?_of_evictable {candidate : Option CacheEngineKey} {victim : CacheEngineKey}
    {diskMeta : DiskCacheMetadata} (h : b.evictable candidate = some (victim, diskMeta)) :
    b.dict.get? victim = some diskMeta := by
  obtain ⟨key, rfl, h⟩ := Option.bind_eq_some_iff.mp h
  obtain ⟨m, hm, h⟩ := Option.bind_eq_some_iff.mp h
  by_cases hcan : m.canEvict
  · rw [if_pos hcan] at h
    cases h
    exact hm
  · rw [if_neg hcan] at h
    cases h

theorem drift_makeRoom {key : CacheEngineKey} {requiredSize : Nat}
    (ht : b.threads[t]? = some (.makingRoom key requiredSize)) (candidate : Option CacheEngineKey) :
    (b.makeRoom t candidate key requiredSize).drift = b.drift := by
  unfold makeRoom
  by_cases h : b.currentCacheSize + requiredSize > b.maxCacheSize
  · rw [if_pos h]
    cases hv : b.evictable candidate with
    | none => exact drift_moveTo ht rfl rfl rfl rfl rfl rfl
    | some e =>
      -- the counter goes down by the size of the entry that goes
      obtain ⟨victim, diskMeta⟩ := e
      have hentry : b.entrySize victim = diskMeta.size := by
        unfold entrySize
        rw [get?_of_evictable hv]
        rfl
      have hsum := sum_reserved_set ht (.evicting victim key requiredSize)
      have herase := b.weight_erase_entrySize victim
      unfold storedSize at herase
      unfold drift reservedSize storedSize moveTo
      simp only [DiskPc.reserved] at hsum
      dsimp only
      omega
  · -- the counter goes up by what is reserved
    rw [if_neg h]
    have hsum := sum_reserved_set ht .releasing
    unfold drift reservedSize storedSize moveTo
    simp only [DiskPc.reserved] at hsum
    dsimp only
    rw [List.map_append, List.sum_append]
    simp only [List.map_cons, List.map_nil, List.sum_cons, List.sum_nil]
    omega

theorem drift_advance {pc : DiskPc} (ht : b.threads[t]? = some pc)
    (candidate : Option CacheEngineKey) :
    (b.advance t candidate pc).drift = b.drift + b.pcLeaves pc := by
  have hquiet : ∀ {b' : LocalDiskBackend} {p q : DiskPc}, b.threads[t]? = some p →
      p.reserved = 0 → q.reserved = 0 → b'.threads = b.threads.set t q → b'.dict = b.dict →
      b'.writes = b.writes → b'.currentCacheSize = b.currentCacheSize →
      b'.drift = b.drift + (0 : Nat) := by
    intro b' p q hp hpr hqr hthreads hdict hwrites hsize
    rw [Nat.cast_zero, add_zero]
    exact drift_moveTo hp hpr hqr hthreads hdict hwrites hsize
  cases pc with
  | idle => exact (add_zero _).symm
  | locked call => exact drift_enter ht
  | makingRoom key requiredSize =>
    show (b.makeRoom t candidate key requiredSize).drift = b.drift + (0 : Nat)
    rw [drift_makeRoom ht, Nat.cast_zero, add_zero]
  | inserted key hasStored =>
    cases hasStored with
    | true | false => exact hquiet ht rfl rfl rfl rfl rfl rfl
  | evicting _ _ _ | admitting _ | untracking _ | removed _ | notifying _ | releasing =>
    exact hquiet ht rfl rfl rfl rfl rfl rfl

/-- Taking the lock and a write off the list keeps its size reserved. -/
theorem drift_begin {call : DiskCall} (ht : b.threads[t]? = some .idle) (hmay : b.mayBegin call) :
    ({ b with diskLock := some t, writes := b.writesAfter call }.moveTo t (.locked call)).drift =
      b.drift := by
  have hsum := sum_reserved_set ht (.locked call)
  unfold drift reservedSize storedSize moveTo
  dsimp only
  cases call with
  | submitPutTask key requiredSize =>
    simp only [DiskPc.reserved, writesAfter] at hsum ⊢
    omega
  | insertKey key size =>
    have hwrites := sum_map_erase Prod.snd (of_decide_eq_true hmay)
    simp only [DiskPc.reserved, writesAfter] at hsum hwrites ⊢
    omega
  | remove key =>
    simp only [DiskPc.reserved, writesAfter] at hsum ⊢
    omega

theorem drift_updateMeta (b : LocalDiskBackend) (key : CacheEngineKey)
    {f : DiskCacheMetadata → DiskCacheMetadata} (hf : ∀ m, (f m).size = m.size) :
    (b.updateMeta key f).drift = b.drift := by
  unfold updateMeta
  cases h : b.dict.get? key with
  | none => rfl
  | some diskMeta =>
    have hweight := Dict.weight_set_of_weight_eq DiskCacheMetadata.size h (hf diskMeta)
    unfold drift reservedSize storedSize
    dsimp only
    rw [hweight]

/-- **The account of one event.**  The counter drifts up by what the event leaves in it. -/
theorem drift_stepEvent (b : LocalDiskBackend) (e : DiskEvent) :
    (b.stepEvent e).drift = b.drift + b.leaves e := by
  have hzero : b.drift = b.drift + (0 : Nat) := by rw [Nat.cast_zero, add_zero]
  cases e with
  | act a =>
    cases a with
    | begin t call =>
      simp only [stepEvent, step, leaves]
      by_cases hc : b.threads[t]? = some .idle ∧ b.diskLock = none ∧ b.mayBegin call
      · rw [if_pos hc, drift_begin hc.1 hc.2.2]
        exact hzero
      · rw [if_neg hc]
        exact hzero
    | advance t candidate =>
      simp only [stepEvent, step, leaves]
      cases ht : b.threads[t]? with
      | none => exact hzero
      | some pc => exact drift_advance ht candidate
    | pin key =>
      have hpin := drift_updateMeta b key (f := DiskCacheMetadata.pin) fun _ => rfl
      exact hpin.trans hzero
    | unpin key =>
      have hunpin := drift_updateMeta b key (f := DiskCacheMetadata.unpin) fun _ => rfl
      exact hunpin.trans hzero
  | submitChecked t =>
    simp only [stepEvent, leaves]
    split
    · rename_i key requiredSize ht
      exact Eq.trans (drift_moveTo (q := .makingRoom key requiredSize) ht rfl rfl rfl rfl rfl rfl)
        hzero
    · exact hzero
  | writeRaises key size =>
    simp only [stepEvent, leaves]
    unfold drift reservedSize storedSize
    dsimp only
    by_cases h : (key, size) ∈ b.writes
    · have hwrites := sum_map_erase Prod.snd h
      rw [if_pos h]
      dsimp only at hwrites
      omega
    · rw [List.erase_of_not_mem h, if_neg h, Nat.cast_zero, add_zero]
  | fileNotFound key =>
    have herase := b.weight_erase_entrySize key
    unfold storedSize at herase
    simp only [stepEvent, leaves]
    unfold drift reservedSize storedSize
    dsimp only
    omega
  | unlinkRaises t =>
    simp only [stepEvent, leaves]
    split
    · rename_i ht
      exact Eq.trans (drift_moveTo (q := .releasing) ht rfl rfl rfl rfl rfl rfl) hzero
    · rename_i ht
      exact Eq.trans (drift_moveTo (q := .idle) ht rfl rfl rfl rfl rfl rfl) hzero
    · exact hzero

/-! ## The limit -/

/-- The limit is fixed, and an event raises the counter only up to it. -/
theorem currentCacheSize_stepEvent_le (h : b.currentCacheSize ≤ b.maxCacheSize) (e : DiskEvent) :
    (b.stepEvent e).currentCacheSize ≤ (b.stepEvent e).maxCacheSize := by
  have henter : ∀ t call, (b.enter t call).currentCacheSize ≤ (b.enter t call).maxCacheSize := by
    intro t call
    cases call with
    | submitPutTask key requiredSize =>
      simp only [enter]
      split <;> exact h
    | insertKey key size =>
      simp only [enter]
      split <;> exact h
    | remove key =>
      simp only [enter]
      split <;> exact h
  have hroom : ∀ t candidate key requiredSize,
      (b.makeRoom t candidate key requiredSize).currentCacheSize ≤
        (b.makeRoom t candidate key requiredSize).maxCacheSize := by
    intro t candidate key requiredSize
    unfold makeRoom
    split
    · split
      · exact h
      · rename_i victim diskMeta _
        show b.currentCacheSize - diskMeta.size ≤ b.maxCacheSize
        omega
    · rename_i hfits
      show b.currentCacheSize + requiredSize ≤ b.maxCacheSize
      omega
  have hmeta : ∀ key f, (b.updateMeta key f).currentCacheSize ≤
      (b.updateMeta key f).maxCacheSize := by
    intro key f
    unfold updateMeta
    split <;> exact h
  cases e with
  | act a =>
    cases a with
    | begin t call =>
      simp only [stepEvent, step]
      split <;> exact h
    | advance t candidate =>
      simp only [stepEvent, step]
      split
      · rename_i pc _
        cases pc with
        | locked call => exact henter t call
        | makingRoom key requiredSize => exact hroom t candidate key requiredSize
        | inserted key hasStored =>
          cases hasStored with
          | true | false => exact h
        | idle | evicting _ _ _ | admitting _ | untracking _ | removed _ | notifying _
        | releasing => exact h
      · exact h
    | pin key => exact hmeta key _
    | unpin key => exact hmeta key _
  | submitChecked t =>
    simp only [stepEvent]
    split <;> exact h
  | writeRaises key size => exact h
  | fileNotFound key => exact h
  | unlinkRaises t =>
    simp only [stepEvent]
    split <;> exact h

/-! ## Whole runs -/

/-- **One step of the account.** -/
theorem accounted_stepEvent_iff (h : b.Accounted) (e : DiskEvent) :
    (b.stepEvent e).Accounted ↔ b.LosesNoSize e := by
  have hle := currentCacheSize_stepEvent_le h.2 e
  rw [accounted_iff, and_iff_left hle, drift_stepEvent, (accounted_iff.mp h).1]
  unfold LosesNoSize
  omega

theorem accounted_init {maxCacheSize : Int} (hmax : 0 ≤ maxCacheSize) (n : Nat)
    (sender : BatchedMessageSender) : (init maxCacheSize n sender).Accounted := by
  refine ⟨?_, hmax⟩
  show (0 : Int) =
    ((0 : Nat) : Int) + ((0 + ((List.replicate n DiskPc.idle).map _).sum : Nat) : Int)
  rw [List.map_replicate, List.sum_replicate]
  rfl

/-- **The size of the disk cache.**  From a new backend on, over every interleaving of puts, writes
that end or raise, reads, evictions and forced removes, the counter is what is stored and reserved,
and within the limit, exactly when no event loses a size. -/
theorem always_accounted_iff (maxCacheSize : Int) (hmax : 0 ≤ maxCacheSize) (n : Nat)
    (sender : BatchedMessageSender) (es : List DiskEvent) :
    Always stepEvent Accounted (init maxCacheSize n sender) es ↔
      Guarded stepEvent LosesNoSize (init maxCacheSize n sender) es :=
  always_iff_guarded (fun _ e h => accounted_stepEvent_iff h e) (accounted_init hmax n sender)

/-- The chunk of the runs below. -/
def storedChunk : CacheEngineKey := ⟨"model", 1, 0, 1, .float16, none, none⟩

/-- A backend for 4 bytes, with one thread. -/
def smallDisk : LocalDiskBackend := init 4 1 ⟨"instance", 0, "LocalDiskBackend", [], 0, []⟩

/-- `submit_put_task` of a chunk of 4 bytes from entry to exit. -/
def submitRun : List DiskEvent :=
  .act (.begin 0 (.submitPutTask storedChunk 4)) :: List.replicate 3 (.act (.advance 0 none))

/-- The chunk is stored and then removed by force. -/
def forcedRemove : List DiskEvent :=
  submitRun ++ .act (.begin 0 (.insertKey storedChunk 4)) ::
    List.replicate 4 (.act (.advance 0 none)) ++
    .act (.begin 0 (.remove storedChunk)) :: List.replicate 3 (.act (.advance 0 none))

theorem always_accounted_iff_submitRun :
    Always stepEvent Accounted smallDisk submitRun ↔
      Guarded stepEvent LosesNoSize smallDisk submitRun :=
  always_accounted_iff 4 (by decide) 1 ⟨"instance", 0, "LocalDiskBackend", [], 0, []⟩ submitRun

/-- **A forced remove leaves its size behind.**  The disk is empty and the counter full, and so the
chunk is not taken again. -/
theorem not_always_accounted_forcedRemove :
    ¬ Always stepEvent Accounted smallDisk forcedRemove ∧
      (run stepEvent smallDisk forcedRemove).storedSize = 0 ∧
      (run stepEvent smallDisk forcedRemove).reservedSize = 0 ∧
      (run stepEvent smallDisk forcedRemove).currentCacheSize = 4 ∧
      (run stepEvent smallDisk (forcedRemove ++ submitRun)).writes = [] := by
  refine ⟨by decide +kernel, by decide +kernel, by decide +kernel, by decide +kernel,
    by decide +kernel⟩

-- so does a write that raises, and a read that finds no file
example : (run stepEvent smallDisk (submitRun ++ [.writeRaises storedChunk 4])).drift = 4 ∧
    (run stepEvent smallDisk (submitRun ++ .act (.begin 0 (.insertKey storedChunk 4)) ::
      .act (.advance 0 none) :: [.fileNotFound storedChunk])).drift = 4 := by decide +kernel

end LocalDiskBackend

end LMCache.Storage
