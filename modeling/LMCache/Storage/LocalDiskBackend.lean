/-
# LMCache.Storage.LocalDiskBackend — the disk cache under concurrent calls.

`dict` maps the keys whose data is on disk to what is known about it.  It is changed under
`disk_lock`, by three kinds of call: `submit_put_task` evicts until the new data fits and then
schedules a write, `insert_key` records a key whose data has been written, and `remove` takes a key
out.  `insert_key` and `remove` release the lock before they tell the controller; the evictions of
`submit_put_task` are told under the lock.

The positions of a thread and the sound changes are those of the CPU cache; the differences are that
an `ADMIT` is queued without the lock here, and that no key goes without a word.
-/
import LMCache.CacheEngineKey
import LMCache.Storage.BatchedMessageSender

namespace LMCache.Storage

open LMCache.Lib LMCache.Controller

/-! ## The backend and its threads -/

inductive DiskCall where
  | submitPutTask (key : CacheEngineKey) (requiredSize : Nat)
  /-- The end of a scheduled write: the data of the key is on disk. -/
  | insertKey (key : CacheEngineKey) (size : Nat)
  | remove (key : CacheEngineKey)
  deriving DecidableEq, Repr

inductive DiskPc where
  | idle
  /-- `disk_lock` is held and `dict` not looked at yet. -/
  | locked (call : DiskCall)
  /-- `submit_put_task` is at the head of its eviction loop; lock held. -/
  | makingRoom (key : CacheEngineKey) (requiredSize : Nat)
  /-- `submit_put_task` has popped a victim; lock held, `EVICT` not queued yet. -/
  | evicting (victim key : CacheEngineKey) (requiredSize : Nat)
  /-- `insert_key` has looked at `dict`, and recorded the key if it was new; lock still held. -/
  | inserted (key : CacheEngineKey) (hasStored : Bool)
  /-- `insert_key` has released the lock; `ADMIT` not queued yet. -/
  | admitting (key : CacheEngineKey)
  /-- The write is done but for `remove_put_task`. -/
  | untracking (key : CacheEngineKey)
  /-- `remove` has popped the key; lock still held. -/
  | removed (key : CacheEngineKey)
  /-- `remove` has released the lock; `EVICT` not queued yet. -/
  | notifying (key : CacheEngineKey)
  | releasing
  deriving DecidableEq, Repr

namespace DiskPc

/-- The hash whose `ADMIT` the thread has yet to queue. -/
def owesAdmit : DiskPc → Option Int
  | inserted key false | admitting key => some key.chunkHash
  | _ => none

/-- The hash whose `EVICT` the thread has yet to queue. -/
def owesEvict : DiskPc → Option Int
  | removed key | notifying key => some key.chunkHash
  | evicting victim _ _ => some victim.chunkHash
  | _ => none

end DiskPc

structure DiskCacheMetadata where
  size : Nat
  pinCount : Int
  deriving DecidableEq, Repr

namespace DiskCacheMetadata

def pin (m : DiskCacheMetadata) : DiskCacheMetadata := { m with pinCount := m.pinCount + 1 }

def unpin (m : DiskCacheMetadata) : DiskCacheMetadata := { m with pinCount := m.pinCount - 1 }

def canEvict (m : DiskCacheMetadata) : Bool := decide (m.pinCount ≤ 0)

end DiskCacheMetadata

structure LocalDiskBackend where
  dict : Dict CacheEngineKey DiskCacheMetadata
  maxCacheSize : Int
  currentCacheSize : Int
  /-- `disk_worker.put_tasks`. -/
  putTasks : List CacheEngineKey
  /-- The writes handed to the disk worker and not finished. -/
  writes : List (CacheEngineKey × Nat)
  diskLock : Option Nat
  threads : List DiskPc
  batchedMsgSender : BatchedMessageSender

inductive DiskAction where
  /-- An idle thread enters a call and takes the lock, if the lock is free. -/
  | begin (t : Nat) (call : DiskCall)
  /-- A thread goes on; at the head of the eviction loop the policy offers a candidate. -/
  | advance (t : Nat) (candidate : Option CacheEngineKey)
  | pin (key : CacheEngineKey)
  | unpin (key : CacheEngineKey)
  deriving DecidableEq, Repr

namespace LocalDiskBackend

/-! ## The steps of a call -/

def moveTo (b : LocalDiskBackend) (t : Nat) (pc : DiskPc) : LocalDiskBackend :=
  { b with threads := b.threads.set t pc }

def queue (b : LocalDiskBackend) (opType : OpType) (key : CacheEngineKey) : LocalDiskBackend :=
  { b with batchedMsgSender := b.batchedMsgSender.addKvOp opType key.chunkHash }

/-- The first thing a call does under the lock. -/
def enter (b : LocalDiskBackend) (t : Nat) : DiskCall → LocalDiskBackend
  | .submitPutTask key requiredSize =>
    if key ∈ b.putTasks then b.moveTo t .releasing
    else { b with putTasks := b.putTasks ++ [key] }.moveTo t (.makingRoom key requiredSize)
  | .insertKey key size =>
    if key ∈ b.dict then b.moveTo t (.inserted key true)
    else { b with dict := b.dict.set key ⟨size, 0⟩ }.moveTo t (.inserted key false)
  | .remove key =>
    match b.dict.get? key with
    | none => b.moveTo t .releasing
    | some _ => { b with dict := b.dict.erase key }.moveTo t (.removed key)

/-- The candidate of the policy, when there is one that may be evicted. -/
def evictable (b : LocalDiskBackend) (candidate : Option CacheEngineKey) :
    Option (CacheEngineKey × DiskCacheMetadata) := do
  let key ← candidate
  let diskMeta ← b.dict.get? key
  if diskMeta.canEvict then some (key, diskMeta) else none

/-- One test of the loop of `submit_put_task`.  Without a candidate the put is given up, and its
entry in `put_tasks` stays. -/
def makeRoom (b : LocalDiskBackend) (t : Nat) (candidate : Option CacheEngineKey)
    (key : CacheEngineKey) (requiredSize : Nat) : LocalDiskBackend :=
  if b.currentCacheSize + requiredSize > b.maxCacheSize then
    match b.evictable candidate with
    | none => b.moveTo t .releasing
    | some (victim, diskMeta) =>
      { b with
        currentCacheSize := b.currentCacheSize - diskMeta.size
        dict := b.dict.erase victim }.moveTo t (.evicting victim key requiredSize)
  else
    { b with
      currentCacheSize := b.currentCacheSize + requiredSize
      writes := b.writes ++ [(key, requiredSize)] }.moveTo t .releasing

/-- What a thread does next, from where it is. -/
def advance (b : LocalDiskBackend) (t : Nat) (candidate : Option CacheEngineKey) :
    DiskPc → LocalDiskBackend
  | .idle => b
  | .locked call => b.enter t call
  | .makingRoom key requiredSize => b.makeRoom t candidate key requiredSize
  | .evicting victim key requiredSize =>
    (b.queue .EVICT victim).moveTo t (.makingRoom key requiredSize)
  | .inserted key true => { b with diskLock := none }.moveTo t (.untracking key)
  | .inserted key false => { b with diskLock := none }.moveTo t (.admitting key)
  | .admitting key => (b.queue .ADMIT key).moveTo t (.untracking key)
  | .untracking key => { b with putTasks := b.putTasks.erase key }.moveTo t .idle
  | .removed key => { b with diskLock := none }.moveTo t (.notifying key)
  | .notifying key => (b.queue .EVICT key).moveTo t .idle
  | .releasing => { b with diskLock := none }.moveTo t .idle

/-- What a call has to find before it can begin: a write that ends must have been scheduled. -/
instance (b : LocalDiskBackend) (write : CacheEngineKey × Nat) : Decidable (write ∈ b.writes) :=
  inferInstance

def mayBegin (b : LocalDiskBackend) : DiskCall → Bool
  | .insertKey key size => (key, size) ∈ b.writes
  | _ => true

/-- A write that ends is no longer scheduled. -/
def writesAfter (b : LocalDiskBackend) : DiskCall → List (CacheEngineKey × Nat)
  | .insertKey key size => b.writes.erase (key, size)
  | _ => b.writes

def updateMeta (b : LocalDiskBackend) (key : CacheEngineKey)
    (f : DiskCacheMetadata → DiskCacheMetadata) : LocalDiskBackend :=
  match b.dict.get? key with
  | none => b
  | some diskMeta => { b with dict := b.dict.set key (f diskMeta) }

def step (b : LocalDiskBackend) : DiskAction → LocalDiskBackend
  | .begin t call =>
    if b.threads[t]? = some .idle ∧ b.diskLock = none ∧ b.mayBegin call then
      { b with diskLock := some t, writes := b.writesAfter call }.moveTo t (.locked call)
    else b
  | .advance t candidate =>
    match b.threads[t]? with
    | some pc => b.advance t candidate pc
    | none => b
  | .pin key => b.updateMeta key DiskCacheMetadata.pin
  | .unpin key => b.updateMeta key DiskCacheMetadata.unpin

/-! ## What is owed, and when a step is safe -/

def owedAdmits (b : LocalDiskBackend) : Set Int := owed DiskPc.owesAdmit b.threads

def owedEvicts (b : LocalDiskBackend) : Set Int := owed DiskPc.owesEvict b.threads

/-- The keys of `dict`. -/
def diskKeys (b : LocalDiskBackend) : Set CacheEngineKey := {key | key ∈ b.dict}

/-- An `ADMIT` of the key's hash may be queued now: a key on disk has the hash, or a thread is about
to queue an `EVICT` of it. -/
def AdmitIsTrue (b : LocalDiskBackend) (key : CacheEngineKey) : Prop :=
  (∃ pc ∈ b.threads, pc.owesEvict = some key.chunkHash) ∨
    ∃ key' ∈ b.dict.keys, key'.chunkHash = key.chunkHash

/-- An `EVICT` of the key's hash may be queued now: no key on disk has the hash, unless a thread is
about to queue its `ADMIT`. -/
def EvictIsTrue (b : LocalDiskBackend) (key : CacheEngineKey) : Prop :=
  (∃ key' ∈ b.dict.keys, key'.chunkHash = key.chunkHash) →
    ∃ pc ∈ b.threads, pc.owesAdmit = some key.chunkHash

/-- The condition on a thread that goes on from a position. -/
def PcAllowed (b : LocalDiskBackend) : DiskPc → Prop
  | .admitting key => b.AdmitIsTrue key
  | .notifying key | .evicting key _ _ => b.EvictIsTrue key
  | _ => True

/-- The condition under which a step keeps what the controller will see right. -/
def Allowed (b : LocalDiskBackend) : DiskAction → Prop
  | .advance t _ => ∀ pc ∈ b.threads[t]?, b.PcAllowed pc
  | _ => True

instance (b : LocalDiskBackend) (key : CacheEngineKey) : Decidable (b.AdmitIsTrue key) :=
  inferInstanceAs (Decidable (_ ∨ _))

instance (b : LocalDiskBackend) (key : CacheEngineKey) : Decidable (b.EvictIsTrue key) :=
  inferInstanceAs (Decidable (_ → _))

instance (b : LocalDiskBackend) : (pc : DiskPc) → Decidable (b.PcAllowed pc)
  | .admitting key => inferInstanceAs (Decidable (b.AdmitIsTrue key))
  | .notifying key | .evicting key _ _ => inferInstanceAs (Decidable (b.EvictIsTrue key))
  | .idle | .locked _ | .makingRoom _ _ | .inserted _ _ | .untracking _ | .removed _ | .releasing =>
    .isTrue trivial

instance (b : LocalDiskBackend) : (a : DiskAction) → Decidable (b.Allowed a)
  | .advance t _ => inferInstanceAs (Decidable (∀ pc ∈ b.threads[t]?, b.PcAllowed pc))
  | .begin _ _ | .pin _ | .unpin _ => .isTrue trivial

/-! ## What the controller will see -/

/-- The view `V` of a reader that has applied everything queued so far mirrors the disk cache. -/
def MirroredBy (b : LocalDiskBackend) (V : Set Int) : Prop :=
  Mirrored CacheEngineKey.chunkHash b.diskKeys V b.owedAdmits b.owedEvicts

/-- One step of a thread that goes from `p` to `q`: a sound change, and some operations queued. -/
structure Advances (b b' : LocalDiskBackend) (t : Nat) (p q : DiskPc) (ops : List KVOpEvent) :
    Prop where
  threads : b'.threads = b.threads.set t q
  sender : b'.batchedMsgSender = b.batchedMsgSender.extend ops
  change : Change CacheEngineKey.chunkHash b.diskKeys b'.diskKeys b.owedAdmits b.owedEvicts
    p.owesAdmit p.owesEvict q.owesAdmit q.owesEvict (ops.map KVOpEvent.note)

variable {b : LocalDiskBackend}

theorem Advances.of_quiet {b' : LocalDiskBackend} {t : Nat} {p q : DiskPc}
    (hthreads : b'.threads = b.threads.set t q) (hsender : b'.batchedMsgSender = b.batchedMsgSender)
    (hdict : b'.dict = b.dict) (hA : p.owesAdmit = q.owesAdmit) (hE : p.owesEvict = q.owesEvict) :
    Advances b b' t p q [] where
  threads := hthreads
  sender := by rw [hsender, BatchedMessageSender.extend_nil]
  change := .quiet (by rw [diskKeys, diskKeys, hdict]) hA hE

theorem advances_enter (b : LocalDiskBackend) (t : Nat) (call : DiskCall) :
    ∃ q ops, Advances b (b.enter t call) t (.locked call) q ops := by
  cases call with
  | submitPutTask key requiredSize =>
    simp only [enter]
    by_cases h : key ∈ b.putTasks
    · rw [if_pos h]
      exact ⟨_, _, .of_quiet rfl rfl rfl rfl rfl⟩
    · rw [if_neg h]
      exact ⟨_, _, .of_quiet rfl rfl rfl rfl rfl⟩
  | insertKey key size =>
    simp only [enter]
    by_cases h : key ∈ b.dict
    · rw [if_pos h]
      exact ⟨_, _, .of_quiet rfl rfl rfl rfl rfl⟩
    · rw [if_neg h]
      refine ⟨_, [], rfl, (BatchedMessageSender.extend_nil _).symm, ?_⟩
      exact .enter key (fun k => Dict.mem_set _ _ _ _) rfl rfl rfl
  | remove key =>
    simp only [enter]
    cases b.dict.get? key with
    | none => exact ⟨_, _, .of_quiet rfl rfl rfl rfl rfl⟩
    | some diskMeta =>
      refine ⟨_, [], rfl, (BatchedMessageSender.extend_nil _).symm, ?_⟩
      exact .leave key (fun k => Dict.mem_erase _ _ _) rfl rfl rfl

theorem advances_makeRoom (b : LocalDiskBackend) (t : Nat) (candidate : Option CacheEngineKey)
    (key : CacheEngineKey) (requiredSize : Nat) :
    ∃ q ops, Advances b (b.makeRoom t candidate key requiredSize) t (.makingRoom key requiredSize)
      q ops := by
  unfold makeRoom
  by_cases h : b.currentCacheSize + requiredSize > b.maxCacheSize
  · rw [if_pos h]
    cases b.evictable candidate with
    | none => exact ⟨_, _, .of_quiet rfl rfl rfl rfl rfl⟩
    | some e =>
      refine ⟨_, [], rfl, (BatchedMessageSender.extend_nil _).symm, ?_⟩
      exact .leave e.1 (fun k => Dict.mem_erase _ _ _) rfl rfl rfl
  · rw [if_neg h]
    exact ⟨_, _, .of_quiet rfl rfl rfl rfl rfl⟩

/-- **Inversion of a step.** -/
theorem advances_advance {t : Nat} (candidate : Option CacheEngineKey) {pc : DiskPc}
    (hpc : pc ≠ .idle) (hok : b.PcAllowed pc) :
    ∃ q ops, Advances b (b.advance t candidate pc) t pc q ops := by
  have hdiscard : ∀ key : CacheEngineKey, b.EvictIsTrue key → ∀ k ∈ b.diskKeys,
      k.chunkHash = key.chunkHash → key.chunkHash ∈ b.owedAdmits :=
    fun key htrue k hk hkh => htrue ⟨k, hk, hkh⟩
  cases pc with
  | idle => exact absurd rfl hpc
  | locked call => exact advances_enter b t call
  | makingRoom key requiredSize => exact advances_makeRoom b t candidate key requiredSize
  | evicting victim key requiredSize =>
    exact ⟨_, [⟨.EVICT, victim.chunkHash, -1⟩], rfl, rfl,
      .discard victim.chunkHash rfl rfl rfl (hdiscard victim hok)⟩
  | inserted key hasStored =>
    cases hasStored with
    | true => exact ⟨_, _, .of_quiet rfl rfl rfl rfl rfl⟩
    | false => exact ⟨_, _, .of_quiet rfl rfl rfl rfl rfl⟩
  | admitting key =>
    exact ⟨_, [⟨.ADMIT, key.chunkHash, -1⟩], rfl, rfl, .add key.chunkHash rfl rfl rfl hok⟩
  | untracking key => exact ⟨_, _, .of_quiet rfl rfl rfl rfl rfl⟩
  | removed key => exact ⟨_, _, .of_quiet rfl rfl rfl rfl rfl⟩
  | notifying key =>
    exact ⟨_, [⟨.EVICT, key.chunkHash, -1⟩], rfl, rfl,
      .discard key.chunkHash rfl rfl rfl (hdiscard key hok)⟩
  | releasing => exact ⟨_, _, .of_quiet rfl rfl rfl rfl rfl⟩

theorem Advances.mirroredBy {b' : LocalDiskBackend} {t : Nat} {p q : DiskPc} {ops : List KVOpEvent}
    (a : Advances b b' t p q ops) (ht : b.threads[t]? = some p) {V : Set Int} (hV : b.MirroredBy V) :
    b'.MirroredBy (Note.applyAll V (ops.map KVOpEvent.note)) := by
  rw [MirroredBy, owedAdmits, owedEvicts, a.threads]
  exact a.change.mirrored ht hV

theorem diskKeys_updateMeta (b : LocalDiskBackend) (key : CacheEngineKey)
    (f : DiskCacheMetadata → DiskCacheMetadata) : (b.updateMeta key f).diskKeys = b.diskKeys := by
  unfold updateMeta
  cases h : b.dict.get? key with
  | none => rfl
  | some diskMeta =>
    have hin : key ∈ b.dict := Dict.mem_iff_get?.mpr ⟨diskMeta, h⟩
    ext k
    show k ∈ b.dict.set key (f diskMeta) ↔ k ∈ b.dict
    rw [Dict.mem_set]
    constructor
    · rintro (rfl | hk)
      · exact hin
      · exact hk
    · exact Or.inr

theorem mirroredBy_updateMeta (key : CacheEngineKey) (f : DiskCacheMetadata → DiskCacheMetadata) :
    ∃ ops, (b.updateMeta key f).batchedMsgSender = b.batchedMsgSender.extend ops ∧
      ∀ V, b.MirroredBy V → (b.updateMeta key f).MirroredBy
        (Note.applyAll V (ops.map KVOpEvent.note)) := by
  have hrest : (b.updateMeta key f).threads = b.threads ∧
      (b.updateMeta key f).batchedMsgSender = b.batchedMsgSender := by
    unfold updateMeta
    split <;> exact ⟨rfl, rfl⟩
  refine ⟨[], by rw [hrest.2, BatchedMessageSender.extend_nil], fun V hV => ?_⟩
  rw [MirroredBy, diskKeys_updateMeta, owedAdmits, owedEvicts, hrest.1]
  exact hV

/-- **One step.**  A step queues some operations, and a reader that mirrored the disk cache before
mirrors it after having applied them too. -/
theorem mirroredBy_step (a : DiskAction) (hok : b.Allowed a) :
    ∃ ops, (b.step a).batchedMsgSender = b.batchedMsgSender.extend ops ∧
      ∀ V, b.MirroredBy V → (b.step a).MirroredBy (Note.applyAll V (ops.map KVOpEvent.note)) := by
  have hsame : ∃ ops, b.batchedMsgSender = b.batchedMsgSender.extend ops ∧
      ∀ V, b.MirroredBy V → b.MirroredBy (Note.applyAll V (ops.map KVOpEvent.note)) :=
    ⟨[], (BatchedMessageSender.extend_nil _).symm, fun V hV => hV⟩
  cases a with
  | begin t call =>
    simp only [step]
    by_cases hc : b.threads[t]? = some .idle ∧ b.diskLock = none ∧ b.mayBegin call
    · rw [if_pos hc]
      have ha : Advances b ({ b with diskLock := some t, writes := b.writesAfter call }.moveTo t
          (.locked call)) t .idle (.locked call) [] := .of_quiet rfl rfl rfl rfl rfl
      exact ⟨[], ha.sender, fun V hV => ha.mirroredBy hc.1 hV⟩
    · rw [if_neg hc]
      exact hsame
  | advance t candidate =>
    simp only [step]
    cases ht : b.threads[t]? with
    | none => exact hsame
    | some pc =>
      by_cases hpc : pc = .idle
      · subst hpc
        exact hsame
      · obtain ⟨q, ops, ha⟩ := advances_advance (b := b) (t := t) candidate hpc (hok pc ht)
        exact ⟨ops, ha.sender, fun V hV => ha.mirroredBy ht hV⟩
  | pin key => exact mirroredBy_updateMeta key _
  | unpin key => exact mirroredBy_updateMeta key _

theorem coe_hashes (b : LocalDiskBackend) :
    ((b.dict.keys.map CacheEngineKey.chunkHash).toFinset : Set Int) =
      CacheEngineKey.chunkHash '' b.diskKeys := by
  ext h
  simp [diskKeys, Dict.mem_def]

/-- When no thread owes a note, a reader mirrors the cache only by showing its hashes exactly. -/
theorem MirroredBy.eq_image {V : Set Int} (h : b.MirroredBy V)
    (hA : ∀ pc ∈ b.threads, pc.owesAdmit = none) (hE : ∀ pc ∈ b.threads, pc.owesEvict = none) :
    V = CacheEngineKey.chunkHash '' b.diskKeys :=
  Mirrored.eq_image (Mirrored.mono h (owed_subset_empty hA) (owed_subset_empty hE))

end LocalDiskBackend

end LMCache.Storage
