/-
# LMCache.Storage.LocalCPUBackend — the CPU cache under concurrent calls.

`hot_cache` is changed under `cpu_lock` by three kinds of call: `submit_put_task` stores a key,
`remove` takes one out, and the eviction rounds of `allocate` and `batched_allocate` make room.  Each
change is to be told to the controller by `add_kv_op`, but where the call does so relative to the
lock differs from path to path, and one path never does:

* `submit_put_task` queues its `ADMIT` while it still holds the lock;
* `remove(force=True)` releases the lock before it queues its `EVICT`;
* the round of `allocate` calls `remove(force=False)`, which queues its `EVICT` under the lock of
  the round;
* the round of `batched_allocate` pops the layers of the chosen key and queues nothing.

A thread is therefore modelled by its position inside such a call.  The choice of the eviction policy
is left open: any key whose object may be evicted.
-/
import LMCache.CacheEngineKey
import LMCache.Storage.BatchedMessageSender

namespace LMCache.Storage

open LMCache.Lib LMCache.Controller LMCache.Memory

/-! ## The backend and its threads -/

/-- A call that changes `hot_cache`.  The rounds of the allocation loops carry what
`get_evict_candidates` returns in them. -/
inductive CpuCall where
  | submitPutTask (key : CacheEngineKey) (memoryObj : Nat)
  | remove (key : CacheEngineKey)
  | allocateRound (candidate : Option CacheEngineKey)
  | batchedAllocateRound (candidate : Option CacheEngineKey) (batchSize : Nat)
  deriving DecidableEq, Repr

/-- Where a thread is. -/
inductive CpuPc where
  | idle
  /-- `cpu_lock` is held and `hot_cache` not looked at yet. -/
  | locked (call : CpuCall)
  /-- `submit_put_task` has stored the key; lock held, `ADMIT` not queued yet. -/
  | admitting (key : CacheEngineKey)
  /-- `remove(force=True)` has popped the key; lock still held. -/
  | removed (key : CacheEngineKey)
  /-- `remove(force=True)` has released the lock; `EVICT` not queued yet. -/
  | notifying (key : CacheEngineKey)
  /-- `remove(force=False)` has popped the key; lock held, `EVICT` not queued yet. -/
  | evicting (key : CacheEngineKey)
  /-- The round of `batched_allocate` has these layers left to pop, and these objects to free. -/
  | popping (keys : List CacheEngineKey) (oldMemObjs : List Nat)
  /-- The call has nothing left to do but to release the lock. -/
  | releasing
  deriving DecidableEq, Repr

namespace CpuPc

/-- The positions in which a thread holds `cpu_lock`. -/
def holdsLock : CpuPc → Bool
  | idle | notifying _ => false
  | _ => true

/-- The hash whose `ADMIT` the thread has yet to queue. -/
def owesAdmit : CpuPc → Option Int
  | admitting key => some key.chunkHash
  | _ => none

/-- The hash whose `EVICT` the thread has yet to queue. -/
def owesEvict : CpuPc → Option Int
  | removed key | notifying key | evicting key => some key.chunkHash
  | _ => none

end CpuPc

structure LocalCPUBackend where
  /-- Keys and the objects stored under them, by their place in `memoryObjs`. -/
  hotCache : Dict CacheEngineKey Nat
  memoryObjs : List TensorMemoryObj
  cpuLock : Option Nat
  threads : List CpuPc
  batchedMsgSender : BatchedMessageSender

/-- What the holders of an object do to it between the calls of the backend. -/
inductive ObjectCall where
  | refCountUp
  | refCountDown
  | pin
  | unpin
  deriving DecidableEq, Repr

inductive CpuAction where
  /-- An idle thread enters a call and takes the lock, if the lock is free. -/
  | begin (t : Nat) (call : CpuCall)
  /-- A thread inside a call goes on to its next position. -/
  | advance (t : Nat)
  /-- The allocator hands out a new object. -/
  | allocated (o : TensorMemoryObj)
  /-- A holder of an object outside these calls takes or drops a reference or a pin. -/
  | object (memoryObj : Nat) (call : ObjectCall)
  deriving DecidableEq, Repr

/-! ## The steps of a call -/

/-- `ref_count_down` of an object; the last reference returns it to the allocator. -/
def dropRef (o : TensorMemoryObj) : TensorMemoryObj :=
  if o.refCountDown.2 then o.refCountDown.1.invalidate else o.refCountDown.1

/-- `unpin` of an object, which may be what returns it to the allocator. -/
def dropPin (o : TensorMemoryObj) : TensorMemoryObj :=
  (if o.unpinDecrement.2 then o.unpinDecrement.1.invalidate else o.unpinDecrement.1).unpinClamp

def ObjectCall.apply : ObjectCall → TensorMemoryObj → TensorMemoryObj
  | .refCountUp => TensorMemoryObj.refCountUp
  | .refCountDown => dropRef
  | .pin => TensorMemoryObj.pin
  | .unpin => dropPin

namespace LocalCPUBackend

def moveTo (b : LocalCPUBackend) (t : Nat) (pc : CpuPc) : LocalCPUBackend :=
  { b with threads := b.threads.set t pc }

/-- `self.hot_cache.pop(key)` and `memory_obj.ref_count_down()`. -/
def popKey (b : LocalCPUBackend) (key : CacheEngineKey) (memoryObj : Nat) : LocalCPUBackend :=
  { b with
    hotCache := b.hotCache.erase key
    memoryObjs := b.memoryObjs.modify memoryObj dropRef }

/-- The candidate of the policy, when there is one that is cached and may be evicted. -/
def evictable (b : LocalCPUBackend) (candidate : Option CacheEngineKey) :
    Option (CacheEngineKey × Nat) := do
  let key ← candidate
  let memoryObj ← b.hotCache.get? key
  let o ← b.memoryObjs[memoryObj]?
  if o.canEvict then some (key, memoryObj) else none

/-- The first thing a call does under the lock. -/
def enter (b : LocalCPUBackend) (t : Nat) : CpuCall → LocalCPUBackend
  | .submitPutTask key memoryObj =>
    if key ∈ b.hotCache then b.moveTo t .releasing
    else
      { b with
        hotCache := b.hotCache.set key memoryObj
        memoryObjs := b.memoryObjs.modify memoryObj TensorMemoryObj.refCountUp }.moveTo t
        (.admitting key)
  | .remove key =>
    match b.hotCache.get? key with
    | none => b.moveTo t .releasing
    | some memoryObj => (b.popKey key memoryObj).moveTo t (.removed key)
  | .allocateRound candidate =>
    match b.evictable candidate with
    | none => b.moveTo t .releasing
    | some (key, memoryObj) => (b.popKey key memoryObj).moveTo t (.evicting key)
  | .batchedAllocateRound candidate batchSize =>
    match b.evictable candidate with
    | none => b.moveTo t .releasing
    | some (key, _) => b.moveTo t (.popping (key.splitLayers batchSize) [])

/-- The next layer of the round of `batched_allocate`.  A layer that is not cached raises `KeyError`,
which leaves the `with` block: what was popped before stays popped. -/
def popLayer (b : LocalCPUBackend) (t : Nat) (oldMemObjs : List Nat) :
    List CacheEngineKey → LocalCPUBackend
  | [] =>
    { b with
      memoryObjs := oldMemObjs.foldl (fun objs i => objs.modify i TensorMemoryObj.invalidate)
        b.memoryObjs }.moveTo t .releasing
  | key :: keys =>
    match b.hotCache.get? key with
    | none => b.moveTo t .releasing
    | some memoryObj =>
      { b with hotCache := b.hotCache.erase key }.moveTo t
        (.popping keys (oldMemObjs ++ [memoryObj]))

def queue (b : LocalCPUBackend) (opType : OpType) (key : CacheEngineKey) : LocalCPUBackend :=
  { b with batchedMsgSender := b.batchedMsgSender.addKvOp opType key.chunkHash }

/-- What a thread does next, from where it is. -/
def advance (b : LocalCPUBackend) (t : Nat) : CpuPc → LocalCPUBackend
  | .idle => b
  | .locked call => b.enter t call
  | .admitting key => (b.queue .ADMIT key).moveTo t .releasing
  | .removed key => { b with cpuLock := none }.moveTo t (.notifying key)
  | .notifying key => (b.queue .EVICT key).moveTo t .idle
  | .evicting key => (b.queue .EVICT key).moveTo t .releasing
  | .popping keys oldMemObjs => b.popLayer t oldMemObjs keys
  | .releasing => { b with cpuLock := none }.moveTo t .idle

def step (b : LocalCPUBackend) : CpuAction → LocalCPUBackend
  | .begin t call =>
    if b.threads[t]? = some .idle ∧ b.cpuLock = none then
      { b with cpuLock := some t }.moveTo t (.locked call)
    else b
  | .advance t =>
    match b.threads[t]? with
    | some pc => b.advance t pc
    | none => b
  | .allocated o => { b with memoryObjs := b.memoryObjs ++ [o] }
  | .object i call =>
    { b with memoryObjs := b.memoryObjs.modify i call.apply }

/-! ## What is owed, and when a step is safe -/

/-- The hashes whose `ADMIT` some thread has yet to queue. -/
def owedAdmits (b : LocalCPUBackend) : Set Int := owed CpuPc.owesAdmit b.threads

/-- The hashes whose `EVICT` some thread has yet to queue. -/
def owedEvicts (b : LocalCPUBackend) : Set Int := owed CpuPc.owesEvict b.threads

/-- The keys of `hot_cache`. -/
def hotKeys (b : LocalCPUBackend) : Set CacheEngineKey := {key | key ∈ b.hotCache}

/-- An `EVICT` of the key's hash may be queued now: no cached key has the hash, unless a thread is
about to queue its `ADMIT`. -/
def EvictIsTrue (b : LocalCPUBackend) (key : CacheEngineKey) : Prop :=
  (∃ key' ∈ b.hotCache.keys, key'.chunkHash = key.chunkHash) →
    ∃ pc ∈ b.threads, pc.owesAdmit = some key.chunkHash

/-- The key may be popped without a word now: another cached key has its hash, or a thread is about
to queue an `EVICT` of it. -/
def PopIsHarmless (b : LocalCPUBackend) (key : CacheEngineKey) : Prop :=
  (∃ key' ∈ b.hotCache.keys, key' ≠ key ∧ key'.chunkHash = key.chunkHash) ∨
    ∃ pc ∈ b.threads, pc.owesEvict = some key.chunkHash

/-- The condition on a thread that goes on from a position. -/
def PcAllowed (b : LocalCPUBackend) : CpuPc → Prop
  | .notifying key | .evicting key => b.EvictIsTrue key
  | .popping (key :: _) _ => key ∈ b.hotCache → b.PopIsHarmless key
  | _ => True

/-- The condition under which a step keeps what the controller will see right. -/
def Allowed (b : LocalCPUBackend) : CpuAction → Prop
  | .begin _ _ | .allocated _ | .object _ _ => True
  | .advance t => ∀ pc ∈ b.threads[t]?, b.PcAllowed pc

instance (b : LocalCPUBackend) (key : CacheEngineKey) : Decidable (b.EvictIsTrue key) :=
  inferInstanceAs (Decidable (_ → _))

instance (b : LocalCPUBackend) (key : CacheEngineKey) : Decidable (b.PopIsHarmless key) :=
  inferInstanceAs (Decidable (_ ∨ _))

instance (b : LocalCPUBackend) : (pc : CpuPc) → Decidable (b.PcAllowed pc)
  | .notifying key | .evicting key => inferInstanceAs (Decidable (b.EvictIsTrue key))
  | .popping (_ :: _) _ => inferInstanceAs (Decidable (_ → _))
  | .popping [] _ | .idle | .locked _ | .admitting _ | .removed _ | .releasing => .isTrue trivial

instance (b : LocalCPUBackend) : (a : CpuAction) → Decidable (b.Allowed a)
  | .begin _ _ | .allocated _ | .object _ _ => .isTrue trivial
  | .advance t => inferInstanceAs (Decidable (∀ pc ∈ b.threads[t]?, b.PcAllowed pc))

/-! ## Everything a thread can do in one step -/

/-- What one step of a thread that goes from `p` to `q` does to the cache and to the queue. -/
inductive Move (b b' : LocalCPUBackend) (p q : CpuPc) : Prop where
  | quiet (hhot : b'.hotCache = b.hotCache) (hsender : b'.batchedMsgSender = b.batchedMsgSender)
      (hp : p.owesAdmit = none) (hq : q.owesAdmit = none) (hE : p.owesEvict = q.owesEvict)
  | store (key : CacheEngineKey) (hhot : ∀ k, k ∈ b'.hotCache ↔ k = key ∨ k ∈ b.hotCache)
      (hsender : b'.batchedMsgSender = b.batchedMsgSender) (hp : p.owesEvict = none)
      (hpA : p.owesAdmit = none) (hq : q = .admitting key)
  | queueAdmit (key : CacheEngineKey) (hhot : b'.hotCache = b.hotCache)
      (hsender : b'.batchedMsgSender = b.batchedMsgSender.addKvOp .ADMIT key.chunkHash)
      (hp : p = .admitting key) (hq : q = .releasing)
  | take (key : CacheEngineKey) (hlock : p.holdsLock = true)
      (hhot : ∀ k, k ∈ b'.hotCache ↔ k ≠ key ∧ k ∈ b.hotCache)
      (hsender : b'.batchedMsgSender = b.batchedMsgSender) (hp : p.owesEvict = none)
      (hpA : p.owesAdmit = none) (hq : q.owesEvict = some key.chunkHash)
      (hqA : q.owesAdmit = none)
  | queueEvict (key : CacheEngineKey) (hhot : b'.hotCache = b.hotCache)
      (hsender : b'.batchedMsgSender = b.batchedMsgSender.addKvOp .EVICT key.chunkHash)
      (hp : p = .notifying key ∨ p = .evicting key) (hq : q.owesEvict = none)
      (hqA : q.owesAdmit = none)
  | drop (key : CacheEngineKey) (keys : List CacheEngineKey) (objs objs' : List Nat)
      (hin : key ∈ b.hotCache) (hhot : ∀ k, k ∈ b'.hotCache ↔ k ≠ key ∧ k ∈ b.hotCache)
      (hsender : b'.batchedMsgSender = b.batchedMsgSender) (hp : p = .popping (key :: keys) objs)
      (hq : q = .popping keys objs')

/-- One step of a thread: it moves to one position, keeps the lock or gives up the one it holds, and
does one of the things above. -/
structure Advances (b b' : LocalCPUBackend) (t : Nat) (p q : CpuPc) : Prop where
  threads : b'.threads = b.threads.set t q
  lock : b'.cpuLock = b.cpuLock ∧ q.holdsLock = p.holdsLock ∨
    b'.cpuLock = none ∧ p.holdsLock = true ∧ q.holdsLock = false
  move : Move b b' p q

theorem advances_enter (b : LocalCPUBackend) (t : Nat) (call : CpuCall) :
    ∃ q, Advances b (b.enter t call) t (.locked call) q := by
  cases call with
  | submitPutTask key memoryObj =>
    simp only [enter]
    by_cases h : key ∈ b.hotCache
    · rw [if_pos h]
      exact ⟨_, rfl, .inl ⟨rfl, rfl⟩, .quiet rfl rfl rfl rfl rfl⟩
    · rw [if_neg h]
      refine ⟨_, rfl, .inl ⟨rfl, rfl⟩, .store key ?_ rfl rfl rfl rfl⟩
      exact fun k => Dict.mem_set _ _ _ _
  | remove key =>
    simp only [enter]
    cases b.hotCache.get? key with
    | none => exact ⟨_, rfl, .inl ⟨rfl, rfl⟩, .quiet rfl rfl rfl rfl rfl⟩
    | some memoryObj =>
      exact ⟨_, rfl, .inl ⟨rfl, rfl⟩,
        .take key rfl (fun k => Dict.mem_erase _ _ _) rfl rfl rfl rfl rfl⟩
  | allocateRound candidate =>
    simp only [enter]
    cases b.evictable candidate with
    | none => exact ⟨_, rfl, .inl ⟨rfl, rfl⟩, .quiet rfl rfl rfl rfl rfl⟩
    | some e =>
      exact ⟨_, rfl, .inl ⟨rfl, rfl⟩,
        .take e.1 rfl (fun k => Dict.mem_erase _ _ _) rfl rfl rfl rfl rfl⟩
  | batchedAllocateRound candidate batchSize =>
    simp only [enter]
    cases b.evictable candidate with
    | none => exact ⟨_, rfl, .inl ⟨rfl, rfl⟩, .quiet rfl rfl rfl rfl rfl⟩
    | some e => exact ⟨_, rfl, .inl ⟨rfl, rfl⟩, .quiet rfl rfl rfl rfl rfl⟩

theorem advances_popLayer (b : LocalCPUBackend) (t : Nat) (keys : List CacheEngineKey)
    (objs : List Nat) : ∃ q, Advances b (b.popLayer t objs keys) t (.popping keys objs) q := by
  cases keys with
  | nil => exact ⟨_, rfl, .inl ⟨rfl, rfl⟩, .quiet rfl rfl rfl rfl rfl⟩
  | cons key keys =>
    simp only [popLayer]
    cases h : b.hotCache.get? key with
    | none => exact ⟨_, rfl, .inl ⟨rfl, rfl⟩, .quiet rfl rfl rfl rfl rfl⟩
    | some memoryObj =>
      have hin : key ∈ b.hotCache := Dict.mem_iff_get?.mpr ⟨memoryObj, h⟩
      exact ⟨_, rfl, .inl ⟨rfl, rfl⟩,
        .drop key keys objs _ hin (fun k => Dict.mem_erase _ _ _) rfl rfl rfl⟩

variable {b b' : LocalCPUBackend} {t : Nat} {p q : CpuPc}

/-- **Inversion of a step.** -/
theorem advances_advance {pc : CpuPc} (hpc : pc ≠ .idle) :
    ∃ q, Advances b (b.advance t pc) t pc q := by
  cases pc with
  | idle => exact absurd rfl hpc
  | locked call => exact advances_enter b t call
  | admitting key => exact ⟨_, rfl, .inl ⟨rfl, rfl⟩, .queueAdmit key rfl rfl rfl rfl⟩
  | removed key => exact ⟨_, rfl, .inr ⟨rfl, rfl, rfl⟩, .quiet rfl rfl rfl rfl rfl⟩
  | notifying key => exact ⟨_, rfl, .inl ⟨rfl, rfl⟩, .queueEvict key rfl rfl (.inl rfl) rfl rfl⟩
  | evicting key => exact ⟨_, rfl, .inl ⟨rfl, rfl⟩, .queueEvict key rfl rfl (.inr rfl) rfl rfl⟩
  | popping keys objs => exact advances_popLayer b t keys objs
  | releasing => exact ⟨_, rfl, .inr ⟨rfl, rfl, rfl⟩, .quiet rfl rfl rfl rfl rfl⟩

/-! ## Mutual exclusion -/

/-- The lock is held by at most one thread, and a key is in the cache as long as the thread that
stored it holds the lock. -/
structure Exclusive (b : LocalCPUBackend) : Prop where
  holder : ∀ (t : Nat) (pc : CpuPc), b.threads[t]? = some pc → pc.holdsLock = true →
    b.cpuLock = some t
  stored : ∀ (t : Nat) (key : CacheEngineKey), b.threads[t]? = some (.admitting key) →
    key ∈ b.hotCache

/-- The cache loses keys only to the thread that holds the lock. -/
theorem Move.mem_of_not_holdsLock (m : Move b b' p q) (hp : p.holdsLock = false)
    {key : CacheEngineKey} (h : key ∈ b.hotCache) : key ∈ b'.hotCache := by
  cases m with
  | quiet hhot => rwa [hhot]
  | store key' hhot => exact (hhot key).mpr (.inr h)
  | queueAdmit key' hhot => rwa [hhot]
  | take key' hlock => rw [hp] at hlock; cases hlock
  | queueEvict key' hhot => rwa [hhot]
  | drop key' keys objs objs' hin hhot hsender hpp => rw [hpp] at hp; cases hp

theorem Move.stored (m : Move b b' p q) {key : CacheEngineKey} (hq : q = .admitting key) :
    key ∈ b'.hotCache := by
  subst hq
  cases m with
  | quiet hhot hsender hp hq => cases hq
  | store key' hhot hsender hp hpA hq => cases hq; exact (hhot key).mpr (.inl rfl)
  | queueAdmit key' hhot hsender hp hq => cases hq
  | take key' hlock hhot hsender hp hpA hq hqA => cases hqA
  | queueEvict key' hhot hsender hp hq hqA => cases hqA
  | drop key' keys objs objs' hin hhot hsender hp hq => cases hq

theorem exclusive_advances (h : Exclusive b) (ht : b.threads[t]? = some p) (a : Advances b b' t p q) :
    Exclusive b' := by
  have hlt : t < b.threads.length := (List.getElem?_eq_some_iff.mp ht).1
  -- another thread that holds the lock excludes that this one does
  have hother : ∀ (j : Nat) (r : CpuPc), j ≠ t → b.threads[j]? = some r → r.holdsLock = true →
      p.holdsLock = false := by
    intro j r hjt hj hr
    by_contra hp
    have h1 : b.cpuLock = some t := h.holder t p ht (by simpa using hp)
    rw [h.holder j r hj hr] at h1
    exact hjt (Option.some.inj h1)
  refine ⟨?_, ?_⟩
  · intro j r hj hr
    rw [a.threads] at hj
    by_cases hjt : j = t
    · subst hjt
      rw [List.getElem?_set_self hlt] at hj
      cases hj
      rcases a.lock with ⟨hl, hpq⟩ | ⟨-, -, hq⟩
      · rw [hl]
        exact h.holder j p ht (hpq ▸ hr)
      · rw [hq] at hr
        cases hr
    · rw [List.getElem?_set_ne (Ne.symm hjt)] at hj
      rcases a.lock with ⟨hl, -⟩ | ⟨-, hp, -⟩
      · rw [hl]
        exact h.holder j r hj hr
      · rw [hother j r hjt hj hr] at hp
        cases hp
  · intro j key hj
    rw [a.threads] at hj
    by_cases hjt : j = t
    · subst hjt
      rw [List.getElem?_set_self hlt] at hj
      exact a.move.stored (Option.some.inj hj)
    · rw [List.getElem?_set_ne (Ne.symm hjt)] at hj
      exact a.move.mem_of_not_holdsLock (hother j _ hjt hj rfl) (h.stored j key hj)

theorem exclusive_begin {call : CpuCall} (h : Exclusive b) (ht : b.threads[t]? = some .idle)
    (hlock : b.cpuLock = none) :
    Exclusive ({ b with cpuLock := some t }.moveTo t (.locked call)) := by
  have hlt : t < b.threads.length := (List.getElem?_eq_some_iff.mp ht).1
  refine ⟨?_, ?_⟩
  · intro j r hj hr
    by_cases hjt : j = t
    · rw [hjt]
      rfl
    · have hj' : b.threads[j]? = some r := by
        rwa [moveTo, List.getElem?_set_ne (Ne.symm hjt)] at hj
      have h1 := h.holder j r hj' hr
      rw [hlock] at h1
      cases h1
  · intro j key hj
    by_cases hjt : j = t
    · subst hjt
      rw [moveTo, List.getElem?_set_self hlt] at hj
      cases hj
    · rw [moveTo, List.getElem?_set_ne (Ne.symm hjt)] at hj
      exact h.stored j key hj

theorem exclusive_step (h : Exclusive b) (a : CpuAction) : Exclusive (b.step a) := by
  cases a with
  | begin t call =>
    simp only [step]
    by_cases hc : b.threads[t]? = some .idle ∧ b.cpuLock = none
    · rw [if_pos hc]
      exact exclusive_begin h hc.1 hc.2
    · rw [if_neg hc]
      exact h
  | advance t =>
    simp only [step]
    cases ht : b.threads[t]? with
    | none => exact h
    | some pc =>
      by_cases hpc : pc = .idle
      · subst hpc
        exact h
      · obtain ⟨q, a⟩ := advances_advance (b := b) (t := t) hpc
        exact exclusive_advances h ht a
  | allocated o => exact ⟨h.holder, h.stored⟩
  | object i call => exact ⟨h.holder, h.stored⟩

/-! ## What the controller will see -/

/-- The view `V` of a reader that has applied everything queued so far mirrors the cache. -/
def MirroredBy (b : LocalCPUBackend) (V : Set Int) : Prop :=
  Mirrored CacheEngineKey.chunkHash b.hotKeys V b.owedAdmits b.owedEvicts

/-- A step of a thread is one of the sound changes, when it is allowed. -/
theorem Move.change (m : Move b b' p q) (hex : Exclusive b) (ht : b.threads[t]? = some p)
    (hok : b.PcAllowed p) :
    ∃ ops, b'.batchedMsgSender = b.batchedMsgSender.extend ops ∧
      Change CacheEngineKey.chunkHash b.hotKeys b'.hotKeys b.owedAdmits b.owedEvicts p.owesAdmit
        p.owesEvict q.owesAdmit q.owesEvict (ops.map KVOpEvent.note) := by
  cases m with
  | quiet hhot hsender hp hq hpq =>
    refine ⟨[], by rw [hsender, BatchedMessageSender.extend_nil], ?_⟩
    exact .quiet (by rw [hotKeys, hotKeys, hhot]) (hp.trans hq.symm) hpq
  | store key hhot hsender hp hpA hq =>
    subst hq
    refine ⟨[], by rw [hsender, BatchedMessageSender.extend_nil], ?_⟩
    exact .enter key hhot hpA rfl hp
  | queueAdmit key hhot hsender hp hq =>
    subst hp hq
    refine ⟨[⟨.ADMIT, key.chunkHash, -1⟩], hsender, ?_⟩
    -- the thread has held the lock since it stored the key, so the key is still there
    have hin : key ∈ b.hotCache := hex.stored t key ht
    exact .add key.chunkHash (by rw [hotKeys, hotKeys, hhot]) rfl rfl (.inr ⟨key, hin, rfl⟩)
  | take key hlock hhot hsender hp hpA hq hqA =>
    refine ⟨[], by rw [hsender, BatchedMessageSender.extend_nil], ?_⟩
    exact .leave key hhot (hpA.trans hqA.symm) hp hq
  | queueEvict key hhot hsender hp hq hqA =>
    refine ⟨[⟨.EVICT, key.chunkHash, -1⟩], hsender, ?_⟩
    have hpA : p.owesAdmit = none := by
      rcases hp with rfl | rfl <;> rfl
    have hpE : p.owesEvict = some key.chunkHash := by
      rcases hp with rfl | rfl <;> rfl
    have htrue : b.EvictIsTrue key := by
      rcases hp with rfl | rfl <;> exact hok
    exact .discard key.chunkHash (by rw [hotKeys, hotKeys, hhot]) (hpA.trans hqA.symm) hpE
      fun k hk hkh => htrue ⟨k, hk, hkh⟩
  | drop key keys objs objs' hin hhot hsender hp hq =>
    subst hp hq
    refine ⟨[], by rw [hsender, BatchedMessageSender.extend_nil], ?_⟩
    refine .vanish key hhot rfl rfl ?_
    rcases hok hin with ⟨key', hk', hne, hhash⟩ | howed
    · exact .inr ⟨key', (hhot key').mpr ⟨hne, hk'⟩, hhash⟩
    · exact .inl howed

theorem mirroredBy_move (hex : Exclusive b) (ht : b.threads[t]? = some p)
    (hthreads : b'.threads = b.threads.set t q) (m : Move b b' p q) (hok : b.PcAllowed p) :
    ∃ ops, b'.batchedMsgSender = b.batchedMsgSender.extend ops ∧
      ∀ V, b.MirroredBy V → b'.MirroredBy (Note.applyAll V (ops.map KVOpEvent.note)) := by
  obtain ⟨ops, hops, hchange⟩ := m.change hex ht hok
  refine ⟨ops, hops, fun V hV => ?_⟩
  rw [MirroredBy, owedAdmits, owedEvicts, hthreads]
  exact hchange.mirrored ht hV

/-- **One step.**  A step queues some operations, and a reader that mirrored the cache before mirrors
it after having applied them too. -/
theorem mirroredBy_step (hex : Exclusive b) (a : CpuAction) (hok : b.Allowed a) :
    ∃ ops, (b.step a).batchedMsgSender = b.batchedMsgSender.extend ops ∧
      ∀ V, b.MirroredBy V → (b.step a).MirroredBy (Note.applyAll V (ops.map KVOpEvent.note)) := by
  have hsame : ∃ ops, b.batchedMsgSender = b.batchedMsgSender.extend ops ∧
      ∀ V, b.MirroredBy V → b.MirroredBy (Note.applyAll V (ops.map KVOpEvent.note)) :=
    ⟨[], (BatchedMessageSender.extend_nil _).symm, fun V hV => hV⟩
  cases a with
  | begin t call =>
    simp only [step]
    by_cases hc : b.threads[t]? = some .idle ∧ b.cpuLock = none
    · rw [if_pos hc]
      have hmove : Move b ({ b with cpuLock := some t }.moveTo t (.locked call)) .idle
          (.locked call) := .quiet rfl rfl rfl rfl rfl
      exact mirroredBy_move hex hc.1 rfl hmove trivial
    · rw [if_neg hc]
      exact hsame
  | advance t =>
    simp only [step]
    cases ht : b.threads[t]? with
    | none => exact hsame
    | some pc =>
      by_cases hpc : pc = .idle
      · subst hpc
        exact hsame
      · obtain ⟨q, a⟩ := advances_advance (b := b) (t := t) hpc
        exact mirroredBy_move hex ht a.threads a.move (hok pc ht)
  | allocated o => exact hsame
  | object i call => exact hsame

theorem coe_hashes (b : LocalCPUBackend) :
    ((b.hotCache.keys.map CacheEngineKey.chunkHash).toFinset : Set Int) =
      CacheEngineKey.chunkHash '' b.hotKeys := by
  ext h
  simp [hotKeys, Dict.mem_def]

/-- When no thread owes a note, a reader mirrors the cache only by showing its hashes exactly. -/
theorem MirroredBy.eq_image {V : Set Int} (h : b.MirroredBy V)
    (hA : ∀ pc ∈ b.threads, pc.owesAdmit = none) (hE : ∀ pc ∈ b.threads, pc.owesEvict = none) :
    V = CacheEngineKey.chunkHash '' b.hotKeys :=
  Mirrored.eq_image (Mirrored.mono h (owed_subset_empty hA) (owed_subset_empty hE))

end LocalCPUBackend

end LMCache.Storage
