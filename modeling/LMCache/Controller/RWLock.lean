/-
# LMCache.Controller.RWLock — the reader-writer lock of the registry.

Source: `RWLockWithTimeout` of `v1/cache_controller/locks.py`.

A step is a section under the lock of the condition: a call up to its return or its `wait`, or the
next round of a loop when its thread is awake again.  A thread wakes up when it is notified or, with
a timeout, when its time is up, and gets the lock of the condition some time later.

Readers are kept out by an active writer and also by writers that wait.  So a writer that gives up
at its timeout may be the one that readers sleep on, and nobody is notified when it goes.
-/
import LMCache.Lib.ConditionVariable
import LMCache.Lib.Run
import LMCache.Lib.Weights

namespace LMCache.Controller

open LMCache.Lib

/-! ## The lock -/

/-- The side of the lock that a thread waits for. -/
inductive LockSide where
  | read | write
  deriving DecidableEq, Repr

/-- `RWLockWithTimeout`, without its condition. -/
structure RWLockWithTimeout where
  readers : Int
  writersWaiting : Int
  writerActive : Bool
  deriving DecidableEq, Repr

/-- The condition of the `while` loop of `acquire_read`, and of `acquire_write`. -/
def RWLockWithTimeout.blocked (l : RWLockWithTimeout) : LockSide → Bool
  | .read => l.writerActive || 0 < l.writersWaiting
  | .write => 0 < l.readers || l.writerActive

/-- A thread, with what it holds. -/
structure LockThread where
  reads : Nat
  writing : Bool
  sleep : Option (Sleeper LockSide)
  deriving DecidableEq, Repr

/-- The lock and its threads. -/
structure LockRun where
  lock : RWLockWithTimeout
  threads : List LockThread
  deriving DecidableEq, Repr

inductive LockEvent where
  /-- A call, with a timeout or without one, and whether its deadline is over when it is
  compared. -/
  | acquireRead (t : Nat) (timed expired : Bool)
  | acquireWrite (t : Nat) (timed expired : Bool)
  /-- The timeout of a `wait` ends it. -/
  | timeOut (t : Nat)
  /-- A thread that is awake has the lock of the condition again. -/
  | resume (t : Nat) (expired : Bool)
  | releaseRead (t : Nat)
  | releaseWrite (t : Nat)
  deriving DecidableEq, Repr

namespace LockRun

def init (n : Nat) : LockRun := ⟨⟨0, 0, false⟩, List.replicate n ⟨0, false, none⟩⟩

/-- `notify_all`. -/
def notifyAll (s : LockRun) : LockRun :=
  { s with threads := s.threads.map fun th => { th with sleep := th.sleep.map Sleeper.wake } }

/-- The loop of `acquire_read`, from its condition to the next `wait` or the end of the call. -/
def loopRead (s : LockRun) (t : Nat) (th : LockThread) (timed expired : Bool) : LockRun :=
  if s.lock.blocked .read then
    if timed && expired then { s with threads := s.threads.set t { th with sleep := none } }
    else { s with threads := s.threads.set t { th with sleep := some (.new .read timed) } }
  else
    { lock := { s.lock with readers := s.lock.readers + 1 }
      threads := s.threads.set t { th with reads := th.reads + 1, sleep := none } }

/-- The loop of `acquire_write`, and its `finally` if the call ends. -/
def loopWrite (s : LockRun) (t : Nat) (th : LockThread) (timed expired : Bool) : LockRun :=
  if s.lock.blocked .write then
    if timed && expired then
      { lock := { s.lock with writersWaiting := s.lock.writersWaiting - 1 }
        threads := s.threads.set t { th with sleep := none } }
    else { s with threads := s.threads.set t { th with sleep := some (.new .write timed) } }
  else
    { lock := { s.lock with writersWaiting := s.lock.writersWaiting - 1, writerActive := true }
      threads := s.threads.set t { th with writing := true, sleep := none } }

/-- `release_read` of a thread that holds the lock for reading. -/
def releaseRead (s : LockRun) (t : Nat) (th : LockThread) : LockRun :=
  let s : LockRun :=
    { lock := { s.lock with readers := s.lock.readers - 1 }
      threads := s.threads.set t { th with reads := th.reads - 1 } }
  if s.lock.readers = 0 then s.notifyAll else s

/-- `release_write` of a thread that holds the lock for writing. -/
def releaseWrite (s : LockRun) (t : Nat) (th : LockThread) : LockRun :=
  notifyAll
    { lock := { s.lock with writerActive := false }
      threads := s.threads.set t { th with writing := false } }

/-- What a thread does.  A thread that sleeps makes no call, and releases are of what is held. -/
def stepOf (s : LockRun) (th : LockThread) : LockEvent → LockRun
  | .acquireRead t timed expired =>
    if th.sleep.isSome then s else s.loopRead t th timed expired
  | .acquireWrite t timed expired =>
    if th.sleep.isSome then s
    else loopWrite { s with lock := { s.lock with writersWaiting := s.lock.writersWaiting + 1 } }
      t th timed expired
  | .timeOut t =>
    match th.sleep with
    | some ⟨side, true, _⟩ =>
      { s with threads := s.threads.set t { th with sleep := some ⟨side, true, true⟩ } }
    | _ => s
  | .resume t expired =>
    match th.sleep with
    | some ⟨.read, timed, true⟩ => s.loopRead t th timed expired
    | some ⟨.write, timed, true⟩ => s.loopWrite t th timed expired
    | _ => s
  | .releaseRead t => if th.sleep.isSome ∨ th.reads = 0 then s else s.releaseRead t th
  | .releaseWrite t => if th.sleep.isSome ∨ th.writing = false then s else s.releaseWrite t th

end LockRun

/-- The thread of an event. -/
def LockEvent.thread : LockEvent → Nat
  | .acquireRead t _ _ => t
  | .acquireWrite t _ _ => t
  | .timeOut t => t
  | .resume t _ => t
  | .releaseRead t => t
  | .releaseWrite t => t

namespace LockRun

def step (s : LockRun) (e : LockEvent) : LockRun :=
  match s.threads[e.thread]? with
  | some th => s.stepOf th e
  | none => s

/-! ## What is to hold -/

/-- The counters are not negative, and a writer is alone. -/
structure Safe (s : LockRun) : Prop where
  readers_nonneg : 0 ≤ s.lock.readers
  writersWaiting_nonneg : 0 ≤ s.lock.writersWaiting
  apart : s.lock.writerActive = true → s.lock.readers = 0
  oneWriter : s.threads.countP LockThread.writing ≤ 1
  alone : ∀ th ∈ s.threads, th.writing = true → ∀ th' ∈ s.threads, th'.reads = 0

/-- Nobody sleeps, without a notification, whose condition is met. -/
def NobodyForgotten (s : LockRun) : Prop :=
  NoMissedWakeUp (fun side => s.lock.blocked side = true) (s.threads.map LockThread.sleep)

/-- A writer that gives up leaves another writer behind, or no reader that sleeps. -/
def Replaced (s : LockRun) : LockEvent → Prop
  | .resume t expired => ∀ th, s.threads[t]? = some th →
    th.sleep = some ⟨.write, true, true⟩ → expired = true → s.lock.blocked .write = true →
      s.lock.writerActive = true ∨ 1 < s.lock.writersWaiting ∨
        ∀ th' ∈ s.threads, ∀ timed, th'.sleep ≠ some ⟨.read, timed, false⟩
  | _ => True

/-! ## The counters -/

end LockRun

/-- A thread in the `wait` of `acquire_write`. -/
def LockThread.awaitsWrite (th : LockThread) : Bool :=
  th.sleep.any fun w => w.waitsFor == .write

theorem LockThread.awaitsWrite_of_awake {th : LockThread} (h : ¬th.sleep.isSome = true) :
    th.awaitsWrite = false := by
  unfold awaitsWrite
  rw [Option.not_isSome_iff_eq_none.mp h]
  rfl

theorem LockThread.awaitsWrite_of_asleep {th : LockThread} {side : LockSide} {timed woken : Bool}
    (h : th.sleep = some ⟨side, timed, woken⟩) : th.awaitsWrite = (side == .write) := by
  unfold awaitsWrite
  rw [h]
  rfl

/-- The counters are those of the threads, and a writer is alone. -/
structure LockRun.Sound (s : LockRun) : Prop where
  readers : s.lock.readers = (s.threads.map LockThread.reads).sum
  writersWaiting : s.lock.writersWaiting = s.threads.countP LockThread.awaitsWrite
  writer : s.threads.countP LockThread.writing = s.lock.writerActive.toNat
  apart : s.lock.writerActive = true → s.lock.readers = 0

namespace LockRun

theorem sound_init (n : Nat) : (init n).Sound := by
  constructor
  · simp [init]
  · simp [init, List.countP_replicate, LockThread.awaitsWrite]
  · simp [init, List.countP_replicate]
  · intro h
    cases h

variable {s : LockRun}

theorem Sound.safe (h : s.Sound) : s.Safe where
  readers_nonneg := h.readers ▸ Int.natCast_nonneg _
  writersWaiting_nonneg := h.writersWaiting ▸ Int.natCast_nonneg _
  apart := h.apart
  oneWriter := by
    rw [h.writer]
    exact Bool.toNat_le _
  alone := by
    intro th hth hwriting th' hth'
    have hone : 0 < s.threads.countP LockThread.writing :=
      List.countP_pos_iff.mpr ⟨th, hth, hwriting⟩
    have hactive : s.lock.writerActive = true := by
      by_contra hno
      rw [h.writer, Bool.eq_false_of_not_eq_true hno] at hone
      exact absurd hone (lt_irrefl 0)
    have hreaders := h.readers.symm.trans (h.apart hactive)
    have hle := List.single_le_sum (fun _ _ => Nat.zero_le _) _
      (List.mem_map_of_mem (f := LockThread.reads) hth')
    omega

variable {t : Nat} {th : LockThread}

/-- **One thread goes on**, and the counters with it. -/
theorem Sound.set (h : s.Sound) (hth : s.threads[t]? = some th) {lock : RWLockWithTimeout}
    {th' : LockThread} (hreaders : lock.readers + th.reads = s.lock.readers + th'.reads)
    (hwaiting : lock.writersWaiting + th.awaitsWrite.toNat =
      s.lock.writersWaiting + th'.awaitsWrite.toNat)
    (hwriter : lock.writerActive.toNat + th.writing.toNat =
      s.lock.writerActive.toNat + th'.writing.toNat)
    (hapart : lock.writerActive = true → lock.readers = 0) : Sound ⟨lock, s.threads.set t th'⟩ := by
  obtain ⟨others, hthreads, hset⟩ := perm_set hth
  have hafter := hset th'
  have h1 := h.readers
  have h2 := h.writersWaiting
  have h3 := h.writer
  have hone : ∀ b : Bool, (if b = true then 1 else 0) = b.toNat := by decide
  rw [(hthreads.map _).sum_eq, List.map_cons, List.sum_cons] at h1
  rw [hthreads.countP_eq, List.countP_cons, hone] at h2 h3
  constructor
  case readers =>
    rw [(hafter.map _).sum_eq, List.map_cons, List.sum_cons]
    show lock.readers = _
    omega
  case writersWaiting =>
    rw [hafter.countP_eq, List.countP_cons, hone]
    show lock.writersWaiting = _
    omega
  case writer =>
    rw [hafter.countP_eq, List.countP_cons, hone]
    show _ = lock.writerActive.toNat
    omega
  case apart => exact hapart

theorem Sound.notifyAll (h : s.Sound) : s.notifyAll.Sound := by
  obtain ⟨h1, h2, h3, h4⟩ := h
  have hawaits : ∀ th : LockThread,
      LockThread.awaitsWrite { th with sleep := th.sleep.map Sleeper.wake } = th.awaitsWrite := by
    rintro ⟨reads, writing, _ | w⟩ <;> rfl
  unfold LockRun.notifyAll
  constructor
  · rw [List.map_map]
    exact h1
  · rw [List.countP_map]
    simp only [Function.comp_def, hawaits]
    exact h2
  · rw [List.countP_map]
    exact h3
  · exact h4

/-- A round of the loop of `acquire_read` keeps the counters. -/
theorem Sound.loopRead (h : s.Sound) (hth : s.threads[t]? = some th)
    (hawaits : th.awaitsWrite = false) (timed expired : Bool) :
    (s.loopRead t th timed expired).Sound := by
  unfold LockRun.loopRead
  split
  · split
    · exact h.set hth rfl (by rw [hawaits]; rfl) rfl h.apart
    · exact h.set hth rfl (by rw [hawaits]; rfl) rfl h.apart
  · rename_i hfree
    rw [Bool.not_eq_true] at hfree
    obtain ⟨hactive, -⟩ := Bool.or_eq_false_iff.mp hfree
    refine h.set hth ?_ (by rw [hawaits]; rfl) rfl ?_
    · show s.lock.readers + 1 + th.reads = s.lock.readers + (th.reads + 1 : Nat)
      omega
    · intro hwriter
      exact absurd (hwriter.symm.trans hactive) (by decide)

/-- A round of the loop of `acquire_write`, which has counted its thread before the first. -/
theorem Sound.loopWrite (h : s.Sound) (hth : s.threads[t]? = some th) {n : Int}
    (hn : n + th.awaitsWrite.toNat = s.lock.writersWaiting + 1) (timed expired : Bool) :
    (LockRun.loopWrite { s with lock := { s.lock with writersWaiting := n } } t th timed
      expired).Sound := by
  unfold LockRun.loopWrite
  split
  · split
    · refine h.set hth rfl ?_ rfl h.apart
      show n - 1 + th.awaitsWrite.toNat = s.lock.writersWaiting + 0
      omega
    · exact h.set hth rfl hn rfl h.apart
  · rename_i hfree
    rw [Bool.not_eq_true] at hfree
    obtain ⟨hreaders, hactive⟩ := Bool.or_eq_false_iff.mp hfree
    have hnone : ¬0 < s.lock.readers := of_decide_eq_false hreaders
    have hnonneg := h.safe.readers_nonneg
    have hidle : th.writing = false := by
      have hcount := h.writer
      rw [show s.lock.writerActive = false from hactive] at hcount
      exact Bool.eq_false_of_not_eq_true
        (List.countP_eq_zero.mp hcount th (List.mem_of_getElem? hth))
    refine h.set hth rfl ?_ ?_ fun _ => ?_
    · show n - 1 + th.awaitsWrite.toNat = s.lock.writersWaiting + 0
      omega
    · rw [show s.lock.writerActive = false from hactive, hidle]
      rfl
    · show s.lock.readers = 0
      omega

theorem Sound.releaseRead (h : s.Sound) (hth : s.threads[t]? = some th) (hholds : th.reads ≠ 0) :
    (s.releaseRead t th).Sound := by
  have hle := List.single_le_sum (fun _ _ => Nat.zero_le _) _
    (List.mem_map_of_mem (f := LockThread.reads) (List.mem_of_getElem? hth))
  have hreaders := h.readers
  have hset : Sound ⟨{ s.lock with readers := s.lock.readers - 1 },
      s.threads.set t { th with reads := th.reads - 1 }⟩ := by
    refine h.set hth ?_ rfl rfl fun hactive => ?_
    · show s.lock.readers - 1 + th.reads = s.lock.readers + (th.reads - 1 : Nat)
      omega
    · have hnone := h.apart hactive
      omega
  unfold LockRun.releaseRead
  dsimp only
  split
  · exact hset.notifyAll
  · exact hset

theorem Sound.releaseWrite (h : s.Sound) (hth : s.threads[t]? = some th)
    (hholds : th.writing = true) : (s.releaseWrite t th).Sound := by
  have hcount : 0 < s.threads.countP LockThread.writing :=
    List.countP_pos_iff.mpr ⟨th, List.mem_of_getElem? hth, hholds⟩
  rw [h.writer] at hcount
  have hactive : s.lock.writerActive = true := by
    by_contra hno
    rw [Bool.eq_false_of_not_eq_true hno] at hcount
    exact absurd hcount (lt_irrefl 0)
  refine Sound.notifyAll (h.set hth rfl rfl ?_ fun hwriter => nomatch hwriter)
  rw [hactive, hholds]
  rfl

/-- **Step lemma for the counters.** -/
theorem sound_step (s : LockRun) (e : LockEvent) (h : s.Sound) : (s.step e).Sound := by
  unfold step
  split
  · rename_i th hth
    cases e with
    | acquireRead t timed expired =>
      show Sound (if th.sleep.isSome then s else s.loopRead t th timed expired)
      split
      · exact h
      · rename_i hawake
        exact h.loopRead hth (th.awaitsWrite_of_awake hawake) timed expired
    | acquireWrite t timed expired =>
      show Sound (if th.sleep.isSome then s
        else LockRun.loopWrite { s with
          lock := { s.lock with writersWaiting := s.lock.writersWaiting + 1 } } t th timed expired)
      split
      · exact h
      · rename_i hawake
        refine h.loopWrite hth ?_ timed expired
        rw [th.awaitsWrite_of_awake hawake]
        exact add_zero _
    | timeOut t =>
      unfold stepOf
      dsimp only
      split
      · rename_i side woken hsleep
        refine h.set hth rfl ?_ rfl h.apart
        rw [th.awaitsWrite_of_asleep hsleep]
        rfl
      · exact h
    | resume t expired =>
      unfold stepOf
      dsimp only
      split
      · rename_i timed hsleep
        exact h.loopRead hth (th.awaitsWrite_of_asleep hsleep) timed expired
      · rename_i timed hsleep
        refine h.loopWrite hth ?_ timed expired
        rw [th.awaitsWrite_of_asleep hsleep]
        rfl
      · exact h
    | releaseRead t =>
      show Sound (if th.sleep.isSome ∨ th.reads = 0 then s else s.releaseRead t th)
      split
      · exact h
      · rename_i hholds
        exact h.releaseRead hth (not_or.mp hholds).2
    | releaseWrite t =>
      show Sound (if th.sleep.isSome ∨ th.writing = false then s else s.releaseWrite t th)
      split
      · exact h
      · rename_i hholds
        exact h.releaseWrite hth (Bool.eq_true_of_not_eq_false (not_or.mp hholds).2)
  · exact h

/-! ## Who is forgotten -/

theorem nobodyForgotten_init (n : Nat) : (init n).NobodyForgotten := by
  intro w hw
  obtain ⟨th, hth, hsleep⟩ := List.mem_map.mp hw
  rw [List.eq_of_mem_replicate hth] at hsleep
  cases hsleep

theorem nobodyForgotten_notifyAll (s : LockRun) : s.notifyAll.NobodyForgotten := by
  have hmap : s.notifyAll.threads.map LockThread.sleep =
      Lib.notifyAll (s.threads.map LockThread.sleep) := by
    unfold LockRun.notifyAll Lib.notifyAll
    rw [List.map_map, List.map_map]
    rfl
  unfold NobodyForgotten
  rw [hmap]
  exact noMissedWakeUp_notifyAll _ _

/-- A thread goes on, and nobody who sleeps is unblocked. -/
theorem NobodyForgotten.set (h : s.NobodyForgotten) {lock : RWLockWithTimeout}
    (hkept : ∀ side, s.lock.blocked side = true → lock.blocked side = true)
    (hth : ∀ w, th.sleep = some w → w.woken = false → lock.blocked w.waitsFor = true) :
    NobodyForgotten ⟨lock, s.threads.set t th⟩ := by
  unfold NobodyForgotten
  dsimp only
  rw [List.map_set]
  exact NoMissedWakeUp.set (h.mono fun w _ _ => hkept w.waitsFor) hth

theorem NobodyForgotten.loopRead (h : s.NobodyForgotten) (hs : s.Sound) (t : Nat) (th : LockThread)
    (timed expired : Bool) : (s.loopRead t th timed expired).NobodyForgotten := by
  unfold LockRun.loopRead
  split
  · rename_i hblocked
    split
    · exact h.set (fun _ => id) fun w hw => nomatch hw
    · refine h.set (fun _ => id) fun w hw _ => ?_
      cases hw
      exact hblocked
  · have hnonneg := hs.safe.readers_nonneg
    refine h.set (fun side hside => ?_) fun w hw => nomatch hw
    -- one reader more blocks no fewer
    cases side with
    | read => exact hside
    | write =>
      simp only [RWLockWithTimeout.blocked, Bool.or_eq_true, decide_eq_true_eq]
      exact .inl (by omega)

/-- A writer that does not give up blocks whoever was blocked. -/
theorem NobodyForgotten.loopWrite (h : s.NobodyForgotten) {n : Int}
    (hn : s.lock.writersWaiting ≤ n) (t : Nat) (th : LockThread) {timed expired : Bool}
    (hstays : s.lock.blocked .write = true → (timed && expired) = false) :
    (LockRun.loopWrite { s with lock := { s.lock with writersWaiting := n } } t th timed
      expired).NobodyForgotten := by
  unfold LockRun.loopWrite
  split
  · rename_i hblocked
    rw [hstays hblocked]
    refine h.set (fun side hside => ?_) fun w hw _ => ?_
    · cases side with
      | read =>
        simp only [RWLockWithTimeout.blocked, Bool.or_eq_true, decide_eq_true_eq] at hside ⊢
        exact hside.imp_right fun hwaiting => lt_of_lt_of_le hwaiting hn
      | write => exact hside
    · cases hw
      exact hblocked
  · refine h.set (fun side _ => ?_) fun w hw => nomatch hw
    cases side with
    | read => exact Bool.true_or (decide (0 < n - 1))
    | write => exact Bool.or_true _

/-- A writer that gives up unblocks the readers, unless a writer is active or another one waits. -/
theorem NobodyForgotten.giveUp_iff (h : s.NobodyForgotten) {w : Sleeper LockSide}
    (hth : s.threads[t]? = some th) (hsleep : th.sleep = some w) (hside : w.waitsFor = .write) :
    NobodyForgotten ⟨{ s.lock with writersWaiting := s.lock.writersWaiting - 1 },
        s.threads.set t { th with sleep := none }⟩ ↔
      s.lock.writerActive = true ∨ 1 < s.lock.writersWaiting ∨
        ∀ th' ∈ s.threads, ∀ timed, th'.sleep ≠ some ⟨.read, timed, false⟩ := by
  have hblocked : RWLockWithTimeout.blocked
      { s.lock with writersWaiting := s.lock.writersWaiting - 1 } .read = true ↔
        s.lock.writerActive = true ∨ 1 < s.lock.writersWaiting := by
    simp [RWLockWithTimeout.blocked]
  constructor
  · intro hnobody
    rw [← or_assoc]
    by_contra hno
    rw [not_or] at hno
    refine hno.2 fun th' hth' timed hreader => ?_
    -- the reader is another thread, and sleeps on
    have hmem : some ⟨.read, timed, false⟩ ∈
        (s.threads.set t { th with sleep := none }).map LockThread.sleep := by
      obtain ⟨j, hj⟩ := List.getElem?_of_mem hth'
      have hne : t ≠ j := by
        rintro rfl
        rw [hth] at hj
        cases hj
        rw [hsleep] at hreader
        cases hreader
        cases hside
      refine List.mem_map.mpr ⟨th', List.mem_of_getElem? (i := j) ?_, hreader⟩
      rw [List.getElem?_set_ne hne]
      exact hj
    exact hno.1 (hblocked.mp (hnobody _ hmem rfl))
  · intro hrest
    unfold NobodyForgotten
    dsimp only
    rw [List.map_set]
    refine NoMissedWakeUp.set (h.mono fun w hw hasleep hbefore => ?_) fun w hw => nomatch hw
    obtain ⟨side, timed, woken⟩ := w
    cases side with
    | write => exact hbefore
    | read =>
      rw [hblocked, ← or_assoc] at *
      refine hrest.resolve_right fun hnone => ?_
      obtain ⟨th', hth', hreader⟩ := List.mem_map.mp hw
      cases hasleep
      exact hnone th' hth' timed hreader

/-- What a writer leaves that gives up. -/
theorem loopWrite_giveUp {n : Int} {timed expired : Bool} (hblocked : s.lock.blocked .write = true)
    (hover : (timed && expired) = true) :
    LockRun.loopWrite { s with lock := { s.lock with writersWaiting := n } } t th timed expired =
      ⟨{ s.lock with writersWaiting := n - 1 }, s.threads.set t { th with sleep := none }⟩ :=
  (if_pos hblocked).trans (if_pos hover)

/-- The last reader that goes notifies, and any other one leaves writers blocked. -/
theorem NobodyForgotten.releaseRead (h : s.NobodyForgotten) (hs : s.Sound)
    (hth : s.threads[t]? = some th) (hholds : th.reads ≠ 0) :
    (s.releaseRead t th).NobodyForgotten := by
  have hle := List.single_le_sum (fun _ _ => Nat.zero_le _) _
    (List.mem_map_of_mem (f := LockThread.reads) (List.mem_of_getElem? hth))
  have hreaders := hs.readers
  unfold LockRun.releaseRead
  dsimp only
  split
  · exact nobodyForgotten_notifyAll _
  · rename_i hrest
    refine h.set (fun side hside => ?_) fun w hw hasleep => ?_
    · cases side with
      | read => exact hside
      | write =>
        simp only [RWLockWithTimeout.blocked, Bool.or_eq_true, decide_eq_true_eq]
        exact .inl (by omega)
    · have hmem : some w ∈ s.threads.map LockThread.sleep :=
        List.mem_map.mpr ⟨th, List.mem_of_getElem? hth, hw⟩
      have hbefore := h w hmem hasleep
      cases hside : w.waitsFor with
      | read =>
        rw [hside] at hbefore
        exact hbefore
      | write =>
        simp only [RWLockWithTimeout.blocked, Bool.or_eq_true, decide_eq_true_eq]
        exact .inl (by omega)

/-- **Step lemma for the sleepers.**  Only a writer that gives up can forget somebody. -/
theorem nobodyForgotten_step_iff (s : LockRun) (e : LockEvent) (hs : s.Sound)
    (h : s.NobodyForgotten) : (s.step e).NobodyForgotten ↔ s.Replaced e := by
  unfold step
  split
  · rename_i th hth
    cases e with
    | acquireRead t timed expired =>
      refine iff_of_true ?_ trivial
      show NobodyForgotten (if th.sleep.isSome then s else s.loopRead t th timed expired)
      split
      · exact h
      · exact h.loopRead hs t th timed expired
    | acquireWrite t timed expired =>
      refine iff_of_true ?_ trivial
      show NobodyForgotten (if th.sleep.isSome then s
        else LockRun.loopWrite { s with
          lock := { s.lock with writersWaiting := s.lock.writersWaiting + 1 } } t th timed expired)
      split
      · exact h
      · by_cases hgone : s.lock.blocked .write = true ∧ (timed && expired) = true
        · -- counted and gone in one section
          rw [loopWrite_giveUp hgone.1 hgone.2, Int.add_sub_cancel]
          exact h.set (fun _ => id) fun w hw => nomatch hw
        · refine h.loopWrite (by omega) t th fun hblocked => ?_
          exact Bool.eq_false_of_not_eq_true fun hexpired => hgone ⟨hblocked, hexpired⟩
    | timeOut t =>
      refine iff_of_true ?_ trivial
      unfold stepOf
      dsimp only
      split
      · refine h.set (fun _ => id) fun w hw hasleep => ?_
        cases hw
        cases hasleep
      · exact h
    | resume t expired =>
      change s.threads[t]? = some th at hth
      have hthread : ∀ th', s.threads[t]? = some th' → th' = th := fun th' hth' =>
        Option.some.inj (hth'.symm.trans hth)
      unfold stepOf
      dsimp only
      split
      · rename_i timed hsleep
        refine iff_of_true (h.loopRead hs t th timed expired) fun th' hth' hwrite => ?_
        rw [hthread th' hth', hsleep] at hwrite
        cases hwrite
      · rename_i timed hsleep
        by_cases hgone : s.lock.blocked .write = true ∧ (timed && expired) = true
        · obtain ⟨hblocked, hover⟩ := hgone
          obtain ⟨rfl, rfl⟩ := Bool.and_eq_true_iff.mp hover
          rw [show s.loopWrite t th true true = _ from loopWrite_giveUp hblocked hover,
            h.giveUp_iff hth hsleep rfl]
          constructor
          · exact fun hrest _ _ _ _ _ => hrest
          · exact fun hreplaced => hreplaced th hth hsleep rfl hblocked
        · refine iff_of_true (h.loopWrite le_rfl t th fun hblocked => ?_) ?_
          · exact Bool.eq_false_of_not_eq_true fun hover => hgone ⟨hblocked, hover⟩
          · intro th' hth' hwrite hexpired hblocked
            rw [hthread th' hth', hsleep] at hwrite
            cases hwrite
            exact absurd ⟨hblocked, hexpired⟩ hgone
      · rename_i hwrite
        refine iff_of_true h fun th' hth' hsleep => ?_
        rw [hthread th' hth'] at hsleep
        exact absurd hsleep (hwrite true)
    | releaseRead t =>
      refine iff_of_true ?_ trivial
      show NobodyForgotten (if th.sleep.isSome ∨ th.reads = 0 then s else s.releaseRead t th)
      split
      · exact h
      · rename_i hholds
        exact h.releaseRead hs hth (not_or.mp hholds).2
    | releaseWrite t =>
      refine iff_of_true ?_ trivial
      show NobodyForgotten (if th.sleep.isSome ∨ th.writing = false then s else s.releaseWrite t th)
      split
      · exact h
      · exact nobodyForgotten_notifyAll _
  · rename_i hnone
    refine iff_of_true h ?_
    cases e with
    | resume t expired =>
      intro th hth
      rw [show s.threads[t]? = none from hnone] at hth
      cases hth
    | _ => trivial

/-- **The lock is safe in every run, and nobody is forgotten in exactly those in which a writer that
gives up leaves another writer behind or no reader that sleeps.** -/
theorem safe_and_nobodyForgotten_iff (n : Nat) (events : List LockEvent) :
    Always step Safe (init n) events ∧
      (Always step NobodyForgotten (init n) events ↔ Guarded step Replaced (init n) events) :=
  ⟨(always_of_step sound_step (sound_init n) events).mono fun _ h => h.safe,
    always_iff_guarded_of_inv sound_step nobodyForgotten_step_iff (sound_init n)
      (nobodyForgotten_init n)⟩

/-- **A reader is forgotten.**  While one thread reads, a writer waits, and then another reader
waits for the writer; the writer gives up, and the second reader sleeps on with nothing in its way.
-/
theorem not_nobodyForgotten_giveUp :
    let events := [.acquireRead 0 false false, .acquireWrite 1 true false,
      .acquireRead 2 false false, .timeOut 1, .resume 1 true]
    (run step (init 3) events).lock = ⟨1, 0, false⟩ ∧
      (run step (init 3) events).threads[2]?.map LockThread.sleep =
        some (some ⟨.read, false, false⟩) ∧
      ¬Always step NobodyForgotten (init 3) events := by
  intro events
  refine ⟨by decide, by decide, fun h => ?_⟩
  have hblocked := h.last ⟨.read, false, false⟩ (by decide) rfl
  exact absurd hblocked (by decide)

end LockRun

end LMCache.Controller
