/-
# LMCache.PeriodicThread — a thread that executes a task time and again.

Source: `PeriodicThread` in `periodic_thread.py`, and `start_monitoring` and `stop_monitoring` of
`PinMonitor`.

`stop` does not wait for the thread longer than its timeout, and `start` clears the event that was to
end it: a thread that was in its task meanwhile goes on beside the new one.  A thread that ends by an
exception leaves `_running` set.
-/
import LMCache.Lib.Run

namespace LMCache

open LMCache.Lib

/-- Where a thread stands in `_run_loop`; a wait may have been notified. -/
inductive LoopPc where
  | initWait (notified : Bool)
  | check
  | executing
  | waiting (notified : Bool)
  | ended
  deriving DecidableEq, Repr

/-- How `_execute` ends. -/
inductive Cycle where
  | returned
  | raised
  | irrecoverable
  deriving DecidableEq, Repr

namespace LoopPc

/-- `_run_loop` up to its next stop.  A wait that is not notified ends by its timeout. -/
def turn (stopEvent : Bool) (c : Cycle) : LoopPc → LoopPc
  | initWait notified => if notified then ended else check
  | check => if stopEvent then ended else executing
  | executing => if c = .irrecoverable then ended else waiting stopEvent
  | waiting notified => if notified then ended else check
  | ended => ended

/-- What `_stop_event.set()` does to a wait. -/
def notify : LoopPc → LoopPc
  | initWait _ => initWait true
  | waiting _ => waiting true
  | pc => pc

/-- The most turns to the end, if the event is set. -/
def left : LoopPc → Nat
  | ended => 0
  | check | initWait true | waiting true => 1
  | _ => 2

theorem left_le (pc : LoopPc) : pc.left ≤ 2 := by
  unfold left
  split <;> decide

theorem left_turn (c : Cycle) (pc : LoopPc) : (pc.turn true c).left ≤ pc.left - 1 := by
  cases pc with
  | initWait notified => cases notified <;> exact Nat.le_refl _
  | check => exact Nat.le_refl _
  | executing => cases c <;> decide
  | waiting notified => cases notified <;> exact Nat.le_refl _
  | ended => exact Nat.le_refl _

theorem eq_ended_of_left {pc : LoopPc} (h : pc.left = 0) : pc = ended := by
  unfold left at h
  split at h <;> first | rfl | cases h

end LoopPc

/-- A `PeriodicThread`, but for its counts and the last summary. -/
structure PeriodicThread where
  /-- `_init_wait` is above 0. -/
  initWait : Bool
  running : Bool := false
  stopEvent : Bool := false
  /-- The threads started so far, of which `_thread` is the last. -/
  threads : List LoopPc := []

/-- In a turn, `_execute` ends as `c` says if the thread is in it. -/
inductive ThreadEvent where
  | start
  | stop
  | startMonitoring
  | stopMonitoring
  | turn (i : Nat) (c : Cycle)
  deriving DecidableEq, Repr

/-- The thread `i` takes a turn. -/
def ThreadEvent.isTurn (i : Nat) : ThreadEvent → Bool
  | turn j _ => j = i
  | _ => false

namespace PeriodicThread

variable (t : PeriodicThread)

/-- `is_running` -/
def isRunning : Bool := t.running && t.threads.getLast?.any (· ≠ .ended)

def start : PeriodicThread :=
  if t.running then t
  else
    { t with
      running := true
      stopEvent := false
      threads := t.threads ++ [if t.initWait then .initWait false else .check] }

def stop : PeriodicThread :=
  if t.running then
    { t with running := false, stopEvent := true, threads := t.threads.map LoopPc.notify }
  else t

def step : ThreadEvent → PeriodicThread
  | .start => t.start
  | .stop => t.stop
  | .startMonitoring => if t.isRunning then t else t.start
  | .stopMonitoring => if t.isRunning then t.stop else t
  | .turn i c => { t with threads := t.threads.modify i (LoopPc.turn t.stopEvent c) }

variable {t}

/-! ## A thread that is stopped -/

/-- What `stop` leaves. -/
structure Stopped (t : PeriodicThread) : Prop where
  running : t.running = false
  event : t.stopEvent = true

theorem Stopped.step (h : t.Stopped) {e : ThreadEvent} (hstart : e ≠ .start)
    (hmonitoring : e ≠ .startMonitoring) {i : Nat} {pc : LoopPc} (hpc : t.threads[i]? = some pc) :
    (t.step e).Stopped ∧ ∃ pc', (t.step e).threads[i]? = some pc' ∧
      pc'.left ≤ pc.left - if e.isTurn i then 1 else 0 := by
  have hstop : t.stop = t := if_neg (by simp [h.running])
  cases e with
  | start => exact absurd rfl hstart
  | startMonitoring => exact absurd rfl hmonitoring
  | stop =>
    rw [show t.step .stop = t from hstop]
    exact ⟨h, pc, hpc, Nat.le_refl _⟩
  | stopMonitoring =>
    rw [show t.step .stopMonitoring = t from if_neg (by simp [isRunning, h.running])]
    exact ⟨h, pc, hpc, Nat.le_refl _⟩
  | turn j c =>
    refine ⟨⟨h.running, h.event⟩, ?_⟩
    unfold PeriodicThread.step ThreadEvent.isTurn
    dsimp only
    rw [List.getElem?_modify, hpc, h.event]
    by_cases hj : j = i
    · exact ⟨pc.turn true c, by simp [hj], by simpa [hj] using pc.left_turn c⟩
    · exact ⟨pc, by simp [hj], by simp [hj]⟩

/-- **Every thread that is told to stop ends within two of its turns**, unless there is a new start. -/
theorem stop_ends (hrunning : t.running = true) {i : Nat} (hi : i < t.threads.length)
    {es : List ThreadEvent} (hstart : .start ∉ es) (hmonitoring : .startMonitoring ∉ es)
    (hturns : 2 ≤ es.countP (ThreadEvent.isTurn i)) :
    (run step (t.step .stop) es).threads[i]? = some .ended := by
  have hrun : ∀ {t : PeriodicThread} {pc : LoopPc}, t.Stopped → t.threads[i]? = some pc →
      pc.left ≤ es.countP (ThreadEvent.isTurn i) →
      (run step t es).threads[i]? = some .ended := by
    clear hturns
    induction es with
    | nil =>
      intro t pc _ hpc hleft
      rw [run_nil, hpc, LoopPc.eq_ended_of_left (Nat.le_zero.mp hleft)]
    | cons e es ih =>
      intro t pc h hpc hleft
      rw [List.mem_cons, not_or] at hstart hmonitoring
      obtain ⟨h', pc', hpc', hle⟩ := h.step (Ne.symm hstart.1) (Ne.symm hmonitoring.1) hpc
      rw [List.countP_cons] at hleft
      exact ih hstart.2 hmonitoring.2 h' hpc' (by omega)
  have hstop : t.step .stop =
      ⟨t.initWait, false, true, t.threads.map LoopPc.notify⟩ := if_pos hrunning
  rw [hstop]
  have hpc : (t.threads.map LoopPc.notify)[i]? = some t.threads[i].notify := by simp [hi]
  exact hrun ⟨rfl, rfl⟩ hpc (Nat.le_trans (LoopPc.left_le _) hturns)

/-- A thread that is in its task. -/
theorem stop_ends_inTask :
    (run step (step ⟨false, true, false, [.executing]⟩ .stop)
      [.turn 0 .raised, .stopMonitoring, .turn 0 .raised]).threads[0]? = some .ended :=
  stop_ends rfl Nat.one_pos (by decide) (by decide) (by decide)

/-- With a new start in between it goes on. -/
example : (run step ⟨false, true, false, [.executing]⟩
    [.stop, .start, .turn 0 .raised, .turn 0 .raised]).threads = [.check, .check] := by decide

/-! ## A thread that has ended by itself -/

theorem last_turn {pc : LoopPc} (hlast : t.threads.getLast? = some pc) (i : Nat) (c : Cycle) :
    (t.step (.turn i c)).threads.getLast? =
      some (if i = t.threads.length - 1 then pc.turn t.stopEvent c else pc) := by
  unfold step
  rw [List.getLast?_eq_getElem?] at hlast ⊢
  rw [List.length_modify, List.getElem?_modify, hlast]
  rfl

/-- The thread has ended, and counts as running. -/
structure Down (t : PeriodicThread) : Prop where
  running : t.running = true
  last : t.threads.getLast? = some .ended

theorem Down.isRunning (h : t.Down) : t.isRunning = false := by
  unfold PeriodicThread.isRunning
  rw [h.last]
  exact Bool.and_false _

theorem Down.step (h : t.Down) {e : ThreadEvent} (he : e ≠ .stop) :
    (t.step e).Down ∧ (t.step e).threads.length = t.threads.length := by
  have hstart : t.start = t := if_pos h.running
  cases e with
  | start =>
    show t.start.Down ∧ t.start.threads.length = _
    rw [hstart]
    exact ⟨h, rfl⟩
  | stop => exact absurd rfl he
  | startMonitoring =>
    unfold PeriodicThread.step
    rw [h.isRunning, if_neg Bool.false_ne_true, hstart]
    exact ⟨h, rfl⟩
  | stopMonitoring =>
    unfold PeriodicThread.step
    rw [h.isRunning, if_neg Bool.false_ne_true]
    exact ⟨h, rfl⟩
  | turn i c =>
    refine ⟨⟨h.running, (last_turn h.last i c).trans ?_⟩, List.length_modify ..⟩
    split <;> rfl

/-- **A monitor whose thread has ended by an exception is down for good**, unless `stop` itself is
called: neither of its own two calls starts another thread. -/
theorem down_for_good (hrunning : t.running = true) (hlast : t.threads.getLast? = some .executing)
    {es : List ThreadEvent} (hstop : .stop ∉ es) :
    Always step (fun t' => t'.isRunning = false ∧ t'.threads.length = t.threads.length)
      (t.step (.turn (t.threads.length - 1) .irrecoverable)) es := by
  have hdown : (t.step (.turn (t.threads.length - 1) .irrecoverable)).Down :=
    ⟨hrunning, (last_turn hlast _ _).trans (congrArg some (if_pos rfl))⟩
  refine (always_of_guarded
    (P := fun t' => t'.Down ∧ t'.threads.length = t.threads.length) (fun t' e h he => ?_)
    ⟨hdown, List.length_modify ..⟩
    (guarded_of_forall (p := (· ≠ .stop)) fun (e : ThreadEvent) he heq => hstop (heq ▸ he))).mono
      fun t' h => ⟨h.1.isRunning, h.2⟩
  obtain ⟨hnext, hlength⟩ := h.1.step he
  exact ⟨hnext, hlength.trans h.2⟩

/-- Stopped and started again as a monitor. -/
theorem down_for_good_restart :
    Always step (fun t' => t'.isRunning = false ∧ t'.threads.length = 1)
      (step ⟨false, true, false, [.executing]⟩ (.turn 0 .irrecoverable))
      [.stopMonitoring, .startMonitoring] :=
  down_for_good (t := ⟨false, true, false, [.executing]⟩) rfl rfl (by decide)

end PeriodicThread

end LMCache
