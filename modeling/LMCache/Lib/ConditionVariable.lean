/-
# LMCache.Lib.ConditionVariable — threads that sleep until they are notified.

A thread that finds its condition blocked sleeps in `wait`, under the lock of the condition variable
until it sleeps and again when it is awake.  `notify_all` wakes every sleeper, and a sleeper with a
timeout may wake by itself.  Each change of the shared state has to be followed by a notification if
it can unblock somebody; what has to be shown of a change without one is that whoever is asleep is
still blocked (`NoMissedWakeUp.mono`).
-/
import Mathlib.Data.List.Basic

namespace LMCache.Lib

universe u

/-- A thread in `wait`: what it waits for, whether with a timeout, and whether it has been notified
or its time is up. -/
structure Sleeper (κ : Type u) where
  waitsFor : κ
  timed : Bool
  woken : Bool
  deriving DecidableEq, Repr

variable {κ : Type u}

/-- A thread that has just gone to sleep. -/
def Sleeper.new (waitsFor : κ) (timed : Bool) : Sleeper κ := ⟨waitsFor, timed, false⟩

def Sleeper.wake (s : Sleeper κ) : Sleeper κ := { s with woken := true }

/-- Of the threads, nobody sleeps on whose condition is met. -/
def NoMissedWakeUp (blocked : κ → Prop) (threads : List (Option (Sleeper κ))) : Prop :=
  ∀ s, some s ∈ threads → s.woken = false → blocked s.waitsFor

/-- `notify_all`. -/
def notifyAll (threads : List (Option (Sleeper κ))) : List (Option (Sleeper κ)) :=
  threads.map (Option.map Sleeper.wake)

variable {blocked blocked' : κ → Prop} {threads : List (Option (Sleeper κ))}

/-- A notification is never missed. -/
theorem noMissedWakeUp_notifyAll (blocked : κ → Prop) (threads : List (Option (Sleeper κ))) :
    NoMissedWakeUp blocked (notifyAll threads) := by
  intro s hs hasleep
  obtain ⟨w, -, hw⟩ := List.mem_map.mp hs
  obtain ⟨s', -, rfl⟩ := Option.map_eq_some_iff.mp hw
  cases hasleep

/-- A change that unblocks nobody needs no notification. -/
theorem NoMissedWakeUp.mono (h : NoMissedWakeUp blocked threads)
    (himp : ∀ s, some s ∈ threads → s.woken = false → blocked s.waitsFor → blocked' s.waitsFor) :
    NoMissedWakeUp blocked' threads :=
  fun s hs hasleep => himp s hs hasleep (h s hs hasleep)

/-- A thread goes to sleep where it is blocked, or wakes up. -/
theorem NoMissedWakeUp.set (h : NoMissedWakeUp blocked threads) {i : Nat} {w : Option (Sleeper κ)}
    (hw : ∀ s, w = some s → s.woken = false → blocked s.waitsFor) :
    NoMissedWakeUp blocked (threads.set i w) := by
  intro s hs hasleep
  rcases List.mem_or_eq_of_mem_set hs with hs | hs
  · exact h s hs hasleep
  · exact hw s hs.symm hasleep

end LMCache.Lib
