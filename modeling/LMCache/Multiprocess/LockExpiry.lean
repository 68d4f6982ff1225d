/-
# LMCache.Multiprocess.LockExpiry — counted locks that expire.

Source: `LockManager` of `v1/multiprocess/mp_storage_manager.py`.

What the manager is for is said by the tenure of a key: it begins with a lock, counts the locks and
the unlocks since, and ends when the last of its locks has been given back or when the time to live
of its latest lock has passed.  A lock that comes after the end begins a tenure of its own.

The manager looks at the clock in `is_locked` alone.  A lock that has expired stays where it is
until somebody asks for it, and a new lock is counted on top of it; the unlock that goes with the
new lock then leaves the key locked.  The manager keeps to the tenures exactly when no lock is taken
of a key whose entry has expired.

The calls come with the time that has passed since the one before, so that times do not decrease.
-/
import LMCache.Multiprocess.MPStorageManager
import Mathlib.Data.NNRat.Defs

namespace LMCache.Multiprocess

open LMCache.Lib

/-! ## Tenures -/

/-- The locks and unlocks of a key since its lock last expired or was fully released. -/
structure Tenure where
  locks : Nat
  unlocks : Nat
  /-- When the latest lock was taken. -/
  latest : Rat
  deriving DecidableEq, Repr

namespace Tenure

/-- More locks than unlocks, and the latest lock has not outlived its time. -/
def Locked (u : Tenure) (t : Rat) : Prop := u.unlocks < u.locks ∧ t ≤ u.latest + LockManager.DEFAULT_TTL

instance (u : Tenure) (t : Rat) : Decidable (u.Locked t) := inferInstanceAs (Decidable (_ ∧ _))

def init : Tenure := ⟨0, 0, 0⟩

def lock (u : Tenure) (t : Rat) : Tenure :=
  if u.Locked t then { u with locks := u.locks + 1, latest := t } else ⟨1, 0, t⟩

def unlock (u : Tenure) (t : Rat) : Tenure :=
  if u.Locked t then { u with unlocks := u.unlocks + 1 } else u

/-- A tenure does not begin again by itself. -/
theorem Locked.mono {u : Tenure} {t t' : Rat} (h : u.Locked t') (ht : t ≤ t') : u.Locked t :=
  ⟨h.1, ht.trans h.2⟩

end Tenure

/-! ## Calls -/

inductive LockCall (κ : Type) where
  | lock (key : κ)
  | unlock (key : κ)
  | isLocked (key : κ)
  deriving DecidableEq, Repr

/-- A call, and the time since the call before it. -/
structure LockEvent (κ : Type) where
  elapsed : NNRat
  call : LockCall κ

/-- The manager at a time, and for the statement only, the tenures of the keys. -/
structure LockRun (κ : Type) where
  now : Rat
  manager : LockManager κ
  tenures : κ → Tenure

namespace LockRun

variable {κ : Type} [DecidableEq κ]

def init (startTime : Rat) : LockRun κ := ⟨startTime, .empty, fun _ => .init⟩

/-- What a call does to the manager. -/
def perform (m : LockManager κ) (t : Rat) : LockCall κ → LockManager κ
  | .lock key => m.lock key t
  | .unlock key => m.unlock key
  | .isLocked key => (m.isLocked key t).2

/-- What a call does to the tenures. -/
def record (tenures : κ → Tenure) (t : Rat) : LockCall κ → κ → Tenure
  | .lock key => Function.update tenures key ((tenures key).lock t)
  | .unlock key => Function.update tenures key ((tenures key).unlock t)
  | .isLocked _ => tenures

def step (s : LockRun κ) (e : LockEvent κ) : LockRun κ :=
  ⟨s.now + e.elapsed, perform s.manager (s.now + e.elapsed) e.call,
    record s.tenures (s.now + e.elapsed) e.call⟩

/-- The manager keeps to the tenures: now and later `is_locked` says what they say, and the count of
a lock that has not expired is that of the tenure alone. -/
structure KeepsTenures (s : LockRun κ) : Prop where
  answers : ∀ key t, s.now ≤ t →
    ((s.manager.isLocked key t).1 = true ↔ (s.tenures key).Locked t)
  counts : ∀ key lockMeta, s.manager.locks.get? key = some lockMeta → s.now ≤ lockMeta.expireTime →
    lockMeta.count = (s.tenures key).locks - (s.tenures key).unlocks

/-- A lock is taken of a key that has no entry, or one that has not expired. -/
def MeetsNoExpired (s : LockRun κ) (e : LockEvent κ) : Prop :=
  match e.call with
  | .lock key => ∀ lockMeta ∈ s.manager.locks.get? key, s.now + e.elapsed ≤ lockMeta.expireTime
  | _ => True

/-! ## What a step does to the entry of a key -/

/-- The entry of a key says what its tenure says; one that has expired says nothing. -/
def Entry (u : Tenure) (now : Rat) : Option LockMetadata → Prop
  | none => ¬u.Locked now
  | some lockMeta => 0 < lockMeta.count ∧
      if now ≤ lockMeta.expireTime then
        lockMeta.count = (u.locks : Int) - u.unlocks ∧
          lockMeta.expireTime = u.latest + LockManager.DEFAULT_TTL
      else ¬u.Locked now

variable {u : Tenure} {entry : Option LockMetadata} {t : Rat}

theorem Entry.locked_iff {now : Rat} {lockMeta : LockMetadata} (h : Entry u now (some lockMeta)) :
    u.Locked now ↔ now ≤ lockMeta.expireTime := by
  obtain ⟨hpos, h⟩ := h
  by_cases hlive : now ≤ lockMeta.expireTime
  · rw [if_pos hlive] at h
    refine iff_of_true ⟨?_, h.2 ▸ hlive⟩ hlive
    omega
  · rw [if_neg hlive] at h
    exact iff_of_false h hlive

/-- Time passes. -/
theorem Entry.later {now : Rat} (h : Entry u now entry) (ht : now ≤ t) : Entry u t entry := by
  cases entry with
  | none => exact fun hlocked => h (hlocked.mono ht)
  | some lockMeta =>
    refine ⟨h.1, ?_⟩
    by_cases hlive : t ≤ lockMeta.expireTime
    · have hcounts := h.2
      rw [if_pos (ht.trans hlive)] at hcounts
      rw [if_pos hlive]
      exact hcounts
    · rw [if_neg hlive]
      intro hlocked
      have hexpire := h.2
      rw [if_pos (h.locked_iff.mp (hlocked.mono ht))] at hexpire
      exact hlive (hexpire.2 ▸ hlocked.2)

/-- What holds at every moment of a run in which no lock meets an expired entry. -/
def Sound (s : LockRun κ) : Prop := ∀ key, Entry (s.tenures key) s.now (s.manager.locks.get? key)

variable (m : LockManager κ)

theorem get?_lock (key k : κ) (t : Rat) :
    (m.lock key t).locks.get? k =
      if k = key then
        some ⟨((m.locks.get? key).elim 0 LockMetadata.count) + 1, t + LockManager.DEFAULT_TTL⟩
      else m.locks.get? k := by
  unfold LockManager.lock
  match m.locks.get? key with
  | some lockMeta => exact Dict.get?_set _ _ _ _
  | none => exact Dict.get?_set _ _ _ _

theorem get?_unlock (key k : κ) :
    (m.unlock key).locks.get? k =
      if k = key then
        (m.locks.get? key).bind fun lockMeta =>
          if lockMeta.count - 1 ≤ 0 then none else some { lockMeta with count := lockMeta.count - 1 }
      else m.locks.get? k := by
  unfold LockManager.unlock
  match hget : m.locks.get? key with
  | some lockMeta =>
    simp only [Option.bind_some]
    split
    · rw [Dict.get?_erase]
    · rw [Dict.get?_set]
  | none =>
    by_cases hkey : k = key
    · rw [if_pos hkey, hkey]
      exact hget
    · rw [if_neg hkey]

theorem get?_isLocked (key k : κ) (t : Rat) :
    (m.isLocked key t).2.locks.get? k =
      if k = key then (m.locks.get? key).filter fun lockMeta => t ≤ lockMeta.expireTime
      else m.locks.get? k := by
  unfold LockManager.isLocked
  match hget : m.locks.get? key with
  | some lockMeta =>
    dsimp only
    by_cases hexpired : lockMeta.expireTime < t
    · rw [if_pos hexpired, Dict.get?_erase]
      simp [Option.filter, not_le.mpr hexpired]
    · rw [if_neg hexpired]
      by_cases hkey : k = key
      · rw [if_pos hkey, hkey, hget]
        simp [Option.filter, not_lt.mp hexpired]
      · rw [if_neg hkey]
  | none =>
    by_cases hkey : k = key
    · rw [if_pos hkey, hkey]
      exact hget
    · rw [if_neg hkey]

theorem isLocked_iff (key : κ) (t : Rat) :
    (m.isLocked key t).1 = true ↔ ∃ lockMeta, m.locks.get? key = some lockMeta ∧
      t ≤ lockMeta.expireTime := by
  unfold LockManager.isLocked
  match m.locks.get? key with
  | some lockMeta =>
    dsimp only
    by_cases hexpired : lockMeta.expireTime < t
    · rw [if_pos hexpired]
      simpa using hexpired
    · rw [if_neg hexpired]
      simpa using not_lt.mp hexpired
  | none => simp

/-! ## When the manager keeps to the tenures -/

/-- A lock of a key that has no entry, or one that has not expired. -/
theorem Entry.lock (h : Entry u t entry) (hlive : ∀ lockMeta ∈ entry, t ≤ lockMeta.expireTime) :
    Entry (u.lock t) t
      (some ⟨(entry.elim 0 LockMetadata.count) + 1, t + LockManager.DEFAULT_TTL⟩) := by
  have hafter : t ≤ t + LockManager.DEFAULT_TTL := by
    unfold LockManager.DEFAULT_TTL
    linarith
  unfold Tenure.lock
  cases entry with
  | none =>
    -- a tenure begins, as the entry does
    rw [if_neg h]
    refine ⟨Int.zero_lt_one, ?_⟩
    rw [if_pos hafter]
    exact ⟨rfl, rfl⟩
  | some lockMeta =>
    have hpos := h.1
    have hcounts := h.2
    rw [if_pos (h.locked_iff.mpr (hlive lockMeta rfl))]
    rw [if_pos (hlive lockMeta rfl)] at hcounts
    refine ⟨?_, ?_⟩
    · show 0 < lockMeta.count + 1
      omega
    · rw [if_pos hafter]
      refine ⟨?_, rfl⟩
      show lockMeta.count + 1 = ((u.locks + 1 : Nat) : Int) - u.unlocks
      omega

theorem Entry.unlock (h : Entry u t entry) :
    Entry (u.unlock t) t (entry.bind fun lockMeta =>
      if lockMeta.count - 1 ≤ 0 then none
      else some { lockMeta with count := lockMeta.count - 1 }) := by
  unfold Tenure.unlock
  cases entry with
  | none =>
    rw [if_neg h]
    exact h
  | some lockMeta =>
    have hpos := h.1
    have hcounts := h.2
    rw [Option.bind_some]
    by_cases hlive : t ≤ lockMeta.expireTime
    · rw [if_pos (h.locked_iff.mpr hlive)]
      rw [if_pos hlive] at hcounts
      split
      · -- the last lock has been given back
        intro hlocked
        have hless : u.unlocks + 1 < u.locks := hlocked.1
        omega
      · refine ⟨?_, ?_⟩
        · show 0 < lockMeta.count - 1
          omega
        · rw [if_pos hlive]
          refine ⟨?_, hcounts.2⟩
          show lockMeta.count - 1 = (u.locks : Int) - ((u.unlocks + 1 : Nat) : Int)
          omega
    · -- an entry that has expired is counted down, whatever for
      have hnot : ¬u.Locked t := fun hlocked => hlive (h.locked_iff.mp hlocked)
      rw [if_neg hnot]
      split
      · exact hnot
      · refine ⟨?_, ?_⟩
        · show 0 < lockMeta.count - 1
          omega
        · rw [if_neg hlive]
          exact hnot

theorem Entry.isLocked (h : Entry u t entry) :
    Entry u t (entry.filter fun lockMeta => t ≤ lockMeta.expireTime) := by
  cases entry with
  | none => exact h
  | some lockMeta =>
    by_cases hexpired : lockMeta.expireTime < t
    · have hnot : ¬u.Locked t := fun hlocked => not_le.mpr hexpired (h.locked_iff.mp hlocked)
      simpa [Option.filter, not_le.mpr hexpired, Entry] using hnot
    · simpa [Option.filter, not_lt.mp hexpired] using h

/-- **Step lemma.** -/
theorem sound_step (s : LockRun κ) (e : LockEvent κ) (h : s.Sound) (hok : s.MeetsNoExpired e) :
    (s.step e).Sound := by
  obtain ⟨elapsed, call⟩ := e
  have hlater : ∀ key, Entry (s.tenures key) (s.now + elapsed) (s.manager.locks.get? key) :=
    fun key => (h key).later (by linarith [elapsed.coe_nonneg])
  intro k
  cases call with
  | lock key =>
    simp only [step, perform, record, get?_lock, Function.update_apply]
    by_cases hkey : k = key
    · rw [if_pos hkey, if_pos hkey]
      exact (hlater key).lock hok
    · rw [if_neg hkey, if_neg hkey]
      exact hlater k
  | unlock key =>
    simp only [step, perform, record, get?_unlock, Function.update_apply]
    by_cases hkey : k = key
    · rw [if_pos hkey, if_pos hkey]
      exact (hlater key).unlock
    · rw [if_neg hkey, if_neg hkey]
      exact hlater k
  | isLocked key =>
    simp only [step, perform, record, get?_isLocked]
    by_cases hkey : k = key
    · rw [if_pos hkey, hkey]
      exact (hlater key).isLocked
    · rw [if_neg hkey]
      exact hlater k

theorem Sound.keepsTenures {s : LockRun κ} (h : s.Sound) : s.KeepsTenures where
  answers := by
    intro key t ht
    have hentry := (h key).later ht
    rw [isLocked_iff]
    generalize s.manager.locks.get? key = entry at hentry
    cases entry with
    | none => simpa [Entry] using hentry
    | some lockMeta => simpa using hentry.locked_iff.symm
  counts := by
    intro key lockMeta hget hlive
    have hcounts := (hget ▸ h key).2
    rw [if_pos hlive] at hcounts
    exact hcounts.1

/-- A lock on top of an expired one is counted with it. -/
theorem meetsNoExpired_of_keeps (s : LockRun κ) (e : LockEvent κ) (h : s.Sound)
    (hkeeps : (s.step e).KeepsTenures) : s.MeetsNoExpired e := by
  obtain ⟨elapsed, call⟩ := e
  cases call with
  | unlock key => trivial
  | isLocked key => trivial
  | lock key =>
    intro lockMeta hget
    by_contra hexpired
    have hentry := (h key).later (t := s.now + elapsed) (by linarith [elapsed.coe_nonneg])
    rw [hget] at hentry
    have hnot : ¬(s.tenures key).Locked (s.now + elapsed) :=
      fun hlocked => hexpired (hentry.locked_iff.mp hlocked)
    have hafter : (s.manager.lock key (s.now + elapsed)).locks.get? key =
        some ⟨lockMeta.count + 1, s.now + elapsed + LockManager.DEFAULT_TTL⟩ := by
      rw [get?_lock, if_pos rfl, hget]
      rfl
    have htenure : (s.step ⟨elapsed, .lock key⟩).tenures key = ⟨1, 0, s.now + elapsed⟩ := by
      show Function.update s.tenures key _ key = _
      rw [Function.update_self, Tenure.lock, if_neg hnot]
    have hcount := hkeeps.counts key _ hafter (by
      show s.now + elapsed ≤ s.now + elapsed + LockManager.DEFAULT_TTL
      unfold LockManager.DEFAULT_TTL
      linarith)
    -- the tenure has one lock, the entry this one and those that have expired
    rw [htenure] at hcount
    have hpos := hentry.1
    simp only [Nat.cast_one, Nat.cast_zero] at hcount
    omega

theorem sound_init (startTime : Rat) : (init startTime : LockRun κ).Sound := fun _ =>
  fun hlocked => absurd hlocked.1 (lt_irrefl 0)

/-- **The manager keeps to the tenures exactly when no lock meets an expired entry.** -/
theorem always_keepsTenures_iff (startTime : Rat) (es : List (LockEvent κ)) :
    Always step KeepsTenures (init startTime : LockRun κ) es ↔
      Guarded step MeetsNoExpired (init startTime : LockRun κ) es :=
  always_iff_guarded_of_stronger (fun _ => Sound.keepsTenures) sound_step meetsNoExpired_of_keeps
    (sound_init startTime)

/-- It can fail: a lock is taken and not given back.  After it has expired another is taken and
given back, and the key is still locked. -/
theorem not_always_keepsTenures :
    ¬ Always step KeepsTenures (init 0 : LockRun Nat)
      [⟨0, .lock 7⟩, ⟨301, .lock 7⟩, ⟨1, .unlock 7⟩] := by
  intro h
  have hanswers := h.last.answers 7 303 (by decide +kernel)
  revert hanswers
  decide +kernel

end LockRun

end LMCache.Multiprocess
