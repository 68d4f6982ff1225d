/-
# LMCache.Lib.Run — schedules of a total step function.

A state machine here is a state type `σ`, an action type `ι` and a total `step : σ → ι → σ`.
A schedule is a list of actions.  Four notions recur in every development over such a machine:

* `run` — the state a schedule ends in;
* `Guarded ok` — every action of the schedule meets a condition *in the state it is taken in*;
* `Always P` — the property holds in the initial state and after every action;
* `Final` — no action changes the state.

The rules below package the induction over a schedule once.  `always_of_guarded` is the usual
invariant rule; `always_iff_guarded` is its exact form, for a condition that is not only enough for
one step to keep the invariant but also forced by it.  Nothing here names a particular machine.
-/
import Mathlib.Data.List.Basic

namespace LMCache.Lib

universe u v

variable {σ : Type u} {ι : Type v} {step : σ → ι → σ} {ok : σ → ι → Prop} {P Q : σ → Prop}

/-! ## Schedules -/

/-- The state reached from `s` by taking the actions of a schedule in order. -/
def run (step : σ → ι → σ) (s : σ) (is : List ι) : σ := is.foldl step s

@[simp] theorem run_nil (s : σ) : run step s [] = s := rfl

@[simp] theorem run_cons (s : σ) (i : ι) (is : List ι) :
    run step s (i :: is) = run step (step s i) is := rfl

/-- Every action of the schedule meets `ok` in the state it is taken in. -/
def Guarded (step : σ → ι → σ) (ok : σ → ι → Prop) : σ → List ι → Prop
  | _, [] => True
  | s, i :: is => ok s i ∧ Guarded step ok (step s i) is

/-- `P` holds at the start of the schedule and after each of its actions. -/
def Always (step : σ → ι → σ) (P : σ → Prop) : σ → List ι → Prop
  | s, [] => P s
  | s, i :: is => P s ∧ Always step P (step s i) is

instance decidableGuarded [∀ s i, Decidable (ok s i)] :
    ∀ (s : σ) (is : List ι), Decidable (Guarded step ok s is)
  | _, [] => .isTrue trivial
  | s, i :: is =>
    haveI := decidableGuarded (step s i) is
    inferInstanceAs (Decidable (ok s i ∧ Guarded step ok (step s i) is))

instance decidableAlways [∀ s, Decidable (P s)] :
    ∀ (s : σ) (is : List ι), Decidable (Always step P s is)
  | s, [] => inferInstanceAs (Decidable (P s))
  | s, i :: is =>
    haveI := decidableAlways (step s i) is
    inferInstanceAs (Decidable (P s ∧ Always step P (step s i) is))

/-! ## The invariant rules -/

theorem Always.head {s : σ} {is : List ι} (h : Always step P s is) : P s := by
  cases is with
  | nil => exact h
  | cons i is => exact h.1

theorem Always.last {s : σ} {is : List ι} (h : Always step P s is) : P (run step s is) := by
  induction is generalizing s with
  | nil => exact h
  | cons i is ih => exact ih h.2

theorem Always.mono (hPQ : ∀ s, P s → Q s) {s : σ} {is : List ι} (h : Always step P s is) :
    Always step Q s is := by
  induction is generalizing s with
  | nil => exact hPQ s h
  | cons i is ih => exact ⟨hPQ s h.1, ih h.2⟩

/-- **The invariant rule.**  A property that one guarded step preserves holds all along a guarded
schedule that starts in it. -/
theorem always_of_guarded (hstep : ∀ s i, P s → ok s i → P (step s i)) {s : σ} {is : List ι}
    (h0 : P s) (h : Guarded step ok s is) : Always step P s is := by
  induction is generalizing s with
  | nil => exact h0
  | cons i is ih => exact ⟨h0, ih (hstep s i h0 h.1) h.2⟩

/-- The invariant rule for a property that every action preserves. -/
theorem always_of_step (hstep : ∀ s i, P s → P (step s i)) {s : σ} (h0 : P s) (is : List ι) :
    Always step P s is := by
  induction is generalizing s with
  | nil => exact h0
  | cons i is ih => exact ⟨h0, ih (hstep s i h0)⟩

theorem Always.and {s : σ} {is : List ι} (hP : Always step P s is) (hQ : Always step Q s is) :
    Always step (fun s => P s ∧ Q s) s is := by
  induction is generalizing s with
  | nil => exact ⟨hP, hQ⟩
  | cons i is ih => exact ⟨⟨hP.1, hQ.1⟩, ih hP.2 hQ.2⟩

/-- A condition on the actions alone. -/
theorem guarded_of_forall {p : ι → Prop} {s : σ} {is : List ι} (h : ∀ i ∈ is, p i) :
    Guarded step (fun _ i => p i) s is := by
  induction is generalizing s with
  | nil => trivial
  | cons i is ih =>
    rw [List.forall_mem_cons] at h
    exact ⟨h.1, ih h.2⟩

/-- A guarded schedule that keeps an invariant meets every other guard that the two imply. -/
theorem Guarded.mono_of_inv {ok' : σ → ι → Prop} (hstep : ∀ s i, P s → ok s i → P (step s i))
    (hok : ∀ s i, P s → ok s i → ok' s i) {s : σ} {is : List ι} (h0 : P s)
    (h : Guarded step ok s is) : Guarded step ok' s is := by
  induction is generalizing s with
  | nil => trivial
  | cons i is ih => exact ⟨hok s i h0 h.1, ih (hstep s i h0 h.1) h.2⟩

/-- A schedule along which a property holds meets every guard that no step can miss without losing
the property. -/
theorem Always.guarded (hstep : ∀ s i, P s → P (step s i) → ok s i) {s : σ} {is : List ι}
    (h : Always step P s is) : Guarded step ok s is := by
  induction is generalizing s with
  | nil => trivial
  | cons i is ih => exact ⟨hstep s i h.1 h.2.head, ih h.2⟩

/-- **The exact invariant rule.**  When the guard is what one step needs to keep the invariant and
no more, the invariant holds all along a schedule exactly when the schedule is guarded. -/
theorem always_iff_guarded (hstep : ∀ s i, P s → (P (step s i) ↔ ok s i)) {s : σ} {is : List ι}
    (h0 : P s) : Always step P s is ↔ Guarded step ok s is := by
  constructor
  · exact Always.guarded fun s i hs hi => (hstep s i hs).mp hi
  · exact always_of_guarded (fun s i hs hok => (hstep s i hs).mpr hok) h0

/-- The exact rule in the presence of an invariant `Q` that needs no guard. -/
theorem always_iff_guarded_of_inv (hQ : ∀ s i, Q s → Q (step s i))
    (hstep : ∀ s i, Q s → P s → (P (step s i) ↔ ok s i)) {s : σ} {is : List ι}
    (hQ0 : Q s) (hP0 : P s) : Always step P s is ↔ Guarded step ok s is := by
  have hboth : Always step (fun s => Q s ∧ P s) s is ↔ Guarded step ok s is :=
    always_iff_guarded
      (fun s i h => ⟨fun h' => (hstep s i h.1 h.2).mp h'.2,
        fun hok => ⟨hQ s i h.1, (hstep s i h.1 h.2).mpr hok⟩⟩) ⟨hQ0, hP0⟩
  rw [← hboth]
  exact ⟨fun h => (always_of_step hQ hQ0 is).and h, Always.mono fun _ h => h.2⟩

/-- The exact rule for a property that follows from an invariant `Q`: the guard is enough to keep
the invariant, and no more than the property needs. -/
theorem always_iff_guarded_of_stronger (hQP : ∀ s, Q s → P s)
    (hkeep : ∀ s i, Q s → ok s i → Q (step s i)) (hneed : ∀ s i, Q s → P (step s i) → ok s i)
    {s : σ} {is : List ι} (h0 : Q s) : Always step P s is ↔ Guarded step ok s is := by
  constructor
  · intro h
    induction is generalizing s with
    | nil => trivial
    | cons i is ih =>
      have hok := hneed s i h0 h.2.head
      exact ⟨hok, ih (hkeep s i h0 hok) h.2⟩
  · intro h
    exact (always_of_guarded hkeep h0 h).mono hQP

/-- The exact rule along a schedule that meets another guard, which keeps an invariant `Q`. -/
theorem always_iff_guarded_of_guarded {ok' : σ → ι → Prop}
    (hQ : ∀ s i, Q s → ok' s i → Q (step s i))
    (hstep : ∀ s i, Q s → ok' s i → P s → (P (step s i) ↔ ok s i)) {s : σ} {is : List ι}
    (hQ0 : Q s) (hP0 : P s) (h : Guarded step ok' s is) :
    Always step P s is ↔ Guarded step ok s is := by
  induction is generalizing s with
  | nil => exact iff_of_true hP0 trivial
  | cons i is ih =>
    have hone := hstep s i hQ0 h.1 hP0
    constructor
    · intro halways
      have hnext := halways.2.head
      exact ⟨hone.mp hnext, (ih (hQ s i hQ0 h.1) hnext h.2).mp halways.2⟩
    · intro hguarded
      have hnext := hone.mpr hguarded.1
      exact ⟨hP0, (ih (hQ s i hQ0 h.1) hnext h.2).mpr hguarded.2⟩

/-! ## Schedules that come to an end -/

/-- No action changes the state. -/
def Final (step : σ → ι → σ) (s : σ) : Prop := ∀ i, step s i = s

/-- **The progress rule.**  When every state that is not final has an action that meets the guard
and makes a measure less, some guarded schedule leads to a final state. -/
theorem exists_final (measure : σ → Nat) (hP : ∀ s i, P s → P (step s i))
    (hprogress : ∀ s, P s → Final step s ∨ ∃ i, ok s i ∧ measure (step s i) < measure s) {s : σ}
    (h : P s) : ∃ is, Guarded step ok s is ∧ Final step (run step s is) := by
  induction hn : measure s using Nat.strongRecOn generalizing s with
  | ind n ih =>
    subst hn
    rcases hprogress s h with hfinal | ⟨i, hok, hlt⟩
    · exact ⟨[], trivial, hfinal⟩
    · obtain ⟨is, hguarded, hfinal⟩ := ih _ hlt (hP s i h) rfl
      exact ⟨i :: is, ⟨hok, hguarded⟩, hfinal⟩

end LMCache.Lib
