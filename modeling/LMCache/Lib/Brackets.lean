/-
# LMCache.Lib.Brackets — what is opened, used and closed in the course of a run.

An event may open, use or close a resource.  A run is *bracketed* when nothing is closed more often
than it was opened, and only what is open is used; it is *settled* when everything was closed as often
as it was opened.  Both are known of a run from its parts.
-/
import Mathlib.Data.List.Basic
import Mathlib.Data.List.Count
import Mathlib.Algebra.Order.Ring.Nat

namespace LMCache.Lib

/-- How often the events of a run are about a resource. -/
def times {α ι : Type} [DecidableEq ι] (about : α → Option ι) (i : ι) (run : List α) : ℕ :=
  run.countP fun a => about a = some i

/-- Which resource an event opens, uses and closes. -/
structure Brackets (α ι : Type) where
  opened : α → Option ι
  used : α → Option ι
  closed : α → Option ι

section
variable {α ι : Type} [DecidableEq ι]

variable (about : α → Option ι)

@[simp] theorem times_nil (i : ι) : times about i [] = 0 := rfl

theorem times_cons (i : ι) (a : α) (run : List α) :
    times about i (a :: run) = times about i run + if about a = some i then 1 else 0 := by
  simp [times, List.countP_cons]

@[simp] theorem times_append (i : ι) (run next : List α) :
    times about i (run ++ next) = times about i run + times about i next :=
  List.countP_append

end

namespace Brackets

variable {α ι : Type} [DecidableEq ι] (b : Brackets α ι)

/-- Nothing is closed that is not open, and nothing used. -/
structure Bracketed (run : List α) : Prop where
  closed_le : ∀ past rest, run = past ++ rest →
    ∀ i, times b.closed i past ≤ times b.opened i past
  used_open : ∀ past a rest, run = past ++ a :: rest →
    ∀ i, b.used a = some i → times b.closed i past < times b.opened i past

/-- Everything that was opened is closed again. -/
def Settled (run : List α) : Prop := ∀ i, times b.closed i run = times b.opened i run

variable {b}

variable {run : List α}

theorem Bracketed.times_le (h : b.Bracketed run) (i : ι) :
    times b.closed i run ≤ times b.opened i run :=
  h.closed_le run [] (List.append_nil run).symm i

theorem Bracketed.nil : b.Bracketed [] where
  closed_le := by
    intro past rest h i
    rw [(List.nil_eq_append_iff.mp h).1]
    exact le_rfl
  used_open := by
    intro past a rest h
    simp at h

/-- **One bracketed run after another is bracketed.** -/
theorem Bracketed.append {next : List α} (hrun : b.Bracketed run) (hnext : b.Bracketed next) :
    b.Bracketed (run ++ next) where
  closed_le := by
    intro past rest h i
    rcases List.append_eq_append_iff.mp h with ⟨more, rfl, hmore⟩ | ⟨more, rfl, hmore⟩
    · have hle := hrun.times_le i
      have hle' := hnext.closed_le more rest hmore i
      simp only [times_append]
      omega
    · exact hrun.closed_le past more rfl i
  used_open := by
    intro past a rest h i ha
    rcases List.append_eq_append_iff.mp h with ⟨more, rfl, hmore⟩ | ⟨more, rfl, hmore⟩
    · have hle := hrun.times_le i
      have hlt := hnext.used_open more a rest hmore i ha
      simp only [times_append]
      omega
    · cases more with
      | nil =>
        have hle := hrun.times_le i
        have hlt := hnext.used_open [] a rest (by simpa using hmore.symm) i ha
        simp only [List.append_nil, times_nil] at hle hlt
        omega
      | cons a' more =>
        rw [List.cons_append, List.cons.injEq] at hmore
        rw [hmore.1] at ha
        exact hrun.used_open past a' more rfl i (hmore.1 ▸ ha)

theorem settled_nil : b.Settled [] := fun _ => rfl

/-- Of two bracketed runs, none makes up for what the other leaves open. -/
theorem settled_append_iff {next : List α} (hrun : b.Bracketed run) (hnext : b.Bracketed next) :
    b.Settled (run ++ next) ↔ b.Settled run ∧ b.Settled next := by
  unfold Settled
  rw [← forall_and]
  refine forall_congr' fun i => ?_
  have hle := hrun.times_le i
  have hle' := hnext.times_le i
  simp only [times_append]
  omega

/-! ## Building a run -/

/-- **A run may go on** with an event that uses and closes only what is open. -/
theorem Bracketed.snoc (hrun : b.Bracketed run) {a : α}
    (hused : ∀ i, b.used a = some i → times b.closed i run < times b.opened i run)
    (hclosed : ∀ i, b.closed a = some i → times b.closed i run < times b.opened i run) :
    b.Bracketed (run ++ [a]) where
  closed_le := by
    intro past rest h i
    rcases List.append_eq_append_iff.mp h with ⟨more, rfl, hmore⟩ | ⟨more, rfl, hmore⟩
    · have hle := hrun.times_le i
      cases more with
      | nil => simpa using hle
      | cons a' more =>
        -- the whole run
        have hnil : more = [] := by
          have htail := (List.cons.inj hmore).2
          exact (List.nil_eq_append_iff.mp htail).1
        subst hnil
        obtain ⟨rfl, -⟩ := List.cons.inj hmore
        simp only [times_append, times_cons, times_nil]
        by_cases hi : b.closed a = some i
        · have hlt := hclosed i hi
          rw [if_pos hi]
          omega
        · rw [if_neg hi]
          omega
    · exact hrun.closed_le past more rfl i
  used_open := by
    intro past a' rest h i ha
    rcases List.append_eq_append_iff.mp h with ⟨more, rfl, hmore⟩ | ⟨more, rfl, hmore⟩
    · cases more with
      | nil =>
        obtain ⟨rfl, -⟩ := List.cons.inj hmore
        rw [List.append_nil]
        exact hused i ha
      | cons x more =>
        have hlength := congrArg List.length hmore
        simp at hlength
    · cases more with
      | nil =>
        obtain ⟨rfl, -⟩ := List.cons.inj hmore
        simpa using hused i ha
      | cons x more =>
        rw [List.cons_append, List.cons.injEq] at hmore
        exact hrun.used_open past x more rfl i (hmore.1 ▸ ha)

end Brackets

end LMCache.Lib
