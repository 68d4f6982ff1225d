/-
# LMCache.Storage.WeightedSemaphore — how many chunks are being loaded at once.

Source: `WeightedSemaphore` of `v1/storage_backend/storage_manager.py`.

Half of the chunk budget is shared out to ordinary requests.  A request for more than that waits
until all of the half is available, and then takes all of it, which keeps the others out.  Of a
budget of one chunk the half is nothing: it is available whatever is held, and requests for that one
chunk are let in side by side.

A task that calls `acquire` waits until it is woken with its condition met, whoever wakes it and in
which order.
-/
import LMCache.Lib.Run
import LMCache.Lib.Weights
import LMCache.PyError
import Mathlib.Data.Multiset.Filter
import Mathlib.Algebra.BigOperators.Group.Multiset.Basic

namespace LMCache.Storage

open LMCache.Lib

/-! ## The semaphore -/

structure WeightedSemaphore where
  concurrentBudgetCap : Int
  chunkBudgetCap : Int
  currentChunks : Int
  deriving DecidableEq, Repr

namespace WeightedSemaphore

def init (chunkBudget : Int) : WeightedSemaphore :=
  ⟨chunkBudget / 2, chunkBudget, chunkBudget / 2⟩

/-- The test at the entry of `acquire`. -/
def checkAcquire (s : WeightedSemaphore) (n : Int) : Except PyError Unit :=
  if n > s.chunkBudgetCap then
    .error (.valueError (s!"Trying to acquire {n} chunks, " ++
      s!"Cannot acquire more than {s.chunkBudgetCap} chunks" ++
      "Please set the max local cpu size to a larger value"))
  else .ok ()

/-- What `acquire` waits for. -/
def mayAcquire (s : WeightedSemaphore) (n : Int) : Bool :=
  if n ≤ s.concurrentBudgetCap then s.currentChunks ≥ n
  else s.currentChunks = s.concurrentBudgetCap

/-- The end of `acquire`. -/
def take (s : WeightedSemaphore) (n : Int) : WeightedSemaphore :=
  if n ≤ s.concurrentBudgetCap then { s with currentChunks := s.currentChunks - n }
  -- Reserve everything
  else { s with currentChunks := 0 }

def release (s : WeightedSemaphore) (n : Int) : WeightedSemaphore :=
  if n ≤ s.concurrentBudgetCap then { s with currentChunks := s.currentChunks + n }
  else { s with currentChunks := s.concurrentBudgetCap }

section Caps

variable (s : WeightedSemaphore) (n : Int)

@[simp]
theorem chunkBudgetCap_take : (s.take n).chunkBudgetCap = s.chunkBudgetCap := by
  unfold take
  split <;> rfl

@[simp]
theorem concurrentBudgetCap_take : (s.take n).concurrentBudgetCap = s.concurrentBudgetCap := by
  unfold take
  split <;> rfl

@[simp]
theorem chunkBudgetCap_release : (s.release n).chunkBudgetCap = s.chunkBudgetCap := by
  unfold release
  split <;> rfl

@[simp]
theorem concurrentBudgetCap_release :
    (s.release n).concurrentBudgetCap = s.concurrentBudgetCap := by
  unfold release
  split <;> rfl

end Caps

end WeightedSemaphore

/-! ## Tasks -/

/-- Where a task is. -/
inductive SemTask where
  /-- In the `wait_for` of `acquire`. -/
  | waiting (n : Nat)
  /-- Between `acquire` and `release`. -/
  | holding (n : Nat)
  | done
  deriving DecidableEq, Repr

structure SemaphoreRun where
  sem : WeightedSemaphore
  tasks : List SemTask

inductive SemEvent where
  /-- A new task calls `acquire`. -/
  | acquire (n : Nat)
  /-- A waiting task looks whether its condition is met. -/
  | wake (i : Nat)
  /-- A task calls `release`. -/
  | release (i : Nat)
  deriving DecidableEq, Repr

namespace SemaphoreRun

def init (chunkBudget : Nat) : SemaphoreRun := ⟨.init chunkBudget, []⟩

def acquire (s : SemaphoreRun) (n : Nat) : SemaphoreRun :=
  match s.sem.checkAcquire n with
  | .error _ => s
  | .ok () => { s with tasks := s.tasks ++ [.waiting n] }

def wake (s : SemaphoreRun) (i : Nat) : SemaphoreRun :=
  match s.tasks[i]? with
  | some (.waiting n) =>
    if s.sem.mayAcquire n then ⟨s.sem.take n, s.tasks.set i (.holding n)⟩ else s
  | _ => s

def release (s : SemaphoreRun) (i : Nat) : SemaphoreRun :=
  match s.tasks[i]? with
  | some (.holding n) => ⟨s.sem.release n, s.tasks.set i .done⟩
  | _ => s

def step (s : SemaphoreRun) : SemEvent → SemaphoreRun
  | .acquire n => s.acquire n
  | .wake i => s.wake i
  | .release i => s.release i

end SemaphoreRun

/-- The weight a task holds. -/
def SemTask.held : SemTask → Option Nat
  | .holding n => some n
  | .waiting _ | .done => none

namespace SemaphoreRun

/-- The weights that are held. -/
def held (s : SemaphoreRun) : Multiset Nat := (s.tasks : Multiset SemTask).filterMap SemTask.held

/-- No more is held than the budget, a holder of more than half of it is alone, and what is
available is between nothing and the half, and all of the half when nobody holds. -/
structure Bounded (s : SemaphoreRun) : Prop where
  total : (s.held.sum : Int) ≤ s.sem.chunkBudgetCap
  alone : ∀ n ∈ s.held, s.sem.chunkBudgetCap < 2 * n → s.held = {n}
  available : 0 ≤ s.sem.currentChunks ∧ s.sem.currentChunks ≤ s.sem.chunkBudgetCap / 2
  idle : s.held = 0 → s.sem.currentChunks = s.sem.chunkBudgetCap / 2

/-- A task that is let in joins nobody who holds more than half, and joins nobody at all if it asks
for more than half itself. -/
def HoldsApart (s : SemaphoreRun) : SemEvent → Prop
  | .wake i => ∀ n, s.tasks[i]? = some (.waiting n) → s.sem.mayAcquire n = true →
    (s.sem.chunkBudgetCap < 2 * n → s.held = 0) ∧ ∀ m ∈ s.held, 2 * m ≤ s.sem.chunkBudgetCap
  | _ => True

/-! ## What a step does to what is held -/

variable {i n : Nat} {s : SemaphoreRun}

theorem held_set {tasks : List SemTask} {task : SemTask} (h : tasks[i]? = some task)
    (sem sem' : WeightedSemaphore) :
    ∃ others : Multiset Nat, held ⟨sem, tasks⟩ = task.held.elim others (· ::ₘ others) ∧
      ∀ task', held ⟨sem', tasks.set i task'⟩ = task'.held.elim others (· ::ₘ others) := by
  have hcons (task' : SemTask) (l : List SemTask) :
      Multiset.filterMap SemTask.held (task' :: l : Multiset SemTask) =
        task'.held.elim (Multiset.filterMap SemTask.held (l : Multiset SemTask))
          (· ::ₘ Multiset.filterMap SemTask.held (l : Multiset SemTask)) := by
    cases task' <;> rfl
  obtain ⟨rest, htasks, hset⟩ := perm_set h
  refine ⟨Multiset.filterMap SemTask.held (rest : Multiset SemTask), ?_, fun task' => ?_⟩
  · show Multiset.filterMap SemTask.held (tasks : Multiset SemTask) = _
    rw [Multiset.coe_eq_coe.mpr htasks]
    exact hcons task rest
  · show Multiset.filterMap SemTask.held ((tasks.set i task' : List SemTask) : Multiset SemTask) = _
    rw [Multiset.coe_eq_coe.mpr (hset task')]
    exact hcons task' rest

theorem held_take (h : s.tasks[i]? = some (.waiting n)) (sem : WeightedSemaphore) :
    held ⟨sem, s.tasks.set i (.holding n)⟩ = n ::ₘ s.held := by
  obtain ⟨others, hbefore, hafter⟩ := held_set h s.sem sem
  rw [hafter]
  show n ::ₘ others = n ::ₘ s.held
  rw [show s.held = others from hbefore]

theorem held_release (h : s.tasks[i]? = some (.holding n)) (sem : WeightedSemaphore) :
    s.held = n ::ₘ held ⟨sem, s.tasks.set i .done⟩ := by
  obtain ⟨others, hbefore, hafter⟩ := held_set h s.sem sem
  rw [hafter]
  exact hbefore

theorem held_wait (s : SemaphoreRun) (n : Nat) :
    held { s with tasks := s.tasks ++ [.waiting n] } = s.held := by
  unfold held
  rw [← Multiset.coe_add, Multiset.filterMap_add]
  exact add_zero _

/-! ## When the semaphore bounds what is held -/

/-- What is held and what is available, as long as holders of more than half are alone. -/
inductive Balance (budget current : Int) (held : Multiset Nat) : Prop where
  /-- The half is shared out. -/
  | shared (small : ∀ n ∈ held, 2 * (n : Int) ≤ budget) (fits : (held.sum : Int) ≤ budget / 2)
      (rest : current = budget / 2 - held.sum)
  | oversized (n : Nat) (alone : held = {n}) (large : budget < 2 * n) (fits : (n : Int) ≤ budget)
      (rest : current = 0)

structure Sound (s : SemaphoreRun) : Prop where
  half : s.sem.concurrentBudgetCap = s.sem.chunkBudgetCap / 2
  asked : ∀ n : Nat, .waiting n ∈ s.tasks → (n : Int) ≤ s.sem.chunkBudgetCap
  balance : Balance s.sem.chunkBudgetCap s.sem.currentChunks s.held

theorem sound_init (chunkBudget : Nat) : (init chunkBudget).Sound where
  half := rfl
  asked := fun _ h => (nomatch h)
  balance := by
    refine .shared (fun _ h => (nomatch h)) ?_ ?_
    · show (0 : Int) ≤ (chunkBudget : Int) / 2
      omega
    · show (chunkBudget : Int) / 2 = (chunkBudget : Int) / 2 - 0
      omega

theorem Sound.bounded (h : s.Sound) : s.Bounded := by
  cases h.balance with
  | shared hsmall hfits hrest =>
    have hpos : (0 : Int) ≤ s.held.sum := Int.natCast_nonneg _
    refine ⟨by omega, fun n hn hlarge => ?_, by omega, fun hnil => ?_⟩
    · have := hsmall n hn
      omega
    · rw [hnil] at hrest
      simpa using hrest
  | oversized n hheld hlarge hfits hrest =>
    refine ⟨by rw [hheld]; simpa using hfits, fun m hm _ => ?_, by omega, fun hnil => ?_⟩
    · rw [hheld, Multiset.mem_singleton] at hm
      rw [hheld, hm]
    · exact absurd (hheld.symm.trans hnil) (Multiset.singleton_ne_zero n)

/-- A task that waits is let in. -/
theorem Sound.take (h : s.Sound) (htask : s.tasks[i]? = some (.waiting n))
    (hmay : s.sem.mayAcquire n = true) (halone : s.sem.chunkBudgetCap < 2 * n → s.held = 0)
    (hsmall : ∀ m ∈ s.held, 2 * (m : Int) ≤ s.sem.chunkBudgetCap) :
    Balance s.sem.chunkBudgetCap (s.sem.take n).currentChunks (n ::ₘ s.held) := by
  have hhalf := h.half
  unfold WeightedSemaphore.mayAcquire at hmay
  unfold WeightedSemaphore.take
  by_cases hn : (n : Int) ≤ s.sem.concurrentBudgetCap
  · rw [if_pos hn] at hmay ⊢
    have henough : (n : Int) ≤ s.sem.currentChunks := by simpa using hmay
    cases h.balance with
    | shared _ hfits hrest =>
      refine .shared (fun m hm => ?_) ?_ ?_
      · rcases Multiset.mem_cons.mp hm with rfl | hm
        · omega
        · exact hsmall m hm
      · rw [Multiset.sum_cons, Nat.cast_add]
        omega
      · rw [Multiset.sum_cons, Nat.cast_add]
        show s.sem.currentChunks - n = _
        omega
    | oversized m hheld hlarge _ _ =>
      have := hsmall m (hheld ▸ Multiset.mem_singleton_self m)
      omega
  · -- more than half: the task is alone, and nothing is left
    rw [if_neg hn]
    refine .oversized n ?_ (by omega) (h.asked n (List.mem_of_getElem? htask)) rfl
    rw [halone (by omega)]
    rfl

theorem Sound.release (h : s.Sound) {others : Multiset Nat} (hheld : s.held = n ::ₘ others) :
    Balance s.sem.chunkBudgetCap (s.sem.release n).currentChunks others := by
  have hhalf := h.half
  unfold WeightedSemaphore.release
  cases h.balance with
  | shared hsmall hfits hrest =>
    rw [hheld, Multiset.sum_cons, Nat.cast_add] at hfits hrest
    have hn : 2 * (n : Int) ≤ _ := hsmall n (hheld ▸ Multiset.mem_cons_self n others)
    rw [if_pos (by omega)]
    refine .shared (fun m hm => hsmall m (hheld ▸ Multiset.mem_cons_of_mem hm)) (by omega) ?_
    show s.sem.currentChunks + n = _
    omega
  | oversized m halone hlarge hfits hrest =>
    -- the one that holds more than half is the one that gives back
    obtain ⟨rfl, rfl⟩ := (Multiset.singleton_eq_cons_iff others).mp (halone.symm.trans hheld)
    rw [if_neg (by omega)]
    refine .shared (fun _ hm => absurd hm (Multiset.notMem_zero _)) ?_ ?_
    · rw [Multiset.sum_zero]
      omega
    · rw [Multiset.sum_zero]
      show s.sem.concurrentBudgetCap = _
      omega

/-- **Step lemma.** -/
theorem sound_step (s : SemaphoreRun) (e : SemEvent) (h : s.Sound) (hok : s.HoldsApart e) :
    (s.step e).Sound := by
  cases e with
  | acquire n =>
    show (s.acquire n).Sound
    unfold acquire WeightedSemaphore.checkAcquire
    by_cases hlarge : (n : Int) > s.sem.chunkBudgetCap
    · simpa only [if_pos hlarge] using h
    · simp only [if_neg hlarge]
      refine ⟨h.half, fun m hm => ?_, ?_⟩
      · rcases List.mem_append.mp hm with hm | hm
        · exact h.asked m hm
        · cases List.mem_singleton.mp hm
          exact not_lt.mp hlarge
      · rw [held_wait]
        exact h.balance
  | wake i =>
    show (s.wake i).Sound
    unfold wake
    split
    · rename_i n htask
      split
      · rename_i hmay
        obtain ⟨halone, hsmall⟩ := hok n htask hmay
        refine ⟨by simpa using h.half, fun m hm => ?_, ?_⟩
        · rw [WeightedSemaphore.chunkBudgetCap_take]
          rcases List.mem_or_eq_of_mem_set hm with hm | hm
          · exact h.asked m hm
          · cases hm
        · rw [held_take htask]
          show Balance (s.sem.take n).chunkBudgetCap _ _
          rw [WeightedSemaphore.chunkBudgetCap_take]
          exact h.take htask hmay halone hsmall
      · exact h
    · exact h
  | release i =>
    show (s.release i).Sound
    unfold release
    split
    · rename_i n htask
      refine ⟨by simpa using h.half, fun m hm => ?_, ?_⟩
      · rw [WeightedSemaphore.chunkBudgetCap_release]
        rcases List.mem_or_eq_of_mem_set hm with hm | hm
        · exact h.asked m hm
        · cases hm
      · show Balance (s.sem.release n).chunkBudgetCap _ _
        rw [WeightedSemaphore.chunkBudgetCap_release]
        exact h.release (held_release htask (s.sem.release n))
    · exact h

/-- Whoever is let in beside a large holder, or is large and let in beside another, breaks the
bound. -/
theorem holdsApart_of_bounded (s : SemaphoreRun) (e : SemEvent) (h : (s.step e).Bounded) :
    s.HoldsApart e := by
  cases e with
  | acquire n => trivial
  | release i => trivial
  | wake i =>
    intro n htask hmay
    have hstep : s.step (.wake i) = ⟨s.sem.take n, s.tasks.set i (.holding n)⟩ := by
      show s.wake i = _
      unfold wake
      rw [htask]
      exact if_pos hmay
    have halone := h.alone
    rw [hstep, held_take htask, WeightedSemaphore.chunkBudgetCap_take] at halone
    constructor
    · intro hlarge
      have hone := halone n (Multiset.mem_cons_self n s.held) hlarge
      exact ((Multiset.singleton_eq_cons_iff s.held).mp hone.symm).2
    · intro m hm
      by_contra hlarge
      have hone := halone m (Multiset.mem_cons_of_mem hm) (not_le.mp hlarge)
      have hnil := ((Multiset.singleton_eq_cons_iff s.held).mp hone.symm).2
      rw [hnil] at hm
      exact Multiset.notMem_zero m hm

/-- Every request is for at least one chunk. -/
def AsksForChunks : SemEvent → Prop
  | .acquire n => 0 < n
  | .wake _ | .release _ => True

/-- The weights of the tasks are positive. -/
def Positive (s : SemaphoreRun) : Prop := ∀ n, .waiting n ∈ s.tasks ∨ .holding n ∈ s.tasks → 0 < n

/-- A task may be replaced by one of a positive weight, or by one without a weight. -/
theorem Positive.set (h : s.Positive) (sem : WeightedSemaphore) {task : SemTask}
    (htask : ∀ n, task = .waiting n ∨ task = .holding n → 0 < n) :
    Positive ⟨sem, s.tasks.set i task⟩ := by
  intro m hm
  rcases hm with hm | hm
  · rcases List.mem_or_eq_of_mem_set hm with hm | hm
    · exact h m (.inl hm)
    · exact htask m (.inl hm.symm)
  · rcases List.mem_or_eq_of_mem_set hm with hm | hm
    · exact h m (.inr hm)
    · exact htask m (.inr hm.symm)

theorem positive_step (s : SemaphoreRun) (e : SemEvent) (h : s.Positive) (hask : AsksForChunks e) :
    (s.step e).Positive := by
  cases e with
  | acquire n =>
    show (s.acquire n).Positive
    unfold acquire
    split
    · exact h
    · intro m hm
      simp only [List.mem_append, List.mem_singleton, SemTask.waiting.injEq, reduceCtorEq,
        or_false] at hm
      rcases hm with (hm | rfl) | hm
      · exact h m (.inl hm)
      · exact hask
      · exact h m (.inr hm)
  | wake i =>
    show (s.wake i).Positive
    unfold wake
    split
    · rename_i n htask
      split
      · refine h.set _ fun m hm => ?_
        rcases hm with hm | hm
        · cases hm
        · cases hm
          exact h n (.inl (List.mem_of_getElem? htask))
      · exact h
    · exact h
  | release i =>
    show (s.release i).Positive
    unfold release
    split
    · refine h.set _ fun m hm => ?_
      rcases hm with hm | hm <;> cases hm
    · exact h

/-- With a half that is not nothing, nobody is let in beside a holder of more. -/
theorem holdsApart_of_half (h : s.Sound) (hpos : s.Positive) (hbudget : s.sem.chunkBudgetCap ≠ 1)
    (e : SemEvent) : s.HoldsApart e := by
  cases e with
  | acquire n => trivial
  | release i => trivial
  | wake i =>
    intro n htask hmay
    have hn : 0 < n := hpos n (.inl (List.mem_of_getElem? htask))
    have hasked := h.asked n (List.mem_of_getElem? htask)
    have hhalf := h.half
    unfold WeightedSemaphore.mayAcquire at hmay
    cases h.balance with
    | shared hsmall hfits hrest =>
      refine ⟨fun hlarge => ?_, hsmall⟩
      rw [if_neg (by omega)] at hmay
      have hall : s.sem.currentChunks = s.sem.concurrentBudgetCap := by simpa using hmay
      by_contra hsome
      -- a holder has at least one chunk, which is missing from the half
      obtain ⟨m, hm⟩ := Multiset.exists_mem_of_ne_zero hsome
      have hle : m ≤ s.held.sum := Multiset.single_le_sum (fun _ _ => Nat.zero_le _) m hm
      obtain ⟨task, htask, hheld⟩ := (Multiset.mem_filterMap _ _).mp hm
      have hmpos : 0 < m := by
        cases task with
        | holding k =>
          cases hheld
          exact hpos m (.inr (Multiset.mem_coe.mp htask))
        | waiting k => cases hheld
        | done => cases hheld
      omega
    | oversized m hheld hlarge hfits hrest =>
      -- nothing is available, which is less than a chunk and less than the half
      exfalso
      split at hmay
      · have henough : (n : Int) ≤ s.sem.currentChunks := by simpa using hmay
        omega
      · have hall : s.sem.currentChunks = s.sem.concurrentBudgetCap := by simpa using hmay
        omega

theorem chunkBudgetCap_step (s : SemaphoreRun) (e : SemEvent) :
    (s.step e).sem.chunkBudgetCap = s.sem.chunkBudgetCap := by
  cases e with
  | acquire n =>
    show (s.acquire n).sem.chunkBudgetCap = _
    unfold acquire
    split <;> rfl
  | wake i =>
    show (s.wake i).sem.chunkBudgetCap = _
    unfold wake
    split
    · split
      · exact WeightedSemaphore.chunkBudgetCap_take _ _
      · rfl
    · rfl
  | release i =>
    show (s.release i).sem.chunkBudgetCap = _
    unfold release
    split
    · exact WeightedSemaphore.chunkBudgetCap_release _ _
    · rfl

theorem guarded_holdsApart {chunkBudget : Nat} (hbudget : chunkBudget ≠ 1) {es : List SemEvent}
    (hes : ∀ e ∈ es, AsksForChunks e) : Guarded step HoldsApart (init chunkBudget) es := by
  have hkeep : ∀ (s : SemaphoreRun) e,
      (s.Sound ∧ s.Positive ∧ s.sem.chunkBudgetCap ≠ 1) → AsksForChunks e →
      ((s.step e).Sound ∧ (s.step e).Positive ∧ (s.step e).sem.chunkBudgetCap ≠ 1) := by
    intro s e ⟨hsound, hpos, hcap⟩ hask
    refine ⟨sound_step s e hsound (holdsApart_of_half hsound hpos hcap e),
      positive_step s e hpos hask, ?_⟩
    rw [chunkBudgetCap_step]
    exact hcap
  refine (guarded_of_forall hes).mono_of_inv hkeep
    (fun s e h _ => holdsApart_of_half h.1 h.2.1 h.2.2 e) ⟨sound_init chunkBudget, ?_, ?_⟩
  · intro n hn
    rcases hn with hn | hn <;> cases hn
  · show (chunkBudget : Int) ≠ 1
    exact_mod_cast hbudget

/-- It can fail: of a budget of one chunk, two tasks get the chunk at once. -/
theorem not_always_bounded :
    ¬ Always step Bounded (init 1) [.acquire 1, .acquire 1, .wake 0, .wake 1] := by
  intro h
  have htotal := h.last.total
  revert htotal
  decide +kernel

/-- **When the semaphore bounds what is held.**  Along a run, exactly when whoever is let in leaves
the holders of more than half alone; and in every run of requests for at least one chunk, exactly
when the budget is not one chunk. -/
theorem always_bounded_iff (chunkBudget : Nat) :
    (∀ es, Always step Bounded (init chunkBudget) es ↔
      Guarded step HoldsApart (init chunkBudget) es) ∧
    ((∀ es, (∀ e ∈ es, AsksForChunks e) → Always step Bounded (init chunkBudget) es) ↔
      chunkBudget ≠ 1) := by
  have hrun : ∀ es, Always step Bounded (init chunkBudget) es ↔
      Guarded step HoldsApart (init chunkBudget) es := fun es =>
    always_iff_guarded_of_stronger (fun _ => Sound.bounded) sound_step
      (fun s e _ h => holdsApart_of_bounded s e h) (sound_init chunkBudget)
  refine ⟨hrun, fun h hone => ?_, fun hbudget es hes => ?_⟩
  · subst hone
    have htotal := (h [.acquire 1, .acquire 1, .wake 0, .wake 1] (by
      intro e he
      fin_cases he <;> first | exact Nat.one_pos | trivial)).last.total
    revert htotal
    decide +kernel
  · exact (hrun es).mpr (guarded_holdsApart hbudget hes)

end SemaphoreRun

end LMCache.Storage
