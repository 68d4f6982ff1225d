/-
# LMCache.Storage.LeaseJobs — jobs of the HyperPod connector that wait for jobs.

Source: `AsyncPQExecutor.submit_job` and `_worker` of
`v1/storage_backend/job_executor/pq_executor.py`, and the operations of
`v1/storage_backend/connector/sagemaker_hyperpod_connector.py` that use the executor.

The executor has a queue ordered by priority and a fixed number of workers, each of which takes a
job, runs it to its end and resolves the future of the one who submitted it.  `get` and `exists`
submit a lease acquisition and wait for it outside the executor.  The two batched operations are
jobs themselves, and wait for lease acquisitions that they submit to the same executor: while such
a job waits, it keeps its worker.
-/
import LMCache.Lib.Run
import LMCache.Lib.PriorityQueue
import LMCache.CacheEngineKey

namespace LMCache.Storage

open LMCache.Lib

/-! ## Jobs -/

/-- `Priorities`. -/
inductive Priorities where
  | LEASE
  | PREFETCH
  | PUT
  deriving DecidableEq, Repr

/-- The value of a member of the enumeration. -/
def Priorities.value : Priorities → Int
  | .LEASE => 0
  | .PREFETCH => 1
  | .PUT => 2

/-- The functions that the connector submits to the executor. -/
inductive LeaseJob where
  | acquireLease (key : CacheEngineKey)
  | put (key : CacheEngineKey)
  | batchedAsyncContains (keys : List CacheEngineKey)
  | batchedGetNonBlocking (keys : List CacheEngineKey)
  deriving DecidableEq, Repr

namespace LeaseJob

/-- The priority a job is submitted with. -/
def priority : LeaseJob → Priorities
  | .acquireLease _ => .LEASE
  | .put _ => .PUT
  | .batchedAsyncContains _ => .LEASE
  | .batchedGetNonBlocking _ => .PREFETCH

/-- The keys that a job submits lease acquisitions for. -/
def keys : LeaseJob → List CacheEngineKey
  | .acquireLease _ => []
  | .put _ => []
  | .batchedAsyncContains keys => keys
  | .batchedGetNonBlocking keys => keys

/-- The job submits jobs. -/
def nested (job : LeaseJob) : Bool := job.keys ≠ []

@[simp] theorem nested_acquireLease (key : CacheEngineKey) : (acquireLease key).nested = false :=
  rfl

end LeaseJob

/-- The operations of the connector. -/
inductive ConnectorOp where
  | batchedAsyncContains (keys : List CacheEngineKey)
  | batchedGetNonBlocking (keys : List CacheEngineKey)
  | get (key : CacheEngineKey)
  | exists (key : CacheEngineKey)
  | put (key : CacheEngineKey)
  deriving DecidableEq, Repr

/-- The job that an operation submits. -/
def ConnectorOp.job : ConnectorOp → LeaseJob
  | .batchedAsyncContains keys => .batchedAsyncContains keys
  | .batchedGetNonBlocking keys => .batchedGetNonBlocking keys
  | .get key => .acquireLease key
  | .exists key => .acquireLease key
  | .put key => .put key

/-! ## The executor -/

/-- A job that a worker runs: the keys for which it has not submitted a lease acquisition yet, and
the numbers of those it has submitted. -/
structure LeaseTask where
  timeId : Nat
  job : LeaseJob
  toSubmit : List CacheEngineKey
  awaiting : List Nat
  deriving DecidableEq, Repr

/-- The executor with the operations that are still to be submitted. -/
structure LeaseExecutor where
  ops : List ConnectorOp
  queue : PriorityQueue LeaseJob := {}
  workers : List (Option LeaseTask)
  /-- The jobs whose futures are resolved. -/
  done : List Nat := []
  deriving DecidableEq, Repr

/-- What happens next. -/
inductive LeaseEvent where
  /-- The caller of the operation runs, up to `submit_job`. -/
  | submit (i : Nat)
  /-- A worker takes a job. -/
  | take (w : Nat)
  /-- The job of a worker runs, up to where it waits or returns; `hit` says whether the last lease
  acquisition gave a lease. -/
  | advance (w : Nat) (hit : Bool)
  deriving DecidableEq, Repr

namespace LeaseExecutor

/-- The operations and idle workers. -/
def start (maxWorkers : Nat) (ops : List ConnectorOp) : LeaseExecutor where
  ops := ops
  workers := List.replicate maxWorkers none

/-- `submit_job`: the job is put into the queue. -/
def submitJob (s : LeaseExecutor) (job : LeaseJob) : LeaseExecutor :=
  { s with queue := s.queue.put job.priority.value job }

/-- A worker takes the least item of the queue. -/
def takeJob (s : LeaseExecutor) (w : Nat) : LeaseExecutor :=
  match s.queue.get? with
  | none => s
  | some (item, queue) =>
    { s with
      queue := queue
      workers := s.workers.set w (some ⟨item.timeId, item.payload, item.payload.keys, []⟩) }

/-- The job of a worker returns, and its future is resolved. -/
def finish (s : LeaseExecutor) (w : Nat) (task : LeaseTask) : LeaseExecutor :=
  { s with
    workers := s.workers.set w none
    done := s.done ++ [task.timeId] }

/-- The job of a worker submits a lease acquisition. -/
def submitLease (s : LeaseExecutor) (w : Nat) (task : LeaseTask) (key : CacheEngineKey)
    (keys : List CacheEngineKey) (awaiting : List Nat) : LeaseExecutor :=
  { s.submitJob (.acquireLease key) with
    workers := s.workers.set w
      (some { task with
        toSubmit := keys
        awaiting := awaiting ++ [s.queue.counter] }) }

/-- The job of a worker runs. -/
def advance (s : LeaseExecutor) (w : Nat) (hit : Bool) (task : LeaseTask) : LeaseExecutor :=
  match task.job with
  | .acquireLease _ | .put _ => s.finish w task
  | .batchedAsyncContains _ =>
    -- one key after the other, until there is no lease
    if task.awaiting ⊆ s.done then
      if task.awaiting ≠ [] ∧ hit = false then s.finish w task
      else
        match task.toSubmit with
        | [] => s.finish w task
        | key :: keys => s.submitLease w task key keys []
    else s
  | .batchedGetNonBlocking _ =>
    -- all keys beside each other
    match task.toSubmit with
    | key :: keys => s.submitLease w task key keys task.awaiting
    | [] => if task.awaiting ⊆ s.done then s.finish w task else s

def step (s : LeaseExecutor) : LeaseEvent → LeaseExecutor
  | .submit i =>
    match s.ops[i]? with
    | none => s
    | some op => { s.submitJob op.job with ops := s.ops.eraseIdx i }
  | .take w => if s.workers[w]? = some none then s.takeJob w else s
  | .advance w hit =>
    match s.workers[w]? with
    | some (some task) => s.advance w hit task
    | _ => s

/-- A job that a worker runs waits for a job that is in the queue. -/
def Stuck (s : LeaseExecutor) (task : LeaseTask) : Prop :=
  ∃ item ∈ s.queue.items, item.timeId ∈ task.awaiting

/-- **Deadlock.**  Every worker waits for a job that is in the queue. -/
def Deadlocked (s : LeaseExecutor) : Prop :=
  ∀ worker ∈ s.workers, ∃ task, worker = some task ∧ s.Stuck task

instance (s : LeaseExecutor) : Decidable s.Deadlocked :=
  decidable_of_iff (∀ worker ∈ s.workers, worker.any fun task =>
      s.queue.items.any fun item => item.timeId ∈ task.awaiting) (by
    simp only [Deadlocked, Stuck, Option.any_eq_true, List.any_eq_true, decide_eq_true_eq])

/-! ## Too few jobs that wait -/

/-- The jobs that submit jobs: those to come, those in the queue and those that workers run. -/
def nestedCount (s : LeaseExecutor) : Nat :=
  s.ops.countP (fun op => op.job.nested) + s.queue.items.countP (fun item => item.payload.nested) +
    s.workers.countP fun worker => worker.any fun task => task.job.nested

/-- What holds after any steps: no worker comes or goes, no job that submits jobs is counted twice,
and only such a job has something to submit or to wait for. -/
structure Inv (maxWorkers nested : Nat) (s : LeaseExecutor) : Prop where
  size : s.workers.length = maxWorkers
  count : s.nestedCount ≤ nested
  waits : ∀ task, some task ∈ s.workers → task.toSubmit ≠ [] ∨ task.awaiting ≠ [] →
    task.job.nested = true

variable {s : LeaseExecutor} {maxWorkers nested : Nat}

theorem Inv.start (maxWorkers : Nat) (ops : List ConnectorOp) :
    Inv maxWorkers (ops.countP fun op => op.job.nested) (start maxWorkers ops) := by
  refine ⟨List.length_replicate, ?_, ?_⟩
  · unfold nestedCount LeaseExecutor.start
    simp
  · intro task htask
    have hnone := List.eq_of_mem_replicate htask
    cases hnone

/-- **Step lemma: a submission.** -/
theorem Inv.submit (h : s.Inv maxWorkers nested) (i : Nat) :
    (s.step (.submit i)).Inv maxWorkers nested := by
  unfold step
  dsimp only
  match hop : s.ops[i]? with
  | none => exact h
  | some op =>
    refine ⟨h.size, ?_, h.waits⟩
    have hcount := h.count
    obtain ⟨hi, rfl⟩ := List.getElem?_eq_some_iff.mp hop
    have hperm := (List.getElem_cons_eraseIdx_perm hi).countP_eq fun op => op.job.nested
    unfold nestedCount at hcount
    show (s.ops.eraseIdx i).countP (fun op => op.job.nested) +
      (s.queue.put s.ops[i].job.priority.value s.ops[i].job).items.countP
        (fun item => item.payload.nested) +
      s.workers.countP (fun worker => worker.any fun task => task.job.nested) ≤ nested
    rw [PriorityQueue.put, List.countP_append, List.countP_singleton]
    rw [List.countP_cons] at hperm
    dsimp only
    omega

/-- **Step lemma: a worker takes a job.** -/
theorem Inv.take (h : s.Inv maxWorkers nested) (w : Nat) :
    (s.step (.take w)).Inv maxWorkers nested := by
  unfold step
  dsimp only
  split
  · rename_i hidle
    unfold takeJob
    match hget : s.queue.get? with
    | none => exact h
    | some (item, queue) =>
      obtain ⟨hperm, -, -⟩ := PriorityQueue.get?_eq_some hget
      obtain ⟨hw, hnone⟩ := List.getElem?_eq_some_iff.mp hidle
      refine ⟨?_, ?_, ?_⟩
      · exact List.length_set.trans h.size
      · have hcount := h.count
        have hqueue := hperm.countP_eq fun item => item.payload.nested
        unfold nestedCount at *
        dsimp only
        rw [List.countP_set hw, hnone]
        rw [List.countP_cons] at hqueue
        simp only [Option.any_none, Option.any_some] at *
        simp only [Bool.false_eq_true, if_false, Nat.sub_zero]
        omega
      · intro task htask hwaits
        rcases List.mem_or_eq_of_mem_set htask with htask | heq
        · exact h.waits task htask hwaits
        · cases heq
          rcases hwaits with hkeys | hawaiting
          · exact decide_eq_true hkeys
          · contradiction
  · exact h

variable {task : LeaseTask} {fresh : List LeaseTask}

/-- A job returns. -/
theorem Inv.finish (h : s.Inv maxWorkers nested) {w : Nat}
    (hworker : s.workers[w]? = some (some task)) : (s.finish w task).Inv maxWorkers nested := by
  obtain ⟨hw, hsome⟩ := List.getElem?_eq_some_iff.mp hworker
  refine ⟨List.length_set.trans h.size, ?_, ?_⟩
  · have hcount := h.count
    unfold nestedCount LeaseExecutor.finish at *
    dsimp only
    rw [List.countP_set hw]
    simp only [Option.any_none, Bool.false_eq_true, if_false, Nat.add_zero]
    omega
  · intro task' htask' hwaits
    rcases List.mem_or_eq_of_mem_set htask' with htask' | heq
    · exact h.waits task' htask' hwaits
    · cases heq

/-- A job submits a lease acquisition: it is the same job, and the other one submits nothing. -/
theorem Inv.submitLease (h : s.Inv maxWorkers nested) {w : Nat}
    (hworker : s.workers[w]? = some (some task)) {key : CacheEngineKey} {keys : List CacheEngineKey}
    (hkeys : task.toSubmit = key :: keys) (awaiting : List Nat) :
    (s.submitLease w task key keys awaiting).Inv maxWorkers nested := by
  obtain ⟨hw, hsome⟩ := List.getElem?_eq_some_iff.mp hworker
  have hnested : task.job.nested = true :=
    h.waits task (List.mem_of_getElem? hworker) (.inl (by simp [hkeys]))
  refine ⟨List.length_set.trans h.size, ?_, ?_⟩
  · have hcount := h.count
    have hpos : 0 < s.workers.countP fun worker => worker.any fun task => task.job.nested :=
      List.countP_pos_iff.mpr ⟨some task, List.mem_of_getElem? hworker, by simpa using hnested⟩
    unfold nestedCount at hcount
    show s.ops.countP (fun op => op.job.nested) +
      (s.queue.put 0 (.acquireLease key)).items.countP (fun item => item.payload.nested) +
      (s.workers.set w (some ⟨task.timeId, task.job, _, _⟩)).countP
        (fun worker => worker.any fun task => task.job.nested) ≤ nested
    rw [List.countP_set hw, hsome, PriorityQueue.put, List.countP_append, List.countP_singleton]
    simp only [Option.any_some, hnested, if_true, LeaseJob.nested_acquireLease,
      Bool.false_eq_true, if_false]
    omega
  · intro task' htask' hwaits
    rcases List.mem_or_eq_of_mem_set htask' with htask' | heq
    · exact h.waits task' htask' hwaits
    · cases heq
      exact hnested

/-- **Step lemma.** -/
theorem inv_step (s : LeaseExecutor) (e : LeaseEvent) (h : s.Inv maxWorkers nested) :
    (s.step e).Inv maxWorkers nested := by
  match e with
  | .submit i => exact h.submit i
  | .take w => exact h.take w
  | .advance w hit =>
    unfold step
    dsimp only
    split
    · rename_i task hworker
      unfold advance
      split
      · exact h.finish hworker
      · exact h.finish hworker
      · split
        · split
          · exact h.finish hworker
          · split
            · exact h.finish hworker
            · rename_i hkeys
              exact h.submitLease hworker hkeys _
        · exact h
      · split
        · rename_i hkeys
          exact h.submitLease hworker hkeys _
        · split
          · exact h.finish hworker
          · exact h
    · exact h

/-- With fewer such jobs than workers, some worker does not wait. -/
theorem Inv.not_deadlocked (h : s.Inv maxWorkers nested) (hlt : nested < maxWorkers) :
    ¬ s.Deadlocked := by
  intro hdead
  have hall : (s.workers.countP fun worker => worker.any fun task => task.job.nested) =
      s.workers.length := by
    apply List.countP_eq_length.mpr
    intro worker hworker
    obtain ⟨task, rfl, item, -, hitem⟩ := hdead worker hworker
    exact h.waits task hworker (.inr (List.ne_nil_of_mem hitem))
  have hcount := h.count
  have hsize := h.size
  unfold nestedCount at hcount
  omega

/-! ## As many jobs that wait as workers -/

/-- A job that submits jobs has just been taken. -/
structure Fresh (task : LeaseTask) : Prop where
  nested : task.job.nested = true
  toSubmit : task.toSubmit = task.job.keys
  awaiting : task.awaiting = []

/-- A worker that is idle takes a job that submits jobs, if there is one to come and no other in the
queue. -/
theorem exists_taken {idle : List (Option LeaseTask)}
    (hworkers : s.workers = fresh.map some ++ none :: idle) (hqueue : s.queue.items = [])
    (hops : 0 < s.ops.countP fun op => op.job.nested) :
    ∃ es task, (run step s es).workers = (fresh ++ [task]).map some ++ idle ∧
      (run step s es).queue.items = [] ∧ Fresh task ∧
      (s.ops.countP fun op => op.job.nested) =
        ((run step s es).ops.countP fun op => op.job.nested) + 1 := by
  obtain ⟨op, hop, hnested⟩ := List.countP_pos_iff.mp hops
  obtain ⟨i, hi, rfl⟩ := List.getElem_of_mem hop
  refine ⟨[.submit i, .take fresh.length],
    ⟨s.queue.counter, s.ops[i].job, s.ops[i].job.keys, []⟩, ?_⟩
  have hsubmit : s.step (.submit i) =
      { s with
        ops := s.ops.eraseIdx i
        queue := ⟨[⟨s.ops[i].job.priority.value, s.queue.counter, s.ops[i].job⟩],
          s.queue.counter + 1⟩ } := by
    unfold step
    simp only [List.getElem?_eq_getElem hi, submitJob, PriorityQueue.put, hqueue, List.nil_append]
  have hidle : s.workers[fresh.length]? = some none := by
    rw [hworkers, List.getElem?_append_right (by simp)]
    simp
  have hset : ∀ task, s.workers.set fresh.length (some task) =
      (fresh ++ [task]).map some ++ idle := by
    intro task
    rw [hworkers, List.set_append_right _ _ (by simp)]
    simp
  have hperm := (List.getElem_cons_eraseIdx_perm hi).countP_eq fun op => op.job.nested
  rw [run_cons, run_cons, run_nil, hsubmit]
  unfold step
  dsimp only
  rw [if_pos hidle]
  unfold takeJob
  rw [PriorityQueue.get?_singleton]
  refine ⟨hset _, rfl, ⟨hnested, rfl, rfl⟩, ?_⟩
  rw [List.countP_cons, if_pos hnested] at hperm
  exact hperm.symm

/-- All workers take such jobs. -/
theorem exists_all_taken (k : Nat) (hworkers : s.workers = fresh.map some ++ List.replicate k none)
    (hqueue : s.queue.items = []) (hfresh : ∀ task ∈ fresh, Fresh task)
    (hops : k ≤ s.ops.countP fun op => op.job.nested) :
    ∃ es, ∃ tasks : List LeaseTask, (run step s es).workers = tasks.map some ∧
      ∀ task ∈ tasks, Fresh task := by
  induction k generalizing s fresh with
  | zero => exact ⟨[], fresh, by simpa using hworkers, hfresh⟩
  | succ k ih =>
    rw [List.replicate_succ] at hworkers
    obtain ⟨es, task, hworkers', hqueue', htask, hops'⟩ :=
      exists_taken hworkers hqueue (by omega)
    have hfresh' : ∀ task' ∈ fresh ++ [task], Fresh task' := by
      intro task' htask'
      rcases List.mem_append.mp htask' with htask' | htask'
      · exact hfresh task' htask'
      · exact List.mem_singleton.mp htask' ▸ htask
    obtain ⟨es', tasks, hall⟩ := ih hworkers' hqueue' hfresh' (by omega)
    refine ⟨es ++ es', tasks, ?_⟩
    rw [run, List.foldl_append]
    exact hall

/-- A job that has just been taken submits a lease acquisition first. -/
theorem advance_fresh (h : Fresh task) (w : Nat) :
    ∃ key keys, s.advance w true task = s.submitLease w task key keys [] := by
  obtain ⟨timeId, job, toSubmit, awaiting⟩ := task
  obtain ⟨hnested, hsubmit, hawaiting⟩ := h
  dsimp only at hnested hsubmit hawaiting
  subst hsubmit hawaiting
  match job with
  | .acquireLease _ | .put _ => cases hnested
  | .batchedAsyncContains [] | .batchedGetNonBlocking [] => cases hnested
  | .batchedAsyncContains (key :: keys) =>
    refine ⟨key, keys, ?_⟩
    unfold advance
    rw [if_pos (List.nil_subset _), if_neg (by simp)]
    rfl
  | .batchedGetNonBlocking (key :: keys) => exact ⟨key, keys, rfl⟩

/-- One after the other they wait for what they have submitted, and nobody is left to run it. -/
theorem exists_deadlocked {stuck : List LeaseTask}
    (hworkers : s.workers = (stuck ++ fresh).map some) (hstuck : ∀ task ∈ stuck, s.Stuck task)
    (hfresh : ∀ task ∈ fresh, Fresh task) : ∃ es, (run step s es).Deadlocked := by
  induction fresh generalizing s stuck with
  | nil =>
    refine ⟨[], ?_⟩
    intro worker hworker
    rw [run_nil, hworkers, List.append_nil] at hworker
    obtain ⟨task, htask, rfl⟩ := List.mem_map.mp hworker
    exact ⟨task, rfl, hstuck task htask⟩
  | cons task fresh ih =>
    obtain ⟨htask, hfresh⟩ := List.forall_mem_cons.mp hfresh
    obtain ⟨key, keys, hadvance⟩ := advance_fresh (s := s) htask stuck.length
    have hworker : s.workers[stuck.length]? = some (some task) := by
      rw [hworkers, List.getElem?_map, List.getElem?_append_right (Nat.le_refl _)]
      simp
    have hstep : s.step (.advance stuck.length true) =
        s.submitLease stuck.length task key keys [] := by
      unfold step
      simp only [hworker, hadvance]
    -- the task as it is now
    let waiting : LeaseTask := { task with
      toSubmit := keys
      awaiting := [s.queue.counter] }
    have hworkers' : (s.submitLease stuck.length task key keys []).workers =
        (stuck ++ [waiting] ++ fresh).map some := by
      show s.workers.set stuck.length (some waiting) = _
      rw [hworkers, List.map_append, List.set_append_right _ _ (by simp)]
      simp
    obtain ⟨es, hdead⟩ := ih hworkers' (by
      intro task' htask'
      rcases List.mem_append.mp htask' with htask' | htask'
      · obtain ⟨item, hitem, hid⟩ := hstuck task' htask'
        exact ⟨item, List.mem_append_left _ hitem, hid⟩
      · cases List.mem_singleton.mp htask'
        exact ⟨_, List.mem_append_right _ (List.mem_singleton_self _), List.mem_singleton_self _⟩)
      hfresh
    refine ⟨.advance stuck.length true :: es, ?_⟩
    rw [run_cons, hstep]
    exact hdead

/-- **Nested jobs.**  No order of steps leads to a deadlock if and only if fewer operations that
wait for lease acquisitions inside the executor are submitted than there are workers. -/
theorem never_deadlocked_iff (maxWorkers : Nat) (ops : List ConnectorOp) :
    (∀ es, ¬ (run step (start maxWorkers ops) es).Deadlocked) ↔
      (ops.countP fun op => op.job.nested) < maxWorkers := by
  constructor
  · intro hnever
    by_contra hge
    have hnone : ∀ {P : LeaseTask → Prop}, ∀ task ∈ ([] : List LeaseTask), P task :=
      fun _ hmem => absurd hmem List.not_mem_nil
    have hidle : (start maxWorkers ops).workers = ([] : List LeaseTask).map some ++
        List.replicate maxWorkers none := rfl
    obtain ⟨es, tasks, hworkers, hfresh⟩ :=
      exists_all_taken maxWorkers hidle rfl hnone (Nat.le_of_not_lt hge)
    obtain ⟨es', hdead⟩ :=
      exists_deadlocked (by rwa [List.nil_append]) (hnone (P := (run step _ es).Stuck)) hfresh
    apply hnever (es ++ es')
    rw [run, List.foldl_append]
    exact hdead
  · intro hlt es
    have hinv := (always_of_step inv_step (Inv.start maxWorkers ops) es).last
    exact hinv.not_deadlocked hlt

/-- Four lookups at the same time, for the four workers that the connector has: all are taken, and
then each submits its first lease acquisition. -/
theorem deadlocked_four_lookups :
    ¬ ∀ es, ¬ (run step (start 4 (List.replicate 4
      (.batchedAsyncContains [⟨"model", 1, 0, 0, .float16, none, none⟩]))) es).Deadlocked := by
  intro h
  apply h [.submit 0, .submit 0, .submit 0, .submit 0, .take 0, .take 1, .take 2, .take 3,
    .advance 0 true, .advance 1 true, .advance 2 true, .advance 3 true]
  decide +kernel

end LeaseExecutor

end LMCache.Storage
