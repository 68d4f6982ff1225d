/-
# LMCache.Storage.JobExecutor — executors with a queue ordered by priority.

Source: `AsyncPQExecutor` and `AsyncPQThreadPoolExecutor` of
`v1/storage_backend/job_executor/pq_executor.py`.

Both have a queue and workers that take its least item.  A shutdown puts one sentinel for each
worker behind the jobs.  The executor of coroutines then cancels its workers at once; the executor
of functions, which run in threads, first waits until every item is marked as done.

Everything runs in one event loop: a worker goes on until something suspends it.  The put of a
sentinel has woken each worker that waits for an item before a cancellation reaches it.  A job that
suspends lets a cancellation through.
-/
import LMCache.Lib.Run
import LMCache.Lib.PriorityQueue
import LMCache.Lib.Weights
import Mathlib.Data.List.Nodup

namespace LMCache.Storage

open LMCache.Lib

/-! ## Jobs and workers -/

/-- How the call of a job ends. -/
inductive JobOutcome (ρ ε : Type) where
  | result (value : ρ)
  | exception (error : ε)
  /-- An exception that is no `Exception`, such as a `CancelledError` of its own. -/
  | baseException
  deriving DecidableEq

/-- A job: whether its coroutine suspends before it ends, and how it ends. -/
structure PQJob (ρ ε : Type) where
  suspends : Bool
  outcome : JobOutcome ρ ε
  deriving DecidableEq

/-- What the queue holds. -/
inductive PQPayload (ρ ε : Type) where
  | job (job : PQJob ρ ε)
  | sentinel
  deriving DecidableEq

/-- Where a worker is: it waits for an item, it has called a job, or its coroutine has ended. -/
inductive PQWorker (ρ ε : Type) where
  | waiting
  | running (timeId : Nat) (job : PQJob ρ ε)
  | exited
  deriving DecidableEq

/-- The two classes. -/
inductive ExecutorKind where
  /-- `AsyncPQExecutor`. -/
  | async
  /-- `AsyncPQThreadPoolExecutor`. -/
  | threadPool
  deriving DecidableEq

/-- A worker of the second class waits for a thread, whatever the job does there. -/
def ExecutorKind.suspends {ρ ε : Type} (kind : ExecutorKind) (job : PQJob ρ ε) : Bool :=
  kind = .threadPool || job.suspends

/-- An executor. -/
structure PQExecutor (ρ ε : Type) where
  queue : PriorityQueue (PQPayload ρ ε) := {}
  workers : List (PQWorker ρ ε)
  /-- The items that have not been marked as done. -/
  unfinished : Nat := 0
  closed : Bool := false
  /-- The keys of the jobs, as they were started. -/
  started : List PQKey := []
  /-- The jobs whose submitters were cancelled: their futures are cancelled too. -/
  cancelled : List Nat := []
  /-- The futures that are resolved, and what with. -/
  resolved : List (Nat × JobOutcome ρ ε) := []
  deriving DecidableEq

/-- What a worker does, or what happens to it. -/
inductive WorkerEvent where
  /-- It takes an item, and runs until it is suspended. -/
  | take (w : Nat)
  /-- The job it has called ends. -/
  | finish (w : Nat)
  /-- The cancellation that the shutdown has asked for reaches it. -/
  | cancel (w : Nat)
  deriving DecidableEq

/-- What happens before the shutdown. -/
inductive ExecutorEvent (ρ ε : Type) where
  | submit (priority : Int) (job : PQJob ρ ε)
  /-- The submitter of a job is cancelled while it waits. -/
  | cancelSubmitter (timeId : Nat)
  | worker (e : WorkerEvent)
  deriving DecidableEq

/-- The priority of the sentinels. -/
def sentinelPriority : Int := 2 ^ 31 - 1

namespace PQExecutor

variable {ρ ε : Type}

/-! ## The executors -/

/-- The executor as it is built. -/
def start (maxWorkers : Nat) : PQExecutor ρ ε where
  workers := List.replicate maxWorkers .waiting

/-- `submit_job`, up to where it waits. -/
def submitJob (s : PQExecutor ρ ε) (priority : Int) (job : PQJob ρ ε) : PQExecutor ρ ε :=
  { s with
    queue := s.queue.put priority (.job job)
    unfinished := s.unfinished + 1 }

/-- The wait in `submit_job` is cancelled, and with it the future, unless it is resolved. -/
def cancelSubmitter (s : PQExecutor ρ ε) (timeId : Nat) : PQExecutor ρ ε :=
  if timeId < s.queue.counter ∧ timeId ∉ s.resolved.map Prod.fst then
    { s with cancelled := timeId :: s.cancelled }
  else s

/-- A worker ends, with the item that it has taken marked as done. -/
def exitWorker (s : PQExecutor ρ ε) (w : Nat) : PQExecutor ρ ε :=
  { s with
    workers := s.workers.set w .exited
    unfinished := s.unfinished - 1 }

/-- The future of a job can be resolved with how the job ends: a future that is cancelled takes
neither a result nor the exception that comes from it. -/
def Settles (cancelled : List Nat) (timeId : Nat) (job : PQJob ρ ε) : Prop :=
  job.outcome ≠ .baseException ∧ timeId ∉ cancelled

/-- A worker calls the job it has taken. -/
def startJob (s : PQExecutor ρ ε) (w : Nat) (item : PQItem (PQPayload ρ ε))
    (queue : PriorityQueue (PQPayload ρ ε)) (job : PQJob ρ ε) : PQExecutor ρ ε :=
  { s with
    queue := queue
    workers := s.workers.set w (.running item.timeId job)
    started := s.started ++ [item.key] }

variable [DecidableEq ρ] [DecidableEq ε]

instance (cancelled : List Nat) (timeId : Nat) (job : PQJob ρ ε) :
    Decidable (Settles cancelled timeId job) := by
  unfold Settles
  infer_instance

/-- The call of a job ends: the worker resolves the future and turns to the queue, or what the
handler does not catch ends the worker. -/
def endJob (s : PQExecutor ρ ε) (w timeId : Nat) (job : PQJob ρ ε) : PQExecutor ρ ε :=
  if Settles s.cancelled timeId job then
    { s with
      workers := s.workers.set w .waiting
      resolved := s.resolved ++ [(timeId, job.outcome)]
      unfinished := s.unfinished - 1 }
  else s.exitWorker w

/-- A worker that waits takes the least item. -/
def takeItem (kind : ExecutorKind) (s : PQExecutor ρ ε) (w : Nat) : PQExecutor ρ ε :=
  match s.queue.get? with
  | none => s
  | some (item, queue) =>
    match item.payload with
    | .sentinel => { s with queue := queue }.exitWorker w
    | .job job =>
      if kind.suspends job then s.startJob w item queue job
      else (s.startJob w item queue job).endJob w item.timeId job

/-- A cancellation reaches a worker: what a job has not ended with by then is lost.  A worker that
waits has been woken, and takes what there is first. -/
def cancelWorker (s : PQExecutor ρ ε) (w : Nat) : PQExecutor ρ ε :=
  match s.workers[w]? with
  | some (.running _ _) => s.exitWorker w
  | some .waiting =>
    if s.queue.items = [] then { s with workers := s.workers.set w .exited } else s
  | _ => s

/-- The shutdown has come to the cancellations: it waits for the queue before in one class. -/
def Cancels (kind : ExecutorKind) (s : PQExecutor ρ ε) : Prop :=
  s.closed = true ∧ (kind = .threadPool → s.unfinished = 0)

omit [DecidableEq ρ] [DecidableEq ε] in
instance (kind : ExecutorKind) (s : PQExecutor ρ ε) : Decidable (s.Cancels kind) := by
  unfold Cancels
  infer_instance

/-- One step of a worker. -/
def step (kind : ExecutorKind) (s : PQExecutor ρ ε) : WorkerEvent → PQExecutor ρ ε
  | .take w => if s.workers[w]? = some .waiting then s.takeItem kind w else s
  | .finish w =>
    match s.workers[w]? with
    | some (.running timeId job) => s.endJob w timeId job
    | _ => s
  | .cancel w => if s.Cancels kind then s.cancelWorker w else s

/-- One step before the shutdown. -/
def openStep (kind : ExecutorKind) (s : PQExecutor ρ ε) : ExecutorEvent ρ ε → PQExecutor ρ ε
  | .submit priority job => s.submitJob priority job
  | .cancelSubmitter timeId => s.cancelSubmitter timeId
  | .worker e => s.step kind e

/-- The sentinels are put, one after the other. -/
def putSentinels : Nat → PriorityQueue (PQPayload ρ ε) → PriorityQueue (PQPayload ρ ε)
  | 0, queue => queue
  | n + 1, queue => putSentinels n (queue.put sentinelPriority .sentinel)

/-- `_shutdown_async`, up to where it waits or cancels. -/
def shutdown (s : PQExecutor ρ ε) : PQExecutor ρ ε :=
  if s.closed then s
  else
    { s with
      closed := true
      queue := putSentinels s.workers.length s.queue
      unfinished := s.unfinished + s.workers.length }

/-! ## What a step can do -/

variable {kind : ExecutorKind} {s t : PQExecutor ρ ε} {e : WorkerEvent}

/-- **The cases of a step.** -/
inductive StepCase (kind : ExecutorKind) (s : PQExecutor ρ ε) (e : WorkerEvent) :
    PQExecutor ρ ε → Prop where
  | same : StepCase kind s e s
  | sentinel {w item queue} (hw : s.workers[w]? = some .waiting)
    (hget : s.queue.get? = some (item, queue)) (hitem : item.payload = .sentinel) :
    StepCase kind s e ({ s with queue := queue }.exitWorker w)
  | starts {w item queue job} (hw : s.workers[w]? = some .waiting)
    (hget : s.queue.get? = some (item, queue)) (hitem : item.payload = .job job)
    (hjob : kind.suspends job = true) : StepCase kind s e (s.startJob w item queue job)
  | completes {w item queue job} (hw : s.workers[w]? = some .waiting)
    (hget : s.queue.get? = some (item, queue)) (hitem : item.payload = .job job)
    (hjob : kind.suspends job = false) :
    StepCase kind s e ((s.startJob w item queue job).endJob w item.timeId job)
  | ends {w timeId job} (he : e = .finish w) (hw : s.workers[w]? = some (.running timeId job)) :
    StepCase kind s e (s.endJob w timeId job)
  | interrupted {w timeId job} (hc : s.Cancels kind)
    (hw : s.workers[w]? = some (.running timeId job)) : StepCase kind s e (s.exitWorker w)
  | stopped {w} (hc : s.Cancels kind) (hw : s.workers[w]? = some .waiting)
    (hempty : s.queue.items = []) :
    StepCase kind s e { s with workers := s.workers.set w .exited }

theorem stepCase (kind : ExecutorKind) (s : PQExecutor ρ ε) (e : WorkerEvent) :
    StepCase kind s e (s.step kind e) := by
  unfold step
  match e with
  | .take w =>
    dsimp only
    split
    · rename_i hw
      unfold takeItem
      match hget : s.queue.get? with
      | none => exact .same
      | some (item, queue) =>
        dsimp only
        split
        · rename_i hitem
          exact .sentinel hw hget hitem
        · rename_i job hitem
          split
          · rename_i hjob
            exact .starts hw hget hitem hjob
          · rename_i hjob
            exact .completes hw hget hitem (Bool.not_eq_true _ ▸ hjob)
    · exact .same
  | .finish w =>
    dsimp only
    split
    · rename_i hw
      exact .ends rfl hw
    · exact .same
  | .cancel w =>
    dsimp only
    split
    · rename_i hc
      unfold cancelWorker
      split
      · rename_i hw
        exact .interrupted hc hw
      · rename_i hw
        split
        · rename_i hempty
          exact .stopped hc hw hempty
        · exact .same
      · exact .same
    · exact .same

/-! ## What is counted -/

/-- The job that an item stands for. -/
def jobOf (item : PQItem (PQPayload ρ ε)) : Option (Nat × PQJob ρ ε) :=
  match item.payload with
  | .job job => some (item.timeId, job)
  | .sentinel => none

/-- The job that a worker has called. -/
def called : PQWorker ρ ε → Option (Nat × PQJob ρ ε)
  | .running timeId job => some (timeId, job)
  | _ => none

/-- The jobs that are queued or running. -/
def pending (s : PQExecutor ρ ε) : List (Nat × PQJob ρ ε) :=
  s.queue.items.filterMap jobOf ++ s.workers.filterMap called

/-- The workers that have called a job. -/
def calls (s : PQExecutor ρ ε) : Nat := (s.workers.filterMap called).length

/-- The workers that have not ended. -/
def alive (s : PQExecutor ρ ε) : Nat := s.workers.countP fun worker => worker ≠ .exited

/-- The sentinels in the queue. -/
def sentinels (s : PQExecutor ρ ε) : Nat :=
  s.queue.items.countP fun item => item.payload = .sentinel

/-- How much can still happen. -/
def left (s : PQExecutor ρ ε) : Nat := 2 * s.queue.items.length + s.calls + s.alive

variable {timeId w : Nat} {workers : List (PQWorker ρ ε)} {item : PQItem (PQPayload ρ ε)}
  {job : PQJob ρ ε} {queue : PriorityQueue (PQPayload ρ ε)}

/-- A worker that has not ended ends. -/
theorem alive_set {worker : PQWorker ρ ε} (hw : workers[w]? = some worker)
    (hworker : worker ≠ .exited) :
    (workers.set w .exited).countP (fun worker => worker ≠ .exited) + 1 =
      workers.countP fun worker => worker ≠ .exited := by
  obtain ⟨others, hworkers, hset⟩ := perm_set hw
  rw [(hset _).countP_eq, hworkers.countP_eq, List.countP_cons_of_neg (by simp),
    List.countP_cons_of_pos (by simpa using hworker)]

/-- A worker takes a job: the job is still pending. -/
theorem startJob_spec (hw : s.workers[w]? = some .waiting)
    (hget : s.queue.get? = some (item, queue)) (hitem : item.payload = .job job) :
    (s.startJob w item queue job).pending.Perm s.pending ∧
      (s.startJob w item queue job).queue.items.length + 1 = s.queue.items.length ∧
      (s.startJob w item queue job).calls = s.calls + 1 ∧
      (s.startJob w item queue job).alive = s.alive ∧
      (s.startJob w item queue job).sentinels = s.sentinels := by
  obtain ⟨others, hworkers, hset⟩ := perm_set hw
  obtain ⟨hitems, -, -⟩ := PriorityQueue.get?_eq_some hget
  have hjob : jobOf item = some (item.timeId, job) := by
    unfold jobOf
    rw [hitem]
  unfold pending calls alive sentinels startJob
  dsimp only
  refine ⟨?_, ?_, ?_, ?_, ?_⟩
  · refine (((hset _).filterMap called).append_left _).trans
      (.trans ?_ ((hitems.filterMap jobOf).append (hworkers.filterMap called)).symm)
    rw [List.filterMap_cons_some hjob]
    exact List.perm_middle
  · exact hitems.length_eq.symm
  · rw [((hset _).filterMap called).length_eq, (hworkers.filterMap called).length_eq]
    rfl
  · rw [(hset _).countP_eq, hworkers.countP_eq]
    rfl
  · rw [hitems.countP_eq, List.countP_cons_of_neg]
    simp [hitem]

/-- A worker takes a sentinel, and ends. -/
theorem takeSentinel_spec (hw : s.workers[w]? = some .waiting)
    (hget : s.queue.get? = some (item, queue)) (hitem : item.payload = .sentinel) :
    ({ s with queue := queue }.exitWorker w).pending.Perm s.pending ∧
      ({ s with queue := queue }.exitWorker w).queue.items.length + 1 = s.queue.items.length ∧
      ({ s with queue := queue }.exitWorker w).calls = s.calls ∧
      ({ s with queue := queue }.exitWorker w).alive + 1 = s.alive ∧
      ({ s with queue := queue }.exitWorker w).sentinels + 1 = s.sentinels := by
  obtain ⟨others, hworkers, hset⟩ := perm_set hw
  obtain ⟨hitems, -, -⟩ := PriorityQueue.get?_eq_some hget
  have hjob : jobOf item = none := by
    unfold jobOf
    rw [hitem]
  have hjobs := hitems.filterMap jobOf
  rw [List.filterMap_cons_none hjob] at hjobs
  unfold pending calls alive sentinels exitWorker
  dsimp only
  refine ⟨?_, ?_, ?_, ?_, ?_⟩
  · exact hjobs.symm.append (((hset _).filterMap called).trans (hworkers.filterMap called).symm)
  · exact hitems.length_eq.symm
  · rw [((hset _).filterMap called).length_eq, (hworkers.filterMap called).length_eq]
    rfl
  · exact alive_set hw nofun
  · rw [hitems.countP_eq, List.countP_cons_of_pos]
    simp [hitem]

omit [DecidableEq ρ] [DecidableEq ε] in
/-- The call of a worker is over. -/
theorem called_set {worker : PQWorker ρ ε} (hw : workers[w]? = some (.running timeId job))
    (hcalled : called worker = none) :
    (workers.filterMap called).Perm ((timeId, job) :: (workers.set w worker).filterMap called) := by
  obtain ⟨others, hworkers, hset⟩ := perm_set hw
  have hothers := (hset worker).filterMap called
  rw [List.filterMap_cons_none hcalled] at hothers
  exact (hworkers.filterMap called).trans (hothers.symm.cons _)

/-- A worker that has called a job ends. -/
theorem exitWorker_spec (hw : s.workers[w]? = some (.running timeId job)) :
    s.pending.Perm ((timeId, job) :: (s.exitWorker w).pending) ∧
      (s.exitWorker w).calls + 1 = s.calls ∧ (s.exitWorker w).alive + 1 = s.alive := by
  have hcalled : (s.workers.filterMap called).Perm
      (_ :: (s.workers.set w .exited).filterMap called) := called_set hw rfl
  refine ⟨?_, hcalled.length_eq.symm, alive_set hw nofun⟩
  exact (hcalled.append_left _).trans List.perm_middle

/-- A call ends. -/
theorem endJob_spec (hw : s.workers[w]? = some (.running timeId job)) :
    s.pending.Perm ((timeId, job) :: (s.endJob w timeId job).pending) ∧
      (s.endJob w timeId job).queue = s.queue ∧
      (s.endJob w timeId job).unfinished = s.unfinished - 1 ∧
      (s.endJob w timeId job).calls + 1 = s.calls ∧
      (s.endJob w timeId job).alive ≤ s.alive := by
  unfold endJob
  split
  · have hcalled : (s.workers.filterMap called).Perm
        (_ :: (s.workers.set w .waiting).filterMap called) := called_set hw rfl
    obtain ⟨others, hworkers, hset⟩ := perm_set hw
    refine ⟨?_, rfl, rfl, hcalled.length_eq.symm, ?_⟩
    · exact (hcalled.append_left _).trans List.perm_middle
    · unfold alive
      rw [(hset _).countP_eq, hworkers.countP_eq]
      exact Nat.le_refl _
  · obtain ⟨hpending, hcalls, halive⟩ := exitWorker_spec hw
    exact ⟨hpending, rfl, rfl, hcalls, by omega⟩

/-- A worker that waits for an item ends. -/
theorem stopWorker_spec (hw : s.workers[w]? = some .waiting) :
    { s with workers := s.workers.set w .exited }.pending.Perm s.pending ∧
      { s with workers := s.workers.set w .exited }.calls = s.calls ∧
      { s with workers := s.workers.set w .exited }.alive + 1 = s.alive := by
  obtain ⟨others, hworkers, hset⟩ := perm_set hw
  have hcalled := ((hset .exited).filterMap called).trans (hworkers.filterMap called).symm
  exact ⟨hcalled.append_left _, hcalled.length_eq, alive_set hw nofun⟩

omit [DecidableEq ρ] [DecidableEq ε] in
/-- The worker that has taken a job has called it. -/
theorem getElem?_startJob (hw : s.workers[w]? = some .waiting) (item : PQItem (PQPayload ρ ε))
    (queue : PriorityQueue (PQPayload ρ ε)) (job : PQJob ρ ε) :
    (s.startJob w item queue job).workers[w]? = some (.running item.timeId job) := by
  obtain ⟨hlt, -⟩ := List.getElem?_eq_some_iff.mp hw
  exact List.getElem?_set_self hlt

/-! ## What has not been marked as done -/

/-- It is in the queue, or a worker has called it. -/
def Counted (s : PQExecutor ρ ε) : Prop := s.unfinished = s.queue.items.length + s.calls

theorem Counted.startJob (h : s.Counted) (hw : s.workers[w]? = some .waiting)
    (hget : s.queue.get? = some (item, queue)) (hitem : item.payload = .job job) :
    (s.startJob w item queue job).Counted := by
  obtain ⟨-, hlength, hcalls, -⟩ := startJob_spec hw hget hitem
  have hunfinished : (s.startJob w item queue job).unfinished = s.unfinished := rfl
  unfold Counted at *
  omega

theorem Counted.endJob (h : s.Counted) (hw : s.workers[w]? = some (.running timeId job)) :
    (s.endJob w timeId job).Counted := by
  obtain ⟨-, hqueue, hunfinished, hcalls, -⟩ := endJob_spec hw
  unfold Counted at *
  rw [hqueue]
  omega

/-- **Step lemma.** -/
theorem StepCase.counted (hcase : StepCase kind s e t) (h : s.Counted) : t.Counted := by
  cases hcase with
  | same => exact h
  | @sentinel w item queue hw hget hitem =>
    obtain ⟨-, hlength, hcalls, -⟩ := takeSentinel_spec hw hget hitem
    have hunfinished : ({ s with queue := queue }.exitWorker w).unfinished = s.unfinished - 1 := rfl
    unfold Counted at *
    omega
  | starts hw hget hitem hjob => exact h.startJob hw hget hitem
  | completes hw hget hitem hjob =>
    exact (h.startJob hw hget hitem).endJob (getElem?_startJob hw _ _ _)
  | ends he hw => exact h.endJob hw
  | interrupted hc hw =>
    obtain ⟨-, hcalls, -⟩ := exitWorker_spec hw
    unfold Counted at h
    show s.unfinished - 1 = s.queue.items.length + _
    omega
  | stopped hc hw hempty =>
    obtain ⟨-, hcalls, -⟩ := stopWorker_spec hw
    exact h.trans (congrArg _ hcalls.symm)

/-- **Step lemma.**  What changes the state leaves less to happen. -/
theorem StepCase.left_lt (hcase : StepCase kind s e t) : t = s ∨ t.left < s.left := by
  cases hcase with
  | same => exact .inl rfl
  | sentinel hw hget hitem =>
    obtain ⟨-, hlength, hcalls, halive, -⟩ := takeSentinel_spec hw hget hitem
    unfold left
    omega
  | starts hw hget hitem hjob =>
    obtain ⟨-, hlength, hcalls, halive, -⟩ := startJob_spec hw hget hitem
    unfold left
    omega
  | completes hw hget hitem hjob =>
    obtain ⟨-, hlength, hcalls, halive, -⟩ := startJob_spec hw hget hitem
    obtain ⟨-, hqueue, -, hcalls', halive'⟩ := endJob_spec (getElem?_startJob hw _ _ _)
    unfold left
    rw [hqueue]
    omega
  | ends he hw =>
    obtain ⟨-, hqueue, -, hcalls, halive⟩ := endJob_spec hw
    unfold left
    rw [hqueue]
    omega
  | @interrupted w _ _ hc hw =>
    obtain ⟨-, hcalls, halive⟩ := exitWorker_spec hw
    have hqueue : (s.exitWorker w).queue = s.queue := rfl
    unfold left
    rw [hqueue]
    omega
  | stopped hc hw hempty =>
    obtain ⟨-, hcalls, halive⟩ := stopWorker_spec hw
    right
    unfold left
    dsimp only
    omega

/-! ## Before the shutdown -/

/-- The numbers of the jobs: no two that are pending have the same, and none that is resolved has
the number of one that is pending. -/
structure Numbered (s : PQExecutor ρ ε) : Prop where
  fresh : ∀ timeId job, (timeId, job) ∈ s.pending → timeId < s.queue.counter
  nodup : (s.pending.map Prod.fst).Nodup
  resolvedFresh : ∀ timeId outcome, (timeId, outcome) ∈ s.resolved → timeId < s.queue.counter
  apart : ∀ timeId job outcome, (timeId, job) ∈ s.pending → (timeId, outcome) ∉ s.resolved

/-- What holds before the shutdown. -/
structure Open (kind : ExecutorKind) (s : PQExecutor ρ ε) : Prop where
  notClosed : s.closed = false
  counted : s.Counted
  numbered : s.Numbered
  noSentinel : ∀ item ∈ s.queue.items, item.payload ≠ .sentinel
  suspended : ∀ timeId job, .running timeId job ∈ s.workers → kind.suspends job = true

omit [DecidableEq ρ] [DecidableEq ε] in
theorem called_replicate (maxWorkers : Nat) :
    (List.replicate maxWorkers (.waiting : PQWorker ρ ε)).filterMap called = [] := by
  rw [List.filterMap_eq_nil_iff]
  intro worker hworker
  rw [List.eq_of_mem_replicate hworker]
  rfl

omit [DecidableEq ρ] [DecidableEq ε] in
theorem open_start (kind : ExecutorKind) (maxWorkers : Nat) :
    (start maxWorkers : PQExecutor ρ ε).Open kind := by
  have hpending : (start maxWorkers : PQExecutor ρ ε).pending = [] := called_replicate maxWorkers
  refine ⟨rfl, ?_, ⟨?_, ?_, ?_, ?_⟩, ?_, ?_⟩
  · unfold Counted calls start
    rw [called_replicate]
    rfl
  · rw [hpending]
    exact fun _ _ hmem => absurd hmem List.not_mem_nil
  · rw [hpending]
    exact List.nodup_nil
  · exact fun _ _ hmem => absurd hmem List.not_mem_nil
  · rw [hpending]
    exact fun _ _ _ hmem => absurd hmem List.not_mem_nil
  · exact fun _ hmem => absurd hmem List.not_mem_nil
  · intro timeId job hmem
    cases List.eq_of_mem_replicate hmem

omit [DecidableEq ρ] [DecidableEq ε] in
theorem Numbered.congr (h : s.Numbered) (hpending : t.pending.Perm s.pending)
    (hcounter : t.queue.counter = s.queue.counter) (hresolved : t.resolved = s.resolved) :
    t.Numbered := by
  refine ⟨?_, (hpending.map _).nodup_iff.mpr h.nodup, ?_, ?_⟩
  · intro timeId job hmem
    rw [hcounter]
    exact h.fresh timeId job (hpending.mem_iff.mp hmem)
  · rw [hresolved, hcounter]
    exact h.resolvedFresh
  · intro timeId job outcome hmem
    rw [hresolved]
    exact h.apart timeId job outcome (hpending.mem_iff.mp hmem)

theorem Numbered.startJob (h : s.Numbered) (hw : s.workers[w]? = some .waiting)
    (hget : s.queue.get? = some (item, queue)) (hitem : item.payload = .job job) :
    (s.startJob w item queue job).Numbered :=
  h.congr (startJob_spec hw hget hitem).1 (PriorityQueue.get?_eq_some hget).2.2 rfl

theorem Numbered.endJob (h : s.Numbered) (hw : s.workers[w]? = some (.running timeId job)) :
    (s.endJob w timeId job).Numbered := by
  obtain ⟨hpending, hqueue, -⟩ := endJob_spec hw
  have hmem : (timeId, job) ∈ s.pending := hpending.mem_iff.mpr List.mem_cons_self
  have hsubset : ∀ p ∈ (s.endJob w timeId job).pending, p ∈ s.pending :=
    fun p hp => hpending.mem_iff.mpr (List.mem_cons_of_mem _ hp)
  have hnodup := (hpending.map Prod.fst).nodup_iff.mp h.nodup
  rw [List.map_cons, List.nodup_cons] at hnodup
  -- what is resolved was so, or is the job itself
  have hresolved : ∀ p ∈ (s.endJob w timeId job).resolved,
      p ∈ s.resolved ∨ p = (timeId, job.outcome) := by
    intro p hp
    unfold PQExecutor.endJob at hp
    split at hp
    · exact (List.mem_append.mp hp).imp_right List.mem_singleton.mp
    · exact .inl hp
  refine ⟨?_, hnodup.2, ?_, ?_⟩
  · intro timeId' job' hp
    rw [hqueue]
    exact h.fresh timeId' job' (hsubset _ hp)
  · intro timeId' outcome hp
    rw [hqueue]
    rcases hresolved _ hp with hp | heq
    · exact h.resolvedFresh timeId' outcome hp
    · cases heq
      exact h.fresh timeId job hmem
  · intro timeId' job' outcome hp hres
    rcases hresolved _ hres with hres | heq
    · exact h.apart timeId' job' outcome (hsubset _ hp) hres
    · cases heq
      exact hnodup.1 (List.mem_map.mpr ⟨_, hp, rfl⟩)

omit [DecidableEq ρ] [DecidableEq ε] in
/-- **Step lemma: a submission.** -/
theorem Open.submitJob (h : s.Open kind) (priority : Int) (job : PQJob ρ ε) :
    (s.submitJob priority job).Open kind := by
  have hpending :
      (s.submitJob priority job).pending.Perm ((s.queue.counter, job) :: s.pending) := by
    unfold pending PQExecutor.submitJob PriorityQueue.put
    dsimp only
    rw [List.filterMap_append, List.append_assoc]
    exact List.perm_middle
  have hfresh := h.numbered.fresh
  refine ⟨h.notClosed, ?_, ⟨?_, ?_, ?_, ?_⟩, ?_, h.suspended⟩
  · have hcounted : s.unfinished = _ := h.counted
    show s.unfinished + 1 = (s.queue.items ++ [_]).length + s.calls
    rw [List.length_append, List.length_singleton]
    omega
  · intro timeId job' hmem
    rcases List.mem_cons.mp (hpending.mem_iff.mp hmem) with heq | hmem
    · cases heq
      exact Nat.lt_succ_self _
    · exact Nat.lt_succ_of_lt (hfresh timeId job' hmem)
  · rw [(hpending.map _).nodup_iff, List.map_cons, List.nodup_cons]
    refine ⟨?_, h.numbered.nodup⟩
    intro hmem
    obtain ⟨⟨timeId, job'⟩, hmem, heq⟩ := List.mem_map.mp hmem
    have hlt := hfresh timeId job' hmem
    dsimp only at heq
    omega
  · exact fun timeId outcome hmem => Nat.lt_succ_of_lt (h.numbered.resolvedFresh _ _ hmem)
  · intro timeId job' outcome hmem hresolved
    rcases List.mem_cons.mp (hpending.mem_iff.mp hmem) with heq | hmem
    · cases heq
      exact Nat.lt_irrefl _ (h.numbered.resolvedFresh _ _ hresolved)
    · exact h.numbered.apart timeId job' outcome hmem hresolved
  · intro item hitem
    rcases List.mem_append.mp hitem with hitem | hitem
    · exact h.noSentinel item hitem
    · cases List.mem_singleton.mp hitem
      exact nofun

theorem workers_endJob (s : PQExecutor ρ ε) (w timeId : Nat) (job : PQJob ρ ε) :
    ∃ worker, (s.endJob w timeId job).workers = s.workers.set w worker ∧ called worker = none := by
  unfold endJob
  split
  · exact ⟨.waiting, rfl, rfl⟩
  · exact ⟨.exited, rfl, rfl⟩

theorem StepCase.closed (hcase : StepCase kind s e t) : t.closed = s.closed := by
  cases hcase with
  | completes hw hget hitem hjob => unfold endJob; split <;> rfl
  | ends he hw => unfold endJob; split <;> rfl
  | _ => rfl

/-- **Step lemma: the workers.** -/
theorem StepCase.isOpen (hcase : StepCase kind s e t) (h : s.Open kind) : t.Open kind := by
  have hclosed := hcase.closed.trans h.notClosed
  have hcounted := hcase.counted h.counted
  cases hcase with
  | same => exact h
  | sentinel hw hget hitem =>
    obtain ⟨hperm, -, -⟩ := PriorityQueue.get?_eq_some hget
    exact absurd hitem (h.noSentinel _ (hperm.mem_iff.mpr List.mem_cons_self))
  | starts hw hget hitem hjob =>
    obtain ⟨hperm, -, -⟩ := PriorityQueue.get?_eq_some hget
    refine ⟨hclosed, hcounted, h.numbered.startJob hw hget hitem, ?_, ?_⟩
    · intro other hother
      exact h.noSentinel other (hperm.mem_iff.mpr (List.mem_cons_of_mem _ hother))
    · intro timeId job' hmem
      rcases List.mem_or_eq_of_mem_set hmem with hmem | heq
      · exact h.suspended timeId job' hmem
      · cases heq
        exact hjob
  | @completes w item queue job hw hget hitem hjob =>
    obtain ⟨hperm, -, -⟩ := PriorityQueue.get?_eq_some hget
    have hworker := getElem?_startJob hw item queue job
    obtain ⟨worker, hworkers, hnone⟩ :=
      workers_endJob (s.startJob w item queue job) w item.timeId job
    refine ⟨hclosed, hcounted, (h.numbered.startJob hw hget hitem).endJob hworker, ?_, ?_⟩
    · intro other hother
      rw [(endJob_spec hworker).2.1] at hother
      exact h.noSentinel other (hperm.mem_iff.mpr (List.mem_cons_of_mem _ hother))
    · intro timeId job' hmem
      rw [hworkers] at hmem
      unfold PQExecutor.startJob at hmem
      rw [List.set_set] at hmem
      rcases List.mem_or_eq_of_mem_set hmem with hmem | heq
      · exact h.suspended timeId job' hmem
      · rw [← heq] at hnone
        cases hnone
  | @ends w timeId job he hw =>
    obtain ⟨worker, hworkers, hnone⟩ := workers_endJob s w timeId job
    refine ⟨hclosed, hcounted, h.numbered.endJob hw, ?_, ?_⟩
    · rw [(endJob_spec hw).2.1]
      exact h.noSentinel
    · intro timeId' job' hmem
      rw [hworkers] at hmem
      rcases List.mem_or_eq_of_mem_set hmem with hmem | heq
      · exact h.suspended timeId' job' hmem
      · rw [← heq] at hnone
        cases hnone
  | interrupted hc hw => exact absurd (hc.1.symm.trans h.notClosed) (by simp)
  | stopped hc hw hempty => exact absurd (hc.1.symm.trans h.notClosed) (by simp)

/-- **Step lemma.** -/
theorem open_openStep (s : PQExecutor ρ ε) (e : ExecutorEvent ρ ε) (h : s.Open kind) :
    (s.openStep kind e).Open kind := by
  match e with
  | .submit priority job => exact h.submitJob priority job
  | .cancelSubmitter timeId =>
    unfold openStep cancelSubmitter
    dsimp only
    split
    · exact ⟨h.notClosed, h.counted, h.numbered.congr (.refl _) rfl rfl, h.noSentinel, h.suspended⟩
    · exact h
  | .worker e => exact (stepCase kind s e).isOpen h

end PQExecutor

end LMCache.Storage
