/-
# LMCache.Storage.ExecutorShutdown — what becomes of the jobs when an executor shuts down.

Source: `_shutdown_async` of `AsyncPQExecutor` and of `AsyncPQThreadPoolExecutor` in
`v1/storage_backend/job_executor/pq_executor.py`.

The sentinels are behind the jobs, so that the work is done before the workers take them.  A worker
that is cancelled before leaves its sentinel, and often a job, behind.  Nothing is submitted after
the shutdown has begun.
-/
import LMCache.Storage.JobExecutor

namespace LMCache.Storage

open LMCache.Lib

namespace PQExecutor

variable {ρ ε : Type} [DecidableEq ρ] [DecidableEq ε]

/-! ## A graceful shutdown -/

/-- **A graceful shutdown.**  In every order of the steps of the workers, the jobs start in the
order of their keys; and when nothing can happen any more, the future of every job is resolved with
what the job ended with, and the queue can be joined. -/
def Graceful (kind : ExecutorKind) (s : PQExecutor ρ ε) : Prop :=
  ∀ es, (∃ keys, (run (step kind) s.shutdown es).started = s.started ++ keys ∧
      keys.Pairwise (· ≤ ·)) ∧
    (Final (step kind) (run (step kind) s.shutdown es) →
      (∀ timeId job, (timeId, job) ∈ s.pending →
        (timeId, job.outcome) ∈ (run (step kind) s.shutdown es).resolved) ∧
      (run (step kind) s.shutdown es).unfinished = 0)

/-- No worker has ended before, and nothing that is queued or running can be lost. -/
structure Drainable (kind : ExecutorKind) (s : PQExecutor ρ ε) : Prop where
  noneExited : .exited ∉ s.workers
  someWorker : s.workers = [] → s.queue.items = []
  running : ∀ timeId job, .running timeId job ∈ s.workers →
    kind = .threadPool ∧ Settles s.cancelled timeId job
  queued : ∀ item ∈ s.queue.items, ∀ job, item.payload = .job job →
    item.priority ≤ sentinelPriority ∧ Settles s.cancelled item.timeId job ∧
      (kind = .async → job.suspends = false)

variable {kind : ExecutorKind} {s t : PQExecutor ρ ε} {e : WorkerEvent}

/-! ## Runs to the end -/

/-- **Run lemma.**  What every step keeps holds at the end of a run. -/
theorem run_of_stepCase (kind : ExecutorKind) {P : PQExecutor ρ ε → Prop}
    (hP : ∀ {s e t}, StepCase kind s e t → P s → P t) (h : P s) (es : List WorkerEvent) :
    P (run (step kind) s es) :=
  (always_of_step (fun s e => hP (stepCase kind s e)) h es : Always (step kind) P s es).last

/-- A call that a cancellation could have reached does not end by itself. -/
def NoFinish (kind : ExecutorKind) (_ : PQExecutor ρ ε) (e : WorkerEvent) : Prop :=
  kind = .async → ∀ w, e ≠ .finish w

/-- **Every shutdown comes to an end**, also when no call of a coroutine ends. -/
theorem exists_final_noFinish (kind : ExecutorKind) (h : s.closed = true) :
    ∃ es, Guarded (step kind) (NoFinish kind) s es ∧ Final (step kind) (run (step kind) s es) := by
  apply exists_final left (P := fun s => s.closed = true) _ _ h
  · intro s e hclosed
    exact (stepCase kind s e).closed.trans hclosed
  · intro s hclosed
    by_cases hfinal : Final (step kind) s
    · exact .inl hfinal
    right
    obtain ⟨e, he⟩ := not_forall.mp hfinal
    have hlt := (stepCase kind s e).left_lt.resolve_left he
    by_cases hok : NoFinish kind s e
    · exact ⟨e, hok, hlt⟩
    -- the call of a coroutine is cancelled instead
    obtain ⟨rfl, hfinish⟩ := Classical.not_imp.mp hok
    obtain ⟨w, hw⟩ := not_forall.mp hfinish
    cases not_not.mp hw
    refine ⟨.cancel w, fun _ w' => nofun, ?_⟩
    unfold step at he
    dsimp only at he
    split at he
    · rename_i hworker
      have hc : s.Cancels .async := ⟨hclosed, nofun⟩
      obtain ⟨-, hcalls, halive⟩ := exitWorker_spec hworker
      have hstep : s.step .async (.cancel w) = s.exitWorker w := by
        unfold step cancelWorker
        simp only [if_pos hc, hworker]
      have hqueue : (s.exitWorker w).queue = s.queue := rfl
      rw [hstep]
      unfold left
      rw [hqueue]
      omega
    · exact absurd rfl he

/-- Workers have ended that have not taken a sentinel. -/
def Starved (s : PQExecutor ρ ε) : Prop := s.alive < s.sentinels

theorem sentinels_of_queue (h : t.queue = s.queue) : t.sentinels = s.sentinels := by
  unfold sentinels
  rw [h]

/-- **Step lemma.**  No step brings a worker back, and each that ends takes one sentinel at most. -/
theorem StepCase.alive_sentinels (hcase : StepCase kind s e t) :
    t.alive + s.sentinels ≤ s.alive + t.sentinels := by
  cases hcase with
  | same => exact Nat.le_refl _
  | sentinel hw hget hitem =>
    obtain ⟨-, -, -, halive, hsentinels⟩ := takeSentinel_spec hw hget hitem
    omega
  | starts hw hget hitem hjob =>
    obtain ⟨-, -, -, halive, hsentinels⟩ := startJob_spec hw hget hitem
    omega
  | @completes w item queue job hw hget hitem hjob =>
    obtain ⟨-, -, -, halive, hsentinels⟩ := startJob_spec hw hget hitem
    obtain ⟨-, hqueue, -, -, halive'⟩ := endJob_spec (getElem?_startJob hw item queue job)
    have hsentinels' := sentinels_of_queue hqueue
    omega
  | ends he hw =>
    obtain ⟨-, hqueue, -, -, halive⟩ := endJob_spec hw
    have hsentinels := sentinels_of_queue hqueue
    omega
  | interrupted hc hw =>
    obtain ⟨-, -, halive⟩ := exitWorker_spec hw
    show _ + s.sentinels ≤ s.alive + s.sentinels
    omega
  | stopped hc hw hempty =>
    obtain ⟨-, -, halive⟩ := stopWorker_spec hw
    show _ + s.sentinels ≤ s.alive + s.sentinels
    omega

/-- **Step lemma.**  A run that has too many sentinels keeps too many. -/
theorem StepCase.starved (hcase : StepCase kind s e t) (h : s.Starved) : t.Starved := by
  have halive := hcase.alive_sentinels
  unfold Starved at *
  omega

/-- A job that is behind the sentinels, with enough of them for the workers. -/
structure Behind (s : PQExecutor ρ ε) : Prop where
  job : ∃ item ∈ s.queue.items, sentinelPriority < item.priority
  sentinel : ∀ item ∈ s.queue.items, item.payload = .sentinel → item.priority = sentinelPriority
  enough : s.alive ≤ s.sentinels

variable {item : PQItem (PQPayload ρ ε)} {queue : PriorityQueue (PQPayload ρ ε)} {timeId w : Nat}
  {job : PQJob ρ ε} {base : List PQKey}

/-- The worker that takes an item leaves the job. -/
theorem Behind.taken (h : s.Behind) (hw : s.workers[w]? = some .waiting)
    (hget : s.queue.get? = some (item, queue)) :
    (∃ item ∈ queue.items, sentinelPriority < item.priority) ∧
      ∀ item ∈ queue.items, item.payload = .sentinel → item.priority = sentinelPriority := by
  obtain ⟨hperm, hleast, -⟩ := PriorityQueue.get?_eq_some hget
  obtain ⟨late, hlate, hpriority⟩ := h.job
  have halive : 0 < s.alive :=
    List.countP_pos_iff.mpr ⟨.waiting, List.mem_of_getElem? hw, by simp⟩
  -- some sentinel is in the queue, and what is taken is not behind it
  obtain ⟨sentinel, hmem, hsentinel⟩ :=
    List.countP_pos_iff.mp (Nat.lt_of_lt_of_le halive h.enough)
  have hsent := h.sentinel sentinel hmem (of_decide_eq_true hsentinel)
  have hle := PQItem.key_le_iff.mp (hleast sentinel hmem)
  refine ⟨⟨late, ?_, hpriority⟩, ?_⟩
  · rcases List.mem_cons.mp (hperm.mem_iff.mp hlate) with rfl | hqueue
    · omega
    · exact hqueue
  · intro other hother
    exact h.sentinel other (hperm.mem_iff.mpr (List.mem_cons_of_mem _ hother))

/-- **Step lemma.**  The job stays behind the sentinels. -/
theorem StepCase.behind (hcase : StepCase kind s e t) (h : s.Behind) : t.Behind := by
  have halive := hcase.alive_sentinels
  have henough : t.alive ≤ t.sentinels := by
    have := h.enough
    omega
  cases hcase with
  | same => exact h
  | sentinel hw hget hitem =>
    obtain ⟨hjob, hsentinel⟩ := h.taken hw hget
    exact ⟨hjob, hsentinel, henough⟩
  | starts hw hget hitem hjob =>
    obtain ⟨hjob, hsentinel⟩ := h.taken hw hget
    exact ⟨hjob, hsentinel, henough⟩
  | completes hw hget hitem hjob =>
    obtain ⟨hjob, hsentinel⟩ := h.taken hw hget
    obtain ⟨-, hqueue, -⟩ := endJob_spec (getElem?_startJob hw _ _ _)
    refine ⟨?_, ?_, henough⟩ <;> rw [hqueue]
    · exact hjob
    · exact hsentinel
  | ends he hw =>
    obtain ⟨-, hqueue, -⟩ := endJob_spec hw
    refine ⟨?_, ?_, henough⟩ <;> rw [hqueue]
    · exact h.job
    · exact h.sentinel
  | interrupted hc hw => exact ⟨h.job, h.sentinel, henough⟩
  | stopped hc hw hempty => exact ⟨h.job, h.sentinel, henough⟩

/-- A job whose future cannot be resolved, when no call of a coroutine ends. -/
structure Doomed (kind : ExecutorKind) (timeId : Nat) (s : PQExecutor ρ ε) : Prop where
  unresolved : ∀ outcome, (timeId, outcome) ∉ s.resolved
  lost : ∀ job, (timeId, job) ∈ s.pending →
    ¬ Settles s.cancelled timeId job ∨ kind = .async ∧ job.suspends = true

/-- The call of a job ends that cannot be this one, unless it does not resolve the future. -/
theorem Doomed.endJob {id : Nat} (h : s.Doomed kind timeId)
    (hw : s.workers[w]? = some (.running id job)) (hjob : kind = .async → job.suspends = false) :
    (s.endJob w id job).Doomed kind timeId := by
  obtain ⟨hpending, -⟩ := endJob_spec hw
  have hlost : ∀ job', (timeId, job') ∈ (s.endJob w id job).pending →
      ¬ Settles s.cancelled timeId job' ∨ kind = .async ∧ job'.suspends = true :=
    fun job' hmem => h.lost job' (hpending.mem_iff.mpr (List.mem_cons_of_mem _ hmem))
  unfold PQExecutor.endJob at hlost ⊢
  split
  · rename_i hsettles
    rw [if_pos hsettles] at hlost
    refine ⟨?_, hlost⟩
    intro outcome hmem
    rcases List.mem_append.mp hmem with hmem | hmem
    · exact h.unresolved outcome hmem
    · cases List.mem_singleton.mp hmem
      rcases h.lost job (hpending.mem_iff.mpr List.mem_cons_self) with hnot | ⟨hasync, hsuspends⟩
      · exact hnot hsettles
      · rw [hjob hasync] at hsuspends
        cases hsuspends
  · rename_i hsettles
    rw [if_neg hsettles] at hlost
    exact ⟨h.unresolved, hlost⟩

/-- **Step lemma.**  The future of such a job stays unresolved. -/
theorem StepCase.doomed (hcase : StepCase kind s e t) (hok : NoFinish kind s e)
    (h : s.Doomed kind timeId) : t.Doomed kind timeId := by
  cases hcase with
  | same => exact h
  | sentinel hw hget hitem =>
    obtain ⟨hpending, -⟩ := takeSentinel_spec hw hget hitem
    exact ⟨h.unresolved, fun job hmem => h.lost job (hpending.mem_iff.mp hmem)⟩
  | starts hw hget hitem hjob =>
    obtain ⟨hpending, -⟩ := startJob_spec hw hget hitem
    exact ⟨h.unresolved, fun job hmem => h.lost job (hpending.mem_iff.mp hmem)⟩
  | completes hw hget hitem hjob =>
    obtain ⟨hpending, -⟩ := startJob_spec hw hget hitem
    have hstarted : (s.startJob _ _ _ _).Doomed kind timeId :=
      ⟨h.unresolved, fun job hmem => h.lost job (hpending.mem_iff.mp hmem)⟩
    exact hstarted.endJob (getElem?_startJob hw _ _ _) fun _ => (Bool.or_eq_false_iff.mp hjob).2
  | @ends w _ _ he hw =>
    exact h.endJob hw fun hasync => absurd he (hok hasync w)
  | interrupted hc hw =>
    obtain ⟨hpending, -⟩ := exitWorker_spec hw
    exact ⟨h.unresolved, fun job hmem =>
      h.lost job (hpending.mem_iff.mpr (List.mem_cons_of_mem _ hmem))⟩
  | stopped hc hw hempty =>
    obtain ⟨hpending, -⟩ := stopWorker_spec hw
    exact ⟨h.unresolved, fun job hmem => h.lost job (hpending.mem_iff.mp hmem)⟩

/-! ## The order of the jobs -/

/-- What was started after the jobs of `base` was started in order, and nothing in the queue comes
before it. -/
def InOrder (base : List PQKey) (s : PQExecutor ρ ε) : Prop :=
  ∃ keys, s.started = base ++ keys ∧ keys.Pairwise (· ≤ ·) ∧
    ∀ key ∈ keys, ∀ item ∈ s.queue.items, key ≤ item.key

/-- The least item is started. -/
theorem InOrder.startJob (h : s.InOrder base) (hget : s.queue.get? = some (item, queue)) :
    (s.startJob w item queue job).InOrder base := by
  obtain ⟨keys, hstarted, hpairwise, hbefore⟩ := h
  obtain ⟨hperm, hleast, -⟩ := PriorityQueue.get?_eq_some hget
  refine ⟨keys ++ [item.key], ?_, ?_, ?_⟩
  · show s.started ++ [item.key] = _
    rw [hstarted, List.append_assoc]
  · rw [List.pairwise_append]
    refine ⟨hpairwise, List.pairwise_singleton _ _, ?_⟩
    intro key hkey key' hkey'
    rw [List.mem_singleton.mp hkey']
    exact hbefore key hkey item (hperm.mem_iff.mpr List.mem_cons_self)
  · intro key hkey other hother
    have hother := hperm.mem_iff.mpr (List.mem_cons_of_mem _ hother)
    rcases List.mem_append.mp hkey with hkey | hkey
    · exact hbefore key hkey other hother
    · rw [List.mem_singleton.mp hkey]
      exact hleast other hother

omit [DecidableEq ρ] [DecidableEq ε] in
theorem InOrder.of_eq (h : s.InOrder base) (hstarted : t.started = s.started)
    (hitems : t.queue.items ⊆ s.queue.items) : t.InOrder base := by
  obtain ⟨keys, heq, hpairwise, hbefore⟩ := h
  exact ⟨keys, hstarted.trans heq, hpairwise,
    fun key hkey item hitem => hbefore key hkey item (hitems hitem)⟩

theorem started_endJob (s : PQExecutor ρ ε) (w timeId : Nat) (job : PQJob ρ ε) :
    (s.endJob w timeId job).started = s.started := by
  unfold endJob
  split <;> rfl

/-- **Step lemma.** -/
theorem StepCase.inOrder (hcase : StepCase kind s e t) (h : s.InOrder base) : t.InOrder base := by
  cases hcase with
  | same => exact h
  | sentinel hw hget hitem =>
    obtain ⟨hperm, -, -⟩ := PriorityQueue.get?_eq_some hget
    exact h.of_eq rfl fun other hother => hperm.mem_iff.mpr (List.mem_cons_of_mem _ hother)
  | starts hw hget hitem hjob => exact h.startJob hget
  | completes hw hget hitem hjob =>
    obtain ⟨-, hqueue, -⟩ := endJob_spec (getElem?_startJob hw _ _ _)
    refine (h.startJob hget).of_eq (started_endJob _ _ _ _) ?_
    rw [hqueue]
    exact List.Subset.refl _
  | ends he hw =>
    obtain ⟨-, hqueue, -⟩ := endJob_spec hw
    refine h.of_eq (started_endJob _ _ _ _) ?_
    rw [hqueue]
    exact List.Subset.refl _
  | interrupted hc hw => exact h.of_eq rfl (List.Subset.refl _)
  | stopped hc hw hempty => exact h.of_eq rfl (List.Subset.refl _)

/-! ## A shutdown that loses nothing -/

/-- **The invariant.**  There is one sentinel for each worker that has not ended, behind all jobs;
as long as there is a job in the queue no worker has ended; and each of the jobs is pending or
resolved. -/
structure Draining (kind : ExecutorKind) (jobs : List (Nat × PQJob ρ ε)) (s : PQExecutor ρ ε) :
    Prop where
  counted : s.Counted
  enough : s.alive = s.sentinels
  before : ∀ item ∈ s.queue.items, item.payload ≠ .sentinel → ∀ other ∈ s.queue.items,
    other.payload = .sentinel → item.key < other.key
  manned : 0 < s.workers.length ∧ s.alive = s.workers.length ∨
    ∀ item ∈ s.queue.items, item.payload = .sentinel
  settles : ∀ timeId job, (timeId, job) ∈ s.pending →
    Settles s.cancelled timeId job ∧ (kind = .async → job.suspends = false)
  kept : ∀ timeId job, (timeId, job) ∈ jobs →
    (timeId, job.outcome) ∈ s.resolved ∨ (timeId, job) ∈ s.pending

variable {jobs : List (Nat × PQJob ρ ε)}

theorem Draining.startJob (h : s.Draining kind jobs) (hw : s.workers[w]? = some .waiting)
    (hget : s.queue.get? = some (item, queue)) (hitem : item.payload = .job job) :
    (s.startJob w item queue job).Draining kind jobs := by
  obtain ⟨hpending, -, -, halive, hsentinels⟩ := startJob_spec hw hget hitem
  obtain ⟨hperm, -, -⟩ := PriorityQueue.get?_eq_some hget
  have hsubset : ∀ other ∈ queue.items, other ∈ s.queue.items :=
    fun other hother => hperm.mem_iff.mpr (List.mem_cons_of_mem _ hother)
  refine ⟨h.counted.startJob hw hget hitem, ?_, ?_, ?_, ?_, ?_⟩
  · rw [halive, hsentinels]
    exact h.enough
  · intro one hone hnot other hother hsentinel
    exact h.before one (hsubset one hone) hnot other (hsubset other hother) hsentinel
  · rw [halive]
    refine h.manned.imp ?_ fun hall other hother => hall other (hsubset other hother)
    rintro ⟨hpos, heq⟩
    exact ⟨List.length_set.symm ▸ hpos, heq.trans List.length_set.symm⟩
  · intro timeId job' hmem
    exact h.settles timeId job' (hpending.mem_iff.mp hmem)
  · intro timeId job' hmem
    exact (h.kept timeId job' hmem).imp_right hpending.mem_iff.mpr

/-- A call ends, and resolves the future. -/
theorem Draining.endJob (h : s.Draining kind jobs) (hw : s.workers[w]? = some (.running timeId job))
    :
    (s.endJob w timeId job).Draining kind jobs := by
  have hcounted := h.counted.endJob hw
  obtain ⟨hpending, -⟩ := endJob_spec hw
  obtain ⟨hsettles, -⟩ := h.settles timeId job (hpending.mem_iff.mpr List.mem_cons_self)
  obtain ⟨others, hworkers, hset⟩ := perm_set hw
  unfold PQExecutor.endJob at hcounted hpending ⊢
  rw [if_pos hsettles] at hcounted hpending ⊢
  have halive : ((s.workers.set w .waiting).countP fun worker => worker ≠ .exited) = s.alive := by
    unfold alive
    rw [(hset _).countP_eq, hworkers.countP_eq]
    rfl
  refine ⟨hcounted, halive.trans h.enough, h.before, ?_, ?_, ?_⟩
  · refine h.manned.imp_left ?_
    rintro ⟨hpos, heq⟩
    exact ⟨List.length_set.symm ▸ hpos, (halive.trans heq).trans List.length_set.symm⟩
  · intro timeId' job' hmem
    exact h.settles timeId' job' (hpending.mem_iff.mpr (List.mem_cons_of_mem _ hmem))
  · intro timeId' job' hmem
    rcases h.kept timeId' job' hmem with hresolved | hmem
    · exact .inl (List.mem_append_left _ hresolved)
    · rcases List.mem_cons.mp (hpending.mem_iff.mp hmem) with heq | hmem
      · cases heq
        exact .inl (List.mem_append_right _ (List.mem_singleton_self _))
      · exact .inr hmem

/-- A worker takes a sentinel: no job is left in the queue. -/
theorem Draining.takeSentinel (h : s.Draining kind jobs) (hw : s.workers[w]? = some .waiting)
    (hget : s.queue.get? = some (item, queue)) (hitem : item.payload = .sentinel) :
    ({ s with queue := queue }.exitWorker w).Draining kind jobs := by
  have hcase : StepCase kind s (.take w) _ := .sentinel hw hget hitem
  have hcounted := hcase.counted h.counted
  obtain ⟨hpending, -, -, halive, hsentinels⟩ := takeSentinel_spec hw hget hitem
  obtain ⟨hperm, hleast, -⟩ := PriorityQueue.get?_eq_some hget
  have hsubset : ∀ other ∈ queue.items, other ∈ s.queue.items :=
    fun other hother => hperm.mem_iff.mpr (List.mem_cons_of_mem _ hother)
  refine ⟨hcounted, ?_, ?_, .inr ?_, ?_, ?_⟩
  · have henough := h.enough
    omega
  · intro one hone hnot other hother hsentinel
    exact h.before one (hsubset one hone) hnot other (hsubset other hother) hsentinel
  · intro other hother
    by_contra hnot
    have hmem := hperm.mem_iff.mpr List.mem_cons_self
    exact not_lt_of_ge (hleast other (hsubset other hother))
      (h.before other (hsubset other hother) hnot item hmem hitem)
  · intro timeId job hmem
    exact h.settles timeId job (hpending.mem_iff.mp hmem)
  · intro timeId job hmem
    exact (h.kept timeId job hmem).imp_right hpending.mem_iff.mpr

omit [DecidableEq ρ] [DecidableEq ε] in
theorem calls_pos (hw : s.workers[w]? = some (.running timeId job)) : 0 < s.calls :=
  List.length_pos_of_mem
    (List.mem_filterMap.mpr ⟨_, List.mem_of_getElem? hw, rfl⟩ : (timeId, job) ∈ _)

theorem alive_pos (hw : s.workers[w]? = some .waiting) : 0 < s.alive :=
  List.countP_pos_iff.mpr ⟨.waiting, List.mem_of_getElem? hw, by simp⟩

/-- **Step lemma.**  Such a shutdown goes on so, and reaches no cancellation that matters. -/
theorem StepCase.draining (hcase : StepCase kind s e t)
    (h : s.Draining kind jobs ∧ (kind = .async → s.calls = 0)) :
    t.Draining kind jobs ∧ (kind = .async → t.calls = 0) := by
  obtain ⟨h, hcalls⟩ := h
  have henough := h.enough
  cases hcase with
  | same => exact ⟨h, hcalls⟩
  | sentinel hw hget hitem =>
    obtain ⟨-, -, heq, -⟩ := takeSentinel_spec hw hget hitem
    exact ⟨h.takeSentinel hw hget hitem, fun hasync => heq.trans (hcalls hasync)⟩
  | @starts w item queue job hw hget hitem hjob =>
    have hstarted := h.startJob hw hget hitem
    refine ⟨hstarted, ?_⟩
    rintro rfl
    -- no job suspends here
    have hworker := List.mem_of_getElem? (getElem?_startJob hw item queue job)
    have hmem : (item.timeId, job) ∈ (s.startJob w item queue job).pending :=
      List.mem_append_right _ (List.mem_filterMap.mpr ⟨_, hworker, rfl⟩)
    have hnot := (hstarted.settles _ _ hmem).2 rfl
    exact absurd (hjob.symm.trans hnot) (by simp)
  | @completes w item queue job hw hget hitem hjob =>
    have hworker := getElem?_startJob hw item queue job
    obtain ⟨-, -, heq, -⟩ := startJob_spec hw hget hitem
    obtain ⟨-, -, -, heq', -⟩ := endJob_spec hworker
    refine ⟨(h.startJob hw hget hitem).endJob hworker, ?_⟩
    intro hasync
    have hzero := hcalls hasync
    omega
  | ends he hw =>
    have hpos := calls_pos hw
    refine ⟨h.endJob hw, ?_⟩
    intro hasync
    have hzero := hcalls hasync
    omega
  | interrupted hc hw =>
    have hpos := calls_pos hw
    have hcounted : s.unfinished = _ := h.counted
    match kind with
    | .async =>
      have hzero := hcalls rfl
      omega
    | .threadPool =>
      have hzero := hc.2 rfl
      omega
  | stopped hc hw hempty =>
    have hpos := alive_pos hw
    unfold sentinels at henough
    rw [hempty] at henough
    exact absurd henough (Nat.ne_of_gt hpos)

/-- A worker that waits takes an item, if there is one. -/
theorem length_take_lt (kind : ExecutorKind) (hw : s.workers[w]? = some .waiting)
    (hne : s.queue.items ≠ []) :
    (s.step kind (.take w)).queue.items.length < s.queue.items.length := by
  match hget : s.queue.get? with
  | none => exact absurd (PriorityQueue.get?_eq_none.mp hget) hne
  | some (item, queue) =>
    obtain ⟨hperm, -, -⟩ := PriorityQueue.get?_eq_some hget
    have hqueue : (s.step kind (.take w)).queue = queue := by
      unfold step takeItem
      dsimp only
      rw [if_pos hw, hget]
      dsimp only
      split
      · rfl
      · split
        · rfl
        · exact (endJob_spec (getElem?_startJob hw _ _ _)).2.1
    rw [hqueue, hperm.length_eq]
    exact Nat.lt_succ_self _

/-- When nothing can happen any more, no worker has called a job, and there is nothing in the queue
that a worker could take. -/
theorem idle_of_final (hfinal : Final (step kind) s) :
    s.calls = 0 ∧ (s.queue.items = [] ∨ s.alive = 0) := by
  have hcalls : s.workers.filterMap called = [] := by
    rw [List.filterMap_eq_nil_iff]
    intro worker hworker
    match worker with
    | .waiting | .exited => rfl
    | .running timeId job =>
      obtain ⟨w, hw⟩ := List.mem_iff_getElem?.mp hworker
      obtain ⟨-, -, -, hcalls, -⟩ := endJob_spec hw
      have hstep : s.step kind (.finish w) = s.endJob w timeId job := by
        unfold step
        simp only [hw]
      rw [← hstep, hfinal] at hcalls
      omega
  refine ⟨List.length_eq_zero_iff.mpr hcalls, ?_⟩
  by_cases hempty : s.queue.items = []
  · exact .inl hempty
  · right
    apply List.countP_eq_zero.mpr
    intro worker hworker hnot
    obtain ⟨w, hw⟩ := List.mem_iff_getElem?.mp hworker
    match worker with
    | .exited => exact of_decide_eq_true hnot rfl
    | .running timeId job =>
      have hmem : (timeId, job) ∈ s.workers.filterMap called :=
        List.mem_filterMap.mpr ⟨_, hworker, rfl⟩
      rw [hcalls] at hmem
      exact List.not_mem_nil hmem
    | .waiting =>
      have hlt := length_take_lt kind hw hempty
      rw [hfinal] at hlt
      exact Nat.lt_irrefl _ hlt

/-- At its end, such a shutdown has resolved every job. -/
theorem Draining.of_final (h : s.Draining kind jobs) (hfinal : Final (step kind) s) :
    (∀ timeId job, (timeId, job) ∈ jobs → (timeId, job.outcome) ∈ s.resolved) ∧
      s.unfinished = 0 := by
  obtain ⟨hcalls, hidle⟩ := idle_of_final hfinal
  have hempty : s.queue.items = [] := by
    rcases hidle with hempty | halive
    · exact hempty
    -- the workers have ended, and have taken all sentinels
    have hall : ∀ item ∈ s.queue.items, item.payload = .sentinel := by
      rcases h.manned with ⟨hpos, heq⟩ | hall
      · omega
      · exact hall
    have hsentinels : s.sentinels = 0 := h.enough.symm.trans halive
    apply List.eq_nil_iff_forall_not_mem.mpr
    intro item hitem
    exact List.countP_eq_zero.mp hsentinels item hitem (decide_eq_true (hall item hitem))
  have hcounted := h.counted
  unfold Counted at hcounted
  rw [hempty, hcalls] at hcounted
  refine ⟨?_, hcounted⟩
  intro timeId job hmem
  rcases h.kept timeId job hmem with hresolved | hpending
  · exact hresolved
  · unfold pending at hpending
    rw [hempty, List.length_eq_zero_iff.mp hcalls] at hpending
    exact absurd hpending List.not_mem_nil

/-! ## The shutdown -/

omit [DecidableEq ρ] [DecidableEq ε] in
/-- The sentinels are behind what was put before. -/
theorem putSentinels_spec (n : Nat) (queue : PriorityQueue (PQPayload ρ ε)) :
    ∃ tail, (putSentinels n queue).items = queue.items ++ tail ∧ tail.length = n ∧
      ∀ item ∈ tail, item.payload = .sentinel ∧ item.priority = sentinelPriority ∧
        queue.counter ≤ item.timeId := by
  induction n generalizing queue with
  | zero => exact ⟨[], (List.append_nil _).symm, rfl, fun _ hmem => absurd hmem List.not_mem_nil⟩
  | succ n ih =>
    obtain ⟨tail, hitems, hlength, htail⟩ := ih (queue.put sentinelPriority .sentinel)
    refine ⟨⟨sentinelPriority, queue.counter, .sentinel⟩ :: tail, ?_, ?_, ?_⟩
    · unfold putSentinels
      rw [hitems]
      unfold PriorityQueue.put
      exact List.append_assoc _ _ _
    · rw [List.length_cons, hlength]
    · intro item hitem
      rcases List.mem_cons.mp hitem with rfl | hitem
      · exact ⟨rfl, rfl, Nat.le_refl _⟩
      · obtain ⟨hpayload, hpriority, hle⟩ := htail item hitem
        exact ⟨hpayload, hpriority, Nat.le_of_succ_le hle⟩

omit [DecidableEq ρ] [DecidableEq ε] in
/-- What the shutdown does before any cancellation. -/
theorem shutdown_spec (h : s.Open kind) : ∃ tail,
    s.shutdown.queue.items = s.queue.items ++ tail ∧ tail.length = s.workers.length ∧
      (∀ item ∈ tail, item.payload = .sentinel ∧ item.priority = sentinelPriority ∧
        s.queue.counter ≤ item.timeId) ∧
      s.shutdown.workers = s.workers ∧ s.shutdown.closed = true ∧
      s.shutdown.unfinished = s.unfinished + s.workers.length ∧
      s.shutdown.cancelled = s.cancelled ∧ s.shutdown.resolved = s.resolved ∧
      s.shutdown.started = s.started := by
  obtain ⟨tail, hitems, hlength, htail⟩ := putSentinels_spec s.workers.length s.queue
  unfold shutdown
  rw [h.notClosed]
  exact ⟨tail, hitems, hlength, htail, rfl, rfl, rfl, rfl, rfl, rfl⟩

/-- The same jobs are pending, and there is a sentinel for each worker. -/
theorem shutdown_counts (h : s.Open kind) : s.shutdown.pending = s.pending ∧
    s.shutdown.alive = s.alive ∧ s.shutdown.sentinels = s.workers.length ∧
    s.shutdown.Counted := by
  obtain ⟨tail, hitems, hlength, htail, hworkers, -, hunfinished, -⟩ := shutdown_spec h
  have hjobs : tail.filterMap jobOf = [] := by
    rw [List.filterMap_eq_nil_iff]
    intro item hitem
    unfold jobOf
    rw [(htail item hitem).1]
  have hnone : s.queue.items.countP (fun item => item.payload = .sentinel) = 0 :=
    List.countP_eq_zero.mpr fun item hitem hpayload =>
      h.noSentinel item hitem (of_decide_eq_true hpayload)
  have hall : tail.countP (fun item => item.payload = .sentinel) = tail.length :=
    List.countP_eq_length.mpr fun item hitem => decide_eq_true (htail item hitem).1
  refine ⟨?_, ?_, ?_, ?_⟩
  · unfold pending
    rw [hitems, hworkers, List.filterMap_append, hjobs, List.append_nil]
  · unfold alive
    rw [hworkers]
  · unfold sentinels
    rw [hitems, List.countP_append, hnone, hall, hlength, Nat.zero_add]
  · have hcounted : s.unfinished = s.queue.items.length + s.calls := h.counted
    have hcalls : s.shutdown.calls = s.calls := by
      unfold calls
      rw [hworkers]
    unfold Counted
    rw [hunfinished, hitems, List.length_append, hlength, hcalls]
    omega

omit [DecidableEq ρ] [DecidableEq ε] in
theorem mem_pending_iff : (timeId, job) ∈ s.pending ↔
    (∃ item ∈ s.queue.items, item.timeId = timeId ∧ item.payload = .job job) ∨
      .running timeId job ∈ s.workers := by
  unfold pending
  rw [List.mem_append, List.mem_filterMap, List.mem_filterMap]
  constructor
  · rintro (⟨item, hitem, hjob⟩ | ⟨worker, hworker, hjob⟩)
    · left
      unfold jobOf at hjob
      split at hjob
      · rename_i hpayload
        cases hjob
        exact ⟨item, hitem, rfl, hpayload⟩
      · cases hjob
    · right
      unfold called at hjob
      split at hjob
      · cases hjob
        exact hworker
      · cases hjob
  · rintro (⟨item, hitem, rfl, hpayload⟩ | hworker)
    · left
      refine ⟨item, hitem, ?_⟩
      unfold jobOf
      rw [hpayload]
    · exact .inr ⟨_, hworker, rfl⟩

/-- A shutdown that can lose nothing begins as one that loses nothing. -/
theorem draining_shutdown (h : s.Open kind) (hd : s.Drainable kind) :
    s.shutdown.Draining kind s.pending ∧ (kind = .async → s.shutdown.calls = 0) := by
  obtain ⟨tail, hitems, hlength, htail, hworkers, -, -, hcancelled, -⟩ := shutdown_spec h
  obtain ⟨hpending, halive, hsentinels, hcounted⟩ := shutdown_counts h
  have hmanned : s.alive = s.workers.length := by
    apply List.countP_eq_length.mpr
    rintro worker hworker
    apply decide_eq_true
    rintro rfl
    exact hd.noneExited hworker
  refine ⟨⟨hcounted, ?_, ?_, ?_, ?_, ?_⟩, ?_⟩
  · rw [halive, hsentinels, hmanned]
  · rw [hitems]
    intro item hitem hjob other hother hsentinel
    -- the job was there before, and the sentinel was not
    have hitem := (List.mem_append.mp hitem).resolve_right fun hmem => hjob (htail item hmem).1
    have hother := (List.mem_append.mp hother).resolve_left fun hmem =>
      h.noSentinel other hmem hsentinel
    obtain ⟨-, hpriority, hle⟩ := htail other hother
    match hpayload : item.payload with
    | .sentinel => exact absurd hpayload hjob
    | .job job =>
      obtain ⟨hbound, -⟩ := hd.queued item hitem job hpayload
      have hfresh := h.numbered.fresh item.timeId job
        (mem_pending_iff.mpr (.inl ⟨item, hitem, rfl, hpayload⟩))
      apply PQItem.key_lt_iff.mpr
      omega
  · rw [hworkers, halive, hitems]
    by_cases hnil : s.workers = []
    · right
      intro item hitem
      rw [hd.someWorker hnil, List.nil_append] at hitem
      exact (htail item hitem).1
    · exact .inl ⟨List.length_pos_of_ne_nil hnil, hmanned⟩
  · rw [hpending, hcancelled]
    intro timeId job hmem
    rcases mem_pending_iff.mp hmem with ⟨item, hitem, rfl, hpayload⟩ | hworker
    · exact (hd.queued item hitem job hpayload).2
    · obtain ⟨rfl, hsettles⟩ := hd.running timeId job hworker
      exact ⟨hsettles, nofun⟩
  · intro timeId job hmem
    rw [hpending]
    exact .inr hmem
  · intro hasync
    unfold calls
    rw [hworkers, List.length_eq_zero_iff, List.filterMap_eq_nil_iff]
    intro worker hworker
    match worker with
    | .waiting | .exited => rfl
    | .running timeId job => exact absurd (hd.running timeId job hworker).1 (by simp [hasync])

theorem graceful_of_drainable (h : s.Open kind) (hd : s.Drainable kind) : s.Graceful kind := by
  intro es
  obtain ⟨tail, -, -, -, -, -, -, -, -, hstarted⟩ := shutdown_spec h
  have hinOrder : s.shutdown.InOrder s.started :=
    ⟨[], hstarted.trans (List.append_nil _).symm, .nil, fun _ hmem => absurd hmem List.not_mem_nil⟩
  obtain ⟨keys, hkeys, hpairwise, -⟩ := run_of_stepCase kind StepCase.inOrder hinOrder es
  refine ⟨⟨keys, hkeys, hpairwise⟩, ?_⟩
  intro hfinal
  exact (run_of_stepCase kind StepCase.draining (draining_shutdown h hd) es).1.of_final hfinal

/-- No worker comes. -/
theorem StepCase.unmanned {items : List (PQItem (PQPayload ρ ε))} (hcase : StepCase kind s e t)
    (h : s.workers = [] ∧ s.queue.items = items) : t.workers = [] ∧ t.queue.items = items := by
  have hnone : ∀ {w : Nat} {worker : PQWorker ρ ε}, s.workers[w]? ≠ some worker := by
    intro w worker hw
    rw [h.1] at hw
    cases hw
  cases hcase with
  | same => exact h
  | sentinel hw => exact absurd hw hnone
  | starts hw => exact absurd hw hnone
  | completes hw => exact absurd hw hnone
  | ends he hw => exact absurd hw hnone
  | interrupted hc hw => exact absurd hw hnone
  | stopped hc hw => exact absurd hw hnone

theorem drainable_of_graceful (h : s.Open kind) (hg : s.Graceful kind) : s.Drainable kind := by
  obtain ⟨tail, hitems, hlength, htail, hworkers, hclosed, -, hcancelled, hresolved, -⟩ :=
    shutdown_spec h
  obtain ⟨hpending, halive, hsentinels, hcounted⟩ := shutdown_counts h
  -- one run to the end, in which no call of a coroutine ends
  obtain ⟨es, hguarded, hfinal⟩ := exists_final_noFinish kind hclosed
  obtain ⟨hkept, hzero⟩ := (hg es).2 hfinal
  have hempty : (run (step kind) s.shutdown es).queue.items = [] := by
    have hend := run_of_stepCase kind StepCase.counted hcounted es
    unfold Counted at hend
    exact List.length_eq_zero_iff.mp (by omega)
  have hsettles : ∀ timeId job, (timeId, job) ∈ s.pending →
      Settles s.cancelled timeId job ∧ (kind = .async → job.suspends = false) := by
    intro timeId job hmem
    by_contra hnot
    have hdoomed : s.shutdown.Doomed kind timeId := by
      refine ⟨?_, ?_⟩
      · rw [hresolved]
        exact fun outcome => h.numbered.apart timeId job outcome hmem
      · rw [hpending, hcancelled]
        intro job' hmem'
        cases List.inj_on_of_nodup_map h.numbered.nodup hmem hmem' rfl
        by_cases hsettle : Settles s.cancelled timeId job
        · right
          obtain ⟨hasync, hsuspends⟩ := Classical.not_imp.mp (not_and.mp hnot hsettle)
          exact ⟨hasync, Bool.eq_true_of_not_eq_false hsuspends⟩
        · exact .inl hsettle
    have hend : (run (step kind) s.shutdown es).Doomed kind timeId :=
      (always_of_guarded (fun t e hd hok => (stepCase kind t e).doomed hok hd) hdoomed
        hguarded).last
    exact hend.unresolved job.outcome (hkept timeId job hmem)
  refine ⟨?_, ?_, ?_, ?_⟩
  · intro hexited
    have hlt : s.alive < s.workers.length := by
      refine Nat.lt_of_le_of_ne List.countP_le_length fun heq => ?_
      exact of_decide_eq_true (List.countP_eq_length.mp heq _ hexited) rfl
    have hstarved : s.shutdown.Starved := by
      unfold Starved
      omega
    have hend : _ < sentinels _ := run_of_stepCase kind StepCase.starved hstarved es
    unfold sentinels at hend
    rw [hempty] at hend
    exact Nat.not_lt_zero _ hend
  · intro hnil
    have htail : tail = [] := List.length_eq_zero_iff.mp (hlength.trans (by rw [hnil]; rfl))
    rw [htail, List.append_nil] at hitems
    have hend := run_of_stepCase kind StepCase.unmanned ⟨hworkers.trans hnil, hitems⟩ es
    exact hend.2.symm.trans hempty
  · intro timeId job hworker
    obtain ⟨hsettle, hasync⟩ := hsettles timeId job (mem_pending_iff.mpr (.inr hworker))
    have hsuspends := h.suspended timeId job hworker
    refine ⟨?_, hsettle⟩
    match kind with
    | .threadPool => rfl
    | .async => exact absurd (hsuspends.symm.trans (hasync rfl)) (by simp)
  · intro item hitem job hjob
    obtain ⟨hsettle, hasync⟩ := hsettles item.timeId job
      (mem_pending_iff.mpr (.inl ⟨item, hitem, rfl, hjob⟩))
    refine ⟨?_, hsettle, hasync⟩
    by_contra hlt
    have hbehind : s.shutdown.Behind := by
      refine ⟨⟨item, ?_, lt_of_not_ge hlt⟩, ?_, ?_⟩
      · rw [hitems]
        exact List.mem_append_left _ hitem
      · rw [hitems]
        intro other hother hsentinel
        rcases List.mem_append.mp hother with hother | hother
        · exact absurd hsentinel (h.noSentinel other hother)
        · exact (htail other hother).2.1
      · rw [halive, hsentinels]
        exact List.countP_le_length
    obtain ⟨⟨late, hlate, -⟩, -⟩ := run_of_stepCase kind StepCase.behind hbehind es
    rw [hempty] at hlate
    exact List.not_mem_nil hlate

/-- **A graceful shutdown.**  In every state that the executor can be in, its shutdown resolves all
jobs, in order, and can be joined, if and only if no worker has ended before, there is a worker if
there is a job, no job has a priority behind the sentinels, every job resolves the future of a
submitter that still waits; and, with coroutines, no job suspends or is running. -/
theorem graceful_iff (kind : ExecutorKind) (maxWorkers : Nat) (es : List (ExecutorEvent ρ ε)) :
    (run (openStep kind) (start maxWorkers) es).Graceful kind ↔
      (run (openStep kind) (start maxWorkers) es).Drainable kind := by
  have hopen : (run (openStep kind) (start maxWorkers) es).Open kind :=
    (always_of_step open_openStep (open_start kind maxWorkers) es).last
  exact ⟨drainable_of_graceful hopen, graceful_of_drainable hopen⟩

/-- One job of four workers waits for something: its worker is cancelled, the future is not
resolved, and the sentinel that the worker has not taken cannot be marked as done. -/
theorem not_graceful_oneRunning : ¬ ∀ (maxWorkers : Nat) (es : List (ExecutorEvent Nat Nat)),
    (run (openStep .async) (start maxWorkers) es).Graceful .async := by
  intro h
  obtain ⟨-, hend⟩ := h 4 [.submit 0 ⟨true, .result 7⟩, .worker (.take 0)]
    [.cancel 0, .take 1, .take 2, .take 3]
  have hfinal := hend (by
    intro e
    match e with
    | .take w | .finish w | .cancel w =>
      match w with
      | 0 | 1 | 2 | 3 => rfl
      | w + 4 => rfl)
  exact absurd hfinal.2 (by decide +kernel)

end PQExecutor

end LMCache.Storage
