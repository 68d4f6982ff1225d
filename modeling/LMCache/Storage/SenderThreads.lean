/-
# LMCache.Storage.SenderThreads — the consumer thread of the batched message sender.

Source: `BatchedMessageSender` in `storage_backend/batched_message_sender.py`.

Any thread adds operations to the queue.  One thread drains it: it waits, looks whether there is
something, takes all there is, hands it to the worker as one message, and marks each of the
operations done.  `flush` waits until all that was put is marked done; `close` flushes and asks the
thread to end.  An exception of `put_msg` leaves the operations marked, and then leaves the loop of
the thread.
-/
import LMCache.Storage.BatchedMessageSender
import LMCache.Lib.Run

namespace LMCache.Storage

open LMCache.Lib LMCache.Controller

/-! ## The threads -/

/-- Where the consumer thread stands. -/
inductive ConsumerStage where
  /-- At the head of the loop, which looks at `running`. -/
  | top
  /-- In `cv.wait`, which ends with a notification or the timeout. -/
  | waiting
  /-- In the loop of `_drain_and_send`, or about to send. -/
  | draining
  /-- `put_msg` has returned or raised, and so many operations are to be marked done. -/
  | finishing (left : Nat) (raised : Bool)
  | ended
  deriving DecidableEq, Repr

/-- How many operations of the last message are still to be marked done. -/
def ConsumerStage.left : ConsumerStage → Nat
  | .finishing left _ => left
  | _ => 0

/-- A call that waits for the queue, with the number of operations put before it was made. -/
inductive Waiter where
  | flush (before : Nat)
  | close (before : Nat)
  deriving DecidableEq, Repr

def Waiter.before : Waiter → Nat
  | .flush before | .close before => before

structure SenderThreads where
  sender : BatchedMessageSender
  /-- `unfinished_tasks` of the queue. -/
  unfinishedTasks : Nat := 0
  running : Bool := true
  consumer : ConsumerStage := .top
  waiters : Dict Nat Waiter := .empty
  /-- All that was ever put on the queue. -/
  put : List KVOpEvent := []
  /-- The messages that `put_msg` was called with. -/
  handed : List BatchedKVOperationMsg := []
  /-- Of each flush, its own or that of a `close`, that has ended: how many operations had been put
  before it began, and how many had been handed over when it ended. -/
  flushed : List (Nat × Nat) := []

inductive SenderEvent where
  | addKvOp (opType : OpType) (key : Int)
  /-- The next step of the consumer thread.  `raises` says whether `put_msg`, or an assertion before
  it, raises if this is the step that sends. -/
  | consume (raises : Bool)
  | flush (thread : Nat)
  | close (thread : Nat)
  /-- A thread that waits for the queue looks at it. -/
  | resume (thread : Nat)
  deriving DecidableEq, Repr

namespace SenderThreads

def init (instanceId : String) (workerId : Nat) (location : String) : SenderThreads :=
  { sender := { instanceId, workerId, location } }

/-- `add_kv_op`.  Its notification only ends a wait that may end at any time. -/
def addKvOp (s : SenderThreads) (opType : OpType) (key : Int) : SenderThreads :=
  { s with
    sender := s.sender.addKvOp opType key
    unfinishedTasks := s.unfinishedTasks + 1
    put := s.put ++ [⟨opType, key, -1⟩] }

/-- A step of `_consumer_loop`. -/
def consume (s : SenderThreads) (raises : Bool) : SenderThreads :=
  match s.consumer with
  | .top => { s with consumer := if s.running then .waiting else .ended }
  | .waiting =>
    { s with consumer := if s.sender.messageQueue = [] then .top else .draining }
  | .draining =>
    match s.sender.messageQueue with
    | _ :: _ => { s with sender := s.sender.drain.1 }
    | [] =>
      match s.sender.drain.2 with
      | none => { s with consumer := .top }
      | some msg =>
        { s with
          sender := s.sender.drain.1
          handed := s.handed ++ [msg]
          consumer := .finishing msg.operations.length raises }
  | .finishing (left + 1) raised =>
    { s with unfinishedTasks := s.unfinishedTasks - 1, consumer := .finishing left raised }
  | .finishing 0 raised =>
    -- the exception is not caught in the loop
    { s with consumer := if raised then .ended else .top }
  | .ended => s

/-- `flush`, and `close` which begins with one: a thread comes to wait in `join`. -/
def wait (s : SenderThreads) (thread : Nat) (waiter : Waiter) : SenderThreads :=
  if thread ∈ s.waiters then s else { s with waiters := s.waiters.set thread waiter }

/-- A thread that waits in `join`, once it looks at the queue. -/
def resume (s : SenderThreads) (thread : Nat) : SenderThreads :=
  match s.waiters.get? thread with
  | none => s
  | some waiter =>
    if s.unfinishedTasks = 0 then
      { s with
        waiters := s.waiters.erase thread
        flushed := s.flushed ++
          [(waiter.before, (s.handed.flatMap BatchedKVOperationMsg.operations).length)]
        running := match waiter with
          | .flush _ => s.running
          | .close _ => false }
    else s

def step (s : SenderThreads) : SenderEvent → SenderThreads
  | .addKvOp opType key => s.addKvOp opType key
  | .consume raises => s.consume raises
  | .flush thread => s.wait thread (.flush s.put.length)
  | .close thread => s.wait thread (.close s.put.length)
  | .resume thread => s.resume thread

/-! ## The property -/

/-- Operations with the numbers 0, 1, 2, …. -/
def number (ops : List KVOpEvent) : List KVOpEvent := ops.mapIdx fun i op => { op with seqNum := i }

/-- The operations of the messages, one after the other. -/
def handedOps (s : SenderThreads) : List KVOpEvent :=
  s.handed.flatMap BatchedKVOperationMsg.operations

/-- Operations that are added, and nothing else happens. -/
def addAll (s : SenderThreads) (ops : List (OpType × Int)) : SenderThreads :=
  ops.foldl (fun s op => s.addKvOp op.1 op.2) s

/-- The consumer thread takes so many steps, and `put_msg` does not raise. -/
def consumeN (s : SenderThreads) : Nat → SenderThreads
  | 0 => s
  | n + 1 => (s.consume false).consumeN n

/-- All that was put is handed over, and whoever waits for the queue may go on. -/
def Quiet (s : SenderThreads) : Prop := s.handedOps = number s.put ∧ s.unfinishedTasks = 0

structure Delivers (s : SenderThreads) : Prop where
  /-- The operations that are handed over are the first that were put, in order and once each, with
  their numbers. -/
  inOrder : s.handedOps <+: number s.put
  /-- No flush has ended before what was put before it was handed over. -/
  flushed : ∀ f ∈ s.flushed, f.1 ≤ f.2
  /-- Until the sender is closed, whatever is added is sent, and who waits for the queue goes on. -/
  sends : s.running = true → ∀ ops, ∃ n, Quiet ((s.addAll ops).consumeN n)

/-- The step sends a message. -/
def Sends (s : SenderThreads) : Prop :=
  s.consumer = .draining ∧ s.sender.messageQueue = [] ∧ s.sender.opsToSend ≠ []

/-- `put_msg` does not raise before the sender is closed. -/
def PutMsgReturns (s : SenderThreads) : SenderEvent → Prop
  | .consume true => s.running = true → ¬ s.Sends
  | _ => True

/-! ## The invariant -/

theorem number_concat (ops : List KVOpEvent) (op : KVOpEvent) :
    number (ops ++ [op]) = number ops ++ [{ op with seqNum := ops.length }] :=
  List.mapIdx_concat

theorem number_prefix_append (ops rest : List KVOpEvent) : number ops <+: number (ops ++ rest) :=
  ⟨_, List.mapIdx_append.symm⟩

@[simp] theorem length_number (ops : List KVOpEvent) : (number ops).length = ops.length :=
  List.length_mapIdx

/-- The operations that were put are those handed over, those taken and those queued, numbered as
far as they were taken; and those that are not handed over or not marked done are counted. -/
structure Inv (s : SenderThreads) : Prop where
  taken : ∃ taken, s.put = taken ++ s.sender.messageQueue ∧
    s.handedOps ++ s.sender.opsToSend = number taken ∧ s.sender.sequenceNumber = taken.length
  unfinished : s.unfinishedTasks =
    s.sender.messageQueue.length + s.sender.opsToSend.length + s.consumer.left
  idle : s.consumer ≠ .draining → s.sender.opsToSend = []
  flushed : ∀ f ∈ s.flushed, f.1 ≤ f.2
  waiters : ∀ thread waiter, s.waiters.get? thread = some waiter → waiter.before ≤ s.put.length

variable {s : SenderThreads}

theorem Inv.inOrder (h : s.Inv) : s.handedOps <+: number s.put := by
  obtain ⟨taken, hput, hnumber, -⟩ := h.taken
  rw [hput]
  exact (List.prefix_append _ _).trans (hnumber ▸ number_prefix_append taken _)

/-- What is neither queued nor taken is handed over. -/
theorem Inv.handedOps_eq (h : s.Inv) (hqueue : s.sender.messageQueue = [])
    (hops : s.sender.opsToSend = []) : s.handedOps = number s.put := by
  obtain ⟨taken, hput, hnumber, -⟩ := h.taken
  rw [hqueue, List.append_nil] at hput
  rw [hops, List.append_nil] at hnumber
  rw [hput, hnumber]

theorem Inv.quiet_of_unfinishedTasks (h : s.Inv) (hzero : s.unfinishedTasks = 0) : s.Quiet := by
  have hcount := h.unfinished
  have hqueue : s.sender.messageQueue = [] := List.length_eq_zero_iff.mp (by omega)
  have hops : s.sender.opsToSend = [] := List.length_eq_zero_iff.mp (by omega)
  exact ⟨h.handedOps_eq hqueue hops, hzero⟩

theorem inv_init (instanceId : String) (workerId : Nat) (location : String) :
    (init instanceId workerId location).Inv :=
  ⟨⟨[], rfl, rfl, rfl⟩, rfl, fun _ => rfl, nofun, nofun⟩

theorem Inv.addKvOp (h : s.Inv) (opType : OpType) (key : Int) : (s.addKvOp opType key).Inv := by
  obtain ⟨taken, hput, hnumber, hseq⟩ := h.taken
  have hcount := h.unfinished
  refine ⟨⟨taken, ?_, hnumber, hseq⟩, ?_, h.idle, h.flushed, ?_⟩
  · show s.put ++ [_] = taken ++ (s.sender.messageQueue ++ [_])
    rw [hput, List.append_assoc]
  · show s.unfinishedTasks + 1 =
      (s.sender.messageQueue ++ [_]).length + s.sender.opsToSend.length + s.consumer.left
    rw [List.length_append, List.length_singleton]
    omega
  · intro thread waiter hwaiter
    have hle := h.waiters thread waiter hwaiter
    show waiter.before ≤ (s.put ++ [_]).length
    rw [List.length_append]
    omega

/-- The step that sends hands all that was taken to the worker. -/
theorem consume_of_sends (h : s.Sends) (raises : Bool) : s.consume raises = { s with
    sender := { s.sender with opsToSend := [] }
    handed := s.handed ++ [⟨s.sender.instanceId, s.sender.workerId, s.sender.location,
      s.sender.opsToSend⟩]
    consumer := .finishing s.sender.opsToSend.length raises } := by
  obtain ⟨hstage, hqueue, hops⟩ := h
  unfold SenderThreads.consume
  rw [hstage]
  dsimp only
  split
  · rename_i hcons
    rw [hqueue] at hcons
    cases hcons
  · rw [BatchedMessageSender.drain_of_taken hqueue hops]

theorem Inv.sends (h : s.Inv) (hsends : s.Sends) (raises : Bool) : (s.consume raises).Inv := by
  obtain ⟨taken, hput, hnumber, hseq⟩ := h.taken
  have hcount := h.unfinished
  rw [consume_of_sends hsends]
  refine ⟨⟨taken, hput, ?_, hseq⟩, ?_, fun _ => rfl, h.flushed, h.waiters⟩
  · rw [List.append_nil, ← hnumber]
    unfold handedOps
    rw [List.flatMap_append, List.flatMap_singleton]
  · rw [hsends.1, hsends.2.1] at hcount
    rw [hsends.2.1]
    show s.unfinishedTasks = 0 + 0 + s.sender.opsToSend.length
    change s.unfinishedTasks = 0 + s.sender.opsToSend.length + 0 at hcount
    omega

/-- A step that only moves the thread on, with nothing taken. -/
theorem Inv.moveOn (h : s.Inv) (hstage : s.consumer ≠ .draining) {stage : ConsumerStage}
    {unfinishedTasks : Nat} (hleft : s.unfinishedTasks + stage.left =
      unfinishedTasks + s.consumer.left) :
    Inv { s with consumer := stage, unfinishedTasks := unfinishedTasks } := by
  refine ⟨h.taken, ?_, fun _ => h.idle hstage, h.flushed, h.waiters⟩
  have hcount := h.unfinished
  dsimp only
  omega

/-- **Step lemma: the consumer.** -/
theorem Inv.consume (h : s.Inv) (raises : Bool) : (s.consume raises).Inv := by
  by_cases hsends : s.Sends
  · exact h.sends hsends raises
  obtain ⟨taken, hput, hnumber, hseq⟩ := h.taken
  have hcount := h.unfinished
  unfold SenderThreads.consume
  match hstage : s.consumer with
  | .top =>
    apply h.moveOn (by rw [hstage]; nofun)
    rw [hstage]
    split <;> rfl
  | .waiting =>
    apply h.moveOn (by rw [hstage]; nofun)
    rw [hstage]
    split <;> rfl
  | .draining =>
    rw [hstage] at hcount
    dsimp only
    match hqueue : s.sender.messageQueue with
    | op :: rest =>
      have hdrain : s.sender.drain.1 = { s.sender with
          messageQueue := rest
          sequenceNumber := s.sender.sequenceNumber + 1
          opsToSend := s.sender.opsToSend ++ [{ op with seqNum := s.sender.sequenceNumber }] } := by
        unfold BatchedMessageSender.drain
        rw [hqueue]
      dsimp only
      rw [hdrain]
      refine ⟨⟨taken ++ [op], ?_, ?_, ?_⟩, ?_, fun hne => absurd rfl hne, h.flushed, h.waiters⟩
      · rw [List.append_assoc, List.singleton_append, ← hqueue]
        exact hput
      · rw [number_concat, ← hnumber, ← hseq, List.append_assoc]
        rfl
      · rw [List.length_append, List.length_singleton, ← hseq]
      · rw [hqueue, List.length_cons] at hcount
        show s.unfinishedTasks = rest.length + (s.sender.opsToSend ++ [_]).length + 0
        change s.unfinishedTasks = rest.length + 1 + s.sender.opsToSend.length + 0 at hcount
        rw [List.length_append, List.length_singleton]
        omega
    | [] =>
      dsimp only
      have hops : s.sender.opsToSend = [] := by
        by_contra hne
        exact hsends ⟨hstage, hqueue, hne⟩
      rw [BatchedMessageSender.drain_of_empty hqueue hops]
      exact ⟨⟨taken, hput, hnumber, hseq⟩, hcount, fun _ => hops, h.flushed, h.waiters⟩
  | .finishing (left + 1) raised =>
    apply h.moveOn (by rw [hstage]; nofun)
    rw [hstage] at hcount ⊢
    show s.unfinishedTasks + left = s.unfinishedTasks - 1 + (left + 1)
    change s.unfinishedTasks = _ + _ + (left + 1) at hcount
    omega
  | .finishing 0 raised =>
    apply h.moveOn (by rw [hstage]; nofun)
    rw [hstage]
    split <;> rfl
  | .ended => exact h

theorem Inv.wait (h : s.Inv) (thread : Nat) {waiter : Waiter}
    (hbefore : waiter.before = s.put.length) : (s.wait thread waiter).Inv := by
  unfold SenderThreads.wait
  split
  · exact h
  · refine ⟨h.taken, h.unfinished, h.idle, h.flushed, ?_⟩
    intro th w hwaiter
    change (s.waiters.set thread waiter).get? th = some w at hwaiter
    rw [Dict.get?_set] at hwaiter
    split at hwaiter
    · cases hwaiter
      exact hbefore.le
    · exact h.waiters th w hwaiter

/-- A flush ends when all that was put is handed over, so all that was put before it. -/
theorem Inv.resume (h : s.Inv) (thread : Nat) : (s.resume thread).Inv := by
  unfold SenderThreads.resume
  split
  · exact h
  · rename_i waiter hwaiter
    split
    · rename_i hzero
      obtain ⟨hhanded, -⟩ := h.quiet_of_unfinishedTasks hzero
      refine ⟨h.taken, h.unfinished, h.idle, ?_, ?_⟩
      · intro f hf
        rcases List.mem_append.mp hf with hold | hnew
        · exact h.flushed f hold
        · rw [List.mem_singleton.mp hnew]
          show waiter.before ≤ s.handedOps.length
          rw [hhanded, length_number]
          exact h.waiters thread waiter hwaiter
      · intro th w hget
        change (s.waiters.erase thread).get? th = some w at hget
        rw [Dict.get?_erase] at hget
        split at hget
        · cases hget
        · exact h.waiters th w hget
    · exact h

/-- **Step lemma.** -/
theorem step_inv (s : SenderThreads) (e : SenderEvent) (h : s.Inv) : (s.step e).Inv := by
  match e with
  | .addKvOp opType key => exact h.addKvOp opType key
  | .consume raises => exact h.consume raises
  | .flush thread => exact h.wait thread rfl
  | .close thread => exact h.wait thread rfl
  | .resume thread => exact h.resume thread

/-! ## The thread goes on -/

/-- The thread has not met an exception. -/
def Alive (s : SenderThreads) : Prop :=
  match s.consumer with
  | .finishing _ raised => raised = false
  | .ended => False
  | _ => True

/-- Steps of the thread alone lead to where everything is sent. -/
def ComesToRest (s : SenderThreads) : Prop := ∃ n, (s.consumeN n).Quiet

theorem ComesToRest.of_consume (h : (s.consume false).ComesToRest) : s.ComesToRest := by
  obtain ⟨n, hn⟩ := h
  exact ⟨n + 1, hn⟩

theorem Quiet.comesToRest (h : s.Quiet) : s.ComesToRest := ⟨0, h⟩

/-- Marking the operations done, when no more are queued. -/
theorem comesToRest_of_finishing {left : Nat} (h : s.Inv)
    (hstage : s.consumer = .finishing left false) (hqueue : s.sender.messageQueue = []) :
    s.ComesToRest := by
  induction left generalizing s with
  | zero =>
    apply Quiet.comesToRest
    apply h.quiet_of_unfinishedTasks
    rw [h.unfinished, hqueue, h.idle (by rw [hstage]; nofun), hstage]
    rfl
  | succ left ih =>
    have hstep : s.consume false =
        { s with unfinishedTasks := s.unfinishedTasks - 1, consumer := .finishing left false } := by
      unfold SenderThreads.consume
      rw [hstage]
    apply ComesToRest.of_consume
    exact ih (h.consume false) (by rw [hstep]) (by rw [hstep]; exact hqueue)

/-- Draining and sending: the queue gets shorter until the message goes out. -/
theorem comesToRest_of_draining {queue : List KVOpEvent} (h : s.Inv)
    (hstage : s.consumer = .draining) (hqueue : s.sender.messageQueue = queue) :
    s.ComesToRest := by
  induction queue generalizing s with
  | cons op rest ih =>
    have hstep : s.consume false = { s with sender := s.sender.drain.1 } := by
      unfold SenderThreads.consume
      rw [hstage]
      dsimp only
      rw [hqueue]
    apply ComesToRest.of_consume
    apply ih (h.consume false) (by rw [hstep]; exact hstage)
    rw [hstep]
    unfold BatchedMessageSender.drain
    dsimp only
    rw [hqueue]
  | nil =>
    by_cases hops : s.sender.opsToSend = []
    · apply Quiet.comesToRest
      apply h.quiet_of_unfinishedTasks
      rw [h.unfinished, hqueue, hops, hstage]
      rfl
    · have hstep := consume_of_sends ⟨hstage, hqueue, hops⟩ false
      apply ComesToRest.of_consume
      exact comesToRest_of_finishing (h.consume false) (by rw [hstep]) (by rw [hstep]; exact hqueue)

theorem comesToRest_of_waiting (h : s.Inv) (hstage : s.consumer = .waiting) : s.ComesToRest := by
  by_cases hqueue : s.sender.messageQueue = []
  · apply Quiet.comesToRest
    apply h.quiet_of_unfinishedTasks
    rw [h.unfinished, hqueue, h.idle (by rw [hstage]; nofun), hstage]
    rfl
  · apply ComesToRest.of_consume
    refine comesToRest_of_draining (h.consume false) ?_ rfl
    unfold SenderThreads.consume
    rw [hstage]
    exact if_neg hqueue

theorem comesToRest_of_top (h : s.Inv) (hrunning : s.running = true) (hstage : s.consumer = .top) :
    s.ComesToRest := by
  apply ComesToRest.of_consume
  apply comesToRest_of_waiting (h.consume false)
  unfold SenderThreads.consume
  rw [hstage]
  exact if_pos hrunning

/-- Marking the operations done, and then from the head of the loop. -/
theorem comesToRest_of_finishing_running {left : Nat} (h : s.Inv) (hrunning : s.running = true)
    (hstage : s.consumer = .finishing left false) : s.ComesToRest := by
  induction left generalizing s with
  | zero =>
    have hstep : s.consume false = { s with consumer := .top } := by
      unfold SenderThreads.consume
      rw [hstage]
      rfl
    apply ComesToRest.of_consume
    exact comesToRest_of_top (h.consume false) (by rw [hstep]; exact hrunning) (by rw [hstep])
  | succ left ih =>
    have hstep : s.consume false =
        { s with unfinishedTasks := s.unfinishedTasks - 1, consumer := .finishing left false } := by
      unfold SenderThreads.consume
      rw [hstage]
    apply ComesToRest.of_consume
    exact ih (h.consume false) (by rw [hstep]; exact hrunning) (by rw [hstep])

/-- A thread that has not met an exception sends everything, wherever it stands. -/
theorem Alive.comesToRest (halive : s.Alive) (h : s.Inv) (hrunning : s.running = true) :
    s.ComesToRest := by
  unfold Alive at halive
  match hstage : s.consumer with
  | .top => exact comesToRest_of_top h hrunning hstage
  | .waiting => exact comesToRest_of_waiting h hstage
  | .draining => exact comesToRest_of_draining h hstage rfl
  | .finishing left raised =>
    rw [hstage] at halive
    change raised = false at halive
    subst halive
    exact comesToRest_of_finishing_running h hrunning hstage
  | .ended =>
    rw [hstage] at halive
    exact halive.elim

theorem addAll_alive (ops : List (OpType × Int)) (h : s.Inv) :
    (s.addAll ops).Inv ∧ (s.addAll ops).running = s.running ∧
      (s.addAll ops).consumer = s.consumer := by
  induction ops generalizing s with
  | nil => exact ⟨h, rfl, rfl⟩
  | cons op ops ih => exact ih (h.addKvOp op.1 op.2)

/-- A thread that has met one takes nothing from the queue again. -/
theorem not_alive_consumeN (h : ¬ s.Alive) (n : Nat) :
    (s.consumeN n).sender = s.sender ∧ (s.consumeN n).put = s.put ∧
      (s.consumeN n).handed = s.handed := by
  induction n generalizing s with
  | zero => exact ⟨rfl, rfl, rfl⟩
  | succ n ih =>
    have hstep : ¬ (s.consume false).Alive ∧ (s.consume false).sender = s.sender ∧
        (s.consume false).put = s.put ∧ (s.consume false).handed = s.handed := by
      unfold Alive at h ⊢
      unfold SenderThreads.consume
      match hstage : s.consumer with
      | .top | .waiting | .draining =>
        rw [hstage] at h
        exact absurd trivial h
      | .finishing 0 true => exact ⟨id, rfl, rfl, rfl⟩
      | .finishing (left + 1) true => exact ⟨nofun, rfl, rfl, rfl⟩
      | .finishing _ false =>
        rw [hstage] at h
        exact absurd rfl h
      | .ended =>
        dsimp only
        rw [hstage]
        exact ⟨id, rfl, rfl, rfl⟩
    obtain ⟨hdead, hsender, hput, hhanded⟩ := hstep
    obtain ⟨hsender', hput', hhanded'⟩ := ih hdead
    exact ⟨hsender'.trans hsender, hput'.trans hput, hhanded'.trans hhanded⟩

/-- What is added after the exception is never sent. -/
theorem not_quiet_of_not_alive (h : s.Inv) (hdead : ¬ s.Alive) (n : Nat) :
    ¬ Quiet ((s.addAll [(.ADMIT, 0)]).consumeN n) := by
  obtain ⟨hinv, -, hconsumer⟩ := addAll_alive [(.ADMIT, 0)] h
  have hdead' : ¬ (s.addAll [(.ADMIT, 0)]).Alive := by
    unfold Alive at hdead ⊢
    rw [hconsumer]
    exact hdead
  obtain ⟨-, hput, hhanded⟩ := not_alive_consumeN hdead' n
  rintro ⟨hall, -⟩
  have hlength := congrArg List.length hall
  unfold handedOps at hlength
  rw [hhanded, hput, length_number] at hlength
  have hle := h.inOrder.length_le
  rw [length_number] at hle
  change s.handedOps.length = (s.put ++ [_]).length at hlength
  rw [List.length_append, List.length_singleton] at hlength
  omega

/-! ## Every run -/

/-- What keeps the property: the thread goes on until the sender is closed. -/
theorem Inv.delivers_iff (h : s.Inv) : s.Delivers ↔ (s.running = true → s.Alive) := by
  constructor
  · intro hdelivers hrunning
    by_contra hdead
    obtain ⟨n, hn⟩ := hdelivers.sends hrunning [(.ADMIT, 0)]
    exact not_quiet_of_not_alive h hdead n hn
  · intro halive
    refine ⟨h.inOrder, h.flushed, fun hrunning ops => ?_⟩
    obtain ⟨hinv, hrun, hconsumer⟩ := addAll_alive ops h
    have hops : (s.addAll ops).Alive := by
      unfold Alive
      rw [hconsumer]
      exact halive hrunning
    exact hops.comesToRest hinv (hrun.trans hrunning)

/-- **Step lemma: the thread.**  A thread that goes on is stopped by nothing but an exception. -/
theorem alive_consume_iff (halive : s.Alive) (hrunning : s.running = true) (raises : Bool) :
    (s.consume raises).Alive ↔ s.PutMsgReturns (.consume raises) := by
  by_cases hsends : s.Sends
  · rw [consume_of_sends hsends]
    show raises = false ↔ s.PutMsgReturns (.consume raises)
    match raises with
    | false => exact iff_of_true rfl trivial
    | true => exact iff_of_false nofun fun h => h hrunning hsends
  · refine iff_of_true ?_ ?_
    · unfold Alive at halive ⊢
      unfold SenderThreads.consume
      match hstage : s.consumer with
      | .top =>
        dsimp only
        rw [if_pos hrunning]
        trivial
      | .waiting =>
        dsimp only
        by_cases hqueue : s.sender.messageQueue = []
        · rw [if_pos hqueue]
          trivial
        · rw [if_neg hqueue]
          trivial
      | .draining =>
        dsimp only
        match hqueue : s.sender.messageQueue with
        | _ :: _ => trivial
        | [] =>
          have hops : s.sender.opsToSend = [] := by
            by_contra hne
            exact hsends ⟨hstage, hqueue, hne⟩
          dsimp only
          rw [BatchedMessageSender.drain_of_empty hqueue hops]
          trivial
      | .finishing (left + 1) raised =>
        rw [hstage] at halive
        exact halive
      | .finishing 0 raised =>
        rw [hstage] at halive
        change raised = false at halive
        subst halive
        trivial
      | .ended =>
        rw [hstage] at halive
        exact halive.elim
    · match raises with
      | false => trivial
      | true => exact fun _ => hsends

theorem running_consume (s : SenderThreads) (raises : Bool) :
    (s.consume raises).running = s.running := by
  unfold SenderThreads.consume
  split
  · rfl
  · rfl
  · split
    · rfl
    · split <;> rfl
  · rfl
  · rfl
  · rfl

/-- **Step lemma.**  The thread goes on until the sender is closed just when no `put_msg` raises. -/
theorem step_alive_iff (s : SenderThreads) (e : SenderEvent) (halive : s.running = true → s.Alive) :
    ((s.step e).running = true → (s.step e).Alive) ↔ s.PutMsgReturns e := by
  match e with
  | .addKvOp opType key => exact iff_of_true halive trivial
  | .consume raises =>
    show ((s.consume raises).running = true → _) ↔ _
    rw [running_consume]
    by_cases hrunning : s.running = true
    · rw [← alive_consume_iff (halive hrunning) hrunning]
      exact ⟨fun h => h hrunning, fun h _ => h⟩
    · refine iff_of_true (fun h => absurd h hrunning) ?_
      match raises with
      | false => trivial
      | true => exact fun h => absurd h hrunning
  | .flush thread | .close thread =>
    refine iff_of_true ?_ trivial
    show (s.wait thread _).running = true → (s.wait thread _).Alive
    unfold SenderThreads.wait
    split <;> exact halive
  | .resume thread =>
    refine iff_of_true ?_ trivial
    show (s.resume thread).running = true → (s.resume thread).Alive
    unfold SenderThreads.resume
    split
    · exact halive
    · rename_i waiter hwaiter
      split
      · match waiter with
        | .flush _ => exact halive
        | .close _ => exact nofun
      · exact halive

/-- **The operations are delivered in every state of a run just when** no `put_msg` of it raises
before the sender is closed. -/
theorem always_delivers_iff (instanceId : String) (workerId : Nat) (location : String)
    (es : List SenderEvent) :
    Always step Delivers (init instanceId workerId location) es ↔
      Guarded step PutMsgReturns (init instanceId workerId location) es := by
  have hinv := always_of_step step_inv (inv_init instanceId workerId location) es
  rw [← always_iff_guarded_of_inv step_inv (fun s e _ => step_alive_iff s e)
    (inv_init instanceId workerId location) (fun _ => trivial)]
  constructor
  · intro h
    exact (hinv.and h).mono fun (s : SenderThreads) (h : s.Inv ∧ s.Delivers) =>
      h.1.delivers_iff.mp h.2
  · intro h
    exact (hinv.and h).mono fun (s : SenderThreads) (h : s.Inv ∧ (s.running = true → s.Alive)) =>
      h.1.delivers_iff.mpr h.2

/-! ### An exception -/

/-- One operation is added, and `put_msg` raises for its message. -/
def putMsgRaises : List SenderEvent :=
  [.addKvOp .ADMIT 7, .consume false, .consume false, .consume false, .consume true]

/-- It can fail: the thread leaves its loop, and what is added next is never sent. -/
theorem not_always_delivers :
    ¬ Always step Delivers (init "i" 0 "LocalCPUBackend") putMsgRaises := by
  intro h
  have hinv := (always_of_step step_inv (inv_init "i" 0 "LocalCPUBackend") putMsgRaises).last
  have halive := hinv.delivers_iff.mp h.last (by decide +kernel)
  have hstage : (run step (init "i" 0 "LocalCPUBackend") putMsgRaises).consumer =
      .finishing 1 true := by decide +kernel
  unfold Alive at halive
  rw [hstage] at halive
  cases halive

end SenderThreads

end LMCache.Storage
