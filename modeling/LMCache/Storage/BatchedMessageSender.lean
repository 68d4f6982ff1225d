/-
# LMCache.Storage.BatchedMessageSender — the queue between a backend and the controller.

A backend adds its admit and evict operations to one queue.  A consumer thread drains the queue: it
takes the operations one by one, numbers them as it takes them, and once it finds the queue empty it
sends what it has taken as one message.  The operations under way are those taken but not sent,
followed by those still queued.
-/
import LMCache.Controller.WorkerNode

namespace LMCache.Storage

open LMCache.Lib LMCache.Controller

structure BatchedMessageSender where
  instanceId : String
  workerId : Nat
  location : String
  messageQueue : List KVOpEvent := []
  sequenceNumber : Nat := 0
  /-- The local `ops_to_send` of the running `_drain_and_send`. -/
  opsToSend : List KVOpEvent := []
  deriving DecidableEq, Repr

namespace BatchedMessageSender

/-- `add_kv_op`: the sequence number is a placeholder until the operation is drained. -/
def addKvOp (s : BatchedMessageSender) (opType : OpType) (key : Int) : BatchedMessageSender :=
  { s with messageQueue := s.messageQueue ++ [⟨opType, key, -1⟩] }

/-- One turn of the loop of `_drain_and_send`: take and number one operation or, when the queue is
empty, leave the loop and send what was taken. -/
def drain (s : BatchedMessageSender) : BatchedMessageSender × Option BatchedKVOperationMsg :=
  match s.messageQueue with
  | op :: rest =>
    ({ s with
        messageQueue := rest
        sequenceNumber := s.sequenceNumber + 1
        opsToSend := s.opsToSend ++ [{ op with seqNum := s.sequenceNumber }] }, none)
  | [] =>
    if s.opsToSend = [] then (s, none)
    else
      ({ s with opsToSend := [] },
        some ⟨s.instanceId, s.workerId, s.location, s.opsToSend⟩)

/-- The changes queued or taken, and not yet sent. -/
def pending (s : BatchedMessageSender) : List (Note Int) :=
  (s.opsToSend ++ s.messageQueue).map KVOpEvent.note

/-! ## What the operations do to the changes under way -/

/-- The sender with more operations in its queue. -/
def extend (s : BatchedMessageSender) (ops : List KVOpEvent) : BatchedMessageSender :=
  { s with messageQueue := s.messageQueue ++ ops }

variable (s : BatchedMessageSender)

@[simp] theorem extend_nil : s.extend [] = s := by
  simp [extend]

@[simp] theorem pending_extend (ops : List KVOpEvent) :
    (s.extend ops).pending = s.pending ++ ops.map KVOpEvent.note := by
  simp [pending, extend]

/-- With nothing queued and nothing taken there is nothing to send. -/
theorem drain_of_empty {s : BatchedMessageSender} (hqueue : s.messageQueue = [])
    (hops : s.opsToSend = []) : s.drain = (s, none) := by
  unfold drain
  rw [hqueue]
  exact if_pos hops

/-- With nothing queued what was taken is sent. -/
theorem drain_of_taken {s : BatchedMessageSender} (hqueue : s.messageQueue = [])
    (hops : s.opsToSend ≠ []) : s.drain =
      ({ s with opsToSend := [] }, some ⟨s.instanceId, s.workerId, s.location, s.opsToSend⟩) := by
  unfold drain
  split
  · rename_i hcons
    rw [hqueue] at hcons
    cases hcons
  · exact if_neg hops

/-- A turn either moves an operation along or moves the taken ones into a message. -/
theorem drain_cases :
    (s.drain.2 = none ∧ s.drain.1.pending = s.pending ∧ s.drain.1.location = s.location) ∨
    ∃ msg, s.drain.2 = some msg ∧ msg.location = s.location ∧
      msg.operations.map KVOpEvent.note ++ s.drain.1.pending = s.pending ∧
      s.drain.1.location = s.location := by
  unfold drain
  cases hq : s.messageQueue with
  | nil =>
    by_cases ho : s.opsToSend = []
    · exact .inl (by simp [pending, ho, hq])
    · exact .inr ⟨⟨s.instanceId, s.workerId, s.location, s.opsToSend⟩, by simp [pending, ho, hq]⟩
  | cons op rest =>
    refine .inl ⟨rfl, ?_, rfl⟩
    simp [pending, hq, KVOpEvent.note]

end BatchedMessageSender

end LMCache.Storage
