/-
# LMCache.Controller.MessageChannel — operations on their way to the controller.

All messages of a worker travel on one first-in first-out channel: the operations of its backends,
one sender and one location for each, and the batches of a full sync.  For one location the
operations under way are those in the channel, those its sender has taken, and those still queued;
the first two kinds carry consecutive sequence numbers.
-/
import LMCache.Controller.FullSyncSession
import LMCache.Storage.BatchedMessageSender

namespace LMCache.Controller

open LMCache.Lib LMCache.Storage

/-! ## Operations in the channel -/

/-- The operations a message carries for a location. -/
def WorkerMsg.opsAt (location : String) : WorkerMsg → List KVOpEvent
  | .batchedKVOperation msg => if msg.location = location then msg.operations else []
  | _ => []

def opsAt (location : String) (channel : List WorkerMsg) : List KVOpEvent :=
  channel.flatMap (WorkerMsg.opsAt location)

@[simp] theorem opsAt_nil (location : String) : opsAt location [] = [] := rfl

theorem opsAt_cons (location : String) (m : WorkerMsg) (channel : List WorkerMsg) :
    opsAt location (m :: channel) = m.opsAt location ++ opsAt location channel := by
  simp [opsAt]

theorem opsAt_append (location : String) (c d : List WorkerMsg) :
    opsAt location (c ++ d) = opsAt location c ++ opsAt location d := by
  simp [opsAt]

/-! ## Sequence numbers -/

/-- The operations are numbered consecutively from `a`; the next one is numbered `b`. -/
def Numbered : Nat → List KVOpEvent → Nat → Prop
  | a, [], b => a = b
  | a, op :: ops, b => op.seqNum = a ∧ Numbered (a + 1) ops b

theorem numbered_append {a c : Nat} {xs ys : List KVOpEvent} :
    Numbered a (xs ++ ys) c ↔ ∃ b, Numbered a xs b ∧ Numbered b ys c := by
  induction xs generalizing a with
  | nil =>
    constructor
    · exact fun h => ⟨a, rfl, h⟩
    · rintro ⟨b, rfl, h⟩
      exact h
  | cons x xs ih =>
    rw [List.cons_append]
    constructor
    · rintro ⟨hx, h⟩
      obtain ⟨b, h1, h2⟩ := ih.mp h
      exact ⟨b, ⟨hx, h1⟩, h2⟩
    · rintro ⟨b, ⟨hx, h1⟩, h2⟩
      exact ⟨hx, ih.mpr ⟨b, h1, h2⟩⟩

theorem Numbered.next_eq {a b : Nat} {ops : List KVOpEvent} (h : Numbered a ops b) :
    b = a + ops.length := by
  induction ops generalizing a with
  | nil => exact h.symm
  | cons op ops ih =>
    rw [ih h.2, List.length_cons]
    omega

/-- Operations at the head of a queue may be lost when a snapshot covers each of them: it is numbered
below the mark, or it evicts a hash that the snapshot lacks. -/
theorem mirroredFrom_lose {κ : Type} {hash : κ → Int} {hot : Set κ} {S A E : Set Int}
    {rest : List (Note Int)} {mark a b : Nat} {ops : List KVOpEvent} (hnum : Numbered a ops b)
    (hcov : ∀ op ∈ ops, op.seqNum < mark ∨ op.opType = .EVICT ∧ op.key ∉ S)
    (h : MirroredFrom hash hot S A E (ops.map KVOpEvent.note ++ rest) (mark - a)) :
    MirroredFrom hash hot S A E rest (mark - b) := by
  induction ops generalizing a with
  | nil =>
    cases hnum
    exact h
  | cons op ops ih =>
    refine ih hnum.2 (fun o ho => hcov o (List.mem_cons_of_mem _ ho)) ?_
    rw [List.map_cons, List.cons_append] at h
    by_cases hlt : a < mark
    · have hsub : mark - a = mark - (a + 1) + 1 := by omega
      rw [hsub] at h
      exact h.lose
    · -- the operation is not below the mark, so nothing more may be lost for its age
      have hseq := hnum.1
      rcases hcov op List.mem_cons_self with hold | ⟨hevict, hkey⟩
      · omega
      · have hzero : mark - a = 0 := by omega
        have hzero' : mark - (a + 1) = 0 := by omega
        rw [hzero, KVOpEvent.note, hevict] at h
        rw [hzero']
        exact h.loseDiscard hkey

/-! ## A sender and the channel -/

section Line

variable (sender : BatchedMessageSender) (channel : List WorkerMsg)

/-- The numbered operations of a sender that are not handled yet. -/
def numberedOps : List KVOpEvent := opsAt sender.location channel ++ sender.opsToSend

/-- The changes of a sender's location that are under way, in the order of handling. -/
def underWay : List (Note Int) :=
  (opsAt sender.location channel ++ (sender.opsToSend ++ sender.messageQueue)).map KVOpEvent.note

/-- The number of operations the sender has ever been given. -/
def everQueued : Nat := sender.sequenceNumber + sender.messageQueue.length

/-- The channel after one turn of the sender's consumer thread. -/
def drainInto : List WorkerMsg :=
  channel ++ (sender.drain.2.map WorkerMsg.batchedKVOperation).toList

theorem underWay_extend (ops : List KVOpEvent) :
    underWay (sender.extend ops) channel = underWay sender channel ++ ops.map KVOpEvent.note := by
  simp [underWay, BatchedMessageSender.extend]

theorem length_underWay {base : Nat}
    (h : Numbered base (numberedOps sender channel) sender.sequenceNumber) :
    base + (underWay sender channel).length = everQueued sender := by
  have := h.next_eq
  simp only [numberedOps, List.length_append] at this
  simp only [underWay, List.length_map, List.length_append, everQueued]
  omega

/-- What a turn puts into the channel: nothing, or a message of the sender's location. -/
theorem drainInto_cases :
    drainInto sender channel = channel ∨
    ∃ msg, drainInto sender channel = channel ++ [.batchedKVOperation msg] ∧
      msg.location = sender.location := by
  rcases sender.drain_cases with ⟨hnone, -, -⟩ | ⟨msg, hsome, hloc, -, -⟩
  · exact .inl (by simp [drainInto, hnone])
  · exact .inr ⟨msg, by simp [drainInto, hsome], hloc⟩

theorem location_drain : sender.drain.1.location = sender.location := by
  rcases sender.drain_cases with ⟨-, -, h⟩ | ⟨-, -, -, -, h⟩ <;> exact h

/-- A turn moves operations along and loses none. -/
theorem underWay_drain :
    underWay sender.drain.1 (drainInto sender channel) = underWay sender channel := by
  have hsplit : ∀ (s : BatchedMessageSender) (c : List WorkerMsg), s.location = sender.location →
      underWay s c = (opsAt sender.location c).map KVOpEvent.note ++ s.pending := by
    intro s c hs
    rw [underWay, hs, List.map_append, BatchedMessageSender.pending]
  rw [hsplit _ _ (location_drain sender), hsplit _ _ rfl]
  rcases sender.drain_cases with ⟨hnone, hpend, -⟩ | ⟨msg, hsome, hloc, hpend, -⟩
  · rw [hpend, drainInto, hnone]
    simp
  · rw [drainInto, hsome, opsAt_append, List.map_append, ← hpend, List.append_assoc]
    simp [opsAt_cons, WorkerMsg.opsAt, hloc]

/-- A turn numbers the operation it takes, and keeps the numbers consecutive. -/
theorem numbered_drain {base : Nat}
    (h : Numbered base (numberedOps sender channel) sender.sequenceNumber) :
    Numbered base (numberedOps sender.drain.1 (drainInto sender channel))
      sender.drain.1.sequenceNumber := by
  unfold drainInto BatchedMessageSender.drain
  cases hq : sender.messageQueue with
  | nil =>
    by_cases ho : sender.opsToSend = []
    · simpa [ho] using h
    · simp only [ho, if_false, Option.map_some, Option.toList_some]
      simpa [numberedOps, opsAt_append, opsAt_cons, WorkerMsg.opsAt] using h
  | cons op rest =>
    simp only [Option.map_none, Option.toList_none, List.append_nil]
    rw [numberedOps, ← List.append_assoc]
    exact numbered_append.mpr ⟨sender.sequenceNumber, h, rfl, rfl⟩

theorem everQueued_drain : everQueued sender.drain.1 = everQueued sender := by
  unfold everQueued BatchedMessageSender.drain
  cases hq : sender.messageQueue with
  | nil =>
    by_cases ho : sender.opsToSend = []
    · simp [ho, hq]
    · simp [ho]
  | cons op rest =>
    simp only [List.length_cons]
    omega

/-- The other locations do not notice. -/
theorem opsAt_drainInto {location : String} (h : location ≠ sender.location) :
    opsAt location (drainInto sender channel) = opsAt location channel := by
  rcases drainInto_cases sender channel with hd | ⟨msg, hd, hloc⟩
  · rw [hd]
  · rw [hd, opsAt_append, opsAt_cons, WorkerMsg.opsAt, if_neg (hloc ▸ h.symm)]
    simp

end Line

end LMCache.Controller
