/-
# LMCache.Controller.FullSyncSender — one call of `start_full_sync`.

Source: `v1/cache_controller/full_sync_sender.py`.

The call freezes the engine, reads the keys of the CPU cache, asks the controller to start, sends
the batches, and polls for the status.  Whatever happens on the way, the `finally` clause leaves
freeze mode and forgets the session.  The answer of the polling loop is dropped: the call returns
`True` as soon as the loop is over, also when it has run out of attempts, and when what allowed the
exit was the progress of all workers.

A call that finds a sync in progress returns at once, and leaves what the running call has set.

The controller's replies, and what is raised at each place of the call, are inputs.  `reported`
collects the status replies that the call has read; it is there for the statements.
-/
import LMCache.PyError
import LMCache.Controller.FullSyncSession

namespace LMCache.Controller

/-! ## Replies, places and states -/

structure FullSyncStartRetMsg where
  syncId : String
  accepted : Bool
  errorMsg : Option String
  deriving DecidableEq, Repr

/-- `global_progress` is only logged. -/
structure FullSyncStatusRetMsg where
  syncId : String
  isComplete : Bool
  canExitFreeze : Bool
  missingBatches : List Nat
  deriving DecidableEq, Repr

/-- How a request ends.  An exception is caught where the request is sent, and gives no reply; so do
a reply that is lost and one of another type. -/
inductive RequestAnswer (α : Type) where
  | reply (ret : α)
  | noReply
  | cancelled
  deriving DecidableEq, Repr

/-- The other places of a call at which something can be raised. -/
inductive SenderPlace where
  | startupDelay
  | retryDelay (attempt : Nat)
  | putBatch (batchId : Nat)
  | batchDelay (batchId : Nat)
  | putEnd
  | statusPollDelay (attempt : Nat)
  | resendBatch (attempt batchId : Nat)
  | resendDelay (attempt batchId : Nat)
  | resendEnd (attempt : Nat)
  deriving DecidableEq, Repr

/-- What goes up through the call: an `Exception`, which it catches, or the cancellation of its
task, which it does not. -/
inductive SenderRaised where
  | exception (e : PyError)
  | cancelled
  deriving DecidableEq, Repr

structure SenderConfig where
  instanceId : String
  workerId : Nat
  location : String
  batchSize : Nat
  batchIntervalMs : Nat
  maxRetryCount : Nat
  maxPollAttempts : Nat

/-- What a call meets. -/
structure SenderWorld where
  hotCacheKeys : Except PyError (List Int)
  newSyncId : String
  startAnswer : Nat → RequestAnswer FullSyncStartRetMsg
  statusAnswer : Nat → RequestAnswer FullSyncStatusRetMsg
  fault : SenderPlace → Option SenderRaised

structure FullSyncSender where
  /-- Freeze mode of the engine. -/
  freeze : Bool
  isSyncing : Bool
  currentSyncId : Option String
  sent : List WorkerMsg
  reported : List FullSyncStatusRetMsg

/-! ## Steps that may raise -/

/-- A part of the call: what it returns or raises, and the state it leaves in either case. -/
structure SenderM (α : Type) where
  run : FullSyncSender → Except SenderRaised α × FullSyncSender

namespace SenderM

instance : Monad SenderM where
  pure a := ⟨fun s => (.ok a, s)⟩
  bind x f := ⟨fun s =>
    match x.run s with
    | (.ok a, s) => (f a).run s
    | (.error e, s) => (.error e, s)⟩

variable {α β : Type}

@[simp] theorem run_pure (a : α) (s : FullSyncSender) :
    (pure a : SenderM α).run s = (.ok a, s) := rfl

variable {x : SenderM α} {reads : List FullSyncStatusRetMsg}

/-- Two parts get through, one after the other, when each does. -/
theorem run_bind_eq_ok {f : α → SenderM β} {s s' : FullSyncSender} {b : β} :
    (x >>= f).run s = (.ok b, s') ↔ ∃ a t, x.run s = (.ok a, t) ∧ (f a).run t = (.ok b, s') := by
  show (match x.run s with
    | (.ok a, s) => (f a).run s
    | (.error e, s) => (.error e, s)) = _ ↔ _
  rcases x.run s with ⟨e | a, t⟩
  · simp
  · simp

def modify (f : FullSyncSender → FullSyncSender) : SenderM Unit := ⟨fun s => (.ok (), f s)⟩

@[simp] theorem run_modify (f : FullSyncSender → FullSyncSender) (s : FullSyncSender) :
    (modify f).run s = (.ok (), f s) := rfl

def raise (e : SenderRaised) : SenderM α := ⟨fun s => (.error e, s)⟩

@[simp] theorem run_raise (e : SenderRaised) (s : FullSyncSender) :
    (raise e : SenderM α).run s = (.error e, s) := rfl

/-- Pass a place of the call. -/
def pass (world : SenderWorld) (place : SenderPlace) : SenderM Unit := ⟨fun s =>
  match world.fault place with
  | none => (.ok (), s)
  | some e => (.error e, s)⟩

theorem run_pass_eq_ok {world : SenderWorld} {place : SenderPlace} {s s' : FullSyncSender} :
    (pass world place).run s = (.ok (), s') ↔ world.fault place = none ∧ s' = s := by
  unfold pass
  cases world.fault place <;> simp [eq_comm]

/-- Pass a place of the call that is only there if `p` holds. -/
def passIf (world : SenderWorld) (place : SenderPlace) (p : Prop) [Decidable p] : SenderM Unit :=
  if p then pass world place else pure ()

/-- `put_msg`. -/
def put (world : SenderWorld) (place : SenderPlace) (msg : WorkerMsg) : SenderM Unit := do
  pass world place
  modify fun s => { s with sent := s.sent ++ [msg] }

/-! ### Getting through -/

/-- The part gets through exactly when `C` holds, and then has read the replies `reads`. -/
structure Spec (x : SenderM α) (C : Prop) (reads : List FullSyncStatusRetMsg) : Prop where
  through : ∀ s, (∃ a s', x.run s = (.ok a, s')) ↔ C
  reported : ∀ s a s', x.run s = (.ok a, s') → s'.reported = s.reported ++ reads

theorem spec_pure (a : α) : Spec (pure a : SenderM α) True [] where
  through := fun s => by simp
  reported := by
    intro s a s' h
    cases h
    simp

theorem spec_raise (e : SenderRaised) : Spec (raise e : SenderM α) False [] where
  through := fun s => by simp
  reported := by
    intro s a s' h
    simp at h

variable (world : SenderWorld)

theorem spec_pass (place : SenderPlace) :
    Spec (pass world place) (world.fault place = none) [] where
  through := by
    intro s
    constructor
    · rintro ⟨⟨⟩, s', h⟩
      exact (run_pass_eq_ok.mp h).1
    · intro h
      exact ⟨(), s, run_pass_eq_ok.mpr ⟨h, rfl⟩⟩
  reported := by
    intro s _ s' h
    obtain ⟨-, rfl⟩ := run_pass_eq_ok.mp h
    simp

theorem spec_modify {f : FullSyncSender → FullSyncSender}
    (hf : ∀ s, (f s).reported = s.reported ++ reads) : Spec (modify f) True reads where
  through := fun s => by simp
  reported := by
    intro s _ s' h
    cases h
    exact hf s

/-- Two parts get through, one after the other, when each does. -/
theorem Spec.bind {f : α → SenderM β} {C D : Prop} {reads' : List FullSyncStatusRetMsg}
    (hx : Spec x C reads) (hf : ∀ a, Spec (f a) D reads') :
    Spec (x >>= f) (C ∧ D) (reads ++ reads') where
  through := by
    intro s
    constructor
    · rintro ⟨b, s', h⟩
      obtain ⟨a, t, hfirst, hrest⟩ := run_bind_eq_ok.mp h
      exact ⟨(hx.through s).mp ⟨a, t, hfirst⟩, ((hf a).through t).mp ⟨b, s', hrest⟩⟩
    · rintro ⟨hC, hD⟩
      obtain ⟨a, t, hfirst⟩ := (hx.through s).mpr hC
      obtain ⟨b, s', hrest⟩ := ((hf a).through t).mpr hD
      exact ⟨b, s', run_bind_eq_ok.mpr ⟨a, t, hfirst, hrest⟩⟩
  reported := by
    intro s b s' h
    obtain ⟨a, t, hfirst, hrest⟩ := run_bind_eq_ok.mp h
    rw [(hf a).reported t b s' hrest, hx.reported s a t hfirst, List.append_assoc]

theorem Spec.of_iff {C D : Prop} (hx : Spec x C reads) (h : C ↔ D) :
    Spec x D reads := propext h ▸ hx

theorem spec_put (place : SenderPlace) (msg : WorkerMsg) :
    Spec (put world place msg) (world.fault place = none) [] := by
  have hsent : Spec (modify fun s => { s with sent := s.sent ++ [msg] }) True [] :=
    spec_modify fun s => (List.append_nil s.reported).symm
  exact ((spec_pass world place).bind fun _ => hsent).of_iff (and_iff_left trivial)

theorem spec_passIf (place : SenderPlace) (p : Prop) [Decidable p] :
    Spec (passIf world place p) (p → world.fault place = none) [] := by
  unfold passIf
  by_cases hp : p
  · rw [if_pos hp]
    exact (spec_pass world place).of_iff (by simp [hp])
  · rw [if_neg hp]
    exact (spec_pure ()).of_iff (by simp [hp])

end SenderM

/-! ## The call -/

namespace FullSyncSender

open SenderM

variable (config : SenderConfig) (world : SenderWorld)

/-- The attempts of `_initialize_sync` to have the start accepted: `n` are left. -/
def startLoop : Nat → Nat → SenderM Bool
  | 0, _ => pure false
  | n + 1, attempt =>
    match world.startAnswer attempt with
    | .cancelled => raise .cancelled
    | .noReply => do
      pass world (.retryDelay attempt)
      startLoop n (attempt + 1)
    | .reply ret =>
      if ret.accepted then pure true
      else do
        pass world (.retryDelay attempt)
        startLoop n (attempt + 1)

/-- The text of Python's `ZeroDivisionError`. -/
def divisionMessage : String := "integer division or modulo by zero"

/-- `_initialize_sync`. -/
def initializeSync : SenderM (Option FullSyncSession) := do
  pass world .startupDelay
  modify fun s => { s with freeze := true }
  match world.hotCacheKeys with
  | .error e => raise (.exception e)
  | .ok keys =>
    if hpos : 0 < config.batchSize then do
      let session : FullSyncSession :=
        ⟨config.instanceId, config.workerId, config.location, world.newSyncId, keys,
          config.batchSize, hpos⟩
      modify fun s => { s with currentSyncId := some world.newSyncId }
      let accepted ← startLoop world config.maxRetryCount 0
      pure (if accepted then some session else none)
    else raise (.exception (.zeroDivisionError divisionMessage))

/-- The batches from one id on, in `_send_key_batches`: `n` are left. -/
def sendBatches (session : FullSyncSession) : Nat → Nat → SenderM Unit
  | 0, _ => pure ()
  | n + 1, batchId => do
    put world (.putBatch batchId) (.fullSyncBatch (session.batchMsg batchId))
    passIf world (.batchDelay batchId) (0 < config.batchIntervalMs ∧ 0 < n)
    sendBatches session n (batchId + 1)

/-- `_send_key_batches`. -/
def sendKeyBatches (session : FullSyncSession) : SenderM Unit := do
  sendBatches config world session session.batchCount 0
  put world .putEnd (.fullSyncEnd session.endMsg)

/-- `_resend_missing_batches`, in one attempt of the polling. -/
def resendMissingBatches (session : FullSyncSession) (attempt : Nat) : List Nat → SenderM Unit
  | [] => pure ()
  | batchId :: rest => do
    put world (.resendBatch attempt batchId) (.fullSyncBatch (session.batchMsg batchId))
    passIf world (.resendDelay attempt batchId) (0 < config.batchIntervalMs)
    resendMissingBatches session attempt rest

/-- The attempts of `_poll_for_completion`: `n` are left. -/
def pollLoop (session : FullSyncSession) : Nat → Nat → Nat → SenderM Bool
  | 0, _, _ => pure false
  | n + 1, attempt, resendCount => do
    pass world (.statusPollDelay attempt)
    match world.statusAnswer attempt with
    | .cancelled => raise .cancelled
    | .noReply => pollLoop session n (attempt + 1) resendCount
    | .reply status => do
      modify fun s => { s with reported := s.reported ++ [status] }
      if status.canExitFreeze then pure true
      else if status.missingBatches ≠ [] ∧ resendCount < config.maxRetryCount then do
        resendMissingBatches config world session attempt status.missingBatches
        put world (.resendEnd attempt) (.fullSyncEnd session.endMsg)
        pollLoop session n (attempt + 1) (resendCount + 1)
      else pollLoop session n (attempt + 1) resendCount

/-- The `try` block of `start_full_sync`.  What the polling returns is dropped. -/
def tryFullSync : SenderM Bool := do
  match ← initializeSync config world with
  | none => pure false
  | some session => do
    sendKeyBatches config world session
    let _ ← pollLoop config world session config.maxPollAttempts 0 0
    pure true

/-- `start_full_sync`. -/
def startFullSync (s : FullSyncSender) : Except SenderRaised Bool × FullSyncSender :=
  if s.isSyncing then (.ok false, s)
  else
    let (result, s) :=
      (tryFullSync config world).run
        { s with isSyncing := true, currentSyncId := none, reported := [] }
    (match result with
      | .error (.exception _) => .ok false
      | result => result,
      { s with freeze := false, isSyncing := false, currentSyncId := none })

/-! ## When the parts get through -/

/-- A start is accepted within the attempts, and nothing is raised before. -/
def Starts : Nat → Nat → Prop
  | 0, _ => False
  | n + 1, attempt =>
    match world.startAnswer attempt with
    | .cancelled => False
    | .noReply => world.fault (.retryDelay attempt) = none ∧ Starts n (attempt + 1)
    | .reply ret =>
      ret.accepted = true ∨ world.fault (.retryDelay attempt) = none ∧ Starts n (attempt + 1)

theorem run_startLoop_eq_true (n attempt : Nat) (s s' : FullSyncSender) :
    (startLoop world n attempt).run s = (.ok true, s') ↔ Starts world n attempt ∧ s' = s := by
  induction n generalizing attempt with
  | zero => simp [startLoop, Starts]
  | succ n ih =>
    -- a try that is not accepted goes on after the delay
    have hretry : (pass world (.retryDelay attempt) >>= fun _ =>
        startLoop world n (attempt + 1)).run s = (.ok true, s') ↔
          (world.fault (.retryDelay attempt) = none ∧ Starts world n (attempt + 1)) ∧ s' = s := by
      rw [run_bind_eq_ok]
      constructor
      · rintro ⟨⟨⟩, t, hpass, hrest⟩
        obtain ⟨hnone, rfl⟩ := run_pass_eq_ok.mp hpass
        obtain ⟨hstarts, rfl⟩ := (ih (attempt + 1)).mp hrest
        exact ⟨⟨hnone, hstarts⟩, rfl⟩
      · rintro ⟨⟨hnone, hstarts⟩, rfl⟩
        exact ⟨(), s', run_pass_eq_ok.mpr ⟨hnone, rfl⟩, (ih (attempt + 1)).mpr ⟨hstarts, rfl⟩⟩
    unfold startLoop Starts
    cases world.startAnswer attempt with
    | cancelled => simp
    | noReply => exact hretry
    | reply ret =>
      cases haccepted : ret.accepted with
      | true => simp [haccepted, eq_comm]
      | false => simpa [haccepted] using hretry

theorem run_initializeSync_eq_some (s s' : FullSyncSender) (session : FullSyncSession) :
    (initializeSync config world).run s = (.ok (some session), s') ↔
      world.fault .startupDelay = none ∧
      (∃ keys, world.hotCacheKeys = .ok keys ∧ ∃ hpos : 0 < config.batchSize,
        session = ⟨config.instanceId, config.workerId, config.location, world.newSyncId, keys,
          config.batchSize, hpos⟩) ∧
      Starts world config.maxRetryCount 0 ∧
      s' = { s with freeze := true, currentSyncId := some world.newSyncId } := by
  unfold initializeSync
  rw [run_bind_eq_ok]
  constructor
  · rintro ⟨⟨⟩, t, hdelay, hrest⟩
    obtain ⟨hnone, rfl⟩ := run_pass_eq_ok.mp hdelay
    obtain ⟨⟨⟩, t, hfreeze, hrest⟩ := run_bind_eq_ok.mp hrest
    cases hfreeze
    cases hkeys : world.hotCacheKeys with
    | error e => simp [hkeys] at hrest
    | ok keys =>
      by_cases hpos : 0 < config.batchSize
      · simp only [hkeys, hpos, dif_pos] at hrest
        obtain ⟨⟨⟩, t, hid, hrest⟩ := run_bind_eq_ok.mp hrest
        cases hid
        obtain ⟨accepted, t, hstart, hrest⟩ := run_bind_eq_ok.mp hrest
        cases accepted with
        | false => simp at hrest
        | true =>
          obtain ⟨hstarts, rfl⟩ := (run_startLoop_eq_true world _ _ _ _).mp hstart
          simp only [if_true, run_pure, Prod.mk.injEq, Except.ok.injEq, Option.some.injEq] at hrest
          exact ⟨hnone, ⟨keys, rfl, hpos, hrest.1.symm⟩, hstarts, hrest.2.symm⟩
      · simp [hkeys, hpos] at hrest
  · rintro ⟨hnone, ⟨keys, hkeys, hpos, rfl⟩, hstarts, rfl⟩
    refine ⟨(), s, run_pass_eq_ok.mpr ⟨hnone, rfl⟩, ?_⟩
    refine run_bind_eq_ok.mpr ⟨(), _, rfl, ?_⟩
    simp only [hkeys, hpos, dif_pos]
    refine run_bind_eq_ok.mpr ⟨(), _, rfl, ?_⟩
    exact run_bind_eq_ok.mpr
      ⟨true, _, (run_startLoop_eq_true world _ _ _ _).mpr ⟨hstarts, rfl⟩, rfl⟩

/-- Nothing is raised while the batches are sent. -/
def SendsBatches (session : FullSyncSession) : Prop :=
  (∀ batchId < session.batchCount, world.fault (.putBatch batchId) = none ∧
    (0 < config.batchIntervalMs ∧ batchId + 1 < session.batchCount →
      world.fault (.batchDelay batchId) = none)) ∧
  world.fault .putEnd = none

theorem spec_sendBatches (session : FullSyncSession) (n batchId : Nat) :
    SenderM.Spec (sendBatches config world session n batchId)
      (∀ i < n, world.fault (.putBatch (batchId + i)) = none ∧
        (0 < config.batchIntervalMs ∧ i + 1 < n →
          world.fault (.batchDelay (batchId + i)) = none)) [] := by
  induction n generalizing batchId with
  | zero => exact (spec_pure ()).of_iff (by simp)
  | succ n ih =>
    unfold sendBatches
    refine ((spec_put world (.putBatch batchId) _).bind fun _ =>
      (spec_passIf world (.batchDelay batchId) (0 < config.batchIntervalMs ∧ 0 < n)).bind fun _ =>
        ih (batchId + 1)).of_iff ?_
    -- the batch at hand is the first, those left come one after the other behind it
    have hshift : ∀ i, batchId + 1 + i = batchId + (i + 1) := fun i => by omega
    rw [Nat.forall_lt_succ_left, ← and_assoc]
    simp only [hshift, Nat.add_zero, Nat.zero_add, Nat.lt_add_left_iff_pos,
      Nat.add_lt_add_iff_right]

theorem spec_sendKeyBatches (session : FullSyncSession) :
    SenderM.Spec (sendKeyBatches config world session) (SendsBatches config world session) [] := by
  refine ((spec_sendBatches config world session session.batchCount 0).bind fun _ =>
    spec_put world .putEnd _).of_iff ?_
  simp only [SendsBatches, Nat.zero_add]

/-- Nothing is raised while missing batches are sent again. -/
def Resends (attempt : Nat) (missingBatches : List Nat) : Prop :=
  (∀ batchId ∈ missingBatches, world.fault (.resendBatch attempt batchId) = none ∧
    (0 < config.batchIntervalMs → world.fault (.resendDelay attempt batchId) = none)) ∧
  world.fault (.resendEnd attempt) = none

theorem spec_resendMissingBatches (session : FullSyncSession) (attempt : Nat)
    (missingBatches : List Nat) :
    SenderM.Spec (resendMissingBatches config world session attempt missingBatches)
      (∀ batchId ∈ missingBatches, world.fault (.resendBatch attempt batchId) = none ∧
        (0 < config.batchIntervalMs → world.fault (.resendDelay attempt batchId) = none)) [] := by
  induction missingBatches with
  | nil => exact (spec_pure ()).of_iff (by simp)
  | cons batchId rest ih =>
    unfold resendMissingBatches
    refine ((spec_put world (.resendBatch attempt batchId) _).bind fun _ =>
      (spec_passIf world (.resendDelay attempt batchId) (0 < config.batchIntervalMs)).bind
        fun _ => ih).of_iff ?_
    rw [List.forall_mem_cons, and_assoc]

/-- Nothing is raised until the polling loop is over: `n` attempts are left. -/
def Polls : Nat → Nat → Nat → Prop
  | 0, _, _ => True
  | n + 1, attempt, resendCount =>
    world.fault (.statusPollDelay attempt) = none ∧
    match world.statusAnswer attempt with
    | .cancelled => False
    | .noReply => Polls n (attempt + 1) resendCount
    | .reply status =>
      if status.canExitFreeze then True
      else if status.missingBatches ≠ [] ∧ resendCount < config.maxRetryCount then
        Resends config world attempt status.missingBatches ∧
          Polls n (attempt + 1) (resendCount + 1)
      else Polls n (attempt + 1) resendCount

/-- The status replies that a polling loop reads which nothing interrupts: those up to the first
that allows the exit from freeze mode. -/
def statusesRead : Nat → Nat → List FullSyncStatusRetMsg
  | 0, _ => []
  | n + 1, attempt =>
    match world.statusAnswer attempt with
    | .cancelled => []
    | .noReply => statusesRead n (attempt + 1)
    | .reply status =>
      status :: if status.canExitFreeze then [] else statusesRead n (attempt + 1)

theorem spec_pollLoop (session : FullSyncSession) (n attempt resendCount : Nat) :
    SenderM.Spec (pollLoop config world session n attempt resendCount)
      (Polls config world n attempt resendCount) (statusesRead world n attempt) := by
  induction n generalizing attempt resendCount with
  | zero => exact spec_pure false
  | succ n ih =>
    unfold pollLoop Polls statusesRead
    refine (spec_pass world (.statusPollDelay attempt)).bind fun _ => ?_
    cases world.statusAnswer attempt with
    | cancelled => exact spec_raise .cancelled
    | noReply => exact ih (attempt + 1) resendCount
    | reply status =>
      dsimp only
      have hreads : Spec (modify fun s => { s with reported := s.reported ++ [status] }) True
          [status] := spec_modify fun _ => rfl
      by_cases hexit : status.canExitFreeze
      · simp only [if_pos hexit]
        exact (hreads.bind fun _ => spec_pure true).of_iff (by simp)
      · simp only [if_neg hexit]
        by_cases hresend : status.missingBatches ≠ [] ∧ resendCount < config.maxRetryCount
        · simp only [if_pos hresend]
          refine (hreads.bind fun _ =>
            (spec_resendMissingBatches config world session attempt _).bind fun _ =>
              (spec_put world (.resendEnd attempt) _).bind fun _ =>
                ih (attempt + 1) (resendCount + 1)).of_iff ?_
          rw [Resends, and_assoc, true_and]
        · simp only [if_neg hresend]
          exact (hreads.bind fun _ => ih (attempt + 1) resendCount).of_iff (by rw [true_and])

/-! ## The whole call -/

/-- A start is accepted, and nothing is raised from the first step of the call to the end of the
polling loop. -/
def Uninterrupted : Prop :=
  world.fault .startupDelay = none ∧
  Starts world config.maxRetryCount 0 ∧
  Polls config world config.maxPollAttempts 0 0 ∧
  ∃ keys, world.hotCacheKeys = .ok keys ∧ ∃ hpos : 0 < config.batchSize,
    SendsBatches config world ⟨config.instanceId, config.workerId, config.location,
      world.newSyncId, keys, config.batchSize, hpos⟩

/-- What follows the start, for one session. -/
theorem spec_afterStart (session : FullSyncSession) :
    SenderM.Spec (do
        sendKeyBatches config world session
        let _ ← pollLoop config world session config.maxPollAttempts 0 0
        pure true)
      (SendsBatches config world session ∧ Polls config world config.maxPollAttempts 0 0)
      (statusesRead world config.maxPollAttempts 0) := by
  have h := (spec_sendKeyBatches config world session).bind fun _ =>
    (spec_pollLoop config world session config.maxPollAttempts 0 0).bind fun _ => spec_pure true
  rw [List.nil_append, List.append_nil] at h
  exact h.of_iff (by rw [and_true])

/-- The `try` block returns `True` exactly when nothing interrupts it. -/
theorem tryFullSync_eq_true (s : FullSyncSender) :
    (∃ s', (tryFullSync config world).run s = (.ok true, s')) ↔ Uninterrupted config world := by
  constructor
  · rintro ⟨s', h⟩
    obtain ⟨init, t, hinit, hrest⟩ := run_bind_eq_ok.mp h
    cases init with
    | none => simp at hrest
    | some session =>
      obtain ⟨hdelay, ⟨keys, hkeys, hpos, rfl⟩, hstarts, -⟩ :=
        (run_initializeSync_eq_some config world _ _ _).mp hinit
      obtain ⟨hsends, hpolls⟩ := ((spec_afterStart config world _).through t).mp ⟨true, s', hrest⟩
      exact ⟨hdelay, hstarts, hpolls, keys, hkeys, hpos, hsends⟩
  · rintro ⟨hdelay, hstarts, hpolls, keys, hkeys, hpos, hsends⟩
    have hinit := (run_initializeSync_eq_some config world s _ _).mpr
      ⟨hdelay, ⟨keys, hkeys, hpos, rfl⟩, hstarts, rfl⟩
    obtain ⟨b, s', hrest⟩ := ((spec_afterStart config world _).through _).mpr ⟨hsends, hpolls⟩
    -- the last part returns `True`, if it returns
    have hb : b = true := by
      obtain ⟨-, t, -, hrest⟩ := run_bind_eq_ok.mp hrest
      obtain ⟨-, t, -, hrest⟩ := run_bind_eq_ok.mp hrest
      cases hrest
      rfl
    subst hb
    exact ⟨s', run_bind_eq_ok.mpr ⟨_, _, hinit, hrest⟩⟩

theorem reported_tryFullSync {s s' : FullSyncSender}
    (h : (tryFullSync config world).run s = (.ok true, s')) :
    s'.reported = s.reported ++ statusesRead world config.maxPollAttempts 0 := by
  obtain ⟨init, t, hinit, hrest⟩ := run_bind_eq_ok.mp h
  cases init with
  | none => simp at hrest
  | some session =>
    obtain ⟨-, -, -, rfl⟩ := (run_initializeSync_eq_some config world _ _ _).mp hinit
    have hreported := (spec_afterStart config world session).reported _ _ _ hrest
    exact hreported

/-- A status reply that says that this session is complete. -/
def Completes (syncId : String) (status : FullSyncStatusRetMsg) : Prop :=
  status.syncId = syncId ∧ status.isComplete = true

/-- **A call reports the truth**: it returns `True` only if it has read a reply that its session is
complete, and it leaves freeze mode off and no session behind. -/
structure ReportsTruth (out : Except SenderRaised Bool × FullSyncSender) : Prop where
  complete : out.1 = .ok true → ∃ status ∈ out.2.reported, Completes world.newSyncId status
  freeze : out.2.freeze = false
  isSyncing : out.2.isSyncing = false
  currentSyncId : out.2.currentSyncId = none

/-- **A call reports the truth if and only if no other is running and, unless it is interrupted, one
of the status replies it reads says that its session is complete.** -/
theorem reportsTruth_iff (s : FullSyncSender) :
    ReportsTruth world (startFullSync config world s) ↔
      s.isSyncing = false ∧ (Uninterrupted config world →
        ∃ status ∈ statusesRead world config.maxPollAttempts 0,
          Completes world.newSyncId status) := by
  cases hidle : s.isSyncing with
  | true =>
    have hskip : startFullSync config world s = (.ok false, s) := if_pos hidle
    rw [hskip]
    constructor
    · intro h
      exact absurd h.isSyncing (by simp [hidle])
    · rintro ⟨h, -⟩
      cases h
  | false =>
    -- the state in which the `try` block starts, and what it comes to
    generalize hbegun : ({ s with isSyncing := true, currentSyncId := none, reported := [] } :
      FullSyncSender) = begun
    have htrue := tryFullSync_eq_true config world begun
    have hreported := @reported_tryFullSync config world begun
    have hcall : startFullSync config world s =
        ((match ((tryFullSync config world).run begun).1 with
          | .error (.exception _) => .ok false
          | result => result),
          { ((tryFullSync config world).run begun).2 with
            freeze := false, isSyncing := false, currentSyncId := none }) := by
      rw [← hbegun]
      exact if_neg (by simp [hidle])
    rw [hcall]
    generalize (tryFullSync config world).run begun = outcome at htrue hreported ⊢
    obtain ⟨result, s'⟩ := outcome
    constructor
    · intro h
      refine ⟨rfl, fun huninterrupted => ?_⟩
      obtain ⟨t, ht⟩ := htrue.mpr huninterrupted
      cases ht
      obtain ⟨status, hmem, hcompletes⟩ := h.complete rfl
      have hmem : status ∈ s'.reported := hmem
      rw [hreported rfl, ← hbegun] at hmem
      exact ⟨status, hmem, hcompletes⟩
    · rintro ⟨-, hcompletes⟩
      refine ⟨fun h => ?_, rfl, rfl, rfl⟩
      -- only a block that got through returns `True`
      have hresult : result = .ok true := by
        rcases result with ⟨_ | _⟩ | b
        · cases h
        · cases h
        · exact h
      subst hresult
      obtain ⟨status, hmem, hstatus⟩ := hcompletes (htrue.mp ⟨s', rfl⟩)
      refine ⟨status, ?_, hstatus⟩
      show status ∈ s'.reported
      rw [hreported rfl, ← hbegun]
      exact hmem

/-! ## A poll that runs out -/

/-- A sender with one attempt to start and one to poll, and nothing in the cache. -/
def onePollConfig : SenderConfig := ⟨"instance", 0, "LocalCPUBackend", 2000, 5, 1, 1⟩

/-- The start is accepted; the one status reply says that batch 0 is missing. -/
def missingBatchWorld : SenderWorld where
  hotCacheKeys := .ok []
  newSyncId := "instance_0_1a2b3c4d"
  startAnswer := fun _ => .reply ⟨"instance_0_1a2b3c4d", true, none⟩
  statusAnswer := fun _ => .reply ⟨"instance_0_1a2b3c4d", false, false, [0]⟩
  fault := fun _ => none

def idleSender : FullSyncSender := ⟨false, false, none, [], []⟩

/-- It can fail: the call returns `True` for a session the controller never reported complete. -/
theorem not_reportsTruth_missingBatch :
    let out := startFullSync onePollConfig missingBatchWorld idleSender
    out.1 = .ok true ∧ out.2.reported = [⟨"instance_0_1a2b3c4d", false, false, [0]⟩] ∧
      ¬ ReportsTruth missingBatchWorld out := by
  intro out
  have htrue : out.1 = .ok true := by decide +kernel
  have hreported : out.2.reported = [⟨"instance_0_1a2b3c4d", false, false, [0]⟩] := by
    decide +kernel
  refine ⟨htrue, hreported, fun h => ?_⟩
  obtain ⟨status, hmem, -, hcomplete⟩ := h.complete htrue
  rw [hreported, List.mem_singleton] at hmem
  subst hmem
  cases hcomplete

end FullSyncSender

end LMCache.Controller
