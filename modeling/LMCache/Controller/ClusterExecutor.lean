/-
# LMCache.Controller.ClusterExecutor — one operation on all workers of an instance.

Source: `LMCacheClusterExecutor` of `cache_controller/executor.py`, with the messages of
`cache_controller/message.py` that it takes, sends and returns.

An operation makes one message for each worker, sends them all, and gathers the replies; it succeeds
when all the workers report the same number of tokens.  `move` pairs the workers of one instance
with those of another, and pairs no more of them than the shorter list has.

The replies are given by the place of the message that they answer, and `uuid4` by the worker whose
message it goes into.
-/
import LMCache.Controller.Registration
import LMCache.PyError
import Mathlib.Data.List.Dedup
import Mathlib.Data.List.Sort

namespace LMCache.Controller

open LMCache.Lib

/-! ## The registry, as the executor sees it -/

/-- What is asked of the `RegistrationController`. -/
structure RegController where
  getWorkers : String → List Nat
  getSocket : String → Nat → Option String
  getPeerInitUrl : String → Nat → Option String

/-- `get_worker_ids` -/
def Registry.getWorkerIds (r : Registry) (instanceId : String) : List Nat :=
  match r.instances.get? instanceId with
  | none => []
  | some workers => workers.keys.insertionSort (· ≤ ·)

/-- The controller of a registry. -/
def Registry.regController (r : Registry) : RegController :=
  ⟨r.getWorkerIds, RegistrationController.getSocket r, RegistrationController.getPeerInitUrl r⟩

namespace ClusterExecutor

/-! ## Messages -/

structure ClearMsg where
  eventId : String
  instanceId : String
  location : String
  deriving DecidableEq, Repr

structure PinMsg where
  eventId : String
  instanceId : String
  location : String
  tokens : List Int
  deriving DecidableEq, Repr

/-- `CompressMsg`, and `DecompressMsg`, which has the same fields.  Without tokens, all tokens. -/
structure CompressMsg where
  eventId : String
  instanceId : String
  method : String
  location : String
  tokens : Option (List Int)
  deriving DecidableEq, Repr

/-- A position is an instance and a location. -/
structure MoveMsg where
  eventId : String
  oldPosition : String × String
  newPosition : String × String
  tokens : Option (List Int)
  copy : Option Bool
  deriving DecidableEq, Repr

/-- What the executor is asked to do. -/
inductive OrchMsg where
  | clear (msg : ClearMsg)
  | pin (msg : PinMsg)
  | compress (msg : CompressMsg)
  | decompress (msg : CompressMsg)
  | move (msg : MoveMsg)
  deriving DecidableEq, Repr

/-- What it sends to a worker. -/
inductive ControlMsg where
  | clear (workerEventId location : String)
  | pin (workerEventId location : String) (tokens : List Int)
  | compress (workerEventId method location : String) (tokens : Option (List Int))
  | decompress (workerEventId method location : String) (tokens : Option (List Int))
  | move (workerEventId oldPosition : String) (newPosition : String × String)
      (tokens : Option (List Int)) (copy : Option Bool)
  deriving DecidableEq, Repr

/-- What it returns. -/
inductive OrchRetMsg where
  | clearRet (eventId : String) (numTokens : Int)
  | pinRet (eventId : String) (numTokens : Int)
  | compressRet (eventId : String) (numTokens : Int)
  | decompressRet (eventId : String) (numTokens : Int)
  | moveRet (eventId : String) (numTokens : Int)
  | error (error : String)
  deriving DecidableEq, Repr

/-- What a worker sends back: a message with `num_tokens`, another message (an `ErrorMsg` is one),
or bytes that are no message. -/
inductive Reply where
  | result (numTokens : Int)
  | other
  | undecodable (text : String)
  deriving DecidableEq, Repr

/-- The exceptions of an operation, as `execute` tells them apart. -/
inductive Raised where
  | attributeError
  | other (text : String)
  deriving DecidableEq, Repr

/-- The reply is decoded and `num_tokens` read. -/
def Reply.numTokens : Reply → Except Raised Int
  | result numTokens => .ok numTokens
  | other => .error .attributeError
  | undecodable text => .error (.other text)

/-! ## Operations -/

/-- What has come of an operation: the messages sent, and what it returns or raises. -/
structure Outcome (α : Type) where
  sent : List (String × ControlMsg)
  result : α

/-- The replies are read, and must all say the same. -/
def collect (assertion : String) (ret : Int → OrchRetMsg) (replies : List Reply) :
    Except Raised OrchRetMsg := do
  let numTokensList ← replies.mapM Reply.numTokens
  if numTokensList.dedup.length = 1 then
    match numTokensList[0]? with
    | some numTokens => .ok (ret numTokens)
    | none => .error (.other "list index out of range")
  else .error (.other assertion)

/-- The common part of the operations.  For each target a socket and a message are made, or an
`ErrorMsg` is returned; then all messages are sent. -/
def fanOut {α : Type} (targets : List α) (prepare : α → Except String (String × ControlMsg))
    (assertion : String) (ret : Int → OrchRetMsg) (replies : Nat → Reply) :
    Outcome (Except Raised OrchRetMsg) :=
  match targets.mapM prepare with
  | .error text => ⟨[], .ok (.error text)⟩
  | .ok msgs => ⟨msgs, collect assertion ret ((List.range msgs.length).map replies)⟩

variable (reg : RegController) (uuid4 : Nat → String) (replies : Nat → Reply)

/-- A message for a worker, by its socket. -/
def prepareWorker (instanceId missing : String) (msg : ControlMsg) (workerId : Nat) :
    Except String (String × ControlMsg) :=
  match reg.getSocket instanceId workerId with
  | none => .error missing
  | some socket => .ok (socket, msg)

def clear (msg : ClearMsg) : Outcome (Except Raised OrchRetMsg) :=
  fanOut (reg.getWorkers msg.instanceId)
    (fun workerId => prepareWorker reg msg.instanceId
      s!"Worker {workerId} not registered for instance {msg.instanceId}"
      (.clear s!"Worker{workerId}{msg.eventId}" msg.location) workerId)
    "The number of tokens cleared should be the same across all workers."
    (.clearRet msg.eventId) replies

def pin (msg : PinMsg) : Outcome (Except Raised OrchRetMsg) :=
  fanOut (reg.getWorkers msg.instanceId)
    (fun workerId => prepareWorker reg msg.instanceId
      s!"Worker {workerId} not registered for instance {msg.instanceId}"
      (.pin s!"Worker{workerId}{msg.eventId}" msg.location msg.tokens) workerId)
    "The number of tokens pinned should be the same across all workers."
    (.pinRet msg.eventId) replies

def compress (msg : CompressMsg) : Outcome (Except Raised OrchRetMsg) :=
  fanOut (reg.getWorkers msg.instanceId)
    (fun workerId => prepareWorker reg msg.instanceId
      s!"Worker {workerId} not registered for instance {msg.instanceId} or "
      (.compress s!"CompressWorker{workerId}{uuid4 workerId}" msg.method msg.location msg.tokens)
      workerId)
    "The number of tokens compressed should be the same across all workers."
    (.compressRet msg.eventId) replies

def decompress (msg : CompressMsg) : Outcome (Except Raised OrchRetMsg) :=
  fanOut (reg.getWorkers msg.instanceId)
    (fun workerId => prepareWorker reg msg.instanceId
      s!"Worker {workerId} not registered for instance {msg.instanceId} or "
      (.decompress s!"DecompressWorker{workerId}{uuid4 workerId}" msg.method msg.location
        msg.tokens)
      workerId)
    "The number of tokens decompressed should be the same across all workers."
    (.decompressRet msg.eventId) replies

/-- The message for a pair. -/
def prepareMove (msg : MoveMsg) (pair : Nat × Nat) :
    Except String (String × ControlMsg) :=
  match reg.getSocket msg.oldPosition.1 pair.1, reg.getPeerInitUrl msg.newPosition.1 pair.2 with
  | some socket, some dstUrl =>
    .ok (socket, .move s!"MoveWorker{pair.1}{uuid4 pair.1}" msg.oldPosition.2
      (dstUrl, msg.newPosition.2) msg.tokens msg.copy)
  | _, _ => .error (s!"Src worker {pair.1} not registered for instance {msg.oldPosition.1} or " ++
      s!"dst worker {pair.2} not registered for instance {msg.newPosition.1} " ++
      "or P2P is not enabled.")

def move (msg : MoveMsg) : Outcome (Except Raised OrchRetMsg) :=
  fanOut ((reg.getWorkers msg.oldPosition.1).zip (reg.getWorkers msg.newPosition.1))
    (prepareMove reg uuid4 msg)
    "The number of tokens moved should be the same across all workers."
    (.moveRet msg.eventId) replies

/-- The name that the operation is asked for under. -/
def OrchMsg.operation : OrchMsg → String
  | .clear _ => "clear"
  | .pin _ => "pin"
  | .compress _ => "compress"
  | .decompress _ => "decompress"
  | .move _ => "move"

/-- The operation for a message. -/
def method : OrchMsg → Outcome (Except Raised OrchRetMsg)
  | .clear msg => clear reg replies msg
  | .pin msg => pin reg replies msg
  | .compress msg => compress reg uuid4 replies msg
  | .decompress msg => decompress reg uuid4 replies msg
  | .move msg => move reg uuid4 replies msg

/-- `execute`: no exception comes out of it. -/
def execute (msg : OrchMsg) : Outcome OrchRetMsg :=
  let outcome := method reg uuid4 replies msg
  ⟨outcome.sent,
    match outcome.result with
    | .ok ret => ret
    | .error .attributeError => .error s!"Operation '{msg.operation}' is not supported."
    | .error (.other text) => .error text⟩

/-! ## When an operation succeeds -/

/-- A list has one value just when it is not empty and all of it is the same. -/
theorem length_dedup_eq_one {l : List Int} : l.dedup.length = 1 ↔ l ≠ [] ∧ ∃ n, ∀ m ∈ l, m = n := by
  constructor
  · intro h
    obtain ⟨n, hn⟩ := List.length_eq_one_iff.mp h
    refine ⟨?_, n, fun m hm => ?_⟩
    · rintro rfl
      cases hn
    · have hm' := List.mem_dedup.mpr hm
      rw [hn] at hm'
      exact List.mem_singleton.mp hm'
  · rintro ⟨hne, n, hall⟩
    rw [List.eq_replicate_of_mem hall, List.replicate_dedup (by simpa using hne)]
    rfl

variable {assertion : String} {α : Type} {sent : String × ControlMsg} {msg : MoveMsg}

theorem collect_eq_ok_iff {ret : Int → OrchRetMsg} {l : List Reply} {r : OrchRetMsg} :
    collect assertion ret l = .ok r ↔
      ∃ n, r = ret n ∧ l ≠ [] ∧ ∀ reply ∈ l, reply = .result n := by
  have hnum : ∀ {reply : Reply} {n : Int}, reply.numTokens = .ok n ↔ reply = .result n := by
    intro reply n
    cases reply <;> simp [Reply.numTokens]
  constructor
  · intro h
    obtain ⟨nums, hnums, h⟩ := bind_eq_ok.mp h
    have hmap := mapM_eq_ok_iff.mp hnums
    split at h
    · rename_i hone
      obtain ⟨hne, n, hall⟩ := length_dedup_eq_one.mp hone
      cases nums with
      | nil => exact absurd rfl hne
      | cons m nums =>
        cases h
        have hm := hall m List.mem_cons_self
        refine ⟨m, rfl, ?_, fun reply hreply => ?_⟩
        · rintro rfl
          cases hmap
        · have hread := List.mem_map_of_mem (f := Reply.numTokens) hreply
          rw [hmap] at hread
          obtain ⟨k, hk, heq⟩ := List.mem_map.mp hread
          rw [hnum.mp heq.symm, hall k hk, hm]
    · cases h
  · rintro ⟨n, rfl, hne, hall⟩
    have hl := List.eq_replicate_of_mem hall
    obtain ⟨k, hk⟩ : ∃ k, l.length = k + 1 := Nat.exists_eq_succ_of_ne_zero (by simpa using hne)
    rw [hk] at hl
    subst hl
    refine bind_eq_ok.mpr ⟨List.replicate (k + 1) n, mapM_eq_ok_iff.mpr ?_, ?_⟩
    · rw [List.map_replicate, List.map_replicate]
      rfl
    · rw [if_pos (by rw [List.replicate_dedup (Nat.succ_ne_zero k)]; rfl)]
      rfl

variable {targets : List α} {prepare : α → Except String (String × ControlMsg)}

/-- **A fan-out succeeds** just when there are targets, each of them can be reached, and all the
replies are results with the same number. -/
theorem fanOut_eq_ret_iff
    {ret : Int → OrchRetMsg} {replies : Nat → Reply} {r : OrchRetMsg} (hr : ∀ text, r ≠ .error text)
    :
    (fanOut targets prepare assertion ret replies).result = .ok r ↔
      ∃ n, r = ret n ∧ targets ≠ [] ∧
        targets.mapM prepare = .ok (fanOut targets prepare assertion ret replies).sent ∧
        ∀ i < targets.length, replies i = .result n := by
  unfold fanOut
  cases hprepare : targets.mapM prepare with
  | error text =>
    refine iff_of_false (fun h => hr text (Except.ok.inj h).symm) ?_
    rintro ⟨n, -, -, h, -⟩
    cases h
  | ok msgs =>
    have hlength : msgs.length = targets.length := by
      have hmap := congrArg List.length (mapM_eq_ok_iff.mp hprepare)
      rwa [List.length_map, List.length_map, eq_comm] at hmap
    show collect assertion ret _ = .ok r ↔ _
    rw [collect_eq_ok_iff]
    refine exists_congr fun n => and_congr_right fun _ => ?_
    rw [hlength, Ne, List.map_eq_nil_iff, List.range_eq_nil, List.length_eq_zero_iff]
    simp only [List.mem_map, List.mem_range, forall_exists_index, and_imp, forall_apply_eq_imp_iff₂,
      true_and, Ne]

namespace OrchMsg

/-- The instance whose workers are to do it. -/
def instanceId : OrchMsg → String
  | clear msg => msg.instanceId
  | pin msg => msg.instanceId
  | compress msg | decompress msg => msg.instanceId
  | move msg => msg.oldPosition.1

/-- The return message of a success. -/
def success : OrchMsg → Int → OrchRetMsg
  | clear msg => .clearRet msg.eventId
  | pin msg => .pinRet msg.eventId
  | compress msg => .compressRet msg.eventId
  | decompress msg => .decompressRet msg.eventId
  | move msg => .moveRet msg.eventId

theorem success_ne_error (msg : OrchMsg) (n : Int) (text : String) :
    msg.success n ≠ .error text := by
  cases msg <;> exact fun h => nomatch h

/-- The message is the worker's own: it goes to the worker's socket, with an event of the worker and
what was asked for, and a move names a worker of the other instance. -/
def IsOwn (msg : OrchMsg) (reg : RegController) (workerId : Nat) (sent : String × ControlMsg) :
    Prop :=
  reg.getSocket msg.instanceId workerId = some sent.1 ∧
    match msg with
    | clear msg => sent.2 = .clear s!"Worker{workerId}{msg.eventId}" msg.location
    | pin msg => sent.2 = .pin s!"Worker{workerId}{msg.eventId}" msg.location msg.tokens
    | compress msg => ∃ uuid : String,
      sent.2 = .compress s!"CompressWorker{workerId}{uuid}" msg.method msg.location msg.tokens
    | decompress msg => ∃ uuid : String,
      sent.2 = .decompress s!"DecompressWorker{workerId}{uuid}" msg.method msg.location msg.tokens
    | move msg => ∃ uuid : String, ∃ dst ∈ reg.getWorkers msg.newPosition.1, ∃ dstUrl,
      reg.getPeerInitUrl msg.newPosition.1 dst = some dstUrl ∧
        sent.2 = .move s!"MoveWorker{workerId}{uuid}" msg.oldPosition.2
          (dstUrl, msg.newPosition.2) msg.tokens msg.copy

end OrchMsg

/-- Every worker of the instance was sent its own message, and replied with `n` tokens. -/
def Complete (msg : OrchMsg) (outcome : Outcome OrchRetMsg) (n : Int) : Prop :=
  ∀ i workerId, (reg.getWorkers msg.instanceId)[i]? = some workerId →
    ∃ sent, outcome.sent[i]? = some sent ∧ msg.IsOwn reg workerId sent ∧ replies i = .result n

/-- The outcome is a success of all workers, or an error. -/
def Sound (msg : OrchMsg) (outcome : Outcome OrchRetMsg) : Prop :=
  (∃ n, outcome.result = msg.success n ∧ Complete reg replies msg outcome n) ∨
    ∃ text, outcome.result = .error text

variable {reg uuid4 replies}

/-- What is returned without an exception is what the method returns. -/
theorem execute_eq_success {msg : OrchMsg} {ret : OrchRetMsg}
    (h : (method reg uuid4 replies msg).result = .ok ret) :
    (execute reg uuid4 replies msg).result = ret := by
  unfold execute
  dsimp only
  rw [h]

/-- What comes of `execute`: the success of the method, or an error. -/
theorem execute_cases {msg : OrchMsg}
    (heq : method reg uuid4 replies msg = fanOut targets prepare assertion msg.success replies) :
    (∃ n, (execute reg uuid4 replies msg).result = msg.success n ∧ targets ≠ [] ∧
        targets.mapM prepare = .ok (execute reg uuid4 replies msg).sent ∧
        ∀ i < targets.length, replies i = .result n) ∨
      ∃ text, (execute reg uuid4 replies msg).result = .error text := by
  unfold execute
  rw [heq]
  dsimp only
  cases hresult : (fanOut targets prepare assertion msg.success replies).result with
  | error raised => cases raised <;> exact .inr ⟨_, rfl⟩
  | ok ret =>
    by_cases herror : ∃ text, ret = .error text
    · exact .inr herror
    · obtain ⟨n, hret, h⟩ :=
        (fanOut_eq_ret_iff (fun text h => herror ⟨text, h⟩)).mp hresult
      exact .inl ⟨n, hret, h⟩

/-- An operation that makes a message for every worker is sound. -/
theorem sound_of_fanOut {msg : OrchMsg}
    (heq : method reg uuid4 replies msg = fanOut targets prepare assertion msg.success replies)
    (hown : ∀ (i : Nat) workerId, (reg.getWorkers msg.instanceId)[i]? = some workerId →
      ∃ target, targets[i]? = some target ∧
        ∀ sent, prepare target = .ok sent → msg.IsOwn reg workerId sent) :
    Sound reg replies msg (execute reg uuid4 replies msg) := by
  rcases execute_cases heq with ⟨n, hresult, -, hsent, hreplies⟩ | herror
  · refine .inl ⟨n, hresult, fun i workerId hworker => ?_⟩
    obtain ⟨target, htarget, hprepare⟩ := hown i workerId hworker
    obtain ⟨hlt, rfl⟩ := List.getElem?_eq_some_iff.mp htarget
    obtain ⟨hlength, hpairs⟩ := List.forall₂_iff_get.mp (mapM_eq_ok_iff_forall₂.mp hsent)
    have hlt' := hlength ▸ hlt
    exact ⟨_, List.getElem?_eq_getElem hlt', hprepare _ (hpairs i hlt hlt'), hreplies i hlt⟩
  · exact .inr herror

/-- A message is prepared for a worker that has a socket. -/
theorem prepareWorker_eq_ok_iff {instanceId missing : String} {msg : ControlMsg} {workerId : Nat} :
    prepareWorker reg instanceId missing msg workerId = .ok sent ↔
      reg.getSocket instanceId workerId = some sent.1 ∧ sent.2 = msg := by
  unfold prepareWorker
  obtain ⟨socket, control⟩ := sent
  cases reg.getSocket instanceId workerId with
  | none => simp
  | some socket' => simp [eq_comm]

/-! ## Moves -/

/-- The workers that a move pairs. -/
def movePairs (reg : RegController) (msg : MoveMsg) : List (Nat × Nat) :=
  (reg.getWorkers msg.oldPosition.1).zip (reg.getWorkers msg.newPosition.1)

/-- The pairs can be reached, and the replies for all of them are results with one number. -/
def PairsAgree (reg : RegController) (replies : Nat → Reply) (msg : MoveMsg) : Prop :=
  movePairs reg msg ≠ [] ∧
    (∀ pair ∈ movePairs reg msg, (reg.getSocket msg.oldPosition.1 pair.1).isSome ∧
      (reg.getPeerInitUrl msg.newPosition.1 pair.2).isSome) ∧
    ∃ n, ∀ i < (movePairs reg msg).length, replies i = .result n

/-- Where an operation does what it should: a move must have a worker for each worker of the source,
or fail for the pairs it has. -/
def HoldsWhen (reg : RegController) (replies : Nat → Reply) : OrchMsg → Prop
  | .move msg =>
    (reg.getWorkers msg.oldPosition.1).length ≤ (reg.getWorkers msg.newPosition.1).length ∨
      ¬PairsAgree reg replies msg
  | _ => True

theorem prepareMove_eq_ok_iff {pair : Nat × Nat} :
    prepareMove reg uuid4 msg pair = .ok sent ↔
      reg.getSocket msg.oldPosition.1 pair.1 = some sent.1 ∧
        ∃ dstUrl, reg.getPeerInitUrl msg.newPosition.1 pair.2 = some dstUrl ∧
          sent.2 = .move s!"MoveWorker{pair.1}{uuid4 pair.1}" msg.oldPosition.2
            (dstUrl, msg.newPosition.2) msg.tokens msg.copy := by
  unfold prepareMove
  obtain ⟨socket, control⟩ := sent
  cases reg.getSocket msg.oldPosition.1 pair.1 with
  | none => simp
  | some socket' =>
    cases reg.getPeerInitUrl msg.newPosition.1 pair.2 with
    | none => simp
    | some dstUrl => simp [eq_comm]

/-- A loop whose rounds can all be made is made. -/
theorem exists_mapM_eq_ok
    (h : ∀ target ∈ targets, ∃ sent, prepare target = .ok sent) :
    ∃ msgs, targets.mapM prepare = .ok msgs := by
  induction targets with
  | nil => exact ⟨[], rfl⟩
  | cons target targets ih =>
    rw [List.forall_mem_cons] at h
    obtain ⟨sent, hsent⟩ := h.1
    obtain ⟨msgs, hmsgs⟩ := ih h.2
    exact ⟨sent :: msgs,
      mapM_eq_ok_iff_forall₂.mpr (.cons hsent (mapM_eq_ok_iff_forall₂.mp hmsgs))⟩

/-- A move succeeds when its pairs agree. -/
theorem move_success_of_pairsAgree (uuid4 : Nat → String) (h : PairsAgree reg replies msg) :
    ∃ n, (execute reg uuid4 replies (.move msg)).result = .moveRet msg.eventId n ∧
      (execute reg uuid4 replies (.move msg)).sent.length = (movePairs reg msg).length := by
  obtain ⟨hne, hreach, n, hreplies⟩ := h
  have hall : ∀ pair ∈ movePairs reg msg, ∃ sent, prepareMove reg uuid4 msg pair = .ok sent := by
    intro pair hpair
    obtain ⟨hsocket, hurl⟩ := hreach pair hpair
    obtain ⟨socket, hsocket⟩ := Option.isSome_iff_exists.mp hsocket
    obtain ⟨dstUrl, hurl⟩ := Option.isSome_iff_exists.mp hurl
    exact ⟨(socket, _), prepareMove_eq_ok_iff.mpr ⟨hsocket, dstUrl, hurl, rfl⟩⟩
  obtain ⟨msgs, hmsgs⟩ := exists_mapM_eq_ok hall
  have hmethod : method reg uuid4 replies (.move msg) =
      fanOut (movePairs reg msg) (prepareMove reg uuid4 msg)
        "The number of tokens moved should be the same across all workers."
        (.moveRet msg.eventId) replies := rfl
  have hsent : (method reg uuid4 replies (.move msg)).sent = msgs := by
    rw [hmethod]
    unfold fanOut
    rw [hmsgs]
  refine ⟨n, ?_, ?_⟩
  · refine execute_eq_success ?_
    rw [hmethod]
    refine (fanOut_eq_ret_iff (OrchMsg.success_ne_error (.move msg) n)).mpr
      ⟨n, rfl, hne, ?_, hreplies⟩
    rw [← hmethod, hsent, hmsgs]
  · show (method reg uuid4 replies (.move msg)).sent.length = _
    rw [hsent]
    exact (List.forall₂_iff_get.mp (mapM_eq_ok_iff_forall₂.mp hmsgs)).1.symm

/-- A move that succeeds has pairs that agree. -/
theorem pairsAgree_of_prepared {n : Int} {sent : List (String × ControlMsg)}
    (hne : movePairs reg msg ≠ [])
    (hsent : (movePairs reg msg).mapM (prepareMove reg uuid4 msg) = .ok sent)
    (hreplies : ∀ i < (movePairs reg msg).length, replies i = .result n) :
    PairsAgree reg replies msg := by
  refine ⟨hne, fun pair hpair => ?_, n, hreplies⟩
  obtain ⟨i, hlt, rfl⟩ := List.getElem_of_mem hpair
  obtain ⟨hlength, hpairs⟩ := List.forall₂_iff_get.mp (mapM_eq_ok_iff_forall₂.mp hsent)
  obtain ⟨hsocket, dstUrl, hurl, -⟩ := prepareMove_eq_ok_iff.mp (hpairs i hlt (hlength ▸ hlt))
  exact ⟨Option.isSome_iff_exists.mpr ⟨_, hsocket⟩, Option.isSome_iff_exists.mpr ⟨dstUrl, hurl⟩⟩

/-- **A move is sound** just when no worker of the source is left without a partner, or the pairs
that there are fail. -/
theorem sound_move_iff :
    Sound reg replies (.move msg) (execute reg uuid4 replies (.move msg)) ↔
      HoldsWhen reg replies (.move msg) := by
  have hmethod : method reg uuid4 replies (.move msg) =
      fanOut (movePairs reg msg) (prepareMove reg uuid4 msg)
        "The number of tokens moved should be the same across all workers."
        (OrchMsg.move msg).success replies := rfl
  have hlength : (movePairs reg msg).length =
      min (reg.getWorkers msg.oldPosition.1).length (reg.getWorkers msg.newPosition.1).length :=
    List.length_zip
  constructor
  · intro hsound
    by_contra hnot
    obtain ⟨hlong, hagree⟩ := not_or.mp hnot
    obtain ⟨n, hresult, hsent⟩ := move_success_of_pairsAgree uuid4 (not_not.mp hagree)
    rcases hsound with ⟨m, -, hcomplete⟩ | ⟨text, herror⟩
    · -- the first worker without a partner was sent nothing
      have hlt := not_le.mp hlong
      obtain ⟨sent, hnone, -⟩ := hcomplete _ _ (List.getElem?_eq_getElem hlt)
      rw [List.getElem?_eq_none (by omega)] at hnone
      cases hnone
    · cases hresult.symm.trans herror
  · rintro (hshort | hagree)
    · refine sound_of_fanOut hmethod fun i workerId hworker => ?_
      obtain ⟨hlt, rfl⟩ := List.getElem?_eq_some_iff.mp hworker
      have hlt' : i < (reg.getWorkers msg.newPosition.1).length := lt_of_lt_of_le hlt hshort
      have hpair : (movePairs reg msg)[i]? =
          some ((reg.getWorkers msg.oldPosition.1)[i], (reg.getWorkers msg.newPosition.1)[i]) :=
        List.getElem?_zip_eq_some.mpr ⟨hworker, List.getElem?_eq_getElem hlt'⟩
      refine ⟨_, hpair, fun sent hsent => ?_⟩
      obtain ⟨hsocket, dstUrl, hurl, hcontrol⟩ := prepareMove_eq_ok_iff.mp hsent
      exact ⟨hsocket, _, _, List.getElem_mem hlt', dstUrl, hurl, hcontrol⟩
    · rcases execute_cases hmethod with ⟨n, -, hne, hsent, hreplies⟩ | herror
      · exact absurd (pairsAgree_of_prepared hne hsent hreplies) hagree
      · exact .inr herror

variable (reg uuid4 replies)

/-- **When the outcome of an operation is sound.**  Always, but for a move between instances that do
not have the same number of workers. -/
theorem execute_sound_iff (msg : OrchMsg) :
    Sound reg replies msg (execute reg uuid4 replies msg) ↔ HoldsWhen reg replies msg := by
  cases msg with
  | move msg => exact sound_move_iff
  | clear msg =>
    refine iff_of_true
      (sound_of_fanOut rfl fun i workerId hworker => ⟨workerId, hworker, ?_⟩) trivial
    intro sent hsent
    obtain ⟨hsocket, hcontrol⟩ := prepareWorker_eq_ok_iff.mp hsent
    exact ⟨hsocket, hcontrol⟩
  | pin msg =>
    refine iff_of_true
      (sound_of_fanOut rfl fun i workerId hworker => ⟨workerId, hworker, ?_⟩) trivial
    intro sent hsent
    obtain ⟨hsocket, hcontrol⟩ := prepareWorker_eq_ok_iff.mp hsent
    exact ⟨hsocket, hcontrol⟩
  | compress msg =>
    refine iff_of_true
      (sound_of_fanOut rfl fun i workerId hworker => ⟨workerId, hworker, ?_⟩) trivial
    intro sent hsent
    obtain ⟨hsocket, hcontrol⟩ := prepareWorker_eq_ok_iff.mp hsent
    exact ⟨hsocket, _, hcontrol⟩
  | decompress msg =>
    refine iff_of_true
      (sound_of_fanOut rfl fun i workerId hworker => ⟨workerId, hworker, ?_⟩) trivial
    intro sent hsent
    obtain ⟨hsocket, hcontrol⟩ := prepareWorker_eq_ok_iff.mp hsent
    exact ⟨hsocket, _, hcontrol⟩

/-- Two workers of `a` are to be moved to one of `b`: the second is sent nothing, and the move is a
success. -/
theorem not_sound_move_unequal :
    let reg := [RegisterMsg.mk "a" 0 "10.0.0.1" 9000 none, ⟨"a", 1, "10.0.0.1", 9001, none⟩,
      ⟨"b", 0, "10.0.0.2", 9000, "10.0.0.2:7000"⟩].foldl
        (fun r msg => RegistrationController.register r msg 0) Registry.empty
    let msg : OrchMsg := .move ⟨"e", ("a", "LocalCPUBackend"), ("b", "LocalCPUBackend"), none, true⟩
    let outcome := execute reg.regController (fun _ => "uuid") (fun _ => .result 256) msg
    reg.regController.getWorkers "a" = [0, 1] ∧
      outcome.result = .moveRet "e" 256 ∧
      outcome.sent = [("10.0.0.1:9000", .move "MoveWorker0uuid" "LocalCPUBackend"
        ("10.0.0.2:7000", "LocalCPUBackend") none true)] ∧
      ¬Sound reg.regController (fun _ => .result 256) msg outcome := by
  refine ⟨by decide, by decide, by decide, fun h => ?_⟩
  rcases h with ⟨n, -, hcomplete⟩ | ⟨text, herror⟩
  · obtain ⟨sent, hnone, -⟩ := hcomplete 1 1 (by decide)
    cases hnone
  · cases herror

end ClusterExecutor

end LMCache.Controller
