/-
# LMCache.Controller.SocketLoops — the loops that read the controller's sockets.

Source: `handle_batched_push_request`, `handle_batched_req_request`, `handle_heartbeat_request` and
`start_all` of `v1/cache_controller/controller_manager.py`.

Three loops run beside each other: one reads messages of many parts from the workers, two answer
requests on sockets of their own.  Each part is parsed and given to a handler, and both can raise.
An exception that a loop does not catch ends it; `start_all` gathers the loops with
`return_exceptions=True`, so that the others go on and nobody notices.

What a handler gives, and whether a reply can be encoded and sent, comes with the message.
-/
import LMCache.Lib.Run

namespace LMCache.Controller

open LMCache.Lib

/-! ## Messages -/

/-- The classes of the exceptions that come up in the loops. -/
inductive ErrorClass where
  | jsonDecodeError
  | decodeError
  | validationError
  | zmqError
  | unicodeDecodeError
  | rwLockTimeoutError
  | assertionError
  | runtimeError
  | other
  deriving DecidableEq, Repr

/-- An exception, with its text. -/
structure Raised where
  cls : ErrorClass
  text : String
  deriving DecidableEq, Repr

/-- `except (json.JSONDecodeError, msgspec.DecodeError, msgspec.ValidationError, zmq.ZMQError)` -/
def Raised.caught (e : Raised) : Bool :=
  match e.cls with
  | .jsonDecodeError | .decodeError | .validationError | .zmqError => true
  | _ => false

/-- What the loops ask of the class of a message: `HeartbeatMsg` is a `WorkerReqMsg`, the others
have no class in common. -/
inductive MsgClass where
  | workerMsg
  | heartbeatMsg
  | workerReqMsg
  | orchMsg
  | otherMsg
  deriving DecidableEq, Repr

/-- The two formats of a message, and what is known of it when it is parsed. -/
structure MsgFormat (Json Msg : Type) where
  jsonLoads : List UInt8 → Except Raised Json
  convert : Json → Except Raised Msg
  msgpackDecode : List UInt8 → Except Raised Msg
  msgClass : Msg → MsgClass
  typeName : Msg → String

/-- A part of a message on the pull socket, and what its handler gives if it is called. -/
structure PushPart (Ret : Type) where
  bytes : List UInt8
  outcome : Except Raised Ret

/-- The frames of a message on a ROUTER socket, what the handler gives if it is called, and what
encoding and sending give, of the reply and of a reply with an error. -/
structure RouterMessage (Ret : Type) where
  frames : List (List UInt8)
  outcome : Except Raised Ret
  sent : Except Raised Unit
  errorSent : Except Raised Unit

/-- The identity of a message that is well framed: `[identity, empty_frame, payload]`. -/
def RouterMessage.identity? {Ret : Type} (m : RouterMessage Ret) : Option (List UInt8) :=
  match m.frames with
  | identity :: _ :: _ :: _ => some identity
  | _ => none

/-- The payload of a message that is well framed. -/
def RouterMessage.payload? {Ret : Type} (m : RouterMessage Ret) : Option (List UInt8) :=
  match m.frames with
  | _ :: _ :: part :: _ => some part
  | _ => none

/-- A reply: what the handler returned, or `ErrorMsg`. -/
inductive RouterReply (Ret : Type) where
  | ret (ret : Ret)
  | errorMsg (error : String)
  deriving DecidableEq, Repr

/-! ## The loops -/

/-- A loop: whether it runs, the messages that were given to handlers, and the replies. -/
structure SocketLoop (Msg Ret : Type) where
  running : Bool := true
  calls : List Msg := []
  replies : List (List UInt8 × RouterReply Ret) := []
  deriving DecidableEq, Repr

namespace MsgFormat

variable {Json Msg Ret : Type} (f : MsgFormat Json Msg)

/-- JSON if the part begins with a brace, else MessagePack. -/
def parse (part : List UInt8) : Except Raised Msg :=
  if part.head? = some 0x7b then do
    let msgDict ← f.jsonLoads part
    f.convert msgDict
  else f.msgpackDecode part

/-- The messages that the pull loop has a handler for. -/
def pushed : MsgClass → Bool
  | .workerMsg | .orchMsg => true
  | _ => false

/-- `isinstance(msg, WorkerReqMsg)` -/
def isWorkerReqMsg : MsgClass → Bool
  | .workerReqMsg | .heartbeatMsg => true
  | _ => false

/-- `isinstance(msg, HeartbeatMsg)` -/
def isHeartbeatMsg : MsgClass → Bool
  | .heartbeatMsg => true
  | _ => false

/-- `handle_batched_push_request`, the parts of one message: nothing is caught. -/
def handleBatchedPushRequest :
    List (PushPart Ret) → SocketLoop Msg Ret → SocketLoop Msg Ret
  | [], l => l
  | part :: parts, l =>
    match f.parse part.bytes with
    | .error _ => { l with running := false }
    | .ok msg =>
      if pushed (f.msgClass msg) then
        let l := { l with calls := l.calls ++ [msg] }
        match part.outcome with
        | .error _ => { l with running := false }
        | .ok _ => handleBatchedPushRequest parts l
      else handleBatchedPushRequest parts l

/-- The `try` block of a loop on a ROUTER socket: the loop, and the exception it ends with. -/
def tryRequest (accepts : MsgClass → Bool) (wrongType : String → String) (m : RouterMessage Ret)
    (identity part : List UInt8) (l : SocketLoop Msg Ret) : SocketLoop Msg Ret × Option Raised :=
  match f.parse part with
  | .error e => (l, some e)
  | .ok msg =>
    if accepts (f.msgClass msg) then
      let l := { l with calls := l.calls ++ [msg] }
      match m.outcome, m.sent with
      | .error e, _ => (l, some e)
      | .ok _, .error e => (l, some e)
      | .ok ret, .ok _ => ({ l with replies := l.replies ++ [(identity, .ret ret)] }, none)
    else
      match m.sent with
      | .error e => (l, some e)
      | .ok _ =>
        ({ l with replies := l.replies ++ [(identity, .errorMsg (wrongType (f.typeName msg)))] },
          none)

/-- One round of a loop on a ROUTER socket. -/
def handleRouterMessage (accepts : MsgClass → Bool) (wrongType : String → String)
    (m : RouterMessage Ret) (l : SocketLoop Msg Ret) : SocketLoop Msg Ret :=
  match m.frames with
  | identity :: _ :: part :: _ =>
    match f.tryRequest accepts wrongType m identity part l with
    | (l, none) => l
    | (l, some e) =>
      if e.caught then
        match m.errorSent with
        | .ok _ => { l with replies := l.replies ++ [(identity, .errorMsg e.text)] }
        -- raised in the handler of the exception
        | .error _ => { l with running := false }
      else { l with running := false }
  | _ => l

/-- `handle_batched_req_request`, one round. -/
def handleBatchedReqRequest (m : RouterMessage Ret) (l : SocketLoop Msg Ret) :
    SocketLoop Msg Ret :=
  f.handleRouterMessage isWorkerReqMsg (fun type => s!"Unknown message type: {type}") m l

/-- `handle_heartbeat_request`, one round. -/
def handleHeartbeatRequest (m : RouterMessage Ret) (l : SocketLoop Msg Ret) :
    SocketLoop Msg Ret :=
  f.handleRouterMessage isHeartbeatMsg (fun type => s!"Expected HeartbeatMsg, got {type}") m l

end MsgFormat

/-! ## The three of them -/

/-- The loops of `start_all`, and what they have received. -/
structure ControllerSockets (Msg Ret : Type) where
  pull : SocketLoop Msg Ret := {}
  reply : SocketLoop Msg Ret := {}
  heartbeat : SocketLoop Msg Ret := {}
  parts : List (PushPart Ret) := []
  requests : List (RouterMessage Ret) := []
  heartbeats : List (RouterMessage Ret) := []

/-- A message comes to one of the sockets. -/
inductive SocketEvent (Ret : Type) where
  | push (parts : List (PushPart Ret))
  | request (m : RouterMessage Ret)
  | heartbeat (m : RouterMessage Ret)

namespace ControllerSockets

variable {Json Msg Ret : Type} (f : MsgFormat Json Msg)

/-- A loop that has ended receives nothing. -/
def step (s : ControllerSockets Msg Ret) : SocketEvent Ret → ControllerSockets Msg Ret
  | .push parts =>
    { s with
      pull := if s.pull.running then f.handleBatchedPushRequest parts s.pull else s.pull
      parts := s.parts ++ parts }
  | .request m =>
    { s with
      reply := if s.reply.running then f.handleBatchedReqRequest m s.reply else s.reply
      requests := s.requests ++ [m] }
  | .heartbeat m =>
    { s with
      heartbeat :=
        if s.heartbeat.running then f.handleHeartbeatRequest m s.heartbeat else s.heartbeat
      heartbeats := s.heartbeats ++ [m] }

end ControllerSockets

/-! ## What the loops are to do -/

namespace MsgFormat

variable {Json Msg Ret : Type} (f : MsgFormat Json Msg)

/-- The handler calls for a payload: one if it is a message of a class that has a handler. -/
def callsFor (accepts : MsgClass → Bool) (bytes : List UInt8) : List Msg :=
  match f.parse bytes with
  | .ok msg => if accepts (f.msgClass msg) then [msg] else []
  | .error _ => []

/-- The handler calls for a message on a ROUTER socket. -/
def requestCalls (accepts : MsgClass → Bool) (m : RouterMessage Ret) : List Msg :=
  m.payload?.toList.flatMap (f.callsFor accepts)

/-- A part is parsed, and its handler returns if it has one. -/
def Harmless (part : PushPart Ret) : Prop :=
  ∃ msg, f.parse part.bytes = .ok msg ∧
    (pushed (f.msgClass msg) = true → ∃ ret, part.outcome = .ok ret)

/-- The exception that comes up when a request is parsed, handled and answered. -/
def raisedFor (accepts : MsgClass → Bool) (m : RouterMessage Ret) (part : List UInt8) :
    Option Raised :=
  match f.parse part with
  | .error e => some e
  | .ok msg =>
    match if accepts (f.msgClass msg) then m.outcome.map fun _ => () else .ok (), m.sent with
    | .error e, _ => some e
    | .ok _, .error e => some e
    | .ok _, .ok _ => none

/-- Whatever comes up for a request that is well framed is caught, and the reply with the error can
be sent. -/
def Answered (accepts : MsgClass → Bool) (m : RouterMessage Ret) : Prop :=
  ∀ part e, m.payload? = some part → f.raisedFor accepts m part = some e →
    e.caught = true ∧ m.errorSent = .ok ()

end MsgFormat

namespace ControllerSockets

variable {Json Msg Ret : Type}

/-- **Faults are isolated**: the loops run, the handlers were called for every part and every
request as if there were no others, and each request that is well framed has one reply, to its
sender. -/
structure Isolates (f : MsgFormat Json Msg) (s : ControllerSockets Msg Ret) : Prop where
  pullRuns : s.pull.running = true
  replyRuns : s.reply.running = true
  heartbeatRuns : s.heartbeat.running = true
  pullCalls : s.pull.calls = s.parts.flatMap fun part => f.callsFor MsgFormat.pushed part.bytes
  replyCalls : s.reply.calls = s.requests.flatMap (f.requestCalls MsgFormat.isWorkerReqMsg)
  heartbeatCalls :
    s.heartbeat.calls = s.heartbeats.flatMap (f.requestCalls MsgFormat.isHeartbeatMsg)
  replies : s.reply.replies.map Prod.fst = s.requests.filterMap RouterMessage.identity?
  heartbeatReplies :
    s.heartbeat.replies.map Prod.fst = s.heartbeats.filterMap RouterMessage.identity?

/-- The condition on a message. -/
def Tolerable (f : MsgFormat Json Msg) (_ : ControllerSockets Msg Ret) : SocketEvent Ret → Prop
  | .push parts => ∀ part ∈ parts, f.Harmless part
  | .request m => f.Answered MsgFormat.isWorkerReqMsg m
  | .heartbeat m => f.Answered MsgFormat.isHeartbeatMsg m

end ControllerSockets

/-! ## One message -/

namespace MsgFormat

variable {Json Msg Ret : Type} {f : MsgFormat Json Msg}

variable {parts : List (PushPart Ret)}

/-- Parts that are harmless are handled one after the other. -/
theorem handleBatchedPushRequest_of_harmless (h : ∀ part ∈ parts, f.Harmless part)
    (l : SocketLoop Msg Ret) :
    f.handleBatchedPushRequest parts l =
      { l with calls := l.calls ++ parts.flatMap fun part => f.callsFor pushed part.bytes } := by
  induction parts generalizing l with
  | nil => rw [handleBatchedPushRequest, List.flatMap_nil, List.append_nil]
  | cons part parts ih =>
    obtain ⟨⟨msg, hparse, houtcome⟩, h⟩ := List.forall_mem_cons.mp h
    rw [handleBatchedPushRequest, List.flatMap_cons, callsFor]
    simp only [hparse]
    split
    · rename_i hpushed
      obtain ⟨ret, hret⟩ := houtcome hpushed
      simp only [hret, ih h, List.append_assoc]
    · rw [ih h, List.nil_append]

/-- The loop goes on only if all parts are harmless. -/
theorem harmless_of_running {l : SocketLoop Msg Ret}
    (h : (f.handleBatchedPushRequest parts l).running = true) :
    ∀ part ∈ parts, f.Harmless part := by
  induction parts generalizing l with
  | nil => exact fun part hpart => absurd hpart List.not_mem_nil
  | cons part parts ih =>
    rw [handleBatchedPushRequest] at h
    rw [List.forall_mem_cons]
    split at h
    · cases h
    · rename_i msg hparse
      split at h
      · split at h
        · cases h
        · rename_i ret hret
          exact ⟨⟨msg, hparse, fun _ => ⟨ret, hret⟩⟩, ih h⟩
      · rename_i hpushed
        exact ⟨⟨msg, hparse, fun h' => absurd h' hpushed⟩, ih h⟩

variable (accepts : MsgClass → Bool)

/-- The `try` block calls the handler if there is one, and replies unless something is raised. -/
theorem tryRequest_eq (wrongType : String → String) (m : RouterMessage Ret)
    (identity part : List UInt8) (l : SocketLoop Msg Ret) :
    (f.tryRequest accepts wrongType m identity part l).2 = f.raisedFor accepts m part ∧
    (f.tryRequest accepts wrongType m identity part l).1.running = l.running ∧
    (f.tryRequest accepts wrongType m identity part l).1.calls =
      l.calls ++ f.callsFor accepts part ∧
    (f.tryRequest accepts wrongType m identity part l).1.replies.map Prod.fst =
      l.replies.map Prod.fst ++ if f.raisedFor accepts m part = none then [identity] else [] := by
  unfold tryRequest raisedFor callsFor
  match hparse : f.parse part with
  | .error e => simp
  | .ok msg =>
    by_cases haccepts : accepts (f.msgClass msg) = true
    · match houtcome : m.outcome, hsent : m.sent with
      | .error e, _ => simp [haccepts, Except.map]
      | .ok ret, .error e => simp [haccepts, Except.map]
      | .ok ret, .ok _ => simp [haccepts, Except.map]
    · match hsent : m.sent with
      | .error e => simp [haccepts]
      | .ok _ => simp [haccepts]

/-- The identity and the payload are in the same frames. -/
theorem identity?_eq_some_iff {m : RouterMessage Ret} {identity part : List UInt8}
    {rest : List (List UInt8)} {delimiter : List UInt8}
    (hframes : m.frames = identity :: delimiter :: part :: rest) :
    m.identity? = some identity ∧ m.payload? = some part := by
  unfold RouterMessage.identity? RouterMessage.payload?
  rw [hframes]
  exact ⟨rfl, rfl⟩

/-- **One round on a ROUTER socket.**  The loop goes on exactly when the message is answered; then
the handler was called if there is one, and a well-framed request has one reply. -/
theorem handleRouterMessage_spec (wrongType : String → String) (m : RouterMessage Ret)
    {l : SocketLoop Msg Ret} (hl : l.running = true) :
    ((f.handleRouterMessage accepts wrongType m l).running = true ↔ f.Answered accepts m) ∧
    (f.Answered accepts m →
      (f.handleRouterMessage accepts wrongType m l).calls =
        l.calls ++ f.requestCalls accepts m ∧
      (f.handleRouterMessage accepts wrongType m l).replies.map Prod.fst =
        l.replies.map Prod.fst ++ m.identity?.toList) := by
  match hframes : m.frames with
  | [] | [_] | [_, _] =>
    -- not well framed
    have hpayload : m.payload? = none := by simp [RouterMessage.payload?, hframes]
    have hidentity : m.identity? = none := by simp [RouterMessage.identity?, hframes]
    have hanswered : f.Answered accepts m := fun part e hpart => by simp [hpayload] at hpart
    have hsame : f.handleRouterMessage accepts wrongType m l = l := by
      simp [handleRouterMessage, hframes]
    rw [hsame]
    refine ⟨iff_of_true hl hanswered, fun _ => ?_⟩
    simp [requestCalls, hpayload, hidentity]
  | identity :: delimiter :: part :: rest =>
    obtain ⟨hidentity, hpayload⟩ := identity?_eq_some_iff hframes
    obtain ⟨hraised, hrunning, hcalls, hreplies⟩ :=
      f.tryRequest_eq accepts wrongType m identity part l
    have hround : f.handleRouterMessage accepts wrongType m l =
        match f.tryRequest accepts wrongType m identity part l with
        | (l, none) => l
        | (l, some e) =>
          if e.caught then
            match m.errorSent with
            | .ok _ => { l with replies := l.replies ++ [(identity, .errorMsg e.text)] }
            | .error _ => { l with running := false }
          else { l with running := false } := by
      simp only [handleRouterMessage, hframes]
    rw [hround, requestCalls, hpayload, hidentity, Option.toList_some, Option.toList_some,
      List.flatMap_singleton]
    match htry : f.tryRequest accepts wrongType m identity part l with
    | (l', none) =>
      rw [htry] at hraised hrunning hcalls hreplies
      rw [if_pos hraised.symm] at hreplies
      refine ⟨iff_of_true (hrunning.trans hl) ?_, fun _ => ⟨hcalls, hreplies⟩⟩
      intro part' e hpart he
      cases hpayload.symm.trans hpart
      cases hraised.trans he
    | (l', some e) =>
      rw [htry] at hraised hrunning hcalls hreplies
      rw [if_neg (by simp [← hraised]), List.append_nil] at hreplies
      have hanswered : f.Answered accepts m ↔ e.caught = true ∧ m.errorSent = .ok () := by
        constructor
        · intro h
          exact h part e hpayload hraised.symm
        · rintro h part' e' hpart he
          cases hpayload.symm.trans hpart
          cases hraised.trans he
          exact h
      rw [hanswered]
      by_cases hcaught : e.caught = true
      · match hsent : m.errorSent with
        | .ok _ =>
          simp only [if_pos hcaught]
          refine ⟨iff_of_true (hrunning.trans hl) ⟨hcaught, trivial⟩, fun _ => ⟨hcalls, ?_⟩⟩
          rw [List.map_append, hreplies]
          rfl
        | .error e' =>
          simp [hcaught]
      · simp [hcaught]

end MsgFormat

/-! ## Streams of messages -/

namespace ControllerSockets

variable {Json Msg Ret : Type} {f : MsgFormat Json Msg}

/-- **The exact step lemma.** -/
theorem isolates_step (s : ControllerSockets Msg Ret) (e : SocketEvent Ret) (h : s.Isolates f) :
    (s.step f e).Isolates f ↔ s.Tolerable f e := by
  match e with
  | .push parts =>
    unfold step Tolerable
    dsimp only
    rw [if_pos h.pullRuns]
    constructor
    · exact fun h' => MsgFormat.harmless_of_running h'.pullRuns
    · intro hparts
      rw [MsgFormat.handleBatchedPushRequest_of_harmless hparts]
      refine ⟨h.pullRuns, h.replyRuns, h.heartbeatRuns, ?_, h.replyCalls, h.heartbeatCalls,
        h.replies, h.heartbeatReplies⟩
      show s.pull.calls ++ _ = (s.parts ++ parts).flatMap _
      rw [h.pullCalls, List.flatMap_append]
  | .request m =>
    unfold step Tolerable MsgFormat.handleBatchedReqRequest
    dsimp only
    rw [if_pos h.replyRuns]
    obtain ⟨hruns, hround⟩ := f.handleRouterMessage_spec MsgFormat.isWorkerReqMsg
      (fun type => s!"Unknown message type: {type}") m h.replyRuns
    rw [← hruns]
    constructor
    · exact fun h' => h'.replyRuns
    · intro hrunning
      obtain ⟨hcalls, hreplies⟩ := hround (hruns.mp hrunning)
      refine ⟨h.pullRuns, hrunning, h.heartbeatRuns, h.pullCalls, ?_, h.heartbeatCalls, ?_,
        h.heartbeatReplies⟩
      · show (f.handleRouterMessage _ _ m s.reply).calls = (s.requests ++ [m]).flatMap _
        rw [hcalls, h.replyCalls, List.flatMap_append, List.flatMap_singleton]
      · show (f.handleRouterMessage _ _ m s.reply).replies.map Prod.fst =
          (s.requests ++ [m]).filterMap _
        rw [hreplies, h.replies, List.filterMap_append]
        cases hid : m.identity? <;> simp [hid]
  | .heartbeat m =>
    unfold step Tolerable MsgFormat.handleHeartbeatRequest
    dsimp only
    rw [if_pos h.heartbeatRuns]
    obtain ⟨hruns, hround⟩ := f.handleRouterMessage_spec MsgFormat.isHeartbeatMsg
      (fun type => s!"Expected HeartbeatMsg, got {type}") m h.heartbeatRuns
    rw [← hruns]
    constructor
    · exact fun h' => h'.heartbeatRuns
    · intro hrunning
      obtain ⟨hcalls, hreplies⟩ := hround (hruns.mp hrunning)
      refine ⟨h.pullRuns, h.replyRuns, hrunning, h.pullCalls, h.replyCalls, ?_, h.replies, ?_⟩
      · show (f.handleRouterMessage _ _ m s.heartbeat).calls = (s.heartbeats ++ [m]).flatMap _
        rw [hcalls, h.heartbeatCalls, List.flatMap_append, List.flatMap_singleton]
      · show (f.handleRouterMessage _ _ m s.heartbeat).replies.map Prod.fst =
          (s.heartbeats ++ [m]).filterMap _
        rw [hreplies, h.heartbeatReplies, List.filterMap_append]
        cases hid : m.identity? <;> simp [hid]

/-- **Faulty messages.**  Along any stream of messages to the three sockets, faults are isolated if
and only if nothing comes up on the pull socket, and what comes up on the other two is caught. -/
theorem always_isolates_iff (f : MsgFormat Json Msg) (es : List (SocketEvent Ret)) :
    Always (step f) (Isolates f) {} es ↔ Guarded (step f) (Tolerable f) {} es :=
  always_iff_guarded isolates_step ⟨rfl, rfl, rfl, rfl, rfl, rfl, rfl, rfl⟩

/-! ### A part that cannot be decoded -/

/-- Messages of one byte, which is their number; a byte from 0xc0 on is none. -/
def byteFormat : MsgFormat Unit UInt8 where
  jsonLoads _ := .error ⟨.jsonDecodeError, "Expecting value: line 1 column 1 (char 0)"⟩
  convert _ := .error ⟨.validationError, "Expected `object`"⟩
  msgpackDecode part :=
    match part with
    | [byte] =>
      if byte < 0xc0 then .ok byte
      else .error ⟨.decodeError, "MessagePack data is malformed: invalid opcode (byte 0)"⟩
    | _ => .error ⟨.decodeError, "Input data was truncated"⟩
  msgClass _ := .workerMsg
  typeName _ := "BatchedKVOperationMsg"

/-- The message behind the faulty part is lost, and so is all that comes after. -/
theorem not_always_isolates_malformed :
    ¬ Always (step byteFormat) (Isolates byteFormat) {}
      [.push [⟨[1], .ok ()⟩, ⟨[0xc1], .ok ()⟩, ⟨[2], .ok ()⟩], .push [⟨[3], .ok ()⟩]] := by
  intro h
  exact absurd h.last.pullCalls (by decide)

end ControllerSockets

end LMCache.Controller
