/-
# LMCache.Multiprocess.MessageQueue — requests and replies between a client and the cache server.

Source: `v1/multiprocess/mq.py` and the table of `v1/multiprocess/protocol.py`.

The client numbers its requests; its main loop takes them from a queue, remembers the future of each
and sends it as a message of several frames.  The main loop of the server calls the handler of the
request's type: a fast one at once, and its reply is sent from there; a blocking one in a thread
pool, and its reply goes through a queue back to the main loop.  A reply has the frame with the
number, by which the client finds the future.

What a handler gives is an argument of the step in which it ends.  Messages between two sockets
arrive in order; the frame with the identity of the client, of which there is one, is left out.
-/
import LMCache.PyError
import LMCache.Lib.Dict
import LMCache.Lib.NotifiedQueue

namespace LMCache.Multiprocess

open LMCache.Lib

/-! ## The protocol -/

/-- `RequestType`. -/
inductive RequestType where
  | REGISTER_KV_CACHE
  | UNREGISTER_KV_CACHE
  | STORE
  | RETRIEVE
  | LOOKUP
  | CLEAR
  | GET_CHUNK_SIZE
  | NOOP
  deriving DecidableEq, Repr

/-- `HandlerType`. -/
inductive HandlerType where
  | SYNC
  | BLOCKING
  | NON_BLOCKING
  deriving DecidableEq, Repr

/-- The classes of payloads and responses. -/
inductive PayloadClass where
  | int
  | str
  | bytes
  | kvCache
  | optionalBool
  | listInt
  | listBool
  | listKeyType
  | tupleBytesBool
  | tupleBytesListBool
  | noneType
  deriving DecidableEq, Repr

/-- `ProtocolDefinition`. -/
structure ProtocolDefinition where
  payloadClasses : List PayloadClass
  responseClass : PayloadClass
  handlerType : HandlerType
  deriving DecidableEq, Repr

/-- `_PROTOCOL_DEFINTIONS`: there is a definition for each type. -/
def protocolDefinitions : RequestType → ProtocolDefinition
  | .REGISTER_KV_CACHE => ⟨[.int, .kvCache], .noneType, .SYNC⟩
  | .UNREGISTER_KV_CACHE => ⟨[.int], .noneType, .SYNC⟩
  | .STORE => ⟨[.listKeyType, .int, .listInt, .bytes], .tupleBytesBool, .BLOCKING⟩
  | .RETRIEVE => ⟨[.listKeyType, .int, .listInt, .bytes], .tupleBytesListBool, .BLOCKING⟩
  | .LOOKUP => ⟨[.listKeyType, .optionalBool], .listBool, .BLOCKING⟩
  | .CLEAR => ⟨[], .noneType, .BLOCKING⟩
  | .GET_CHUNK_SIZE => ⟨[], .int, .SYNC⟩
  | .NOOP => ⟨[], .str, .SYNC⟩

/-- `get_payload_classes`. -/
def getPayloadClasses (requestType : RequestType) : List PayloadClass :=
  (protocolDefinitions requestType).payloadClasses

/-- `get_response_class`. -/
def getResponseClass (requestType : RequestType) : PayloadClass :=
  (protocolDefinitions requestType).responseClass

/-- `get_handler_type`. -/
def getHandlerType (requestType : RequestType) : HandlerType :=
  (protocolDefinitions requestType).handlerType

/-! ## Frames -/

/-- A Python object that is encoded: `None`, or a value. -/
abbrev PyObject (Val : Type) := Option Val

/-- `msgspec`: frames for numbers and request types, which are read as what was written, and frames
for payloads and responses, of a class that they may not fit. -/
structure Codec (Val Frame : Type) where
  encodeUid : Nat → Except PyError Frame
  decodeUid : Frame → Except PyError Nat
  decodeUid_encodeUid : ∀ {uid frame}, encodeUid uid = .ok frame → decodeUid frame = .ok uid
  encodeType : RequestType → Except PyError Frame
  decodeType : Frame → Except PyError RequestType
  decodeType_encodeType : ∀ {type frame}, encodeType type = .ok frame →
    decodeType frame = .ok type
  encode : PyObject Val → PayloadClass → Except PyError Frame
  decode : Frame → PayloadClass → Except PyError (PyObject Val)

namespace Codec

variable {Val Frame : Type} (codec : Codec Val Frame)

/-- The number that a frame stands for. -/
def uidOf (frame : Frame) : Nat :=
  match codec.decodeUid frame with
  | .ok uid => uid
  | .error _ => 0

/-- The number of a message. -/
def msgUid : List Frame → Nat
  | frame :: _ => codec.uidOf frame
  | [] => 0

/-- `unwrap_request_payloads`. -/
def unwrapRequestPayloads (bPayloads : List Frame) (payloadClss : List PayloadClass) :
    Except PyError (List (PyObject Val)) :=
  if bPayloads.length ≠ payloadClss.length then
    .error (.valueError "Payload count does not match expected count")
  else (bPayloads.zip payloadClss).mapM fun p => codec.decode p.1 p.2

/-- The frames of a reply: without a frame for the response if that is `None`. -/
def framesToSend (response : PyObject Val) (responseCls : PayloadClass)
    (prefixFrames : List Frame) : Except PyError (List Frame) := do
  let bResponse ← codec.encode response responseCls
  .ok (if response.isSome then prefixFrames ++ [bResponse] else prefixFrames)

/-- The response in the frames of a reply. -/
def readResponse (responseCls : PayloadClass) : List Frame → Except PyError (PyObject Val)
  | bResponse :: _ => codec.decode bResponse responseCls
  | [] => .ok none

end Codec

/-! ## The client -/

/-- `WrappedRequest`.  A future is named by a number. -/
structure WrappedRequest (Val : Type) where
  requestUid : Nat
  future : Nat
  requestType : RequestType
  requestPayloads : List (PyObject Val)

/-- The frames of a request. -/
def WrappedRequest.frames {Val Frame : Type} (codec : Codec Val Frame) (r : WrappedRequest Val) :
    Except PyError (List Frame) := do
  let bRequestUid ← codec.encodeUid r.requestUid
  let bRequestType ← codec.encodeType r.requestType
  if (getPayloadClasses r.requestType).length ≠ r.requestPayloads.length then
    .error (.valueError "Payload count does not match expected count")
  else do
    let bPayloads ← (r.requestPayloads.zip (getPayloadClasses r.requestType)).mapM fun p =>
      codec.encode p.1 p.2
    .ok (bRequestUid :: bRequestType :: bPayloads)

/-- `MessageQueueClient`. -/
structure MessageQueueClient (Val : Type) where
  requestCounter : Nat := 0
  inputQueue : NotifiedQueue (WrappedRequest Val) := {}
  pendingFutures : Dict Nat Nat := Dict.empty
  /-- The main loop has ended by an exception. -/
  ended : Bool := false

namespace MessageQueueClient

variable {Val Frame : Type}

/-- The request that `submit_request` makes, with a new future. -/
def wrappedRequest (c : MessageQueueClient Val) (requestType : RequestType)
    (requestPayloads : List (PyObject Val)) : WrappedRequest Val :=
  ⟨c.requestCounter, c.requestCounter, requestType, requestPayloads⟩

/-- `submit_request`, up to the put into the queue. -/
def submitRequest (c : MessageQueueClient Val) (requestType : RequestType)
    (requestPayloads : List (PyObject Val)) : MessageQueueClient Val :=
  { c with
    requestCounter := c.requestCounter + 1
    inputQueue := c.inputQueue.put (c.wrappedRequest requestType requestPayloads) }

/-- One round of `_process_outbound_task`, with the message that it sends. -/
def processOutboundTask (codec : Codec Val Frame) (c : MessageQueueClient Val) :
    MessageQueueClient Val × Option (List Frame) :=
  match c.inputQueue.get with
  | (none, inputQueue) => ({ c with inputQueue := inputQueue }, none)
  | (some r, inputQueue) =>
    let pendingFutures := c.pendingFutures.set r.requestUid r.future
    match r.frames codec with
    | .ok frames =>
      ({ c with inputQueue := inputQueue, pendingFutures := pendingFutures }, some frames)
    | .error _ =>
      ({ c with inputQueue := inputQueue, pendingFutures := pendingFutures, ended := true }, none)

/-- `_main_loop` reads a reply: the future that it resolves, and the value. -/
def receive (codec : Codec Val Frame) (c : MessageQueueClient Val) (msg : List Frame) :
    MessageQueueClient Val × Option (Nat × PyObject Val) :=
  match msg with
  | bRequestUid :: bRequestType :: bResponse =>
    match codec.decodeUid bRequestUid, codec.decodeType bRequestType with
    | .ok requestUid, .ok requestType =>
      match c.pendingFutures.get? requestUid with
      | none => (c, none)
      | some future =>
        let c := { c with pendingFutures := c.pendingFutures.erase requestUid }
        match codec.readResponse (getResponseClass requestType) bResponse with
        | .ok response => (c, some (future, response))
        | .error _ => ({ c with ended := true }, none)
    | _, _ => ({ c with ended := true }, none)
  -- the assertion on the number of frames
  | _ => ({ c with ended := true }, none)

end MessageQueueClient

/-! ## The server -/

/-- An entry of `handlers`: a `SyncRequestHandler` or a `BlockingRequestHandler`. -/
structure RequestHandler where
  handlerType : HandlerType
  payloadClss : List PayloadClass
  responseCls : PayloadClass
  deriving DecidableEq, Repr

/-- `add_handler`, with the classes of the protocol: the entry of the type. -/
def RequestHandler.ofProtocol (requestType : RequestType) : RequestHandler :=
  ⟨getHandlerType requestType, getPayloadClasses requestType, getResponseClass requestType⟩

/-- A call of a blocking handler in the thread pool, and what its reply begins with. -/
structure HandlerTask (Frame : Type) where
  responseCls : PayloadClass
  prefixFrames : List Frame

/-- `MessageQueueServer`. -/
structure MessageQueueServer (Frame : Type) where
  handlers : RequestType → Option RequestHandler
  tasks : List (HandlerTask Frame) := []
  outputQueue : NotifiedQueue (List Frame) := {}
  /-- The main loop has ended by an exception. -/
  ended : Bool := false

/-! ## The two of them -/

/-- Client and server, the messages between them, and what has happened. -/
structure MessageQueue (Val Frame : Type) where
  client : MessageQueueClient Val := {}
  server : MessageQueueServer Frame
  toServer : List (List Frame) := []
  toClient : List (List Frame) := []
  /-- The requests that were submitted, in order. -/
  submitted : List (WrappedRequest Val) := []
  /-- The calls of handlers: the number of the request, and the payloads. -/
  calls : List (Nat × List (PyObject Val)) := []
  /-- What the handlers returned or raised. -/
  outcomes : List (Nat × Except PyError (PyObject Val)) := []
  /-- The requests whose handler has returned or raised, or that have no handler to call. -/
  settled : List Nat := []
  /-- The requests for which a reply was sent or put into the queue, once for each reply. -/
  replies : List Nat := []
  /-- The futures that were resolved, with their values. -/
  results : List (Nat × PyObject Val) := []

/-- What the threads do. -/
inductive MQEvent (Val : Type) where
  /-- `submit_request` puts a request. -/
  | submitRequest (requestType : RequestType) (requestPayloads : List (PyObject Val))
  /-- `task_notifier.send`. -/
  | notifyTask
  /-- The client's main loop finds the notifier ready. -/
  | clientWake
  /-- A round of `_process_outbound_task`. -/
  | clientSend
  /-- The client's main loop reads a reply. -/
  | clientReceive
  /-- The server's main loop reads a request; `outcome` is what a sync handler gives. -/
  | serverReceive (outcome : Except PyError (PyObject Val))
  /-- A call in the thread pool ends. -/
  | handlerDone (i : Nat) (outcome : Except PyError (PyObject Val))
  /-- `output_notifier.send`. -/
  | notifyOutput
  /-- The server's main loop finds the notifier ready. -/
  | serverWake
  /-- The server's main loop sends a reply from the queue. -/
  | serverSend

namespace MessageQueue

variable {Val Frame : Type} (codec : Codec Val Frame)

/-- The server is done with a request for which no handler is called. -/
def refuse (s : MessageQueue Val Frame) (bRequestUid : Frame) : MessageQueue Val Frame :=
  { s with settled := s.settled ++ [codec.uidOf bRequestUid] }

/-- `_call_sync_handler`.  An exception is logged by the main loop. -/
def callSyncHandler (s : MessageQueue Val Frame) (entry : RequestHandler)
    (bRequestUid bRequestType : Frame) (payloads : List Frame)
    (outcome : Except PyError (PyObject Val)) : MessageQueue Val Frame :=
  let uid := codec.uidOf bRequestUid
  match codec.unwrapRequestPayloads payloads entry.payloadClss with
  | .error _ => s.refuse codec bRequestUid
  | .ok args =>
    let s := { s with
      calls := s.calls ++ [(uid, args)]
      outcomes := s.outcomes ++ [(uid, outcome)]
      settled := s.settled ++ [uid] }
    match outcome >>= (codec.framesToSend · entry.responseCls [bRequestUid, bRequestType]) with
    | .error _ => s
    | .ok frames =>
      { s with
        toClient := s.toClient ++ [frames]
        replies := s.replies ++ [uid] }

/-- `_call_blocking_handler`, up to the submission to the thread pool. -/
def callBlockingHandler (s : MessageQueue Val Frame) (entry : RequestHandler)
    (bRequestUid bRequestType : Frame) (payloads : List Frame) : MessageQueue Val Frame :=
  match codec.unwrapRequestPayloads payloads entry.payloadClss with
  | .error _ => s.refuse codec bRequestUid
  | .ok args =>
    { s with
      calls := s.calls ++ [(codec.uidOf bRequestUid, args)]
      server := { s.server with
        tasks := s.server.tasks ++ [⟨entry.responseCls, [bRequestUid, bRequestType]⟩] } }

/-- `_call_handler`. -/
def callHandler (s : MessageQueue Val Frame) (entry : RequestHandler)
    (bRequestUid bRequestType : Frame) (payloads : List Frame)
    (outcome : Except PyError (PyObject Val)) : MessageQueue Val Frame :=
  match entry.handlerType with
  | .SYNC => s.callSyncHandler codec entry bRequestUid bRequestType payloads outcome
  | .BLOCKING => s.callBlockingHandler codec entry bRequestUid bRequestType payloads
  | .NON_BLOCKING => s.refuse codec bRequestUid

/-- `_main_loop` of the server reads a request. -/
def receive (s : MessageQueue Val Frame) (msg : List Frame)
    (outcome : Except PyError (PyObject Val)) : MessageQueue Val Frame :=
  match msg with
  | bRequestUid :: bRequestType :: payloads =>
    match codec.decodeType bRequestType with
    | .error _ => { s with server := { s.server with ended := true } }
    | .ok requestType =>
      match s.server.handlers requestType with
      | some entry => s.callHandler codec entry bRequestUid bRequestType payloads outcome
      | none => s.refuse codec bRequestUid
  | _ => { s with server := { s.server with ended := true } }

/-- `_notify_response`, up to the put into the queue.  An exception is logged. -/
def notifyResponse (s : MessageQueue Val Frame) (task : HandlerTask Frame)
    (outcome : Except PyError (PyObject Val)) : MessageQueue Val Frame :=
  let uid := codec.msgUid task.prefixFrames
  let s := { s with
    outcomes := s.outcomes ++ [(uid, outcome)]
    settled := s.settled ++ [uid] }
  match outcome >>= (codec.framesToSend · task.responseCls task.prefixFrames) with
  | .error _ => s
  | .ok frames =>
    { s with
      server := { s.server with outputQueue := s.server.outputQueue.put frames }
      replies := s.replies ++ [uid] }

/-- One round of `_process_outbound_task`. -/
def clientSend (s : MessageQueue Val Frame) : MessageQueue Val Frame :=
  let (client, sent) := s.client.processOutboundTask codec
  { s with
    client := client
    toServer := s.toServer ++ sent.toList }

/-- The client's main loop reads a reply. -/
def clientReceive (s : MessageQueue Val Frame) (msg : List Frame) : MessageQueue Val Frame :=
  let (client, resolved) := s.client.receive codec msg
  { s with
    client := client
    results := s.results ++ resolved.toList }

/-- The server's main loop sends a reply from the queue. -/
def serverSend (s : MessageQueue Val Frame) : MessageQueue Val Frame :=
  let (frames, outputQueue) := s.server.outputQueue.get
  { s with
    server := { s.server with outputQueue := outputQueue }
    toClient := s.toClient ++ frames.toList }

/-- What an event does.  A main loop that has ended does nothing, and one that is taking items from
its queue does not read its socket. -/
def step (s : MessageQueue Val Frame) : MQEvent Val → MessageQueue Val Frame
  | .submitRequest requestType requestPayloads =>
    { s with
      client := s.client.submitRequest requestType requestPayloads
      submitted := s.submitted ++ [s.client.wrappedRequest requestType requestPayloads] }
  | .notifyTask => { s with client := { s.client with inputQueue := s.client.inputQueue.notify } }
  | .clientWake =>
    if s.client.ended then s
    else { s with client := { s.client with inputQueue := s.client.inputQueue.wake } }
  | .clientSend => if s.client.ended then s else s.clientSend codec
  | .clientReceive =>
    match s.toClient with
    | [] => s
    | msg :: toClient =>
      if s.client.ended ∨ s.client.inputQueue.draining then s
      else clientReceive codec { s with toClient := toClient } msg
  | .serverReceive outcome =>
    match s.toServer with
    | [] => s
    | msg :: toServer =>
      if s.server.ended ∨ s.server.outputQueue.draining then s
      else receive codec { s with toServer := toServer } msg outcome
  | .handlerDone i outcome =>
    match s.server.tasks[i]? with
    | none => s
    | some task =>
      notifyResponse codec
        { s with server := { s.server with tasks := s.server.tasks.eraseIdx i } } task outcome
  | .notifyOutput =>
    { s with server := { s.server with outputQueue := s.server.outputQueue.notify } }
  | .serverWake =>
    if s.server.ended then s
    else { s with server := { s.server with outputQueue := s.server.outputQueue.wake } }
  | .serverSend => if s.server.ended then s else s.serverSend

end MessageQueue

end LMCache.Multiprocess
