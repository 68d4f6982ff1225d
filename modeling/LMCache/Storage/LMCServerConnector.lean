/-
# LMCache.Storage.LMCServerConnector — requests and replies on one socket.

Source: `receive_all`, `exists`, `put` and `get` of `LMCServerConnector`.

The requests are coroutines of one event loop.  A lock keeps them from using the socket together, and
wakes those that wait for it in the order in which they came.  `exists` and `get` block the loop while
they send and read, so only `put` keeps the lock across a suspension.  But `get` reads the header of the
reply under the lock, gives the lock back and asks for it again to read the payload: with others in the
queue it comes last, and an `exists` or a `get` before it reads the payload as its own header.  A header
is read by one `recv`, which may give a part of it; and when there is no memory for a payload it stays
unread.

The reads and writes of the requests are recorded, byte by byte, next to the state of the source.
-/
import LMCache.Server

namespace LMCache.Storage.LMCServerConnector

open LMCache.Lib LMCache.Memory LMCache.Server

/-! ## Requests -/

/-- What the connector uses of a memory object. -/
structure MemoryObj where
  byteArray : List UInt8
  shape : List Int
  dtype : Option TorchDtype
  fmt : MemoryFormat
  deriving DecidableEq, Repr

inductive Request where
  | exist (key : CacheEngineKey)
  | put (key : CacheEngineKey) (memoryObj : MemoryObj)
  | get (key : CacheEngineKey)

namespace Request

/-- The message of a request. -/
def message : Request → ClientMetaMessage
  | exist key => ⟨.exist, key, 0, .KV_2LTD, some .float16, [0, 0, 0, 0], none⟩
  | put key obj => ⟨.put, key, obj.byteArray.length, obj.fmt, obj.dtype, obj.shape, none⟩
  | get key => ClientMetaMessage.getMessage key

end Request

inductive Outcome where
  | existed (found : Bool)
  | got (memoryObj : Option MemoryObj)
  | done
  | raised (e : PyError)
  deriving DecidableEq, Repr

/-- What is decided outside of the connector while a request runs. -/
structure Env where
  /-- `sock_sendall` suspends the coroutine. -/
  yields : Bool
  /-- The bytes that are there when `recv` asks for a header. -/
  arrived : Nat
  /-- The memory that `local_cpu_backend.allocate` gives for a payload. -/
  buffer : Option (List UInt8)

/-- What a coroutine does when it gets the lock. -/
inductive Waiting where
  | request (r : Request)
  /-- The second part of `get`. -/
  | payload (header : ServerMetaMessage)

/-! ## The connection -/

structure Conn where
  /-- The server's end of the connection. -/
  handler : Handler
  /-- The server has closed it. -/
  closed : Bool
  /-- The `put` that is suspended with the lock, and has its payload yet to send. -/
  holder : Option (Nat × CacheEngineKey × MemoryObj)
  /-- The coroutines in the queue of the lock, in order. -/
  waiters : List (Nat × Waiting)
  finished : List (Nat × Outcome)
  /-- How many requests there have been. -/
  calls : Nat
  /-- A `recv` waits for bytes that do not come, and the loop with it. -/
  blocked : Bool
  /-- For each byte from the server, the request that it answers. -/
  sentBy : List Nat
  /-- For each byte that was read, the request that read it. -/
  readBy : List Nat
  /-- The object put last under each key. -/
  stored : Dict CacheEngineKey MemoryObj
  /-- The right outcome of each request that has run. -/
  expected : List (Nat × Outcome)

namespace Conn

/-- The bytes that the server has sent and nobody has read. -/
def unread (s : Conn) : List UInt8 := s.handler.sent.drop s.readBy.length

def finish (s : Conn) (id : Nat) (outcome : Outcome) : Conn :=
  { s with finished := s.finished ++ [(id, outcome)] }

def expect (s : Conn) (id : Nat) (outcome : Outcome) : Conn :=
  { s with expected := s.expected ++ [(id, outcome)] }

/-- `client_socket.sendall(bs)`, and what the server makes of it.  What is sent to a server that has
closed the connection is lost. -/
def send (s : Conn) (id : Nat) (bs : List UInt8) : Conn :=
  if s.closed then s
  else
    let after := Handler.pump { s.handler with inbox := s.handler.inbox ++ Arrivals.ofBytes bs }
    { s with
      handler := after.2
      closed := after.1
      sentBy := s.sentBy ++ List.replicate (after.2.sent.length - s.handler.sent.length) id }

/-- The first bytes that nobody has read. -/
def read (s : Conn) (id n : Nat) : List UInt8 × Conn :=
  let bs := s.unread.take n
  (bs, { s with readBy := s.readBy ++ List.replicate bs.length id })

/-- `client_socket.recv(ServerMetaMessage.packlength())` and `ServerMetaMessage.deserialize`; none when
there is nothing to receive. -/
def recvHeader (s : Conn) (id : Nat) (env : Env) : Option (Except PyError ServerMetaMessage × Conn) :=
  if s.unread = [] ∧ ¬ s.closed then none
  else
    let received := s.read id (min ServerMetaMessage.packlength (max 1 env.arrived))
    some (ServerMetaMessage.deserialize received.1, received.2)

/-- `receive_all`, and the end of `get`. -/
def receivePayload (s : Conn) (id : Nat) (header : ServerMetaMessage) (env : Env) : Conn :=
  match env.buffer with
  | none => s.finish id (.got none)
  | some buffer =>
    let n := header.length.toNat
    if buffer.length < n then
      s.finish id (.raised (.valueError "buffer too small for requested bytes"))
    else if n ≤ s.unread.length then
      let received := s.read id n
      received.2.finish id
        (.got (some ⟨received.1 ++ buffer.drop n, header.shape, header.dtype, header.fmt⟩))
    else if s.closed then (s.read id n).2.finish id (.got none)
    else { s with blocked := true }

/-- The second `sock_sendall` of `put`, and its end. -/
def sendPayload (s : Conn) (id : Nat) (key : CacheEngineKey) (obj : MemoryObj) : Conn :=
  let s := s.send id obj.byteArray
  { s with stored := s.stored.set key obj }.finish id .done

/-- What a request is to come to. -/
def answer (s : Conn) : Request → Outcome
  | .exist key => .existed (key ∈ s.stored)
  | .put _ _ => .done
  | .get key => .got (s.stored.get? key)

/-- A coroutine with the lock, up to where it suspends or returns. -/
def runRequest (s : Conn) (id : Nat) (req : Request) (env : Env) : Conn :=
  match req.message.serialize with
  | .error e => (s.expect id (.raised e)).finish id (.raised e)
  | .ok bs =>
    let s := (s.expect id (s.answer req)).send id bs
    match req with
    | .put key obj =>
      if env.yields then { s with holder := some (id, key, obj) } else s.sendPayload id key obj
    | .exist _ =>
      match s.recvHeader id env with
      | none => { s with blocked := true }
      | some (.error e, s) => s.finish id (.raised e)
      | some (.ok header, s) => s.finish id (.existed (header.code = .success))
    | .get _ =>
      match s.recvHeader id env with
      | none => { s with blocked := true }
      | some (.error e, s) => s.finish id (.raised e)
      | some (.ok header, s) =>
        if header.code ≠ .success then s.finish id (.got none)
        -- the lock is free again, and given to those that wait for it first
        else if s.waiters = [] then s.receivePayload id header env
        else { s with waiters := s.waiters ++ [(id, .payload header)] }

end Conn

/-! ## The event loop -/

inductive Event where
  /-- A new request starts. -/
  | call (req : Request) (env : Env)
  /-- The first coroutine in the queue of the lock is woken. -/
  | resume (env : Env)
  /-- The suspended `put` goes on. -/
  | sent

namespace Conn

/-- One event.  Those that are not possible in a state do not change it. -/
def step (s : Conn) (e : Event) : Conn :=
  if s.blocked then s
  else
    match e with
    | .call req env =>
      let called := { s with calls := s.calls + 1 }
      if s.holder = none ∧ s.waiters = [] then called.runRequest s.calls req env
      else { called with waiters := s.waiters ++ [(s.calls, .request req)] }
    | .resume env =>
      match s.holder, s.waiters with
      | none, (id, .request req) :: waiters =>
        { s with waiters := waiters }.runRequest id req env
      | none, (id, .payload header) :: waiters =>
        { s with waiters := waiters }.receivePayload id header env
      | _, _ => s
    | .sent =>
      match s.holder with
      | some (id, key, obj) => { s with holder := none }.sendPayload id key obj
      | none => s

end Conn

/-! ## Requests and replies that match -/

/-- **Replies go to the requests they answer.**  A byte was read by the request that it answers; a byte
that is there to be read answers a `get` that waits to read it; and what has returned has returned what
it should. -/
structure Matched (s : Conn) : Prop where
  own : s.readBy <+: s.sentBy
  claimed : ∀ id ∈ s.sentBy.drop s.readBy.length, ∃ header, (id, Waiting.payload header) ∈ s.waiters
  right : ∀ p ∈ s.finished, p ∈ s.expected
  live : s.blocked = false

namespace Waiting

def IsPut : Waiting → Prop
  | request (.put _ _) => True
  | _ => False

def IsRequest : Waiting → Prop
  | request _ => True
  | payload _ => False

end Waiting

/-- There is memory for a payload of `n` bytes. -/
def Env.Allocates (env : Env) (n : Nat) : Prop :=
  ∃ buffer, env.buffer = some buffer ∧ buffer.length = n

namespace Conn

/-- A request runs as it should, with `waiters` in the queue behind it: if it has a message, the message
comes to the server as it is; the header of the reply comes in one piece; and if a `get` has a payload to
read, it has the memory for it when it is alone, and only `put`s are before it in the queue when it is
not. -/
def Smooth (s : Conn) (waiters : List (Nat × Waiting)) (req : Request) (env : Env) : Prop :=
  ∀ bs, req.message.serialize = .ok bs →
    ClientMetaMessage.deserialize bs = .ok req.message ∧
      match req with
      | .put _ _ => True
      | .exist _ => ServerMetaMessage.packlength ≤ env.arrived
      | .get key => ServerMetaMessage.packlength ≤ env.arrived ∧
          ∀ obj, s.stored.get? key = some obj →
            (waiters = [] → env.Allocates obj.byteArray.length) ∧ ∀ w ∈ waiters, w.2.IsPut

/-- The condition on an event. -/
def Orderly (s : Conn) : Event → Prop
  | .call req env => s.holder = none → s.waiters = [] → s.Smooth [] req env
  | .resume env =>
    match s.holder, s.waiters with
    | none, (_, .request req) :: waiters => s.Smooth waiters req env
    | none, (_, .payload header) :: _ => env.Allocates header.length.toNat
    | _, _ => True
  | .sent => True

end Conn

/-! ## What the server makes of a request -/

/-- The object of a `PUT`. -/
def objOf (p : PutMessage) : MemoryObj :=
  ⟨p.data, p.clientMeta.shape, p.clientMeta.dtype, p.clientMeta.fmt⟩

namespace Conn

/-- **What is sent and answered**: a complete message is applied, and the bytes of the reply are the
request's. -/
theorem send_of_message {s : Conn} {t : PutStore} {id : Nat} {bs : List UInt8} {m : Message}
    (hopen : s.closed = false) (hstore : s.handler.store = t.objs)
    (h : Message.next (Arrivals.bytes s.handler.inbox ++ bs) = some (m, [])) :
    ∃ inbox reply, s.send id bs = { s with
        handler := ⟨(t.apply m).objs, inbox, s.handler.sent ++ reply⟩
        sentBy := s.sentBy ++ List.replicate reply.length id } ∧
      Arrivals.bytes inbox = [] ∧ Reply.serializeAll (t.reply m).toList = .ok reply := by
  have hbytes : Arrivals.bytes (s.handler.inbox ++ Arrivals.ofBytes bs) =
      Arrivals.bytes s.handler.inbox ++ bs := by
    rw [Arrivals.bytes_append, Arrivals.bytes_ofBytes]
  obtain ⟨inbox, reply, hpump, hinbox, hreply⟩ :=
    @Handler.pump_of_message t (s.handler.inbox ++ Arrivals.ofBytes bs) s.handler.sent m
      (by rw [hbytes]; exact h)
  have hhandler : Handler.pump { s.handler with
      inbox := s.handler.inbox ++ Arrivals.ofBytes bs } =
        (false, ⟨(t.apply m).objs, inbox, s.handler.sent ++ reply⟩) := by
    show Handler.pump ⟨s.handler.store, _, _⟩ = _
    rw [hstore]
    exact hpump
  refine ⟨inbox, reply, ?_, hinbox, hreply⟩
  unfold send
  rw [if_neg (by rw [hopen]; decide), hhandler]
  dsimp only
  rw [List.length_append, Nat.add_sub_cancel_left, ← hopen]

variable {bs : List UInt8} {id : Nat} {s : Conn} {env : Env} {t : PutStore} {key : CacheEngineKey}
  {waiters : List (Nat × Waiting)}

/-- What the server waits behind is not answered yet. -/
theorem send_of_not_ready (hopen : s.closed = false)
    (h : Handler.ready (Arrivals.bytes s.handler.inbox ++ bs) = false) :
    s.send id bs = { s with handler := { s.handler with
      inbox := s.handler.inbox ++ Arrivals.ofBytes bs } } := by
  have hpump : Handler.pump { s.handler with
      inbox := s.handler.inbox ++ Arrivals.ofBytes bs } =
        (false, { s.handler with inbox := s.handler.inbox ++ Arrivals.ofBytes bs }) := by
    refine Handler.pump_of_not_ready ?_
    rw [Arrivals.bytes_append, Arrivals.bytes_ofBytes]
    exact h
  unfold send
  rw [if_neg (by rw [hopen]; decide), hpump]
  dsimp only
  rw [Nat.sub_self, List.replicate_zero, List.append_nil, ← hopen]

/-! ## The invariant -/

/-- The server has what was put, and waits for a message; or it waits for the payload of the `put` that
is suspended, if there is one. -/
def ServerInv (s : Conn) : Prop :=
  ∃ t : PutStore, s.stored = t.mapValues objOf ∧
    match s.holder with
    | none => s.handler.store = t.objs ∧ Arrivals.bytes s.handler.inbox = []
    | some (_, key, obj) => ∃ p : PutMessage, p.clientMeta.key = key ∧ objOf p = obj ∧
        ((obj.byteArray ≠ [] ∧ s.handler.store = t.objs ∧
            Arrivals.bytes s.handler.inbox = p.header) ∨
          (obj.byteArray = [] ∧ s.handler.store = PutStore.objs (t.set key p) ∧
            Arrivals.bytes s.handler.inbox = []))

/-- Nothing is there to be read. -/
def Drained (s : Conn) : Prop := s.readBy = s.sentBy ∧ ∀ w ∈ s.waiters, w.2.IsRequest

/-- The payload of one `get` is there to be read, and only `put`s are before it in the queue. -/
def Pending (s : Conn) : Prop :=
  ∃ puts id header rest obj, s.waiters = puts ++ (id, .payload header) :: rest ∧
    (∀ w ∈ puts, w.2.IsPut) ∧ (∀ w ∈ rest, w.2.IsRequest) ∧
    s.sentBy = s.readBy ++ List.replicate obj.byteArray.length id ∧ s.unread = obj.byteArray ∧
    header.length.toNat = obj.byteArray.length ∧
    obj = ⟨obj.byteArray, header.shape, header.dtype, header.fmt⟩ ∧
    (id, .got (some obj)) ∈ s.expected

structure Inv (s : Conn) : Prop where
  opened : s.closed = false
  live : s.blocked = false
  right : ∀ p ∈ s.finished, p ∈ s.expected
  length_sentBy : s.sentBy.length = s.handler.sent.length
  held : ∀ id key obj, s.holder = some (id, key, obj) → (id, .done) ∈ s.expected
  server : s.ServerInv
  socket : s.Drained ∨ s.Pending

/-- **The invariant says that requests and replies match.** -/
theorem Inv.matched (h : s.Inv) : Matched s := by
  refine ⟨?_, ?_, h.right, h.live⟩
  · rcases h.socket with ⟨hread, -⟩ | ⟨puts, id, header, rest, obj, -, -, -, hsent, -⟩
    · rw [hread]
    · rw [hsent]
      exact List.prefix_append _ _
  · intro id hid
    rcases h.socket with ⟨hread, -⟩ | ⟨puts, id', header, rest, obj, hwaiters, -, -, hsent, -⟩
    · rw [hread, List.drop_length] at hid
      cases hid
    · rw [hsent, List.drop_left] at hid
      rw [(List.mem_replicate.mp hid).2, hwaiters]
      exact ⟨header, List.mem_append_right _ List.mem_cons_self⟩

/-! ## The steps of a request -/

theorem finish_inv {outcome : Outcome} (h : s.Inv) (hright : (id, outcome) ∈ s.expected) :
    (s.finish id outcome).Inv := by
  refine ⟨h.opened, h.live, ?_, h.length_sentBy, h.held, h.server, h.socket⟩
  intro p hp
  rcases List.mem_append.mp hp with hp | hp
  · exact h.right p hp
  · rw [List.mem_singleton.mp hp]
    exact hright

theorem expect_inv (h : s.Inv) (id : Nat) (outcome : Outcome) : (s.expect id outcome).Inv := by
  refine ⟨h.opened, h.live, fun p hp => List.mem_append_left _ (h.right p hp), h.length_sentBy,
    fun id key obj hholder => List.mem_append_left _ (h.held id key obj hholder), h.server, ?_⟩
  rcases h.socket with hdrained | ⟨puts, id', header, rest, obj, h₁, h₂, h₃, h₄, h₅, h₆, h₇, h₈⟩
  · exact Or.inl hdrained
  · exact Or.inr ⟨puts, id', header, rest, obj, h₁, h₂, h₃, h₄, h₅, h₆, h₇,
      List.mem_append_left _ h₈⟩

theorem read_take {s : Conn} {id n : Nat} {bs data : List UInt8} (hunread : s.unread = bs ++ data)
    (hn : bs.length = n) :
    s.read id n = (bs, { s with readBy := s.readBy ++ List.replicate n id }) := by
  have htake : s.unread.take n = bs := by
    rw [hunread, ← hn, List.take_left]
  unfold read
  rw [htake]
  dsimp only
  rw [hn]

/-- The header of a reply that comes in one piece. -/
theorem recvHeader_eq {data : List UInt8} {header : ServerMetaMessage}
    (hs : header.serialize = .ok bs) (hunread : s.unread = bs ++ data)
    (harrived : ServerMetaMessage.packlength ≤ env.arrived) :
    s.recvHeader id env = some (.ok header,
      { s with readBy := s.readBy ++ List.replicate ServerMetaMessage.packlength id }) := by
  have hlen := ServerMetaMessage.length_serialize hs
  have hmin : min ServerMetaMessage.packlength (max 1 env.arrived) =
      ServerMetaMessage.packlength := by omega
  have hne : ¬ (s.unread = [] ∧ ¬ s.closed) := by
    rintro ⟨hnil, -⟩
    rw [hunread, List.append_eq_nil_iff] at hnil
    rw [hnil.1] at hlen
    cases hlen
  unfold recvHeader
  rw [if_neg hne, hmin, read_take hunread hlen]
  dsimp only
  rw [ServerMetaMessage.deserialize_serialize hs]

/-- A payload that there is memory for. -/
theorem receivePayload_eq {s : Conn} {id : Nat} {header : ServerMetaMessage} {env : Env}
    {data : List UInt8} (hunread : s.unread = data) (hn : header.length.toNat = data.length)
    (hallocates : env.Allocates data.length) :
    s.receivePayload id header env =
      ({ s with readBy := s.readBy ++ List.replicate data.length id } : Conn).finish id
        (.got (some ⟨data, header.shape, header.dtype, header.fmt⟩)) := by
  obtain ⟨buffer, hbuffer, hlen⟩ := hallocates
  have hread := @read_take s id data.length data [] (by rw [hunread, List.append_nil]) rfl
  unfold receivePayload
  rw [hbuffer]
  dsimp only
  rw [hn, if_neg (by omega), if_pos (by rw [hunread]), hread]
  dsimp only
  rw [← hlen, List.drop_length, List.append_nil]

/-- **A question and the header of its answer.**  What is left to be read is the data of the answer. -/
theorem recvHeader_send {m : Message} {r : Reply} (h : s.Inv) (hdrained : s.Drained)
    (hstore : s.handler.store = t.objs) (hinbox : Arrivals.bytes s.handler.inbox = [])
    (hnext : Message.next bs = some (m, [])) (happly : t.apply m = t) (hreply : t.reply m = some r)
    (harrived : ServerMetaMessage.packlength ≤ env.arrived) :
    ∃ inbox reply s', (s.send id bs).recvHeader id env = some (.ok r.header, s') ∧
      s' = { s with
        handler := ⟨t.objs, inbox, s.handler.sent ++ reply⟩
        sentBy := s.sentBy ++ List.replicate (ServerMetaMessage.packlength + r.data.length) id
        readBy := s.readBy ++ List.replicate ServerMetaMessage.packlength id } ∧
      Arrivals.bytes inbox = [] ∧
      reply.length = ServerMetaMessage.packlength + r.data.length ∧ s'.unread = r.data := by
  obtain ⟨inbox, reply, hsend, hinbox', hserialize⟩ := @send_of_message s t id bs m h.opened hstore
    (by rw [hinbox]; exact hnext)
  rw [hreply] at hserialize
  obtain ⟨header, hheader, hserialize⟩ := bind_eq_ok.mp hserialize
  obtain ⟨empty, hempty, hserialize⟩ := bind_eq_ok.mp hserialize
  cases hempty
  have hbytes : reply = header ++ r.data := by
    rw [← Except.ok.inj hserialize, List.append_nil]
  have hlen := ServerMetaMessage.length_serialize hheader
  have hreplylen : reply.length = ServerMetaMessage.packlength + r.data.length := by
    rw [hbytes, List.length_append, hlen]
  have hread : s.readBy.length = s.handler.sent.length := by
    rw [hdrained.1, h.length_sentBy]
  have hunread : (s.send id bs).unread = header ++ r.data := by
    rw [hsend, ← hbytes]
    show (s.handler.sent ++ reply).drop s.readBy.length = _
    rw [hread, List.drop_left]
  refine ⟨inbox, reply, _, recvHeader_eq hheader hunread harrived, ?_, hinbox', hreplylen, ?_⟩
  · rw [hsend, happly, hreplylen]
  · rw [hsend]
    show (s.handler.sent ++ reply).drop (s.readBy ++ List.replicate _ id).length = r.data
    rw [List.length_append, List.length_replicate, hread, ← hlen, hbytes, ← List.append_assoc,
      ← List.length_append, List.drop_left]

theorem serverInv_none (h : s.ServerInv) (hholder : s.holder = none) :
    ∃ t : PutStore, s.stored = t.mapValues objOf ∧ s.handler.store = t.objs ∧
      Arrivals.bytes s.handler.inbox = [] := by
  obtain ⟨t, hstored, hserver⟩ := h
  rw [hholder] at hserver
  exact ⟨t, hstored, hserver⟩

theorem serverInv_of_none (hholder : s.holder = none) (hstored : s.stored = t.mapValues objOf)
    (hstore : s.handler.store = t.objs) (hinbox : Arrivals.bytes s.handler.inbox = []) :
    s.ServerInv :=
  ⟨t, hstored, by rw [hholder]; exact ⟨hstore, hinbox⟩⟩

/-- A reply that has been read to its end leaves the connection as it was. -/
theorem answered_inv {n : Nat} {inbox : Arrivals} {reply : List UInt8} (h : s.Inv)
    (hdrained : s.Drained) (hholder : s.holder = none) (hstored : s.stored = t.mapValues objOf)
    (hinbox : Arrivals.bytes inbox = []) (hlen : reply.length = n) :
    Inv { s with
      handler := ⟨t.objs, inbox, s.handler.sent ++ reply⟩
      sentBy := s.sentBy ++ List.replicate n id
      readBy := s.readBy ++ List.replicate n id } := by
  refine ⟨h.opened, h.live, h.right, ?_, h.held, serverInv_of_none hholder hstored rfl hinbox,
    Or.inl ⟨?_, hdrained.2⟩⟩
  · show (s.sentBy ++ _).length = (s.handler.sent ++ reply).length
    rw [List.length_append, List.length_append, List.length_replicate, hlen, h.length_sentBy]
  · show s.readBy ++ _ = s.sentBy ++ _
    rw [hdrained.1]

theorem runExist_inv (h : s.Inv) (hdrained : s.Drained) (hholder : s.holder = none)
    (hok : s.Smooth s.waiters (.exist key) env) : (s.runRequest id (.exist key) env).Inv := by
  unfold runRequest
  cases hbs : (Request.exist key).message.serialize with
  | error e => exact finish_inv (expect_inv h _ _) (List.mem_append_right _ (by simp))
  | ok bs =>
    obtain ⟨hback, harrived⟩ := hok bs hbs
    obtain ⟨t, hstored, hstore, hinbox⟩ := serverInv_none h.server hholder
    have hnext : Message.next bs = some (.exist key, []) := by
      have := (Message.next_header hback []).2 rfl
      rwa [List.append_nil] at this
    have hasked := expect_inv h id (s.answer (.exist key))
    obtain ⟨inbox, reply, s', hrecv, rfl, hinbox', hlen, -⟩ := recvHeader_send hasked hdrained
      hstore hinbox hnext rfl rfl harrived
    dsimp only
    rw [hrecv]
    dsimp only
    have hmem : key ∈ s.stored ↔ key ∈ t := by
      rw [hstored]
      exact Dict.mem_mapValues
    have hanswer : Outcome.existed (decide ((emptyReply
        (if key ∈ t then .success else .fail)).code = .success)) = s.answer (.exist key) := by
      unfold answer
      simp only [hmem]
      by_cases hk : key ∈ t
      · rw [if_pos hk]
        simp [hk, emptyReply]
      · rw [if_neg hk]
        simp [hk, emptyReply]
    rw [hanswer]
    exact finish_inv (answered_inv hasked hdrained hholder hstored hinbox' hlen)
      (List.mem_append_right _ (by simp))

theorem next_of_get (h : ClientMetaMessage.deserialize bs = .ok (Request.get key).message) :
    Message.next bs = some (.get key, []) := by
  have := (Message.next_header h []).1 rfl
  rwa [List.append_nil] at this

/-- **A `get` that finds its key**: it has read the header, and the payload is there. -/
theorem runGet_found {s : Conn} {t : PutStore} {id : Nat} {key : CacheEngineKey} {env : Env}
    {bs : List UInt8} {p : PutMessage} (h : s.Inv) (hdrained : s.Drained)
    (hstore : s.handler.store = t.objs) (hinbox : Arrivals.bytes s.handler.inbox = [])
    (hserialize : (Request.get key).message.serialize = .ok bs)
    (hback : ClientMetaMessage.deserialize bs = .ok (Request.get key).message)
    (hfound : t.get? key = some p) (harrived : ServerMetaMessage.packlength ≤ env.arrived) :
    ∃ inbox reply s', s.runRequest id (.get key) env =
        (if s.waiters = [] then s'.receivePayload id (foundReply p.obj) env
          else { s' with waiters := s.waiters ++ [(id, .payload (foundReply p.obj))] }) ∧
      s' = { s.expect id (s.answer (.get key)) with
        handler := ⟨t.objs, inbox, s.handler.sent ++ reply⟩
        sentBy := s.sentBy ++ List.replicate (ServerMetaMessage.packlength + p.data.length) id
        readBy := s.readBy ++ List.replicate ServerMetaMessage.packlength id } ∧
      Arrivals.bytes inbox = [] ∧
      reply.length = ServerMetaMessage.packlength + p.data.length ∧ s'.unread = p.data := by
  have hreply : t.reply (.get key) = some ⟨foundReply p.obj, p.data⟩ := by
    unfold PutStore.reply
    dsimp only
    rw [hfound]
  have hasked := expect_inv h id (s.answer (.get key))
  obtain ⟨inbox, reply, s', hrecv, hs', hinbox', hlen, hunread⟩ := recvHeader_send hasked hdrained
    hstore hinbox (next_of_get hback) rfl hreply harrived
  refine ⟨inbox, reply, s', ?_, hs', hinbox', hlen, hunread⟩
  have hcode : ¬ (foundReply p.obj).code ≠ .success := not_not.mpr rfl
  have hsame : s'.waiters = s.waiters := by rw [hs']; rfl
  unfold runRequest
  rw [hserialize]
  dsimp only
  rw [hrecv]
  dsimp only
  rw [if_neg hcode, hsame]

theorem runGet_inv (h : s.Inv) (hdrained : s.Drained) (hholder : s.holder = none)
    (hok : s.Smooth s.waiters (.get key) env) : (s.runRequest id (.get key) env).Inv := by
  have hasked := expect_inv h id (s.answer (.get key))
  have hexpected : (id, s.answer (.get key)) ∈ (s.expect id (s.answer (.get key))).expected :=
    List.mem_append_right _ (by simp)
  cases hbs : (Request.get key).message.serialize with
  | error e =>
    unfold runRequest
    rw [hbs]
    exact finish_inv (expect_inv h _ _) (List.mem_append_right _ (by simp))
  | ok bs =>
    obtain ⟨hback, harrived, hpayload⟩ := hok bs hbs
    obtain ⟨t, hstored, hstore, hinbox⟩ := serverInv_none h.server hholder
    have hget : s.stored.get? key = (t.get? key).map objOf := by
      rw [hstored, Dict.get?_mapValues]
    have hanswer : s.answer (.get key) = .got ((t.get? key).map objOf) := congrArg Outcome.got hget
    cases hfound : t.get? key with
    | none =>
      have hreply : t.reply (.get key) = some ⟨emptyReply .fail, []⟩ := by
        unfold PutStore.reply
        dsimp only
        rw [hfound]
      obtain ⟨inbox, reply, s', hrecv, rfl, hinbox', hlen, -⟩ := recvHeader_send hasked hdrained
        hstore hinbox (next_of_get hback) rfl hreply harrived
      rw [hfound] at hanswer
      unfold runRequest
      rw [hbs]
      dsimp only
      rw [hrecv]
      dsimp only
      rw [if_pos (by decide)]
      refine finish_inv (answered_inv hasked hdrained hholder hstored hinbox' hlen) ?_
      rw [hanswer] at hexpected ⊢
      exact hexpected
    | some p =>
      obtain ⟨inbox, reply, s', hrun, hs', hinbox', hlen, hunread⟩ := @runGet_found s t id key env bs
        p h hdrained hstore hinbox hbs hback hfound harrived
      rw [hfound] at hanswer hget
      obtain ⟨hallocates, hputs⟩ := hpayload (objOf p) hget
      have hn : (foundReply p.obj).length.toNat = p.data.length := p.length_data.symm
      rw [hrun]
      by_cases hwaiters : s.waiters = []
      · -- nobody waits, so the payload is read at once
        rw [if_pos hwaiters, receivePayload_eq hunread hn (hallocates hwaiters), hs']
        have hread : ∀ l : List Nat, l ++ List.replicate ServerMetaMessage.packlength id ++
            List.replicate p.data.length id =
              l ++ List.replicate (ServerMetaMessage.packlength + p.data.length) id := by
          intro l
          rw [List.append_assoc, List.replicate_append_replicate]
        dsimp only
        rw [hread]
        refine finish_inv (answered_inv hasked hdrained hholder hstored hinbox' hlen) ?_
        rw [hanswer] at hexpected ⊢
        exact hexpected
      · rw [if_neg hwaiters]
        subst hs'
        refine ⟨h.opened, h.live, hasked.right, ?_, hasked.held,
          serverInv_of_none hholder hstored rfl hinbox',
          Or.inr ⟨s.waiters, id, foundReply p.obj, [], objOf p, rfl, hputs, by simp, ?_, hunread, hn,
            rfl, ?_⟩⟩
        · show (s.sentBy ++ _).length = (s.handler.sent ++ reply).length
          rw [List.length_append, List.length_append, List.length_replicate, hlen, h.length_sentBy]
        · show s.sentBy ++ _ = s.readBy ++ _ ++ List.replicate p.data.length id
          rw [hdrained.1, List.append_assoc, List.replicate_append_replicate]
        · rw [hanswer] at hexpected ⊢
          exact hexpected

/-- What is neither read nor sent stays so. -/
theorem socket_of_eq {s' : Conn} (h : s.Drained ∨ s.Pending) (hwaiters : s'.waiters = s.waiters)
    (hsent : s'.sentBy = s.sentBy) (hread : s'.readBy = s.readBy)
    (hbytes : s'.handler.sent = s.handler.sent) (hexpected : s.expected ⊆ s'.expected) :
    s'.Drained ∨ s'.Pending := by
  have hunread : s'.unread = s.unread := by
    unfold unread
    rw [hread, hbytes]
  rcases h with ⟨hdrained, hrequests⟩ | ⟨puts, id, header, rest, obj, h₁, h₂, h₃, h₄, h₅, h₆, h₇, h₈⟩
  · exact Or.inl ⟨by rw [hread, hsent, hdrained], by rw [hwaiters]; exact hrequests⟩
  · exact Or.inr ⟨puts, id, header, rest, obj, hwaiters.trans h₁, h₂, h₃, by rw [hread, hsent, h₄],
      hunread.trans h₅, h₆, h₇, hexpected h₈⟩

/-- **The end of a `put`**: the server has what was put, and nothing else has changed. -/
theorem sendPayload_inv {s : Conn} {id : Nat} {key : CacheEngineKey} {obj : MemoryObj}
    {t : PutStore} {p : PutMessage} (hopen : s.closed = false) (hlive : s.blocked = false)
    (hright : ∀ p ∈ s.finished, p ∈ s.expected)
    (hlen : s.sentBy.length = s.handler.sent.length) (hsocket : s.Drained ∨ s.Pending)
    (hexpected : (id, .done) ∈ s.expected) (hholder : s.holder = none)
    (hstored : s.stored = t.mapValues objOf) (hkey : p.clientMeta.key = key) (hobj : objOf p = obj)
    (hserver : (obj.byteArray ≠ [] ∧ s.handler.store = t.objs ∧
        Arrivals.bytes s.handler.inbox = p.header) ∨
      (obj.byteArray = [] ∧ s.handler.store = PutStore.objs (t.set key p) ∧
        Arrivals.bytes s.handler.inbox = [])) :
    (s.sendPayload id key obj).Inv := by
  have hset : (s.stored.set key obj) = Dict.mapValues objOf (t.set key p) := by
    rw [Dict.mapValues_set, hobj, hstored]
  have hsend : ∃ inbox, s.send id obj.byteArray =
      { s with handler := ⟨PutStore.objs (t.set key p), inbox, s.handler.sent⟩ } ∧
        Arrivals.bytes inbox = [] := by
    rcases hserver with ⟨-, hstore, hinbox⟩ | ⟨hnil, hstore, hinbox⟩
    · have hdata : p.data = obj.byteArray := congrArg MemoryObj.byteArray hobj
      obtain ⟨p', hnext, hheader, hclient, hdata'⟩ := Message.next_put p.deserialize_header
        p.command_clientMeta p.length_data []
      have hp : p' = p := by
        cases p'
        cases p
        cases hheader
        cases hclient
        cases hdata'
        rfl
      rw [List.append_nil, hdata, hp] at hnext
      obtain ⟨inbox, reply, hsend, hinbox', hreply⟩ := @send_of_message s t id obj.byteArray _ hopen
        hstore (by rw [hinbox]; exact hnext)
      cases hreply
      refine ⟨inbox, ?_, hinbox'⟩
      rw [hsend, List.append_nil]
      show { s with handler := ⟨PutStore.objs (t.set p.clientMeta.key p), _, _⟩, sentBy := _ } = _
      rw [hkey, List.length_nil, List.replicate_zero, List.append_nil]
    · refine ⟨s.handler.inbox ++ Arrivals.ofBytes [], ?_, ?_⟩
      · rw [hnil, send_of_not_ready hopen (by rw [hinbox]; rfl), ← hstore]
      · rw [Arrivals.bytes_append, hinbox, Arrivals.bytes_ofBytes]
        rfl
  obtain ⟨inbox, hsend, hinbox⟩ := hsend
  unfold sendPayload
  rw [hsend]
  refine finish_inv ⟨hopen, hlive, hright, hlen, ?_, serverInv_of_none hholder hset rfl hinbox,
    socket_of_eq hsocket rfl rfl rfl rfl (List.Subset.refl _)⟩ hexpected
  intro id key obj hsome
  cases hholder.symm.trans hsome

theorem runPut_inv {obj : MemoryObj} (h : s.Inv) (hholder : s.holder = none)
    (hok : s.Smooth s.waiters (.put key obj) env) : (s.runRequest id (.put key obj) env).Inv := by
  unfold runRequest
  cases hbs : (Request.put key obj).message.serialize with
  | error e => exact finish_inv (expect_inv h _ _) (List.mem_append_right _ (by simp))
  | ok bs =>
    obtain ⟨hback, -⟩ := hok bs hbs
    obtain ⟨t, hstored, hstore, hinbox⟩ := serverInv_none h.server hholder
    have hlength : obj.byteArray.length = (Request.put key obj).message.length.toNat := by
      show _ = ((obj.byteArray.length : Int)).toNat
      rw [Int.toNat_natCast]
    obtain ⟨p, hnext, hheader, hclient, hdata⟩ := Message.next_put hback rfl hlength []
    have hkey : p.clientMeta.key = key := by rw [hclient]; rfl
    have hobj : objOf p = obj := by
      unfold objOf
      rw [hdata, hclient]
      rfl
    have hasked := expect_inv h id (s.answer (.put key obj))
    have hexpected : (id, Outcome.done) ∈ (s.expect id (s.answer (.put key obj))).expected :=
      List.mem_append_right _ (by simp [answer])
    -- the header is all that the server gets now, or it is the whole message
    have hserver : ∃ inbox store, (s.expect id (s.answer (.put key obj))).send id bs =
        { s.expect id (s.answer (.put key obj)) with
          handler := ⟨store, inbox, s.handler.sent⟩ } ∧
        ((obj.byteArray ≠ [] ∧ store = t.objs ∧ Arrivals.bytes inbox = p.header) ∨
          (obj.byteArray = [] ∧ store = PutStore.objs (t.set key p) ∧
            Arrivals.bytes inbox = [])) := by
      by_cases hnil : obj.byteArray = []
      · rw [hnil] at hnext
        simp only [List.append_nil] at hnext
        obtain ⟨inbox, reply, hsend, hinbox', hreply⟩ := @send_of_message
          (s.expect id (s.answer (.put key obj))) t id bs _ h.opened hstore
          (by rw [show (s.expect id _).handler = s.handler from rfl, hinbox]; exact hnext)
        cases hreply
        refine ⟨inbox, PutStore.objs (t.set key p), ?_, Or.inr ⟨hnil, rfl, hinbox'⟩⟩
        rw [hsend, List.append_nil, List.length_nil, List.replicate_zero, List.append_nil, ← hkey]
        rfl
      · have hpos : 0 < (Request.put key obj).message.length.toNat := by
          rw [← hlength]
          exact List.length_pos_of_ne_nil hnil
        refine ⟨s.handler.inbox ++ Arrivals.ofBytes bs, t.objs, ?_, Or.inl ⟨hnil, rfl, ?_⟩⟩
        · rw [send_of_not_ready hasked.opened, ← hstore]
          · rfl
          · rw [show (s.expect id _).handler = s.handler from rfl, hinbox]
            exact Handler.ready_header hback rfl hpos
        · rw [Arrivals.bytes_append, hinbox, Arrivals.bytes_ofBytes, hheader]
          rfl
    obtain ⟨inbox, store, hsend, hcases⟩ := hserver
    dsimp only
    rw [hsend]
    split
    · refine ⟨h.opened, h.live, hasked.right, h.length_sentBy, ?_,
        ⟨t, hstored, p, hkey, hobj, hcases⟩,
        socket_of_eq hasked.socket rfl rfl rfl rfl (List.Subset.refl _)⟩
      intro id' key' obj' hsome
      cases hsome
      exact hexpected
    · exact sendPayload_inv h.opened h.live hasked.right h.length_sentBy
        (socket_of_eq hasked.socket rfl rfl rfl rfl (List.Subset.refl _)) hexpected hholder hstored
        hkey hobj hcases

/-! ## One event -/

/-- The request at the head of the queue, or a new one that need not wait. -/
theorem runRequest_inv {req : Request} (h : s.Inv) (hholder : s.holder = none)
    (hsocket : (Waiting.request req).IsPut ∨ s.Drained) (hok : s.Smooth s.waiters req env) :
    (s.runRequest id req env).Inv := by
  cases req with
  | put key obj => exact runPut_inv h hholder hok
  | exist key => exact runExist_inv h (hsocket.resolve_left fun hput => hput) hholder hok
  | get key => exact runGet_inv h (hsocket.resolve_left fun hput => hput) hholder hok

/-- A queue that loses its head, or gets a request at its end. -/
theorem Drained.of_waiters (h : s.Drained) (hwaiters : ∀ w ∈ waiters, w.2.IsRequest) :
    Drained { s with waiters := waiters } :=
  ⟨h.1, hwaiters⟩

theorem resumeRequest_inv {req : Request} (h : s.Inv) (hholder : s.holder = none)
    (hwaiters : s.waiters = (id, .request req) :: waiters) (hok : s.Smooth waiters req env) :
    (runRequest { s with waiters := waiters } id req env).Inv := by
  have hsocket : ((Waiting.request req).IsPut ∧ Pending { s with waiters := waiters }) ∨
      Drained { s with waiters := waiters } := by
    rcases h.socket with hdrained | ⟨puts, id', header, rest, obj, h₁, h₂, h₃⟩
    · refine Or.inr (hdrained.of_waiters fun w hw => hdrained.2 w ?_)
      rw [hwaiters]
      exact List.mem_cons_of_mem _ hw
    · rw [hwaiters] at h₁
      cases puts with
      | nil => cases h₁
      | cons w puts =>
        obtain ⟨rfl, rfl⟩ := List.cons.inj h₁
        rw [List.forall_mem_cons] at h₂
        exact Or.inl ⟨h₂.1, puts, id', header, rest, obj, rfl, h₂.2, h₃⟩
  have hinv : Inv { s with waiters := waiters } :=
    ⟨h.opened, h.live, h.right, h.length_sentBy, h.held, h.server,
      hsocket.elim (fun hp => Or.inr hp.2) Or.inl⟩
  exact runRequest_inv hinv hholder (hsocket.imp_left And.left) hok

theorem resumePayload_inv {header : ServerMetaMessage} (h : s.Inv)
    (hwaiters : s.waiters = (id, .payload header) :: waiters)
    (hallocates : env.Allocates header.length.toNat) :
    (receivePayload { s with waiters := waiters } id header env).Inv := by
  rcases h.socket with hdrained | ⟨puts, id', header', rest, obj, h₁, h₂, h₃, hsent, hunread, hn,
    hobj, hexpected⟩
  · -- the head of the queue would be a request
    have hrequest : (Waiting.payload header).IsRequest := hdrained.2 (id, .payload header)
      (by rw [hwaiters]; exact List.mem_cons_self)
    cases hrequest
  · rw [hwaiters] at h₁
    cases puts with
    | cons w puts =>
      obtain ⟨rfl, -⟩ := List.cons.inj h₁
      cases (List.forall_mem_cons.mp h₂).1
    | nil =>
      cases h₁
      rw [hn] at hallocates
      rw [@receivePayload_eq { s with waiters := waiters } id header env obj.byteArray hunread hn
        hallocates, ← hobj]
      refine finish_inv ⟨h.opened, h.live, h.right, h.length_sentBy, h.held, h.server,
        Or.inl ⟨hsent.symm, h₃⟩⟩ hexpected

/-- **One event keeps the invariant.** -/
theorem step_inv {e : Event} (h : s.Inv) (hok : s.Orderly e) : (s.step e).Inv := by
  unfold step
  rw [if_neg (by rw [h.live]; decide)]
  cases e with
  | call req env =>
    have hcalled : Inv { s with calls := s.calls + 1 } :=
      ⟨h.opened, h.live, h.right, h.length_sentBy, h.held, h.server, h.socket⟩
    dsimp only
    split
    · rename_i hfree
      obtain ⟨hholder, hwaiters⟩ := hfree
      have hdrained : s.Drained := by
        refine h.socket.resolve_right ?_
        rintro ⟨puts, id, header, rest, obj, h₁, -⟩
        rw [hwaiters] at h₁
        exact absurd h₁ (by simp)
      have hsmooth : Smooth { s with calls := s.calls + 1 } s.waiters req env := by
        rw [hwaiters]
        exact hok hholder hwaiters
      exact runRequest_inv hcalled hholder (Or.inr hdrained) hsmooth
    · refine ⟨h.opened, h.live, h.right, h.length_sentBy, h.held, h.server, ?_⟩
      rcases h.socket with hdrained | ⟨puts, id, header, rest, obj, h₁, h₂, h₃, h₄⟩
      · refine Or.inl ⟨hdrained.1, ?_⟩
        rw [List.forall_mem_append]
        exact ⟨hdrained.2, by simp [Waiting.IsRequest]⟩
      · refine Or.inr ⟨puts, id, header, rest ++ [(s.calls, .request req)], obj, ?_, h₂, ?_, h₄⟩
        · show s.waiters ++ _ = _
          rw [h₁, List.append_assoc, List.cons_append]
        · rw [List.forall_mem_append]
          exact ⟨h₃, by simp [Waiting.IsRequest]⟩
  | resume env =>
    unfold Orderly at hok
    dsimp only at hok ⊢
    cases hholder : s.holder with
    | some held => exact h
    | none =>
      rw [hholder] at hok
      cases hwaiters : s.waiters with
      | nil => exact h
      | cons w waiters =>
        rw [hwaiters] at hok
        obtain ⟨id, req | header⟩ := w
        · have hinv := resumeRequest_inv h hholder hwaiters hok
          rw [hholder] at hinv
          exact hinv
        · have hinv := resumePayload_inv h hwaiters hok
          rw [hholder] at hinv
          exact hinv
  | sent =>
    dsimp only
    cases hholder : s.holder with
    | none => exact h
    | some held =>
      obtain ⟨id, key, obj⟩ := held
      obtain ⟨t, hstored, hserver⟩ := h.server
      rw [hholder] at hserver
      obtain ⟨p, hkey, hobj, hcases⟩ := hserver
      exact @sendPayload_inv { s with holder := none } id key obj t p h.opened h.live h.right
        h.length_sentBy h.socket (h.held id key obj hholder) rfl hstored hkey hobj hcases

/-- A connection that has just been opened, to a server with a store. -/
def opened (t : PutStore) : Conn :=
  ⟨⟨t.objs, [], []⟩, false, none, [], [], 0, false, [], [], t.mapValues objOf, []⟩

theorem opened_inv (t : PutStore) : (opened t).Inv :=
  ⟨rfl, rfl, by simp [opened], rfl, fun _ _ _ h => (nomatch h),
    serverInv_of_none rfl rfl rfl rfl, Or.inl ⟨rfl, by simp [opened]⟩⟩

end Conn

/-- **As long as every event is orderly, every reply goes to its request.** -/
theorem always_matched (t : PutStore) (es : List Event)
    (h : Guarded Conn.step Conn.Orderly (Conn.opened t) es) :
    Always Conn.step Matched (Conn.opened t) es :=
  (always_of_guarded (fun _ _ => Conn.step_inv) (Conn.opened_inv t) h).mono
    fun _ => Conn.Inv.matched

/-! ## What goes wrong otherwise -/

namespace Conn

@[simp] theorem send_waiters (s : Conn) (id : Nat) (bs : List UInt8) :
    (s.send id bs).waiters = s.waiters := by
  unfold send
  split <;> rfl

@[simp] theorem send_holder (s : Conn) (id : Nat) (bs : List UInt8) :
    (s.send id bs).holder = s.holder := by
  unfold send
  split <;> rfl

@[simp] theorem send_calls (s : Conn) (id : Nat) (bs : List UInt8) :
    (s.send id bs).calls = s.calls := by
  unfold send
  split <;> rfl

/-- An `exists` reads what is there, whoever it belongs to. -/
theorem runExist_reads {s : Conn} {t : PutStore} {id : Nat} {key : CacheEngineKey} {env : Env}
    {bs data : List UInt8} (hopen : s.closed = false) (hstore : s.handler.store = t.objs)
    (hinbox : Arrivals.bytes s.handler.inbox = [])
    (hserialize : (Request.exist key).message.serialize = .ok bs)
    (hback : ClientMetaMessage.deserialize bs = .ok (Request.exist key).message)
    (hunread : s.unread = data) (hlen : ServerMetaMessage.packlength ≤ data.length)
    (harrived : ServerMetaMessage.packlength ≤ env.arrived) :
    (s.runRequest id (.exist key) env).readBy =
        s.readBy ++ List.replicate ServerMetaMessage.packlength id ∧
      ∃ n, (s.runRequest id (.exist key) env).sentBy = s.sentBy ++ List.replicate n id := by
  obtain ⟨inbox, reply, hsend, -, -⟩ := @send_of_message
    (s.expect id (s.answer (.exist key))) t id bs (.exist key) hopen hstore
    (by
      have := (Message.next_header hback []).2 rfl
      rw [List.append_nil] at this
      show Message.next (Arrivals.bytes s.handler.inbox ++ bs) = _
      rw [hinbox]
      exact this)
  obtain ⟨s', hs'⟩ : ∃ s', s' = (s.expect id (s.answer (.exist key))).send id bs := ⟨_, rfl⟩
  have htake : (data.take ServerMetaMessage.packlength).length = ServerMetaMessage.packlength :=
    List.length_take_of_le hlen
  have hunread' : s'.unread = data.take ServerMetaMessage.packlength ++
      (data.drop ServerMetaMessage.packlength ++ reply) := by
    have hle : s.readBy.length ≤ s.handler.sent.length := by
      by_contra hgt
      have hnil : s.unread = [] := List.drop_of_length_le (le_of_lt (Nat.not_le.mp hgt))
      rw [← hunread, hnil] at hlen
      exact absurd hlen (by decide)
    rw [hs', hsend, ← List.append_assoc, List.take_append_drop]
    show (s.handler.sent ++ reply).drop s.readBy.length = _
    rw [List.drop_append_of_le_length hle]
    exact congrArg (· ++ reply) hunread
  have hrecv : ∃ r, s'.recvHeader id env = some (r, { s' with
      readBy := s'.readBy ++ List.replicate ServerMetaMessage.packlength id }) := by
    have hmin : min ServerMetaMessage.packlength (max 1 env.arrived) =
        ServerMetaMessage.packlength := by omega
    have hne : ¬ (s'.unread = [] ∧ ¬ s'.closed) := by
      rintro ⟨hnil, -⟩
      rw [hunread', List.append_eq_nil_iff] at hnil
      rw [hnil.1] at htake
      cases htake
    unfold recvHeader
    rw [if_neg hne, hmin, read_take hunread' htake]
    exact ⟨_, rfl⟩
  obtain ⟨r, hrecv⟩ := hrecv
  -- it is over then, with an answer or an exception
  have hrun : ∃ outcome, s.runRequest id (.exist key) env = finish { s' with
      readBy := s'.readBy ++ List.replicate ServerMetaMessage.packlength id } id outcome := by
    unfold runRequest
    rw [hserialize]
    dsimp only
    rw [← hs', hrecv]
    cases r with
    | error e => exact ⟨_, rfl⟩
    | ok header => exact ⟨_, rfl⟩
  obtain ⟨outcome, hrun⟩ := hrun
  rw [hrun, hs', hsend]
  exact ⟨rfl, reply.length, rfl⟩

/-- **The payload of a `get` is taken for the header of another request.**  The `get` is first in the
queue, and an `exists` is behind it. -/
theorem not_prefix_of_resume {s : Conn} {i j : Nat} {key key' : CacheEngineKey} {env env' : Env}
    {obj : MemoryObj} {bs bs' : List UInt8} (h : s.Inv) (hdrained : s.Drained)
    (hholder : s.holder = none)
    (hwaiters : s.waiters = [(i, .request (.get key)), (j, .request (.exist key'))]) (hij : i ≠ j)
    (hserialize : (Request.get key).message.serialize = .ok bs)
    (hback : ClientMetaMessage.deserialize bs = .ok (Request.get key).message)
    (hserialize' : (Request.exist key').message.serialize = .ok bs')
    (hback' : ClientMetaMessage.deserialize bs' = .ok (Request.exist key').message)
    (hfound : s.stored.get? key = some obj)
    (hlen : ServerMetaMessage.packlength ≤ obj.byteArray.length)
    (harrived : ServerMetaMessage.packlength ≤ env.arrived)
    (harrived' : ServerMetaMessage.packlength ≤ env'.arrived) :
    ¬ ((s.step (.resume env)).step (.resume env')).readBy <+:
      ((s.step (.resume env)).step (.resume env')).sentBy := by
  obtain ⟨t, hstored, hstore, hinbox⟩ := serverInv_none h.server hholder
  rw [hstored, Dict.get?_mapValues, Option.map_eq_some_iff] at hfound
  obtain ⟨p, hp, rfl⟩ := hfound
  -- the `get` leaves its payload and goes to the end of the queue
  have hrequest : ∀ w ∈ [(j, Waiting.request (.exist key'))], w.2.IsRequest := by
    simp [Waiting.IsRequest]
  have hinv : Inv { s with waiters := [(j, .request (.exist key'))] } :=
    ⟨h.opened, h.live, h.right, h.length_sentBy, h.held, h.server, Or.inl ⟨hdrained.1, hrequest⟩⟩
  obtain ⟨inbox, reply, s', hrun, hs', hinbox', -, hunread⟩ := @runGet_found
    { s with waiters := [(j, .request (.exist key'))] } t i key env bs p hinv
    ⟨hdrained.1, hrequest⟩ hstore hinbox hserialize hback hp harrived
  rw [if_neg (List.cons_ne_nil _ _)] at hrun
  have hfirst : s.step (.resume env) = { s' with waiters :=
      [(j, .request (.exist key')), (i, .payload (foundReply p.obj))] } := by
    unfold step
    rw [if_neg (by rw [h.live]; decide), hwaiters]
    dsimp only
    rw [hholder] at hrun ⊢
    exact hrun
  have hlive : s'.blocked = false := by rw [hs']; exact h.live
  have hfree : s'.holder = none := by rw [hs']; exact hholder
  have hsecond : (s.step (.resume env)).step (.resume env') = runRequest
      { s' with waiters := [(i, .payload (foundReply p.obj))] } j (.exist key') env' := by
    rw [hfirst]
    unfold step
    rw [if_neg (by show ¬ s'.blocked = true; rw [hlive]; decide)]
    dsimp only
    rw [hfree]
  -- the `exists` asks, and reads the payload
  obtain ⟨hread, n, hsent⟩ := @runExist_reads
    { s' with waiters := [(i, .payload (foundReply p.obj))] } t j key' env' bs' p.data
    (by rw [hs']; exact h.opened) (by rw [hs']) (by rw [hs']; exact hinbox') hserialize' hback'
    hunread hlen harrived'
  rw [hsecond, hread, hsent, hs']
  show ¬ s.readBy ++ List.replicate ServerMetaMessage.packlength i ++
    List.replicate ServerMetaMessage.packlength j <+:
      s.sentBy ++ List.replicate (ServerMetaMessage.packlength + p.data.length) i ++
        List.replicate n j
  rw [← hdrained.1, ← List.replicate_append_replicate, List.append_assoc, List.append_assoc,
    List.append_assoc, List.prefix_append_right_inj, List.prefix_append_right_inj]
  obtain ⟨m, hm⟩ : ∃ m, p.data.length = m + 1 :=
    Nat.exists_eq_succ_of_ne_zero (Nat.ne_of_gt (lt_of_lt_of_le (by decide) hlen))
  rw [hm, List.replicate_succ]
  show ¬ j :: List.replicate 35 j <+: i :: (List.replicate m i ++ List.replicate n j)
  rw [List.cons_prefix_cons]
  exact fun hji => hij hji.1.symm

end Conn

/-! ## Two runs -/

/-- A plain key, and an object of 40 bytes. -/
def sampleKey : CacheEngineKey := CacheEngineKey.plainKey .float16 none

def sampleObj : MemoryObj := ⟨List.replicate 40 7, [1, 20, 1, 1], some .float16, .KV_2LTD⟩

/-- Whole headers, and memory for the object. -/
def sampleEnv (yields : Bool) : Env := ⟨yields, 36, some (List.replicate 40 0)⟩

theorem serialize_sample (req : Request)
    (h : req = .put sampleKey sampleObj ∨ req = .get sampleKey ∨ req = .exist sampleKey) :
    ∃ bs, req.message.serialize = .ok bs ∧
      ClientMetaMessage.deserialize bs = .ok req.message := by
  have hsome : req.message.serialize.toOption.isSome := by
    rcases h with rfl | rfl | rfl <;> decide +kernel
  have hkey : req.message.key = CacheEngineKey.plainKey .float16 none := by
    rcases h with rfl | rfl | rfl <;> rfl
  cases hbs : req.message.serialize with
  | error e => rw [hbs] at hsome; cases hsome
  | ok bs => exact ⟨bs, rfl, ClientMetaMessage.deserialize_plainKey hkey hbs⟩

/-- What comes of a message that is known. -/
theorem back_of_serialize {req : Request} {bs bs' : List UInt8}
    (hback : ClientMetaMessage.deserialize bs = .ok req.message)
    (hserialize : req.message.serialize = .ok bs) (h : req.message.serialize = .ok bs') :
    ClientMetaMessage.deserialize bs' = .ok req.message := by
  cases hserialize.symm.trans h
  exact hback

namespace Conn

/-- A request that comes while a `put` has the lock. -/
theorem step_call_of_holder {s : Conn} {held : Nat × CacheEngineKey × MemoryObj} (req : Request)
    (env : Env) (hlive : s.blocked = false) (hholder : s.holder = some held) :
    s.step (.call req env) = { s with
      calls := s.calls + 1
      waiters := s.waiters ++ [(s.calls, .request req)] } := by
  unfold step
  rw [if_neg (by rw [hlive]; decide)]
  dsimp only
  rw [if_neg (fun hfree => by rw [hholder] at hfree; exact nomatch hfree.1)]

theorem orderly_call_of_holder {s : Conn} {held : Nat × CacheEngineKey × MemoryObj} (req : Request)
    (env : Env) (hholder : s.holder = some held) : s.Orderly (.call req env) := by
  intro hfree
  rw [hholder] at hfree
  cases hfree

end Conn

/-- **Three requests in the queue.**  A `put` is suspended with the lock, and a `get` of its key and an
`exists` wait; then the `exists` reads the payload of the `get`. -/
theorem not_always_matched : ¬ Always Conn.step Matched (Conn.opened .empty)
    [.call (.put sampleKey sampleObj) (sampleEnv true), .call (.get sampleKey) (sampleEnv false),
      .call (.exist sampleKey) (sampleEnv false), .sent, .resume (sampleEnv false),
      .resume (sampleEnv false)] := by
  obtain ⟨bs, hput, hputback⟩ := serialize_sample (.put sampleKey sampleObj) (Or.inl rfl)
  obtain ⟨bs', hget, hgetback⟩ := serialize_sample (.get sampleKey) (Or.inr (Or.inl rfl))
  obtain ⟨bs'', hexist, hexistback⟩ := serialize_sample (.exist sampleKey) (Or.inr (Or.inr rfl))
  -- the state when the `put` is suspended
  obtain ⟨s₁, hs₁⟩ : ∃ s₁, s₁ =
      (Conn.opened .empty).step (.call (.put sampleKey sampleObj) (sampleEnv true)) := ⟨_, rfl⟩
  have hinv₁ : s₁.Inv := by
    rw [hs₁]
    exact Conn.step_inv (Conn.opened_inv _) fun _ _ bs h =>
      ⟨back_of_serialize hputback hput h, trivial⟩
  have hrun₁ : s₁ = { Conn.send (Conn.expect { Conn.opened .empty with calls := 1 } 0 .done) 0 bs with
      holder := some (0, sampleKey, sampleObj) } := by
    rw [hs₁]
    unfold Conn.step
    rw [if_neg (by decide)]
    dsimp only
    rw [if_pos ⟨rfl, rfl⟩]
    unfold Conn.runRequest
    rw [hput]
    rfl
  have hwaiters₁ : s₁.waiters = [] := by
    rw [hrun₁]
    exact Conn.send_waiters _ _ _
  have hcalls₁ : s₁.calls = 1 := by
    rw [hrun₁]
    exact Conn.send_calls _ _ _
  have hholder₁ : s₁.holder = some (0, sampleKey, sampleObj) := by rw [hrun₁]
  -- the two others get in the queue
  have hs₂ := Conn.step_call_of_holder (.get sampleKey) (sampleEnv false) hinv₁.live hholder₁
  have hinv₂ := Conn.step_inv hinv₁
    (Conn.orderly_call_of_holder (.get sampleKey) (sampleEnv false) hholder₁)
  rw [hs₂] at hinv₂
  have hs₃ := @Conn.step_call_of_holder _ (0, sampleKey, sampleObj) (.exist sampleKey)
    (sampleEnv false) hinv₂.live hholder₁
  have hinv₃ := Conn.step_inv hinv₂ (Conn.orderly_call_of_holder (.exist sampleKey)
    (sampleEnv false) hholder₁)
  rw [hs₃] at hinv₃
  dsimp only at hs₃ hinv₃
  rw [hcalls₁, hwaiters₁] at hs₃ hinv₃
  -- the `put` is done
  obtain ⟨s₄, hs₄⟩ : ∃ s₄, s₄ = (((s₁.step (.call (.get sampleKey) (sampleEnv false))).step
      (.call (.exist sampleKey) (sampleEnv false))).step .sent) := ⟨_, rfl⟩
  have hinv₄ : s₄.Inv := by
    rw [hs₄, hs₂, hcalls₁, hwaiters₁, hs₃]
    exact Conn.step_inv hinv₃ trivial
  have hrun₄ : s₄ = Conn.sendPayload { s₁ with
      calls := 3
      waiters := [(1, .request (.get sampleKey)), (2, .request (.exist sampleKey))]
      holder := none } 0 sampleKey sampleObj := by
    rw [hs₄, hs₂, hcalls₁, hwaiters₁, hs₃]
    unfold Conn.step
    rw [if_neg (by show ¬ s₁.blocked = true; rw [hinv₁.live]; decide)]
    dsimp only
    rw [hholder₁]
    rfl
  have hwaiters₄ : s₄.waiters =
      [(1, .request (.get sampleKey)), (2, .request (.exist sampleKey))] := by
    rw [hrun₄]
    exact Conn.send_waiters _ _ _
  have hholder₄ : s₄.holder = none := by
    rw [hrun₄]
    exact Conn.send_holder _ _ _
  have hfound₄ : s₄.stored.get? sampleKey = some sampleObj := by
    rw [hrun₄]
    unfold Conn.sendPayload
    show (Dict.set _ sampleKey sampleObj).get? sampleKey = _
    rw [Dict.get?_set, if_pos rfl]
  have hdrained₄ : s₄.Drained := by
    refine hinv₄.socket.resolve_right ?_
    rintro ⟨puts, id, header, rest, obj, h₁, -⟩
    have hmem : (id, Waiting.payload header) ∈ s₄.waiters := by
      rw [h₁]
      exact List.mem_append_right _ List.mem_cons_self
    rw [hwaiters₄] at hmem
    simp at hmem
  intro halways
  have hlast := (halways.last).own
  rw [run_cons, ← hs₁, run_cons, run_cons, run_cons, ← hs₄, run_cons, run_cons, run_nil] at hlast
  exact Conn.not_prefix_of_resume hinv₄ hdrained₄ hholder₄ hwaiters₄ (by decide) hget hgetback hexist
    hexistback hfound₄ (by decide) (by decide) (by decide) hlast

/-- A `put` that is not suspended, and a `get` of its key. -/
theorem always_matched_sample : Always Conn.step Matched (Conn.opened .empty)
    [.call (.put sampleKey sampleObj) (sampleEnv false),
      .call (.get sampleKey) (sampleEnv false)] := by
  obtain ⟨bs, hput, hputback⟩ := serialize_sample (.put sampleKey sampleObj) (Or.inl rfl)
  obtain ⟨bs', hget, hgetback⟩ := serialize_sample (.get sampleKey) (Or.inr (Or.inl rfl))
  refine always_matched .empty _ ⟨?_, ?_, trivial⟩
  · exact fun _ _ bs h => ⟨back_of_serialize hputback hput h, trivial⟩
  · intro _ _ bs h
    refine ⟨back_of_serialize hgetback hget h, by decide, ?_⟩
    intro obj hobj
    have hstored : ((Conn.opened .empty).step (.call (.put sampleKey sampleObj)
        (sampleEnv false))).stored.get? sampleKey = some sampleObj := by
      unfold Conn.step
      rw [if_neg (by decide)]
      dsimp only
      rw [if_pos ⟨rfl, rfl⟩]
      unfold Conn.runRequest
      rw [hput]
      show (Dict.set _ sampleKey sampleObj).get? sampleKey = _
      rw [Dict.get?_set, if_pos rfl]
    cases hstored.symm.trans hobj
    exact ⟨fun _ => ⟨List.replicate 40 0, rfl, by decide⟩, by simp⟩

end LMCache.Storage.LMCServerConnector
