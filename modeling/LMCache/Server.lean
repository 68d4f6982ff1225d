/-
# LMCache.Server — the remote cache server and one of its clients.

Source: `LMCacheServer.receive_all` and `handle_client` in `v1/server/__main__.py`, `put`, `get` and
`contains` of `LMSLocalBackend`, and `LMSMemoryObj`.

A client's bytes are a sequence of messages: a header, and behind the header of a `PUT` the payload it
announces.  The server reads a header, then the payload, and answers.  When the client goes away in the
middle of a header the loop ends; when it goes away in the middle of a payload, `receive_all` returns
`None`, and that is what is stored.  The specification reads the same bytes as complete messages and
keeps a store of the complete `PUT`s.
-/
import LMCache.Lib.Arrivals
import LMCache.Lib.Run
import LMCache.Protocol

namespace LMCache.Server

open LMCache.Lib LMCache.Memory

/-! ## The store -/

/-- `LMSMemoryObj`.  `data` is a `bytearray` by its annotation; `put` checks nothing. -/
structure LMSMemoryObj where
  data : Option (List UInt8)
  length : Int
  fmt : MemoryFormat
  dtype : Option TorchDtype
  shape : List Int
  deriving DecidableEq, Repr

/-- `LMSLocalBackend.dict`. -/
abbrev DataStore := Dict CacheEngineKey LMSMemoryObj

namespace DataStore

/-- `LMSLocalBackend.put`. -/
def put (store : DataStore) (clientMeta : ClientMetaMessage) (kvChunkBytes : Option (List UInt8)) :
    DataStore :=
  store.set clientMeta.key
    ⟨kvChunkBytes, clientMeta.length, clientMeta.fmt, clientMeta.dtype, clientMeta.shape⟩

end DataStore

/-! ## The loop of `handle_client` -/

/-- The handler of one client: the store it shares, the bytes the client has yet to send it, and the
bytes it has sent the client. -/
structure Handler where
  store : DataStore
  inbox : Arrivals
  sent : List UInt8

/-- A turn of the loop goes on to the next, or the loop ends, by `break` or with an exception. -/
inductive Turn where
  | next (s : Handler)
  | closed (raised : Option PyError) (s : Handler)

/-- The reply without data. -/
def emptyReply (code : ServerReturnCode) : ServerMetaMessage :=
  ⟨code, 0, .KV_2LTD, some .float16, [0, 0, 0, 0], none⟩

/-- The header of the reply to a `GET` that finds an object. -/
def foundReply (obj : LMSMemoryObj) : ServerMetaMessage :=
  ⟨.success, obj.length, obj.fmt, obj.dtype, obj.shape, none⟩

namespace Handler

/-- `client_socket.sendall(message.serialize())`. -/
def sendMeta (s : Handler) (message : ServerMetaMessage) : Turn :=
  match message.serialize with
  | .error e => .closed (some e) s
  | .ok bs => .next { s with sent := s.sent ++ bs }

/-- `client_socket.sendall(data)`. -/
def sendData (s : Handler) : Option (List UInt8) → Turn
  | some bs => .next { s with sent := s.sent ++ bs }
  | none => .closed (some (.typeError "a bytes-like object is required, not 'NoneType'")) s

/-- What the loop does with a message. -/
def process (s : Handler) (clientMeta : ClientMetaMessage) : Turn :=
  match clientMeta.command with
  | .put =>
    let received := Arrivals.receiveAll clientMeta.length [] s.inbox
    .next { s with store := s.store.put clientMeta received.1, inbox := received.2 }
  | .get =>
    match s.store.get? clientMeta.key with
    | some obj =>
      match s.sendMeta (foundReply obj) with
      | .closed raised s => .closed raised s
      | .next s => s.sendData obj.data
    | none => s.sendMeta (emptyReply .fail)
  | .exist => s.sendMeta (emptyReply (if clientMeta.key ∈ s.store then .success else .fail))
  | .health => s.sendMeta (emptyReply .success)
  -- there is no case for it in the source
  | .list => .next s

/-- One turn of the loop.  A header that was received is not empty. -/
def turn (s : Handler) : Turn :=
  match Arrivals.receiveAll ClientMetaMessage.packlength [] s.inbox with
  | (none, inbox) => .closed none { s with inbox := inbox }
  | (some header, inbox) =>
    match ClientMetaMessage.deserialize header with
    | .error e => .closed (some e) { s with inbox := inbox }
    | .ok clientMeta => process { s with inbox := inbox } clientMeta

variable {s s' : Handler}

theorem inbox_of_sendMeta {message : ServerMetaMessage} (h : s.sendMeta message = .next s') :
    s'.inbox = s.inbox := by
  unfold sendMeta at h
  split at h
  · cases h
  · cases h
    rfl

theorem inbox_of_sendData {data : Option (List UInt8)} (h : s.sendData data = .next s') :
    s'.inbox = s.inbox := by
  cases data with
  | none => cases h
  | some bs =>
    cases h
    rfl

theorem length_bytes_process_le {m : ClientMetaMessage} (h : s.process m = .next s') :
    (Arrivals.bytes s'.inbox).length ≤ (Arrivals.bytes s.inbox).length := by
  unfold process at h
  split at h
  · cases h
    obtain ⟨rest, heq, hrest⟩ := Arrivals.receiveAll_eq m.length [] s.inbox
    rw [heq, hrest, List.length_drop]
    exact Nat.sub_le _ _
  · split at h
    · split at h
      · cases h
      · rename_i hsend
        rw [inbox_of_sendData h, inbox_of_sendMeta hsend]
    · rw [inbox_of_sendMeta h]
  · rw [inbox_of_sendMeta h]
  · rw [inbox_of_sendMeta h]
  · cases h
    exact le_rfl

/-- A header that is whole is read, whatever it says. -/
theorem turn_of_le {s : Handler}
    (h : ClientMetaMessage.packlength ≤ (Arrivals.bytes s.inbox).length) :
    ∃ inbox, Arrivals.bytes inbox = (Arrivals.bytes s.inbox).drop ClientMetaMessage.packlength ∧
      s.turn = match ClientMetaMessage.deserialize
          ((Arrivals.bytes s.inbox).take ClientMetaMessage.packlength) with
        | .error e => .closed (some e) { s with inbox := inbox }
        | .ok m => process { s with inbox := inbox } m := by
  obtain ⟨inbox, heq, hrest⟩ :=
    Arrivals.receiveAll_of_le (n := (ClientMetaMessage.packlength : Int)) h
  refine ⟨inbox, hrest, ?_⟩
  unfold turn
  rw [heq]
  rfl

/-- The loop ends when there is no whole header. -/
theorem turn_of_lt {s : Handler}
    (h : (Arrivals.bytes s.inbox).length < ClientMetaMessage.packlength) :
    ∃ inbox, s.turn = .closed none { s with inbox := inbox } := by
  obtain ⟨inbox, heq, -⟩ :=
    Arrivals.receiveAll_of_lt (n := (ClientMetaMessage.packlength : Int)) h
  refine ⟨inbox, ?_⟩
  unfold turn
  rw [heq]

/-- A turn that is followed by another has read a header at least. -/
theorem length_bytes_turn_lt (h : s.turn = .next s') :
    (Arrivals.bytes s'.inbox).length < (Arrivals.bytes s.inbox).length := by
  have hpos : 0 < ClientMetaMessage.packlength := by decide
  by_cases hlen : ClientMetaMessage.packlength ≤ (Arrivals.bytes s.inbox).length
  · obtain ⟨inbox, hinbox, hturn⟩ := turn_of_le hlen
    rw [hturn] at h
    split at h
    · cases h
    · have hle := length_bytes_process_le h
      rw [hinbox, List.length_drop] at hle
      omega
  · obtain ⟨inbox, hturn⟩ := turn_of_lt (Nat.not_le.mp hlen)
    rw [hturn] at h
    cases h

/-- `handle_client`: the exception that leaves it, if one does, and the state it leaves. -/
def handleClient (s : Handler) : Option PyError × Handler :=
  match _h : s.turn with
  | .closed raised s => (raised, s)
  | .next s' => handleClient s'
termination_by (Arrivals.bytes s.inbox).length
decreasing_by exact length_bytes_turn_lt ‹_›

theorem handleClient_of_next (h : s.turn = .next s') : s.handleClient = s'.handleClient := by
  rw [handleClient]
  split
  · rename_i h'
    rw [h] at h'
    cases h'
  · rename_i h'
    rw [h] at h'
    cases h'
    rfl

theorem handleClient_of_closed {raised : Option PyError} (h : s.turn = .closed raised s') :
    s.handleClient = (raised, s') := by
  rw [handleClient]
  split
  · rename_i h'
    rw [h] at h'
    cases h'
    rfl
  · rename_i h'
    rw [h] at h'
    cases h'

end Handler

/-! ## Complete messages -/

/-- A complete `PUT`: the bytes of a header and as many bytes of payload as it announces. -/
structure PutMessage where
  header : List UInt8
  clientMeta : ClientMetaMessage
  data : List UInt8
  deserialize_header : ClientMetaMessage.deserialize header = .ok clientMeta
  command_clientMeta : clientMeta.command = .put
  length_data : data.length = clientMeta.length.toNat

inductive Message where
  | put (p : PutMessage)
  | get (key : CacheEngineKey)
  | exist (key : CacheEngineKey)
  | health
  | list

namespace Message

/-- The complete message at the front of the bytes, and the bytes behind it. -/
def next (bs : List UInt8) : Option (Message × List UInt8) :=
  match h : ClientMetaMessage.deserialize (bs.take ClientMetaMessage.packlength) with
  | .error _ => none
  | .ok clientMeta =>
    let rest := bs.drop ClientMetaMessage.packlength
    match hc : clientMeta.command with
    | .put =>
      if hl : clientMeta.length.toNat ≤ rest.length then
        some (.put ⟨_, clientMeta, rest.take clientMeta.length.toNat, h, hc,
          List.length_take_of_le hl⟩, rest.drop clientMeta.length.toNat)
      else none
    | .get => some (.get clientMeta.key, rest)
    | .exist => some (.exist clientMeta.key, rest)
    | .health => some (.health, rest)
    | .list => some (.list, rest)

variable {bs header : List UInt8} {m : ClientMetaMessage}

/-- What is a header is as long as one. -/
theorem length_of_deserialize
    (h : ClientMetaMessage.deserialize (bs.take ClientMetaMessage.packlength) = .ok m) :
    ClientMetaMessage.packlength ≤ bs.length := by
  unfold ClientMetaMessage.deserialize at h
  split at h
  · cases h
  · rename_i hlen
    rw [not_not, List.length_take] at hlen
    omega

theorem length_next_lt {rest : List UInt8} {m : Message} (h : next bs = some (m, rest)) :
    rest.length < bs.length := by
  have hpos : 0 < ClientMetaMessage.packlength := by decide
  unfold next at h
  split at h
  · cases h
  · rename_i clientMeta hm
    have hlen := length_of_deserialize hm
    dsimp only at h
    split at h
    · split at h
      · cases h
        rw [List.length_drop, List.length_drop]
        omega
      · cases h
    all_goals
      cases h
      rw [List.length_drop]
      omega

/-- A header is as long as one. -/
theorem length_header (h : ClientMetaMessage.deserialize header = .ok m) :
    header.length = ClientMetaMessage.packlength := by
  unfold ClientMetaMessage.deserialize at h
  split at h
  · cases h
  · rename_i hlen
    exact not_not.mp hlen

theorem take_header (h : ClientMetaMessage.deserialize header = .ok m) (rest : List UInt8) :
    (header ++ rest).take ClientMetaMessage.packlength = header := by
  rw [← length_header h, List.take_left]

theorem drop_header (h : ClientMetaMessage.deserialize header = .ok m) (rest : List UInt8) :
    (header ++ rest).drop ClientMetaMessage.packlength = rest := by
  rw [← length_header h, List.drop_left]

/-- A header without payload is a message. -/
theorem next_header (h : ClientMetaMessage.deserialize header = .ok m) (rest : List UInt8) :
    (m.command = .get → next (header ++ rest) = some (.get m.key, rest)) ∧
      (m.command = .exist → next (header ++ rest) = some (.exist m.key, rest)) := by
  constructor <;> intro hc
  all_goals
    unfold next
    split
    · rename_i he
      rw [take_header h, h] at he
      cases he
    · rename_i m' hm
      rw [take_header h, h] at hm
      cases hm
      dsimp only
      split <;> rename_i hc'
      all_goals
        rw [hc] at hc'
        cases hc'
      rw [drop_header h]

/-- The header of a `PUT` and its payload are a message. -/
theorem next_put {payload : List UInt8} (h : ClientMetaMessage.deserialize header = .ok m)
    (hc : m.command = .put) (hl : payload.length = m.length.toNat) (rest : List UInt8) :
    ∃ p : PutMessage, next (header ++ (payload ++ rest)) = some (.put p, rest) ∧
      p.header = header ∧ p.clientMeta = m ∧ p.data = payload := by
  have hdrop : ((header ++ (payload ++ rest)).drop ClientMetaMessage.packlength).drop
      m.length.toNat = rest := by
    rw [drop_header h, ← hl, List.drop_left]
  have htake : ((header ++ (payload ++ rest)).drop ClientMetaMessage.packlength).take
      m.length.toNat = payload := by
    rw [drop_header h, ← hl, List.take_left]
  unfold next
  split
  · rename_i he
    rw [take_header h, h] at he
    cases he
  · rename_i m' hm
    rw [take_header h, h] at hm
    cases hm
    dsimp only
    split
    · have hle : m.length.toNat ≤
          ((header ++ (payload ++ rest)).drop ClientMetaMessage.packlength).length := by
        rw [drop_header h, List.length_append]
        omega
      rw [dif_pos hle]
      exact ⟨_, congrArg (fun r => some (Message.put _, r)) hdrop, take_header h _, rfl, htake⟩
    all_goals
      rename_i hc'
      rw [hc] at hc'
      cases hc'

/-- **The complete messages of the bytes of a client**, and the bytes behind the last of them. -/
def split (bs : List UInt8) : List Message × List UInt8 :=
  match _h : next bs with
  | none => ([], bs)
  | some (m, rest) => (m :: (split rest).1, (split rest).2)
termination_by bs.length
decreasing_by all_goals exact length_next_lt ‹_›

theorem split_of_none (h : next bs = none) : split bs = ([], bs) := by
  rw [split]
  split
  · rfl
  · rename_i h'
    rw [h] at h'
    cases h'

theorem split_of_some {rest : List UInt8} {m : Message} (h : next bs = some (m, rest)) :
    split bs = (m :: (split rest).1, (split rest).2) := by
  rw [split]
  split
  · rename_i h'
    rw [h] at h'
    cases h'
  · rename_i h'
    rw [h] at h'
    cases h'
    rfl

end Message

/-! ## The store of complete messages -/

/-- The complete `PUT`s that were applied last, by key. -/
abbrev PutStore := Dict CacheEngineKey PutMessage

/-- What the server keeps of a `PUT`. -/
def PutMessage.obj (p : PutMessage) : LMSMemoryObj :=
  ⟨some p.data, p.clientMeta.length, p.clientMeta.fmt, p.clientMeta.dtype, p.clientMeta.shape⟩

/-- A reply: its header, and the data behind it. -/
structure Reply where
  header : ServerMetaMessage
  data : List UInt8

namespace Reply

/-- The bytes of replies. -/
def serializeAll : List Reply → Except PyError (List UInt8)
  | [] => .ok []
  | r :: rs => do
    let header ← r.header.serialize
    let bytes ← serializeAll rs
    .ok (header ++ r.data ++ bytes)

end Reply

namespace PutStore

/-- The store of the server. -/
def objs (s : PutStore) : DataStore := s.mapValues PutMessage.obj

def apply (s : PutStore) : Message → PutStore
  | .put p => s.set p.clientMeta.key p
  | _ => s

/-- The reply to a message: one to each `GET`, `EXIST` and `HEALTH`. -/
def reply (s : PutStore) : Message → Option Reply
  | .get key =>
    match s.get? key with
    | some p => some ⟨foundReply p.obj, p.data⟩
    | none => some ⟨emptyReply .fail, []⟩
  | .exist key => some ⟨emptyReply (if key ∈ s then .success else .fail), []⟩
  | .health => some ⟨emptyReply .success, []⟩
  | .put _ | .list => none

def applyAll (s : PutStore) (ms : List Message) : PutStore := ms.foldl apply s

/-- The replies to messages, each in the state the messages before it leave. -/
def replies (s : PutStore) : List Message → List Reply
  | [] => []
  | m :: ms => (s.reply m).toList ++ replies (s.apply m) ms

end PutStore

/-! ## What a reply needs -/

/-- What is read of four bytes is a C `int`. -/
theorem isCInt_unpackInt {bs : List UInt8} (h : bs.length ≤ 4) : IsCInt (unpackInt bs) := by
  have hlt : ∀ bs : List UInt8,
      bs.foldr (fun b u => b.toNat + 256 * u) 0 < 256 ^ bs.length := by
    intro bs
    induction bs with
    | nil => exact Nat.one_pos
    | cons b bs ih =>
      have hb : b.toNat < 256 := b.toNat_lt
      rw [List.foldr_cons, List.length_cons, Nat.pow_succ]
      omega
  have hpow : 256 ^ bs.length ≤ 256 ^ 4 := Nat.pow_le_pow_right (by decide) h
  have hu := lt_of_lt_of_le (hlt bs) hpow
  unfold unpackInt IsCInt
  dsimp only
  split <;> omega

theorem isCInt_intAt (bs : List UInt8) (i : Nat) : IsCInt (intAt bs i) :=
  isCInt_unpackInt (List.length_take_le 4 _)

/-- What a header is read as. -/
theorem of_deserialize {bs : List UInt8} {m : ClientMetaMessage}
    (h : ClientMetaMessage.deserialize bs = .ok m) :
    IsCInt m.length ∧ m.shape.length = 4 ∧ (∀ n ∈ m.shape, IsCInt n) ∧
      ∃ n, intToDtype n = .ok m.dtype := by
  unfold ClientMetaMessage.deserialize at h
  split at h
  · cases h
  · obtain ⟨command, -, h⟩ := bind_eq_ok.mp h
    obtain ⟨key, -, h⟩ := bind_eq_ok.mp h
    obtain ⟨fmt, -, h⟩ := bind_eq_ok.mp h
    obtain ⟨dtype, hdtype, h⟩ := bind_eq_ok.mp h
    obtain ⟨location, -, h⟩ := bind_eq_ok.mp h
    cases h
    refine ⟨isCInt_intAt bs 1, rfl, ?_, _, hdtype⟩
    intro n hn
    simp only [List.mem_cons, List.not_mem_nil, or_false] at hn
    rcases hn with rfl | rfl | rfl | rfl <;> exact isCInt_intAt bs _

/-- A dtype that was read from a code has one. -/
theorem dtypeToInt_of_intToDtype {n : Int} {dtype : Option TorchDtype}
    (h : intToDtype n = .ok dtype) : ∃ code, dtypeToInt dtype = .ok code ∧ IsCInt code := by
  have hcode : ∀ e ∈ intTable, ∃ code ∈ dtypeTable.map Prod.snd,
      dtypeToInt e.2 = .ok code ∧ IsCInt code := by decide
  unfold intToDtype at h
  split at h
  · rename_i e he
    cases h
    obtain ⟨code, -, hcode⟩ := hcode e (List.mem_of_find?_eq_some he)
    exact ⟨code, hcode⟩
  · cases h

theorem isCInt_value (c : ServerReturnCode) (f : MemoryFormat) : IsCInt c.value ∧ IsCInt f.value := by
  cases c <;> cases f <;> decide

/-- **The reply to a stored `PUT` can be sent**: what came in a header fits into one. -/
theorem serialize_foundReply (p : PutMessage) : ∃ bs, (foundReply p.obj).serialize = .ok bs := by
  obtain ⟨hlength, hfour, hshape, n, hn⟩ := of_deserialize p.deserialize_header
  obtain ⟨dtype, hdtype, hcode⟩ := dtypeToInt_of_intToDtype hn
  have hints : ∀ n ∈ [ServerReturnCode.success.value, p.clientMeta.length,
      p.clientMeta.fmt.value, dtype] ++ p.clientMeta.shape ++ [0], IsCInt n := by
    simp only [List.forall_mem_append, List.forall_mem_cons]
    exact ⟨⟨⟨(isCInt_value _ .UNDEFINED).1, hlength, (isCInt_value .success _).2, hcode, by simp⟩,
      hshape⟩, by decide, by simp⟩
  have hfour' : ¬ (foundReply p.obj).shape.length ≠ 4 := not_not.mpr hfour
  refine ⟨([ServerReturnCode.success.value, p.clientMeta.length, p.clientMeta.fmt.value,
    dtype] ++ p.clientMeta.shape ++ [0]).flatMap packInt, ?_⟩
  unfold ServerMetaMessage.serialize
  rw [if_neg hfour']
  show (do
    let dtype ← dtypeToInt p.clientMeta.dtype
    let location ← locationToInt none
    packInts ([ServerReturnCode.success.value, p.clientMeta.length, p.clientMeta.fmt.value,
      dtype] ++ p.clientMeta.shape ++ [location])) = _
  rw [hdtype]
  exact packInts_eq_ok.mpr ⟨hints, rfl⟩

theorem serialize_emptyReply (code : ServerReturnCode) :
    ∃ bs, (emptyReply code).serialize = .ok bs := by
  cases code <;> exact ⟨_, rfl⟩

/-! ## One turn -/

namespace Handler

/-- A message that is sent. -/
theorem sendMeta_of_serialize {s : Handler} {message : ServerMetaMessage} {bs : List UInt8}
    (h : message.serialize = .ok bs) :
    s.sendMeta message = .next { s with sent := s.sent ++ bs } := by
  unfold sendMeta
  rw [h]

theorem sendReply {s : Handler} {code : ServerReturnCode} :
    ∃ bs, s.sendMeta (emptyReply code) = .next { s with sent := s.sent ++ bs } ∧
      Reply.serializeAll [⟨emptyReply code, []⟩] = .ok bs := by
  obtain ⟨bs, hbs⟩ := serialize_emptyReply code
  refine ⟨bs, sendMeta_of_serialize hbs, ?_⟩
  unfold Reply.serializeAll
  rw [hbs]
  show Except.ok (bs ++ [] ++ []) = _
  rw [List.append_nil, List.append_nil]

theorem process_put {s : Handler} {m : ClientMetaMessage} (hc : m.command = .put) :
    s.process m = .next { s with
      store := s.store.put m (Arrivals.receiveAll m.length [] s.inbox).1
      inbox := (Arrivals.receiveAll m.length [] s.inbox).2 } := by
  unfold process
  rw [hc]

theorem process_get {s : PutStore} {inbox : Arrivals} {sent : List UInt8} {m : ClientMetaMessage}
    (hc : m.command = .get) : ∃ bs, process ⟨s.objs, inbox, sent⟩ m =
        .next ⟨s.objs, inbox, sent ++ bs⟩ ∧
      Reply.serializeAll (s.reply (.get m.key)).toList = .ok bs := by
  have hget : s.objs.get? m.key = (s.get? m.key).map PutMessage.obj := Dict.get?_mapValues _ _ _
  unfold process PutStore.reply
  rw [hc]
  dsimp only
  rw [hget]
  cases s.get? m.key with
  | none => exact sendReply
  | some p =>
    obtain ⟨header, hheader⟩ := serialize_foundReply p
    refine ⟨header ++ p.data, ?_, ?_⟩
    · show (match sendMeta ⟨s.objs, inbox, sent⟩ (foundReply p.obj) with
        | .closed raised s => Turn.closed raised s
        | .next s => s.sendData p.obj.data) = _
      rw [sendMeta_of_serialize hheader, ← List.append_assoc]
      rfl
    · show (do
        let header ← (foundReply p.obj).serialize
        let bytes ← Reply.serializeAll []
        .ok (header ++ p.data ++ bytes)) = _
      rw [hheader]
      show Except.ok (header ++ p.data ++ []) = _
      rw [List.append_nil]

theorem process_exist {s : PutStore} {inbox : Arrivals} {sent : List UInt8} {m : ClientMetaMessage}
    (hc : m.command = .exist) : ∃ bs, process ⟨s.objs, inbox, sent⟩ m =
        .next ⟨s.objs, inbox, sent ++ bs⟩ ∧
      Reply.serializeAll (s.reply (.exist m.key)).toList = .ok bs := by
  have hmem : m.key ∈ s.objs ↔ m.key ∈ s := Dict.mem_mapValues
  unfold process PutStore.reply
  rw [hc]
  dsimp only
  simp only [hmem]
  exact sendReply

/-- **What a turn does with a complete message**: the store takes it, and the client gets the reply to
it, if there is one. -/
theorem turn_of_next {s : PutStore} {inbox : Arrivals} {sent rest : List UInt8} {m : Message}
    (h : Message.next (Arrivals.bytes inbox) = some (m, rest)) :
    ∃ inbox' bs, turn ⟨s.objs, inbox, sent⟩ = .next ⟨(s.apply m).objs, inbox', sent ++ bs⟩ ∧
      Arrivals.bytes inbox' = rest ∧ Reply.serializeAll (s.reply m).toList = .ok bs := by
  unfold Message.next at h
  split at h
  · cases h
  · rename_i clientMeta hm
    obtain ⟨inbox₁, hinbox₁, hturn⟩ := @turn_of_le ⟨s.objs, inbox, sent⟩
      (Message.length_of_deserialize hm)
    rw [hturn, hm]
    dsimp only at h ⊢
    split at h
    · rename_i hc
      split at h
      · rename_i hl
        cases h
        rw [← hinbox₁] at hl
        obtain ⟨inbox₂, heq, hrest⟩ := Arrivals.receiveAll_of_le hl
        refine ⟨inbox₂, [], ?_, by rw [hrest, hinbox₁], rfl⟩
        rw [process_put hc]
        dsimp only
        rw [heq, hinbox₁, List.append_nil]
        unfold PutStore.objs PutStore.apply
        rw [Dict.mapValues_set]
        rfl
      · cases h
    · rename_i hc
      cases h
      obtain ⟨bs, hprocess, hbs⟩ := @process_get s inbox₁ sent _ hc
      exact ⟨inbox₁, bs, hprocess, hinbox₁, hbs⟩
    · rename_i hc
      cases h
      obtain ⟨bs, hprocess, hbs⟩ := @process_exist s inbox₁ sent _ hc
      exact ⟨inbox₁, bs, hprocess, hinbox₁, hbs⟩
    · rename_i hc
      cases h
      obtain ⟨bs, hsend, hbs⟩ := @sendReply ⟨s.objs, inbox₁, sent⟩ .success
      refine ⟨inbox₁, bs, ?_, hinbox₁, hbs⟩
      unfold process
      rw [hc]
      exact hsend
    · rename_i hc
      cases h
      refine ⟨inbox₁, [], ?_, hinbox₁, rfl⟩
      unfold process
      rw [hc, List.append_nil]
      rfl

end Handler

/-! ## Where the messages end -/

/-- The bytes of a client that goes away in the payload of a `PUT`, from the header of that `PUT` on. -/
def CutPut (bs : List UInt8) : Prop :=
  ∃ m, ClientMetaMessage.deserialize (bs.take ClientMetaMessage.packlength) = .ok m ∧
    m.command = .put ∧ bs.length < ClientMetaMessage.packlength + m.length.toNat

namespace Message

/-- Bytes with no complete message in front are too few for a header, have a header that is not one, or
are cut in a payload. -/
theorem of_next_eq_none {bs : List UInt8} (h : next bs = none) (hcut : ¬ CutPut bs) :
    ∃ e, ClientMetaMessage.deserialize (bs.take ClientMetaMessage.packlength) = .error e := by
  unfold next at h
  split at h
  · rename_i e he
    exact ⟨e, he⟩
  · rename_i m hm
    dsimp only at h
    split at h
    · rename_i hc
      split at h
      · cases h
      · rename_i hl
        refine absurd ⟨m, hm, hc, ?_⟩ hcut
        have hlen := length_of_deserialize hm
        rw [List.length_drop] at hl
        omega
    all_goals cases h

theorem next_of_cutPut {bs : List UInt8} (h : CutPut bs) : next bs = none := by
  obtain ⟨m, hm, hc, hl⟩ := h
  unfold next
  split
  · rfl
  · rename_i m' hm'
    rw [hm] at hm'
    cases hm'
    dsimp only
    split
    · rw [dif_neg]
      have hlen := length_of_deserialize hm
      rw [List.length_drop]
      omega
    all_goals
      rename_i hc'
      rw [hc] at hc'
      cases hc'

end Message

namespace Handler

/-- Nothing changes where the messages end, unless a payload is cut. -/
theorem turn_of_next_eq_none {s : Handler} (h : Message.next (Arrivals.bytes s.inbox) = none)
    (hcut : ¬ CutPut (Arrivals.bytes s.inbox)) :
    ∃ raised inbox, s.turn = .closed raised { s with inbox := inbox } := by
  obtain ⟨e, he⟩ := Message.of_next_eq_none h hcut
  by_cases hlen : ClientMetaMessage.packlength ≤ (Arrivals.bytes s.inbox).length
  · obtain ⟨inbox, -, hturn⟩ := turn_of_le hlen
    rw [he] at hturn
    exact ⟨some e, inbox, hturn⟩
  · obtain ⟨inbox, hturn⟩ := turn_of_lt (Nat.not_le.mp hlen)
    exact ⟨none, inbox, hturn⟩

/-- **A payload that is cut is stored as `None`.** -/
theorem handleClient_of_cutPut {s : Handler} (h : CutPut (Arrivals.bytes s.inbox)) :
    ∃ key obj, s.handleClient.2.store = s.store.set key obj ∧ obj.data = none ∧
      s.handleClient.2.sent = s.sent := by
  obtain ⟨m, hm, hc, hl⟩ := h
  have hlen := Message.length_of_deserialize hm
  obtain ⟨inbox₁, hinbox₁, hturn⟩ := turn_of_le hlen
  have hlt : (Arrivals.bytes inbox₁).length < m.length.toNat := by
    rw [hinbox₁, List.length_drop]
    omega
  obtain ⟨inbox₂, heq, hrest⟩ := Arrivals.receiveAll_of_lt hlt
  have hnext : s.turn = .next { s with store := s.store.put m none, inbox := inbox₂ } := by
    rw [hturn, hm]
    dsimp only
    rw [process_put hc, heq]
  -- the next header does not come, so the loop ends
  obtain ⟨inbox₃, hend⟩ := @turn_of_lt { s with store := s.store.put m none, inbox := inbox₂ }
    (by rw [hrest]; decide)
  rw [handleClient_of_next hnext, handleClient_of_closed hend]
  exact ⟨m.key, _, rfl, rfl, rfl⟩

end Handler

/-! ## A whole client -/

/-- **What the handler of a client is to do**: the store has taken the complete `PUT`s in order, and the
client has been sent the replies to the complete messages in order. -/
def Faithful (s : PutStore) (inbox : Arrivals) : Prop :=
  let after := (Handler.handleClient ⟨s.objs, inbox, []⟩).2
  let messages := (Message.split (Arrivals.bytes inbox)).1
  after.store = (s.applyAll messages).objs ∧
    Reply.serializeAll (s.replies messages) = .ok after.sent

/-- The client goes away in the payload of a `PUT`. -/
def EndsInPayload (bs : List UInt8) : Prop := CutPut (Message.split bs).2

namespace Reply

theorem serializeAll_append {rs rs' : List Reply} {bs bs' : List UInt8}
    (h : serializeAll rs = .ok bs) (h' : serializeAll rs' = .ok bs') :
    serializeAll (rs ++ rs') = .ok (bs ++ bs') := by
  induction rs generalizing bs with
  | nil =>
    cases h
    exact h'
  | cons r rs ih =>
    obtain ⟨header, hheader, h⟩ := bind_eq_ok.mp h
    obtain ⟨bytes, hbytes, h⟩ := bind_eq_ok.mp h
    cases h
    refine bind_eq_ok.mpr ⟨header, hheader, bind_eq_ok.mpr ⟨bytes ++ bs', ih hbytes, ?_⟩⟩
    rw [List.append_assoc, List.append_assoc, List.append_assoc]

end Reply

/-- **The whole loop**: all complete messages are answered and applied, and then the loop is where the
messages end. -/
theorem handleClient_eq (s : PutStore) (inbox : Arrivals) (sent : List UInt8) :
    ∃ inbox' bs, Handler.handleClient ⟨s.objs, inbox, sent⟩ = Handler.handleClient
        ⟨(s.applyAll (Message.split (Arrivals.bytes inbox)).1).objs, inbox', sent ++ bs⟩ ∧
      Arrivals.bytes inbox' = (Message.split (Arrivals.bytes inbox)).2 ∧
      Message.next (Arrivals.bytes inbox') = none ∧
      Reply.serializeAll (s.replies (Message.split (Arrivals.bytes inbox)).1) = .ok bs := by
  generalize hn : (Arrivals.bytes inbox).length = n
  induction n using Nat.strong_induction_on generalizing s inbox sent with
  | _ n ih =>
    cases h : Message.next (Arrivals.bytes inbox) with
    | none =>
      rw [Message.split_of_none h]
      exact ⟨inbox, [], by rw [List.append_nil]; rfl, rfl, h, rfl⟩
    | some p =>
      obtain ⟨m, rest⟩ := p
      rw [Message.split_of_some h]
      obtain ⟨inbox₁, bs, hturn, hrest, hbs⟩ := @Handler.turn_of_next s inbox sent rest m h
      have hlt := Message.length_next_lt h
      rw [hn] at hlt
      obtain ⟨inbox₂, bs', hloop, hinbox₂, hnone, hbs'⟩ :=
        ih rest.length hlt (s.apply m) inbox₁ (sent ++ bs) (by rw [hrest])
      rw [hrest] at hloop hinbox₂ hbs'
      refine ⟨inbox₂, bs ++ bs', ?_, hinbox₂, hnone, ?_⟩
      · rw [Handler.handleClient_of_next hturn, hloop, List.append_assoc]
        rfl
      · exact Reply.serializeAll_append hbs hbs'

variable {s : PutStore}

/-- An object without data is none of a complete message. -/
theorem objs_ne_set {s' : PutStore} {key : CacheEngineKey} {obj : LMSMemoryObj}
    (h : obj.data = none) : s.objs.set key obj ≠ s'.objs := by
  intro heq
  have hget : s'.objs.get? key = some obj := by
    rw [← heq, Dict.get?_set, if_pos rfl]
  have hmap : s'.objs.get? key = (s'.get? key).map PutMessage.obj := Dict.get?_mapValues _ _ _
  rw [hmap, Option.map_eq_some_iff] at hget
  obtain ⟨p, -, rfl⟩ := hget
  cases h

theorem not_faithful_of_endsInPayload {inbox : Arrivals} (h : EndsInPayload (Arrivals.bytes inbox)) :
    ¬ Faithful s inbox := by
  obtain ⟨inbox', bs, hloop, hinbox, -, -⟩ := handleClient_eq s inbox []
  have hcut : CutPut (Arrivals.bytes inbox') := by
    rw [hinbox]
    exact h
  obtain ⟨key, obj, hstore, hnone, -⟩ := @Handler.handleClient_of_cutPut
    ⟨(s.applyAll (Message.split (Arrivals.bytes inbox)).1).objs, inbox', [] ++ bs⟩ hcut
  rintro ⟨heq, -⟩
  rw [hloop, hstore] at heq
  exact objs_ne_set hnone heq

theorem faithful_of_not_endsInPayload {inbox : Arrivals}
    (h : ¬ EndsInPayload (Arrivals.bytes inbox)) : Faithful s inbox := by
  obtain ⟨inbox', bs, hloop, hinbox, hnone, hbs⟩ := handleClient_eq s inbox []
  have hcut : ¬ CutPut (Arrivals.bytes inbox') := by
    rw [hinbox]
    exact h
  obtain ⟨raised, inbox₁, hturn⟩ := @Handler.turn_of_next_eq_none
    ⟨(s.applyAll (Message.split (Arrivals.bytes inbox)).1).objs, inbox', [] ++ bs⟩ hnone hcut
  unfold Faithful
  rw [hloop, Handler.handleClient_of_closed hturn]
  exact ⟨rfl, hbs⟩

/-- **The handler does what it is to do, exactly when the client does not go away in the payload of a
`PUT`.** -/
theorem faithful_iff (s : PutStore) (inbox : Arrivals) :
    Faithful s inbox ↔ ¬ EndsInPayload (Arrivals.bytes inbox) :=
  ⟨fun h hends => not_faithful_of_endsInPayload hends h, faithful_of_not_endsInPayload⟩

/-- The header of a `PUT` of four bytes. -/
def putMeta : ClientMetaMessage :=
  ⟨.put, CacheEngineKey.plainKey .float16 none, 4, .KV_2LTD, some .float16, [1, 2, 1, 1], none⟩

/-- The bytes of that header. -/
def putHeader : List UInt8 :=
  [1, 4, 1, 2, 0, 1, 2, 1, 1].flatMap packInt ++
    ClientMetaMessage.packKey "model@1@0@ff@half".toList

theorem deserialize_putHeader : ClientMetaMessage.deserialize putHeader = .ok putMeta :=
  ClientMetaMessage.deserialize_plainKey rfl (by decide +kernel)

/-- **A client goes away after two of the four bytes it has announced.** -/
theorem not_faithful_cut : ¬ Faithful .empty [⟨putHeader ++ [1, 2], by decide⟩] := by
  have hbytes : Arrivals.bytes [⟨putHeader ++ [1, 2], by decide⟩] = putHeader ++ [1, 2] := by
    decide +kernel
  have hlen : putHeader.length = ClientMetaMessage.packlength := by decide +kernel
  have hcut : CutPut (putHeader ++ [1, 2]) := by
    refine ⟨putMeta, ?_, rfl, by decide +kernel⟩
    rw [← hlen, List.take_left]
    exact deserialize_putHeader
  refine not_faithful_of_endsInPayload ?_
  unfold EndsInPayload
  rw [hbytes, Message.split_of_none (Message.next_of_cutPut hcut)]
  exact hcut

/-! ## A client that stays -/

namespace Handler

/-- The next message is there, so the handler does not wait in `recv`. -/
def ready (bs : List UInt8) : Bool :=
  decide (ClientMetaMessage.packlength ≤ bs.length) &&
    match ClientMetaMessage.deserialize (bs.take ClientMetaMessage.packlength) with
    | .error _ => true
    | .ok m => m.command ≠ .put || decide (ClientMetaMessage.packlength + m.length.toNat ≤ bs.length)

/-- The turns the handler takes before it waits for its client, and whether it has ended. -/
def pump (s : Handler) : Bool × Handler :=
  if ready (Arrivals.bytes s.inbox) then
    match _h : s.turn with
    | .closed _ s => (true, s)
    | .next s' => pump s'
  else (false, s)
termination_by (Arrivals.bytes s.inbox).length
decreasing_by exact length_bytes_turn_lt ‹_›

theorem pump_of_not_ready {s : Handler} (h : ready (Arrivals.bytes s.inbox) = false) :
    s.pump = (false, s) := by
  rw [pump, h]
  rfl

theorem pump_of_next {s s' : Handler} (h : ready (Arrivals.bytes s.inbox) = true)
    (hturn : s.turn = .next s') : s.pump = s'.pump := by
  rw [pump, if_pos h]
  split
  · rename_i h'
    rw [hturn] at h'
    cases h'
  · rename_i h'
    rw [hturn] at h'
    cases h'
    rfl

theorem ready_nil : ready [] = false := rfl

/-- A payload that has not come is waited for. -/
theorem ready_header {header : List UInt8} {m : ClientMetaMessage}
    (h : ClientMetaMessage.deserialize header = .ok m) (hc : m.command = .put)
    (hl : 0 < m.length.toNat) : ready header = false := by
  have htake := Message.take_header h []
  rw [List.append_nil] at htake
  have hlen := Message.length_header h
  unfold ready
  rw [htake, h]
  simp only [hc, hlen]
  simp
  omega

/-- A complete message is not waited for. -/
theorem ready_of_next {bs rest : List UInt8} {m : Message} (h : Message.next bs = some (m, rest)) :
    ready bs = true := by
  unfold Message.next at h
  split at h
  · cases h
  · rename_i clientMeta hm
    have hlen := Message.length_of_deserialize hm
    unfold ready
    rw [hm, decide_eq_true hlen]
    dsimp only at h ⊢
    split at h
    · rename_i hc
      split at h
      · rename_i hl
        rw [List.length_drop] at hl
        have hle : ClientMetaMessage.packlength + clientMeta.length.toNat ≤ bs.length := by omega
        simp [hc, hle]
      · cases h
    all_goals
      rename_i hc
      simp [hc]

/-- **A complete message with nothing behind it is taken, and answered.** -/
theorem pump_of_message {s : PutStore} {inbox : Arrivals} {sent : List UInt8} {m : Message}
    (h : Message.next (Arrivals.bytes inbox) = some (m, [])) :
    ∃ inbox' bs, pump ⟨s.objs, inbox, sent⟩ = (false, ⟨(s.apply m).objs, inbox', sent ++ bs⟩) ∧
      Arrivals.bytes inbox' = [] ∧ Reply.serializeAll (s.reply m).toList = .ok bs := by
  obtain ⟨inbox', bs, hturn, hrest, hbs⟩ := @turn_of_next s inbox sent [] m h
  refine ⟨inbox', bs, ?_, hrest, hbs⟩
  rw [pump_of_next (ready_of_next h) hturn, pump_of_not_ready]
  rw [hrest]
  exact ready_nil

end Handler

end LMCache.Server
