/-
# LMCache.Multiprocess.RequestReplies — when every request gets its one reply.

Over any interleaving of the client's submissions, the two main loops and the thread pool, each
request is at one place: in the client's queue, on its way to the server, in the thread pool, or
settled.  A settled request has at most one reply, which is in the server's queue, on its way to the
client, or has resolved the future.  What can go wrong is that a settled request has none, or that
the client's main loop ends; the conditions on the steps say exactly when.
-/
import LMCache.Multiprocess.MessageQueue
import LMCache.Lib.Run
import Mathlib.Data.List.Perm.Basic

namespace LMCache.Multiprocess

open LMCache.Lib

variable {Val Frame : Type} {codec : Codec Val Frame}

namespace MessageQueue

/-! ## The property and the condition -/

/-- **What the queue is to do**: the main loops run, each future is resolved at most once, with what
the handler of its request returned for the payloads of the request, and each request that the
server is done with has one reply, which is sent. -/
structure AnswersEach (s : MessageQueue Val Frame) : Prop where
  clientRuns : s.client.ended = false
  serverRuns : s.server.ended = false
  ownUid : (s.submitted.map WrappedRequest.requestUid).Nodup
  ownFuture : (s.submitted.map WrappedRequest.future).Nodup
  resolvedOnce : (s.results.map Prod.fst).Nodup
  ownResult : ∀ p ∈ s.results, ∃ r ∈ s.submitted,
    r.future = p.1 ∧ (r.requestUid, Except.ok p.2) ∈ s.outcomes
  ownPayloads : ∀ p ∈ s.calls, ∃ r ∈ s.submitted, r.requestUid = p.1 ∧ r.requestPayloads = p.2
  oneReply : ∀ uid ∈ s.settled, s.replies.count uid = 1
  noOtherReply : ∀ uid ∈ s.replies, uid ∈ s.settled
  replySent : s.server.outputQueue.Awake

/-- A handler returns a value that can be encoded. -/
def Returns (codec : Codec Val Frame) (responseCls : PayloadClass)
    (outcome : Except PyError (PyObject Val)) : Prop :=
  ∃ response frame, outcome = .ok response ∧ codec.encode response responseCls = .ok frame

/-- The request has a handler, its payloads are read as what they were, and a sync handler
returns. -/
def Handled (codec : Codec Val Frame) (s : MessageQueue Val Frame)
    (outcome : Except PyError (PyObject Val)) : List Frame → Prop
  | bRequestUid :: bRequestType :: payloads =>
    ∃ requestType entry args, codec.decodeType bRequestType = .ok requestType ∧
      s.server.handlers requestType = some entry ∧
      codec.unwrapRequestPayloads payloads entry.payloadClss = .ok args ∧
      (∃ r ∈ s.submitted, r.requestUid = codec.uidOf bRequestUid ∧ r.requestPayloads = args) ∧
      (entry.handlerType = .BLOCKING ∨
        entry.handlerType = .SYNC ∧ Returns codec entry.responseCls outcome)
  | _ => False

/-- The reply is read as what the handler of its request returned. -/
def Readable (codec : Codec Val Frame) (s : MessageQueue Val Frame) : List Frame → Prop
  | bRequestUid :: bRequestType :: bResponse =>
    ∃ requestType response, codec.decodeType bRequestType = .ok requestType ∧
      codec.readResponse (getResponseClass requestType) bResponse = .ok response ∧
      (codec.uidOf bRequestUid, Except.ok response) ∈ s.outcomes
  | _ => False

/-- The condition on a step. -/
def Answerable (codec : Codec Val Frame) (s : MessageQueue Val Frame) : MQEvent Val → Prop
  | .clientSend => ∀ r, s.client.inputQueue.next? = some r → ∃ frames, r.frames codec = .ok frames
  | .clientReceive => s.client.inputQueue.draining = false →
    ∀ msg, s.toClient.head? = some msg → s.Readable codec msg
  | .serverReceive outcome => s.server.outputQueue.draining = false →
    ∀ msg, s.toServer.head? = some msg → s.Handled codec outcome msg
  | .handlerDone i outcome =>
    ∀ task, s.server.tasks[i]? = some task → Returns codec task.responseCls outcome
  | _ => True

/-! ## Where the requests are -/

/-- The numbers of the requests that the server is not done with. -/
def waiting (codec : Codec Val Frame) (s : MessageQueue Val Frame) : List Nat :=
  s.client.inputQueue.items.map WrappedRequest.requestUid ++ s.toServer.map codec.msgUid ++
    s.server.tasks.map fun task => codec.msgUid task.prefixFrames

/-- The numbers of the replies that have not reached the client. -/
def returning (codec : Codec Val Frame) (s : MessageQueue Val Frame) : List Nat :=
  s.server.outputQueue.items.map codec.msgUid ++ s.toClient.map codec.msgUid

/-- The numbers of the requests that were sent and whose replies have not reached the client. -/
def sentUids (codec : Codec Val Frame) (s : MessageQueue Val Frame) : List Nat :=
  s.toServer.map codec.msgUid ++ (s.server.tasks.map fun task => codec.msgUid task.prefixFrames) ++
    s.returning codec

/-- Two frames that are read as a number and a request type. -/
def Addressed (codec : Codec Val Frame) (frames : List Frame) : Prop :=
  ∃ bRequestUid bRequestType uid requestType, frames = [bRequestUid, bRequestType] ∧
    codec.decodeUid bRequestUid = .ok uid ∧ codec.decodeType bRequestType = .ok requestType

/-- What holds as long as the client's main loop runs. -/
structure Inv (codec : Codec Val Frame) (s : MessageQueue Val Frame) : Prop where
  counter : s.client.requestCounter = s.submitted.length
  numbered : ∀ i (r : WrappedRequest Val), s.submitted[i]? = some r →
    r.requestUid = i ∧ r.future = i
  queued : ∀ r ∈ s.client.inputQueue.items, r ∈ s.submitted
  sent : ∀ msg ∈ s.toServer, ∃ r ∈ s.submitted, r.frames codec = .ok msg
  running : ∀ task ∈ s.server.tasks, Addressed codec task.prefixFrames
  returned : ∀ msg ∈ s.server.outputQueue.items ++ s.toClient,
    ∃ prefixFrames rest, msg = prefixFrames ++ rest ∧ Addressed codec prefixFrames
  located : ∀ uid, (s.waiting codec).count uid + s.settled.count uid =
    if uid < s.client.requestCounter then 1 else 0
  answered : ∀ uid, s.replies.count uid =
    (s.returning codec).count uid + (s.results.map Prod.fst).count uid
  replied : ∀ uid, s.replies.count uid ≤ s.settled.count uid
  ended : ∀ uid, (s.outcomes.map Prod.fst).count uid ≤ s.settled.count uid
  pending : ∀ uid ∈ s.sentUids codec, s.client.pendingFutures.get? uid = some uid
  serverRuns : s.server.ended = false
  awake : s.server.outputQueue.Awake

/-! ## What the invariant gives -/

variable {s : MessageQueue Val Frame}

theorem count_cons_eq (a : Nat) (l : List Nat) (uid : Nat) :
    (a :: l).count uid = [a].count uid + l.count uid := by
  rw [← List.singleton_append, List.count_append]

theorem Inv.init (handlers : RequestType → Option RequestHandler) :
    Inv codec ({ server := { handlers } } : MessageQueue Val Frame) where
  counter := rfl
  numbered i r h := by simp at h
  queued r h := by simp at h
  sent msg h := by simp at h
  running task h := by simp at h
  returned msg h := by simp at h
  located uid := rfl
  answered uid := rfl
  replied uid := Nat.le_refl 0
  ended uid := Nat.le_refl 0
  pending uid h := by simp [sentUids, returning] at h
  serverRuns := rfl
  awake := NotifiedQueue.awake_empty

/-- No request is settled twice. -/
theorem Inv.settled_le_one (h : s.Inv codec) (uid : Nat) : s.settled.count uid ≤ 1 := by
  have hlocated := h.located uid
  split at hlocated <;> omega

variable {uid : Nat}

/-- A request that the server is not done with is not settled. -/
theorem Inv.settled_of_waiting (h : s.Inv codec) (huid : uid ∈ s.waiting codec) :
    s.settled.count uid = 0 := by
  have hlocated := h.located uid
  have hpos := List.count_pos_iff.mpr huid
  split at hlocated <;> omega

/-- Requests are numbered in order. -/
theorem map_submitted {f : WrappedRequest Val → Nat}
    (hf : ∀ i r, s.submitted[i]? = some r → f r = i) :
    s.submitted.map f = List.range s.submitted.length := by
  apply List.ext_getElem?
  intro i
  rw [List.getElem?_map]
  by_cases hi : i < s.submitted.length
  · rw [List.getElem?_eq_getElem hi, List.getElem?_range hi]
    exact congrArg some (hf i _ (List.getElem?_eq_getElem hi))
  · rw [List.getElem?_eq_none (Nat.le_of_not_lt hi), List.getElem?_eq_none (by simpa using hi)]
    rfl

/-- With the invariant, less is left to show. -/
theorem Inv.answersEach_iff (h : s.Inv codec) : s.AnswersEach ↔
    s.client.ended = false ∧
    (∀ p ∈ s.results, ∃ r ∈ s.submitted,
      r.future = p.1 ∧ (r.requestUid, Except.ok p.2) ∈ s.outcomes) ∧
    (∀ p ∈ s.calls, ∃ r ∈ s.submitted, r.requestUid = p.1 ∧ r.requestPayloads = p.2) ∧
    ∀ uid ∈ s.settled, s.replies.count uid = 1 := by
  constructor
  · intro hs
    exact ⟨hs.clientRuns, hs.ownResult, hs.ownPayloads, hs.oneReply⟩
  · rintro ⟨hclient, hresult, hpayloads, hreply⟩
    refine ⟨hclient, h.serverRuns, ?_, ?_, ?_, hresult, hpayloads, hreply, ?_, h.awake⟩
    · rw [map_submitted fun i r hr => (h.numbered i r hr).1]
      exact List.nodup_range
    · rw [map_submitted fun i r hr => (h.numbered i r hr).2]
      exact List.nodup_range
    · apply List.nodup_iff_count_le_one.mpr
      intro uid
      have hanswered := h.answered uid
      have hreplied := h.replied uid
      have hsettled := h.settled_le_one uid
      omega
    · intro uid huid
      have hpos := List.count_pos_iff.mpr huid
      exact List.count_pos_iff.mp (hpos.trans_le (h.replied uid))

/-- A request that is settled without a reply is one too many. -/
theorem not_answersEach_of_unanswered (hsettled : uid ∈ s.settled)
    (hreplies : s.replies.count uid = 0) : ¬ s.AnswersEach := by
  intro hs
  have hone := hs.oneReply uid hsettled
  omega

variable {s' : MessageQueue Val Frame} {inputQueue : NotifiedQueue (WrappedRequest Val)}
  {frames msg : List Frame} {r : WrappedRequest Val}

/-- A step that does nothing with handlers, replies and futures. -/
theorem answersEach_of_same (h' : s'.Inv codec) (hs : s.AnswersEach)
    (hended : s'.client.ended = false) (hsubmitted : s.submitted ⊆ s'.submitted)
    (hresults : s'.results = s.results) (hcalls : s'.calls = s.calls)
    (houtcomes : s'.outcomes = s.outcomes) (hsettled : s'.settled = s.settled)
    (hreplies : s'.replies = s.replies) : s'.AnswersEach := by
  rw [h'.answersEach_iff, hresults, hcalls, houtcomes, hsettled, hreplies]
  refine ⟨hended, ?_, ?_, hs.oneReply⟩
  · intro p hp
    obtain ⟨r, hr, hown⟩ := hs.ownResult p hp
    exact ⟨r, hsubmitted hr, hown⟩
  · intro p hp
    obtain ⟨r, hr, hown⟩ := hs.ownPayloads p hp
    exact ⟨r, hsubmitted hr, hown⟩

/-! ## The client's side -/

/-- **Step lemma: a submission.** -/
theorem Inv.submitRequest (h : s.Inv codec) (requestType : RequestType)
    (requestPayloads : List (PyObject Val)) :
    (s.step codec (.submitRequest requestType requestPayloads)).Inv codec := by
  refine ⟨?_, ?_, ?_, ?_, h.running, h.returned, ?_, h.answered, h.replied, h.ended, h.pending,
    h.serverRuns, h.awake⟩
  · show s.client.requestCounter + 1 = (s.submitted ++ [_]).length
    rw [List.length_append, h.counter, List.length_singleton]
  · intro i r hr
    change (s.submitted ++ [_])[i]? = some r at hr
    rcases Nat.lt_trichotomy i s.submitted.length with hlt | rfl | hgt
    · rw [List.getElem?_append_left hlt] at hr
      exact h.numbered i r hr
    · rw [List.getElem?_concat_length] at hr
      cases hr
      exact ⟨h.counter, h.counter⟩
    · rw [List.getElem?_eq_none (by simpa using hgt)] at hr
      cases hr
  · intro r hr
    rcases List.mem_append.mp hr with hr | hr
    · exact List.mem_append_left _ (h.queued r hr)
    · exact List.mem_append_right _ hr
  · intro msg hmsg
    obtain ⟨r, hr, hframes⟩ := h.sent msg hmsg
    exact ⟨r, List.mem_append_left _ hr, hframes⟩
  · intro uid
    have hlocated := h.located uid
    have hwaiting : ((s.step codec (.submitRequest requestType requestPayloads)).waiting
        codec).count uid = (s.waiting codec).count uid + [s.client.requestCounter].count uid := by
      unfold waiting step MessageQueueClient.submitRequest MessageQueueClient.wrappedRequest
      simp only [NotifiedQueue.items_put, List.map_append, List.map_cons, List.map_nil,
        List.count_append]
      omega
    rw [hwaiting]
    show _ + s.settled.count uid = if uid < s.client.requestCounter + 1 then 1 else 0
    -- the number is new
    rcases Nat.lt_trichotomy uid s.client.requestCounter with hlt | rfl | hgt
    · rw [if_pos hlt] at hlocated
      rw [if_pos (by omega), List.count_singleton, if_neg (by simpa using (by omega))]
      omega
    · rw [if_neg (Nat.lt_irrefl _)] at hlocated
      rw [if_pos (Nat.lt_succ_self _), List.count_singleton_self]
      omega
    · rw [if_neg (by omega)] at hlocated
      rw [if_neg (by omega), List.count_singleton, if_neg (by simpa using (by omega))]
      omega

/-- The items of the client's queue stay, whatever the notifier does. -/
theorem Inv.setInputQueue (h : s.Inv codec) (hitems : inputQueue.items = s.client.inputQueue.items)
    :
    Inv codec { s with client := { s.client with inputQueue := inputQueue } } := by
  refine ⟨h.counter, h.numbered, ?_, h.sent, h.running, h.returned, ?_, h.answered, h.replied,
    h.ended, h.pending, h.serverRuns, h.awake⟩
  · intro r hr
    exact h.queued r (hitems ▸ hr)
  · intro uid
    have hlocated := h.located uid
    unfold waiting at hlocated ⊢
    rw [← hitems] at hlocated
    exact hlocated

/-- A request has the number and the type that its frames stand for. -/
theorem frames_eq_cons (h : r.frames codec = .ok msg) :
    ∃ bRequestUid bRequestType payloads, msg = bRequestUid :: bRequestType :: payloads ∧
      codec.decodeUid bRequestUid = .ok r.requestUid ∧
      codec.decodeType bRequestType = .ok r.requestType := by
  obtain ⟨bRequestUid, huid, h⟩ := bind_eq_ok.mp h
  obtain ⟨bRequestType, htype, h⟩ := bind_eq_ok.mp h
  split at h
  · cases h
  · obtain ⟨payloads, -, h⟩ := bind_eq_ok.mp h
    cases h
    exact ⟨bRequestUid, bRequestType, payloads, rfl, codec.decodeUid_encodeUid huid,
      codec.decodeType_encodeType htype⟩

theorem uidOf_of_decodeUid {frame : Frame} (h : codec.decodeUid frame = .ok uid) :
    codec.uidOf frame = uid := by
  unfold Codec.uidOf
  rw [h]

theorem msgUid_frames (h : r.frames codec = .ok msg) : codec.msgUid msg = r.requestUid := by
  obtain ⟨bRequestUid, bRequestType, payloads, rfl, huid, -⟩ := frames_eq_cons h
  exact uidOf_of_decodeUid huid

/-! ### A round of the queue -/

theorem clientSend_of_none (hget : s.client.inputQueue.get = (none, inputQueue)) :
    s.clientSend codec = { s with client := { s.client with inputQueue := inputQueue } } := by
  unfold MessageQueue.clientSend MessageQueueClient.processOutboundTask
  rw [hget]
  simp only [Option.toList_none, List.append_nil]

theorem clientSend_of_ok (hget : s.client.inputQueue.get = (some r, inputQueue))
    (hframes : r.frames codec = .ok frames) :
    s.clientSend codec = { s with
      client := { s.client with
        inputQueue := inputQueue
        pendingFutures := s.client.pendingFutures.set r.requestUid r.future }
      toServer := s.toServer ++ [frames] } := by
  unfold MessageQueue.clientSend MessageQueueClient.processOutboundTask
  rw [hget]
  simp only [hframes, Option.toList_some]

theorem clientSend_of_error {e : PyError} (hget : s.client.inputQueue.get = (some r, inputQueue))
    (hframes : r.frames codec = .error e) : (s.clientSend codec).client.ended = true := by
  unfold MessageQueue.clientSend MessageQueueClient.processOutboundTask
  rw [hget]
  simp only [hframes]

/-- **Step lemma: a request is sent.** -/
theorem Inv.clientSend_of_ok (h : s.Inv codec)
    (hget : s.client.inputQueue.get = (some r, inputQueue)) (hframes : r.frames codec = .ok frames)
    :
    Inv codec { s with
      client := { s.client with
        inputQueue := inputQueue
        pendingFutures := s.client.pendingFutures.set r.requestUid r.future }
      toServer := s.toServer ++ [frames] } := by
  have hitems := NotifiedQueue.items_of_get _ hget
  have hr : r ∈ s.submitted := h.queued r (hitems ▸ List.mem_cons_self)
  refine ⟨h.counter, h.numbered, ?_, ?_, h.running, h.returned, ?_, h.answered, h.replied,
    h.ended, ?_, h.serverRuns, h.awake⟩
  · intro r' hr'
    exact h.queued r' (hitems ▸ List.mem_cons_of_mem r hr')
  · intro msg hmsg
    rcases List.mem_append.mp hmsg with hmsg | hmsg
    · exact h.sent msg hmsg
    · cases List.mem_singleton.mp hmsg
      exact ⟨r, hr, hframes⟩
  · intro uid
    have hlocated := h.located uid
    unfold waiting at hlocated ⊢
    rw [hitems] at hlocated
    simp only [List.map_append, List.map_cons, List.map_nil, List.count_append,
      msgUid_frames hframes] at hlocated ⊢
    rw [count_cons_eq] at hlocated
    omega
  · -- the future is remembered before the request is sent
    intro uid huid
    obtain ⟨i, hi⟩ := List.mem_iff_getElem?.mp hr
    have hfuture : r.future = r.requestUid :=
      (h.numbered i r hi).2.trans (h.numbered i r hi).1.symm
    show (s.client.pendingFutures.set r.requestUid r.future).get? uid = some uid
    rw [Dict.get?_set, hfuture]
    by_cases heq : uid = r.requestUid
    · rw [if_pos heq, heq]
    · rw [if_neg heq]
      apply h.pending
      unfold sentUids at huid ⊢
      simp only [List.map_append, List.map_cons, List.map_nil, msgUid_frames hframes,
        List.mem_append, List.mem_singleton] at huid ⊢
      tauto

theorem Inv.clientSend (h : s.Inv codec) :
    (s.clientSend codec).client.ended = true ∨ (s.clientSend codec).Inv codec := by
  match hget : s.client.inputQueue.get with
  | (none, inputQueue) =>
    rw [clientSend_of_none hget]
    exact .inr (h.setInputQueue (NotifiedQueue.items_of_get_none _ hget))
  | (some r, inputQueue) =>
    match hframes : r.frames codec with
    | .ok frames =>
      rw [MessageQueue.clientSend_of_ok hget hframes]
      exact .inr (h.clientSend_of_ok hget hframes)
    | .error e => exact .inl (clientSend_of_error hget hframes)

/-- The client's loop goes on, and the rest is as it was, exactly when the request can be sent. -/
theorem answersEach_clientSend (h : s.Inv codec) (hs : s.AnswersEach) :
    (s.clientSend codec).AnswersEach ↔
      ∀ r, s.client.inputQueue.next? = some r → ∃ frames, r.frames codec = .ok frames := by
  unfold NotifiedQueue.next?
  match hget : s.client.inputQueue.get with
  | (none, inputQueue) =>
    rw [clientSend_of_none hget]
    refine iff_of_true ?_ nofun
    exact answersEach_of_same (h.setInputQueue (NotifiedQueue.items_of_get_none _ hget)) hs
      hs.clientRuns (List.Subset.refl _) rfl rfl rfl rfl rfl
  | (some r, inputQueue) =>
    match hframes : r.frames codec with
    | .ok frames =>
      rw [MessageQueue.clientSend_of_ok hget hframes]
      refine iff_of_true ?_ ?_
      · exact answersEach_of_same (h.clientSend_of_ok hget hframes) hs hs.clientRuns
          (List.Subset.refl _) rfl rfl rfl rfl rfl
      · rintro _ ⟨⟩
        exact ⟨frames, hframes⟩
    | .error e =>
      refine iff_of_false ?_ ?_
      · intro hs'
        exact absurd (clientSend_of_error hget hframes) (by simp [hs'.clientRuns])
      · intro hall
        obtain ⟨frames, hok⟩ := hall r rfl
        cases hframes.symm.trans hok

/-! ### A reply is read -/

theorem Inv.sentUids_le_one (h : s.Inv codec) (uid : Nat) : (s.sentUids codec).count uid ≤ 1 := by
  have hlocated := h.located uid
  have hanswered := h.answered uid
  have hreplied := h.replied uid
  unfold sentUids waiting at *
  simp only [List.count_append] at *
  split at hlocated <;> omega

/-- A request whose number is settled was submitted. -/
theorem Inv.exists_of_settled (h : s.Inv codec) (huid : 0 < s.settled.count uid) :
    ∃ r ∈ s.submitted, r.requestUid = uid ∧ r.future = uid := by
  have hlocated := h.located uid
  have hlt : uid < s.submitted.length := by
    rw [← h.counter]
    by_contra hge
    rw [if_neg hge] at hlocated
    omega
  exact ⟨s.submitted[uid], List.getElem_mem hlt, h.numbered uid _ (List.getElem?_eq_getElem hlt)⟩

section Reply

variable {bRequestUid bRequestType : Frame} {bResponse : List Frame} {toClient : List (List Frame)}
  {uid : Nat} {requestType : RequestType}

/-- The client knows the future of a reply. -/
theorem clientReceive_eq (h : s.Inv codec)
    (hclient : s.toClient = (bRequestUid :: bRequestType :: bResponse) :: toClient)
    (huid : codec.decodeUid bRequestUid = .ok uid)
    (htype : codec.decodeType bRequestType = .ok requestType) :
    clientReceive codec { s with toClient := toClient }
        (bRequestUid :: bRequestType :: bResponse) =
      match codec.readResponse (getResponseClass requestType) bResponse with
      | .ok response => { s with
          client := { s.client with pendingFutures := s.client.pendingFutures.erase uid }
          toClient := toClient
          results := s.results ++ [(uid, response)] }
      | .error _ => { s with
          client := { s.client with
            pendingFutures := s.client.pendingFutures.erase uid
            ended := true }
          toClient := toClient } := by
  have hpending : s.client.pendingFutures.get? uid = some uid := by
    apply h.pending
    unfold sentUids returning
    rw [hclient]
    simp [Codec.msgUid, uidOf_of_decodeUid huid]
  unfold clientReceive MessageQueueClient.receive
  match hread : codec.readResponse (getResponseClass requestType) bResponse with
  | .ok response => simp only [huid, htype, hpending, hread, Option.toList_some]
  | .error e => simp only [huid, htype, hpending, hread, Option.toList_none, List.append_nil]

/-- **Step lemma: a future is resolved.** -/
theorem Inv.clientReceive_of_ok (h : s.Inv codec)
    (hclient : s.toClient = (bRequestUid :: bRequestType :: bResponse) :: toClient)
    (huid : codec.decodeUid bRequestUid = .ok uid) (response : PyObject Val) :
    Inv codec { s with
      client := { s.client with pendingFutures := s.client.pendingFutures.erase uid }
      toClient := toClient
      results := s.results ++ [(uid, response)] } := by
  have hmsgUid : codec.msgUid (bRequestUid :: bRequestType :: bResponse) = uid :=
    uidOf_of_decodeUid huid
  refine ⟨h.counter, h.numbered, h.queued, h.sent, h.running, ?_, h.located, ?_, h.replied,
    h.ended, ?_, h.serverRuns, h.awake⟩
  · intro msg hmsg
    apply h.returned
    rw [hclient]
    rcases List.mem_append.mp hmsg with hmsg | hmsg
    · exact List.mem_append_left _ hmsg
    · exact List.mem_append_right _ (List.mem_cons_of_mem _ hmsg)
  · intro uid'
    have hanswered := h.answered uid'
    unfold returning at hanswered ⊢
    rw [hclient, List.map_cons, hmsgUid, List.count_append, count_cons_eq] at hanswered
    simp only [List.map_append, List.map_cons, List.map_nil, List.count_append]
    omega
  · -- the number of the reply was nowhere else
    intro uid' huid'
    have hone := h.sentUids_le_one uid'
    have hpos := List.count_pos_iff.mpr huid'
    unfold sentUids returning at hone hpos
    rw [hclient, List.map_cons, hmsgUid] at hone
    simp only [List.count_append] at hone hpos
    rw [count_cons_eq] at hone
    have hne : uid' ≠ uid := by
      rintro rfl
      rw [List.count_singleton_self] at hone
      omega
    show (s.client.pendingFutures.erase uid).get? uid' = some uid'
    rw [Dict.get?_erase, if_neg hne]
    apply h.pending
    unfold sentUids returning at huid' ⊢
    rw [hclient, List.map_cons]
    simp only [List.mem_append, List.mem_cons] at huid' ⊢
    tauto

end Reply

/-- A reply is of the form that the client expects. -/
theorem Inv.exists_reply (h : s.Inv codec) {toClient : List (List Frame)}
    (hclient : s.toClient = msg :: toClient) :
    ∃ bRequestUid bRequestType bResponse uid requestType,
      msg = bRequestUid :: bRequestType :: bResponse ∧ codec.decodeUid bRequestUid = .ok uid ∧
      codec.decodeType bRequestType = .ok requestType := by
  have hmsg : msg ∈ s.server.outputQueue.items ++ s.toClient :=
    List.mem_append_right _ (hclient ▸ List.mem_cons_self)
  obtain ⟨_, rest, rfl, bRequestUid, bRequestType, uid, requestType, rfl, huid, htype⟩ :=
    h.returned msg hmsg
  exact ⟨bRequestUid, bRequestType, rest, uid, requestType, rfl, huid, htype⟩

theorem Inv.clientReceive (h : s.Inv codec) {toClient : List (List Frame)}
    (hclient : s.toClient = msg :: toClient) :
    (MessageQueue.clientReceive codec { s with toClient := toClient } msg).client.ended = true ∨
      (MessageQueue.clientReceive codec { s with toClient := toClient } msg).Inv codec := by
  obtain ⟨bRequestUid, bRequestType, bResponse, uid, requestType, rfl, huid, htype⟩ :=
    h.exists_reply hclient
  rw [clientReceive_eq h hclient huid htype]
  split
  · exact .inr (h.clientReceive_of_ok hclient huid _)
  · exact .inl rfl

/-- A future gets what its handler returned exactly when the reply is read as that. -/
theorem answersEach_clientReceive (h : s.Inv codec) (hs : s.AnswersEach)
    {toClient : List (List Frame)} (hclient : s.toClient = msg :: toClient) :
    (MessageQueue.clientReceive codec { s with toClient := toClient } msg).AnswersEach ↔
      s.Readable codec msg := by
  obtain ⟨bRequestUid, bRequestType, bResponse, uid, requestType, rfl, huid, htype⟩ :=
    h.exists_reply hclient
  rw [clientReceive_eq h hclient huid htype]
  show _ ↔ ∃ requestType response, codec.decodeType bRequestType = .ok requestType ∧
    codec.readResponse (getResponseClass requestType) bResponse = .ok response ∧
    (codec.uidOf bRequestUid, Except.ok response) ∈ s.outcomes
  rw [uidOf_of_decodeUid huid]
  match hread : codec.readResponse (getResponseClass requestType) bResponse with
  | .error e =>
    refine iff_of_false (fun hs' => nomatch hs'.clientRuns) ?_
    rintro ⟨requestType', response, htype', hread', -⟩
    cases htype.symm.trans htype'
    cases hread.symm.trans hread'
  | .ok response =>
    have hready : (∃ requestType response, codec.decodeType bRequestType = .ok requestType ∧
        codec.readResponse (getResponseClass requestType) bResponse = .ok response ∧
        (uid, Except.ok response) ∈ s.outcomes) ↔ (uid, Except.ok response) ∈ s.outcomes := by
      constructor
      · rintro ⟨requestType', response', htype', hread', hmem⟩
        cases htype.symm.trans htype'
        cases hread.symm.trans hread'
        exact hmem
      · exact fun hmem => ⟨requestType, response, htype, hread, hmem⟩
    rw [hready, (h.clientReceive_of_ok hclient huid response).answersEach_iff]
    constructor
    · rintro ⟨-, hresult, -⟩
      obtain ⟨r, hr, hfuture, hmem⟩ := hresult (uid, response) (List.mem_append_right _
        List.mem_cons_self)
      -- the future's number is that of its request
      obtain ⟨i, hi⟩ := List.mem_iff_getElem?.mp hr
      have hnumber : r.requestUid = uid :=
        ((h.numbered i r hi).1.trans (h.numbered i r hi).2.symm).trans hfuture
      exact hnumber ▸ hmem
    · intro hmem
      refine ⟨hs.clientRuns, ?_, hs.ownPayloads, hs.oneReply⟩
      intro p hp
      rcases List.mem_append.mp hp with hp | hp
      · exact hs.ownResult p hp
      · cases List.mem_singleton.mp hp
        have hended : uid ∈ s.outcomes.map Prod.fst := List.mem_map_of_mem (f := Prod.fst) hmem
        have hsettled := (List.count_pos_iff.mpr hended).trans_le (h.ended uid)
        obtain ⟨r, hr, hnumber, hfuture⟩ := h.exists_of_settled hsettled
        exact ⟨r, hr, hfuture, hnumber.symm ▸ hmem⟩

/-! ## The server's side -/

/-- What comes to the server is a request. -/
theorem Inv.exists_request (h : s.Inv codec) {toServer : List (List Frame)}
    (hserver : s.toServer = msg :: toServer) :
    ∃ bRequestUid bRequestType payloads uid requestType,
      msg = bRequestUid :: bRequestType :: payloads ∧ codec.decodeUid bRequestUid = .ok uid ∧
      codec.decodeType bRequestType = .ok requestType := by
  obtain ⟨r, -, hframes⟩ := h.sent msg (hserver ▸ List.mem_cons_self)
  obtain ⟨bRequestUid, bRequestType, payloads, hmsg, huid, htype⟩ := frames_eq_cons hframes
  exact ⟨bRequestUid, bRequestType, payloads, r.requestUid, r.requestType, hmsg, huid, htype⟩

theorem count_le_append (l l' : List Nat) (uid : Nat) : l.count uid ≤ (l ++ l').count uid :=
  (List.sublist_append_left l l').count_le uid

/-- **Step lemma: the server is done with a request.** -/
theorem Inv.settle (h : s.Inv codec) {toServer : List (List Frame)}
    (hserver : s.toServer = msg :: toServer) :
    Inv codec { s with
      toServer := toServer
      settled := s.settled ++ [codec.msgUid msg] } := by
  refine ⟨h.counter, h.numbered, h.queued, ?_, h.running, h.returned, ?_, h.answered, ?_, ?_, ?_,
    h.serverRuns, h.awake⟩
  · intro msg' hmsg'
    exact h.sent msg' (hserver ▸ List.mem_cons_of_mem _ hmsg')
  · intro uid
    have hlocated := h.located uid
    unfold waiting at hlocated ⊢
    rw [hserver, List.map_cons] at hlocated
    simp only [List.count_append] at hlocated ⊢
    rw [count_cons_eq] at hlocated
    omega
  · exact fun uid => (h.replied uid).trans (count_le_append _ _ uid)
  · exact fun uid => (h.ended uid).trans (count_le_append _ _ uid)
  · intro uid huid
    apply h.pending
    unfold sentUids returning at huid ⊢
    rw [hserver, List.map_cons]
    simp only [List.mem_append, List.mem_cons] at huid ⊢
    tauto

/-- **Step lemma: the call of a task has ended.** -/
theorem Inv.settleTask (h : s.Inv codec) {i : Nat} {task : HandlerTask Frame}
    (htask : s.server.tasks[i]? = some task) :
    Inv codec { s with
      server := { s.server with tasks := s.server.tasks.eraseIdx i }
      settled := s.settled ++ [codec.msgUid task.prefixFrames] } := by
  obtain ⟨hi, rfl⟩ := List.getElem?_eq_some_iff.mp htask
  have hperm := (List.getElem_cons_eraseIdx_perm hi).symm.map fun task : HandlerTask Frame =>
    codec.msgUid task.prefixFrames
  refine ⟨h.counter, h.numbered, h.queued, h.sent, ?_, h.returned, ?_, h.answered, ?_, ?_, ?_,
    h.serverRuns, h.awake⟩
  · intro task' htask'
    exact h.running task' (List.mem_of_mem_eraseIdx htask')
  · intro uid
    have hlocated := h.located uid
    unfold waiting at hlocated ⊢
    simp only [List.count_append] at hlocated ⊢
    rw [hperm.count_eq, List.map_cons, count_cons_eq] at hlocated
    omega
  · exact fun uid => (h.replied uid).trans (count_le_append _ _ uid)
  · exact fun uid => (h.ended uid).trans (count_le_append _ _ uid)
  · intro uid huid
    apply h.pending
    unfold sentUids at huid ⊢
    simp only [List.mem_append] at huid ⊢
    rcases huid with (huid | huid) | huid
    · exact .inl (.inl huid)
    · exact .inl (.inr (hperm.mem_iff.mpr (List.mem_cons_of_mem _ huid)))
    · exact .inr huid

/-- **Step lemma: a blocking handler is called.** -/
theorem Inv.submitTask (h : s.Inv codec) {bRequestUid bRequestType : Frame} {payloads : List Frame}
    {toServer : List (List Frame)} {requestType : RequestType}
    (hserver : s.toServer = (bRequestUid :: bRequestType :: payloads) :: toServer)
    (huid : codec.decodeUid bRequestUid = .ok uid)
    (htype : codec.decodeType bRequestType = .ok requestType) (responseCls : PayloadClass)
    (calls : List (Nat × List (PyObject Val))) :
    Inv codec { s with
      server := { s.server with
        tasks := s.server.tasks ++ [⟨responseCls, [bRequestUid, bRequestType]⟩] }
      toServer := toServer
      calls := calls } := by
  have hmsgUid : codec.msgUid (bRequestUid :: bRequestType :: payloads) = uid :=
    uidOf_of_decodeUid huid
  have htaskUid : codec.msgUid [bRequestUid, bRequestType] = uid := uidOf_of_decodeUid huid
  refine ⟨h.counter, h.numbered, h.queued, ?_, ?_, h.returned, ?_, h.answered, h.replied, h.ended,
    ?_, h.serverRuns, h.awake⟩
  · intro msg hmsg
    exact h.sent msg (hserver ▸ List.mem_cons_of_mem _ hmsg)
  · intro task htask
    rcases List.mem_append.mp htask with htask | htask
    · exact h.running task htask
    · cases List.mem_singleton.mp htask
      exact ⟨bRequestUid, bRequestType, uid, requestType, rfl, huid, htype⟩
  · intro uid'
    have hlocated := h.located uid'
    unfold waiting at hlocated ⊢
    rw [hserver, List.map_cons, hmsgUid] at hlocated
    simp only [List.map_append, List.map_cons, List.map_nil, List.count_append, htaskUid]
      at hlocated ⊢
    rw [count_cons_eq] at hlocated
    omega
  · intro uid' huid'
    apply h.pending
    unfold sentUids returning at huid' ⊢
    rw [hserver, List.map_cons, hmsgUid]
    simp only [List.map_append, List.map_cons, List.map_nil, List.mem_append, List.mem_cons,
      htaskUid, List.not_mem_nil, or_false] at huid' ⊢
    tauto

/-- What a handler gave is noted once. -/
theorem Inv.addOutcome (h : s.Inv codec)
    (hnew : (s.outcomes.map Prod.fst).count uid < s.settled.count uid)
    (outcome : Except PyError (PyObject Val)) (calls : List (Nat × List (PyObject Val))) :
    Inv codec { s with
      outcomes := s.outcomes ++ [(uid, outcome)]
      calls := calls } := by
  refine ⟨h.counter, h.numbered, h.queued, h.sent, h.running, h.returned, h.located, h.answered,
    h.replied, ?_, h.pending, h.serverRuns, h.awake⟩
  intro uid'
  have hended := h.ended uid'
  rw [List.map_append, List.count_append]
  show _ + [uid].count uid' ≤ s.settled.count uid'
  by_cases heq : uid = uid'
  · rw [heq, List.count_singleton_self]
    rw [heq] at hnew
    omega
  · rw [List.count_singleton, if_neg (by simpa using heq)]
    omega

section Reply

variable {prefixFrames rest : List Frame}

/-- A reply is noted once. -/
theorem Inv.replied_append (h : s.Inv codec) (hroom : s.replies.count uid < s.settled.count uid)
    (uid' : Nat) : (s.replies ++ [uid]).count uid' ≤ s.settled.count uid' := by
  have hreplied := h.replied uid'
  rw [List.count_append]
  by_cases heq : uid = uid'
  · rw [heq, List.count_singleton_self]
    rw [heq] at hroom
    omega
  · rw [List.count_singleton, if_neg (by simpa using heq)]
    omega

/-- **Step lemma: a reply is sent.** -/
theorem Inv.sendReply (h : s.Inv codec) (hroom : s.replies.count uid < s.settled.count uid)
    (hpending : s.client.pendingFutures.get? uid = some uid)
    (haddress : Addressed codec prefixFrames) (huid : codec.msgUid (prefixFrames ++ rest) = uid) :
    Inv codec { s with
      toClient := s.toClient ++ [prefixFrames ++ rest]
      replies := s.replies ++ [uid] } := by
  refine ⟨h.counter, h.numbered, h.queued, h.sent, h.running, ?_, h.located, ?_,
    h.replied_append hroom, h.ended, ?_, h.serverRuns, h.awake⟩
  · intro msg hmsg
    simp only [List.mem_append, List.mem_singleton] at hmsg
    rcases hmsg with hmsg | hmsg | rfl
    · exact h.returned msg (List.mem_append_left _ hmsg)
    · exact h.returned msg (List.mem_append_right _ hmsg)
    · exact ⟨prefixFrames, rest, rfl, haddress⟩
  · intro uid'
    have hanswered := h.answered uid'
    unfold returning at hanswered ⊢
    simp only [List.map_append, List.map_cons, List.map_nil, List.count_append, huid]
      at hanswered ⊢
    omega
  · intro uid' huid'
    unfold sentUids returning at huid'
    simp only [List.map_append, List.map_cons, List.map_nil, List.mem_append, List.mem_singleton,
      huid] at huid'
    by_cases heq : uid' = uid
    · exact heq ▸ hpending
    · apply h.pending
      unfold sentUids returning
      simp only [List.mem_append]
      tauto

/-- **Step lemma: a reply is put into the queue.** -/
theorem Inv.putReply (h : s.Inv codec) (hroom : s.replies.count uid < s.settled.count uid)
    (hpending : s.client.pendingFutures.get? uid = some uid)
    (haddress : Addressed codec prefixFrames) (huid : codec.msgUid (prefixFrames ++ rest) = uid) :
    Inv codec { s with
      server := { s.server with outputQueue := s.server.outputQueue.put (prefixFrames ++ rest) }
      replies := s.replies ++ [uid] } := by
  refine ⟨h.counter, h.numbered, h.queued, h.sent, h.running, ?_, h.located, ?_,
    h.replied_append hroom, h.ended, ?_, h.serverRuns, NotifiedQueue.awake_put _⟩
  · intro msg hmsg
    simp only [NotifiedQueue.items_put, List.mem_append, List.mem_singleton] at hmsg
    rcases hmsg with (hmsg | rfl) | hmsg
    · exact h.returned msg (List.mem_append_left _ hmsg)
    · exact ⟨prefixFrames, rest, rfl, haddress⟩
    · exact h.returned msg (List.mem_append_right _ hmsg)
  · intro uid'
    have hanswered := h.answered uid'
    unfold returning at hanswered ⊢
    simp only [NotifiedQueue.items_put, List.map_append, List.map_cons, List.map_nil,
      List.count_append, huid] at hanswered ⊢
    omega
  · intro uid' huid'
    unfold sentUids returning at huid'
    simp only [NotifiedQueue.items_put, List.map_append, List.map_cons, List.map_nil,
      List.mem_append, List.mem_singleton, huid] at huid'
    by_cases heq : uid' = uid
    · exact heq ▸ hpending
    · apply h.pending
      unfold sentUids returning
      simp only [List.mem_append]
      tauto

end Reply

/-! ### What makes a reply -/

theorem framesToSend_eq_ok {response : PyObject Val} {responseCls : PayloadClass}
    {prefixFrames : List Frame}
    (h : codec.framesToSend response responseCls prefixFrames = .ok frames) :
    ∃ rest, frames = prefixFrames ++ rest := by
  obtain ⟨bResponse, -, h⟩ := bind_eq_ok.mp h
  cases h
  split
  · exact ⟨_, rfl⟩
  · exact ⟨[], (List.append_nil _).symm⟩

/-- There is a reply exactly when the handler returns a value that can be encoded. -/
theorem returns_iff {responseCls : PayloadClass} {outcome : Except PyError (PyObject Val)}
    (prefixFrames : List Frame) :
    Returns codec responseCls outcome ↔
      ∃ frames, outcome >>= (codec.framesToSend · responseCls prefixFrames) = .ok frames := by
  constructor
  · rintro ⟨response, frame, rfl, hencode⟩
    refine ⟨_, bind_eq_ok.mpr ⟨response, rfl, bind_eq_ok.mpr ⟨frame, hencode, rfl⟩⟩⟩
  · rintro ⟨frames, h⟩
    obtain ⟨response, houtcome, h⟩ := bind_eq_ok.mp h
    obtain ⟨frame, hencode, -⟩ := bind_eq_ok.mp h
    exact ⟨response, frame, houtcome, hencode⟩

/-- A request that is settled with a reply keeps the property, if its handler got its payloads. -/
theorem answersEach_of_reply (h' : s'.Inv codec) (hs : s.AnswersEach)
    (hnew : s.settled.count uid = 0) (hended : s'.client.ended = false)
    (hsubmitted : s'.submitted = s.submitted) (hresults : s'.results = s.results)
    (houtcomes : s.outcomes ⊆ s'.outcomes) (hsettled : s'.settled = s.settled ++ [uid])
    (hreplies : s'.replies = s.replies ++ [uid]) :
    s'.AnswersEach ↔
      ∀ p ∈ s'.calls, ∃ r ∈ s.submitted, r.requestUid = p.1 ∧ r.requestPayloads = p.2 := by
  rw [h'.answersEach_iff, hresults, hsettled, hreplies, hsubmitted]
  constructor
  · rintro ⟨-, -, hpayloads, -⟩
    exact hpayloads
  · intro hpayloads
    refine ⟨hended, ?_, hpayloads, ?_⟩
    · intro p hp
      obtain ⟨r, hr, hfuture, hmem⟩ := hs.ownResult p hp
      exact ⟨r, hr, hfuture, houtcomes hmem⟩
    · intro uid' huid'
      have hnone : s.replies.count uid = 0 := by
        apply List.count_eq_zero.mpr
        intro hmem
        exact List.count_eq_zero.mp hnew (hs.noOtherReply uid hmem)
      rw [List.count_append]
      rcases List.mem_append.mp huid' with huid' | huid'
      · have hne : uid ≠ uid' := by
          rintro rfl
          exact List.count_eq_zero.mp hnew huid'
        rw [hs.oneReply uid' huid', List.count_singleton, if_neg (by simpa using hne)]
      · rw [List.mem_singleton.mp huid', hnone, List.count_singleton_self]

theorem forall_calls_append {args : List (PyObject Val)} (hs : s.AnswersEach) :
    (∀ p ∈ s.calls ++ [(uid, args)], ∃ r ∈ s.submitted,
      r.requestUid = p.1 ∧ r.requestPayloads = p.2) ↔
      ∃ r ∈ s.submitted, r.requestUid = uid ∧ r.requestPayloads = args := by
  constructor
  · intro h
    exact h (uid, args) (List.mem_append_right _ List.mem_cons_self)
  · intro h p hp
    rcases List.mem_append.mp hp with hp | hp
    · exact hs.ownPayloads p hp
    · cases List.mem_singleton.mp hp
      exact h

/-! ### A request is read -/

section Request

variable {bRequestUid bRequestType : Frame} {payloads : List Frame} {toServer : List (List Frame)}
  {uid : Nat} {requestType : RequestType} (entry : RequestHandler)
  (outcome : Except PyError (PyObject Val))

/-- A request that comes is waiting for the server. -/
theorem mem_waiting
    (hserver : s.toServer = (bRequestUid :: bRequestType :: payloads) :: toServer)
    (huid : codec.decodeUid bRequestUid = .ok uid) :
    uid ∈ s.waiting codec ∧ uid ∈ s.sentUids codec := by
  unfold waiting sentUids
  rw [hserver]
  simp [Codec.msgUid, uidOf_of_decodeUid huid]

/-- **Step lemma: a sync handler.**  The request is settled, with a reply if the handler returns a
value that can be encoded. -/
theorem Inv.callSyncHandler (h : s.Inv codec)
    (hserver : s.toServer = (bRequestUid :: bRequestType :: payloads) :: toServer)
    (huid : codec.decodeUid bRequestUid = .ok uid)
    (htype : codec.decodeType bRequestType = .ok requestType) :
    (MessageQueue.callSyncHandler codec { s with toServer := toServer } entry bRequestUid
      bRequestType payloads outcome).Inv codec := by
  have huidOf := uidOf_of_decodeUid huid
  obtain ⟨hwaiting, hsent⟩ := mem_waiting hserver huid
  have hnew := h.settled_of_waiting hwaiting
  have hsettle := h.settle hserver
  change Inv codec { s with
    toServer := toServer
    settled := s.settled ++ [codec.uidOf bRequestUid] } at hsettle
  rw [huidOf] at hsettle
  unfold MessageQueue.callSyncHandler refuse
  rw [huidOf]
  split
  · exact hsettle
  · rename_i args hargs
    have hsettled : (s.settled ++ [uid]).count uid = 1 := by
      rw [List.count_append, hnew, List.count_singleton_self]
    have hended := h.ended uid
    have houtcome := hsettle.addOutcome (show _ < (s.settled ++ [uid]).count uid by
      show (s.outcomes.map Prod.fst).count uid < _
      omega) outcome (s.calls ++ [(uid, args)])
    dsimp only
    split
    · exact houtcome
    · rename_i frames hframes
      obtain ⟨response, -, hframes⟩ := bind_eq_ok.mp hframes
      obtain ⟨rest, rfl⟩ := framesToSend_eq_ok hframes
      have hreplied := h.replied uid
      refine houtcome.sendReply ?_ (h.pending uid hsent)
        ⟨bRequestUid, bRequestType, uid, requestType, rfl, huid, htype⟩ huidOf
      show s.replies.count uid < (s.settled ++ [uid]).count uid
      omega

theorem answersEach_callSyncHandler (h : s.Inv codec) (hs : s.AnswersEach)
    (hserver : s.toServer = (bRequestUid :: bRequestType :: payloads) :: toServer)
    (huid : codec.decodeUid bRequestUid = .ok uid)
    (htype : codec.decodeType bRequestType = .ok requestType) :
    (MessageQueue.callSyncHandler codec { s with toServer := toServer } entry bRequestUid
      bRequestType payloads outcome).AnswersEach ↔
      ∃ args, codec.unwrapRequestPayloads payloads entry.payloadClss = .ok args ∧
        (∃ r ∈ s.submitted, r.requestUid = uid ∧ r.requestPayloads = args) ∧
        Returns codec entry.responseCls outcome := by
  have h' := h.callSyncHandler entry outcome hserver huid htype
  have hnew := h.settled_of_waiting (mem_waiting hserver huid).1
  have hnone : s.replies.count uid = 0 := Nat.le_zero.mp (hnew ▸ h.replied uid)
  have hsettled : uid ∈ s.settled ++ [uid] := List.mem_append_right _ List.mem_cons_self
  rw [returns_iff [bRequestUid, bRequestType]]
  unfold MessageQueue.callSyncHandler refuse at h' ⊢
  rw [uidOf_of_decodeUid huid] at h' ⊢
  match hargs : codec.unwrapRequestPayloads payloads entry.payloadClss with
  | .error e =>
    refine iff_of_false ?_ nofun
    exact not_answersEach_of_unanswered hsettled hnone
  | .ok args =>
    rw [hargs] at h'
    dsimp only at h' ⊢
    match hframes : outcome >>= (codec.framesToSend · entry.responseCls
        [bRequestUid, bRequestType]) with
    | .error e =>
      refine iff_of_false ?_ nofun
      exact not_answersEach_of_unanswered hsettled hnone
    | .ok frames =>
      rw [hframes] at h'
      dsimp only at h' ⊢
      rw [answersEach_of_reply h' hs hnew hs.clientRuns rfl rfl (List.subset_append_left _ _) rfl
        rfl, forall_calls_append hs]
      constructor
      · exact fun hown => ⟨args, rfl, hown, frames, rfl⟩
      · rintro ⟨_, ⟨⟩, hown, -⟩
        exact hown

/-- **Step lemma: a blocking handler**, whose task gets the request, or none if the payloads cannot
be read. -/
theorem Inv.callBlockingHandler (h : s.Inv codec)
    (hserver : s.toServer = (bRequestUid :: bRequestType :: payloads) :: toServer)
    (huid : codec.decodeUid bRequestUid = .ok uid)
    (htype : codec.decodeType bRequestType = .ok requestType) :
    (MessageQueue.callBlockingHandler codec { s with toServer := toServer } entry bRequestUid
      bRequestType payloads).Inv codec := by
  unfold MessageQueue.callBlockingHandler
  split
  · exact h.settle hserver
  · exact h.submitTask hserver huid htype entry.responseCls _

theorem answersEach_callBlockingHandler (h : s.Inv codec) (hs : s.AnswersEach)
    (hserver : s.toServer = (bRequestUid :: bRequestType :: payloads) :: toServer)
    (huid : codec.decodeUid bRequestUid = .ok uid)
    (htype : codec.decodeType bRequestType = .ok requestType) :
    (MessageQueue.callBlockingHandler codec { s with toServer := toServer } entry bRequestUid
      bRequestType payloads).AnswersEach ↔
      ∃ args, codec.unwrapRequestPayloads payloads entry.payloadClss = .ok args ∧
        ∃ r ∈ s.submitted, r.requestUid = uid ∧ r.requestPayloads = args := by
  have h' := h.callBlockingHandler entry hserver huid htype
  have hnew := h.settled_of_waiting (mem_waiting hserver huid).1
  have hnone : s.replies.count uid = 0 := Nat.le_zero.mp (hnew ▸ h.replied uid)
  have hsettled : uid ∈ s.settled ++ [uid] := List.mem_append_right _ List.mem_cons_self
  unfold MessageQueue.callBlockingHandler refuse at h' ⊢
  rw [uidOf_of_decodeUid huid] at h' ⊢
  match hargs : codec.unwrapRequestPayloads payloads entry.payloadClss with
  | .error e =>
    refine iff_of_false ?_ nofun
    exact not_answersEach_of_unanswered hsettled hnone
  | .ok args =>
    rw [hargs] at h'
    dsimp only at h' ⊢
    rw [h'.answersEach_iff]
    dsimp only
    rw [forall_calls_append hs]
    constructor
    · rintro ⟨-, -, hown, -⟩
      exact ⟨args, rfl, hown⟩
    · rintro ⟨_, ⟨⟩, hown⟩
      exact ⟨hs.clientRuns, hs.ownResult, hown, hs.oneReply⟩

end Request

theorem Inv.receive (h : s.Inv codec) {toServer : List (List Frame)}
    (hserver : s.toServer = msg :: toServer) (outcome : Except PyError (PyObject Val)) :
    (MessageQueue.receive codec { s with toServer := toServer } msg outcome).Inv codec := by
  obtain ⟨bRequestUid, bRequestType, payloads, uid, requestType, rfl, huid, htype⟩ :=
    h.exists_request hserver
  unfold MessageQueue.receive
  simp only [htype]
  split
  · rename_i entry _
    unfold callHandler
    split
    · exact h.callSyncHandler entry outcome hserver huid htype
    · exact h.callBlockingHandler entry hserver huid htype
    · exact h.settle hserver
  · exact h.settle hserver

/-- The property is kept exactly when the request is handled. -/
theorem answersEach_receive (h : s.Inv codec) (hs : s.AnswersEach) {toServer : List (List Frame)}
    (hserver : s.toServer = msg :: toServer) (outcome : Except PyError (PyObject Val)) :
    (MessageQueue.receive codec { s with toServer := toServer } msg outcome).AnswersEach ↔
      s.Handled codec outcome msg := by
  obtain ⟨bRequestUid, bRequestType, payloads, uid, requestType, rfl, huid, htype⟩ :=
    h.exists_request hserver
  have hnew := h.settled_of_waiting (mem_waiting hserver huid).1
  have hnone : s.replies.count uid = 0 := Nat.le_zero.mp (hnew ▸ h.replied uid)
  have hrefuse : ¬ (refuse codec { s with toServer := toServer } bRequestUid).AnswersEach := by
    unfold refuse
    rw [uidOf_of_decodeUid huid]
    exact not_answersEach_of_unanswered (List.mem_append_right _ List.mem_cons_self) hnone
  unfold MessageQueue.receive Handled
  simp only [htype, uidOf_of_decodeUid huid, Except.ok.injEq, exists_and_left, exists_eq_left']
  match hentry : s.server.handlers requestType with
  | none =>
    refine iff_of_false hrefuse ?_
    rintro ⟨entry, ⟨⟩, -⟩
  | some entry =>
    simp only [Option.some.injEq, exists_eq_left']
    unfold callHandler
    match hkind : entry.handlerType with
    | .SYNC =>
      rw [answersEach_callSyncHandler entry outcome h hs hserver huid htype]
      simp
    | .BLOCKING =>
      rw [answersEach_callBlockingHandler entry h hs hserver huid htype]
      simp
    | .NON_BLOCKING =>
      refine iff_of_false hrefuse ?_
      rintro ⟨args, -, -, hkind | ⟨hkind, -⟩⟩ <;> cases hkind

/-! ### A call in the thread pool ends -/

section Task

variable {i : Nat} {task : HandlerTask Frame} (outcome : Except PyError (PyObject Val))

/-- The request of a task is waiting for its handler. -/
theorem mem_waiting_task (htask : s.server.tasks[i]? = some task) :
    codec.msgUid task.prefixFrames ∈ s.waiting codec ∧
      codec.msgUid task.prefixFrames ∈ s.sentUids codec := by
  have hmem : codec.msgUid task.prefixFrames ∈
      s.server.tasks.map fun task => codec.msgUid task.prefixFrames :=
    List.mem_map.mpr ⟨task, List.mem_of_getElem? htask, rfl⟩
  unfold waiting sentUids
  exact ⟨List.mem_append_right _ hmem, List.mem_append_left _ (List.mem_append_right _ hmem)⟩

/-- **Step lemma: a blocking handler has ended.** -/
theorem Inv.notifyResponse (h : s.Inv codec) (htask : s.server.tasks[i]? = some task) :
    (MessageQueue.notifyResponse codec
      { s with server := { s.server with tasks := s.server.tasks.eraseIdx i } } task
      outcome).Inv codec := by
  have hmem : codec.msgUid task.prefixFrames ∈ s.waiting codec ∧
      codec.msgUid task.prefixFrames ∈ s.sentUids codec := mem_waiting_task htask
  have hnew := h.settled_of_waiting hmem.1
  have hended := h.ended (codec.msgUid task.prefixFrames)
  have hsettled : (s.settled ++ [codec.msgUid task.prefixFrames]).count
      (codec.msgUid task.prefixFrames) = 1 := by
    rw [List.count_append, hnew, List.count_singleton_self]
  have houtcome := (h.settleTask htask).addOutcome (show _ < (s.settled ++
      [codec.msgUid task.prefixFrames]).count (codec.msgUid task.prefixFrames) by
    show (s.outcomes.map Prod.fst).count (codec.msgUid task.prefixFrames) < _
    omega) outcome s.calls
  unfold MessageQueue.notifyResponse
  dsimp only
  split
  · exact houtcome
  · rename_i frames hframes
    obtain ⟨response, -, hframes⟩ := bind_eq_ok.mp hframes
    obtain ⟨rest, rfl⟩ := framesToSend_eq_ok hframes
    have hreplied := h.replied (codec.msgUid task.prefixFrames)
    have haddressed := h.running task (List.mem_of_getElem? htask)
    refine houtcome.putReply ?_ (h.pending _ hmem.2) haddressed ?_
    · show s.replies.count (codec.msgUid task.prefixFrames) < (s.settled ++
        [codec.msgUid task.prefixFrames]).count (codec.msgUid task.prefixFrames)
      omega
    · obtain ⟨bRequestUid, bRequestType, uid, requestType, haddress, -⟩ := haddressed
      rw [haddress]
      rfl

theorem answersEach_notifyResponse (h : s.Inv codec) (hs : s.AnswersEach)
    (htask : s.server.tasks[i]? = some task) :
    (MessageQueue.notifyResponse codec
      { s with server := { s.server with tasks := s.server.tasks.eraseIdx i } } task
      outcome).AnswersEach ↔ Returns codec task.responseCls outcome := by
  have h' := h.notifyResponse outcome htask
  have hnew := h.settled_of_waiting (mem_waiting_task htask).1
  have hnone : s.replies.count (codec.msgUid task.prefixFrames) = 0 :=
    Nat.le_zero.mp (hnew ▸ h.replied _)
  rw [returns_iff task.prefixFrames]
  unfold MessageQueue.notifyResponse at h' ⊢
  match hframes : outcome >>= (codec.framesToSend · task.responseCls task.prefixFrames) with
  | .error e =>
    refine iff_of_false ?_ nofun
    exact not_answersEach_of_unanswered (List.mem_append_right _ List.mem_cons_self) hnone
  | .ok frames =>
    rw [hframes] at h'
    dsimp only at h' ⊢
    rw [answersEach_of_reply h' hs hnew hs.clientRuns rfl rfl (List.subset_append_left _ _) rfl
      rfl]
    exact iff_of_true hs.ownPayloads ⟨frames, rfl⟩

end Task

/-! ### The server's queue -/

/-- The replies stay, whatever the notifier does. -/
theorem Inv.setOutputQueue (h : s.Inv codec) {outputQueue : NotifiedQueue (List Frame)}
    (hitems : outputQueue.items = s.server.outputQueue.items) (hawake : outputQueue.Awake) :
    Inv codec { s with server := { s.server with outputQueue := outputQueue } } := by
  refine ⟨h.counter, h.numbered, h.queued, h.sent, h.running, ?_, h.located, ?_, h.replied,
    h.ended, ?_, h.serverRuns, hawake⟩
  · intro msg hmsg
    exact h.returned msg (hitems ▸ hmsg)
  · intro uid
    have hanswered := h.answered uid
    unfold returning at hanswered ⊢
    rw [← hitems] at hanswered
    exact hanswered
  · intro uid huid
    apply h.pending
    unfold sentUids returning at huid ⊢
    rw [← hitems]
    exact huid

/-- **Step lemma: a reply goes from the queue to the socket.** -/
theorem Inv.serverSend (h : s.Inv codec) : s.serverSend.Inv codec := by
  have hawake := h.awake.get
  unfold MessageQueue.serverSend
  match hget : s.server.outputQueue.get with
  | (none, outputQueue) =>
    rw [hget] at hawake
    simp only [Option.toList_none, List.append_nil]
    exact h.setOutputQueue (NotifiedQueue.items_of_get_none _ hget) hawake
  | (some frames, outputQueue) =>
    rw [hget] at hawake
    have hitems := NotifiedQueue.items_of_get _ hget
    dsimp only
    rw [Option.toList_some]
    refine ⟨h.counter, h.numbered, h.queued, h.sent, h.running, ?_, h.located, ?_, h.replied,
      h.ended, ?_, h.serverRuns, hawake⟩
    · intro msg hmsg
      apply h.returned
      rw [hitems]
      simp only [List.mem_append, List.mem_cons] at hmsg ⊢
      tauto
    · intro uid
      have hanswered := h.answered uid
      unfold returning at hanswered ⊢
      rw [hitems, List.map_cons, List.count_append, count_cons_eq] at hanswered
      simp only [List.map_append, List.map_cons, List.map_nil, List.count_append]
      omega
    · intro uid huid
      apply h.pending
      unfold sentUids returning at huid ⊢
      rw [hitems]
      simp only [List.map_append, List.map_cons, List.map_nil, List.mem_append, List.mem_cons,
        List.not_mem_nil, or_false] at huid ⊢
      tauto

/-! ## Runs -/

/-- The invariant, until the client's main loop ends. -/
def RunInv (codec : Codec Val Frame) (s : MessageQueue Val Frame) : Prop :=
  s.client.ended = true ∨ s.Inv codec

/-- A main loop that has ended does not start again. -/
theorem ended_step (h : s.client.ended = true) (e : MQEvent Val) :
    (s.step codec e).client.ended = true := by
  match e with
  | .submitRequest requestType requestPayloads => exact h
  | .notifyTask => exact h
  | .clientWake | .clientSend =>
    unfold step
    dsimp only
    rw [if_pos h]
    exact h
  | .clientReceive =>
    unfold step
    dsimp only
    split
    · exact h
    · rw [if_pos (.inl h)]
      exact h
  | .serverReceive outcome =>
    unfold step
    dsimp only
    split
    · exact h
    · split
      · exact h
      · unfold MessageQueue.receive MessageQueue.callHandler MessageQueue.callSyncHandler
          MessageQueue.callBlockingHandler refuse
        dsimp only
        repeat' split
        all_goals exact h
  | .handlerDone i outcome =>
    unfold step
    dsimp only
    split
    · exact h
    · unfold MessageQueue.notifyResponse
      dsimp only
      split <;> exact h
  | .notifyOutput => exact h
  | .serverWake | .serverSend =>
    unfold step
    dsimp only
    split <;> exact h

/-- **Step lemma.** -/
theorem runInv_step (s : MessageQueue Val Frame) (e : MQEvent Val) (h : s.RunInv codec) :
    (s.step codec e).RunInv codec := by
  rcases h with hended | h
  · exact .inl (ended_step hended e)
  match e with
  | .submitRequest requestType requestPayloads =>
    exact .inr (h.submitRequest requestType requestPayloads)
  | .notifyTask => exact .inr (h.setInputQueue (NotifiedQueue.items_notify _))
  | .clientWake =>
    unfold step
    dsimp only
    split
    · exact .inr h
    · exact .inr (h.setInputQueue (NotifiedQueue.items_wake _))
  | .clientSend =>
    unfold step
    dsimp only
    split
    · exact .inr h
    · exact h.clientSend
  | .clientReceive =>
    unfold step
    dsimp only
    split
    · exact .inr h
    · rename_i msg toClient hclient
      split
      · exact .inr h
      · exact h.clientReceive hclient
  | .serverReceive outcome =>
    unfold step
    dsimp only
    split
    · exact .inr h
    · rename_i msg toServer hserver
      split
      · exact .inr h
      · exact .inr (h.receive hserver outcome)
  | .handlerDone i outcome =>
    unfold step
    dsimp only
    split
    · exact .inr h
    · rename_i task htask
      exact .inr (h.notifyResponse outcome htask)
  | .notifyOutput =>
    exact .inr (h.setOutputQueue (NotifiedQueue.items_notify _) h.awake.notify)
  | .serverWake =>
    unfold step
    dsimp only
    split
    · exact .inr h
    · exact .inr (h.setOutputQueue (NotifiedQueue.items_wake _) h.awake.wake)
  | .serverSend =>
    unfold step
    dsimp only
    split
    · exact .inr h
    · exact .inr h.serverSend

/-- With the property, the invariant holds itself. -/
theorem RunInv.inv (h : s.RunInv codec) (hs : s.AnswersEach) : s.Inv codec := by
  rcases h with hended | h
  · cases hs.clientRuns.symm.trans hended
  · exact h

/-- **The exact step lemma.** -/
theorem answersEach_step (s : MessageQueue Val Frame) (e : MQEvent Val) (h : s.RunInv codec)
    (hs : s.AnswersEach) : (s.step codec e).AnswersEach ↔ s.Answerable codec e := by
  have h := h.inv hs
  have hclient : ¬ s.client.ended = true := by simp [hs.clientRuns]
  have hserver : ¬ s.server.ended = true := by simp [hs.serverRuns]
  match e with
  | .submitRequest requestType requestPayloads =>
    refine iff_of_true ?_ trivial
    exact answersEach_of_same (h.submitRequest requestType requestPayloads) hs hs.clientRuns
      (List.subset_append_left _ _) rfl rfl rfl rfl rfl
  | .notifyTask =>
    refine iff_of_true ?_ trivial
    exact answersEach_of_same (h.setInputQueue (NotifiedQueue.items_notify _)) hs hs.clientRuns
      (List.Subset.refl _) rfl rfl rfl rfl rfl
  | .clientWake =>
    refine iff_of_true ?_ trivial
    unfold step
    dsimp only
    rw [if_neg hclient]
    exact answersEach_of_same (h.setInputQueue (NotifiedQueue.items_wake _)) hs hs.clientRuns
      (List.Subset.refl _) rfl rfl rfl rfl rfl
  | .clientSend =>
    unfold step Answerable
    dsimp only
    rw [if_neg hclient]
    exact answersEach_clientSend h hs
  | .clientReceive =>
    unfold step Answerable
    dsimp only
    match hmsgs : s.toClient with
    | [] => exact iff_of_true hs (fun _ _ hhead => nomatch hhead)
    | msg :: toClient =>
      dsimp only [List.head?_cons]
      by_cases hdraining : s.client.inputQueue.draining = true
      · rw [if_pos (.inr hdraining)]
        exact iff_of_true hs fun hnot => by simp [hdraining] at hnot
      · rw [if_neg (not_or.mpr ⟨hclient, hdraining⟩), answersEach_clientReceive h hs hmsgs]
        simp [hdraining]
  | .serverReceive outcome =>
    unfold step Answerable
    dsimp only
    match hmsgs : s.toServer with
    | [] => exact iff_of_true hs (fun _ _ hhead => nomatch hhead)
    | msg :: toServer =>
      dsimp only [List.head?_cons]
      by_cases hdraining : s.server.outputQueue.draining = true
      · rw [if_pos (.inr hdraining)]
        exact iff_of_true hs fun hnot => by simp [hdraining] at hnot
      · rw [if_neg (not_or.mpr ⟨hserver, hdraining⟩), answersEach_receive h hs hmsgs]
        simp [hdraining]
  | .handlerDone i outcome =>
    unfold step Answerable
    dsimp only
    match htask : s.server.tasks[i]? with
    | none => exact iff_of_true hs nofun
    | some task =>
      dsimp only
      rw [answersEach_notifyResponse outcome h hs htask]
      exact ⟨by rintro hreturns _ ⟨⟩; exact hreturns, fun hall => hall task rfl⟩
  | .notifyOutput =>
    refine iff_of_true ?_ trivial
    exact answersEach_of_same (h.setOutputQueue (NotifiedQueue.items_notify _) h.awake.notify) hs
      hs.clientRuns (List.Subset.refl _) rfl rfl rfl rfl rfl
  | .serverWake =>
    refine iff_of_true ?_ trivial
    unfold step
    dsimp only
    rw [if_neg hserver]
    exact answersEach_of_same (h.setOutputQueue (NotifiedQueue.items_wake _) h.awake.wake) hs
      hs.clientRuns (List.Subset.refl _) rfl rfl rfl rfl rfl
  | .serverSend =>
    refine iff_of_true ?_ trivial
    unfold step
    dsimp only
    rw [if_neg hserver]
    exact answersEach_of_same h.serverSend hs hs.clientRuns (List.Subset.refl _) rfl rfl rfl rfl rfl

/-- A client and a server with these handlers, before any request. -/
def start (handlers : RequestType → Option RequestHandler) : MessageQueue Val Frame :=
  { server := { handlers } }

/-- Frames that are numbers. -/
def natCodec : Codec Nat Nat where
  encodeUid uid := .ok uid
  decodeUid frame := .ok frame
  decodeUid_encodeUid h := h.symm
  encodeType requestType := .ok requestType.ctorIdx
  decodeType frame :=
    match [RequestType.REGISTER_KV_CACHE, .UNREGISTER_KV_CACHE, .STORE, .RETRIEVE, .LOOKUP, .CLEAR,
      .GET_CHUNK_SIZE, .NOOP][frame]? with
    | some requestType => .ok requestType
    | none => .error (.valueError "Invalid enum value")
  decodeType_encodeType := by
    rintro (_ | _) _ ⟨⟩ <;> rfl
  encode object _ := .ok (object.getD 0)
  decode frame _ := .ok (some frame)

/-- One request, whose handler raises in the main loop of the server. -/
def raisingRun : List (MQEvent Nat) :=
  [.submitRequest .REGISTER_KV_CACHE [some 0, some 1], .notifyTask, .clientWake, .clientSend,
    .serverReceive (.error (.runtimeError "CUDA error: invalid resource handle"))]

end MessageQueue

end LMCache.Multiprocess
