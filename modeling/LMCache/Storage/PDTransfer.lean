/-
# LMCache.Storage.PDTransfer — where the sender's chunks go.

Source: `_get_remote_alloc_request`, `batched_submit_put_task` and `_allocate_and_put` of
`v1/storage_backend/pd_backend.py`, with `MemoryFormat.token_dim` of `v1/memory_management.py`.

The sender asks the receiver for a page for each of its keys.  The receiver skips the keys that it
has and answers with two lists: the indexes of the keys skipped and the pages of the others.  The
sender drops the chunks at these indexes and writes the others to the pages, in order.  That each
chunk gets to the page that is registered under its key rests on both loops going over the same
keys: `plan` is what they agree on.

Keys travel as strings, and the shape of the last chunk as the number of its tokens.  So a key that
is not read back from its string (see `LMCache.KeyString`) is registered as another or not at all,
and a last chunk that is shorter in some other dimension than `token_dim` gets the shape of a full
one.
-/
import LMCache.KeyString
import LMCache.Storage.PDBackend

namespace LMCache

namespace Memory.MemoryFormat

/-- `MemoryFormat.token_dim`. -/
def tokenDim : MemoryFormat → Nat
  | .KV_2LTD => 2
  | .KV_T2D => 1
  | .KV_2TD => 0
  | .BINARY => 0
  | .BINARY_BUFFER => 0
  | .KV_MLA_FMT => 2
  | .UNDEFINED => 0

end Memory.MemoryFormat

namespace Storage

open LMCache.Lib LMCache.Memory

/-! ## The messages -/

structure AllocRequest where
  keys : List String
  fmt : MemoryFormat
  shape : TorchSize
  dtype : String
  lastChunkToks : Nat
  deriving DecidableEq, Repr

structure AllocResponse where
  alreadySentIndexes : List Nat
  remoteIndexes : List Nat
  deriving DecidableEq, Repr

/-- Why a call does not come to its end: it raises, or it waits for ever. -/
inductive Stopped where
  | raised (e : PyError)
  | waiting
  deriving DecidableEq, Repr

/-! ## The receiver -/

namespace PDBackend

/-- `shape[token_dim] = num_alloc_tokens`. -/
def setDim (shape : TorchSize) (dim toks : Nat) : Except PyError TorchSize :=
  if dim < shape.length then .ok (shape.set dim toks)
  else .error (.indexError "list assignment index out of range")

/-- The loop of `_allocate_and_put` from an index on.  While there is no page it waits: `freeBlocks`
are the pages that there are, and behind them those that are freed in the meantime. -/
def allocateLoop (req : AllocRequest) (dtype : TorchDtype) : Nat → List String → TorchSize →
    PDBackend → PDBackend × Except Stopped AllocResponse
  | _, [], _, b => (b, .ok ⟨[], []⟩)
  | idx, keyStr :: rest, shape, b =>
    match CacheEngineKey.fromString keyStr with
    | .error e => (b, .error (.raised e))
    | .ok key =>
      match b.contains key true with
      | (b', true) =>
        ((allocateLoop req dtype (idx + 1) rest shape b').1,
          (allocateLoop req dtype (idx + 1) rest shape b').2.map fun resp =>
            { resp with alreadySentIndexes := idx :: resp.alreadySentIndexes })
      | (_, false) =>
        match if idx + 1 = req.keys.length then setDim shape req.fmt.tokenDim req.lastChunkToks
          else .ok shape with
        | .error e => (b, .error (.raised e))
        | .ok shape' =>
          match b.allocate shape' dtype req.fmt with
          | (_, none) => (b, .error .waiting)
          | (b', some page) =>
            ((allocateLoop req dtype (idx + 1) rest shape' (b'.put key page)).1,
              (allocateLoop req dtype (idx + 1) rest shape' (b'.put key page)).2.map fun resp =>
                { resp with remoteIndexes := page :: resp.remoteIndexes })

/-- `_allocate_and_put`. -/
def allocateAndPut (b : PDBackend) (req : AllocRequest) :
    PDBackend × Except Stopped AllocResponse :=
  match TorchDtype.ofStr.get? req.dtype with
  | none => (b, .error (.raised (.keyError req.dtype)))
  | some dtype => allocateLoop req dtype 0 req.keys req.shape b

end PDBackend

/-! ## The sender -/

/-- What a put reads of a memory object of the sender. -/
structure ChunkObj where
  shape : TorchSize
  dtype : TorchDtype
  fmt : MemoryFormat
  deriving DecidableEq, Repr

/-- The connection to the peer, as it turns out: `_ensure_peer_connection`, and the transfer
channel's `batched_write`. -/
structure PeerLink where
  connected : Except PyError Unit
  written : Except PyError Unit

/-- What a put has done when it ends, or stops. -/
structure Transfer where
  receiver : PDBackend
  /-- The index of an object and the page it was written to. -/
  writes : List (Nat × Nat)
  /-- The indexes of the objects whose extra reference was dropped, in order. -/
  dropped : List Nat
  ended : Except Stopped Unit

namespace PDBackend

/-- `_get_remote_alloc_request`. -/
def getRemoteAllocRequest (keys : List CacheEngineKey) (memoryObjs : List ChunkObj) :
    Except PyError AllocRequest :=
  match memoryObjs.head?, memoryObjs.getLast? with
  | some first, some last =>
    match last.shape[first.fmt.tokenDim]? with
    | some toks =>
      .ok ⟨keys.map CacheEngineKey.toString, first.fmt, first.shape, first.dtype.str, toks⟩
    | none => .error (.indexError "tuple index out of range")
  | _, _ => .error (.indexError indexMessage)

/-- `batched_submit_put_task` with the receiver at the other end.  A receiver that raises sends no
response, and the sender waits for it.  Objects and pages are paired in order. -/
def batchedSubmitPutTask (link : PeerLink) (keys : List CacheEngineKey) (memoryObjs : List ChunkObj)
    (b : PDBackend) : Transfer :=
  match link.connected with
  | .error e => ⟨b, [], [], .error (.raised e)⟩
  | .ok () =>
    match getRemoteAllocRequest keys memoryObjs with
    | .error e => ⟨b, [], [], .error (.raised e)⟩
    | .ok req =>
      match b.allocateAndPut req with
      | (b', .error _) => ⟨b', [], [], .error .waiting⟩
      | (b', .ok resp) =>
        let alreadySent := (List.range memoryObjs.length).filter (· ∈ resp.alreadySentIndexes)
        let toSend := (List.range memoryObjs.length).filter (· ∉ resp.alreadySentIndexes)
        if toSend = [] then ⟨b', [], alreadySent, .ok ()⟩
        else
          match link.written with
          | .error e => ⟨b', [], alreadySent, .error (.raised e)⟩
          | .ok () => ⟨b', toSend.zip resp.remoteIndexes, alreadySent ++ toSend, .ok ()⟩

end PDBackend

/-! ## Alignment -/

/-- **The transfer is aligned** with what the receiver registered: a chunk whose key was there
before is not written, and its page stays; any other is written to the page that is now registered
under its key, and nowhere else, and that page has its shape; no page that was in use is written;
and the extra reference of each chunk is dropped once. -/
structure Transfer.Aligned (t : Transfer) (keys : List CacheEngineKey) (memoryObjs : List ChunkObj)
    (b : PDBackend) : Prop where
  present : ∀ i key, keys[i]? = some key → ∀ page, b.data.get? key = some page →
    (∀ page', (i, page') ∉ t.writes) ∧ t.receiver.data.get? key = some page
  absent : ∀ i key obj, keys[i]? = some key → memoryObjs[i]? = some obj → key ∉ b.data →
    ∃ page, t.receiver.data.get? key = some page ∧
      (∀ page', (i, page') ∈ t.writes ↔ page' = page) ∧ (t.receiver.pages page).shape = obj.shape
  untouched : ∀ key page, b.data.get? key = some page → ∀ w ∈ t.writes, w.2 ≠ page
  dropped : ∀ i, i < memoryObjs.length → t.dropped.count i = 1

/-- A receiver: its keys were read from strings, and a free page is free once and not in use. -/
structure PDBackend.Receiving (b : PDBackend) : Prop where
  parsed : ∀ key ∈ b.data, key.Parseable
  free : b.freeBlocks.Nodup
  apart : ∀ key page, b.data.get? key = some page → page ∉ b.freeBlocks

/-- **When a transfer is aligned**: the peer can be reached; every key is read back from its string;
the last chunk, if it has to be sent, has the shape of the first with another number in the
dimension of its tokens; there is a page for each key that is not there; and the write succeeds, if
there is one. -/
structure Transferable (link : PeerLink) (keys : List CacheEngineKey) (memoryObjs : List ChunkObj)
    (b : PDBackend) : Prop where
  connected : link.connected = .ok ()
  parseable : ∀ key ∈ keys, key.Parseable
  tokens : ∀ first ∈ memoryObjs.head?, ∀ last ∈ memoryObjs.getLast?,
    ∃ toks, last.shape[first.fmt.tokenDim]? = some toks ∧
      ∀ key ∈ keys.getLast?, key ∉ b.data → last.shape = first.shape.set first.fmt.tokenDim toks
  pages : keys.countP (fun key => key ∉ b.data) ≤ b.freeBlocks.length
  written : (∃ key ∈ keys, key ∉ b.data) → link.written = .ok ()

/-! ## The plan of both loops -/

/-- Which index goes where: the keys that are not in `data`, in order, each with the next page. -/
def plan (data : Dict CacheEngineKey Nat) : Nat → List CacheEngineKey → List Nat →
    List (Nat × CacheEngineKey × Nat)
  | _, [], _ => []
  | idx, key :: keys, pages =>
    if key ∈ data then plan data (idx + 1) keys pages
    else
      match pages with
      | [] => []
      | page :: pages => (idx, key, page) :: plan data (idx + 1) keys pages

/-- Placing a key changes nothing for keys that do not include it. -/
theorem mem_set_of_notMem {data : Dict CacheEngineKey Nat} {keys : List CacheEngineKey}
    {key : CacheEngineKey} (h : key ∉ keys) (page : Nat) :
    ∀ k ∈ keys, k ∈ data.set key page ↔ k ∈ data := by
  intro k hk
  rw [Dict.mem_set]
  constructor
  · rintro (rfl | hin)
    · exact absurd hk h
    · exact hin
  · exact Or.inr

theorem countP_set_of_notMem {data : Dict CacheEngineKey Nat} {keys : List CacheEngineKey}
    {key : CacheEngineKey} (h : key ∉ keys) (page : Nat) :
    keys.countP (fun k => k ∉ data.set key page) = keys.countP (fun k => k ∉ data) := by
  refine List.countP_congr fun k hk => ?_
  simp only [decide_eq_true_eq]
  exact not_congr (mem_set_of_notMem h page k hk)

section plan

variable {data data' : Dict CacheEngineKey Nat} {idx : Nat} {keys : List CacheEngineKey}
  {pages : List Nat}

variable {key : CacheEngineKey} {e : Nat × CacheEngineKey × Nat}

theorem plan_cons_of_mem (h : key ∈ data) :
    plan data idx (key :: keys) pages = plan data (idx + 1) keys pages := by
  rw [plan.eq_def]
  exact if_pos h

theorem plan_cons_of_notMem (h : key ∉ data) (page : Nat) :
    plan data idx (key :: keys) (page :: pages) =
      (idx, key, page) :: plan data (idx + 1) keys pages := by
  rw [plan.eq_def]
  exact if_neg h

theorem plan_congr (h : ∀ key ∈ keys, key ∈ data ↔ key ∈ data') :
    plan data idx keys pages = plan data' idx keys pages := by
  induction keys generalizing idx pages with
  | nil => rfl
  | cons key keys ih =>
    have hrest : ∀ idx pages, plan data idx keys pages = plan data' idx keys pages := fun _ _ =>
      ih fun k hk => h k (List.mem_cons_of_mem _ hk)
    unfold plan
    by_cases hk : key ∈ data
    · rw [if_pos hk, if_pos ((h key (List.mem_cons_self ..)).mp hk), hrest]
    · rw [if_neg hk, if_neg fun hk' => hk ((h key (List.mem_cons_self ..)).mpr hk')]
      cases pages with
      | nil => rfl
      | cons page pages => exact congrArg _ (hrest _ _)

/-- An entry of the plan is for a key that is not there. -/
theorem of_mem_plan (h : e ∈ plan data idx keys pages) :
    idx ≤ e.1 ∧ keys[e.1 - idx]? = some e.2.1 ∧ e.2.1 ∉ data ∧ e.2.2 ∈ pages := by
  induction keys generalizing idx pages with
  | nil => cases h
  | cons key keys ih =>
    have hshift : ∀ {i}, idx + 1 ≤ i → (key :: keys)[i - idx]? = keys[i - (idx + 1)]? := by
      intro i hi
      rw [show i - idx = i - (idx + 1) + 1 by omega, List.getElem?_cons_succ]
    unfold plan at h
    by_cases hk : key ∈ data
    · rw [if_pos hk] at h
      obtain ⟨hle, hkey, hrest⟩ := ih h
      exact ⟨by omega, (hshift hle).trans hkey, hrest⟩
    · rw [if_neg hk] at h
      cases pages with
      | nil => cases h
      | cons page pages =>
        rcases List.mem_cons.mp h with rfl | h
        · refine ⟨le_refl _, ?_, hk, List.mem_cons_self ..⟩
          rw [Nat.sub_self]
          rfl
        · obtain ⟨hle, hkey, hnot, hpage⟩ := ih h
          exact ⟨by omega, (hshift hle).trans hkey, hnot, List.mem_cons_of_mem _ hpage⟩

/-- With enough pages every key that is not there has an entry. -/
theorem exists_mem_plan (idx : Nat) (hpages : keys.countP (fun key => key ∉ data) ≤ pages.length)
    {j : Nat} (hkey : keys[j]? = some key) (hnot : key ∉ data) :
    ∃ page, (idx + j, key, page) ∈ plan data idx keys pages := by
  induction keys generalizing idx pages j with
  | nil => cases hkey
  | cons k keys ih =>
    unfold plan
    by_cases hk : k ∈ data
    · rw [if_pos hk]
      rw [List.countP_cons_of_neg (by simpa using hk)] at hpages
      cases j with
      | zero =>
        cases hkey
        exact absurd hk hnot
      | succ j =>
        obtain ⟨page, hmem⟩ := ih (idx + 1) hpages hkey
        exact ⟨page, by rwa [show idx + (j + 1) = idx + 1 + j by omega]⟩
    · rw [if_neg hk]
      rw [List.countP_cons_of_pos (by simpa using hk)] at hpages
      cases pages with
      | nil => exact absurd hpages (by simp)
      | cons page pages =>
        cases j with
        | zero =>
          cases hkey
          exact ⟨page, List.mem_cons_self ..⟩
        | succ j =>
          obtain ⟨page', hmem⟩ := ih (idx + 1) (by simpa using hpages) hkey
          refine ⟨page', List.mem_cons_of_mem _ ?_⟩
          rwa [show idx + (j + 1) = idx + 1 + j by omega]

/-- An index has one entry. -/
theorem plan_unique {e' : Nat × CacheEngineKey × Nat} (h : e ∈ plan data idx keys pages)
    (h' : e' ∈ plan data idx keys pages) (hidx : e.1 = e'.1) : e = e' := by
  induction keys generalizing idx pages with
  | nil => cases h
  | cons key keys ih =>
    unfold plan at h h'
    by_cases hk : key ∈ data
    · rw [if_pos hk] at h h'
      exact ih h h'
    · rw [if_neg hk] at h h'
      cases pages with
      | nil => cases h
      | cons page pages =>
        -- the entries behind the first have higher indexes
        rcases List.mem_cons.mp h with rfl | h <;> rcases List.mem_cons.mp h' with rfl | h'
        · rfl
        · have hle : idx + 1 ≤ e'.1 := (of_mem_plan h').1
          have : idx = e'.1 := hidx
          omega
        · have hle : idx + 1 ≤ e.1 := (of_mem_plan h).1
          have : e.1 = idx := hidx
          omega
        · exact ih h h'

end plan

/-! ## The loop of the receiver -/

namespace PDBackend

variable {req : AllocRequest} {dtype : TorchDtype}

theorem ok_of_map_ok {α β ε : Type} {x : Except ε α} {f : α → β} {y : β} (h : x.map f = .ok y) :
    ∃ a, x = .ok a := by
  cases x with
  | error e => cases h
  | ok a => exact ⟨a, rfl⟩

theorem receiving_init (n : Nat) : (PDReceiver.init n).backend.Receiving where
  parsed := fun key h => absurd h (Dict.not_mem_empty key)
  free := List.nodup_range
  apart := fun _ _ h => (nomatch h)

/-- The loop keeps the pages apart, whatever becomes of it. -/
theorem receiving_allocateLoop {b : PDBackend} (hb : b.Receiving) (idx : Nat) (strs : List String)
    (shape : TorchSize) : (allocateLoop req dtype idx strs shape b).1.Receiving := by
  induction strs generalizing idx shape b with
  | nil => exact hb
  | cons keyStr rest ih =>
    unfold allocateLoop
    cases hread : CacheEngineKey.fromString keyStr with
    | error e => exact hb
    | ok key =>
      dsimp only
      unfold contains
      cases hk : b.data.get? key with
      | some page =>
        dsimp only
        rw [if_pos rfl]
        exact ih (b := b.setRefCount page _) ⟨hb.parsed, hb.free, hb.apart⟩ _ _
      | none =>
        dsimp only
        cases (if idx + 1 = req.keys.length then setDim shape req.fmt.tokenDim req.lastChunkToks
            else .ok shape : Except PyError TorchSize) with
        | error e => exact hb
        | ok shape' =>
          dsimp only
          unfold allocate
          cases hfree : b.freeBlocks with
          | nil => exact hb
          | cons page free =>
            obtain ⟨hpage, hnodup⟩ := List.nodup_cons.mp (hfree ▸ hb.free)
            refine ih ⟨?_, hnodup, ?_⟩ _ _
            · intro key' hkey'
              rcases (Dict.mem_set _ _ _ _).mp hkey' with rfl | hold
              · exact CacheEngineKey.parseable_of_fromString hread
              · exact hb.parsed key' hold
            · intro key' page' hkey'
              change (b.data.set key page).get? key' = some page' at hkey'
              rw [Dict.get?_set] at hkey'
              split at hkey'
              · cases hkey'
                exact hpage
              · intro hin
                exact hb.apart key' page' hkey' (hfree ▸ List.mem_cons_of_mem _ hin)

/-- **A request leaves the receiver in order.** -/
theorem receiving_allocateAndPut {b : PDBackend} (hb : b.Receiving) (req : AllocRequest) :
    (b.allocateAndPut req).1.Receiving := by
  unfold allocateAndPut
  split
  · exact hb
  · exact receiving_allocateLoop hb _ _ _

/-- The shape that the loop allocates for an index. -/
def shapeAt (req : AllocRequest) (idx : Nat) (shape : TorchSize) : TorchSize :=
  if idx + 1 = req.keys.length then shape.set req.fmt.tokenDim req.lastChunkToks else shape

theorem length_shapeAt (req : AllocRequest) (idx : Nat) (shape : TorchSize) :
    (shapeAt req idx shape).length = shape.length := by
  unfold shapeAt
  split
  · exact List.length_set ..
  · rfl

variable {key : CacheEngineKey} {idx page : Nat} {shape : TorchSize} {resp : AllocResponse}
  {b' : PDBackend}

variable {keys : List CacheEngineKey} {b : PDBackend}

/-- A key that is there is reserved once more, and skipped. -/
theorem allocateLoop_present (hparse : key.Parseable)
    (hk : b.data.get? key = some page) (idx : Nat) (rest : List String) (shape : TorchSize) :
    allocateLoop req dtype idx (key.toString :: rest) shape b =
      ((allocateLoop req dtype (idx + 1) rest shape
          (b.setRefCount page (b.refCount page + 1))).1,
        (allocateLoop req dtype (idx + 1) rest shape
          (b.setRefCount page (b.refCount page + 1))).2.map fun resp =>
            { resp with alreadySentIndexes := idx :: resp.alreadySentIndexes }) := by
  conv_lhs => unfold allocateLoop
  rw [CacheEngineKey.fromString_toString hparse]
  dsimp only
  unfold contains
  rw [hk]
  rfl

/-- The backend with a page taken for a key. -/
def placing (b : PDBackend) (key : CacheEngineKey) (page : Nat) (free : List Nat) (obj : PageObj) :
    PDBackend :=
  ⟨b.data.set key page, Function.update b.pages page obj, free⟩

/-- A key that is not there gets the next page. -/
theorem allocateLoop_absent (hparse : key.Parseable) (hk : b.data.get? key = none)
    (hdim : idx + 1 = req.keys.length → req.fmt.tokenDim < shape.length) {free : List Nat}
    (hfree : b.freeBlocks = page :: free) (rest : List String) :
    allocateLoop req dtype idx (key.toString :: rest) shape b =
      ((allocateLoop req dtype (idx + 1) rest (shapeAt req idx shape)
          (b.placing key page free ⟨shapeAt req idx shape, dtype, req.fmt, 1⟩)).1,
        (allocateLoop req dtype (idx + 1) rest (shapeAt req idx shape)
          (b.placing key page free ⟨shapeAt req idx shape, dtype, req.fmt, 1⟩)).2.map fun resp =>
            { resp with remoteIndexes := page :: resp.remoteIndexes }) := by
  have hshape : (if idx + 1 = req.keys.length then
      setDim shape req.fmt.tokenDim req.lastChunkToks else .ok shape) =
        Except.ok (shapeAt req idx shape) := by
    unfold shapeAt setDim
    by_cases hlast : idx + 1 = req.keys.length
    · rw [if_pos hlast, if_pos hlast, if_pos (hdim hlast)]
    · rw [if_neg hlast, if_neg hlast]
  conv_lhs => unfold allocateLoop
  rw [CacheEngineKey.fromString_toString hparse]
  dsimp only
  unfold contains
  rw [hk]
  dsimp only
  rw [hshape]
  dsimp only
  unfold allocate
  rw [hfree]
  rfl

/-- It is not answered when there is no page, or no such dimension. -/
theorem of_allocateLoop_absent (hparse : key.Parseable)
    (hk : b.data.get? key = none) {rest : List String}
    (h : (allocateLoop req dtype idx (key.toString :: rest) shape b).2 = .ok resp) :
    (idx + 1 = req.keys.length → req.fmt.tokenDim < shape.length) ∧ b.freeBlocks ≠ [] := by
  unfold allocateLoop at h
  rw [CacheEngineKey.fromString_toString hparse] at h
  dsimp only at h
  unfold contains at h
  rw [hk] at h
  dsimp only at h
  constructor
  · intro hlast
    by_contra hdim
    rw [if_pos hlast] at h
    unfold setDim at h
    rw [if_neg hdim] at h
    cases h
  · intro hfree
    unfold allocate at h
    rw [hfree] at h
    cases hshape : (if idx + 1 = req.keys.length then
        setDim shape req.fmt.tokenDim req.lastChunkToks else .ok shape : Except PyError TorchSize)
    with
    | error e =>
      rw [hshape] at h
      cases h
    | ok shape' =>
      rw [hshape] at h
      cases h

/-- What the loop has done when it answers. -/
structure Allocated (req : AllocRequest) (idx : Nat) (keys : List CacheEngineKey)
    (shape : TorchSize) (b b' : PDBackend) (resp : AllocResponse) : Prop where
  above : ∀ i ∈ resp.alreadySentIndexes, idx ≤ i
  toSend : (List.range' idx keys.length).filter (· ∉ resp.alreadySentIndexes) =
    (plan b.data idx keys b.freeBlocks).map Prod.fst
  pages : resp.remoteIndexes = (plan b.data idx keys b.freeBlocks).map fun e => e.2.2
  placed : ∀ e ∈ plan b.data idx keys b.freeBlocks, b'.data.get? e.2.1 = some e.2.2 ∧
    (b'.pages e.2.2).shape = shapeAt req e.1 shape
  kept : ∀ key page, b.data.get? key = some page → b'.data.get? key = some page
  elsewhere : ∀ page, page ∉ b.freeBlocks → (b'.pages page).shape = (b.pages page).shape

/-- A key that is there adds its index to those skipped. -/
theorem Allocated.skip {n : Nat}
    (hk : b.data.get? key = some page)
    (h : Allocated req (idx + 1) keys shape (b.setRefCount page n) b' resp) :
    Allocated req idx (key :: keys) shape b b'
      { resp with alreadySentIndexes := idx :: resp.alreadySentIndexes } := by
  have hplan : plan b.data idx (key :: keys) b.freeBlocks =
      plan b.data (idx + 1) keys b.freeBlocks :=
    plan_cons_of_mem (Dict.mem_iff_get?.mpr ⟨page, hk⟩)
  constructor
  case above =>
    intro i hi
    rcases List.mem_cons.mp hi with rfl | hi
    · exact le_refl _
    · exact (Nat.le_succ idx).trans (h.above i hi)
  case toSend =>
    rw [hplan, List.length_cons, List.range'_succ, List.filter_cons_of_neg (by simp)]
    refine Eq.trans (List.filter_congr ?_) h.toSend
    intro i hi
    have hle := (List.mem_range'_1.mp hi).1
    have hne : i ≠ idx := by omega
    simp [hne]
  case pages =>
    rw [hplan]
    exact h.pages
  case placed =>
    rw [hplan]
    exact h.placed
  case kept => exact h.kept
  case elsewhere =>
    intro page' hpage'
    rw [h.elsewhere page' hpage']
    by_cases heq : page' = page
    · subst heq
      simp [setRefCount]
    · simp [setRefCount, heq]

/-- A key that is not there adds its page. -/
theorem Allocated.place {free : List Nat}
    (hk : b.data.get? key = none) (hkey : key ∉ keys)
    (htotal : idx + 1 + keys.length = req.keys.length) (hb : b.freeBlocks = page :: free)
    (hpage : page ∉ free) (h : Allocated req (idx + 1) keys (shapeAt req idx shape)
      (b.placing key page free ⟨shapeAt req idx shape, dtype, req.fmt, 1⟩) b' resp) :
    Allocated req idx (key :: keys) shape b b'
      { resp with remoteIndexes := page :: resp.remoteIndexes } := by
  have hplan : plan b.data idx (key :: keys) (page :: free) =
      (idx, key, page) :: plan (b.data.set key page) (idx + 1) keys free := by
    rw [plan_cons_of_notMem (Dict.get?_eq_none.mp hk), plan_congr (mem_set_of_notMem hkey page)]
  constructor
  case above => exact fun i hi => (Nat.le_succ idx).trans (h.above i hi)
  case toSend =>
    have hnotin : idx ∉ resp.alreadySentIndexes := by
      intro hidx
      have hle := h.above idx hidx
      omega
    rw [hb, hplan, List.length_cons, List.range'_succ, List.map_cons,
      List.filter_cons_of_pos (by simpa using hnotin)]
    exact congrArg _ h.toSend
  case pages =>
    rw [hb, hplan, List.map_cons]
    exact congrArg _ h.pages
  case placed =>
    rw [hb, hplan]
    intro e he
    rcases List.mem_cons.mp he with rfl | he
    · refine ⟨h.kept key page ?_, ?_⟩
      · show (b.data.set key page).get? key = some page
        rw [Dict.get?_set, if_pos rfl]
      · rw [h.elsewhere page hpage]
        show (Function.update b.pages page _ page).shape = _
        rw [Function.update_self]
    · obtain ⟨hget, hshape⟩ := h.placed e he
      refine ⟨hget, hshape.trans ?_⟩
      -- the shape has changed only if there is nothing behind this key
      have hmore : idx + 1 ≠ req.keys.length := by
        intro hend
        have hnil : keys = [] := List.length_eq_zero_iff.mp (by omega)
        rw [hnil] at he
        cases he
      unfold shapeAt
      rw [if_neg hmore]
  case kept =>
    intro key' page' hkey'
    refine h.kept key' page' ?_
    show (b.data.set key page).get? key' = some page'
    rw [Dict.get?_set, if_neg (fun heq => by rw [heq, hk] at hkey'; cases hkey')]
    exact hkey'
  case elsewhere =>
    rw [hb]
    intro page' hpage'
    have hne : page' ≠ page := fun heq => hpage' (heq ▸ List.mem_cons_self ..)
    have hnotfree : page' ∉ free := fun hin => hpage' (List.mem_cons_of_mem _ hin)
    rw [h.elsewhere page' hnotfree]
    show (Function.update b.pages page _ page').shape = _
    rw [Function.update_of_ne hne]

/-- **The loop answers** when every key can be read, there are pages enough, and the last shape has
a dimension for its tokens. -/
theorem allocateLoop_spec (req : AllocRequest) (dtype : TorchDtype)
    (idx : Nat) (hparse : ∀ key ∈ keys, key.Parseable) (hkeys : keys.Nodup)
    (htotal : idx + keys.length = req.keys.length)
    (hpages : keys.countP (fun key => key ∉ b.data) ≤ b.freeBlocks.length)
    (hdim : ∀ key ∈ keys.getLast?, key ∉ b.data → req.fmt.tokenDim < shape.length)
    (hfree : b.freeBlocks.Nodup) :
    ∃ resp, (allocateLoop req dtype idx (keys.map CacheEngineKey.toString) shape b).2 = .ok resp ∧
      Allocated req idx keys shape b
        (allocateLoop req dtype idx (keys.map CacheEngineKey.toString) shape b).1 resp := by
  induction keys generalizing idx shape b with
  | nil =>
    exact ⟨⟨[], []⟩, rfl, fun i hi => (nomatch hi), rfl, rfl, fun e he => (nomatch he),
      fun _ _ h => h, fun _ _ => rfl⟩
  | cons key keys ih =>
    obtain ⟨hkey, hkeys⟩ := List.nodup_cons.mp hkeys
    have hparse' : ∀ k ∈ keys, k.Parseable := fun k hk => hparse k (List.mem_cons_of_mem _ hk)
    have htotal' : idx + 1 + keys.length = req.keys.length := by
      rw [List.length_cons] at htotal
      omega
    have hdim' : ∀ k ∈ keys.getLast?, k ∉ b.data → req.fmt.tokenDim < shape.length := by
      intro k hk
      refine hdim k ?_
      rw [List.getLast?_cons, Option.mem_def.mp hk]
      rfl
    rw [List.map_cons]
    cases hk : b.data.get? key with
    | some page =>
      have hin : key ∈ b.data := Dict.mem_iff_get?.mpr ⟨page, hk⟩
      rw [List.countP_cons_of_neg (by simpa using hin)] at hpages
      obtain ⟨resp, hresp, hall⟩ := ih (idx + 1)
        (b := b.setRefCount page (b.refCount page + 1)) hparse' hkeys htotal' hpages hdim' hfree
      rw [allocateLoop_present (hparse key (List.mem_cons_self ..)) hk, hresp]
      exact ⟨_, rfl, hall.skip hk⟩
    | none =>
      have hnot : key ∉ b.data := Dict.get?_eq_none.mp hk
      rw [List.countP_cons_of_pos (by simpa using hnot)] at hpages
      cases hb : b.freeBlocks with
      | nil =>
        rw [hb] at hpages
        exact absurd hpages (by simp)
      | cons page free =>
        have hlast : idx + 1 = req.keys.length → req.fmt.tokenDim < shape.length := by
          intro hlast
          have hnil : keys = [] := List.length_eq_zero_iff.mp (by omega)
          refine hdim key ?_ hnot
          rw [hnil]
          rfl
        obtain ⟨hpagefree, hfree'⟩ := List.nodup_cons.mp (hb ▸ hfree)
        have hcount : keys.countP (fun k => k ∉ b.data.set key page) ≤ free.length := by
          rw [hb, List.length_cons] at hpages
          rw [countP_set_of_notMem hkey]
          omega
        have hdim'' : ∀ k ∈ keys.getLast?, k ∉ b.data.set key page →
            req.fmt.tokenDim < (shapeAt req idx shape).length := by
          intro k hkin hknot
          rw [length_shapeAt]
          exact hdim' k hkin fun hold => hknot ((Dict.mem_set _ _ _ _).mpr (.inr hold))
        obtain ⟨resp, hresp, hall⟩ := ih (idx + 1)
          (b := b.placing key page free ⟨shapeAt req idx shape, dtype, req.fmt, 1⟩) hparse' hkeys
          htotal' hcount hdim'' hfree'
        rw [allocateLoop_absent (hparse key (List.mem_cons_self ..)) hk hlast hb, hresp]
        exact ⟨_, rfl, hall.place hk hkey htotal' hb hpagefree⟩

/-- **Only then.** -/
theorem room_of_answered
    (hparse : ∀ key ∈ keys, key.Parseable) (hkeys : keys.Nodup)
    (htotal : idx + keys.length = req.keys.length)
    (h : (allocateLoop req dtype idx (keys.map CacheEngineKey.toString) shape b).2 = .ok resp) :
    keys.countP (fun key => key ∉ b.data) ≤ b.freeBlocks.length ∧
      ∀ key ∈ keys.getLast?, key ∉ b.data → req.fmt.tokenDim < shape.length := by
  induction keys generalizing idx shape b resp with
  | nil => exact ⟨Nat.zero_le _, fun key hkey => (nomatch hkey)⟩
  | cons key keys ih =>
    obtain ⟨hkey, hkeys⟩ := List.nodup_cons.mp hkeys
    have hparse' : ∀ k ∈ keys, k.Parseable := fun k hk => hparse k (List.mem_cons_of_mem _ hk)
    have htotal' : idx + 1 + keys.length = req.keys.length := by
      rw [List.length_cons] at htotal
      omega
    rw [List.map_cons] at h
    cases hk : b.data.get? key with
    | some page =>
      have hin : key ∈ b.data := Dict.mem_iff_get?.mpr ⟨page, hk⟩
      rw [allocateLoop_present (hparse key (List.mem_cons_self ..)) hk] at h
      obtain ⟨resp', hresp'⟩ := ok_of_map_ok h
      obtain ⟨hcount, hlast⟩ := ih hparse' hkeys htotal' hresp'
      rw [List.countP_cons_of_neg (by simpa using hin)]
      refine ⟨hcount, ?_⟩
      intro k hkin hknot
      rw [List.getLast?_cons] at hkin
      cases hl : keys.getLast? with
      | none =>
        rw [hl] at hkin
        cases hkin
        exact absurd hin hknot
      | some last =>
        rw [hl] at hkin
        cases hkin
        exact hlast last hl hknot
    | none =>
      have hnot : key ∉ b.data := Dict.get?_eq_none.mp hk
      obtain ⟨hdim, hfree⟩ := of_allocateLoop_absent (hparse key (List.mem_cons_self ..)) hk h
      obtain ⟨page, free, hb⟩ := List.exists_cons_of_ne_nil hfree
      rw [allocateLoop_absent (hparse key (List.mem_cons_self ..)) hk hdim hb] at h
      obtain ⟨resp', hresp'⟩ := ok_of_map_ok h
      obtain ⟨hcount, hlast⟩ := ih hparse' hkeys htotal' hresp'
      refine ⟨?_, ?_⟩
      · rw [List.countP_cons_of_pos (by simpa using hnot), hb, List.length_cons]
        change keys.countP (fun k => k ∉ b.data.set key page) ≤ free.length at hcount
        rw [countP_set_of_notMem hkey] at hcount
        omega
      · intro k hkin hknot
        rw [List.getLast?_cons] at hkin
        cases hl : keys.getLast? with
        | none =>
          have hnil : keys = [] := List.getLast?_eq_none_iff.mp hl
          refine hdim ?_
          rw [← htotal', hnil]
          rfl
        | some last =>
          rw [hl] at hkin
          cases hkin
          have hmem : last ∈ keys := List.mem_of_getLast? hl
          have hlt := hlast last hl fun hin =>
            hknot ((mem_set_of_notMem hkey page last hmem).mp hin)
          rwa [length_shapeAt] at hlt

/-! ## The whole transfer -/

variable {link : PeerLink} {memoryObjs : List ChunkObj}

theorem exists_ofStr (d : TorchDtype) : ∃ d', TorchDtype.ofStr.get? d.str = some d' :=
  Option.isSome_iff_exists.mp (by cases d <;> decide +kernel)

/-- The objects that are dropped and those that are sent are all the objects. -/
theorem count_dropped (sent : List Nat) {n i : Nat} (hi : i < n) :
    ((List.range n).filter (· ∈ sent) ++ (List.range n).filter (· ∉ sent)).count i = 1 := by
  have hperm : ((List.range n).filter (· ∈ sent) ++ (List.range n).filter (· ∉ sent)).Perm
      (List.range n) := by
    have := List.filter_append_perm (fun i => decide (i ∈ sent)) (List.range n)
    simpa using this
  rw [hperm.count_eq]
  exact List.count_eq_one_of_mem List.nodup_range (List.mem_range.mpr hi)

/-- A receiver that answers is written to as planned, if the write succeeds. -/
theorem batchedSubmitPutTask_of_answered (hlen : keys.length = memoryObjs.length)
    (hconn : link.connected = .ok ()) (hreq : getRemoteAllocRequest keys memoryObjs = .ok req)
    (hans : b.allocateAndPut req = (b', .ok resp)) (hall : Allocated req 0 keys shape b b' resp)
    (hwritten : plan b.data 0 keys b.freeBlocks ≠ [] → link.written = .ok ()) :
    batchedSubmitPutTask link keys memoryObjs b =
      ⟨b', (plan b.data 0 keys b.freeBlocks).map fun e => (e.1, e.2.2),
        (List.range memoryObjs.length).filter (· ∈ resp.alreadySentIndexes) ++
          (List.range memoryObjs.length).filter (· ∉ resp.alreadySentIndexes), .ok ()⟩ := by
  have htoSend : (List.range memoryObjs.length).filter (· ∉ resp.alreadySentIndexes) =
      (plan b.data 0 keys b.freeBlocks).map Prod.fst := by
    rw [← hlen, List.range_eq_range']
    exact hall.toSend
  unfold batchedSubmitPutTask
  rw [hconn, hreq]
  dsimp only
  rw [hans]
  dsimp only
  rw [htoSend, hall.pages]
  cases hplan : plan b.data 0 keys b.freeBlocks with
  | nil =>
    rw [List.map_nil, if_pos rfl, List.append_nil]
    rfl
  | cons e es =>
    rw [if_neg (by simp), hwritten (by rw [hplan]; simp)]
    dsimp only
    rw [List.zip_map']

/-- **What follows the plan is aligned**, when the shapes that were allocated are those of the
objects. -/
theorem aligned_of_allocated (hall : Allocated req 0 keys shape b b' resp) (hb : b.Receiving)
    (hpages : keys.countP (fun key => key ∉ b.data) ≤ b.freeBlocks.length)
    (hshape : ∀ i key obj, keys[i]? = some key → memoryObjs[i]? = some obj → key ∉ b.data →
      shapeAt req i shape = obj.shape) (ended : Except Stopped Unit) :
    Transfer.Aligned ⟨b', (plan b.data 0 keys b.freeBlocks).map fun e => (e.1, e.2.2),
      (List.range memoryObjs.length).filter (· ∈ resp.alreadySentIndexes) ++
        (List.range memoryObjs.length).filter (· ∉ resp.alreadySentIndexes), ended⟩
      keys memoryObjs b := by
  constructor
  case present =>
    intro i key hkey page hpage
    refine ⟨?_, hall.kept key page hpage⟩
    intro page' hmem
    obtain ⟨e, he, heq⟩ := List.mem_map.mp hmem
    obtain ⟨-, hkey', hnot, -⟩ := of_mem_plan he
    have hi : e.1 = i := congrArg Prod.fst heq
    rw [hi, Nat.sub_zero, hkey] at hkey'
    cases hkey'
    exact hnot (Dict.mem_iff_get?.mpr ⟨page, hpage⟩)
  case absent =>
    intro i key obj hkey hobj hnot
    obtain ⟨page, hmem⟩ := exists_mem_plan 0 hpages hkey hnot
    rw [Nat.zero_add] at hmem
    obtain ⟨hget, hpageshape⟩ := hall.placed _ hmem
    refine ⟨page, hget, ?_, hpageshape.trans (hshape i key obj hkey hobj hnot)⟩
    intro page'
    constructor
    · intro hwrite
      obtain ⟨e, he, heq⟩ := List.mem_map.mp hwrite
      obtain ⟨hidx, hpage'⟩ := Prod.mk.inj heq
      rw [← hpage', plan_unique he hmem hidx]
    · rintro rfl
      exact List.mem_map.mpr ⟨_, hmem, rfl⟩
  case untouched =>
    intro key page hpage w hw heq
    obtain ⟨e, he, rfl⟩ := List.mem_map.mp hw
    exact hb.apart key page hpage (heq ▸ (of_mem_plan he).2.2.2)
  case dropped => exact fun i hi => count_dropped _ hi

/-- A request says the number of tokens of the last object. -/
theorem of_getRemoteAllocRequest (h : getRemoteAllocRequest keys memoryObjs = .ok req) :
    ∃ first last toks, memoryObjs.head? = some first ∧ memoryObjs.getLast? = some last ∧
      last.shape[first.fmt.tokenDim]? = some toks ∧
      req = ⟨keys.map CacheEngineKey.toString, first.fmt, first.shape, first.dtype.str, toks⟩ := by
  unfold getRemoteAllocRequest at h
  split at h
  · rename_i first last hfirst hlast
    split at h
    · rename_i toks htoks
      cases h
      exact ⟨first, last, toks, hfirst, hlast, htoks, rfl⟩
    · cases h
  · cases h

/-- The shape allocated for an index is that of its object, when the last one is as the request says
and the others are full. -/
theorem shapeAt_eq (hlen : keys.length = memoryObjs.length)
    (hfull : ∀ first ∈ memoryObjs.head?, ∀ obj ∈ memoryObjs.dropLast, obj.shape = first.shape)
    {first last : ChunkObj} {toks : Nat} (hfirst : memoryObjs.head? = some first)
    (hlast : memoryObjs.getLast? = some last)
    (hreq : req = ⟨keys.map CacheEngineKey.toString, first.fmt, first.shape, first.dtype.str, toks⟩)
    (htokens : ∀ key ∈ keys.getLast?, key ∉ b.data →
      last.shape = first.shape.set first.fmt.tokenDim toks) (i : Nat) (key : CacheEngineKey)
    (obj : ChunkObj) (hkey : keys[i]? = some key) (hobj : memoryObjs[i]? = some obj)
    (hnot : key ∉ b.data) : shapeAt req i first.shape = obj.shape := by
  have hi : i < memoryObjs.length := (List.getElem?_eq_some_iff.mp hobj).1
  have htotal : req.keys.length = memoryObjs.length := by
    rw [hreq, ← hlen]
    exact List.length_map _
  unfold shapeAt
  rw [htotal]
  by_cases hend : i + 1 = memoryObjs.length
  · rw [if_pos hend]
    have hlastobj : obj = last := by
      rw [List.getLast?_eq_getElem?, show memoryObjs.length - 1 = i by omega, hobj] at hlast
      exact Option.some.inj hlast
    have hlastkey : keys.getLast? = some key := by
      rw [List.getLast?_eq_getElem?, show keys.length - 1 = i by omega, hkey]
    rw [hlastobj, htokens key hlastkey hnot, hreq]
  · rw [if_neg hend]
    refine (hfull first hfirst obj ?_).symm
    refine List.mem_of_getElem? (i := i) ?_
    rw [List.getElem?_dropLast, if_pos (by omega), hobj]

/-- **A transfer is aligned** when it is transferable. -/
theorem aligned_of_transferable (hlen : keys.length = memoryObjs.length) (hkeys : keys.Nodup)
    (hfull : ∀ first ∈ memoryObjs.head?, ∀ obj ∈ memoryObjs.dropLast, obj.shape = first.shape)
    (hb : b.Receiving) (hne : keys ≠ []) (h : Transferable link keys memoryObjs b) :
    (batchedSubmitPutTask link keys memoryObjs b).Aligned keys memoryObjs b := by
  have hobjs : memoryObjs ≠ [] := by
    intro hnil
    rw [hnil, List.length_nil, List.length_eq_zero_iff] at hlen
    exact hne hlen
  have hfirst := List.head?_eq_some_head hobjs
  have hlast := List.getLast?_eq_some_getLast hobjs
  obtain ⟨toks, htoks, htokens⟩ := h.tokens _ hfirst _ hlast
  have hreq : getRemoteAllocRequest keys memoryObjs = .ok ⟨keys.map CacheEngineKey.toString,
      (memoryObjs.head hobjs).fmt, (memoryObjs.head hobjs).shape,
      (memoryObjs.head hobjs).dtype.str, toks⟩ := by
    unfold getRemoteAllocRequest
    rw [hfirst, hlast]
    dsimp only
    rw [htoks]
  have hdim : ∀ key ∈ keys.getLast?, key ∉ b.data →
      (memoryObjs.head hobjs).fmt.tokenDim < (memoryObjs.head hobjs).shape.length := by
    intro key hkey hnot
    have hlt := (List.getElem?_eq_some_iff.mp htoks).1
    rwa [htokens key hkey hnot, List.length_set] at hlt
  obtain ⟨dtype, hdtype⟩ := exists_ofStr (memoryObjs.head hobjs).dtype
  obtain ⟨resp, hresp, hall⟩ := allocateLoop_spec
    ⟨keys.map CacheEngineKey.toString, (memoryObjs.head hobjs).fmt,
      (memoryObjs.head hobjs).shape, (memoryObjs.head hobjs).dtype.str, toks⟩ dtype 0
    h.parseable hkeys (by simp) h.pages hdim hb.free
  have hans := batchedSubmitPutTask_of_answered hlen h.connected hreq (b := b)
    (by
      unfold allocateAndPut
      rw [hdtype]
      exact Prod.ext rfl hresp) hall
    (by
      intro hplan
      obtain ⟨e, he⟩ := List.exists_mem_of_ne_nil _ hplan
      obtain ⟨-, hkey, hnot, -⟩ := of_mem_plan he
      exact h.written ⟨e.2.1, List.mem_of_getElem? hkey, hnot⟩)
  rw [hans]
  exact aligned_of_allocated hall hb h.pages
    (shapeAt_eq hlen hfull hfirst hlast rfl htokens) _

/-- What is left undone when the call stops early: the first reference is not dropped. -/
theorem dropped_ne_nil_of_aligned {t : Transfer} (h : t.Aligned keys memoryObjs b)
    (hlen : keys.length = memoryObjs.length) (hne : keys ≠ []) : t.dropped ≠ [] := by
  intro hnil
  have hcount := h.dropped 0 (hlen ▸ List.length_pos_iff.mpr hne)
  rw [hnil] at hcount
  cases hcount

/-- The keys at the receiver after a transfer were read from strings. -/
theorem parseable_of_mem_receiver (hb : b.Receiving) :
    ∀ key ∈ (batchedSubmitPutTask link keys memoryObjs b).receiver.data, key.Parseable := by
  have hloop : ∀ req, ∀ key ∈ (b.allocateAndPut req).1.data, key.Parseable := fun req =>
    (receiving_allocateAndPut hb req).parsed
  unfold batchedSubmitPutTask
  split
  · exact hb.parsed
  · split
    · exact hb.parsed
    · rename_i req _
      split
      · rename_i b' e hans
        have hb' := hloop req
        rw [hans] at hb'
        exact hb'
      · rename_i b' resp hans
        have hb' := hloop req
        rw [hans] at hb'
        dsimp only
        split
        · exact hb'
        · split <;> exact hb'

/-- A transfer that drops a reference has come to an answer. -/
theorem answered_of_dropped
    (h : (batchedSubmitPutTask link keys memoryObjs b).dropped ≠ []) :
    link.connected = .ok () ∧ ∃ req resp, getRemoteAllocRequest keys memoryObjs = .ok req ∧
      (b.allocateAndPut req).2 = .ok resp := by
  unfold batchedSubmitPutTask at h
  split at h
  · exact absurd rfl h
  · rename_i hconn
    refine ⟨hconn, ?_⟩
    split at h
    · exact absurd rfl h
    · rename_i req hreq
      split at h
      · exact absurd rfl h
      · rename_i b' resp hans
        exact ⟨req, resp, hreq, congrArg Prod.snd hans⟩

/-- **Only a transferable one is.** -/
theorem transferable_of_aligned (hlen : keys.length = memoryObjs.length) (hkeys : keys.Nodup)
    (hb : b.Receiving) (hne : keys ≠ [])
    (h : (batchedSubmitPutTask link keys memoryObjs b).Aligned keys memoryObjs b) :
    Transferable link keys memoryObjs b := by
  obtain ⟨hconn, req, resp, hreq, hans⟩ :=
    answered_of_dropped (dropped_ne_nil_of_aligned h hlen hne)
  have hobj : ∀ (i : Nat) (key : CacheEngineKey), keys[i]? = some key →
      ∃ obj, memoryObjs[i]? = some obj := by
    intro i key hkey
    have hi := (List.getElem?_eq_some_iff.mp hkey).1
    exact ⟨_, List.getElem?_eq_getElem (hlen ▸ hi)⟩
  -- a key that is not read back from its string is not there in the end
  have hparse : ∀ key ∈ keys, key.Parseable := by
    intro key hkey
    by_cases hin : key ∈ b.data
    · exact hb.parsed key hin
    · obtain ⟨i, hi⟩ := List.mem_iff_getElem?.mp hkey
      obtain ⟨obj, hobj⟩ := hobj i key hi
      obtain ⟨page, hget, -⟩ := h.absent i key obj hi hobj hin
      exact parseable_of_mem_receiver hb key (Dict.mem_iff_get?.mpr ⟨page, hget⟩)
  obtain ⟨first, last, toks, hfirst, hlast, htoks, heq⟩ := of_getRemoteAllocRequest hreq
  have htotal : 0 + keys.length = req.keys.length := by simp [heq]
  obtain ⟨dtype, hdtype⟩ := exists_ofStr first.dtype
  have hloop : b.allocateAndPut req =
      allocateLoop req dtype 0 (keys.map CacheEngineKey.toString) first.shape b := by
    unfold allocateAndPut
    rw [heq]
    dsimp only
    rw [hdtype]
  rw [hloop] at hans
  obtain ⟨hpages, hdim⟩ := room_of_answered hparse hkeys htotal hans
  obtain ⟨resp', hresp', hall⟩ := allocateLoop_spec req dtype 0 hparse hkeys htotal hpages hdim
    hb.free
  have hanswer : b.allocateAndPut req =
      ((allocateLoop req dtype 0 (keys.map CacheEngineKey.toString) first.shape b).1,
        .ok resp') := by
    rw [hloop]
    exact Prod.ext rfl hresp'
  constructor
  case connected => exact hconn
  case parseable => exact hparse
  case pages => exact hpages
  case written =>
    rintro ⟨key, hkey, hnot⟩
    obtain ⟨j, hj⟩ := List.mem_iff_getElem?.mp hkey
    obtain ⟨page, hmem⟩ := exists_mem_plan 0 hpages hj hnot
    have htoSend : (List.range memoryObjs.length).filter (· ∉ resp'.alreadySentIndexes) =
        (plan b.data 0 keys b.freeBlocks).map Prod.fst := by
      rw [← hlen, List.range_eq_range']
      exact hall.toSend
    have hsend : 0 + j ∈ (List.range memoryObjs.length).filter
        (· ∉ resp'.alreadySentIndexes) := by
      rw [htoSend]
      exact List.mem_map.mpr ⟨_, hmem, rfl⟩
    cases hwritten : link.written with
    | ok u => rfl
    | error e =>
      -- the reference of this object would still be held
      have hcount := h.dropped (0 + j) (List.mem_range.mp (List.mem_filter.mp hsend).1)
      have hdropped : (batchedSubmitPutTask link keys memoryObjs b).dropped =
          (List.range memoryObjs.length).filter (· ∈ resp'.alreadySentIndexes) := by
        unfold batchedSubmitPutTask
        rw [hconn, hreq]
        dsimp only
        rw [hanswer]
        dsimp only
        rw [if_neg (List.ne_nil_of_mem hsend), hwritten]
      rw [hdropped, List.count_eq_zero_of_not_mem] at hcount
      · cases hcount
      · intro hin
        have hnotin := (List.mem_filter.mp hsend).2
        have hin' := (List.mem_filter.mp hin).2
        simp only [decide_eq_true_eq] at hnotin hin'
        exact hnotin hin'
  case tokens =>
    intro first' hfirst' last' hlast'
    cases hfirst.symm.trans hfirst'
    cases hlast.symm.trans hlast'
    refine ⟨toks, htoks, ?_⟩
    intro key hkey hnot
    have hpos : keys.length - 1 < keys.length := Nat.sub_lt (List.length_pos_iff.mpr hne) one_pos
    have hat : keys[keys.length - 1]? = some key := by
      rw [← List.getLast?_eq_getElem?]
      exact hkey
    have hlastat : memoryObjs[keys.length - 1]? = some last := by
      rw [hlen, ← List.getLast?_eq_getElem?]
      exact hlast
    obtain ⟨page, hget, -, hshape⟩ := h.absent _ key last hat hlastat hnot
    obtain ⟨page', hmem⟩ := exists_mem_plan 0 hpages hat hnot
    obtain ⟨hget', hshape'⟩ := hall.placed _ hmem
    have hreceiver : (batchedSubmitPutTask link keys memoryObjs b).receiver =
        (allocateLoop req dtype 0 (keys.map CacheEngineKey.toString) first.shape b).1 := by
      unfold batchedSubmitPutTask
      rw [hconn, hreq]
      dsimp only
      rw [hanswer]
      dsimp only
      split
      · rfl
      · split <;> rfl
    rw [hreceiver] at hget hshape
    cases hget.symm.trans hget'
    rw [← hshape]
    refine hshape'.trans ?_
    unfold shapeAt
    rw [if_pos (by omega), heq]

/-- A chunk of four tokens, and one of two. -/
def fullChunk : ChunkObj := ⟨[2, 1, 4, 8], .float16, .KV_2LTD⟩
def shortChunk : ChunkObj := ⟨[2, 1, 2, 8], .float16, .KV_2LTD⟩

/-- A peer that can be reached and written to. -/
def goodLink : PeerLink := ⟨.ok (), .ok ()⟩

/-- A new receiver with four pages. -/
def newReceiver : PDBackend := (PDReceiver.init 4).backend

-- the tokens of `KV_T2D` are in dimension 0, and `token_dim` says 1: the last page has a full shape
example :
    let full : ChunkObj := ⟨[4, 2, 8], .float16, .KV_T2D⟩
    let short : ChunkObj := ⟨[2, 2, 8], .float16, .KV_T2D⟩
    let keys := [CacheEngineKey.plainKey .float16 none, CacheEngineKey.plainKey .bfloat16 none]
    let t := batchedSubmitPutTask goodLink keys [full, short] newReceiver
    t.writes = [(0, 0), (1, 1)] ∧ (t.receiver.pages 1).shape = [4, 2, 8] := by decide +kernel

end PDBackend

end Storage

end LMCache
