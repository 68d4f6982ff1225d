/-
# LMCache.Storage.RedisConnector — two Redis keys for each object.

Source: `_put`, `_get`, `_exists` and `_batched_async_contains` of `RedisConnector` and
`RedisClusterConnector`; `_batched_put` and `_batched_get_non_blocking` gather some of these.

The bytes of an object are under one name and its metadata under another, and nothing makes the two
one: a put sets the bytes first and the metadata then, a get reads the metadata first and the bytes
then, and the server may drop either name at any time.  A get that finds the metadata alone deletes
it, with a permit of its own.  At most `maxConnections` commands are under way.

Puts of one name that carry different objects can be mixed by a get; puts that carry the same object
cannot.  An object does not change while it is put.
-/
import LMCache.Lib.CommandPool
import LMCache.Storage.FSConnector

namespace LMCache.Storage

open LMCache.Lib LMCache.Memory

namespace RedisConnector

/-! ## The names on the server -/

def metadataKey (keyStr : String) : String := keyStr ++ "metadata"

def kvKey (keyStr : String) : String := keyStr ++ "kv_bytes"

theorem append_right_cancel {s t suffix : String} (h : s ++ suffix = t ++ suffix) : s = t := by
  have htoList := congrArg String.toList h
  rw [String.toList_append, String.toList_append] at htoList
  exact String.toList_inj.mp (List.append_cancel_right htoList)

@[simp] theorem kvKey_inj {k k' : String} : kvKey k = kvKey k' ↔ k = k' :=
  ⟨append_right_cancel, congrArg kvKey⟩

@[simp] theorem metadataKey_inj {k k' : String} : metadataKey k = metadataKey k' ↔ k = k' :=
  ⟨append_right_cancel, congrArg metadataKey⟩

@[simp] theorem metadataKey_ne_kvKey (k k' : String) : metadataKey k ≠ kvKey k' := by
  intro h
  have hlast := congrArg (fun s => s.toList.getLast?) h
  simp [metadataKey, kvKey, String.toList_append, List.getLast?_append] at hlast

@[simp] theorem kvKey_ne_metadataKey (k k' : String) : kvKey k ≠ metadataKey k' :=
  (metadataKey_ne_kvKey k' k).symm

/-! ## Requests and commands -/

inductive Request where
  | put (keyStr : String) (memoryObj : FilledObj)
  | get (keyStr : String)
  | isThere (keyStr : String)
  | batchedAsyncContains (keyStrs : List String)

inductive Command where
  | setKv (keyStr : String) (kvBytes metadataBytes : List UInt8)
  | setMetadata (keyStr : String) (metadataBytes : List UInt8)
  | getMetadata (keyStr : String)
  | getKv (keyStr : String) (metadata : RemoteMetadata) (memoryObj : FilledObj)
  | deleteMetadata (keyStr : String)
  | existsMetadata (keyStr : String)
  | countMetadata (keyStr : String) (keyStrs : List String) (numHitCounts : Nat)

inductive Outcome where
  | stored
  | got (memoryObj : Option FilledObj)
  | found (b : Bool)
  | counted (numHitCounts : Nat)
  | raised (e : PyError)
  /-- A command failed. -/
  | failed
  deriving DecidableEq

/-- What new memory holds, and whether `allocate` finds any. -/
structure Allocator where
  junk : Nat → UInt8
  room : Bool

abbrev RedisServer := Dict String (List UInt8)

abbrev RedisRun := CommandPool RedisServer Request Command Outcome

abbrev RedisAction := PoolAction Request Allocator String

/-- The number of groups that `init_remote_metadata_info` was told. -/
abbrev NumGroups := Nat

/-- `max_connections`, the initial value of `sem`. -/
def maxConnections : Nat := 150

/-- `view[: metadata.length] = kv_bytes`. -/
def fill (metadata : RemoteMetadata) (memoryObj : FilledObj) (kvBytes : List UInt8) :
    Except PyError FilledObj :=
  if BufferSlice.clampBound memoryObj.rawData.length metadata.length = kvBytes.length then
    .ok { memoryObj with rawData := splice memoryObj.rawData 0 kvBytes }
  else .error
    (.valueError "memoryview assignment: lvalue and rvalue have different structures")

def filled : Except PyError FilledObj → Outcome
  | .error e => .raised e
  | .ok memoryObj => .got (some memoryObj)

/-- The first command of a coroutine. -/
def enter (n : NumGroups) : Request → Command ⊕ Outcome
  | .put keyStr memoryObj =>
    match (FSRemoteConnector.putMetadata memoryObj).serialize n with
    | .error e => .inr (.raised e)
    | .ok metadataBytes => .inl (.setKv keyStr memoryObj.rawData metadataBytes)
  | .get keyStr => .inl (.getMetadata keyStr)
  | .isThere keyStr => .inl (.existsMetadata keyStr)
  | .batchedAsyncContains [] => .inr (.counted 0)
  | .batchedAsyncContains (keyStr :: keyStrs) => .inl (.countMetadata keyStr keyStrs 0)

def serve (server : RedisServer) : Command → RedisServer
  | .setKv keyStr kvBytes _ => server.set (kvKey keyStr) kvBytes
  | .setMetadata keyStr metadataBytes => server.set (metadataKey keyStr) metadataBytes
  | .deleteMetadata keyStr => server.erase (metadataKey keyStr)
  | _ => server

/-- `_get`, from the metadata on. -/
def onMetadata (n : NumGroups) (keyStr : String) (metadataBytes : List UInt8) (a : Allocator) :
    Phase Command Outcome :=
  match RemoteMetadata.deserialize n metadataBytes with
  | .error e => .done (.raised e)
  | .ok metadata =>
    match localAllocate a.junk (metadata.shapes.map (List.map Int.toNat)) metadata.dtypes
        metadata.fmt with
    | .error e => .done (.raised e)
    | .ok memoryObj =>
      if a.room then .holding (.getKv keyStr metadata memoryObj) else .done (.got none)

def proceed (n : NumGroups) (server : RedisServer) : Command → Allocator → Phase Command Outcome
  | .setKv keyStr _ metadataBytes, _ => .holding (.setMetadata keyStr metadataBytes)
  | .setMetadata _ _, _ => .done .stored
  | .getMetadata keyStr, a =>
    match server.get? (metadataKey keyStr) with
    | none => .done (.got none)
    | some metadataBytes => onMetadata n keyStr metadataBytes a
  | .getKv keyStr metadata memoryObj, _ =>
    match server.get? (kvKey keyStr) with
    -- the memory that was allocated for the object is kept
    | none => .waiting (.deleteMetadata keyStr)
    | some kvBytes =>
      .done (filled (fill metadata memoryObj kvBytes))
  | .deleteMetadata _, _ => .done (.got none)
  | .existsMetadata keyStr, _ => .done (.found (metadataKey keyStr ∈ server))
  | .countMetadata keyStr keyStrs numHitCounts, _ =>
    if metadataKey keyStr ∈ server then
      match keyStrs with
      | [] => .done (.counted (numHitCounts + 1))
      | next :: rest => .waiting (.countMetadata next rest (numHitCounts + 1))
    else .done (.counted numHitCounts)

def programs (n : NumGroups) :
    Programs RedisServer Request Command Outcome Allocator String where
  enter := enter n
  serve := serve
  proceed := proceed n
  failed := .failed
  disturb := Dict.erase

def initial : RedisRun := ⟨Dict.empty, maxConnections, []⟩

/-! ## Connections -/

/-- The commands that a coroutine sends at most, from one on. -/
def commandsLeft : Command → Nat
  | .setKv _ _ _ => 2
  | .getMetadata _ => 3
  | .getKv _ _ _ => 2
  | .countMetadata _ keyStrs _ => keyStrs.length + 1
  | _ => 1

theorem ends (n : NumGroups) : (programs n).Ends commandsLeft := by
  have hnext (server : RedisServer) (c c' : Command) (a : Allocator)
      (h : proceed n server c a = .waiting c' ∨ proceed n server c a = .holding c') :
      commandsLeft c' < commandsLeft c := by
    cases c <;> simp only [proceed, onMetadata] at h <;>
      (repeat' split at h) <;> simp at h <;> (try subst h) <;> simp [commandsLeft]
  exact ⟨fun c => by cases c <;> simp [commandsLeft],
    fun h => hnext _ _ _ _ (.inl h), fun h => hnext _ _ _ _ (.inr h)⟩

/-- **There are never more commands under way than connections, and no coroutine waits for ever**:
whatever was asked for and whatever failed, all of them can still come to an end. -/
theorem connections_bounded (n : NumGroups) (schedule : List RedisAction) (a : Allocator) :
    Always (programs n).step (fun s => Programs.held s ≤ maxConnections) initial schedule ∧
    ∃ rest : List RedisAction, (∀ r, .start r ∉ rest) ∧
      ∀ t ∈ (run (programs n).step (run (programs n).step initial schedule) rest).tasks,
        t.phase.isDone = true := by
  have hpermits : Always (programs n).step (fun s => s.permits + Programs.held s = maxConnections)
      initial schedule :=
    always_of_step (P := fun s => s.permits + Programs.held s = maxConnections)
      (fun s i h => (Programs.permits_add_held (p := programs n) s i).trans h) rfl schedule
  refine ⟨hpermits.mono fun s h => by omega, ?_⟩
  obtain ⟨rest, hrest, hdone⟩ := (ends n).exists_drain a (run (programs n).step initial schedule)
    (by rw [hpermits.last]; decide)
  refine ⟨rest, fun r hr => ?_, hdone⟩
  obtain ⟨i, m, -, h⟩ := hrest _ hr
  cases h

/-! ## What is read was put -/

/-- A command belongs to a request, and what it carries was put. -/
inductive Belongs (n : NumGroups) (asked : Request → Prop) : Request → Command → Prop where
  | setKv {k : String} {o : FilledObj} {bs : List UInt8} :
      (FSRemoteConnector.putMetadata o).serialize n = .ok bs →
      Belongs n asked (.put k o) (.setKv k o.rawData bs)
  | setMetadata {k : String} {o : FilledObj} {bs : List UInt8} :
      (FSRemoteConnector.putMetadata o).serialize n = .ok bs →
      Belongs n asked (.put k o) (.setMetadata k bs)
  | getMetadata {k : String} : Belongs n asked (.get k) (.getMetadata k)
  | getKv {k : String} {o r : FilledObj} {junk : Nat → UInt8} : asked (.put k o) →
      localAllocate junk o.shapes (o.dtypes.map some) o.fmt = .ok r →
      Belongs n asked (.get k) (.getKv k (FSRemoteConnector.putMetadata o) r)
  | deleteMetadata {k : String} : Belongs n asked (.get k) (.deleteMetadata k)
  | existsMetadata {k : String} : Belongs n asked (.isThere k) (.existsMetadata k)
  | countMetadata {ks : List String} {k : String} {rest : List String} {i : Nat} :
      Belongs n asked (.batchedAsyncContains ks) (.countMetadata k rest i)

/-- How a get can end: with nothing, or with the bytes of one object that was put in memory that was
allocated for another. -/
inductive GetEnds (asked : Request → Prop) (k : String) : Outcome → Prop where
  | nothing : GetEnds asked k (.got none)
  | failed : GetEnds asked k .failed
  | allocate {o : FilledObj} {junk : Nat → UInt8} {e : PyError} : asked (.put k o) →
      localAllocate junk o.shapes (o.dtypes.map some) o.fmt = .error e →
      GetEnds asked k (.raised e)
  | mixed {o o' r : FilledObj} {junk : Nat → UInt8} : asked (.put k o) → asked (.put k o') →
      localAllocate junk o.shapes (o.dtypes.map some) o.fmt = .ok r →
      GetEnds asked k (filled (fill (FSRemoteConnector.putMetadata o) r o'.rawData))

/-- What the server has was put there. -/
structure FromPuts (n : NumGroups) (asked : Request → Prop) (server : RedisServer) : Prop where
  kv : ∀ {k bs}, server.get? (kvKey k) = some bs → ∃ o, asked (.put k o) ∧ o.rawData = bs
  metadata : ∀ {k bs}, server.get? (metadataKey k) = some bs →
    ∃ o, asked (.put k o) ∧ (FSRemoteConnector.putMetadata o).serialize n = .ok bs

def Consistent (n : NumGroups) (asked : Request → Prop) (r : Request) :
    Phase Command Outcome → Prop
  | .waiting c => Belongs n asked r c
  | .holding c => Belongs n asked r c
  | .done out => ∀ k, r = .get k → GetEnds asked k out

variable {n : NumGroups} {asked asked' : Request → Prop} {server : RedisServer} {r : Request}

theorem Consistent.mono (hmono : ∀ r, asked r → asked' r) {phase : Phase Command Outcome}
    (h : Consistent n asked r phase) : Consistent n asked' r phase := by
  have hbelongs {c : Command} (h : Belongs n asked r c) : Belongs n asked' r c := by
    cases h with
    | getKv hasked hallocate => exact .getKv (hmono _ hasked) hallocate
    | setKv hbs => exact .setKv hbs
    | setMetadata hbs => exact .setMetadata hbs
    | getMetadata => exact .getMetadata
    | deleteMetadata => exact .deleteMetadata
    | existsMetadata => exact .existsMetadata
    | countMetadata => exact .countMetadata
  cases phase with
  | waiting c => exact hbelongs h
  | holding c => exact hbelongs h
  | done out =>
    intro k hk
    cases h k hk with
    | nothing => exact .nothing
    | failed => exact .failed
    | allocate ho herror => exact .allocate (hmono _ ho) herror
    | mixed ho ho' hr => exact .mixed (hmono _ ho) (hmono _ ho') hr

theorem consistent_start (n : NumGroups) (asked : Request → Prop) (r : Request) :
    Consistent n asked r ((programs n).start r) := by
  unfold Programs.start
  cases r with
  | put k o =>
    simp only [programs, enter]
    split
    next c h =>
      split at h
      · cases h
      next bs hbs =>
        cases h
        exact .setKv hbs
    next => exact fun k hk => by cases hk
  | get k => exact Belongs.getMetadata
  | isThere k => exact Belongs.existsMetadata
  | batchedAsyncContains ks =>
    cases ks with
    | nil => exact fun k hk => by cases hk
    | cons k ks => exact Belongs.countMetadata

/-- Metadata that was put is read, and memory is allocated for it. -/
theorem consistent_onMetadata {k : String} {o : FilledObj} (ho : asked (.put k o))
    {bs : List UInt8} (hbs : (FSRemoteConnector.putMetadata o).serialize n = .ok bs)
    (a : Allocator) : Consistent n asked (.get k) (onMetadata n k bs a) := by
  have hread : RemoteMetadata.deserialize n bs = .ok (FSRemoteConnector.putMetadata o) := by
    simpa using RemoteMetadata.deserialize_serialize hbs []
  have hshapes : (FSRemoteConnector.putMetadata o).shapes.map (List.map Int.toNat) = o.shapes := by
    simp [FSRemoteConnector.putMetadata, List.map_map, Function.comp_def]
  unfold onMetadata
  simp only [hread, hshapes]
  show Consistent n asked (.get k) (match localAllocate a.junk o.shapes (o.dtypes.map some) o.fmt with
    | .error e => .done (.raised e)
    | .ok memoryObj => _)
  cases hallocate : localAllocate a.junk o.shapes (o.dtypes.map some) o.fmt with
  | error e =>
    intro k' hk
    cases hk
    exact .allocate ho hallocate
  | ok memoryObj =>
    dsimp only
    split
    · exact Belongs.getKv ho hallocate
    · intro k' hk
      cases hk
      exact .nothing

theorem FromPuts.erase (h : FromPuts n asked server) (name : String) :
    FromPuts n asked (server.erase name) := by
  refine ⟨fun {k bs} hget => ?_, fun {k bs} hget => ?_⟩
  all_goals
    rw [Dict.get?_erase] at hget
    split at hget
    · cases hget
  · exact h.kv hget
  · exact h.metadata hget

variable {c : Command}

theorem FromPuts.serve (h : FromPuts n asked server) (hasked : asked r)
    (hc : Belongs n asked r c) : FromPuts n asked (serve server c) := by
  cases hc with
  | @setKv k o bs _ =>
    refine ⟨fun {k' bs'} hget => ?_, fun {k' bs'} hget => ?_⟩
    · simp only [RedisConnector.serve, Dict.get?_set, kvKey_inj] at hget
      split at hget
      next heq =>
        cases hget
        exact ⟨o, heq ▸ hasked, rfl⟩
      next => exact h.kv hget
    · simp only [RedisConnector.serve, Dict.get?_set, metadataKey_ne_kvKey, if_false] at hget
      exact h.metadata hget
  | @setMetadata k o bs hbs =>
    refine ⟨fun {k' bs'} hget => ?_, fun {k' bs'} hget => ?_⟩
    · simp only [RedisConnector.serve, Dict.get?_set, kvKey_ne_metadataKey, if_false] at hget
      exact h.kv hget
    · simp only [RedisConnector.serve, Dict.get?_set, metadataKey_inj] at hget
      split at hget
      next heq =>
        cases hget
        exact ⟨o, heq ▸ hasked, hbs⟩
      next => exact h.metadata hget
  | deleteMetadata => exact h.erase _
  | getMetadata => exact h
  | getKv _ _ => exact h
  | existsMetadata => exact h
  | countMetadata => exact h

theorem consistent_proceed (h : FromPuts n asked server) (hc : Belongs n asked r c)
    (a : Allocator) : Consistent n asked r (proceed n server c a) := by
  cases hc with
  | setKv hbs => exact Belongs.setMetadata hbs
  | setMetadata _ => exact fun k hk => by cases hk
  | @getMetadata k =>
    simp only [proceed]
    split
    · intro k' hk
      cases hk
      exact .nothing
    next bs hbs =>
      obtain ⟨o, ho, hserialize⟩ := h.metadata hbs
      exact consistent_onMetadata ho hserialize a
  | @getKv k o memoryObj junk ho hallocate =>
    simp only [proceed]
    split
    · exact Belongs.deleteMetadata
    next bs hbs =>
      obtain ⟨o', ho', rfl⟩ := h.kv hbs
      intro k' hk
      cases hk
      exact .mixed ho ho' hallocate
  | deleteMetadata =>
    intro k' hk
    cases hk
    exact .nothing
  | existsMetadata => exact fun k hk => by cases hk
  | countMetadata =>
    simp only [proceed]
    split
    · split
      · exact fun k hk => by cases hk
      · exact Belongs.countMetadata
    · exact fun k hk => by cases hk

theorem sound_fromPuts (n : NumGroups) : (programs n).Sound (FromPuts n)
    (fun asked _ r phase => Consistent n asked r phase) fun _ _ => True where
  server_mono hmono h :=
    ⟨fun hget => (h.kv hget).imp fun _ ho => ⟨hmono _ ho.1, ho.2⟩,
      fun hget => (h.metadata hget).imp fun _ ho => ⟨hmono _ ho.1, ho.2⟩⟩
  task_mono hmono h := h.mono hmono
  start _ _ _ := consistent_start _ _ _
  acquire h := h
  failed _ _ _ := fun _ _ => .failed
  serve hasked h hc := h.serve hasked hc
  proceed a _ h hc := consistent_proceed h hc a
  others _ _ h := h
  disturb _ h := h.erase _
  others_disturb _ h := h

/-- Bytes that fill the memory. -/
theorem fill_eq {o : FilledObj} {metadata : RemoteMetadata} {buffer bs : List UInt8}
    (hmetadata : metadata.length = bs.length) (h : buffer.length = bs.length) :
    fill metadata { o with rawData := buffer } bs = .ok { o with rawData := bs } := by
  have hstop : BufferSlice.clampBound buffer.length metadata.length = bs.length := by
    rw [hmetadata, h, BufferSlice.clampBound, if_neg (by omega), Int.toNat_natCast, Nat.min_self]
  unfold fill
  rw [if_pos hstop, splice_of_length h.symm]

/-- The end of a get, when all that was put under its name is one chunk. -/
theorem GetEnds.of_one {k : String} {out : Outcome} (h : GetEnds asked k out) {chunk : TensorChunk}
    (hfmt : chunk.fmt ∈ MixedMemoryAllocator.pinFormats)
    (hone : ∀ o, asked (.put k o) → o = chunk.obj) :
    out = .got none ∨ out = .got (some chunk.obj) ∨ out = .failed := by
  have hallocate (junk : Nat → UInt8) := localAllocate_obj chunk hfmt junk
  cases h with
  | nothing => exact .inl rfl
  | failed => exact .inr (.inr rfl)
  | @allocate o junk e ho herror =>
    rw [hone o ho] at herror
    cases (hallocate junk).symm.trans herror
  | @mixed o o' r junk ho ho' hr =>
    rw [hone o ho] at hr ⊢
    rw [hone o' ho']
    cases (hallocate junk).symm.trans hr
    right
    left
    exact congrArg filled (fill_eq (o := chunk.obj) rfl (length_junk _ _))

/-- **A get returns what was put, whatever else is under way**: if all puts of a name carry one chunk
that the local backend can allocate, a get of the name ends with nothing, with that chunk, or with a
failed command, whichever commands fail, whatever the server drops and in whatever order it
serves them. -/
theorem get_returns_put (n : NumGroups) (schedule : List RedisAction) (k : String)
    (chunk : TensorChunk) (hfmt : chunk.fmt ∈ MixedMemoryAllocator.pinFormats)
    (hone : ∀ o, .start (.put k o) ∈ schedule → o = chunk.obj) :
    ∀ t ∈ (run (programs n).step initial schedule).tasks, t.request = .get k →
      ∀ out, t.phase = .done out →
        out = .got none ∨ out = .got (some chunk.obj) ∨ out = .failed := by
  intro t ht hget out hout
  have hempty : FromPuts n (Programs.Asked initial) initial.server :=
    ⟨fun h => absurd h (by simp [initial]), fun h => absurd h (by simp [initial])⟩
  have hholds := ((sound_fromPuts n).always ⟨hempty, fun t ht => absurd ht List.not_mem_nil⟩
    (Programs.guarded_of_calm schedule fun _ _ => trivial)).last
  have hends : Consistent n _ t.request t.phase := hholds.2 t ht
  rw [hout] at hends
  refine (hends k hget).of_one hfmt fun o ho => hone o ?_
  exact (Programs.asked_run ho).resolve_left fun h => h.elim fun _ h => absurd h.1 List.not_mem_nil

/-- A chunk of one byte. -/
def oneByte : TensorChunk where
  shape := [1, 1, 1, 1]
  shapes := []
  dtype := .uint8
  dtypes := []
  fmt := .KV_2LTD
  bytes := [1]
  length_eq := Eq.refl 0
  size_eq := rfl

/-- It is put and read at once. -/
def putAndGet : List RedisAction :=
  let answered : Move Allocator := .execute ⟨fun _ => 0, true⟩
  [.start (.put "k" oneByte.obj), .start (.get "k"), .task 0 .acquire, .task 0 answered,
    .task 1 .acquire, .task 0 answered, .task 1 answered, .task 1 answered]

theorem get_returns_put_oneByte :
    oneByte.fmt ∈ MixedMemoryAllocator.pinFormats ∧
    ∀ t ∈ (run (programs 1).step initial putAndGet).tasks, t.request = .get "k" →
      ∀ out, t.phase = .done out →
        out = .got none ∨ out = .got (some oneByte.obj) ∨ out = .failed :=
  ⟨by decide, get_returns_put 1 putAndGet "k" oneByte (by decide) (by simp [putAndGet])⟩

/-- Two chunks of one byte, put under one name: the bytes of the second are read as the first. -/
def tornRead : List RedisAction :=
  let chunk (fmt : MemoryFormat) (byte : UInt8) : FilledObj :=
    .tensor [1, 1, 1, 1] [] .uint8 [] fmt [byte]
  let answered : Move Allocator := .execute ⟨fun _ => 0, true⟩
  [.start (.put "k" (chunk .KV_2LTD 1)), .start (.put "k" (chunk .KV_T2D 2)), .start (.get "k"),
    .task 0 .acquire, .task 0 answered, .task 0 answered, .task 1 .acquire, .task 1 answered,
    .task 2 .acquire, .task 2 answered, .task 2 answered]

example : ((run (programs 1).step initial tornRead).tasks[2]?).map Task.phase =
    some (.done (.got (some (.tensor [1, 1, 1, 1] [] .uint8 [] .KV_2LTD [2])))) := by
  rfl

/-! ## Bytes before metadata -/

/-- What a command counts on, of the names of one object: from its metadata on the bytes are there.
-/
def Needs (k : String) (server : RedisServer) (r : Request) : Command → Prop
  | .setKv k' _ _ => ∃ o, r = .put k' o
  | .setMetadata k' _ => (∃ o, r = .put k' o) ∧ (k' = k → kvKey k ∈ server)
  | .getKv k' _ _ => k' = k → kvKey k ∈ server
  | .deleteMetadata k' => k' ≠ k
  | _ => True

/-- What a coroutine counts on; a put that is over, on the metadata too, if the server has `kept` it.
-/
def Relies (k : String) (kept : Prop) (server : RedisServer) (r : Request) :
    Phase Command Outcome → Prop
  | .waiting c => Needs k server r c
  | .holding c => Needs k server r c
  | .done out => kept → (∃ o, r = .put k o) → out = .stored → metadataKey k ∈ server

variable {k : String} {kept : Prop}

theorem kvKey_mem_serve (c : Command) (h : kvKey k ∈ server) : kvKey k ∈ serve server c := by
  cases c <;> simp [serve, h]

theorem metadataKey_mem_serve (hc : Needs k server r c)
    (h : metadataKey k ∈ server) : metadataKey k ∈ serve server c := by
  cases c with
  | deleteMetadata k' => simpa [serve, h] using Ne.symm hc
  | _ => simp [serve, h]

/-- What a coroutine counts on stays, as long as what is there stays. -/
theorem Relies.mono {server' : RedisServer} (hkv : kvKey k ∈ server → kvKey k ∈ server')
    (hmetadata : kept → metadataKey k ∈ server → metadataKey k ∈ server')
    {phase : Phase Command Outcome} (h : Relies k kept server r phase) :
    Relies k kept server' r phase := by
  have hneeds {c : Command} (h : Needs k server r c) : Needs k server' r c := by
    cases c with
    | setMetadata k' bs => exact ⟨h.1, fun hk => hkv (h.2 hk)⟩
    | getKv k' metadata memoryObj => exact fun hk => hkv (h hk)
    | _ => exact h
  cases phase with
  | waiting c => exact hneeds h
  | holding c => exact hneeds h
  | done out => exact fun hkept hr hout => hmetadata hkept (h hkept hr hout)

/-- After its metadata an object has its bytes. -/
theorem paired_serve (h : metadataKey k ∈ server → kvKey k ∈ server)
    (hc : Needs k server r c) (hmem : metadataKey k ∈ serve server c) :
    kvKey k ∈ serve server c := by
  cases c with
  | setMetadata k' bs =>
    rcases (Dict.mem_set _ _ _ _).mp hmem with hk | hmem
    · exact kvKey_mem_serve (.setMetadata k' bs) (hc.2 (metadataKey_inj.mp hk).symm)
    · exact kvKey_mem_serve (.setMetadata k' bs) (h hmem)
  | setKv k' bs _ =>
    refine kvKey_mem_serve (.setKv k' bs []) (h ?_)
    simpa [serve] using hmem
  | deleteMetadata k' =>
    exact kvKey_mem_serve (.deleteMetadata k') (h ((Dict.mem_erase _ _ _).mp hmem).2)
  | _ => exact h hmem

theorem filled_ne_stored (r : Except PyError FilledObj) : filled r ≠ .stored := by
  cases r <;> simp [filled]

theorem relies_proceed (h : metadataKey k ∈ server → kvKey k ∈ server)
    (hc : Needs k server r c) (a : Allocator) :
    Relies k kept (serve server c) r (proceed n server c a) := by
  cases c with
  | setKv k' bs bs' =>
    refine ⟨hc, fun hk => ?_⟩
    rw [hk]
    exact (Dict.mem_set _ _ _ _).mpr (.inl rfl)
  | setMetadata k' bs =>
    rintro - ⟨o, ho⟩ -
    obtain ⟨o', ho'⟩ := hc.1
    cases ho.symm.trans ho'
    exact (Dict.mem_set _ _ _ _).mpr (.inl rfl)
  | getMetadata k' =>
    simp only [proceed]
    split
    · exact fun _ _ h => by cases h
    next bs hbs =>
      -- the metadata is there, and so are the bytes
      have hkv (hk : k' = k) : kvKey k ∈ server :=
        h (hk ▸ Dict.mem_iff_get?.mpr ⟨bs, hbs⟩)
      unfold onMetadata
      split
      · exact fun _ _ h => by cases h
      · split
        · exact fun _ _ h => by cases h
        · split
          · exact hkv
          · exact fun _ _ h => by cases h
  | getKv k' metadata memoryObj =>
    simp only [proceed]
    split
    next hnone =>
      rintro rfl
      exact Dict.get?_eq_none.mp hnone (hc rfl)
    next bs hbs => exact fun _ _ h => absurd h (filled_ne_stored _)
  | deleteMetadata k' => exact fun _ _ h => by cases h
  | existsMetadata k' => exact fun _ _ h => by cases h
  | countMetadata k' ks i =>
    simp only [proceed]
    split
    · split
      · exact fun _ _ h => by cases h
      · trivial
    · exact fun _ _ h => by cases h

theorem relies_start (n : NumGroups) (server : RedisServer) (r : Request) :
    Relies k kept server r ((programs n).start r) := by
  unfold Programs.start
  cases r with
  | put k' o =>
    simp only [programs, enter]
    split
    next c h =>
      split at h
      · cases h
      · cases h
        exact ⟨o, rfl⟩
    next out h =>
      split at h
      · cases h
        exact fun _ _ h => by cases h
      · cases h
  | batchedAsyncContains ks =>
    cases ks with
    | nil => exact fun _ _ h => by cases h
    | cons k ks => trivial
  | _ => trivial

theorem sound_relies (n : NumGroups) (k : String) (kept : Prop) : (programs n).Sound
    (fun _ server => metadataKey k ∈ server → kvKey k ∈ server)
    (fun _ server r phase => Relies k kept server r phase)
    fun _ name => name ≠ kvKey k ∧ (kept → name ≠ metadataKey k) where
  server_mono _ h := h
  task_mono _ h := h
  start server _ _ := relies_start n server _
  acquire h := h
  failed _ _ _ := fun _ _ h => by cases h
  serve _ h hc := paired_serve h hc
  proceed a _ h hc := relies_proceed h hc a
  others _ hc h := h.mono (kvKey_mem_serve _) fun _ => metadataKey_mem_serve hc
  disturb hname h hmem := (Dict.mem_erase _ _ _).mpr
    ⟨hname.1.symm, h ((Dict.mem_erase _ _ _).mp hmem).2⟩
  others_disturb hname h := h.mono (fun hmem => (Dict.mem_erase _ _ _).mpr ⟨hname.1.symm, hmem⟩)
    fun hkept hmem => (Dict.mem_erase _ _ _).mpr ⟨(hname.2 hkept).symm, hmem⟩

/-- **Setting the bytes first avoids the race.**  As long as the server does not drop the bytes of an
object, they are there whenever its metadata is, and no get finds the metadata alone; and as long
as it does not drop the metadata either, a put that is over is seen by all that comes after it. -/
theorem bytes_before_metadata (n : NumGroups) (schedule : List RedisAction) (k : String)
    (hkv : .disturb (kvKey k) ∉ schedule) :
    Always (programs n).step (fun s => (metadataKey k ∈ s.server → kvKey k ∈ s.server) ∧
      (∀ t ∈ s.tasks, t.phase ≠ .waiting (.deleteMetadata k)) ∧
      (.disturb (metadataKey k) ∉ schedule → ∀ t ∈ s.tasks, (∃ o, t.request = .put k o) →
        t.phase = .done .stored → metadataKey k ∈ s.server ∧ kvKey k ∈ s.server))
      initial schedule := by
  have hstart : Programs.Holds (fun _ server => metadataKey k ∈ server → kvKey k ∈ server)
      (fun _ server r phase => Relies k (.disturb (metadataKey k) ∉ schedule) server r phase)
      initial :=
    ⟨fun h => absurd h List.not_mem_nil, fun t ht => absurd ht List.not_mem_nil⟩
  refine ((sound_relies n k _).always hstart (Programs.guarded_of_calm schedule ?_)).mono ?_
  · rintro name hname
    exact ⟨fun h => hkv (h ▸ hname), fun hkept h => hkept (h ▸ hname)⟩
  · rintro s ⟨hpaired, htasks⟩
    refine ⟨hpaired, fun t ht hphase => ?_, fun hkept t ht hr hphase => ?_⟩
    · have hneeds := htasks t ht
      rw [hphase] at hneeds
      exact hneeds rfl
    · have hrelies := htasks t ht
      rw [hphase] at hrelies
      exact ⟨hrelies hkept hr rfl, hpaired (hrelies hkept hr rfl)⟩

theorem bytes_before_metadata_putAndGet :
    Always (programs 1).step (fun s => (metadataKey "k" ∈ s.server → kvKey "k" ∈ s.server) ∧
      (∀ t ∈ s.tasks, t.phase ≠ .waiting (.deleteMetadata "k")) ∧
      (.disturb (metadataKey "k") ∉ putAndGet → ∀ t ∈ s.tasks,
        (∃ o, t.request = .put "k" o) → t.phase = .done .stored →
          metadataKey "k" ∈ s.server ∧ kvKey "k" ∈ s.server)) initial putAndGet :=
  bytes_before_metadata 1 putAndGet "k" (by simp [putAndGet])

end RedisConnector

end LMCache.Storage
