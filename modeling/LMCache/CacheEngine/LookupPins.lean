/-
# LMCache.CacheEngine.LookupPins — the pins of lookups, and what releases them.

Source: `v1/cache_engine.py` (`lookup` with `pin=True`, `lookup_unpin`),
`v1/storage_backend/storage_manager.py` (`batched_contains`, `batched_unpin`) and `contains`, `unpin`,
`remove` of the storage backends.

A lookup pins every object its `contains` checks hit, one lock section after the other, and afterwards
records *keys* under its lookup id.  `lookup_unpin` takes the record out and unpins whatever object is
cached under each key by then.  A thread is modelled by its position inside a lookup or an unpin, so
that puts and removes fall between any two checks; `clear` is a sequence of removes.

What a lookup touches is left out: the order of a cache decides nothing here.  So is the background
thread that takes back pins after a time limit.
-/
import LMCache.CacheEngineKey
import LMCache.Lib.Dict
import LMCache.Lib.Run
import LMCache.Memory.TensorAllocator

namespace LMCache

open LMCache.Lib LMCache.Memory

/-! ## The backends and their pins -/

/-- What `pin` and `unpin` do in a backend. -/
inductive PinKind where
  /-- `TensorMemoryObj`: a count below 0 is set back to 0. -/
  | memoryObj
  /-- `DiskCacheMetadata`: the count just goes down. -/
  | metadata
  /-- Nothing is pinned: the calls do nothing, or the manager does not ask for a pin. -/
  | ignored
  deriving DecidableEq, Repr

/-- A backend, as far as lookups see it: the keys it holds and the objects behind them. -/
structure PinTier where
  kind : PinKind
  cached : Dict CacheEngineKey Nat

/-- A pin a lookup took: in which backend, under which key, on which object. -/
structure PinToken where
  location : String
  key : CacheEngineKey
  obj : Nat
  deriving DecidableEq, Repr

/-- Where `lookup_unpin` will look for it. -/
def PinToken.place (t : PinToken) : String × CacheEngineKey := (t.location, t.key)

/-- Keys by location, as pairs. -/
def placesOf (mapping : Dict String (List CacheEngineKey)) : List (String × CacheEngineKey) :=
  mapping.entries.flatMap fun e => e.2.map fun key => (e.1, key)

/-- A running `StorageManager.batched_contains` with `pin=True`.  `taken` is for the statements. -/
structure BatchedContains where
  totalKeys : Nat
  totalHitChunks : Nat
  /-- The backends still to ask, the one being asked first. -/
  backends : List String
  keys : List CacheEngineKey
  hitChunks : Nat
  blockMapping : Dict String (List CacheEngineKey)
  taken : List PinToken

namespace BatchedContains

def start (active : List String) (keys : List CacheEngineKey) : BatchedContains where
  totalKeys := keys.length
  totalHitChunks := 0
  backends := active
  keys := keys
  hitChunks := 0
  blockMapping := .empty
  taken := []

/-- The loop body after a backend has answered: on to the next, or out when every key was hit. -/
def endBackend (c : BatchedContains) (name : String) (rest : List String) : BatchedContains :=
  if c.hitChunks = 0 then { c with backends := rest }
  else
    let c' := { c with
      blockMapping := c.blockMapping.set name (c.keys.take c.hitChunks)
      totalHitChunks := c.totalHitChunks + c.hitChunks }
    if c'.totalHitChunks = c'.totalKeys then { c' with backends := [] }
    else { c' with backends := rest, keys := c.keys.drop c.hitChunks, hitChunks := 0 }

end BatchedContains

/-- A running `lookup`.  `chunks` are the chunks of the tokens with their ends: all of them, or with
layers the one being checked and those behind it. -/
structure PinLookup where
  lookupId : String
  active : List String
  chunks : List (CacheEngineKey × Nat)
  check : BatchedContains
  res : Nat

/-- A running `lookup_unpin`.  What it owes, and the pins it has yet to release, are for the
statements. -/
structure Unpinning where
  todo : List (String × CacheEngineKey)
  owed : List Nat
  left : List PinToken
  released : List Nat

inductive PinPc where
  | idle
  | lookup (l : PinLookup)
  | unpinning (u : Unpinning)

/-- A `lookup_unpin` that has returned: the objects the lookups of its id had pinned, and those it
called `unpin` on. -/
structure PinRelease where
  owed : List Nat
  released : List Nat
  deriving DecidableEq, Repr

structure PinEngine where
  useLayerwise : Bool
  numLayers : Nat
  storageBackends : Dict String PinTier
  pinCount : Nat → Int
  lookupPins : Dict String (Dict String (List CacheEngineKey))
  threads : List PinPc
  /-- The lookups that have returned, with their results. -/
  results : List (String × Nat)
  /-- The pins taken by lookups that are done with them, by lookup id. -/
  due : List (String × PinToken)
  releases : List PinRelease

inductive PinAction where
  /-- An idle thread enters `lookup` with `pin=True`. -/
  | lookup (t : Nat) (lookupId : String) (chunks : List (CacheEngineKey × Nat))
      (searchRange : Option (List String))
  /-- An idle thread enters `lookup_unpin`. -/
  | lookupUnpin (t : Nat) (lookupId : String)
  /-- A thread inside a call goes on. -/
  | advance (t : Nat)
  /-- The manager finds the backend it comes to frozen or bypassed. -/
  | skip (t : Nat)
  | put (location : String) (key : CacheEngineKey) (obj : Nat)
  | remove (location : String) (key : CacheEngineKey)
  deriving DecidableEq, Repr

namespace PinEngine

/-! ## The backends -/

/-- The backend takes pins. -/
def pins (e : PinEngine) (location : String) : Bool :=
  match e.storageBackends.get? location with
  | none => false
  | some tier => decide (tier.kind ≠ .ignored)

/-- The object under a key of a backend that takes pins. -/
def pinnable (e : PinEngine) (location : String) (key : CacheEngineKey) : Option Nat :=
  match e.storageBackends.get? location with
  | none => none
  | some tier => if tier.kind = .ignored then none else tier.cached.get? key

/-- `contains`, without its pin. -/
def holds (e : PinEngine) (location : String) (key : CacheEngineKey) : Bool :=
  match e.storageBackends.get? location with
  | none => false
  | some tier => decide (key ∈ tier.cached)

def setPinCount (e : PinEngine) (obj : Nat) (n : Int) : PinEngine :=
  { e with pinCount := fun o => if o = obj then n else e.pinCount o }

/-- The pin of `contains`. -/
def pinKey (e : PinEngine) (location : String) (key : CacheEngineKey) : PinEngine :=
  match e.pinnable location key with
  | none => e
  | some obj => e.setPinCount obj (e.pinCount obj + 1)

/-- The count `unpin` leaves, by what kind of object it is called on. -/
def unpinned (e : PinEngine) (location : String) (n : Int) : Int :=
  match e.storageBackends.get? location with
  | some ⟨.memoryObj, _⟩ => if n - 1 < 0 then 0 else n - 1
  | _ => n - 1

/-- `unpin(key)` of a backend, and the objects it was called on. -/
def unpinKey (e : PinEngine) (location : String) (key : CacheEngineKey) :
    PinEngine × Option Nat :=
  match e.pinnable location key with
  | none => (e, none)
  | some obj => (e.setPinCount obj (e.unpinned location (e.pinCount obj)), some obj)

/-- A put: a key that is cached keeps its object. -/
def put (e : PinEngine) (location : String) (key : CacheEngineKey) (obj : Nat) : PinEngine :=
  match e.storageBackends.get? location with
  | none => e
  | some tier =>
    if key ∈ tier.cached then e
    else
      { e with
        storageBackends :=
          e.storageBackends.set location { tier with cached := tier.cached.set key obj } }

def remove (e : PinEngine) (location : String) (key : CacheEngineKey) : PinEngine :=
  match e.storageBackends.get? location with
  | none => e
  | some tier =>
    { e with
      storageBackends :=
        e.storageBackends.set location { tier with cached := tier.cached.erase key } }

/-- The names `get_active_storage_backends` goes through. -/
def activeNames (e : PinEngine) (searchRange : Option (List String)) : List String :=
  e.storageBackends.keys.filter fun name =>
    (searchRange.getD []).isEmpty || (searchRange.getD []).contains name

/-! ## `lookup` -/

def moveTo (e : PinEngine) (t : Nat) (pc : PinPc) : PinEngine :=
  { e with threads := e.threads.set t pc }

/-- The check of the next chunk with all its layers. -/
def checkLayers (e : PinEngine) (active : List String) :
    List (CacheEngineKey × Nat) → BatchedContains
  | [] => .start [] []
  | (key, _) :: _ => .start active (key.splitLayers e.numLayers)

def enterLookup (e : PinEngine) (lookupId : String) (chunks : List (CacheEngineKey × Nat))
    (searchRange : Option (List String)) : PinLookup where
  lookupId := lookupId
  active := e.activeNames searchRange
  chunks := chunks
  check :=
    if e.useLayerwise then e.checkLayers (e.activeNames searchRange) chunks
    else .start (e.activeNames searchRange) (chunks.map Prod.fst)
  res := 0

/-- One check: the next key in the backend being asked. -/
def checkNext (e : PinEngine) (c : BatchedContains) (name : String) (rest : List String) :
    PinEngine × BatchedContains :=
  match c.keys[c.hitChunks]? with
  | none => (e, c.endBackend name rest)
  | some key =>
    if e.holds name key then
      (e.pinKey name key, { c with
        hitChunks := c.hitChunks + 1
        taken := c.taken ++ ((e.pinnable name key).map (PinToken.mk name key)).toList })
    else (e, c.endBackend name rest)

/-- `self.lookup_pins[lookup_id][location].extend(keys)`. -/
def extendPins (e : PinEngine) (lookupId location : String) (keys : List CacheEngineKey) :
    PinEngine :=
  let mapping := (e.lookupPins.get? lookupId).getD .empty
  let keys := (mapping.get? location).getD [] ++ keys
  { e with lookupPins := e.lookupPins.set lookupId (mapping.set location keys) }

/-- The lookup is done with these pins. -/
def owe (e : PinEngine) (lookupId : String) (tokens : List PinToken) : PinEngine :=
  { e with due := e.due ++ tokens.map fun t => (lookupId, t) }

def returns (e : PinEngine) (t : Nat) (lookupId : String) (res : Nat) : PinEngine :=
  { e with results := e.results ++ [(lookupId, res)] }.moveTo t .idle

/-- The end of a lookup without layers: its record replaces the one of the same id. -/
def concludePlain (e : PinEngine) (t : Nat) (l : PinLookup) : PinEngine :=
  let e := e.owe l.lookupId l.check.taken
  let e :=
    if l.check.blockMapping.entries ≠ [] then
      { e with lookupPins := e.lookupPins.set l.lookupId l.check.blockMapping }
    else e
  e.returns t l.lookupId (((l.chunks.take l.check.totalHitChunks).getLast?.map Prod.snd).getD 0)

/-- The end of the check of one chunk with layers: a hit if all layers are in one backend. -/
def concludeLayers (e : PinEngine) (t : Nat) (l : PinLookup) : PinEngine :=
  let e := e.owe l.lookupId l.check.taken
  match l.chunks, l.check.blockMapping.entries with
  | (key, stop) :: later, [(location, _)] =>
    if l.check.totalHitChunks = e.numLayers then
      (e.extendPins l.lookupId location (key.splitLayers e.numLayers)).moveTo t
        (.lookup { l with chunks := later, check := e.checkLayers l.active later, res := stop })
    else e.returns t l.lookupId l.res
  | _, _ => e.returns t l.lookupId l.res

def advanceLookup (e : PinEngine) (t : Nat) (l : PinLookup) : PinEngine :=
  match l.check.backends with
  | [] => if e.useLayerwise then e.concludeLayers t l else e.concludePlain t l
  | name :: rest =>
    (e.checkNext l.check name rest).1.moveTo t
      (.lookup { l with check := (e.checkNext l.check name rest).2 })

/-! ## `lookup_unpin` -/

/-- The pins due under a lookup id. -/
def dueOf (e : PinEngine) (lookupId : String) : List PinToken :=
  (e.due.filter fun d => d.1 = lookupId).map Prod.snd

/-- The record is popped first, so that no other call will release it again. -/
def enterUnpin (e : PinEngine) (t : Nat) (lookupId : String) : PinEngine :=
  let owed := e.dueOf lookupId
  let e' := { e with due := e.due.filter fun d => d.1 ≠ lookupId }
  match e.lookupPins.get? lookupId with
  | none => { e' with releases := e.releases ++ [⟨owed.map PinToken.obj, []⟩] }
  | some mapping =>
    { e' with lookupPins := e.lookupPins.erase lookupId }.moveTo t
      (.unpinning ⟨placesOf mapping, owed.map PinToken.obj, owed, []⟩)

def advanceUnpin (e : PinEngine) (t : Nat) (u : Unpinning) : PinEngine :=
  match u.todo with
  | [] => { e with releases := e.releases ++ [PinRelease.mk u.owed u.released] }.moveTo t .idle
  | (location, key) :: todo =>
    match e.unpinKey location key with
    | (e, none) => e.moveTo t (.unpinning { u with todo := todo })
    | (e, some obj) =>
      e.moveTo t (.unpinning { u with
        todo := todo
        left := u.left.erase (.mk location key obj)
        released := u.released ++ [obj] })

/-! ## Steps -/

def init (useLayerwise : Bool) (numLayers : Nat) (storageBackends : Dict String PinTier)
    (threads : Nat) : PinEngine where
  useLayerwise := useLayerwise
  numLayers := numLayers
  storageBackends := storageBackends
  pinCount := fun _ => 0
  lookupPins := .empty
  threads := .replicate threads .idle
  results := []
  due := []
  releases := []

def step (e : PinEngine) : PinAction → PinEngine
  | .lookup t lookupId chunks searchRange =>
    match e.threads[t]? with
    | some .idle => e.moveTo t (.lookup (e.enterLookup lookupId chunks searchRange))
    | _ => e
  | .lookupUnpin t lookupId =>
    match e.threads[t]? with
    | some .idle => e.enterUnpin t lookupId
    | _ => e
  | .advance t =>
    match e.threads[t]? with
    | some (.lookup l) => e.advanceLookup t l
    | some (.unpinning u) => e.advanceUnpin t u
    | _ => e
  | .skip t =>
    match e.threads[t]? with
    | some (.lookup l) =>
      if l.check.hitChunks = 0 then
        e.moveTo t (.lookup { l with
          check := { l.check with backends := l.check.backends.tail } })
      else e
    | _ => e
  | .put location key obj => e.put location key obj
  | .remove location key => e.remove location key

/-! ## What is outstanding, and when a step is safe -/

/-- The pairs recorded under a lookup id. -/
def recordedPlaces (e : PinEngine) (lookupId : String) : List (String × CacheEngineKey) :=
  placesOf ((e.lookupPins.get? lookupId).getD .empty)

/-- The condition on a lookup that concludes a check.  Without layers, a record that is about to be
replaced names no backend that pins.  With layers, what was hit is recorded, or none of it is in a
backend that pins. -/
def LookupAllowed (e : PinEngine) (l : PinLookup) : Prop :=
  l.check.backends = [] →
    if e.useLayerwise then
      (l.check.totalHitChunks = e.numLayers ∧ l.check.blockMapping.entries.length = 1) ∨
        ∀ p ∈ placesOf l.check.blockMapping, e.pins p.1 = false
    else l.check.blockMapping.entries ≠ [] → ∀ p ∈ e.recordedPlaces l.lookupId, e.pins p.1 = false

def PcAllowed (e : PinEngine) : PinPc → Prop
  | .lookup l => e.LookupAllowed l
  | _ => True

/-- The condition on a step; a key is removed only while its object is not pinned. -/
def Allowed (e : PinEngine) : PinAction → Prop
  | .advance t => ∀ pc ∈ e.threads[t]?, e.PcAllowed pc
  | .remove location key => ∀ obj ∈ e.pinnable location key, e.pinCount obj ≤ 0
  | _ => True

instance (e : PinEngine) (l : PinLookup) : Decidable (e.LookupAllowed l) := by
  unfold LookupAllowed
  infer_instance

instance (e : PinEngine) : (pc : PinPc) → Decidable (e.PcAllowed pc)
  | .lookup l => inferInstanceAs (Decidable (e.LookupAllowed l))
  | .idle | .unpinning _ => .isTrue trivial

instance (e : PinEngine) : (a : PinAction) → Decidable (e.Allowed a)
  | .advance t => inferInstanceAs (Decidable (∀ pc ∈ e.threads[t]?, e.PcAllowed pc))
  | .remove location key =>
    inferInstanceAs (Decidable (∀ obj ∈ e.pinnable location key, e.pinCount obj ≤ 0))
  | .lookup _ _ _ _ | .lookupUnpin _ _ | .skip _ | .put _ _ _ => .isTrue trivial

end PinEngine

/-- The pins a thread has taken, or has yet to release. -/
def PinPc.tokens : PinPc → List PinToken
  | .idle => []
  | .lookup l => l.check.taken
  | .unpinning u => u.left

namespace PinEngine

/-- The pins taken by lookups and not released yet. -/
def outstanding (e : PinEngine) : List PinToken :=
  e.due.map Prod.snd ++ e.threads.flatMap PinPc.tokens

/-- **Pin balance**: each `lookup_unpin` that has returned called `unpin` once for each pin of the
lookups of its id, on the object pinned, and on no other object; and every object is pinned as often
as lookups have pinned it and not released it. -/
structure Balanced (e : PinEngine) : Prop where
  released : ∀ r ∈ e.releases, r.released.Perm r.owed
  counted : ∀ o, e.pinCount o = (e.outstanding.countP fun t => t.obj = o : Nat)

end PinEngine

/-! ## What carries the balance -/

namespace BatchedContains

/-- Where the hits so far are: those of the backends that have answered, then those of the one being
asked. -/
def places (c : BatchedContains) : List (String × CacheEngineKey) :=
  placesOf c.blockMapping ++
    match c.backends with
    | [] => []
    | name :: _ => (c.keys.take c.hitChunks).map fun key => (name, key)

/-- A running check of these keys: what it has mapped are the first of them, and it has taken a pin
for each hit in a backend that pins. -/
structure Sound (pins : String → Bool) (original : List CacheEngineKey) (c : BatchedContains) :
    Prop where
  nodup : c.backends.Nodup
  fresh : ∀ name ∈ c.blockMapping.keys, name ∉ c.backends
  total : c.totalKeys = original.length
  mapped : c.blockMapping.entries.flatMap Prod.snd = original.take c.totalHitChunks
  le : c.totalHitChunks ≤ original.length
  keys : c.backends ≠ [] →
    c.keys = original.drop c.totalHitChunks ∧ c.hitChunks ≤ c.keys.length
  taken : (c.places.filter fun p => pins p.1).Perm (c.taken.map PinToken.place)

variable {pins : String → Bool} {original : List CacheEngineKey} {c : BatchedContains}

theorem places_start (active : List String) (keys : List CacheEngineKey) :
    (start active keys).places = [] := by
  unfold places start
  cases active <;> rfl

theorem sound_start {active : List String} (h : active.Nodup) (keys : List CacheEngineKey) :
    Sound pins keys (start active keys) where
  nodup := h
  fresh := fun _ hname => (nomatch hname)
  total := rfl
  mapped := rfl
  le := Nat.zero_le _
  keys := fun _ => ⟨rfl, Nat.zero_le _⟩
  taken := by
    rw [places_start]
    exact .nil

theorem placesOf_set_of_notMem {mapping : Dict String (List CacheEngineKey)} {name : String}
    (h : name ∉ mapping) (keys : List CacheEngineKey) :
    placesOf (mapping.set name keys) = placesOf mapping ++ keys.map fun key => (name, key) := by
  unfold placesOf
  rw [Dict.entries_set_of_notMem h, List.flatMap_append, List.flatMap_singleton]

/-- A backend that has answered: its hits are mapped, and nothing else changes. -/
theorem Sound.endBackend (h : Sound pins original c) {name : String} {rest : List String}
    (hback : c.backends = name :: rest) : Sound pins original (c.endBackend name rest) := by
  obtain ⟨hnot, hrest⟩ := List.nodup_cons.mp (hback ▸ h.nodup)
  have hne : c.backends ≠ [] := hback ▸ List.cons_ne_nil _ _
  obtain ⟨hkeys, hle⟩ := h.keys hne
  have hplaces : c.places = placesOf c.blockMapping ++
      (c.keys.take c.hitChunks).map fun key => (name, key) := by
    unfold places
    rw [hback]
  have htaken := h.taken
  rw [hplaces] at htaken
  unfold BatchedContains.endBackend
  by_cases hzero : c.hitChunks = 0
  · rw [if_pos hzero]
    refine ⟨hrest, fun n hn hin => h.fresh n hn (hback ▸ List.mem_cons_of_mem _ hin), h.total,
      h.mapped, h.le, fun _ => ⟨hkeys, hle⟩, ?_⟩
    have hnone : ({ c with backends := rest } : BatchedContains).places =
        placesOf c.blockMapping := by
      unfold places
      cases rest <;> simp [hzero]
    rw [hnone]
    simpa [hzero] using htaken
  · rw [if_neg hzero]
    have hnew : name ∉ c.blockMapping := fun hin => h.fresh name hin (hback ▸ List.mem_cons_self)
    have hset := placesOf_set_of_notMem hnew (c.keys.take c.hitChunks)
    have hfresh : ∀ n ∈ (c.blockMapping.set name (c.keys.take c.hitChunks)).keys, n ∉ rest := by
      intro n hn hin
      rcases (Dict.mem_set _ _ _ _).mp hn with rfl | hn
      · exact hnot hin
      · exact h.fresh n hn (hback ▸ List.mem_cons_of_mem _ hin)
    have hmapped : (c.blockMapping.set name (c.keys.take c.hitChunks)).entries.flatMap Prod.snd =
        original.take (c.totalHitChunks + c.hitChunks) := by
      rw [Dict.entries_set_of_notMem hnew, List.flatMap_append, h.mapped, List.flatMap_singleton,
        hkeys, List.take_add]
    have hsum : c.totalHitChunks + c.hitChunks ≤ original.length := by
      rw [hkeys, List.length_drop] at hle
      have := h.le
      omega
    dsimp only
    split
    · refine ⟨List.nodup_nil, fun _ _ hin => (nomatch hin), h.total, hmapped, hsum,
        fun hn => absurd rfl hn, ?_⟩
      unfold places
      rw [List.append_nil, hset]
      exact htaken
    · refine ⟨hrest, hfresh, h.total, hmapped, hsum, fun _ => ⟨?_, Nat.zero_le _⟩, ?_⟩
      · dsimp only
        rw [hkeys, List.drop_drop]
      · have hnone : ∀ l : BatchedContains, l.hitChunks = 0 → l.places = placesOf l.blockMapping :=
          fun l hl => by
            unfold places
            cases l.backends <;> simp [hl]
        rw [hnone _ rfl, hset]
        exact htaken

end BatchedContains

namespace PinEngine

variable {e : PinEngine}

/-- A hit takes a pin exactly when the backend pins. -/
theorem place_of_hit {name : String} {key : CacheEngineKey} (h : e.holds name key = true) :
    ((e.pinnable name key).map (PinToken.mk name key)).toList.map PinToken.place =
      [(name, key)].filter fun p => e.pins p.1 := by
  unfold holds at h
  unfold pinnable pins
  cases htier : e.storageBackends.get? name with
  | none =>
    rw [htier] at h
    cases h
  | some tier =>
    rw [htier] at h
    obtain ⟨obj, hobj⟩ := Dict.mem_iff_get?.mp (of_decide_eq_true h)
    by_cases hkind : tier.kind = .ignored
    · simp [htier, hkind]
    · simp [htier, hkind, hobj, PinToken.place]

/-- One check keeps the running `batched_contains` sound. -/
theorem sound_checkNext {original : List CacheEngineKey} {c : BatchedContains}
    (h : c.Sound e.pins original) {name : String} {rest : List String}
    (hback : c.backends = name :: rest) : (e.checkNext c name rest).2.Sound e.pins original := by
  unfold checkNext
  cases hkey : c.keys[c.hitChunks]? with
  | none => exact h.endBackend hback
  | some key =>
    dsimp only
    by_cases hhold : e.holds name key = true
    · rw [if_pos hhold]
      obtain ⟨hkeys, -⟩ := h.keys (hback ▸ List.cons_ne_nil _ _)
      refine ⟨h.nodup, h.fresh, h.total, h.mapped, h.le, fun _ => ⟨hkeys, ?_⟩, ?_⟩
      · exact (List.getElem?_eq_some_iff.mp hkey).1
      · -- the hit is one more place, and its pin one more token
        have htaken := h.taken
        unfold BatchedContains.places at htaken ⊢
        simp only [hback] at htaken ⊢
        rw [List.take_add_one, hkey, Option.toList_some, List.map_append, List.map_singleton,
          ← List.append_assoc, List.filter_append, List.map_append, place_of_hit hhold]
        exact htaken.append_right _
    · rw [if_neg hhold]
      exact h.endBackend hback

end PinEngine

/-- The keys a lookup with layers checks for the chunk it has come to. -/
def layerKeys (numLayers : Nat) : List (CacheEngineKey × Nat) → List CacheEngineKey
  | [] => []
  | (key, _) :: _ => key.splitLayers numLayers

/-- What a thread holds in its hands agrees with the pins it has taken or has yet to release. -/
def PinPc.Sound (pins : String → Bool) (useLayerwise : Bool) (numLayers : Nat) : PinPc → Prop
  | .idle => True
  | .lookup l =>
    l.active.Nodup ∧ ∃ original, l.check.Sound pins original ∧
      (useLayerwise = true → original = layerKeys numLayers l.chunks)
  | .unpinning u =>
    (u.todo.filter fun p => pins p.1).Perm (u.left.map PinToken.place) ∧
      (u.released ++ u.left.map PinToken.obj).Perm u.owed

namespace PinEngine

/-- The invariant of guarded runs. -/
structure PinInv (e : PinEngine) : Prop where
  pinned : ∀ t ∈ e.outstanding, e.pinnable t.location t.key = some t.obj
  counted : ∀ o, e.pinCount o = (e.outstanding.countP fun t => t.obj = o : Nat)
  recorded : ∀ lookupId, ((e.recordedPlaces lookupId).filter fun p => e.pins p.1).Perm
    ((e.dueOf lookupId).map PinToken.place)
  threads : ∀ pc ∈ e.threads, pc.Sound e.pins e.useLayerwise e.numLayers
  released : ∀ r ∈ e.releases, r.released.Perm r.owed

variable {e : PinEngine}

theorem PinInv.balanced (h : e.PinInv) : e.Balanced := ⟨h.released, h.counted⟩

theorem pinInv_init (useLayerwise : Bool) (numLayers : Nat)
    (storageBackends : Dict String PinTier) (threads : Nat) :
    (init useLayerwise numLayers storageBackends threads).PinInv := by
  have hidle : ∀ pc ∈ (init useLayerwise numLayers storageBackends threads).threads,
      pc = .idle := fun pc hpc => List.eq_of_mem_replicate hpc
  have hnone : (init useLayerwise numLayers storageBackends threads).outstanding = [] := by
    unfold outstanding
    rw [List.flatMap_eq_nil_iff.mpr fun pc hpc => by rw [hidle pc hpc]; rfl]
    rfl
  refine ⟨fun t ht => ?_, fun o => ?_, fun lookupId => .nil, fun pc hpc => ?_, fun r hr => ?_⟩
  · rw [hnone] at ht
    cases ht
  · rw [hnone]
    rfl
  · rw [hidle pc hpc]
    trivial
  · cases hr

/-! ### Moving a thread -/

/-- The pins of the other threads, and those that are due. -/
def othersOut (e : PinEngine) (t : Nat) : List PinToken :=
  e.due.map Prod.snd ++ (e.threads.eraseIdx t).flatMap PinPc.tokens

variable {pc pc' : PinPc} {t : Nat} {e' : PinEngine} {pins : String → Bool} {l : PinLookup}
  {key : CacheEngineKey} {location : String} {tier : PinTier}

theorem outstanding_perm (h : e.threads[t]? = some pc) :
    e.outstanding.Perm (pc.tokens ++ e.othersOut t) := by
  have hflat := (SortedKeyList.perm_of_getElem? h).flatMap_right PinPc.tokens
  rw [List.flatMap_cons] at hflat
  unfold outstanding othersOut
  refine (hflat.append_left _).trans ?_
  rw [← List.append_assoc, ← List.append_assoc]
  exact List.perm_append_comm.append_right _

theorem outstanding_moveTo_perm (h : e.threads[t]? = some pc) (pc' : PinPc) :
    (e.moveTo t pc').outstanding.Perm (pc'.tokens ++ e.othersOut t) := by
  have hlt : t < e.threads.length := (List.getElem?_eq_some_iff.mp h).1
  have hget : (e.moveTo t pc').threads[t]? = some pc' := by simp [moveTo, hlt]
  have hothers : (e.moveTo t pc').othersOut t = e.othersOut t := by
    unfold othersOut moveTo
    rw [List.eraseIdx_set_eq]
  rw [← hothers]
  exact outstanding_perm hget

/-- The threads after one of them has moved. -/
theorem sound_set {pins : String → Bool} {useLayerwise : Bool} {numLayers : Nat}
    {threads : List PinPc} (h : ∀ pc ∈ threads, pc.Sound pins useLayerwise numLayers) {pc' : PinPc}
    (hpc : pc'.Sound pins useLayerwise numLayers) (t : Nat) :
    ∀ pc ∈ threads.set t pc', pc.Sound pins useLayerwise numLayers := by
  intro pc hmem
  rcases List.mem_or_eq_of_mem_set hmem with hmem | rfl
  · exact h pc hmem
  · exact hpc

theorem pinnable_congr (h : e'.storageBackends = e.storageBackends) :
    e'.pinnable = e.pinnable := by
  funext location key
  unfold pinnable
  rw [h]

theorem pins_congr (h : e'.storageBackends = e.storageBackends) :
    e'.pins = e.pins := by
  funext location
  unfold pins
  rw [h]

/-- A step that takes and releases no pin. -/
theorem PinInv.of_same (h : e.PinInv) (hout : e'.outstanding.Perm e.outstanding)
    (hcount : e'.pinCount = e.pinCount) (hbackends : e'.storageBackends = e.storageBackends)
    (hrecorded : ∀ lookupId, ((e'.recordedPlaces lookupId).filter fun p => e.pins p.1).Perm
      ((e'.dueOf lookupId).map PinToken.place))
    (hthreads : ∀ pc ∈ e'.threads, pc.Sound e.pins e'.useLayerwise e'.numLayers)
    (hreleased : ∀ r ∈ e'.releases, r.released.Perm r.owed) : e'.PinInv where
  pinned := fun t ht => by
    rw [pinnable_congr hbackends]
    exact h.pinned t (hout.mem_iff.mp ht)
  counted := fun o => by
    rw [hcount, hout.countP_eq]
    exact h.counted o
  recorded := by
    rw [pins_congr hbackends]
    exact hrecorded
  threads := by
    rw [pins_congr hbackends]
    exact hthreads
  released := hreleased

/-- A thread that moves with the same pins in its hands. -/
theorem PinInv.of_moveTo (h : e.PinInv) (hpc : e.threads[t]? = some pc)
    (htokens : pc'.tokens = pc.tokens) (hsound : pc'.Sound e.pins e.useLayerwise e.numLayers) :
    (e.moveTo t pc').PinInv := by
  refine h.of_same ?_ rfl rfl h.recorded (sound_set h.threads hsound t) h.released
  refine (outstanding_moveTo_perm hpc pc').trans ?_
  rw [htokens]
  exact (outstanding_perm hpc).symm

/-- A thread that moves with one more pin in its hands. -/
theorem PinInv.of_pin (h : e.PinInv) (hpc : e.threads[t]? = some pc)
    (token : PinToken) (hresolve : e.pinnable token.location token.key = some token.obj)
    (htokens : pc'.tokens = pc.tokens ++ [token])
    (hsound : pc'.Sound e.pins e.useLayerwise e.numLayers) :
    ((e.setPinCount token.obj (e.pinCount token.obj + 1)).moveTo t pc').PinInv := by
  have hout : ((e.setPinCount token.obj (e.pinCount token.obj + 1)).moveTo t pc').outstanding.Perm
      (token :: e.outstanding) := by
    refine (outstanding_moveTo_perm (e := e) hpc pc').trans ?_
    rw [htokens, List.append_assoc, List.singleton_append]
    exact List.perm_middle.trans ((outstanding_perm hpc).symm.cons _)
  refine ⟨fun tok htok => ?_, fun o => ?_, h.recorded, sound_set h.threads hsound t, h.released⟩
  · rcases List.mem_cons.mp (hout.mem_iff.mp htok) with rfl | htok
    · exact hresolve
    · exact h.pinned tok htok
  · rw [hout.countP_eq, List.countP_cons]
    have hold := h.counted o
    simp only [moveTo, setPinCount, decide_eq_true_eq]
    by_cases ho : o = token.obj
    · subst ho
      simp only [if_true]
      rw [hold]
      push_cast
      ring
    · rw [if_neg ho, if_neg (Ne.symm ho), hold, Nat.add_zero]

/-- A thread that moves with one pin released. -/
theorem PinInv.of_unpin (h : e.PinInv) (hpc : e.threads[t]? = some pc)
    (token : PinToken) (htokens : pc.tokens.Perm (token :: pc'.tokens))
    (hsound : pc'.Sound e.pins e.useLayerwise e.numLayers) :
    ((e.setPinCount token.obj (e.unpinned token.location (e.pinCount token.obj))).moveTo t
      pc').PinInv := by
  have hout : e.outstanding.Perm (token :: ((e.setPinCount token.obj
      (e.unpinned token.location (e.pinCount token.obj))).moveTo t pc').outstanding) := by
    refine (outstanding_perm hpc).trans ((htokens.append_right _).trans ?_)
    exact (outstanding_moveTo_perm (e := e) hpc pc').symm.cons token
  -- the pin is outstanding, so the count is positive and `unpin` just lowers it
  have hpos : 0 < e.pinCount token.obj := by
    rw [h.counted, hout.countP_eq, List.countP_cons]
    simp
  have hdown : e.unpinned token.location (e.pinCount token.obj) = e.pinCount token.obj - 1 := by
    unfold unpinned
    split
    · rw [if_neg (by omega)]
    · rfl
  refine ⟨fun tok htok => ?_, fun o => ?_, h.recorded, sound_set h.threads hsound t, h.released⟩
  · exact h.pinned tok (hout.mem_iff.mpr (List.mem_cons_of_mem _ htok))
  · have hold := h.counted o
    rw [hout.countP_eq, List.countP_cons] at hold
    generalize List.countP _ _ = n at hold ⊢
    show (if o = token.obj then e.unpinned token.location (e.pinCount token.obj)
      else e.pinCount o) = _
    by_cases ho : o = token.obj
    · subst ho
      rw [if_pos rfl, hdown, hold]
      simp
    · rw [if_neg ho, hold]
      simp [Ne.symm ho]

/-! ### The steps of a lookup -/

variable {e : PinEngine}

theorem sound_checkLayers {active : List String} (hactive : active.Nodup)
    (chunks : List (CacheEngineKey × Nat)) :
    (e.checkLayers active chunks).Sound pins (layerKeys e.numLayers chunks) := by
  cases chunks with
  | nil => exact BatchedContains.sound_start List.nodup_nil []
  | cons chunk later => exact BatchedContains.sound_start hactive _

theorem taken_checkLayers (active : List String) (chunks : List (CacheEngineKey × Nat)) :
    (e.checkLayers active chunks).taken = [] := by
  cases chunks <;> rfl

theorem pinInv_enterLookup (h : e.PinInv) (hpc : e.threads[t]? = some .idle) (lookupId : String)
    (chunks : List (CacheEngineKey × Nat)) (searchRange : Option (List String)) :
    (e.moveTo t (.lookup (e.enterLookup lookupId chunks searchRange))).PinInv := by
  have hactive : (e.activeNames searchRange).Nodup := e.storageBackends.keys_nodup.filter _
  refine h.of_moveTo hpc ?_ ⟨hactive, ?_⟩
  · show (e.enterLookup lookupId chunks searchRange).check.taken = []
    unfold enterLookup
    dsimp only
    split
    · exact taken_checkLayers _ _
    · rfl
  · unfold enterLookup
    dsimp only
    split
    · exact ⟨_, sound_checkLayers hactive chunks, fun _ => rfl⟩
    · rename_i hplain
      exact ⟨_, BatchedContains.sound_start hactive _, fun hl => absurd hl hplain⟩

/-- What one check does: it takes no pin, or the pin of the key it hits. -/
theorem checkNext_cases (c : BatchedContains) (name : String) (rest : List String) :
    ((e.checkNext c name rest).1 = e ∧ (e.checkNext c name rest).2.taken = c.taken) ∨
      ∃ key obj, e.pinnable name key = some obj ∧
        (e.checkNext c name rest).1 = e.setPinCount obj (e.pinCount obj + 1) ∧
        (e.checkNext c name rest).2.taken = c.taken ++ [⟨name, key, obj⟩] := by
  have hend : (c.endBackend name rest).taken = c.taken := by
    unfold BatchedContains.endBackend
    split
    · rfl
    · dsimp only
      split <;> rfl
  unfold checkNext
  cases c.keys[c.hitChunks]? with
  | none => exact .inl ⟨rfl, hend⟩
  | some key =>
    dsimp only
    split
    · unfold pinKey
      cases hobj : e.pinnable name key with
      | none => exact .inl ⟨rfl, List.append_nil _⟩
      | some obj => exact .inr ⟨key, obj, hobj, rfl, rfl⟩
    · exact .inl ⟨rfl, hend⟩

theorem pinInv_checkNext (h : e.PinInv) (hpc : e.threads[t]? = some (.lookup l)) {name : String}
    {rest : List String} (hback : l.check.backends = name :: rest) :
    ((e.checkNext l.check name rest).1.moveTo t
      (.lookup { l with check := (e.checkNext l.check name rest).2 })).PinInv := by
  obtain ⟨hactive, original, hsound, hlayers⟩ := h.threads _ (List.mem_of_getElem? hpc)
  have hsound' : PinPc.Sound e.pins e.useLayerwise e.numLayers
      (.lookup { l with check := (e.checkNext l.check name rest).2 }) :=
    ⟨hactive, original, sound_checkNext hsound hback, hlayers⟩
  rcases checkNext_cases (e := e) l.check name rest with ⟨hsame, htaken⟩ | ⟨key, obj, hobj, hpin, htaken⟩
  · rw [hsame]
    exact h.of_moveTo hpc htaken hsound'
  · rw [hpin]
    exact h.of_pin hpc ⟨name, key, obj⟩ hobj htaken hsound'

theorem pinInv_skip (h : e.PinInv) (hpc : e.threads[t]? = some (.lookup l))
    (hzero : l.check.hitChunks = 0) :
    (e.moveTo t (.lookup { l with
      check := { l.check with backends := l.check.backends.tail } })).PinInv := by
  obtain ⟨hactive, original, hsound, hlayers⟩ := h.threads _ (List.mem_of_getElem? hpc)
  refine h.of_moveTo hpc rfl ⟨hactive, original, ?_, hlayers⟩
  have hplaces (backends : List String) :
      ({ l.check with backends := backends } : BatchedContains).places =
        placesOf l.check.blockMapping := by
    unfold BatchedContains.places
    cases backends <;> simp [hzero]
  have htaken := hsound.taken
  rw [show l.check.places = _ from hplaces l.check.backends] at htaken
  refine ⟨hsound.nodup.tail, fun n hn hin => hsound.fresh n hn (List.mem_of_mem_tail hin),
    hsound.total, hsound.mapped, hsound.le, fun hne => hsound.keys fun hnil => hne ?_, ?_⟩
  · show l.check.backends.tail = []
    rw [hnil]
    rfl
  · rw [hplaces]
    exact htaken

/-! ### The end of a lookup -/

theorem dueOf_owe (lookupId : String) (tokens : List PinToken) (other : String) :
    (e.owe lookupId tokens).dueOf other =
      e.dueOf other ++ if other = lookupId then tokens else [] := by
  unfold dueOf owe
  rw [List.filter_append, List.map_append]
  congr 1
  by_cases h : other = lookupId
  · subst h
    simp [List.filter_map, Function.comp_def]
  · simp [h, List.filter_map, Function.comp_def, Ne.symm h]

/-- A lookup that ends hands its pins over to what is due. -/
theorem outstanding_owe_perm (hpc : e.threads[t]? = some (.lookup l))
    (hdue : e'.due = (e.owe l.lookupId l.check.taken).due) (hthreads : e'.threads = e.threads)
    (hnone : pc'.tokens = []) : (e'.moveTo t pc').outstanding.Perm e.outstanding := by
  refine (outstanding_moveTo_perm (hthreads ▸ hpc) pc').trans ?_
  refine List.Perm.trans ?_ (outstanding_perm hpc).symm
  unfold othersOut
  rw [hnone, hdue, hthreads, List.nil_append, owe, List.map_append, List.map_map]
  simp only [Function.comp_def, List.map_id', List.append_assoc]
  rw [← List.append_assoc, ← List.append_assoc]
  exact List.perm_append_comm.append_right _

/-- The pins of a finished check are the places it has mapped. -/
theorem taken_of_finished {original : List CacheEngineKey} {c : BatchedContains}
    (h : c.Sound pins original) (hdone : c.backends = []) :
    ((placesOf c.blockMapping).filter fun p => pins p.1).Perm (c.taken.map PinToken.place) := by
  have htaken := h.taken
  unfold BatchedContains.places at htaken
  rw [hdone, List.append_nil] at htaken
  exact htaken

theorem eq_nil_of_places {places : List (String × CacheEngineKey)} {tokens : List PinToken}
    (h : (places.filter fun p => pins p.1).Perm (tokens.map PinToken.place))
    (hnone : ∀ p ∈ places, pins p.1 = false) : tokens = [] := by
  rw [List.filter_eq_nil_iff.mpr fun p hp => by simp [hnone p hp]] at h
  exact List.map_eq_nil_iff.mp h.nil_eq.symm

/-- A lookup that hands its pins over, with whatever record it leaves, is sound when the record names
exactly the places of the pins that are due. -/
theorem PinInv.of_conclude (h : e.PinInv) (hpc : e.threads[t]? = some (.lookup l))
    (lookupPins : Dict String (Dict String (List CacheEngineKey))) (results : List (String × Nat))
    (hnone : pc'.tokens = []) (hsound : pc'.Sound e.pins e.useLayerwise e.numLayers)
    (hrecorded : ∀ other, ((placesOf ((lookupPins.get? other).getD .empty)).filter
      fun p => e.pins p.1).Perm
        ((e.dueOf other ++ if other = l.lookupId then l.check.taken else []).map PinToken.place)) :
    (PinEngine.moveTo { e.owe l.lookupId l.check.taken with
      lookupPins := lookupPins, results := results } t pc').PinInv := by
  refine h.of_same (outstanding_owe_perm hpc rfl rfl hnone) rfl rfl (fun other => ?_)
    (sound_set h.threads hsound t) h.released
  have hdue : (PinEngine.moveTo { e.owe l.lookupId l.check.taken with
      lookupPins := lookupPins, results := results } t pc').dueOf other =
      (e.owe l.lookupId l.check.taken).dueOf other := rfl
  rw [hdue, dueOf_owe]
  exact hrecorded other

theorem pinInv_concludePlain (h : e.PinInv) (hpc : e.threads[t]? = some (.lookup l))
    (hdone : l.check.backends = []) (hok : l.check.blockMapping.entries ≠ [] →
      ∀ p ∈ e.recordedPlaces l.lookupId, e.pins p.1 = false) : (e.concludePlain t l).PinInv := by
  obtain ⟨-, original, hsound, -⟩ := h.threads _ (List.mem_of_getElem? hpc)
  have hfinished := taken_of_finished hsound hdone
  unfold concludePlain
  dsimp only
  by_cases hempty : l.check.blockMapping.entries = []
  · -- nothing was hit, so no pin was taken
    have htaken : l.check.taken = [] :=
      eq_nil_of_places hfinished fun p hp => by simp [placesOf, hempty] at hp
    rw [if_neg (not_not.mpr hempty)]
    refine h.of_conclude hpc e.lookupPins _ rfl trivial fun other => ?_
    rw [htaken, ite_self, List.append_nil]
    exact h.recorded other
  · rw [if_pos hempty]
    refine h.of_conclude hpc (e.lookupPins.set l.lookupId l.check.blockMapping) _ rfl trivial
      fun other => ?_
    rw [Dict.get?_set]
    by_cases hid : other = l.lookupId
    · -- the record replaced named no pin, so none is lost
      subst hid
      have hnone : e.dueOf l.lookupId = [] := eq_nil_of_places (h.recorded l.lookupId) (hok hempty)
      rw [if_pos rfl, if_pos rfl, hnone]
      exact hfinished
    · rw [if_neg hid, if_neg hid, List.append_nil]
      exact h.recorded other

/-- Extending the keys of one location adds their places. -/
theorem placesOf_extend_perm (mapping : Dict String (List CacheEngineKey)) (location : String)
    (keys : List CacheEngineKey) :
    (placesOf (mapping.set location ((mapping.get? location).getD [] ++ keys))).Perm
      (placesOf mapping ++ keys.map fun key => (location, key)) := by
  by_cases hin : location ∈ mapping
  · obtain ⟨old, hold⟩ := Dict.mem_iff_get?.mp hin
    rw [hold, Option.getD_some]
    have hent : (mapping.set location (old ++ keys)).entries =
        Dict.replace mapping.entries location (old ++ keys) := by
      unfold Dict.set
      rw [dif_pos hin]
    unfold placesOf
    rw [hent]
    have hmem := Dict.get?_eq_some.mp hold
    have hnodup := mapping.nodup
    generalize mapping.entries = es at hmem hnodup
    -- along the entries: the one of the location gains the keys at its end
    induction es with
    | nil => cases hmem
    | cons e es ih =>
      obtain ⟨hnot, hnodup⟩ := List.nodup_cons.mp hnodup
      unfold Dict.replace at ih ⊢
      rw [List.map_cons, List.flatMap_cons, List.flatMap_cons, List.append_assoc]
      rcases List.mem_cons.mp hmem with rfl | hmem
      · have hrest : (es.map fun e => if e.1 = location then (location, old ++ keys) else e) = es := by
          refine (List.map_congr_left fun e he => ?_).trans (List.map_id _)
          have hne : e.1 ≠ location := fun h =>
            hnot (List.mem_map.mpr ⟨e, he, h⟩)
          rw [if_neg hne]
          rfl
        rw [if_pos rfl, hrest, List.map_append, List.append_assoc]
        exact List.perm_append_comm.append_left _
      · have hne : e.1 ≠ location := fun h => hnot (h ▸ List.mem_map_of_mem hmem)
        rw [if_neg hne]
        exact (ih hmem hnodup).append_left _
  · rw [Dict.get?_eq_none.mpr hin, Option.getD_none, List.nil_append,
      BatchedContains.placesOf_set_of_notMem hin]

theorem length_splitLayers (key : CacheEngineKey) (n : Nat) : (key.splitLayers n).length = n := by
  rw [CacheEngineKey.splitLayers_eq, List.length_map, List.length_range]

theorem pinInv_concludeLayers (h : e.PinInv) (hpc : e.threads[t]? = some (.lookup l))
    (hlayer : e.useLayerwise = true) (hdone : l.check.backends = [])
    (hok : (l.check.totalHitChunks = e.numLayers ∧ l.check.blockMapping.entries.length = 1) ∨
      ∀ p ∈ placesOf l.check.blockMapping, e.pins p.1 = false) : (e.concludeLayers t l).PinInv := by
  obtain ⟨hactive, original, hsound, hkeys⟩ := h.threads _ (List.mem_of_getElem? hpc)
  have hfinished := taken_of_finished hsound hdone
  -- a chunk that is not recorded has cost no pin
  have hdrop (hnone : l.check.taken = []) :
      ((e.owe l.lookupId l.check.taken).returns t l.lookupId l.res).PinInv := by
    refine h.of_conclude hpc e.lookupPins _ rfl trivial fun other => ?_
    rw [hnone, ite_self, List.append_nil]
    exact h.recorded other
  have hmapped := hsound.mapped
  have hle := hsound.le
  rw [hkeys hlayer] at hmapped hle
  unfold concludeLayers
  dsimp only
  split
  · rename_i key stop later location keys hchunks hentries
    rw [hchunks, layerKeys] at hmapped hle
    rw [hentries, List.flatMap_singleton] at hmapped
    split
    · -- all layers are in one backend, and recorded as they were pinned
      rename_i hall
      change l.check.totalHitChunks = e.numLayers at hall
      have hkeysEq : keys = key.splitLayers e.numLayers := by
        refine hmapped.trans ?_
        rw [hall, List.take_of_length_le (length_splitLayers key e.numLayers).le]
      have hplaces : placesOf l.check.blockMapping =
          (key.splitLayers e.numLayers).map fun k => (location, k) := by
        rw [placesOf, hentries, List.flatMap_singleton, hkeysEq]
      refine h.of_conclude hpc _ e.results (taken_checkLayers _ _)
        ⟨hactive, _, sound_checkLayers hactive later, fun _ => rfl⟩ fun other => ?_
      change ((placesOf (((e.lookupPins.set l.lookupId _).get? other).getD .empty)).filter _).Perm _
      rw [Dict.get?_set]
      by_cases hid : other = l.lookupId
      · subst hid
        rw [if_pos rfl, if_pos rfl, Option.getD_some]
        refine ((placesOf_extend_perm _ location _).filter _).trans ?_
        rw [List.filter_append, List.map_append]
        rw [hplaces] at hfinished
        exact (h.recorded l.lookupId).append hfinished
      · rw [if_neg hid, if_neg hid, List.append_nil]
        exact h.recorded other
    · rename_i hnot
      rcases hok with ⟨hall, -⟩ | hnone
      · exact absurd hall hnot
      · exact hdrop (eq_nil_of_places hfinished hnone)
  · rename_i hother
    rcases hok with ⟨hall, hone⟩ | hnone
    · obtain ⟨entry, hentries⟩ := List.length_eq_one_iff.mp hone
      cases hchunks : l.chunks with
      | nil =>
        -- no chunk at all, so nothing is mapped
        rw [hchunks, hentries, List.flatMap_singleton, layerKeys, List.take_nil] at hmapped
        refine hdrop (eq_nil_of_places hfinished fun p hp => ?_)
        rw [placesOf, hentries, List.flatMap_singleton, hmapped] at hp
        cases hp
      | cons chunk later => exact (hother chunk.1 chunk.2 later entry.1 entry.2 hchunks hentries).elim
    · exact hdrop (eq_nil_of_places hfinished hnone)

/-! ### The steps of an unpin -/

/-- A popped record takes its pins along: none stays due under its id. -/
theorem dueOf_filter (lookupId other : String) :
    PinEngine.dueOf { e with due := e.due.filter fun d => d.1 ≠ lookupId } other =
      if other = lookupId then [] else e.dueOf other := by
  unfold dueOf
  rw [List.filter_filter]
  by_cases h : other = lookupId
  · subst h
    rw [if_pos rfl, List.map_eq_nil_iff, List.filter_eq_nil_iff]
    simp
  · rw [if_neg h]
    congr 1
    refine List.filter_congr fun d _ => ?_
    by_cases hd : d.1 = other
    · simp [hd, h]
    · simp [hd]

theorem due_perm (lookupId : String) : (e.due.map Prod.snd).Perm
    (e.dueOf lookupId ++ (e.due.filter fun d => d.1 ≠ lookupId).map Prod.snd) := by
  unfold dueOf
  rw [← List.map_append]
  refine List.Perm.map _ ?_
  have hperm := List.filter_append_perm (fun d : String × PinToken => decide (d.1 = lookupId)) e.due
  simpa using hperm.symm

theorem pinInv_enterUnpin (h : e.PinInv) (hpc : e.threads[t]? = some .idle) (lookupId : String) :
    (e.enterUnpin t lookupId).PinInv := by
  unfold enterUnpin
  dsimp only
  have hrecorded := h.recorded lookupId
  unfold recordedPlaces at hrecorded
  cases hget : e.lookupPins.get? lookupId with
  | none =>
    -- nothing is recorded, so nothing is due
    have hnone : e.dueOf lookupId = [] := by
      rw [hget] at hrecorded
      exact List.map_eq_nil_iff.mp hrecorded.nil_eq.symm
    have hdue : (e.due.filter fun d => d.1 ≠ lookupId) = e.due := by
      unfold dueOf at hnone
      rw [List.map_eq_nil_iff, List.filter_eq_nil_iff] at hnone
      refine List.filter_eq_self.mpr fun d hd => ?_
      simpa using hnone d hd
    rw [hdue, hnone]
    refine h.of_same (.refl _) rfl rfl h.recorded h.threads fun r hr => ?_
    rcases List.mem_append.mp hr with hr | hr
    · exact h.released r hr
    · rw [List.mem_singleton.mp hr]
      exact .nil
  | some mapping =>
    rw [hget, Option.getD_some] at hrecorded
    have hsound : PinPc.Sound e.pins e.useLayerwise e.numLayers
        (.unpinning ⟨placesOf mapping, (e.dueOf lookupId).map PinToken.obj, e.dueOf lookupId, []⟩) :=
      ⟨hrecorded, .refl _⟩
    dsimp only
    refine h.of_same ?_ rfl rfl (fun other => ?_) (sound_set h.threads hsound t) h.released
    · refine (outstanding_moveTo_perm (e := { e with
        due := e.due.filter fun d => d.1 ≠ lookupId
        lookupPins := e.lookupPins.erase lookupId }) hpc _).trans ?_
      refine List.Perm.trans ?_ (outstanding_perm hpc).symm
      show (e.dueOf lookupId ++ (_ ++ _)).Perm ([] ++ (e.due.map Prod.snd ++ _))
      rw [← List.append_assoc, List.nil_append]
      exact (due_perm lookupId).symm.append_right _
    · change ((placesOf (((e.lookupPins.erase lookupId).get? other).getD .empty)).filter _).Perm
        ((PinEngine.dueOf { e with due := e.due.filter fun d => d.1 ≠ lookupId } other).map _)
      rw [dueOf_filter, Dict.get?_erase]
      by_cases hid : other = lookupId
      · rw [if_pos hid, if_pos hid]
        exact .nil
      · rw [if_neg hid, if_neg hid]
        exact h.recorded other

/-- An object can be pinned only in a backend that pins. -/
theorem pins_of_pinnable {obj : Nat} (h : e.pinnable location key = some obj) :
    e.pins location = true := by
  unfold pinnable at h
  unfold pins
  cases htier : e.storageBackends.get? location with
  | none =>
    rw [htier] at h
    cases h
  | some tier =>
    rw [htier] at h
    dsimp only at h ⊢
    split at h
    · cases h
    · rename_i hkind
      exact decide_eq_true hkind

theorem pinInv_advanceUnpin (h : e.PinInv) {u : Unpinning}
    (hpc : e.threads[t]? = some (.unpinning u)) : (e.advanceUnpin t u).PinInv := by
  obtain ⟨htodo, howed⟩ := h.threads _ (List.mem_of_getElem? hpc)
  have hheld : ∀ token ∈ u.left, e.pinnable token.location token.key = some token.obj :=
    fun token hin => h.pinned token
      ((outstanding_perm hpc).mem_iff.mpr (List.mem_append_left _ hin))
  unfold advanceUnpin
  split
  · -- every place was visited, so no pin is left
    rename_i hdone
    have hnone : u.left = [] := by
      rw [hdone] at htodo
      exact List.map_eq_nil_iff.mp htodo.nil_eq.symm
    rw [hnone, List.map_nil, List.append_nil] at howed
    refine h.of_same ?_ rfl rfl h.recorded (@sound_set _ _ _ _ h.threads .idle trivial t)
      fun r hr => ?_
    · refine (outstanding_moveTo_perm (e := { e with
        releases := e.releases ++ [PinRelease.mk u.owed u.released] }) hpc .idle).trans ?_
      refine List.Perm.trans ?_ (outstanding_perm hpc).symm
      show ([] ++ e.othersOut t).Perm (u.left ++ e.othersOut t)
      rw [hnone]
    · rcases List.mem_append.mp hr with hr | hr
      · exact h.released r hr
      · rw [List.mem_singleton.mp hr]
        exact howed
  · rename_i location key todo hnext
    rw [hnext] at htodo
    -- a recorded place in a backend that pins is the place of a pin that is left
    have htoken : e.pins location = true → ∃ token ∈ u.left, token.place = (location, key) := by
      intro hpins
      rw [List.filter_cons_of_pos (by exact hpins)] at htodo
      exact List.mem_map.mp (htodo.mem_iff.mp List.mem_cons_self)
    unfold unpinKey
    cases hobj : e.pinnable location key with
    | none =>
      have hpins : ¬ e.pins location = true := by
        intro hpins
        obtain ⟨token, hin, hplace⟩ := htoken hpins
        cases hplace
        rw [hheld token hin] at hobj
        cases hobj
      rw [List.filter_cons_of_neg (by exact hpins)] at htodo
      exact h.of_moveTo hpc rfl ⟨htodo, howed⟩
    | some obj =>
      have hpins := pins_of_pinnable hobj
      obtain ⟨⟨loc, k, o⟩, hin, hplace⟩ := htoken hpins
      cases hplace
      obtain rfl : o = obj := Option.some.inj ((hheld _ hin).symm.trans hobj)
      rw [List.filter_cons_of_pos (by exact hpins)] at htodo
      have hleft := List.perm_cons_erase hin
      refine h.of_unpin hpc ⟨loc, k, o⟩ hleft ⟨?_, ?_⟩
      · exact (htodo.trans (hleft.map _)).cons_inv
      · refine List.Perm.trans ?_ howed
        show ((u.released ++ [o]) ++ _).Perm _
        rw [List.append_assoc, List.singleton_append]
        exact ((hleft.map PinToken.obj).symm).append_left _

/-! ### Puts and removes -/

/-- A change of what the backends hold that moves no outstanding pin's object. -/
theorem PinInv.of_backends (h : e.PinInv) {storageBackends : Dict String PinTier}
    (hpins : PinEngine.pins { e with storageBackends := storageBackends } = e.pins)
    (hstays : ∀ token ∈ e.outstanding, PinEngine.pinnable
      { e with storageBackends := storageBackends } token.location token.key = some token.obj) :
    PinEngine.PinInv { e with storageBackends := storageBackends } where
  pinned := hstays
  counted := h.counted
  recorded := by
    rw [hpins]
    exact h.recorded
  threads := by
    rw [hpins]
    exact h.threads
  released := h.released

/-- A backend that changes its keys stays of its kind. -/
theorem pins_set (htier : e.storageBackends.get? location = some tier)
    (cached : Dict CacheEngineKey Nat) :
    PinEngine.pins { e with
      storageBackends := e.storageBackends.set location { tier with cached := cached } } =
        e.pins := by
  funext other
  unfold pins
  rw [Dict.get?_set]
  by_cases h : other = location
  · subst h
    rw [if_pos rfl, htier]
  · rw [if_neg h]

/-- What can be pinned is cached. -/
theorem cached_of_pinnable (htier : e.storageBackends.get? location = some tier) {obj : Nat}
    (h : e.pinnable location key = some obj) : tier.cached.get? key = some obj := by
  unfold pinnable at h
  rw [htier] at h
  dsimp only at h
  split at h
  · cases h
  · exact h

/-- What is under a key after a backend has changed its keys. -/
theorem pinnable_set (htier : e.storageBackends.get? location = some tier)
    (cached : Dict CacheEngineKey Nat) (other : String) (key : CacheEngineKey) :
    PinEngine.pinnable { e with
      storageBackends := e.storageBackends.set location { tier with cached := cached } } other key =
        if other = location ∧ e.pins location = true then cached.get? key
        else e.pinnable other key := by
  unfold pinnable pins
  rw [Dict.get?_set, htier]
  by_cases h : other = location
  · subst h
    rw [if_pos rfl, htier]
    by_cases hkind : tier.kind = .ignored <;> simp [hkind]
  · rw [if_neg h, if_neg (fun hand => h hand.1)]

theorem pinInv_put (h : e.PinInv) (location : String) (key : CacheEngineKey) (obj : Nat) :
    (e.put location key obj).PinInv := by
  unfold put
  cases htier : e.storageBackends.get? location with
  | none => exact h
  | some tier =>
    dsimp only
    split
    · exact h
    · rename_i hnot
      refine h.of_backends (pins_set htier _) fun token htoken => ?_
      have hold := h.pinned token htoken
      rw [pinnable_set htier]
      split
      · -- the put key was not cached, so it is not the key of a pin
        rename_i hsame
        have hget := cached_of_pinnable htier (hsame.1 ▸ hold)
        have hne : token.key ≠ key := fun hkey =>
          hnot (hkey ▸ Dict.mem_iff_get?.mpr ⟨_, hget⟩)
        rw [Dict.get?_set, if_neg hne]
        exact hget
      · exact hold

theorem pinInv_remove (h : e.PinInv) (hok : ∀ obj ∈ e.pinnable location key, e.pinCount obj ≤ 0) :
    (e.remove location key).PinInv := by
  unfold remove
  cases htier : e.storageBackends.get? location with
  | none => exact h
  | some tier =>
    refine h.of_backends (pins_set htier _) fun token htoken => ?_
    have hold := h.pinned token htoken
    rw [pinnable_set htier]
    split
    · -- an object with an outstanding pin has a positive count, so its key stays
      rename_i hsame
      have hpos : 0 < e.pinCount token.obj := by
        have hcount : 0 < e.outstanding.countP fun t => t.obj = token.obj :=
          List.countP_pos_iff.mpr ⟨token, htoken, by simp⟩
        rw [h.counted]
        omega
      have hne : token.key ≠ key := fun hkey => by
        have := hok token.obj (by rw [← hkey, ← hsame.1]; exact hold)
        omega
      rw [Dict.get?_erase, if_neg hne]
      exact cached_of_pinnable htier (hsame.1 ▸ hold)
    · exact hold

/-! ### Every guarded run -/

/-- **Step lemma.** -/
theorem pinInv_step (e : PinEngine) (a : PinAction) (h : e.PinInv) (hok : e.Allowed a) :
    (e.step a).PinInv := by
  cases a with
  | lookup t lookupId chunks searchRange =>
    simp only [step]
    split
    · rename_i hpc
      exact pinInv_enterLookup h hpc lookupId chunks searchRange
    · exact h
  | lookupUnpin t lookupId =>
    simp only [step]
    split
    · rename_i hpc
      exact pinInv_enterUnpin h hpc lookupId
    · exact h
  | advance t =>
    simp only [step]
    split
    · rename_i l hpc
      have hallowed : e.LookupAllowed l := hok _ hpc
      unfold LookupAllowed at hallowed
      unfold advanceLookup
      split
      · rename_i hdone
        have hallowed := hallowed hdone
        split
        · rename_i hlayer
          rw [if_pos hlayer] at hallowed
          exact pinInv_concludeLayers h hpc hlayer hdone hallowed
        · rename_i hplain
          rw [if_neg hplain] at hallowed
          exact pinInv_concludePlain h hpc hdone hallowed
      · rename_i hback
        exact pinInv_checkNext h hpc hback
    · rename_i u hpc
      exact pinInv_advanceUnpin h hpc
    · exact h
  | skip t =>
    simp only [step]
    split
    · rename_i l hpc
      split
      · rename_i hzero
        exact pinInv_skip h hpc hzero
      · exact h
    · exact h
  | put location key obj => exact pinInv_put h location key obj
  | remove location key => exact pinInv_remove h hok

/-- **Pin balance.**  However lookups, unpins, puts and removes interleave, every `lookup_unpin`
releases each pin of the lookups of its id once, on the object pinned, and nothing else, as long as no
record of pins is replaced, every pinned layer ends up in a record, and no pinned key is removed. -/
theorem balanced_of_guarded (useLayerwise : Bool) (numLayers : Nat)
    (storageBackends : Dict String PinTier) (threads : Nat) (actions : List PinAction)
    (h : Guarded step Allowed (init useLayerwise numLayers storageBackends threads) actions) :
    Always step Balanced (init useLayerwise numLayers storageBackends threads) actions :=
  (always_of_guarded pinInv_step (pinInv_init useLayerwise numLayers storageBackends threads)
    h).mono fun _ hinv => hinv.balanced

/-! ### Where the balance is lost -/

/-- A chunk, outside the layerwise mode. -/
def pinChunk (chunkHash : Int) : CacheEngineKey := ⟨"m", 1, 0, chunkHash, .float16, none, none⟩

/-- A CPU cache with these keys, their objects numbered from 0. -/
def cpuTier (keys : List CacheEngineKey) : Dict String PinTier :=
  .ofPairs [("LocalCPUBackend", ⟨.memoryObj, .ofPairs keys.zipIdx⟩)]

/-- A lookup of one chunk by thread 0, up to its return. -/
def lookupOne (lookupId : String) (key : CacheEngineKey) : List PinAction :=
  [.lookup 0 lookupId [(key, 4)] none, .advance 0, .advance 0, .advance 0]

/-- Two lookups in turn, each released under its own id, with a put and a remove between them. -/
theorem balanced_of_guarded_sample :
    Always step Balanced (init false 0 (cpuTier [pinChunk 0, pinChunk 1]) 1)
      (lookupOne "a" (pinChunk 0) ++ [.remove "LocalCPUBackend" (pinChunk 1),
        .put "LocalCPUBackend" (pinChunk 1) 7] ++ lookupOne "b" (pinChunk 1) ++
        [.lookupUnpin 0 "a", .advance 0, .advance 0, .lookupUnpin 0 "b", .advance 0, .advance 0]) :=
  balanced_of_guarded false 0 _ 1 _ (by decide +kernel)

/-- A second lookup under the same id, a chunk with one of two layers cached, and a pinned key that is
removed and put again. -/
theorem not_balanced :
    ¬ Always step Balanced (init false 0 (cpuTier [pinChunk 0, pinChunk 1]) 1)
        (lookupOne "a" (pinChunk 0) ++ lookupOne "a" (pinChunk 1) ++
          [.lookupUnpin 0 "a", .advance 0, .advance 0]) ∧
      ¬ Always step Balanced (init true 2 (cpuTier ((pinChunk 0).splitLayers 1)) 1)
        (lookupOne "a" (pinChunk 0) ++ [.lookupUnpin 0 "a"]) ∧
      ¬ Always step Balanced (init false 0 (cpuTier [pinChunk 0]) 1)
        (lookupOne "a" (pinChunk 0) ++ [.remove "LocalCPUBackend" (pinChunk 0),
          .put "LocalCPUBackend" (pinChunk 0) 5, .lookupUnpin 0 "a", .advance 0, .advance 0]) := by
  refine ⟨fun h => ?_, fun h => ?_, fun h => ?_⟩
  · -- the first pin is owed, and not released
    have hlost : ¬ ∀ r ∈ (run step (init false 0 (cpuTier [pinChunk 0, pinChunk 1]) 1)
        (lookupOne "a" (pinChunk 0) ++ lookupOne "a" (pinChunk 1) ++
          [.lookupUnpin 0 "a", .advance 0, .advance 0])).releases, r.released.Perm r.owed := by
      decide +kernel
    exact hlost h.last.released
  · have hlost : ¬ ∀ r ∈ (run step (init true 2 (cpuTier ((pinChunk 0).splitLayers 1)) 1)
        (lookupOne "a" (pinChunk 0) ++ [.lookupUnpin 0 "a"])).releases,
          r.released.Perm r.owed := by
      decide +kernel
    exact hlost h.last.released
  · -- the object put later is unpinned in place of the pinned one
    have hlost : ¬ ∀ r ∈ (run step (init false 0 (cpuTier [pinChunk 0]) 1)
        (lookupOne "a" (pinChunk 0) ++ [.remove "LocalCPUBackend" (pinChunk 0),
          .put "LocalCPUBackend" (pinChunk 0) 5, .lookupUnpin 0 "a", .advance 0,
          .advance 0])).releases, r.released.Perm r.owed := by
      decide +kernel
    exact hlost h.last.released

end PinEngine

end LMCache
