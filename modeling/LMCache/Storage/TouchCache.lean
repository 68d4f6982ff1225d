/-
# LMCache.Storage.TouchCache — the keys of the lookups, touched at a later hold of the lock.

Source: `v1/storage_backend/local_cpu_backend.py`, `v1/storage_backend/local_disk_backend.py` and
`v1/storage_backend/cache_policy/`.

A pinned lookup appends the keys it finds to `keys_in_request`; `touch_cache` takes the lock again
and tells the policy of each of them, in reverse, so that LRU evicts the later chunks of a request
first. In between other threads take keys out.  The other methods look whether a key is still there
before they use it; `touch_cache` does not, and with a policy that has lost the key it raises, the
list stays, and so does every later call.  With LRU, the keys of several lookups in one list may
also leave the chunks of a request in the wrong order.

What a thread does under one hold of the lock is a section.  Those of both backends are listed
together; a run of one backend has the sections of that backend only.  The model leaves out what
goes to the controller, and the sizes that the disk backend counts.
-/
import LMCache.Lib.Run
import LMCache.Storage.CachePolicy
import Mathlib.Data.List.TakeWhile

namespace LMCache.Storage

open LMCache.Lib

/-! ## The backends -/

/-- Of a stored object, what decides whether it may be evicted. -/
structure CachedObj where
  pinCount : Int
  /-- There are references to it besides that of the cache. -/
  inUse : Bool
  deriving DecidableEq, Repr

namespace CachedObj

def pin (obj : CachedObj) : CachedObj := { obj with pinCount := obj.pinCount + 1 }

def canEvict (obj : CachedObj) : Bool := obj.pinCount ≤ 0 && !obj.inUse

end CachedObj

/-- What a thread does under one hold of the lock.  A lookup comes with the request it is of. -/
inductive Section where
  | contains (request : Nat) (key : CacheEngineKey) (pin : Bool)
  | batchedAsyncContains (request : Nat) (keys : List CacheEngineKey) (pin : Bool)
  | touchCache
  /-- `pin` and `unpin`, and references that are taken and given back. -/
  | change (key : CacheEngineKey) (obj : CachedObj)
  /-- `submit_put_task` of the CPU backend. -/
  | submitPutTask (key : CacheEngineKey) (obj : CachedObj)
  /-- The end of `submit_put_task` of the disk backend, and the end of its write. -/
  | acceptPut (key : CacheEngineKey)
  | insertKey (key : CacheEngineKey)
  /-- `get_blocking` of the disk backend, and one key of its `batched_get_non_blocking`. -/
  | getBlocking (key : CacheEngineKey)
  /-- `remove` with `force`; `clear` is one for each of its keys. -/
  | remove (key : CacheEngineKey)
  /-- `read_file` of the disk backend finds no file. -/
  | fileMissing (key : CacheEngineKey)
  /-- One turn of the loop of `allocate`, or of `submit_put_task` of the disk backend. -/
  | evictTurn
  /-- One turn of the loop of `batched_allocate`. -/
  | batchedAllocateTurn (batchSize : Nat)

structure TouchRun where
  cachePolicy : CachePolicy
  /-- `hot_cache`, or `dict` of the disk backend. -/
  dict : Dict CacheEngineKey CachedObj
  /-- For the statement only, each key with the request whose lookup listed it. -/
  keysInRequest : List (Nat × CacheEngineKey)

namespace TouchRun

def init (policy : CachePolicy) : TouchRun := ⟨policy, .empty, []⟩

/-- What the policy knows with the dictionary as it is. -/
def Knows (s : TouchRun) (key : CacheEngineKey) : Prop := s.cachePolicy.Knows s.dict key

instance (s : TouchRun) (key : CacheEngineKey) : Decidable (s.Knows key) :=
  inferInstanceAs (Decidable (s.cachePolicy.Knows s.dict key))

def contains (s : TouchRun) (request : Nat) (key : CacheEngineKey) (pin : Bool) :
    Bool × TouchRun :=
  match s.dict.get? key with
  | none => (false, s)
  | some obj =>
    if pin then
      (true, { s with
        dict := s.dict.set key obj.pin
        keysInRequest := s.keysInRequest ++ [(request, key)] })
    else (true, s)

/-- `batched_async_contains`: only prefix chunks are counted. -/
def batchedAsyncContains (s : TouchRun) (request : Nat) (pin : Bool) :
    List CacheEngineKey → Nat × TouchRun
  | [] => (0, s)
  | key :: keys =>
    match s.contains request key pin with
    | (false, s) => (0, s)
    | (true, s) =>
      let r := batchedAsyncContains s request pin keys
      (r.1 + 1, r.2)

/-- The loop of `touch_cache`; what was done before an exception stays done. -/
def touchKeys (p : CachePolicy) (d : Dict CacheEngineKey CachedObj) :
    List CacheEngineKey →
      Option (LFUError CacheEngineKey) × CachePolicy × Dict CacheEngineKey CachedObj
  | [] => (none, p, d)
  | key :: keys =>
    match p.updateOnHit key d with
    | .error e => (some e, p, d)
    | .ok (p, d) => touchKeys p d keys

/-- `touch_cache`: what it raises, and what it leaves. -/
def touchCache (s : TouchRun) : Option (LFUError CacheEngineKey) × TouchRun :=
  match touchKeys s.cachePolicy s.dict (s.keysInRequest.map Prod.snd).reverse with
  | (none, p, d) => (none, ⟨p, d, []⟩)
  | (some e, p, d) => (some e, { s with cachePolicy := p, dict := d })

def change (s : TouchRun) (key : CacheEngineKey) (obj : CachedObj) : TouchRun :=
  if key ∈ s.dict then { s with dict := s.dict.set key obj } else s

def submitPutTask (s : TouchRun) (key : CacheEngineKey) (obj : CachedObj) : TouchRun :=
  if key ∈ s.dict then s
  else { s with dict := s.dict.set key obj, cachePolicy := s.cachePolicy.updateOnPut key }

def acceptPut (s : TouchRun) (key : CacheEngineKey) : TouchRun :=
  { s with cachePolicy := s.cachePolicy.updateOnPut key }

/-- `update_on_hit` of one key, with what it raises. -/
def hit (s : TouchRun) (key : CacheEngineKey) : Option (LFUError CacheEngineKey) × TouchRun :=
  match s.cachePolicy.updateOnHit key s.dict with
  | .error e => (some e, s)
  | .ok (p, d) => (none, { s with cachePolicy := p, dict := d })

def insertKey (s : TouchRun) (key : CacheEngineKey) :
    Option (LFUError CacheEngineKey) × TouchRun :=
  if key ∈ s.dict then s.hit key
  else (none, { s with dict := s.dict.set key ⟨0, false⟩ })

def getBlocking (s : TouchRun) (key : CacheEngineKey) :
    Option (LFUError CacheEngineKey) × TouchRun :=
  if key ∈ s.dict then s.hit key else (none, s)

def remove (s : TouchRun) (key : CacheEngineKey) : TouchRun :=
  if key ∈ s.dict then
    { s with
      dict := s.dict.erase key
      cachePolicy := (s.cachePolicy.updateOnForceEvict key).2 }
  else s

/-- The policy is not told. -/
def fileMissing (s : TouchRun) (key : CacheEngineKey) : TouchRun :=
  { s with dict := s.dict.erase key }

def getEvictCandidates (s : TouchRun) :
    Except (LFUError CacheEngineKey) (List CacheEngineKey) × CachePolicy :=
  s.cachePolicy.getEvictCandidates CachedObj.canEvict s.dict

/-- A candidate is asked for, and removed without `force`. -/
def evictTurn (s : TouchRun) : TouchRun :=
  match s.getEvictCandidates with
  | (.error _, p) => { s with cachePolicy := p }
  | (.ok evictKeys, p) =>
    { s with cachePolicy := p, dict := evictKeys.foldl Dict.erase s.dict }

/-- The loop over the layers of a candidate; a layer that is not there is a `KeyError`, and ends it.
-/
def dropLayers (s : TouchRun) : List CacheEngineKey → TouchRun
  | [] => s
  | key :: keys =>
    if key ∈ s.dict then
      match s.cachePolicy.updateOnForceEvict key with
      | (some _, p) => { s with cachePolicy := p }
      | (none, p) => dropLayers { s with cachePolicy := p, dict := s.dict.erase key } keys
    else s

def batchedAllocateTurn (s : TouchRun) (batchSize : Nat) : TouchRun :=
  match s.getEvictCandidates with
  | (.error _, p) => { s with cachePolicy := p }
  | (.ok evictKeys, p) =>
    dropLayers { s with cachePolicy := p } (evictKeys.flatMap fun key => key.splitLayers batchSize)

def step (s : TouchRun) : Section → TouchRun
  | .contains request key pin => (s.contains request key pin).2
  | .batchedAsyncContains request keys pin => (s.batchedAsyncContains request pin keys).2
  | .touchCache => s.touchCache.2
  | .change key obj => s.change key obj
  | .submitPutTask key obj => s.submitPutTask key obj
  | .acceptPut key => s.acceptPut key
  | .insertKey key => (s.insertKey key).2
  | .getBlocking key => (s.getBlocking key).2
  | .remove key => s.remove key
  | .fileMissing key => s.fileMissing key
  | .evictTurn => s.evictTurn
  | .batchedAllocateTurn batchSize => s.batchedAllocateTurn batchSize

/-! ## The property -/

/-- The keys that the lookups of a request have listed. -/
def keysOf (listed : List (Nat × CacheEngineKey)) (request : Nat) : List CacheEngineKey :=
  (listed.filter fun e => e.1 = request).map Prod.snd

/-- The request has listed both keys, `a` before `b`. -/
def Earlier (listed : List (Nat × CacheEngineKey)) (request : Nat) (a b : CacheEngineKey) : Prop :=
  b ∈ keysOf listed request ∧ (keysOf listed request).idxOf a < (keysOf listed request).idxOf b

/-- In the list of all requests too, the keys of each stand in its own order. -/
def InOrder (listed : List (Nat × CacheEngineKey)) : Prop :=
  ∀ request a b, Earlier listed request a b →
    (listed.map Prod.snd).idxOf a < (listed.map Prod.snd).idxOf b

/-- `touch_cache`, if it is called now: it raises nothing, it forgets the keys, and of two keys of a
request LRU comes to the later one first. -/
structure TouchesWell (s : TouchRun) : Prop where
  returns : s.touchCache.1 = none
  resets : s.touchCache.2.keysInRequest = []
  ordered : s.cachePolicy = .lru → ∀ request a b, Earlier s.keysInRequest request a b →
    a ∈ s.touchCache.2.dict → b ∈ s.touchCache.2.dict → [b, a].Sublist s.touchCache.2.dict.keys

/-- The keys that a section lists. -/
def listedBy (s : TouchRun) : Section → List (Nat × CacheEngineKey)
  | .contains request key pin => if pin ∧ key ∈ s.dict then [(request, key)] else []
  | .batchedAsyncContains request keys pin =>
    if pin then (keys.takeWhile (· ∈ s.dict)).map fun key => (request, key) else []
  | _ => []

def candidates (s : TouchRun) : List CacheEngineKey :=
  match s.getEvictCandidates.1 with
  | .ok keys => keys
  | .error _ => []

/-- The layers that are taken out before the first that is not there. -/
def droppedLayers (d : Dict CacheEngineKey CachedObj) : List CacheEngineKey → List CacheEngineKey
  | [] => []
  | key :: keys => if key ∈ d then key :: droppedLayers (d.erase key) keys else []

/-- The keys that a section makes the policy forget.  LFU is told of its candidates and of removals;
the others forget what is taken out of the dictionary. -/
def takenOut (s : TouchRun) : Section → List CacheEngineKey
  | .remove key => if key ∈ s.dict then [key] else []
  | .fileMissing key =>
    match s.cachePolicy with
    | .lfu _ => []
    | .lru | .fifo | .mru => [key]
  | .evictTurn => s.candidates
  | .batchedAllocateTurn batchSize =>
    (match s.cachePolicy with
      | .lfu _ => s.candidates
      | .lru | .fifo | .mru => []) ++
      droppedLayers s.dict (s.candidates.flatMap fun key => key.splitLayers batchSize)
  | _ => []

/-- The section lists no key that the policy does not know, and takes out none that is listed; with
LRU, what it lists leaves the keys of each request in order.  FIFO does not look at the keys. -/
structure KeepsListed (s : TouchRun) (sec : Section) : Prop where
  known : ∀ e ∈ s.listedBy sec, s.Knows e.2
  inOrder : s.cachePolicy = .lru → InOrder (s.keysInRequest ++ s.listedBy sec)
  kept : s.cachePolicy = .fifo ∨ ∀ e ∈ s.keysInRequest, e.2 ∉ s.takenOut sec

/-! ## One call of `touch_cache` -/

variable {p : CachePolicy} {s : TouchRun} {taken : List CacheEngineKey} {sec : Section}
  {e : Nat × CacheEngineKey}

/-- The loop raises exactly when the policy does not know one of the keys, and changes nothing of
what it knows. -/
theorem touchKeys_spec (h : p.Bucketed) (d : Dict CacheEngineKey CachedObj)
    (keys : List CacheEngineKey) :
    ∃ e p' d', touchKeys p d keys = (e, p', d') ∧ p'.Bucketed ∧
      (p' = .lru ↔ p = .lru) ∧ (p' = .fifo ↔ p = .fifo) ∧
      (e = none ↔ ∀ k ∈ keys, p.Knows d k) ∧
      (e = none → p = .lru → d' = keys.foldl Dict.moveToEnd d) := by
  induction keys generalizing p d with
  | nil => exact ⟨none, p, d, rfl, h, Iff.rfl, Iff.rfl, by simp, fun _ _ => rfl⟩
  | cons key keys ih =>
    rcases CachePolicy.updateOnHit_spec h key d with
      ⟨hunknown, hhit⟩ | ⟨hknown, p', d', hhit, hp', hknows, hd', hlru, hfifo⟩
    · refine ⟨some (.key key), p, d, ?_, h, Iff.rfl, Iff.rfl, ?_, by simp⟩
      · unfold touchKeys
        rw [hhit]
      · exact iff_of_false (by simp) fun hall => hunknown (hall key List.mem_cons_self)
    · obtain ⟨e, p'', d'', hkeys, hp'', hlru', hfifo', hnone, hmoved⟩ := ih hp' d'
      refine ⟨e, p'', d'', ?_, hp'', hlru'.trans hlru, hfifo'.trans hfifo, ?_, ?_⟩
      · unfold touchKeys
        rw [hhit]
        exact hkeys
      · rw [hnone, List.forall_mem_cons]
        simp only [hknows, hknown, true_and]
      · intro he hp
        rw [hmoved he (hlru.mpr hp), hd' hp, List.foldl_cons]

/-- **One call**: it goes well exactly when the policy knows each listed key and, with LRU, the keys
of each request are in order. -/
theorem touchesWell_iff (h : s.cachePolicy.Bucketed) :
    s.TouchesWell ↔ (∀ e ∈ s.keysInRequest, s.Knows e.2) ∧
      (s.cachePolicy = .lru → InOrder s.keysInRequest) := by
  obtain ⟨e, p', d', hkeys, -, -, -, hnone, hmoved⟩ :=
    touchKeys_spec h s.dict (s.keysInRequest.map Prod.snd).reverse
  have hnone : e = none ↔ ∀ e ∈ s.keysInRequest, s.Knows e.2 := by
    rw [hnone]
    simp only [List.mem_reverse, List.forall_mem_map]
    rfl
  cases e with
  | some e =>
    have htouch : s.touchCache = (some e, { s with cachePolicy := p', dict := d' }) := by
      unfold touchCache
      rw [hkeys]
    refine iff_of_false (fun hwell => ?_) fun hboth => ?_
    · exact absurd hwell.returns (by simp [htouch])
    · exact absurd (hnone.mpr hboth.1) (by simp)
  | none =>
    have htouch : s.touchCache = (none, ⟨p', d', []⟩) := by
      unfold touchCache
      rw [hkeys]
    have hknown := hnone.mp rfl
    have hlisted {request : Nat} {a b : CacheEngineKey}
        (hab : Earlier s.keysInRequest request a b) :
        a ∈ s.keysInRequest.map Prod.snd ∧ b ∈ s.keysInRequest.map Prod.snd := by
      have hsub : keysOf s.keysInRequest request ⊆ s.keysInRequest.map Prod.snd :=
        List.map_subset _ (List.filter_subset_self _)
      exact ⟨hsub (List.idxOf_lt_length_iff.mp (hab.2.trans (List.idxOf_lt_length_iff.mpr hab.1))),
        hsub hab.1⟩
    have hin (hp : s.cachePolicy = .lru) : ∀ k ∈ s.keysInRequest.map Prod.snd, k ∈ s.dict := by
      intro k hk
      obtain ⟨e, he, rfl⟩ := List.mem_map.mp hk
      have hk := hknown e he
      unfold Knows at hk
      rw [hp] at hk
      exact hk
    have hd' (hp : s.cachePolicy = .lru) :
        d' = (s.keysInRequest.map Prod.snd).foldr (fun k d => d.moveToEnd k) s.dict := by
      rw [hmoved rfl hp, List.foldl_reverse]
    constructor
    · refine fun hwell => ⟨hknown, fun hp request a b hab => ?_⟩
      obtain ⟨ha, hb⟩ := hlisted hab
      have hordered := hwell.ordered hp request a b hab
      rw [htouch] at hordered
      dsimp only at hordered
      rw [hd' hp, Dict.mem_foldr_moveToEnd, Dict.mem_foldr_moveToEnd] at hordered
      have hordered := hordered (hin hp a ha) (hin hp b hb)
      by_contra hnot
      have hne : (s.keysInRequest.map Prod.snd).idxOf b ≠
          (s.keysInRequest.map Prod.snd).idxOf a := by
        intro heq
        rw [List.idxOf_inj hb] at heq
        exact absurd hab.2 (by simp [heq])
      -- in the other order, `touch_cache` would leave them the other way round
      exact Dict.not_sublist_swap _ hordered
        (Dict.sublist_foldr_moveToEnd (hin hp) (by omega) ha)
    · rintro ⟨-, horder⟩
      refine ⟨by rw [htouch], by rw [htouch], fun hp request a b hab _ _ => ?_⟩
      rw [htouch]
      dsimp only
      rw [hd' hp]
      exact Dict.sublist_foldr_moveToEnd (hin hp) (horder hp request a b hab) (hlisted hab).2

/-! ## What a section does -/

/-- From `s` to `s'` keys are listed, and keys are taken out; of the others the policy knows what it
knew. -/
structure Leaves (s s' : TouchRun) (listed : List (Nat × CacheEngineKey))
    (taken : List CacheEngineKey) : Prop where
  bucketed : s'.cachePolicy.Bucketed
  lru : s'.cachePolicy = .lru ↔ s.cachePolicy = .lru
  fifo : s'.cachePolicy = .fifo ↔ s.cachePolicy = .fifo
  listed : s'.keysInRequest = s.keysInRequest ++ listed
  knows : ∀ k, s.Knows k → (s'.Knows k ↔ s.cachePolicy = .fifo ∨ k ∉ taken)

theorem Leaves.refl (h : s.cachePolicy.Bucketed) : Leaves s s [] [] where
  bucketed := h
  lru := Iff.rfl
  fifo := Iff.rfl
  listed := (List.append_nil _).symm
  knows := fun _ hk => iff_of_true hk (.inr List.not_mem_nil)

theorem Leaves.trans {s₁ s₂ : TouchRun} {l₁ l₂ : List (Nat × CacheEngineKey)}
    (h₁ : Leaves s s₁ l₁ []) (h₂ : Leaves s₁ s₂ l₂ taken) : Leaves s s₂ (l₁ ++ l₂) taken where
  bucketed := h₂.bucketed
  lru := h₂.lru.trans h₁.lru
  fifo := h₂.fifo.trans h₁.fifo
  listed := by rw [h₂.listed, h₁.listed, List.append_assoc]
  knows := by
    intro k hk
    have hk₁ := (h₁.knows k hk).mpr (.inr List.not_mem_nil)
    rw [h₂.knows k hk₁, h₁.fifo]

/-- A key is written. -/
theorem leaves_set (h : s.cachePolicy.Bucketed) (key : CacheEngineKey) (obj : CachedObj)
    (listed : List (Nat × CacheEngineKey)) :
    Leaves s { s with dict := s.dict.set key obj, keysInRequest := s.keysInRequest ++ listed }
      listed [] where
  bucketed := h
  lru := Iff.rfl
  fifo := Iff.rfl
  listed := rfl
  knows := by
    intro k hk
    refine iff_of_true ?_ (.inr List.not_mem_nil)
    unfold Knows CachePolicy.Knows at *
    cases hp : s.cachePolicy with
    | lru | mru =>
      rw [hp] at hk
      exact (Dict.mem_set _ _ _ _).mpr (.inr hk)
    | fifo => trivial
    | lfu q =>
      rw [hp] at hk
      exact hk

/-- The policy is told of a put. -/
theorem leaves_updateOnPut (h : s.cachePolicy.Bucketed) (key : CacheEngineKey) :
    Leaves s { s with cachePolicy := s.cachePolicy.updateOnPut key } [] [] := by
  obtain ⟨hb, hknows, hlru, hfifo⟩ := CachePolicy.updateOnPut_spec (ν := CachedObj) h key
  exact ⟨hb, hlru, hfifo, (List.append_nil _).symm,
    fun k hk => iff_of_true (hknows s.dict k hk) (.inr List.not_mem_nil)⟩

theorem leaves_contains (h : s.cachePolicy.Bucketed) (request : Nat) (key : CacheEngineKey)
    (pin : Bool) :
    Leaves s (s.contains request key pin).2
      (if pin ∧ key ∈ s.dict then [(request, key)] else []) [] := by
  unfold contains
  cases hget : s.dict.get? key with
  | none =>
    have hkey : key ∉ s.dict := Dict.get?_eq_none.mp hget
    rw [if_neg fun hboth => hkey hboth.2]
    exact .refl h
  | some obj =>
    have hkey : key ∈ s.dict := Dict.mem_iff_get?.mpr ⟨obj, hget⟩
    cases pin with
    | false => exact .refl h
    | true =>
      rw [if_pos ⟨rfl, hkey⟩]
      exact leaves_set h key obj.pin [(request, key)]

theorem leaves_batchedAsyncContains (h : s.cachePolicy.Bucketed) (request : Nat) (pin : Bool)
    (keys : List CacheEngineKey) :
    Leaves s (s.batchedAsyncContains request pin keys).2
      (if pin then (keys.takeWhile (· ∈ s.dict)).map fun key => (request, key) else []) [] := by
  induction keys generalizing s with
  | nil =>
    rw [List.takeWhile_nil, List.map_nil, ite_self]
    exact .refl h
  | cons key keys ih =>
    have hfirst := leaves_contains h request key pin
    unfold batchedAsyncContains
    by_cases hkey : key ∈ s.dict
    · obtain ⟨obj, hget⟩ := Dict.mem_iff_get?.mp hkey
      have hfound : (s.contains request key pin).1 = true := by
        unfold contains
        rw [hget]
        cases pin <;> rfl
      -- a pin writes a key that is there, and takes none out
      have hsame (k : CacheEngineKey) : k ∈ (s.contains request key pin).2.dict ↔ k ∈ s.dict := by
        unfold contains
        rw [hget]
        cases pin with
        | false => rfl
        | true =>
          refine (Dict.mem_set _ _ _ _).trans ⟨fun hk => ?_, .inr⟩
          rcases hk with rfl | hk
          · exact hkey
          · exact hk
      generalize s.contains request key pin = r at hfirst hfound hsame
      obtain ⟨found, s₁⟩ := r
      subst hfound
      have hrest := hfirst.trans (ih hfirst.bucketed)
      simp only [hsame] at hrest
      cases pin with
      | false => simpa using hrest
      | true => simpa [hkey] using hrest
    · have hget := Dict.get?_eq_none.mpr hkey
      have hmiss : s.contains request key pin = (false, s) := by
        unfold contains
        rw [hget]
      rw [hmiss, List.takeWhile_cons_of_neg (by simpa using hkey), List.map_nil, ite_self]
      exact .refl h

/-- The policy is told of a hit, or raises. -/
theorem leaves_hit (h : s.cachePolicy.Bucketed) (key : CacheEngineKey) :
    Leaves s (s.hit key).2 [] [] := by
  unfold hit
  rcases CachePolicy.updateOnHit_spec h key s.dict with
    ⟨-, hhit⟩ | ⟨-, p', d', hhit, hp', hknows, -, hlru, hfifo⟩
  · rw [hhit]
    exact .refl h
  · rw [hhit]
    exact ⟨hp', hlru, hfifo, (List.append_nil _).symm,
      fun k hk => iff_of_true ((hknows k).mpr hk) (.inr List.not_mem_nil)⟩

theorem leaves_remove (h : s.cachePolicy.Bucketed) (key : CacheEngineKey) :
    Leaves s (s.remove key) [] (if key ∈ s.dict then [key] else []) := by
  unfold remove
  by_cases hkey : key ∈ s.dict
  · obtain ⟨p', hforce, hp', hknows, hlru, hfifo⟩ :=
      CachePolicy.updateOnForceEvict_spec (ν := CachedObj) h key
    rw [if_pos hkey, if_pos hkey, hforce]
    refine ⟨hp', hlru, hfifo, (List.append_nil _).symm, fun k hk => ?_⟩
    rw [List.mem_singleton]
    exact (hknows s.dict k).trans (and_iff_right hk)
  · rw [if_neg hkey, if_neg hkey]
    exact .refl h

theorem leaves_fileMissing (h : s.cachePolicy.Bucketed) (key : CacheEngineKey) :
    Leaves s (s.fileMissing key) [] (s.takenOut (.fileMissing key)) := by
  refine ⟨h, Iff.rfl, Iff.rfl, (List.append_nil _).symm, fun k hk => ?_⟩
  unfold Knows CachePolicy.Knows fileMissing takenOut at *
  dsimp only
  cases hp : s.cachePolicy with
  | lru | mru =>
    rw [hp] at hk
    simp only [reduceCtorEq, false_or, List.mem_singleton]
    exact (Dict.mem_erase _ _ _).trans (and_iff_left hk)
  | fifo => exact iff_of_true trivial (.inl rfl)
  | lfu q =>
    rw [hp] at hk
    exact iff_of_true hk (.inr List.not_mem_nil)

/-- The choice of candidates raises and changes nothing, or LFU forgets the candidates. -/
theorem getEvictCandidates_cases (h : s.cachePolicy.Bucketed) :
    (∃ e, s.getEvictCandidates = (.error e, s.cachePolicy) ∧ s.candidates = []) ∨
      ∃ p, s.getEvictCandidates = (.ok s.candidates, p) ∧ p.Bucketed ∧
        (p = .lru ↔ s.cachePolicy = .lru) ∧ (p = .fifo ↔ s.cachePolicy = .fifo) ∧
        ∀ (d : Dict CacheEngineKey CachedObj) k, p.Knows d k ↔
          s.cachePolicy.Knows d k ∧ ((∀ q, s.cachePolicy ≠ .lfu q) ∨ k ∉ s.candidates) := by
  obtain ⟨hb, hlru, hfifo, hkeys⟩ :=
    CachePolicy.getEvictCandidates_spec h CachedObj.canEvict s.dict
  unfold candidates getEvictCandidates
  generalize s.cachePolicy.getEvictCandidates CachedObj.canEvict s.dict = r at *
  obtain ⟨chosen, p⟩ := r
  cases chosen with
  | error e => exact .inl ⟨e, congrArg (Prod.mk _) hkeys, rfl⟩
  | ok keys => exact .inr ⟨p, rfl, hb, hlru, hfifo, hkeys⟩

/-- What the policies other than LFU know is what is in the dictionary. -/
theorem knows_of_mem_iff (hp : ∀ q, p ≠ .lfu q) {d d' : Dict CacheEngineKey CachedObj}
    {k : CacheEngineKey} (hd : k ∈ d' ↔ k ∈ d ∧ k ∉ taken) :
    p.Knows d' k ↔ p.Knows d k ∧ (p = .fifo ∨ k ∉ taken) := by
  match p with
  | .lru | .mru => simpa [CachePolicy.Knows] using hd
  | .fifo => simp [CachePolicy.Knows]
  | .lfu q => exact absurd rfl (hp q)

theorem mem_foldl_erase (d : Dict CacheEngineKey CachedObj) (keys : List CacheEngineKey)
    (k : CacheEngineKey) : k ∈ keys.foldl Dict.erase d ↔ k ∈ d ∧ k ∉ keys := by
  rw [Dict.mem_iff_get?, Dict.get?_foldl_erase, Dict.mem_iff_get?]
  by_cases hk : k ∈ keys
  · simp [hk]
  · simp [hk]

theorem leaves_evictTurn (h : s.cachePolicy.Bucketed) : Leaves s s.evictTurn [] s.candidates := by
  unfold evictTurn
  rcases getEvictCandidates_cases h with ⟨e, hget, hnone⟩ | ⟨p, hget, hb, hlru, hfifo, hknows⟩
  · rw [hget, hnone]
    exact .refl h
  · rw [hget]
    refine ⟨hb, hlru, hfifo, (List.append_nil _).symm, fun k hk => ?_⟩
    refine (hknows _ k).trans ?_
    by_cases hp : ∀ q, s.cachePolicy ≠ .lfu q
    · rw [and_iff_left (.inl hp), knows_of_mem_iff hp (mem_foldl_erase s.dict s.candidates k)]
      exact and_iff_right hk
    · -- LFU has forgotten its candidates when it chose them
      obtain ⟨q, hp⟩ := not_forall_not.mp hp
      unfold Knows at hk
      rw [hp] at hk ⊢
      have hk : k ∈ q.keyToFreq := hk
      simp [CachePolicy.Knows, hk]

/-- The layers that the loop drops are forgotten, and no others. -/
theorem dropLayers_spec (h : s.cachePolicy.Bucketed) (keys : List CacheEngineKey) :
    (s.dropLayers keys).cachePolicy.Bucketed ∧
      ((s.dropLayers keys).cachePolicy = .lru ↔ s.cachePolicy = .lru) ∧
      ((s.dropLayers keys).cachePolicy = .fifo ↔ s.cachePolicy = .fifo) ∧
      (s.dropLayers keys).keysInRequest = s.keysInRequest ∧
      ∀ k, (s.dropLayers keys).Knows k ↔
        s.Knows k ∧ (s.cachePolicy = .fifo ∨ k ∉ droppedLayers s.dict keys) := by
  induction keys generalizing s with
  | nil => exact ⟨h, Iff.rfl, Iff.rfl, rfl, fun k => (and_iff_left (.inr List.not_mem_nil)).symm⟩
  | cons key keys ih =>
    unfold dropLayers droppedLayers
    by_cases hkey : key ∈ s.dict
    · obtain ⟨p', hforce, hp', hknows, hlru, hfifo⟩ :=
        CachePolicy.updateOnForceEvict_spec (ν := CachedObj) h key
      rw [if_pos hkey, if_pos hkey, hforce]
      dsimp only
      obtain ⟨hb, hlru', hfifo', hlisted, hknows'⟩ :=
        ih (s := { s with cachePolicy := p', dict := s.dict.erase key }) hp'
      refine ⟨hb, hlru'.trans hlru, hfifo'.trans hfifo, hlisted, fun k => ?_⟩
      rw [hknows' k, List.mem_cons, not_or]
      have hfirst : p'.Knows (s.dict.erase key) k ↔ s.Knows k ∧ (s.cachePolicy = .fifo ∨ k ≠ key) :=
        hknows s.dict k
      show p'.Knows (s.dict.erase key) k ∧ _ ↔ _
      rw [hfirst, hfifo, and_assoc, ← or_and_left]
    · rw [if_neg hkey, if_neg hkey]
      exact ⟨h, Iff.rfl, Iff.rfl, rfl, fun k => (and_iff_left (.inr List.not_mem_nil)).symm⟩

theorem leaves_batchedAllocateTurn (h : s.cachePolicy.Bucketed) (batchSize : Nat) :
    Leaves s (s.batchedAllocateTurn batchSize) []
      (s.takenOut (.batchedAllocateTurn batchSize)) := by
  unfold batchedAllocateTurn takenOut
  rcases getEvictCandidates_cases h with ⟨e, hget, hnone⟩ | ⟨p, hget, hb, hlru, hfifo, hknows⟩
  · rw [hget, hnone]
    refine ⟨h, Iff.rfl, Iff.rfl, (List.append_nil _).symm, fun k hk => iff_of_true hk (.inr ?_)⟩
    cases s.cachePolicy <;> exact List.not_mem_nil
  · rw [hget]
    dsimp only
    obtain ⟨hb', hlru', hfifo', hlisted, hknows'⟩ :=
      dropLayers_spec (s := { s with cachePolicy := p }) hb
        (s.candidates.flatMap fun key => key.splitLayers batchSize)
    refine ⟨hb', hlru'.trans hlru, hfifo'.trans hfifo, hlisted.trans (List.append_nil _).symm,
      fun k hk => ?_⟩
    have hfirst : p.Knows s.dict k ↔ (∀ q, s.cachePolicy ≠ .lfu q) ∨ k ∉ s.candidates :=
      (hknows s.dict k).trans (and_iff_right hk)
    refine (hknows' k).trans ?_
    show p.Knows s.dict k ∧ (p = .fifo ∨ _) ↔ _
    rw [hfirst, hfifo]
    cases hp : s.cachePolicy with
    | lru | fifo | mru => simp
    | lfu q => simp

/-- **One section** other than `touch_cache`. -/
theorem leaves_step (h : s.cachePolicy.Bucketed) (hsec : sec ≠ .touchCache) :
    Leaves s (s.step sec) (s.listedBy sec) (s.takenOut sec) := by
  match sec with
  | .contains request key pin => exact leaves_contains h request key pin
  | .batchedAsyncContains request keys pin => exact leaves_batchedAsyncContains h request pin keys
  | .touchCache => exact absurd rfl hsec
  | .change key obj =>
    show Leaves s (s.change key obj) [] []
    unfold change
    split
    · simpa using leaves_set h key obj []
    · exact .refl h
  | .submitPutTask key obj =>
    show Leaves s (s.submitPutTask key obj) [] []
    unfold submitPutTask
    split
    · exact .refl h
    · have hset := leaves_set h key obj []
      rw [List.append_nil] at hset
      exact hset.trans (leaves_updateOnPut hset.bucketed key)
  | .acceptPut key => exact leaves_updateOnPut h key
  | .insertKey key =>
    show Leaves s (s.insertKey key).2 [] []
    unfold insertKey
    split
    · exact leaves_hit h key
    · simpa using leaves_set h key ⟨0, false⟩ []
  | .getBlocking key =>
    show Leaves s (s.getBlocking key).2 [] []
    unfold getBlocking
    split
    · exact leaves_hit h key
    · exact .refl h
  | .remove key => exact leaves_remove h key
  | .fileMissing key => exact leaves_fileMissing h key
  | .evictTurn => exact leaves_evictTurn h
  | .batchedAllocateTurn batchSize => exact leaves_batchedAllocateTurn h batchSize

/-- A call of `touch_cache` that goes well leaves no keys. -/
theorem bucketed_touchCache (h : s.cachePolicy.Bucketed) : s.touchCache.2.cachePolicy.Bucketed := by
  obtain ⟨e, p', d', hkeys, hp', -⟩ :=
    touchKeys_spec h s.dict (s.keysInRequest.map Prod.snd).reverse
  unfold touchCache
  rw [hkeys]
  cases e with
  | none => exact hp'
  | some e => exact hp'

theorem bucketed_step (h : s.cachePolicy.Bucketed) (sec : Section) :
    (s.step sec).cachePolicy.Bucketed := by
  by_cases hsec : sec = .touchCache
  · rw [hsec]
    exact bucketed_touchCache h
  · exact (leaves_step h hsec).bucketed

/-- A lookup lists keys that are in the dictionary, and leaves the policy as it is. -/
theorem mem_of_mem_listedBy (he : e ∈ s.listedBy sec) :
    e.2 ∈ s.dict ∧ (s.step sec).cachePolicy = s.cachePolicy := by
  have hpolicy (s : TouchRun) (request : Nat) (key : CacheEngineKey) (pin : Bool) :
      (s.contains request key pin).2.cachePolicy = s.cachePolicy := by
    unfold contains
    split
    · rfl
    · split <;> rfl
  cases sec with
  | contains request key pin =>
    simp only [listedBy, List.mem_ite_nil_right, List.mem_singleton] at he
    obtain ⟨⟨-, hkey⟩, rfl⟩ := he
    exact ⟨hkey, hpolicy s request key pin⟩
  | batchedAsyncContains request keys pin =>
    simp only [listedBy, List.mem_ite_nil_right, List.mem_map] at he
    obtain ⟨-, key, hkey, rfl⟩ := he
    refine ⟨by simpa using List.mem_takeWhile_imp hkey, ?_⟩
    show (s.batchedAsyncContains request pin keys).2.cachePolicy = s.cachePolicy
    clear hkey
    induction keys generalizing s with
    | nil => rfl
    | cons key keys ih =>
      unfold batchedAsyncContains
      have hfirst := hpolicy s request key pin
      generalize s.contains request key pin = r at hfirst
      obtain ⟨found, s₁⟩ := r
      cases found with
      | false => exact hfirst
      | true => exact ih.trans hfirst
  | _ => exact absurd he List.not_mem_nil

/-- What a lookup lists, the policy knew before if it knows it after. -/
theorem knows_of_mem_listedBy (he : e ∈ s.listedBy sec) (hknows : (s.step sec).Knows e.2) :
    s.Knows e.2 := by
  obtain ⟨hmem, hpolicy⟩ := mem_of_mem_listedBy he
  unfold Knows at *
  rw [hpolicy] at hknows
  match s.cachePolicy, hknows with
  | .lru, _ => exact hmem
  | .mru, _ => exact hmem
  | .fifo, _ => trivial
  | .lfu q, hknows => exact hknows

/-- A section that lists keys takes none out. -/
theorem takenOut_of_listedBy (he : e ∈ s.listedBy sec) : s.takenOut sec = [] := by
  cases sec with
  | contains | batchedAsyncContains => rfl
  | _ => exact absurd he List.not_mem_nil

/-- **One section** keeps what `touch_cache` needs exactly when it lists nothing that the policy
does not know and takes out nothing that is listed. -/
theorem touchesWell_step_iff (h : s.cachePolicy.Bucketed) (hs : s.TouchesWell) (sec : Section) :
    (s.step sec).TouchesWell ↔ s.KeepsListed sec := by
  have hwell := (touchesWell_iff h).mp hs
  rw [touchesWell_iff (bucketed_step h sec)]
  by_cases hsec : sec = .touchCache
  · subst hsec
    have hlisted : (s.step .touchCache).keysInRequest = [] := hs.resets
    rw [hlisted]
    refine iff_of_true ⟨by simp, fun _ request a b hab => ?_⟩ ⟨?_, fun hp => ?_, .inr ?_⟩
    · exact absurd hab.1 List.not_mem_nil
    · exact fun e he => absurd he List.not_mem_nil
    · simpa [listedBy] using hwell.2 hp
    · exact fun e _ => List.not_mem_nil
  · obtain ⟨-, hlru, hfifo, hlisted, hknows⟩ := leaves_step h hsec
    rw [hlisted, hlru, List.forall_mem_append]
    constructor
    · rintro ⟨⟨hold, hnew⟩, horder⟩
      refine ⟨fun e he => knows_of_mem_listedBy he (hnew e he), horder, ?_⟩
      by_cases hp : s.cachePolicy = .fifo
      · exact .inl hp
      · exact .inr fun e he =>
          ((hknows e.2 (hwell.1 e he)).mp (hold e he)).resolve_left hp
    · rintro ⟨hknown, horder, hkept⟩
      refine ⟨⟨fun e he => ?_, fun e he => ?_⟩, horder⟩
      · exact (hknows e.2 (hwell.1 e he)).mpr (hkept.imp_right fun hkept => hkept e he)
      · refine (hknows e.2 (hknown e he)).mpr (.inr ?_)
        rw [takenOut_of_listedBy he]
        exact List.not_mem_nil

theorem touchesWell_init (h : p.Bucketed) : (init p).TouchesWell := by
  rw [touchesWell_iff h]
  exact ⟨fun e he => absurd he List.not_mem_nil, fun _ _ _ _ hab => absurd hab.1 List.not_mem_nil⟩

/-! ## Runs -/

theorem bucketed_of_getCachePolicy {policyName : String}
    (h : CachePolicy.getCachePolicy policyName = .ok p) : p.Bucketed := by
  unfold CachePolicy.getCachePolicy at h
  split at h
  · cases h
  · split at h
    · rename_i hlookup
      cases h
      obtain ⟨before, after, hsplit, -⟩ := List.lookup_eq_some_iff.mp hlookup
      exact CachePolicy.bucketed_of_mem_policyMapping (policyName, _) (by simp [hsplit])
    · cases h

end TouchRun

end LMCache.Storage
