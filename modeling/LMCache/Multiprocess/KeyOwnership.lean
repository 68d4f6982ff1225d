/-
# LMCache.Multiprocess.KeyOwnership — who has a key, and who has its object.

A reservation is outstanding from the section of `reserve` that marks its first key to the section
that commits or clears it.  The keys of the outstanding reservations, the committed keys and the
objects that go with them are one ledger, and each section makes one of its moves.

Two sections fall outside the moves.  `clear` empties the set of reserved keys without a look at the
calls that have marked some and are not yet over; and a call that finds no memory raises with its
keys still marked.
-/
import LMCache.Lib.Ledger
import LMCache.Multiprocess.MPStorageManager

namespace LMCache.Multiprocess

open LMCache.Lib LMCache.Memory

/-! ## What is held -/

/-- The object is there as the allocator built it: valid, with one reference and no pin. -/
def HoldsFresh (a : LazyMemoryAllocator) (i : Nat) : Prop :=
  ∃ o, a.pool.objs[i]? = some o ∧ LazyMemoryAllocator.Fresh o

theorem HoldsFresh.lt {a : LazyMemoryAllocator} {i : Nat} (h : HoldsFresh a i) :
    i < a.pool.objs.length := by
  obtain ⟨o, ho, -⟩ := h
  exact (List.getElem?_eq_some_iff.mp ho).1

namespace Reserve

/-- The objects that a call has and has not yet put into a pool. -/
def objects (r : Reserve) : List Nat :=
  match r.stage with
  | .confirming objects => objects
  | _ => []

/-- A call that asks for memory has marked a key, and gets an object for each of its keys. -/
def Counted (r : Reserve) : Prop :=
  match r.stage with
  | .marking _ => True
  | .evicting => 0 < r.numObjectsToAllocate
  | .confirming objects =>
    0 < r.numObjectsToAllocate ∧ objects.length = r.numObjectsToAllocate

theorem marked_look (r : Reserve) (key : StorageKey) (marks : Bool) (todo : List StorageKey) :
    (r.look key marks todo).marked = r.marked ++ if marks then [key] else [] := by
  unfold marked look
  rw [List.filter_append, List.map_append]
  match marks with
  | true => rfl
  | false => rfl

end Reserve

namespace MPStorageManager

/-- The keys and objects in the pools. -/
def pooled (s : MPStorageManager) : List (StorageKey × Nat) :=
  s.reservedMemoryObjectPools.values.flatMap Dict.entries

/-- The keys that calls under way have marked. -/
def marked (s : MPStorageManager) : List StorageKey := s.reserving.values.flatMap Reserve.marked

/-- The objects that calls under way have. -/
def taken (s : MPStorageManager) : List Nat := s.reserving.values.flatMap Reserve.objects

/-- All objects of the manager. -/
def held (s : MPStorageManager) : List Nat :=
  s.commitedMemoryObjects.entries.map Prod.snd ++ (s.pooled.map Prod.snd ++ s.taken)

/-- The books of the manager are in order, and so are the calls under way. -/
structure Kept (s : MPStorageManager) : Prop where
  ledger : Ledger s.commitedMemoryObjects.entries s.pooled s.marked s.taken s.reservedKeys
    (HoldsFresh s.memoryAllocator)
  counted : ∀ handle r, s.reserving.get? handle = some r → r.Counted
  drawn : ∀ handle, handle ∈ s.reserving ∨ handle ∈ s.reservedMemoryObjectPools →
    handle < s.reserveHandle
  apart : ∀ handle ∈ s.reserving, handle ∉ s.reservedMemoryObjectPools
  memory : s.memoryAllocator.WellFormed

theorem wellFormed_initMemory (sizeInBytes : Nat) (disableLazyAlloc : Bool) :
    (init sizeInBytes disableLazyAlloc).memoryAllocator.WellFormed := by
  unfold init
  match disableLazyAlloc with
  | true => exact LazyMemoryAllocator.wellFormed_whole sizeInBytes
  | false => exact LazyMemoryAllocator.wellFormed_init (Nat.min_le_right _ _)

theorem kept_init (sizeInBytes : Nat) (disableLazyAlloc : Bool) :
    Kept (init sizeInBytes disableLazyAlloc) where
  ledger := Ledger.nil
  counted := fun _ _ h => (nomatch h)
  drawn := by
    rintro handle (h | h)
    · exact absurd h (Dict.not_mem_empty handle)
    · exact absurd h (Dict.not_mem_empty handle)
  apart := fun handle h => absurd h (Dict.not_mem_empty handle)
  memory := wellFormed_initMemory sizeInBytes disableLazyAlloc

/-! ## A call goes on -/

variable {handle : Nat} {r : Reserve} {s : MPStorageManager} {reserved : Finset StorageKey}

/-- What the calls other than this one have marked, and what they have. -/
theorem marked_perm (hr : s.reserving.get? handle = some r) :
    s.marked.Perm (r.marked ++ (s.reserving.erase handle).values.flatMap Reserve.marked) :=
  Dict.flatMap_values_perm_erase Reserve.marked hr

theorem taken_perm (hr : s.reserving.get? handle = some r) :
    s.taken.Perm (r.objects ++ (s.reserving.erase handle).values.flatMap Reserve.objects) :=
  Dict.flatMap_values_perm_erase Reserve.objects hr

/-- **A call under way goes on.**  What it does to its own keys and objects is a move of the ledger,
whatever the other calls have. -/
theorem Kept.goesOn (h : s.Kept) {r' : Reserve} (hr : s.reserving.get? handle = some r)
    (hcounted : r'.Counted) (hmove : ∀ marked taken,
      Ledger s.commitedMemoryObjects.entries s.pooled (r.marked ++ marked) (r.objects ++ taken)
        s.reservedKeys (HoldsFresh s.memoryAllocator) →
      (∀ i ∈ taken, i ∈ s.taken) →
      Ledger s.commitedMemoryObjects.entries s.pooled (r'.marked ++ marked) (r'.objects ++ taken)
        reserved (HoldsFresh s.memoryAllocator)) :
    Kept { s with reservedKeys := reserved, reserving := s.reserving.set handle r' } := by
  have hmem : handle ∈ s.reserving := Dict.mem_iff_get?.mpr ⟨r, hr⟩
  have hled := h.ledger.perm (List.Perm.refl _) (List.Perm.refl _) (marked_perm hr) (taken_perm hr)
  have hin : ∀ i ∈ (s.reserving.erase handle).values.flatMap Reserve.objects, i ∈ s.taken :=
    fun i hi => (taken_perm hr).mem_iff.mpr (List.mem_append_right _ hi)
  refine ⟨?_, ?_, ?_, ?_, h.memory⟩
  · exact (hmove _ _ hled hin).perm (List.Perm.refl _) (List.Perm.refl _)
      (Dict.flatMap_values_perm_set Reserve.marked s.reserving handle r').symm
      (Dict.flatMap_values_perm_set Reserve.objects s.reserving handle r').symm
  · intro handle' r'' hget
    dsimp only at hget
    rw [Dict.get?_set] at hget
    split at hget
    · cases hget
      exact hcounted
    · exact h.counted handle' r'' hget
  · intro handle' hor
    dsimp only at hor
    rw [Dict.mem_set] at hor
    rcases hor with (rfl | hin) | hin
    · exact h.drawn handle' (.inl hmem)
    · exact h.drawn handle' (.inl hin)
    · exact h.drawn handle' (.inr hin)
  · intro handle' hor
    dsimp only at hor
    rw [Dict.mem_set] at hor
    rcases hor with rfl | hin
    · exact h.apart handle' hmem
    · exact h.apart handle' hin

/-- A call is over. -/
theorem Kept.leaves (h : s.Kept) (hr : s.reserving.get? handle = some r)
    {pool : Dict StorageKey Nat} (hkeys : pool.entries.map Prod.fst = r.marked)
    (hobjs : pool.entries.map Prod.snd = r.objects) : Kept (s.leavePool handle pool) := by
  have hmem : handle ∈ s.reserving := Dict.mem_iff_get?.mpr ⟨r, hr⟩
  have hled := h.ledger.perm (List.Perm.refl _) (List.Perm.refl _) (marked_perm hr) (taken_perm hr)
  rw [← hkeys, ← hobjs] at hled
  refine ⟨?_, ?_, ?_, ?_, h.memory⟩
  · have hpools : (s.leavePool handle pool).pooled = s.pooled ++ pool.entries := by
      unfold pooled leavePool
      dsimp only
      rw [Dict.values_set_of_notMem (h.apart handle hmem), List.flatMap_append,
        List.flatMap_singleton]
    rw [hpools]
    exact hled.confirm
  · intro handle' r' hget
    unfold leavePool at hget
    dsimp only at hget
    rw [Dict.get?_erase] at hget
    split at hget
    · cases hget
    · exact h.counted handle' r' hget
  · intro handle' hor
    unfold leavePool at hor
    dsimp only at hor
    rw [Dict.mem_set, Dict.mem_erase] at hor
    rcases hor with ⟨-, hin⟩ | rfl | hin
    · exact h.drawn handle' (.inl hin)
    · exact h.drawn handle' (.inl hmem)
    · exact h.drawn handle' (.inr hin)
  · intro handle' hin
    unfold leavePool at hin ⊢
    dsimp only at hin ⊢
    rw [Dict.mem_erase] at hin
    rw [Dict.mem_set, not_or]
    exact ⟨hin.1, h.apart handle' hin.2⟩

/-- A call begins. -/
theorem kept_reserve (h : s.Kept) (keys : List StorageKey) (shape : TorchSize) (dtype : TorchDtype)
    (fmt : KvFormat) : Kept (s.reserve keys shape dtype fmt) := by
  have hnew : s.reserveHandle ∉ s.reserving := fun hin => Nat.lt_irrefl _ (h.drawn _ (.inl hin))
  have hpool : s.reserveHandle ∉ s.reservedMemoryObjectPools :=
    fun hin => Nat.lt_irrefl _ (h.drawn _ (.inr hin))
  have hmarked : (s.reserve keys shape dtype fmt).marked = s.marked := by
    unfold marked reserve
    dsimp only
    rw [Dict.values_set_of_notMem hnew, List.flatMap_append]
    exact List.append_nil _
  have htaken : (s.reserve keys shape dtype fmt).taken = s.taken := by
    unfold taken reserve
    dsimp only
    rw [Dict.values_set_of_notMem hnew, List.flatMap_append]
    exact List.append_nil _
  refine ⟨?_, ?_, ?_, ?_, h.memory⟩
  · rw [hmarked, htaken]
    exact h.ledger
  · intro handle r hget
    unfold reserve at hget
    dsimp only at hget
    rw [Dict.get?_set] at hget
    split at hget
    · cases hget
      trivial
    · exact h.counted handle r hget
  · intro handle hor
    show handle < s.reserveHandle + 1
    unfold reserve at hor
    dsimp only at hor
    rw [Dict.mem_set] at hor
    rcases hor with (rfl | hin) | hin
    · exact Nat.lt_succ_self _
    · exact Nat.lt_succ_of_lt (h.drawn handle (.inl hin))
    · exact Nat.lt_succ_of_lt (h.drawn handle (.inr hin))
  · intro handle hin
    unfold reserve at hin ⊢
    dsimp only at hin ⊢
    rw [Dict.mem_set] at hin
    rcases hin with rfl | hin
    · exact hpool
    · exact h.apart handle hin

theorem kept_markKey (h : s.Kept) (hr : s.reserving.get? handle = some r) {key : StorageKey}
    {todo : List StorageKey} (hstage : r.stage = .marking (key :: todo)) :
    Kept (s.markKey handle r key todo) := by
  have hobjects (marks : Bool) : (r.look key marks todo).objects = r.objects := by
    unfold Reserve.objects Reserve.look
    rw [hstage]
  have hcounted (marks : Bool) : (r.look key marks todo).Counted := trivial
  unfold markKey
  by_cases hhas : s.hasKey key = true
  · rw [if_pos hhas]
    apply h.goesOn hr (hcounted false)
    intro marked taken hled _
    rw [hobjects, Reserve.marked_look]
    simpa using hled
  · rw [if_neg hhas]
    apply h.goesOn hr (hcounted true)
    intro marked taken hled _
    unfold hasKey at hhas
    rw [decide_eq_true_eq, not_or] at hhas
    rw [hobjects, Reserve.marked_look, if_pos rfl, List.append_assoc, List.singleton_append]
    exact (hled.mark hhas.2 hhas.1).perm (List.Perm.refl _) (List.Perm.refl _)
      List.perm_middle.symm (List.Perm.refl _)

/-! ## Memory is taken -/

/-- The objects are as many as asked for, fresh, and nobody's. -/
structure Grants (s : MPStorageManager) (n : Nat) (objects : List Nat) : Prop where
  length : objects.length = n
  nodup : objects.Nodup
  fresh : ∀ i ∈ objects, HoldsFresh s.memoryAllocator i
  new : ∀ i ∈ objects, i ∉ s.held

/-- The memory has changed, and what is held is still there. -/
theorem Kept.withMemory (h : s.Kept) {a : LazyMemoryAllocator} (ha : a.WellFormed)
    (hthere : ∀ i ∈ s.held, HoldsFresh s.memoryAllocator i → HoldsFresh a i) :
    Kept { s with memoryAllocator := a } :=
  ⟨h.ledger.mono hthere, h.counted, h.drawn, h.apart, ha⟩

/-- **`batched_allocate` for a call** leaves the books in order, and grants what was asked for or
nothing. -/
theorem allocateFor_spec (h : s.Kept) (hpos : 0 < r.numObjectsToAllocate) :
    Kept (s.allocateFor r).2 ∧ ((s.allocateFor r).1 = .ok none ∨
      ∃ objects, (s.allocateFor r).1 = .ok (some objects) ∧
        (s.allocateFor r).2.Grants r.numObjectsToAllocate objects) := by
  have hwell := LazyMemoryAllocator.wellFormed_batchedAllocate h.memory r.shape r.dtype hpos r.fmt.1
  have hspec := LazyMemoryAllocator.batchedAllocate_spec h.memory r.shape r.dtype hpos r.fmt.1
  unfold allocateFor
  dsimp only
  generalize s.memoryAllocator.batchedAllocate (.list [r.shape]) (.list [r.dtype])
    r.numObjectsToAllocate r.fmt.1 = a at *
  rcases hspec with rfl | ⟨objs, hlen, hfresh, hsome, hobjs⟩
  · exact ⟨h, .inl rfl⟩
  · refine ⟨h.withMemory hwell ?_, .inr ⟨_, hsome, ?_⟩⟩
    · intro i _ hold
      have hlt := HoldsFresh.lt hold
      obtain ⟨o, ho, hf⟩ := hold
      exact ⟨o, by rw [hobjs, List.getElem?_append_left hlt]; exact ho, hf⟩
    · refine ⟨List.length_range', List.nodup_range', ?_, ?_⟩
      · intro i hi
        obtain ⟨k, hk, rfl⟩ := List.mem_range'.mp hi
        have hlt : k < objs.length := hlen ▸ hk
        refine ⟨objs[k], ?_, hfresh _ (List.getElem_mem hlt)⟩
        rw [hobjs, List.getElem?_append_right (by omega), Nat.one_mul, Nat.add_sub_cancel_left]
        exact List.getElem?_eq_getElem hlt
      · intro i hi hheld
        have hlt := HoldsFresh.lt (h.ledger.there i hheld)
        obtain ⟨k, hk, rfl⟩ := List.mem_range'.mp hi
        omega

/-! ## Eviction -/

/-- Giving up the reference to one object leaves the others. -/
theorem holdsFresh_refCountDown {a : LazyMemoryAllocator} {i j : Nat} (hne : j ≠ i)
    (h : HoldsFresh a j) : HoldsFresh (a.refCountDown i) j := by
  obtain ⟨o, ho, hf⟩ := h
  exact ⟨o, by rw [LazyMemoryAllocator.getElem?_refCountDown a hne]; exact ho, hf⟩

theorem kept_evictKey (h : s.Kept) (key : StorageKey) : Kept (s.evictKey key) := by
  unfold evictKey
  match hget : s.commitedMemoryObjects.get? key with
  | none => exact h
  | some obj =>
    have hled := h.ledger.perm (Dict.entries_perm_erase hget) (List.Perm.refl _) (List.Perm.refl _)
      (List.Perm.refl _)
    refine ⟨hled.drop ?_, h.counted, h.drawn, h.apart,
      LazyMemoryAllocator.wellFormed_refCountDown h.memory obj⟩
    intro i hne hfresh
    exact holdsFresh_refCountDown hne hfresh

/-- What an eviction leaves alone. -/
structure SameCalls (s s' : MPStorageManager) : Prop where
  reserving : s'.reserving = s.reserving
  pools : s'.reservedMemoryObjectPools = s.reservedMemoryObjectPools
  reserved : s'.reservedKeys = s.reservedKeys

theorem SameCalls.refl (s : MPStorageManager) : SameCalls s s := ⟨rfl, rfl, rfl⟩

theorem SameCalls.trans {s' s'' : MPStorageManager} (h : SameCalls s s') (h' : SameCalls s' s'') :
    SameCalls s s'' :=
  ⟨h'.reserving.trans h.reserving, h'.pools.trans h.pools, h'.reserved.trans h.reserved⟩

theorem sameCalls_evictKey (s : MPStorageManager) (key : StorageKey) :
    SameCalls s (s.evictKey key) := by
  unfold evictKey
  split
  · exact SameCalls.refl s
  · exact ⟨rfl, rfl, rfl⟩

/-- One round: the candidates are popped. -/
def evictRound (s : MPStorageManager) (clock : StorageKey → Rat) (numCandidates : Nat) :
    MPStorageManager :=
  let c := s.evictCandidates clock numCandidates
  c.1.foldl evictKey { s with objLockManager := c.2 }

theorem kept_evictRound (h : s.Kept) (clock : StorageKey → Rat) (n : Nat) :
    Kept (s.evictRound clock n) ∧ SameCalls s (s.evictRound clock n) := by
  have hstart : Kept { s with objLockManager := (s.evictCandidates clock n).2 } :=
    ⟨h.ledger, h.counted, h.drawn, h.apart, h.memory⟩
  have hsame : SameCalls s { s with objLockManager := (s.evictCandidates clock n).2 } :=
    ⟨rfl, rfl, rfl⟩
  unfold evictRound
  exact List.foldlRecOn
    (motive := fun s' : MPStorageManager => s'.Kept ∧ SameCalls s s') _ evictKey ⟨hstart, hsame⟩
    fun s' h' key _ => ⟨kept_evictKey h'.1 key, h'.2.trans (sameCalls_evictKey s' key)⟩

variable (clock : Nat → StorageKey → Rat)

theorem evictLoop_succ (r : Reserve) (turns round : Nat) (s : MPStorageManager) :
    evictLoop clock r (turns + 1) round s =
      if (s.evictCandidates (clock round) r.numObjectsToAllocate).1 = [] then
        (.ok none, s.evictRound (clock round) r.numObjectsToAllocate)
      else
        match (s.evictRound (clock round) r.numObjectsToAllocate).allocateFor r with
        | (.ok none, s) => evictLoop clock r turns (round + 1) s
        | done => done := by
  rw [evictLoop]
  unfold evictRound
  dsimp only
  match (s.evictCandidates (clock round) r.numObjectsToAllocate).1 with
  | [] => rfl
  | key :: keys => exact (if_neg (List.cons_ne_nil _ _)).symm

/-! ### The rounds come to an end -/

/-- A candidate is a committed key. -/
theorem mem_of_mem_candidatesFrom (canEvict : Nat → Bool) (clock : StorageKey → Rat) (n : Nat)
    {items : List (StorageKey × Nat)} {locks : LockManager StorageKey}
    {evictKeys : List StorageKey} {key : StorageKey}
    (h : key ∈ (LRUCachePolicyWithLock.candidatesFrom canEvict clock n items locks evictKeys).1) :
    key ∈ evictKeys ∨ key ∈ items.map Prod.fst := by
  induction items generalizing locks evictKeys with
  | nil => exact .inl h
  | cons e items ih =>
    rw [List.map_cons, List.mem_cons]
    have hsnoc (hin : key ∈ evictKeys ++ [e.1]) :
        key ∈ evictKeys ∨ key = e.1 ∨ key ∈ items.map Prod.fst := by
      rcases List.mem_append.mp hin with hin | hin
      · exact .inl hin
      · exact .inr (.inl (List.mem_singleton.mp hin))
    unfold LRUCachePolicyWithLock.candidatesFrom at h
    split at h
    · rcases ih h with hin | hin
      · exact .inl hin
      · exact .inr (.inr hin)
    · split at h
      · rcases ih h with hin | hin
        · exact .inl hin
        · exact .inr (.inr hin)
      · split at h
        · exact hsnoc h
        · rcases ih h with hin | hin
          · exact hsnoc hin
          · exact .inr (.inr hin)

theorem length_evictKey_le (s : MPStorageManager) (key : StorageKey) :
    (s.evictKey key).commitedMemoryObjects.entries.length ≤
      s.commitedMemoryObjects.entries.length := by
  unfold evictKey
  split
  · exact Nat.le_refl _
  · exact List.length_filter_le _ _

/-- A round with a candidate takes a key out. -/
theorem length_evictRound_lt {clock : StorageKey → Rat} {n : Nat}
    (h : (s.evictCandidates clock n).1 ≠ []) :
    (s.evictRound clock n).commitedMemoryObjects.entries.length <
      s.commitedMemoryObjects.entries.length := by
  have hin := fun key => @mem_of_mem_candidatesFrom s.memoryAllocator.canEvict clock n
    s.commitedMemoryObjects.entries s.objLockManager [] key
  unfold evictRound
  unfold evictCandidates at h ⊢
  generalize LRUCachePolicyWithLock.candidatesFrom _ _ _ _ _ _ = c at *
  obtain ⟨keys, locks⟩ := c
  match keys with
  | [] => exact absurd rfl h
  | key :: keys =>
    have hkey : key ∈ s.commitedMemoryObjects := (hin key List.mem_cons_self).resolve_left nofun
    obtain ⟨obj, hobj⟩ := Dict.mem_iff_get?.mp hkey
    have hperm := (Dict.entries_perm_erase hobj).length_eq
    have hrest (s' : MPStorageManager) :
        (keys.foldl evictKey s').commitedMemoryObjects.entries.length ≤
          s'.commitedMemoryObjects.entries.length :=
      List.foldlRecOn (motive := fun s'' : MPStorageManager =>
        s''.commitedMemoryObjects.entries.length ≤ s'.commitedMemoryObjects.entries.length) keys _
        (Nat.le_refl _) fun s'' h'' key' _ => Nat.le_trans (length_evictKey_le s'' key') h''
    dsimp only
    rw [List.foldl_cons]
    apply Nat.lt_of_le_of_lt (hrest _)
    unfold evictKey
    dsimp only
    rw [hobj]
    rw [List.length_cons] at hperm
    dsimp only
    omega

/-- There are enough turns: with one more than keys, a further one changes nothing. -/
theorem evictLoop_of_lt (r : Reserve) {turns : Nat} (round : Nat)
    (h : s.commitedMemoryObjects.entries.length < turns) :
    evictLoop clock r (turns + 1) round s = evictLoop clock r turns round s := by
  induction turns generalizing round s with
  | zero => omega
  | succ turns ih =>
    rw [evictLoop_succ, evictLoop_succ]
    split
    · rfl
    · rename_i hne
      have hlt := length_evictRound_lt hne
      have hsame : (((s.evictRound (clock round) r.numObjectsToAllocate).allocateFor
          r).2.commitedMemoryObjects) =
          (s.evictRound (clock round) r.numObjectsToAllocate).commitedMemoryObjects := rfl
      generalize (s.evictRound (clock round) r.numObjectsToAllocate).allocateFor r = a at *
      obtain ⟨result, s'⟩ := a
      dsimp only at hsame ⊢
      split
      · rename_i heq
        cases heq
        exact ih (round + 1) (by rw [hsame]; omega)
      · rfl

theorem sameCalls_allocateFor (s : MPStorageManager) (r : Reserve) :
    SameCalls s (s.allocateFor r).2 := ⟨rfl, rfl, rfl⟩

/-- **The section that evicts** leaves the books in order, and grants what was asked for or
nothing. -/
theorem evictLoop_spec (hpos : 0 < r.numObjectsToAllocate) (turns round : Nat) (h : s.Kept) :
    Kept (evictLoop clock r turns round s).2 ∧ SameCalls s (evictLoop clock r turns round s).2 ∧
      ((evictLoop clock r turns round s).1 = .ok none ∨
        ∃ objects, (evictLoop clock r turns round s).1 = .ok (some objects) ∧
          (evictLoop clock r turns round s).2.Grants r.numObjectsToAllocate objects) := by
  induction turns generalizing round s with
  | zero => exact ⟨h, SameCalls.refl s, .inl rfl⟩
  | succ turns ih =>
    obtain ⟨hround, hsame⟩ := kept_evictRound h (clock round) r.numObjectsToAllocate
    obtain ⟨hkept, hgrants⟩ := allocateFor_spec hround hpos
    have hcalls := hsame.trans (sameCalls_allocateFor _ r)
    rw [evictLoop_succ]
    split
    · exact ⟨hround, hsame, .inl rfl⟩
    · generalize (s.evictRound (clock round) r.numObjectsToAllocate).allocateFor r = a at *
      obtain ⟨result, s'⟩ := a
      rcases hgrants with hnone | ⟨objects, hsome, hgrants⟩
      · dsimp only at hnone
        subst hnone
        obtain ⟨h1, h2, h3⟩ := ih (round + 1) hkept
        exact ⟨h1, hcalls.trans h2, h3⟩
      · dsimp only at hsome
        subst hsome
        exact ⟨hkept, hcalls, .inr ⟨objects, rfl, hgrants⟩⟩

/-! ## When there comes to be room -/

/-- The allocator has a free block for what the call asks for. -/
def HasBlock (s : MPStorageManager) (r : Reserve) : Prop :=
  s.memoryAllocator.HasBlock r.shape r.dtype r.numObjectsToAllocate

instance (s : MPStorageManager) (r : Reserve) : Decidable (s.HasBlock r) :=
  inferInstanceAs (Decidable (LazyMemoryAllocator.HasBlock _ _ _ _))

/-- Within so many rounds, each of which finds a candidate, there comes to be a free block. -/
def RoomWithin (clock : Nat → StorageKey → Rat) (r : Reserve) :
    Nat → Nat → MPStorageManager → Prop
  | 0, _, _ => False
  | rounds + 1, round, s =>
    (s.evictCandidates (clock round) r.numObjectsToAllocate).1 ≠ [] ∧
      ((s.evictRound (clock round) r.numObjectsToAllocate).HasBlock r ∨
        RoomWithin clock r rounds (round + 1) (s.evictRound (clock round) r.numObjectsToAllocate))

instance decidableRoomWithin (clock : Nat → StorageKey → Rat) (r : Reserve) :
    ∀ rounds round s, Decidable (RoomWithin clock r rounds round s)
  | 0, _, _ => .isFalse id
  | rounds + 1, round, s =>
    haveI := decidableRoomWithin clock r rounds (round + 1)
      (s.evictRound (clock round) r.numObjectsToAllocate)
    inferInstanceAs (Decidable (_ ∧ (_ ∨ _)))

/-- A call whose eviction comes to have room gets its objects. -/
theorem evictLoop_of_room {clock : Nat → StorageKey → Rat} (hpos : 0 < r.numObjectsToAllocate)
    {rounds turns : Nat} (hle : rounds ≤ turns) {round : Nat} (h : s.Kept)
    (hroom : RoomWithin clock r rounds round s) :
    (evictLoop clock r turns round s).1 ≠ .ok none := by
  induction rounds generalizing turns round s with
  | zero => exact absurd hroom id
  | succ rounds ih =>
    obtain ⟨turns, rfl⟩ : ∃ t, turns = t + 1 := ⟨turns - 1, by omega⟩
    obtain ⟨hcandidates, hroom⟩ := hroom
    have hround := (kept_evictRound h (clock round) r.numObjectsToAllocate).1
    rw [evictLoop_succ, if_neg hcandidates]
    generalize s.evictRound (clock round) r.numObjectsToAllocate = s' at *
    rcases LazyMemoryAllocator.batchedAllocate_spec hround.memory r.shape r.dtype hpos r.fmt.1 with
      hnone | ⟨objs, -, -, hsome, -⟩
    · -- nothing is handed out, so the room is still to come
      have hsame : s'.allocateFor r = (.ok none, s') := by
        unfold allocateFor
        rw [hnone]
      rw [hsame]
      rcases hroom with hblock | hroom
      · exact absurd (congrArg Prod.fst hnone)
          (LazyMemoryAllocator.batchedAllocate_of_hasBlock hblock r.fmt.1)
      · exact ih (by omega) hround hroom
    · have hfirst : (s'.allocateFor r).1 = .ok (some (List.range'
          s'.memoryAllocator.pool.objs.length r.numObjectsToAllocate)) := hsome
      generalize s'.allocateFor r = a at *
      obtain ⟨result, s''⟩ := a
      dsimp only at hfirst
      subst hfirst
      intro hcontra
      cases hcontra

/-! ## The other sections -/

theorem kept_lookup (h : s.Kept) (clock : StorageKey → Rat) (keys : List StorageKey) :
    Kept (s.lookup clock keys).2 := by
  induction keys generalizing s with
  | nil => exact h
  | cons key keys ih =>
    unfold lookup
    split
    · exact ih ⟨h.ledger, h.counted, h.drawn, h.apart, h.memory⟩
    · exact h

theorem entries_perm_touch (keys : List StorageKey) (d : Dict StorageKey Nat) :
    d.entries.Perm (touchAndGetObjects keys d).2.entries := by
  induction keys generalizing d with
  | nil => exact List.Perm.refl _
  | cons key keys ih =>
    unfold touchAndGetObjects
    match hget : d.get? key with
    | none => exact List.Perm.refl _
    | some obj =>
      have hmove : d.entries.Perm (d.moveToEnd key).entries := by
        rw [Dict.entries_moveToEnd hget]
        exact (Dict.entries_perm_erase hget).trans (List.perm_append_singleton _ _).symm
      exact hmove.trans (ih (d.moveToEnd key))

theorem kept_retrieve (h : s.Kept) (keys : List StorageKey) : Kept (s.retrieve keys).2 :=
  ⟨h.ledger.perm (entries_perm_touch keys _) (List.Perm.refl _) (List.Perm.refl _)
    (List.Perm.refl _), h.counted, h.drawn, h.apart, h.memory⟩

/-- Removing keys that are all there, none of them twice. -/
theorem removeReserved_of_subset {keys : List StorageKey} (hnodup : keys.Nodup)
    (hin : ∀ key ∈ keys, key ∈ reserved) :
    removeReserved keys reserved = (none, reserved.filter fun key => key ∉ keys) := by
  induction keys generalizing reserved with
  | nil => simp [removeReserved]
  | cons key keys ih =>
    obtain ⟨hnot, hnodup⟩ := List.nodup_cons.mp hnodup
    unfold removeReserved
    rw [if_pos (hin key List.mem_cons_self), ih hnodup]
    · congr 1
      ext key'
      simp only [Finset.mem_filter, Finset.mem_erase, List.mem_cons, not_or]
      tauto
    · intro key' hkey'
      rw [Finset.mem_erase]
      refine ⟨?_, hin key' (List.mem_cons_of_mem _ hkey')⟩
      rintro rfl
      exact hnot hkey'

/-- **The commit of an outstanding reservation**: nothing is raised, the pool is gone, its entries
follow the committed ones, and its keys are reserved no more. -/
theorem commit_spec (h : s.Kept) {pool : Dict StorageKey Nat}
    (hpool : s.reservedMemoryObjectPools.get? handle = some pool) :
    (s.commit handle).1 = none ∧
      (s.commit handle).2.commitedMemoryObjects.entries =
        s.commitedMemoryObjects.entries ++ pool.entries ∧
      (s.commit handle).2.reservedKeys = s.reservedKeys.filter fun key => key ∉ pool := by
  have hled := h.ledger.perm (List.Perm.refl _)
    (Dict.flatMap_values_perm_erase Dict.entries hpool) (List.Perm.refl _) (List.Perm.refl _)
  have hnodup : pool.keys.Nodup := pool.keys_nodup
  have hreserved : ∀ key ∈ pool.keys, key ∈ s.reservedKeys := by
    intro key hkey
    rw [hled.reserved, List.map_append, List.append_assoc, List.mem_append]
    exact .inl hkey
  have hremove := removeReserved_of_subset (List.nodup_reverse.mpr hnodup) fun key hkey =>
    hreserved key (List.mem_reverse.mp hkey)
  have hnew : ∀ e ∈ pool.entries, e.1 ∉ s.commitedMemoryObjects := by
    intro e he
    exact h.ledger.notMem_owned (hreserved e.1 (List.mem_map_of_mem he))
  unfold commit
  rw [hpool]
  dsimp only
  rw [hremove]
  refine ⟨rfl, Dict.entries_foldl_set hnodup hnew, ?_⟩
  ext key
  simp only [Finset.mem_filter, List.mem_reverse, Dict.mem_def]

theorem kept_commit (h : s.Kept) (handle : Nat) : Kept (s.commit handle).2 := by
  match hpool : s.reservedMemoryObjectPools.get? handle with
  | none =>
    unfold commit
    rw [hpool]
    exact h
  | some pool =>
    obtain ⟨-, hcommitted, hreserved⟩ := commit_spec h hpool
    have hled := h.ledger.perm (List.Perm.refl _)
      (Dict.flatMap_values_perm_erase Dict.entries hpool) (List.Perm.refl _) (List.Perm.refl _)
    have hmoved := hled.commit
    have hrest : (s.commit handle).2.reserving = s.reserving ∧
        (s.commit handle).2.reservedMemoryObjectPools = s.reservedMemoryObjectPools.erase handle ∧
        (s.commit handle).2.reserveHandle = s.reserveHandle ∧
        (s.commit handle).2.memoryAllocator = s.memoryAllocator := by
      unfold commit
      rw [hpool]
      exact ⟨rfl, rfl, rfl, rfl⟩
    obtain ⟨hcalls, hpools, hhandle, hmemory⟩ := hrest
    refine ⟨?_, ?_, ?_, ?_, ?_⟩
    · unfold pooled marked taken
      rw [hcommitted, hreserved, hcalls, hpools, hmemory]
      exact hmoved
    · rw [hcalls]
      exact h.counted
    · rw [hcalls, hpools, hhandle]
      rintro handle' (hin | hin)
      · exact h.drawn handle' (.inl hin)
      · exact h.drawn handle' (.inr ((Dict.mem_erase _ _ _).mp hin).2)
    · rw [hcalls, hpools]
      intro handle' hin hmem
      exact h.apart handle' hin ((Dict.mem_erase _ _ _).mp hmem).2
    · rw [hmemory]
      exact h.memory

/-- Clearing, while no call under way has marked a key. -/
theorem kept_clear (h : s.Kept) (hidle : ∀ r ∈ s.reserving.values, r.marked = []) :
    Kept s.clear := by
  have hmarked : s.clear.marked = [] := List.flatMap_eq_nil_iff.mpr hidle
  have htaken : s.clear.taken = [] := by
    refine List.flatMap_eq_nil_iff.mpr fun r hr => ?_
    obtain ⟨e, he, rfl⟩ := List.mem_map.mp hr
    have hcounted := h.counted e.1 e.2 (Dict.get?_eq_some.mpr he)
    have hnone := hidle e.2 hr
    unfold Reserve.Counted Reserve.numObjectsToAllocate at hcounted
    unfold Reserve.objects
    rw [hnone] at hcounted
    match hstage : e.2.stage with
    | .marking _ => rfl
    | .evicting => rfl
    | .confirming objects =>
      rw [hstage] at hcounted
      exact absurd hcounted.1 (Nat.lt_irrefl 0)
  refine ⟨?_, h.counted, ?_, ?_, ?_⟩
  · rw [hmarked, htaken]
    exact Ledger.nil
  · rintro handle (hin | hin)
    · exact h.drawn handle (.inl hin)
    · exact absurd hin (Dict.not_mem_empty handle)
  · exact fun handle _ hin => Dict.not_mem_empty handle hin
  · exact List.foldlRecOn (motive := fun a : LazyMemoryAllocator => a.WellFormed) _ _ h.memory
      fun a ha i _ => LazyMemoryAllocator.wellFormed_refCountDown ha i

theorem kept_expand (h : s.Kept) : Kept { s with memoryAllocator := s.memoryAllocator.expand } := by
  apply h.withMemory (LazyMemoryAllocator.wellFormed_expand h.memory)
  intro i _ hfresh
  unfold LazyMemoryAllocator.expand
  split
  · exact hfresh
  · exact hfresh

/-! ## The next section of `reserve` -/

/-- The call gets what it asked for. -/
theorem Kept.granted (h : s.Kept) (hr : s.reserving.get? handle = some r)
    (hpos : 0 < r.numObjectsToAllocate) (hnone : r.objects = []) {objects : List Nat}
    (hg : s.Grants r.numObjectsToAllocate objects) :
    Kept { s with
      reserving := s.reserving.set handle { r with stage := .confirming objects } } := by
  have hcounted : Reserve.Counted { r with stage := .confirming objects } := ⟨hpos, hg.length⟩
  apply h.goesOn hr hcounted
  intro marked taken hled htaken
  rw [hnone, List.nil_append] at hled
  refine hled.take hg.nodup hg.fresh ?_
  intro i hi hin
  apply hg.new i hi
  unfold held
  simp only [List.mem_append] at hin ⊢
  rcases hin with hin | hin | hin
  · exact .inl hin
  · exact .inr (.inl hin)
  · exact .inr (.inr (htaken i hin))

theorem kept_proceed (h : s.Kept) (handle : Nat) (clock : Nat → StorageKey → Rat)
    (hroom : ∀ r ∈ s.reserving.get? handle, r.stage = .evicting →
      RoomWithin clock r s.commitedMemoryObjects.entries.length 0 s) :
    Kept (s.proceed handle clock).2 := by
  unfold proceed
  match hr : s.reserving.get? handle with
  | none => exact h
  | some r =>
    have hcounted := h.counted handle r hr
    unfold Reserve.Counted at hcounted
    dsimp only
    match hstage : r.stage with
    | .marking (key :: todo) => exact kept_markKey h hr hstage
    | .marking [] =>
      have hobjects : r.objects = [] := by
        unfold Reserve.objects
        rw [hstage]
      dsimp only
      by_cases hzero : r.numObjectsToAllocate = 0
      · rw [if_pos hzero]
        exact h.leaves hr (List.length_eq_zero_iff.mp hzero).symm hobjects.symm
      · rw [if_neg hzero]
        have hpos := Nat.pos_of_ne_zero hzero
        obtain ⟨hkept, hgrants⟩ := allocateFor_spec h hpos
        have hcalls := (sameCalls_allocateFor s r).reserving
        have hr' : (s.allocateFor r).2.reserving.get? handle = some r := by rw [hcalls, hr]
        rcases hgrants with hnone | ⟨objects, hsome, hgrants⟩
        · rw [hnone]
          have hevicting : Reserve.Counted { r with stage := .evicting } := hpos
          apply hkept.goesOn hr' hevicting
          intro marked taken hled _
          rw [hobjects] at hled
          exact hled
        · rw [hsome]
          exact hkept.granted hr' hpos hobjects hgrants
    | .evicting =>
      rw [hstage] at hcounted
      have hobjects : r.objects = [] := by
        unfold Reserve.objects
        rw [hstage]
      obtain ⟨hkept, hsame, hgrants⟩ := evictLoop_spec clock hcounted
        (s.commitedMemoryObjects.entries.length + 1) 0 h
      have hsome := evictLoop_of_room hcounted (Nat.le_succ _) h (hroom r hr hstage)
      have hr' : (s.evict clock r).2.reserving.get? handle = some r := by
        rw [evict, hsame.reserving, hr]
      rcases hgrants with hnone | ⟨objects, heq, hgrants⟩
      · exact absurd hnone hsome
      · dsimp only
        rw [evict, heq]
        exact hkept.granted hr' hcounted hobjects hgrants
    | .confirming objects =>
      rw [hstage] at hcounted
      have hobjects : r.objects = objects := by
        unfold Reserve.objects
        rw [hstage]
      have hmarked : ((r.marked.zip objects).map Prod.fst) = r.marked :=
        List.map_fst_zip (Nat.le_of_eq hcounted.2.symm)
      have hled := h.ledger.perm (List.Perm.refl _) (List.Perm.refl _) (marked_perm hr)
        (List.Perm.refl _)
      have hnodup : r.marked.Nodup := by
        have hmarks := (List.nodup_append.mp (List.nodup_append.mp hled.keys).2.1).2.1
        exact (List.nodup_append.mp hmarks).1
      have hentries : (confirmed r objects).entries = r.marked.zip objects :=
        Dict.entries_ofPairs (by rw [hmarked]; exact hnodup)
      apply h.leaves hr
      · rw [hentries, hmarked]
      · rw [hentries, hobjects]
        exact List.map_snd_zip (Nat.le_of_eq hcounted.2)

/-! ## Who owns what -/

/-- A reservation that is not yet committed has the key: it is in a pool, or a call under way has
marked it. -/
def Outstanding (s : MPStorageManager) (key : StorageKey) : Prop :=
  (∃ handle pool, s.reservedMemoryObjectPools.get? handle = some pool ∧ key ∈ pool) ∨
    ∃ handle r, s.reserving.get? handle = some r ∧ key ∈ r.marked

/-- The object of a committed key is a valid object of its own: no free block and no other object
has a byte of it, and no other key, pool or call has it. -/
structure OwnsAlone (s : MPStorageManager) (key : StorageKey) (i : Nat) (o : TensorMemoryObj) :
    Prop where
  stored : s.memoryAllocator.pool.objs[i]? = some o
  valid : o.valid = true
  free : ∀ b ∈ s.memoryAllocator.pool.allocator.addressManager.blocks,
    Disjoint (points b.range) (points o.range)
  other : ∀ j o', j ≠ i → s.memoryAllocator.pool.objs[j]? = some o' → o'.valid = true →
    Disjoint (points o'.range) (points o.range)
  key : ∀ key', s.commitedMemoryObjects.get? key' = some i → key' = key
  pool : ∀ handle pool, s.reservedMemoryObjectPools.get? handle = some pool → i ∉ pool.values
  call : ∀ handle r, s.reserving.get? handle = some r → i ∉ r.objects

/-- A commit does all of it or nothing. -/
def CommitsWhole (s : MPStorageManager) (handle : Nat) : Prop :=
  (s.commit handle).2 = s ∨
    ∃ pool, s.reservedMemoryObjectPools.get? handle = some pool ∧ (s.commit handle).1 = none ∧
      (s.commit handle).2.reservedMemoryObjectPools = s.reservedMemoryObjectPools.erase handle ∧
      (∀ key, (s.commit handle).2.commitedMemoryObjects.get? key =
        (pool.get? key).or (s.commitedMemoryObjects.get? key)) ∧
      ∀ key, key ∈ (s.commit handle).2.reservedKeys ↔ key ∈ s.reservedKeys ∧ key ∉ pool

/-- The reserved keys are those of the outstanding reservations, none of them is committed, each
committed key owns its object, and a commit is whole. -/
structure Owned (s : MPStorageManager) : Prop where
  reserved : ∀ key, key ∈ s.reservedKeys ↔ s.Outstanding key
  disjoint : ∀ key ∈ s.reservedKeys, key ∉ s.commitedMemoryObjects
  objects : ∀ key i, s.commitedMemoryObjects.get? key = some i → ∃ o, s.OwnsAlone key i o
  commits : ∀ handle, s.CommitsWhole handle

/-- The keys of the outstanding reservations are those in the pools and those marked. -/
theorem outstanding_iff (s : MPStorageManager) (key : StorageKey) :
    s.Outstanding key ↔ key ∈ s.pooled.map Prod.fst ++ s.marked := by
  symm
  rw [List.mem_append]
  unfold pooled marked Outstanding
  simp only [List.mem_map, List.mem_flatMap, Dict.mem_values]
  constructor
  · rintro (⟨e, ⟨pool, ⟨handle, hpool⟩, he⟩, rfl⟩ | ⟨r, ⟨handle, hr⟩, hkey⟩)
    · exact .inl ⟨handle, pool, hpool, List.mem_map_of_mem he⟩
    · exact .inr ⟨handle, r, hr, hkey⟩
  · rintro (⟨handle, pool, hpool, hkey⟩ | ⟨handle, r, hr, hkey⟩)
    · obtain ⟨e, he, rfl⟩ := List.mem_map.mp hkey
      exact .inl ⟨e, ⟨pool, ⟨handle, hpool⟩, he⟩, rfl⟩
    · exact .inr ⟨r, ⟨handle, hr⟩, hkey⟩

theorem Kept.outstanding (h : s.Kept) (key : StorageKey) :
    key ∈ s.reservedKeys ↔ s.Outstanding key := by
  rw [h.ledger.reserved, outstanding_iff]

/-- The books of the manager and the memory say who owns an object. -/
theorem Kept.ownsAlone (h : s.Kept) {key : StorageKey} {i : Nat}
    (hget : s.commitedMemoryObjects.get? key = some i) : ∃ o, s.OwnsAlone key i o := by
  have hentry := Dict.get?_eq_some.mp hget
  have hin : i ∈ s.commitedMemoryObjects.entries.map Prod.snd := List.mem_map_of_mem hentry
  have hdisj := (List.nodup_append.mp h.ledger.objects).2.2 i hin
  obtain ⟨o, hstored, hvalid, -, -⟩ := h.ledger.there i (List.mem_append_left _ hin)
  refine ⟨o, hstored, hvalid, ?_, ?_, ?_, ?_, ?_⟩
  · intro b hb
    apply disjoint_of_hits_le
    intro x
    have honce := h.memory.accounted.once x
    have hrange : b.range ∈ blockRanges s.memoryAllocator.pool.allocator.addressManager.blocks :=
      List.mem_map_of_mem hb
    have h1 := hits_le_cover hrange x
    have h2 := hits_le_validRanges hstored hvalid x
    omega
  · intro j o' hne hstored' hvalid'
    apply disjoint_of_hits_le
    intro x
    have honce := h.memory.accounted.once x
    have h2 := hits_add_le_validRanges hne hstored' hvalid' hstored hvalid x
    omega
  · intro key' hget'
    exact Dict.key_unique_of_values (List.nodup_append.mp h.ledger.objects).1 hget' hget
  · intro handle pool hpool hmem
    refine hdisj i (List.mem_append_left _ ?_) rfl
    obtain ⟨e, he, rfl⟩ := List.mem_map.mp hmem
    exact List.mem_map_of_mem (List.mem_flatMap.mpr ⟨pool, Dict.mem_values.mpr ⟨handle, hpool⟩, he⟩)
  · intro handle r hr hmem
    refine hdisj i (List.mem_append_right _ ?_) rfl
    exact List.mem_flatMap.mpr ⟨r, Dict.mem_values.mpr ⟨handle, hr⟩, hmem⟩

theorem Kept.commitsWhole (h : s.Kept) (handle : Nat) : s.CommitsWhole handle := by
  match hpool : s.reservedMemoryObjectPools.get? handle with
  | none =>
    left
    unfold commit
    rw [hpool]
  | some pool =>
    obtain ⟨hnone, hcommitted, hreserved⟩ := commit_spec h hpool
    have hin' (key : StorageKey) (hmem : key ∈ pool) : key ∈ s.reservedKeys :=
      (h.outstanding key).mpr (.inl ⟨handle, pool, hpool, hmem⟩)
    refine .inr ⟨pool, hpool, hnone, ?_, ?_, ?_⟩
    · unfold commit
      rw [hpool]
    · intro key
      ext i
      rw [Dict.get?_eq_some, hcommitted, List.mem_append, Option.or_eq_some_iff, Dict.get?_eq_some,
        Dict.get?_eq_some, Dict.get?_eq_none]
      constructor
      · rintro (hin | hin)
        · have howned := List.mem_map_of_mem (f := Prod.fst) hin
          exact .inr ⟨fun hmem => h.ledger.notMem_owned (hin' key hmem) howned, hin⟩
        · exact .inl hin
      · rintro (hin | ⟨-, hin⟩)
        · exact .inr hin
        · exact .inl hin
    · intro key
      rw [hreserved, Finset.mem_filter]

theorem Kept.owned (h : s.Kept) : Owned s where
  reserved := h.outstanding
  disjoint := fun _ hkey => h.ledger.notMem_owned hkey
  objects := fun _ _ hget => h.ownsAlone hget
  commits := h.commitsWhole

/-! ## Runs -/

/-- The condition on a section: an eviction comes to have room for the call it is made for, and a
clear meets no call that has marked a key. -/
def Proper (s : MPStorageManager) : MPEvent → Prop
  | .proceed handle clock => ∀ r ∈ s.reserving.get? handle, r.stage = .evicting →
      RoomWithin clock r s.commitedMemoryObjects.entries.length 0 s
  | .clear => ∀ r ∈ s.reserving.values, r.marked = []
  | _ => True

instance (s : MPStorageManager) : ∀ e, Decidable (s.Proper e)
  | .proceed _ _ => inferInstanceAs (Decidable (∀ r ∈ (_ : Option Reserve), _))
  | .clear => inferInstanceAs (Decidable (∀ r ∈ s.reserving.values, _))
  | .reserve _ _ _ _ | .commit _ | .lookup _ _ | .retrieve _ | .unlock _ | .prefetch _ | .expand =>
    .isTrue trivial

/-- **Step lemma.**  A proper section keeps the books in order. -/
theorem kept_step (s : MPStorageManager) (e : MPEvent) (h : s.Kept) (hp : s.Proper e) :
    Kept (s.step e) := by
  match e with
  | .reserve keys shape dtype fmt => exact kept_reserve h keys shape dtype fmt
  | .proceed handle clock => exact kept_proceed h handle clock hp
  | .commit handle => exact kept_commit h handle
  | .lookup keys clock => exact kept_lookup h clock keys
  | .retrieve keys => exact kept_retrieve h keys
  | .unlock key => exact ⟨h.ledger, h.counted, h.drawn, h.apart, h.memory⟩
  | .prefetch keys => exact h
  | .clear => exact kept_clear h hp
  | .expand => exact kept_expand h

/-- **Key ownership.**  However the sections of the calls of any number of clients interleave: while
every eviction comes to have room and no clear meets a call that has marked a key, the reserved keys
are those of the outstanding reservations, no reserved key is committed, each committed key owns its
object alone, and every commit is whole. -/
theorem always_owned (sizeInBytes : Nat) (disableLazyAlloc : Bool) (es : List MPEvent)
    (h : Guarded step Proper (init sizeInBytes disableLazyAlloc) es) :
    Always step Owned (init sizeInBytes disableLazyAlloc) es :=
  (always_of_guarded kept_step (kept_init sizeInBytes disableLazyAlloc) h).mono
    fun (_ : MPStorageManager) hs => hs.owned

/-! ### Runs on a small buffer -/

def chunkKey (n : UInt8) : StorageKey := ⟨"m", 1, 0, [n]⟩

/-- A client stores these keys, one page each, up to the commit of its handle. -/
def reservePages (keys : List StorageKey) : MPEvent :=
  .reserve keys [4096] .uint8 ⟨.KV_2LTD, kv2ltd_mem_pinFormats⟩

/-- The sections up to the confirmation of two reservations, one of which evicts what the other has
committed; a clear; and a commit that comes too late. -/
theorem always_owned_evictingRun :
    Always step Owned (init 4096 true)
      [reservePages [chunkKey 0], .proceed 0 0, .proceed 0 0, .proceed 0 0, .commit 0,
        .lookup [chunkKey 0] 0, .retrieve [chunkKey 0], .unlock (chunkKey 0),
        reservePages [chunkKey 0, chunkKey 1], .proceed 1 0, .proceed 1 0, .proceed 1 0,
        .proceed 1 0, .proceed 1 0, .clear, .commit 1] :=
  always_owned 4096 true _ (by decide +kernel)

/-- A clear comes between the mark and the confirmation of one reservation. -/
def clearedRun : List MPEvent :=
  [reservePages [chunkKey 0], .proceed 0 0, .clear, .proceed 0 0, .proceed 0 0]

/-- There is no memory for the second key, and nothing to evict. -/
def exhaustedRun : List MPEvent :=
  [reservePages [chunkKey 0], .proceed 0 0, .proceed 0 0, .proceed 0 0,
    reservePages [chunkKey 1], .proceed 1 0, .proceed 1 0, .proceed 1 0]

/-- It can fail in both ways: after the clear a pool has a key that is not reserved, and its
commit raises and still commits; and the key of a call that found no memory stays reserved, with no
reservation that has it. -/
theorem not_always_owned :
    (¬ Always step Owned (init 8192 true) clearedRun ∧
      ((run step (init 8192 true) clearedRun).commit 0).1 = some (.keyError (chunkKey 0)) ∧
      chunkKey 0 ∈ ((run step (init 8192 true) clearedRun).commit 0).2.commitedMemoryObjects) ∧
    ¬ Always step Owned (init 4096 true) exhaustedRun := by
  refine ⟨⟨?_, by decide +kernel, by decide +kernel⟩, ?_⟩
  · intro h
    have hreserved := h.last.reserved (chunkKey 0)
    rw [outstanding_iff] at hreserved
    revert hreserved
    decide +kernel
  · intro h
    have hreserved := h.last.reserved (chunkKey 1)
    rw [outstanding_iff] at hreserved
    revert hreserved
    decide +kernel

end MPStorageManager

end LMCache.Multiprocess
