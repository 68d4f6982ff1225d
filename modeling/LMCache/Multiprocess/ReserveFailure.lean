/-
# LMCache.Multiprocess.ReserveFailure — what a reservation that fails leaves behind.

Source: `MPStorageManager.reserve` of `v1/multiprocess/mp_storage_manager.py`.

`reserve` marks the keys that nobody has before it asks for memory.  When there is none, it raises
with the marks still set and with whatever it has evicted gone.  As memory is asked for only if a
key has been marked, no failed call leaves the manager as it was; and its keys are refused from then
on, with no reservation that could bring them into the store.

A call is taken on its own here: no section of another call comes between its sections.
-/
import LMCache.Multiprocess.KeyOwnership

namespace LMCache.Multiprocess

open LMCache.Lib LMCache.Memory

namespace MPStorageManager

/-! ## A call on its own -/

/-- The next sections of a call, up to the one that returns or raises. -/
def finish (handle : Nat) (clock : Nat → StorageKey → Rat) :
    Nat → MPStorageManager → Option (Except MPError (Dict StorageKey Nat)) × MPStorageManager
  | 0, s => (none, s)
  | turns + 1, s =>
    match s.proceed handle clock with
    | (none, s) => finish handle clock turns s
    | done => done

/-- `reserve`: one section a key, one that allocates, one that evicts and one that confirms. -/
def reserveAlone (s : MPStorageManager) (keys : List StorageKey) (shape : TorchSize)
    (dtype : TorchDtype) (fmt : KvFormat) (clock : Nat → StorageKey → Rat) :
    Option (Except MPError (Dict StorageKey Nat)) × MPStorageManager :=
  finish s.reserveHandle clock (keys.length + 3) (s.reserve keys shape dtype fmt)

/-- The exception of a call that is over. -/
def raised : Option (Except MPError (Dict StorageKey Nat)) → Option MPError
  | some (.error e) => some e
  | some (.ok _) | none => none

/-- The marks, the committed objects and the allocator are as they were. -/
structure AsBefore (s s' : MPStorageManager) : Prop where
  reserved : s'.reservedKeys = s.reservedKeys
  commited : s'.commitedMemoryObjects.entries = s.commitedMemoryObjects.entries
  memory : s'.memoryAllocator = s.memoryAllocator

theorem finish_succ (handle : Nat) (clock : Nat → StorageKey → Rat) (turns : Nat)
    (s : MPStorageManager) :
    finish handle clock (turns + 1) s =
      match s.proceed handle clock with
      | (none, s) => finish handle clock turns s
      | done => done := rfl

variable {clock : Nat → StorageKey → Rat} {handle : Nat} {s s' : MPStorageManager} {r : Reserve}

/-- A section that is not the last. -/
theorem finish_of_none (h : s.proceed handle clock = (none, s')) (turns : Nat) :
    finish handle clock (turns + 1) s = finish handle clock turns s' := by
  rw [finish_succ, h]

/-- The last section. -/
theorem finish_of_some {result : Except MPError (Dict StorageKey Nat)}
    (h : s.proceed handle clock = (some result, s')) (turns : Nat) :
    finish handle clock (turns + 1) s = (some result, s') := by
  rw [finish_succ, h]

/-! ## The keys are marked -/

theorem hasKey_eq_false_iff {key : StorageKey} :
    s.hasKey key = false ↔ key ∉ s.reservedKeys ∧ key ∉ s.commitedMemoryObjects := by
  rw [hasKey, decide_eq_false_iff_not, not_or]

/-- **One turn of the loop** goes on to the other keys; a key that nobody has is marked. -/
theorem markKey_spec (s : MPStorageManager) (handle : Nat) (r : Reserve) (key : StorageKey)
    (todo : List StorageKey) :
    (s.markKey handle r key todo).reserving.get? handle =
        some (r.look key (!s.hasKey key) todo) ∧
      (s.markKey handle r key todo).commitedMemoryObjects = s.commitedMemoryObjects ∧
      (s.markKey handle r key todo).memoryAllocator = s.memoryAllocator ∧
      (s.markKey handle r key todo).reservedKeys =
        if s.hasKey key then s.reservedKeys else insert key s.reservedKeys := by
  have hset (call : Reserve) : (s.reserving.set handle call).get? handle = some call :=
    (Dict.get?_set _ _ _ _).trans (if_pos rfl)
  unfold markKey
  cases s.hasKey key with
  | true => exact ⟨hset _, rfl, rfl, rfl⟩
  | false => exact ⟨hset _, rfl, rfl, rfl⟩

/-- What the loop over the keys leaves: the call with all its keys looked at, and nothing but marks.
`turns` are left for the sections behind it. -/
theorem finish_marking (clock : Nat → StorageKey → Rat) (turns : Nat) {todo : List StorageKey}
    (hr : s.reserving.get? handle = some r) (hstage : r.stage = .marking todo) :
    ∃ (s' : MPStorageManager) (r' : Reserve),
      finish handle clock (todo.length + turns) s = finish handle clock turns s' ∧
      s'.reserving.get? handle = some r' ∧ r'.stage = .marking [] ∧
      s'.commitedMemoryObjects = s.commitedMemoryObjects ∧
      s'.memoryAllocator = s.memoryAllocator ∧ s.reservedKeys ⊆ s'.reservedKeys ∧
      (∀ key ∈ r'.marked, key ∈ r.marked ∨ (s.hasKey key = false ∧ key ∈ s'.reservedKeys)) ∧
      ∀ key ∈ todo, s.hasKey key = false → key ∈ s'.reservedKeys := by
  induction todo generalizing s r with
  | nil =>
    refine ⟨s, r, ?_, hr, hstage, rfl, rfl, subset_rfl, fun key hkey => .inl hkey, nofun⟩
    rw [List.length_nil, Nat.zero_add]
  | cons key todo ih =>
    have hproceed : s.proceed handle clock = (none, s.markKey handle r key todo) := by
      unfold proceed
      rw [hr]
      dsimp only
      rw [hstage]
    rw [List.length_cons, Nat.succ_add, finish_of_none hproceed]
    obtain ⟨hget, hcommited₀, hmemory₀, hreserved⟩ := s.markKey_spec handle r key todo
    generalize s.markKey handle r key todo = s₁ at hget hcommited₀ hmemory₀ hreserved ⊢
    have hmem (k : StorageKey) :
        k ∈ s₁.reservedKeys ↔ k ∈ s.reservedKeys ∨ (k = key ∧ s.hasKey key = false) := by
      rw [hreserved]
      cases s.hasKey key with
      | true => simp
      | false => simp [or_comm]
    have hfree (k : StorageKey) :
        s₁.hasKey k = false ↔ s.hasKey k = false ∧ ¬(k = key ∧ s.hasKey key = false) := by
      rw [hasKey_eq_false_iff, hasKey_eq_false_iff, hmem, hcommited₀, not_or, and_right_comm]
    obtain ⟨s', r', hfinish, hr', hstage', hcommited, hmemory, hsub, hmarked, htodo⟩ := ih hget rfl
    refine ⟨s', r', hfinish, hr', hstage', hcommited.trans hcommited₀, hmemory.trans hmemory₀,
      fun k hk => hsub ((hmem k).mpr (.inl hk)), fun k hk => ?_, fun k hk hnot => ?_⟩
    · rcases hmarked k hk with hk | ⟨hk, hin⟩
      · rw [Reserve.marked_look, List.mem_append] at hk
        simp only [Bool.not_eq_true', List.mem_ite_nil_right, List.mem_singleton] at hk
        rcases hk with hk | ⟨hkey, rfl⟩
        · exact .inl hk
        · exact .inr ⟨hkey, hsub ((hmem k).mpr (.inr ⟨rfl, hkey⟩))⟩
      · exact .inr ⟨((hfree k).mp hk).1, hin⟩
    · -- it is marked in this turn, or nobody has it after the turn either
      by_cases hsame : k = key
      · exact hsub ((hmem k).mpr (.inr ⟨hsame, hsame ▸ hnot⟩))
      · exact htodo k ((List.mem_cons.mp hk).resolve_left hsame)
          ((hfree k).mpr ⟨hnot, fun hboth => hsame hboth.1⟩)

/-! ## The rest of the call keeps the marks -/

/-- Marks stay, and nothing is committed. -/
structure Goes (s s' : MPStorageManager) : Prop where
  reserved : s'.reservedKeys = s.reservedKeys
  commited : ∀ key ∈ s'.commitedMemoryObjects, key ∈ s.commitedMemoryObjects

theorem Goes.refl (s : MPStorageManager) : Goes s s := ⟨rfl, fun _ h => h⟩

theorem Goes.trans {s'' : MPStorageManager} (h : Goes s s') (h' : Goes s' s'') : Goes s s'' :=
  ⟨h'.reserved.trans h.reserved, fun key hkey => h.commited key (h'.commited key hkey)⟩

theorem goes_evictKey (s : MPStorageManager) (key : StorageKey) : Goes s (s.evictKey key) := by
  unfold evictKey
  split
  · exact Goes.refl s
  · exact ⟨rfl, fun k hk => ((Dict.mem_erase _ _ _).mp hk).2⟩

theorem goes_evictRound (s : MPStorageManager) (clock : StorageKey → Rat) (n : Nat) :
    Goes s (s.evictRound clock n) := by
  have hstart : Goes s { s with objLockManager := (s.evictCandidates clock n).2 } :=
    ⟨rfl, fun _ h => h⟩
  unfold evictRound
  exact List.foldlRecOn (motive := Goes s) _ evictKey hstart
    fun s' h' key _ => h'.trans (goes_evictKey s' key)

theorem goes_evictLoop (clock : Nat → StorageKey → Rat) (r : Reserve) (turns round : Nat)
    (s : MPStorageManager) : Goes s (evictLoop clock r turns round s).2 := by
  induction turns generalizing round s with
  | zero => exact Goes.refl s
  | succ turns ih =>
    have hround := goes_evictRound s (clock round) r.numObjectsToAllocate
    have hallocate : Goes s
        ((s.evictRound (clock round) r.numObjectsToAllocate).allocateFor r).2 :=
      hround.trans ⟨rfl, fun _ h => h⟩
    rw [evictLoop_succ]
    split
    · exact hround
    · generalize (s.evictRound (clock round) r.numObjectsToAllocate).allocateFor r = a at hallocate ⊢
      obtain ⟨result, s'⟩ := a
      split
      · rename_i heq
        cases heq
        exact hallocate.trans (ih (round + 1) _)
      · exact hallocate

theorem goes_afterAllocation (s : MPStorageManager) (handle : Nat) (r : Reserve)
    (next : Option MPError) (result : Except PyError (Option (List Nat))) :
    Goes s (s.afterAllocation handle r next result).2 := by
  unfold afterAllocation
  split
  · exact ⟨rfl, fun _ h => h⟩
  · exact ⟨rfl, fun _ h => h⟩
  · split <;> exact ⟨rfl, fun _ h => h⟩

/-- What the sections behind the loop find: the call, and where it is. -/
def PastMarking (s : MPStorageManager) (handle : Nat) : Prop :=
  ∀ r ∈ s.reserving.get? handle, ∀ key todo, r.stage ≠ .marking (key :: todo)

theorem pastMarking_afterAllocation (s : MPStorageManager) (handle : Nat) (r : Reserve)
    (next : Option MPError) (result : Except PyError (Option (List Nat))) :
    PastMarking (s.afterAllocation handle r next result).2 handle := by
  unfold afterAllocation PastMarking
  split
  · intro r' hr'
    rw [Dict.get?_erase, if_pos rfl] at hr'
    cases hr'
  · intro r' hr' key todo hstage
    rw [Dict.get?_set, if_pos rfl] at hr'
    cases hr'
    cases hstage
  · split
    · intro r' hr' key todo hstage
      rw [Dict.get?_set, if_pos rfl] at hr'
      cases hr'
      cases hstage
    · intro r' hr'
      rw [Dict.get?_erase, if_pos rfl] at hr'
      cases hr'

/-- **A section behind the loop** keeps the marks. -/
theorem goes_proceed (clock : Nat → StorageKey → Rat) (h : s.PastMarking handle) :
    Goes s (s.proceed handle clock).2 ∧ PastMarking (s.proceed handle clock).2 handle := by
  have hleave (pool : Dict StorageKey Nat) : Goes s (s.leavePool handle pool) ∧
      PastMarking (s.leavePool handle pool) handle := by
    refine ⟨⟨rfl, fun _ hk => hk⟩, fun r' hr' => ?_⟩
    have hnone : (s.leavePool handle pool).reserving.get? handle = none :=
      (Dict.get?_erase _ _ _).trans (if_pos rfl)
    rw [hnone] at hr'
    cases hr'
  unfold proceed
  split
  · exact ⟨Goes.refl s, h⟩
  · rename_i r hr
    split
    · rename_i key todo hstage
      exact absurd hstage (h r hr key todo)
    · split
      · exact hleave .empty
      · have hallocate : Goes s (s.allocateFor r).2 := ⟨rfl, fun _ hk => hk⟩
        exact ⟨hallocate.trans (goes_afterAllocation _ handle r none _),
          pastMarking_afterAllocation _ handle r none _⟩
    · exact ⟨(goes_evictLoop clock r _ 0 s).trans (goes_afterAllocation _ handle r _ _),
        pastMarking_afterAllocation _ handle r _ _⟩
    · exact hleave _

theorem goes_finish (clock : Nat → StorageKey → Rat) (turns : Nat) (h : s.PastMarking handle) :
    Goes s (finish handle clock turns s).2 := by
  induction turns generalizing s with
  | zero => exact Goes.refl s
  | succ turns ih =>
    obtain ⟨hgoes, hpast⟩ := goes_proceed clock h
    rw [finish_succ]
    generalize s.proceed handle clock = p at hgoes hpast
    obtain ⟨result, s'⟩ := p
    cases result with
    | none => exact hgoes.trans (ih hpast)
    | some result => exact hgoes

/-- A call without marks returns an empty pool. -/
theorem finish_of_noMarks (clock : Nat → StorageKey → Rat) (hr : s.reserving.get? handle = some r)
    (hstage : r.stage = .marking []) (hnone : r.marked = []) (turns : Nat) :
    finish handle clock (turns + 1) s = (some (.ok .empty), s.leavePool handle .empty) := by
  apply finish_of_some
  unfold proceed
  rw [hr]
  dsimp only
  rw [hstage]
  exact if_pos (by rw [Reserve.numObjectsToAllocate, hnone]; rfl)

/-- The section that confirms is the last. -/
theorem finish_confirming {objects : List Nat} (clock : Nat → StorageKey → Rat)
    (hr : s.reserving.get? handle = some r) (hstage : r.stage = .confirming objects) (turns : Nat) :
    (finish handle clock (turns + 1) s).1 = some (.ok (confirmed r objects)) := by
  have hproceed : s.proceed handle clock =
      (some (.ok (confirmed r objects)), s.leavePool handle (confirmed r objects)) := by
    unfold proceed
    rw [hr]
    dsimp only
    rw [hstage]
  rw [finish_of_some hproceed]

/-- After a section that has asked for memory, with `next` for the case that there is none. -/
theorem finish_allocated {next : Option MPError}
    {a : Except PyError (Option (List Nat)) × MPStorageManager}
    (hproceed : s.proceed handle clock = a.2.afterAllocation handle r next a.1) (turns : Nat) :
    (finish handle clock (turns + 2) s).1.isSome ∨
      (next = none ∧ ∃ s' : MPStorageManager, s'.reserving.get? handle =
          some { r with stage := .evicting } ∧
        finish handle clock (turns + 2) s = finish handle clock (turns + 1) s') := by
  have hset (call : Reserve) : (a.2.reserving.set handle call).get? handle = some call :=
    (Dict.get?_set _ _ _ _).trans (if_pos rfl)
  obtain ⟨result, s'⟩ := a
  match result, next with
  | .error e, _ =>
    left
    rw [finish_of_some hproceed]
    rfl
  | .ok (some objects), _ =>
    left
    rw [finish_of_none hproceed, finish_confirming clock (hset _) rfl]
    rfl
  | .ok none, none => exact .inr ⟨rfl, _, hset _, finish_of_none hproceed _⟩
  | .ok none, some e =>
    left
    rw [finish_of_some hproceed]
    rfl

/-- **A call that fails leaves its marks.**  The manager is not as it was: a key that nobody had is
reserved.  Every such key of the call is refused from then on, and is not in the store. -/
theorem not_asBefore_of_fails (s : MPStorageManager) (keys : List StorageKey) (shape : TorchSize)
    (dtype : TorchDtype) (fmt : KvFormat) (clock : Nat → StorageKey → Rat)
    (hfails : (raised (s.reserveAlone keys shape dtype fmt clock).1).isSome) :
    ¬AsBefore s (s.reserveAlone keys shape dtype fmt clock).2 ∧
      ∀ key ∈ keys, s.hasKey key = false →
        (s.reserveAlone keys shape dtype fmt clock).2.hasKey key = true ∧
          key ∉ (s.reserveAlone keys shape dtype fmt clock).2.commitedMemoryObjects := by
  have hdrawn : (s.reserve keys shape dtype fmt).reserving.get? s.reserveHandle =
      some ⟨shape, dtype, fmt, [], .marking keys⟩ := (Dict.get?_set _ _ _ _).trans (if_pos rfl)
  obtain ⟨s', r', hfinish, hr', hstage', hcommited, -, -, hmarked, htodo⟩ :=
    finish_marking clock 3 hdrawn rfl
  have hpast : s'.PastMarking s.reserveHandle := by
    intro r hr key todo hstage
    rw [hr'] at hr
    cases hr
    rw [hstage'] at hstage
    cases hstage
  have hgoes := goes_finish clock 3 hpast
  unfold reserveAlone at hfails ⊢
  rw [hfinish] at hfails ⊢
  constructor
  · -- a call that fails has asked for memory, so that a key is marked
    intro hbefore
    obtain ⟨key, hkey⟩ : ∃ key, key ∈ r'.marked := by
      by_contra hnone
      have hnil : r'.marked = [] := List.eq_nil_iff_forall_not_mem.mpr fun k hk => hnone ⟨k, hk⟩
      rw [finish_of_noMarks clock hr' hstage' hnil] at hfails
      cases hfails
    obtain ⟨hfree, hin⟩ := (hmarked key hkey).resolve_left nofun
    have hold : key ∈ s.reservedKeys := hbefore.reserved ▸ hgoes.reserved ▸ hin
    exact (hasKey_eq_false_iff.mp hfree).1 hold
  · -- its mark stays to the end, and nothing brings it into the store
    intro key hkey hfree
    have hin : key ∈ (finish s.reserveHandle clock 3 s').2.reservedKeys :=
      hgoes.reserved ▸ htodo key hkey hfree
    refine ⟨by simp [hasKey, hin], fun hcommit => ?_⟩
    have hold := hgoes.commited key hcommit
    rw [hcommited] at hold
    exact (hasKey_eq_false_iff.mp hfree).2 hold

/-- A page that is reserved takes the whole buffer. -/
def fullManager : MPStorageManager :=
  run step (init 4096 true) [reservePages [chunkKey 0], .proceed 0 0, .proceed 0 0, .proceed 0 0]

/-- Of two keys one is reserved by another client, and there is no memory for the other. -/
theorem not_asBefore_fullManager :
    ¬AsBefore fullManager
        (fullManager.reserveAlone [chunkKey 0, chunkKey 1] [4096] .uint8 ⟨.KV_2LTD, by decide⟩ 0).2 ∧
      ∀ key ∈ [chunkKey 0, chunkKey 1], fullManager.hasKey key = false →
        (fullManager.reserveAlone [chunkKey 0, chunkKey 1] [4096] .uint8
            ⟨.KV_2LTD, by decide⟩ 0).2.hasKey key = true ∧
          key ∉ (fullManager.reserveAlone [chunkKey 0, chunkKey 1] [4096] .uint8
            ⟨.KV_2LTD, by decide⟩ 0).2.commitedMemoryObjects :=
  not_asBefore_of_fails fullManager [chunkKey 0, chunkKey 1] [4096] .uint8 ⟨.KV_2LTD, by decide⟩ 0
    (by decide +kernel)

/-- It fails for want of memory, its key stays marked, and a second call for it gets nothing. -/
theorem not_failsAtomically :
    let failed := fullManager.reserveAlone [chunkKey 1] [4096] .uint8 ⟨.KV_2LTD, by decide⟩ 0
    let again := failed.2.reserveAlone [chunkKey 1] [4096] .uint8 ⟨.KV_2LTD, by decide⟩ 0
    raised failed.1 = some (.memoryExhausted (exhaustedMessage 1)) ∧
      ¬AsBefore fullManager failed.2 ∧
      (again.1.bind Except.toOption).map Dict.keys = some [] := by
  refine ⟨by decide +kernel, fun h => ?_, by decide +kernel⟩
  have hreserved := h.reserved
  revert hreserved
  decide +kernel

end MPStorageManager

end LMCache.Multiprocess
