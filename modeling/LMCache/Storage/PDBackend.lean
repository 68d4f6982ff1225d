/-
# LMCache.Storage.PDBackend — the receiving side of disaggregated prefill.

Source: `contains`, `_allocate_and_put`, `put`, `get_blocking` and `remove` of
`v1/storage_backend/pd_backend.py`, the loop over the retrieved chunks in `LMCacheEngine.retrieve`,
and the paged allocator behind the backend.

A request of the sender reserves a page for each of its keys.  A key that is already there is
reserved once more, by its reference count.  The engine thread reads the page of a key and gives up
one reservation, in two steps: `remove` takes the key out of `data` when its count is one, and
`ref_count_down` lowers the count.  Between the two the allocation thread may reserve the key again.

`always_sound` says that this works: the counts of reservations and of completed retrieves say which
keys are there, and every page is in exactly one place.
-/
import LMCache.CacheEngineKey
import LMCache.Lib.Run
import LMCache.Lib.Weights
import Mathlib.Logic.Function.Basic

namespace LMCache.Storage

open LMCache.Lib LMCache.Memory

/-! ## The backend -/

/-- What the object of a page knows of itself. -/
structure PageObj where
  shape : TorchSize
  dtype : TorchDtype
  fmt : MemoryFormat
  refCount : Nat
  deriving DecidableEq, Repr

/-- `PDBackend` of a receiver: `data` maps a key to the page of its object. -/
structure PDBackend where
  data : Dict CacheEngineKey Nat
  pages : Nat → PageObj
  /-- The pages that the allocator hands out, in order. -/
  freeBlocks : List Nat

namespace PDBackend

def refCount (b : PDBackend) (page : Nat) : Nat := (b.pages page).refCount

def setRefCount (b : PDBackend) (page n : Nat) : PDBackend :=
  { b with pages := Function.update b.pages page { b.pages page with refCount := n } }

/-- `contains`: a pin is one more reference. -/
def contains (b : PDBackend) (key : CacheEngineKey) (pin : Bool) : PDBackend × Bool :=
  match b.data.get? key with
  | some page => (if pin then b.setRefCount page (b.refCount page + 1) else b, true)
  | none => (b, false)

/-- `allocate`, by the paged allocator: there is no eviction. -/
def allocate (b : PDBackend) (shape : TorchSize) (dtype : TorchDtype) (fmt : MemoryFormat) :
    PDBackend × Option Nat :=
  match b.freeBlocks with
  | [] => (b, none)
  | page :: rest =>
    ({ b with
        freeBlocks := rest
        pages := Function.update b.pages page ⟨shape, dtype, fmt, 1⟩ }, some page)

def put (b : PDBackend) (key : CacheEngineKey) (page : Nat) : PDBackend :=
  { b with data := b.data.set key page }

/-- `get_blocking`: the key must be there, or an assertion fails.  No reference is taken. -/
def getBlocking (b : PDBackend) (key : CacheEngineKey) : Option Nat := b.data.get? key

/-- `remove`: the key goes when nobody but the caller has a reference. -/
def remove (b : PDBackend) (key : CacheEngineKey) : PDBackend × Bool :=
  match b.data.get? key with
  | some page =>
    (if b.refCount page = 1 then { b with data := b.data.erase key } else b, true)
  | none => (b, false)

/-- Whether `remove` takes the key out. -/
def takesOut (b : PDBackend) (key : CacheEngineKey) : Bool :=
  match b.data.get? key with
  | some page => decide (b.refCount page = 1)
  | none => false

/-- `MemoryObj.ref_count_down`: a count below zero is set back to zero, and at zero the page goes
back to the allocator. -/
def refCountDown (b : PDBackend) (page : Nat) : PDBackend :=
  let b' := b.setRefCount page (b.refCount page - 1)
  if b'.refCount page = 0 then { b' with freeBlocks := b'.freeBlocks ++ [page] } else b'

variable (b : PDBackend)

@[simp] theorem refCount_setRefCount_self (page n : Nat) :
    (b.setRefCount page n).refCount page = n := by
  simp [refCount, setRefCount]

theorem refCount_setRefCount_of_ne {page page' : Nat} (h : page' ≠ page) (n : Nat) :
    (b.setRefCount page n).refCount page' = b.refCount page' := by
  simp [refCount, setRefCount, h]

@[simp] theorem data_setRefCount (page n : Nat) :
    (b.setRefCount page n).data = b.data := rfl

@[simp] theorem freeBlocks_setRefCount (page n : Nat) :
    (b.setRefCount page n).freeBlocks = b.freeBlocks := rfl

end PDBackend

/-! ## The two threads -/

/-- One chunk of an `AllocRequest`. -/
structure Reservation where
  key : CacheEngineKey
  shape : TorchSize
  dtype : TorchDtype
  fmt : MemoryFormat
  deriving DecidableEq, Repr

/-- Where the allocation thread is in `_allocate_and_put`. -/
inductive AllocPc where
  | idle
  /-- At the head of the loop, with these chunks to go. -/
  | next (todo : List Reservation)
  /-- The first chunk is not in `data`, and `allocate` has not given a page yet. -/
  | allocating (r : Reservation) (todo : List Reservation)
  /-- The page is there, and `put` has not been called yet. -/
  | putting (r : Reservation) (page : Nat) (todo : List Reservation)

/-- A chunk between `remove` and `ref_count_down`; `taken` tells whether its key has been taken out.
-/
structure Removal where
  key : CacheEngineKey
  page : Nat
  taken : Bool
  deriving DecidableEq, Repr

/-- The receiver with its two threads, and what has been counted of every key. -/
structure PDReceiver where
  backend : PDBackend
  alloc : AllocPc
  /-- The chunks that the engine thread has read and not removed yet, in order. -/
  got : List (CacheEngineKey × Nat)
  removing : Option Removal
  reserved : CacheEngineKey → Nat
  completed : CacheEngineKey → Nat

inductive PDAction where
  /-- An `AllocRequest` arrives. -/
  | request (todo : List Reservation)
  /-- The allocation thread goes on. -/
  | allocStep
  /-- The engine thread reads a key, unless it is about to lower the count of another. -/
  | getBlocking (key : CacheEngineKey)
  /-- It removes the first of the chunks it has read. -/
  | remove
  /-- It lowers the count of the chunk it has just removed. -/
  | refCountDown
  deriving DecidableEq, Repr

namespace PDReceiver

/-- A receiver whose allocator has `n` pages. -/
def init (n : Nat) : PDReceiver where
  backend := ⟨.empty, fun _ => ⟨[], .float16, .KV_2LTD, 0⟩, List.range n⟩
  alloc := .idle
  got := []
  removing := none
  reserved := fun _ => 0
  completed := fun _ => 0

def count (f : CacheEngineKey → Nat) (key : CacheEngineKey) : CacheEngineKey → Nat :=
  Function.update f key (f key + 1)

def allocStep (s : PDReceiver) : AllocPc → PDReceiver
  | .idle => s
  | .next [] => { s with alloc := .idle }
  | .next (r :: todo) =>
    match s.backend.contains r.key true with
    | (b, true) => { s with backend := b, alloc := .next todo, reserved := count s.reserved r.key }
    | (_, false) => { s with alloc := .allocating r todo }
  | .allocating r todo =>
    match s.backend.allocate r.shape r.dtype r.fmt with
    | (_, none) => s
    | (b, some page) => { s with backend := b, alloc := .putting r page todo }
  | .putting r page todo =>
    { s with
      backend := s.backend.put r.key page
      alloc := .next todo
      reserved := count s.reserved r.key }

def removeStep (s : PDReceiver) : List (CacheEngineKey × Nat) → PDReceiver
  | [] => s
  | (key, page) :: got =>
    { s with
      backend := (s.backend.remove key).1
      got := got
      removing := some ⟨key, page, s.backend.takesOut key⟩ }

def step (s : PDReceiver) : PDAction → PDReceiver
  | .request todo =>
    match s.alloc with
    | .idle => { s with alloc := .next todo }
    | _ => s
  | .allocStep => s.allocStep s.alloc
  | .getBlocking key =>
    match s.removing, s.backend.getBlocking key with
    | none, some page => { s with got := s.got ++ [(key, page)] }
    | _, _ => s
  | .remove =>
    match s.removing with
    | none => s.removeStep s.got
    | some _ => s
  | .refCountDown =>
    match s.removing with
    | none => s
    | some r =>
      { s with
        backend := s.backend.refCountDown r.page
        removing := none
        completed := count s.completed r.key }

/-! ## What holds in every state -/

/-- The page that the allocation thread has in its hands. -/
def allocHand (s : PDReceiver) : List Nat :=
  match s.alloc with
  | .putting _ page _ => [page]
  | _ => []

/-- The page of a key that has been taken out, until it is given back. -/
def engineHand (s : PDReceiver) : List Nat :=
  match s.removing with
  | some ⟨_, page, true⟩ => [page]
  | _ => []

/-- Where the pages are. -/
def ledger (s : PDReceiver) : List Nat :=
  s.backend.freeBlocks ++ (s.backend.data.values ++ (s.allocHand ++ s.engineHand))

/-- Whether the key has been taken out and its page not been given back: 1 or 0. -/
def takenOut (s : PDReceiver) (key : CacheEngineKey) : Nat :=
  match s.removing with
  | some ⟨key', _, true⟩ => if key' = key then 1 else 0
  | _ => 0

/-- The retrieves of the key that have begun and not been completed. -/
def begun (s : PDReceiver) (key : CacheEngineKey) : Nat :=
  s.got.countP (fun e => e.1 = key) +
    match s.removing with
    | some r => if r.key = key then 1 else 0
    | none => 0

/-- The key is not in `data`, and its page is not on the way back to the allocator either. -/
def Released (s : PDReceiver) (key : CacheEngineKey) : Prop :=
  key ∉ s.backend.data ∧ s.takenOut key = 0

/-- **The receiver is sound**: no key is mapped to a free page; a key is gone exactly when as many
retrieves as reservations have been completed; and every page is free, mapped, or in the hands of
one of the threads, and only one of these. -/
structure Sound (n : Nat) (s : PDReceiver) : Prop where
  live : ∀ key page, s.backend.data.get? key = some page → page ∉ s.backend.freeBlocks
  released : ∀ key, s.reserved key = s.completed key ↔ s.Released key
  ledger : s.ledger.Perm (List.range n)

/-- **Every retrieve matches an earlier reservation**: a key is read only when it has been reserved
more often than retrieves of it have begun. -/
def Matches (s : PDReceiver) : PDAction → Prop
  | .getBlocking key => s.completed key + s.begun key < s.reserved key
  | _ => True

instance (s : PDReceiver) : (a : PDAction) → Decidable (s.Matches a)
  | .getBlocking key => inferInstanceAs (Decidable (s.completed key + s.begun key < s.reserved key))
  | .request _ | .allocStep | .remove | .refCountDown => .isTrue trivial

/-- The invariant: the count of a page is what has been reserved and not completed of its key. -/
structure Inv (n : Nat) (s : PDReceiver) : Prop where
  ledger : s.ledger.Perm (List.range n)
  mapped : ∀ key page, s.backend.data.get? key = some page →
    s.backend.refCount page + (s.completed key + s.takenOut key) = s.reserved key ∧
      1 ≤ s.backend.refCount page
  unmapped : ∀ key, s.backend.data.get? key = none →
    s.completed key + s.takenOut key = s.reserved key
  begun : ∀ key, s.completed key + s.begun key ≤ s.reserved key
  got : ∀ e ∈ s.got, s.backend.data.get? e.1 = some e.2
  taken : ∀ key page, s.removing = some ⟨key, page, true⟩ → s.backend.refCount page = 1
  kept : ∀ key page, s.removing = some ⟨key, page, false⟩ →
    s.backend.data.get? key = some page ∧ 2 ≤ s.backend.refCount page
  putting : ∀ r page todo, s.alloc = .putting r page todo →
    s.backend.refCount page = 1 ∧ s.backend.data.get? r.key = none
  allocating : ∀ r todo, s.alloc = .allocating r todo → s.backend.data.get? r.key = none

variable {n : Nat} {s : PDReceiver}

theorem Inv.nodup (h : Inv n s) : s.ledger.Nodup := h.ledger.nodup_iff.mpr List.nodup_range

variable {key key' : CacheEngineKey} {page : Nat} {todo : List Reservation}
  {rest : List (CacheEngineKey × Nat)}

/-- A mapped page is not free, and in nobody's hands. -/
theorem Inv.apart (h : Inv n s) (hk : s.backend.data.get? key = some page) :
    page ∉ s.backend.freeBlocks ∧ page ∉ s.allocHand ∧ page ∉ s.engineHand := by
  have hvalue : page ∈ s.backend.data.values := Dict.mem_values_of_get? hk
  obtain ⟨-, hrest, hdisj⟩ := List.nodup_append.mp h.nodup
  obtain ⟨-, -, hdisj'⟩ := List.nodup_append.mp hrest
  refine ⟨fun hf => hdisj _ hf _ (List.mem_append_left _ hvalue) rfl, fun ha => ?_, fun he => ?_⟩
  · exact hdisj' _ hvalue _ (List.mem_append_left _ ha) rfl
  · exact hdisj' _ hvalue _ (List.mem_append_right _ he) rfl

/-- Two keys do not share a page. -/
theorem Inv.injective (h : Inv n s) (hk : s.backend.data.get? key = some page)
    (hk' : s.backend.data.get? key' = some page) : key = key' := by
  have hvalues : s.backend.data.values.Nodup :=
    (List.nodup_append.mp (List.nodup_append.mp h.nodup).2.1).1
  exact Dict.key_unique_of_values hvalues hk hk'

theorem Inv.sound (h : Inv n s) : Sound n s where
  live := fun key page hk => (h.apart hk).1
  released := by
    intro key
    unfold Released
    rw [← Dict.get?_eq_none]
    constructor
    · intro heq
      cases hk : s.backend.data.get? key with
      | none =>
        have := h.unmapped key hk
        exact ⟨rfl, by omega⟩
      | some page =>
        have := h.mapped key page hk
        omega
    · rintro ⟨hk, htaken⟩
      have := h.unmapped key hk
      omega
  ledger := h.ledger

theorem inv_init (n : Nat) : Inv n (init n) where
  ledger := by
    show (List.range n ++ []).Perm _
    rw [List.append_nil]
  mapped := fun key page h => (nomatch h)
  unmapped := fun key _ => rfl
  begun := fun key => Nat.le_refl 0
  got := fun e h => (nomatch h)
  taken := fun key page h => (nomatch h)
  kept := fun key page h => (nomatch h)
  putting := fun r page todo h => (nomatch h)
  allocating := fun r todo h => (nomatch h)

/-! ## One step of the allocation thread -/

variable (f : CacheEngineKey → Nat)

@[simp] theorem count_self (key : CacheEngineKey) :
    count f key key = f key + 1 := by simp [count]

theorem count_of_ne (h : key' ≠ key) :
    count f key key' = f key' := by simp [count, h]

theorem le_count (key key' : CacheEngineKey) : f key' ≤ count f key key' := by
  by_cases h : key' = key
  · subst h
    rw [count_self]
    omega
  · rw [count_of_ne f h]

/-- A key that is there is reserved once more. -/
theorem inv_pin (h : Inv n s) (hk : s.backend.data.get? key = some page) (halloc : s.allocHand = [])
    :
    Inv n { s with
      backend := s.backend.setRefCount page (s.backend.refCount page + 1)
      alloc := .next todo
      reserved := count s.reserved key } where
  ledger := by
    have hledger := h.ledger
    unfold PDReceiver.ledger at hledger
    rw [halloc] at hledger
    exact hledger
  mapped := by
    intro key' page' hk'
    have hold := h.mapped key' page' hk'
    by_cases hkey : key' = key
    · subst hkey
      cases hk.symm.trans hk'
      show (s.backend.setRefCount page _).refCount page + _ = count s.reserved key' key' ∧ _
      rw [PDBackend.refCount_setRefCount_self, count_self]
      refine ⟨?_, by omega⟩
      have hout := hold.1
      change s.backend.refCount page + 1 + (s.completed key' + s.takenOut key') = _
      omega
    · have hpage : page' ≠ page := fun hp => hkey (h.injective (hp ▸ hk') hk)
      show (s.backend.setRefCount page _).refCount page' + _ = count s.reserved key key' ∧ _
      rw [PDBackend.refCount_setRefCount_of_ne _ hpage, count_of_ne _ hkey]
      exact hold
  unmapped := by
    intro key' hk'
    have hkey : key' ≠ key := by
      rintro rfl
      cases hk.symm.trans hk'
    show _ = count s.reserved key key'
    rw [count_of_ne _ hkey]
    exact h.unmapped key' hk'
  begun := fun key' => (h.begun key').trans (le_count _ _ _)
  got := h.got
  taken := by
    intro key' page' hr
    have hpage : page' ≠ page := by
      rintro rfl
      refine (h.apart hk).2.2 ?_
      unfold engineHand
      rw [hr]
      exact List.mem_singleton_self _
    show (s.backend.setRefCount page _).refCount page' = 1
    rw [PDBackend.refCount_setRefCount_of_ne _ hpage]
    exact h.taken key' page' hr
  kept := by
    intro key' page' hr
    obtain ⟨hk', htwo⟩ := h.kept key' page' hr
    refine ⟨hk', ?_⟩
    by_cases hpage : page' = page
    · subst hpage
      rw [PDBackend.refCount_setRefCount_self]
      omega
    · rw [PDBackend.refCount_setRefCount_of_ne _ hpage]
      exact htwo
  putting := fun r page todo hpc => (nomatch hpc)
  allocating := fun r todo hpc => (nomatch hpc)

/-- The allocation thread moves without touching the backend. -/
theorem Inv.move (h : Inv n s) (pc : AllocPc) (hs : s.allocHand = [])
    (hpc : ({ s with alloc := pc } : PDReceiver).allocHand = [])
    (hallocating : ∀ r todo, pc = .allocating r todo → s.backend.data.get? r.key = none) :
    Inv n { s with alloc := pc } where
  ledger := by
    have hledger := h.ledger
    unfold PDReceiver.ledger at hledger ⊢
    rw [hs] at hledger
    rw [hpc]
    exact hledger
  mapped := h.mapped
  unmapped := h.unmapped
  begun := h.begun
  got := h.got
  taken := h.taken
  kept := h.kept
  putting := by
    rintro r page todo rfl
    cases hpc
  allocating := hallocating

/-- A page from the head of the free pages goes into the hands of the allocation thread. -/
theorem inv_allocate (h : Inv n s) {r : Reservation} {rest : List Nat}
    (hs : s.alloc = .allocating r todo) (hfree : s.backend.freeBlocks = page :: rest) :
    Inv n { s with
      backend := { s.backend with
        freeBlocks := rest
        pages := Function.update s.backend.pages page ⟨r.shape, r.dtype, r.fmt, 1⟩ }
      alloc := .putting r page todo } := by
  have hin : page ∈ s.backend.freeBlocks := by rw [hfree]; exact List.mem_cons_self ..
  have hne : ∀ page', page' ∉ s.backend.freeBlocks → page' ≠ page := fun _ hnot heq =>
    hnot (heq ▸ hin)
  have hcount : ∀ page', page' ∉ s.backend.freeBlocks →
      (Function.update s.backend.pages page ⟨r.shape, r.dtype, r.fmt, 1⟩ page').refCount =
        s.backend.refCount page' := by
    intro page' hnot
    rw [Function.update_of_ne (hne page' hnot)]
    rfl
  constructor
  case ledger =>
    have hledger := h.ledger
    unfold PDReceiver.ledger allocHand at hledger ⊢
    rw [hs, hfree] at hledger
    refine List.Perm.trans ?_ hledger
    show (rest ++ (s.backend.data.values ++ page :: s.engineHand)).Perm
      (page :: (rest ++ (s.backend.data.values ++ s.engineHand)))
    refine (List.Perm.append_left rest List.perm_middle).trans ?_
    exact List.perm_middle
  case mapped =>
    intro key' page' hk'
    have hold := h.mapped key' page' hk'
    show (Function.update s.backend.pages page _ page').refCount + _ = _ ∧
      1 ≤ (Function.update s.backend.pages page _ page').refCount
    rw [hcount page' (h.apart hk').1]
    exact hold
  case unmapped => exact h.unmapped
  case begun => exact h.begun
  case got => exact h.got
  case taken =>
    intro key' page' hr
    have hhand : page' ∈ s.engineHand := by
      unfold engineHand
      rw [hr]
      exact List.mem_singleton_self _
    have hnot : page' ∉ s.backend.freeBlocks := by
      intro hf
      refine (List.nodup_append.mp h.nodup).2.2 _ hf _ ?_ rfl
      exact List.mem_append_right _ (List.mem_append_right _ hhand)
    show (Function.update s.backend.pages page _ page').refCount = 1
    rw [hcount page' hnot]
    exact h.taken key' page' hr
  case kept =>
    intro key' page' hr
    obtain ⟨hk', htwo⟩ := h.kept key' page' hr
    refine ⟨hk', ?_⟩
    show 2 ≤ (Function.update s.backend.pages page _ page').refCount
    rw [hcount page' (h.apart hk').1]
    exact htwo
  case putting =>
    intro r' page' todo' hpc
    cases hpc
    refine ⟨?_, h.allocating r todo hs⟩
    show (Function.update s.backend.pages page _ page).refCount = 1
    rw [Function.update_self]
  case allocating => exact fun r' todo' hpc => (nomatch hpc)

/-- The page in the hands of the allocation thread becomes that of its key. -/
theorem inv_put (h : Inv n s) {r : Reservation} (hs : s.alloc = .putting r page todo) :
    Inv n { s with
      backend := s.backend.put r.key page
      alloc := .next todo
      reserved := count s.reserved r.key } := by
  obtain ⟨hone, hnone⟩ := h.putting r page todo hs
  have hnotin : r.key ∉ s.backend.data := Dict.get?_eq_none.mp hnone
  have hget : ∀ key', (s.backend.data.set r.key page).get? key' =
      if key' = r.key then some page else s.backend.data.get? key' := fun _ => Dict.get?_set _ _ _ _
  constructor
  case ledger =>
    have hledger := h.ledger
    unfold PDReceiver.ledger allocHand at hledger ⊢
    rw [hs] at hledger
    refine List.Perm.trans ?_ hledger
    show (s.backend.freeBlocks ++ ((s.backend.data.set r.key page).values ++
      ([] ++ s.engineHand))).Perm _
    rw [Dict.values_set_of_notMem hnotin, List.nil_append, List.append_assoc]
  case mapped =>
    intro key' page' hk'
    change (s.backend.data.set r.key page).get? key' = some page' at hk'
    rw [hget] at hk'
    show s.backend.refCount page' + _ = count s.reserved r.key key' ∧ _
    by_cases hkey : key' = r.key
    · rw [if_pos hkey] at hk'
      cases hk'
      rw [hkey, count_self, hone]
      have hout := h.unmapped r.key hnone
      refine ⟨?_, hone.ge⟩
      change 1 + (s.completed r.key + s.takenOut r.key) = _
      omega
    · rw [if_neg hkey] at hk'
      rw [count_of_ne _ hkey]
      exact h.mapped key' page' hk'
  case unmapped =>
    intro key' hk'
    change (s.backend.data.set r.key page).get? key' = none at hk'
    rw [hget] at hk'
    show _ = count s.reserved r.key key'
    by_cases hkey : key' = r.key
    · rw [if_pos hkey] at hk'
      cases hk'
    · rw [if_neg hkey] at hk'
      rw [count_of_ne _ hkey]
      exact h.unmapped key' hk'
  case begun => exact fun key' => (h.begun key').trans (le_count _ _ _)
  case got =>
    intro e he
    show (s.backend.data.set r.key page).get? e.1 = some e.2
    have hold := h.got e he
    rw [hget, if_neg (fun hkey => by rw [hkey, hnone] at hold; cases hold)]
    exact hold
  case taken => exact h.taken
  case kept =>
    intro key' page' hr
    obtain ⟨hk', htwo⟩ := h.kept key' page' hr
    refine ⟨?_, htwo⟩
    show (s.backend.data.set r.key page).get? key' = some page'
    rw [hget, if_neg (fun hkey => by rw [hkey, hnone] at hk'; cases hk')]
    exact hk'
  case putting => exact fun r' page' todo' hpc => (nomatch hpc)
  case allocating => exact fun r' todo' hpc => (nomatch hpc)

theorem inv_allocStep (h : Inv n s) : Inv n (s.allocStep s.alloc) := by
  cases hs : s.alloc with
  | idle => exact h
  | next todo =>
    have hhand : s.allocHand = [] := by
      unfold allocHand
      rw [hs]
    cases todo with
    | nil => exact h.move .idle hhand rfl fun r todo hpc => (nomatch hpc)
    | cons r todo =>
      cases hk : s.backend.data.get? r.key with
      | some page =>
        simp only [allocStep, PDBackend.contains, hk, if_true]
        exact inv_pin h hk hhand
      | none =>
        simp only [allocStep, PDBackend.contains, hk]
        refine h.move (.allocating r todo) hhand rfl ?_
        rintro r' todo' hpc
        cases hpc
        exact hk
  | allocating r todo =>
    cases hfree : s.backend.freeBlocks with
    | nil =>
      simp only [allocStep, PDBackend.allocate, hfree]
      exact h
    | cons page rest =>
      simp only [allocStep, PDBackend.allocate, hfree]
      exact inv_allocate h hs hfree
  | putting r page todo => exact inv_put h hs

/-! ## One step of the engine thread -/

/-- The engine thread reads a key. -/
theorem inv_getBlocking (h : Inv n s) (hk : s.backend.data.get? key = some page)
    (hmatch : s.completed key + s.begun key < s.reserved key) :
    Inv n { s with got := s.got ++ [(key, page)] } where
  ledger := h.ledger
  mapped := h.mapped
  unmapped := h.unmapped
  begun := by
    intro key'
    have hold := h.begun key'
    unfold PDReceiver.begun at hold hmatch ⊢
    dsimp only
    rw [List.countP_append, List.countP_singleton]
    by_cases hkey : key = key'
    · subst hkey
      rw [if_pos (decide_eq_true rfl)]
      omega
    · rw [if_neg (by simpa using hkey)]
      omega
  got := by
    intro e he
    rcases List.mem_append.mp he with he | he
    · exact h.got e he
    · cases List.mem_singleton.mp he
      exact hk
  taken := h.taken
  kept := h.kept
  putting := h.putting
  allocating := h.allocating

/-- The retrieves of a key are those of its chunks that were read, and the one under way. -/
theorem begun_cons (hs : s.removing = none) (hgot : s.got = (key, page) :: rest) :
    s.begun key' = rest.countP (fun e => e.1 = key') + if key = key' then 1 else 0 := by
  unfold PDReceiver.begun
  rw [hs, hgot, List.countP_cons]
  by_cases hkey : key = key' <;> simp [hkey]

/-- The count is one: the key is taken out. -/
theorem inv_takeOut (h : Inv n s) (hs : s.removing = none) (hgot : s.got = (key, page) :: rest)
    (hone : s.backend.refCount page = 1) :
    Inv n { s with
      backend := { s.backend with data := s.backend.data.erase key }
      got := rest
      removing := some ⟨key, page, true⟩ } := by
  have hk : s.backend.data.get? key = some page := h.got (key, page) (by simp [hgot])
  have hzero : ∀ key', s.takenOut key' = 0 := by
    intro key'
    unfold takenOut
    rw [hs]
  have hhand : s.engineHand = [] := by
    unfold engineHand
    rw [hs]
  have hout := (h.mapped key page hk).1
  rw [hone, hzero] at hout
  -- no other retrieve of the key has begun: the only reservation is the one given up here
  have hothers : rest.countP (fun e => e.1 = key) = 0 := by
    have hbegun := h.begun key
    rw [begun_cons hs hgot, if_pos rfl] at hbegun
    omega
  have htaken : ∀ key', PDReceiver.takenOut { s with
      backend := { s.backend with data := s.backend.data.erase key }
      got := rest
      removing := some ⟨key, page, true⟩ } key' = if key = key' then 1 else 0 := fun _ => rfl
  constructor
  case ledger =>
    refine List.Perm.trans ?_ h.ledger
    unfold PDReceiver.ledger
    rw [hhand]
    show (s.backend.freeBlocks ++ ((s.backend.data.erase key).values ++
      (s.allocHand ++ [page]))).Perm (s.backend.freeBlocks ++ (s.backend.data.values ++
        (s.allocHand ++ [])))
    refine List.Perm.append_left _ ?_
    rw [← List.append_assoc, List.append_nil]
    refine (List.perm_append_singleton _ _).trans ?_
    exact ((Dict.values_perm_erase hk).append_right s.allocHand).symm
  case mapped =>
    intro key' page' hk'
    change (s.backend.data.erase key).get? key' = some page' at hk'
    rw [Dict.get?_erase] at hk'
    by_cases hkey : key' = key
    · rw [if_pos hkey] at hk'
      cases hk'
    · rw [if_neg hkey] at hk'
      have hold := h.mapped key' page' hk'
      rw [hzero] at hold
      rw [htaken, if_neg (Ne.symm hkey)]
      exact hold
  case unmapped =>
    intro key' hk'
    change (s.backend.data.erase key).get? key' = none at hk'
    rw [Dict.get?_erase] at hk'
    rw [htaken]
    by_cases hkey : key' = key
    · subst hkey
      rw [if_pos rfl]
      show s.completed key' + 1 = s.reserved key'
      omega
    · rw [if_neg hkey] at hk'
      have hold := h.unmapped key' hk'
      rw [hzero] at hold
      rw [if_neg (Ne.symm hkey)]
      exact hold
  case begun =>
    intro key'
    have hold := h.begun key'
    rw [begun_cons hs hgot] at hold
    exact hold
  case got =>
    intro e he
    have hne : e.1 ≠ key := by
      intro heq
      have := List.countP_eq_zero.mp hothers e he
      exact this (by simpa using heq)
    show (s.backend.data.erase key).get? e.1 = some e.2
    rw [Dict.get?_erase, if_neg hne]
    exact h.got e (by rw [hgot]; exact List.mem_cons_of_mem _ he)
  case taken =>
    intro key' page' hr
    cases hr
    exact hone
  case kept => exact fun key' page' hr => (nomatch hr)
  case putting =>
    intro r page' todo hpc
    obtain ⟨hcount, hnone⟩ := h.putting r page' todo hpc
    refine ⟨hcount, ?_⟩
    show (s.backend.data.erase key).get? r.key = none
    rw [Dict.get?_erase, hnone, ite_self]
  case allocating =>
    intro r todo hpc
    show (s.backend.data.erase key).get? r.key = none
    rw [Dict.get?_erase, h.allocating r todo hpc, ite_self]

/-- The count is higher: the key stays. -/
theorem inv_keep (h : Inv n s) (hs : s.removing = none) (hgot : s.got = (key, page) :: rest)
    (hmore : s.backend.refCount page ≠ 1) :
    Inv n { s with got := rest, removing := some ⟨key, page, false⟩ } := by
  have hk : s.backend.data.get? key = some page := h.got (key, page) (by simp [hgot])
  have hzero : ∀ key', s.takenOut key' = 0 := by
    intro key'
    unfold takenOut
    rw [hs]
  have hhand : s.engineHand = [] := by
    unfold engineHand
    rw [hs]
  constructor
  case ledger =>
    have hledger := h.ledger
    unfold PDReceiver.ledger at hledger ⊢
    rw [hhand] at hledger
    exact hledger
  case mapped =>
    intro key' page' hk'
    have hold := h.mapped key' page' hk'
    rw [hzero] at hold
    exact hold
  case unmapped =>
    intro key' hk'
    have hold := h.unmapped key' hk'
    rw [hzero] at hold
    exact hold
  case begun =>
    intro key'
    have hold := h.begun key'
    rw [begun_cons hs hgot] at hold
    exact hold
  case got => exact fun e he => h.got e (by rw [hgot]; exact List.mem_cons_of_mem _ he)
  case taken => exact fun key' page' hr => (nomatch hr)
  case kept =>
    intro key' page' hr
    cases hr
    have hone := (h.mapped key page hk).2
    exact ⟨hk, by show 2 ≤ s.backend.refCount page; omega⟩
  case putting => exact h.putting
  case allocating => exact h.allocating

theorem inv_removeStep (h : Inv n s) (hs : s.removing = none) : Inv n (s.removeStep s.got) := by
  cases hgot : s.got with
  | nil => exact h
  | cons e rest =>
    obtain ⟨key, page⟩ := e
    have hk : s.backend.data.get? key = some page := h.got (key, page) (by simp [hgot])
    simp only [removeStep, PDBackend.remove, PDBackend.takesOut, hk]
    by_cases hone : s.backend.refCount page = 1
    · rw [if_pos hone, decide_eq_true hone]
      exact inv_takeOut h hs hgot hone
    · rw [if_neg hone, decide_eq_false hone]
      exact inv_keep h hs hgot hone

/-- A retrieve that is completed is no longer under way. -/
theorem Inv.begun_completed (h : Inv n s) {r : Removal} (hs : s.removing = some r)
    (key' : CacheEngineKey) :
    count s.completed r.key key' + (s.got.countP (fun e => e.1 = key') + 0) ≤ s.reserved key' := by
  have hold := h.begun key'
  unfold PDReceiver.begun at hold
  rw [hs] at hold
  dsimp only at hold
  by_cases hkey : r.key = key'
  · rw [if_pos hkey] at hold
    rw [← hkey, count_self]
    rw [← hkey] at hold
    omega
  · rw [if_neg hkey] at hold
    rw [count_of_ne _ (Ne.symm hkey)]
    exact hold

/-- The page of a key that was taken out goes back to the allocator. -/
theorem inv_giveBack (h : Inv n s) (hs : s.removing = some ⟨key, page, true⟩) :
    Inv n { s with
      backend := s.backend.refCountDown page
      removing := none
      completed := count s.completed key } := by
  have hhand : s.engineHand = [page] := by
    unfold engineHand
    rw [hs]
  have hone := h.taken key page hs
  have hdown : s.backend.refCountDown page =
      { s.backend.setRefCount page 0 with freeBlocks := s.backend.freeBlocks ++ [page] } := by
    unfold PDBackend.refCountDown
    rw [hone]
    simp
  have hnotmapped : ∀ key' page', s.backend.data.get? key' = some page' → page' ≠ page := by
    rintro key' page' hk' rfl
    refine (h.apart hk').2.2 ?_
    rw [hhand]
    exact List.mem_singleton_self _
  have htaken : ∀ key', s.takenOut key' = if key = key' then 1 else 0 := by
    intro key'
    unfold takenOut
    rw [hs]
  rw [hdown]
  constructor
  case ledger =>
    refine List.Perm.trans ?_ h.ledger
    unfold PDReceiver.ledger
    rw [hhand]
    show (s.backend.freeBlocks ++ [page] ++ (s.backend.data.values ++ (s.allocHand ++ []))).Perm _
    rw [List.append_nil, List.append_assoc, ← List.append_assoc s.backend.data.values]
    exact List.Perm.append_left _ List.perm_append_comm
  case mapped =>
    intro key' page' hk'
    have hold := h.mapped key' page' hk'
    rw [htaken] at hold
    show (s.backend.setRefCount page 0).refCount page' + (count s.completed key key' + 0) = _ ∧
      1 ≤ (s.backend.setRefCount page 0).refCount page'
    rw [PDBackend.refCount_setRefCount_of_ne _ (hnotmapped key' page' hk')]
    refine ⟨?_, hold.2⟩
    by_cases hkey : key = key'
    · subst hkey
      rw [count_self]
      rw [if_pos rfl] at hold
      exact hold.1
    · rw [count_of_ne _ (Ne.symm hkey)]
      rw [if_neg hkey] at hold
      exact hold.1
  case unmapped =>
    intro key' hk'
    have hold := h.unmapped key' hk'
    rw [htaken] at hold
    show count s.completed key key' + 0 = _
    by_cases hkey : key = key'
    · subst hkey
      rw [count_self]
      rw [if_pos rfl] at hold
      exact hold
    · rw [count_of_ne _ (Ne.symm hkey)]
      rw [if_neg hkey] at hold
      exact hold
  case begun => exact h.begun_completed hs
  case got => exact h.got
  case taken => exact fun key' page' hr => (nomatch hr)
  case kept => exact fun key' page' hr => (nomatch hr)
  case putting =>
    intro r page' todo hpc
    obtain ⟨hcount, hnone⟩ := h.putting r page' todo hpc
    refine ⟨?_, hnone⟩
    have hne : page' ≠ page := by
      rintro rfl
      have hdisj := (List.nodup_append.mp (List.nodup_append.mp
        (List.nodup_append.mp h.nodup).2.1).2.1).2.2
      refine hdisj page' ?_ page' ?_ rfl
      · unfold allocHand
        rw [hpc]
        exact List.mem_singleton_self _
      · rw [hhand]
        exact List.mem_singleton_self _
    show (s.backend.setRefCount page 0).refCount page' = 1
    rw [PDBackend.refCount_setRefCount_of_ne _ hne]
    exact hcount
  case allocating => exact h.allocating

/-- The count of a key that stays goes down, and not to zero. -/
theorem inv_lower (h : Inv n s) (hs : s.removing = some ⟨key, page, false⟩) :
    Inv n { s with
      backend := s.backend.refCountDown page
      removing := none
      completed := count s.completed key } := by
  obtain ⟨hk, htwo⟩ := h.kept key page hs
  have hhand : s.engineHand = [] := by
    unfold engineHand
    rw [hs]
  have hzero : ∀ key', s.takenOut key' = 0 := by
    intro key'
    unfold takenOut
    rw [hs]
  have hdown : s.backend.refCountDown page =
      s.backend.setRefCount page (s.backend.refCount page - 1) := by
    unfold PDBackend.refCountDown
    have hpos : s.backend.refCount page - 1 ≠ 0 := by omega
    simp [hpos]
  rw [hdown]
  constructor
  case ledger =>
    have hledger := h.ledger
    unfold PDReceiver.ledger at hledger ⊢
    rw [hhand] at hledger
    exact hledger
  case mapped =>
    intro key' page' hk'
    have hold := h.mapped key' page' hk'
    rw [hzero] at hold
    show (s.backend.setRefCount page (s.backend.refCount page - 1)).refCount page' +
      (count s.completed key key' + 0) = s.reserved key' ∧
      1 ≤ (s.backend.setRefCount page (s.backend.refCount page - 1)).refCount page'
    by_cases hkey : key' = key
    · subst hkey
      cases hk.symm.trans hk'
      rw [PDBackend.refCount_setRefCount_self, count_self]
      omega
    · have hpage : page' ≠ page := fun hp => hkey (h.injective (hp ▸ hk') hk)
      rw [PDBackend.refCount_setRefCount_of_ne _ hpage, count_of_ne _ hkey]
      exact hold
  case unmapped =>
    intro key' hk'
    have hold := h.unmapped key' hk'
    rw [hzero] at hold
    have hkey : key' ≠ key := by
      rintro rfl
      cases hk.symm.trans hk'
    show count s.completed key key' + 0 = _
    rw [count_of_ne _ hkey]
    exact hold
  case begun => exact h.begun_completed hs
  case got => exact h.got
  case taken => exact fun key' page' hr => (nomatch hr)
  case kept => exact fun key' page' hr => (nomatch hr)
  case putting =>
    intro r page' todo hpc
    obtain ⟨hcount, hnone⟩ := h.putting r page' todo hpc
    refine ⟨?_, hnone⟩
    have hne : page' ≠ page := by
      rintro rfl
      refine (h.apart hk).2.1 ?_
      unfold allocHand
      rw [hpc]
      exact List.mem_singleton_self _
    show (s.backend.setRefCount page _).refCount page' = 1
    rw [PDBackend.refCount_setRefCount_of_ne _ hne]
    exact hcount
  case allocating => exact h.allocating

/-! ## Whole runs -/

/-- **One step** of either thread keeps the invariant, when a retrieve has a reservation to match.
-/
theorem inv_step (h : Inv n s) (a : PDAction) (hmatch : s.Matches a) : Inv n (s.step a) := by
  cases a with
  | request todo =>
    simp only [step]
    cases hs : s.alloc with
    | idle =>
      have hhand : s.allocHand = [] := by
        unfold allocHand
        rw [hs]
      exact h.move (.next todo) hhand rfl fun r todo hpc => (nomatch hpc)
    | next _ | allocating _ _ | putting _ _ _ => exact h
  | allocStep => exact inv_allocStep h
  | getBlocking key =>
    simp only [step, PDBackend.getBlocking]
    cases hs : s.removing with
    | some r => exact h
    | none =>
      cases hk : s.backend.data.get? key with
      | none => exact h
      | some page =>
        have hinv := inv_getBlocking h hk hmatch
        rw [hs] at hinv
        exact hinv
  | remove =>
    simp only [step]
    cases hs : s.removing with
    | some r => exact h
    | none => exact inv_removeStep h hs
  | refCountDown =>
    simp only [step]
    cases hs : s.removing with
    | none => exact h
    | some r =>
      obtain ⟨key, page, taken⟩ := r
      cases taken with
      | true => exact inv_giveBack h hs
      | false => exact inv_lower h hs

/-- **The reservations of a receiver.**  Over every interleaving of the requests with the retrieves
of one engine thread, each of which matches an earlier reservation, no key is mapped to a page that
the allocator has back, and a key is gone exactly when as many retrieves as reservations of it have
been completed. -/
theorem always_sound (n : Nat) (as : List PDAction) (h : Guarded step Matches (init n) as) :
    Always step (Sound n) (init n) as :=
  Always.mono (fun _ => Inv.sound) (always_of_guarded (fun _ a hs => inv_step hs a) (inv_init n) h)

/-- A chunk of the run below. -/
def chunkReservation : Reservation :=
  ⟨⟨"model", 1, 0, 1, .float16, none, none⟩, [2, 1, 4, 8], .float16, .KV_2LTD⟩

/-- A request and, after it, one that reserves the same chunk again between `remove` and
`ref_count_down` of the first retrieve. -/
def overlappingRequests : List PDAction :=
  [.request [chunkReservation], .allocStep, .allocStep, .allocStep, .allocStep,
    .getBlocking chunkReservation.key, .remove,
    .request [chunkReservation], .allocStep, .allocStep, .refCountDown, .allocStep,
    .getBlocking chunkReservation.key, .remove, .refCountDown]

theorem always_sound_overlappingRequests :
    Always step (Sound 2) (init 2) overlappingRequests :=
  always_sound 2 overlappingRequests (by decide +kernel)

-- both retrieves find a page of their own, and both pages are free in the end
example : (run step (init 2) overlappingRequests).backend.freeBlocks = [0, 1] ∧
    (run step (init 2) overlappingRequests).completed chunkReservation.key = 2 := by
  decide +kernel

end PDReceiver

end LMCache.Storage
