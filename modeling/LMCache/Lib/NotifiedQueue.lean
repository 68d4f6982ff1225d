/-
# LMCache.Lib.NotifiedQueue — a queue whose reader sleeps on a notifier.

A writer puts an item into the queue and then sends a token.  The reader sleeps until there is a
token; it takes all tokens away first and then the items, one by one, until it finds the queue
empty.  Putting and sending are two steps, and the reader may be anywhere between them, so the
question is whether an item can be left in the queue with nobody to wake the reader.
-/
import Mathlib.Data.List.Basic

namespace LMCache.Lib

universe u

/-- A queue with its notifier. -/
structure NotifiedQueue (α : Type u) where
  items : List α := []
  /-- Items that were put and whose token is not sent yet. -/
  unsent : Nat := 0
  tokens : Nat := 0
  /-- The reader is awake, and takes items until there are none. -/
  draining : Bool := false
  deriving DecidableEq, Repr

namespace NotifiedQueue

variable {α : Type u} (q : NotifiedQueue α)

/-- A writer puts an item. -/
def put (a : α) : NotifiedQueue α :=
  { q with
    items := q.items ++ [a]
    unsent := q.unsent + 1 }

/-- A writer sends the token of an item that it has put. -/
def notify : NotifiedQueue α :=
  if 0 < q.unsent then
    { q with
      unsent := q.unsent - 1
      tokens := q.tokens + 1 }
  else q

/-- The reader finds a token, and takes all there are. -/
def wake : NotifiedQueue α :=
  if 0 < q.tokens then
    { q with
      tokens := 0
      draining := true }
  else q

/-- The reader takes an item, or finds that there is none and goes to sleep. -/
def get : Option α × NotifiedQueue α :=
  if q.draining then
    match q.items with
    | [] => (none, { q with draining := false })
    | a :: items => (some a, { q with items := items })
  else (none, q)

/-- The item that the reader takes next. -/
def next? : Option α := q.get.1

@[simp] theorem items_put (a : α) : (q.put a).items = q.items ++ [a] := rfl

@[simp] theorem items_notify : q.notify.items = q.items := by
  unfold notify
  split <;> rfl

@[simp] theorem items_wake : q.wake.items = q.items := by
  unfold wake
  split <;> rfl

theorem items_of_get {q' : NotifiedQueue α} {a : α} (h : q.get = (some a, q')) :
    q.items = a :: q'.items := by
  unfold get at h
  split at h
  · split at h
    · cases h
    · rename_i hitems
      cases h
      exact hitems
  · cases h

theorem items_of_get_none {q' : NotifiedQueue α} (h : q.get = (none, q')) :
    q'.items = q.items := by
  unfold get at h
  split at h
  · split at h
    · cases h
      rfl
    · cases h
  · cases h
    rfl

/-! ## The reader is woken -/

/-- While there are items, the reader is awake, or a token is there or will be sent. -/
def Awake : Prop := q.items ≠ [] → q.draining = true ∨ 0 < q.tokens ∨ 0 < q.unsent

variable {q}

theorem awake_empty : Awake ({} : NotifiedQueue α) := fun h => absurd rfl h

theorem awake_put (a : α) : (q.put a).Awake := fun _ => .inr (.inr (Nat.succ_pos q.unsent))

theorem Awake.notify (h : q.Awake) : q.notify.Awake := by
  unfold NotifiedQueue.notify
  split
  · exact fun _ => .inr (.inl (Nat.succ_pos q.tokens))
  · exact h

/-- The tokens are taken before the items, so that none is lost. -/
theorem Awake.wake (h : q.Awake) : q.wake.Awake := by
  unfold NotifiedQueue.wake
  split
  · exact fun _ => .inl rfl
  · exact h

/-- The reader sleeps only when it has found the queue empty. -/
theorem Awake.get (h : q.Awake) : q.get.2.Awake := by
  unfold NotifiedQueue.get
  split
  · rename_i hdraining
    split
    · rename_i hitems
      exact fun hne => absurd hitems hne
    · exact fun _ => .inl hdraining
  · exact h

end NotifiedQueue

end LMCache.Lib
