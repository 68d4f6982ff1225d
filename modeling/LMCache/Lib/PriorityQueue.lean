/-
# LMCache.Lib.PriorityQueue — a queue that gives the least priority first.

Items of one priority come out in the order in which they were put: each gets a number when it is
put, and the queue orders its items by priority and number.
-/
import Mathlib.Data.List.MinMax
import Mathlib.Data.Prod.Lex
import Mathlib.Data.List.Perm.Basic

namespace LMCache.Lib

universe u

/-- An item of the queue. -/
structure PQItem (α : Type u) where
  priority : Int
  timeId : Nat
  payload : α
  deriving DecidableEq, Repr

/-- What the items are ordered by. -/
def PQKey := Int ×ₗ Nat

/-- The order is the computable one of the two parts. -/
instance : LinearOrder PQKey :=
  @Prod.Lex.instLinearOrder Int Nat Int.instLinearOrder Nat.instLinearOrder

/-- The priority, and the number among those of one priority. -/
def PQItem.key {α : Type u} (item : PQItem α) : PQKey := toLex (item.priority, item.timeId)

theorem PQItem.key_le_iff {α : Type u} {item other : PQItem α} :
    item.key ≤ other.key ↔ item.priority < other.priority ∨
      item.priority = other.priority ∧ item.timeId ≤ other.timeId :=
  Prod.Lex.toLex_le_toLex

theorem PQItem.key_lt_iff {α : Type u} {item other : PQItem α} :
    item.key < other.key ↔ item.priority < other.priority ∨
      item.priority = other.priority ∧ item.timeId < other.timeId :=
  Prod.Lex.toLex_lt_toLex

/-- The items, and the number of the next one. -/
structure PriorityQueue (α : Type u) where
  items : List (PQItem α) := []
  counter : Nat := 0
  deriving DecidableEq, Repr

namespace PriorityQueue

variable {α : Type u}

/-- Put an item, with the next number. -/
def put (q : PriorityQueue α) (priority : Int) (payload : α) : PriorityQueue α where
  items := q.items ++ [⟨priority, q.counter, payload⟩]
  counter := q.counter + 1

variable [DecidableEq α]

/-- Take the least item. -/
def get? (q : PriorityQueue α) : Option (PQItem α × PriorityQueue α) :=
  (q.items.argmin PQItem.key).map fun item => (item, { q with items := q.items.erase item })

theorem get?_eq_none {q : PriorityQueue α} : q.get? = none ↔ q.items = [] := by
  unfold get?
  rw [Option.map_eq_none_iff, List.argmin_eq_none]

/-- What is taken was there, and nothing that was there is less. -/
theorem get?_eq_some {q q' : PriorityQueue α} {item : PQItem α} (h : q.get? = some (item, q')) :
    q.items.Perm (item :: q'.items) ∧ (∀ other ∈ q.items, item.key ≤ other.key) ∧
      q'.counter = q.counter := by
  obtain ⟨least, hleast, hpair⟩ := Option.map_eq_some_iff.mp h
  cases hpair
  refine ⟨List.perm_cons_erase (List.argmin_mem hleast), ?_, rfl⟩
  intro other hother
  exact List.le_of_mem_argmin hother hleast

/-- The only item is taken. -/
theorem get?_singleton (item : PQItem α) (counter : Nat) :
    get? ⟨[item], counter⟩ = some (item, ⟨[], counter⟩) := by
  unfold get?
  rw [List.argmin_singleton, Option.map_some, List.erase_cons_head]

end PriorityQueue

end LMCache.Lib
