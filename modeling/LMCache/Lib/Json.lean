/-
# LMCache.Lib.Json — JSON documents as Python's `json` gives them back.

The operations that a program applies to a document without knowing its form: truth, iteration,
subscripts, `get` and `sum`.  On values of another form they raise.  What a float is stays open; only
an integer that is too large to be one is told apart.
-/
import LMCache.PyError
import Mathlib.Algebra.Group.Nat.Defs

namespace LMCache.Lib

/-- A document, with the floats `F`.  The keys of a dictionary come once each. -/
inductive Json (F : Type) where
  | null
  | bool (b : Bool)
  | int (n : Int)
  | float (x : F)
  | str (s : String)
  | arr (items : List (Json F))
  | obj (fields : List (String × Json F))

noncomputable instance {F : Type} : DecidableEq (Json F) := Classical.decEq _

/-- What is used of `float`: `x == 0`, `x + y`, `float(n)` of an integer in range, and `x > n`. -/
structure FloatArith (F : Type) where
  isZero : F → Bool
  add : F → F → F
  ofInt : Int → F
  exceeds : F → Int → Bool

/-- An `int` or a `float`. -/
inductive PyNumber (F : Type) where
  | int (n : Int)
  | float (x : F)

/-- From here on, numbers round to `2 ** 1024`, which is no float. -/
def floatLimit : Nat := 2 ^ 1024 - 2 ^ 970

/-- `float(n)` raises. -/
def tooLargeForFloat (n : Int) : Bool := floatLimit ≤ n.natAbs

namespace Json

variable {F : Type} (arith : FloatArith F)

/-- `type(value).__name__`. -/
def typeName : Json F → String
  | .null => "NoneType"
  | .bool _ => "bool"
  | .int _ => "int"
  | .float _ => "float"
  | .str _ => "str"
  | .arr _ => "list"
  | .obj _ => "dict"

/-- `bool(value)`. -/
def truthy : Json F → Bool
  | .null => false
  | .bool b => b
  | .int n => n != 0
  | .float x => !arith.isZero x
  | .str s => s != ""
  | .arr items => !items.isEmpty
  | .obj fields => !fields.isEmpty

/-- The value of a key. -/
def lookup (fields : List (String × Json F)) (key : String) : Option (Json F) :=
  (fields.find? fun field => field.1 == key).map Prod.snd

/-- `value.get(key, default)`. -/
def getD (value : Json F) (key : String) (default : Json F) : Except PyError (Json F) :=
  match value with
  | .obj fields => .ok ((lookup fields key).getD default)
  | value => .error (.attributeError s!"'{value.typeName}' object has no attribute 'get'")

/-- `value[key]`, for a string. -/
def subscript (value : Json F) (key : String) : Except PyError (Json F) :=
  match value with
  | .obj fields =>
    match lookup fields key with
    | some v => .ok v
    | none => .error (.keyError key)
  | .arr _ => .error (.typeError "list indices must be integers or slices, not str")
  | .str _ => .error (.typeError "string indices must be integers, not 'str'")
  | value => .error (.typeError s!"'{value.typeName}' object is not subscriptable")

theorem subscript_eq_ok {value v : Json F} {key : String} :
    value.subscript key = .ok v ↔ ∃ fields, value = .obj fields ∧ lookup fields key = some v := by
  unfold subscript
  cases value with
  | obj fields => cases h : lookup fields key <;> simp [h]
  | _ => simp

/-- `list(value)`. -/
def iterate : Json F → Except PyError (List (Json F))
  | .arr items => .ok items
  | .obj fields => .ok (fields.map fun field => .str field.1)
  | .str s => .ok (s.toList.map fun c => .str c.toString)
  | value => .error (.typeError s!"'{value.typeName}' object is not iterable")

/-- The number that a value is. -/
def number? : Json F → Option (PyNumber F)
  | .bool b => some (.int b.toNat)
  | .int n => some (.int n)
  | .float x => some (.float x)
  | _ => none

end Json

namespace PyNumber

variable {F : Type} (arith : FloatArith F)

/-- `n + x`, of an `int` and a `float`. -/
def addMixed (n : Int) (x : F) : Except PyError (PyNumber F) :=
  if tooLargeForFloat n then .error (.overflowError "int too large to convert to float")
  else .ok (.float (arith.add (arith.ofInt n) x))

/-- `a + b`. -/
def add : PyNumber F → PyNumber F → Except PyError (PyNumber F)
  | .int n, .int m => .ok (.int (n + m))
  | .float x, .float y => .ok (.float (arith.add x y))
  | .int n, .float x => addMixed arith n x
  | .float x, .int n => addMixed arith n x

def typeName : PyNumber F → String
  | .int _ => "int"
  | .float _ => "float"

/-- `sum(values)`, from the sum so far. -/
def sumFrom (total : PyNumber F) : List (Json F) → Except PyError (PyNumber F)
  | [] => .ok total
  | value :: values =>
    match value.number? with
    | some x => do
      let total ← total.add arith x
      sumFrom total values
    | none => .error (.typeError
        s!"unsupported operand type(s) for +: '{total.typeName}' and '{value.typeName}'")

/-- `sum(values)`. -/
def sum (values : List (Json F)) : Except PyError (PyNumber F) := sumFrom arith (.int 0) values

/-- `total > n`. -/
def exceeds : PyNumber F → Int → Bool
  | .int m, n => n < m
  | .float x, n => arith.exceeds x n

/-- `total / d` raises: the quotient is too large for a float. -/
def quotientTooLarge (d : Nat) : PyNumber F → Bool
  | .int n => floatLimit * d ≤ n.natAbs
  | .float _ => false

end PyNumber

end LMCache.Lib
