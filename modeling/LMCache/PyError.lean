/-
# LMCache.PyError — the exceptions the modelled Python code raises, and its generators.

A function of the source that can raise returns `Except PyError _`.  Only the exception classes that
modelled code raises or catches are listed; each carries the text that comes with it.

A generator may yield values before it raises, and a caller that stops early never sees the
exception; so a generator is modelled by its yields and what it raises after them.
-/
import Mathlib.Data.List.Basic
import Mathlib.Data.List.Forall2

namespace LMCache

/-- A raised Python exception, with its message. -/
inductive PyError where
  | runtimeError (message : String)
  | assertionError (message : String)
  | indexError (message : String)
  | zeroDivisionError (message : String)
  | overflowError (message : String)
  | valueError (message : String)
  | keyError (message : String)
  | attributeError (message : String)
  | structError (message : String)
  | typeError (message : String)
  /-- `UnboundLocalError`, too. -/
  | nameError (message : String)
  /-- What `next` raises when a generator has returned. -/
  | stopIteration
  deriving DecidableEq, Repr

/-- The text that an exception was raised with. -/
def PyError.message : PyError → String
  | .runtimeError message | .assertionError message | .indexError message
  | .zeroDivisionError message | .overflowError message | .valueError message
  | .keyError message | .attributeError message | .structError message | .typeError message
  | .nameError message => message
  | .stopIteration => ""

/-- A sequence of two steps returns when both do. -/
theorem bind_eq_ok {ε α β : Type} {x : Except ε α} {f : α → Except ε β} {b : β} :
    (x >>= f) = .ok b ↔ ∃ a, x = .ok a ∧ f a = .ok b := by
  cases x with
  | error e => exact ⟨fun h => (nomatch h), fun ⟨_, h, _⟩ => (nomatch h)⟩
  | ok a => exact ⟨fun h => ⟨a, rfl, h⟩, fun ⟨_, h, hb⟩ => by cases h; exact hb⟩

/-- A loop over a list returns when each of its rounds does. -/
theorem mapM_eq_ok_iff {ε α β : Type} {f : α → Except ε β} {l : List α} {r : List β} :
    l.mapM f = .ok r ↔ l.map f = r.map Except.ok := by
  induction l generalizing r with
  | nil => cases r <;> simp [pure, Except.pure]
  | cons a l ih =>
    rw [List.mapM_cons, bind_eq_ok, List.map_cons]
    constructor
    · rintro ⟨b, hb, h⟩
      obtain ⟨bs, hbs, hr⟩ := bind_eq_ok.mp h
      cases hr
      rw [hb, ih.mp hbs, List.map_cons]
    · intro h
      cases r with
      | nil => cases h
      | cons b bs =>
        rw [List.map_cons, List.cons.injEq] at h
        exact ⟨b, h.1, bind_eq_ok.mpr ⟨bs, ih.mpr h.2, rfl⟩⟩

/-- The rounds of a loop that returns, one by one. -/
theorem mapM_eq_ok_iff_forall₂ {ε α β : Type} {f : α → Except ε β} {l : List α} {r : List β} :
    l.mapM f = .ok r ↔ List.Forall₂ (fun a b => f a = .ok b) l r := by
  rw [mapM_eq_ok_iff, ← List.forall₂_eq_eq_eq, List.forall₂_map_left_iff,
    List.forall₂_map_right_iff]

/-- A generator: what it yields, and the exception that ends it, if one does. -/
structure PyGen (α : Type) where
  yields : List α
  raised : Option PyError
  deriving DecidableEq, Repr

namespace PyGen

variable {α β : Type}

/-- A generator that yields these values and returns. -/
def pure (l : List α) : PyGen α := ⟨l, none⟩

/-- A generator that raises at its first step. -/
def raise (e : PyError) : PyGen α := ⟨[], some e⟩

/-- The list a caller collects by running the generator to its end. -/
def collect (g : PyGen α) : Except PyError (List α) :=
  match g.raised with
  | none => .ok g.yields
  | some e => .error e

/-- Values turned into others as they are yielded, by a function that may raise. -/
def mapYields (f : α → Except PyError β) : List α → Option PyError → PyGen β
  | [], raised => ⟨[], raised⟩
  | a :: as, raised =>
    match f a with
    | .error e => raise e
    | .ok b => ⟨b :: (mapYields f as raised).yields, (mapYields f as raised).raised⟩

def mapM (f : α → Except PyError β) (g : PyGen α) : PyGen β := mapYields f g.yields g.raised

/-- What is read off the values that come out is read off the first values that went in. -/
theorem map_mapM_prefix {γ : Type} {f : α → Except PyError β} {r : β → γ} {s : α → γ}
    (hf : ∀ a b, f a = .ok b → r b = s a) (g : PyGen α) :
    (mapM f g).yields.map r <+: g.yields.map s := by
  unfold mapM
  generalize g.yields = l
  induction l with
  | nil => exact List.prefix_refl _
  | cons a as ih =>
    unfold mapYields
    cases h : f a with
    | error e => exact List.nil_prefix
    | ok b =>
      show r b :: ((mapYields f as g.raised).yields.map r) <+: s a :: as.map s
      rw [hf a b h, List.prefix_cons_inj]
      exact ih

theorem yields_of_collect {g : PyGen α} {l : List α} (h : g.collect = .ok l) : g.yields = l := by
  unfold collect at h
  cases hr : g.raised with
  | none => rw [hr] at h; exact Except.ok.inj h
  | some e => rw [hr] at h; cases h

/-! ### Advancing a generator -/

/-- `next`. -/
def next (g : PyGen α) : Except PyError (α × PyGen α) :=
  match g.yields with
  | [] => .error (g.raised.getD .stopIteration)
  | a :: as => .ok (a, ⟨as, g.raised⟩)

/-- `next` in the body of another generator, which must not raise `StopIteration`. -/
def nextInside (g : PyGen α) : Except PyError (α × PyGen α) :=
  match g.next with
  | .error .stopIteration => .error (.runtimeError "generator raised StopIteration")
  | r => r

/-- Several times `next`: the values, and the generator as it is left. -/
def advance : Nat → PyGen α → Except PyError (List α × PyGen α)
  | 0, g => .ok ([], g)
  | n + 1, g => do
    let r ← g.next
    let rest ← advance n r.2
    .ok (r.1 :: rest.1, rest.2)

/-- **A generator can be advanced just so often**: it yields that many values and returns. -/
theorem advance_eq_pure_nil_iff {n : Nat} {g : PyGen α} {as : List α} :
    advance n g = .ok (as, pure []) ↔ g = pure as ∧ as.length = n := by
  induction n generalizing g as with
  | zero =>
    constructor
    · intro h
      cases h
      exact ⟨rfl, rfl⟩
    · rintro ⟨rfl, has⟩
      rw [List.length_eq_zero_iff.mp has]
      rfl
  | succ n ih =>
    unfold advance
    obtain ⟨yields, raised⟩ := g
    cases yields with
    | nil =>
      refine iff_of_false (fun h => nomatch h) fun h => ?_
      obtain ⟨hg, has⟩ := h
      cases hg
      cases has
    | cons a yields =>
      rw [bind_eq_ok]
      constructor
      · rintro ⟨r, hr, h⟩
        cases hr
        obtain ⟨⟨rest, left⟩, hrest, h⟩ := bind_eq_ok.mp h
        cases h
        obtain ⟨hg, hlength⟩ := ih.mp hrest
        cases hg
        exact ⟨rfl, congrArg (· + 1) hlength⟩
      · rintro ⟨hg, has⟩
        cases hg
        refine ⟨_, rfl, bind_eq_ok.mpr ⟨(yields, pure []), ih.mpr ⟨rfl, ?_⟩, rfl⟩⟩
        exact Nat.succ.inj has

end PyGen

end LMCache
