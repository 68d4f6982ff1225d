/-
# LMCache.Lib.SeenBefore — counting what has been seen before.

`repeats l` is the number of places of a list whose element stands at an earlier place too.  Whoever
keeps the set of what was seen can count them exactly.

A Bloom filter keeps only bits.  An element has positions, is *new* when one of them is not set, and
sets them all when it is.  The bits stand in words of 32.  What was inserted once is never new
again, so the filter counts at most one new element for every distinct one, and every repeat as a
repeat.
-/
import Mathlib.Data.Finset.Card
import Mathlib.Data.Nat.Bitwise

namespace LMCache.Lib

universe u

variable {α : Type u}

/-! ## Repeats -/

section Repeats

variable [DecidableEq α]

/-- The places whose element is in `seen` or at an earlier place. -/
def repeatsFrom : List α → List α → Nat
  | _, [] => 0
  | seen, a :: l => (if a ∈ seen then 1 else 0) + repeatsFrom (a :: seen) l

/-- The places whose element is at an earlier place. -/
def repeats (l : List α) : Nat := repeatsFrom [] l

theorem repeatsFrom_add_card (seen l : List α) :
    repeatsFrom seen l + (seen ++ l).toFinset.card = l.length + seen.toFinset.card := by
  induction l generalizing seen with
  | nil => simp [repeatsFrom]
  | cons a l ih =>
    have hmove : (seen ++ a :: l).toFinset = (a :: seen ++ l).toFinset := by
      ext b
      simp only [List.mem_toFinset, List.mem_append, List.mem_cons, List.cons_append]
      tauto
    have hcard := ih (a :: seen)
    rw [hmove, repeatsFrom, List.length_cons]
    by_cases ha : a ∈ seen
    · have hsame : (a :: seen).toFinset = seen.toFinset := by
        rw [List.toFinset_cons, Finset.insert_eq_self.mpr (List.mem_toFinset.mpr ha)]
      rw [hsame] at hcard
      rw [if_pos ha]
      omega
    · have hmore : (a :: seen).toFinset.card = seen.toFinset.card + 1 := by
        rw [List.toFinset_cons, Finset.card_insert_of_notMem fun h => ha (List.mem_toFinset.mp h)]
      rw [hmore] at hcard
      rw [if_neg ha]
      omega

/-- Every place is a repeat or the first of its element. -/
theorem repeats_add_card (l : List α) : repeats l + l.toFinset.card = l.length := by
  simpa [repeats] using repeatsFrom_add_card [] l

/-- The distinct elements of two lists can be counted apart when the lists share none. -/
theorem card_toFinset_append_iff (l r : List α) :
    (l ++ r).toFinset.card = l.toFinset.card + r.toFinset.card ↔ ∀ a ∈ r, a ∉ l := by
  rw [List.toFinset_append, Finset.card_union_eq_card_add_card, Finset.disjoint_right]
  simp only [List.mem_toFinset]

end Repeats

/-! ## Bits in words of 32 -/

/-- The words with a position in the last of them, or before. -/
def wordsFor (size : Nat) : List Nat := List.replicate ((size + 31) / 32) 0

def isSet (words : List Nat) (pos : Nat) : Bool :=
  (words.getD (pos >>> 5) 0 &&& 1 <<< (pos &&& 31)) != 0

def setBit (words : List Nat) (pos : Nat) : List Nat :=
  words.modify (pos >>> 5) (· ||| 1 <<< (pos &&& 31))

theorem isSet_eq_testBit (words : List Nat) (pos : Nat) :
    isSet words pos = (words.getD (pos >>> 5) 0).testBit (pos &&& 31) := by
  unfold isSet
  rw [Nat.one_shiftLeft, Nat.and_two_pow]
  cases (words.getD (pos >>> 5) 0).testBit (pos &&& 31) with
  | false => simp
  | true => simp

@[simp] theorem length_setBit (words : List Nat) (pos : Nat) :
    (setBit words pos).length = words.length := List.length_modify ..

theorem getD_setBit (words : List Nat) (pos i : Nat) (hi : i < words.length) :
    (setBit words pos).getD i 0 =
      if pos >>> 5 = i then words.getD i 0 ||| 1 <<< (pos &&& 31) else words.getD i 0 := by
  unfold setBit
  rw [List.getD_eq_getElem?_getD, List.getD_eq_getElem?_getD, List.getElem?_modify,
    List.getElem?_eq_getElem hi]
  simp only [Option.map_eq_map, Option.map_some, Option.getD_some]

/-- A position of one of the words. -/
def Fits (words : List Nat) (pos : Nat) : Prop := pos >>> 5 < words.length

theorem fits_wordsFor {size pos : Nat} (h : pos < size) : Fits (wordsFor size) pos := by
  unfold Fits wordsFor
  rw [List.length_replicate, Nat.shiftRight_eq_div_pow]
  omega

theorem isSet_setBit_self {words : List Nat} {pos : Nat} (h : Fits words pos) :
    isSet (setBit words pos) pos = true := by
  rw [isSet_eq_testBit, getD_setBit words pos _ h, if_pos rfl, Nat.testBit_or, Nat.one_shiftLeft,
    Nat.testBit_two_pow_self, Bool.or_true]

theorem isSet_setBit_of_isSet {words : List Nat} {pos : Nat} (other : Nat)
    (h : isSet words pos = true) : isSet (setBit words other) pos = true := by
  rw [isSet_eq_testBit] at h ⊢
  by_cases hfits : pos >>> 5 < words.length
  · rw [getD_setBit words other _ hfits]
    split
    · rw [Nat.testBit_or, h, Bool.true_or]
    · exact h
  · rw [List.getD_eq_default _ _ (Nat.le_of_not_lt hfits), Nat.zero_testBit] at h
    cases h

/-! ## The filter -/

/-- The words, and how many elements were new. -/
structure BitFilter where
  words : List Nat
  count : Nat
  deriving DecidableEq, Repr

namespace BitFilter

def isNew (f : BitFilter) (positions : List Nat) : Bool :=
  positions.any fun pos => !isSet f.words pos

/-- An element that is new sets its positions and is counted. -/
def insert (f : BitFilter) (positions : List Nat) : BitFilter :=
  if f.isNew positions then ⟨positions.foldl setBit f.words, f.count + 1⟩ else f

def insertAll (f : BitFilter) (batch : List (List Nat)) : BitFilter := batch.foldl insert f

@[simp] theorem insertAll_nil (f : BitFilter) : f.insertAll [] = f := rfl

@[simp] theorem insertAll_cons (f : BitFilter) (positions : List Nat) (batch : List (List Nat)) :
    f.insertAll (positions :: batch) = (f.insert positions).insertAll batch := rfl

theorem insertAll_append (f : BitFilter) (batch batch' : List (List Nat)) :
    f.insertAll (batch ++ batch') = (f.insertAll batch).insertAll batch' := List.foldl_append ..

/-- Where the count starts makes no difference to the words. -/
theorem insertAll_eq (f : BitFilter) (batch : List (List Nat)) :
    f.insertAll batch = ⟨((BitFilter.mk f.words 0).insertAll batch).words,
      f.count + ((BitFilter.mk f.words 0).insertAll batch).count⟩ := by
  induction batch generalizing f with
  | nil => rfl
  | cons positions batch ih =>
    rw [insertAll_cons, insertAll_cons, ih (f.insert positions),
      ih ((BitFilter.mk f.words 0).insert positions)]
    have hnew : (BitFilter.mk f.words 0).isNew positions = f.isNew positions := rfl
    unfold insert
    rw [hnew]
    split
    · dsimp only
      rw [Nat.zero_add, Nat.add_assoc]
    · dsimp only
      rw [Nat.zero_add]

variable {f : BitFilter} {positions : List Nat}

theorem isNew_eq_false :
    f.isNew positions = false ↔ ∀ pos ∈ positions, isSet f.words pos = true := by
  simp [isNew]

theorem length_foldl_setBit (words : List Nat) (positions : List Nat) :
    (positions.foldl setBit words).length = words.length := by
  induction positions generalizing words with
  | nil => rfl
  | cons pos positions ih => rw [List.foldl_cons, ih, length_setBit]

theorem isSet_foldl_setBit_of_isSet {words : List Nat} {pos : Nat} (positions : List Nat)
    (h : isSet words pos = true) : isSet (positions.foldl setBit words) pos = true := by
  induction positions generalizing words with
  | nil => exact h
  | cons other positions ih => exact ih (isSet_setBit_of_isSet other h)

theorem isSet_foldl_setBit_of_mem {words : List Nat} {pos : Nat} (hfits : Fits words pos)
    (h : pos ∈ positions) : isSet (positions.foldl setBit words) pos = true := by
  induction positions generalizing words with
  | nil => cases h
  | cons other positions ih =>
    rw [List.foldl_cons]
    rcases List.mem_cons.mp h with rfl | h
    · exact isSet_foldl_setBit_of_isSet positions (isSet_setBit_self hfits)
    · refine ih ?_ h
      unfold Fits
      rwa [length_setBit]

/-! ### What is inserted stays -/

@[simp] theorem length_insert (f : BitFilter) (positions : List Nat) :
    (f.insert positions).words.length = f.words.length := by
  unfold insert
  split
  · exact length_foldl_setBit ..
  · rfl

theorem isNew_insert_self (hfits : ∀ pos ∈ positions, Fits f.words pos) :
    (f.insert positions).isNew positions = false := by
  unfold insert
  split
  · exact isNew_eq_false.mpr fun pos hpos => isSet_foldl_setBit_of_mem (hfits pos hpos) hpos
  · rename_i h
    exact Bool.eq_false_iff.mpr h

theorem isNew_insert_of_not (other : List Nat) (h : f.isNew positions = false) :
    (f.insert other).isNew positions = false := by
  unfold insert
  split
  · rw [isNew_eq_false] at h ⊢
    exact fun pos hpos => isSet_foldl_setBit_of_isSet other (h pos hpos)
  · exact h

theorem isNew_insertAll_of_not (batch : List (List Nat)) (h : f.isNew positions = false) :
    (f.insertAll batch).isNew positions = false := by
  induction batch generalizing f with
  | nil => exact h
  | cons other batch ih => exact ih (isNew_insert_of_not other h)

/-- **What was inserted is never new again.** -/
theorem isNew_insertAll_of_mem {batch : List (List Nat)}
    (hfits : ∀ pos ∈ positions, Fits f.words pos) (h : positions ∈ batch) :
    (f.insertAll batch).isNew positions = false := by
  induction batch generalizing f with
  | nil => cases h
  | cons other batch ih =>
    rw [insertAll_cons]
    rcases List.mem_cons.mp h with rfl | h
    · exact isNew_insertAll_of_not batch (isNew_insert_self hfits)
    · refine ih (fun pos hpos => ?_) h
      unfold Fits
      rw [length_insert]
      exact hfits pos hpos

/-- **The filter may count too many repeats, but never too few**: of the elements of a list it
counts as new at most those that are not repeats. -/
theorem count_insertAll_add_repeatsFrom_le [DecidableEq α] (positions : α → List Nat)
    (hfits : ∀ a, ∀ pos ∈ positions a, Fits f.words pos) {seen : List α}
    (hseen : ∀ a ∈ seen, f.isNew (positions a) = false) (l : List α) :
    (f.insertAll (l.map positions)).count + repeatsFrom seen l ≤ f.count + l.length := by
  induction l generalizing f seen with
  | nil => simp [repeatsFrom]
  | cons a l ih =>
    have hfits' : ∀ b, ∀ pos ∈ positions b, Fits (f.insert (positions a)).words pos := by
      intro b pos hpos
      unfold Fits
      rw [length_insert]
      exact hfits b pos hpos
    have hseen' : ∀ b ∈ a :: seen, (f.insert (positions a)).isNew (positions b) = false := by
      intro b hb
      rcases List.mem_cons.mp hb with rfl | hb
      · exact isNew_insert_self (hfits b)
      · exact isNew_insert_of_not _ (hseen b hb)
    have hrest := ih hfits' hseen'
    have hone : (f.insert (positions a)).count + (if a ∈ seen then 1 else 0) ≤ f.count + 1 := by
      unfold insert
      by_cases ha : a ∈ seen
      · rw [hseen a ha, if_neg Bool.false_ne_true, if_pos ha]
      · rw [if_neg ha]
        split
        · exact Nat.le_refl _
        · exact Nat.le_succ _
    rw [List.map_cons, insertAll_cons, repeatsFrom, List.length_cons]
    omega

end BitFilter

end LMCache.Lib
