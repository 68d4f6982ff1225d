/-
# LMCache.Lib.PyWords — words of a string, and which characters an integer is read from.

`str.split()` cuts a string at its whitespace, so joining the words takes the whitespace out.  `int`
reads digits, single underscores and a sign, and whitespace around them: a string with any other
character in it is no integer.
-/
import LMCache.Lib.PyStr

namespace LMCache.Lib.PyStr

/-! ## Words -/

/-- `str.split()`. -/
def words (s : List Char) : List (List Char) := (s.splitOnP isSpace).filter fun w => !w.isEmpty

/-- Joined, the words of a string are the string without its whitespace. -/
theorem flatten_words (s : List Char) : (words s).flatten = s.filter fun c => !isSpace c := by
  unfold words
  rw [List.flatten_filter_not_isEmpty]
  induction s with
  | nil => rfl
  | cons c s ih =>
    rw [List.splitOnP_cons_eq_if_modifyHead]
    by_cases hc : isSpace c = true
    · rw [if_pos hc, List.flatten_cons, List.nil_append, ih, List.filter_cons_of_neg (by simp [hc])]
    · have hne := List.splitOnP_ne_nil isSpace s
      rw [if_neg hc, List.filter_cons_of_pos (by simp [hc]), ← ih]
      generalize s.splitOnP isSpace = pieces at *
      cases pieces with
      | nil => exact absurd rfl hne
      | cons p ps => rfl

/-! ## Which characters a number is read from -/

variable {c : Char} {s : List Char}

theorem mem_strip (hspace : isSpace c = false) (h : c ∈ s) : c ∈ strip s := by
  have hdrop : c ∈ s.dropWhile isSpace := by
    rw [← List.takeWhile_append_dropWhile (p := isSpace) (l := s), List.mem_append] at h
    refine h.resolve_left fun htake => ?_
    rw [List.mem_takeWhile_imp htake] at hspace
    cases hspace
  unfold strip
  rw [← List.rdropWhile_append_rtakeWhile (p := isSpace) (l := s.dropWhile isSpace),
    List.mem_append] at hdrop
  refine hdrop.resolve_right fun htake => ?_
  rw [List.mem_rtakeWhile_imp htake] at hspace
  cases hspace

/-- Only the separators are lost when a string is cut. -/
theorem mem_flatten_splitOn {sep : Char} (hc : c ≠ sep) (h : c ∈ s) :
    c ∈ (s.splitOn sep).flatten := by
  induction s with
  | nil => cases h
  | cons x s ih =>
    rw [List.splitOn_cons_eq_if_modifyHead]
    split
    · rename_i hx
      rw [beq_iff_eq] at hx
      subst hx
      exact ih ((List.mem_cons.mp h).resolve_left hc)
    · have hne := List.splitOn_ne_nil sep s
      generalize s.splitOn sep = pieces at *
      cases pieces with
      | nil => exact absurd rfl hne
      | cons p ps =>
        show c ∈ x :: (p ++ ps.flatten)
        rcases List.mem_cons.mp h with rfl | h
        · exact List.mem_cons_self
        · exact List.mem_cons_of_mem _ (ih h)

theorem readDigits_eq_none {b : Nat} (hc : digit? c = none) (h : c ∈ s) (acc : Nat) :
    readDigits b acc s = none := by
  induction s generalizing acc with
  | nil => cases h
  | cons x s ih =>
    unfold readDigits
    rcases List.mem_cons.mp h with rfl | h
    · rw [hc]
    · cases digit? x with
      | none => rfl
      | some d =>
        dsimp only
        split
        · exact ih h _
        · rfl

theorem mem_sign (hminus : c ≠ '-') (hplus : c ≠ '+') (h : c ∈ s) : c ∈ (sign s).2 := by
  unfold sign
  split
  · exact (List.mem_cons.mp h).resolve_left hminus
  · exact (List.mem_cons.mp h).resolve_left hplus
  · exact h

/-- **A decimal integer has nothing in it but digits, underscores and a sign**, with whitespace around
them. -/
theorem int?_eq_none_of_mem (hspace : isSpace c = false) (hdigit : digit? c = none)
    (hsign : c ≠ '-' ∧ c ≠ '+' ∧ c ≠ '_') (h : c ∈ s) : int? 10 s = none := by
  have hmem : c ∈ ((sign (strip s)).2.splitOn '_').flatten :=
    mem_flatten_splitOn hsign.2.2 (mem_sign hsign.1 hsign.2.1 (mem_strip hspace h))
  have hbase : dropBase 10 (sign (strip s)).2 = (sign (strip s)).2 := by
    unfold dropBase
    split <;> simp_all
  have hnumeral : numeral? 10 (sign (strip s)).2 = none := by
    unfold numeral?
    rw [readDigits_eq_none hdigit hmem, ite_self]
  unfold int?
  rw [hbase, hnumeral, Option.map_none]

theorem int?_nil (b : Nat) : int? b [] = none := by
  have hstrip : (sign (strip [])).2 = [] := rfl
  unfold int? numeral?
  rw [hstrip, dropBase_eq_self List.not_mem_nil List.not_mem_nil]
  rfl

/-- The characters of a number are decimal digits. -/
theorem isSome_decimal?_of_mem_toDigits {n : Nat} (h : c ∈ Nat.toDigits 10 n) :
    (decimal? c).isSome = true := by
  have hdigit := Nat.isDigit_of_mem_toDigits (by decide) (by decide) h
  have hbounds : 0x30 ≤ c.toNat ∧ c.toNat < 0x30 + 10 := by
    unfold Char.isDigit at hdigit
    simp only [Bool.and_eq_true, decide_eq_true_eq, ge_iff_le, UInt32.le_iff_toNat_le] at hdigit
    exact ⟨hdigit.1, Nat.lt_succ_of_le hdigit.2⟩
  have hfind : decimalZeros.find? (fun z => z ≤ c.toNat && c.toNat < z + 10) = some 0x30 := by
    unfold decimalZeros
    rw [List.find?_cons_of_pos]
    simpa using hbounds
  unfold decimal?
  rw [hfind]
  rfl

end LMCache.Lib.PyStr
