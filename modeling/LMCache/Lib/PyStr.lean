/-
# LMCache.Lib.PyStr — Python's strings as lists of characters.

The methods of `str` that take a string apart (`strip`, `split`, `isdigit`), and how integers are
written (`f"{n}"`, `f"{n:x}"`) and read (`int`).  Reading is the inverse of writing, and what is
written is the shortest of all strings that are read as the number.  Strings become bytes in UTF-8, and
only the bytes of a string can be made a string again.
-/
import Mathlib.Algebra.Order.Ring.Nat
import Mathlib.Data.List.DropRight
import Mathlib.Tactic.Ring

namespace LMCache.Lib.PyStr

/-! ## Characters -/

/-- `str.isspace` of one character. -/
def isSpace (c : Char) : Bool :=
  (9 ≤ c.toNat && c.toNat ≤ 13) || (28 ≤ c.toNat && c.toNat ≤ 32) ||
    (0x2000 ≤ c.toNat && c.toNat ≤ 0x200a) ||
    [0x85, 0xa0, 0x1680, 0x2028, 0x2029, 0x202f, 0x205f, 0x3000].contains c.toNat

/-- The zeros of the decimal systems of Unicode.  The other digits of a system follow its zero. -/
def decimalZeros : List Nat :=
  [0x30, 0x660, 0x6f0, 0x7c0, 0x966, 0x9e6, 0xa66, 0xae6, 0xb66, 0xbe6, 0xc66, 0xce6, 0xd66, 0xde6,
    0xe50, 0xed0, 0xf20, 0x1040, 0x1090, 0x17e0, 0x1810, 0x1946, 0x19d0, 0x1a80, 0x1a90, 0x1b50,
    0x1bb0, 0x1c40, 0x1c50, 0xa620, 0xa8d0, 0xa900, 0xa9d0, 0xa9f0, 0xaa50, 0xabf0, 0xff10, 0x104a0,
    0x10d30, 0x11066, 0x110f0, 0x11136, 0x111d0, 0x112f0, 0x11450, 0x114d0, 0x11650, 0x116c0,
    0x11730, 0x118e0, 0x11950, 0x11c50, 0x11d50, 0x11da0, 0x11f50, 0x16a60, 0x16ac0, 0x16b50,
    0x1d7ce, 0x1d7d8, 0x1d7e2, 0x1d7ec, 0x1d7f6, 0x1e140, 0x1e2f0, 0x1e4f0, 0x1e950, 0x1fbf0]

/-- The ranges of digits that belong to no decimal system: superscripts, circled digits and others. -/
def otherDigits : List (Nat × Nat) :=
  [(0xb2, 0xb3), (0xb9, 0xb9), (0x1369, 0x1371), (0x19da, 0x19da), (0x2070, 0x2070),
    (0x2074, 0x2079), (0x2080, 0x2089), (0x2460, 0x2468), (0x2474, 0x247c), (0x2488, 0x2490),
    (0x24ea, 0x24ea), (0x24f5, 0x24fd), (0x24ff, 0x24ff), (0x2776, 0x277e), (0x2780, 0x2788),
    (0x278a, 0x2792), (0x10a40, 0x10a43), (0x10e60, 0x10e68), (0x11052, 0x1105a),
    (0x1f100, 0x1f10a)]

/-- The value of a decimal digit. -/
def decimal? (c : Char) : Option Nat :=
  (decimalZeros.find? fun z => z ≤ c.toNat && c.toNat < z + 10).map (c.toNat - ·)

/-- The value of a digit of any base up to 36. -/
def digit? (c : Char) : Option Nat :=
  if 'a' ≤ c ∧ c ≤ 'z' then some (c.toNat - 'a'.toNat + 10)
  else if 'A' ≤ c ∧ c ≤ 'Z' then some (c.toNat - 'A'.toNat + 10)
  else decimal? c

/-- `str.isdigit` of one character. -/
def isDigitChar (c : Char) : Bool :=
  (decimal? c).isSome || otherDigits.any fun r => r.1 ≤ c.toNat && c.toNat ≤ r.2

/-! ## The methods of strings -/

/-- `str.strip()`. -/
def strip (s : List Char) : List Char := (s.dropWhile isSpace).rdropWhile isSpace

/-- `str.split(sep)` for a separator of one character. -/
def split (sep : Char) (s : List Char) : List (List Char) := s.splitOn sep

/-- `str.split(sep, 1)`, where the separator occurs. -/
def cut (sep : Char) : List Char → Option (List Char × List Char)
  | [] => none
  | c :: s => if c = sep then some ([], s) else (cut sep s).map fun p => (c :: p.1, p.2)

/-- `str.isdigit()`. -/
def isDigit (s : List Char) : Bool := !s.isEmpty && s.all isDigitChar

/-! ## Integers -/

/-- Digits of one base in front of which a number has been read. -/
def readDigits (b : Nat) : Nat → List Char → Option Nat
  | acc, [] => some acc
  | acc, c :: s =>
    match digit? c with
    | none => none
    | some d => if d < b then readDigits b (acc * b + d) s else none

/-- Digits with single underscores between them. -/
def numeral? (b : Nat) (s : List Char) : Option Nat :=
  if (s.splitOn '_').any List.isEmpty then none else readDigits b 0 (s.splitOn '_').flatten

/-- The sign in front of a number. -/
def sign : List Char → Bool × List Char
  | '-' :: s => (true, s)
  | '+' :: s => (false, s)
  | s => (false, s)

/-- The base in front of a hexadecimal number. -/
def dropBase : Nat → List Char → List Char
  | 16, '0' :: 'x' :: '_' :: s => s
  | 16, '0' :: 'X' :: '_' :: s => s
  | 16, '0' :: 'x' :: s => s
  | 16, '0' :: 'X' :: s => s
  | _, s => s

/-- `int(s, b)`, where it does not raise. -/
def int? (b : Nat) (s : List Char) : Option Int :=
  (numeral? b (dropBase b (sign (strip s)).2)).map fun n : Nat =>
    if (sign (strip s)).1 then -(n : Int) else n

/-- `f"{n}"` for base 10 and `f"{n:x}"` for base 16. -/
def format (b : Nat) (n : Int) : List Char :=
  if n < 0 then '-' :: Nat.toDigits b n.natAbs else Nat.toDigits b n.natAbs

/-! ## Taking apart -/

variable {p r s : List Char} {a c sep : Char} {b n : Nat}

theorem cut_eq_some {a t : List Char} : cut sep s = some (a, t) ↔ s = a ++ sep :: t ∧ sep ∉ a := by
  induction s generalizing a with
  | nil => simp [cut]
  | cons c s ih =>
    unfold cut
    by_cases hc : c = sep
    · subst hc
      rw [if_pos rfl]
      constructor
      · intro h
        cases h
        exact ⟨rfl, List.not_mem_nil⟩
      · rintro ⟨h, hnot⟩
        cases a with
        | nil => cases h; rfl
        | cons x a =>
          cases h
          exact absurd List.mem_cons_self hnot
    · rw [if_neg hc, Option.map_eq_some_iff]
      constructor
      · rintro ⟨⟨a', t'⟩, hcut, h⟩
        cases h
        obtain ⟨rfl, hnot⟩ := ih.mp hcut
        exact ⟨rfl, fun hm => (List.mem_cons.mp hm).elim (fun h => hc h.symm) hnot⟩
      · rintro ⟨h, hnot⟩
        cases a with
        | nil => cases h; exact absurd rfl hc
        | cons x a =>
          cases h
          exact ⟨(a, t), ih.mpr ⟨rfl, fun hm => hnot (List.mem_cons_of_mem _ hm)⟩, rfl⟩

theorem strip_eq_self (h : ∀ c ∈ s, isSpace c = false) : strip s = s := by
  unfold strip
  have hdrop : s.dropWhile isSpace = s := by
    cases s with
    | nil => rfl
    | cons c s => rw [List.dropWhile_cons_of_neg (by simp [h c List.mem_cons_self])]
  rw [hdrop, List.rdropWhile_eq_self_iff]
  intro hne
  simp [h _ (List.getLast_mem hne)]

theorem length_strip_le (s : List Char) : (strip s).length ≤ s.length :=
  le_trans (List.rdropWhile_prefix _ _).length_le (List.dropWhile_suffix _).length_le

/-- The pieces of a string are no longer than the string. -/
theorem length_flatten_splitOn_le (sep : Char) (s : List Char) :
    (s.splitOn sep).flatten.length ≤ s.length := by
  induction s with
  | nil => simp
  | cons c s ih =>
    rw [List.splitOn_cons_eq_if_modifyHead]
    split
    · exact le_trans ih (Nat.le_succ _)
    · have hne := List.splitOn_ne_nil sep s
      generalize s.splitOn sep = pieces at *
      cases pieces with
      | nil => exact absurd rfl hne
      | cons p ps => exact Nat.succ_le_succ ih

/-- The separator stands between the pieces only. -/
theorem notMem_of_mem_splitOn (h : p ∈ s.splitOn sep) : sep ∉ p := by
  induction s generalizing p with
  | nil =>
    rw [List.splitOn_nil, List.mem_singleton] at h
    subst h
    exact List.not_mem_nil
  | cons c s ih =>
    rw [List.splitOn_cons_eq_if_modifyHead] at h
    split at h
    · rcases List.mem_cons.mp h with rfl | h
      · exact List.not_mem_nil
      · exact ih h
    · rename_i hc
      have hne := List.splitOn_ne_nil sep s
      generalize s.splitOn sep = pieces at *
      cases pieces with
      | nil => exact absurd rfl hne
      | cons q qs =>
        rcases List.mem_cons.mp h with rfl | h
        · rw [List.mem_cons, not_or]
          exact ⟨fun hs => hc (beq_iff_eq.mpr hs.symm), ih List.mem_cons_self⟩
        · exact ih (List.mem_cons_of_mem _ h)

/-- What is cut off behind the last separator shortens the last piece only. -/
theorem getElem?_splitOn_append {w : List Char} (hw : sep ∉ w) (s : List Char) {i : Nat}
    (h : ((s ++ w).splitOn sep)[i]? = some p) : ∃ q, (s.splitOn sep)[i]? = some q ∧ q <+: p := by
  induction s generalizing i p with
  | nil =>
    rw [List.nil_append, List.splitOn_eq_singleton hw] at h
    cases i with
    | zero => exact ⟨[], rfl, List.nil_prefix⟩
    | succ i => cases h
  | cons c s ih =>
    rw [List.cons_append, List.splitOn_cons_eq_if_modifyHead] at h
    rw [List.splitOn_cons_eq_if_modifyHead]
    split at h
    · rename_i hc
      rw [if_pos hc]
      cases i with
      | zero =>
        cases h
        exact ⟨[], rfl, List.prefix_refl _⟩
      | succ i => exact ih h
    · rename_i hc
      rw [if_neg hc]
      cases i with
      | zero =>
        rw [List.getElem?_modifyHead_zero, Option.map_eq_some_iff] at h
        obtain ⟨p', hp', rfl⟩ := h
        obtain ⟨q, hq, hqp⟩ := ih hp'
        exact ⟨c :: q, by rw [List.getElem?_modifyHead_zero, hq]; rfl,
          List.prefix_cons_inj c |>.mpr hqp⟩
      | succ i =>
        rw [List.getElem?_modifyHead_succ] at h ⊢
        exact ih h

/-- What is cut off in front of the first separator shortens the first piece only. -/
theorem getElem?_splitOn_dropWhile {f : Char → Bool} (hf : f sep = false) (s : List Char) (i : Nat)
    :
    ((s.dropWhile f).splitOn sep)[i + 1]? = (s.splitOn sep)[i + 1]? := by
  induction s with
  | nil => rfl
  | cons c s ih =>
    by_cases hc : f c = true
    · have hne : ¬ (c == sep) = true := by
        rw [beq_iff_eq]
        rintro rfl
        rw [hf] at hc
        cases hc
      rw [List.dropWhile_cons_of_pos hc, ih, List.splitOn_cons_eq_if_modifyHead, if_neg hne,
        List.getElem?_modifyHead_succ]
    · rw [List.dropWhile_cons_of_neg hc]

/-- **Stripping a string keeps its inner pieces**, and shortens the last one at most. -/
theorem getElem?_split_strip (hsep : isSpace sep = false) {i : Nat}
    (h : (split sep s)[i + 1]? = some p) :
    ∃ q, (split sep (strip s))[i + 1]? = some q ∧ q <+: p := by
  unfold split strip at *
  rw [← getElem?_splitOn_dropWhile hsep,
    ← List.rdropWhile_append_rtakeWhile (p := isSpace) (l := s.dropWhile isSpace)] at h
  refine getElem?_splitOn_append (fun hm => ?_) _ h
  rw [List.mem_rtakeWhile_imp hm] at hsep
  cases hsep

/-- A string whose first character is no digit is no number. -/
theorem isDigit_eq_false_of_prefix (hc : isDigitChar c = false) (h : p <+: c :: s) :
    isDigit p = false := by
  cases p with
  | nil => rfl
  | cons x p =>
    obtain ⟨t, ht⟩ := h
    cases ht
    unfold isDigit
    rw [List.all_cons, hc, Bool.false_and, Bool.and_false]

/-! ## Replacing characters -/

/-- `str.replace(a, r)` for a pattern of one character. -/
def replace (a : Char) (r : List Char) (s : List Char) : List Char :=
  s.flatMap fun c => if c = a then r else [c]

theorem replace_cons (a : Char) (r : List Char) (c : Char) (s : List Char) :
    replace a r (c :: s) = (if c = a then r else [c]) ++ replace a r s := rfl

theorem replace_append (a : Char) (r s t : List Char) :
    replace a r (s ++ t) = replace a r s ++ replace a r t := List.flatMap_append

theorem replace_eq_self (r : List Char) (h : a ∉ s) : replace a r s = s := by
  induction s with
  | nil => rfl
  | cons c s ih =>
    rw [List.mem_cons, not_or] at h
    rw [replace_cons, ih h.2, if_neg (fun hc => h.1 hc.symm)]
    rfl

theorem replace_ne_nil (hr : r ≠ []) (hs : s ≠ []) : replace a r s ≠ [] := by
  cases s with
  | nil => exact absurd rfl hs
  | cons c s =>
    rw [replace_cons]
    split <;> simp [hr]

/-- A character stands in a replaced string only if it stood there or replaces one. -/
theorem notMem_replace (hr : c ∉ r) (hs : c ∉ s) : c ∉ replace a r s := by
  intro h
  obtain ⟨d, hd, hc⟩ := List.mem_flatMap.mp h
  split at hc
  · exact hr hc
  · exact hs (List.mem_singleton.mp hc ▸ hd)

theorem notMem_replace_self (h : a ∉ r) (s : List Char) : a ∉ replace a r s := by
  intro ha
  obtain ⟨d, -, hc⟩ := List.mem_flatMap.mp ha
  split at hc
  · exact h hc
  · rename_i hne
    exact hne (List.mem_singleton.mp hc).symm

/-- Replacing in a joined string is replacing in its pieces, as long as the separator stays. -/
theorem replace_intercalate (r : List Char) (h : sep ≠ a) (l : List (List Char)) :
    replace a r ([sep].intercalate l) = [sep].intercalate (l.map (replace a r)) := by
  induction l with
  | nil => rfl
  | cons p l ih =>
    cases l with
    | nil => rw [List.map_singleton, List.intercalate_singleton, List.intercalate_singleton]
    | cons q l =>
      rw [List.map_cons] at ih
      have hkeep : replace a r [sep] = [sep] := replace_eq_self r (by simpa using Ne.symm h)
      rw [List.map_cons, List.map_cons, List.intercalate_cons_cons, List.intercalate_cons_cons,
        replace_append, replace_append, ih, hkeep]

/-- A text without separators is in front of the first piece. -/
theorem splitOn_append_of_notMem {a : List Char} (h : sep ∉ a) (s : List Char) :
    (a ++ s).splitOn sep = (s.splitOn sep).modifyHead (a ++ ·) := by
  induction a with
  | nil => cases hs : s.splitOn sep <;> simp [hs]
  | cons c a ih =>
    rw [List.mem_cons, not_or] at h
    have hc : ¬ (c == sep) = true := by
      rw [beq_iff_eq]
      exact fun hc => h.1 hc.symm
    rw [List.cons_append, List.splitOn_cons_eq_if_modifyHead, if_neg hc, ih h.2,
      List.modifyHead_modifyHead]
    rfl

/-- **Replacing leaves the pieces in place**, as long as it puts in and takes away no separator. -/
theorem splitOn_replace (ha : a ≠ sep) (hr : sep ∉ r) (s : List Char) :
    (replace a r s).splitOn sep = (s.splitOn sep).map (replace a r) := by
  induction s with
  | nil => rfl
  | cons c s ih =>
    rw [replace_cons, List.splitOn_cons_eq_if_modifyHead]
    by_cases hc : c = sep
    · -- the separator stays, and begins a new piece
      subst hc
      rw [if_neg (fun hca => ha hca.symm), if_pos (beq_self_eq_true c), List.singleton_append,
        List.splitOn_cons_eq_if_modifyHead, if_pos (beq_self_eq_true c), ih]
      rfl
    · have hnot : sep ∉ (if c = a then r else [c]) := by
        split
        · exact hr
        · rw [List.mem_singleton]
          exact fun hs => hc hs.symm
      rw [if_neg (fun hb => hc (beq_iff_eq.mp hb)), splitOn_append_of_notMem hnot, ih]
      cases s.splitOn sep <;> simp [replace_cons]

/-- The pieces of a joined string are the pieces of what was joined. -/
theorem splitOnP_intercalate_flatMap {p : Char → Bool} (hsep : p sep = true) {l : List (List Char)}
    (h : l ≠ []) : ([sep].intercalate l).splitOnP p = l.flatMap (List.splitOnP p) := by
  induction l with
  | nil => exact absurd rfl h
  | cons q l ih =>
    cases l with
    | nil => rw [List.intercalate_singleton, List.flatMap_cons, List.flatMap_nil, List.append_nil]
    | cons q' l =>
      have ih := ih (List.cons_ne_nil _ _)
      rw [List.intercalate_cons_cons, List.append_assoc, List.singleton_append,
        List.splitOnP_append_cons _ _ hsep, ih, ← List.flatMap_cons]

theorem splitOn_injective (sep : Char) : Function.Injective (List.splitOn sep) := by
  intro s t h
  have hjoin : ∀ s : List Char, [sep].intercalate (s.splitOn sep) = s :=
    fun _ => List.intercalate_splitOn sep
  rw [← hjoin s, h, hjoin]

/-- A string with `u` in place of every character that `p` names. -/
def unify (p : Char → Bool) (u : Char) (s : List Char) : List Char :=
  s.map fun c => if p c then u else c

/-- **Characters that are made one cut a string where each of them did.** -/
theorem splitOn_unify {p : Char → Bool} {u : Char} (hu : p u = true) (s : List Char) :
    (unify p u s).splitOn u = s.splitOnP p := by
  induction s with
  | nil => rfl
  | cons c s ih =>
    have hcons : unify p u (c :: s) = (if p c then u else c) :: unify p u s := rfl
    rw [hcons, List.splitOn_cons_eq_if_modifyHead, List.splitOnP_cons_eq_if_modifyHead, ih]
    by_cases hc : p c = true
    · rw [if_pos hc, if_pos hc, if_pos (beq_self_eq_true u)]
    · have hne : ¬ (c == u) = true := fun hcu => hc (beq_iff_eq.mp hcu ▸ hu)
      rw [if_neg hc, if_neg hc, if_neg hne]

/-! ## Digits -/

theorem digit?_digitChar {d : Nat} (h : d < 16) : digit? (Nat.digitChar d) = some d := by
  revert d
  decide

theorem isSpace_digitChar {d : Nat} (h : d < 16) : isSpace (Nat.digitChar d) = false := by
  revert d
  decide

/-- What numbers of a base up to 16 are written with. -/
theorem eq_digitChar_of_mem_toDigits (hb : 1 < b) (hb' : b ≤ 16) (h : c ∈ Nat.toDigits b n) :
    ∃ d < 16, c = Nat.digitChar d := by
  induction n using Nat.strongRecOn with
  | ind n ih =>
    rw [Nat.toDigits_eq_if hb] at h
    split at h
    · rename_i hn
      exact ⟨n, by omega, List.mem_singleton.mp h⟩
    · rename_i hn
      rcases List.mem_append.mp h with h | h
      · exact ih (n / b) (Nat.div_lt_self (by omega) hb) h
      · have := Nat.mod_lt n (show 0 < b by omega)
        exact ⟨n % b, by omega, List.mem_singleton.mp h⟩

theorem notMem_toDigits (hb : 1 < b) (hb' : b ≤ 16) (hc : ∀ d < 16, c ≠ Nat.digitChar d) :
    c ∉ Nat.toDigits b n := by
  intro h
  obtain ⟨d, hd, hcd⟩ := eq_digitChar_of_mem_toDigits hb hb' h
  exact hc d hd hcd

theorem readDigits_append (b acc : Nat) (s t : List Char) :
    readDigits b acc (s ++ t) = (readDigits b acc s).bind fun acc => readDigits b acc t := by
  induction s generalizing acc with
  | nil => rfl
  | cons c s ih =>
    simp only [List.cons_append, readDigits]
    cases digit? c with
    | none => rfl
    | some d =>
      dsimp only
      split
      · exact ih _
      · rfl

/-- **Reading digits is the inverse of writing them.** -/
theorem readDigits_toDigits (hb : 1 < b) (hb' : b ≤ 16) (n : Nat) :
    readDigits b 0 (Nat.toDigits b n) = some n := by
  have hone : ∀ acc d, d < b → readDigits b acc [Nat.digitChar d] = some (acc * b + d) := by
    intro acc d hd
    unfold readDigits
    rw [digit?_digitChar (by omega)]
    dsimp only
    rw [if_pos hd]
    rfl
  induction n using Nat.strongRecOn with
  | ind n ih =>
    rw [Nat.toDigits_eq_if hb]
    split
    · rename_i hn
      rw [hone 0 n hn, Nat.zero_mul, Nat.zero_add]
    · rw [readDigits_append, ih (n / b) (Nat.div_lt_self (by omega) hb), Option.bind_some,
        hone _ _ (Nat.mod_lt _ (by omega)), Nat.mul_comm, Nat.div_add_mod]

/-- A number is too small for more digits than it is read from. -/
theorem readDigits_lt {acc : Nat} (h : readDigits b acc s = some n) :
    n < (acc + 1) * b ^ s.length := by
  induction s generalizing acc with
  | nil =>
    cases h
    simp
  | cons c s ih =>
    unfold readDigits at h
    cases hd : digit? c with
    | none => rw [hd] at h; cases h
    | some d =>
      rw [hd] at h
      dsimp only at h
      split at h
      · rename_i hlt
        refine lt_of_lt_of_le (ih h) ?_
        rw [List.length_cons, pow_succ']
        calc (acc * b + d + 1) * b ^ s.length
            ≤ ((acc + 1) * b) * b ^ s.length := by
              refine Nat.mul_le_mul_right _ ?_
              rw [Nat.succ_mul]
              omega
          _ = (acc + 1) * (b * b ^ s.length) := by ring
      · cases h

/-! ## Numerals -/

theorem numeral?_toDigits (hb : 1 < b) (hb' : b ≤ 16) (n : Nat) :
    numeral? b (Nat.toDigits b n) = some n := by
  have hsplit : (Nat.toDigits b n).splitOn '_' = [Nat.toDigits b n] :=
    List.splitOn_eq_singleton (notMem_toDigits hb hb' (by decide))
  unfold numeral?
  rw [hsplit, if_neg (by simp), List.flatten_cons, List.flatten_nil, List.append_nil,
    readDigits_toDigits hb hb']

/-- No way to write a number is shorter than its digits. -/
theorem length_toDigits_le_of_numeral? (hb : 1 < b) (h : numeral? b s = some n) :
    (Nat.toDigits b n).length ≤ s.length := by
  unfold numeral? at h
  split at h
  · cases h
  · rename_i hne
    -- there is a piece, and it is not empty
    have hpos : 0 < (s.splitOn '_').flatten.length := by
      have hpieces := List.splitOn_ne_nil '_' s
      generalize s.splitOn '_' = pieces at *
      cases pieces with
      | nil => exact absurd rfl hpieces
      | cons p ps =>
        cases p with
        | nil => exact absurd rfl hne
        | cons c p => exact Nat.succ_pos _
    have hlt := readDigits_lt h
    rw [Nat.zero_add, Nat.one_mul, ← Nat.length_toDigits_le_iff hb hpos] at hlt
    exact le_trans hlt (length_flatten_splitOn_le '_' s)

/-! ## Signs and bases -/

theorem sign_eq_self (hminus : '-' ∉ s) (hplus : '+' ∉ s) : sign s = (false, s) := by
  unfold sign
  split
  · exact absurd List.mem_cons_self hminus
  · exact absurd List.mem_cons_self hplus
  · rfl

theorem dropBase_eq_self (hx : 'x' ∉ s) (hX : 'X' ∉ s) : dropBase b s = s := by
  unfold dropBase
  split
  · exact absurd (by simp) hx
  · exact absurd (by simp) hX
  · exact absurd (by simp) hx
  · exact absurd (by simp) hX
  · rfl

theorem length_dropBase_le (b : Nat) (s : List Char) : (dropBase b s).length ≤ s.length := by
  unfold dropBase
  split
  · exact Nat.le_add_right _ 3
  · exact Nat.le_add_right _ 3
  · exact Nat.le_add_right _ 2
  · exact Nat.le_add_right _ 2
  · exact le_rfl

theorem length_sign (s : List Char) :
    (sign s).2.length + (if (sign s).1 then 1 else 0) ≤ s.length := by
  unfold sign
  split <;> simp

/-- What an integer is written with. -/
theorem eq_of_mem_format (hb : 1 < b) (hb' : b ≤ 16) {n : Int} (h : c ∈ format b n) :
    c = '-' ∨ ∃ d < 16, c = Nat.digitChar d := by
  unfold format at h
  split at h
  · rcases List.mem_cons.mp h with h | h
    · exact .inl h
    · exact .inr (eq_digitChar_of_mem_toDigits hb hb' h)
  · exact .inr (eq_digitChar_of_mem_toDigits hb hb' h)

theorem notMem_format (hb : 1 < b) (hb' : b ≤ 16) (n : Int) (hminus : c ≠ '-')
    (hc : ∀ d < 16, c ≠ Nat.digitChar d) : c ∉ format b n := by
  intro h
  rcases eq_of_mem_format hb hb' h with h | ⟨d, hd, h⟩
  · exact hminus h
  · exact hc d hd h

/-- **Reading an integer is the inverse of writing it.** -/
theorem int?_format (hb : 1 < b) (hb' : b ≤ 16) (n : Int) : int? b (format b n) = some n := by
  have hstrip : strip (format b n) = format b n := by
    refine strip_eq_self fun c hc => ?_
    rcases eq_of_mem_format hb hb' hc with rfl | ⟨d, hd, rfl⟩
    · decide
    · exact isSpace_digitChar hd
  have hbase : dropBase b (Nat.toDigits b n.natAbs) = Nat.toDigits b n.natAbs :=
    dropBase_eq_self (notMem_toDigits hb hb' (by decide)) (notMem_toDigits hb hb' (by decide))
  unfold int?
  rw [hstrip]
  unfold format
  split
  · rename_i hneg
    show (numeral? b (dropBase b (Nat.toDigits b n.natAbs))).map (fun m : Nat => -(m : Int)) = some n
    rw [hbase, numeral?_toDigits hb hb', Option.map_some]
    exact congrArg some (by omega)
  · rename_i hneg
    rw [sign_eq_self (notMem_toDigits hb hb' (by decide)) (notMem_toDigits hb hb' (by decide)),
      hbase, numeral?_toDigits hb hb', Option.map_some]
    exact congrArg some (by simp; omega)

theorem format_injective (hb : 1 < b) (hb' : b ≤ 16) : Function.Injective (format b) := by
  intro n m h
  have hread := int?_format hb hb' n
  rw [h, int?_format hb hb' m] at hread
  exact (Option.some.inj hread).symm

/-- **No way to write an integer is shorter than `format`'s.** -/
theorem length_format_le (hb : 1 < b) {n : Int} (h : int? b s = some n) :
    (format b n).length ≤ s.length := by
  unfold int? at h
  obtain ⟨m, hm, hn⟩ := Option.map_eq_some_iff.mp h
  have hdigits := length_toDigits_le_of_numeral? hb hm
  have hbase := length_dropBase_le b (sign (strip s)).2
  have hsign := length_sign (strip s)
  have hstrip := length_strip_le s
  unfold format
  cases hneg : (sign (strip s)).1 with
  | false =>
    rw [hneg] at hn hsign
    have hn : n = m := hn.symm
    subst hn
    rw [if_neg (by omega), Int.natAbs_natCast]
    simp only [Bool.false_eq_true, if_false] at hsign
    omega
  | true =>
    rw [hneg] at hn hsign
    have hn : n = -(m : Int) := hn.symm
    subst hn
    rw [Int.natAbs_neg, Int.natAbs_natCast]
    simp only [if_true] at hsign
    split
    · rw [List.length_cons]
      omega
    · omega

/-! ## Bytes -/

/-- `str.encode()`: UTF-8. -/
def encode (s : List Char) : List UInt8 := s.flatMap String.utf8EncodeChar

/-- `bytes.decode()`, where the bytes are UTF-8. -/
def decode? (bs : List UInt8) : Option (List Char) :=
  (String.fromUTF8? bs.toByteArray).map String.toList

/-- The number of bytes a string is encoded with. -/
def size (s : List Char) : Nat := (s.map Char.utf8Size).sum

theorem encode_append (s t : List Char) : encode (s ++ t) = encode s ++ encode t :=
  List.flatMap_append

theorem length_encode (s : List Char) : (encode s).length = size s := by
  unfold encode size
  rw [List.length_flatMap]
  simp only [String.length_utf8EncodeChar]

/-- **Decoding is the inverse of encoding**, and takes nothing else. -/
theorem decode?_eq_some {bs : List UInt8} : decode? bs = some s ↔ encode s = bs := by
  have hbytes : (String.ofList s).toByteArray = (encode s).toByteArray := String.toByteArray_ofList
  unfold decode? String.fromUTF8?
  constructor
  · intro h
    split at h
    · rename_i hvalid
      rw [Option.map_some, Option.some.injEq] at h
      subst h
      have hsame : (String.fromUTF8 bs.toByteArray hvalid).toByteArray = bs.toByteArray := rfl
      rw [String.ofList_toList, hsame] at hbytes
      have hdata := congrArg (fun b : ByteArray => b.data.toList) hbytes.symm
      simpa using hdata
    · cases h
  · intro h
    rw [h] at hbytes
    have hvalid : bs.toByteArray.IsValidUTF8 := hbytes ▸ (String.ofList s).isValidUTF8
    rw [dif_pos hvalid, Option.map_some]
    have hofList : String.fromUTF8 bs.toByteArray hvalid = String.ofList s :=
      String.toByteArray_inj.mp hbytes.symm
    rw [hofList, String.toList_ofList]

@[simp] theorem size_append (s t : List Char) : size (s ++ t) = size s + size t := by
  unfold size
  rw [List.map_append, List.sum_append]

@[simp] theorem size_cons (c : Char) (s : List Char) : size (c :: s) = c.utf8Size + size s := by
  unfold size
  rw [List.map_cons, List.sum_cons]

theorem length_le_size (s : List Char) : s.length ≤ size s := by
  induction s with
  | nil => exact le_rfl
  | cons c s ih =>
    have hc := c.utf8Size_pos
    rw [List.length_cons, size_cons]
    omega

/-- A string joined from pieces, with its separators. -/
theorem size_intercalate (sep : Char) {l : List (List Char)} (h : l ≠ []) :
    size ([sep].intercalate l) + sep.utf8Size = (l.map fun p => size p + sep.utf8Size).sum := by
  induction l with
  | nil => exact absurd rfl h
  | cons p l ih =>
    cases l with
    | nil => rw [List.intercalate_singleton, List.map_singleton, List.sum_singleton]
    | cons q l =>
      have ih := ih (List.cons_ne_nil _ _)
      rw [List.map_cons, List.sum_cons, ← ih, List.intercalate_cons_cons, size_append, size_append,
        size_cons]
      show _ + (_ + 0) + _ + _ = _
      omega

theorem utf8Size_digitChar {d : Nat} (h : d < 16) : (Nat.digitChar d).utf8Size = 1 := by
  revert d
  decide

/-- The digits and the sign take a byte each. -/
theorem size_format (hb : 1 < b) (hb' : b ≤ 16) (n : Int) :
    size (format b n) = (format b n).length := by
  have hone : ∀ s : List Char, (∀ c ∈ s, c.utf8Size = 1) → size s = s.length := by
    intro s hs
    induction s with
    | nil => rfl
    | cons c s ih =>
      rw [List.forall_mem_cons] at hs
      rw [size_cons, hs.1, ih hs.2, List.length_cons, Nat.add_comm]
  refine hone _ fun c hc => ?_
  rcases eq_of_mem_format hb hb' hc with rfl | ⟨d, hd, rfl⟩
  · rfl
  · exact utf8Size_digitChar hd

/-- **No way to write an integer takes fewer bytes than `format`'s.** -/
theorem size_format_le (hb : 1 < b) (hb' : b ≤ 16) {n : Int} (h : int? b s = some n) :
    size (format b n) ≤ size s := by
  rw [size_format hb hb']
  exact le_trans (length_format_le hb h) (length_le_size s)

/-- What stripping takes away takes bytes. -/
theorem size_strip_lt (h : strip s ≠ s) : size (strip s) < size s := by
  obtain ⟨a, ha⟩ := List.dropWhile_suffix (l := s) isSpace
  obtain ⟨b, hb⟩ := List.rdropWhile_prefix isSpace (s.dropWhile isSpace)
  have hsplit : s = a ++ (strip s ++ b) := by
    unfold strip
    rw [hb, ha]
  have hsize := congrArg size hsplit
  rw [size_append, size_append] at hsize
  have hab := length_le_size a
  have hbb := length_le_size b
  -- if nothing is taken away, the string is stripped already
  by_contra hge
  have ha0 : a = [] := List.eq_nil_of_length_eq_zero (by omega)
  have hb0 : b = [] := List.eq_nil_of_length_eq_zero (by omega)
  rw [ha0, hb0, List.nil_append, List.append_nil] at hsplit
  exact h hsplit.symm

/-- Padding is stripped again. -/
theorem strip_append_spaces (s : List Char) (n : Nat) :
    strip (s ++ List.replicate n ' ') = strip s := by
  have hright : ∀ t : List Char, (t ++ List.replicate n ' ').rdropWhile isSpace =
      t.rdropWhile isSpace := by
    intro t
    induction n with
    | zero => rw [List.replicate_zero, List.append_nil]
    | succ n ih =>
      rw [List.replicate_succ', ← List.append_assoc,
        List.rdropWhile_concat_pos _ _ _ (by decide), ih]
  unfold strip
  by_cases hall : ∀ c ∈ s, isSpace c = true
  · -- nothing is left of either
    have hs : s.dropWhile isSpace = [] := List.dropWhile_eq_nil_iff.mpr hall
    have hpad : (s ++ List.replicate n ' ').dropWhile isSpace = [] := by
      refine List.dropWhile_eq_nil_iff.mpr fun c hc => ?_
      rcases List.mem_append.mp hc with hc | hc
      · exact hall c hc
      · rw [(List.mem_replicate.mp hc).2]
        decide
    rw [hs, hpad]
  · have hdrop : (s ++ List.replicate n ' ').dropWhile isSpace =
        s.dropWhile isSpace ++ List.replicate n ' ' := by
      rw [List.dropWhile_append, if_neg]
      rw [List.isEmpty_iff, List.dropWhile_eq_nil_iff]
      exact hall
    rw [hdrop, hright]

/-- Different strings have different bytes. -/
theorem encode_injective : Function.Injective encode := by
  intro s t h
  have hs : decode? (encode s) = some s := decode?_eq_some.mpr rfl
  rw [h, decode?_eq_some.mpr rfl] at hs
  exact (Option.some.inj hs).symm

/-! ## Percent-encoding -/

/-- The bytes that `urllib.parse.quote` leaves as they are: letters, digits and `-._~`. -/
def isUnreserved (b : UInt8) : Bool :=
  (48 ≤ b && b ≤ 57) || (65 ≤ b && b ≤ 90) || (97 ≤ b && b ≤ 122) ||
    b == 45 || b == 46 || b == 95 || b == 126

/-- A hexadecimal digit, in upper case. -/
def hexDigit (n : Nat) : Char := if n < 10 then Char.ofNat (48 + n) else Char.ofNat (55 + n)

/-- One byte as `quote` writes it. -/
def quoteByte (b : UInt8) : List Char :=
  if isUnreserved b then [Char.ofNat b.toNat]
  else ['%', hexDigit (b.toNat / 16), hexDigit (b.toNat % 16)]

/-- `urllib.parse.quote(s, safe="")`. -/
def quote (s : List Char) : List Char := (encode s).flatMap quoteByte

/-- Reads back one byte that `quoteByte` wrote. -/
def unquoteByte : List Char → Option (UInt8 × List Char)
  | '%' :: h :: l :: s => do
    let h ← digit? h
    let l ← digit? l
    some (UInt8.ofNat (16 * h + l), s)
  | c :: s => some (UInt8.ofNat c.toNat, s)
  | [] => none

theorem digit?_hexDigit (h : n < 16) : digit? (hexDigit n) = some n := by
  revert n
  decide +kernel

/-- A byte is read back, whatever follows it. -/
theorem unquoteByte_quoteByte_append (b : UInt8) (s : List Char) :
    unquoteByte (quoteByte b ++ s) = some (b, s) := by
  have hb : b.toNat < 256 := b.toNat_lt
  unfold quoteByte
  split
  · rename_i h
    have hplain : ∀ n < 256, isUnreserved (UInt8.ofNat n) = true →
        Char.ofNat n ≠ '%' ∧ (Char.ofNat n).toNat = n := by
      decide +kernel
    obtain ⟨hne, hnat⟩ := hplain b.toNat hb (by rwa [UInt8.ofNat_toNat])
    have hread : unquoteByte (Char.ofNat b.toNat :: s) =
        some (UInt8.ofNat (Char.ofNat b.toNat).toNat, s) := by
      unfold unquoteByte
      split
      · rename_i heq
        exact absurd (List.cons.inj heq).1 hne
      · rename_i heq
        cases heq
        rfl
      · rename_i heq
        cases heq
    rw [List.singleton_append, hread, hnat, UInt8.ofNat_toNat]
  · show (do
      let h ← digit? (hexDigit (b.toNat / 16))
      let l ← digit? (hexDigit (b.toNat % 16))
      some (UInt8.ofNat (16 * h + l), s)) = _
    rw [digit?_hexDigit (by omega), digit?_hexDigit (by omega)]
    show some (UInt8.ofNat (16 * (b.toNat / 16) + b.toNat % 16), s) = _
    rw [Nat.div_add_mod, UInt8.ofNat_toNat]

/-- **Different strings are quoted differently.** -/
theorem quote_injective : Function.Injective quote := by
  intro s t h
  refine encode_injective ?_
  unfold quote at h
  generalize encode s = bs at h
  generalize encode t = cs at h
  induction bs generalizing cs with
  | nil =>
    cases cs with
    | nil => rfl
    | cons c cs =>
      have hread := unquoteByte_quoteByte_append c (cs.flatMap quoteByte)
      rw [← List.flatMap_cons, ← h] at hread
      cases hread
  | cons b bs ih =>
    have hread := unquoteByte_quoteByte_append b (bs.flatMap quoteByte)
    rw [← List.flatMap_cons, h] at hread
    cases cs with
    | nil => cases hread
    | cons c cs =>
      rw [List.flatMap_cons, unquoteByte_quoteByte_append] at hread
      obtain ⟨hhead, htail⟩ := Prod.mk.inj (Option.some.inj hread)
      rw [hhead, ih cs htail.symm]

end LMCache.Lib.PyStr
