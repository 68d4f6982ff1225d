/-
# LMCache.Lib.JsonText — JSON documents as text.

`json.dumps` with its defaults, and `json.loads`.  Both are by recursion on the document or on a bound
of its depth and length, which the length of the text is.  A float is the text that it is written
with.  What is written is read back: `loads_dumps`, for every document without floats in which no
object has a key twice.

A `\u` escape of half a surrogate pair, which Python reads as a character by itself, is no character
here, and a text with one is refused.
-/
import LMCache.Lib.Dict
import LMCache.Lib.Json
import LMCache.Lib.PyStr

namespace LMCache.Lib.JsonText

open PyStr

/-! ## Writing -/

/-- Four hexadecimal digits behind `\u`. -/
def unicodeEscape (n : Nat) : List Char :=
  ['\\', 'u', Nat.digitChar (n / 4096 % 16), Nat.digitChar (n / 256 % 16),
    Nat.digitChar (n / 16 % 16), Nat.digitChar (n % 16)]

/-- The characters that have an escape of their own, with the letter of it. -/
def shortEscapes : List (Char × Char) :=
  [('"', '"'), ('\\', '\\'), ('\n', 'n'), ('\r', 'r'), ('\t', 't'), (Char.ofNat 12, 'f'),
    (Char.ofNat 8, 'b')]

/-- A character as `ensure_ascii` has it. -/
def escapeChar (c : Char) : List Char :=
  match shortEscapes.lookup c with
  | some letter => ['\\', letter]
  | none =>
    if 32 ≤ c.toNat ∧ c.toNat ≤ 126 then [c]
    else if c.toNat < 65536 then unicodeEscape c.toNat
    else
      let n := c.toNat - 65536
      unicodeEscape (0xd800 + n / 1024) ++ unicodeEscape (0xdc00 + n % 1024)

def quoted (s : String) : List Char := '"' :: s.toList.flatMap escapeChar ++ ['"']

mutual

/-- `json.dumps`. -/
def dumps : Json String → List Char
  | .null => "null".toList
  | .bool true => "true".toList
  | .bool false => "false".toList
  | .int n => format 10 n
  | .float x => x.toList
  | .str s => quoted s
  | .arr items => '[' :: dumpsItems items ++ [']']
  | .obj fields => '{' :: dumpsFields fields ++ ['}']

def dumpsItems : List (Json String) → List Char
  | [] => []
  | [item] => dumps item
  | item :: items => dumps item ++ ',' :: ' ' :: dumpsItems items

def dumpsFields : List (String × Json String) → List Char
  | [] => []
  | [(key, value)] => quoted key ++ ':' :: ' ' :: dumps value
  | (key, value) :: fields =>
    quoted key ++ ':' :: ' ' :: dumps value ++ ',' :: ' ' :: dumpsFields fields

end

/-! ## Reading -/

def isWhitespace (c : Char) : Bool := [' ', '\t', '\n', '\r'].contains c

def skipWhitespace (s : List Char) : List Char := s.dropWhile isWhitespace

def hexDigit? (c : Char) : Option Nat :=
  (digit? c).bind fun d => if c.toNat < 128 ∧ d < 16 then some d else none

/-- The four digits behind `\u`. -/
def readUnicodeEscape : List Char → Option (Nat × List Char)
  | a :: b :: c :: d :: s => do
    let a ← hexDigit? a
    let b ← hexDigit? b
    let c ← hexDigit? c
    let d ← hexDigit? d
    some (4096 * a + 256 * b + 16 * c + d, s)
  | _ => none

/-- The second half of a surrogate pair. -/
def readLowSurrogate : List Char → Option (Nat × List Char)
  | '\\' :: 'u' :: s => do
    let (n, s) ← readUnicodeEscape s
    if 0xdc00 ≤ n ∧ n ≤ 0xdfff then some (n, s) else none
  | _ => none

/-- The letters of the escapes, with what they stand for. -/
def escapeLetters : List (Char × Char) :=
  ('/', '/') :: shortEscapes.map fun e => (e.2, e.1)

/-- One character of a string. -/
def readChar : List Char → Option (Char × List Char)
  | '\\' :: 'u' :: s => do
    let (n, s) ← readUnicodeEscape s
    if 0xd800 ≤ n ∧ n ≤ 0xdbff then do
      let (m, s) ← readLowSurrogate s
      some (Char.ofNat (65536 + (n - 0xd800) * 1024 + (m - 0xdc00)), s)
    else if 0xdc00 ≤ n ∧ n ≤ 0xdfff then none
    else some (Char.ofNat n, s)
  | '\\' :: letter :: s => (escapeLetters.lookup letter).map fun c => (c, s)
  | c :: s => if c.toNat < 32 then none else some (c, s)
  | [] => none

/-- The rest of a string behind its opening quote. -/
def readString : Nat → List Char → Option (List Char × List Char)
  | 0, _ => none
  | fuel + 1, s =>
    if s.head? = some '"' then some ([], s.tail)
    else do
      let (c, s) ← readChar s
      let (cs, s) ← readString fuel s
      some (c :: cs, s)

/-- The digits of the integral part: one zero, or digits that do not begin with zero. -/
def lexInteger (s : List Char) : Option (List Char × List Char) :=
  match s with
  | '0' :: s => some (['0'], s)
  | s => if (s.takeWhile Char.isDigit).isEmpty then none else some (s.span Char.isDigit)

/-- A point and digits. -/
def lexFraction (s : List Char) : List Char × List Char :=
  match s with
  | '.' :: t => if (t.takeWhile Char.isDigit).isEmpty then ([], s)
    else ('.' :: t.takeWhile Char.isDigit, t.dropWhile Char.isDigit)
  | s => ([], s)

/-- An `e`, a sign, and digits. -/
def lexExponent (s : List Char) : List Char × List Char :=
  match s with
  | e :: t =>
    if e = 'e' ∨ e = 'E' then
      let signs := if t.head? = some '+' ∨ t.head? = some '-' then t.take 1 else []
      let t := t.drop signs.length
      if (t.takeWhile Char.isDigit).isEmpty then ([], s)
      else (e :: signs ++ t.takeWhile Char.isDigit, t.dropWhile Char.isDigit)
    else ([], s)
  | [] => ([], [])

/-- A number: an integer, if it has neither a fraction nor an exponent. -/
def readNumber (s : List Char) : Option (Json String × List Char) := do
  let minus := if s.head? = some '-' then ['-'] else []
  let (digits, s) ← lexInteger (s.drop minus.length)
  let (fraction, s) := lexFraction s
  let (exponent, s) := lexExponent s
  if fraction.isEmpty ∧ exponent.isEmpty then do
    let n ← int? 10 (minus ++ digits)
    some (.int n, s)
  else some (.float (String.ofList (minus ++ digits ++ fraction ++ exponent)), s)

/-- The words that are values. -/
def words : List (List Char × Json String) :=
  [("null".toList, .null), ("true".toList, .bool true), ("false".toList, .bool false),
    ("NaN".toList, .float "NaN"), ("Infinity".toList, .float "Infinity"),
    ("-Infinity".toList, .float "-Infinity")]

def readWord (s : List Char) : Option (Json String × List Char) :=
  (words.find? fun w => w.1.isPrefixOf s).map fun w => (w.2, s.drop w.1.length)

mutual

def readValue : Nat → List Char → Option (Json String × List Char)
  | 0, _ => none
  | fuel + 1, s =>
    match s with
    | '"' :: s => (readString (s.length + 1) s).map fun (cs, s) => (.str (String.ofList cs), s)
    | '[' :: s =>
      match skipWhitespace s with
      | ']' :: s => some (.arr [], s)
      | s => (readItems fuel s).map fun (items, s) => (.arr items, s)
    | '{' :: s =>
      match skipWhitespace s with
      | '}' :: s => some (.obj [], s)
      -- of a key that comes twice the last value stays
      | s => (readFields fuel s).map fun (fields, s) => (.obj (Dict.ofPairs fields).entries, s)
    | s => (readWord s).or (readNumber s)

def readItems : Nat → List Char → Option (List (Json String) × List Char)
  | 0, _ => none
  | fuel + 1, s => do
    let (item, s) ← readValue fuel s
    match skipWhitespace s with
    | ']' :: s => some ([item], s)
    | ',' :: s => do
      let (items, s) ← readItems fuel (skipWhitespace s)
      some (item :: items, s)
    | _ => none

def readFields : Nat → List Char → Option (List (String × Json String) × List Char)
  | 0, _ => none
  | fuel + 1, s =>
    match s with
    | '"' :: s => do
      let (key, s) ← readString (s.length + 1) s
      match skipWhitespace s with
      | ':' :: s => do
        let (value, s) ← readValue fuel (skipWhitespace s)
        match skipWhitespace s with
        | '}' :: s => some ([(String.ofList key, value)], s)
        | ',' :: s => do
          let (fields, s) ← readFields fuel (skipWhitespace s)
          some ((String.ofList key, value) :: fields, s)
        | _ => none
      | _ => none
    | _ => none

end

/-- `json.loads`, where it does not raise. -/
def loads (s : List Char) : Option (Json String) :=
  match readValue (s.length + 1) (skipWhitespace s) with
  | some (value, rest) => if (skipWhitespace rest).isEmpty then some value else none
  | none => none

/-! ## Strings come back -/

theorem hexDigit?_digitChar {d : Nat} (h : d < 16) : hexDigit? (Nat.digitChar d) = some d := by
  revert d
  decide

variable {n : Nat} {s : List Char} {c : Char} {v : Json String}

theorem readUnicodeEscape_append (h : n < 65536) (s : List Char) :
    readUnicodeEscape ((unicodeEscape n).drop 2 ++ s) = some (n, s) := by
  have hdigit : ∀ m : Nat, hexDigit? (Nat.digitChar (m % 16)) = some (m % 16) :=
    fun m => hexDigit?_digitChar (Nat.mod_lt m (by decide))
  show readUnicodeEscape (Nat.digitChar _ :: Nat.digitChar _ :: Nat.digitChar _ ::
    Nat.digitChar _ :: s) = _
  unfold readUnicodeEscape
  simp only [hdigit, Option.bind_eq_bind, Option.bind_some, Option.some.injEq, Prod.mk.injEq,
    and_true]
  omega

/-- No character is half a surrogate pair. -/
theorem toNat_cases (c : Char) : c.toNat < 0xd800 ∨ 0xdfff < c.toNat ∧ c.toNat < 0x110000 :=
  c.valid

theorem readChar_unicode {t : List Char} (h : readUnicodeEscape s = some (n, t)) :
    readChar ('\\' :: 'u' :: s) =
      if 0xd800 ≤ n ∧ n ≤ 0xdbff then (readLowSurrogate t).bind fun low =>
        some (Char.ofNat (65536 + (n - 0xd800) * 1024 + (low.1 - 0xdc00)), low.2)
      else if 0xdc00 ≤ n ∧ n ≤ 0xdfff then none
      else some (Char.ofNat n, t) := by
  show (readUnicodeEscape s).bind _ = _
  rw [h]
  rfl

/-- A character that stands for itself. -/
theorem readChar_plain (hback : c ≠ '\\') (hplain : 32 ≤ c.toNat) (s : List Char) :
    readChar (c :: s) = some (c, s) := by
  unfold readChar
  split
  · exact absurd (List.cons.inj ‹c :: s = _›).1 hback
  · exact absurd (List.cons.inj ‹c :: s = _›).1 hback
  · rename_i heq
    cases heq
    exact if_neg (by omega)
  · rename_i heq
    cases heq

/-- A character with a letter of its own. -/
theorem readChar_letter {letter : Char} (h : shortEscapes.lookup c = some letter) (s : List Char) :
    readChar ('\\' :: letter :: s) = some (c, s) := by
  have hmem : (c, letter) ∈ shortEscapes := by
    obtain ⟨before, after, hsplit, -⟩ := List.lookup_eq_some_iff.mp h
    rw [hsplit]
    simp
  unfold shortEscapes at hmem
  simp only [List.mem_cons, Prod.mk.injEq, List.not_mem_nil, or_false] at hmem
  rcases hmem with ⟨rfl, rfl⟩ | ⟨rfl, rfl⟩ | ⟨rfl, rfl⟩ | ⟨rfl, rfl⟩ | ⟨rfl, rfl⟩ | ⟨rfl, rfl⟩ |
    ⟨rfl, rfl⟩ <;> rfl

theorem readLowSurrogate_append (h : 0xdc00 ≤ n ∧ n ≤ 0xdfff) (s : List Char) :
    readLowSurrogate (unicodeEscape n ++ s) = some (n, s) := by
  have hread := readUnicodeEscape_append (show n < 65536 by omega) s
  show (readUnicodeEscape ((unicodeEscape n).drop 2 ++ s)).bind _ = _
  rw [hread, Option.bind_some]
  dsimp only
  rw [if_pos h]

/-- A surrogate pair. -/
theorem readChar_surrogates (h : 65536 ≤ c.toNat) (s : List Char) :
    readChar (unicodeEscape (0xd800 + (c.toNat - 65536) / 1024) ++
      unicodeEscape (0xdc00 + (c.toNat - 65536) % 1024) ++ s) = some (c, s) := by
  have hcases := toNat_cases c
  have hhigh := readUnicodeEscape_append (show 0xd800 + (c.toNat - 65536) / 1024 < 65536 by omega)
    (unicodeEscape (0xdc00 + (c.toNat - 65536) % 1024) ++ s)
  have hlow := readLowSurrogate_append (n := 0xdc00 + (c.toNat - 65536) % 1024) (by omega) s
  have hsum : 65536 + (0xd800 + (c.toNat - 65536) / 1024 - 0xd800) * 1024 +
      (0xdc00 + (c.toNat - 65536) % 1024 - 0xdc00) = c.toNat := by omega
  rw [List.append_assoc]
  show readChar ('\\' :: 'u' :: ((unicodeEscape _).drop 2 ++ _)) = _
  rw [readChar_unicode hhigh, if_pos ⟨by omega, by omega⟩, hlow, Option.bind_some]
  dsimp only
  rw [hsum, Char.ofNat_toNat]

/-- **A character is read back**, however it is written. -/
theorem readChar_escapeChar (c : Char) (s : List Char) :
    readChar (escapeChar c ++ s) = some (c, s) := by
  unfold escapeChar
  cases hshort : shortEscapes.lookup c with
  | some letter => exact readChar_letter hshort s
  | none =>
    have hback : c ≠ '\\' := by
      rintro rfl
      cases hshort
    dsimp only
    split
    · rename_i hplain
      exact readChar_plain hback hplain.1 s
    · split
      · rename_i hsmall
        have hread := readUnicodeEscape_append hsmall s
        have hcases := toNat_cases c
        show readChar ('\\' :: 'u' :: ((unicodeEscape c.toNat).drop 2 ++ s)) = _
        rw [readChar_unicode hread, if_neg (by omega), if_neg (by omega), Char.ofNat_toNat]
      · rename_i hlarge
        exact readChar_surrogates (not_lt.mp hlarge) s

/-- What a character is written as does not begin like the end of a string. -/
theorem head?_escapeChar (c : Char) (s : List Char) :
    (escapeChar c ++ s).head? ≠ some '"' := by
  unfold escapeChar
  cases hshort : shortEscapes.lookup c with
  | some letter => simp
  | none =>
    have hquote : c ≠ '"' := by
      rintro rfl
      cases hshort
    dsimp only
    split
    · simpa using hquote
    · split
      · simp [unicodeEscape]
      · simp [unicodeEscape]

theorem escapeChar_ne_nil (c : Char) : escapeChar c ≠ [] := by
  intro h
  have hread := readChar_escapeChar c []
  rw [h] at hread
  cases hread

/-- **A string is read back.** -/
theorem readString_flatMap (cs s : List Char) {fuel : Nat}
    (hfuel : (cs.flatMap escapeChar).length < fuel) :
    readString fuel (cs.flatMap escapeChar ++ '"' :: s) = some (cs, s) := by
  induction cs generalizing fuel with
  | nil =>
    cases fuel with
    | zero => cases hfuel
    | succ fuel => rfl
  | cons c cs ih =>
    rw [List.flatMap_cons, List.length_append] at hfuel
    have hpos := List.length_pos_of_ne_nil (escapeChar_ne_nil c)
    cases fuel with
    | zero => cases hfuel
    | succ fuel =>
      unfold readString
      rw [List.flatMap_cons, List.append_assoc, if_neg (head?_escapeChar c _),
        readChar_escapeChar]
      show (readString fuel _).bind _ = _
      rw [ih (by omega)]
      rfl

theorem quoted_append (s : String) (t : List Char) :
    quoted s ++ t = '"' :: (s.toList.flatMap escapeChar ++ '"' :: t) := by
  unfold quoted
  rw [List.append_assoc]
  rfl

/-! ## Integers come back -/

/-- What follows a number does not go on with it. -/
def EndsNumber (s : List Char) : Prop :=
  ∀ c ∈ s.head?, c.isDigit = false ∧ c ≠ '.' ∧ c ≠ 'e' ∧ c ≠ 'E'

theorem endsNumber_cons (h : c.isDigit = false ∧ c ≠ '.' ∧ c ≠ 'e' ∧ c ≠ 'E') (s : List Char) :
    EndsNumber (c :: s) := by
  intro d hd
  cases hd
  exact h

theorem takeWhile_digits {ds : List Char} (hds : ∀ c ∈ ds, c.isDigit = true) (h : EndsNumber s) :
    (ds ++ s).takeWhile Char.isDigit = ds ∧ (ds ++ s).dropWhile Char.isDigit = s := by
  have hstop : s.takeWhile Char.isDigit = [] ∧ s.dropWhile Char.isDigit = s := by
    cases s with
    | nil => exact ⟨rfl, rfl⟩
    | cons c s =>
      have hc : ¬c.isDigit = true := by simp [(h c rfl).1]
      exact ⟨List.takeWhile_cons_of_neg hc, List.dropWhile_cons_of_neg hc⟩
  rw [List.takeWhile_append_of_pos hds, List.dropWhile_append_of_pos hds, hstop.1, hstop.2,
    List.append_nil]
  exact ⟨rfl, rfl⟩

/-- A number other than zero does not begin with a zero. -/
theorem head?_toDigits (h : n ≠ 0) : (Nat.toDigits 10 n).head? ≠ some '0' := by
  induction n using Nat.strongRecOn with
  | ind n ih =>
    rw [Nat.toDigits_eq_if (by decide)]
    split
    · rename_i hsmall
      have hdigits : ∀ d < 10, d ≠ 0 → [Nat.digitChar d].head? ≠ some '0' := by decide
      exact hdigits n hsmall h
    · rename_i hlarge
      have hhead := ih (n / 10) (by omega) (by omega)
      rw [List.head?_append]
      cases hdigits : Nat.toDigits 10 (n / 10) with
      | nil => exact absurd hdigits (by simp)
      | cons d ds => simpa [hdigits] using hhead

theorem isDigit_toDigits (n : Nat) : ∀ c ∈ Nat.toDigits 10 n, c.isDigit = true :=
  fun _ hc => Nat.isDigit_of_mem_toDigits (by decide) (by decide) hc

theorem lexInteger_toDigits (n : Nat) (h : EndsNumber s) :
    lexInteger (Nat.toDigits 10 n ++ s) = some (Nat.toDigits 10 n, s) := by
  by_cases hzero : n = 0
  · subst hzero
    rfl
  · have hhead := head?_toDigits hzero
    obtain ⟨htake, hdrop⟩ := takeWhile_digits (isDigit_toDigits n) h
    have hne : Nat.toDigits 10 n ≠ [] := by simp
    unfold lexInteger
    split
    · rename_i heq
      cases hdigits : Nat.toDigits 10 n with
      | nil => exact absurd hdigits hne
      | cons d ds =>
        rw [hdigits] at heq hhead
        cases heq
        exact absurd rfl hhead
    · rw [htake, List.span_eq_takeWhile_dropWhile, htake, hdrop, if_neg (by simp)]

theorem lexFraction_eq (h : EndsNumber s) : lexFraction s = ([], s) := by
  unfold lexFraction
  split
  · exact absurd rfl (h '.' rfl).2.1
  · rfl

theorem lexExponent_eq (h : EndsNumber s) : lexExponent s = ([], s) := by
  unfold lexExponent
  split
  · rename_i e t
    have he := (h e rfl).2.2
    rw [if_neg (by simp [he])]
  · rfl

/-- A number of a sign and digits. -/
theorem readNumber_eq {t minus ds : List Char} {n : Int}
    (hminus : (if t.head? = some '-' then ['-'] else []) = minus)
    (hdrop : t.drop minus.length = ds ++ s) (hdigits : lexInteger (ds ++ s) = some (ds, s))
    (h : EndsNumber s) (hint : int? 10 (minus ++ ds) = some n) :
    readNumber t = some (.int n, s) := by
  unfold readNumber
  rw [hminus]
  dsimp only
  rw [hdrop]
  show (lexInteger (ds ++ s)).bind _ = _
  rw [hdigits, Option.bind_some]
  dsimp only
  rw [lexFraction_eq h]
  dsimp only
  rw [lexExponent_eq h]
  show (int? 10 (minus ++ ds)).bind _ = _
  rw [hint]
  rfl

/-- **An integer is read back.** -/
theorem readNumber_format (n : Int) (h : EndsNumber s) :
    readNumber (format 10 n ++ s) = some (.int n, s) := by
  have hint := int?_format (show 1 < 10 by decide) (by decide) n
  have hdigits := lexInteger_toDigits n.natAbs h
  unfold format at hint ⊢
  split at hint
  · rename_i hneg
    rw [if_pos hneg]
    exact readNumber_eq (if_pos rfl) rfl hdigits h hint
  · rename_i hpos
    have hhead : ¬(Nat.toDigits 10 n.natAbs ++ s).head? = some '-' := by
      cases hds : Nat.toDigits 10 n.natAbs with
      | nil => exact absurd hds (by simp)
      | cons d ds =>
        have hd := isDigit_toDigits n.natAbs d (by simp [hds])
        rintro heq
        cases heq
        cases hd
    rw [if_neg hpos]
    exact readNumber_eq (if_neg hhead) rfl hdigits h hint

/-! ## Documents come back -/

mutual

/-- No floats, and no object with a key twice. -/
def Exact : Json String → Prop
  | .float _ => False
  | .arr items => ExactItems items
  | .obj fields => (fields.map Prod.fst).Nodup ∧ ExactFields fields
  | _ => True

def ExactItems : List (Json String) → Prop
  | [] => True
  | item :: items => Exact item ∧ ExactItems items

def ExactFields : List (String × Json String) → Prop
  | [] => True
  | (_, value) :: fields => Exact value ∧ ExactFields fields

end

/-- An integer begins with a digit, which may have a minus in front of it. -/
theorem format_cases (n : Int) : ∃ d ds, d.isDigit = true ∧
    (format 10 n = d :: ds ∨ format 10 n = '-' :: d :: ds) := by
  unfold format
  cases hdigits : Nat.toDigits 10 n.natAbs with
  | nil => exact absurd hdigits (by simp)
  | cons d ds =>
    refine ⟨d, ds, isDigit_toDigits n.natAbs d (by simp [hdigits]), ?_⟩
    split
    · exact .inr rfl
    · exact .inl rfl

theorem ne_of_isDigit {d : Char} (hd : d.isDigit = true) (hc : c.isDigit = false) : c ≠ d := by
  rintro rfl
  rw [hd] at hc
  cases hc

theorem readWord_format (n : Int) (s : List Char) : readWord (format 10 n ++ s) = none := by
  obtain ⟨d, ds, hd, hformat | hformat⟩ := format_cases n
  all_goals
    have hne : ∀ c ∈ ['n', 't', 'f', 'N', 'I', '-'], (c == d) = false := by
      intro c hc
      have hletter := List.all_eq_true.mp
        (show ['n', 't', 'f', 'N', 'I', '-'].all (fun c => !c.isDigit) = true from rfl) c hc
      rw [Bool.not_eq_true'] at hletter
      exact beq_eq_false_iff_ne.mpr (ne_of_isDigit hd hletter)
    simp only [List.forall_mem_cons] at hne
    rw [hformat]
    unfold readWord words
    simp [List.isPrefixOf, hne]

theorem readValue_of_head {s : List Char} (h : ∀ c ∈ s.head?, c ≠ '"' ∧ c ≠ '[' ∧ c ≠ '{')
    (fuel : Nat) : readValue (fuel + 1) s = (readWord s).or (readNumber s) := by
  unfold readValue
  split
  · exact absurd rfl (h '"' rfl).1
  · exact absurd rfl (h '[' rfl).2.1
  · exact absurd rfl (h '{' rfl).2.2
  · rfl

/-- What is written begins with no space and closes nothing. -/
theorem dumps_begins (h : Exact v) :
    ∃ c t, dumps v = c :: t ∧ isWhitespace c = false ∧ c ≠ ']' := by
  cases v with
  | null => exact ⟨_, _, rfl, by decide, by decide⟩
  | bool b => cases b <;> exact ⟨_, _, rfl, by decide, by decide⟩
  | float x => exact h.elim
  | str s => exact ⟨_, _, rfl, by decide, by decide⟩
  | arr items => exact ⟨_, _, rfl, by decide, by decide⟩
  | obj fields => exact ⟨_, _, rfl, by decide, by decide⟩
  | int n =>
    obtain ⟨d, ds, hd, hformat | hformat⟩ := format_cases n
    · refine ⟨d, ds, hformat, ?_, (ne_of_isDigit hd (by decide)).symm⟩
      have hno : d ∉ [' ', '\t', '\n', '\r'] := by
        intro hmem
        have hspace := List.all_eq_true.mp
          (show [' ', '\t', '\n', '\r'].all (fun c => !c.isDigit) = true from rfl) d hmem
        rw [Bool.not_eq_true'] at hspace
        exact ne_of_isDigit hd hspace rfl
      unfold isWhitespace
      rw [List.contains_eq_mem, decide_eq_false hno]
    · exact ⟨_, _, hformat, by decide, by decide⟩

theorem skipWhitespace_cons (h : isWhitespace c = false) (s : List Char) :
    skipWhitespace (c :: s) = c :: s :=
  List.dropWhile_cons_of_neg (by simp [h])

theorem skipWhitespace_space (s : List Char) : skipWhitespace (' ' :: s) = skipWhitespace s :=
  List.dropWhile_cons_of_pos rfl

theorem readValue_bracket {fuel : Nat} {c : Char} {s : List Char} (hspace : isWhitespace c = false)
    (hclose : c ≠ ']') : readValue (fuel + 1) ('[' :: c :: s) =
      (readItems fuel (c :: s)).map fun p => (.arr p.1, p.2) := by
  have hdef : readValue (fuel + 1) ('[' :: c :: s) =
      match skipWhitespace (c :: s) with
      | ']' :: s => some (.arr [], s)
      | s => (readItems fuel s).map fun p => (.arr p.1, p.2) := rfl
  rw [hdef, skipWhitespace_cons hspace]
  split
  · rename_i heq
    exact absurd (List.cons.inj heq).1 hclose
  · rfl

theorem readValue_brace {fuel : Nat} {c : Char} {s : List Char} (hspace : isWhitespace c = false)
    (hclose : c ≠ '}') : readValue (fuel + 1) ('{' :: c :: s) =
      (readFields fuel (c :: s)).map fun p => (.obj (Dict.ofPairs p.1).entries, p.2) := by
  have hdef : readValue (fuel + 1) ('{' :: c :: s) =
      match skipWhitespace (c :: s) with
      | '}' :: s => some (.obj [], s)
      | s => (readFields fuel s).map fun p => (.obj (Dict.ofPairs p.1).entries, p.2) := rfl
  rw [hdef, skipWhitespace_cons hspace]
  split
  · rename_i heq
    exact absurd (List.cons.inj heq).1 hclose
  · rfl

theorem skipWhitespace_dumps (h : Exact v) (s : List Char) :
    skipWhitespace (dumps v ++ s) = dumps v ++ s := by
  obtain ⟨c, t, hbegins, hspace, -⟩ := dumps_begins h
  rw [hbegins, List.cons_append, skipWhitespace_cons hspace]

/-- A field of an object, up to what follows its value. -/
theorem readFields_cons {fuel : Nat} {key : String}
    (hbegins : skipWhitespace (dumps v ++ s) = dumps v ++ s)
    (hvalue : readValue fuel (dumps v ++ s) = some (v, s)) :
    readFields (fuel + 1) (quoted key ++ ':' :: ' ' :: dumps v ++ s) =
      match skipWhitespace s with
      | '}' :: s => some ([(key, v)], s)
      | ',' :: s => (readFields fuel (skipWhitespace s)).bind fun p => some ((key, v) :: p.1, p.2)
      | _ => none := by
  rw [List.append_assoc, quoted_append]
  show (readString _ _).bind _ = _
  rw [readString_flatMap _ _ (by rw [List.length_append]; omega), Option.bind_some]
  show (readValue fuel (skipWhitespace (' ' :: (dumps v ++ s)))).bind _ = _
  rw [skipWhitespace_space, hbegins, hvalue, Option.bind_some]
  dsimp only
  rw [String.ofList_toList]
  rfl

/-- Nothing is skipped in front of a list of items. -/
theorem dumpsItems_begins {items : List (Json String)} (h : ExactItems items) (hne : items ≠ []) :
    ∃ c t, dumpsItems items = c :: t ∧ isWhitespace c = false ∧ c ≠ ']' := by
  cases items with
  | nil => exact absurd rfl hne
  | cons item items =>
    obtain ⟨c, t, hdumps, hc⟩ := dumps_begins h.1
    cases items with
    | nil => exact ⟨c, t, hdumps, hc⟩
    | cons item' items =>
      refine ⟨c, t ++ ',' :: ' ' :: dumpsItems (item' :: items), ?_, hc⟩
      show dumps item ++ _ = _
      rw [hdumps]
      rfl

theorem dumpsFields_begins {fields : List (String × Json String)} (hne : fields ≠ []) :
    ∃ t, dumpsFields fields = '"' :: t := by
  rcases fields with _ | ⟨⟨key, value⟩, _ | ⟨field, fields⟩⟩
  · exact absurd rfl hne
  · exact ⟨_, rfl⟩
  · exact ⟨_, rfl⟩

mutual

/-- **What is written is read back**, with as much fuel as there is text. -/
theorem readValue_dumps : ∀ (v : Json String) (fuel : Nat) (s : List Char), Exact v →
    (dumps v).length ≤ fuel → EndsNumber s → readValue fuel (dumps v ++ s) = some (v, s)
  | v, 0, s, hexact, hfuel, hs => by
    obtain ⟨c, t, hdumps, -⟩ := dumps_begins hexact
    rw [hdumps] at hfuel
    cases hfuel
  | .null, fuel + 1, s, _, _, _ => rfl
  | .bool true, fuel + 1, s, _, _, _ => rfl
  | .bool false, fuel + 1, s, _, _, _ => rfl
  | .float _, _ + 1, _, hexact, _, _ => hexact.elim
  | .int n, fuel + 1, s, _, _, hs => by
    show readValue (fuel + 1) (format 10 n ++ s) = _
    rw [readValue_of_head, readWord_format, readNumber_format n hs]
    · rfl
    · intro c hc
      obtain ⟨d, ds, hd, hformat | hformat⟩ := format_cases n
      · rw [hformat] at hc
        cases hc
        refine ⟨?_, ?_, ?_⟩ <;> rintro rfl <;> cases hd
      · rw [hformat] at hc
        cases hc
        decide
  | .str t, fuel + 1, s, _, _, _ => by
    show readValue (fuel + 1) (quoted t ++ s) = _
    rw [quoted_append]
    show (readString _ _).map _ = _
    rw [readString_flatMap]
    · show some (Json.str (String.ofList t.toList), s) = _
      rw [String.ofList_toList]
    · rw [List.length_append]
      omega
  | .arr items, fuel + 1, s, hexact, hfuel, _ => by
    have hlength : (dumpsItems items).length + 1 ≤ fuel := by
      have hdumps : (dumps (.arr items)).length = (dumpsItems items).length + 2 := by
        show ('[' :: dumpsItems items ++ [']']).length = _
        simp
      omega
    have htext : dumps (.arr items) ++ s = '[' :: (dumpsItems items ++ ']' :: s) := by
      show ('[' :: dumpsItems items ++ [']']) ++ s = _
      simp
    rw [htext]
    by_cases hne : items = []
    · subst hne
      rfl
    · have hread := readItems_dumps items fuel s hexact hne hlength
      obtain ⟨c, t, hbegins, hspace, hclose⟩ := dumpsItems_begins hexact hne
      rw [hbegins, List.cons_append] at hread ⊢
      rw [readValue_bracket hspace hclose, hread]
      rfl
  | .obj fields, fuel + 1, s, hexact, hfuel, _ => by
    have hlength : (dumpsFields fields).length + 1 ≤ fuel := by
      have hdumps : (dumps (.obj fields)).length = (dumpsFields fields).length + 2 := by
        show ('{' :: dumpsFields fields ++ ['}']).length = _
        simp
      omega
    have htext : dumps (.obj fields) ++ s = '{' :: (dumpsFields fields ++ '}' :: s) := by
      show ('{' :: dumpsFields fields ++ ['}']) ++ s = _
      simp
    rw [htext]
    by_cases hne : fields = []
    · subst hne
      rfl
    · have hread := readFields_dumps fields fuel s hexact.2 hne hlength
      obtain ⟨t, hbegins⟩ := dumpsFields_begins hne
      rw [hbegins, List.cons_append] at hread ⊢
      rw [readValue_brace (by decide) (by decide), hread, Option.map_some,
        Dict.entries_ofPairs hexact.1]

theorem readItems_dumps : ∀ (items : List (Json String)) (fuel : Nat) (s : List Char),
    ExactItems items → items ≠ [] → (dumpsItems items).length + 1 ≤ fuel →
      readItems fuel (dumpsItems items ++ ']' :: s) = some (items, s)
  | [], _, _, _, hne, _ => absurd rfl hne
  | _, 0, _, _, _, hfuel => by omega
  | [item], fuel + 1, s, hexact, _, hfuel => by
    have hvalue := readValue_dumps item fuel (']' :: s) hexact.1 (Nat.le_of_succ_le_succ hfuel)
      (endsNumber_cons (by decide) s)
    show (readValue fuel (dumps item ++ ']' :: s)).bind _ = _
    rw [hvalue]
    rfl
  | item :: item' :: items, fuel + 1, s, hexact, _, hfuel => by
    have hlength : (dumpsItems (item :: item' :: items)).length =
        (dumps item).length + (dumpsItems (item' :: items)).length + 2 := by
      show (dumps item ++ ',' :: ' ' :: dumpsItems (item' :: items)).length = _
      rw [List.length_append, List.length_cons, List.length_cons]
      omega
    have htext : dumpsItems (item :: item' :: items) ++ ']' :: s =
        dumps item ++ ',' :: ' ' :: (dumpsItems (item' :: items) ++ ']' :: s) := by
      show (dumps item ++ ',' :: ' ' :: dumpsItems (item' :: items)) ++ ']' :: s = _
      simp
    have hvalue := readValue_dumps item fuel
      (',' :: ' ' :: (dumpsItems (item' :: items) ++ ']' :: s)) hexact.1 (by omega)
      (endsNumber_cons (by decide) _)
    have hrest := readItems_dumps (item' :: items) fuel s hexact.2 (by simp) (by omega)
    obtain ⟨c, t, hbegins, hspace, -⟩ := dumpsItems_begins hexact.2 (by simp)
    rw [htext]
    show (readValue fuel _).bind _ = _
    rw [hvalue]
    show (readItems fuel (skipWhitespace (' ' :: _))).bind _ = _
    rw [skipWhitespace_space, hbegins, List.cons_append, skipWhitespace_cons hspace,
      ← List.cons_append, ← hbegins, hrest]
    rfl

theorem readFields_dumps : ∀ (fields : List (String × Json String)) (fuel : Nat) (s : List Char),
    ExactFields fields → fields ≠ [] → (dumpsFields fields).length + 1 ≤ fuel →
      readFields fuel (dumpsFields fields ++ '}' :: s) = some (fields, s)
  | [], _, _, _, hne, _ => absurd rfl hne
  | _, 0, _, _, _, hfuel => by omega
  | [(key, value)], fuel + 1, s, hexact, _, hfuel => by
    have hlength : (dumpsFields [(key, value)]).length =
        (quoted key).length + (dumps value).length + 2 := by
      show (quoted key ++ ':' :: ' ' :: dumps value).length = _
      rw [List.length_append, List.length_cons, List.length_cons]
      omega
    have hvalue := readValue_dumps value fuel ('}' :: s) hexact.1 (by omega)
      (endsNumber_cons (by decide) s)
    exact readFields_cons (skipWhitespace_dumps hexact.1 _) hvalue
  | (key, value) :: field :: fields, fuel + 1, s, hexact, _, hfuel => by
    have hlength : (dumpsFields ((key, value) :: field :: fields)).length =
        (quoted key).length + (dumps value).length + (dumpsFields (field :: fields)).length + 4 := by
      show (quoted key ++ ':' :: ' ' :: dumps value ++
        ',' :: ' ' :: dumpsFields (field :: fields)).length = _
      simp only [List.length_append, List.length_cons]
      omega
    have htext : dumpsFields ((key, value) :: field :: fields) ++ '}' :: s =
        quoted key ++ ':' :: ' ' :: dumps value ++
          ',' :: ' ' :: (dumpsFields (field :: fields) ++ '}' :: s) := by
      show (quoted key ++ ':' :: ' ' :: dumps value ++
        ',' :: ' ' :: dumpsFields (field :: fields)) ++ '}' :: s = _
      simp
    have hvalue := readValue_dumps value fuel
      (',' :: ' ' :: (dumpsFields (field :: fields) ++ '}' :: s)) hexact.1 (by omega)
      (endsNumber_cons (by decide) _)
    have hrest := readFields_dumps (field :: fields) fuel s hexact.2 (by simp) (by omega)
    obtain ⟨t, hbegins⟩ := dumpsFields_begins (List.cons_ne_nil field fields)
    rw [htext, readFields_cons (skipWhitespace_dumps hexact.1 _) hvalue]
    show (readFields fuel (skipWhitespace (' ' :: _))).bind _ = _
    rw [skipWhitespace_space, hbegins, List.cons_append, skipWhitespace_cons (by decide),
      ← List.cons_append, ← hbegins, hrest]
    rfl

end

/-- **A document comes back from its text.** -/
theorem loads_dumps (h : Exact v) : loads (dumps v) = some v := by
  have hread := readValue_dumps v ((dumps v).length + 1) [] h (Nat.le_succ _) (fun _ h => nomatch h)
  have hbegins := skipWhitespace_dumps h []
  rw [List.append_nil] at hread hbegins
  unfold loads
  rw [hbegins, hread]
  rfl

end LMCache.Lib.JsonText
