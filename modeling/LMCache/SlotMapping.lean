/-
# LMCache.SlotMapping — slot mappings written with ranges.

`compress_slot_mapping` writes three or more consecutive slots as a `[start, end]` range,
`decompress_slot_mapping` writes them out again, and `parse_mixed_slot_mapping` reads the notation
from a string.  The parser first removes all whitespace; commas end an integer, and a closing bracket
ends a range.

Source: `lmcache/utils.py` (`compress_slot_mapping`, `_append_range_or_elements`,
`decompress_slot_mapping`, `parse_mixed_slot_mapping`).
-/
import LMCache.Lib.PyWords
import LMCache.PyError
import Mathlib.Data.List.SplitBy

namespace LMCache

open Lib.PyStr

/-! ## Compression -/

/-- An entry of a compressed slot mapping: an integer, or a list `[start, end]`. -/
inductive SlotItem where
  | slot (i : Int)
  | range (start stop : Int)
  deriving DecidableEq, Repr

/-- `range(start, stop)`. -/
def slotRange (start stop : Int) : List Int :=
  (List.range (stop - start).toNat).map fun i : Nat => start + i

/-- `_append_range_or_elements`. -/
def appendRangeOrElements (result : List SlotItem) (start stop : Int) : List SlotItem :=
  if 3 ≤ stop - start + 1 then result ++ [.range start stop]
  else result ++ (slotRange start (stop + 1)).map .slot

/-- The loop of `compress_slot_mapping`, with its `result`, `range_start` and `range_end`. -/
def compressLoop (result : List SlotItem) (rangeStart rangeEnd : Int) :
    List Int → List SlotItem
  | [] => appendRangeOrElements result rangeStart rangeEnd
  | slot :: slots =>
    if slot = rangeEnd + 1 then compressLoop result rangeStart slot slots
    else compressLoop (appendRangeOrElements result rangeStart rangeEnd) slot slot slots

/-- `compress_slot_mapping`. -/
def compressSlotMapping : List Int → List SlotItem
  | [] => []
  | slot :: slots => compressLoop [] slot slot slots

/-- What `decompress_slot_mapping` adds for an item. -/
def SlotItem.slots : SlotItem → List Int
  | .slot i => [i]
  | .range start stop => slotRange start (stop + 1)

/-- `decompress_slot_mapping`. -/
def decompressSlotMapping (compressed : List SlotItem) : List Int := compressed.flatMap SlotItem.slots

/-! ## Parsing -/

/-- The locals of the loop over the characters. -/
structure SplitState where
  parts : List (List Char)
  buffer : List Char
  inBrackets : Bool
  deriving DecidableEq, Repr

/-- One character of the loop. -/
def splitStep (st : SplitState) (char : Char) : Except PyError SplitState :=
  if char = '[' then
    if st.inBrackets then .error (.valueError "Nested brackets not allowed")
    else .ok { st with buffer := st.buffer ++ [char], inBrackets := true }
  else if char = ']' then
    if st.inBrackets then .ok ⟨st.parts ++ [st.buffer ++ [char]], [], false⟩
    else .error (.valueError "Unmatched closing bracket")
  else if char = ',' ∧ st.inBrackets = false then
    if st.buffer = [] then .ok st else .ok { st with parts := st.parts ++ [st.buffer], buffer := [] }
  else .ok { st with buffer := st.buffer ++ [char] }

/-- What is left to do behind the last character. -/
def splitEnd (st : SplitState) : Except PyError (List (List Char)) :=
  if st.inBrackets then .error (.valueError "Unclosed bracket")
  else .ok (if st.buffer = [] then st.parts else st.parts ++ [st.buffer])

/-- The loop over the characters. -/
def splitLoop (st : SplitState) : List Char → Except PyError (List (List Char))
  | [] => splitEnd st
  | char :: s => do
    let st ← splitStep st char
    splitLoop st s

/-- `\d+` -/
def isDecimals (s : List Char) : Bool := !s.isEmpty && s.all fun c => (decimal? c).isSome

/-- `re.match(r"^\[(\d+),(\d+)\]$", part)`: the two groups.  A `$` matches in front of a last line
break, too. -/
def rangeMatch : List Char → Option (List Char × List Char)
  | '[' :: s => do
    let (a, s) ← cut ',' s
    let (b, s) ← cut ']' s
    if isDecimals a && isDecimals b && (s = [] || s = ['\n']) then some (a, b) else none
  | _ => none

/-- `int(s)`. -/
def pyInt (s : List Char) : Except PyError Int :=
  match int? 10 s with
  | some i => .ok i
  | none => .error (.valueError s!"invalid literal for int() with base 10: '{String.ofList s}'")

/-- The body of the loop over the parts, for a part that is not empty. -/
def parsePart (part : List Char) : Except PyError SlotItem :=
  match rangeMatch part with
  | some (a, b) => do
    let start ← pyInt a
    let stop ← pyInt b
    if start > stop then
      .error (.valueError s!"Range start {start} must be <= end {stop}")
    else .ok (.range start stop)
  | none =>
    match pyInt part with
    | .ok num => .ok (.slot num)
    | .error _ => .error (.valueError s!"Invalid slot format: '{String.ofList part}'")

/-- The loop over the parts. -/
def parseParts : List (List Char) → Except PyError (List SlotItem)
  | [] => .ok []
  | part :: parts =>
    if strip part = [] then parseParts parts
    else do
      let item ← parsePart (strip part)
      let items ← parseParts parts
      .ok (item :: items)

/-- The error dictionary. -/
structure SlotError where
  error : String
  message : String
  deriving DecidableEq, Repr

/-- The body of the `try`. -/
def readSlotMapping (slotMappingStr : List Char) : Except PyError (List Int) := do
  let parts ← splitLoop ⟨[], [], false⟩ (words slotMappingStr).flatten
  let compressed ← parseParts parts
  .ok (decompressSlotMapping compressed)

/-- The dictionary made of an exception. -/
def slotError (e : PyError) : SlotError where
  error := "Invalid slot_mapping format"
  message := s!"slot_mapping must be comma-separated integers or ranges like [start,end]: {e.message}"

/-- `parse_mixed_slot_mapping`. -/
def parseMixedSlotMapping (slotMappingStr : List Char) : Option (List Int) × Option SlotError :=
  match readSlotMapping slotMappingStr with
  | .ok slotIndices => (some slotIndices, none)
  | .error e => (none, some (slotError e))

/-! ## Runs of slots -/

/-- The pieces of a list of slots: every piece ascends by ones, and no piece goes on in the next. -/
structure MaximalRuns (slots : List Int) (runs : List (List Int)) : Prop where
  joined : runs.flatten = slots
  nonempty : [] ∉ runs
  ascending : ∀ run ∈ runs, run.IsChain fun a b => b = a + 1
  maximal : runs.IsChain fun run next => ∃ hr hn, next.head hn ≠ run.getLast hr + 1

/-- How a run is written: as a range from three slots on. -/
def runItems (run : List Int) : List SlotItem :=
  if 3 ≤ run.length then [.range (run.headD 0) (run.getLastD 0)] else run.map .slot

/-- The relation that holds inside of a run. -/
def follows (a b : Int) : Bool := b == a + 1

theorem maximalRuns_splitBy (slots : List Int) : MaximalRuns slots (slots.splitBy follows) where
  joined := List.flatten_splitBy follows slots
  nonempty := List.nil_notMem_splitBy follows slots
  ascending := by
    intro run hrun
    refine (List.isChain_of_mem_splitBy hrun).imp fun a b h => ?_
    simpa [follows] using h
  maximal := by
    refine (List.isChain_getLast_head_splitBy follows slots).imp fun run next h => ?_
    obtain ⟨hr, hn, hne⟩ := h
    refine ⟨hr, hn, ?_⟩
    simpa [follows] using hne

@[simp] theorem length_slotRange (start stop : Int) :
    (slotRange start stop).length = (stop - start).toNat := by
  simp [slotRange]

variable {rangeEnd rangeStart start stop : Int} {items result : List SlotItem} {slots : List Int}
  {s w : List Char}

theorem slotRange_cons (h : start < stop) :
    slotRange start stop = start :: slotRange (start + 1) stop := by
  have hlength : (stop - start).toNat = (stop - (start + 1)).toNat + 1 := by omega
  unfold slotRange
  rw [hlength, List.range_succ_eq_map, List.map_cons, List.map_map]
  simp only [Int.natCast_zero, Int.add_zero, List.cons.injEq, true_and]
  refine List.map_congr_left fun i _ => ?_
  simp only [Function.comp_apply, Nat.succ_eq_add_one]
  omega

theorem slotRange_succ_right (h : start ≤ stop) :
    slotRange start (stop + 1) = slotRange start stop ++ [stop] := by
  have hlength : (stop + 1 - start).toNat = (stop - start).toNat + 1 := by omega
  unfold slotRange
  rw [hlength, List.range_succ, List.map_append, List.map_singleton]
  congr 2
  omega

theorem slotRange_singleton (i : Int) : slotRange i (i + 1) = [i] := by
  simp [slotRange]

/-- A run is appended the way it is written. -/
theorem appendRangeOrElements_eq (h : start ≤ stop) (result : List SlotItem) :
    appendRangeOrElements result start stop =
      result ++ runItems (slotRange start (stop + 1)) := by
  have hhead : (slotRange start (stop + 1)).headD 0 = start := by
    rw [slotRange_cons (by omega)]
    rfl
  have hlast : (slotRange start (stop + 1)).getLastD 0 = stop := by
    rw [slotRange_succ_right h, List.getLastD_concat]
  unfold appendRangeOrElements runItems
  rw [length_slotRange, hhead, hlast]
  split
  · rw [if_pos (by omega)]
  · rw [if_neg (by omega)]

/-- The loop writes out one run after the other.  The group that the splitting has open is what the
loop knows by its two ends. -/
theorem compressLoop_eq {group : List Int} {groups : List (List Int)} (hle : rangeStart ≤ rangeEnd)
    (hgroup : (rangeEnd :: group).reverse = slotRange rangeStart (rangeEnd + 1))
    (hgroups : result = groups.reverse.flatMap runItems) :
    compressLoop result rangeStart rangeEnd slots =
      (List.splitBy.loop follows slots rangeEnd group groups).flatMap runItems := by
  induction slots generalizing result rangeStart rangeEnd group groups with
  | nil =>
    simp only [compressLoop, List.splitBy.loop]
    rw [appendRangeOrElements_eq hle, hgroup, hgroups, List.reverse_cons, List.flatMap_append,
      List.flatMap_singleton]
  | cons slot slots ih =>
    simp only [compressLoop, List.splitBy.loop]
    by_cases hslot : slot = rangeEnd + 1
    · -- the run goes on
      have hfollows : follows rangeEnd slot = true := by simp [follows, hslot]
      rw [if_pos hslot, hfollows]
      refine ih (by omega) ?_ hgroups
      rw [List.reverse_cons, hgroup, hslot, ← slotRange_succ_right (by omega)]
    · have hfollows : follows rangeEnd slot = false := by simp [follows, hslot]
      rw [if_neg hslot, hfollows]
      refine ih le_rfl ?_ ?_
      · rw [slotRange_singleton, List.reverse_singleton]
      · rw [appendRangeOrElements_eq hle, hgroups, ← hgroup, @List.reverse_cons _ _ groups,
          List.flatMap_append, List.flatMap_singleton]

/-- **Ranges are used exactly for maximal ascending runs of three or more.** -/
theorem compressSlotMapping_eq (slots : List Int) :
    compressSlotMapping slots = (slots.splitBy follows).flatMap runItems := by
  cases slots with
  | nil => rfl
  | cons slot slots =>
    refine compressLoop_eq le_rfl ?_ rfl
    rw [slotRange_singleton, List.reverse_singleton]

/-! ## Decompression -/

@[simp] theorem decompressSlotMapping_append (l r : List SlotItem) :
    decompressSlotMapping (l ++ r) = decompressSlotMapping l ++ decompressSlotMapping r :=
  List.flatMap_append

theorem decompressSlotMapping_map_slot (l : List Int) :
    decompressSlotMapping (l.map .slot) = l := by
  unfold decompressSlotMapping
  rw [List.flatMap_map]
  exact List.flatMap_singleton' l

theorem decompressSlotMapping_appendRangeOrElements (result : List SlotItem) (start stop : Int) :
    decompressSlotMapping (appendRangeOrElements result start stop) =
      decompressSlotMapping result ++ slotRange start (stop + 1) := by
  unfold appendRangeOrElements
  split
  · rw [decompressSlotMapping_append]
    simp [decompressSlotMapping, SlotItem.slots]
  · rw [decompressSlotMapping_append, decompressSlotMapping_map_slot]

theorem decompressSlotMapping_compressLoop (hle : rangeStart ≤ rangeEnd) :
    decompressSlotMapping (compressLoop result rangeStart rangeEnd slots) =
      decompressSlotMapping result ++ slotRange rangeStart (rangeEnd + 1) ++ slots := by
  induction slots generalizing result rangeStart rangeEnd with
  | nil => rw [compressLoop, decompressSlotMapping_appendRangeOrElements, List.append_nil]
  | cons slot slots ih =>
    unfold compressLoop
    split
    · rename_i hslot
      rw [ih (by omega), slotRange_succ_right (by omega), hslot]
      simp only [List.append_assoc, List.singleton_append]
    · rw [ih le_rfl, decompressSlotMapping_appendRangeOrElements, slotRange_singleton]
      simp only [List.append_assoc, List.singleton_append]

/-- **Decompression is the inverse of compression.** -/
theorem decompress_compress (slots : List Int) :
    decompressSlotMapping (compressSlotMapping slots) = slots := by
  cases slots with
  | nil => rfl
  | cons slot slots =>
    unfold compressSlotMapping
    rw [decompressSlotMapping_compressLoop le_rfl, slotRange_singleton]
    rfl

/-! ## The notation -/

/-- A text with none of the characters that the parser acts on. -/
def Plain (s : List Char) : Prop := ',' ∉ s ∧ '[' ∉ s ∧ ']' ∉ s

/-- A range: two numbers in brackets, in order. -/
structure RangeText (text : List Char) (start stop : Int) : Prop where
  ordered : start ≤ stop
  numbers : ∃ a b, text = '[' :: (a ++ ',' :: (b ++ [']'])) ∧
    isDecimals a = true ∧ isDecimals b = true ∧ int? 10 a = some start ∧ int? 10 b = some stop

/-- Nothing follows, or a comma. -/
def AtComma (s : List Char) : Prop := s = [] ∨ ∃ t, s = ',' :: t

/-- A text without whitespace that lists these items.  Commas may stand twice and at both ends, and an
integer has one behind it if anything follows; with `seams`, a range needs none. -/
inductive Lists (seams : Bool) : List Char → List SlotItem → Prop
  | nil : Lists seams [] []
  | comma {s : List Char} {items : List SlotItem} :
      Lists seams s items → Lists seams (',' :: s) items
  | slot {w s : List Char} {i : Int} {items : List SlotItem} :
      int? 10 w = some i → AtComma s → Lists seams s items → Lists seams (w ++ s) (.slot i :: items)
  | range {text s : List Char} {start stop : Int} {items : List SlotItem} :
      RangeText text start stop → seams = true ∨ AtComma s → Lists seams s items →
      Lists seams (text ++ s) (.range start stop :: items)

/-- Without the commas that may be missing, there is less to list. -/
theorem Lists.seams {b : Bool} (h : Lists b s items) : Lists true s items := by
  induction h with
  | nil => exact .nil
  | comma _ ih => exact .comma ih
  | slot hi hs _ ih => exact .slot hi hs ih
  | range hr _ _ ih => exact .range hr (.inl rfl) ih

theorem plain_of_int? {i : Int} (h : int? 10 w = some i) : Plain w := by
  have hnot : ∀ c : Char, isSpace c = false → digit? c = none → c ≠ '-' ∧ c ≠ '+' ∧ c ≠ '_' →
      c ∉ w := by
    intro c hspace hdigit hsign hc
    rw [int?_eq_none_of_mem hspace hdigit hsign hc] at h
    cases h
  exact ⟨hnot _ (by decide) (by decide) (by decide), hnot _ (by decide) (by decide) (by decide),
    hnot _ (by decide) (by decide) (by decide)⟩

theorem plain_of_isDecimals (h : isDecimals s = true) : Plain s := by
  have hall : ∀ c ∈ s, (decimal? c).isSome = true := by
    unfold isDecimals at h
    rw [Bool.and_eq_true, List.all_eq_true] at h
    exact h.2
  refine ⟨fun hc => ?_, fun hc => ?_, fun hc => ?_⟩ <;>
    exact absurd (hall _ hc) (by decide)

/-! ## One part -/

theorem pyInt_eq_ok {i : Int} : pyInt s = .ok i ↔ int? 10 s = some i := by
  unfold pyInt
  cases int? 10 s <;> simp

/-- A range has only one way to be taken apart. -/
theorem rangeMatch_eq_some {part a b : List Char} (hpart : ∀ c ∈ part, isSpace c = false) :
    rangeMatch part = some (a, b) ↔
      part = '[' :: (a ++ ',' :: (b ++ [']'])) ∧ isDecimals a = true ∧ isDecimals b = true := by
  constructor
  · intro h
    unfold rangeMatch at h
    split at h
    · rename_i s
      obtain ⟨⟨a', s'⟩, hcut, hrest⟩ := Option.bind_eq_some_iff.mp h
      obtain ⟨⟨b', t⟩, hcut', hend⟩ := Option.bind_eq_some_iff.mp hrest
      obtain ⟨rfl, -⟩ := cut_eq_some.mp hcut
      obtain ⟨rfl, -⟩ := cut_eq_some.mp hcut'
      dsimp only at hend
      split at hend
      · rename_i hcond
        cases hend
        simp only [Bool.and_eq_true, Bool.or_eq_true, decide_eq_true_eq] at hcond
        obtain ⟨⟨ha, hb⟩, rfl | rfl⟩ := hcond
        · exact ⟨rfl, ha, hb⟩
        · exact absurd (hpart '\n' (by simp)) (by decide)
      · cases hend
    · cases h
  · rintro ⟨rfl, ha, hb⟩
    have hcut : cut ',' (a ++ ',' :: (b ++ [']'])) = some (a, b ++ [']']) :=
      cut_eq_some.mpr ⟨rfl, (plain_of_isDecimals ha).1⟩
    have hcut' : cut ']' (b ++ [']']) = some (b, []) :=
      cut_eq_some.mpr ⟨rfl, (plain_of_isDecimals hb).2.2⟩
    simp [rangeMatch, hcut, hcut', ha, hb]

theorem parsePart_plain {part : List Char} (hbracket : '[' ∉ part) {item : SlotItem} :
    parsePart part = .ok item ↔ ∃ i, item = .slot i ∧ int? 10 part = some i := by
  have hmatch : rangeMatch part = none := by
    unfold rangeMatch
    split
    · exact absurd List.mem_cons_self hbracket
    · rfl
  unfold parsePart pyInt
  rw [hmatch]
  cases int? 10 part with
  | none => simp
  | some i => simp [eq_comm]

theorem parsePart_bracket {part : List Char} (hpart : ∀ c ∈ part, isSpace c = false)
    (hbracket : '[' ∈ part) {item : SlotItem} :
    parsePart part = .ok item ↔
      ∃ start stop, item = .range start stop ∧ RangeText part start stop := by
  have hnone : pyInt part = .error (.valueError
      s!"invalid literal for int() with base 10: '{String.ofList part}'") := by
    unfold pyInt
    rw [int?_eq_none_of_mem (by decide) (by decide) (by decide) hbracket]
  unfold parsePart
  constructor
  · intro h
    split at h
    · rename_i a b hmatch
      obtain ⟨rfl, ha, hb⟩ := (rangeMatch_eq_some hpart).mp hmatch
      obtain ⟨start, hstart, h⟩ := bind_eq_ok.mp h
      obtain ⟨stop, hstop, h⟩ := bind_eq_ok.mp h
      split at h
      · cases h
      · rename_i hle
        cases h
        exact ⟨start, stop, rfl, not_lt.mp hle,
          a, b, rfl, ha, hb, pyInt_eq_ok.mp hstart, pyInt_eq_ok.mp hstop⟩
    · rw [hnone] at h
      cases h
  · rintro ⟨start, stop, rfl, hle, a, b, htext, ha, hb, hstart, hstop⟩
    have hmatch : rangeMatch part = some (a, b) := (rangeMatch_eq_some hpart).mpr ⟨htext, ha, hb⟩
    rw [hmatch]
    refine bind_eq_ok.mpr ⟨start, pyInt_eq_ok.mpr hstart, ?_⟩
    refine bind_eq_ok.mpr ⟨stop, pyInt_eq_ok.mpr hstop, ?_⟩
    rw [if_neg (not_lt.mpr hle)]

/-! ## The parts of a text -/

theorem parseParts_cons (part : List Char) (parts : List (List Char)) :
    parseParts (part :: parts) =
      if strip part = [] then parseParts parts
      else parsePart (strip part) >>= fun item =>
        parseParts parts >>= fun items => .ok (item :: items) := rfl

theorem parseParts_append_eq_ok {l r : List (List Char)} :
    parseParts (l ++ r) = .ok items ↔
      ∃ front back, items = front ++ back ∧ parseParts l = .ok front ∧ parseParts r = .ok back := by
  induction l generalizing items with
  | nil => simp [parseParts]
  | cons part l ih =>
    rw [List.cons_append, parseParts_cons, parseParts_cons]
    split
    · exact ih
    · rw [bind_eq_ok]
      constructor
      · rintro ⟨item, hitem, h⟩
        obtain ⟨rest, hrest, h⟩ := bind_eq_ok.mp h
        cases h
        obtain ⟨front, back, rfl, hfront, hback⟩ := ih.mp hrest
        exact ⟨item :: front, back, rfl,
          bind_eq_ok.mpr ⟨item, hitem, bind_eq_ok.mpr ⟨front, hfront, rfl⟩⟩, hback⟩
      · rintro ⟨front, back, rfl, hfront, hback⟩
        obtain ⟨item, hitem, h⟩ := bind_eq_ok.mp hfront
        obtain ⟨rest, hrest, h⟩ := bind_eq_ok.mp h
        cases h
        exact ⟨item, hitem, bind_eq_ok.mpr ⟨rest ++ back, ih.mpr ⟨rest, back, rfl, hrest, hback⟩, rfl⟩⟩

/-- A part without whitespace is parsed as it is. -/
theorem parseParts_singleton {part : List Char} (hne : part ≠ [])
    (hpart : ∀ c ∈ part, isSpace c = false) :
    parseParts [part] = .ok items ↔ ∃ item, items = [item] ∧ parsePart part = .ok item := by
  rw [parseParts_cons, strip_eq_self hpart, if_neg hne, bind_eq_ok]
  constructor
  · rintro ⟨item, hitem, h⟩
    cases h
    exact ⟨item, rfl, hitem⟩
  · rintro ⟨item, rfl, hitem⟩
    exact ⟨item, hitem, rfl⟩

/-! ## What is read lists its items -/

theorem splitLoop_cons_eq_ok {st : SplitState} {c : Char} {parts : List (List Char)} :
    splitLoop st (c :: s) = .ok parts ↔
      ∃ next, splitStep st c = .ok next ∧ splitLoop next s = .ok parts :=
  bind_eq_ok

/-- What one character does to the locals. -/
theorem splitStep_cases {st next : SplitState} {c : Char} (h : splitStep st c = .ok next) :
    (c = '[' ∧ st.inBrackets = false ∧ next = ⟨st.parts, st.buffer ++ [c], true⟩) ∨
    (c = ']' ∧ st.inBrackets = true ∧ next = ⟨st.parts ++ [st.buffer ++ [c]], [], false⟩) ∨
    (c = ',' ∧ st.inBrackets = false ∧ st.buffer = [] ∧ next = st) ∨
    (c = ',' ∧ st.inBrackets = false ∧ st.buffer ≠ [] ∧
      next = ⟨st.parts ++ [st.buffer], [], false⟩) ∨
    (c ≠ '[' ∧ (c = ',' → st.inBrackets = true) ∧
      next = ⟨st.parts, st.buffer ++ [c], st.inBrackets⟩) := by
  obtain ⟨parts, buffer, inBrackets⟩ := st
  unfold splitStep at h
  split at h
  · cases inBrackets with
    | false => cases h; exact .inl ⟨‹_›, rfl, rfl⟩
    | true => cases h
  · split at h
    · cases inBrackets with
      | false => cases h
      | true => cases h; exact .inr (.inl ⟨‹_›, rfl, rfl⟩)
    · split at h
      · rename_i hcomma
        obtain ⟨hc, hout⟩ := hcomma
        split at h
        · cases h
          exact .inr (.inr (.inl ⟨hc, hout, ‹_›, rfl⟩))
        · cases h
          refine .inr (.inr (.inr (.inl ⟨hc, hout, ‹_›, ?_⟩)))
          rw [← hout]
      · rename_i hopen _ hcomma
        cases h
        refine .inr (.inr (.inr (.inr ⟨hopen, fun hc => ?_, rfl⟩)))
        simpa using fun hout => hcomma ⟨hc, hout⟩

/-- **Whatever the parser reads lists the items it reads.**  A bracket is in the buffer as long as it
is open. -/
theorem lists_of_splitLoop (st : SplitState) {s : List Char} {parts : List (List Char)}
    {items : List SlotItem} (hspace : ∀ c ∈ st.buffer ++ s, isSpace c = false)
    (hbuffer : '[' ∈ st.buffer ↔ st.inBrackets = true) (hsplit : splitLoop st s = .ok parts)
    (hparse : parseParts parts = .ok items) :
    ∃ front back, items = front ++ back ∧ parseParts st.parts = .ok front ∧
      Lists true (st.buffer ++ s) back := by
  induction s generalizing st items with
  | nil =>
    unfold splitLoop splitEnd at hsplit
    split at hsplit
    · cases hsplit
    · rename_i hout
      rw [List.append_nil] at hspace ⊢
      have hopen : '[' ∉ st.buffer := fun h => hout (hbuffer.mp h)
      split at hsplit
      · rename_i hempty
        cases hsplit
        rw [hempty]
        exact ⟨items, [], (List.append_nil _).symm, hparse, .nil⟩
      · rename_i hne
        cases hsplit
        obtain ⟨front, back, rfl, hfront, hback⟩ := parseParts_append_eq_ok.mp hparse
        obtain ⟨item, rfl, hitem⟩ := (parseParts_singleton hne hspace).mp hback
        obtain ⟨i, rfl, hi⟩ := (parsePart_plain hopen).mp hitem
        refine ⟨front, _, rfl, hfront, ?_⟩
        rw [← List.append_nil st.buffer]
        exact .slot hi (.inl rfl) .nil
  | cons c s ih =>
    obtain ⟨next, hstep, hrest⟩ := splitLoop_cons_eq_ok.mp hsplit
    have htail : ∀ x ∈ s, isSpace x = false := fun x hx =>
      hspace x (List.mem_append_right _ (List.mem_cons_of_mem c hx))
    rcases splitStep_cases hstep with ⟨rfl, hout, rfl⟩ | ⟨rfl, hin, rfl⟩ | ⟨rfl, hout, hempty, hnext⟩ |
      ⟨rfl, hout, hne, rfl⟩ | ⟨hopen, -, rfl⟩
    · -- a bracket opens
      rw [List.append_cons]
      rw [List.append_cons] at hspace
      exact ih ⟨st.parts, st.buffer ++ ['['], true⟩ hspace (by simp) hrest hparse
    · -- a bracket closes: what was buffered is a part
      have hspaces := hspace
      rw [List.append_cons] at hspaces ⊢
      have hpart : ∀ c ∈ st.buffer ++ [']'], isSpace c = false := fun c hc =>
        hspaces c (List.mem_append_left _ hc)
      obtain ⟨front, back, rfl, hfront, hback⟩ :=
        ih ⟨st.parts ++ [st.buffer ++ [']']], [], false⟩
          (fun c hc => hspaces c (List.mem_append_right _ hc)) (by simp) hrest hparse
      obtain ⟨first, last, rfl, hfirst, hlast⟩ := parseParts_append_eq_ok.mp hfront
      obtain ⟨item, rfl, hitem⟩ := (parseParts_singleton (by simp) hpart).mp hlast
      have hbracket : '[' ∈ st.buffer ++ [']'] := List.mem_append_left _ (hbuffer.mpr hin)
      obtain ⟨start, stop, rfl, htext⟩ := (parsePart_bracket hpart hbracket).mp hitem
      refine ⟨first, .range start stop :: back, ?_, hfirst, .range htext (.inl rfl) hback⟩
      rw [List.append_assoc, List.singleton_append]
    · -- a comma with nothing in front of it
      rw [hnext] at hrest
      obtain ⟨front, back, rfl, hfront, hback⟩ :=
        ih st (by simpa [hempty] using htail) hbuffer hrest hparse
      rw [hempty] at hback ⊢
      exact ⟨front, back, rfl, hfront, .comma hback⟩
    · -- a comma behind an integer
      have hpart : ∀ c ∈ st.buffer, isSpace c = false := fun c hc =>
        hspace c (List.mem_append_left _ hc)
      obtain ⟨front, back, rfl, hfront, hback⟩ :=
        ih ⟨st.parts ++ [st.buffer], [], false⟩ (by simpa using htail)
          (by simp) hrest hparse
      obtain ⟨first, last, rfl, hfirst, hlast⟩ := parseParts_append_eq_ok.mp hfront
      obtain ⟨item, rfl, hitem⟩ := (parseParts_singleton hne hpart).mp hlast
      have hopen : '[' ∉ st.buffer := fun h => by simp [hbuffer.mp h] at hout
      obtain ⟨i, rfl, hi⟩ := (parsePart_plain hopen).mp hitem
      refine ⟨first, .slot i :: back, ?_, hfirst, .slot hi (.inr ⟨s, rfl⟩) (.comma hback)⟩
      rw [List.append_assoc, List.singleton_append]
    · -- any other character is buffered
      rw [List.append_cons] at hspace ⊢
      refine ih ⟨st.parts, st.buffer ++ [c], st.inBrackets⟩ hspace ?_ hrest hparse
      rw [List.mem_append, List.mem_singleton, or_iff_left (Ne.symm hopen)]
      exact hbuffer

/-! ## What lists items is read -/

/-- Outside of brackets, a text without commas and brackets is buffered. -/
theorem splitLoop_plain (hw : Plain w) (parts : List (List Char)) (buffer s : List Char) :
    splitLoop ⟨parts, buffer, false⟩ (w ++ s) = splitLoop ⟨parts, buffer ++ w, false⟩ s := by
  induction w generalizing buffer with
  | nil => rw [List.nil_append, List.append_nil]
  | cons c w ih =>
    obtain ⟨hcomma, hopen, hclose⟩ := hw
    simp only [List.mem_cons, not_or] at hcomma hopen hclose
    have hstep : splitStep ⟨parts, buffer, false⟩ c = .ok ⟨parts, buffer ++ [c], false⟩ := by
      simp [splitStep, Ne.symm hcomma.1, Ne.symm hopen.1, Ne.symm hclose.1]
    show (splitStep ⟨parts, buffer, false⟩ c >>= fun st => splitLoop st (w ++ s)) = _
    rw [hstep, List.append_cons buffer c w]
    exact ih ⟨hcomma.2, hopen.2, hclose.2⟩ (buffer ++ [c])

/-- Inside of brackets, everything is buffered but brackets. -/
theorem splitLoop_inside {w : List Char} (hopen : '[' ∉ w) (hclose : ']' ∉ w)
    (parts : List (List Char)) (buffer s : List Char) :
    splitLoop ⟨parts, buffer, true⟩ (w ++ s) = splitLoop ⟨parts, buffer ++ w, true⟩ s := by
  induction w generalizing buffer with
  | nil => rw [List.nil_append, List.append_nil]
  | cons c w ih =>
    simp only [List.mem_cons, not_or] at hopen hclose
    have hstep : splitStep ⟨parts, buffer, true⟩ c = .ok ⟨parts, buffer ++ [c], true⟩ := by
      simp [splitStep, Ne.symm hopen.1, Ne.symm hclose.1]
    show (splitStep ⟨parts, buffer, true⟩ c >>= fun st => splitLoop st (w ++ s)) = _
    rw [hstep, List.append_cons buffer c w]
    exact ih hopen.2 hclose.2 (buffer ++ [c])

/-- A range is a part of its own. -/
theorem splitLoop_rangeText {text : List Char} (h : RangeText text start stop)
    (parts : List (List Char)) (s : List Char) :
    splitLoop ⟨parts, [], false⟩ (text ++ s) = splitLoop ⟨parts ++ [text], [], false⟩ s := by
  obtain ⟨-, a, b, rfl, ha, hb, -, -⟩ := h
  have hinside : ∀ w : List Char, w = a ++ ',' :: b → '[' ∉ w ∧ ']' ∉ w := by
    rintro w rfl
    have ha := plain_of_isDecimals ha
    have hb := plain_of_isDecimals hb
    simp [ha.2.1, ha.2.2, hb.2.1, hb.2.2]
  obtain ⟨hopen, hclose⟩ := hinside _ rfl
  have htext : '[' :: (a ++ ',' :: (b ++ [']'])) ++ s =
      '[' :: ((a ++ ',' :: b) ++ (']' :: s)) := by simp
  have hpart : '[' :: (a ++ ',' :: (b ++ [']'])) = ['['] ++ (a ++ ',' :: b) ++ [']'] := by simp
  rw [htext, hpart]
  show splitLoop ⟨parts, ['['], true⟩ ((a ++ ',' :: b) ++ (']' :: s)) = _
  rw [splitLoop_inside hopen hclose]
  rfl

/-- A comma behind a part ends it; behind an ended part it does nothing. -/
theorem splitLoop_atComma (hw : w ≠ []) (hs : AtComma s) (parts : List (List Char)) :
    splitLoop ⟨parts, w, false⟩ s = splitLoop ⟨parts ++ [w], [], false⟩ s := by
  rcases hs with rfl | ⟨t, rfl⟩
  · simp [splitLoop, splitEnd, hw]
  · simp [splitLoop, splitStep, hw]

/-- **Whatever lists items is read.** -/
theorem Lists.splitLoop {seams : Bool} (h : Lists seams s items)
    (hspace : ∀ c ∈ s, isSpace c = false) (parts : List (List Char)) :
    ∃ more, splitLoop ⟨parts, [], false⟩ s = .ok (parts ++ more) ∧ parseParts more = .ok items := by
  induction h generalizing parts with
  | nil => exact ⟨[], by simp [LMCache.splitLoop, splitEnd], rfl⟩
  | comma _ ih =>
    rw [List.forall_mem_cons] at hspace
    exact ih hspace.2 parts
  | @slot w s i items hi hs _ ih =>
    rw [List.forall_mem_append] at hspace
    have hne : w ≠ [] := by
      rintro rfl
      rw [int?_nil] at hi
      cases hi
    have hplain := plain_of_int? hi
    obtain ⟨more, hsplit, hmore⟩ := ih hspace.2 (parts ++ [w])
    refine ⟨w :: more, ?_, ?_⟩
    · rw [splitLoop_plain hplain, List.nil_append, splitLoop_atComma hne hs, hsplit,
        List.append_assoc, List.singleton_append]
    · refine parseParts_append_eq_ok (l := [w]) |>.mpr ⟨[.slot i], items, rfl, ?_, hmore⟩
      exact (parseParts_singleton hne hspace.1).mpr
        ⟨_, rfl, (parsePart_plain hplain.2.1).mpr ⟨i, rfl, hi⟩⟩
  | @range text s start stop items htext _ _ ih =>
    rw [List.forall_mem_append] at hspace
    have hbracket : '[' ∈ text := by
      obtain ⟨a, b, rfl, -⟩ := htext.numbers
      exact List.mem_cons_self
    obtain ⟨more, hsplit, hmore⟩ := ih hspace.2 (parts ++ [text])
    refine ⟨text :: more, ?_, ?_⟩
    · rw [splitLoop_rangeText htext, hsplit, List.append_assoc, List.singleton_append]
    · refine parseParts_append_eq_ok (l := [text]) |>.mpr
        ⟨[.range start stop], items, rfl, ?_, hmore⟩
      exact (parseParts_singleton (List.ne_nil_of_mem hbracket) hspace.1).mpr
        ⟨_, rfl, (parsePart_bracket hspace.1 hbracket).mpr ⟨start, stop, rfl, htext⟩⟩

/-- A string without its whitespace. -/
def clean (s : List Char) : List Char := s.filter fun c => !isSpace c

theorem isSpace_of_mem_clean : ∀ c ∈ clean s, isSpace c = false := by
  intro c hc
  simpa using (List.mem_filter.mp hc).2

/-- **The language of the parser**: the strings that list items when whitespace is taken out. -/
theorem readSlotMapping_eq_ok :
    readSlotMapping s = .ok slots ↔
      ∃ items, Lists true (clean s) items ∧ decompressSlotMapping items = slots := by
  unfold readSlotMapping
  rw [flatten_words]
  constructor
  · intro h
    obtain ⟨parts, hsplit, h⟩ := bind_eq_ok.mp h
    obtain ⟨items, hparse, h⟩ := bind_eq_ok.mp h
    cases h
    obtain ⟨front, back, rfl, hfront, hback⟩ :=
      lists_of_splitLoop ⟨[], [], false⟩ isSpace_of_mem_clean (by simp) hsplit hparse
    cases hfront
    exact ⟨back, hback, rfl⟩
  · rintro ⟨items, hlists, rfl⟩
    obtain ⟨parts, hsplit, hparse⟩ := hlists.splitLoop isSpace_of_mem_clean []
    exact bind_eq_ok.mpr ⟨parts, hsplit, bind_eq_ok.mpr ⟨items, hparse, rfl⟩⟩

/-! ## Rendering -/

/-- `str` of an item. -/
def SlotItem.render : SlotItem → List Char
  | .slot i => format 10 i
  | .range start stop => '[' :: (format 10 start ++ ',' :: (format 10 stop ++ [']']))

/-- The items, with commas between them. -/
def renderSlotMapping (items : List SlotItem) : List Char :=
  [','].intercalate (items.map SlotItem.render)

/-- A range that the parser has a notation for. -/
def SlotItem.Renderable : SlotItem → Prop
  | .slot _ => True
  | .range start stop => 0 ≤ start ∧ start ≤ stop

theorem isDecimals_format {i : Int} (h : 0 ≤ i) : isDecimals (format 10 i) = true := by
  unfold format isDecimals
  rw [if_neg (not_lt.mpr h), Bool.and_eq_true, List.all_eq_true]
  refine ⟨?_, fun c hc => isSome_decimal?_of_mem_toDigits hc⟩
  simp [Nat.toDigits_ne_nil]

theorem rangeText_render (h : (SlotItem.range start stop).Renderable) :
    RangeText (SlotItem.range start stop).render start stop where
  ordered := h.2
  numbers := ⟨format 10 start, format 10 stop, rfl, isDecimals_format h.1,
    isDecimals_format (h.1.trans h.2), int?_format (by decide) (by decide) start,
    int?_format (by decide) (by decide) stop⟩

/-- **What is rendered lists its items.** -/
theorem lists_render (h : ∀ item ∈ items, item.Renderable) :
    Lists false (renderSlotMapping items) items := by
  -- an item and what stands behind it
  have hcons : ∀ (item : SlotItem) (s : List Char) (rest : List SlotItem), item.Renderable →
      AtComma s → Lists false s rest → Lists false (item.render ++ s) (item :: rest) := by
    intro item s rest hitem hs hrest
    cases item with
    | slot i => exact .slot (int?_format (by decide) (by decide) i) hs hrest
    | range start stop => exact .range (rangeText_render hitem) (.inr hs) hrest
  unfold renderSlotMapping
  induction items with
  | nil => exact .nil
  | cons item items ih =>
    rw [List.forall_mem_cons] at h
    cases items with
    | nil =>
      rw [List.map_singleton, List.intercalate_singleton, ← List.append_nil item.render]
      exact hcons item [] [] h.1 (.inl rfl) .nil
    | cons next items =>
      have ih := ih h.2
      rw [List.map_cons, List.map_cons, List.intercalate_cons_cons, ← List.map_cons,
        List.append_assoc]
      exact hcons item _ _ h.1 (.inr ⟨_, rfl⟩) (.comma ih)

theorem renderable_appendRangeOrElements (hresult : ∀ item ∈ result, item.Renderable)
    (hstart : 0 ≤ start) : ∀ item ∈ appendRangeOrElements result start stop, item.Renderable := by
  unfold appendRangeOrElements
  split
  · rw [List.forall_mem_append, List.forall_mem_singleton]
    exact ⟨hresult, hstart, by omega⟩
  · rw [List.forall_mem_append, List.forall_mem_map]
    exact ⟨hresult, fun _ _ => trivial⟩

theorem renderable_compressLoop (hslots : ∀ slot ∈ slots, 0 ≤ slot)
    (hresult : ∀ item ∈ result, item.Renderable) (hstart : 0 ≤ rangeStart) :
    ∀ item ∈ compressLoop result rangeStart rangeEnd slots, item.Renderable := by
  induction slots generalizing result rangeStart rangeEnd with
  | nil => exact renderable_appendRangeOrElements hresult hstart
  | cons slot slots ih =>
    rw [List.forall_mem_cons] at hslots
    unfold compressLoop
    split
    · exact ih hslots.2 hresult hstart
    · exact ih hslots.2 (renderable_appendRangeOrElements hresult hstart) hslots.1

theorem renderable_compressSlotMapping (h : ∀ slot ∈ slots, 0 ≤ slot) :
    ∀ item ∈ compressSlotMapping slots, item.Renderable := by
  cases slots with
  | nil => exact fun item hitem => nomatch hitem
  | cons slot slots =>
    rw [List.forall_mem_cons] at h
    exact renderable_compressLoop h.2 (fun item hitem => nomatch hitem) h.1

/-! ## The slot mapping notation -/

theorem parseMixedSlotMapping_of_lists {text : List Char} (h : Lists true (clean text) items) :
    parseMixedSlotMapping text = (some (decompressSlotMapping items), none) := by
  have hread := readSlotMapping_eq_ok.mpr ⟨items, h, rfl⟩
  unfold parseMixedSlotMapping
  rw [hread]

/-- An integer or a `[start,end]` range, with whitespace around. -/
def DocumentedItem (t : List Char) : Prop :=
  (∃ i, int? 10 t = some i) ∨
    ∃ a b start stop, strip t = '[' :: (a ++ ',' :: (b ++ [']'])) ∧
      int? 10 a = some start ∧ int? 10 b = some stop ∧ start ≤ stop

/-- A comma-separated sequence of integers and ranges. -/
def Documented (s : List Char) : Prop :=
  ∃ items, (∀ t ∈ items, DocumentedItem t) ∧ [','].intercalate items = s

/-- A range ends with a bracket. -/
theorem DocumentedItem.int?_or {t : List Char} (h : DocumentedItem t) :
    (∃ i, int? 10 t = some i) ∨ (strip t).getLast? = some ']' := by
  refine h.imp_right ?_
  rintro ⟨a, b, start, stop, htext, -⟩
  have hlast : '[' :: (a ++ ',' :: (b ++ [']'])) = ('[' :: (a ++ ',' :: b)) ++ [']'] := by simp
  rw [htext, hlast, List.getLast?_concat]

theorem mem_intercalate {sep c : Char} {l : List (List Char)} {t : List Char} (ht : t ∈ l)
    (hc : c ∈ t) : c ∈ [sep].intercalate l := by
  induction l with
  | nil => cases ht
  | cons p l ih =>
    cases l with
    | nil =>
      rw [List.mem_singleton] at ht
      rwa [List.intercalate_singleton, ← ht]
    | cons q l =>
      rw [List.intercalate_cons_cons]
      rcases List.mem_cons.mp ht with rfl | ht
      · exact List.mem_append_left _ (List.mem_append_left _ hc)
      · exact List.mem_append_right _ (ih ht)

/-- Where no range is, all there is between the commas is integers. -/
theorem Documented.int?_splitOn {s : List Char} (h : Documented s) (hne : s ≠ []) (hs : ']' ∉ s) :
    ∀ p ∈ s.splitOn ',', ∃ i, int? 10 p = some i := by
  obtain ⟨items, hitems, rfl⟩ := h
  have hint : ∀ t ∈ items, ∃ i, int? 10 t = some i := by
    intro t ht
    refine (hitems t ht).int?_or.resolve_right fun hlast => hs ?_
    have hmem : ']' ∈ t := by
      have := List.mem_of_getLast? hlast
      exact (List.dropWhile_suffix _).subset ((List.rdropWhile_prefix _ _).subset this)
    exact mem_intercalate ht hmem
  rw [List.splitOn_intercalate]
  · exact hint
  · intro t ht
    obtain ⟨i, hi⟩ := hint t ht
    exact (plain_of_int? hi).1
  · rintro rfl
    exact hne rfl

end LMCache
