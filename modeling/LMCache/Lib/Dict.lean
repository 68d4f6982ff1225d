/-
# LMCache.Lib.Dict — a dictionary that keeps the order of insertion.

The entries are a list of key/value pairs with no key twice.  Writing a key that is present replaces
its value in place; writing a new key appends it, so that the list of keys is the order in which the
keys were first inserted.  `AList` of Mathlib puts a written key first instead, which loses that
order.
-/
import Mathlib.Data.List.Nodup
import Mathlib.Tactic

namespace LMCache.Lib

universe u v

/-- A finite map in insertion order: no key has two entries. -/
structure Dict (κ : Type u) (ν : Type v) where
  entries : List (κ × ν)
  nodup : (entries.map Prod.fst).Nodup

namespace Dict

variable {κ : Type u} {ν : Type v}

/-! ## Operations -/

def empty : Dict κ ν := ⟨[], List.nodup_nil⟩

def keys (d : Dict κ ν) : List κ := d.entries.map Prod.fst

instance : Membership κ (Dict κ ν) := ⟨fun d k => k ∈ d.keys⟩

variable {d : Dict κ ν} {k : κ} {v : ν} {μ : Type*} {pairs : List (κ × ν)}

theorem mem_def : k ∈ d ↔ k ∈ d.keys := Iff.rfl

theorem keys_nodup (d : Dict κ ν) : d.keys.Nodup := d.nodup

/-- No entry of a dictionary occurs twice. -/
theorem nodup_entries (d : Dict κ ν) : d.entries.Nodup := List.Nodup.of_map Prod.fst d.nodup

/-- No two keys come before each other. -/
theorem not_sublist_swap (d : Dict κ ν) {a b : κ} (h : [a, b].Sublist d.keys) :
    ¬[b, a].Sublist d.keys := by
  have hnodup := d.keys_nodup
  generalize d.keys = l at h hnodup
  induction l with
  | nil => exact absurd h (by simp)
  | cons x l ih =>
    obtain ⟨hx, hl⟩ := List.nodup_cons.mp hnodup
    intro h'
    rcases List.cons_sublist_cons'.mp h' with h₁ | ⟨rfl, h₁⟩
    · rcases List.cons_sublist_cons'.mp h with h₂ | ⟨rfl, h₂⟩
      · exact ih h₂ hl h₁
      · exact hx (h₁.subset (by simp))
    · rcases List.cons_sublist_cons'.mp h with h₂ | ⟨rfl, h₂⟩
      · exact hx (h₂.subset (by simp))
      · exact hx (h₁.subset (by simp))
@[simp] theorem not_mem_empty (k : κ) : k ∉ (empty : Dict κ ν) := by
  simp [mem_def, keys, empty]

variable [DecidableEq κ]

instance (k : κ) (d : Dict κ ν) : Decidable (k ∈ d) := inferInstanceAs (Decidable (k ∈ d.keys))

/-- The value written last for a key, if the key is present. -/
def get? (d : Dict κ ν) (k : κ) : Option ν :=
  (d.entries.find? fun e => e.1 = k).map Prod.snd

/-- The entry list with the value of `k` replaced. -/
def replace (es : List (κ × ν)) (k : κ) (v : ν) : List (κ × ν) :=
  es.map fun e => if e.1 = k then (k, v) else e

theorem map_fst_replace (es : List (κ × ν)) (k : κ) (v : ν) :
    (replace es k v).map Prod.fst = es.map Prod.fst := by
  unfold replace
  rw [List.map_map]
  apply List.map_congr_left
  intro e _
  by_cases h : e.1 = k <;> simp [h]

/-- Write a key: in place when it is present, at the end when it is new. -/
def set (d : Dict κ ν) (k : κ) (v : ν) : Dict κ ν :=
  if h : k ∈ d then ⟨replace d.entries k v, by rw [map_fst_replace]; exact d.nodup⟩
  else
    ⟨d.entries ++ [(k, v)], by
      rw [List.map_append, List.nodup_append]
      refine ⟨d.nodup, List.nodup_singleton k, ?_⟩
      rintro a ha b hb rfl
      exact h (by rwa [List.mem_singleton.mp hb] at ha)⟩

/-- Take a key out. -/
def erase (d : Dict κ ν) (k : κ) : Dict κ ν :=
  ⟨d.entries.filter fun e => e.1 ≠ k, d.nodup.sublist (List.filter_sublist.map Prod.fst)⟩

/-- A new key goes to the end. -/
theorem entries_set_of_notMem (h : k ∉ d) (v : ν) :
    (d.set k v).entries = d.entries ++ [(k, v)] := by
  unfold set
  rw [dif_neg h]

/-! ## Keys -/

@[simp] theorem mem_set (d : Dict κ ν) (k k' : κ) (v : ν) :
    k' ∈ d.set k v ↔ k' = k ∨ k' ∈ d := by
  unfold set
  by_cases h : k ∈ d
  · rw [dif_pos h]
    show k' ∈ (replace d.entries k v).map Prod.fst ↔ _
    rw [map_fst_replace]
    constructor
    · exact Or.inr
    · rintro (rfl | h')
      · exact h
      · exact h'
  · rw [dif_neg h]
    simp [mem_def, keys, or_comm]

@[simp] theorem mem_erase (d : Dict κ ν) (k k' : κ) : k' ∈ d.erase k ↔ k' ≠ k ∧ k' ∈ d := by
  simp only [mem_def, keys, erase, List.mem_map, List.mem_filter]
  constructor
  · rintro ⟨e, ⟨he, hne⟩, rfl⟩
    exact ⟨by simpa using hne, e, he, rfl⟩
  · rintro ⟨hne, e, he, rfl⟩
    exact ⟨e, ⟨he, by simpa using hne⟩, rfl⟩

/-! ## Values -/

@[simp] theorem get?_empty (k : κ) : (empty : Dict κ ν).get? k = none := rfl

theorem get?_eq_some : d.get? k = some v ↔ (k, v) ∈ d.entries := by
  obtain ⟨es, hn⟩ := d
  unfold get?
  induction es with
  | nil => simp
  | cons e es ih =>
    have hn' : (es.map Prod.fst).Nodup := (List.nodup_cons.mp hn).2
    have hnot : ∀ w, (e.1, w) ∉ es := fun w hw =>
      (List.nodup_cons.mp hn).1 (List.mem_map.mpr ⟨(e.1, w), hw, rfl⟩)
    rcases e with ⟨a, w⟩
    by_cases h : a = k
    · subst h
      simp only [List.find?_cons, decide_true, Option.map_some, Option.some.injEq, List.mem_cons,
        Prod.mk.injEq, true_and]
      exact ⟨fun h => .inl h.symm, fun h => (h.resolve_right (hnot v)).symm⟩
    · have hne : (k, v) ≠ (a, w) := fun h' => h (congrArg Prod.fst h').symm
      simpa [List.find?_cons, h, hne] using ih hn'

theorem mem_iff_get? : k ∈ d ↔ ∃ v, d.get? k = some v := by
  simp only [get?_eq_some, mem_def, keys, List.mem_map]
  constructor
  · rintro ⟨⟨k, v⟩, h, rfl⟩
    exact ⟨v, h⟩
  · rintro ⟨v, h⟩
    exact ⟨(k, v), h, rfl⟩

theorem get?_eq_none : d.get? k = none ↔ k ∉ d := by
  rw [mem_iff_get?]
  cases d.get? k <;> simp

@[simp] theorem get?_set (d : Dict κ ν) (k k' : κ) (v : ν) :
    (d.set k v).get? k' = if k' = k then some v else d.get? k' := by
  have hent : ∀ w, (k', w) ∈ (d.set k v).entries ↔
      if k' = k then w = v else (k', w) ∈ d.entries := by
    intro w
    unfold set
    by_cases h : k ∈ d
    · rw [dif_pos h]
      simp only [replace, List.mem_map]
      constructor
      · rintro ⟨e, he, heq⟩
        by_cases hk : e.1 = k
        · rw [if_pos hk, Prod.mk.injEq] at heq
          rw [if_pos heq.1.symm]
          exact heq.2.symm
        · rw [if_neg hk] at heq
          subst heq
          rwa [if_neg hk]
      · intro hw
        by_cases hk : k' = k
        · rw [if_pos hk] at hw
          obtain ⟨e, he, hek⟩ := List.mem_map.mp h
          exact ⟨e, he, by rw [if_pos hek, hk, hw]⟩
        · rw [if_neg hk] at hw
          exact ⟨(k', w), hw, by rw [if_neg hk]⟩
    · rw [dif_neg h]
      by_cases hk : k' = k
      · subst hk
        have hnot : (k', w) ∉ d.entries := fun hw => h (List.mem_map.mpr ⟨(k', w), hw, rfl⟩)
        simp [hnot]
      · simp [hk]
  by_cases hk : k' = k
  · rw [if_pos hk, get?_eq_some, hent, if_pos hk]
  · rw [if_neg hk]
    ext w
    rw [get?_eq_some, hent, if_neg hk, get?_eq_some]

@[simp] theorem get?_erase (d : Dict κ ν) (k k' : κ) :
    (d.erase k).get? k' = if k' = k then none else d.get? k' := by
  by_cases hk : k' = k
  · rw [if_pos hk, get?_eq_none]
    simp [hk]
  · rw [if_neg hk]
    ext w
    rw [get?_eq_some, get?_eq_some]
    simp [erase, hk]

/-! ## The order of the entries -/

/-- `move_to_end`: a key that is present goes behind all others, with its value. -/
def moveToEnd (d : Dict κ ν) (k : κ) : Dict κ ν :=
  match d.get? k with
  | none => d
  | some v => (d.erase k).set k v

theorem entries_moveToEnd (h : d.get? k = some v) :
    (d.moveToEnd k).entries = (d.entries.filter fun e => e.1 ≠ k) ++ [(k, v)] := by
  have hnot : k ∉ d.erase k := by simp
  unfold moveToEnd
  rw [h]
  exact entries_set_of_notMem hnot v

theorem keys_moveToEnd (h : k ∈ d) : (d.moveToEnd k).keys = d.keys.filter (· ≠ k) ++ [k] := by
  obtain ⟨v, hv⟩ := mem_iff_get?.mp h
  rw [keys, entries_moveToEnd hv, List.map_append, keys, List.filter_map]
  rfl

@[simp] theorem get?_moveToEnd (d : Dict κ ν) (k k' : κ) :
    (d.moveToEnd k).get? k' = d.get? k' := by
  unfold moveToEnd
  cases h : d.get? k with
  | none => rfl
  | some v =>
    by_cases hk : k' = k
    · simp [hk, h]
    · simp [hk]

@[simp] theorem mem_moveToEnd (d : Dict κ ν) (k k' : κ) : k' ∈ d.moveToEnd k ↔ k' ∈ d := by
  rw [mem_iff_get?, mem_iff_get?, get?_moveToEnd]

theorem mem_entries_moveToEnd {e : κ × ν} : e ∈ (d.moveToEnd k).entries ↔ e ∈ d.entries := by
  rw [← get?_eq_some, ← get?_eq_some, get?_moveToEnd]

theorem mem_foldr_moveToEnd (d : Dict κ ν) (ks : List κ) (k : κ) :
    k ∈ ks.foldr (fun k d => d.moveToEnd k) d ↔ k ∈ d := by
  induction ks with
  | nil => rfl
  | cons x ks ih => exact (mem_moveToEnd _ x k).trans ih

/-- Keys moved to the end one after the other, the last of them first, are left in the reverse order
of their first places. -/
theorem sublist_foldr_moveToEnd {ks : List κ} (hks : ∀ k ∈ ks, k ∈ d) {a b : κ}
    (hlt : ks.idxOf a < ks.idxOf b) (hb : b ∈ ks) :
    [b, a].Sublist (ks.foldr (fun k d => d.moveToEnd k) d).keys := by
  induction ks with
  | nil => exact absurd hb List.not_mem_nil
  | cons x ks ih =>
    have hx : x ∈ ks.foldr (fun k d => d.moveToEnd k) d :=
      (mem_foldr_moveToEnd d ks x).mpr (hks x List.mem_cons_self)
    have hbx : b ≠ x := by
      rintro rfl
      simp at hlt
    have hb : b ∈ ks := (List.mem_cons.mp hb).resolve_left hbx
    have hbd := hks b (List.mem_cons_of_mem x hb)
    rw [List.foldr_cons, keys_moveToEnd hx]
    by_cases hax : a = x
    · -- `x` is moved last, and so ends up behind `b`
      rw [hax]
      refine List.Sublist.append (List.singleton_sublist.mpr ?_) (List.Sublist.refl [x])
      have hb := mem_def.mp ((mem_foldr_moveToEnd d ks b).mpr hbd)
      exact List.mem_filter.mpr ⟨hb, by simpa using hbx⟩
    · rw [List.idxOf_cons_ne _ (Ne.symm hax), List.idxOf_cons_ne _ (Ne.symm hbx)] at hlt
      have hrest := ih (fun k hk => hks k (List.mem_cons_of_mem x hk)) (by omega) hb
      have hkept := hrest.filter (· ≠ x)
      rw [List.filter_cons_of_pos (by simpa using hbx),
        List.filter_cons_of_pos (by simpa using hax), List.filter_nil] at hkept
      exact hkept.trans (List.sublist_append_left _ _)

theorem mem_entries_of_erase {e : κ × ν} (h : e ∈ (d.erase k).entries) :
    e ∈ d.entries := (List.mem_filter.mp h).1

/-- Erasing several keys, one after the other. -/
theorem get?_foldl_erase (d : Dict κ ν) (ks : List κ) (k : κ) :
    (ks.foldl erase d).get? k = if k ∈ ks then none else d.get? k := by
  induction ks generalizing d with
  | nil => rw [if_neg List.not_mem_nil, List.foldl_nil]
  | cons k' ks ih =>
    rw [List.foldl_cons, ih, get?_erase]
    by_cases hk : k ∈ ks
    · rw [if_pos hk, if_pos (List.mem_cons_of_mem k' hk)]
    · by_cases heq : k = k'
      · rw [if_neg hk, if_pos heq, if_pos (heq ▸ List.mem_cons_self)]
      · rw [if_neg hk, if_neg heq, if_neg (fun h => (List.mem_cons.mp h).elim heq hk)]

/-! ## Values in another form -/

/-- The dictionary with every value put through `f`. -/
def mapValues {μ : Type*} (f : ν → μ) (d : Dict κ ν) : Dict κ μ :=
  ⟨d.entries.map fun e => (e.1, f e.2), by
    rw [List.map_map]
    exact d.nodup⟩

variable (f : ν → μ)

theorem get?_mapValues (d : Dict κ ν) (k : κ) : (d.mapValues f).get? k = (d.get? k).map f := by
  unfold get? mapValues
  rw [List.find?_map, Option.map_map, Option.map_map]
  rfl

theorem mem_mapValues {f : ν → μ} : k ∈ d.mapValues f ↔ k ∈ d := by
  rw [mem_iff_get?, mem_iff_get?, get?_mapValues]
  cases d.get? k <;> simp

theorem mapValues_set (d : Dict κ ν) (k : κ) (v : ν) :
    (d.set k v).mapValues f = (d.mapValues f).set k (f v) := by
  unfold set
  by_cases h : k ∈ d
  · rw [dif_pos h, dif_pos (mem_mapValues.mpr h)]
    unfold mapValues replace
    simp only [List.map_map, mk.injEq]
    refine List.map_congr_left fun e _ => ?_
    by_cases he : e.1 = k <;> simp [he]
  · rw [dif_neg h, dif_neg (fun hm => h (mem_mapValues.mp hm))]
    unfold mapValues
    simp only [List.map_append, List.map_singleton]

theorem mapValues_erase (d : Dict κ ν) (k : κ) :
    (d.erase k).mapValues f = (d.mapValues f).erase k := by
  unfold erase mapValues
  simp only [List.filter_map, mk.injEq]
  rfl

/-- Writing what is there changes nothing. -/
theorem set_of_get? (h : d.get? k = some v) : d.set k v = d := by
  have hmem := get?_eq_some.mp h
  unfold set
  rw [dif_pos (mem_iff_get?.mpr ⟨v, h⟩)]
  obtain ⟨es, hn⟩ := d
  simp only [mk.injEq]
  unfold replace
  conv_rhs => rw [← List.map_id es]
  refine List.map_congr_left fun e he => ?_
  by_cases hk : e.1 = k
  · rw [if_pos hk]
    exact List.inj_on_of_nodup_map hn hmem he hk.symm
  · rw [if_neg hk]
    rfl

/-! ## The list of values -/

def values (d : Dict κ ν) : List ν := d.entries.map Prod.snd

theorem mem_values_of_get? (h : d.get? k = some v) : v ∈ d.values :=
  List.mem_map.mpr ⟨(k, v), get?_eq_some.mp h, rfl⟩

theorem mem_values : v ∈ d.values ↔ ∃ k, d.get? k = some v := by
  unfold values
  rw [List.mem_map]
  constructor
  · rintro ⟨e, he, rfl⟩
    exact ⟨e.1, get?_eq_some.mpr he⟩
  · rintro ⟨k, hk⟩
    exact ⟨(k, v), get?_eq_some.mp hk, rfl⟩

theorem values_set_of_notMem (h : k ∉ d) (v : ν) : (d.set k v).values = d.values ++ [v] := by
  unfold values
  rw [entries_set_of_notMem h, List.map_append, List.map_singleton]

/-- Taking a key out takes its entry out. -/
theorem entries_perm_erase (h : d.get? k = some v) :
    d.entries.Perm ((k, v) :: (d.erase k).entries) := by
  have hmem := get?_eq_some.mp h
  obtain ⟨es, hn⟩ := d
  unfold erase
  dsimp only at hmem ⊢
  induction es with
  | nil => cases hmem
  | cons e es ih =>
    have hn' := List.nodup_cons.mp hn
    rcases List.mem_cons.mp hmem with rfl | hin
    · have hrest : es.filter (fun e => e.1 ≠ k) = es := by
        rw [List.filter_eq_self]
        intro e' he'
        have hne : e'.1 ≠ k := fun hk => hn'.1 (List.mem_map.mpr ⟨e', he', hk⟩)
        simpa using hne
      rw [List.filter_cons_of_neg (by simp), hrest]
    · have hne : e.1 ≠ k := fun hk => hn'.1 (List.mem_map.mpr ⟨(k, v), hin, hk.symm⟩)
      rw [List.filter_cons_of_pos (by simpa using hne)]
      exact ((ih hn'.2 (get?_eq_some.mpr hin) hin).cons _).trans (List.Perm.swap _ _ _)

/-- Taking a key out takes its value out. -/
theorem values_perm_erase (h : d.get? k = some v) :
    d.values.Perm (v :: (d.erase k).values) := (entries_perm_erase h).map Prod.snd

/-- What is written to a key does not matter once the key is taken out. -/
theorem entries_erase_set (d : Dict κ ν) (k : κ) (v : ν) :
    ((d.set k v).erase k).entries = (d.erase k).entries := by
  unfold set erase
  by_cases h : k ∈ d
  · rw [dif_pos h]
    dsimp only
    unfold replace
    induction d.entries with
    | nil => rfl
    | cons e es ih =>
      rw [List.map_cons]
      by_cases he : e.1 = k
      · rw [if_pos he, List.filter_cons_of_neg (by simp), List.filter_cons_of_neg (by simpa using he),
          ih]
      · rw [if_neg he, List.filter_cons_of_pos (by simpa using he),
          List.filter_cons_of_pos (by simpa using he), ih]
  · rw [dif_neg h]
    dsimp only
    rw [List.filter_append, List.filter_cons_of_neg (by simp), List.filter_nil, List.append_nil]

/-- Writing a key puts its value beside those of the other keys. -/
theorem values_perm_set (d : Dict κ ν) (k : κ) (v : ν) :
    (d.set k v).values.Perm (v :: (d.erase k).values) := by
  have hget : (d.set k v).get? k = some v := by rw [get?_set, if_pos rfl]
  have hperm := values_perm_erase hget
  unfold values at hperm ⊢
  rwa [entries_erase_set] at hperm

/-- What the values hold together, with those of one key in front. -/
theorem flatMap_values_perm_erase {α : Type*} (f : ν → List α) (h : d.get? k = some v) :
    (d.values.flatMap f).Perm (f v ++ (d.erase k).values.flatMap f) :=
  (values_perm_erase h).flatMap_right f

theorem flatMap_values_perm_set {α : Type*} (f : ν → List α) (d : Dict κ ν) (k : κ) (v : ν) :
    ((d.set k v).values.flatMap f).Perm (f v ++ (d.erase k).values.flatMap f) :=
  (values_perm_set d k v).flatMap_right f

/-- When no value occurs twice, a value has one key. -/
theorem key_unique_of_values (hv : d.values.Nodup) {k' : κ} (h : d.get? k = some v)
    (h' : d.get? k' = some v) : k = k' := by
  have hinj := List.inj_on_of_nodup_map hv
  exact congrArg Prod.fst (hinj (get?_eq_some.mp h) (get?_eq_some.mp h') rfl)

/-! ## From a list of pairs -/

/-- The dictionary a loop of assignments builds: of several pairs with one key, the last stays. -/
def ofPairs (pairs : List (κ × ν)) : Dict κ ν := pairs.foldl (fun d p => d.set p.1 p.2) empty

theorem get?_foldl_set (d : Dict κ ν) (pairs : List (κ × ν)) (k : κ) :
    (pairs.foldl (fun d p => d.set p.1 p.2) d).get? k =
      (((pairs.filter fun p => p.1 = k).getLast?).map Prod.snd).or (d.get? k) := by
  induction pairs generalizing d with
  | nil => rfl
  | cons p pairs ih =>
    rw [List.foldl_cons, ih, get?_set]
    by_cases h : k = p.1
    · subst h
      rw [if_pos rfl, List.filter_cons_of_pos (by simp), List.getLast?_cons]
      cases (pairs.filter fun q => q.1 = p.1).getLast? <;> rfl
    · rw [if_neg h, List.filter_cons_of_neg (by simpa using fun h' => h h'.symm)]

theorem get?_foldl_set_of_notMem (d : Dict κ ν) (h : k ∉ pairs.map Prod.fst) :
    (pairs.foldl (fun d p => d.set p.1 p.2) d).get? k = d.get? k := by
  have hnone : pairs.filter (fun p => p.1 = k) = [] := by
    rw [List.filter_eq_nil_iff]
    intro p hp hk
    exact h (of_decide_eq_true hk ▸ List.mem_map_of_mem hp)
  rw [get?_foldl_set, hnone]
  rfl

/-- Pairs with distinct keys are all there once they are set. -/
theorem get?_foldl_set_of_mem (d : Dict κ ν) (hnodup : (pairs.map Prod.fst).Nodup)
    (h : (k, v) ∈ pairs) : (pairs.foldl (fun d p => d.set p.1 p.2) d).get? k = some v := by
  induction pairs generalizing d with
  | nil => cases h
  | cons p pairs ih =>
    rw [List.map_cons, List.nodup_cons] at hnodup
    rw [List.foldl_cons]
    rcases List.mem_cons.mp h with rfl | h
    · rw [get?_foldl_set_of_notMem _ hnodup.1, get?_set, if_pos rfl]
    · exact ih _ hnodup.2 h

/-- What the dictionary gives is among the pairs. -/
theorem mem_of_get?_ofPairs (h : (ofPairs pairs).get? k = some v) : (k, v) ∈ pairs := by
  unfold ofPairs at h
  rw [get?_foldl_set, get?_empty, Option.or_none, Option.map_eq_some_iff] at h
  obtain ⟨p, hp, rfl⟩ := h
  obtain ⟨hmem, hk⟩ := List.mem_filter.mp (List.mem_of_getLast? hp)
  rw [← of_decide_eq_true hk]
  exact hmem

/-- **The last pair with a key stays.** -/
theorem get?_ofPairs_eq_some :
    (ofPairs pairs).get? k = some v ↔
      ∃ pre post, pairs = pre ++ (k, v) :: post ∧ k ∉ post.map Prod.fst := by
  induction pairs using List.reverseRecOn with
  | nil =>
    refine ⟨fun h => (nomatch h), ?_⟩
    rintro ⟨pre, post, h, -⟩
    exact absurd h.symm (List.append_ne_nil_of_right_ne_nil _ (List.cons_ne_nil _ _))
  | append_singleton l p ih =>
    obtain ⟨a, w⟩ := p
    have hset : ofPairs (l ++ [(a, w)]) = (ofPairs l).set a w := by
      unfold ofPairs
      rw [List.foldl_append]
      rfl
    rw [hset, get?_set]
    by_cases hk : k = a
    · subst hk
      rw [if_pos rfl]
      constructor
      · rintro ⟨⟩
        exact ⟨l, [], rfl, List.not_mem_nil⟩
      · rintro ⟨pre, post, h, hpost⟩
        rcases List.eq_nil_or_concat post with rfl | ⟨post', q, rfl⟩
        · have hlast := (List.append_inj' h rfl).2
          cases hlast
          rfl
        · -- behind the pair of `k` would stand the last pair, which has the key `k`, too
          rw [List.concat_eq_append, ← List.cons_append, ← List.append_assoc] at h
          have hlast := (List.append_inj' h rfl).2
          cases hlast
          exact absurd (by simp) hpost
    · rw [if_neg hk, ih]
      constructor
      · rintro ⟨pre, post, rfl, hpost⟩
        refine ⟨pre, post ++ [(a, w)], by simp, ?_⟩
        rw [List.map_append, List.mem_append, not_or]
        exact ⟨hpost, by simpa using hk⟩
      · rintro ⟨pre, post, h, hpost⟩
        rcases List.eq_nil_or_concat post with rfl | ⟨post', q, rfl⟩
        · have hlast := (List.append_inj' h rfl).2
          cases hlast
          exact absurd rfl hk
        · rw [List.concat_eq_append, ← List.cons_append, ← List.append_assoc] at h
          refine ⟨pre, post', (List.append_inj' h rfl).1, fun hmem => hpost ?_⟩
          rw [List.concat_eq_append, List.map_append]
          exact List.mem_append_left _ hmem

/-- The keys of the dictionary are those of the pairs. -/
theorem mem_ofPairs : k ∈ ofPairs pairs ↔ k ∈ pairs.map Prod.fst := by
  constructor
  · intro h
    obtain ⟨v, hv⟩ := mem_iff_get?.mp h
    exact List.mem_map_of_mem (mem_of_get?_ofPairs hv)
  · intro h
    rw [mem_iff_get?, ofPairs]
    obtain ⟨p, hp, rfl⟩ := List.mem_map.mp h
    rw [get?_foldl_set, get?_empty, Option.or_none]
    have hne : (pairs.filter fun q => q.1 = p.1) ≠ [] :=
      List.ne_nil_of_mem (List.mem_filter.mpr ⟨hp, by simp⟩)
    rw [List.getLast?_eq_some_getLast hne]
    exact ⟨_, rfl⟩

/-- Pairs with new and distinct keys go to the end, in their order. -/
theorem entries_foldl_set (h : (pairs.map Prod.fst).Nodup) (hnew : ∀ p ∈ pairs, p.1 ∉ d) :
    (pairs.foldl (fun d p => d.set p.1 p.2) d).entries = d.entries ++ pairs := by
  induction pairs generalizing d with
  | nil => rw [List.foldl_nil, List.append_nil]
  | cons p pairs ih =>
    obtain ⟨hp, hnodup⟩ := List.nodup_cons.mp h
    have hset := entries_set_of_notMem (hnew p List.mem_cons_self) p.2
    rw [List.foldl_cons, ih hnodup, hset, List.append_assoc, List.singleton_append]
    intro q hq hmem
    rcases (mem_set d p.1 q.1 p.2).mp hmem with heq | hin
    · exact hp (heq ▸ List.mem_map_of_mem hq)
    · exact hnew q (List.mem_cons_of_mem _ hq) hin

/-- Pairs with distinct keys are the entries, in their order. -/
theorem entries_ofPairs (h : (pairs.map Prod.fst).Nodup) : (ofPairs pairs).entries = pairs :=
  entries_foldl_set h fun p _ => not_mem_empty p.1

end Dict

end LMCache.Lib
