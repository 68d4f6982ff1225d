/-
# LMCache.Storage.LFUCachePolicy — which keys are evicted first, by frequency.

Source: `v1/storage_backend/cache_policy/lfu.py`.

The policy keeps the frequency of each key, and the keys of each frequency in a bucket of their own.
A put opens with frequency one, a hit moves the key to the end of the next bucket, and a bucket that
is left empty goes.  The candidates for eviction are taken bucket by bucket, lowest frequency first,
and in the order in which the keys came into the bucket; the policy forgets them at once, before the
backend removes them.

`Represents` relates the two maps to the keys in the order in which they came to their frequencies.
-/
import LMCache.Lib.Dict
import LMCache.Lib.Run
import Mathlib.Data.List.Sort

namespace LMCache.Storage

open LMCache.Lib

variable {κ : Type}

/-- `freq_to_keys` and `key_to_freq`.  A bucket is a dictionary from its keys to `None`; the outer
one is read in the order of its frequencies. -/
structure LFUCachePolicy (κ : Type) where
  freqToKeys : Dict Nat (Dict κ Unit)
  keyToFreq : Dict κ Nat

/-- The `KeyError`s of the policy: what was not found. -/
inductive LFUError (κ : Type) where
  | key (key : κ)
  | freq (freq : Nat)
  deriving DecidableEq, Repr

namespace LFUCachePolicy

/-! ## The operations -/

def empty : LFUCachePolicy κ := ⟨.empty, .empty⟩

/-- The keys of a bucket, in the order in which they came; an absent bucket has none. -/
def bucket (freqToKeys : Dict Nat (Dict κ Unit)) (freq : Nat) : List κ :=
  ((freqToKeys.get? freq).getD .empty).keys

variable {d : Dict Nat (Dict κ Unit)} {f : Nat} {e : Nat × κ} {k : κ} {arrivals : List κ}
  {p : LFUCachePolicy κ} {canEvict : κ → Option Bool}

theorem bucket_of_get? {b : Dict κ Unit} (h : d.get? f = some b) : bucket d f = b.keys := by
  unfold bucket
  rw [h]
  rfl

theorem bucket_of_get?_none (h : d.get? f = none) : bucket d f = [] := by
  unfold bucket
  rw [h]
  rfl

/-- `freq_to_keys.items()` with the keys of each bucket, one after the other. -/
def order (freqToKeys : Dict Nat (Dict κ Unit)) : List (Nat × κ) :=
  (freqToKeys.entries.insertionSort fun a b => a.1 ≤ b.1).flatMap fun e =>
    e.2.keys.map fun key => (e.1, key)

theorem mem_order : e ∈ order d ↔ e.2 ∈ bucket d e.1 := by
  obtain ⟨f, k⟩ := e
  unfold order
  simp only [List.mem_flatMap, List.mem_insertionSort, List.mem_map, Prod.mk.injEq]
  constructor
  · rintro ⟨⟨f', b⟩, hb, k', hk', rfl, rfl⟩
    rw [bucket_of_get? (Dict.get?_eq_some.mpr hb)]
    exact hk'
  · intro hk
    cases hget : d.get? f with
    | none =>
      rw [bucket_of_get?_none hget] at hk
      cases hk
    | some b =>
      rw [bucket_of_get? hget] at hk
      exact ⟨(f, b), Dict.get?_eq_some.mp hget, k, hk, rfl, rfl⟩

variable [DecidableEq κ]

/-- `freq_to_keys[freq][key] = None`, in a new bucket if there is none. -/
def addTo (freqToKeys : Dict Nat (Dict κ Unit)) (freq : Nat) (key : κ) : Dict Nat (Dict κ Unit) :=
  freqToKeys.set freq (((freqToKeys.get? freq).getD .empty).set key ())

/-- `freq_to_keys[freq].pop(key)`; a bucket that is left empty goes. -/
def popFrom (freqToKeys : Dict Nat (Dict κ Unit)) (freq : Nat) (key : κ) :
    Except (LFUError κ) (Dict Nat (Dict κ Unit)) :=
  match freqToKeys.get? freq with
  | none => .error (.freq freq)
  | some keys =>
    if key ∈ keys then
      .ok (if (keys.erase key).keys = [] then freqToKeys.erase freq
        else freqToKeys.set freq (keys.erase key))
    else .error (.key key)

/-- `update_on_hit`. -/
def updateOnHit (p : LFUCachePolicy κ) (key : κ) : Except (LFUError κ) (LFUCachePolicy κ) :=
  match p.keyToFreq.get? key with
  | none => .error (.key key)
  | some currFreq =>
    (popFrom p.freqToKeys currFreq key).map fun freqToKeys =>
      ⟨addTo freqToKeys (currFreq + 1) key, p.keyToFreq.set key (currFreq + 1)⟩

/-- `update_on_put`. -/
def updateOnPut (p : LFUCachePolicy κ) (key : κ) : LFUCachePolicy κ :=
  ⟨addTo p.freqToKeys 1 key, p.keyToFreq.set key 1⟩

/-- `update_on_force_evict`: what it raises, and the policy it leaves. -/
def updateOnForceEvict (p : LFUCachePolicy κ) (key : κ) : Option (LFUError κ) × LFUCachePolicy κ :=
  match p.keyToFreq.get? key with
  | none => (none, p)
  | some freq =>
    let p := { p with keyToFreq := p.keyToFreq.erase key }
    if freq = 0 then (none, p)
    else
      match popFrom p.freqToKeys freq key with
      | .error e => (some e, p)
      | .ok freqToKeys => (none, { p with freqToKeys := freqToKeys })

/-- The loops of `get_evict_candidates` that choose: the chosen keys with their frequencies, and the
`key_to_freq` they leave.  `canEvict` is what `cache_dict` says of a key. -/
def choose (canEvict : κ → Option Bool) (numCandidates : Nat) :
    List (Nat × κ) → List (Nat × κ) → Dict κ Nat →
      Except (LFUError κ) (List (Nat × κ)) × Dict κ Nat
  | [], evicted, keyToFreq => (.ok evicted, keyToFreq)
  | (freq, key) :: rest, evicted, keyToFreq =>
    match canEvict key with
    | none => (.error (.key key), keyToFreq)
    | some false => choose canEvict numCandidates rest evicted keyToFreq
    | some true =>
      if key ∈ keyToFreq then
        let evicted := evicted ++ [(freq, key)]
        let keyToFreq := keyToFreq.erase key
        if evicted.length = numCandidates then (.ok evicted, keyToFreq)
        else choose canEvict numCandidates rest evicted keyToFreq
      else (.error (.key key), keyToFreq)

/-- The last loop of `get_evict_candidates`: what it raises, and the buckets it leaves. -/
def popAll (freqToKeys : Dict Nat (Dict κ Unit)) :
    List (Nat × κ) → Option (LFUError κ) × Dict Nat (Dict κ Unit)
  | [] => (none, freqToKeys)
  | (freq, key) :: rest =>
    match popFrom freqToKeys freq key with
    | .error e => (some e, freqToKeys)
    | .ok freqToKeys => popAll freqToKeys rest

/-- `get_evict_candidates`. -/
def getEvictCandidates (p : LFUCachePolicy κ) (canEvict : κ → Option Bool) (numCandidates : Nat) :
    Except (LFUError κ) (List κ) × LFUCachePolicy κ :=
  match choose canEvict numCandidates (order p.freqToKeys) [] p.keyToFreq with
  | (.error e, keyToFreq) => (.error e, { p with keyToFreq := keyToFreq })
  | (.ok evicted, keyToFreq) =>
    match popAll p.freqToKeys evicted with
    | (some e, freqToKeys) => (.error e, ⟨freqToKeys, keyToFreq⟩)
    | (none, freqToKeys) => (.ok (evicted.map Prod.snd), ⟨freqToKeys, keyToFreq⟩)

/-! ## Buckets -/

theorem keys_erase (b : Dict κ Unit) (k : κ) : (b.erase k).keys = b.keys.filter (· ≠ k) := by
  unfold Dict.keys Dict.erase
  rw [List.filter_map]
  rfl

theorem keys_set (b : Dict κ Unit) (k : κ) :
    (b.set k ()).keys = if k ∈ b.keys then b.keys else b.keys ++ [k] := by
  by_cases h : k ∈ b.keys
  · have hmem : k ∈ b := h
    rw [if_pos h]
    unfold Dict.set
    rw [dif_pos hmem]
    exact Dict.map_fst_replace _ _ _
  · have hmem : k ∉ b := h
    rw [if_neg h]
    unfold Dict.keys
    rw [Dict.entries_set_of_notMem hmem, List.map_append]
    rfl

/-- No bucket is empty. -/
def NoEmptyBucket (freqToKeys : Dict Nat (Dict κ Unit)) : Prop :=
  ∀ f b, freqToKeys.get? f = some b → b.keys ≠ []

theorem bucket_addTo (d : Dict Nat (Dict κ Unit)) (f : Nat) (k : κ) (g : Nat) :
    bucket (addTo d f k) g =
      if g = f then (if k ∈ bucket d f then bucket d f else bucket d f ++ [k]) else bucket d g := by
  unfold addTo
  by_cases hg : g = f
  · subst hg
    rw [if_pos rfl, bucket_of_get? ((Dict.get?_set _ _ _ _).trans (if_pos rfl)), keys_set]
    rfl
  · rw [if_neg hg]
    unfold bucket
    rw [Dict.get?_set, if_neg hg]

theorem mem_bucket_addTo {g : Nat} {k' : κ} :
    k' ∈ bucket (addTo d f k) g ↔ (g = f ∧ k' = k) ∨ k' ∈ bucket d g := by
  rw [bucket_addTo]
  by_cases hg : g = f
  · subst hg
    rw [if_pos rfl]
    split
    · rename_i hk
      exact ⟨.inr, fun h => h.elim (fun h => h.2 ▸ hk) id⟩
    · rw [List.mem_append, List.mem_singleton, or_comm]
      simp
  · simp [hg]

theorem noEmptyBucket_addTo (h : NoEmptyBucket d) (f : Nat) (k : κ) :
    NoEmptyBucket (addTo d f k) := by
  intro g b hb
  unfold addTo at hb
  rw [Dict.get?_set] at hb
  split at hb
  · cases hb
    rw [keys_set]
    split
    · rename_i hmem
      exact List.ne_nil_of_mem hmem
    · simp
  · exact h g b hb

/-- A key that is in its bucket can be popped, and only its bucket changes. -/
theorem popFrom_spec (hk : k ∈ bucket d f) :
    ∃ d', popFrom d f k = .ok d' ∧
      (∀ g, bucket d' g = if g = f then (bucket d f).filter (· ≠ k) else bucket d g) ∧
      (NoEmptyBucket d → NoEmptyBucket d') := by
  unfold popFrom
  cases hget : d.get? f with
  | none =>
    rw [bucket_of_get?_none hget] at hk
    cases hk
  | some b =>
    rw [bucket_of_get? hget] at hk ⊢
    have hk : k ∈ b := hk
    refine ⟨_, if_pos hk, ?_, ?_⟩
    · intro g
      split
      · -- the bucket goes with its last key
        rename_i hempty
        unfold bucket
        rw [Dict.get?_erase]
        by_cases hg : g = f
        · rw [if_pos hg, if_pos hg, ← keys_erase, hempty]
          rfl
        · rw [if_neg hg, if_neg hg]
      · unfold bucket
        rw [Dict.get?_set]
        by_cases hg : g = f
        · rw [if_pos hg, if_pos hg, ← keys_erase]
          rfl
        · rw [if_neg hg, if_neg hg]
    · intro hno g b' hb'
      split at hb'
      · rw [Dict.get?_erase] at hb'
        split at hb'
        · cases hb'
        · exact hno g b' hb'
      · rename_i hne
        rw [Dict.get?_set] at hb'
        split at hb'
        · cases hb'
          exact hne
        · exact hno g b' hb'

/-- What is left in the buckets. -/
theorem popFrom_ok (hk : k ∈ bucket d f) :
    ∃ d', popFrom d f k = .ok d' ∧
      ∀ g k', k' ∈ bucket d' g ↔ k' ∈ bucket d g ∧ ¬(g = f ∧ k' = k) := by
  obtain ⟨d', hpop, hbucket, -⟩ := popFrom_spec hk
  refine ⟨d', hpop, fun g k' => ?_⟩
  rw [hbucket]
  by_cases hg : g = f
  · subst hg
    simp
  · simp [hg]

/-! ## The keys in the order in which they came to their frequencies -/

/-- A key comes to a frequency: it is now the last that came. -/
def arrive (arrivals : List κ) (key : κ) : List κ := arrivals.filter (· ≠ key) ++ [key]

theorem mem_arrive {k' : κ} : k' ∈ arrive arrivals k ↔ k' = k ∨ k' ∈ arrivals := by
  unfold arrive
  rw [List.mem_append, List.mem_filter, decide_eq_true_eq, List.mem_singleton]
  by_cases h : k' = k
  · simp [h]
  · simp [h]

theorem nodup_arrive (h : arrivals.Nodup) (k : κ) : (arrive arrivals k).Nodup := by
  unfold arrive
  rw [List.nodup_append]
  refine ⟨h.filter _, List.nodup_singleton k, ?_⟩
  rintro a ha b hb rfl
  rw [List.mem_singleton.mp hb] at ha
  simp at ha

/-- **The policy represents its keys**: those of `key_to_freq` have arrived; the bucket of a
frequency has the keys of that frequency, in the order of their arrival; and no bucket is empty. -/
structure Represents (p : LFUCachePolicy κ) (arrivals : List κ) : Prop where
  nodup : arrivals.Nodup
  known : ∀ k, k ∈ p.keyToFreq → k ∈ arrivals
  pos : ∀ k f, p.keyToFreq.get? k = some f → 0 < f
  bucket_eq : ∀ f, bucket p.freqToKeys f = arrivals.filter fun k => p.keyToFreq.get? k = some f
  noEmptyBucket : NoEmptyBucket p.freqToKeys

theorem represents_empty : (empty : LFUCachePolicy κ).Represents [] where
  nodup := List.nodup_nil
  known := by simp [empty]
  pos := fun _ _ h => nomatch h
  bucket_eq := fun _ => rfl
  noEmptyBucket := fun _ _ h => nomatch h

/-- Each key is in the bucket of its frequency, and in no other. -/
theorem Represents.mem_bucket (h : p.Represents arrivals) :
    k ∈ bucket p.freqToKeys f ↔ p.keyToFreq.get? k = some f := by
  rw [h.bucket_eq, List.mem_filter, decide_eq_true_eq, and_iff_right_iff_imp]
  intro hk
  exact h.known k (Dict.mem_iff_get?.mpr ⟨f, hk⟩)

/-- Only the keys of the buckets and the frequencies of the keys matter. -/
theorem Represents.congr {p' : LFUCachePolicy κ} (h : p.Represents arrivals)
    (hbucket : ∀ f, bucket p'.freqToKeys f = bucket p.freqToKeys f)
    (hfreq : ∀ k, p'.keyToFreq.get? k = p.keyToFreq.get? k) (hno : NoEmptyBucket p'.freqToKeys) :
    p'.Represents arrivals where
  nodup := h.nodup
  known := by
    intro k hk
    obtain ⟨f, hf⟩ := Dict.mem_iff_get?.mp hk
    exact h.known k (Dict.mem_iff_get?.mpr ⟨f, (hfreq k).symm.trans hf⟩)
  pos := by
    intro k f hk
    exact h.pos k f ((hfreq k).symm.trans hk)
  bucket_eq := by
    intro f
    simp only [hfreq, hbucket]
    exact h.bucket_eq f
  noEmptyBucket := hno

/-- A key is taken out of both maps. -/
theorem Represents.forget (h : p.Represents arrivals) (hk : p.keyToFreq.get? k = some f) :
    ∃ d, popFrom p.freqToKeys f k = .ok d ∧
      (⟨d, p.keyToFreq.erase k⟩ : LFUCachePolicy κ).Represents arrivals := by
  obtain ⟨d, hpop, hbucket, hno⟩ := popFrom_spec (h.mem_bucket.mpr hk)
  refine ⟨d, hpop, h.nodup, ?_, ?_, ?_, hno h.noEmptyBucket⟩
  · intro k' hk'
    exact h.known k' ((Dict.mem_erase _ _ _).mp hk').2
  · intro k' f' hk'
    rw [Dict.get?_erase] at hk'
    split at hk'
    · cases hk'
    · exact h.pos k' f' hk'
  · intro g
    rw [hbucket]
    by_cases hg : g = f
    · subst hg
      rw [if_pos rfl, h.bucket_eq, List.filter_filter]
      refine List.filter_congr fun k' _ => ?_
      rw [Dict.get?_erase]
      by_cases hkk : k' = k
      · simp [hkk]
      · simp [hkk]
    · -- only the bucket of `k` had `k` in it
      rw [if_neg hg, h.bucket_eq]
      refine List.filter_congr fun k' _ => ?_
      rw [Dict.get?_erase]
      by_cases hkk : k' = k
      · subst hkk
        simp [hk, Ne.symm hg]
      · simp [hkk]

/-- A key that has no frequency comes to one. -/
theorem Represents.bring (h : p.Represents arrivals) (hk : p.keyToFreq.get? k = none) (hf : 0 < f) :
    (⟨addTo p.freqToKeys f k, p.keyToFreq.set k f⟩ : LFUCachePolicy κ).Represents
      (arrive arrivals k) := by
  refine ⟨nodup_arrive h.nodup k, ?_, ?_, ?_, noEmptyBucket_addTo h.noEmptyBucket f k⟩
  · intro k' hk'
    rw [mem_arrive]
    exact ((Dict.mem_set _ _ _ _).mp hk').imp_right (h.known k')
  · intro k' f' hk'
    rw [Dict.get?_set] at hk'
    split at hk'
    · cases hk'
      exact hf
    · exact h.pos k' f' hk'
  · intro g
    -- the other keys keep their frequency, and `k` was in no bucket
    have hold : (arrivals.filter (· ≠ k)).filter
        (fun k' => (p.keyToFreq.set k f).get? k' = some g) = bucket p.freqToKeys g := by
      rw [h.bucket_eq, List.filter_filter]
      refine List.filter_congr fun k' _ => ?_
      rw [Dict.get?_set]
      by_cases hkk : k' = k
      · subst hkk
        simp [hk]
      · simp [hkk]
    have hnew : k ∉ bucket p.freqToKeys f := by
      rw [h.mem_bucket, hk]
      simp
    unfold arrive
    rw [bucket_addTo, List.filter_append, hold]
    by_cases hg : g = f
    · subst hg
      rw [if_pos rfl, if_neg hnew]
      simp [Dict.get?_set]
    · rw [if_neg hg]
      simp [Dict.get?_set, Ne.symm hg]

/-! ## What the operations do -/

/-- The arrivals after a put: the key comes to frequency one, unless it has it already. -/
def arrivalsOnPut (p : LFUCachePolicy κ) (arrivals : List κ) (key : κ) : List κ :=
  if p.keyToFreq.get? key = some 1 then arrivals else arrive arrivals key

/-- A put of a key that the policy does not know, or that has frequency one. -/
theorem represents_updateOnPut (h : p.Represents arrivals)
    (hk : ∀ f, p.keyToFreq.get? k = some f → f = 1) :
    (p.updateOnPut k).Represents (p.arrivalsOnPut arrivals k) := by
  unfold updateOnPut arrivalsOnPut
  cases hf : p.keyToFreq.get? k with
  | none => exact h.bring hf Nat.one_pos
  | some f =>
    obtain rfl := hk f hf
    rw [if_pos rfl]
    apply h.congr
    · intro g
      dsimp only
      rw [bucket_addTo, if_pos (h.mem_bucket.mpr hf)]
      split
      · rename_i hg
        rw [hg]
      · rfl
    · intro k'
      dsimp only
      rw [Dict.get?_set]
      split
      · rename_i hkk
        rw [hkk, hf]
      · rfl
    · exact noEmptyBucket_addTo h.noEmptyBucket 1 k

/-- A hit takes its key to the next frequency. -/
theorem represents_updateOnHit (h : p.Represents arrivals) (hk : k ∈ p.keyToFreq) :
    ∃ p', p.updateOnHit k = .ok p' ∧ p'.Represents (arrive arrivals k) ∧
      ∀ k', k' ∈ p'.keyToFreq ↔ k' ∈ p.keyToFreq := by
  obtain ⟨f, hf⟩ := Dict.mem_iff_get?.mp hk
  obtain ⟨d, hpop, hrest⟩ := h.forget hf
  refine ⟨⟨addTo d (f + 1) k, p.keyToFreq.set k (f + 1)⟩, ?_, ?_, ?_⟩
  · unfold updateOnHit
    rw [hf]
    simp [hpop, Except.map]
  · have hnone : (p.keyToFreq.erase k).get? k = none := by simp
    have hbring := hrest.bring hnone (Nat.succ_pos f)
    refine hbring.congr (fun _ => rfl) (fun k' => ?_) hbring.noEmptyBucket
    dsimp only
    rw [Dict.get?_set, Dict.get?_set, Dict.get?_erase]
    split <;> rfl
  · intro k'
    rw [Dict.mem_set]
    constructor
    · rintro (rfl | hk')
      · exact hk
      · exact hk'
    · exact .inr

theorem updateOnHit_of_notMem (hk : k ∉ p.keyToFreq) : p.updateOnHit k = .error (.key k) := by
  unfold updateOnHit
  rw [Dict.get?_eq_none.mpr hk]

/-- A forced eviction takes its key out. -/
theorem represents_updateOnForceEvict (h : p.Represents arrivals) (k : κ) :
    (p.updateOnForceEvict k).1 = none ∧ (p.updateOnForceEvict k).2.Represents arrivals ∧
      ∀ k', k' ∈ (p.updateOnForceEvict k).2.keyToFreq ↔ k' ≠ k ∧ k' ∈ p.keyToFreq := by
  unfold updateOnForceEvict
  cases hf : p.keyToFreq.get? k with
  | none =>
    refine ⟨rfl, h, fun k' => ⟨fun hk' => ⟨?_, hk'⟩, And.right⟩⟩
    rintro rfl
    exact Dict.get?_eq_none.mp hf hk'
  | some f =>
    obtain ⟨d, hpop, hrest⟩ := h.forget hf
    have hpos := h.pos k f hf
    dsimp only
    rw [if_neg (by omega), hpop]
    exact ⟨rfl, hrest, Dict.mem_erase _ _⟩

/-! ## The candidates -/

/-- An entry comes before another when its frequency is lower, or the same and its key came to it
earlier. -/
def Before (arrivals : List κ) (a b : Nat × κ) : Prop :=
  a.1 < b.1 ∨ a.1 = b.1 ∧ [a.2, b.2].Sublist arrivals

/-- The entries are read in order. -/
theorem Represents.pairwise_order (h : p.Represents arrivals) :
    (order p.freqToKeys).Pairwise (Before arrivals) := by
  have hperm := List.perm_insertionSort (fun a b : Nat × Dict κ Unit => a.1 ≤ b.1)
    p.freqToKeys.entries
  have : Std.Total (fun a b : Nat × Dict κ Unit => a.1 ≤ b.1) := ⟨fun a b => Nat.le_total a.1 b.1⟩
  have : IsTrans (Nat × Dict κ Unit) (fun a b => a.1 ≤ b.1) := ⟨fun _ _ _ => Nat.le_trans⟩
  have hsorted := List.pairwise_insertionSort (fun a b : Nat × Dict κ Unit => a.1 ≤ b.1)
    p.freqToKeys.entries
  have hnodup : (p.freqToKeys.entries.insertionSort fun a b => a.1 ≤ b.1).Pairwise
      fun a b => a.1 ≠ b.1 :=
    List.pairwise_map.mp ((hperm.map Prod.fst).nodup_iff.mpr p.freqToKeys.nodup)
  apply List.pairwise_flatMap.mpr
  constructor
  · -- within a bucket: its keys are in the order of their arrival
    rintro ⟨f, b⟩ hb
    have hbucket := bucket_of_get? (Dict.get?_eq_some.mpr (hperm.mem_iff.mp hb))
    rw [List.pairwise_map, ← hbucket, h.bucket_eq]
    apply List.pairwise_iff_forall_sublist.mpr
    intro a b hab
    exact .inr ⟨rfl, hab.trans List.filter_sublist⟩
  · -- from one bucket to a later one: the frequency is higher
    apply (hsorted.and hnodup).imp
    rintro ⟨f, b⟩ ⟨f', b'⟩ ⟨hle, hne⟩ e he e' he'
    obtain ⟨_, _, rfl⟩ := List.mem_map.mp he
    obtain ⟨_, _, rfl⟩ := List.mem_map.mp he'
    exact .inl (Nat.lt_of_le_of_ne hle hne)

theorem Represents.get?_of_mem_order (h : p.Represents arrivals) :
    e ∈ order p.freqToKeys ↔ p.keyToFreq.get? e.2 = some e.1 :=
  mem_order.trans h.mem_bucket

theorem Represents.nodup_order (h : p.Represents arrivals) :
    ((order p.freqToKeys).map Prod.snd).Nodup := by
  rw [List.nodup_iff_pairwise_ne, List.pairwise_map]
  apply h.pairwise_order.imp_of_mem
  rintro ⟨f, k⟩ ⟨f', k'⟩ he he' hbefore rfl
  have hf := h.get?_of_mem_order.mp he
  have hf' := h.get?_of_mem_order.mp he'
  rcases hbefore with hlt | ⟨-, hsub⟩
  · have : f = f' := Option.some.inj (hf.symm.trans hf')
    omega
  · exact absurd (hsub.nodup h.nodup) (by simp)

/-- The candidates among the entries that may be evicted: the first ones, or all of them if none is
asked for. -/
def firstCandidates (numCandidates taken : Nat) (evictable : List (Nat × κ)) : List (Nat × κ) :=
  if numCandidates = 0 then evictable else evictable.take (numCandidates - taken)

/-- What is chosen when `cache_dict` has every key. -/
theorem choose_eq {n : Nat} {l : List (Nat × κ)} :
    ∀ {evicted : List (Nat × κ)} {keyToFreq : Dict κ Nat},
      (∀ e ∈ l, canEvict e.2 ≠ none ∧ e.2 ∈ keyToFreq) → (l.map Prod.snd).Nodup →
      (n = 0 ∨ evicted.length < n) →
      let chosen := firstCandidates n evicted.length (l.filter fun e => canEvict e.2 = some true)
      choose canEvict n l evicted keyToFreq =
        (.ok (evicted ++ chosen), (chosen.map Prod.snd).foldl Dict.erase keyToFreq) := by
  induction l with
  | nil =>
    intro evicted keyToFreq _ _ _
    unfold choose firstCandidates
    split <;> simp
  | cons e l ih =>
    obtain ⟨f, k⟩ := e
    intro evicted keyToFreq hl hnodup hroom
    rw [List.map_cons, List.nodup_cons] at hnodup
    have hrest : ∀ e ∈ l, canEvict e.2 ≠ none ∧ e.2 ∈ keyToFreq := fun e he =>
      hl e (List.mem_cons_of_mem _ he)
    obtain ⟨hcan, hk⟩ := hl (f, k) List.mem_cons_self
    dsimp only at hcan hk
    unfold choose
    cases hc : canEvict k with
    | none => exact absurd hc hcan
    | some b =>
      cases b with
      | false =>
        rw [List.filter_cons_of_neg (by simp [hc])]
        exact ih hrest hnodup.2 hroom
      | true =>
        rw [List.filter_cons_of_pos (by simp [hc])]
        dsimp only
        rw [if_pos hk]
        by_cases hlast : (evicted ++ [(f, k)]).length = n
        · -- the last one that was asked for
          rw [if_pos hlast]
          rw [List.length_append, List.length_singleton] at hlast
          unfold firstCandidates
          rw [if_neg (by omega), show n - evicted.length = 1 by omega]
          rfl
        · rw [if_neg hlast]
          have hrest' : ∀ e ∈ l, canEvict e.2 ≠ none ∧ e.2 ∈ keyToFreq.erase k := by
            intro e he
            refine ⟨(hrest e he).1, (Dict.mem_erase _ _ _).mpr ⟨?_, (hrest e he).2⟩⟩
            rintro rfl
            exact hnodup.1 (List.mem_map.mpr ⟨e, he, rfl⟩)
          rw [List.length_append, List.length_singleton] at hlast
          rw [ih hrest' hnodup.2 (by simp only [List.length_append, List.length_singleton]; omega)]
          unfold firstCandidates
          rw [List.length_append, List.length_singleton]
          by_cases hn : n = 0
          · simp [hn]
          · rw [if_neg hn, if_neg hn,
              show n - evicted.length = (n - (evicted.length + 1)) + 1 by omega]
            simp

/-- The chosen keys can all be popped. -/
theorem Represents.popAll {l : List (Nat × κ)} :
    ∀ {d : Dict Nat (Dict κ Unit)} {keyToFreq : Dict κ Nat},
      (⟨d, keyToFreq⟩ : LFUCachePolicy κ).Represents arrivals →
      (∀ e ∈ l, keyToFreq.get? e.2 = some e.1) → (l.map Prod.snd).Nodup →
      ∃ d', LFUCachePolicy.popAll d l = (none, d') ∧
        (⟨d', (l.map Prod.snd).foldl Dict.erase keyToFreq⟩ : LFUCachePolicy κ).Represents
          arrivals := by
  induction l with
  | nil =>
    intro d keyToFreq h _ _
    exact ⟨d, rfl, h⟩
  | cons e l ih =>
    obtain ⟨f, k⟩ := e
    intro d keyToFreq h hl hnodup
    rw [List.map_cons, List.nodup_cons] at hnodup
    obtain ⟨d', hpop, hrest⟩ := h.forget (hl (f, k) List.mem_cons_self)
    have hl' : ∀ e ∈ l, (keyToFreq.erase k).get? e.2 = some e.1 := by
      intro e he
      have hne : e.2 ≠ k := by
        rintro rfl
        exact hnodup.1 (List.mem_map.mpr ⟨e, he, rfl⟩)
      rw [Dict.get?_erase, if_neg hne]
      exact hl e (List.mem_cons_of_mem _ he)
    obtain ⟨d'', hpops, h''⟩ := ih hrest hl' hnodup.2
    refine ⟨d'', ?_, h''⟩
    unfold LFUCachePolicy.popAll
    dsimp only at hpop
    rw [hpop]
    exact hpops

/-- **The candidates are the right ones**: `get_evict_candidates` raises nothing; it returns
evictable keys, in order, before any that it does not return; and it forgets those and no others. -/
structure Evicts (p p' : LFUCachePolicy κ) (canEvict : κ → Option Bool) (arrivals : List κ)
    (numCandidates : Nat) (evicted : List (Nat × κ)) : Prop where
  returns : p.getEvictCandidates canEvict numCandidates = (.ok (evicted.map Prod.snd), p')
  evictable : ∀ e ∈ evicted, canEvict e.2 = some true ∧ p.keyToFreq.get? e.2 = some e.1
  inOrder : evicted.Pairwise (Before arrivals)
  first : ∀ k f, canEvict k = some true → p.keyToFreq.get? k = some f → (f, k) ∉ evicted →
    evicted.length = numCandidates ∧ ∀ e ∈ evicted, Before arrivals e (f, k)
  forgets_keyToFreq : ∀ k, p'.keyToFreq.get? k =
    if k ∈ evicted.map Prod.snd then none else p.keyToFreq.get? k
  forgets_bucket : ∀ f, bucket p'.freqToKeys f =
    (bucket p.freqToKeys f).filter fun k => k ∉ evicted.map Prod.snd

theorem Represents.exists_evicts (h : p.Represents arrivals)
    (hall : ∀ k ∈ p.keyToFreq, canEvict k ≠ none) (n : Nat) :
    ∃ evicted p', Evicts p p' canEvict arrivals n evicted ∧ p'.Represents arrivals := by
  let evictable := (order p.freqToKeys).filter fun e => canEvict e.2 = some true
  have hsub : (firstCandidates n 0 evictable).Sublist evictable := by
    unfold firstCandidates
    split
    · exact .refl _
    · exact List.take_sublist _ _
  have hsub' : (firstCandidates n 0 evictable).Sublist (order p.freqToKeys) :=
    hsub.trans List.filter_sublist
  have hknown : ∀ e ∈ order p.freqToKeys, canEvict e.2 ≠ none ∧ e.2 ∈ p.keyToFreq := by
    intro e he
    have hmem := Dict.mem_iff_get?.mpr ⟨_, h.get?_of_mem_order.mp he⟩
    exact ⟨hall e.2 hmem, hmem⟩
  have hchoose : choose canEvict n (order p.freqToKeys) [] p.keyToFreq = _ :=
    choose_eq hknown h.nodup_order n.eq_zero_or_pos
  obtain ⟨d', hpops, h'⟩ := Represents.popAll (d := p.freqToKeys) h
    (fun e he => h.get?_of_mem_order.mp (hsub'.subset he))
    ((hsub'.map Prod.snd).nodup h.nodup_order)
  have hinOrder := h.pairwise_order.sublist hsub'
  refine ⟨firstCandidates n 0 evictable, _, ⟨?_, ?_, hinOrder, ?_, ?_, ?_⟩, h'⟩
  · unfold getEvictCandidates
    rw [hchoose]
    dsimp only [List.nil_append, List.length_nil]
    rw [hpops]
  · intro e he
    have hmem := List.mem_filter.mp (hsub.subset he)
    exact ⟨of_decide_eq_true hmem.2, h.get?_of_mem_order.mp hmem.1⟩
  · intro k f hcan hf hnot
    have hmem : (f, k) ∈ evictable :=
      List.mem_filter.mpr ⟨h.get?_of_mem_order.mpr hf, decide_eq_true hcan⟩
    have hn : n ≠ 0 := by
      intro hn
      apply hnot
      unfold firstCandidates
      rw [if_pos hn]
      exact hmem
    have htake : firstCandidates n 0 evictable = evictable.take n := if_neg hn
    rw [htake] at hnot ⊢
    -- what is not taken is left, after all that is taken
    have hsplit := List.take_append_drop n evictable
    rw [← hsplit, List.mem_append] at hmem
    have hdrop := hmem.resolve_left hnot
    have hlen := List.length_pos_of_mem hdrop
    rw [List.length_drop] at hlen
    refine ⟨by rw [List.length_take]; omega, fun e he => ?_⟩
    have hpair : evictable.Pairwise (Before arrivals) :=
      h.pairwise_order.sublist List.filter_sublist
    rw [← hsplit, List.pairwise_append] at hpair
    exact hpair.2.2 e he _ hdrop
  · exact Dict.get?_foldl_erase _ _
  · intro f
    rw [h'.bucket_eq, h.bucket_eq, List.filter_filter]
    refine List.filter_congr fun k _ => ?_
    dsimp only
    rw [Dict.get?_foldl_erase]
    split <;> simp [*]

/-! ## One candidate -/

theorem choose_one (canEvict : κ → Option Bool) (l : List (Nat × κ)) (keyToFreq : Dict κ Nat) :
    choose canEvict 1 l [] keyToFreq =
      match l.find? fun e => canEvict e.2 ≠ some false with
      | none => (.ok [], keyToFreq)
      | some e =>
        if canEvict e.2 = none ∨ e.2 ∉ keyToFreq then (.error (.key e.2), keyToFreq)
        else (.ok [e], keyToFreq.erase e.2) := by
  induction l with
  | nil => rfl
  | cons e l ih =>
    obtain ⟨f, k⟩ := e
    unfold choose
    cases hc : canEvict k with
    | none =>
      rw [List.find?_cons_of_pos (by simp [hc])]
      dsimp only
      rw [if_pos (.inl hc)]
    | some b =>
      cases b with
      | false =>
        rw [List.find?_cons_of_neg (by simp [hc])]
        exact ih
      | true =>
        rw [List.find?_cons_of_pos (by simp [hc])]
        dsimp only
        by_cases hk : k ∈ keyToFreq
        · have hrest : ¬(canEvict k = none ∨ k ∉ keyToFreq) := by simp [hc, hk]
          rw [if_pos hk, if_neg hrest]
          rfl
        · rw [if_neg hk, if_pos (.inr hk)]

/-! ## Runs of the policy -/

/-- What a backend does with its policy. -/
inductive Action (κ : Type) where
  | put (key : κ)
  | hit (key : κ)
  | forceEvict (key : κ)
  /-- `get_evict_candidates`, with what `cache_dict` says of the keys then. -/
  | evict (canEvict : κ → Option Bool) (numCandidates : Nat)

/-- A policy, and what it stands for: how often each cached key was used since it came, and the keys
in the order in which they were used last, or came. -/
structure Run (κ : Type) where
  policy : LFUCachePolicy κ
  uses : κ → Option Nat
  arrivals : List κ

namespace Run

def start : Run κ := ⟨.empty, fun _ => none, []⟩

def step (s : Run κ) : Action κ → Run κ
  | .put key =>
    ⟨s.policy.updateOnPut key, fun k => if k = key then some 1 else s.uses k,
      if s.uses key = some 1 then s.arrivals else arrive s.arrivals key⟩
  | .hit key =>
    match s.policy.updateOnHit key with
    | .error _ => s
    | .ok policy => ⟨policy, fun k => if k = key then (s.uses k).map (· + 1) else s.uses k,
        arrive s.arrivals key⟩
  | .forceEvict key =>
    ⟨(s.policy.updateOnForceEvict key).2, fun k => if k = key then none else s.uses k, s.arrivals⟩
  | .evict canEvict n =>
    match s.policy.getEvictCandidates canEvict n with
    | (.error _, policy) => { s with policy := policy }
    | (.ok keys, policy) => ⟨policy, fun k => if k ∈ keys then none else s.uses k, s.arrivals⟩

/-- A put is of a key that is new or was used once; and `cache_dict` has the keys of the policy. -/
def Allowed (s : Run κ) : Action κ → Prop
  | .put key => ∀ n, s.uses key = some n → n = 1
  | .evict canEvict _ => ∀ k, s.uses k ≠ none → canEvict k ≠ none
  | _ => True

/-- The policy counts the uses, and has its keys in their buckets. -/
structure Refines (s : Run κ) : Prop where
  represents : s.policy.Represents s.arrivals
  counts : ∀ k, s.policy.keyToFreq.get? k = s.uses k

/-- What has been used is what the policy keeps. -/
theorem held_of_counts {s : Run κ} (hcounts : ∀ k, s.policy.keyToFreq.get? k = s.uses k)
    {canEvict : κ → Option Bool} (hall : ∀ k, s.uses k ≠ none → canEvict k ≠ none) :
    ∀ k ∈ s.policy.keyToFreq, canEvict k ≠ none := by
  intro k hk
  obtain ⟨f, hf⟩ := Dict.mem_iff_get?.mp hk
  exact hall k (by rw [← hcounts, hf]; exact Option.some_ne_none f)

theorem refines_step {s : Run κ} (h : s.Refines) {a : Action κ} (ha : s.Allowed a) :
    (s.step a).Refines := by
  obtain ⟨hrep, hcounts⟩ := h
  cases a with
  | put key =>
    have hput := represents_updateOnPut hrep (k := key) fun f hf => ha f ((hcounts key).symm.trans hf)
    unfold arrivalsOnPut at hput
    rw [hcounts] at hput
    refine ⟨hput, fun k => ?_⟩
    show (s.policy.keyToFreq.set key 1).get? k = _
    rw [Dict.get?_set, hcounts]
    rfl
  | hit key =>
    simp only [step]
    by_cases hk : key ∈ s.policy.keyToFreq
    · obtain ⟨p, hhit, hrep', -⟩ := represents_updateOnHit hrep hk
      rw [hhit]
      refine ⟨hrep', fun k => ?_⟩
      obtain ⟨f, hf⟩ := Dict.mem_iff_get?.mp hk
      unfold updateOnHit at hhit
      rw [hf] at hhit
      dsimp only at hhit
      cases hpop : popFrom s.policy.freqToKeys f key with
      | error e =>
        rw [hpop] at hhit
        cases hhit
      | ok d =>
        rw [hpop] at hhit
        cases hhit
        dsimp only
        rw [Dict.get?_set, ← hcounts]
        split
        next heq => rw [heq, hf, Option.map_some]
        next => rfl
    · rw [updateOnHit_of_notMem hk]
      exact ⟨hrep, hcounts⟩
  | forceEvict key =>
    refine ⟨(represents_updateOnForceEvict hrep key).2.1, fun k => ?_⟩
    simp only [step]
    unfold updateOnForceEvict
    cases hf : s.policy.keyToFreq.get? key with
    | none =>
      dsimp only
      rw [hcounts]
      split
      next heq => rw [heq, ← hcounts, hf]
      next => rfl
    | some f =>
      obtain ⟨d, hpop, -⟩ := hrep.forget hf
      have hpos := hrep.pos key f hf
      dsimp only
      rw [if_neg (by omega), hpop]
      dsimp only
      rw [Dict.get?_erase, hcounts]
  | evict canEvict n =>
    obtain ⟨evicted, p', hevicts, hrep'⟩ := hrep.exists_evicts (held_of_counts hcounts ha) n
    simp only [step, hevicts.returns]
    refine ⟨hrep', fun k => ?_⟩
    rw [hevicts.forgets_keyToFreq, hcounts]

/-- Two keys, of which the first is used again. -/
def twoKeys : List (Action Bool) :=
  [.put false, .put true, .hit false, .evict (fun _ => some true) 1]

example : (run step start twoKeys).uses false = some 2 ∧ (run step start twoKeys).uses true = none :=
  by decide

end Run

end LFUCachePolicy

end LMCache.Storage
