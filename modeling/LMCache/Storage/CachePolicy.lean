/-
# LMCache.Storage.CachePolicy — the four cache policies, as one.

Source: `v1/storage_backend/cache_policy/`.

A policy shares the dictionary of its backend.  LRU and MRU keep the order of the dictionary, and
have nothing else; FIFO leaves it as it is; LFU keeps frequencies of its own.  What a policy has to
know of a key to be told of a hit is `Knows`: LRU and MRU look for it in the dictionary, LFU in
`key_to_freq`, and FIFO does nothing.

The times that LRU keeps for its statistics are left out.
-/
import LMCache.Storage.HotCache
import LMCache.Storage.LFUCachePolicy

namespace LMCache.Storage

open LMCache.Lib

/-- A policy, with what it keeps besides the dictionary. -/
inductive CachePolicy where
  | lru
  | lfu (p : LFUCachePolicy CacheEngineKey)
  | fifo
  | mru

namespace CachePolicy

variable {ν : Type}

/-- `POLICY_MAPPING`, with its text. -/
def policyMapping : List (String × CachePolicy) :=
  [("LRU", .lru), ("LFU", .lfu .empty), ("FIFO", .fifo), ("MRU", .mru)]

/-- `get_cache_policy`, for a name in upper case. -/
def getCachePolicy (policyName : String) : Except PyError CachePolicy :=
  if policyName = "" then .error (.valueError "Cache policy name cannot be empty")
  else
    match policyMapping.lookup policyName with
    | some policy => .ok policy
    | none =>
      .error (.valueError (s!"Unknown cache policy: {policyName}." ++
        " Supported policies are: ['LRU', 'LFU', 'FIFO', 'MRU']"))

/-- `update_on_hit`: what it raises, the policy and the dictionary it leaves. -/
def updateOnHit (p : CachePolicy) (key : CacheEngineKey) (cacheDict : Dict CacheEngineKey ν) :
    Except (LFUError CacheEngineKey) (CachePolicy × Dict CacheEngineKey ν) :=
  match p with
  -- since MRU evicts from the back, the logic is same as LRU
  | .lru | .mru =>
    match LRUCachePolicy.updateOnHit key cacheDict with
    | none => .error (.key key)
    | some cacheDict => .ok (p, cacheDict)
  | .fifo => .ok (.fifo, cacheDict)
  | .lfu q => (q.updateOnHit key).map fun q => (.lfu q, cacheDict)

def updateOnPut (p : CachePolicy) (key : CacheEngineKey) : CachePolicy :=
  match p with
  | .lru | .fifo | .mru => p
  | .lfu q => .lfu (q.updateOnPut key)

/-- `update_on_force_evict`: what it raises, and the policy. -/
def updateOnForceEvict (p : CachePolicy) (key : CacheEngineKey) :
    Option (LFUError CacheEngineKey) × CachePolicy :=
  match p with
  | .lru | .fifo | .mru => (none, p)
  | .lfu q => ((q.updateOnForceEvict key).1, .lfu (q.updateOnForceEvict key).2)

/-- `get_evict_candidates` with one candidate: the candidate, if it finds one, and the policy. -/
def getEvictCandidates (p : CachePolicy) (canEvict : ν → Bool) (cacheDict : Dict CacheEngineKey ν) :
    Except (LFUError CacheEngineKey) (List CacheEngineKey) × CachePolicy :=
  match p with
  | .lru | .fifo => (.ok (LRUCachePolicy.getEvictCandidates canEvict cacheDict 1), p)
  -- Since the most recent object is at the end, we reverse the order here
  | .mru => (.ok (LRUCachePolicy.candidatesFrom canEvict 1 cacheDict.entries.reverse []), p)
  | .lfu q =>
    let r := q.getEvictCandidates (fun key => (cacheDict.get? key).map canEvict) 1
    (r.1, .lfu r.2)

/-! ## What a policy knows -/

/-- What `update_on_hit` needs of a key. -/
def Knows (p : CachePolicy) (cacheDict : Dict CacheEngineKey ν) (key : CacheEngineKey) : Prop :=
  match p with
  | .lru | .mru => key ∈ cacheDict
  | .fifo => True
  | .lfu q => key ∈ q.keyToFreq

instance (p : CachePolicy) (d : Dict CacheEngineKey ν) (key : CacheEngineKey) :
    Decidable (p.Knows d key) :=
  match p with
  | .lru | .mru => inferInstanceAs (Decidable (key ∈ d))
  | .fifo => .isTrue trivial
  | .lfu q => inferInstanceAs (Decidable (key ∈ q.keyToFreq))

/-- Each key of LFU is in the bucket of its frequency, and no frequency is zero. -/
def Bucketed : CachePolicy → Prop
  | .lru | .fifo | .mru => True
  | .lfu q => ∀ k f, q.keyToFreq.get? k = some f → 0 < f ∧ k ∈ LFUCachePolicy.bucket q.freqToKeys f

theorem bucketed_of_mem_policyMapping : ∀ e ∈ policyMapping, e.2.Bucketed := by
  intro e he
  fin_cases he
  · trivial
  · exact fun _ _ h => (nomatch h)
  · trivial
  · trivial

variable {p : CachePolicy}

/-- **A hit** raises exactly when the policy does not know the key, and changes what it knows of
none. -/
theorem updateOnHit_spec (h : p.Bucketed) (key : CacheEngineKey) (d : Dict CacheEngineKey ν) :
    (¬p.Knows d key ∧ p.updateOnHit key d = .error (.key key)) ∨
      (p.Knows d key ∧ ∃ p' d', p.updateOnHit key d = .ok (p', d') ∧ p'.Bucketed ∧
        (∀ k, p'.Knows d' k ↔ p.Knows d k) ∧
        (p = .lru → d' = d.moveToEnd key) ∧
        (p' = .lru ↔ p = .lru) ∧ (p' = .fifo ↔ p = .fifo)) := by
  have hmove (hkey : key ∈ d) (k : CacheEngineKey) : k ∈ d.moveToEnd key ↔ k ∈ d :=
    Dict.mem_moveToEnd d key k
  match p with
  | .lru =>
    by_cases hkey : key ∈ d
    · refine .inr ⟨hkey, .lru, d.moveToEnd key, ?_, trivial, hmove hkey, fun _ => rfl, Iff.rfl,
        Iff.rfl⟩
      simp [updateOnHit, LRUCachePolicy.updateOnHit, hkey]
    · exact .inl ⟨hkey, by simp [updateOnHit, LRUCachePolicy.updateOnHit, hkey]⟩
  | .mru =>
    by_cases hkey : key ∈ d
    · refine .inr ⟨hkey, .mru, d.moveToEnd key, ?_, trivial, hmove hkey, nofun, Iff.rfl, Iff.rfl⟩
      simp [updateOnHit, LRUCachePolicy.updateOnHit, hkey]
    · exact .inl ⟨hkey, by simp [updateOnHit, LRUCachePolicy.updateOnHit, hkey]⟩
  | .fifo =>
    exact .inr ⟨trivial, .fifo, d, rfl, trivial, fun _ => Iff.rfl, nofun, Iff.rfl, Iff.rfl⟩
  | .lfu q =>
    by_cases hkey : key ∈ q.keyToFreq
    · obtain ⟨f, hf⟩ := Dict.mem_iff_get?.mp hkey
      obtain ⟨d', hpop, hbucket⟩ := LFUCachePolicy.popFrom_ok (h key f hf).2
      refine .inr ⟨hkey, .lfu ⟨LFUCachePolicy.addTo d' (f + 1) key, q.keyToFreq.set key (f + 1)⟩, d,
        ?_, ?_, ?_, nofun, by simp, by simp⟩
      · simp [updateOnHit, LFUCachePolicy.updateOnHit, hf, hpop, Except.map]
      · intro k g hg
        rw [LFUCachePolicy.mem_bucket_addTo, hbucket]
        rw [Dict.get?_set] at hg
        by_cases hk : k = key
        · rw [if_pos hk] at hg
          cases hg
          exact ⟨Nat.succ_pos f, .inl ⟨rfl, hk⟩⟩
        · -- the others stay where they are
          rw [if_neg hk] at hg
          exact ⟨(h k g hg).1, .inr ⟨(h k g hg).2, fun hboth => hk hboth.2⟩⟩
      · intro k
        show k ∈ q.keyToFreq.set key (f + 1) ↔ k ∈ q.keyToFreq
        rw [Dict.mem_set]
        exact ⟨fun hk => hk.elim (fun hk => hk ▸ hkey) id, .inr⟩
    · refine .inl ⟨hkey, ?_⟩
      simp [updateOnHit, LFUCachePolicy.updateOnHit_of_notMem hkey, Except.map]

/-- A put makes LFU know the key. -/
theorem updateOnPut_spec (h : p.Bucketed) (key : CacheEngineKey) :
    (p.updateOnPut key).Bucketed ∧ (∀ (d : Dict CacheEngineKey ν) k,
      p.Knows d k → (p.updateOnPut key).Knows d k) ∧
      (p.updateOnPut key = .lru ↔ p = .lru) ∧ (p.updateOnPut key = .fifo ↔ p = .fifo) := by
  match p with
  | .lru | .fifo | .mru => exact ⟨trivial, fun _ _ hk => hk, Iff.rfl, Iff.rfl⟩
  | .lfu q =>
    refine ⟨fun k f hf => ?_, fun d k hk => (Dict.mem_set _ _ _ _).mpr (.inr hk), ?_, ?_⟩
    · show 0 < f ∧ k ∈ LFUCachePolicy.bucket (LFUCachePolicy.addTo q.freqToKeys 1 key) f
      rw [LFUCachePolicy.mem_bucket_addTo]
      have hf : (q.keyToFreq.set key 1).get? k = some f := hf
      rw [Dict.get?_set] at hf
      by_cases hk : k = key
      · rw [if_pos hk] at hf
        cases hf
        exact ⟨Nat.one_pos, .inl ⟨rfl, hk⟩⟩
      · rw [if_neg hk] at hf
        exact ⟨(h k f hf).1, .inr (h k f hf).2⟩
    · simp [updateOnPut]
    · simp [updateOnPut]

/-- LFU forgets a key that is popped from the bucket of a frequency. -/
theorem bucketed_forget {q : LFUCachePolicy CacheEngineKey} (h : (CachePolicy.lfu q).Bucketed)
    {key : CacheEngineKey} {f : Nat} {d' : Dict Nat (Dict CacheEngineKey Unit)}
    (hbucket : ∀ g k, k ∈ LFUCachePolicy.bucket d' g ↔
      k ∈ LFUCachePolicy.bucket q.freqToKeys g ∧ ¬(g = f ∧ k = key)) :
    (CachePolicy.lfu ⟨d', q.keyToFreq.erase key⟩).Bucketed := by
  intro k g hg
  have hg : (q.keyToFreq.erase key).get? k = some g := hg
  rw [Dict.get?_erase] at hg
  split at hg
  · cases hg
  · rename_i hk
    exact ⟨(h k g hg).1, (hbucket g k).mpr ⟨(h k g hg).2, fun hboth => hk hboth.2⟩⟩

/-- **A forced eviction** raises nothing; the key is taken out of the dictionary with it. -/
theorem updateOnForceEvict_spec (h : p.Bucketed) (key : CacheEngineKey) :
    ∃ p', p.updateOnForceEvict key = (none, p') ∧ p'.Bucketed ∧
      (∀ (d : Dict CacheEngineKey ν) k,
        p'.Knows (d.erase key) k ↔ p.Knows d k ∧ (p = .fifo ∨ k ≠ key)) ∧
      (p' = .lru ↔ p = .lru) ∧ (p' = .fifo ↔ p = .fifo) := by
  have herase (d : Dict CacheEngineKey ν) (k : CacheEngineKey) :
      k ∈ d.erase key ↔ k ∈ d ∧ k ≠ key := by
    rw [Dict.mem_erase, and_comm]
  match p with
  | .lru =>
    exact ⟨.lru, rfl, trivial, fun d k => by simpa [Knows] using herase d k, Iff.rfl, Iff.rfl⟩
  | .mru =>
    exact ⟨.mru, rfl, trivial, fun d k => by simpa [Knows] using herase d k, Iff.rfl, Iff.rfl⟩
  | .fifo => exact ⟨.fifo, rfl, trivial, fun d k => by simp [Knows], Iff.rfl, Iff.rfl⟩
  | .lfu q =>
    cases hf : q.keyToFreq.get? key with
    | none =>
      refine ⟨.lfu q, ?_, h, fun d k => ?_, Iff.rfl, Iff.rfl⟩
      · simp [updateOnForceEvict, LFUCachePolicy.updateOnForceEvict, hf]
      · have hnot : key ∉ q.keyToFreq := Dict.get?_eq_none.mp hf
        simp only [Knows, reduceCtorEq, false_or]
        exact ⟨fun hk => ⟨hk, fun heq => hnot (heq ▸ hk)⟩, And.left⟩
    | some f =>
      obtain ⟨hpos, hin⟩ := h key f hf
      obtain ⟨d', hpop, hbucket⟩ := LFUCachePolicy.popFrom_ok hin
      refine ⟨.lfu ⟨d', q.keyToFreq.erase key⟩, ?_, bucketed_forget h hbucket, fun d k => ?_,
        by simp, by simp⟩
      · simp [updateOnForceEvict, LFUCachePolicy.updateOnForceEvict, hf, hpop, Nat.ne_of_gt hpos]
      · simp only [Knows, reduceCtorEq, false_or]
        rw [Dict.mem_erase, and_comm]

/-- **An eviction**: the candidates, if there are any, are what the policy forgets. -/
theorem getEvictCandidates_spec (h : p.Bucketed) (canEvict : ν → Bool) (d : Dict CacheEngineKey ν) :
    (p.getEvictCandidates canEvict d).2.Bucketed ∧
      ((p.getEvictCandidates canEvict d).2 = .lru ↔ p = .lru) ∧
      ((p.getEvictCandidates canEvict d).2 = .fifo ↔ p = .fifo) ∧
      match (p.getEvictCandidates canEvict d).1 with
      | .error _ => (p.getEvictCandidates canEvict d).2 = p
      | .ok keys => ∀ (d' : Dict CacheEngineKey ν) k,
          (p.getEvictCandidates canEvict d).2.Knows d' k ↔
            p.Knows d' k ∧ ((∀ q, p ≠ .lfu q) ∨ k ∉ keys) := by
  match p with
  | .lru => exact ⟨trivial, Iff.rfl, Iff.rfl, fun d' k => by simp [getEvictCandidates]⟩
  | .fifo => exact ⟨trivial, Iff.rfl, Iff.rfl, fun d' k => by simp [getEvictCandidates]⟩
  | .mru => exact ⟨trivial, Iff.rfl, Iff.rfl, fun d' k => by simp [getEvictCandidates]⟩
  | .lfu q =>
    generalize hcan : (fun key => (d.get? key).map canEvict) = can
    have hget : (CachePolicy.lfu q).getEvictCandidates canEvict d =
        ((q.getEvictCandidates can 1).1, .lfu (q.getEvictCandidates can 1).2) := by
      rw [← hcan]
      rfl
    rw [hget]
    dsimp only
    have hchoose := LFUCachePolicy.choose_one can (LFUCachePolicy.order q.freqToKeys) q.keyToFreq
    unfold LFUCachePolicy.getEvictCandidates
    rw [hchoose]
    cases hfree : (LFUCachePolicy.order q.freqToKeys).find? fun e => can e.2 ≠ some false with
    | none =>
      refine ⟨h, by simp, by simp, fun d' k => ?_⟩
      simp [LFUCachePolicy.popAll]
    | some e =>
      obtain ⟨f, key⟩ := e
      dsimp only
      by_cases habsent : can key = none ∨ key ∉ q.keyToFreq
      · rw [if_pos habsent]
        exact ⟨h, by simp, by simp, rfl⟩
      · rw [if_neg habsent]
        have hin := LFUCachePolicy.mem_order.mp (List.mem_of_find?_eq_some hfree)
        obtain ⟨d', hpop, hbucket⟩ := LFUCachePolicy.popFrom_ok hin
        have hall : LFUCachePolicy.popAll q.freqToKeys [(f, key)] = (none, d') := by
          unfold LFUCachePolicy.popAll
          rw [hpop]
          rfl
        dsimp only
        rw [hall]
        refine ⟨bucketed_forget h hbucket, by simp, by simp, fun d'' k => ?_⟩
        simp only [Knows, List.map_cons, List.map_nil, List.mem_singleton]
        rw [Dict.mem_erase, and_comm]
        simp

end CachePolicy

end LMCache.Storage
