/-
# LMCache.LookupClient.LookupWrappers — what is put around a lookup client.

Source: `create_lookup_client` of `v1/lookup_client/factory.py`, and the clients of
`hit_limit_lookup_client.py` and `chunk_statistics_lookup_client.py` beside it.

The client inside is a machine of its own: an event of it may end a call of `lookup` or of
`lookup_cache`, or clear a lookup id.  Both wrappers have a `lookup` of their own and hand
`lookup_cache` through, so `lookup` reports a limited count and `lookup_cache` the real one.

A lookup id lives from one `clear_lookup_status` to the next.  What it is looked up for in each of
its lives is given from outside, and so is what the workers answer.  The counts reported in a life
are kept in a ledger that no call reads.  Ratios are exact rationals.
-/
import LMCache.LookupClient.RecordStrategies
import LMCache.Lib.Run
import Mathlib.Algebra.Order.Floor.Semiring
import Mathlib.Data.Rat.Floor
import Mathlib.Tactic.Linarith

namespace LMCache.LookupClient

open LMCache.Lib

/-! ## Clients -/

/-- What a lookup id is looked up for, and what each worker answers. -/
structure Request where
  tokenIds : List Int
  answers : List Nat
  deriving DecidableEq, Repr

/-- What an event of a client completes. -/
inductive CallEnd where
  | lookup (id : String) (result : Except PyError (Option Int))
  | lookupCache (id : String) (result : Except PyError (Option Int))
  /-- `clear_lookup_status`, by the scheduler or by the client itself. -/
  | clearLookupStatus (id : String)

/-- A client, over all its threads, with the request that each lookup id stands for. -/
structure LookupMachine (σ ε : Type) where
  init : σ
  step : (String → Request) → σ → ε → σ
  ends : (String → Request) → σ → ε → Option CallEnd

/-! ## The hit limit -/

/-- `HitLimitLookupClient`, without the client inside. -/
structure HitLimitLookupClient where
  hitRatioUpper : Rat
  chunkSize : Nat
  nonneg : 0 ≤ hitRatioUpper
  le_one : hitRatioUpper ≤ 1

namespace HitLimitLookupClient

/-- `current_hit_ratio`. -/
def currentHitRatio (totalTokensLength : Nat) (result : Int) : Rat :=
  if 0 < totalTokensLength then (result : Rat) / totalTokensLength else 0

/-- What `lookup` makes of a count. -/
def limit (l : HitLimitLookupClient) (totalTokensLength : Nat) (result : Int) :
    Except PyError Int :=
  if (totalTokensLength : Int) < result then .error (.assertionError "")
  else if l.hitRatioUpper < currentHitRatio totalTokensLength result then
    if l.chunkSize = 0 then .error (.zeroDivisionError "integer division or modulo by zero")
    else .ok (min result
      ((⌊totalTokensLength * l.hitRatioUpper⌋₊ / l.chunkSize * l.chunkSize : Nat) : Int))
  else .ok result

/-- `lookup`, behind that of the client inside. -/
def lookup (l : HitLimitLookupClient) (tokenIds : List Int) :
    Except PyError (Option Int) → Except PyError (Option Int)
  | .ok (some result) => (l.limit tokenIds.length result).map some
  | result => result

variable {n : Nat} {result : Int} {l : HitLimitLookupClient}

/-- A count is over the ratio if it is over that part of the tokens. -/
theorem currentHitRatio_le_iff (l : HitLimitLookupClient) (hle : result ≤ n) :
    currentHitRatio n result ≤ l.hitRatioUpper ↔ (result : Rat) ≤ l.hitRatioUpper * n := by
  unfold currentHitRatio
  split
  · rename_i hn
    exact div_le_iff₀ (by exact_mod_cast hn)
  · rename_i hn
    have hzero : n = 0 := by omega
    subst hzero
    have hresult : (result : Rat) ≤ 0 := by exact_mod_cast hle
    exact iff_of_true l.nonneg (by simpa using hresult)

/-- What `lookup` reports: the count itself, or what is left of the limit in whole chunks. -/
theorem limit_eq_ok_iff {v : Int} :
    l.limit n result = .ok v ↔ result ≤ n ∧
      ((result : Rat) ≤ l.hitRatioUpper * n ∧ v = result ∨
        l.hitRatioUpper * n < result ∧ l.chunkSize ≠ 0 ∧
          v = min result ((⌊n * l.hitRatioUpper⌋₊ / l.chunkSize * l.chunkSize : Nat) : Int)) := by
  unfold limit
  by_cases hlt : (n : Int) < result
  · rw [if_pos hlt]
    exact iff_of_false (fun h => nomatch h) fun h => absurd h.1 (not_le.mpr hlt)
  · have hle := not_lt.mp hlt
    rw [if_neg hlt, and_iff_right hle]
    by_cases hratio : l.hitRatioUpper < currentHitRatio n result
    · have hover := hratio
      rw [← not_le, l.currentHitRatio_le_iff hle] at hover
      rw [if_pos hratio]
      by_cases hchunk : l.chunkSize = 0
      · rw [if_pos hchunk]
        refine iff_of_false (fun h => nomatch h) ?_
        rintro (⟨h, -⟩ | ⟨-, h, -⟩)
        · exact hover h
        · exact h hchunk
      · rw [if_neg hchunk]
        constructor
        · exact fun h => Or.inr ⟨not_le.mp hover, hchunk, (Except.ok.inj h).symm⟩
        · rintro (⟨h, -⟩ | ⟨-, -, rfl⟩)
          · exact absurd h hover
          · rfl
    · have hunder := (l.currentHitRatio_le_iff hle).mp (not_lt.mp hratio)
      rw [if_neg hratio]
      constructor
      · exact fun h => Or.inl ⟨hunder, (Except.ok.inj h).symm⟩
      · rintro (⟨-, rfl⟩ | ⟨h, -⟩)
        · rfl
        · exact absurd hunder (not_le.mpr h)

/-- No count is limited that keeps to the limit. -/
theorem limit_of_le (h : (result : Rat) ≤ l.hitRatioUpper * n) : l.limit n result = .ok result := by
  have hle : (result : Rat) ≤ n :=
    h.trans (mul_le_of_le_one_left (Nat.cast_nonneg n) l.le_one)
  exact limit_eq_ok_iff.mpr ⟨by exact_mod_cast hle, Or.inl ⟨h, rfl⟩⟩

/-- What `lookup` reports keeps to the limit. -/
theorem le_of_limit {v : Int} (h : l.limit n result = .ok v) : (v : Rat) ≤ l.hitRatioUpper * n := by
  rcases limit_eq_ok_iff.mp h with ⟨-, ⟨hle, rfl⟩ | ⟨-, -, hv⟩⟩
  · exact hle
  · have hfloor : ((⌊n * l.hitRatioUpper⌋₊ / l.chunkSize * l.chunkSize : Nat) : Rat) ≤
        n * l.hitRatioUpper :=
      (Nat.cast_le.mpr (Nat.div_mul_le_self _ _)).trans
        (Nat.floor_le (mul_nonneg (Nat.cast_nonneg n) l.nonneg))
    have hmin : v ≤ ((⌊n * l.hitRatioUpper⌋₊ / l.chunkSize * l.chunkSize : Nat) : Int) :=
      hv ▸ min_le_right _ _
    have hcast := Int.cast_le (R := Rat).mpr hmin
    rw [Int.cast_natCast] at hcast
    rw [mul_comm]
    exact hcast.trans hfloor

theorem nonneg_of_limit {v : Int} (hresult : 0 ≤ result) (h : l.limit n result = .ok v) :
    0 ≤ v := by
  rcases limit_eq_ok_iff.mp h with ⟨-, ⟨-, rfl⟩ | ⟨-, -, rfl⟩⟩
  · exact hresult
  · exact le_min hresult (Int.natCast_nonneg _)

/-- Nothing is left of the limit when it is less than a chunk. -/
theorem min_eq_zero_iff (hresult : 0 ≤ result) (hchunk : l.chunkSize ≠ 0) :
    min result ((⌊n * l.hitRatioUpper⌋₊ / l.chunkSize * l.chunkSize : Nat) : Int) = 0 ↔
      result = 0 ∨ ⌊n * l.hitRatioUpper⌋₊ < l.chunkSize := by
  have hwhole : ⌊n * l.hitRatioUpper⌋₊ / l.chunkSize * l.chunkSize = 0 ↔
      ⌊n * l.hitRatioUpper⌋₊ < l.chunkSize := by
    rw [Nat.mul_eq_zero, Nat.div_eq_zero_iff]
    tauto
  rw [← hwhole]
  omega

end HitLimitLookupClient

/-! ## The chunk statistics -/

/-- How lookups are recorded. -/
inductive RecordKind where
  | fileHash
  | memoryBloomFilter (bloom : BloomConfig)

/-- The recorder of a `ChunkStatisticsLookupClient`. -/
structure RecorderKind where
  db : ChunkedTokenDatabase
  strategy : RecordKind
  preprocessInCaller : Bool

/-- What `record_async` raises in its caller, if anything. -/
def RecorderKind.recordAsync (r : RecorderKind) (tokenIds : List Int) : Except PyError Unit :=
  if r.preprocessInCaller then
    match r.strategy with
    | .fileHash => ((fileHashStrategy r.db).preprocess tokenIds).map fun _ => ()
    | .memoryBloomFilter bloom =>
      ((memoryBloomFilterStrategy r.db bloom).preprocess tokenIds).map fun _ => ()
  else .ok ()

/-- What a `ChunkStatisticsLookupClient` reads. -/
structure ChunkStatistics where
  enabled : Bool
  requestSeen : List String
  deriving DecidableEq, Repr

/-- `lookup` of a `ChunkStatisticsLookupClient`, behind that of the client inside.  The last flag
is whether `_check_exit_conditions` stops the statistics. -/
def ChunkStatistics.lookup (recorder : RecorderKind) (st : ChunkStatistics) (id : String)
    (tokenIds : List Int) (result : Except PyError (Option Int)) (stops : Bool) :
    Except PyError (Option Int) × ChunkStatistics :=
  match result with
  | .error e => (.error e, st)
  | .ok result =>
    if st.enabled then
      if id ∈ st.requestSeen then (.ok result, st)
      else
        match recorder.recordAsync tokenIds with
        | .error e => (.error e, { st with requestSeen := id :: st.requestSeen })
        | .ok () => (.ok result, ⟨!stops, id :: st.requestSeen⟩)
    else (.ok result, st)

/-! ## The stack -/

/-- What is put around the client. -/
structure LookupStack where
  hitLimit : Option HitLimitLookupClient
  chunkStatistics : Option RecorderKind

/-- What `create_lookup_client` reads, for a client that is not external. -/
structure LookupConfig where
  hitMissRatio : Option Rat
  chunkSize : Nat
  enableChunkStatistics : Bool
  autoStartStatistics : Bool
  recorder : RecorderKind

/-- The wrappers of `create_lookup_client`. -/
def createLookupClient (config : LookupConfig) : LookupStack where
  hitLimit :=
    match config.hitMissRatio with
    | some ratio =>
      if h : 0 ≤ ratio ∧ ratio ≤ 1 then
        some ⟨1 - ratio, config.chunkSize, by linarith only [h.2], by linarith only [h.1]⟩
      else none
    | none => none
  chunkStatistics := if config.enableChunkStatistics then some config.recorder else none

/-- `lookup` up to the chunk statistics. -/
def LookupStack.limited (stack : LookupStack) (tokenIds : List Int)
    (result : Except PyError (Option Int)) : Except PyError (Option Int) :=
  match stack.hitLimit with
  | some l => l.lookup tokenIds result
  | none => result

/-- `lookup` of the whole stack, from what it is up to the chunk statistics. -/
def LookupStack.recorded (stack : LookupStack) (st : ChunkStatistics) (id : String)
    (tokenIds : List Int) (result : Except PyError (Option Int)) (stops : Bool) :
    Except PyError (Option Int) × ChunkStatistics :=
  match stack.chunkStatistics with
  | some recorder => st.lookup recorder id tokenIds result stops
  | none => (result, st)

namespace LookupStack

variable {stack : LookupStack} {tokenIds : List Int}

@[simp] theorem limited_error (e : PyError) : stack.limited tokenIds (.error e) = .error e := by
  unfold limited
  cases stack.hitLimit <;> rfl

@[simp] theorem limited_none : stack.limited tokenIds (.ok none) = .ok none := by
  unfold limited
  cases stack.hitLimit <;> rfl

variable {hits : Int}

/-- A count comes through as it is without a limit, and as the limit makes it with one. -/
theorem limited_eq_ok_iff {v : Int} :
    stack.limited tokenIds (.ok (some hits)) = .ok (some v) ↔
      stack.hitLimit = none ∧ v = hits ∨
        ∃ l ∈ stack.hitLimit, l.limit tokenIds.length hits = .ok v := by
  unfold limited
  cases stack.hitLimit with
  | none => simp [eq_comm]
  | some l =>
    show (l.limit tokenIds.length hits).map some = _ ↔ _
    cases hlimit : l.limit tokenIds.length hits with
    | error e => simp [Except.map, hlimit]
    | ok w => simp [Except.map, hlimit]

/-- A count that keeps to the limit comes through. -/
theorem limited_of_le (h : ∀ l ∈ stack.hitLimit, (hits : Rat) ≤ l.hitRatioUpper * tokenIds.length) :
    stack.limited tokenIds (.ok (some hits)) = .ok (some hits) := by
  rw [limited_eq_ok_iff]
  cases hl : stack.hitLimit with
  | none => exact Or.inl ⟨rfl, rfl⟩
  | some l => exact Or.inr ⟨l, rfl, HitLimitLookupClient.limit_of_le (h l hl)⟩

theorem limited_zero : stack.limited tokenIds (.ok (some 0)) = .ok (some 0) := by
  refine limited_of_le fun l _ => ?_
  rw [Int.cast_zero]
  exact mul_nonneg l.nonneg (Nat.cast_nonneg _)

theorem le_of_limited {v : Int} (h : stack.limited tokenIds (.ok (some hits)) = .ok (some v)) :
    ∀ l ∈ stack.hitLimit, (v : Rat) ≤ l.hitRatioUpper * tokenIds.length := by
  intro l hl
  rcases limited_eq_ok_iff.mp h with ⟨hnone, -⟩ | ⟨l', hl', hlimit⟩
  · rw [hnone] at hl
    cases hl
  · cases Option.mem_unique hl hl'
    exact HitLimitLookupClient.le_of_limit hlimit

theorem nonneg_of_limited {v : Int} (hhits : 0 ≤ hits)
    (h : stack.limited tokenIds (.ok (some hits)) = .ok (some v)) : 0 ≤ v := by
  rcases limited_eq_ok_iff.mp h with ⟨-, rfl⟩ | ⟨l, -, hlimit⟩
  · exact hhits
  · exact HitLimitLookupClient.nonneg_of_limit hhits hlimit

/-- A lookup of this many hits reports 0, if anything. -/
def Harmless (stack : LookupStack) (n : Nat) (hits : Int) : Prop :=
  hits = 0 ∨ ∃ l ∈ stack.hitLimit, l.hitRatioUpper * n < hits ∧
    ((n : Int) < hits ∨ l.chunkSize = 0 ∨ ⌊n * l.hitRatioUpper⌋₊ < l.chunkSize)

theorem harmless_iff (hhits : 0 ≤ hits) :
    stack.Harmless tokenIds.length hits ↔
      ∀ v, stack.limited tokenIds (.ok (some hits)) = .ok (some v) → v = 0 := by
  constructor
  · intro hharmless v hv
    rcases limited_eq_ok_iff.mp hv with ⟨hnone, rfl⟩ | ⟨l, hl, hlimit⟩
    · rcases hharmless with hzero | ⟨l, hl, -⟩
      · exact hzero
      · rw [hnone] at hl
        cases hl
    · obtain ⟨hle, hcases⟩ := HitLimitLookupClient.limit_eq_ok_iff.mp hlimit
      rcases hharmless with rfl | ⟨l', hl', hover, hfew⟩
      · rcases hcases with ⟨-, rfl⟩ | ⟨-, hchunk, rfl⟩
        · rfl
        · exact (HitLimitLookupClient.min_eq_zero_iff hhits hchunk).mpr (Or.inl rfl)
      · cases Option.mem_unique hl hl'
        rcases hcases with ⟨hunder, -⟩ | ⟨-, hchunk, rfl⟩
        · exact absurd hunder (not_le.mpr hover)
        · refine (HitLimitLookupClient.min_eq_zero_iff hhits hchunk).mpr (Or.inr ?_)
          exact (hfew.resolve_left (not_lt.mpr hle)).resolve_left hchunk
  · intro h
    unfold Harmless
    by_cases hunder : ∀ l ∈ stack.hitLimit, (hits : Rat) ≤ l.hitRatioUpper * tokenIds.length
    · exact Or.inl (h hits (limited_of_le hunder))
    · push Not at hunder
      obtain ⟨l, hl, hover⟩ := hunder
      by_cases hless : hits ≤ tokenIds.length ∧ l.chunkSize ≠ 0
      · have hmin := h _ (limited_eq_ok_iff.mpr (Or.inr ⟨l, hl,
          HitLimitLookupClient.limit_eq_ok_iff.mpr ⟨hless.1, Or.inr ⟨hover, hless.2, rfl⟩⟩⟩))
        rcases (HitLimitLookupClient.min_eq_zero_iff hhits hless.2).mp hmin with hzero | hfloor
        · exact Or.inl hzero
        · exact Or.inr ⟨l, hl, hover, Or.inr (Or.inr hfloor)⟩
      · rcases not_and_or.mp hless with hmore | hchunk
        · exact Or.inr ⟨l, hl, hover, Or.inl (not_le.mp hmore)⟩
        · exact Or.inr ⟨l, hl, hover, Or.inr (Or.inl (not_not.mp hchunk))⟩

end LookupStack

/-- A client in its wrappers, with the ledger. -/
structure LookupRun (σ : Type) where
  client : σ
  statistics : ChunkStatistics
  /-- How many times an id was cleared. -/
  lives : String → Nat
  /-- How many tokens an id was last looked up with. -/
  tokens : String → Nat
  /-- The counts reported for an id in this life, each with the number of tokens. -/
  reported : String → List (Int × Nat)
  /-- What each `lookup` returned or raised, and what it would have without chunk statistics. -/
  results : List (Except PyError (Option Int) × Except PyError (Option Int))

inductive StackEvent (ε : Type) where
  | client (e : ε) (stops : Bool)
  | startStatistics
  | stopStatistics
  | resetStatistics
  deriving DecidableEq, Repr

namespace LookupRun

variable {σ ε : Type}

def init (M : LookupMachine σ ε) (config : LookupConfig) : LookupRun σ where
  client := M.init
  statistics := ⟨config.autoStartStatistics, []⟩
  lives := fun _ => 0
  tokens := fun _ => 0
  reported := fun _ => []
  results := []

/-- What each id is looked up for in this life. -/
def now (requests : String → Nat → Request) (s : LookupRun σ) (id : String) : Request :=
  requests id (s.lives id)

/-- A count is reported.  `lookup_cache` answers -1 when it has none. -/
def report (s : LookupRun σ) (id : String) (n : Nat) (result : Except PyError (Option Int)) :
    LookupRun σ :=
  match result with
  | .ok (some v) =>
    if v = -1 then s
    else { s with reported := Function.update s.reported id ((v, n) :: s.reported id) }
  | _ => s

/-- A call of `lookup` has come back to the wrappers. -/
def lookup (stack : LookupStack) (s : LookupRun σ) (id : String) (tokenIds : List Int)
    (result : Except PyError (Option Int)) (stops : Bool) : LookupRun σ :=
  let inner := stack.limited tokenIds result
  let outer := stack.recorded s.statistics id tokenIds inner stops
  report
    { s with
      statistics := outer.2
      tokens := Function.update s.tokens id tokenIds.length
      results := s.results ++ [(outer.1, inner)] }
    id tokenIds.length outer.1

/-- What the wrappers and the ledger do at the end of a call. -/
def finish (stack : LookupStack) (request : String → Request) (s : LookupRun σ) (stops : Bool) :
    Option CallEnd → LookupRun σ
  | none => s
  | some (.lookup id result) => s.lookup stack id (request id).tokenIds result stops
  | some (.lookupCache id result) => s.report id (s.tokens id) result
  | some (.clearLookupStatus id) =>
    { s with
      lives := Function.update s.lives id (s.lives id + 1)
      reported := Function.update s.reported id [] }

def step (M : LookupMachine σ ε) (stack : LookupStack) (requests : String → Nat → Request)
    (s : LookupRun σ) : StackEvent ε → LookupRun σ
  | .client e stops =>
    { s with client := M.step (s.now requests) s.client e }.finish stack (s.now requests) stops
      (M.ends (s.now requests) s.client e)
  | .startStatistics => { s with statistics := { s.statistics with enabled := true } }
  | .stopStatistics => { s with statistics := { s.statistics with enabled := false } }
  | .resetStatistics => { s with statistics := { s.statistics with requestSeen := [] } }

/-! ## What the wrappers should not change -/

/-- The wrappers are transparent. -/
structure Transparent (stack : LookupStack) (s : LookupRun σ) : Prop where
  /-- The counts reported for an id in one life are equal. -/
  equal : ∀ id, ∀ r ∈ s.reported id, ∀ r' ∈ s.reported id, r.1 = r'.1
  /-- With a limit each of them keeps to it. -/
  limited : ∀ l ∈ stack.hitLimit, ∀ id, ∀ r ∈ s.reported id, (r.1 : Rat) ≤ l.hitRatioUpper * r.2
  /-- Chunk statistics change no result. -/
  unchanged : ∀ r ∈ s.results, r.1 = r.2

/-- A count that may be reported. -/
def Fits (stack : LookupStack) (s : LookupRun σ) (id : String) (n : Nat) (v : Int) : Prop :=
  (∀ r ∈ s.reported id, r.1 = v) ∧ ∀ l ∈ stack.hitLimit, (v : Rat) ≤ l.hitRatioUpper * n

/-- Chunk statistics that are to record a lookup can do so. -/
def Records (stack : LookupStack) (s : LookupRun σ) (id : String) (tokenIds : List Int) : Prop :=
  ∀ recorder ∈ stack.chunkStatistics, s.statistics.enabled = true →
    id ∉ s.statistics.requestSeen → (recorder.recordAsync tokenIds).isOk = true

variable {M : LookupMachine σ ε} {stack : LookupStack} {requests : String → Nat → Request}
  {s : LookupRun σ}

/-! ### What a call leaves in the ledger -/

@[simp] theorem report_client (s : LookupRun σ) (id : String) (n : Nat)
    (result : Except PyError (Option Int)) : (s.report id n result).client = s.client := by
  unfold report
  split
  · split <;> rfl
  · rfl

@[simp] theorem report_lives (s : LookupRun σ) (id : String) (n : Nat)
    (result : Except PyError (Option Int)) : (s.report id n result).lives = s.lives := by
  unfold report
  split
  · split <;> rfl
  · rfl

@[simp] theorem report_tokens (s : LookupRun σ) (id : String) (n : Nat)
    (result : Except PyError (Option Int)) : (s.report id n result).tokens = s.tokens := by
  unfold report
  split
  · split <;> rfl
  · rfl

@[simp] theorem report_results (s : LookupRun σ) (id : String) (n : Nat)
    (result : Except PyError (Option Int)) : (s.report id n result).results = s.results := by
  unfold report
  split
  · split <;> rfl
  · rfl

@[simp] theorem report_now (s : LookupRun σ) (id : String) (n : Nat)
    (result : Except PyError (Option Int)) :
    (s.report id n result).now requests = s.now requests := by
  funext id'
  unfold now
  rw [report_lives]

variable {result : Except PyError (Option Int)}

theorem mem_reported_report {id id' : String} {n : Nat} {r : Int × Nat} :
    r ∈ (s.report id n result).reported id' ↔
      r ∈ s.reported id' ∨ id' = id ∧ r.2 = n ∧ result = .ok (some r.1) ∧ r.1 ≠ -1 := by
  unfold report
  split
  · rename_i v
    split
    · rename_i hv
      refine ⟨Or.inl, fun h => h.resolve_right ?_⟩
      rintro ⟨-, -, hresult, hne⟩
      cases hresult
      exact hne hv
    · rename_i hv
      show r ∈ Function.update s.reported id ((v, n) :: s.reported id) id' ↔ _
      by_cases hid : id' = id
      · subst hid
        rw [Function.update_self, List.mem_cons]
        constructor
        · rintro (rfl | h)
          · exact Or.inr ⟨rfl, rfl, rfl, hv⟩
          · exact Or.inl h
        · rintro (h | ⟨-, hn, hresult, -⟩)
          · exact Or.inr h
          · exact Or.inl (Prod.ext (Option.some.inj (Except.ok.inj hresult)).symm hn)
      · rw [Function.update_of_ne hid]
        exact ⟨Or.inl, fun h => h.resolve_right fun h => hid h.1⟩
  · rename_i hresult
    exact ⟨Or.inl, fun h => h.resolve_right fun h => hresult _ h.2.2.1⟩

theorem transparent_init (config : LookupConfig) : Transparent stack (init M config) where
  equal _ _ h := (nomatch h)
  limited _ _ _ _ h := (nomatch h)
  unchanged _ h := (nomatch h)

/-- A count is reported transparently if and only if it fits. -/
theorem transparent_report_iff (h : Transparent stack s) (id : String) (n : Nat)
    (result : Except PyError (Option Int)) :
    Transparent stack (s.report id n result) ↔
      ∀ v, result = .ok (some v) → v ≠ -1 → s.Fits stack id n v := by
  unfold report
  split
  · rename_i v
    split
    · rename_i hv
      refine iff_of_true h fun w hw hne => absurd ?_ hne
      cases hw
      exact hv
    · rename_i hv
      have hself : Function.update s.reported id ((v, n) :: s.reported id) id =
          (v, n) :: s.reported id := Function.update_self ..
      constructor
      · intro h' w hw _
        cases hw
        have hequal : ∀ r ∈ Function.update s.reported id ((v, n) :: s.reported id) id,
            ∀ r' ∈ Function.update s.reported id ((v, n) :: s.reported id) id, r.1 = r'.1 :=
          h'.equal id
        have hlimited : ∀ l ∈ stack.hitLimit,
            ∀ r ∈ Function.update s.reported id ((v, n) :: s.reported id) id,
              (r.1 : Rat) ≤ l.hitRatioUpper * r.2 := fun l hl => h'.limited l hl id
        rw [hself] at hequal hlimited
        exact ⟨fun r hr => hequal r (List.mem_cons_of_mem _ hr) (v, n) List.mem_cons_self,
          fun l hl => hlimited l hl (v, n) List.mem_cons_self⟩
      · intro hfits
        obtain ⟨hequal, hlimited⟩ := hfits v rfl hv
        refine ⟨fun id' => ?_, fun l hl id' => ?_, h.unchanged⟩
        · show ∀ r ∈ Function.update s.reported id ((v, n) :: s.reported id) id',
            ∀ r' ∈ Function.update s.reported id ((v, n) :: s.reported id) id', r.1 = r'.1
          by_cases hid : id' = id
          · subst hid
            rw [hself]
            have hall : ∀ r ∈ (v, n) :: s.reported id', r.1 = v := by
              rw [List.forall_mem_cons]
              exact ⟨rfl, hequal⟩
            exact fun r hr r' hr' => (hall r hr).trans (hall r' hr').symm
          · rw [Function.update_of_ne hid]
            exact h.equal id'
        · show ∀ r ∈ Function.update s.reported id ((v, n) :: s.reported id) id', _
          by_cases hid : id' = id
          · subst hid
            rw [hself, List.forall_mem_cons]
            exact ⟨hlimited l hl, h.limited l hl id'⟩
          · rw [Function.update_of_ne hid]
            exact h.limited l hl id'
  · rename_i hresult
    exact iff_of_true h fun v hv _ => absurd hv (hresult v)

/-- Chunk statistics hand a result through, or raise. -/
theorem eq_of_recorded_eq_ok {st : ChunkStatistics} {id : String} {tokenIds : List Int}
    {stops : Bool} {v : Option Int} (h : (stack.recorded st id tokenIds result stops).1 = .ok v) :
    result = .ok v := by
  unfold LookupStack.recorded at h
  cases hstatistics : stack.chunkStatistics with
  | none =>
    rw [hstatistics] at h
    exact h
  | some recorder =>
    rw [hstatistics] at h
    cases result with
    | error e => cases h
    | ok result =>
      simp only [ChunkStatistics.lookup] at h
      by_cases henabled : st.enabled = true
      · rw [if_pos henabled] at h
        by_cases hseen : id ∈ st.requestSeen
        · rw [if_pos hseen] at h
          exact h
        · rw [if_neg hseen] at h
          cases hrecord : recorder.recordAsync tokenIds with
          | error e =>
            rw [hrecord] at h
            cases h
          | ok u =>
            rw [hrecord] at h
            exact h
      · rw [if_neg henabled] at h
        exact h

/-- What a call of `lookup` adds to the reported counts. -/
theorem mem_reported_lookup (stack : LookupStack) (s : LookupRun σ) (id id' : String)
    (tokenIds : List Int) (result : Except PyError (Option Int)) (stops : Bool) (r : Int × Nat) :
    r ∈ (s.lookup stack id tokenIds result stops).reported id' ↔
      r ∈ s.reported id' ∨ id' = id ∧ r.2 = tokenIds.length ∧
        (stack.recorded s.statistics id tokenIds (stack.limited tokenIds result) stops).1 =
          .ok (some r.1) ∧ r.1 ≠ -1 := mem_reported_report

/-- A lookup without a count reports none. -/
theorem reported_lookup_none (s : LookupRun σ) (id : String) (tokenIds : List Int) (stops : Bool) :
    (s.lookup stack id tokenIds (.ok none) stops).reported = s.reported := by
  unfold lookup report
  dsimp only
  split
  · rename_i v hv
    have hinner := eq_of_recorded_eq_ok hv
    rw [LookupStack.limited_none] at hinner
    cases hinner
  · rfl

@[simp] theorem lookup_client (s : LookupRun σ) (id : String) (tokenIds : List Int)
    (result : Except PyError (Option Int)) (stops : Bool) :
    (s.lookup stack id tokenIds result stops).client = s.client := report_client ..

@[simp] theorem lookup_lives (s : LookupRun σ) (id : String) (tokenIds : List Int)
    (result : Except PyError (Option Int)) (stops : Bool) :
    (s.lookup stack id tokenIds result stops).lives = s.lives := report_lives ..

@[simp] theorem lookup_now (s : LookupRun σ) (id : String) (tokenIds : List Int)
    (result : Except PyError (Option Int)) (stops : Bool) :
    (s.lookup stack id tokenIds result stops).now requests = s.now requests := by
  funext id'
  unfold now
  rw [lookup_lives]

@[simp] theorem lookup_tokens (s : LookupRun σ) (id : String) (tokenIds : List Int)
    (result : Except PyError (Option Int)) (stops : Bool) :
    (s.lookup stack id tokenIds result stops).tokens =
      Function.update s.tokens id tokenIds.length := report_tokens ..

/-- Chunk statistics have changed no result so far. -/
def Unchanged (s : LookupRun σ) : Prop := ∀ r ∈ s.results, r.1 = r.2

theorem unchanged_lookup_iff (stack : LookupStack) (s : LookupRun σ) (id : String)
    (tokenIds : List Int) (result : Except PyError (Option Int)) (stops : Bool) :
    (s.lookup stack id tokenIds result stops).Unchanged ↔
      s.Unchanged ∧
        (stack.recorded s.statistics id tokenIds (stack.limited tokenIds result) stops).1 =
          stack.limited tokenIds result := by
  unfold Unchanged lookup
  rw [report_results]
  simp only [List.forall_mem_append, List.forall_mem_singleton]

/-- Chunk statistics leave a result alone if and only if there is none or they can record. -/
theorem recorded_fst_eq_iff (s : LookupRun σ) (id : String) (tokenIds : List Int)
    (result : Except PyError (Option Int)) (stops : Bool) :
    (stack.recorded s.statistics id tokenIds result stops).1 = result ↔
      (result.isOk = true → s.Records stack id tokenIds) := by
  unfold LookupStack.recorded Records
  cases stack.chunkStatistics with
  | none => exact iff_of_true rfl fun _ _ h => nomatch h
  | some recorder =>
    cases result with
    | error e => exact iff_of_true rfl fun h => nomatch h
    | ok result =>
      simp only [ChunkStatistics.lookup, Option.mem_some_iff, forall_eq', Except.isOk,
        Except.toBool, forall_const]
      cases s.statistics.enabled with
      | false => simp
      | true =>
        by_cases hseen : id ∈ s.statistics.requestSeen
        · simp [hseen]
        · cases hrecord : recorder.recordAsync tokenIds with
          | error e => simp [hseen]
          | ok u => simp [hseen]

/-- A lookup ends transparently if and only if chunk statistics can record it and what it reports
fits. -/
theorem transparent_lookup_iff (h : Transparent stack s) (id : String) (tokenIds : List Int)
    (result : Except PyError (Option Int)) (stops : Bool) :
    Transparent stack (s.lookup stack id tokenIds result stops) ↔
      ((stack.limited tokenIds result).isOk = true → s.Records stack id tokenIds) ∧
        ∀ v, stack.limited tokenIds result = .ok (some v) → v ≠ -1 →
          s.Fits stack id tokenIds.length v := by
  rw [← recorded_fst_eq_iff s id tokenIds (stack.limited tokenIds result) stops]
  unfold lookup
  by_cases hsame :
      (stack.recorded s.statistics id tokenIds (stack.limited tokenIds result) stops).1 =
        stack.limited tokenIds result
  · have h' : Transparent stack
        { s with
          statistics := (stack.recorded s.statistics id tokenIds
            (stack.limited tokenIds result) stops).2
          tokens := Function.update s.tokens id tokenIds.length
          results := s.results ++ [((stack.recorded s.statistics id tokenIds
            (stack.limited tokenIds result) stops).1, stack.limited tokenIds result)] } := by
      refine ⟨h.equal, h.limited, fun r hr => ?_⟩
      rcases List.mem_append.mp hr with hr | hr
      · exact h.unchanged r hr
      · rw [List.mem_singleton.mp hr]
        exact hsame
    dsimp only
    rw [transparent_report_iff h', hsame]
    exact ⟨fun hfits => ⟨rfl, hfits⟩, fun hfits => hfits.2⟩
  · refine iff_of_false (fun h' => hsame ?_) fun h' => hsame h'.1
    refine h'.unchanged
      ((stack.recorded s.statistics id tokenIds (stack.limited tokenIds result) stops).1,
        stack.limited tokenIds result) ?_
    rw [report_results]
    exact List.mem_append_right _ (List.mem_singleton.mpr rfl)

theorem transparent_clear (h : Transparent stack s) (id : String) :
    Transparent stack
      { s with
        lives := Function.update s.lives id (s.lives id + 1)
        reported := Function.update s.reported id [] } := by
  refine ⟨fun id' => ?_, fun l hl id' => ?_, h.unchanged⟩
  · show ∀ r ∈ Function.update s.reported id [] id', ∀ r' ∈ Function.update s.reported id [] id', _
    by_cases hid : id' = id
    · subst hid
      rw [Function.update_self]
      exact List.forall_mem_nil _
    · rw [Function.update_of_ne hid]
      exact h.equal id'
  · show ∀ r ∈ Function.update s.reported id [] id', _
    by_cases hid : id' = id
    · subst hid
      rw [Function.update_self]
      exact List.forall_mem_nil _
    · rw [Function.update_of_ne hid]
      exact h.limited l hl id'

end LookupRun

end LMCache.LookupClient
