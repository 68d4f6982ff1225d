/-
# LMCache.LookupClient.SyncLookupClient — the synchronous lookup client, and what is put around it.

Source: `LMCacheLookupClient` of `v1/lookup_client/lmcache_lookup_client.py`.

`lookup` asks every worker, keeps the least answer for its id and reports it.  When it cannot ask in
time it reports 0 and keeps nothing, and so it does when there is no chunk to ask for.
`lookup_cache` reports what is kept, which a hit limit around the client has never seen.
-/
import LMCache.Lib.Dict
import LMCache.LookupClient.LookupWrappers

namespace LMCache.LookupClient

open LMCache.Lib

/-! ## The client -/

structure SyncLookupConfig where
  tokenDatabase : TokenDatabase
  enableBlending : Bool

/-- `LMCacheLookupClient`.  The ids of which a lookup has failed, in this life, are kept for the
ledger. -/
structure LMCacheLookupClient where
  reqsStatus : Dict String Int
  failed : List String

inductive SyncEvent where
  /-- Whether a socket raises `zmq.Again` or another error. -/
  | lookup (id : String) (fails : Bool)
  | lookupCache (id : String)
  | clearLookupStatus (id : String)
  deriving DecidableEq, Repr

/-- Whether there is anything to ask the workers. -/
def SyncLookupConfig.asks (c : SyncLookupConfig) (tokenIds : List Int) : Except PyError Bool :=
  if c.enableBlending then .ok true
  else (c.tokenDatabase.processHashes (.ofTokens tokenIds none)).collect.map fun hashes =>
    !hashes.isEmpty

namespace LMCacheLookupClient

/-- `lookup`. -/
def lookup (c : SyncLookupConfig) (s : LMCacheLookupClient) (id : String) (request : Request)
    (fails : Bool) : Except PyError (Option Int) × LMCacheLookupClient :=
  match c.asks request.tokenIds with
  | .error e => (.error e, s)
  | .ok false => (.ok (some 0), s)
  | .ok true =>
    if fails then (.ok (some 0), { s with failed := id :: s.failed })
    else
      match request.answers.min? with
      | none => (.error (.valueError "min() iterable argument is empty"), s)
      | some numHitToks =>
        (.ok (some numHitToks), { s with reqsStatus := s.reqsStatus.set id numHitToks })

/-- `lookup_cache`. -/
def lookupCache (s : LMCacheLookupClient) (id : String) : Int := (s.reqsStatus.get? id).getD (-1)

/-- `clear_lookup_status`. -/
def clearLookupStatus (s : LMCacheLookupClient) (id : String) : LMCacheLookupClient where
  reqsStatus := s.reqsStatus.erase id
  failed := s.failed.filter (· ≠ id)

/-- The client as a machine. -/
def machine (c : SyncLookupConfig) : LookupMachine LMCacheLookupClient SyncEvent where
  init := ⟨.empty, []⟩
  step request s
    | .lookup id fails => (s.lookup c id (request id) fails).2
    | .lookupCache _ => s
    | .clearLookupStatus id => s.clearLookupStatus id
  ends request s
    | .lookup id fails => some (.lookup id (s.lookup c id (request id) fails).1)
    | .lookupCache id => some (.lookupCache id (.ok (some (s.lookupCache id))))
    | .clearLookupStatus id => some (.clearLookupStatus id)

/-! ## When the wrappers are transparent -/

/-- What a call must not do: a lookup is recorded without an exception; lookups of an id that has
hits are all answered or all fail; and what `lookup_cache` reports keeps to the limit. -/
def Careful (c : SyncLookupConfig) (stack : LookupStack) (requests : String → Nat → Request)
    (s : LookupRun LMCacheLookupClient) : StackEvent SyncEvent → Prop
  | .client (.lookup id fails) _ =>
    ((stack.limited (s.now requests id).tokenIds
        (s.client.lookup c id (s.now requests id) fails).1).isOk = true →
      s.Records stack id (s.now requests id).tokenIds) ∧
    (c.asks (s.now requests id).tokenIds = .ok true →
      (fails = true → ∀ hits, s.client.reqsStatus.get? id = some hits →
        stack.Harmless (s.now requests id).tokenIds.length hits) ∧
      (fails = false → id ∈ s.client.failed → ∀ hits : Nat,
        (s.now requests id).answers.min? = some hits →
          stack.Harmless (s.now requests id).tokenIds.length hits))
  | .client (.lookupCache id) _ => ∀ hits, s.client.reqsStatus.get? id = some hits →
    ∀ l ∈ stack.hitLimit, (hits : Rat) ≤ l.hitRatioUpper * s.tokens id
  | _ => True

/-! ## The counts of one id -/

/-- What is kept and what was reported for an id in this life. -/
structure IdInv (c : SyncLookupConfig) (stack : LookupStack) (request : Request) (unchanged : Prop)
    (kept : Option Int) (lost : Prop) (tokens : Nat) (counts : List (Int × Nat)) : Prop where
  stored : ∀ hits, kept = some hits → c.asks request.tokenIds = .ok true ∧
    (∃ k : Nat, request.answers.min? = some k ∧ hits = k) ∧ tokens = request.tokenIds.length
  numTokens : ∀ r ∈ counts, r.2 = request.tokenIds.length
  /-- A count is the 0 of a lookup that has not asked, or is what is kept, limited or not. -/
  reported : ∀ r ∈ counts,
    r.1 = 0 ∧ (lost ∨ c.asks request.tokenIds = .ok false) ∨
      ∃ hits, kept = some hits ∧ (r.1 = hits ∨
        stack.limited request.tokenIds (.ok (some hits)) = .ok (some r.1))
  /-- What is kept was reported, unless recording it has raised. -/
  answered : unchanged → ∀ hits v, kept = some hits →
    stack.limited request.tokenIds (.ok (some hits)) = .ok (some v) → ∃ r ∈ counts, r.1 = v
  failed : unchanged → lost → ∃ r ∈ counts, r.1 = 0

namespace IdInv

variable {c : SyncLookupConfig} {stack : LookupStack} {request : Request}
  {unchanged unchanged' lost : Prop} {kept : Option Int} {tokens tokens' : Nat}
  {counts counts' : List (Int × Nat)}

/-- A life begins. -/
theorem fresh : IdInv c stack request unchanged none False tokens [] where
  stored _ h := (nomatch h)
  numTokens _ h := (nomatch h)
  reported _ h := (nomatch h)
  answered _ _ _ h := (nomatch h)
  failed _ h := h.elim

/-- More of the same is reported. -/
theorem extend (h : IdInv c stack request unchanged kept lost tokens counts)
    (hunchanged : unchanged' → unchanged)
    (htokens : tokens' = tokens ∨ tokens' = request.tokenIds.length)
    (hsub : ∀ r ∈ counts, r ∈ counts')
    (hnew : ∀ r ∈ counts', r ∈ counts ∨ r.2 = request.tokenIds.length ∧
      (r.1 = 0 ∧ c.asks request.tokenIds = .ok false ∨ kept = some r.1)) :
    IdInv c stack request unchanged' kept lost tokens' counts' where
  stored hits hhits := by
    obtain ⟨hasks, hk, hlen⟩ := h.stored hits hhits
    exact ⟨hasks, hk, htokens.elim (fun heq => heq.trans hlen) id⟩
  numTokens r hr := (hnew r hr).elim (h.numTokens r) And.left
  reported r hr := by
    rcases hnew r hr with hr | ⟨-, ⟨hzero, hasks⟩ | hstored⟩
    · exact h.reported r hr
    · exact Or.inl ⟨hzero, Or.inr hasks⟩
    · exact Or.inr ⟨r.1, hstored, Or.inl rfl⟩
  answered hu hits v hhits hv := by
    obtain ⟨r, hr, heq⟩ := h.answered (hunchanged hu) hits v hhits hv
    exact ⟨r, hsub r hr, heq⟩
  failed hu hf := by
    obtain ⟨r, hr, heq⟩ := h.failed (hunchanged hu) hf
    exact ⟨r, hsub r hr, heq⟩

/-- A lookup fails. -/
theorem fail (h : IdInv c stack request unchanged kept lost tokens counts)
    (hunchanged : unchanged' → unchanged)
    (hsub : ∀ r ∈ counts, r ∈ counts')
    (hnew : ∀ r ∈ counts', r ∈ counts ∨ r.2 = request.tokenIds.length ∧ r.1 = 0)
    (hzero : unchanged' → ∃ r ∈ counts', r.1 = 0) :
    IdInv c stack request unchanged' kept True request.tokenIds.length counts' where
  stored hits hhits := ⟨(h.stored hits hhits).1, (h.stored hits hhits).2.1, rfl⟩
  numTokens r hr := (hnew r hr).elim (h.numTokens r) And.left
  reported r hr := by
    rcases hnew r hr with hr | ⟨-, hzero⟩
    · exact (h.reported r hr).imp (fun h => ⟨h.1, Or.inl trivial⟩) id
    · exact Or.inl ⟨hzero, Or.inl trivial⟩
  answered hu hits v hhits hv := by
    obtain ⟨r, hr, heq⟩ := h.answered (hunchanged hu) hits v hhits hv
    exact ⟨r, hsub r hr, heq⟩
  failed hu _ := hzero hu

/-- A lookup is answered. -/
theorem answer (h : IdInv c stack request unchanged kept lost tokens counts)
    (hunchanged : unchanged' → unchanged) (hasks : c.asks request.tokenIds = .ok true) {k : Nat}
    (hk : request.answers.min? = some k) (hsub : ∀ r ∈ counts, r ∈ counts')
    (hnew : ∀ r ∈ counts', r ∈ counts ∨ r.2 = request.tokenIds.length ∧
      stack.limited request.tokenIds (.ok (some (k : Int))) = .ok (some r.1))
    (hanswered : unchanged' → ∀ v,
      stack.limited request.tokenIds (.ok (some (k : Int))) = .ok (some v) →
        ∃ r ∈ counts', r.1 = v) :
    IdInv c stack request unchanged' (some (k : Int)) lost request.tokenIds.length counts' where
  stored hits hhits := ⟨hasks, ⟨k, hk, (Option.some.inj hhits).symm⟩, rfl⟩
  numTokens r hr := (hnew r hr).elim (h.numTokens r) And.left
  reported r hr := by
    rcases hnew r hr with hr | ⟨-, hv⟩
    · rcases h.reported r hr with hzero | ⟨hits, hhits, hcases⟩
      · exact Or.inl hzero
      · obtain ⟨-, ⟨k', hk', rfl⟩, -⟩ := h.stored hits hhits
        cases hk.symm.trans hk'
        exact Or.inr ⟨k, rfl, hcases⟩
    · exact Or.inr ⟨k, rfl, Or.inr hv⟩
  answered hu hits v hhits hv := by
    cases Option.some.inj hhits
    exact hanswered hu v hv
  failed hu hf := by
    obtain ⟨r, hr, heq⟩ := h.failed (hunchanged hu) hf
    exact ⟨r, hsub r hr, heq⟩

/-! ### What fits -/

/-- What is kept, and keeps to the limit as every count does, is what every count is. -/
theorem limited_of_kept (h : IdInv c stack request unchanged kept lost tokens counts)
    (hlimited : ∀ l ∈ stack.hitLimit, ∀ r ∈ counts, (r.1 : Rat) ≤ l.hitRatioUpper * r.2)
    {r : Int × Nat} (hr : r ∈ counts) :
    stack.limited request.tokenIds (.ok (some r.1)) = .ok (some r.1) := by
  refine LookupStack.limited_of_le fun l hl => ?_
  rw [← h.numTokens r hr]
  exact hlimited l hl r hr

/-- All counts are 0 if what is kept is harmless. -/
theorem forall_eq_zero_iff (h : IdInv c stack request unchanged kept lost tokens counts)
    (hunchanged : unchanged)
    (hlimited : ∀ l ∈ stack.hitLimit, ∀ r ∈ counts, (r.1 : Rat) ≤ l.hitRatioUpper * r.2) :
    (∀ r ∈ counts, r.1 = 0) ↔
      ∀ hits, kept = some hits → stack.Harmless request.tokenIds.length hits := by
  constructor
  · intro hzero hits hhits
    obtain ⟨-, ⟨k, -, rfl⟩, -⟩ := h.stored hits hhits
    refine (LookupStack.harmless_iff (Int.natCast_nonneg k)).mpr fun v hv => ?_
    obtain ⟨r, hr, rfl⟩ := h.answered hunchanged k v hhits hv
    exact hzero r hr
  · intro hharmless r hr
    rcases h.reported r hr with ⟨hzero, -⟩ | ⟨hits, hhits, hcases⟩
    · exact hzero
    · obtain ⟨-, ⟨k, -, rfl⟩, -⟩ := h.stored hits hhits
      refine (LookupStack.harmless_iff (Int.natCast_nonneg k)).mp (hharmless k hhits) r.1 ?_
      rcases hcases with heq | hv
      · rw [← heq]
        exact h.limited_of_kept hlimited hr
      · exact hv

/-- Every count is what an answer is limited to, if a lookup that has failed is harmless. -/
theorem forall_eq_limited_iff (h : IdInv c stack request unchanged kept lost tokens counts)
    (hunchanged : unchanged) (hasks : c.asks request.tokenIds = .ok true)
    (hlimited : ∀ l ∈ stack.hitLimit, ∀ r ∈ counts, (r.1 : Rat) ≤ l.hitRatioUpper * r.2) {k : Nat}
    (hk : request.answers.min? = some k) :
    (∀ v, stack.limited request.tokenIds (.ok (some (k : Int))) = .ok (some v) →
        ∀ r ∈ counts, r.1 = v) ↔
      (lost → stack.Harmless request.tokenIds.length k) := by
  constructor
  · intro hequal hfailed
    obtain ⟨r, hr, hzero⟩ := h.failed hunchanged hfailed
    refine (LookupStack.harmless_iff (Int.natCast_nonneg k)).mpr fun v hv => ?_
    exact (hequal v hv r hr).symm.trans hzero
  · intro hharmless v hv r hr
    rcases h.reported r hr with ⟨hzero, hfailed | hnone⟩ | ⟨hits, hhits, hcases⟩
    · exact hzero.trans
        ((LookupStack.harmless_iff (Int.natCast_nonneg k)).mp (hharmless hfailed) v hv).symm
    · rw [hasks] at hnone
      cases hnone
    · obtain ⟨-, ⟨k', hk', rfl⟩, -⟩ := h.stored hits hhits
      cases hk.symm.trans hk'
      have hr' : stack.limited request.tokenIds (.ok (some (k : Int))) = .ok (some r.1) := by
        rcases hcases with heq | hr'
        · rw [← heq]
          exact h.limited_of_kept hlimited hr
        · exact hr'
      rw [hv] at hr'
      exact (Option.some.inj (Except.ok.inj hr')).symm

/-- Every count is what is kept, if that keeps to the limit. -/
theorem forall_eq_of_stored (h : IdInv c stack request unchanged kept lost tokens counts)
    (hunchanged : unchanged) (hequal : ∀ r ∈ counts, ∀ r' ∈ counts, r.1 = r'.1) {hits : Int}
    (hhits : kept = some hits)
    (hlimit : ∀ l ∈ stack.hitLimit, (hits : Rat) ≤ l.hitRatioUpper * tokens) :
    ∀ r ∈ counts, r.1 = hits := by
  obtain ⟨-, -, htokens⟩ := h.stored hits hhits
  rw [htokens] at hlimit
  obtain ⟨r', hr', heq⟩ := h.answered hunchanged hits hits hhits (LookupStack.limited_of_le hlimit)
  exact fun r hr => (hequal r hr r' hr').trans heq

end IdInv

/-! ## Every step -/

/-- What is kept and what was reported, of all ids. -/
def Inv (c : SyncLookupConfig) (stack : LookupStack) (requests : String → Nat → Request)
    (s : LookupRun LMCacheLookupClient) : Prop :=
  ∀ id, IdInv c stack (s.now requests id) s.Unchanged (s.client.reqsStatus.get? id)
    (id ∈ s.client.failed) (s.tokens id) (s.reported id)

variable {c : SyncLookupConfig} {stack : LookupStack} {requests : String → Nat → Request}
  {s : LookupRun LMCacheLookupClient}

theorem inv_init (config : LookupConfig) :
    Inv c stack requests (LookupRun.init (machine c) config) := by
  intro id
  have hfresh : IdInv c stack (requests id 0) (LookupRun.init (machine c) config).Unchanged none
      False 0 [] := IdInv.fresh
  have hnone : (id ∈ ([] : List String)) = False := eq_false List.not_mem_nil
  rw [← hnone] at hfresh
  exact hfresh

/-- A lookup changes nothing of another id. -/
theorem lookup_of_ne (s : LMCacheLookupClient) {id id' : String} (hne : id' ≠ id)
    (request : Request) (fails : Bool) :
    (s.lookup c id request fails).2.reqsStatus.get? id' = s.reqsStatus.get? id' ∧
      ((id' ∈ (s.lookup c id request fails).2.failed) = (id' ∈ s.failed)) := by
  unfold lookup
  split
  · exact ⟨rfl, rfl⟩
  · exact ⟨rfl, rfl⟩
  · split
    · refine ⟨rfl, propext ?_⟩
      rw [List.mem_cons]
      exact or_iff_right hne
    · split
      · exact ⟨rfl, rfl⟩
      · exact ⟨(Dict.get?_set _ _ _ _).trans (if_neg hne), rfl⟩

theorem inv_lookup (h : Inv c stack requests s) (id : String) (fails stops : Bool) :
    Inv c stack requests
      (LookupRun.lookup stack
        { s with client := (s.client.lookup c id (s.now requests id) fails).2 } id
        (s.now requests id).tokenIds (s.client.lookup c id (s.now requests id) fails).1 stops) := by
  intro id'
  have hid' := h id'
  rw [LookupRun.lookup_now, LookupRun.lookup_client, LookupRun.lookup_tokens]
  have hunchanged := fun hu => (LookupRun.unchanged_lookup_iff stack
    { s with client := (s.client.lookup c id (s.now requests id) fails).2 } id
    (s.now requests id).tokenIds (s.client.lookup c id (s.now requests id) fails).1 stops).mp hu
  have hmem := LookupRun.mem_reported_lookup stack
    { s with client := (s.client.lookup c id (s.now requests id) fails).2 } id id'
    (s.now requests id).tokenIds (s.client.lookup c id (s.now requests id) fails).1 stops
  have hsub := fun r hr => (hmem r).mpr (Or.inl hr)
  by_cases hid : id' = id
  · subst hid
    rw [Function.update_self]
    -- what is new was limited and handed through
    have hnew := fun r hr => ((hmem r).mp hr).imp_right
      fun hr => And.intro hr.2.1 (LookupRun.eq_of_recorded_eq_ok hr.2.2.1)
    have hreported : LookupRun.Unchanged (LookupRun.lookup stack
          { s with client := (s.client.lookup c id' (s.now requests id') fails).2 } id'
          (s.now requests id').tokenIds
          (s.client.lookup c id' (s.now requests id') fails).1 stops) →
        ∀ v, stack.limited (s.now requests id').tokenIds
          (s.client.lookup c id' (s.now requests id') fails).1 = .ok (some v) → v ≠ -1 →
        ∃ r ∈ LookupRun.reported (LookupRun.lookup stack
            { s with client := (s.client.lookup c id' (s.now requests id') fails).2 } id'
            (s.now requests id').tokenIds
            (s.client.lookup c id' (s.now requests id') fails).1 stops) id', r.1 = v := by
      intro hu v hv hne
      refine ⟨(v, (s.now requests id').tokenIds.length), (hmem _).mpr (Or.inr ⟨rfl, rfl, ?_, hne⟩),
        rfl⟩
      rw [(hunchanged hu).2]
      exact hv
    revert hunchanged hmem hsub hnew hreported
    unfold lookup
    cases hasks : c.asks (s.now requests id').tokenIds with
    | error e =>
      intro hunchanged hmem hsub hnew hreported
      refine hid'.extend (fun hu => (hunchanged hu).1) (Or.inr rfl) hsub fun r hr => ?_
      refine (hnew r hr).imp_right fun hr => ?_
      rw [LookupStack.limited_error] at hr
      exact nomatch hr.2
    | ok asks =>
      cases asks with
      | false =>
        intro hunchanged hmem hsub hnew hreported
        refine hid'.extend (fun hu => (hunchanged hu).1) (Or.inr rfl) hsub fun r hr => ?_
        refine (hnew r hr).imp_right fun hr => ⟨hr.1, Or.inl ⟨?_, hasks⟩⟩
        rw [LookupStack.limited_zero] at hr
        exact (Option.some.inj (Except.ok.inj hr.2)).symm
      | true =>
        cases fails with
        | true =>
          intro hunchanged hmem hsub hnew hreported
          have hfail := hid'.fail (fun hu => (hunchanged hu).1) hsub
            (fun r hr => (hnew r hr).imp_right fun hr => ⟨hr.1, by
              have hr := hr.2
              rw [if_pos rfl, LookupStack.limited_zero] at hr
              exact (Option.some.inj (Except.ok.inj hr)).symm⟩)
            (fun hu => hreported hu 0 LookupStack.limited_zero (by decide))
          have htrue : (id' ∈ id' :: s.client.failed) = True := eq_true List.mem_cons_self
          rw [← htrue] at hfail
          exact hfail
        | false =>
          dsimp only
          cases hk : (s.now requests id').answers.min? with
          | none =>
            intro hunchanged hmem hsub hnew hreported
            refine hid'.extend (fun hu => (hunchanged hu).1) (Or.inr rfl) hsub fun r hr => ?_
            refine (hnew r hr).imp_right fun hr => ?_
            have hr := hr.2
            rw [if_neg Bool.false_ne_true, LookupStack.limited_error] at hr
            exact nomatch hr
          | some k =>
            intro hunchanged hmem hsub hnew hreported
            have hanswer := hid'.answer (fun hu => (hunchanged hu).1) hasks hk hsub hnew
              (fun hu v hv => hreported hu v hv (by
                have := LookupStack.nonneg_of_limited (Int.natCast_nonneg k) hv
                omega))
            have hget : (s.client.reqsStatus.set id' (k : Int)).get? id' = some (k : Int) :=
              (Dict.get?_set _ _ _ _).trans (if_pos rfl)
            rw [← hget] at hanswer
            exact hanswer
  · rw [Function.update_of_ne hid]
    obtain ⟨hget, hfailed⟩ := s.client.lookup_of_ne (c := c) hid (s.now requests id) fails
    rw [hget, hfailed]
    refine hid'.extend (fun hu => (hunchanged hu).1) (Or.inl rfl) hsub fun r hr => Or.inl ?_
    exact ((hmem r).mp hr).resolve_right fun hr => hid hr.1

theorem inv_lookupCache (h : Inv c stack requests s) (id : String) :
    Inv c stack requests
      (s.report id (s.tokens id) (.ok (some (s.client.lookupCache id)))) := by
  intro id'
  rw [LookupRun.report_now, LookupRun.report_client, LookupRun.report_tokens]
  have hunchanged : (s.report id (s.tokens id) (.ok (some (s.client.lookupCache id)))).Unchanged →
      s.Unchanged := by
    unfold LookupRun.Unchanged
    rw [LookupRun.report_results]
    exact fun hu => hu
  refine (h id').extend hunchanged (Or.inl rfl)
    (fun r hr => LookupRun.mem_reported_report.mpr (Or.inl hr)) fun r hr => ?_
  refine (LookupRun.mem_reported_report.mp hr).imp_right ?_
  rintro ⟨rfl, hn, hv, hne⟩
  replace hv := Option.some.inj (Except.ok.inj hv)
  unfold lookupCache at hv
  cases hhits : s.client.reqsStatus.get? id' with
  | none =>
    rw [hhits] at hv
    exact absurd hv.symm hne
  | some hits =>
    rw [hhits, Option.getD_some] at hv
    exact ⟨hn.trans ((h id').stored hits hhits).2.2, Or.inr (congrArg some hv)⟩

theorem inv_clearLookupStatus (h : Inv c stack requests s) (id : String) :
    Inv c stack requests
      { s with
        client := s.client.clearLookupStatus id
        lives := Function.update s.lives id (s.lives id + 1)
        reported := Function.update s.reported id [] } := by
  intro id'
  show IdInv c stack (requests id' (Function.update s.lives id (s.lives id + 1) id')) s.Unchanged
    ((s.client.reqsStatus.erase id).get? id') (id' ∈ s.client.failed.filter (· ≠ id))
    (s.tokens id') (Function.update s.reported id [] id')
  rw [Dict.get?_erase, List.mem_filter]
  by_cases hid : id' = id
  · subst hid
    have hnot : (id' ∈ s.client.failed ∧ decide (id' ≠ id') = true) = False := by simp
    rw [if_pos rfl, hnot, Function.update_self, Function.update_self]
    exact IdInv.fresh
  · have hsame : (id' ∈ s.client.failed ∧ decide (id' ≠ id) = true) = (id' ∈ s.client.failed) := by
      simp [hid]
    rw [if_neg hid, hsame, Function.update_of_ne hid, Function.update_of_ne hid]
    exact h id'

theorem inv_step (h : Inv c stack requests s) (e : StackEvent SyncEvent) :
    Inv c stack requests (s.step (machine c) stack requests e) := by
  cases e with
  | client e stops =>
    cases e with
    | lookup id fails => exact inv_lookup h id fails stops
    | lookupCache id => exact inv_lookupCache h id
    | clearLookupStatus id => exact inv_clearLookupStatus h id
  | startStatistics => exact h
  | stopStatistics => exact h
  | resetStatistics => exact h

/-! ## Transparent if careful -/

/-- What a lookup reports fits if and only if it is the same for all lookups of the id. -/
theorem fits_lookup_iff (hinv : Inv c stack requests s) (h : s.Transparent stack) (id : String)
    (fails : Bool) :
    (∀ v, stack.limited (s.now requests id).tokenIds
        (s.client.lookup c id (s.now requests id) fails).1 = .ok (some v) → v ≠ -1 →
          s.Fits stack id (s.now requests id).tokenIds.length v) ↔
      (c.asks (s.now requests id).tokenIds = .ok true →
        (fails = true → ∀ hits, s.client.reqsStatus.get? id = some hits →
          stack.Harmless (s.now requests id).tokenIds.length hits) ∧
        (fails = false → id ∈ s.client.failed → ∀ hits : Nat,
          (s.now requests id).answers.min? = some hits →
            stack.Harmless (s.now requests id).tokenIds.length hits)) := by
  have hid := hinv id
  have hlimited := fun l hl => h.limited l hl id
  -- a lookup that has not asked reports 0
  have hzero : (∀ v, stack.limited (s.now requests id).tokenIds (.ok (some 0)) = .ok (some v) →
      v ≠ -1 → s.Fits stack id (s.now requests id).tokenIds.length v) ↔
      ∀ r ∈ s.reported id, r.1 = 0 := by
    rw [LookupStack.limited_zero]
    constructor
    · exact fun hfits => (hfits 0 rfl (by decide)).1
    · intro hall v hv _
      cases hv
      refine ⟨hall, fun l _ => ?_⟩
      rw [Int.cast_zero]
      exact mul_nonneg l.nonneg (Nat.cast_nonneg _)
  unfold lookup
  cases hasks : c.asks (s.now requests id).tokenIds with
  | error e =>
    dsimp only
    rw [LookupStack.limited_error]
    exact iff_of_true (fun _ h => nomatch h) (fun h => nomatch h)
  | ok asks =>
    cases asks with
    | false =>
      dsimp only
      rw [hzero]
      refine iff_of_true (fun r hr => ?_) (fun h => nomatch h)
      rcases hid.reported r hr with ⟨hr, -⟩ | ⟨hits, hhits, -⟩
      · exact hr
      · have hasks' := (hid.stored hits hhits).1
        rw [hasks] at hasks'
        cases hasks'
    | true =>
      cases fails with
      | true =>
        dsimp only
        rw [if_pos rfl, hzero, hid.forall_eq_zero_iff h.unchanged hlimited]
        simp
      | false =>
        dsimp only
        rw [if_neg Bool.false_ne_true]
        cases hk : (s.now requests id).answers.min? with
        | none =>
          dsimp only
          rw [LookupStack.limited_error]
          exact iff_of_true (fun _ h => nomatch h) fun _ =>
            ⟨fun h => (nomatch h), fun _ _ _ h => nomatch h⟩
        | some k =>
          have hcounts := hid.forall_eq_limited_iff h.unchanged hasks hlimited hk
          constructor
          · intro hfits _
            refine ⟨fun h => (nomatch h), fun _ hfailed hits hhits => ?_⟩
            cases hhits
            refine hcounts.mp (fun v hv => (hfits v hv ?_).1) hfailed
            have := LookupStack.nonneg_of_limited (Int.natCast_nonneg k) hv
            omega
          · intro hharmless v hv _
            refine ⟨hcounts.mpr (fun hfailed => ?_) v hv, LookupStack.le_of_limited hv⟩
            exact (hharmless rfl).2 rfl hfailed k rfl

theorem transparent_step_iff (hinv : Inv c stack requests s) (h : s.Transparent stack)
    (e : StackEvent SyncEvent) :
    (s.step (machine c) stack requests e).Transparent stack ↔ Careful c stack requests s e := by
  cases e with
  | client e stops =>
    cases e with
    | lookup id fails =>
      have hclient : LookupRun.Transparent stack
          { s with client := (s.client.lookup c id (s.now requests id) fails).2 } :=
        ⟨h.equal, h.limited, h.unchanged⟩
      refine (LookupRun.transparent_lookup_iff hclient id _ _ stops).trans ?_
      exact and_congr Iff.rfl (fits_lookup_iff hinv h id fails)
    | lookupCache id =>
      refine (LookupRun.transparent_report_iff h id (s.tokens id)
        (.ok (some (s.client.lookupCache id)))).trans ?_
      have hid := hinv id
      unfold lookupCache
      constructor
      · intro hfits hits hhits
        rw [hhits] at hfits
        obtain ⟨-, ⟨k, -, rfl⟩, -⟩ := hid.stored hits hhits
        exact (hfits k rfl (by omega)).2
      · intro hlimit v hv hne
        cases hhits : s.client.reqsStatus.get? id with
        | none =>
          rw [hhits] at hv
          exact absurd (Option.some.inj (Except.ok.inj hv)).symm hne
        | some hits =>
          rw [hhits, Option.getD_some] at hv
          have heq : hits = v := Option.some.inj (Except.ok.inj hv)
          subst heq
          exact ⟨hid.forall_eq_of_stored h.unchanged (h.equal id) hhits (hlimit hits hhits),
            hlimit hits hhits⟩
    | clearLookupStatus id =>
      refine iff_of_true ?_ trivial
      exact LookupRun.transparent_clear
        (s := { s with client := s.client.clearLookupStatus id })
        ⟨h.equal, h.limited, h.unchanged⟩ id
  | startStatistics => exact iff_of_true ⟨h.equal, h.limited, h.unchanged⟩ trivial
  | stopStatistics => exact iff_of_true ⟨h.equal, h.limited, h.unchanged⟩ trivial
  | resetStatistics => exact iff_of_true ⟨h.equal, h.limited, h.unchanged⟩ trivial

theorem always_transparent_iff_careful (c : SyncLookupConfig) (stack : LookupStack)
    (requests : String → Nat → Request) (config : LookupConfig)
    (es : List (StackEvent SyncEvent)) :
    Always (LookupRun.step (machine c) stack requests) (LookupRun.Transparent stack)
        (LookupRun.init (machine c) config) es ↔
      Guarded (LookupRun.step (machine c) stack requests) (Careful c stack requests)
        (LookupRun.init (machine c) config) es :=
  always_iff_guarded_of_inv (fun _ e h => inv_step h e)
    (fun _ e hinv h => transparent_step_iff hinv h e) (inv_init config)
    (LookupRun.transparent_init config)

end LMCacheLookupClient

end LMCache.LookupClient
