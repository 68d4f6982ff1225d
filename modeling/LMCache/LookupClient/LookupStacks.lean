/-
# LMCache.LookupClient.LookupStacks — every client that `create_lookup_client` builds.

Source: `v1/lookup_client/factory.py`, and the clients of `lmcache_lookup_client.py` and
`lmcache_async_lookup_client.py` beside it.

`lookup` of the asynchronous client reports no count: every count comes through `lookup_cache`,
which no wrapper looks at.  It is the least answer of the workers, or the 0 of a call that has
waited too long, and the answer may still come after that.
-/
import LMCache.LookupClient.AsyncLookupRuns
import LMCache.LookupClient.AsyncRecorder
import LMCache.LookupClient.SyncLookupClient

namespace LMCache.LookupClient

open LMCache.Lib

namespace AsyncLookupClient

/-! ## The asynchronous client in its wrappers -/

/-- The client as a machine. -/
def machine (c : AsyncLookupConfig) : LookupMachine AsyncLookupClient ClientEvent where
  init := init
  step _ s e := s.step c e
  ends _ s e :=
    match e, s.pc with
    | .readStatus now later, .sending id [] _ =>
      some (.lookupCache id ((s.readStatus c id now later).answer.getD (.ok none)))
    | .lookup id, .idle => some (.lookup id (.ok none))
    | .clearLookupStatus id, .idle => some (.clearLookupStatus id)
    | .cleanup, .clearing _ next _ _ => some (.clearLookupStatus next)
    | _, _ => none

/-- The scheduler keeps to its calls. -/
def ProperCall (c : AsyncLookupConfig) (s : LookupRun AsyncLookupClient) :
    StackEvent ClientEvent → Prop
  | .client e _ => s.client.Proper c e
  | _ => True

instance (c : AsyncLookupConfig) (s : LookupRun AsyncLookupClient) (e : StackEvent ClientEvent) :
    Decidable (ProperCall c s e) :=
  match e with
  | .client e _ => inferInstanceAs (Decidable (s.client.Proper c e))
  | .startStatistics => .isTrue trivial
  | .stopStatistics => .isTrue trivial
  | .resetStatistics => .isTrue trivial

/-- What a call must not do: a lookup is recorded without an exception, and the answer of the
workers that `lookup_cache` reports keeps to the limit and is 0 if a call has given up waiting for
it. -/
def Careful (stack : LookupStack) (requests : String → Nat → Request)
    (s : LookupRun AsyncLookupClient) : StackEvent ClientEvent → Prop
  | .client e _ =>
    match e, s.client.pc with
    | .lookup id, .idle => s.Records stack id (s.now requests id).tokenIds
    | .readStatus _ _, .sending id [] _ =>
      ∀ v, s.client.reqsStatus.get? id = some (some v) → v ≠ -1 →
        ((s.client.history id).timedOut = true → v = 0) ∧
          ∀ l ∈ stack.hitLimit, (v : Rat) ≤ l.hitRatioUpper * s.tokens id
    | _, _ => True
  | _ => True

/-! ## The counts of one id -/

/-- A count is the status, or the 0 of a call that has given up. -/
structure CountsInv (status : Option (Option Int)) (timedOut : Bool) (counts : List (Int × Nat)) :
    Prop where
  reported : ∀ r ∈ counts, r.1 = 0 ∧ timedOut = true ∨ status = some (some r.1)
  fresh : status = none → counts = [] ∧ timedOut = false
  gaveUp : timedOut = true → ∃ r ∈ counts, r.1 = 0

namespace CountsInv

variable {status : Option (Option Int)} {timedOut : Bool} {counts counts' : List (Int × Nat)}

theorem begin : CountsInv none false [] where
  reported _ h := (nomatch h)
  fresh _ := ⟨rfl, rfl⟩
  gaveUp h := (nomatch h)

/-- The last worker answers. -/
theorem answer (h : CountsInv status timedOut counts) (hnot : ¬ ∃ v, status = some (some v))
    (v : Int) : CountsInv (some (some v)) timedOut counts where
  reported r hr := Or.inl ((h.reported r hr).resolve_right fun hv => hnot ⟨r.1, hv⟩)
  fresh hnone := (nomatch hnone)
  gaveUp := h.gaveUp

/-- `lookup_cache` begins to wait. -/
theorem ask (h : CountsInv none timedOut counts) : CountsInv (some none) false counts where
  reported r hr := by
    rw [(h.fresh rfl).1] at hr
    cases hr
  fresh hnone := (nomatch hnone)
  gaveUp hfalse := (nomatch hfalse)

/-- It gives up. -/
theorem giveUp (h : CountsInv (some none) timedOut counts)
    (hnew : ∀ r ∈ counts', r ∈ counts ∨ r.1 = 0) (hzero : ∃ r ∈ counts', r.1 = 0) :
    CountsInv (some none) true counts' where
  reported r hr := by
    rcases hnew r hr with hr | hr
    · rcases h.reported r hr with ⟨hr, -⟩ | hv
      · exact Or.inl ⟨hr, rfl⟩
      · cases hv
    · exact Or.inl ⟨hr, rfl⟩
  fresh hnone := (nomatch hnone)
  gaveUp _ := hzero

/-- It reports the status. -/
theorem read (h : CountsInv status timedOut counts) (hnone : status ≠ none)
    (hsub : ∀ r ∈ counts, r ∈ counts')
    (hnew : ∀ r ∈ counts', r ∈ counts ∨ status = some (some r.1)) :
    CountsInv status timedOut counts' where
  reported r hr := (hnew r hr).elim (h.reported r) Or.inr
  fresh heq := absurd heq hnone
  gaveUp htimedOut := by
    obtain ⟨r, hr, hzero⟩ := h.gaveUp htimedOut
    exact ⟨r, hsub r hr, hzero⟩

/-- Every count is the status, if that is 0 after a call has given up. -/
theorem forall_eq_iff {v : Int} (h : CountsInv (some (some v)) timedOut counts) :
    (∀ r ∈ counts, r.1 = v) ↔ (timedOut = true → v = 0) := by
  constructor
  · intro hall htimedOut
    obtain ⟨r, hr, hzero⟩ := h.gaveUp htimedOut
    rw [← hall r hr, hzero]
  · intro hzero r hr
    rcases h.reported r hr with ⟨hr, htimedOut⟩ | hr
    · rw [hr, hzero htimedOut]
    · exact (Option.some.inj (Option.some.inj hr)).symm

end CountsInv

/-! ## Every step -/

variable {c : AsyncLookupConfig} {stack : LookupStack} {requests : String → Nat → Request}

/-- The status of an id, and whether a call has given up waiting for it. -/
def waiting (s : AsyncLookupClient) (id : String) : Option (Option Int) × Bool :=
  (s.reqsStatus.get? id, (s.history id).timedOut)

/-- A response changes the status of an id only when it has none yet. -/
theorem waiting_respond {s : AsyncLookupClient} (h : s.Inv c) (id : String) (idx worker : Nat)
    (numHitTokens : Int) (id' : String) :
    (s.respond c id idx worker numHitTokens).waiting id' = s.waiting id' ∨
      ¬ s.Answered id' ∧ ∃ v, (s.respond c id idx worker numHitTokens).waiting id' =
        (some (some v), (s.history id').timedOut) := by
  unfold respond
  cases hidx : (s.history id).lookups[idx]? with
  | none => exact Or.inl rfl
  | some l =>
    dsimp only
    split
    · rename_i henabled
      have htimedOut : ∀ u : String, (Function.update s.history id { s.history id with
          lookups := (s.history id).lookups.set idx
            { l with responses := l.responses ++ [(worker, numHitTokens)] } } u).timedOut =
          (s.history u).timedOut := by
        intro u
        rw [Function.update_apply]
        split
        · rename_i hu
          rw [hu]
        · rfl
      obtain ⟨reqsStatus, resForEachWorker, hprocess, hstatus, -, hother⟩ :=
        s.processResponse_spec (c := c) id numHitTokens rfl
      rw [hprocess]
      show (reqsStatus.get? id', _) = _ ∨ _ ∧ ∃ v, (reqsStatus.get? id', _) = _
      rw [htimedOut]
      by_cases hid : id' = id
      · subst hid
        rw [hstatus]
        split
        · -- An answer would mean that this worker has answered already.
          refine Or.inr ⟨?_, ?_⟩
          · rintro ⟨v, hv⟩
            have hmem := List.mem_of_getElem? hidx
            have hworkers := (h.views id').workers l hmem
            have hcomplete : l.Complete c := by
              cases hlookups : (s.history id').lookups with
              | nil =>
                rw [hlookups] at hmem
                cases hmem
              | cons first rest =>
                rw [hlookups] at hmem
                rcases List.mem_cons.mp hmem with rfl | hmem
                · refine (h.views id').complete_of_status hv ?_
                  show (s.history id').lookups.head? = some l
                  rw [hlookups, List.head?_cons]
                · refine ((h.views id').older l ?_).1
                  show l ∈ (s.history id').lookups.tail
                  rw [hlookups]
                  exact hmem
            refine henabled.2 ((l.workers_perm hworkers.1 hworkers.2 hcomplete).mem_iff.mpr ?_)
            exact List.mem_range.mpr henabled.1
          · cases hmin : (((s.resForEachWorker.get? id').getD []) ++ [numHitTokens]).min? with
            | none =>
              rw [List.min?_eq_none_iff] at hmin
              simp at hmin
            | some v => exact ⟨v, rfl⟩
        · exact Or.inl rfl
      · rw [(hother id' hid).1]
        exact Or.inl rfl
    · exact Or.inl rfl

/-- What the read of a status changes and answers. -/
theorem readStatus_cases {s : AsyncLookupClient} (h : s.Inv c) {id : String} (now later : Rat)
    (hproper : ¬(s.reqsStatus.get? id = some none ∧ (s.history id).timedOut = true)) :
    (∀ id', id' ≠ id → (s.readStatus c id now later).waiting id' = s.waiting id') ∧
      (s.reqsStatus.get? id = none ∧
          (s.readStatus c id now later).waiting id = (some none, false) ∧
          (s.readStatus c id now later).answer = some (.ok (some (-1))) ∨
        s.reqsStatus.get? id = some none ∧
          (s.readStatus c id now later).waiting id = s.waiting id ∧
          (s.readStatus c id now later).answer = some (.ok none) ∨
        s.reqsStatus.get? id = some none ∧
          (s.readStatus c id now later).waiting id = (some none, true) ∧
          (s.readStatus c id now later).answer = some (.ok (some 0)) ∨
        ∃ v, s.reqsStatus.get? id = some (some v) ∧
          (s.readStatus c id now later).waiting id = s.waiting id ∧
          (s.readStatus c id now later).answer = some (.ok (some v))) := by
  unfold readStatus
  cases hstatus : s.reqsStatus.get? id with
  | none =>
    refine ⟨fun id' hid => ?_, Or.inl ⟨rfl, ?_, rfl⟩⟩
    · exact Prod.ext ((Dict.get?_set _ _ _ _).trans (if_neg hid))
        (congrArg History.timedOut (Function.update_of_ne hid _ _))
    · refine Prod.ext ((Dict.get?_set _ _ _ _).trans (if_pos rfl)) ?_
      show (Function.update s.history id _ id).timedOut = false
      rw [Function.update_self]
  | some status =>
    cases status with
    | some v => exact ⟨fun _ _ => rfl, Or.inr (Or.inr (Or.inr ⟨v, rfl, rfl, rfl⟩))⟩
    | none =>
      dsimp only
      cases hfirst : s.firstLookupTime.get? id with
      | none =>
        rcases (h.views id).first hstatus with hne | htimedOut
        · exact absurd hfirst hne
        · exact absurd ⟨hstatus, htimedOut⟩ hproper
      | some first =>
        dsimp only
        split
        · refine ⟨fun id' hid => ?_, Or.inr (Or.inr (Or.inl ⟨rfl, ?_, rfl⟩))⟩
          · exact Prod.ext rfl (congrArg History.timedOut (Function.update_of_ne hid _ _))
          · refine Prod.ext hstatus ?_
            show (Function.update s.history id _ id).timedOut = true
            rw [Function.update_self]
        · exact ⟨fun _ _ => rfl, Or.inr (Or.inl ⟨rfl, rfl, rfl⟩)⟩

theorem waiting_clearLookupStatus (s : AsyncLookupClient) (id id' : String) :
    (s.clearLookupStatus id).waiting id' = if id' = id then (none, false) else s.waiting id' := by
  unfold waiting clearLookupStatus
  dsimp only
  rw [Dict.get?_erase, Function.update_apply]
  split <;> rfl

/-- A history that goes on with its lookups, and nothing else. -/
theorem timedOut_update (s : AsyncLookupClient) (id id' : String) (lookups : List Lookup) :
    (Function.update s.history id { s.history id with lookups } id').timedOut =
      (s.history id').timedOut := by
  rw [Function.update_apply]
  split
  · rename_i hid
    rw [hid]
  · rfl

/-- No other step changes what an id waits for. -/
theorem waiting_cleanup {s : AsyncLookupClient}
    (hpc : ∀ id next finished begun, s.pc ≠ .clearing id next finished begun) (id : String) :
    s.cleanup.waiting id = s.waiting id := by
  unfold cleanup
  split
  · rfl
  · split <;> rfl
  · rfl
  · exact Prod.ext rfl (s.timedOut_update _ id _)
  · rfl
  · rename_i heq
    exact absurd heq (hpc _ _ _ _)

/-- The client, and the counts of all ids. -/
structure StackInv (c : AsyncLookupConfig) (s : LookupRun AsyncLookupClient) : Prop where
  client : s.client.Inv c
  counts : ∀ id, CountsInv (s.client.waiting id).1 (s.client.waiting id).2 (s.reported id)

theorem stackInv_init (config : LookupConfig) :
    StackInv c (LookupRun.init (machine c) config) where
  client := inv_init c
  counts _ := CountsInv.begin

variable {s : LookupRun AsyncLookupClient}

variable {now later : Rat} {id : String}

/-- A status is read, and reported. -/
theorem counts_readStatus (h : StackInv c s)
    (hproper : ¬(s.client.reqsStatus.get? id = some none ∧ (s.client.history id).timedOut = true))
    (client : AsyncLookupClient) (id' : String) :
    CountsInv ((s.client.readStatus c id now later).waiting id').1
      ((s.client.readStatus c id now later).waiting id').2
      ((LookupRun.report { s with client } id (s.tokens id)
        ((s.client.readStatus c id now later).answer.getD (.ok none))).reported id') := by
  obtain ⟨hother, hcases⟩ := readStatus_cases h.client now later hproper
  have hcounts := h.counts id'
  by_cases hid : id' = id
  · subst hid
    rcases hcases with ⟨hstatus, hwaiting, hanswer⟩ | ⟨hstatus, hwaiting, hanswer⟩ |
      ⟨hstatus, hwaiting, hanswer⟩ | ⟨v, hstatus, hwaiting, hanswer⟩
    · rw [hwaiting, hanswer]
      rw [show (s.client.waiting id').1 = none from hstatus] at hcounts
      exact hcounts.ask
    · rw [hwaiting, hanswer]
      exact hcounts
    · rw [hwaiting, hanswer]
      rw [show (s.client.waiting id').1 = some none from hstatus] at hcounts
      refine hcounts.giveUp (fun r hr => ?_) ⟨(0, s.tokens id'), ?_, rfl⟩
      · refine (LookupRun.mem_reported_report.mp hr).imp_right fun hr => ?_
        exact (Option.some.inj (Except.ok.inj hr.2.2.1)).symm
      · exact LookupRun.mem_reported_report.mpr (Or.inr ⟨rfl, rfl, rfl, fun h => nomatch h⟩)
    · rw [hwaiting, hanswer]
      have hsome : (s.client.waiting id').1 = some (some v) := hstatus
      refine hcounts.read (by rw [hsome]; exact fun h => nomatch h)
        (fun r hr => LookupRun.mem_reported_report.mpr (Or.inl hr)) fun r hr => ?_
      refine (LookupRun.mem_reported_report.mp hr).imp_right fun hr => ?_
      rw [hsome]
      exact congrArg some (Except.ok.inj hr.2.2.1)
  · rw [hother id' hid]
    have hsame : (LookupRun.report { s with client } id (s.tokens id)
        ((s.client.readStatus c id now later).answer.getD (.ok none))).reported id' =
        s.reported id' := by
      unfold LookupRun.report
      split
      · split
        · rfl
        · exact Function.update_of_ne hid _ _
      · rfl
    rw [hsame]
    exact hcounts

/-- An id is cleared. -/
theorem counts_clear (h : StackInv c s) (id id' : String) :
    CountsInv ((s.client.clearLookupStatus id).waiting id').1
      ((s.client.clearLookupStatus id).waiting id').2
      (Function.update s.reported id [] id') := by
  rw [waiting_clearLookupStatus]
  by_cases hid : id' = id
  · rw [if_pos hid, hid, Function.update_self]
    exact CountsInv.begin
  · rw [if_neg hid, Function.update_of_ne hid]
    exact h.counts id'

/-- A step of the client after which nothing is reported. -/
theorem counts_of_waiting (h : StackInv c s) {client : AsyncLookupClient}
    (hwaiting : ∀ id, client.waiting id = s.client.waiting id) (id : String) :
    CountsInv (client.waiting id).1 (client.waiting id).2 (s.reported id) := by
  rw [hwaiting]
  exact h.counts id

theorem counts_respond (h : StackInv c s) (id : String) (idx worker : Nat) (numHitTokens : Int)
    (id' : String) :
    CountsInv ((s.client.respond c id idx worker numHitTokens).waiting id').1
      ((s.client.respond c id idx worker numHitTokens).waiting id').2 (s.reported id') := by
  rcases waiting_respond h.client id idx worker numHitTokens id' with hsame | ⟨hnot, v, hv⟩
  · rw [hsame]
    exact h.counts id'
  · rw [hv]
    exact (h.counts id').answer hnot v

theorem stackInv_report {client : AsyncLookupClient} {n : Nat}
    {result : Except PyError (Option Int)} (hclient : client.Inv c)
    (hcounts : ∀ id', CountsInv (client.waiting id').1 (client.waiting id').2
      ((LookupRun.report { s with client } id n result).reported id')) :
    StackInv c (LookupRun.report { s with client } id n result) where
  client := by
    rw [LookupRun.report_client]
    exact hclient
  counts := by
    rw [LookupRun.report_client]
    exact hcounts

theorem stackInv_lookup (h : StackInv c s) {client : AsyncLookupClient}
    {tokenIds : List Int} {stops : Bool} (hclient : client.Inv c)
    (hwaiting : ∀ id', client.waiting id' = s.client.waiting id') :
    StackInv c (LookupRun.lookup stack { s with client } id tokenIds (.ok none) stops) where
  client := by
    rw [LookupRun.lookup_client]
    exact hclient
  counts := by
    rw [LookupRun.lookup_client, LookupRun.reported_lookup_none]
    exact counts_of_waiting h hwaiting

theorem stackInv_step (h : StackInv c s) (e : StackEvent ClientEvent) (hproper : ProperCall c s e) :
    StackInv c (s.step (machine c) stack requests e) := by
  cases e with
  | client e stops =>
    have hclient := inv_step h.client e hproper
    unfold LookupRun.step machine
    dsimp only
    cases e with
    | lookupCache id order =>
      unfold step at hclient ⊢
      cases hpc : s.client.pc with
      | idle =>
        rw [hpc] at hclient
        dsimp only at hclient ⊢
        split
        · rename_i horder
          rw [if_pos horder] at hclient
          exact ⟨hclient, counts_of_waiting h fun _ => rfl⟩
        · exact h
      | checking => exact h
      | sending => exact h
      | clearing => exact h
    | cleanup =>
      replace hclient : s.client.cleanup.Inv c := hclient
      cases hpc : s.client.pc with
      | clearing id next finished begun =>
        refine ⟨hclient, fun id' => ?_⟩
        show CountsInv (s.client.cleanup.waiting id').1 (s.client.cleanup.waiting id').2
          (Function.update s.reported next [] id')
        have hcleanup : s.client.cleanup.waiting id' =
            (s.client.clearLookupStatus next).waiting id' := by
          unfold cleanup
          rw [hpc]
          rfl
        rw [hcleanup]
        exact counts_clear h next id'
      | idle =>
        exact ⟨hclient, counts_of_waiting h (waiting_cleanup (by rw [hpc]; intros; nofun))⟩
      | checking =>
        exact ⟨hclient, counts_of_waiting h (waiting_cleanup (by rw [hpc]; intros; nofun))⟩
      | sending =>
        exact ⟨hclient, counts_of_waiting h (waiting_cleanup (by rw [hpc]; intros; nofun))⟩
    | readStatus now later =>
      unfold step at hclient ⊢
      cases hpc : s.client.pc with
      | sending id finished begun =>
        cases finished with
        | nil =>
          rw [hpc] at hclient
          replace hproper : s.client.Proper c (.readStatus now later) := hproper
          unfold Proper at hproper
          rw [hpc] at hproper
          exact stackInv_report hclient (counts_readStatus h hproper _)
        | cons next finished => exact h
      | idle => exact h
      | checking => exact h
      | clearing => exact h
    | lookup id =>
      unfold step at hclient ⊢
      cases hpc : s.client.pc with
      | idle =>
        rw [hpc] at hclient
        refine stackInv_lookup h hclient fun id' => ?_
        exact Prod.ext rfl (s.client.timedOut_update id id' _)
      | checking => exact h
      | sending => exact h
      | clearing => exact h
    | clearLookupStatus id =>
      unfold step at hclient ⊢
      cases hpc : s.client.pc with
      | idle =>
        rw [hpc] at hclient
        exact ⟨hclient, counts_clear h id⟩
      | checking => exact h
      | sending => exact h
      | clearing => exact h
    | cancelLookup id =>
      unfold step at hclient ⊢
      cases hpc : s.client.pc with
      | idle =>
        rw [hpc] at hclient
        refine ⟨hclient, counts_of_waiting h fun id' => ?_⟩
        exact Prod.ext rfl (s.client.timedOut_update id id' _)
      | checking => exact h
      | sending => exact h
      | clearing => exact h
    | respond id idx worker numHitTokens =>
      exact ⟨hclient, counts_respond h id idx worker numHitTokens⟩
  | startStatistics => exact ⟨h.client, h.counts⟩
  | stopStatistics => exact ⟨h.client, h.counts⟩
  | resetStatistics => exact ⟨h.client, h.counts⟩

/-! ## Transparent if careful -/

/-- What `lookup_cache` reports fits if and only if it is an answer of the workers that does. -/
theorem fits_readStatus_iff (h : StackInv c s)
    (hproper : ¬(s.client.reqsStatus.get? id = some none ∧ (s.client.history id).timedOut = true)) :
    (∀ v, (s.client.readStatus c id now later).answer.getD (.ok none) = .ok (some v) → v ≠ -1 →
        s.Fits stack id (s.tokens id) v) ↔
      ∀ v, s.client.reqsStatus.get? id = some (some v) → v ≠ -1 →
        ((s.client.history id).timedOut = true → v = 0) ∧
          ∀ l ∈ stack.hitLimit, (v : Rat) ≤ l.hitRatioUpper * s.tokens id := by
  have hcounts := h.counts id
  obtain ⟨-, hcases⟩ := readStatus_cases h.client now later hproper
  rcases hcases with ⟨hstatus, -, hanswer⟩ | ⟨hstatus, -, hanswer⟩ | ⟨hstatus, -, hanswer⟩ |
    ⟨v, hstatus, -, hanswer⟩
  · rw [hanswer, hstatus]
    refine iff_of_true (fun v hv hne => absurd ?_ hne) (fun _ h => by cases h)
    exact (Option.some.inj (Except.ok.inj hv)).symm
  · rw [hanswer, hstatus]
    exact iff_of_true (fun _ h => by cases h) (fun _ h => by cases h)
  · rw [hanswer, hstatus]
    refine iff_of_true (fun v hv _ => ?_) (fun _ h => by cases h)
    cases hv
    rw [show (s.client.waiting id).1 = some none from hstatus] at hcounts
    refine ⟨fun r hr => ?_, fun l _ => ?_⟩
    · exact ((hcounts.reported r hr).resolve_right fun h => by cases h).1
    · rw [Int.cast_zero]
      exact mul_nonneg l.nonneg (Nat.cast_nonneg _)
  · rw [hanswer, hstatus]
    rw [show (s.client.waiting id).1 = some (some v) from hstatus] at hcounts
    constructor
    · intro hfits w hw hne
      cases hw
      exact (hfits v rfl hne).imp hcounts.forall_eq_iff.mp fun h => h
    · intro hcareful w hw hne
      cases hw
      exact (hcareful v rfl hne).imp hcounts.forall_eq_iff.mpr fun h => h

theorem transparent_step_iff (h : StackInv c s) (e : StackEvent ClientEvent)
    (hproper : ProperCall c s e) (ht : s.Transparent stack) :
    (s.step (machine c) stack requests e).Transparent stack ↔ Careful stack requests s e := by
  have hquiet : ∀ client : AsyncLookupClient, LookupRun.Transparent stack { s with client } :=
    fun _ => ⟨ht.equal, ht.limited, ht.unchanged⟩
  cases e with
  | client e stops =>
    unfold LookupRun.step machine Careful
    dsimp only
    cases e with
    | lookupCache id order =>
      cases s.client.pc <;> exact iff_of_true (hquiet _) trivial
    | cleanup =>
      cases s.client.pc with
      | clearing id next finished begun =>
        exact iff_of_true (LookupRun.transparent_clear (hquiet _) next) trivial
      | idle => exact iff_of_true (hquiet _) trivial
      | checking => exact iff_of_true (hquiet _) trivial
      | sending => exact iff_of_true (hquiet _) trivial
    | readStatus now later =>
      replace hproper : s.client.Proper c (.readStatus now later) := hproper
      unfold Proper at hproper
      cases hpc : s.client.pc with
      | sending id finished begun =>
        cases finished with
        | nil =>
          rw [hpc] at hproper
          exact (LookupRun.transparent_report_iff (hquiet _) id (s.tokens id) _).trans
            (fits_readStatus_iff h hproper)
        | cons next finished => exact iff_of_true (hquiet _) trivial
      | idle => exact iff_of_true (hquiet _) trivial
      | checking => exact iff_of_true (hquiet _) trivial
      | clearing => exact iff_of_true (hquiet _) trivial
    | lookup id =>
      cases s.client.pc with
      | idle =>
        refine (LookupRun.transparent_lookup_iff (hquiet _) id (s.now requests id).tokenIds
          (.ok none) stops).trans ?_
        rw [LookupStack.limited_none]
        exact ⟨fun hlookup => hlookup.1 rfl,
          fun hrecords => ⟨fun _ => hrecords, fun _ h => nomatch h⟩⟩
      | checking => exact iff_of_true (hquiet _) trivial
      | sending => exact iff_of_true (hquiet _) trivial
      | clearing => exact iff_of_true (hquiet _) trivial
    | clearLookupStatus id =>
      cases s.client.pc with
      | idle => exact iff_of_true (LookupRun.transparent_clear (hquiet _) id) trivial
      | checking => exact iff_of_true (hquiet _) trivial
      | sending => exact iff_of_true (hquiet _) trivial
      | clearing => exact iff_of_true (hquiet _) trivial
    | cancelLookup id =>
      cases s.client.pc <;> exact iff_of_true (hquiet _) trivial
    | respond id idx worker numHitTokens =>
      cases s.client.pc <;> exact iff_of_true (hquiet _) trivial
  | startStatistics => exact iff_of_true ⟨ht.equal, ht.limited, ht.unchanged⟩ trivial
  | stopStatistics => exact iff_of_true ⟨ht.equal, ht.limited, ht.unchanged⟩ trivial
  | resetStatistics => exact iff_of_true ⟨ht.equal, ht.limited, ht.unchanged⟩ trivial

theorem always_transparent_iff_careful (c : AsyncLookupConfig) (stack : LookupStack)
    (requests : String → Nat → Request) (config : LookupConfig)
    (es : List (StackEvent ClientEvent))
    (h : Guarded (LookupRun.step (machine c) stack requests) (ProperCall c)
      (LookupRun.init (machine c) config) es) :
    Always (LookupRun.step (machine c) stack requests) (LookupRun.Transparent stack)
        (LookupRun.init (machine c) config) es ↔
      Guarded (LookupRun.step (machine c) stack requests) (Careful stack requests)
        (LookupRun.init (machine c) config) es :=
  always_iff_guarded_of_guarded (fun _ e h hproper => stackInv_step h e hproper)
    (fun _ e h hproper ht => transparent_step_iff h e hproper ht) (stackInv_init config)
    (LookupRun.transparent_init config) h

end AsyncLookupClient

/-! ## Every stack -/

/-- **When the stacks that `create_lookup_client` builds are transparent**: with the synchronous
client in every run whose calls are careful, and in no other; and with the asynchronous client the
same of every run in which the scheduler keeps to its calls. -/
theorem createLookupClient_transparent_iff (config : LookupConfig)
    (requests : String → Nat → Request) :
    (∀ (c : SyncLookupConfig) (es : List (StackEvent SyncEvent)),
      Always (LookupRun.step (LMCacheLookupClient.machine c) (createLookupClient config) requests)
          (LookupRun.Transparent (createLookupClient config))
          (LookupRun.init (LMCacheLookupClient.machine c) config) es ↔
        Guarded
          (LookupRun.step (LMCacheLookupClient.machine c) (createLookupClient config) requests)
          (LMCacheLookupClient.Careful c (createLookupClient config) requests)
          (LookupRun.init (LMCacheLookupClient.machine c) config) es) ∧
    (∀ (c : AsyncLookupConfig) (es : List (StackEvent ClientEvent)),
      Guarded (LookupRun.step (AsyncLookupClient.machine c) (createLookupClient config) requests)
          (AsyncLookupClient.ProperCall c)
          (LookupRun.init (AsyncLookupClient.machine c) config) es →
        (Always (LookupRun.step (AsyncLookupClient.machine c) (createLookupClient config) requests)
            (LookupRun.Transparent (createLookupClient config))
            (LookupRun.init (AsyncLookupClient.machine c) config) es ↔
          Guarded
            (LookupRun.step (AsyncLookupClient.machine c) (createLookupClient config) requests)
            (AsyncLookupClient.Careful (createLookupClient config) requests)
            (LookupRun.init (AsyncLookupClient.machine c) config) es)) :=
  ⟨fun c es => LMCacheLookupClient.always_transparent_iff_careful c _ requests config es,
    fun c es h => AsyncLookupClient.always_transparent_iff_careful c _ requests config es h⟩

/-- Half of the tokens may hit, and lookups are recorded. -/
def halfConfig : LookupConfig where
  hitMissRatio := some (1 / 2)
  chunkSize := 2
  enableChunkStatistics := true
  autoStartStatistics := true
  recorder := ⟨AsyncRecorder.pairs, .fileHash, true⟩

/-- Four tokens that all hit. -/
def allHit : String → Nat → Request := fun _ _ => ⟨[1, 2, 3, 4], [4]⟩

/-- Asking for a request, which is answered, and asking again. -/
def answeredRun : List (StackEvent ClientEvent) :=
  [.client (.lookupCache "r" []) false, .client .cleanup false, .client (.readStatus 0 0) false,
    .client (.lookup "r") false, .client (.respond "r" 0 0 4) false,
    .client (.lookupCache "r" []) false, .client .cleanup false, .client (.readStatus 1 1) false]

theorem createLookupClient_transparent_iff_answeredRun :
    Always (LookupRun.step (AsyncLookupClient.machine ⟨1000, 1, by decide⟩)
          (createLookupClient halfConfig) allHit)
        (LookupRun.Transparent (createLookupClient halfConfig))
        (LookupRun.init (AsyncLookupClient.machine ⟨1000, 1, by decide⟩) halfConfig) answeredRun ↔
      Guarded (LookupRun.step (AsyncLookupClient.machine ⟨1000, 1, by decide⟩)
          (createLookupClient halfConfig) allHit)
        (AsyncLookupClient.Careful (createLookupClient halfConfig) allHit)
        (LookupRun.init (AsyncLookupClient.machine ⟨1000, 1, by decide⟩) halfConfig) answeredRun :=
  (createLookupClient_transparent_iff halfConfig allHit).2 ⟨1000, 1, by decide⟩ answeredRun
    (by decide +kernel)

/-- **Three stacks that are not transparent**: `lookup_cache` reports more than the limited `lookup`
before it; the asynchronous client reports more than the limit; and a lookup that fails reports 0
where the next one reports the hits. -/
theorem createLookupClient_not_transparent :
    ¬ Always (LookupRun.step (LMCacheLookupClient.machine ⟨.chunked AsyncRecorder.pairs, false⟩)
          (createLookupClient halfConfig) allHit)
        (LookupRun.Transparent (createLookupClient halfConfig))
        (LookupRun.init (LMCacheLookupClient.machine ⟨.chunked AsyncRecorder.pairs, false⟩)
          halfConfig)
        [.client (.lookup "r" false) false, .client (.lookupCache "r") false] ∧
      ¬ Always (LookupRun.step (AsyncLookupClient.machine ⟨1000, 1, by decide⟩)
          (createLookupClient halfConfig) allHit)
        (LookupRun.Transparent (createLookupClient halfConfig))
        (LookupRun.init (AsyncLookupClient.machine ⟨1000, 1, by decide⟩) halfConfig) answeredRun ∧
      ¬ Always (LookupRun.step (LMCacheLookupClient.machine ⟨.chunked AsyncRecorder.pairs, false⟩)
          (createLookupClient { halfConfig with hitMissRatio := none }) allHit)
        (LookupRun.Transparent (createLookupClient { halfConfig with hitMissRatio := none }))
        (LookupRun.init (LMCacheLookupClient.machine ⟨.chunked AsyncRecorder.pairs, false⟩)
          halfConfig)
        [.client (.lookup "r" true) false, .client (.lookup "r" false) false] := by
  refine ⟨fun h => ?_, fun h => ?_, fun h => ?_⟩
  · have hequal := h.last.equal "r" (4, 4) (by decide +kernel) (2, 4) (by decide +kernel)
    exact absurd hequal (by decide)
  · have hlimit : (createLookupClient halfConfig).hitLimit =
        some ⟨1 - 1 / 2, 2, by norm_num, by norm_num⟩ := dif_pos ⟨by norm_num, by norm_num⟩
    have hlimited := h.last.limited _ hlimit "r" (4, 4) (by decide +kernel)
    norm_num at hlimited
  · have hequal := h.last.equal "r" (4, 4) (by decide +kernel) (0, 4) (by decide +kernel)
    exact absurd hequal (by decide)

end LMCache.LookupClient
