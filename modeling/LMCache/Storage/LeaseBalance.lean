/-
# LMCache.Storage.LeaseBalance — leases of the HyperPod connector, from the grant to the release.

The daemon answers a lease request with a JSON document that names the lease and where the data is.
`_acquire_lease` checks the document, and releases the lease itself if it is too large; whoever gets a
lease releases it in a `finally`.  Requests are made one after the other here, each with whatever the
daemon answers and whatever becomes of the read.

Source: `_acquire_lease`, `exists`, `get` and `_batched_async_contains` of
`v1/storage_backend/connector/sagemaker_hyperpod_connector.py`.
-/
import LMCache.Lib.Brackets
import LMCache.Lib.Json

namespace LMCache.Storage

open LMCache.Lib

/-! ## The connector -/

/-- What `_http_request` returns when it is answered.  A body that is no JSON is `null`. -/
structure HttpResult (F : Type) where
  status : Int
  json : Json F

/-- `HTTP_OK`. -/
def httpOk : Int := 200

structure LeaseInfo (F : Type) where
  leaseId : Json F
  offsets : List (Json F × Json F)

/-- What happens on the way. -/
inductive LeaseAct (F : Type) where
  /-- A lease request is answered, or fails. -/
  | answered (reply : Option (HttpResult F))
  /-- `_read_from_shared_memory`. -/
  | read (leaseId : Json F)
  /-- `_release_lease`, which never raises. -/
  | released (leaseId : Json F)

/-- What a call does, and how it ends. -/
structure LeaseRun (F α : Type) where
  acts : List (LeaseAct F)
  result : Except PyError α

/-- How `_acquire_lease` goes on when the document is read. -/
inductive LeaseCheck (F : Type) where
  | noOffsets
  | tooLarge (lease : LeaseInfo F)
  | acquired (lease : LeaseInfo F)

/-- The connector's limit, and the floats it computes with. -/
structure LeaseConnector (F : Type) where
  arith : FloatArith F
  maxLeaseSizeBytes : Option Int
  /-- `int(max_lease_size_mb * 1024 * 1024)` was a float. -/
  limit_lt : ∀ limit, maxLeaseSizeBytes = some limit → limit.natAbs < floatLimit

/-- `o["offset"], o["len"]` -/
def offsetAndLen {F : Type} (o : Json F) : Except PyError (Json F × Json F) := do
  let offset ← o.subscript "offset"
  let len ← o.subscript "len"
  .ok (offset, len)

/-- `[(o["offset"], o["len"]) for o in lease_data.get("offsets", [])]` -/
def leaseOffsets {F : Type} (leaseData : Json F) : Except PyError (List (Json F × Json F)) := do
  let offsets ← leaseData.getD "offsets" (.arr [])
  let items ← offsets.iterate
  items.mapM offsetAndLen

/-- `f"{n / 1024:.2f}"`, as far as it may raise. -/
def formatKB {F : Type} (n : PyNumber F) : Except PyError Unit :=
  if n.quotientTooLarge 1024 then
    .error (.overflowError "integer division result too large for a float")
  else .ok ()

namespace LeaseConnector

variable {F α : Type} (c : LeaseConnector F)

/-- The limit that the lease exceeds. -/
def exceeded (totalSize : PyNumber F) : Option Int :=
  c.maxLeaseSizeBytes.filter fun limit => totalSize.exceeds c.arith limit

/-- `_acquire_lease`, from `lease_data` on. -/
def checkLease (leaseData : Json F) : Except PyError (LeaseCheck F) := do
  let offsets ← leaseOffsets leaseData
  if offsets.isEmpty then .ok .noOffsets
  else
    let leaseId ← leaseData.subscript "id"
    let totalSize ← PyNumber.sum c.arith (offsets.map Prod.snd)
    match c.exceeded totalSize with
    | some limit => do
      -- the texts of the warning and of the debug message
      formatKB totalSize
      formatKB (.int limit : PyNumber F)
      .ok (.tooLarge ⟨leaseId, offsets⟩)
    | none => do
      formatKB totalSize
      .ok (.acquired ⟨leaseId, offsets⟩)

/-- `_acquire_lease`. -/
def acquireLease (reply : Option (HttpResult F)) : LeaseRun F (Option (LeaseInfo F)) :=
  match reply with
  | none => ⟨[.answered reply], .ok none⟩
  | some result =>
    if result.status ≠ httpOk ∨ result.json.truthy c.arith = false then
      ⟨[.answered reply], .ok none⟩
    else
      match c.checkLease result.json with
      | .error e => ⟨[.answered reply], .error e⟩
      | .ok .noOffsets => ⟨[.answered reply], .ok none⟩
      | .ok (.tooLarge lease) => ⟨[.answered reply, .released lease.leaseId], .ok none⟩
      | .ok (.acquired lease) => ⟨[.answered reply], .ok (some lease)⟩

/-- `exists`. -/
def existsKey (reply : Option (HttpResult F)) : LeaseRun F Bool :=
  let acquired := c.acquireLease reply
  match acquired.result with
  | .error e => ⟨acquired.acts, .error e⟩
  | .ok none => ⟨acquired.acts, .ok false⟩
  | .ok (some lease) => ⟨acquired.acts ++ [.released lease.leaseId], .ok true⟩

/-- `get`, with what becomes of the read. -/
def get (reply : Option (HttpResult F)) (read : LeaseInfo F → Except PyError (Option α)) :
    LeaseRun F (Option α) :=
  let acquired := c.acquireLease reply
  match acquired.result with
  | .error e => ⟨acquired.acts, .error e⟩
  | .ok none => ⟨acquired.acts, .ok none⟩
  | .ok (some lease) =>
    ⟨acquired.acts ++ [.read lease.leaseId] ++ [.released lease.leaseId],
      match read lease with
      | .ok memoryObj => .ok memoryObj
      | .error _ => .ok none⟩

/-- The loop of `_batched_async_contains`, with what is answered for each key. -/
def batchedAsyncContains (numHits : Nat) : List (Option (HttpResult F)) → LeaseRun F Nat
  | [] => ⟨[], .ok numHits⟩
  | reply :: replies =>
    let acquired := c.acquireLease reply
    match acquired.result with
    | .ok (some lease) =>
      let rest := batchedAsyncContains (numHits + 1) replies
      ⟨acquired.acts ++ [.released lease.leaseId] ++ rest.acts, rest.result⟩
    | .ok none => ⟨acquired.acts, .ok numHits⟩
    | .error _ => ⟨acquired.acts, .ok numHits⟩

end LeaseConnector

/-- A call of the connector, with what the daemon answers and what becomes of the read. -/
inductive LeaseCall (F α : Type) where
  | get (reply : Option (HttpResult F)) (read : LeaseInfo F → Except PyError (Option α))
  | existsKey (reply : Option (HttpResult F))
  | batchedAsyncContains (replies : List (Option (HttpResult F)))

namespace LeaseConnector

variable {F α : Type} (c : LeaseConnector F)

/-- What a call does. -/
def acts : LeaseCall F α → List (LeaseAct F)
  | .get reply read => (c.get reply read).acts
  | .existsKey reply => (c.existsKey reply).acts
  | .batchedAsyncContains replies => (c.batchedAsyncContains 0 replies).acts

/-- What a sequence of calls does. -/
def run (calls : List (LeaseCall F α)) : List (LeaseAct F) := calls.flatMap c.acts

end LeaseConnector

/-! ## Grants -/

/-- The lease that an answer reports as granted. -/
def grantedId {F : Type} : Option (HttpResult F) → Option (Json F)
  | some ⟨status, .obj fields⟩ => if status = httpOk then Json.lookup fields "id" else none
  | _ => none

/-- A lease is opened by the answer that grants it. -/
def leaseBrackets (F : Type) : Brackets (LeaseAct F) (Json F) where
  opened
    | .answered reply => grantedId reply
    | _ => none
  used
    | .read leaseId => some leaseId
    | _ => none
  closed
    | .released leaseId => some leaseId
    | _ => none

/-- A block of shared memory, with its length. -/
def IsBlock {F : Type} (o len : Json F) : Prop :=
  ∃ fields offset, o = .obj fields ∧ Json.lookup fields "offset" = some offset ∧
    Json.lookup fields "len" = some len

/-- The document lists blocks, and their lengths have a sum that can be printed. -/
def ListsBlocks {F : Type} (arith : FloatArith F) (fields : List (String × Json F)) : Prop :=
  ∃ items lengths total, Json.lookup fields "offsets" = some (.arr items) ∧ items ≠ [] ∧
    List.Forall₂ IsBlock items lengths ∧ PyNumber.sum arith lengths = .ok total ∧
    total.quotientTooLarge 1024 = false

/-- If the answer grants a lease, it lists its blocks. -/
def GrantsBlocks {F : Type} (arith : FloatArith F) (reply : Option (HttpResult F)) : Prop :=
  ∀ status fields, reply = some ⟨status, .obj fields⟩ → grantedId reply ≠ none →
    ListsBlocks arith fields

/-! ## Reading the document -/

section
variable {F α : Type}

theorem offsetAndLen_eq_ok {o : Json F} {p : Json F × Json F} :
    offsetAndLen o = .ok p ↔ ∃ fields, o = .obj fields ∧
      Json.lookup fields "offset" = some p.1 ∧ Json.lookup fields "len" = some p.2 := by
  unfold offsetAndLen
  constructor
  · intro h
    obtain ⟨offset, hoffset, h⟩ := bind_eq_ok.mp h
    obtain ⟨len, hlen, h⟩ := bind_eq_ok.mp h
    cases h
    obtain ⟨fields, rfl, hoffset'⟩ := Json.subscript_eq_ok.mp hoffset
    obtain ⟨fields', hfields, hlen'⟩ := Json.subscript_eq_ok.mp hlen
    cases hfields
    exact ⟨fields, rfl, hoffset', hlen'⟩
  · rintro ⟨fields, rfl, hoffset, hlen⟩
    exact bind_eq_ok.mpr ⟨p.1, Json.subscript_eq_ok.mpr ⟨fields, rfl, hoffset⟩,
      bind_eq_ok.mpr ⟨p.2, Json.subscript_eq_ok.mpr ⟨fields, rfl, hlen⟩, rfl⟩⟩

/-- Offsets are found only in a list; of a string or a dictionary, an item is never a block. -/
theorem leaseOffsets_eq_ok {fields : List (String × Json F)} {offsets : List (Json F × Json F)}
    (hne : offsets ≠ []) : leaseOffsets (.obj fields) = .ok offsets ↔
      ∃ items, Json.lookup fields "offsets" = some (.arr items) ∧
        List.Forall₂ (fun o p => offsetAndLen o = .ok p) items offsets := by
  have hget : leaseOffsets (.obj fields) =
      ((Json.lookup fields "offsets").getD (.arr [])).iterate >>= fun items =>
        items.mapM offsetAndLen := rfl
  rw [hget]
  constructor
  · intro h
    obtain ⟨items, hitems, h⟩ := bind_eq_ok.mp h
    rw [mapM_eq_ok_iff_forall₂] at h
    -- the strings that come of a string or a dictionary
    have hstr : ∀ {β : Type} (f : β → String) (l : List β),
        ¬ List.Forall₂ (fun o p => offsetAndLen o = .ok p) (l.map fun b => .str (f b)) offsets := by
      intro β f l h
      cases l with
      | nil => exact hne (List.forall₂_nil_left_iff.mp h)
      | cons s l =>
        obtain ⟨p, _, hp, -⟩ := List.forall₂_cons_left_iff.mp h
        obtain ⟨fields, hfields, -⟩ := offsetAndLen_eq_ok.mp hp
        cases hfields
    cases hlookup : Json.lookup fields "offsets" with
    | none =>
      rw [hlookup] at hitems
      cases hitems
      exact absurd (List.forall₂_nil_left_iff.mp h) hne
    | some value =>
      rw [hlookup] at hitems
      cases value with
      | arr items' =>
        cases hitems
        exact ⟨_, rfl, h⟩
      | obj fields' =>
        cases hitems
        exact absurd h (hstr Prod.fst fields')
      | str s =>
        cases hitems
        exact absurd h (hstr Char.toString s.toList)
      | _ => cases hitems
  · rintro ⟨items, hitems, h⟩
    rw [hitems]
    exact mapM_eq_ok_iff_forall₂.mpr h

end

namespace LeaseConnector

variable {F α : Type} (c : LeaseConnector F)

theorem formatKB_eq_ok {n : PyNumber F} : formatKB n = .ok () ↔ n.quotientTooLarge 1024 = false := by
  unfold formatKB
  split <;> simp_all

/-- The limit can be printed. -/
theorem formatKB_limit {limit : Int} (h : c.maxLeaseSizeBytes = some limit) :
    formatKB (.int limit : PyNumber F) = .ok () := by
  rw [formatKB_eq_ok]
  have hlt := c.limit_lt limit h
  unfold PyNumber.quotientTooLarge
  rw [decide_eq_false_iff_not, not_le]
  exact lt_of_lt_of_le hlt (Nat.le_mul_of_pos_right floatLimit (by decide))

variable {leaseId : Json F} {arith : FloatArith F} {reply : Option (HttpResult F)}
  {tail : LeaseInfo F → List (LeaseAct F)}

/-- The rest of `checkLease`, when there are offsets and an id. -/
theorem checkLease_eq {leaseData : Json F} {offsets : List (Json F × Json F)}
    {totalSize : PyNumber F} (hoffsets : leaseOffsets leaseData = .ok offsets) (hne : offsets ≠ [])
    (hid : leaseData.subscript "id" = .ok leaseId)
    (hsum : PyNumber.sum c.arith (offsets.map Prod.snd) = .ok totalSize) :
    c.checkLease leaseData = formatKB totalSize >>= fun _ => .ok
      (if (c.exceeded totalSize).isSome then .tooLarge ⟨leaseId, offsets⟩
        else .acquired ⟨leaseId, offsets⟩) := by
  have hempty : offsets.isEmpty = false := by simpa using hne
  unfold checkLease
  rw [hoffsets]
  simp only [bind, Except.bind, hempty, hid, hsum, Bool.false_eq_true, if_false]
  cases hlimit : c.exceeded totalSize with
  | none => rfl
  | some limit =>
    have hformat := c.formatKB_limit (Option.filter_eq_some_iff.mp hlimit).1
    cases formatKB totalSize with
    | error e => rfl
    | ok u => simp [hformat]

/-- **A lease whose blocks are listed is found**, whether it is too large or not. -/
theorem checkLease_of_listsBlocks {fields : List (String × Json F)}
    (hid : Json.lookup fields "id" = some leaseId) (h : ListsBlocks c.arith fields) :
    ∃ offsets, c.checkLease (.obj fields) = .ok (.tooLarge ⟨leaseId, offsets⟩) ∨
      c.checkLease (.obj fields) = .ok (.acquired ⟨leaseId, offsets⟩) := by
  obtain ⟨items, lengths, total, hitems, hne, hblocks, hsum, hformat⟩ := h
  -- the offsets that go with the lengths
  have hoffsets : ∃ offsets : List (Json F × Json F), offsets.map Prod.snd = lengths ∧
      List.Forall₂ (fun o p => offsetAndLen o = .ok p) items offsets := by
    clear hitems hne hsum
    induction hblocks with
    | nil => exact ⟨[], rfl, .nil⟩
    | cons hblock _ ih =>
      obtain ⟨fields, offset, hfields, hoffset, hlen⟩ := hblock
      obtain ⟨offsets, rfl, hall⟩ := ih
      exact ⟨(offset, _) :: offsets, rfl,
        .cons (offsetAndLen_eq_ok.mpr ⟨fields, hfields, hoffset, hlen⟩) hall⟩
  obtain ⟨offsets, rfl, hall⟩ := hoffsets
  have hne' : offsets ≠ [] := by
    rintro rfl
    exact hne (List.forall₂_nil_right_iff.mp hall)
  have hcheck := c.checkLease_eq ((leaseOffsets_eq_ok hne').mpr ⟨items, hitems, hall⟩) hne'
    (Json.subscript_eq_ok.mpr ⟨fields, rfl, hid⟩) hsum
  rw [formatKB_eq_ok.mpr hformat] at hcheck
  refine ⟨offsets, ?_⟩
  rw [hcheck]
  cases (c.exceeded total).isSome with
  | true => exact .inl rfl
  | false => exact .inr rfl

/-- A lease is found only where blocks are listed. -/
theorem listsBlocks_of_checkLease {leaseData : Json F} {lease : LeaseInfo F}
    (h : c.checkLease leaseData = .ok (.tooLarge lease) ∨
      c.checkLease leaseData = .ok (.acquired lease)) :
    ∃ fields, leaseData = .obj fields ∧ Json.lookup fields "id" = some lease.leaseId ∧
      ListsBlocks c.arith fields := by
  have hok : ∃ check, c.checkLease leaseData = .ok check ∧ check ≠ .noOffsets ∧
      (check = .tooLarge lease ∨ check = .acquired lease) := by
    rcases h with h | h
    · exact ⟨_, h, by simp, .inl rfl⟩
    · exact ⟨_, h, by simp, .inr rfl⟩
  obtain ⟨check, hcheck, hsome, hlease⟩ := hok
  have hread := hcheck
  unfold checkLease at hread
  obtain ⟨offsets, hoffsets, hread⟩ := bind_eq_ok.mp hread
  split at hread
  · cases hread
    exact absurd rfl hsome
  · rename_i hempty
    have hne : offsets ≠ [] := by simpa using hempty
    obtain ⟨leaseId, hid, hread⟩ := bind_eq_ok.mp hread
    obtain ⟨total, hsum, -⟩ := bind_eq_ok.mp hread
    rw [c.checkLease_eq hoffsets hne hid hsum] at hcheck
    obtain ⟨u, hformat, hcheck⟩ := bind_eq_ok.mp hcheck
    have hlease : lease = ⟨leaseId, offsets⟩ := by
      rw [← Except.ok.inj hcheck] at hlease
      split at hlease <;> rcases hlease with h | h <;> cases h <;> rfl
    subst hlease
    obtain ⟨fields, rfl, hlookup⟩ := Json.subscript_eq_ok.mp hid
    obtain ⟨items, hitems, hall⟩ := (leaseOffsets_eq_ok hne).mp hoffsets
    refine ⟨fields, rfl, hlookup, items, offsets.map Prod.snd, total, hitems, ?_, ?_, hsum,
      formatKB_eq_ok.mp hformat⟩
    · rintro rfl
      exact hne (List.forall₂_nil_left_iff.mp hall)
    · rw [List.forall₂_map_right_iff]
      refine hall.imp fun o p hp => ?_
      obtain ⟨fields, hfields, hoffset, hlen⟩ := offsetAndLen_eq_ok.mp hp
      exact ⟨fields, p.1, hfields, hoffset, hlen⟩

/-! ### What an acquisition does -/

theorem grantedId_eq_some {status : Int} {json : Json F} :
    grantedId (some ⟨status, json⟩) = some leaseId ↔
      status = httpOk ∧ ∃ fields, json = .obj fields ∧ Json.lookup fields "id" = some leaseId := by
  unfold grantedId
  cases json <;> simp

theorem acquireLease_some (status : Int) (json : Json F) :
    c.acquireLease (some ⟨status, json⟩) =
      if status ≠ httpOk ∨ json.truthy c.arith = false then
        ⟨[.answered (some ⟨status, json⟩)], .ok none⟩
      else
        match c.checkLease json with
        | .error e => ⟨[.answered (some ⟨status, json⟩)], .error e⟩
        | .ok .noOffsets => ⟨[.answered (some ⟨status, json⟩)], .ok none⟩
        | .ok (.tooLarge lease) =>
          ⟨[.answered (some ⟨status, json⟩), .released lease.leaseId], .ok none⟩
        | .ok (.acquired lease) => ⟨[.answered (some ⟨status, json⟩)], .ok (some lease)⟩ :=
  rfl

/-- **An acquisition** gives no lease, releases one that is too large, or gives the one it was granted.
Where it drops a lease, the blocks are not listed. -/
theorem acquireLease_cases (reply : Option (HttpResult F)) :
    ((c.acquireLease reply).acts = [.answered reply] ∧
      (∀ lease, (c.acquireLease reply).result ≠ .ok (some lease)) ∧
      (grantedId reply = none ∨ ¬ GrantsBlocks c.arith reply)) ∨
    ∃ lease, grantedId reply = some lease.leaseId ∧ GrantsBlocks c.arith reply ∧
      (((c.acquireLease reply).acts = [.answered reply, .released lease.leaseId] ∧
        (c.acquireLease reply).result = .ok none) ∨
      ((c.acquireLease reply).acts = [.answered reply] ∧
        (c.acquireLease reply).result = .ok (some lease))) := by
  cases reply with
  | none => exact .inl ⟨rfl, fun _ h => (nomatch h), .inl rfl⟩
  | some result =>
    obtain ⟨status, json⟩ := result
    rw [c.acquireLease_some]
    by_cases haccepted : status ≠ httpOk ∨ json.truthy c.arith = false
    · rw [if_pos haccepted]
      refine .inl ⟨rfl, fun _ h => (nomatch h), .inl ?_⟩
      rw [Option.eq_none_iff_forall_ne_some]
      intro leaseId hid
      obtain ⟨hstatus, fields, rfl, hlookup⟩ := grantedId_eq_some.mp hid
      rcases haccepted with hne | hfalse
      · exact hne hstatus
      · -- an empty dictionary has no id
        have hnil : fields = [] := by simpa [Json.truthy] using hfalse
        rw [hnil] at hlookup
        cases hlookup
    · rw [if_neg haccepted]
      have hstatus : status = httpOk := by
        by_contra hne
        exact haccepted (.inl hne)
      -- where no lease is found, either none was granted or its blocks are not listed
      have hdropped : (∀ lease, c.checkLease json ≠ .ok (.tooLarge lease) ∧
          c.checkLease json ≠ .ok (.acquired lease)) →
          grantedId (some ⟨status, json⟩) = none ∨
            ¬ GrantsBlocks c.arith (some ⟨status, json⟩) := by
        intro hnone
        cases hid : grantedId (some ⟨status, json⟩) with
        | none => exact .inl rfl
        | some leaseId =>
          refine .inr fun hgrants => ?_
          obtain ⟨-, fields, rfl, hlookup⟩ := grantedId_eq_some.mp hid
          have hlists := hgrants status fields rfl (by simp [hid])
          obtain ⟨offsets, h | h⟩ := c.checkLease_of_listsBlocks hlookup hlists
          · exact (hnone _).1 h
          · exact (hnone _).2 h
      have hfound : ∀ lease, c.checkLease json = .ok (.tooLarge lease) ∨
          c.checkLease json = .ok (.acquired lease) →
          grantedId (some ⟨status, json⟩) = some lease.leaseId ∧
            GrantsBlocks c.arith (some ⟨status, json⟩) := by
        intro lease h
        obtain ⟨fields, rfl, hlookup, hlists⟩ := c.listsBlocks_of_checkLease h
        refine ⟨grantedId_eq_some.mpr ⟨hstatus, fields, rfl, hlookup⟩, ?_⟩
        rintro status' fields' hreply -
        cases hreply
        exact hlists
      cases hcheck : c.checkLease json with
      | error e => exact .inl ⟨rfl, fun _ h => (nomatch h), hdropped (by simp [hcheck])⟩
      | ok check =>
        cases check with
        | noOffsets => exact .inl ⟨rfl, fun _ h => (nomatch h), hdropped (by simp [hcheck])⟩
        | tooLarge lease =>
          obtain ⟨hid, hgrants⟩ := hfound lease (.inl hcheck)
          exact .inr ⟨lease, hid, hgrants, .inl ⟨rfl, rfl⟩⟩
        | acquired lease =>
          obtain ⟨hid, hgrants⟩ := hfound lease (.inr hcheck)
          exact .inr ⟨lease, hid, hgrants, .inr ⟨rfl, rfl⟩⟩

/-! ### What a run leaves open -/

/-- The run releases and reads nothing but what is granted, and releases all of it if each lease that
was granted lists its blocks, and only then. -/
structure Sound (arith : FloatArith F) (acts : List (LeaseAct F)) : Prop where
  bracketed : (leaseBrackets F).Bracketed acts
  settled_iff : (leaseBrackets F).Settled acts ↔
    ∀ reply, .answered reply ∈ acts → GrantsBlocks arith reply

theorem Sound.nil (arith : FloatArith F) : Sound arith [] where
  bracketed := .nil
  settled_iff := iff_of_true Brackets.settled_nil fun _ h => (nomatch h)

theorem Sound.append {acts more : List (LeaseAct F)} (hacts : Sound arith acts)
    (hmore : Sound arith more) : Sound arith (acts ++ more) where
  bracketed := hacts.bracketed.append hmore.bracketed
  settled_iff := by
    rw [Brackets.settled_append_iff hacts.bracketed hmore.bracketed, hacts.settled_iff,
      hmore.settled_iff]
    simp only [List.mem_append, or_imp, forall_and]

theorem bracketed_answered (reply : Option (HttpResult F)) :
    (leaseBrackets F).Bracketed [.answered reply] :=
  Brackets.Bracketed.nil.snoc (fun _ h => (nomatch h)) fun _ h => (nomatch h)

/-- An answer alone leaves open what it grants. -/
theorem sound_answered (h : grantedId reply = none ∨ ¬ GrantsBlocks arith reply) :
    Sound arith [.answered reply] where
  bracketed := bracketed_answered reply
  settled_iff := by
    have hsettled : (leaseBrackets F).Settled [.answered reply] ↔ grantedId reply = none := by
      unfold Brackets.Settled
      simp only [leaseBrackets, times_cons, times_nil]
      rw [Option.eq_none_iff_forall_ne_some]
      refine forall_congr' fun leaseId => ?_
      split <;> simp_all
    rw [hsettled]
    simp only [List.mem_singleton, LeaseAct.answered.injEq, forall_eq]
    constructor
    · intro hnone status fields _ hsome
      exact absurd hnone hsome
    · exact fun hgrants => h.resolve_right (not_not_intro hgrants)

/-- A lease that is released at once, or read before. -/
theorem sound_released (hid : grantedId reply = some leaseId) (hgrants : GrantsBlocks arith reply) :
    Sound arith [.answered reply, .released leaseId] ∧
      Sound arith [.answered reply, .read leaseId, .released leaseId] := by
  have hopen : times (leaseBrackets F).closed leaseId [.answered reply] <
      times (leaseBrackets F).opened leaseId [.answered reply] := by
    simp [leaseBrackets, times_cons, hid]
  have hread : (leaseBrackets F).Bracketed ([.answered reply] ++ [.read leaseId]) := by
    refine (bracketed_answered reply).snoc ?_ fun _ h => by cases h
    rintro _ ⟨⟩
    exact hopen
  refine ⟨⟨(bracketed_answered reply).snoc (fun _ h => by cases h) ?_, ?_⟩,
    hread.snoc (fun _ h => by cases h) ?_, ?_⟩
  · rintro _ ⟨⟩
    exact hopen
  · refine iff_of_true (fun i => ?_) ?_
    · simp [leaseBrackets, times_cons, hid]
    · simpa using hgrants
  · rintro _ ⟨⟩
    rw [times_append, times_append]
    exact hopen
  · refine iff_of_true (fun i => ?_) ?_
    · simp [leaseBrackets, times_cons, hid]
    · simpa using hgrants

/-! ## The calls -/

/-- What is done with a lease, if there is one. -/
def onLease (tail : LeaseInfo F → List (LeaseAct F)) :
    Except PyError (Option (LeaseInfo F)) → List (LeaseAct F)
  | .ok (some lease) => tail lease
  | _ => []

theorem onLease_eq_nil {result : Except PyError (Option (LeaseInfo F))}
    (h : ∀ lease, result ≠ .ok (some lease)) : onLease tail result = [] := by
  unfold onLease
  split
  · exact absurd rfl (h _)
  · rfl

/-- **Whoever gets a lease and releases it** at once, or when it is read, is sound. -/
theorem sound_onLease (reply : Option (HttpResult F))
    (htail : (∀ lease, tail lease = [.released lease.leaseId]) ∨
      ∀ lease, tail lease = [.read lease.leaseId, .released lease.leaseId]) :
    Sound c.arith ((c.acquireLease reply).acts ++ onLease tail (c.acquireLease reply).result) := by
  rcases c.acquireLease_cases reply with ⟨hacts, hresult, hdropped⟩ |
    ⟨lease, hid, hgrants, ⟨hacts, hresult⟩ | ⟨hacts, hresult⟩⟩
  · rw [hacts, onLease_eq_nil hresult, List.append_nil]
    exact sound_answered hdropped
  · rw [hacts, hresult]
    exact (sound_released hid hgrants).1
  · rw [hacts, hresult]
    rcases htail with htail | htail
    · simp only [onLease, htail]
      exact (sound_released hid hgrants).1
    · simp only [onLease, htail]
      exact (sound_released hid hgrants).2

theorem sound_get (reply : Option (HttpResult F))
    (read : LeaseInfo F → Except PyError (Option α)) : Sound c.arith (c.get reply read).acts := by
  have hacts : (c.get reply read).acts = (c.acquireLease reply).acts ++
      onLease (fun lease => [.read lease.leaseId, .released lease.leaseId])
        (c.acquireLease reply).result := by
    unfold get
    dsimp only
    split <;> simp [*, onLease]
  rw [hacts]
  exact c.sound_onLease reply (.inr fun _ => rfl)

theorem sound_existsKey (reply : Option (HttpResult F)) :
    Sound c.arith (c.existsKey reply).acts := by
  have hacts : (c.existsKey reply).acts = (c.acquireLease reply).acts ++
      onLease (fun lease => [.released lease.leaseId]) (c.acquireLease reply).result := by
    unfold existsKey
    dsimp only
    split <;> simp [*, onLease]
  rw [hacts]
  exact c.sound_onLease reply (.inl fun _ => rfl)

/-- The loop over the keys, one lease after the other. -/
theorem sound_batchedAsyncContains (numHits : Nat) (replies : List (Option (HttpResult F))) :
    Sound c.arith (c.batchedAsyncContains numHits replies).acts := by
  induction replies generalizing numHits with
  | nil => exact .nil _
  | cons reply replies ih =>
    have hacts : ∃ rest, Sound c.arith rest ∧
        (c.batchedAsyncContains numHits (reply :: replies)).acts = (c.acquireLease reply).acts ++
          onLease (fun lease => [.released lease.leaseId]) (c.acquireLease reply).result ++
          rest := by
      unfold batchedAsyncContains
      dsimp only
      split
      · exact ⟨_, ih (numHits + 1), by simp [*, onLease]⟩
      · exact ⟨[], .nil _, by simp [*, onLease]⟩
      · exact ⟨[], .nil _, by simp [*, onLease]⟩
    obtain ⟨rest, hrest, hacts⟩ := hacts
    rw [hacts]
    exact (c.sound_onLease reply (.inl fun _ => rfl)).append hrest

theorem sound_run (calls : List (LeaseCall F α)) : Sound c.arith (c.run calls) := by
  induction calls with
  | nil => exact .nil _
  | cons call calls ih =>
    refine Sound.append ?_ ih
    cases call with
    | get reply read => exact c.sound_get reply read
    | existsKey reply => exact c.sound_existsKey reply
    | batchedAsyncContains replies => exact c.sound_batchedAsyncContains 0 replies

/-- **Lease balance**: nothing is released that is not granted, nothing is read that is not granted or
is released, and every lease that is granted is released if and only if each answer that grants one
lists its blocks. -/
theorem leases_balanced_iff (calls : List (LeaseCall F α)) :
    ((leaseBrackets F).Bracketed (c.run calls) ∧ (leaseBrackets F).Settled (c.run calls)) ↔
      ∀ reply, .answered reply ∈ c.run calls → GrantsBlocks c.arith reply := by
  rw [(c.sound_run calls).settled_iff]
  exact and_iff_right (c.sound_run calls).bracketed

/-- A connector that computes with no floats. -/
def plainConnector : LeaseConnector Unit where
  arith := ⟨fun _ => true, fun _ _ => (), fun _ => (), fun _ _ => false⟩
  maxLeaseSizeBytes := none
  limit_lt := by simp

/-- An answer that grants a lease without offsets. -/
def grantWithoutOffsets : Option (HttpResult Unit) :=
  some ⟨200, .obj [("id", .str "lease-1"), ("offsets", .arr [])]⟩

/-- A lease that is granted without offsets is never released. -/
theorem lease_not_released :
    (plainConnector.run [.existsKey (α := Unit) grantWithoutOffsets] =
        [.answered grantWithoutOffsets] ∧
      grantedId grantWithoutOffsets = some (.str "lease-1")) ∧
    ¬ (leaseBrackets Unit).Settled
      (plainConnector.run [.existsKey (α := Unit) grantWithoutOffsets]) := by
  have hrun : plainConnector.run [.existsKey (α := Unit) grantWithoutOffsets] =
      [.answered grantWithoutOffsets] := rfl
  have hid : grantedId grantWithoutOffsets = some (.str "lease-1") := rfl
  refine ⟨⟨hrun, hid⟩, fun hsettled => ?_⟩
  have hcount := hsettled (.str "lease-1")
  rw [hrun] at hcount
  simp [leaseBrackets, times_cons, hid] at hcount

end LeaseConnector

end LMCache.Storage
