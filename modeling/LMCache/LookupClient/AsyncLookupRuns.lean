/-
# LMCache.LookupClient.AsyncLookupRuns — the lookup client over every run of its scheduler.

What the four maps have of one id, with its history, is a view, and every step of the client changes
the views of at most one id.  The invariant is about each view and about the stage of the cleanup.
-/
import LMCache.LookupClient.AsyncLookupClient

namespace LMCache.LookupClient

open LMCache.Lib

namespace AsyncLookupClient

/-! ## What the maps have of one id -/

/-- The entries of one id, its history, and where the cleanup is with it. -/
@[ext] structure View where
  status : Option (Option Int)
  first : Option Rat
  res : Option (List Int)
  aborted : Prop
  pending : Prop
  clearing : Prop
  history : History

/-- The ids that are still to be cleaned up. -/
def pending (s : AsyncLookupClient) : List String :=
  match s.pc with
  | .sending _ finished _ => finished
  | .clearing _ _ finished _ => finished
  | _ => []

def view (s : AsyncLookupClient) (id : String) : View where
  status := s.reqsStatus.get? id
  first := s.firstLookupTime.get? id
  res := s.resForEachWorker.get? id
  aborted := id ∈ s.abortedLookups
  pending := id ∈ s.pending
  clearing := s.Clearing id
  history := s.history id

/-- The responses that wait for others. -/
def collected (c : AsyncLookupConfig) : Option Lookup → Option (List Int)
  | none => none
  | some l => if l.responses = [] ∨ l.Complete c then none else some l.hits

theorem collected_of_complete {c : AsyncLookupConfig} {l : Lookup} (h : l.Complete c) :
    collected c (some l) = none := if_pos (Or.inr h)

theorem collected_of_nil (c : AsyncLookupConfig) {l : Lookup} (h : l.responses = []) :
    collected c (some l) = none := if_pos (Or.inl h)

/-- **The invariant of one id.** -/
structure View.Inv (c : AsyncLookupConfig) (v : View) : Prop where
  res : v.res = collected c v.history.last
  workers : ∀ l ∈ v.history.lookups, l.workers.Nodup ∧ ∀ w ∈ l.workers, w < c.worldSize
  older : ∀ l ∈ v.history.lookups.tail, l.Complete c ∧ (l.cancelled = true → l.cleanups = 1)
  status : ∀ x, v.status = some (some x) →
    ∃ l, v.history.last = some l ∧ l.Complete c ∧ l.hits.min? = some x
  first : v.status = some none → v.first ≠ none ∨ v.history.timedOut = true
  pending : v.pending → (∃ x, v.status = some (some x)) ∧ ¬ v.aborted ∧ ¬ v.clearing
  clearing : v.clearing → (∃ x, v.status = some (some x)) ∧ ¬ v.aborted
  /-- A cancelled lookup waits for its answer as aborted. -/
  waiting : ∀ l, v.history.last = some l → l.cancelled = true → ¬ l.Complete c →
    l.cleanups = 0 ∧ v.aborted
  /-- When it has the answer its message is due, or sent. -/
  due : ∀ l, v.history.last = some l → l.cancelled = true → l.Complete c →
    l.cleanups = 1 ∨ l.cleanups = 0 ∧ (∃ x, v.status = some (some x)) ∧ (v.aborted ∨ v.pending)
  /-- The answer goes with the message. -/
  sent : ∀ l, v.history.last = some l → 0 < l.cleanups →
    l.Complete c ∧ ((∀ x, v.status ≠ some (some x)) ∨ v.clearing)
  gone : ∀ l, v.history.last = some l → l.cancelled = true → l.cleanups = 1 →
    ¬ v.aborted ∧ (v.history.asked = false → ¬ v.clearing → v.status = none ∧ v.first = none)

namespace View.Inv

variable {c : AsyncLookupConfig} {v : View}

/-- Two views are the same when all that they show is. -/
theorem congr {w : View} (h : v.Inv c) (hstatus : w.status = v.status) (hfirst : w.first = v.first)
    (hres : w.res = v.res) (haborted : w.aborted ↔ v.aborted) (hpending : w.pending ↔ v.pending)
    (hclearing : w.clearing ↔ v.clearing) (hhistory : w.history = v.history) : w.Inv c := by
  have heq : w = v :=
    View.ext hstatus hfirst hres (propext haborted) (propext hpending) (propext hclearing) hhistory
  exact heq ▸ h

variable {l : Lookup} {rest : List Lookup}

/-- An answer means that the last lookup is complete. -/
theorem complete_of_status (h : v.Inv c) {x : Int} (hx : v.status = some (some x))
    (hl : v.history.last = some l) : l.Complete c := by
  obtain ⟨l', hl', hcomplete, -⟩ := h.status x hx
  rw [hl] at hl'
  cases hl'
  exact hcomplete

/-- While there is an answer no message has been sent. -/
theorem cleanups_eq_zero (h : v.Inv c) {x : Int} (hx : v.status = some (some x))
    (hclearing : ¬ v.clearing) (hl : v.history.last = some l) : l.cleanups = 0 := by
  by_contra hne
  obtain ⟨-, hcases⟩ := h.sent l hl (Nat.pos_of_ne_zero hne)
  rcases hcases with hnot | hclear
  · exact hnot x hx
  · exact hclearing hclear

/-- The status is cleared, by the scheduler or by the cleanup, with no message due. -/
theorem clear (h : v.Inv c) (hpending : ¬ v.pending)
    (hdue : ∀ l, v.history.last = some l → l.cancelled = true → l.Complete c → l.cleanups = 1) :
    View.Inv c { v with
      status := none
      first := none
      clearing := False
      history := { v.history with timedOut := false, asked := false } } where
  res := h.res
  workers := h.workers
  older := h.older
  status _ hx := (nomatch hx)
  first hx := (nomatch hx)
  pending hp := absurd hp hpending
  clearing hc := hc.elim
  waiting := h.waiting
  due l hl hcancelled hcomplete := Or.inl (hdue l hl hcancelled hcomplete)
  sent l hl hpos := ⟨(h.sent l hl hpos).1, Or.inl fun _ hx => (nomatch hx)⟩
  gone l hl hcancelled hone := ⟨(h.gone l hl hcancelled hone).1, fun _ _ => ⟨rfl, rfl⟩⟩

/-- An aborted lookup that has its answer goes over to those that are to be cleaned up. -/
theorem update (h : v.Inv c) (hpending : ¬ v.pending) (hclearing : ¬ v.clearing)
    {finished : Prop} (hfinished : finished → ∃ x, v.status = some (some x)) :
    View.Inv c { v with aborted := v.aborted ∧ ¬ finished, pending := finished } where
  res := h.res
  workers := h.workers
  older := h.older
  status := h.status
  first := h.first
  pending hf := ⟨hfinished hf, fun ha => ha.2 hf, hclearing⟩
  clearing hc := absurd hc hclearing
  waiting l hl hcancelled hcomplete := by
    obtain ⟨hzero, haborted⟩ := h.waiting l hl hcancelled hcomplete
    refine ⟨hzero, haborted, fun hf => ?_⟩
    obtain ⟨x, hx⟩ := hfinished hf
    exact hcomplete (h.complete_of_status hx hl)
  due l hl hcancelled hcomplete := by
    rcases h.due l hl hcancelled hcomplete with hone | ⟨hzero, hstatus, hrest⟩
    · exact Or.inl hone
    · refine Or.inr ⟨hzero, hstatus, ?_⟩
      by_cases hf : finished
      · exact Or.inr hf
      · exact Or.inl ⟨hrest.resolve_right hpending, hf⟩
  sent := h.sent
  gone l hl hcancelled hone := by
    obtain ⟨haborted, hrest⟩ := h.gone l hl hcancelled hone
    exact ⟨fun ha => haborted ha.1, hrest⟩

/-- The message for a lookup goes out. -/
theorem send (h : v.Inv c) (hpending : v.pending) (hlookups : v.history.lookups = l :: rest) :
    View.Inv c { v with
      pending := False
      clearing := True
      history := { v.history with
        lookups := { l with cleanups := l.cleanups + 1 } :: rest } } := by
  have hl : v.history.last = some l := by rw [History.last, hlookups, List.head?_cons]
  obtain ⟨⟨x, hx⟩, haborted, hclearing⟩ := h.pending hpending
  have hcomplete := h.complete_of_status hx hl
  have hzero := h.cleanups_eq_zero hx hclearing hl
  have hworkers := h.workers
  have holder := h.older
  rw [hlookups] at hworkers holder
  constructor
  · rw [h.res, hl]
    rfl
  · exact List.forall_mem_cons.mpr (List.forall_mem_cons.mp hworkers)
  · exact holder
  · intro y hy
    obtain ⟨l', hl', hcomplete', hmin⟩ := h.status y hy
    rw [hl] at hl'
    cases hl'
    exact ⟨_, rfl, hcomplete', hmin⟩
  · exact h.first
  · exact False.elim
  · exact fun _ => ⟨⟨x, hx⟩, haborted⟩
  · rintro _ ⟨⟩ - hnot
    exact absurd hcomplete hnot
  · rintro _ ⟨⟩ - -
    left
    show l.cleanups + 1 = 1
    rw [hzero]
  · rintro _ ⟨⟩ -
    exact ⟨hcomplete, Or.inr trivial⟩
  · rintro _ ⟨⟩ - -
    exact ⟨haborted, fun _ hnot => absurd trivial hnot⟩

/-- A new lookup, when the last one is answered and the answer cleared. -/
theorem lookup (h : v.Inv c) (hpending : ¬ v.pending) (hclearing : ¬ v.clearing)
    (hlast : ∀ l ∈ v.history.last, l.Complete c) (hnot : ∀ x, v.status ≠ some (some x)) :
    View.Inv c { v with
      history := { v.history with lookups := ⟨[], false, 0⟩ :: v.history.lookups } } := by
  constructor
  · refine Eq.trans ?_ (collected_of_nil c (l := ⟨[], false, 0⟩) rfl).symm
    match hl : v.history.last with
    | none => exact h.res.trans (by rw [hl]; rfl)
    | some l => exact h.res.trans (by rw [hl]; exact collected_of_complete (hlast l hl))
  · intro l hl
    rcases List.mem_cons.mp hl with rfl | hl
    · exact ⟨List.nodup_nil, fun w hw => (nomatch hw)⟩
    · exact h.workers l hl
  · intro l hl
    match hlookups : v.history.lookups with
    | [] =>
      rw [List.tail_cons, hlookups] at hl
      cases hl
    | l' :: rest =>
      have hlast' : v.history.last = some l' := by rw [History.last, hlookups, List.head?_cons]
      have holder := h.older
      rw [List.tail_cons, hlookups] at hl
      rw [hlookups] at holder
      rcases List.mem_cons.mp hl with rfl | hl
      · have hcomplete := hlast l hlast'
        refine ⟨hcomplete, fun hcancelled => ?_⟩
        rcases h.due l hlast' hcancelled hcomplete with hone | ⟨-, ⟨x, hx⟩, -⟩
        · exact hone
        · exact absurd hx (hnot x)
      · exact holder l hl
  · exact fun x hx => absurd hx (hnot x)
  · exact h.first
  · exact fun hp => absurd hp hpending
  · exact fun hc => absurd hc hclearing
  · rintro _ ⟨⟩ ⟨⟩
  · rintro _ ⟨⟩ ⟨⟩
  · rintro _ ⟨⟩ hpos
    exact absurd hpos (Nat.lt_irrefl 0)
  · rintro _ ⟨⟩ ⟨⟩

/-- The last lookup is cancelled while its answer is awaited or there. -/
theorem cancel (h : v.Inv c) (hpending : ¬ v.pending) (hclearing : ¬ v.clearing)
    (hlookups : v.history.lookups = l :: rest)
    (hlast : l.Complete c → ∃ x, v.status = some (some x)) :
    View.Inv c { v with
      aborted := True
      history := { v.history with lookups := { l with cancelled := true } :: rest } } := by
  have hl : v.history.last = some l := by rw [History.last, hlookups, List.head?_cons]
  have hworkers := h.workers
  have holder := h.older
  rw [hlookups] at hworkers holder
  have hzero : l.cleanups = 0 := by
    by_contra hne
    obtain ⟨hcomplete, hcases⟩ := h.sent l hl (Nat.pos_of_ne_zero hne)
    obtain ⟨x, hx⟩ := hlast hcomplete
    exact hne (h.cleanups_eq_zero hx hclearing hl)
  constructor
  · rw [h.res, hl]
    rfl
  · exact List.forall_mem_cons.mpr (List.forall_mem_cons.mp hworkers)
  · exact holder
  · intro y hy
    obtain ⟨l', hl', hcomplete', hmin⟩ := h.status y hy
    rw [hl] at hl'
    cases hl'
    exact ⟨_, rfl, hcomplete', hmin⟩
  · exact h.first
  · exact fun hp => absurd hp hpending
  · exact fun hc => absurd hc hclearing
  · rintro _ ⟨⟩ - -
    exact ⟨hzero, trivial⟩
  · rintro _ ⟨⟩ - hcomplete
    exact Or.inr ⟨hzero, hlast hcomplete, Or.inl trivial⟩
  · rintro _ ⟨⟩ hpos
    exact absurd hzero hpos.ne'
  · rintro _ ⟨⟩ - hone
    exact absurd (hzero.symm.trans hone) (by decide)

/-- An id that was never looked up is put with the aborted ones. -/
theorem abort (h : v.Inv c) (hpending : ¬ v.pending) (hclearing : ¬ v.clearing)
    (hlookups : v.history.lookups = []) : View.Inv c { v with aborted := True } := by
  have hl : v.history.last = none := by rw [History.last, hlookups, List.head?_nil]
  refine ⟨h.res, h.workers, h.older, h.status, h.first, fun hp => absurd hp hpending,
    fun hc => absurd hc hclearing, ?_, ?_, h.sent, ?_⟩
  · intro l hl'
    exact absurd (hl.symm.trans hl') (Option.some_ne_none l).symm
  · intro l hl'
    exact absurd (hl.symm.trans hl') (Option.some_ne_none l).symm
  · intro l hl'
    exact absurd (hl.symm.trans hl') (Option.some_ne_none l).symm

/-- `lookup_cache` has no entry for the id, and makes one. -/
theorem ask (h : v.Inv c) (hstatus : v.status = none) (hpending : ¬ v.pending)
    (hclearing : ¬ v.clearing) (now : Rat) :
    View.Inv c { v with
      status := some none
      first := some now
      history := { v.history with timedOut := false, asked := true } } where
  res := h.res
  workers := h.workers
  older := h.older
  status _ hx := (nomatch Option.some.inj hx)
  first _ := Or.inl (Option.some_ne_none now)
  pending hp := absurd hp hpending
  clearing hc := absurd hc hclearing
  waiting := h.waiting
  due l hl hcancelled hcomplete := by
    rcases h.due l hl hcancelled hcomplete with hone | ⟨-, ⟨x, hx⟩, -⟩
    · exact Or.inl hone
    · rw [hstatus] at hx
      cases hx
  sent l hl hpos := ⟨(h.sent l hl hpos).1, Or.inl fun _ hx => (nomatch Option.some.inj hx)⟩
  gone l hl hcancelled hone := ⟨(h.gone l hl hcancelled hone).1, fun hasked => (nomatch hasked)⟩

/-- `lookup_cache` gives up waiting. -/
theorem timeOut (h : v.Inv c) (hstatus : v.status = some none) :
    View.Inv c { v with
      first := none
      history := { v.history with timedOut := true } } where
  res := h.res
  workers := h.workers
  older := h.older
  status := h.status
  first _ := Or.inr rfl
  pending := h.pending
  clearing := h.clearing
  waiting := h.waiting
  due := h.due
  sent := h.sent
  gone l hl hcancelled hone := by
    obtain ⟨haborted, hrest⟩ := h.gone l hl hcancelled hone
    refine ⟨haborted, fun hasked hclearing => ?_⟩
    rw [hstatus] at hrest
    exact absurd (hrest hasked hclearing).1 (Option.some_ne_none none)

/-- A worker that has not answered the last lookup does. -/
theorem respond (h : v.Inv c) (hlookups : v.history.lookups = l :: rest) {worker : Nat}
    (hworker : worker < c.worldSize) (hnew : worker ∉ l.workers) (numHitTokens : Int) :
    v.res.getD [] = l.hits ∧
      View.Inv c { v with
        status := if l.responses.length + 1 = c.worldSize then some (l.hits ++ [numHitTokens]).min?
          else v.status
        res := if l.responses.length + 1 = c.worldSize then none
          else some (l.hits ++ [numHitTokens])
        history := { v.history with
          lookups :=
            { l with responses := l.responses ++ [(worker, numHitTokens)] } :: rest } } := by
  have hl : v.history.last = some l := by rw [History.last, hlookups, List.head?_cons]
  have hworkers := h.workers
  have holder := h.older
  rw [hlookups] at hworkers holder
  obtain ⟨⟨hnodup, hlt⟩, hworkers⟩ := List.forall_mem_cons.mp hworkers
  have hnot : ¬ l.Complete c := by
    intro hcomplete
    refine hnew ((l.workers_perm hnodup hlt hcomplete).mem_iff.mpr ?_)
    exact List.mem_range.mpr hworker
  have hstatus : ∀ x, v.status ≠ some (some x) :=
    fun x hx => hnot (h.complete_of_status hx hl)
  have hcomplete : Lookup.Complete c
      { l with responses := l.responses ++ [(worker, numHitTokens)] } ↔
        l.responses.length + 1 = c.worldSize := by
    unfold Lookup.Complete
    rw [List.length_append, List.length_singleton]
  have hhits : Lookup.hits { l with responses := l.responses ++ [(worker, numHitTokens)] } =
      l.hits ++ [numHitTokens] := List.map_append
  have hnames : Lookup.workers
      { l with responses := l.responses ++ [(worker, numHitTokens)] } = l.workers ++ [worker] :=
    List.map_append
  obtain ⟨y, hy⟩ : ∃ y, (l.hits ++ [numHitTokens]).min? = some y :=
    Option.isSome_iff_exists.mp (by simp [List.isSome_min?_iff])
  refine ⟨?_, ?_⟩
  · rw [h.res, hl]
    unfold collected
    dsimp only
    by_cases hnil : l.responses = []
    · rw [if_pos (Or.inl hnil), Lookup.hits, hnil]
      rfl
    · rw [if_neg (fun hor => hor.elim hnil hnot)]
      rfl
  · constructor
    · by_cases hfull : l.responses.length + 1 = c.worldSize
      · exact (if_pos hfull).trans (collected_of_complete (hcomplete.mpr hfull)).symm
      · refine (if_neg hfull).trans (Eq.symm ((if_neg ?_).trans (congrArg some hhits)))
        rintro (hnil | hfull')
        · exact List.append_ne_nil_of_right_ne_nil _ (List.cons_ne_nil _ _) hnil
        · exact hfull (hcomplete.mp hfull')
    · refine List.forall_mem_cons.mpr ⟨?_, hworkers⟩
      rw [hnames]
      refine ⟨List.nodup_append.mpr ⟨hnodup, List.nodup_singleton _, ?_⟩, fun w hw => ?_⟩
      · rintro a ha b hb rfl
        exact hnew (List.mem_singleton.mp hb ▸ ha)
      · rcases List.mem_append.mp hw with hw | hw
        · exact hlt w hw
        · exact List.mem_singleton.mp hw ▸ hworker
    · exact holder
    · intro x hx
      dsimp only at hx
      split at hx
      · rename_i hfull
        exact ⟨_, rfl, hcomplete.mpr hfull, hhits ▸ Option.some.inj hx⟩
      · exact absurd hx (hstatus x)
    · intro hx
      dsimp only at hx
      split at hx
      · rw [hy] at hx
        cases hx
      · exact h.first hx
    · intro hp
      obtain ⟨⟨x, hx⟩, -⟩ := h.pending hp
      exact absurd hx (hstatus x)
    · intro hc
      obtain ⟨⟨x, hx⟩, -⟩ := h.clearing hc
      exact absurd hx (hstatus x)
    · rintro _ ⟨⟩ hcancelled -
      exact h.waiting l hl hcancelled hnot
    · rintro _ ⟨⟩ hcancelled hfull
      obtain ⟨hzero, haborted⟩ := h.waiting l hl hcancelled hnot
      refine Or.inr ⟨hzero, ⟨y, ?_⟩, Or.inl haborted⟩
      dsimp only
      rw [if_pos (hcomplete.mp hfull), hy]
    · rintro _ ⟨⟩ hpos
      exact absurd (h.sent l hl hpos).1 hnot
    · rintro _ ⟨⟩ hcancelled hone
      have hzero := (h.waiting l hl hcancelled hnot).1
      exact absurd (hzero.symm.trans hone) (by decide)

end View.Inv

/-! ## The cleanup as a whole -/

/-- What was complete when the call began is so still, and its message is sent, or due for one of
the rest. -/
def Began (c : AsyncLookupConfig) (s : AsyncLookupClient) (begun : String → History)
    (rest : List String) : Prop :=
  ∀ id, (∀ (idx : Nat) l, (begun id).lookups[idx]? = some l →
      ∃ l', (s.history id).lookups[idx]? = some l' ∧ l'.cancelled = l.cancelled ∧
        (l.Complete c → l'.Complete c)) ∧
    ∀ l l', (begun id).last = some l → l.Complete c → (s.history id).last = some l' →
      l'.cancelled = true → l'.cleanups = 1 ∨ id ∈ rest

/-- What is sure of the stage that the scheduler is in. -/
def StageInv (c : AsyncLookupConfig) (s : AsyncLookupClient) : Prop :=
  match s.pc with
  | .idle => True
  | .checking _ todo finished begun =>
    (todo ++ finished).Nodup ∧ (∀ id ∈ todo ++ finished, id ∈ s.abortedLookups) ∧
      (∀ id ∈ finished, s.Answered id) ∧ s.Began c begun (todo ++ finished)
  | .sending _ finished begun => finished.Nodup ∧ s.Began c begun finished
  | .clearing _ next finished begun => (next :: finished).Nodup ∧ s.Began c begun finished

structure Inv (c : AsyncLookupConfig) (s : AsyncLookupClient) : Prop where
  views : ∀ id, (s.view id).Inv c
  abortedNodup : s.abortedLookups.Nodup
  stage : s.StageInv c
  returned : ∀ e, s.answer ≠ some (.error e)

theorem inv_init (c : AsyncLookupConfig) : init.Inv c where
  views id := by
    refine ⟨rfl, fun l hl => (nomatch hl), fun l hl => (nomatch hl), fun x hx => (nomatch hx),
      fun hx => (nomatch hx), fun hp => (nomatch hp), ?_, fun l hl => (nomatch hl),
      fun l hl => (nomatch hl), fun l hl => (nomatch hl), fun l hl => (nomatch hl)⟩
    rintro ⟨id', finished, begun, hpc⟩
    cases hpc
  abortedNodup := List.nodup_nil
  stage := trivial
  returned e he := (nomatch he)

variable {c : AsyncLookupConfig} {s : AsyncLookupClient}

theorem not_clearing_of_idle (hpc : s.pc = .idle) (id : String) : ¬ s.Clearing id := by
  rintro ⟨id', finished, begun, hpc'⟩
  rw [hpc] at hpc'
  cases hpc'

theorem pending_of_idle (hpc : s.pc = .idle) : s.pending = [] := by
  unfold pending
  rw [hpc]

/-- `lookup_cache` is called. -/
theorem inv_lookupCache (h : s.Inv c) (hpc : s.pc = .idle) (id : String) {order : List String}
    (horder : order.Perm s.abortedLookups) :
    ({ s with pc := .checking id order [] s.history } : AsyncLookupClient).Inv c where
  views id' := by
    have hview : ({ s with pc := .checking id order [] s.history } : AsyncLookupClient).view id' =
        s.view id' := by
      refine View.ext rfl rfl rfl rfl ?_ ?_ rfl
      · show (id' ∈ []) = (id' ∈ s.pending)
        rw [pending_of_idle hpc]
      · refine propext (iff_of_false ?_ (not_clearing_of_idle hpc id'))
        rintro ⟨_, _, _, hpc'⟩
        cases hpc'
    rw [hview]
    exact h.views id'
  abortedNodup := h.abortedNodup
  stage := by
    show (order ++ []).Nodup ∧ _
    rw [List.append_nil]
    refine ⟨horder.nodup_iff.mpr h.abortedNodup, fun id' hid' => horder.mem_iff.mp hid',
      fun id' hid' => (nomatch hid'), fun id' => ⟨fun idx l hl => ⟨l, hl, rfl, fun hc => hc⟩, ?_⟩⟩
    intro l l' hl hcomplete hl' hcancelled
    have heq : some l = some l' := hl.symm.trans hl'
    cases heq
    rcases (h.views id').due l hl' hcancelled hcomplete with hone | ⟨-, -, haborted | hpending⟩
    · exact Or.inl hone
    · exact Or.inr (horder.mem_iff.mpr haborted)
    · have hnil := pending_of_idle hpc
      exact absurd (hnil ▸ hpending : id' ∈ []) List.not_mem_nil
  returned := h.returned

variable {begun : String → History} {finished : List String} {id next : String}

theorem clearing_iff {id' : String} (hpc : s.pc = .clearing id' next finished begun) :
    s.Clearing id ↔ id = next := by
  unfold Clearing
  rw [hpc]
  constructor
  · rintro ⟨_, _, _, heq⟩
    cases heq
    rfl
  · rintro rfl
    exact ⟨_, _, _, rfl⟩

theorem not_clearing (hpc : ∀ id' next finished begun, s.pc ≠ .clearing id' next finished begun) :
    ¬ s.Clearing id := by
  rintro ⟨_, _, _, heq⟩
  exact hpc _ _ _ _ heq

/-- The history that a call began with goes along with a history that is the same but for marks. -/
theorem Began.mono {s' : AsyncLookupClient} {rest rest' : List String} (h : s.Began c begun rest)
    (hhistory : ∀ id, (s'.history id).lookups = (s.history id).lookups)
    (hrest : ∀ id l, (s.history id).last = some l → l.cancelled = true → l.Complete c → id ∈ rest →
      l.cleanups = 1 ∨ id ∈ rest') : s'.Began c begun rest' := by
  intro id
  obtain ⟨hsame, hdue⟩ := h id
  unfold History.last at *
  rw [hhistory id]
  refine ⟨hsame, fun l l' hl hcomplete hl' hcancelled => ?_⟩
  rcases hdue l l' hl hcomplete hl' hcancelled with hone | hmem
  · exact Or.inl hone
  · obtain ⟨l'', hl'', -, hcomplete'⟩ := hsame 0 l (by rwa [← List.head?_eq_getElem?])
    have heq : some l'' = some l' := by rw [← hl', ← hl'', List.head?_eq_getElem?]
    cases heq
    exact hrest id l' hl' hcancelled (hcomplete' hcomplete) hmem

/-! ## Each step -/

/-- The status of one more id is read. -/
theorem inv_check (h : s.Inv c) {todo finished' : List String}
    (hpc : s.pc = .checking id (next :: todo) finished begun)
    (hfinished : finished' = finished ++ [next] ∧ s.Answered next ∨
      finished' = finished ∧ ¬ s.Answered next) :
    ({ s with pc := .checking id todo finished' begun } : AsyncLookupClient).Inv c where
  views id' := by
    refine (h.views id').congr rfl rfl rfl Iff.rfl ?_ ?_ rfl
    · show id' ∈ [] ↔ id' ∈ s.pending
      unfold pending
      rw [hpc]
    · refine iff_of_false (not_clearing ?_) (not_clearing ?_)
      · exact fun _ _ _ _ heq => (nomatch heq)
      · rw [hpc]
        exact fun _ _ _ _ heq => (nomatch heq)
  abortedNodup := h.abortedNodup
  returned := h.returned
  stage := by
    have hstage := h.stage
    unfold StageInv at hstage ⊢
    rw [hpc] at hstage
    obtain ⟨hnodup, hsubset, hanswered, hbegan⟩ := hstage
    dsimp only at hnodup hsubset hanswered hbegan ⊢
    rcases hfinished with ⟨rfl, hnext⟩ | ⟨rfl, hnext⟩
    · have hperm : (todo ++ (finished ++ [next])).Perm (next :: todo ++ finished) := by
        rw [← List.append_assoc]
        exact List.perm_append_comm
      refine ⟨hperm.nodup_iff.mpr hnodup, fun id' hid' => hsubset id' (hperm.mem_iff.mp hid'), ?_,
        hbegan.mono (fun _ => rfl) fun id' l _ _ _ hmem => Or.inr (hperm.mem_iff.mpr hmem)⟩
      intro id' hid'
      rcases List.mem_append.mp hid' with hid' | hid'
      · exact hanswered id' hid'
      · exact List.mem_singleton.mp hid' ▸ hnext
    · refine ⟨(List.nodup_cons.mp hnodup).2,
        fun id' hid' => hsubset id' (List.mem_cons_of_mem _ hid'), hanswered,
        hbegan.mono (fun _ => rfl) ?_⟩
      intro id' l hl hcancelled hcomplete hmem
      rcases List.mem_cons.mp hmem with rfl | hmem
      · rcases (h.views id').due l hl hcancelled hcomplete with hone | ⟨-, hanswered', -⟩
        · exact Or.inl hone
        · exact absurd hanswered' hnext
      · exact Or.inr hmem

/-- `finished_lookups` is complete, and the others stay aborted. -/
theorem inv_update (h : s.Inv c) (hpc : s.pc = .checking id [] finished begun) :
    ({ s with
      abortedLookups := s.abortedLookups.filter (· ∉ finished)
      pc := .sending id finished begun } : AsyncLookupClient).Inv c := by
  have hstage := h.stage
  unfold StageInv at hstage
  rw [hpc] at hstage
  obtain ⟨hnodup, hsubset, hanswered, hbegan⟩ := hstage
  have hclearing : ∀ id', ¬ s.Clearing id' := by
    intro id'
    apply not_clearing
    rw [hpc]
    exact fun _ _ _ _ heq => (nomatch heq)
  constructor
  · intro id'
    have hpending : ¬ (s.view id').pending := by
      show id' ∉ s.pending
      unfold pending
      rw [hpc]
      exact List.not_mem_nil
    have hview := (h.views id').update hpending (hclearing id') (hanswered id')
    refine hview.congr rfl rfl rfl ?_ Iff.rfl ?_ rfl
    · show id' ∈ s.abortedLookups.filter _ ↔ id' ∈ s.abortedLookups ∧ ¬ id' ∈ finished
      simp
    · refine iff_of_false (not_clearing ?_) (hclearing id')
      exact fun _ _ _ _ heq => (nomatch heq)
  · exact h.abortedNodup.filter _
  · exact ⟨hnodup, hbegan.mono (fun _ => rfl) fun _ _ _ _ _ hmem => Or.inr hmem⟩
  · exact h.returned

/-- The message for the next cancelled lookup is sent. -/
theorem inv_send (h : s.Inv c) (hpc : s.pc = .sending id (next :: finished) begun) :
    ({ s.sendCleanupMessage next with
      pc := .clearing id next finished begun } : AsyncLookupClient).Inv c := by
  have hstage := h.stage
  unfold StageInv at hstage
  rw [hpc] at hstage
  obtain ⟨hnodup, hbegan⟩ := hstage
  have hpending : ∀ id', id' ∈ s.pending ↔ id' ∈ next :: finished := by
    intro id'
    unfold pending
    rw [hpc]
  have hclearing : ∀ id', ¬ s.Clearing id' := by
    intro id'
    apply not_clearing
    rw [hpc]
    exact fun _ _ _ _ heq => (nomatch heq)
  have hnext : (s.view next).pending := (hpending next).mpr List.mem_cons_self
  obtain ⟨⟨x, hx⟩, -, -⟩ := (h.views next).pending hnext
  obtain ⟨l, hl, -, -⟩ := (h.views next).status x hx
  obtain ⟨rest, hlookups⟩ := List.head?_eq_some_iff.mp hl
  have hzero := (h.views next).cleanups_eq_zero hx (hclearing next) hl
  have hhistory : (s.sendCleanupMessage next).history next = { s.history next with
      lookups := { l with cleanups := l.cleanups + 1 } :: rest } := by
    unfold sendCleanupMessage
    dsimp only
    rw [Function.update_self, show (s.history next).lookups = l :: rest from hlookups]
    rfl
  have hother : ∀ id', id' ≠ next → (s.sendCleanupMessage next).history id' = s.history id' :=
    fun id' hne => Function.update_of_ne hne _ _
  constructor
  · intro id'
    by_cases hid : id' = next
    · subst hid
      refine ((h.views id').send hnext hlookups).congr rfl rfl rfl Iff.rfl ?_ ?_ hhistory
      · exact iff_of_false (List.nodup_cons.mp hnodup).1 not_false
      · exact iff_of_true ((clearing_iff rfl).mpr rfl) trivial
    · refine (h.views id').congr rfl rfl rfl Iff.rfl ?_ ?_ (hother id' hid)
      · show id' ∈ finished ↔ id' ∈ s.pending
        rw [hpending, List.mem_cons, or_iff_right hid]
      · exact iff_of_false (fun hc => hid ((clearing_iff rfl).mp hc)) (hclearing id')
  · exact h.abortedNodup
  · refine ⟨hnodup, fun id' => ?_⟩
    obtain ⟨hsame, hdue⟩ := hbegan id'
    show (∀ (idx : Nat) l, _ → ∃ l', ((s.sendCleanupMessage next).history id').lookups[idx]? =
      some l' ∧ _) ∧ ∀ l l', _ → _ → ((s.sendCleanupMessage next).history id').last = some l' → _
    by_cases hid : id' = next
    · subst hid
      rw [hhistory]
      have hlookups' : (s.history id').lookups = l :: rest := hlookups
      rw [hlookups'] at hsame
      refine ⟨fun idx l₀ hl₀ => ?_, ?_⟩
      · obtain ⟨l', hl', hcancelled, hcomplete⟩ := hsame idx l₀ hl₀
        cases idx with
        | zero =>
          cases hl'
          exact ⟨_, rfl, hcancelled, hcomplete⟩
        | succ idx => exact ⟨l', hl', hcancelled, hcomplete⟩
      · rintro l₀ _ - - ⟨⟩ -
        left
        show l.cleanups + 1 = 1
        rw [hzero]
    · rw [hother id' hid]
      refine ⟨hsame, fun l l' hl hcomplete hl' hcancelled => ?_⟩
      exact (hdue l l' hl hcomplete hl' hcancelled).imp_right fun hmem =>
        (List.mem_cons.mp hmem).resolve_left hid
  · exact h.returned

theorem get?_clearLookupStatus_self (s : AsyncLookupClient) (id : String) :
    (s.clearLookupStatus id).reqsStatus.get? id = none ∧
      (s.clearLookupStatus id).firstLookupTime.get? id = none := by
  unfold clearLookupStatus
  simp

theorem get?_clearLookupStatus_ne (s : AsyncLookupClient) {id' : String} (hne : id' ≠ id) :
    (s.clearLookupStatus id).reqsStatus.get? id' = s.reqsStatus.get? id' ∧
      (s.clearLookupStatus id).firstLookupTime.get? id' = s.firstLookupTime.get? id' := by
  unfold clearLookupStatus
  simp [hne]

theorem lookups_clearLookupStatus (s : AsyncLookupClient) (id id' : String) :
    ((s.clearLookupStatus id).history id').lookups = (s.history id').lookups := by
  unfold clearLookupStatus
  dsimp only
  rw [Function.update_apply]
  split
  · rename_i heq
    rw [heq]
  · rfl

/-- The status of a cancelled lookup goes after its message. -/
theorem inv_cleared (h : s.Inv c) (hpc : s.pc = .clearing id next finished begun) :
    ({ s.clearLookupStatus next with
      pc := .sending id finished begun } : AsyncLookupClient).Inv c := by
  have hstage := h.stage
  unfold StageInv at hstage
  rw [hpc] at hstage
  obtain ⟨hnodup, hbegan⟩ := hstage
  have hpending : ∀ id', id' ∈ s.pending ↔ id' ∈ finished := by
    intro id'
    unfold pending
    rw [hpc]
  have hnot : ∀ id', ¬ ({ s.clearLookupStatus next with
      pc := .sending id finished begun } : AsyncLookupClient).Clearing id' :=
    fun id' => not_clearing fun _ _ _ _ heq => (nomatch heq)
  have hnext : next ∉ s.pending := fun hmem =>
    (List.nodup_cons.mp hnodup).1 ((hpending next).mp hmem)
  constructor
  · intro id'
    by_cases hid : id' = next
    · subst hid
      obtain ⟨hstatus, hfirst⟩ := s.get?_clearLookupStatus_self id'
      have hview := (h.views id').clear hnext fun l hl hcancelled hcomplete => by
        rcases (h.views id').due l hl hcancelled hcomplete with hone | ⟨-, -, hrest⟩
        · exact hone
        · obtain ⟨-, haborted⟩ := (h.views id').clearing ((clearing_iff hpc).mpr rfl)
          exact (hrest.elim haborted hnext).elim
      refine hview.congr hstatus hfirst rfl Iff.rfl (hpending id').symm ?_ ?_
      · exact iff_of_false (hnot id') not_false
      · exact Function.update_self _ _ _
    · obtain ⟨hstatus, hfirst⟩ := s.get?_clearLookupStatus_ne hid
      refine (h.views id').congr hstatus hfirst rfl Iff.rfl (hpending id').symm ?_ ?_
      · exact iff_of_false (hnot id') fun hc => hid ((clearing_iff hpc).mp hc)
      · exact Function.update_of_ne hid _ _
  · exact h.abortedNodup
  · exact ⟨(List.nodup_cons.mp hnodup).2,
      hbegan.mono (s.lookups_clearLookupStatus next) fun _ _ _ _ _ hmem => Or.inr hmem⟩
  · exact h.returned

/-- The scheduler clears a status. -/
theorem inv_clearLookupStatus (h : s.Inv c) (hpc : s.pc = .idle)
    (hproper : s.Proper c (.clearLookupStatus id)) : (s.clearLookupStatus id).Inv c := by
  have hpending : ∀ id', id' ∉ s.pending := by
    intro id'
    rw [pending_of_idle hpc]
    exact List.not_mem_nil
  constructor
  · intro id'
    by_cases hid : id' = id
    · subst hid
      obtain ⟨hstatus, hfirst⟩ := s.get?_clearLookupStatus_self id'
      have hview := (h.views id').clear (hpending id') fun l hl hcancelled hcomplete => by
        rcases (h.views id').due l hl hcancelled hcomplete with hone | ⟨hzero, -, -⟩
        · exact hone
        · exact absurd hzero (hproper l hl hcancelled hcomplete)
      refine hview.congr hstatus hfirst rfl Iff.rfl Iff.rfl ?_ ?_
      · exact iff_of_false (not_clearing_of_idle hpc id') not_false
      · exact Function.update_self _ _ _
    · obtain ⟨hstatus, hfirst⟩ := s.get?_clearLookupStatus_ne hid
      refine (h.views id').congr hstatus hfirst rfl Iff.rfl Iff.rfl Iff.rfl ?_
      exact Function.update_of_ne hid _ _
  · exact h.abortedNodup
  · show StageInv c (s.clearLookupStatus id)
    unfold StageInv
    rw [show (s.clearLookupStatus id).pc = .idle from hpc]
    trivial
  · exact h.returned

/-- `lookup` asks the workers. -/
theorem inv_lookup (h : s.Inv c) (hpc : s.pc = .idle) (hproper : s.Proper c (.lookup id)) :
    (s.lookup id).Inv c := by
  have hpending : ∀ id', id' ∉ s.pending := by
    intro id'
    rw [pending_of_idle hpc]
    exact List.not_mem_nil
  constructor
  · intro id'
    by_cases hid : id' = id
    · subst hid
      have hview := (h.views id').lookup (hpending id') (not_clearing_of_idle hpc id')
        (fun l hl => (hproper l hl).1) fun x hx => by
          obtain ⟨l, hl, -, -⟩ := (h.views id').status x hx
          exact (hproper l hl).2 ⟨x, hx⟩
      exact hview.congr rfl rfl rfl Iff.rfl Iff.rfl Iff.rfl (Function.update_self _ _ _)
    · refine (h.views id').congr rfl rfl rfl Iff.rfl Iff.rfl Iff.rfl ?_
      exact Function.update_of_ne hid _ _
  · exact h.abortedNodup
  · show StageInv c (s.lookup id)
    unfold StageInv
    rw [show (s.lookup id).pc = .idle from hpc]
    trivial
  · exact h.returned

/-- `cancel_lookup` marks an id as aborted. -/
theorem inv_cancelLookup (h : s.Inv c) (hpc : s.pc = .idle)
    (hproper : s.Proper c (.cancelLookup id)) : (s.cancelLookup id).Inv c := by
  have hpending : ∀ id', id' ∉ s.pending := by
    intro id'
    rw [pending_of_idle hpc]
    exact List.not_mem_nil
  have hmem : ∀ id', id' ∈ (s.cancelLookup id).abortedLookups ↔
      id' = id ∨ id' ∈ s.abortedLookups := by
    intro id'
    unfold cancelLookup
    dsimp only
    split
    · rename_i hmem
      refine ⟨Or.inr, ?_⟩
      rintro (rfl | h')
      · exact hmem
      · exact h'
    · rw [List.mem_append, List.mem_singleton, or_comm]
  constructor
  · intro id'
    by_cases hid : id' = id
    · subst hid
      match hlookups : (s.history id').lookups with
      | [] =>
        have hview := (h.views id').abort (hpending id') (not_clearing_of_idle hpc id') hlookups
        refine hview.congr rfl rfl rfl (iff_of_true ((hmem id').mpr (Or.inl rfl)) trivial) Iff.rfl
          Iff.rfl ?_
        refine (Function.update_self _ _ _).trans ?_
        rw [hlookups]
        exact (congrArg (fun ls => { s.history id' with lookups := ls }) hlookups).symm
      | l :: rest =>
        have hl : (s.history id').last = some l := by
          rw [History.last, hlookups, List.head?_cons]
        have hview := (h.views id').cancel (hpending id') (not_clearing_of_idle hpc id') hlookups
          (hproper l hl)
        refine hview.congr rfl rfl rfl (iff_of_true ((hmem id').mpr (Or.inl rfl)) trivial) Iff.rfl
          Iff.rfl ?_
        refine (Function.update_self _ _ _).trans ?_
        rw [hlookups]
        rfl
    · refine (h.views id').congr rfl rfl rfl ?_ Iff.rfl Iff.rfl (Function.update_of_ne hid _ _)
      exact (hmem id').trans (or_iff_right hid)
  · show (if id ∈ s.abortedLookups then s.abortedLookups
      else s.abortedLookups ++ [id]).Nodup
    split
    · exact h.abortedNodup
    · rename_i hnot
      refine List.nodup_append.mpr ⟨h.abortedNodup, List.nodup_singleton _, ?_⟩
      rintro a ha b hb rfl
      exact hnot (List.mem_singleton.mp hb ▸ ha)
  · show StageInv c (s.cancelLookup id)
    unfold StageInv
    rw [show (s.cancelLookup id).pc = .idle from hpc]
    trivial
  · exact h.returned

/-- `lookup_cache` reads the status of its id. -/
theorem inv_readStatus (h : s.Inv c) (hpc : s.pc = .sending id [] begun) {now later : Rat}
    (hproper : s.Proper c (.readStatus now later)) :
    ({ s.readStatus c id now later with pc := .idle } : AsyncLookupClient).Inv c := by
  have hnot : ∀ id', ¬ s.Clearing id' := by
    intro id'
    apply not_clearing
    rw [hpc]
    exact fun _ _ _ _ heq => (nomatch heq)
  have hidle : ∀ (s' : AsyncLookupClient) id',
      ¬ ({ s' with pc := .idle } : AsyncLookupClient).Clearing id' :=
    fun s' => not_clearing_of_idle rfl
  have hpending : ∀ id', id' ∉ s.pending := by
    intro id'
    unfold pending
    rw [hpc]
    exact List.not_mem_nil
  unfold Proper at hproper
  rw [hpc] at hproper
  dsimp only at hproper
  unfold readStatus
  match hstatus : s.reqsStatus.get? id with
  | none =>
    refine ⟨fun id' => ?_, h.abortedNodup, trivial, fun e he => (nomatch Option.some.inj he)⟩
    by_cases hid : id' = id
    · subst hid
      have hview := (h.views id').ask hstatus (hpending id') (hnot id') now
      refine hview.congr ?_ ?_ rfl Iff.rfl (iff_of_false List.not_mem_nil (hpending id'))
        (iff_of_false (hidle _ id') (hnot id')) (Function.update_self _ _ _)
      · exact (Dict.get?_set _ _ _ _).trans (if_pos rfl)
      · exact (Dict.get?_set _ _ _ _).trans (if_pos rfl)
    · refine (h.views id').congr ?_ ?_ rfl Iff.rfl (iff_of_false List.not_mem_nil (hpending id'))
        (iff_of_false (hidle _ id') (hnot id')) (Function.update_of_ne hid _ _)
      · exact (Dict.get?_set _ _ _ _).trans (if_neg hid)
      · exact (Dict.get?_set _ _ _ _).trans (if_neg hid)
  | some (some v) =>
    refine ⟨fun id' => ?_, h.abortedNodup, trivial, fun e he => (nomatch Option.some.inj he)⟩
    exact (h.views id').congr rfl rfl rfl Iff.rfl (iff_of_false List.not_mem_nil (hpending id'))
      (iff_of_false (hidle _ id') (hnot id')) rfl
  | some none =>
    dsimp only
    match hfirst : s.firstLookupTime.get? id with
    | none =>
      -- Only a lookup that has timed out waits without a time.
      rcases (h.views id).first hstatus with hne | htimedOut
      · exact absurd hfirst hne
      · exact absurd ⟨hstatus, htimedOut⟩ hproper
    | some first =>
      dsimp only
      split
      · refine ⟨fun id' => ?_, h.abortedNodup, trivial, fun e he => (nomatch Option.some.inj he)⟩
        by_cases hid : id' = id
        · subst hid
          have hview := (h.views id').timeOut hstatus
          refine hview.congr rfl ?_ rfl Iff.rfl (iff_of_false List.not_mem_nil (hpending id'))
            (iff_of_false (hidle _ id') (hnot id')) (Function.update_self _ _ _)
          exact (Dict.get?_erase _ _ _).trans (if_pos rfl)
        · refine (h.views id').congr rfl ?_ rfl Iff.rfl
            (iff_of_false List.not_mem_nil (hpending id'))
            (iff_of_false (hidle _ id') (hnot id')) (Function.update_of_ne hid _ _)
          exact (Dict.get?_erase _ _ _).trans (if_neg hid)
      · refine ⟨fun id' => ?_, h.abortedNodup, trivial, fun e he => (nomatch Option.some.inj he)⟩
        exact (h.views id').congr rfl rfl rfl Iff.rfl
          (iff_of_false List.not_mem_nil (hpending id'))
          (iff_of_false (hidle _ id') (hnot id')) rfl

/-- What a response changes in the maps. -/
theorem processResponse_spec (s : AsyncLookupClient) (id : String) {hits : List Int} (res : Int)
    (hhits : (s.resForEachWorker.get? id).getD [] = hits) :
    ∃ reqsStatus resForEachWorker, s.processResponse c id res =
        { s with reqsStatus := reqsStatus, resForEachWorker := resForEachWorker } ∧
      reqsStatus.get? id =
        (if hits.length + 1 = c.worldSize then some (hits ++ [res]).min?
          else s.reqsStatus.get? id) ∧
      resForEachWorker.get? id =
        (if hits.length + 1 = c.worldSize then none else some (hits ++ [res])) ∧
      ∀ id', id' ≠ id → reqsStatus.get? id' = s.reqsStatus.get? id' ∧
        resForEachWorker.get? id' = s.resForEachWorker.get? id' := by
  unfold processResponse
  dsimp only
  rw [hhits, List.length_append, List.length_singleton]
  by_cases hfull : hits.length + 1 = c.worldSize
  · rw [if_pos hfull, if_pos hfull, if_pos hfull]
    refine ⟨_, _, rfl, ?_, ?_, fun id' hne => ⟨?_, ?_⟩⟩
    · exact (Dict.get?_set _ _ _ _).trans (if_pos rfl)
    · exact (Dict.get?_erase _ _ _).trans (if_pos rfl)
    · exact (Dict.get?_set _ _ _ _).trans (if_neg hne)
    · exact (Dict.get?_erase _ _ _).trans (if_neg hne)
  · rw [if_neg hfull, if_neg hfull, if_neg hfull]
    refine ⟨_, _, rfl, rfl, ?_, fun id' hne => ⟨rfl, ?_⟩⟩
    · exact (Dict.get?_set _ _ _ _).trans (if_pos rfl)
    · exact (Dict.get?_set _ _ _ _).trans (if_neg hne)

/-- A stage goes along with a response to a lookup that is not complete. -/
theorem StageInv.respond (h : s.StageInv c) {s' : AsyncLookupClient} {l l' : Lookup}
    {rest : List Lookup} (hpc : s'.pc = s.pc) (haborted : s'.abortedLookups = s.abortedLookups)
    (hanswered : ∀ id', s.Answered id' → s'.Answered id')
    (hlookups : (s.history id).lookups = l :: rest)
    (hlookups' : (s'.history id).lookups = l' :: rest)
    (hother : ∀ id', id' ≠ id → s'.history id' = s.history id')
    (hcancelled : l'.cancelled = l.cancelled) (hcleanups : l'.cleanups = l.cleanups)
    (hcomplete : ¬ l.Complete c) : s'.StageInv c := by
  have hbegan : ∀ begun rest', s.Began c begun rest' → s'.Began c begun rest' := by
    intro begun rest' hb id'
    obtain ⟨hsame, hdue⟩ := hb id'
    by_cases hid : id' = id
    · subst hid
      unfold History.last at *
      rw [hlookups] at hsame hdue
      rw [hlookups']
      refine ⟨fun idx l₀ hl₀ => ?_, fun l₀ _ hl₀ hcomplete₀ => ?_⟩
      · obtain ⟨l₁, hl₁, hcancelled₁, hcomplete₁⟩ := hsame idx l₀ hl₀
        cases idx with
        | zero =>
          cases hl₁
          exact ⟨l', rfl, hcancelled.trans hcancelled₁, fun hc => absurd (hcomplete₁ hc) hcomplete⟩
        | succ idx => exact ⟨l₁, hl₁, hcancelled₁, hcomplete₁⟩
      · rintro ⟨⟩ hc
        rw [hcleanups]
        exact hdue l₀ l hl₀ hcomplete₀ rfl (hcancelled.symm.trans hc)
    · rw [hother id' hid]
      exact ⟨hsame, hdue⟩
  unfold StageInv at h ⊢
  rw [hpc, haborted]
  match s.pc, h with
  | .idle, _ => trivial
  | .checking .., ⟨hnodup, hsubset, hfinished, hb⟩ =>
    exact ⟨hnodup, hsubset, fun id' hid' => hanswered id' (hfinished id' hid'), hbegan _ _ hb⟩
  | .sending .., ⟨hnodup, hb⟩ => exact ⟨hnodup, hbegan _ _ hb⟩
  | .clearing .., ⟨hnodup, hb⟩ => exact ⟨hnodup, hbegan _ _ hb⟩

/-- The response of a worker is taken in. -/
theorem inv_respond (h : s.Inv c) (id : String) (idx worker : Nat) (numHitTokens : Int) :
    (s.respond c id idx worker numHitTokens).Inv c := by
  unfold respond
  match hidx : (s.history id).lookups[idx]? with
  | none => exact h
  | some l =>
    dsimp only
    split
    · rename_i henabled
      obtain ⟨hworker, hnew⟩ := henabled
      match hlookups : (s.history id).lookups, idx with
      | [], _ =>
        rw [hlookups] at hidx
        cases hidx
      | first :: rest, idx + 1 =>
        -- Every worker has answered each lookup but the last.
        rw [hlookups] at hidx
        have hmem : l ∈ rest := List.mem_of_getElem? hidx
        have hworkers := (h.views id).workers l (by
          show l ∈ (s.history id).lookups
          rw [hlookups]
          exact List.mem_cons_of_mem _ hmem)
        have holder := (h.views id).older l (by
          show l ∈ (s.history id).lookups.tail
          rw [hlookups]
          exact hmem)
        refine absurd ?_ hnew
        exact (l.workers_perm hworkers.1 hworkers.2 holder.1).mem_iff.mpr
          (List.mem_range.mpr hworker)
      | first :: rest, 0 =>
        rw [hlookups] at hidx
        cases hidx
        obtain ⟨hcollected, hview⟩ := (h.views id).respond hlookups hworker hnew numHitTokens
        obtain ⟨reqsStatus, resForEachWorker, hprocess, hstatus, hres, hother⟩ :=
          s.processResponse_spec (c := c) id numHitTokens hcollected
        have hlength : l.hits.length = l.responses.length := List.length_map _
        rw [hlength] at hstatus hres
        have hworkers := (h.views id).workers l (by
          show l ∈ (s.history id).lookups
          rw [hlookups]
          exact List.mem_cons_self)
        have hnot : ¬ l.Complete c := by
          intro hcomplete
          refine hnew ((l.workers_perm hworkers.1 hworkers.2 hcomplete).mem_iff.mpr ?_)
          exact List.mem_range.mpr hworker
        rw [hprocess]
        refine ⟨fun id' => ?_, h.abortedNodup, ?_, h.returned⟩
        · by_cases hid : id' = id
          · subst hid
            exact hview.congr hstatus rfl hres Iff.rfl Iff.rfl Iff.rfl (Function.update_self _ _ _)
          · obtain ⟨hstatus', hres'⟩ := hother id' hid
            exact (h.views id').congr hstatus' rfl hres' Iff.rfl Iff.rfl Iff.rfl
              (Function.update_of_ne hid _ _)
        · have hlookups' : (Function.update s.history id { s.history id with
              lookups := (l :: rest).set 0
                { l with responses := l.responses ++ [(worker, numHitTokens)] } } id).lookups =
              { l with responses := l.responses ++ [(worker, numHitTokens)] } :: rest := by
            rw [Function.update_self]
            rfl
          refine h.stage.respond rfl rfl ?_ hlookups hlookups'
            (fun id' hid => Function.update_of_ne hid _ _) rfl rfl hnot
          · rintro id' ⟨x, hx⟩
            by_cases hid : id' = id
            · subst hid
              obtain ⟨l', hl', hcomplete, -⟩ := (h.views id').status x hx
              have heq : some l = some l' := by
                rw [← hl']
                show _ = (s.history id').lookups.head?
                rw [hlookups, List.head?_cons]
              cases heq
              exact absurd hcomplete hnot
            · exact ⟨x, (hother id' hid).1.trans hx⟩
    · exact h

/-! ## Every run -/

theorem inv_step (h : s.Inv c) (e : ClientEvent) (hproper : s.Proper c e) : (s.step c e).Inv c := by
  cases e with
  | lookupCache id order =>
    unfold step
    match hpc : s.pc with
    | .idle =>
      dsimp only
      split
      · rename_i horder
        exact inv_lookupCache h hpc id horder
      · exact h
    | .checking .. => exact h
    | .sending .. => exact h
    | .clearing .. => exact h
  | cleanup =>
    show s.cleanup.Inv c
    unfold cleanup
    match hpc : s.pc with
    | .idle => exact h
    | .checking id (next :: todo) finished begun =>
      dsimp only
      match hstatus : s.reqsStatus.get? next with
      | some (some v) => exact inv_check h hpc (Or.inl ⟨rfl, v, hstatus⟩)
      | some none =>
        refine inv_check h hpc (Or.inr ⟨rfl, ?_⟩)
        rintro ⟨v, hv⟩
        rw [hstatus] at hv
        cases hv
      | none =>
        refine inv_check h hpc (Or.inr ⟨rfl, ?_⟩)
        rintro ⟨v, hv⟩
        rw [hstatus] at hv
        cases hv
    | .checking id [] finished begun => exact inv_update h hpc
    | .sending id (next :: finished) begun => exact inv_send h hpc
    | .sending id [] begun => exact h
    | .clearing id next finished begun => exact inv_cleared h hpc
  | readStatus now later =>
    unfold step
    match hpc : s.pc with
    | .sending id [] begun => exact inv_readStatus h hpc hproper
    | .sending id (next :: finished) begun => exact h
    | .idle => exact h
    | .checking .. => exact h
    | .clearing .. => exact h
  | lookup id =>
    unfold step
    match hpc : s.pc with
    | .idle => exact inv_lookup h hpc hproper
    | .checking .. => exact h
    | .sending .. => exact h
    | .clearing .. => exact h
  | clearLookupStatus id =>
    unfold step
    match hpc : s.pc with
    | .idle => exact inv_clearLookupStatus h hpc hproper
    | .checking .. => exact h
    | .sending .. => exact h
    | .clearing .. => exact h
  | cancelLookup id =>
    unfold step
    match hpc : s.pc with
    | .idle => exact inv_cancelLookup h hpc hproper
    | .checking .. => exact h
    | .sending .. => exact h
    | .clearing .. => exact h
  | respond id idx worker numHitTokens => exact inv_respond h id idx worker numHitTokens

/-- The invariant says what the client promises. -/
theorem Inv.correct (h : s.Inv c) : s.Correct c where
  returned := h.returned
  least id v hv := by
    obtain ⟨l, hl, hcomplete, hmin⟩ := (h.views id).status v hv
    have hworkers := (h.views id).workers l (List.mem_of_mem_head? hl)
    exact ⟨l, hl, l.workers_perm hworkers.1 hworkers.2 hcomplete, hmin⟩
  once id l hl hcancelled := by
    match hlookups : (s.history id).lookups with
    | [] =>
      rw [hlookups] at hl
      cases hl
    | first :: rest =>
      rw [hlookups] at hl
      rcases List.mem_cons.mp hl with rfl | hl
      · have hlast : (s.history id).last = some l := by
          rw [History.last, hlookups, List.head?_cons]
        by_cases hcomplete : l.Complete c
        · rcases (h.views id).due l hlast hcancelled hcomplete with hone | ⟨hzero, -⟩
          · exact hone.le
          · omega
        · have hzero := ((h.views id).waiting l hlast hcancelled hcomplete).1
          omega
      · have holder := (h.views id).older l (by
          show l ∈ (s.history id).lookups.tail
          rw [hlookups]
          exact hl)
        exact (holder.2 hcancelled).le
  cleaned id' begun hpc id idx l hl hcancelled hcomplete := by
    have hstage := h.stage
    unfold StageInv at hstage
    rw [hpc] at hstage
    obtain ⟨hsame, hdue⟩ := hstage.2 id
    obtain ⟨l', hl', hcancelled', hcomplete'⟩ := hsame idx l hl
    refine ⟨l', hl', ?_⟩
    cases idx with
    | zero =>
      have hhead : (begun id).last = some l := by rwa [History.last, List.head?_eq_getElem?]
      have hhead' : (s.history id).last = some l' := by rwa [History.last, List.head?_eq_getElem?]
      have hone := hdue l l' hhead hcomplete hhead' (hcancelled'.trans hcancelled)
      exact hone.resolve_right List.not_mem_nil
    | succ idx =>
      have htail : l' ∈ (s.history id).lookups.tail := by
        refine List.mem_of_getElem? (i := idx) ?_
        rwa [List.getElem?_tail]
      exact ((h.views id).older l' htail).2 (hcancelled'.trans hcancelled)
  gone id l hl hcancelled hone hasked hclearing := by
    obtain ⟨haborted, hrest⟩ := (h.views id).gone l hl hcancelled hone
    obtain ⟨hstatus, hfirst⟩ := hrest hasked hclearing
    have hcomplete := ((h.views id).sent l hl (by omega)).1
    have hres : s.resForEachWorker.get? id = none := by
      refine (h.views id).res.trans ?_
      rw [show (s.view id).history.last = some l from hl]
      exact collected_of_complete hcomplete
    exact ⟨Dict.get?_eq_none.mp hstatus, Dict.get?_eq_none.mp hfirst, Dict.get?_eq_none.mp hres,
      haborted⟩

def twoWorkers : AsyncLookupConfig := ⟨1000, 2, Nat.two_pos⟩

/-- A call of `lookup_cache` when nothing is to be cleaned up. -/
def askFor (id : String) (now : Rat) : List ClientEvent :=
  [.lookupCache id [], .cleanup, .readStatus now now]

/-- A request is asked for, answered after a time-out, cancelled and cleaned up behind. -/
def cancelledRun : List ClientEvent :=
  askFor "r" 0 ++ [.lookup "r"] ++ askFor "r" 2 ++
    [.cancelLookup "r", .respond "r" 0 1 512, .respond "r" 0 0 256, .lookupCache "s" ["r"],
      .cleanup, .cleanup, .cleanup, .cleanup, .readStatus 3 3]

/-- The request is asked for again after the time-out. -/
def timedOutRun : List ClientEvent :=
  askFor "r" 0 ++ [.lookup "r"] ++ askFor "r" 2 ++ askFor "r" 3

/-- The request is cleared while its lookup is on its way, and looked up again. -/
def clearedRun : List ClientEvent :=
  askFor "r" 0 ++ [.lookup "r", .clearLookupStatus "r"] ++ askFor "r" 1 ++
    [.lookup "r", .respond "r" 1 0 512, .respond "r" 1 1 512]

/-- The request is cancelled after its answer was cleared. -/
def scheduledRun : List ClientEvent :=
  askFor "r" 0 ++ [.lookup "r", .respond "r" 0 0 512, .respond "r" 0 1 512, .clearLookupStatus "r",
    .cancelLookup "r", .lookupCache "s" ["r"], .cleanup, .cleanup]

end AsyncLookupClient

end LMCache.LookupClient
