/-
# LMCache.Lib.Mirror — a view that is kept up to date by notes.

A *store* holds keys; each key has a hash, and several keys may share one.  A *view* elsewhere holds
hashes.  The store tells the view about its changes by a queue of notes: `add h` adds a hash,
`discard h` discards it.  A change of the store and the queueing of its note are two events, so
between them a party *owes* a note.

`Mirrored` is the relation that survives this: every hash of the store is shown or owed an `add`,
and every hash shown is a hash of the store or owed a `discard`.  The rules below say for each event
what it needs to keep the relation.  When nothing is owed the view is exactly the image of the store.
The view meant here is the one that results once every queued note is applied, which is why the rules
for a note act on the view itself: appending a note to the queue is applying it last.
-/
import Mathlib.Data.Set.Insert
import Mathlib.Data.Set.Image
import Mathlib.Tactic

namespace LMCache.Lib

universe u v w

/-- A change of a set of hashes. -/
inductive Note (η : Type u) where
  | add (h : η)
  | discard (h : η)
  deriving DecidableEq

namespace Note

variable {η : Type u}

/-- The hash a note is about. -/
def hash : Note η → η
  | add h => h
  | discard h => h

/-- The view after a note. -/
def apply (V : Set η) : Note η → Set η
  | add h => insert h V
  | discard h => V \ {h}

/-- The view after a queue of notes, first note first. -/
def applyAll (V : Set η) (ns : List (Note η)) : Set η := ns.foldl apply V

@[simp] theorem applyAll_nil (V : Set η) : applyAll V [] = V := rfl

@[simp] theorem applyAll_cons (V : Set η) (n : Note η) (ns : List (Note η)) :
    applyAll V (n :: ns) = applyAll (n.apply V) ns := rfl

theorem applyAll_append (V : Set η) (ms ns : List (Note η)) :
    applyAll V (ms ++ ns) = applyAll (applyAll V ms) ns := by
  simp [applyAll]

variable {V W : Set η} {h : η}

theorem mem_apply_congr (hVW : h ∈ V ↔ h ∈ W) (n : Note η) : h ∈ n.apply V ↔ h ∈ n.apply W := by
  cases n with
  | add h' => simp [apply, hVW]
  | discard h' => simp [apply, hVW]

theorem mem_apply_self (n : Note η) : n.hash ∈ n.apply V ↔ n.hash ∈ n.apply W := by
  cases n with
  | add h' => simp [apply, hash]
  | discard h' => simp [apply, hash]

theorem mem_apply_of_ne {n : Note η} (hne : n.hash ≠ h) : h ∈ n.apply V ↔ h ∈ V := by
  cases n with
  | add h' => simp only [apply, Set.mem_insert_iff]; grind [hash]
  | discard h' => simp only [apply, Set.mem_sdiff, Set.mem_singleton_iff]; grind [hash]

theorem mem_applyAll_congr (hVW : h ∈ V ↔ h ∈ W) (ns : List (Note η)) :
    h ∈ applyAll V ns ↔ h ∈ applyAll W ns := by
  induction ns generalizing V W with
  | nil => exact hVW
  | cons n ns ih => exact ih (mem_apply_congr hVW n)

/-- The last note about a hash decides whether it is shown: the view before does not matter. -/
theorem mem_applyAll_of_touched {ns : List (Note η)} (ht : ∃ n ∈ ns, n.hash = h) :
    h ∈ applyAll V ns ↔ h ∈ applyAll W ns := by
  induction ns generalizing V W with
  | nil => simp at ht
  | cons n ns ih =>
    by_cases hn : n.hash = h
    · subst hn
      exact mem_applyAll_congr (mem_apply_self n) ns
    · obtain ⟨m, hm, hmh⟩ := ht
      rcases List.mem_cons.mp hm with rfl | hm
      · exact absurd hmh hn
      · exact ih ⟨m, hm, hmh⟩

theorem mem_applyAll_of_untouched {ns : List (Note η)} (ht : ∀ n ∈ ns, n.hash ≠ h) :
    h ∈ applyAll V ns ↔ h ∈ V := by
  induction ns generalizing V with
  | nil => exact Iff.rfl
  | cons n ns ih =>
    rw [applyAll_cons, ih fun m hm => ht m (List.mem_cons_of_mem n hm)]
    exact mem_apply_of_ne (ht n List.mem_cons_self)

end Note

/-! ## Notes that are owed -/

section Owed

variable {η : Type u} {π : Type v}

/-- The hashes that some party of the list owes a note for. -/
def owed (owes : π → Option η) (parties : List π) : Set η := {h | ∃ p ∈ parties, owes p = some h}

variable {owes : π → Option η} {parties : List π} {t : Nat} {p q : π} {h : η}

theorem owed_subset_empty (h : ∀ p ∈ parties, owes p = none) : owed owes parties ⊆ ∅ := by
  rintro x ⟨p, hp, hx⟩
  rw [h p hp] at hx
  cases hx

theorem mem_owed_set (ht : parties[t]? = some p) (hq : owes q = some h) :
    h ∈ owed owes (parties.set t q) := by
  obtain ⟨hlt, -⟩ := List.getElem?_eq_some_iff.mp ht
  exact ⟨q, List.mem_set hlt q, hq⟩

/-- A party that moves on keeps what the others owe. -/
theorem owed_subset_set (ht : parties[t]? = some p) :
    owed owes parties ⊆ owed owes (parties.set t q) ∪ {h | owes p = some h} := by
  rintro h ⟨r, hr, hrh⟩
  obtain ⟨j, hj⟩ := List.mem_iff_getElem?.mp hr
  by_cases hjt : t = j
  · subst hjt
    rw [ht] at hj
    cases hj
    exact .inr hrh
  · refine .inl ⟨r, List.mem_of_getElem? (i := j) ?_, hrh⟩
    rw [List.getElem?_set_ne hjt, hj]

/-- Moving between positions that owe the same leaves everything owed as it was. -/
theorem owed_set_of_eq (ht : parties[t]? = some p) (hpq : owes p = owes q) :
    owed owes parties ⊆ owed owes (parties.set t q) := by
  intro h hh
  rcases owed_subset_set (q := q) ht hh with h1 | h1
  · exact h1
  · exact mem_owed_set ht (hpq ▸ h1)

end Owed

/-! ## The mirror relation -/

section Mirror

variable {κ : Type u} {η : Type v}

/-- The view `V` mirrors the store `hot`, up to the notes owed: `A` are the hashes owed an `add`,
`E` those owed a `discard`. -/
structure Mirrored (hash : κ → η) (hot : Set κ) (V A E : Set η) : Prop where
  shown : ∀ k ∈ hot, hash k ∈ V ∨ hash k ∈ A
  backed : ∀ h ∈ V, h ∈ E ∨ ∃ k ∈ hot, hash k = h

namespace Mirrored

variable {hash : κ → η} {hot hot' : Set κ} {V W A A' E E' : Set η} {k : κ} {h : η}

theorem mono (m : Mirrored hash hot V A E) (hA : A ⊆ A') (hE : E ⊆ E') :
    Mirrored hash hot V A' E' where
  shown k hk := (m.shown k hk).imp_right (@hA _)
  backed h hh := (m.backed h hh).imp_left (@hE _)

/-- A key enters the store and its `add` is owed. -/
theorem enter (m : Mirrored hash hot V A E) (hhot : ∀ k', k' ∈ hot' ↔ k' = k ∨ k' ∈ hot)
    (hA : A ⊆ A') (hk : hash k ∈ A') : Mirrored hash hot' V A' E where
  shown k' hk' := by
    rcases (hhot k').mp hk' with rfl | h'
    · exact .inr hk
    · exact (m.shown k' h').imp_right (@hA _)
  backed h hh := (m.backed h hh).imp_right fun ⟨k', h1, h2⟩ => ⟨k', (hhot k').mpr (.inr h1), h2⟩

/-- A key leaves the store and its `discard` is owed. -/
theorem leave (m : Mirrored hash hot V A E) (hhot : ∀ k', k' ∈ hot' ↔ k' ≠ k ∧ k' ∈ hot)
    (hE : E ⊆ E') (hk : hash k ∈ E') : Mirrored hash hot' V A E' where
  shown k' hk' := m.shown k' ((hhot k').mp hk').2
  backed h hh := by
    rcases m.backed h hh with h1 | ⟨k', h1, rfl⟩
    · exact .inl (hE h1)
    · by_cases hkk : k' = k
      · exact .inl (hkk ▸ hk)
      · exact .inr ⟨k', (hhot k').mpr ⟨hkk, h1⟩, rfl⟩

/-- A key leaves the store and nothing will be said about it: that is sound when another key still
carries its hash, or a `discard` of the hash is owed. -/
theorem leaveSilently (m : Mirrored hash hot V A E)
    (hhot : ∀ k', k' ∈ hot' ↔ k' ≠ k ∧ k' ∈ hot)
    (hk : hash k ∈ E ∨ ∃ k' ∈ hot', hash k' = hash k) : Mirrored hash hot' V A E where
  shown k' hk' := m.shown k' ((hhot k').mp hk').2
  backed h hh := by
    rcases m.backed h hh with h1 | ⟨k', h1, rfl⟩
    · exact .inl h1
    · by_cases hkk : k' = k
      · exact hkk ▸ hk
      · exact .inr ⟨k', (hhot k').mpr ⟨hkk, h1⟩, rfl⟩

/-- An owed `add` is queued.  The hash must be in the store, or owed a `discard`. -/
theorem add (m : Mirrored hash hot V A E) (hA : A ⊆ A' ∪ {h})
    (hh : h ∈ E ∨ ∃ k ∈ hot, hash k = h) : Mirrored hash hot ((Note.add h).apply V) A' E where
  shown k hk := by
    rcases m.shown k hk with h1 | h1
    · exact .inl (.inr h1)
    · rcases hA h1 with h2 | h2
      · exact .inr h2
      · exact .inl (.inl h2)
  backed h' hh' := by
    rcases hh' with rfl | h1
    · exact hh
    · exact m.backed h' h1

/-- An owed `discard` is queued.  No key of the store may carry the hash, unless its `add` is still
owed. -/
theorem discard (m : Mirrored hash hot V A E) (hE : E ⊆ E' ∪ {h})
    (hh : ∀ k ∈ hot, hash k = h → h ∈ A) : Mirrored hash hot ((Note.discard h).apply V) A E' where
  shown k hk := by
    by_cases hkh : hash k = h
    · exact .inr (hkh ▸ hh k hk hkh)
    · exact (m.shown k hk).imp_left fun h1 => ⟨h1, hkh⟩
  backed h' hh' := by
    rcases m.backed h' hh'.1 with h1 | h1
    · exact .inl ((hE h1).resolve_right hh'.2)
    · exact .inr h1

/-- With nothing owed the view is the set of hashes of the store. -/
theorem eq_image (m : Mirrored hash hot V ∅ ∅) : V = hash '' hot := by
  ext h
  constructor
  · intro hh
    exact (m.backed h hh).resolve_left (Set.notMem_empty h)
  · rintro ⟨k, hk, rfl⟩
    exact (m.shown k hk).resolve_right (Set.notMem_empty _)

theorem of_eq_image (hV : V = hash '' hot) : Mirrored hash hot V A E where
  shown k hk := .inl (hV ▸ ⟨k, hk, rfl⟩)
  backed h hh := .inr (by rwa [hV] at hh)

end Mirrored

/-! ## One step of a party

Parties act one at a time.  A step changes the store, or queues a note that was owed; the constructors
are the six things it can do, each with what makes it sound. -/

section Change

variable {π : Type w} (hash : κ → η) (hot hot' : Set κ) (A E : Set η)

/-- A step from a position owing `pA` and `pE` to one owing `qA` and `qE`, that queues the notes
listed. -/
inductive Change (pA pE qA qE : Option η) : List (Note η) → Prop where
  | quiet (hhot : hot' = hot) (hA : pA = qA) (hE : pE = qE) : Change pA pE qA qE []
  | enter (k : κ) (hhot : ∀ k', k' ∈ hot' ↔ k' = k ∨ k' ∈ hot) (hA : pA = none)
      (hq : qA = some (hash k)) (hE : pE = qE) : Change pA pE qA qE []
  | leave (k : κ) (hhot : ∀ k', k' ∈ hot' ↔ k' ≠ k ∧ k' ∈ hot) (hA : pA = qA) (hE : pE = none)
      (hq : qE = some (hash k)) : Change pA pE qA qE []
  | vanish (k : κ) (hhot : ∀ k', k' ∈ hot' ↔ k' ≠ k ∧ k' ∈ hot) (hA : pA = qA) (hE : pE = qE)
      (hk : hash k ∈ E ∨ ∃ k' ∈ hot', hash k' = hash k) : Change pA pE qA qE []
  | add (h : η) (hhot : hot' = hot) (hp : pA = some h) (hE : pE = qE)
      (hh : h ∈ E ∨ ∃ k ∈ hot, hash k = h) : Change pA pE qA qE [.add h]
  | discard (h : η) (hhot : hot' = hot) (hA : pA = qA) (hp : pE = some h)
      (hh : ∀ k ∈ hot, hash k = h → h ∈ A) : Change pA pE qA qE [.discard h]

variable {hash hot hot'} {parties : List π} {owesAdd owesDiscard : π → Option η}

/-- **The step rule.**  A reader that mirrored the store before the step mirrors it after having
applied the notes of the step. -/
theorem Change.mirrored {t : Nat} {p q : π} {ns : List (Note η)} (ht : parties[t]? = some p)
    (c : Change hash hot hot' (owed owesAdd parties) (owed owesDiscard parties) (owesAdd p)
      (owesDiscard p) (owesAdd q) (owesDiscard q) ns) {V : Set η}
    (m : Mirrored hash hot V (owed owesAdd parties) (owed owesDiscard parties)) :
    Mirrored hash hot' (Note.applyAll V ns) (owed owesAdd (parties.set t q))
      (owed owesDiscard (parties.set t q)) := by
  have hnone : ∀ owes : π → Option η, owes p = none →
      owed owes parties ⊆ owed owes (parties.set t q) := by
    intro owes hp h hh
    simpa [hp] using owed_subset_set (q := q) ht hh
  have hpaid : ∀ (owes : π → Option η) (h : η), owes p = some h →
      owed owes parties ⊆ owed owes (parties.set t q) ∪ {h} := by
    intro owes h hp x hx
    rcases owed_subset_set (q := q) ht hx with h1 | h1
    · exact .inl h1
    · exact .inr (Option.some.inj (h1.symm.trans hp))
  cases c with
  | quiet hhot hA hE =>
    subst hhot
    exact m.mono (owed_set_of_eq ht hA) (owed_set_of_eq ht hE)
  | enter k hhot hA hq hE =>
    exact (m.enter hhot (hnone _ hA) (mem_owed_set ht hq)).mono le_rfl (owed_set_of_eq ht hE)
  | leave k hhot hA hE hq =>
    exact (m.leave hhot (hnone _ hE) (mem_owed_set ht hq)).mono (owed_set_of_eq ht hA) le_rfl
  | vanish k hhot hA hE hk =>
    exact (m.leaveSilently hhot hk).mono (owed_set_of_eq ht hA) (owed_set_of_eq ht hE)
  | add h hhot hp hE hh =>
    subst hhot
    exact (m.add (hpaid _ h hp) hh).mono le_rfl (owed_set_of_eq ht hE)
  | discard h hhot hA hp hh =>
    subst hhot
    exact (m.discard (hpaid _ h hp) hh).mono (owed_set_of_eq ht hA) le_rfl

end Change

/-! ## Rebuilding a view from a snapshot

A view may be rebuilt from the hashes `S` that the store had at one moment, with the notes queued at
that moment still under way.  Some of these may then be lost, oldest first: what they said is in the
snapshot already.  Notes queued later must not be lost, unless they say nothing new. -/

section Snapshot

variable {hash : κ → η} {hot hot' : Set κ} {S V A A' E E' : Set η} {ns ms : List (Note η)} {n : Nat}

/-- The snapshot `S` and the queue `ns` mirror the store, whether or not up to `n` notes at the head
of the queue are lost. -/
def MirroredFrom (hash : κ → η) (hot : Set κ) (S A E : Set η) (ns : List (Note η)) (n : Nat) : Prop :=
  ∀ i ≤ n, Mirrored hash hot (Note.applyAll S (ns.drop i)) A E

/-- At the moment of the snapshot every queued note may be lost: the last note about a hash that is
left agrees with the store, and a hash without one is in the snapshot or not as it is in the store. -/
theorem mirroredFrom_snapshot (m : Mirrored hash hot (Note.applyAll V ns) A E)
    (hS : S = hash '' hot) (n : Nat) : MirroredFrom hash hot S A E ns n := by
  intro i _
  have hlast : ∀ h, (∃ x ∈ ns.drop i, x.hash = h) →
      (h ∈ Note.applyAll S (ns.drop i) ↔ h ∈ Note.applyAll V ns) := by
    intro h ht
    have hsplit : Note.applyAll V ns =
        Note.applyAll (Note.applyAll V (ns.take i)) (ns.drop i) := by
      rw [← Note.applyAll_append, List.take_append_drop]
    rw [hsplit]
    exact Note.mem_applyAll_of_touched ht
  have hrest : ∀ h, (¬ ∃ x ∈ ns.drop i, x.hash = h) →
      (h ∈ Note.applyAll S (ns.drop i) ↔ h ∈ S) := by
    intro h ht
    exact Note.mem_applyAll_of_untouched fun x hx hxh => ht ⟨x, hx, hxh⟩
  constructor
  · intro k hk
    by_cases ht : ∃ x ∈ ns.drop i, x.hash = hash k
    · rw [hlast _ ht]
      exact m.shown k hk
    · rw [hrest _ ht, hS]
      exact .inl ⟨k, hk, rfl⟩
  · intro h hh
    by_cases ht : ∃ x ∈ ns.drop i, x.hash = h
    · rw [hlast _ ht] at hh
      exact m.backed h hh
    · rw [hrest _ ht, hS] at hh
      exact .inr hh

namespace MirroredFrom

theorem settle (m : MirroredFrom hash hot S A E ns n) :
    Mirrored hash hot (Note.applyAll S ns) A E := m 0 (Nat.zero_le n)

/-- One of the notes that may be lost is gone. -/
theorem lose {x : Note η} (m : MirroredFrom hash hot S A E (x :: ns) (n + 1)) :
    MirroredFrom hash hot S A E ns n := fun i hi => m (i + 1) (by omega)

/-- A note that discards a hash the snapshot lacks says nothing new. -/
theorem loseDiscard {h : η} (m : MirroredFrom hash hot S A E (.discard h :: ns) 0) (hh : h ∉ S) :
    MirroredFrom hash hot S A E ns 0 := by
  intro i hi
  have hi0 : i = 0 := Nat.le_zero.mp hi
  have h0 := m.settle
  rw [Note.applyAll_cons, Note.apply, Set.sdiff_singleton_eq_self hh] at h0
  rw [hi0]
  exact h0

/-- The store goes on: whatever keeps the mirror relation keeps it for every number of lost notes. -/
theorem extend (m : MirroredFrom hash hot S A E ns n) (hn : n ≤ ns.length)
    (hstep : ∀ V, Mirrored hash hot V A E → Mirrored hash hot' (Note.applyAll V ms) A' E') :
    MirroredFrom hash hot' S A' E' (ns ++ ms) n := by
  intro i hi
  rw [List.drop_append_of_le_length (hi.trans hn), Note.applyAll_append]
  exact hstep _ (m i hi)

end MirroredFrom

end Snapshot

end Mirror

end LMCache.Lib
