/-
# LMCache.Memory.AddressSpace — the representation invariant of `AddressManager`.

The state is a manager together with the allocations its callers still hold, and an action is one
call of `allocate(n > 0)`, `free` of a live allocation or `sbrk(m ≥ 0)`.

* Accounting, for any alignment: `Coalesced.cover`, `Coalesced.sum` and `allocate_cover` say that
  each operation moves exactly one range between the free and the live side, at every address.
* Structure, for a power-of-two alignment: `Coherent` is the invariant the operations keep.  The
  free blocks are pairwise *strictly* apart, which is at once disjointness and full coalescing, and
  free and live ranges tile the heap.  One step lemma per operation, then the run rule.

The one block that may be empty is a block at the very end of the heap: `sbrk(0)` on an address
space that is allocated to its end leaves it there, and so does an initial size of 0.
-/
import Mathlib.Tactic
import LMCache.Lib.Run
import LMCache.Lib.Cover
import LMCache.Memory.AddressManager

namespace LMCache.Memory

open LMCache.Lib

/-! ## Accounting: one range changes sides -/

/-- The address ranges of a list of blocks. -/
def blockRanges (l : List FreeBlock) : List (Int × Int) := l.map FreeBlock.range

@[simp] theorem blockRanges_cons (b : FreeBlock) (l : List FreeBlock) :
    blockRanges (b :: l) = b.range :: blockRanges l := rfl

theorem blockRanges_perm {l l' : List FreeBlock} (h : l.Perm l') :
    (blockRanges l).Perm (blockRanges l') := h.map _

/-- The address range of an allocation `(address, size)`. -/
def allocRange (a : Int × Int) : Int × Int := (a.1, a.1 + a.2)

theorem range_split {s n k : Int} (hn : 0 ≤ n) (hk : 0 ≤ k) (x : Int) :
    hits (s, s + (n + k)) x = hits (s, s + n) x + hits (s + n, s + n + k) x := by
  rw [hits_split (b := s + n) (by omega) (by omega), ← Int.add_assoc]

namespace AddressManager

namespace Coalesced

variable {l l' : List FreeBlock} {c : FreeBlock} {prev succ : Option FreeBlock}

theorem nonneg (h : Coalesced l l' c prev succ) (hl : ∀ b ∈ l, 0 ≤ b.size) (hc : 0 ≤ c.size) :
    ∀ b ∈ l', 0 ≤ b.size := by
  intro b hb
  cases h with
  | @both p s R _ _ _ _ hperm hperm' =>
    simp only [hperm.mem_iff, List.mem_cons, forall_eq_or_imp] at hl
    rcases List.mem_cons.mp (hperm'.mem_iff.mp hb) with rfl | hb
    · show 0 ≤ p.size + (c.size + s.size)
      omega
    · exact hl.2.2 b hb
  | @prevOnly p R _ _ _ hperm hperm' =>
    simp only [hperm.mem_iff, List.mem_cons, forall_eq_or_imp] at hl
    rcases List.mem_cons.mp (hperm'.mem_iff.mp hb) with rfl | hb
    · show 0 ≤ p.size + c.size
      omega
    · exact hl.2 b hb
  | @succOnly s R _ _ _ hperm hperm' =>
    simp only [hperm.mem_iff, List.mem_cons, forall_eq_or_imp] at hl
    rcases List.mem_cons.mp (hperm'.mem_iff.mp hb) with rfl | hb
    · show 0 ≤ c.size + s.size
      omega
    · exact hl.2 b hb
  | alone _ _ hperm' =>
    rcases List.mem_cons.mp (hperm'.mem_iff.mp hb) with rfl | hb
    · exact hc
    · exact hl b hb

theorem sum (h : Coalesced l l' c prev succ) :
    (l'.map FreeBlock.size).sum = (l.map FreeBlock.size).sum + c.size := by
  cases h with
  | both _ _ _ _ hl hl' =>
    rw [(hl.map _).sum_eq, (hl'.map _).sum_eq]; simp only [List.map_cons, List.sum_cons]; omega
  | prevOnly _ _ _ hl hl' =>
    rw [(hl.map _).sum_eq, (hl'.map _).sum_eq]; simp only [List.map_cons, List.sum_cons]; omega
  | succOnly _ _ _ hl hl' =>
    rw [(hl.map _).sum_eq, (hl'.map _).sum_eq]; simp only [List.map_cons, List.sum_cons]; omega
  | alone _ _ hl' =>
    rw [(hl'.map _).sum_eq]; simp only [List.map_cons, List.sum_cons]; omega

/-- Putting a block back covers its range once more and changes nothing else. -/
theorem cover (h : Coalesced l l' c prev succ) (hl : ∀ b ∈ l, 0 ≤ b.size) (hc : 0 ≤ c.size)
    (x : Int) : cover (blockRanges l') x = cover (blockRanges l) x + hits c.range x := by
  cases h with
  | @both p s R _ _ hpc hcs hperm hperm' =>
    simp only [hperm.mem_iff, List.mem_cons, forall_eq_or_imp] at hl
    rw [cover_perm (blockRanges_perm hperm), cover_perm (blockRanges_perm hperm')]
    simp only [FreeBlock.stop] at hpc hcs
    have h1 := range_split (s := p.start) (k := c.size + s.size) hl.1 (by omega) x
    have h2 := range_split (s := p.start + p.size) (k := s.size) hc hl.2.1 x
    simp only [← Int.add_assoc] at h1 h2
    simp only [blockRanges_cons, cover_cons, FreeBlock.range, FreeBlock.stop, ← Int.add_assoc,
      ← hcs, ← hpc] at h1 h2 ⊢
    omega
  | @prevOnly p R _ _ hpc hperm hperm' =>
    simp only [hperm.mem_iff, List.mem_cons, forall_eq_or_imp] at hl
    rw [cover_perm (blockRanges_perm hperm), cover_perm (blockRanges_perm hperm')]
    have h1 := range_split (s := p.start) hl.1 hc x
    simp only [FreeBlock.stop] at hpc
    simp only [blockRanges_cons, cover_cons, FreeBlock.range, FreeBlock.stop, ← hpc] at h1 ⊢
    omega
  | @succOnly s R _ _ hcs hperm hperm' =>
    simp only [hperm.mem_iff, List.mem_cons, forall_eq_or_imp] at hl
    rw [cover_perm (blockRanges_perm hperm), cover_perm (blockRanges_perm hperm')]
    have h1 := range_split (s := c.start) hc hl.1 x
    simp only [FreeBlock.stop] at hcs
    simp only [blockRanges_cons, cover_cons, FreeBlock.range, FreeBlock.stop, ← hcs] at h1 ⊢
    omega
  | alone _ _ hperm' =>
    rw [cover_perm (blockRanges_perm hperm'), blockRanges_cons, cover_cons]
    exact Nat.add_comm _ _

/-- The block that holds the returned one afterwards, and the blocks left as they were.  It starts
where an old block starts, or where `c` does when no block ends there. -/
theorem merged (h : Coalesced l l' c prev succ) (hl : ∀ b ∈ l, 0 ≤ b.size) :
    ∃ m R, l'.Perm (m :: R) ∧ (∀ b ∈ R, b ∈ l) ∧
      m.start ≤ c.start ∧ c.stop ≤ m.stop ∧ c.size ≤ m.size ∧
      ((∃ p ∈ l, m.start = p.start) ∨
        (m.start = c.start ∧ ∀ p, prev = some p → p.stop ≠ c.start)) := by
  cases h with
  | @both p s R _ _ hpc hcs hperm hperm' =>
    have hp : p ∈ l := hperm.mem_iff.mpr (by simp)
    have hps := hl p hp
    have hss := hl s (hperm.mem_iff.mpr (by simp))
    refine ⟨_, R, hperm', fun b hb => hperm.mem_iff.mpr (by simp [hb]), ?_, ?_, ?_,
      .inl ⟨p, hp, rfl⟩⟩
    all_goals simp only [FreeBlock.stop] at *; omega
  | @prevOnly p R _ _ hpc hperm hperm' =>
    have hp : p ∈ l := hperm.mem_iff.mpr (by simp)
    have hps := hl p hp
    refine ⟨_, R, hperm', fun b hb => hperm.mem_iff.mpr (by simp [hb]), ?_, ?_, ?_,
      .inl ⟨p, hp, rfl⟩⟩
    all_goals simp only [FreeBlock.stop] at *; omega
  | @succOnly s R hnp _ hcs hperm hperm' =>
    have hss := hl s (hperm.mem_iff.mpr (by simp))
    refine ⟨_, R, hperm', fun b hb => hperm.mem_iff.mpr (by simp [hb]), ?_, ?_, ?_,
      .inr ⟨rfl, hnp⟩⟩
    all_goals simp only [FreeBlock.stop] at *; omega
  | alone hnp _ hperm' =>
    exact ⟨c, l, hperm', fun b hb => hb, le_refl _, le_refl _, le_refl _, .inr ⟨rfl, hnp⟩⟩

end Coalesced

variable {a n : Int} {m : AddressManager}

/-- Handing out a range takes it off the free side and changes nothing else. -/
theorem allocate_cover {m' : AddressManager} {size : Int} (hn : 0 ≤ n)
    (h : m.allocate size = .ok ((a, n), m')) (x : Int) :
    cover (blockRanges m.blocks) x = cover (blockRanges m'.blocks) x + hits (a, a + n) x := by
  obtain ⟨b, R, hl, rfl, -, hfit, hl', -⟩ := allocate_ok h
  rw [cover_perm (blockRanges_perm hl), cover_perm (blockRanges_perm hl'), blockRanges_cons,
    cover_cons]
  have hcut := range_split (s := b.start) (k := b.size - n) hn (by omega) x
  rw [show n + (b.size - n) = b.size by omega] at hcut
  split
  case isTrue hgt =>
    simp only [blockRanges_cons, cover_cons, FreeBlock.range, FreeBlock.stop]
    omega
  case isFalse hle =>
    have hb : b.size - n = 0 := by omega
    rw [hb, Int.add_zero, hits_self] at hcut
    simp only [FreeBlock.range, FreeBlock.stop]
    omega

theorem allocate_nonneg {m' : AddressManager} {size : Int} (h : m.allocate size = .ok ((a, n), m'))
    (hm : ∀ b ∈ m.blocks, 0 ≤ b.size) : ∀ b ∈ m'.blocks, 0 ≤ b.size := by
  obtain ⟨b, R, hl, rfl, -, hfit, hl', -⟩ := allocate_ok h
  have hR : ∀ b ∈ R, 0 ≤ b.size := fun b hb =>
    hm b (hl.mem_iff.mpr (List.mem_cons_of_mem _ hb))
  intro d hd
  rw [hl'.mem_iff] at hd
  split at hd
  case isTrue hgt =>
    rcases List.mem_cons.mp hd with rfl | hd
    · show 0 ≤ b.size - n
      omega
    · exact hR d hd
  case isFalse => exact hR d hd

theorem free_nonneg (hn : 0 ≤ n) (hm : ∀ b ∈ m.blocks, 0 ≤ b.size) :
    ∀ b ∈ (m.free a n).blocks, 0 ≤ b.size :=
  (free_coalesced m a n).nonneg hm hn

/-- Returning a range puts it on the free side and changes nothing else. -/
theorem free_cover (hn : 0 ≤ n) (hm : ∀ b ∈ m.blocks, 0 ≤ b.size) (x : Int) :
    cover (blockRanges (m.free a n).blocks) x =
      cover (blockRanges m.blocks) x + hits (a, a + n) x :=
  (free_coalesced m a n).cover hm hn x

end AddressManager

/-! ## The machine: a manager and the allocations its callers hold -/

/-- A manager and the live allocations `(address, aligned size)`. -/
structure AddressSpace where
  manager : AddressManager
  live : List (Int × Int)

/-- One call on the manager. -/
inductive AddressCall where
  | allocate (size : Int)
  | free (address size : Int)
  | sbrk (size : Int)
  deriving DecidableEq, Repr

namespace AddressSpace

/-- `AddressManager(size, align)` with nothing allocated. -/
def init (size align : Int) : AddressSpace := ⟨.init size align, []⟩

/-- One call; an `allocate` that raises leaves everything as it was. -/
def step (s : AddressSpace) : AddressCall → AddressSpace
  | .allocate size =>
    match s.manager.allocate size with
    | .ok (a, m) => ⟨m, a :: s.live⟩
    | .error _ => s
  | .free address size => ⟨s.manager.free address size, s.live.erase (address, size)⟩
  | .sbrk size => ⟨s.manager.sbrk size, s.live⟩

/-- The calls a run may make: a positive request, the return of a live allocation, growth. -/
def Allowed (s : AddressSpace) : AddressCall → Prop
  | .allocate size => 0 < size
  | .free address size => (address, size) ∈ s.live
  | .sbrk size => 0 ≤ size

instance (s : AddressSpace) (c : AddressCall) : Decidable (s.Allowed c) := by
  cases c <;> simp only [Allowed] <;> infer_instance

/-- All the ranges of the address space: the free blocks and the live allocations. -/
def ranges (s : AddressSpace) : List (Int × Int) :=
  blockRanges s.manager.blocks ++ s.live.map allocRange

/-! ## The invariant -/

/-- Strictly apart: disjoint, and not even adjacent. -/
def Apart (b c : FreeBlock) : Prop := b.stop < c.start ∨ c.stop < b.start

instance : Std.Symm Apart := ⟨fun _ _ => Or.symm⟩

theorem apart_perm {l l' : List FreeBlock} (h : l.Perm l') :
    l.Pairwise Apart ↔ l'.Pairwise Apart :=
  h.pairwise_iff fun hbc => Or.symm hbc

/-- The invariant of the address space.  An empty free block can only stand at the heap's end. -/
structure Coherent (s : AddressSpace) : Prop where
  align_pow : ∃ k : Nat, s.manager.align = 2 ^ k
  heap_nonneg : 0 ≤ s.manager.size
  apart : s.manager.blocks.Pairwise Apart
  block_size : ∀ b ∈ s.manager.blocks, 0 < b.size ∨ (b.size = 0 ∧ b.start = s.manager.size)
  block_start : ∀ b ∈ s.manager.blocks, s.manager.align ∣ b.start
  live_size : ∀ a ∈ s.live, 0 < a.2
  live_aligned : ∀ a ∈ s.live, s.manager.align ∣ a.1 ∧ s.manager.align ∣ a.2
  tiles : Tiles s.ranges 0 s.manager.size
  total : s.manager.totalAllocatedSize = (s.live.map Prod.snd).sum
  balance : (s.manager.blocks.map FreeBlock.size).sum + s.manager.totalAllocatedSize
    = s.manager.size

namespace Coherent

variable {s : AddressSpace}

theorem block_nonneg (h : Coherent s) : ∀ b ∈ s.manager.blocks, 0 ≤ b.size := fun b hb => by
  rcases h.block_size b hb with hpos | ⟨hzero, -⟩ <;> omega

variable {b : FreeBlock}

/-- Every free block lies inside the heap. -/
theorem block_within (h : Coherent s) (hb : b ∈ s.manager.blocks) : b.stop ≤ s.manager.size := by
  rcases h.block_size b hb with hpos | ⟨hzero, hend⟩
  · have hmem : b.range ∈ s.ranges := List.mem_append_left _ (List.mem_map_of_mem hb)
    exact (h.tiles.within hmem (by simp only [FreeBlock.range, FreeBlock.stop]; omega)).2
  · simp only [FreeBlock.stop]; omega

theorem live_within (h : Coherent s) {a : Int × Int} (ha : a ∈ s.live) :
    a.1 + a.2 ≤ s.manager.size := by
  have hmem : allocRange a ∈ s.ranges := List.mem_append_right _ (List.mem_map_of_mem ha)
  have := h.live_size a ha
  exact (h.tiles.within hmem (by simp only [allocRange]; omega)).2

/-- A free block lies beside every live allocation; before it only with room to spare. -/
theorem beside_live (h : Coherent s) (hb : b ∈ s.manager.blocks) {a : Int × Int} (ha : a ∈ s.live) :
    (b.stop ≤ a.1 ∧ b.start < a.1) ∨ a.1 + a.2 ≤ b.start := by
  have hpos := h.live_size a ha
  rcases h.block_size b hb with hb' | ⟨-, hend⟩
  · have hperm : s.ranges.Perm (b.range :: allocRange a ::
        (blockRanges (s.manager.blocks.erase b) ++ (s.live.erase a).map allocRange)) :=
      ((blockRanges_perm (List.perm_cons_erase hb)).append
        ((List.perm_cons_erase ha).map allocRange)).trans (List.perm_middle.cons b.range)
    have := h.tiles.beside hperm (by simp only [FreeBlock.range, FreeBlock.stop]; omega)
      (by simp only [allocRange]; omega)
    simp only [FreeBlock.range, allocRange, FreeBlock.stop] at this ⊢
    omega
  · right
    rw [hend]
    exact h.live_within ha

/-- Two free blocks of which one starts inside or at the end of the other are the same block. -/
theorem eq_of_touch (h : Coherent s) {p : FreeBlock} (hb : b ∈ s.manager.blocks)
    (hp : p ∈ s.manager.blocks) (h1 : b.start ≤ p.stop) (h2 : p.start ≤ b.stop) : b = p := by
  by_contra hne
  rcases h.apart.forall hb hp hne with h3 | h3 <;> omega

end Coherent

/-! ## One call keeps the invariant -/

/-- Coalescing keeps the blocks strictly apart, when every block lies beside the returned one and
every block that touches it is the neighbour that was looked at. -/
theorem apart_of_coalesced {l l' : List FreeBlock} {c : FreeBlock} {prev succ : Option FreeBlock}
    (h : AddressManager.Coalesced l l' c prev succ) (hapart : l.Pairwise Apart)
    (hsize : ∀ b ∈ l, 0 ≤ b.size)
    (hbeside : ∀ b ∈ l, b.stop ≤ c.start ∨ c.stop ≤ b.start)
    (hprev : ∀ b ∈ l, b.stop = c.start → ∃ p, prev = some p ∧ p.stop = c.start)
    (hsucc : ∀ b ∈ l, b.start = c.stop → b.stop ≠ c.start → ∃ s, succ = some s ∧ c.stop = s.start) :
    l'.Pairwise Apart := by
  cases h with
  | @both p s R _ _ hpc hcs hl hl' =>
    rw [apart_perm hl] at hapart
    rw [apart_perm hl']
    simp only [hl.mem_iff, List.mem_cons, forall_eq_or_imp] at hsize hbeside
    simp only [List.pairwise_cons, List.mem_cons, forall_eq_or_imp] at hapart ⊢
    obtain ⟨⟨-, hp⟩, hs, hR⟩ := hapart
    refine ⟨fun b hb => ?_, hR⟩
    have h1 := hp b hb
    have h2 := hs b hb
    have h3 := hbeside.2.2 b hb
    have h4 := hsize.2.2 b hb
    simp only [Apart, FreeBlock.stop] at *
    omega
  | @prevOnly p R hp hs hpc hl hl' =>
    rw [apart_perm hl] at hapart
    rw [apart_perm hl']
    simp only [hl.mem_iff, List.mem_cons, forall_eq_or_imp] at hsize hbeside hsucc
    simp only [List.pairwise_cons] at hapart ⊢
    refine ⟨fun b hb => ?_, hapart.2⟩
    have h1 := hapart.1 b hb
    have h2 := hbeside.2 b hb
    have h3 := hsize.2 b hb
    have h4 : b.start = c.stop → b.stop = c.start := by
      intro hbc
      by_contra hne
      obtain ⟨s, hs', hcs⟩ := hsucc.2 b hb hbc hne
      exact hs s hs' hcs
    simp only [Apart, FreeBlock.stop] at *
    omega
  | @succOnly s R hp hs hcs hl hl' =>
    rw [apart_perm hl] at hapart
    rw [apart_perm hl']
    simp only [hl.mem_iff, List.mem_cons, forall_eq_or_imp] at hsize hbeside hprev
    simp only [List.pairwise_cons] at hapart ⊢
    refine ⟨fun b hb => ?_, hapart.2⟩
    have h1 := hapart.1 b hb
    have h2 := hbeside.2 b hb
    have h3 := hsize.2 b hb
    have h4 : b.stop ≠ c.start := fun hbc => by
      obtain ⟨p, hp', hpc⟩ := hprev.2 b hb hbc
      exact hp p hp' hpc
    simp only [Apart, FreeBlock.stop] at *
    omega
  | alone hp hs hl' =>
    rw [apart_perm hl', List.pairwise_cons]
    refine ⟨fun b hb => ?_, hapart⟩
    have h2 := hbeside b hb
    have h4 : b.stop ≠ c.start := fun hbc => by
      obtain ⟨p, hp', hpc⟩ := hprev b hb hbc
      exact hp p hp' hpc
    have h5 : b.start ≠ c.stop := fun hbc => by
      obtain ⟨s, hs', hcs⟩ := hsucc b hb hbc h4
      exact hs s hs' hcs
    simp only [Apart, FreeBlock.stop] at *
    omega

variable {a n : Int}

/-- `free` looks at every block that touches the returned range, when every block lies beside it. -/
theorem apart_free_of_beside {m : AddressManager} (hn : 0 < n) (hapart : m.blocks.Pairwise Apart)
    (hsize : ∀ b ∈ m.blocks, 0 ≤ b.size)
    (hbeside : ∀ b ∈ m.blocks, (b.stop ≤ a ∧ b.start < a) ∨ a + n ≤ b.start) :
    (m.free a n).blocks.Pairwise Apart := by
  refine apart_of_coalesced (m.free_coalesced a n) hapart hsize ?_ ?_ ?_
  · intro b hb
    rcases hbeside b hb with hlt | hge
    · exact .inl hlt.1
    · exact .inr hge
  · intro b hb hstop
    have hlt : b.start < a := by
      rcases hbeside b hb with hlt | hge
      · exact hlt.2
      · have := hsize b hb
        simp only [FreeBlock.stop] at hstop
        omega
    obtain ⟨hi, p, hget, hbp, hpa⟩ :=
      SortedKeyList.exists_before_slot (L := m.explicitList) (x := ⟨a, n⟩) hb hlt
    refine ⟨p, by rw [if_pos hi]; exact hget, ?_⟩
    -- the entry before the slot starts between `b` and the returned range, so it is `b`
    have hp : p ∈ m.blocks := List.mem_of_getElem? hget
    have hpa : p.start < a := hpa
    have hbnn := hsize b hb
    have hpnn := hsize p hp
    have heq : b = p := by
      by_contra hne
      rcases hapart.forall hb hp hne with h3 | h3
      · simp only [FreeBlock.stop] at h3 hstop
        omega
      · simp only [FreeBlock.stop] at h3 hstop
        omega
    exact heq ▸ hstop
  · intro b hb hstart _
    have hge : a ≤ b.start := by
      simp only [FreeBlock.stop] at hstart
      omega
    obtain ⟨t, hget, hat, htb⟩ :=
      SortedKeyList.exists_at_slot (L := m.explicitList) (x := ⟨a, n⟩) hb hge
    refine ⟨t, hget, ?_⟩
    -- the entry at the slot starts neither inside the returned range nor behind `b`
    rcases hbeside t (List.mem_of_getElem? hget) with hlt | hge'
    · exact absurd hlt.2 (not_lt.mpr hat)
    · simp only [FreeBlock.stop] at hstart ⊢
      omega

variable {s : AddressSpace}

theorem free_apart (h : Coherent s) (ha : (a, n) ∈ s.live) :
    (s.manager.free a n).blocks.Pairwise Apart :=
  apart_free_of_beside (h.live_size _ ha) h.apart h.block_nonneg fun _ hb => h.beside_live hb ha

/-- `sbrk` looks at the only block that can end at the old end of the heap. -/
theorem sbrk_touch (h : Coherent s) {b : FreeBlock} (hb : b ∈ s.manager.blocks)
    (hstop : b.stop = s.manager.size) :
    ∃ p, s.manager.blocks[s.manager.blocks.length - 1]? = some p ∧ p.stop = s.manager.size := by
  obtain ⟨p, hget, hbp⟩ := SortedKeyList.key_le_last (L := s.manager.explicitList) hb
  have hp : p ∈ s.manager.blocks := List.mem_of_getElem? hget
  have hpnn := h.block_nonneg p hp
  have hwithin := h.block_within hp
  have heq : b = p := by
    apply h.eq_of_touch hb hp
    · simp only [FreeBlock.stop]; omega
    · simp only [FreeBlock.stop] at hstop hwithin ⊢; omega
  exact ⟨p, hget, heq ▸ hstop⟩

theorem sbrk_apart (h : Coherent s) (hn : 0 ≤ s.manager.computeAlignedSize n) :
    (s.manager.sbrk n).blocks.Pairwise Apart := by
  refine apart_of_coalesced (s.manager.sbrk_coalesced n) h.apart h.block_nonneg ?_ ?_ ?_
  · intro b hb
    exact .inl (h.block_within hb)
  · intro b hb hstop
    exact sbrk_touch h hb hstop
  · intro b hb hstart hne
    have := h.block_within hb
    have := h.block_nonneg b hb
    simp only [FreeBlock.stop] at *
    omega

/-- The end of the heap is aligned unless a free block ends there. -/
theorem heap_aligned (h : Coherent s)
    (hend : ∀ b ∈ s.manager.blocks, b.stop ≠ s.manager.size) :
    s.manager.align ∣ s.manager.size := by
  rcases (le_iff_lt_or_eq.mp h.heap_nonneg) with hpos | hzero
  · -- the last address of the heap lies in some range, and that range ends with the heap
    have hcov : 0 < cover s.ranges (s.manager.size - 1) := by
      rw [h.tiles, hits_pos]
      exact ⟨by omega, by simp⟩
    obtain ⟨r, hr, hmem⟩ := cover_pos.mp hcov
    have hlt : r.1 ≤ s.manager.size - 1 ∧ s.manager.size - 1 < r.2 := hmem
    have hr2 : r.2 = s.manager.size := by
      have := (h.tiles.within hr (by omega)).2
      omega
    rcases List.mem_append.mp hr with hfree | hlive
    · obtain ⟨b, hb, rfl⟩ := List.mem_map.mp hfree
      exact absurd hr2 (hend b hb)
    · obtain ⟨a, ha, rfl⟩ := List.mem_map.mp hlive
      rw [← hr2]
      exact dvd_add (h.live_aligned a ha).1 (h.live_aligned a ha).2
  · exact ⟨0, by omega⟩

theorem coherent_init {size : Int} (hsize : 0 ≤ size) (k : Nat) :
    Coherent (init size (2 ^ k)) where
  align_pow := ⟨k, rfl⟩
  heap_nonneg := hsize
  apart := List.pairwise_singleton _ _
  block_size := by
    intro b hb
    obtain rfl : b = ⟨0, size⟩ := List.mem_singleton.mp hb
    show 0 < size ∨ (size = 0 ∧ 0 = size)
    omega
  block_start := by
    intro b hb
    obtain rfl : b = ⟨0, size⟩ := List.mem_singleton.mp hb
    exact dvd_zero _
  live_size := by simp [init]
  live_aligned := by simp [init]
  tiles := by
    intro x
    show cover [((0 : Int), 0 + size)] x = hits (0, size) x
    simp
  total := rfl
  balance := by
    show [size].sum + (0 : Int) = size
    simp

theorem coherent_allocate (h : Coherent s) {size : Int} {m : AddressManager}
    (hsize : 0 < size) (hok : s.manager.allocate size = .ok ((a, n), m)) :
    Coherent ⟨m, (a, n) :: s.live⟩ := by
  obtain ⟨k, hk⟩ := h.align_pow
  obtain ⟨b, R, hl, rfl, rfl, hfit, hl', hm1, hm2, hm3⟩ := AddressManager.allocate_ok hok
  have hn := AddressManager.computeAlignedSize_pos hk hsize
  have hdvd := AddressManager.computeAlignedSize_dvd hk hsize.le
  have hcover := AddressManager.allocate_cover hn.le hok
  generalize s.manager.computeAlignedSize size = n at *
  have hb : b ∈ s.manager.blocks := hl.mem_iff.mpr (by simp)
  have hR : ∀ d ∈ R, d ∈ s.manager.blocks := fun d hd => hl.mem_iff.mpr (by simp [hd])
  have hapart := (apart_perm hl).mp h.apart
  rw [List.pairwise_cons] at hapart
  -- what is left of the block that was taken: nothing, or a nonempty aligned block
  have hmem : ∀ d ∈ m.blocks, d ∈ R ∨
      (d = ⟨b.start + n, b.size - n⟩ ∧ n < b.size) := by
    intro d hd
    rw [hl'.mem_iff] at hd
    split at hd
    case isTrue hgt =>
      rcases List.mem_cons.mp hd with rfl | hd
      · exact .inr ⟨rfl, hgt⟩
      · exact .inl hd
    case isFalse => exact .inl hd
  refine ⟨⟨k, by rw [← hk, ← hm2]⟩, ?_, ?_, ?_, ?_, ?_, ?_, ?_, ?_, ?_⟩
  · show 0 ≤ m.size
    rw [hm1]; exact h.heap_nonneg
  · show m.blocks.Pairwise Apart
    rw [apart_perm hl']
    split
    · refine List.pairwise_cons.mpr ⟨fun d hd => ?_, hapart.2⟩
      have := hapart.1 d hd
      simp only [Apart, FreeBlock.stop] at *
      omega
    · exact hapart.2
  · intro d hd
    rcases hmem d hd with hd | ⟨rfl, hlt⟩
    · rw [hm1]; exact h.block_size d (hR d hd)
    · left
      show 0 < b.size - n
      omega
  · intro d hd
    show m.align ∣ d.start
    rw [hm2]
    rcases hmem d hd with hd | ⟨rfl, -⟩
    · exact h.block_start d (hR d hd)
    · exact dvd_add (h.block_start b hb) hdvd
  · intro d hd
    rcases List.mem_cons.mp hd with rfl | hd
    · exact hn
    · exact h.live_size d hd
  · intro d hd
    show m.align ∣ d.1 ∧ m.align ∣ d.2
    rw [hm2]
    rcases List.mem_cons.mp hd with rfl | hd
    · exact ⟨h.block_start b hb, hdvd⟩
    · exact h.live_aligned d hd
  · intro x
    have h1 := h.tiles x
    have h2 := hcover x
    simp only [ranges, cover_append, List.map_cons, cover_cons, allocRange, hm1] at h1 ⊢
    omega
  · show m.totalAllocatedSize = _
    rw [hm3, h.total, List.map_cons, List.sum_cons]
    omega
  · show (m.blocks.map FreeBlock.size).sum + m.totalAllocatedSize = m.size
    have hsum := h.balance
    rw [(hl.map _).sum_eq, List.map_cons, List.sum_cons] at hsum
    rw [(hl'.map _).sum_eq, hm1, hm3]
    split
    · simp only [List.map_cons, List.sum_cons]; omega
    · omega

theorem coherent_free (h : Coherent s) (ha : (a, n) ∈ s.live) :
    Coherent ⟨s.manager.free a n, s.live.erase (a, n)⟩ := by
  have hn : 0 < n := h.live_size _ ha
  have hdvd : s.manager.align ∣ a := (h.live_aligned _ ha).1
  have hco := s.manager.free_coalesced a n
  obtain ⟨m, R, hl', hR, -, -, hmn, hstart⟩ := hco.merged h.block_nonneg
  have hlive := List.perm_cons_erase ha
  have hsub : ∀ d ∈ s.live.erase (a, n), d ∈ s.live := fun d hd => List.mem_of_mem_erase hd
  refine ⟨h.align_pow, h.heap_nonneg, free_apart h ha, ?_, ?_,
    fun d hd => h.live_size d (hsub d hd), fun d hd => h.live_aligned d (hsub d hd), ?_, ?_, ?_⟩
  · intro d hd
    rcases List.mem_cons.mp (hl'.mem_iff.mp hd) with rfl | hd
    · exact .inl (lt_of_lt_of_le hn hmn)
    · exact h.block_size d (hR d hd)
  · intro d hd
    rcases List.mem_cons.mp (hl'.mem_iff.mp hd) with rfl | hd
    · rcases hstart with ⟨p, hp, hdp⟩ | ⟨hda, -⟩
      · rw [hdp]; exact h.block_start p hp
      · rw [hda]; exact hdvd
    · exact h.block_start d (hR d hd)
  · intro x
    have h1 := h.tiles x
    have h2 := AddressManager.free_cover (a := a) hn.le h.block_nonneg x
    have h3 := cover_perm (hlive.map allocRange) x
    simp only [ranges, cover_append, List.map_cons, cover_cons, allocRange,
      AddressManager.free_size] at h1 h2 h3 ⊢
    omega
  · have h1 := h.total
    rw [(hlive.map _).sum_eq, List.map_cons, List.sum_cons] at h1
    simp only [AddressManager.free_total]
    omega
  · have h1 := h.balance
    have h2 := hco.sum
    simp only [AddressManager.free_total, AddressManager.free_size] at h1 h2 ⊢
    omega

theorem coherent_sbrk (h : Coherent s) {size : Int} (hsize : 0 ≤ size) :
    Coherent ⟨s.manager.sbrk size, s.live⟩ := by
  obtain ⟨k, hk⟩ := h.align_pow
  have hn := AddressManager.computeAlignedSize_nonneg
    (m := s.manager) (by rw [hk]; positivity) hsize
  have hco := s.manager.sbrk_coalesced size
  have hapart := sbrk_apart h hn
  have hcov := hco.cover h.block_nonneg hn
  obtain ⟨m, R, hl', hR, hm1, hm2, hm3, hstart⟩ := hco.merged h.block_nonneg
  have hsz := AddressManager.sbrk_size s.manager size
  generalize s.manager.computeAlignedSize size = n at *
  refine ⟨⟨k, hk⟩, ?_, hapart, ?_, ?_, h.live_size, ?_, ?_, ?_, ?_⟩
  · have := h.heap_nonneg
    show 0 ≤ (s.manager.sbrk size).size
    omega
  · intro d hd
    rw [apart_perm hl', List.pairwise_cons] at hapart
    rw [hsz]
    rcases List.mem_cons.mp (hl'.mem_iff.mp hd) with rfl | hd
    · simp only [FreeBlock.stop] at hm1 hm2 hm3
      omega
    · -- an old empty block would stand at the old end of the heap and touch the merged one
      rcases h.block_size d (hR d hd) with hpos | ⟨hzero, hend⟩
      · exact .inl hpos
      · have := hapart.1 d hd
        simp only [Apart, FreeBlock.stop] at this hm1 hm2 hm3
        omega
  · intro d hd
    show s.manager.align ∣ d.start
    rcases List.mem_cons.mp (hl'.mem_iff.mp hd) with rfl | hd
    · rcases hstart with ⟨p, hp, hdp⟩ | ⟨hda, hno⟩
      · rw [hdp]; exact h.block_start p hp
      · rw [hda]
        refine heap_aligned h fun b hb hstop => ?_
        obtain ⟨p, hp, hpstop⟩ := sbrk_touch h hb hstop
        exact hno p hp hpstop
    · exact h.block_start d (hR d hd)
  · exact h.live_aligned
  · intro x
    have h0 := h.heap_nonneg
    have h1 := h.tiles x
    have h2 := hcov x
    have h3 := range_split (s := 0) h0 hn x
    rw [hsz]
    simp only [ranges, cover_append, FreeBlock.range, FreeBlock.stop, Int.zero_add]
      at h1 h2 h3 ⊢
    omega
  · exact h.total
  · have h1 := h.balance
    have h2 := hco.sum
    simp only [AddressManager.sbrk_total] at h2 ⊢
    omega

/-- **Step lemma.**  Every allowed call keeps the invariant. -/
theorem coherent_step (s : AddressSpace) (c : AddressCall) (h : Coherent s) (hc : s.Allowed c) :
    Coherent (s.step c) := by
  cases c with
  | allocate size =>
    simp only [step]
    cases hok : s.manager.allocate size with
    | error e => exact h
    | ok r =>
      obtain ⟨⟨a, n⟩, m⟩ := r
      exact coherent_allocate h hc hok
  | free a n => exact coherent_free h hc
  | sbrk size => exact coherent_sbrk h hc

/-! ## What every reachable state satisfies -/

/-- What the callers of the manager rely on, stated over its list and its live allocations. -/
structure WellFormed (s : AddressSpace) : Prop where
  sorted : s.manager.blocks.Pairwise fun b c => b.start < c.start
  positive : ∀ b ∈ s.manager.blocks, 0 < b.size ∨ b = ⟨s.manager.size, 0⟩
  not_adjacent : s.manager.blocks.Pairwise fun b c => b.stop ≠ c.start ∧ c.stop ≠ b.start
  disjoint : s.ranges.Pairwise fun r q => Disjoint (points r) (points q)
  union : ⋃ r ∈ s.ranges, points r = Set.Ico 0 s.manager.size
  total : s.manager.totalAllocatedSize = (s.live.map Prod.snd).sum
  aligned : ∀ a ∈ s.live, s.manager.align ∣ a.1
  returned : ∀ size a n m, 0 < size → s.manager.allocate size = .ok ((a, n), m) →
    s.manager.align ∣ a ∧ ∀ r ∈ s.live, Disjoint (points (a, a + n)) (points (allocRange r))
  consistent : s.manager.checkConsistency = true

/-- The pairs that `check_consistency` walks are pairs of the list. -/
theorem pairwise_zip_tail {α : Type} {R : α → α → Prop} {l : List α} (h : l.Pairwise R) :
    ∀ p ∈ l.dropLast.zip l.tail, R p.1 p.2 := by
  induction l with
  | nil => simp
  | cons x xs ih =>
    cases xs with
    | nil => simp
    | cons y ys =>
      obtain ⟨hx, hxs⟩ := List.pairwise_cons.mp h
      intro p hp
      rw [List.dropLast_cons_cons, List.tail_cons, List.zip_cons_cons, List.mem_cons] at hp
      rcases hp with rfl | hp
      · exact hx y (by simp)
      · exact ih hxs p hp

/-- Strictly apart blocks of a sorted list follow each other. -/
theorem Coherent.ordered (h : Coherent s) :
    s.manager.blocks.Pairwise fun b c => b.stop < c.start := by
  have hsorted : s.manager.blocks.Pairwise fun b c => b.start ≤ c.start :=
    s.manager.explicitList.sorted
  refine (hsorted.and h.apart).imp_of_mem ?_
  rintro b c hb hc ⟨hle, hlt | hlt⟩
  · exact hlt
  · have := h.block_nonneg c hc
    simp only [FreeBlock.stop] at hlt
    omega

theorem Coherent.checkConsistency (h : Coherent s) :
    s.manager.checkConsistency = true := by
  have hpairs : (s.manager.blocks.dropLast.zip s.manager.blocks.tail).any
      (fun p => p.1.canBeCoalesced p.2) = false := by
    rw [List.any_eq_false]
    intro p hp hcan
    exact (pairwise_zip_tail h.ordered p hp).ne (FreeBlock.canBeCoalesced_iff.mp hcan)
  have hsum := h.balance
  unfold AddressManager.checkConsistency
  simp only [AddressManager.blocks] at hpairs hsum
  simp [hpairs, hsum]

theorem Coherent.wellFormed (h : Coherent s) : WellFormed s where
  sorted := h.ordered.imp_of_mem fun {b c} hb _ hlt => by
    have := h.block_nonneg b hb
    simp only [FreeBlock.stop] at hlt
    omega
  positive := fun b hb => by
    rcases h.block_size b hb with hpos | ⟨hzero, hend⟩
    · exact .inl hpos
    · right
      cases b
      simp_all
  not_adjacent := h.ordered.imp_of_mem fun {b c} hb hc hlt => by
    have h1 := h.block_nonneg b hb
    have h2 := h.block_nonneg c hc
    simp only [FreeBlock.stop] at hlt ⊢
    omega
  disjoint := h.tiles.pairwise_disjoint
  union := h.tiles.biUnion_eq
  total := h.total
  aligned := fun a ha => (h.live_aligned a ha).1
  returned := fun size a n m hsize hok => by
    have h' := coherent_allocate h hsize hok
    have hd := (List.pairwise_append.mp h'.tiles.pairwise_disjoint).2.1
    rw [List.map_cons, List.pairwise_cons] at hd
    obtain ⟨b, R, hl, rfl, -⟩ := AddressManager.allocate_ok hok
    exact ⟨h.block_start b (hl.mem_iff.mpr (by simp)),
      fun r hr => hd.1 (allocRange r) (List.mem_map_of_mem hr)⟩
  consistent := h.checkConsistency

/-- **The representation invariant.**  From `AddressManager(size, 2 ^ k)`, whatever the calls: the
free list stays sorted and fully coalesced, its blocks and the live allocations partition the heap,
the total is that of the live sizes and every returned address is aligned. -/
theorem wellFormed_of_allowed {size : Int} (hsize : 0 ≤ size) (k : Nat) {calls : List AddressCall}
    (hcalls : Guarded step Allowed (init size (2 ^ k)) calls) :
    Always step WellFormed (init size (2 ^ k)) calls :=
  (always_of_guarded coherent_step (coherent_init hsize k) hcalls).mono fun _ h => h.wellFormed

/-- An unaligned heap that grows, with a coalescing return in between. -/
theorem wellFormed_of_allowed_unaligned :
    Always step WellFormed (init 10000 (2 ^ 12)) [.allocate 5000, .sbrk 1, .free 0 8192] :=
  wellFormed_of_allowed (by decide) 12 (by decide +kernel)

/-- `sbrk(0)` on an address space that is allocated to its end leaves an empty free block there. -/
theorem sbrk_zero_empty_block :
    Guarded step Allowed (init 4096 (2 ^ 12)) [.allocate 4096, .sbrk 0] ∧
      ¬ ∀ b ∈ (run step (init 4096 (2 ^ 12)) [.allocate 4096, .sbrk 0]).manager.blocks,
        0 < b.size := by
  decide +kernel

end AddressSpace

end LMCache.Memory
