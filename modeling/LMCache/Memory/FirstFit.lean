/-
# LMCache.Memory.FirstFit — `AddressManager.allocate` finds the first gap that is large enough.

A gap is a maximal range of addresses of the heap that no live allocation holds.  The invariant of
the address space makes the gaps and the free blocks the same ranges: a free block lies strictly
apart from every other, so it cannot end inside a gap.  First fit over the sorted free list is then
first fit over the gaps.

`allocateIn` is `allocate` with the manager as state, statement by statement, so that it can say
what a call leaves behind that raises.
-/
import LMCache.Memory.AddressSpace

namespace LMCache.Memory

open LMCache.Lib

namespace AddressManager

/-! ## `allocate`, statement by statement -/

/-- What `allocate` does with the block it has found. -/
def takeFrom (block : FreeBlock) (alignedSize : Int) :
    ExceptT PyError (StateM AddressManager) (Int × Int) := do
  modify fun m => { m with explicitList := m.explicitList.remove block }
  if block.size > alignedSize then
    modify fun m => { m with
      explicitList :=
        m.explicitList.add ⟨block.start + alignedSize, block.size - alignedSize⟩ }
  modify fun m => { m with totalAllocatedSize := m.totalAllocatedSize + alignedSize }
  return (block.start, alignedSize)

/-- `allocate(size)`, on the manager itself. -/
def allocateIn (size : Int) : ExceptT PyError (StateM AddressManager) (Int × Int) := do
  let m ← get
  let alignedSize := m.computeAlignedSize size
  match m.explicitList.toList.find? fun b => decide (b.size ≥ alignedSize) with
  | none => throw (.runtimeError (noMemoryMessage size))
  | some block => takeFrom block alignedSize

theorem takeFrom_run (m : AddressManager) (block : FreeBlock) (alignedSize : Int) :
    (takeFrom block alignedSize).run.run m = (.ok (block.start, alignedSize), { m with
      explicitList :=
        if block.size > alignedSize then
          (m.explicitList.remove block).add
            ⟨block.start + alignedSize, block.size - alignedSize⟩
        else m.explicitList.remove block
      totalAllocatedSize := m.totalAllocatedSize + alignedSize }) := by
  unfold takeFrom
  by_cases hmore : block.size > alignedSize
  · rw [if_pos hmore, if_pos hmore]
    rfl
  · rw [if_neg hmore, if_neg hmore]
    rfl

/-- The two say the same; what raises leaves the manager as it was. -/
theorem allocateIn_run (m : AddressManager) (size : Int) :
    (allocateIn size).run.run m =
      match m.allocate size with
      | .ok (a, m') => (.ok a, m')
      | .error e => (.error e, m) := by
  have hget : (allocateIn size).run.run m =
      (match m.explicitList.toList.find? fun b => decide (b.size ≥ m.computeAlignedSize size) with
        | none => throw (.runtimeError (noMemoryMessage size))
        | some block => takeFrom block (m.computeAlignedSize size) :
        ExceptT PyError (StateM AddressManager) (Int × Int)).run.run m := rfl
  rw [hget]
  unfold allocate
  dsimp only
  match hfind : m.explicitList.toList.find?
      fun b => decide (b.size ≥ m.computeAlignedSize size) with
  | none =>
    rw [hfind]
    rfl
  | some block =>
    rw [hfind]
    exact takeFrom_run m block _

/-! ## First fit over the free list -/

/-- `allocate` raises just when no free block is large enough. -/
theorem allocate_eq_error_iff {m : AddressManager} {size : Int} :
    (∃ e, m.allocate size = .error e) ↔ ∀ b ∈ m.blocks, b.size < m.computeAlignedSize size := by
  unfold allocate blocks
  match hfind : m.explicitList.toList.find?
      fun b => decide (b.size ≥ m.computeAlignedSize size) with
  | none =>
    have hnone := List.find?_eq_none.mp hfind
    simp only [decide_eq_true_eq, ge_iff_le, not_le] at hnone
    dsimp only
    rw [hfind]
    exact ⟨fun _ => hnone, fun _ => ⟨_, rfl⟩⟩
  | some block =>
    have hmem := List.mem_of_find?_eq_some hfind
    have hfit := List.find?_some hfind
    simp only [decide_eq_true_eq, ge_iff_le] at hfit
    constructor
    · rintro ⟨e, he⟩
      dsimp only at he
      rw [hfind] at he
      cases he
    · intro hall
      exact absurd hfit (not_le.mpr (hall block hmem))

/-- `allocate` takes the lowest free block that is large enough. -/
theorem allocate_first {m m' : AddressManager} {size a n : Int}
    (h : m.allocate size = .ok ((a, n), m')) :
    n = m.computeAlignedSize size ∧ ∃ b ∈ m.blocks, b.start = a ∧ n ≤ b.size ∧
      ∀ d ∈ m.blocks, n ≤ d.size → a ≤ d.start := by
  unfold allocate at h
  match hfind : m.explicitList.toList.find?
      fun b => decide (b.size ≥ m.computeAlignedSize size) with
  | none =>
    dsimp only at h
    rw [hfind] at h
    cases h
  | some block =>
    dsimp only at h
    rw [hfind] at h
    simp only [Except.ok.injEq, Prod.mk.injEq] at h
    obtain ⟨⟨rfl, rfl⟩, -⟩ := h
    obtain ⟨hfit, before, after, hlist, hnone⟩ := List.find?_eq_some_iff_append.mp hfind
    simp only [decide_eq_true_eq, ge_iff_le] at hfit
    refine ⟨rfl, block, List.mem_of_find?_eq_some hfind, rfl, hfit, ?_⟩
    intro d hd hdfit
    have hsorted : (before ++ block :: after).Pairwise fun b c => b.start ≤ c.start := by
      rw [← hlist]
      exact m.explicitList.sorted
    unfold blocks at hd
    rw [hlist] at hd
    rcases List.mem_append.mp hd with hd | hd
    · have hsmall := hnone d hd
      simp only [ge_iff_le, Bool.not_eq_eq_eq_not, Bool.not_true, decide_eq_false_iff_not,
        not_le] at hsmall
      omega
    · rcases List.mem_cons.mp hd with rfl | hd
      · exact le_refl _
      · exact List.rel_of_pairwise_cons (List.pairwise_append.mp hsorted).2.1 hd

end AddressManager

namespace AddressSpace

/-! ## Gaps -/

/-- A maximal range of addresses of the heap that no live allocation holds. -/
structure IsGap (s : AddressSpace) (g : Int × Int) : Prop where
  nonempty : g.1 < g.2
  start_nonneg : 0 ≤ g.1
  stop_le : g.2 ≤ s.manager.size
  unheld : ∀ x ∈ points g, ∀ a ∈ s.live, x ∉ points (allocRange a)
  held_before : g.1 = 0 ∨ ∃ a ∈ s.live, g.1 - 1 ∈ points (allocRange a)
  held_behind : g.2 = s.manager.size ∨ ∃ a ∈ s.live, g.2 ∈ points (allocRange a)

variable {s : AddressSpace}

/-- An address of the heap lies in a free block or in a live allocation. -/
theorem Coherent.free_or_live (h : Coherent s) {x : Int} (h0 : 0 ≤ x) (hx : x < s.manager.size) :
    (∃ b ∈ s.manager.blocks, x ∈ points b.range) ∨ ∃ a ∈ s.live, x ∈ points (allocRange a) := by
  have hcover : 0 < cover s.ranges x := by
    rw [h.tiles x, hits_pos]
    exact ⟨h0, hx⟩
  obtain ⟨r, hr, hmem⟩ := cover_pos.mp hcover
  rcases List.mem_append.mp hr with hfree | hlive
  · obtain ⟨b, hb, rfl⟩ := List.mem_map.mp hfree
    exact .inl ⟨b, hb, hmem⟩
  · obtain ⟨a, ha, rfl⟩ := List.mem_map.mp hlive
    exact .inr ⟨a, ha, hmem⟩

/-- It does not lie in both. -/
theorem Coherent.not_free_and_live (h : Coherent s) {b : FreeBlock} (hb : b ∈ s.manager.blocks)
    {a : Int × Int} (ha : a ∈ s.live) {x : Int} (hfree : x ∈ points b.range) :
    x ∉ points (allocRange a) := by
  intro hlive
  have hfree : b.start ≤ x ∧ x < b.stop := hfree
  have hlive : a.1 ≤ x ∧ x < a.1 + a.2 := hlive
  rcases h.beside_live hb ha with hbefore | hbehind
  · omega
  · omega

/-- Every free block that is not empty is a gap. -/
theorem Coherent.isGap_range (h : Coherent s) {b : FreeBlock} (hb : b ∈ s.manager.blocks)
    (hpos : 0 < b.size) : IsGap s b.range := by
  have hstop : b.stop = b.start + b.size := rfl
  have hwithin := h.tiles.within (List.mem_append_left _ (List.mem_map_of_mem hb))
    (show b.start < b.stop by omega)
  have h0 : 0 ≤ b.start := hwithin.1
  have hend : b.stop ≤ s.manager.size := hwithin.2
  refine ⟨by show b.start < b.stop; omega, h0, hend,
    fun x hx a ha => h.not_free_and_live hb ha hx, ?_, ?_⟩
  · show b.start = 0 ∨ ∃ a ∈ s.live, b.start - 1 ∈ points (allocRange a)
    rcases eq_or_lt_of_le h0 with hzero | hlt
    · exact .inl hzero.symm
    · refine .inr ?_
      rcases h.free_or_live (x := b.start - 1) (by omega) (by omega) with ⟨d, hd, hx⟩ | hlive
      · -- a free block before `b` would touch it
        have hx : d.start ≤ b.start - 1 ∧ b.start - 1 < d.stop := hx
        have heq : b = d := h.eq_of_touch hb hd (by omega) (by omega)
        subst heq
        omega
      · exact hlive
  · show b.stop = s.manager.size ∨ ∃ a ∈ s.live, b.stop ∈ points (allocRange a)
    rcases eq_or_lt_of_le hend with hlast | hlt
    · exact .inl hlast
    · refine .inr ?_
      rcases h.free_or_live (x := b.stop) (by omega) hlt with ⟨d, hd, hx⟩ | hlive
      · have hx : d.start ≤ b.stop ∧ b.stop < d.stop := hx
        have heq : b = d := h.eq_of_touch hb hd (by omega) (by omega)
        subst heq
        omega
      · exact hlive

/-- **The gaps are the free blocks** that are not empty. -/
theorem Coherent.isGap_iff (h : Coherent s) {g : Int × Int} :
    IsGap s g ↔ ∃ b ∈ s.manager.blocks, 0 < b.size ∧ b.range = g := by
  constructor
  · intro hg
    have hne := hg.nonempty
    have h0 := hg.start_nonneg
    have hle := hg.stop_le
    have hin : g.1 ∈ points g := ⟨le_refl _, hne⟩
    obtain ⟨b, hb, hx⟩ : ∃ b ∈ s.manager.blocks, g.1 ∈ points b.range := by
      rcases h.free_or_live (x := g.1) h0 (by omega) with hfree | ⟨a, ha, hx⟩
      · exact hfree
      · exact absurd hx (hg.unheld _ hin a ha)
    have hx : b.start ≤ g.1 ∧ g.1 < b.stop := hx
    have hstop : b.stop = b.start + b.size := rfl
    have hgap := h.isGap_range hb (by omega)
    have hb0 : 0 ≤ b.start := hgap.start_nonneg
    have hbend : b.stop ≤ s.manager.size := hgap.stop_le
    have hstart : b.start = g.1 := by
      by_contra hlt
      rcases hg.held_before with hzero | ⟨a, ha, hheld⟩
      · omega
      · exact h.not_free_and_live hb ha
          (show b.start ≤ g.1 - 1 ∧ g.1 - 1 < b.stop by omega) hheld
    have hend : b.stop = g.2 := by
      rcases lt_trichotomy b.stop g.2 with hlt | heq | hgt
      · -- what holds the address behind `b` lies in the gap
        rcases hgap.held_behind with hlast | ⟨a, ha, hheld⟩
        · have hlast : b.stop = s.manager.size := hlast
          omega
        · exact absurd hheld
            (hg.unheld _ (show g.1 ≤ b.stop ∧ b.stop < g.2 by omega) a ha)
      · exact heq
      · rcases hg.held_behind with hlast | ⟨a, ha, hheld⟩
        · omega
        · exact absurd hheld (h.not_free_and_live hb ha
            (show b.start ≤ g.2 ∧ g.2 < b.stop by omega))
    refine ⟨b, hb, by omega, ?_⟩
    show (b.start, b.stop) = g
    rw [hstart, hend]
  · rintro ⟨b, hb, hpos, rfl⟩
    exact h.isGap_range hb hpos

/-! ## Completeness -/

/-- What every request of a state comes to.  A request of more than no bytes raises just when no
gap is large enough, and is given the lowest address of the first such gap otherwise; a request
that raises changes nothing. -/
structure AllocatesFirstFit (s : AddressSpace) : Prop where
  raises : ∀ size, 0 < size → ((∃ e, s.manager.allocate size = .error e) ↔
    ∀ g, IsGap s g → g.2 - g.1 < s.manager.computeAlignedSize size)
  returns : ∀ size a n m, 0 < size → s.manager.allocate size = .ok ((a, n), m) →
    n = s.manager.computeAlignedSize size ∧ ∃ stop, IsGap s (a, stop) ∧ n ≤ stop - a ∧
      ∀ g, IsGap s g → n ≤ g.2 - g.1 → a ≤ g.1
  unchanged : ∀ size e, ((AddressManager.allocateIn size).run.run s.manager).1 = .error e →
    ((AddressManager.allocateIn size).run.run s.manager).2 = s.manager

theorem Coherent.allocatesFirstFit (h : Coherent s) : AllocatesFirstFit s where
  raises := by
    intro size hsize
    obtain ⟨k, hk⟩ := h.align_pow
    have hpos := AddressManager.computeAlignedSize_pos hk hsize
    rw [AddressManager.allocate_eq_error_iff]
    constructor
    · intro hall g hg
      obtain ⟨b, hb, -, rfl⟩ := h.isGap_iff.mp hg
      have hlt := hall b hb
      show b.start + b.size - b.start < _
      omega
    · intro hall b hb
      rcases h.block_size b hb with hfull | ⟨hempty, -⟩
      · have hlt := hall _ (h.isGap_range hb hfull)
        change b.start + b.size - b.start < _ at hlt
        omega
      · omega
  returns := by
    intro size a n m hsize hok
    obtain ⟨k, hk⟩ := h.align_pow
    have hpos := AddressManager.computeAlignedSize_pos hk hsize
    obtain ⟨hn, b, hb, rfl, hfit, hfirst⟩ := AddressManager.allocate_first hok
    have hgap := h.isGap_range hb (by omega)
    refine ⟨hn, b.stop, hgap, ?_, ?_⟩
    · show n ≤ b.start + b.size - b.start
      omega
    · intro g hg hle
      obtain ⟨d, hd, -, rfl⟩ := h.isGap_iff.mp hg
      apply hfirst d hd
      change n ≤ d.start + d.size - d.start at hle
      omega
  unchanged := by
    intro size e he
    rw [AddressManager.allocateIn_run] at he ⊢
    match hallocate : s.manager.allocate size with
    | .ok (a, m) =>
      rw [hallocate] at he
      cases he
    | .error e' => rfl

end AddressSpace

end LMCache.Memory
