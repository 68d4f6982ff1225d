/-
# LMCache.Memory.AddressManager — the virtual address space behind the memory allocators.

Source: `v1/memory_management.py`, `FreeBlock` and `AddressManager`.

The manager keeps its free blocks in a list sorted by start address (`_explicit_list`).  `allocate`
is first fit with the remainder put back, `free` coalesces with the two neighbours that a binary
search finds, `sbrk` grows the address space at its end.  Python integers are `Int`; a block held by
the list and updated in place (`prev_block.size += ...`) is named by its position, a block that is
removed is named by its value, as the container finds it.

The second half says what each operation does to the *set* of free blocks, position and order
forgotten: `coalesce_cases`, `free_cases`, `allocate_ok` and `sbrk_cases`.  Later modules reason
from these and never unfold an operation again.
-/
import Mathlib.Data.Int.Bitwise
import Mathlib.Tactic
import LMCache.Lib.SortedKeyList
import LMCache.PyError

namespace LMCache.Memory

open LMCache.Lib

/-! ## The source -/

/-- Metadata class used by the memory allocators. -/
structure FreeBlock where
  start : Int
  size : Int
  deriving DecidableEq, Repr

namespace FreeBlock

def canBeCoalesced (self succ : FreeBlock) : Bool := self.start + self.size == succ.start

/-- The address behind the block. -/
def stop (b : FreeBlock) : Int := b.start + b.size

/-- The half-open address range of the block. -/
def range (b : FreeBlock) : Int × Int := (b.start, b.stop)

theorem canBeCoalesced_iff {b c : FreeBlock} : b.canBeCoalesced c = true ↔ b.stop = c.start := by
  simp [canBeCoalesced, stop]

end FreeBlock

/-- The explicit free list: blocks sorted by `start`. -/
abbrev FreeList := SortedKeyList FreeBlock.start

structure AddressManager where
  size : Int
  align : Int
  explicitList : FreeList
  totalAllocatedSize : Int

namespace AddressManager

/-- `AddressManager.ALIGN_BYTES`. -/
def ALIGN_BYTES : Int := 4096

/-- `AddressManager(size, align_bytes)`. -/
def init (size : Int) (alignBytes : Int := ALIGN_BYTES) : AddressManager where
  size := size
  align := alignBytes
  explicitList := .single FreeBlock.start ⟨0, size⟩
  totalAllocatedSize := 0

/-- `(raw_size + align - 1) & ~(align - 1)`. -/
def computeAlignedSize (m : AddressManager) (rawSize : Int) : Int :=
  Int.land (rawSize + m.align - 1) (Int.lnot (m.align - 1))

/-- `prev_block.size += grow`, on the block at position `i` of the list. -/
def growAt (l : FreeList) (i : Nat) (grow : Int) : FreeList :=
  l.update i (fun b => { b with size := b.size + grow }) fun _ => rfl

/-- `_coalesce`: whether the current block was merged into a neighbour, and the list afterwards.
`prevBlock` is a position of the list together with the block there. -/
def coalesce (l : FreeList) (currBlock : FreeBlock) (prevBlock : Option (Nat × FreeBlock))
    (succBlock : Option FreeBlock) : Bool × FreeList :=
  let mergePrev := prevBlock.filter fun p => p.2.canBeCoalesced currBlock
  let mergeSucc := succBlock.filter fun s => currBlock.canBeCoalesced s
  match mergePrev, mergeSucc with
  | some (i, _), some s => (true, (growAt l i (currBlock.size + s.size)).remove s)
  | some (i, _), none => (true, growAt l i currBlock.size)
  | none, some s =>
    (true, (l.remove s).add ⟨s.start - currBlock.size, s.size + currBlock.size⟩)
  | none, none => (false, l)

/-- `if not coalesced: self._explicit_list.add(new_free_block)`. -/
def addUnlessCoalesced (b : FreeBlock) (r : Bool × FreeList) : FreeList :=
  if r.1 then r.2 else r.2.add b

/-- The message of the `RuntimeError` that `allocate` raises. -/
def noMemoryMessage (size : Int) : String :=
  s!"Failed to allocate memory block of size {size} because no memory is available"

/-- `allocate(size)`: the address, the aligned size and the manager afterwards. -/
def allocate (m : AddressManager) (size : Int) :
    Except PyError ((Int × Int) × AddressManager) :=
  let alignedSize := m.computeAlignedSize size
  match m.explicitList.toList.find? fun b => decide (b.size ≥ alignedSize) with
  | none => .error (.runtimeError (noMemoryMessage size))
  | some block =>
    let l := m.explicitList.remove block
    let l := if block.size > alignedSize then
        l.add ⟨block.start + alignedSize, block.size - alignedSize⟩
      else l
    .ok ((block.start, alignedSize),
      { m with explicitList := l, totalAllocatedSize := m.totalAllocatedSize + alignedSize })

/-- `free(address, size)`. -/
def free (m : AddressManager) (address size : Int) : AddressManager :=
  let newFreeBlock : FreeBlock := ⟨address, size⟩
  let index := m.explicitList.bisectLeft newFreeBlock
  let prevBlock := if index > 0 then
      (m.explicitList.toList[index - 1]?).map fun b => (index - 1, b)
    else none
  let succBlock := m.explicitList.toList[index]?
  { m with
    explicitList :=
      addUnlessCoalesced newFreeBlock (coalesce m.explicitList newFreeBlock prevBlock succBlock)
    totalAllocatedSize := m.totalAllocatedSize - size }

/-- `sbrk(size)`. -/
def sbrk (m : AddressManager) (rawSize : Int) : AddressManager :=
  let size := m.computeAlignedSize rawSize
  let newBlock : FreeBlock := ⟨m.size, size⟩
  let last := m.explicitList.toList.length - 1
  let prevBlock := (m.explicitList.toList[last]?).map fun b => (last, b)
  { m with
    explicitList :=
      addUnlessCoalesced newBlock (coalesce m.explicitList newBlock prevBlock none)
    size := m.size + size }

def getHeapSize (m : AddressManager) : Int := m.size

def getFreeSize (m : AddressManager) : Int := m.size - m.totalAllocatedSize

/-- `check_consistency()`. -/
def checkConsistency (m : AddressManager) : Bool :=
  let blocks := m.explicitList.toList
  if (blocks.dropLast.zip blocks.tail).any fun p => p.1.canBeCoalesced p.2 then false
  else if (blocks.map FreeBlock.size).sum + m.totalAllocatedSize ≠ m.size then false
  else true

/-! ## Alignment -/

/-- Clearing the `k` low bits rounds down to a multiple of `2 ^ k`. -/
theorem ldiff_two_pow_sub_one (n k : Nat) : Nat.ldiff n (2 ^ k - 1) = n / 2 ^ k * 2 ^ k := by
  apply Nat.eq_of_testBit_eq
  intro i
  rw [Nat.testBit_ldiff, Nat.testBit_two_pow_sub_one, Nat.mul_comm, Nat.testBit_two_pow_mul,
    Nat.testBit_div_two_pow]
  by_cases h : k ≤ i
  · have hi : ¬ i < k := by omega
    simp [h, hi]
  · simp [h, Nat.lt_of_not_le h]

variable {k : Nat} {m : AddressManager} {raw : Int}

/-- With a power-of-two alignment the aligned size is the next multiple of it. -/
theorem computeAlignedSize_eq (hk : m.align = 2 ^ k) (h : 0 ≤ raw) :
    m.computeAlignedSize raw = (raw + 2 ^ k - 1) / 2 ^ k * 2 ^ k := by
  obtain ⟨n, rfl⟩ := Int.eq_ofNat_of_zero_le h
  have hpos : 1 ≤ 2 ^ k := Nat.one_le_two_pow
  have hsum : (n : Int) + 2 ^ k - 1 = ((n + 2 ^ k - 1 : Nat) : Int) := by
    rw [Nat.cast_sub (by omega)]; push_cast; rfl
  have hmask : (2 : Int) ^ k - 1 = ((2 ^ k - 1 : Nat) : Int) := by
    rw [Nat.cast_sub hpos]; push_cast; rfl
  rw [computeAlignedSize, hk, hsum, hmask]
  show ((Nat.ldiff (n + 2 ^ k - 1) (2 ^ k - 1) : Nat) : Int) = _
  rw [ldiff_two_pow_sub_one]
  push_cast
  rfl

/-- The aligned size of a nonnegative request is nonnegative, whatever the alignment. -/
theorem computeAlignedSize_nonneg (ha : 0 < m.align) (h : 0 ≤ raw) :
    0 ≤ m.computeAlignedSize raw := by
  obtain ⟨n, hn⟩ := Int.eq_ofNat_of_zero_le (show 0 ≤ raw + m.align - 1 by omega)
  obtain ⟨a, ha⟩ := Int.eq_ofNat_of_zero_le (show 0 ≤ m.align - 1 by omega)
  rw [computeAlignedSize, hn, ha]
  exact Int.natCast_nonneg _

/-- Clearing bits takes away no more than the mask. -/
theorem le_ldiff_add (m n : Nat) : m ≤ Nat.ldiff m n + n := by
  induction m using Nat.binaryRec generalizing n with
  | zero => exact Nat.zero_le _
  | bit a m ih =>
    induction n using Nat.bitCasesOn with
    | bit b n =>
      have := ih n
      rw [Nat.ldiff_bit]
      cases a <;> cases b <;> simp only [Nat.bit_val, Bool.toNat, Bool.not_false, Bool.not_true,
        Bool.and_true, Bool.and_false, cond_true, cond_false] <;> omega

/-- Aligning never shrinks a request, whatever the (positive) alignment. -/
theorem le_computeAlignedSize (ha : 0 < m.align) (h : 0 ≤ raw) :
    raw ≤ m.computeAlignedSize raw := by
  obtain ⟨n, hn⟩ := Int.eq_ofNat_of_zero_le (show 0 ≤ raw + m.align - 1 by omega)
  obtain ⟨a, ha⟩ := Int.eq_ofNat_of_zero_le (show 0 ≤ m.align - 1 by omega)
  rw [computeAlignedSize, hn, ha]
  have hle : n ≤ Nat.ldiff n a + a := le_ldiff_add n a
  show raw ≤ ((Nat.ldiff n a : Nat) : Int)
  omega

theorem computeAlignedSize_dvd (hk : m.align = 2 ^ k) (h : 0 ≤ raw) :
    m.align ∣ m.computeAlignedSize raw := by
  rw [computeAlignedSize_eq hk h, hk]
  exact Dvd.intro_left _ rfl

theorem computeAlignedSize_pos (hk : m.align = 2 ^ k) (h : 0 < raw) :
    0 < m.computeAlignedSize raw := by
  rw [computeAlignedSize_eq hk h.le]
  have hpos : (0 : Int) < 2 ^ k := by positivity
  have hq : 0 < (raw + 2 ^ k - 1) / 2 ^ k :=
    Int.le_ediv_of_mul_le hpos (by omega)
  positivity

/-! ## What the operations do to the set of free blocks -/

/-- How a list of blocks `l'` arises from `l` when the block `c` is put back beside the neighbours
`prev` and `succ`: joined to both, to one, or added on its own.  The order of the blocks is
forgotten; a neighbour that is not joined does not touch `c`. -/
inductive Coalesced (l l' : List FreeBlock) (c : FreeBlock) (prev succ : Option FreeBlock) : Prop
  | both {p s : FreeBlock} {R : List FreeBlock} (hp : prev = some p) (hs : succ = some s)
      (hpc : p.stop = c.start) (hcs : c.stop = s.start) (hl : l.Perm (p :: s :: R))
      (hl' : l'.Perm (⟨p.start, p.size + (c.size + s.size)⟩ :: R))
  | prevOnly {p : FreeBlock} {R : List FreeBlock} (hp : prev = some p)
      (hs : ∀ s, succ = some s → c.stop ≠ s.start) (hpc : p.stop = c.start)
      (hl : l.Perm (p :: R)) (hl' : l'.Perm (⟨p.start, p.size + c.size⟩ :: R))
  | succOnly {s : FreeBlock} {R : List FreeBlock} (hp : ∀ p, prev = some p → p.stop ≠ c.start)
      (hs : succ = some s) (hcs : c.stop = s.start)
      (hl : l.Perm (s :: R)) (hl' : l'.Perm (⟨c.start, c.size + s.size⟩ :: R))
  | alone (hp : ∀ p, prev = some p → p.stop ≠ c.start)
      (hs : ∀ s, succ = some s → c.stop ≠ s.start) (hl' : l'.Perm (c :: l))

theorem growAt_perm {l : FreeList} {i : Nat} {p : FreeBlock} {n : Int}
    (h : l.toList[i]? = some p) :
    (growAt l i n).toList.Perm (⟨p.start, p.size + n⟩ :: l.toList.eraseIdx i) :=
  SortedKeyList.update_perm h

/-- `_coalesce` followed by the conditional `add`, for neighbours that are entries of the list at
two different positions. -/
theorem coalesced_of_coalesce {l : FreeList} {c : FreeBlock} {prev : Option (Nat × FreeBlock)}
    {succ : Option FreeBlock} (hprev : ∀ i p, prev = some (i, p) → l.toList[i]? = some p)
    (hsucc : ∀ s, succ = some s → ∃ j, l.toList[j]? = some s ∧ ∀ i p, prev = some (i, p) → j ≠ i) :
    Coalesced l.toList (addUnlessCoalesced c (coalesce l c prev succ)).toList c
      (prev.map Prod.snd) succ := by
  have hnoPrev : prev.filter (fun p => p.2.canBeCoalesced c) = none →
      ∀ p, prev.map Prod.snd = some p → p.stop ≠ c.start := by
    intro h p hp
    obtain ⟨⟨i, q⟩, hq, rfl⟩ := Option.map_eq_some_iff.mp hp
    have := Option.filter_eq_none_iff.mp h (i, q) hq
    simpa [FreeBlock.canBeCoalesced_iff] using this
  have hnoSucc : succ.filter (fun s => c.canBeCoalesced s) = none →
      ∀ s, succ = some s → c.stop ≠ s.start := by
    intro h s hs
    have := Option.filter_eq_none_iff.mp h s hs
    simpa [FreeBlock.canBeCoalesced_iff] using this
  unfold coalesce
  cases hp : prev.filter (fun p => p.2.canBeCoalesced c) with
  | none =>
    cases hs : succ.filter (fun s => c.canBeCoalesced s) with
    | none =>
      exact .alone (hnoPrev hp) (hnoSucc hs) (l.add_perm c)
    | some s =>
      obtain ⟨hs, hcs⟩ := Option.filter_eq_some_iff.mp hs
      rw [FreeBlock.canBeCoalesced_iff] at hcs
      obtain ⟨j, hj, -⟩ := hsucc s hs
      have hl := SortedKeyList.perm_of_getElem? hj
      refine .succOnly (hnoPrev hp) hs hcs hl ?_
      have hstart : s.start - c.size = c.start := by simp only [FreeBlock.stop] at hcs; omega
      have hsize : s.size + c.size = c.size + s.size := by omega
      show ((l.remove s).add ⟨s.start - c.size, s.size + c.size⟩).toList.Perm _
      rw [hstart, hsize]
      exact ((l.remove s).add_perm _).trans ((SortedKeyList.remove_perm hl).cons _)
  | some q =>
    obtain ⟨i, p⟩ := q
    obtain ⟨hp, hpc⟩ := Option.filter_eq_some_iff.mp hp
    rw [FreeBlock.canBeCoalesced_iff] at hpc
    have hi := hprev i p hp
    have hp' : prev.map Prod.snd = some p := by simp [hp]
    cases hs : succ.filter (fun s => c.canBeCoalesced s) with
    | none =>
      exact .prevOnly hp' (hnoSucc hs) hpc (SortedKeyList.perm_of_getElem? hi) (growAt_perm hi)
    | some s =>
      obtain ⟨hs, hcs⟩ := Option.filter_eq_some_iff.mp hs
      rw [FreeBlock.canBeCoalesced_iff] at hcs
      obtain ⟨j, hj, hji⟩ := hsucc s hs
      have hmem : s ∈ l.toList.eraseIdx i :=
        List.mem_eraseIdx_iff_getElem?.mpr ⟨j, hji i p hp, hj⟩
      have hrest := List.perm_cons_erase hmem
      refine .both hp' hs hpc hcs ((SortedKeyList.perm_of_getElem? hi).trans (hrest.cons p)) ?_
      -- the grown block and the removed one may stand in either order
      exact SortedKeyList.remove_perm
        (((growAt_perm hi).trans (hrest.cons _)).trans (List.Perm.swap _ _ _))

/-- The free blocks of a manager, order forgotten by every statement about them. -/
def blocks (m : AddressManager) : List FreeBlock := m.explicitList.toList

/-- The neighbours `free` looks at: the entries before and at the slot of the binary search. -/
theorem free_coalesced (m : AddressManager) (address size : Int) :
    let i := m.explicitList.bisectLeft ⟨address, size⟩
    Coalesced m.blocks (m.free address size).blocks ⟨address, size⟩
      (if i > 0 then m.blocks[i - 1]? else none) m.blocks[i]? := by
  intro i
  have hprev : ((if i > 0 then (m.blocks[i - 1]?).map (fun b => (i - 1, b)) else none).map Prod.snd)
      = if i > 0 then m.blocks[i - 1]? else none := by
    split <;> simp
  rw [← hprev]
  refine coalesced_of_coalesce (fun j p h => ?_) (fun s h => ⟨i, h, fun j p h => ?_⟩)
  all_goals
    split at h
    case isTrue hi =>
      obtain ⟨b, hb, hjp⟩ := Option.map_eq_some_iff.mp h
      obtain ⟨rfl, rfl⟩ := Prod.mk.inj hjp
      first | exact hb | omega
    case isFalse => exact absurd h (by simp)

/-- The neighbour `sbrk` looks at: the last entry. -/
theorem sbrk_coalesced (m : AddressManager) (rawSize : Int) :
    Coalesced m.blocks (m.sbrk rawSize).blocks ⟨m.size, m.computeAlignedSize rawSize⟩
      m.blocks[m.blocks.length - 1]? none := by
  have hprev : (((m.blocks[m.blocks.length - 1]?).map
      fun b => (m.blocks.length - 1, b)).map Prod.snd) = m.blocks[m.blocks.length - 1]? := by
    simp
  rw [← hprev]
  refine coalesced_of_coalesce (fun j p h => ?_) (fun s h => absurd h (by simp))
  obtain ⟨b, hb, hjp⟩ := Option.map_eq_some_iff.mp h
  obtain ⟨rfl, rfl⟩ := Prod.mk.inj hjp
  exact hb

/-- First fit: the block that is taken, and what is left of it. -/
theorem allocate_ok {m' : AddressManager} {size a n : Int} (h : m.allocate size = .ok ((a, n), m'))
    :
    ∃ b R, m.blocks.Perm (b :: R) ∧ a = b.start ∧ n = m.computeAlignedSize size ∧ n ≤ b.size ∧
      m'.blocks.Perm (if b.size > n then ⟨b.start + n, b.size - n⟩ :: R else R) ∧
      m'.size = m.size ∧ m'.align = m.align ∧
      m'.totalAllocatedSize = m.totalAllocatedSize + n := by
  unfold allocate at h
  cases hfind : m.explicitList.toList.find? fun b => decide (b.size ≥ m.computeAlignedSize size) with
  | none => simp [hfind] at h
  | some b =>
    simp only [hfind, Except.ok.injEq, Prod.mk.injEq] at h
    obtain ⟨⟨rfl, rfl⟩, rfl⟩ := h
    have hfit : m.computeAlignedSize size ≤ b.size := by simpa using List.find?_some hfind
    have hperm := List.perm_cons_erase (List.mem_of_find?_eq_some hfind)
    refine ⟨b, m.explicitList.toList.erase b, hperm, rfl, rfl, hfit, ?_, rfl, rfl, rfl⟩
    split
    · exact (SortedKeyList.add_perm _ _).trans ((SortedKeyList.remove_perm hperm).cons _)
    · exact SortedKeyList.remove_perm hperm

/-- A block allocated for `count` units has room for as many of them as asked for. -/
theorem units_fit {m' : AddressManager} (ha : 0 < m.align) {unit a n : Int} (hunit : 0 ≤ unit)
    {count : Nat} (h : m.allocate (unit * count) = .ok ((a, n), m')) (hk : k ≤ count) :
    0 ≤ unit * (k : Int) ∧ unit * (k : Int) ≤ n := by
  obtain ⟨-, -, -, -, rfl, -⟩ := allocate_ok h
  have hle : unit * (k : Int) ≤ unit * count :=
    Int.mul_le_mul_of_nonneg_left (by exact_mod_cast hk) hunit
  have hround : unit * (count : Int) ≤ m.computeAlignedSize (unit * count) :=
    le_computeAlignedSize ha (Int.mul_nonneg hunit (Int.natCast_nonneg _))
  exact ⟨Int.mul_nonneg hunit (Int.natCast_nonneg _), hle.trans hround⟩

@[simp] theorem free_size (m : AddressManager) (a n : Int) : (m.free a n).size = m.size := rfl

@[simp] theorem free_total (m : AddressManager) (a n : Int) :
    (m.free a n).totalAllocatedSize = m.totalAllocatedSize - n := rfl

@[simp] theorem sbrk_size (m : AddressManager) (n : Int) :
    (m.sbrk n).size = m.size + m.computeAlignedSize n := rfl

@[simp] theorem sbrk_total (m : AddressManager) (n : Int) :
    (m.sbrk n).totalAllocatedSize = m.totalAllocatedSize := rfl

end AddressManager

end LMCache.Memory
