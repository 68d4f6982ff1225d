/-
# LMCache.Lib.Arrivals — bytes that arrive over a connection.

A connection delivers bytes in segments, cut anywhere.  `recv(k)` waits for a segment and gives at most
`k` bytes of it, or none when the other side has closed.  A loop that calls `recv` until it has `n`
bytes gets the first `n` of them however they were cut, or finds out that there are fewer.
-/
import Mathlib.Data.List.Basic
import Mathlib.Tactic

namespace LMCache.Lib

/-- The bytes that are still to come, in the segments in which they arrive.  After the last of them the
connection is closed. -/
abbrev Arrivals := List { segment : List UInt8 // segment ≠ [] }

namespace Arrivals

def bytes (a : Arrivals) : List UInt8 := a.flatMap Subtype.val

@[simp] theorem bytes_nil : bytes [] = [] := rfl

theorem bytes_cons (segment : { segment : List UInt8 // segment ≠ [] }) (a : Arrivals) :
    bytes (segment :: a) = segment.val ++ bytes a := rfl

/-- Bytes that arrive in one segment. -/
def ofBytes (bs : List UInt8) : Arrivals := if h : bs = [] then [] else [⟨bs, h⟩]

@[simp] theorem bytes_ofBytes (bs : List UInt8) : bytes (ofBytes bs) = bs := by
  unfold ofBytes
  split
  · rename_i h
    rw [h, bytes_nil]
  · rw [bytes_cons, bytes_nil, List.append_nil]

theorem bytes_append (a b : Arrivals) : bytes (a ++ b) = bytes a ++ bytes b := List.flatMap_append

/-- `socket.recv(k)`. -/
def recv (k : Nat) : Arrivals → List UInt8 × Arrivals
  | [] => ([], [])
  | segment :: a =>
    if h : segment.val.length ≤ k then (segment.val, a)
    else (segment.val.take k, ⟨segment.val.drop k, by simpa using h⟩ :: a)

/-- Bytes are not lost, nor told before their turn. -/
theorem append_recv (k : Nat) (a : Arrivals) : (recv k a).1 ++ bytes (recv k a).2 = bytes a := by
  unfold recv
  split
  · rfl
  · split
    · rfl
    · rw [bytes_cons, bytes_cons, ← List.append_assoc, List.take_append_drop]

theorem length_recv_le (k : Nat) (a : Arrivals) : (recv k a).1.length ≤ k := by
  unfold recv
  split
  · exact Nat.zero_le k
  · split
    · assumption
    · exact List.length_take_le k _

variable {a : Arrivals}

/-- Only the end of the connection gives no bytes. -/
theorem eq_nil_of_recv {k : Nat} (hk : 0 < k) (h : (recv k a).1 = []) : a = [] := by
  cases a with
  | nil => rfl
  | cons segment a =>
    have hne : (recv k (segment :: a)).1 ≠ [] := by
      show (if h : segment.val.length ≤ k then (segment.val, a)
        else (segment.val.take k, _)).1 ≠ []
      split
      · exact segment.property
      · rw [Ne, List.take_eq_nil_iff, not_or]
        exact ⟨Nat.ne_of_gt hk, segment.property⟩
    exact absurd h hne

theorem length_bytes_recv_lt {k : Nat} (h : (recv k a).1 ≠ []) :
    (bytes (recv k a).2).length < (bytes a).length := by
  have hlen := congrArg List.length (append_recv k a)
  rw [List.length_append] at hlen
  have hpos := List.length_pos_of_ne_nil h
  omega

/-- `receive_all`: the bytes of `data`, and more until there are `n`; none if the connection ends
before. -/
def receiveAll (n : Int) (data : List UInt8) (a : Arrivals) : Option (List UInt8) × Arrivals :=
  if n ≤ data.length then (some data, a)
  else
    let packet := recv (n - data.length).toNat a
    if packet.1 = [] then (none, packet.2)
    else receiveAll n (data ++ packet.1) packet.2
termination_by (bytes a).length
decreasing_by exact length_bytes_recv_lt ‹_›

/-- **What the loop reads depends on the bytes alone**, not on how they were cut. -/
theorem receiveAll_eq (n : Int) (data : List UInt8) (a : Arrivals) :
    ∃ rest, receiveAll n data a = (if (n - data.length).toNat ≤ (bytes a).length then
        some (data ++ (bytes a).take (n - data.length).toNat) else none, rest) ∧
      bytes rest = (bytes a).drop (n - data.length).toNat := by
  fun_induction receiveAll n data a with
  | case1 data a h =>
    have hzero : (n - data.length).toNat = 0 := by omega
    refine ⟨a, ?_, ?_⟩
    · rw [hzero, if_pos (Nat.zero_le _), List.take_zero, List.append_nil]
    · rw [hzero, List.drop_zero]
  | case2 data a h packet hnil =>
    have hpos : 0 < (n - data.length).toNat := by omega
    have ha : a = [] := eq_nil_of_recv hpos hnil
    subst ha
    refine ⟨[], ?_, ?_⟩
    · rw [if_neg (by rw [bytes_nil, List.length_nil]; omega)]
      rfl
    · rw [bytes_nil, List.drop_nil]
  | case3 data a h packet hne ih =>
    -- the packet is the first part of what is missing, and the rest is missing still
    obtain ⟨rest, heq, hrest⟩ := ih
    have hsplit : packet.1 ++ bytes packet.2 = bytes a := append_recv _ a
    have hle : packet.1.length ≤ (n - data.length).toNat := length_recv_le _ a
    have hmissing : (n - (data ++ packet.1).length).toNat =
        (n - data.length).toNat - packet.1.length := by
      rw [List.length_append]
      omega
    rw [hmissing] at heq hrest
    refine ⟨rest, ?_, ?_⟩
    · rw [heq, ← hsplit, List.length_append, List.take_append, List.take_of_length_le hle,
        List.append_assoc]
      have hiff : (n - data.length).toNat - packet.1.length ≤ (bytes packet.2).length ↔
          (n - data.length).toNat ≤ packet.1.length + (bytes packet.2).length := by omega
      simp only [hiff]
    · rw [hrest, ← hsplit, List.drop_append, List.drop_of_length_le hle, List.nil_append]

/-- The loop gets all the bytes it asks for. -/
theorem receiveAll_of_le {n : Int} (h : n.toNat ≤ (bytes a).length) :
    ∃ rest, receiveAll n [] a = (some ((bytes a).take n.toNat), rest) ∧
      bytes rest = (bytes a).drop n.toNat := by
  obtain ⟨rest, heq, hrest⟩ := receiveAll_eq n [] a
  rw [List.length_nil, Nat.cast_zero, Int.sub_zero] at heq hrest
  rw [if_pos h] at heq
  exact ⟨rest, heq, hrest⟩

/-- The connection ends before. -/
theorem receiveAll_of_lt {n : Int} (h : (bytes a).length < n.toNat) :
    ∃ rest, receiveAll n [] a = (none, rest) ∧ bytes rest = [] := by
  obtain ⟨rest, heq, hrest⟩ := receiveAll_eq n [] a
  rw [List.length_nil, Nat.cast_zero, Int.sub_zero] at heq hrest
  rw [if_neg (Nat.not_le.mpr h)] at heq
  exact ⟨rest, heq, hrest.trans (List.drop_of_length_le (le_of_lt h))⟩

end Arrivals

end LMCache.Lib
