import Mathlib.Algebra.Order.Group.Nat
import WebRtc.Lib.Memory

/-!
# Rings in memory

The first `len` bytes of a memory taken as a ring. A part of the ring that passes its end is read in two pieces, and
it is written in two copies. `ringAt` is the byte `i` places behind `start`.
-/

namespace Memory

def ringAt (mem : Memory) (len start i : Nat) : UInt8 := mem ((start + i) % len)

/-- The `n` bytes from `start` on. -/
def ringRead (mem : Memory) (len start n : Nat) : List UInt8 := (List.range n).map (mem.ringAt len start)

/-- Two copies: up to the end, and the rest from the front on. -/
def ringWrite (mem : Memory) (len start : Nat) (data : List UInt8) : Memory :=
  (mem.memcpy start (data.take (len - start))).memcpy 0 (data.drop (len - start))

variable {mem : Memory} {len start i m n : Nat}

theorem ring_index (hstart : start < len) (hi : i < len) :
    (start + i) % len = if start + i < len then start + i else start + i - len := by
  split
  · next h => exact Nat.mod_eq_of_lt h
  · next h => rw [Nat.mod_eq_sub_mod (Nat.not_lt.1 h), Nat.mod_eq_of_lt (by omega)]

theorem ringAt_add (mem : Memory) (len start m i : Nat) :
    mem.ringAt len (start + m) i = mem.ringAt len start (m + i) := by
  unfold ringAt
  rw [Nat.add_assoc]

theorem ringAt_mod (mem : Memory) (len start i : Nat) : mem.ringAt len (start % len) i = mem.ringAt len start i := by
  unfold ringAt
  rw [Nat.mod_add_mod]

@[simp] theorem ringRead_length (mem : Memory) (len start n : Nat) : (mem.ringRead len start n).length = n := by
  simp [ringRead]

theorem ringRead_mod (mem : Memory) (len start n : Nat) : mem.ringRead len (start % len) n = mem.ringRead len start n :=
  List.map_congr_left fun i _ => ringAt_mod mem len start i

theorem ringRead_add (mem : Memory) (len start m n : Nat) :
    mem.ringRead len start (m + n) = mem.ringRead len start m ++ mem.ringRead len (start + m) n := by
  unfold ringRead
  rw [List.range_add, List.map_append, List.map_map]
  congr 1
  exact List.map_congr_left fun i _ => (ringAt_add mem len start m i).symm

theorem ringRead_take (mem : Memory) (len start m n : Nat) :
    (mem.ringRead len start n).take m = mem.ringRead len start (min m n) := by
  unfold ringRead
  rw [← List.map_take, List.take_range]

theorem ringRead_drop (mem : Memory) (len start m n : Nat) :
    (mem.ringRead len start n).drop m = mem.ringRead len (start + m) (n - m) := by
  by_cases h : m ≤ n
  · obtain ⟨k, rfl⟩ := Nat.exists_eq_add_of_le h
    rw [ringRead_add, List.drop_left' (ringRead_length mem len start m), Nat.add_sub_cancel_left]
  · have hnone : n - m = 0 := by omega
    rw [List.drop_eq_nil_of_le (by rw [ringRead_length]; omega), hnone]
    rfl

theorem ringRead_getElem? (mem : Memory) (len start : Nat) (h : i < n) :
    (mem.ringRead len start n)[i]? = some (mem.ringAt len start i) := by
  unfold ringRead
  rw [List.getElem?_map, List.getElem?_range h, Option.map_some]

theorem ringRead_congr {mem' : Memory} (h : ∀ i < n, mem'.ringAt len start i = mem.ringAt len start i) :
    mem'.ringRead len start n = mem.ringRead len start n :=
  List.map_congr_left fun i hi => h i (List.mem_range.1 hi)

/-- Up to the end of the ring it is plain memory. -/
theorem ringRead_plain (hend : start + n ≤ len) : mem.ringRead len start n = mem.read start n := by
  refine List.map_congr_left fun i hi => ?_
  rw [List.mem_range] at hi
  unfold ringAt
  rw [Nat.mod_eq_of_lt (by omega)]

/-- Reading in two pieces. -/
theorem read_wrapped (mem : Memory) (hstart : start < len) (hn : n ≤ len) :
    mem.read start (min n (len - start)) ++ mem.read 0 (n - min n (len - start)) = mem.ringRead len start n := by
  by_cases hend : start + n ≤ len
  · rw [Nat.min_eq_left (by omega), Nat.sub_self, read_zero, List.append_nil, ringRead_plain hend]
  · have htail : min n (len - start) = len - start := Nat.min_eq_right (by omega)
    have hsplit : n = (len - start) + (n - (len - start)) := by omega
    have hfront : (start + (len - start)) % len = 0 := by
      rw [Nat.add_sub_cancel' (Nat.le_of_lt hstart), Nat.mod_self]
    rw [htail]
    conv_rhs => rw [hsplit]
    rw [ringRead_add, ← ringRead_mod mem len (start + (len - start)), hfront, ringRead_plain (by omega),
      ringRead_plain (by omega)]

theorem memcpy_of_mem (mem : Memory) {dst a : Nat} {src : List UInt8} (h : dst ≤ a) (h' : a < dst + src.length) :
    mem.memcpy dst src a = src.getD (a - dst) 0 := if_pos ⟨h, h'⟩

theorem memcpy_of_not_mem (mem : Memory) {dst a : Nat} {src : List UInt8} (h : ¬ (dst ≤ a ∧ a < dst + src.length)) :
    mem.memcpy dst src a = mem a := if_neg h

/-- What is read after `data` was written `m` places behind `start`. -/
theorem ringAt_write (mem : Memory) {data : List UInt8} (hstart : start < len) (hm : m < len)
    (hdata : m + data.length ≤ len)
    (hi : i < len) :
    (mem.ringWrite len ((start + m) % len) data).ringAt len start i =
      if m ≤ i ∧ i < m + data.length then data.getD (i - m) 0 else mem.ringAt len start i := by
  have hw := ring_index hstart hm
  have ha := ring_index hstart hi
  unfold ringWrite ringAt
  generalize (start + m) % len = w at *
  generalize (start + i) % len = a at *
  have htake : (data.take (len - w)).length = min (len - w) data.length := List.length_take
  have hdrop : (data.drop (len - w)).length = data.length - (len - w) := List.length_drop
  by_cases hin : m ≤ i ∧ i < m + data.length
  · rw [if_pos hin]
    by_cases hfront : a < data.length - (len - w)
    · -- behind the end of the ring
      have hindex : len - w + a = i - m := by split at hw <;> split at ha <;> omega
      rw [memcpy_of_mem _ (Nat.zero_le a) (by omega), Nat.sub_zero, List.getD_eq_getElem?_getD, List.getElem?_drop,
        hindex, ← List.getD_eq_getElem?_getD]
    · have hindex : a - w = i - m ∧ w ≤ a ∧ a < w + min (len - w) data.length := by
        split at hw <;> split at ha <;> omega
      rw [memcpy_of_not_mem _ (by omega), memcpy_of_mem _ hindex.2.1 (by omega), hindex.1,
        List.getD_eq_getElem?_getD, List.getElem?_take_of_lt (by omega), ← List.getD_eq_getElem?_getD]
  · rw [if_neg hin]
    have hout : ¬ a < data.length - (len - w) ∧ ¬ (w ≤ a ∧ a < w + min (len - w) data.length) := by
      split at hw <;> split at ha <;> omega
    rw [memcpy_of_not_mem _ (by omega), memcpy_of_not_mem _ (by omega)]

end Memory
