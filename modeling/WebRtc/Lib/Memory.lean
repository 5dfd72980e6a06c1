import Mathlib.Algebra.Ring.Nat
import Mathlib.Data.List.Range

/-!
# Memory

A memory gives every address a byte. `memcpy` and `memmove` are those of C; what a copy has left at an
address is told by reading there again.
-/

/-- The byte at an address. -/
def Memory := Nat → UInt8

namespace Memory

/-- The `n` bytes from `p` on. -/
def read (mem : Memory) (p n : Nat) : List UInt8 := (List.range n).map fun i => mem (p + i)

def memcpy (mem : Memory) (dst : Nat) (src : List UInt8) : Memory :=
  fun a => if dst ≤ a ∧ a < dst + src.length then src.getD (a - dst) 0 else mem a

/-- The two areas may overlap: the bytes are those from before. -/
def memmove (mem : Memory) (dst src n : Nat) : Memory := mem.memcpy dst (mem.read src n)

variable {mem : Memory} {p n : Nat} {bytes : List UInt8}

@[simp] theorem read_length (mem : Memory) (p n : Nat) : (mem.read p n).length = n := by simp [read]

@[simp] theorem read_zero (mem : Memory) (p : Nat) : mem.read p 0 = [] := rfl

theorem read_add (mem : Memory) (p m n : Nat) : mem.read p (m + n) = mem.read p m ++ mem.read (p + m) n := by
  simp only [read, List.range_add, List.map_append, List.map_map]
  congr 1
  apply List.map_congr_left
  intro i _
  simp only [Function.comp_apply, Nat.add_assoc]

theorem read_succ (mem : Memory) (p n : Nat) : mem.read p (n + 1) = mem p :: mem.read (p + 1) n := by
  rw [Nat.add_comm, read_add]
  rfl

theorem read_take (mem : Memory) (p : Nat) {m n : Nat} (h : m ≤ n) : (mem.read p n).take m = mem.read p m := by
  obtain ⟨k, rfl⟩ := Nat.exists_eq_add_of_le h
  rw [read_add, List.take_left' (read_length mem p m)]

theorem read_drop (mem : Memory) (p : Nat) {m n : Nat} (h : m ≤ n) :
    (mem.read p n).drop m = mem.read (p + m) (n - m) := by
  obtain ⟨k, rfl⟩ := Nat.exists_eq_add_of_le h
  rw [read_add, List.drop_left' (read_length mem p m), Nat.add_sub_cancel_left]

@[simp] theorem read_memcpy (mem : Memory) (p : Nat) (bytes : List UInt8) :
    (mem.memcpy p bytes).read p bytes.length = bytes := by
  apply List.ext_getElem
  · simp
  · intro i _ hi
    have hin : p ≤ p + i ∧ p + i < p + bytes.length := by omega
    simp only [read, List.getElem_map, List.getElem_range, memcpy, if_pos hin, Nat.add_sub_cancel_left]
    rw [List.getD_eq_getElem?_getD, List.getElem?_eq_getElem hi, Option.getD_some]

@[simp] theorem memmove_zero (mem : Memory) (dst src : Nat) : mem.memmove dst src 0 = mem := by
  funext a
  simp only [memmove, read_zero, memcpy, List.length_nil]
  exact if_neg (by omega)

/-- What a copy does not touch. -/
theorem read_memcpy_of_disjoint (mem : Memory) (bytes : List UInt8) {q : Nat} (h : q + n ≤ p ∨ p + bytes.length ≤ q) :
    (mem.memcpy p bytes).read q n = mem.read q n := by
  apply List.map_congr_left
  intro i hi
  rw [List.mem_range] at hi
  have hout : ¬ (p ≤ q + i ∧ q + i < p + bytes.length) := by omega
  simp only [memcpy, if_neg hout]

/-- One copy behind the other. -/
theorem read_memcpy_append (mem : Memory) (p : Nat) (front rest : List UInt8) :
    ((mem.memcpy p front).memcpy (p + front.length) rest).read p (front.length + rest.length) = front ++ rest := by
  rw [read_add, read_memcpy, read_memcpy_of_disjoint _ _ (Or.inl (Nat.le_refl _)), read_memcpy]

/-- To make room: the tail is moved up, and the bytes are copied to where it stood. -/
theorem read_insert {head tail : List UInt8} (bytes : List UInt8)
    (h : mem.read p (head.length + tail.length) = head ++ tail) :
    ((mem.memmove (p + head.length + bytes.length) (p + head.length) tail.length).memcpy (p + head.length) bytes).read p
      (head.length + (bytes.length + tail.length)) = head ++ (bytes ++ tail) := by
  rw [read_add] at h
  obtain ⟨hhead, htail⟩ := List.append_inj h (read_length _ _ _)
  have hlow := read_memcpy_of_disjoint (mem.memmove (p + head.length + bytes.length) (p + head.length) tail.length)
    bytes (p := p + head.length) (q := p) (n := head.length) (Or.inl (Nat.le_refl _))
  have hhigh := read_memcpy_of_disjoint (mem.memmove (p + head.length + bytes.length) (p + head.length) tail.length)
    bytes (p := p + head.length) (q := p + head.length + bytes.length) (n := tail.length) (Or.inr (Nat.le_refl _))
  have hmoved : (mem.memmove (p + head.length + bytes.length) (p + head.length) tail.length).read
      (p + head.length + bytes.length) tail.length = tail := by
    rw [memmove, htail]
    exact read_memcpy _ _ _
  have hkept : (mem.memmove (p + head.length + bytes.length)
      (p + head.length) tail.length).read p head.length = head := by
    rw [memmove, read_memcpy_of_disjoint _ _ (Or.inl (by omega)), hhead]
  rw [read_add, read_add, hlow, hkept, read_memcpy, hhigh, hmoved]

end Memory
