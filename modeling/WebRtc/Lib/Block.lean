import Mathlib.Data.List.Basic

/-!
# Blocks of memory

A block is the list of its elements. What is read or written outside of it fails. The rules tell the result for a
block that is put together from parts: `read_append`, `write_append`, and for moving a part up (`move_up`) or down
(`move_down`).
-/

namespace Block

variable {α : Type}

/-- `n` elements from `p` on. -/
def read (mem : List α) (p n : Nat) : Option (List α) :=
  if p + n ≤ mem.length then some ((mem.drop p).take n) else none

/-- `memcpy`. -/
def write (mem : List α) (p : Nat) (src : List α) : Option (List α) :=
  if p + src.length ≤ mem.length then some (mem.take p ++ (src ++ mem.drop (p + src.length))) else none

/-- `memmove`: the areas may overlap. -/
def move (mem : List α) (dst src n : Nat) : Option (List α) := do
  let elements ← read mem src n
  write mem dst elements

/-- A block has a part in the middle. -/
theorem parts {mem : List α} {p n : Nat} (h : p + n ≤ mem.length) :
    ∃ a b c, mem = a ++ (b ++ c) ∧ a.length = p ∧ b.length = n ∧ c.length = mem.length - (p + n) := by
  refine ⟨mem.take p, (mem.drop p).take n, mem.drop (p + n), ?_, ?_, ?_, by simp⟩
  · rw [← List.drop_drop, List.take_append_drop, List.take_append_drop]
  · rw [List.length_take]
    omega
  · rw [List.length_take, List.length_drop]
    omega

@[simp] theorem read_append (a b c : List α) : read (a ++ (b ++ c)) a.length b.length = some b := by
  simp [read]

theorem write_append (a c : List α) {b src : List α} (h : src.length = b.length) :
    write (a ++ (b ++ c)) a.length src = some (a ++ (src ++ c)) := by
  simp [write, h, ← List.drop_drop]

theorem write_length {mem src after : List α} {p : Nat} (h : write mem p src = some after) :
    after.length = mem.length := by
  unfold write at h
  split at h
  · cases h
    simp only [List.length_append, List.length_take, List.length_drop]
    omega
  · cases h

/-- Room is made for `n` elements between two parts. -/
theorem move_up (a b : List α) {c : List α} {n : Nat} (h : n ≤ c.length) : ∃ gap rest, gap.length = n ∧
    rest.length = c.length - n ∧
    move (a ++ (b ++ c)) (a.length + n) a.length b.length = some (a ++ (gap ++ (b ++ rest))) := by
  -- What follows the first part: the gap and then the place of the second part.
  obtain ⟨gap, old, rest, hparts, hgap, hold, hrest⟩ := @parts α (b ++ c) n b.length (by rw [List.length_append]; omega)
  refine ⟨gap, rest, hgap, ?_, ?_⟩
  · rw [hrest, List.length_append]
    omega
  · have hwrite := write_append (a ++ gap) rest hold.symm
    rw [List.length_append, hgap, List.append_assoc, List.append_assoc] at hwrite
    rw [move, read_append, hparts, Option.bind_eq_bind, Option.bind_some, hwrite]

/-- A part goes to the front. -/
theorem move_down (a b c : List α) : ∃ rest, rest.length = a.length + c.length ∧
    move (a ++ (b ++ c)) 0 a.length b.length = some (b ++ rest) := by
  obtain ⟨front, old, rest, hparts, hfront, hold, hrest⟩ := @parts α (a ++ (b ++ c)) 0 b.length (by
    simp only [List.length_append]
    omega)
  obtain rfl := List.eq_nil_of_length_eq_zero hfront
  refine ⟨rest, ?_, ?_⟩
  · simp only [List.length_append] at hrest
    omega
  · have hwrite := write_append [] rest hold.symm
    rw [move, read_append, Option.bind_eq_bind, Option.bind_some, hparts]
    exact hwrite

end Block
