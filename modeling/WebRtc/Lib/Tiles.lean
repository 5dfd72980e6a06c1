import Mathlib.Algebra.Ring.Nat
import Mathlib.Data.List.Basic

/-!
# Cutting a buffer into pieces

`Tiles pos size a l b` says that the pieces of `l` lie one behind the other from `a` to `b`. Put
together they are what lies between the two.
-/

namespace Cut

variable {α β : Type}

/-- `size` elements from `pos` on. -/
def slice (data : List α) (pos size : Nat) : List α := (data.drop pos).take size

inductive Tiles (pos size : β → Nat) : Nat → List β → Nat → Prop where
  | nil (a : Nat) : Tiles pos size a [] a
  | cons {p : β} {l : List β} {b : Nat} (rest : Tiles pos size (pos p + size p) l b) : Tiles pos size (pos p) (p :: l) b

@[simp] theorem slice_zero (data : List α) (pos : Nat) : slice data pos 0 = [] := List.take_zero

theorem slice_length (data : List α) {pos size : Nat} (h : pos + size ≤ data.length) :
    (slice data pos size).length = size := by
  simp only [slice, List.length_take, List.length_drop]
  omega

theorem slice_append (data : List α) (pos m n : Nat) :
    slice data pos (m + n) = slice data pos m ++ slice data (pos + m) n := by
  simp only [slice, List.take_add, List.drop_drop]

theorem slice_all (data : List α) : slice data 0 data.length = data := by simp [slice]

variable {pos size : β → Nat} {a b c : Nat} {l m : List β}

theorem Tiles.le (h : Tiles pos size a l b) : a ≤ b := by
  induction h with
  | nil => exact Nat.le_refl _
  | cons _ ih => omega

theorem Tiles.of_nil (h : Tiles pos size a [] b) : a = b := by
  cases h
  rfl

theorem Tiles.of_cons {p : β} (h : Tiles pos size a (p :: l) b) : pos p = a ∧ Tiles pos size (pos p + size p) l b := by
  cases h with
  | cons rest => exact ⟨rfl, rest⟩

theorem Tiles.append (h : Tiles pos size a l b) (h' : Tiles pos size b m c) : Tiles pos size a (l ++ m) c := by
  induction h with
  | nil => exact h'
  | cons _ ih => exact .cons (ih h')

theorem Tiles.single {p : β} (ha : a = pos p) (hb : b = pos p + size p) : Tiles pos size a [p] b := by
  subst ha hb
  exact .cons (.nil _)

theorem Tiles.split (h : Tiles pos size a (l ++ m) b) : ∃ c, Tiles pos size a l c ∧ Tiles pos size c m b := by
  induction l generalizing a with
  | nil => exact ⟨a, .nil a, h⟩
  | cons p l ih =>
    cases h with
    | cons rest =>
      obtain ⟨c, hl, hm⟩ := ih rest
      exact ⟨c, .cons hl, hm⟩

/-- A piece begins where the ones before it end. -/
theorem Tiles.pos_eq {p : β} (h : Tiles pos size a (l ++ p :: m) b) : Tiles pos size a l (pos p) := by
  obtain ⟨c, hl, hm⟩ := h.split
  cases hm
  exact hl

theorem Tiles.sum (h : Tiles pos size a l b) : a + (l.map size).sum = b := by
  induction h with
  | nil => rfl
  | cons _ ih =>
    rw [List.map_cons, List.sum_cons]
    omega

theorem Tiles.mem_le (h : Tiles pos size a l b) {p : β} (hp : p ∈ l) : a ≤ pos p ∧ pos p + size p ≤ b := by
  induction h with
  | nil => simp at hp
  | cons rest ih =>
    have hle := rest.le
    rcases List.mem_cons.1 hp with rfl | hp
    · omega
    · have := ih hp
      omega

/-- **The pieces give back the buffer.** -/
theorem Tiles.flatMap_slice (data : List α) (h : Tiles pos size a l b) :
    l.flatMap (fun p => slice data (pos p) (size p)) = slice data a (b - a) := by
  induction h with
  | nil => simp
  | @cons p l b rest ih =>
    have hle := rest.le
    have hlen : b - pos p = size p + (b - (pos p + size p)) := by omega
    rw [List.flatMap_cons, ih, hlen, slice_append]

end Cut
