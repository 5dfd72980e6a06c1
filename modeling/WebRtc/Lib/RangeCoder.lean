import Mathlib.Algebra.Ring.Int.Defs
import Mathlib.Algebra.Ring.Nat
import Mathlib.Data.Nat.Notation
import Mathlib.Logic.Function.Basic
import Mathlib.Tactic.Ring

/-!
# Ranges of numbers that bytes are written for

A range is kept as its least number and its width, both of a certain number of bytes. It is narrowed to
a part of it, and it is shifted by a byte when it has become too narrow. Bytes that stand for a number
of the last range stand for one of each range before it: this is why a reader that keeps the same ranges
finds the way that was taken.
-/

namespace RangeCoder

/-- What the first `n` bytes stand for. -/
def number (mem : ℕ → UInt8) : ℕ → ℕ
  | 0 => 0
  | n + 1 => number mem n * 256 + (mem n).toNat

structure Range where
  low : ℕ
  width : ℕ
  digits : ℕ

/-- The first bytes stand for a number of the range. -/
def Range.Contains (r : Range) (mem : ℕ → UInt8) : Prop :=
  r.low ≤ number mem r.digits ∧ number mem r.digits ≤ r.low + r.width

/-- The part from `lower` to `upper`. -/
def Range.narrow (r : Range) (lower upper : ℕ) : Range :=
  { low := r.low + lower, width := upper - lower, digits := r.digits }

def Range.shift (r : Range) : Range :=
  { low := r.low * 256, width := r.width * 256, digits := r.digits + 1 }

/-- It is shifted until it is as wide as `least`, but no more than `n` times. -/
def Range.renormalize (least : ℕ) : ℕ → Range → Range
  | 0, r => r
  | n + 1, r => if r.width < least then renormalize least n r.shift else r

/-- The numbers have no more digits than are written. -/
def Range.Fits (r : Range) : Prop := r.low + r.width < 256 ^ r.digits

/-! ## Numbers -/

section Numbers

variable {mem other : ℕ → UInt8} {n : ℕ}

theorem number_zero (mem : ℕ → UInt8) : number mem 0 = 0 := rfl

theorem number_succ (mem : ℕ → UInt8) (n : ℕ) : number mem (n + 1) = number mem n * 256 + (mem n).toNat := rfl

theorem number_congr (h : ∀ i < n, mem i = other i) : number mem n = number other n := by
  induction n with
  | zero => rfl
  | succ n ih => rw [number_succ, number_succ, ih fun i hi => h i (Nat.lt_succ_of_lt hi), h n (Nat.lt_succ_self n)]

theorem number_update (b : UInt8) : number (Function.update mem n b) (n + 1) = number mem n * 256 + b.toNat := by
  rw [number_succ, Function.update_self]
  congr 2
  exact number_congr fun i hi => Function.update_of_ne (Nat.ne_of_lt hi) _ _

/-- More bytes. -/
theorem number_add (mem : ℕ → UInt8) (n k : ℕ) :
    number mem n * 256 ^ k ≤ number mem (n + k) ∧ number mem (n + k) < (number mem n + 1) * 256 ^ k := by
  induction k with
  | zero => simp
  | succ k ih =>
    have hb := (mem (n + k)).toNat_lt
    obtain ⟨hlow, hhigh⟩ := ih
    rw [← Nat.add_assoc, number_succ, pow_succ, ← Nat.mul_assoc, ← Nat.mul_assoc]
    omega

end Numbers

/-! ## Ranges -/

section Ranges

variable {r : Range} {mem : ℕ → UInt8} {lower upper least n : ℕ}

/-- The first bytes are enough to know that the number is in the range, whatever follows. -/
theorem contains_of_prefix {k first : ℕ} (hdigits : r.digits = n + k) (hfirst : number mem n = first)
    (hlow : r.low ≤ first * 256 ^ k) (hhigh : (first + 1) * 256 ^ k ≤ r.low + r.width + 1) : r.Contains mem := by
  subst hfirst
  have hadd := number_add mem n k
  unfold Range.Contains
  rw [hdigits]
  omega

theorem contains_of_narrow (h : (r.narrow lower upper).Contains mem) (hle : lower ≤ upper) (hupper : upper ≤ r.width) :
    r.Contains mem := by
  obtain ⟨hlow, hhigh⟩ := h
  simp only [Range.narrow] at hlow hhigh
  exact ⟨by omega, by omega⟩

theorem contains_of_shift (h : r.shift.Contains mem) : r.Contains mem := by
  obtain ⟨hlow, hhigh⟩ := h
  have hb := (mem r.digits).toNat_lt
  simp only [Range.shift, number_succ] at hlow hhigh
  exact ⟨by omega, by omega⟩

theorem contains_of_renormalize (h : (r.renormalize least n).Contains mem) : r.Contains mem := by
  induction n generalizing r with
  | zero => exact h
  | succ n ih =>
    unfold Range.renormalize at h
    split at h
    · exact contains_of_shift (ih h)
    · exact h

theorem Range.Fits.narrow (h : r.Fits) (hle : lower ≤ upper) (hupper : upper ≤ r.width) :
    (r.narrow lower upper).Fits := by
  unfold Range.Fits Range.narrow at *
  dsimp only
  omega

theorem Range.Fits.shift (h : r.Fits) : r.shift.Fits := by
  unfold Range.Fits Range.shift at *
  dsimp only
  rw [pow_succ]
  omega

theorem Range.Fits.renormalize (h : r.Fits) : (r.renormalize least n).Fits := by
  induction n generalizing r with
  | zero => exact h
  | succ n ih =>
    unfold Range.renormalize
    split
    · exact ih h.shift
    · exact h

/-- As many bytes as are allowed are enough. -/
theorem le_renormalize_width (h : least ≤ r.width * 256 ^ n) : least ≤ (r.renormalize least n).width := by
  induction n generalizing r with
  | zero => simpa [Range.renormalize] using h
  | succ n ih =>
    unfold Range.renormalize
    split
    · apply ih
      unfold Range.shift
      rwa [Nat.mul_assoc, ← Nat.pow_succ']
    · rename_i hwide
      exact Nat.not_lt.1 hwide

theorem renormalize_width_lt {bound : ℕ} (h : r.width < bound) (hbound : least * 256 ≤ bound) :
    (r.renormalize least n).width < bound := by
  induction n generalizing r with
  | zero => exact h
  | succ n ih =>
    unfold Range.renormalize
    split
    · apply ih
      unfold Range.shift
      dsimp only
      omega
    · exact h

theorem digits_le_renormalize : r.digits ≤ (r.renormalize least n).digits := by
  induction n generalizing r with
  | zero => exact Nat.le_refl _
  | succ n ih =>
    unfold Range.renormalize
    split
    · exact Nat.le_trans (Nat.le_succ _) (ih (r := r.shift))
    · exact Nat.le_refl _

end Ranges

end RangeCoder
