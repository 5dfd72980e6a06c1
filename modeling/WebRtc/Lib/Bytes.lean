import Mathlib.Algebra.Ring.Int.Defs
import Mathlib.Algebra.Ring.Nat
import Mathlib.Data.Nat.Notation
import Mathlib.Logic.Basic

/-!
# Bytes in network order

Reading and writing big-endian numbers (`ByteReader`, `ByteWriter` of `byte_io.h`). A number that does
not fit loses its upper part, as in the C conversions.
-/

namespace Bytes

/-- A property of a byte can be tested on all of them. -/
instance decidableForallByte (P : UInt8 → Prop) [DecidablePred P] : Decidable (∀ b, P b) :=
  decidable_of_iff (∀ n : Fin 256, P (UInt8.ofFin n)) ⟨fun h b => h b.toFin, fun h _ => h _⟩

def read16 (a b : UInt8) : Nat := a.toNat * 256 + b.toNat

/-- The upper and the lower byte of a 16-bit number. -/
def hi16 (x : Nat) : UInt8 := UInt8.ofNat (x / 256)
def lo16 (x : Nat) : UInt8 := UInt8.ofNat x

theorem read16_lt (a b : UInt8) : read16 a b < 65536 := by
  have := a.toNat_lt
  have := b.toNat_lt
  unfold read16
  omega

theorem read16_write (x : Nat) : read16 (hi16 x) (lo16 x) = x % 65536 := by
  simp only [read16, hi16, lo16, UInt8.toNat_ofNat']
  omega

theorem hi16_read (a b : UInt8) : hi16 (read16 a b) = a := by
  have := b.toNat_lt
  have h : (a.toNat * 256 + b.toNat) / 256 = a.toNat := by omega
  rw [hi16, read16, h, UInt8.ofNat_toNat]

theorem lo16_read (a b : UInt8) : lo16 (read16 a b) = b := by
  apply UInt8.toNat_inj.1
  have := b.toNat_lt
  simp only [lo16, read16, UInt8.toNat_ofNat']
  omega

/-! ## The top bit of a byte -/

/-- A byte below 128 is all of its lower seven bits. Any other one is its top bit on top of them. -/
theorem top_bit (b : UInt8) : (b &&& 0x80 = 0 ↔ b < 0x80) ∧ (b < 0x80 → b &&& 0x7F = b) ∧
    (¬ b < 0x80 → b &&& 0x80 = 0x80 ∧ 0x80 ||| (b &&& 0x7F) = b) ∧ b &&& 0x7F < 0x80 ∧
    ((0x80 ||| b) &&& 0x80 = 0x80) ∧ (b < 0x80 → (0x80 ||| b) &&& 0x7F = b ∧ 0x80 + b = 0x80 ||| b) := by
  revert b
  decide +kernel

theorem top_clear_iff (b : UInt8) : b &&& 0x80 = 0 ↔ b < 0x80 := (top_bit b).1

theorem low7_of_lt {b : UInt8} (h : b < 0x80) : b &&& 0x7F = b := (top_bit b).2.1 h

theorem low7_lt (b : UInt8) : b &&& 0x7F < 0x80 := (top_bit b).2.2.2.1

theorem top_or_low7 {b : UInt8} (h : ¬ b &&& 0x80 = 0) : 0x80 ||| (b &&& 0x7F) = b :=
  ((top_bit b).2.2.1 (mt (top_clear_iff b).2 h)).2

theorem or_top (b : UInt8) : (0x80 ||| b) &&& 0x80 = 0x80 := (top_bit b).2.2.2.2.1

theorem or_top_ne (b : UInt8) : (0x80 ||| b) &&& 0x80 ≠ 0 := by
  rw [or_top]
  decide

theorem low7_or_top {b : UInt8} (h : b < 0x80) : (0x80 ||| b) &&& 0x7F = b := ((top_bit b).2.2.2.2.2 h).1

theorem top_add {b : UInt8} (h : b < 0x80) : 0x80 + b = 0x80 ||| b := ((top_bit b).2.2.2.2.2 h).2

/-- The top bit of a byte, on its own, and the byte put together again. -/
theorem top_cases (b : UInt8) : b &&& 0x80 = 0 ∧ b &&& 0x7F = b ∨ b &&& 0x80 = 0x80 ∧ 0x80 + (b &&& 0x7F) = b := by
  by_cases h : b < 0x80
  · exact Or.inl ⟨(top_clear_iff b).2 h, low7_of_lt h⟩
  · obtain ⟨hset, hor⟩ := (top_bit b).2.2.1 h
    exact Or.inr ⟨hset, by rw [top_add (low7_lt b), hor]⟩

/-- Byte `k` (0 is the first) of a 32-bit number. -/
def byte32 (x : UInt32) (k : Nat) : UInt8 := UInt8.ofNat (x.toNat / 256 ^ (3 - k))

/-! ## Bytes of a buffer -/

/-- Byte `p` of a buffer. -/
def byteAt (buf : List UInt8) (p : Nat) : UInt8 := buf.getD p 0

def read16At (buf : List UInt8) (p : Nat) : UInt16 := UInt16.ofNat (read16 (byteAt buf p) (byteAt buf (p + 1)))

def read24At (buf : List UInt8) (p : Nat) : UInt32 :=
  UInt32.ofNat ((byteAt buf p).toNat * 65536 + read16 (byteAt buf (p + 1)) (byteAt buf (p + 2)))

def read32At (buf : List UInt8) (p : Nat) : UInt32 :=
  UInt32.ofNat (read16 (byteAt buf p) (byteAt buf (p + 1)) * 65536 + read16 (byteAt buf (p + 2)) (byteAt buf (p + 3)))

end Bytes
