import Mathlib.Algebra.Ring.Int.Defs
import Mathlib.Algebra.Ring.Nat
import Mathlib.Data.Int.Basic

/-!
# C integers

`int16_t`, `int32_t` and `size_t` values are mathematical integers (naturals for `size_t`) kept in
range by the conversions below. Signed overflow is undefined in C; here it wraps, as it does on the
two's-complement targets the code is built for. The constants are literals so that `omega` sees them.
-/

namespace CInt

/-- Conversion to `int16_t`. -/
def i16 (x : Int) : Int :=
  if (x % 65536).toNat < 32768 then x % 65536 else x % 65536 - 65536

/-- Conversion to `int32_t` (and `int`). -/
def i32 (x : Int) : Int :=
  if (x % 4294967296).toNat < 2147483648 then x % 4294967296 else x % 4294967296 - 4294967296

/-- Conversion to `uint32_t`. -/
def u32 (x : Int) : Int := x % 4294967296

/-- Conversion of an `int` to a 64-bit `size_t`. -/
def toSize (x : Int) : Nat := (x % 18446744073709551616).toNat

/-- `a - b` on `size_t`. -/
def szSub (a b : Nat) : Nat := toSize (a - b)

/-- `a + b` on `size_t`. -/
def szAdd (a b : Nat) : Nat := toSize (a + b)

/-- An `int32_t` that is computed without overflow. -/
def checked32 (x : Int) : Option Int := if -2147483648 ≤ x ∧ x ≤ 2147483647 then some x else none

theorem checked32_eq {x : Int} (h1 : -2147483648 ≤ x) (h2 : x ≤ 2147483647) : checked32 x = some x := if_pos ⟨h1, h2⟩

theorem i16_id {x : Int} (h1 : -32768 ≤ x) (h2 : x ≤ 32767) : i16 x = x := by
  unfold i16; omega

theorem i32_id {x : Int} (h1 : -2147483648 ≤ x) (h2 : x ≤ 2147483647) : i32 x = x := by
  unfold i32; omega

/-- One wrap from above. -/
theorem i32_over {x : Int} (h1 : 2147483648 ≤ x) (h2 : x < 4294967296) : i32 x = x - 4294967296 := by
  unfold i32; omega

theorem i16_range (x : Int) : -32768 ≤ i16 x ∧ i16 x ≤ 32767 := by
  unfold i16; omega

theorem i32_range (x : Int) : -2147483648 ≤ i32 x ∧ i32 x ≤ 2147483647 := by
  unfold i32; omega

theorem toSize_id {x : Int} (h1 : 0 ≤ x) (h2 : x < 18446744073709551616) : toSize x = x.toNat := by
  unfold toSize; omega

theorem szSub_eq {a b : Nat} (h : b ≤ a) (ha : a < 18446744073709551616) : szSub a b = a - b := by
  unfold szSub toSize; omega

theorem szAdd_eq {a b : Nat} (h : a + b < 18446744073709551616) : szAdd a b = a + b := by
  unfold szAdd toSize; omega

theorem szSub_toSize (a : Nat) (x : Int) : szSub a (toSize x) = toSize (a - x) := by
  unfold szSub toSize; omega

theorem szAdd_toSize (x : Int) (b : Nat) : szAdd (toSize x) b = toSize (x + b) := by
  unfold szAdd toSize; omega

end CInt
