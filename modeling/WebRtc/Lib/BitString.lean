import Mathlib.Data.Nat.Bitwise
import WebRtc.Lib.Bytes

/-!
# Bit strings

An endless sequence of bits is a function `f : Nat → Bool`. A number of `n` bits stands in it with its
highest bit in front. `Holds f p n v` says that `v` is the number of the `n` bits at `p`, `put f p n v`
is the sequence after the lowest `n` bits of `v` have been written there, and `window f p n` is that part
of the sequence as a list.
-/

namespace BitString

/-- The lowest `n` bits of `v`, the highest of them first. -/
def ofNat (n v : Nat) : List Bool := (List.range n).map fun i => v.testBit (n - 1 - i)

def window (f : Nat → Bool) (p n : Nat) : List Bool := (List.range n).map fun i => f (p + i)

def Holds (f : Nat → Bool) (p n v : Nat) : Prop := ∀ j, v.testBit j = (decide (j < n) && f (p + n - 1 - j))

def put (f : Nat → Bool) (p n v : Nat) (i : Nat) : Bool :=
  if p ≤ i ∧ i < p + n then v.testBit (p + n - 1 - i) else f i

section
variable {f : Nat → Bool} {p n m v w : Nat}

@[simp] theorem window_zero : window f p 0 = [] := rfl

theorem window_append : window f p (n + m) = window f p n ++ window f (p + n) m := by
  simp [window, List.range_add, Function.comp_def, Nat.add_assoc]

theorem Holds.lt (h : Holds f p n v) : v < 2 ^ n := by
  apply Nat.lt_pow_two_of_testBit
  intro j hj
  simp [h j, Nat.not_lt.2 hj]

/-- Bits that follow each other make one number. -/
theorem Holds.append (hv : Holds f p n v) (hw : Holds f (p + n) m w) : Holds f p (n + m) (v <<< m ||| w) := by
  intro j
  rw [Nat.testBit_or, Nat.testBit_shiftLeft, hv, hw]
  rcases Nat.lt_or_ge j m with hj | hj
  · have hfar : p + n + m - 1 - j = p + (n + m) - 1 - j := by omega
    simp [Nat.not_le.2 hj, hj, Nat.lt_add_left n hj, hfar]
  · have hback : p + n - 1 - (j - m) = p + (n + m) - 1 - j := by omega
    have hlt : j - m < n ↔ j < n + m := by omega
    simp [hj, Nat.not_lt.2 hj, hback, hlt]

/-- A number is known by its bits. -/
theorem Holds.eq (hv : Holds f p n v) (hw : Holds f p n w) : v = w :=
  Nat.eq_of_testBit_eq fun j => by rw [hv, hw]

theorem Holds.ofNat_eq (h : Holds f p n v) : ofNat n v = window f p n := by
  apply List.map_congr_left
  intro i hi
  have hi : i < n := List.mem_range.1 hi
  have hplace : p + n - 1 - (n - 1 - i) = p + i := by omega
  rw [h, hplace]
  simp [show n - 1 - i < n by omega]

theorem put_of_lt {i : Nat} (h : i < p) : put f p n v i = f i := by simp [put, Nat.not_le.2 h]

theorem put_of_ge {i : Nat} (h : p + n ≤ i) : put f p n v i = f i := by simp [put, Nat.not_lt.2 h]

/-- The upper `n` bits first and the lower `m` bits behind them. -/
theorem put_put : put (put f p n (v >>> m)) (p + n) m v = put f p (n + m) v := by
  funext i
  rcases Nat.lt_or_ge i (p + n) with hi | hi
  · rw [put_of_lt hi]
    rcases Nat.lt_or_ge i p with hp | hp
    · rw [put_of_lt hp, put_of_lt hp]
    · have hplace : m + (p + n - 1 - i) = p + (n + m) - 1 - i := by omega
      simp [put, hp, hi, show i < p + (n + m) by omega, Nat.testBit_shiftRight, hplace]
  · rcases Nat.lt_or_ge i (p + n + m) with hm | hm
    · simp [put, hi, show p ≤ i by omega, show i < p + (n + m) by omega, Nat.add_assoc]
    · rw [put_of_ge hm, put_of_ge hi, put_of_ge (by omega)]

theorem window_congr {g : Nat → Bool} (h : ∀ i, p ≤ i → i < p + n → f i = g i) : window f p n = window g p n := by
  apply List.map_congr_left
  intro i hi
  have hi : i < n := List.mem_range.1 hi
  exact h (p + i) (by omega) (by omega)

theorem window_put : window (put f p n v) p n = ofNat n v := by
  apply List.map_congr_left
  intro i hi
  have hi : i < n := List.mem_range.1 hi
  have hplace : p + n - 1 - (p + i) = n - 1 - i := by omega
  simp [put, hi, hplace]

end

/-! ## The bits of a buffer -/

/-- Bit `i` of a buffer, the highest bit of a byte in front. -/
def bitAt (bytes : List UInt8) (i : Nat) : Bool := (Bytes.byteAt bytes (i / 8)).toNat.testBit (7 - i % 8)

theorem byteAt_set {bytes : List UInt8} {k : Nat} (hk : k < bytes.length) (x : UInt8) (j : Nat) :
    Bytes.byteAt (bytes.set k x) j = if j = k then x else Bytes.byteAt bytes j := by
  by_cases hj : j = k
  · subst hj
    simp [Bytes.byteAt, List.getD_eq_getElem?_getD, hk]
  · simp [Bytes.byteAt, List.getD_eq_getElem?_getD, hj, Ne.symm hj]

/-- A byte that is stored with `n` bits from its bit `o` on taken from `v`, and the others as they were. -/
theorem bitAt_set {bytes : List UInt8} {k o n v : Nat} {x : UInt8} (hk : k < bytes.length) (ho : o + n ≤ 8)
    (hx : ∀ i < 8, x.toNat.testBit (7 - i) =
      if o ≤ i ∧ i < o + n then v.testBit (o + n - 1 - i) else (Bytes.byteAt bytes k).toNat.testBit (7 - i)) :
    bitAt (bytes.set k x) = put (bitAt bytes) (8 * k + o) n v := by
  funext i
  rw [bitAt, byteAt_set hk]
  by_cases hi : i / 8 = k
  · have hrange : 8 * k + o ≤ i ∧ i < 8 * k + o + n ↔ o ≤ i % 8 ∧ i % 8 < o + n := by omega
    have hplace : 8 * k + o + n - 1 - i = o + n - 1 - i % 8 := by omega
    rw [if_pos hi, hx _ (Nat.mod_lt i (by decide)), put]
    simp [hrange, hplace, bitAt, hi]
  · have hout : ¬(8 * k + o ≤ i ∧ i < 8 * k + o + n) := by omega
    rw [if_neg hi, put, if_neg hout, bitAt]

/-- The bits of byte `k` from its bit `o` on. -/
theorem holds_of_byte {bytes : List UInt8} {k o n v : Nat} (ho : o + n ≤ 8)
    (hv : ∀ j, v.testBit j = (decide (j < n) && (Bytes.byteAt bytes k).toNat.testBit (8 - (o + n) + j))) :
    Holds (bitAt bytes) (8 * k + o) n v := by
  intro j
  rw [hv]
  by_cases hj : j < n
  · have hbyte : (8 * k + o + n - 1 - j) / 8 = k := by omega
    have hbit : 7 - (8 * k + o + n - 1 - j) % 8 = 8 - (o + n) + j := by omega
    simp [hj, bitAt, hbyte, hbit]
  · simp [hj]

end BitString
