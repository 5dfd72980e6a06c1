import Mathlib.Data.Nat.Bits
import Mathlib.Tactic.Ring

/-!
# Counting bits (`delay_estimator.c:39-47`)

| here | there |
| --- | --- |
| `bitCount` | `BitCount` (delay_estimator.c:39) |
| `popCount` | what it is for: the number of set bits |

The code sums the bits of every octal digit in place (a digit `4a + 2b + c` loses `2a + b` and `a`),
then adds neighbouring digits into fields of six bits, then adds the fields. `digitSums n u` is the word
after the first step, digit by digit.
-/

namespace WebRtc.Delay

def bitCount (u32 : BitVec 32) : Int :=
  let tmp := u32 - ((u32 >>> 1) &&& BitVec.ofNat 32 0o33333333333) - ((u32 >>> 2) &&& BitVec.ofNat 32 0o11111111111)
  let tmp := (tmp + (tmp >>> 3)) &&& BitVec.ofNat 32 0o30707070707
  let tmp := tmp + (tmp >>> 6)
  ((tmp + (tmp >>> 12) + (tmp >>> 24)) &&& BitVec.ofNat 32 0o77).toNat

def popCount (u : BitVec 32) : Nat := (List.range 32).countP fun i => u.getLsbD i

/-! ## Bits of a natural number -/

/-- The set bits among the lowest `n`. -/
def natPop (n u : Nat) : Nat := (List.range n).countP fun i => u.testBit i

theorem natPop_succ (n u : Nat) : natPop (n + 1) u = u % 2 + natPop n (u / 2) := by
  have hbit : (if u.testBit 0 = true then 1 else 0) = u % 2 := by
    rw [Nat.testBit_zero]
    by_cases h : u % 2 = 1
    · rw [if_pos (by simpa using h), h]
    · rw [if_neg (by simpa using h)]; omega
  simp only [natPop, List.range_succ_eq_map, List.countP_cons, List.countP_map]
  rw [hbit, Nat.add_comm]
  refine congrArg (u % 2 + ·) (List.countP_congr fun i _ => ?_)
  rw [Function.comp_apply, Nat.testBit_succ]

/-- The bits of an octal digit. -/
def digitBits (d : Nat) : Nat := d - d / 2 - d / 4

theorem digitBits_le {d : Nat} (h : d < 8) : digitBits d ≤ 3 := by
  unfold digitBits; omega

theorem natPop_digit (n u : Nat) : natPop (n + 3) u = digitBits (u % 8) + natPop n (u / 8) := by
  have h2 : u / 2 / 2 / 2 = u / 8 := by omega
  rw [natPop_succ, natPop_succ, natPop_succ, h2]
  unfold digitBits
  omega

/-! ## Masks, digit by digit -/

/-- A mask acts on the low digit and on the rest separately. -/
theorem land_digit (k x : Nat) {m : Nat} (hm : m < 2 ^ k) (M : Nat) :
    x &&& (m + 2 ^ k * M) = (x % 2 ^ k &&& m) + 2 ^ k * (x / 2 ^ k &&& M) := by
  have hlow : (x &&& (m + 2 ^ k * M)) % 2 ^ k = x % 2 ^ k &&& m := by
    rw [Nat.and_mod_two_pow, Nat.add_mul_mod_self_left, Nat.mod_eq_of_lt hm]
  have hhigh : (x &&& (m + 2 ^ k * M)) / 2 ^ k = x / 2 ^ k &&& M := by
    rw [Nat.and_div_two_pow, Nat.add_mul_div_left _ _ (Nat.two_pow_pos k), Nat.div_eq_of_lt hm, Nat.zero_add]
  rw [← hlow, ← hhigh, Nat.mod_add_div]

/-- The mask whose `n` octal digits are `m`. -/
def octalMask (m : Nat) : Nat → Nat
  | 0 => 0
  | n + 1 => m + 2 ^ 3 * octalMask m n

theorem octalMask_succ (m n : Nat) : octalMask m (n + 1) = m + 2 ^ 3 * octalMask m n := rfl

/-- `f` of every octal digit, in place. -/
def mapDigits (f : Nat → Nat) : Nat → Nat → Nat
  | 0, _ => 0
  | n + 1, u => f (u % 8) + 2 ^ 3 * mapDigits f n (u / 8)

theorem mapDigits_zero (f : Nat → Nat) (u : Nat) : mapDigits f 0 u = 0 := rfl

theorem mapDigits_succ (f : Nat → Nat) (n u : Nat) :
    mapDigits f (n + 1) u = f (u % 8) + 2 ^ 3 * mapDigits f n (u / 8) := rfl

theorem half_land (n u : Nat) : u / 2 &&& octalMask 3 n = mapDigits (· / 2) n u := by
  induction n generalizing u with
  | zero => exact Nat.and_zero _
  | succ n ih =>
    have hm : u / 2 % 2 ^ 3 &&& 3 = u % 8 / 2 := by
      rw [show (3 : Nat) = 2 ^ 2 - 1 from rfl, Nat.and_two_pow_sub_one_eq_mod]; omega
    have hd : u / 2 / 2 ^ 3 = u / 8 / 2 := by omega
    rw [octalMask_succ, land_digit 3 _ (by decide), hm, hd, ih, mapDigits_succ]

theorem quarter_land (n u : Nat) : u / 4 &&& octalMask 1 n = mapDigits (· / 4) n u := by
  induction n generalizing u with
  | zero => exact Nat.and_zero _
  | succ n ih =>
    have hm : u / 4 % 2 ^ 3 &&& 1 = u % 8 / 4 := by
      rw [show (1 : Nat) = 2 ^ 1 - 1 from rfl, Nat.and_two_pow_sub_one_eq_mod]; omega
    have hd : u / 4 / 2 ^ 3 = u / 8 / 4 := by omega
    rw [octalMask_succ, land_digit 3 _ (by decide), hm, hd, ih, mapDigits_succ]

/-- The first step of the code: every octal digit is replaced by its bits. -/
theorem mapDigits_bits (n u : Nat) (h : u < 8 ^ n) :
    mapDigits digitBits n u + mapDigits (· / 2) n u + mapDigits (· / 4) n u = u := by
  induction n generalizing u with
  | zero => simp only [mapDigits_zero]; omega
  | succ n ih =>
    have hu := ih (u / 8) (by rw [Nat.pow_succ] at h; omega)
    simp only [mapDigits_succ, digitBits] at hu ⊢
    omega

/-! ## Six-bit fields -/

/-- One field of the second step: the sum of two neighbouring digits is kept, the other pair masked. -/
theorem land_field {a b : Nat} (ha : a ≤ 6) (hb : b ≤ 6) (Y M : Nat) :
    (a + 8 * b + 64 * Y) &&& (7 + 2 ^ 6 * M) = a + 64 * (Y &&& M) := by
  have hlow : (a + 8 * b + 64 * Y) % 2 ^ 6 &&& 7 = a := by
    rw [show (7 : Nat) = 2 ^ 3 - 1 from rfl, Nat.and_two_pow_sub_one_eq_mod]; omega
  have hhigh : (a + 8 * b + 64 * Y) / 2 ^ 6 = Y := by omega
  rw [land_digit 6 _ (by decide), hlow, hhigh]; rfl

/-- The second step adds neighbouring digits. -/
theorem land_fields {p : Nat → Nat} (hp : ∀ i, p i ≤ 3) :
    ((p 0 + p 1) + 8 * (p 1 + p 2) + 64 * ((p 2 + p 3) + 8 * (p 3 + p 4) + 64 * ((p 4 + p 5) + 8 * (p 5 + p 6) +
      64 * ((p 6 + p 7) + 8 * (p 7 + p 8) + 64 * ((p 8 + p 9) + 8 * (p 9 + p 10) + 64 * p 10))))) &&&
        0o30707070707 =
    (p 0 + p 1) + 64 * ((p 2 + p 3) + 64 * ((p 4 + p 5) + 64 * ((p 6 + p 7) + 64 * ((p 8 + p 9) + 64 * p 10)))) := by
  have hmask : (0o30707070707 : Nat) =
      7 + 2 ^ 6 * (7 + 2 ^ 6 * (7 + 2 ^ 6 * (7 + 2 ^ 6 * (7 + 2 ^ 6 * 3)))) := by decide
  have hpair : ∀ i j, p i + p j ≤ 6 := by
    intro i j
    have := hp i
    have := hp j
    omega
  have htop : p 10 &&& 3 = p 10 := by
    have := hp 10
    rw [show (3 : Nat) = 2 ^ 2 - 1 from rfl, Nat.and_two_pow_sub_one_eq_mod]
    omega
  rw [hmask, land_field (hpair ..) (hpair ..), land_field (hpair ..) (hpair ..), land_field (hpair ..) (hpair ..),
    land_field (hpair ..) (hpair ..), land_field (hpair ..) (hpair ..), htop]

/-- The last steps add the fields. -/
theorem sum_fields {f0 f1 f2 f3 f4 f5 B C : Nat} (h0 : f0 ≤ 6) (h1 : f1 ≤ 6) (h2 : f2 ≤ 6) (h3 : f3 ≤ 6)
    (h4 : f4 ≤ 6) (h5 : f5 ≤ 2) (hB : B = f0 + 64 * (f1 + 64 * (f2 + 64 * (f3 + 64 * (f4 + 64 * f5)))))
    (hC : C = B + B / 64) : (C + C / 4096 + C / 16777216) &&& 63 = f0 + f1 + f2 + f3 + f4 + f5 := by
  have hB6 : B / 64 = f1 + 64 * (f2 + 64 * (f3 + 64 * (f4 + 64 * f5))) := by omega
  have hC' : C = (f0 + f1) + 64 * (f1 + f2) + 4096 * ((f2 + f3) + 64 * (f3 + f4) + 4096 * ((f4 + f5) + 64 * f5)) := by
    omega
  have hC12 : C / 4096 = (f2 + f3) + 64 * (f3 + f4) + 4096 * ((f4 + f5) + 64 * f5) := by omega
  have hC24 : C / 16777216 = (f4 + f5) + 64 * f5 := by omega
  rw [show (63 : Nat) = 2 ^ 6 - 1 from rfl, Nat.and_two_pow_sub_one_eq_mod, hC12, hC24, hC']
  omega

/-! ## The word -/

/-- The bits of octal digit `i`. -/
def bitsAt (u i : Nat) : Nat := digitBits (u / 8 ^ i % 8)

theorem bitsAt_le (u i : Nat) : bitsAt u i ≤ 3 := digitBits_le (Nat.mod_lt _ (by decide))

/-- The highest digit of a 32-bit word has two bits. -/
theorem bitsAt_ten {u : Nat} (h : u < 4294967296) : bitsAt u 10 ≤ 2 := by
  unfold bitsAt digitBits
  omega

theorem mapDigits_eleven (u : Nat) :
    mapDigits digitBits 11 u = bitsAt u 0 + 8 * (bitsAt u 1 + 8 * (bitsAt u 2 + 8 * (bitsAt u 3 +
      8 * (bitsAt u 4 + 8 * (bitsAt u 5 + 8 * (bitsAt u 6 + 8 * (bitsAt u 7 + 8 * (bitsAt u 8 +
        8 * (bitsAt u 9 + 8 * bitsAt u 10))))))))) := by
  simp only [mapDigits_succ, mapDigits_zero, bitsAt, Nat.div_div_eq_div_mul, Nat.pow_zero, Nat.div_one, Nat.mul_zero,
    Nat.add_zero, Nat.reducePow, Nat.reduceMul]

theorem natPop_word {u : Nat} (h : u < 4294967296) :
    natPop 32 u = bitsAt u 0 + (bitsAt u 1 + (bitsAt u 2 + (bitsAt u 3 + (bitsAt u 4 + (bitsAt u 5 +
      (bitsAt u 6 + (bitsAt u 7 + (bitsAt u 8 + (bitsAt u 9 + bitsAt u 10))))))))) := by
  have htop : natPop 33 u = natPop 32 u := by
    simp only [natPop, List.range_succ (n := 32), List.countP_append, List.countP_singleton]
    rw [Nat.testBit_lt_two_pow (i := 32) h]
    rfl
  have h0 : ∀ v, natPop 0 v = 0 := fun _ => rfl
  rw [← htop]
  simp only [natPop_digit, h0, bitsAt, Nat.div_div_eq_div_mul, Nat.pow_zero, Nat.div_one, Nat.add_zero,
    Nat.reducePow, Nat.reduceMul]

theorem popCount_eq_natPop (u : BitVec 32) : popCount u = natPop 32 u.toNat := rfl

/-- The first step on 32-bit words: no subtraction borrows. -/
theorem toNat_digitSums (u : BitVec 32) :
    (u - ((u >>> 1) &&& BitVec.ofNat 32 0o33333333333) - ((u >>> 2) &&& BitVec.ofNat 32 0o11111111111)).toNat =
      mapDigits digitBits 11 u.toNat := by
  have hlt : u.toNat < 8 ^ 11 := by have := u.isLt; omega
  have hsum := mapDigits_bits 11 u.toNat hlt
  have h1 : ((u >>> 1) &&& BitVec.ofNat 32 0o33333333333).toNat = mapDigits (· / 2) 11 u.toNat := by
    rw [BitVec.toNat_and, BitVec.toNat_ushiftRight, Nat.shiftRight_eq_div_pow, ← half_land]; rfl
  have h2 : ((u >>> 2) &&& BitVec.ofNat 32 0o11111111111).toNat = mapDigits (· / 4) 11 u.toNat := by
    rw [BitVec.toNat_and, BitVec.toNat_ushiftRight, Nat.shiftRight_eq_div_pow, ← quarter_land]; rfl
  rw [BitVec.toNat_sub_of_le, BitVec.toNat_sub_of_le, h1, h2]
  · omega
  · rw [BitVec.le_def, h1]; omega
  · rw [BitVec.le_def, BitVec.toNat_sub_of_le (by rw [BitVec.le_def, h1]; omega), h1, h2]; omega

/-- The second step on 32-bit words: the addition does not wrap. -/
theorem toNat_fields {A : BitVec 32} {p : Nat → Nat} (hp : ∀ i, p i ≤ 3)
    (hA : A.toNat = p 0 + 8 * (p 1 + 8 * (p 2 + 8 * (p 3 + 8 * (p 4 + 8 * (p 5 + 8 * (p 6 + 8 * (p 7 + 8 * (p 8 +
      8 * (p 9 + 8 * p 10)))))))))) :
    ((A + (A >>> 3)) &&& BitVec.ofNat 32 0o30707070707).toNat =
      (p 0 + p 1) + 64 * ((p 2 + p 3) + 64 * ((p 4 + p 5) + 64 * ((p 6 + p 7) + 64 * ((p 8 + p 9) +
        64 * p 10)))) := by
  have h0 := hp 0; have h1 := hp 1; have h2 := hp 2; have h3 := hp 3; have h4 := hp 4
  have h5 := hp 5; have h6 := hp 6; have h7 := hp 7; have h8 := hp 8; have h9 := hp 9
  have hA8 : A.toNat / 2 ^ 3 = p 1 + 8 * (p 2 + 8 * (p 3 + 8 * (p 4 + 8 * (p 5 + 8 * (p 6 + 8 * (p 7 + 8 * (p 8 +
      8 * (p 9 + 8 * p 10)))))))) := by omega
  have hmask : (BitVec.ofNat 32 0o30707070707).toNat = 0o30707070707 := by decide
  rw [BitVec.toNat_and, hmask, BitVec.toNat_add, BitVec.toNat_ushiftRight, Nat.shiftRight_eq_div_pow, hA8, hA,
    ← land_fields hp]
  have hX : (p 0 + 8 * (p 1 + 8 * (p 2 + 8 * (p 3 + 8 * (p 4 + 8 * (p 5 + 8 * (p 6 + 8 * (p 7 + 8 * (p 8 +
      8 * (p 9 + 8 * p 10)))))))))) + (p 1 + 8 * (p 2 + 8 * (p 3 + 8 * (p 4 + 8 * (p 5 + 8 * (p 6 + 8 * (p 7 +
      8 * (p 8 + 8 * (p 9 + 8 * p 10))))))))) =
      (p 0 + p 1) + 8 * (p 1 + p 2) + 64 * ((p 2 + p 3) + 8 * (p 3 + p 4) + 64 * ((p 4 + p 5) + 8 * (p 5 + p 6) +
        64 * ((p 6 + p 7) + 8 * (p 7 + p 8) + 64 * ((p 8 + p 9) + 8 * (p 9 + p 10) + 64 * p 10)))) := by
    ring
  rw [hX, Nat.mod_eq_of_lt (by omega)]

/-- The last steps on 32-bit words: neither do these. -/
theorem toNat_sum {B : BitVec 32} {f0 f1 f2 f3 f4 f5 : Nat} (h0 : f0 ≤ 6) (h1 : f1 ≤ 6) (h2 : f2 ≤ 6) (h3 : f3 ≤ 6)
    (h4 : f4 ≤ 6) (h5 : f5 ≤ 2) (hB : B.toNat = f0 + 64 * (f1 + 64 * (f2 + 64 * (f3 + 64 * (f4 + 64 * f5))))) :
    ((B + (B >>> 6) + ((B + (B >>> 6)) >>> 12) + ((B + (B >>> 6)) >>> 24)) &&& BitVec.ofNat 32 0o77).toNat =
      f0 + f1 + f2 + f3 + f4 + f5 := by
  have hC : (B + (B >>> 6)).toNat = B.toNat + B.toNat / 64 := by
    rw [BitVec.toNat_add, BitVec.toNat_ushiftRight, Nat.shiftRight_eq_div_pow, Nat.mod_eq_of_lt (by omega)]
  rw [← sum_fields h0 h1 h2 h3 h4 h5 hB hC]
  generalize B + (B >>> 6) = C at hC ⊢
  rw [BitVec.toNat_and, BitVec.toNat_add, BitVec.toNat_add, BitVec.toNat_ushiftRight, BitVec.toNat_ushiftRight,
    Nat.shiftRight_eq_div_pow, Nat.shiftRight_eq_div_pow]
  have h12 : C.toNat + C.toNat / 2 ^ 12 < 2 ^ 32 := by omega
  have h24 : C.toNat + C.toNat / 2 ^ 12 + C.toNat / 2 ^ 24 < 2 ^ 32 := by omega
  rw [Nat.mod_eq_of_lt h12, Nat.mod_eq_of_lt h24]
  rfl

/-- **`BitCount` counts the set bits.** -/
theorem bitCount_eq (u : BitVec 32) : bitCount u = popCount u := by
  have hlt : u.toNat < 4294967296 := u.isLt
  have hle := bitsAt_le u.toNat
  have h10 := bitsAt_ten hlt
  have hpair : ∀ i j, bitsAt u.toNat i + bitsAt u.toNat j ≤ 6 := by
    intro i j
    have := hle i
    have := hle j
    omega
  have hB := toNat_fields hle ((toNat_digitSums u).trans (mapDigits_eleven u.toNat))
  rw [popCount_eq_natPop, natPop_word hlt, bitCount,
    toNat_sum (hpair ..) (hpair ..) (hpair ..) (hpair ..) (hpair ..) h10 hB]
  omega

theorem bitCount_range (u : BitVec 32) : 0 ≤ bitCount u ∧ bitCount u ≤ 32 := by
  have hle : popCount u ≤ 32 := by
    have := List.countP_le_length (p := fun i => u.getLsbD i) (l := List.range 32)
    rwa [List.length_range] at this
  rw [bitCount_eq]
  omega

end WebRtc.Delay
