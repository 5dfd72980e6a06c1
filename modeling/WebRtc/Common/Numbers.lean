import Mathlib.Algebra.Ring.Int.Defs
import Mathlib.Algebra.Ring.Nat
import Mathlib.Logic.Basic

/-!
# Numbers that wrap

| here | there |
| --- | --- |
| `isNewerSequenceNumber`, `isNewerTimestamp` | `module_common_types.h:734-758` |
| `latestSequenceNumber` | `module_common_types.h:758-763` |
-/

namespace WebRtc

/-- Numbers exactly `0x8000` apart are told apart by their values. -/
def isNewerSequenceNumber (sequenceNumber prevSequenceNumber : UInt16) : Bool :=
  if sequenceNumber - prevSequenceNumber = 0x8000 then decide (sequenceNumber > prevSequenceNumber)
  else decide (sequenceNumber ≠ prevSequenceNumber) && decide (sequenceNumber - prevSequenceNumber < 0x8000)

def isNewerTimestamp (timestamp prevTimestamp : UInt32) : Bool :=
  if timestamp - prevTimestamp = 0x80000000 then decide (timestamp > prevTimestamp)
  else decide (timestamp ≠ prevTimestamp) && decide (timestamp - prevTimestamp < 0x80000000)

def latestSequenceNumber (sequenceNumber1 sequenceNumber2 : UInt16) : UInt16 :=
  if isNewerSequenceNumber sequenceNumber1 sequenceNumber2 then sequenceNumber1 else sequenceNumber2

/-- Newer is what is ahead by less than half of the numbers. -/
theorem isNewerSequenceNumber_iff (a b : UInt16) : isNewerSequenceNumber a b = true ↔
    0 < (a - b).toNat ∧ ((a - b).toNat < 0x8000 ∨ (a - b).toNat = 0x8000 ∧ b.toNat < a.toNat) := by
  have h1 := a.toNat_lt
  have h2 := b.toNat_lt
  have hsub := UInt16.toNat_sub a b
  have hhalf : (0x8000 : UInt16).toNat = 0x8000 := rfl
  unfold isNewerSequenceNumber
  by_cases h : a - b = 0x8000
  · rw [if_pos h, decide_eq_true_eq, gt_iff_lt, UInt16.lt_iff_toNat_lt, h, hhalf]
    omega
  · rw [if_neg h, Bool.and_eq_true, decide_eq_true_eq, decide_eq_true_eq, ne_eq, ← UInt16.toNat_inj,
      UInt16.lt_iff_toNat_lt, hhalf]
    rw [← UInt16.toNat_inj, hhalf] at h
    omega

theorem isNewerTimestamp_iff (a b : UInt32) : isNewerTimestamp a b = true ↔
    0 < (a - b).toNat ∧ ((a - b).toNat < 0x80000000 ∨ (a - b).toNat = 0x80000000 ∧ b.toNat < a.toNat) := by
  have h1 := a.toNat_lt
  have h2 := b.toNat_lt
  have hsub := UInt32.toNat_sub a b
  have hhalf : (0x80000000 : UInt32).toNat = 0x80000000 := rfl
  unfold isNewerTimestamp
  by_cases h : a - b = 0x80000000
  · rw [if_pos h, decide_eq_true_eq, gt_iff_lt, UInt32.lt_iff_toNat_lt, h, hhalf]
    omega
  · rw [if_neg h, Bool.and_eq_true, decide_eq_true_eq, decide_eq_true_eq, ne_eq, ← UInt32.toNat_inj,
      UInt32.lt_iff_toNat_lt, hhalf]
    rw [← UInt32.toNat_inj, hhalf] at h
    omega

/-- Of two numbers one is newer. -/
theorem eq_of_not_newer {a b : UInt16} (h1 : isNewerSequenceNumber a b = false)
    (h2 : isNewerSequenceNumber b a = false) : a = b := by
  have ha := a.toNat_lt
  have hb := b.toNat_lt
  rw [← Bool.not_eq_true, isNewerSequenceNumber_iff, UInt16.toNat_sub] at h1 h2
  apply UInt16.toNat_inj.1
  omega

theorem not_newer_both {a b : UInt16} (h : isNewerSequenceNumber a b = true) : isNewerSequenceNumber b a = false := by
  have ha := a.toNat_lt
  have hb := b.toNat_lt
  rw [← Bool.not_eq_true]
  rw [isNewerSequenceNumber_iff, UInt16.toNat_sub] at h ⊢
  omega

/-! ## Numbers that do not wrap -/

/-- The 16-bit number of `n`. -/
def wrap16 (n : Int) : UInt16 := UInt16.ofNat (n % 65536).toNat

theorem wrap16_toNat (n : Int) : (wrap16 n).toNat = (n % 65536).toNat := by
  rw [wrap16, UInt16.toNat_ofNat']
  omega

theorem wrap16_sub (a b : Int) : (wrap16 a - wrap16 b).toNat = ((a - b) % 65536).toNat := by
  rw [UInt16.toNat_sub, wrap16_toNat, wrap16_toNat]
  omega

theorem wrap16_of (s : UInt16) : wrap16 s.toNat = s := by
  have h := s.toNat_lt
  apply UInt16.toNat_inj.1
  rw [wrap16_toNat]
  omega

theorem wrap16_add (a : Int) (s : UInt16) : wrap16 a + s = wrap16 (a + s.toNat) := by
  have h := s.toNat_lt
  apply UInt16.toNat_inj.1
  rw [UInt16.toNat_add, wrap16_toNat, wrap16_toNat]
  omega

/-- Within 2^16 numbers none is met twice. -/
theorem wrap16_inj {a b : Int} (h1 : -65536 < a - b) (h2 : a - b < 65536) : wrap16 a = wrap16 b ↔ a = b := by
  rw [← UInt16.toNat_inj, wrap16_toNat, wrap16_toNat]
  omega

/-- Within less than half of the numbers newer is larger. -/
theorem isNewer_wrap16 {a b : Int} (h1 : -32768 < a - b) (h2 : a - b < 32768) :
    isNewerSequenceNumber (wrap16 a) (wrap16 b) = decide (b < a) := by
  rw [Bool.eq_iff_iff, isNewerSequenceNumber_iff, wrap16_sub, decide_eq_true_eq]
  omega

end WebRtc
