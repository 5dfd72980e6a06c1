import WebRtc.Common.Numbers

/-!
# Numbers that are all moved by a constant

Sequence numbers and timestamps start anywhere, so nothing should depend on where. Adding the same number to
both sides changes neither differences nor, but for numbers exactly half of the range apart, which of them is
newer. What it may change is which of them is larger.
-/

namespace WebRtc

/-! ## Timestamps -/

/-- The 32-bit number of `n`. -/
def stamp32 (n : Int) : UInt32 := UInt32.ofNat (n % 4294967296).toNat

theorem stamp32_toNat (n : Int) : (stamp32 n).toNat = (n % 4294967296).toNat := by
  rw [stamp32, UInt32.toNat_ofNat']
  omega

theorem stamp32_add (a b : Int) : stamp32 a + stamp32 b = stamp32 (a + b) := by
  apply UInt32.toNat_inj.1
  rw [UInt32.toNat_add, stamp32_toNat, stamp32_toNat, stamp32_toNat]
  omega

theorem stamp32_sub (a b : Int) : stamp32 a - stamp32 b = stamp32 (a - b) := by
  apply UInt32.toNat_inj.1
  rw [UInt32.toNat_sub, stamp32_toNat, stamp32_toNat, stamp32_toNat]
  omega

theorem stamp32_inj {a b : Int} : stamp32 a = stamp32 b ↔ a % 4294967296 = b % 4294967296 := by
  rw [← UInt32.toNat_inj, stamp32_toNat, stamp32_toNat]
  omega

/-- What is added to a number that does not wrap. -/
theorem add_stamp32 {t : UInt32} {n : Int} (hn : 0 ≤ n) (h : t.toNat + n < 4294967296) :
    ((t + stamp32 n).toNat : Int) = t.toNat + n := by
  rw [UInt32.toNat_add, stamp32_toNat]
  omega

@[simp] theorem shift_sub32 (a b c : UInt32) : a + c - (b + c) = a - b := by
  have ha := a.toNat_lt
  have hb := b.toNat_lt
  have hc := c.toNat_lt
  apply UInt32.toNat_inj.1
  simp only [UInt32.toNat_sub, UInt32.toNat_add]
  omega

@[simp] theorem shift_inj32 (a b c : UInt32) : a + c = b + c ↔ a = b := by
  have ha := a.toNat_lt
  have hb := b.toNat_lt
  have hc := c.toNat_lt
  rw [← UInt32.toNat_inj, ← UInt32.toNat_inj, UInt32.toNat_add, UInt32.toNat_add]
  omega

theorem shift_comm_sub32 (a b c : UInt32) : a + c - b = a - b + c := by
  have ha := a.toNat_lt
  have hb := b.toNat_lt
  have hc := c.toNat_lt
  apply UInt32.toNat_inj.1
  simp only [UInt32.toNat_sub, UInt32.toNat_add]
  omega

theorem isNewerTimestamp_shift {a b : UInt32} (h : a - b ≠ 0x80000000) (c : UInt32) :
    isNewerTimestamp (a + c) (b + c) = isNewerTimestamp a b := by
  simp [isNewerTimestamp, h]

/-- Half of the range apart the larger one is newer. -/
theorem isNewerTimestamp_half {a b : UInt32} (h : a - b = 0x80000000) :
    isNewerTimestamp a b = decide (0x80000000 ≤ a.toNat) := by
  have ha := a.toNat_lt
  have hb := b.toNat_lt
  have hsub := congrArg UInt32.toNat h
  have hhalf : (0x80000000 : UInt32).toNat = 0x80000000 := rfl
  rw [UInt32.toNat_sub, hhalf] at hsub
  rw [Bool.eq_iff_iff, isNewerTimestamp_iff, h, hhalf, decide_eq_true_eq]
  omega

/-- Numbers that are close before and after keep their distance. -/
theorem shift_distance32 {a b c : UInt32} (h1 : a.toNat < b.toNat + 0x80000000) (h2 : b.toNat < a.toNat + 0x80000000)
    (h3 : (a + c).toNat < (b + c).toNat + 0x80000000) (h4 : (b + c).toNat < (a + c).toNat + 0x80000000) :
    (a + c).toNat + b.toNat = (b + c).toNat + a.toNat := by
  have ha := a.toNat_lt
  have hb := b.toNat_lt
  have hc := c.toNat_lt
  rw [UInt32.toNat_add, UInt32.toNat_add] at *
  omega

/-! ## Sequence numbers -/

@[simp] theorem shift_sub16 (a b c : UInt16) : a + c - (b + c) = a - b := by
  have ha := a.toNat_lt
  have hb := b.toNat_lt
  have hc := c.toNat_lt
  apply UInt16.toNat_inj.1
  simp only [UInt16.toNat_sub, UInt16.toNat_add]
  omega

@[simp] theorem shift_inj16 (a b c : UInt16) : a + c = b + c ↔ a = b := by
  have ha := a.toNat_lt
  have hb := b.toNat_lt
  have hc := c.toNat_lt
  rw [← UInt16.toNat_inj, ← UInt16.toNat_inj, UInt16.toNat_add, UInt16.toNat_add]
  omega

theorem isNewerSequenceNumber_shift {a b : UInt16} (h : a - b ≠ 0x8000) (c : UInt16) :
    isNewerSequenceNumber (a + c) (b + c) = isNewerSequenceNumber a b := by
  simp [isNewerSequenceNumber, h]

/-- Half of the range apart the larger one is newer. -/
theorem isNewerSequenceNumber_half {a b : UInt16} (h : a - b = 0x8000) :
    isNewerSequenceNumber a b = decide (0x8000 ≤ a.toNat) := by
  have ha := a.toNat_lt
  have hb := b.toNat_lt
  have hsub := congrArg UInt16.toNat h
  have hhalf : (0x8000 : UInt16).toNat = 0x8000 := rfl
  rw [UInt16.toNat_sub, hhalf] at hsub
  rw [Bool.eq_iff_iff, isNewerSequenceNumber_iff, UInt16.toNat_sub, decide_eq_true_eq]
  omega

end WebRtc
