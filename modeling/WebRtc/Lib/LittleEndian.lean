import WebRtc.Lib.Wire

/-!
# Little-endian numbers

Writers and readers of 16-bit and 32-bit numbers with the lowest byte first.
-/

namespace Bytes

def le16 (x : UInt16) : List UInt8 := [lo16 x.toNat, hi16 x.toNat]

def le32 (x : UInt32) : List UInt8 := [byte32 x 3, byte32 x 2, byte32 x 1, byte32 x 0]

def readLE16 (b0 b1 : UInt8) : UInt16 := UInt16.ofNat (read16 b1 b0)

def readLE32 (b0 b1 b2 b3 : UInt8) : UInt32 := UInt32.ofNat (read16 b3 b2 * 65536 + read16 b1 b0)

def le16At (buf : List UInt8) (p : Nat) : UInt16 := readLE16 (byteAt buf p) (byteAt buf (p + 1))

def le32At (buf : List UInt8) (p : Nat) : UInt32 :=
  readLE32 (byteAt buf p) (byteAt buf (p + 1)) (byteAt buf (p + 2)) (byteAt buf (p + 3))

theorem readLE16_le16 (x : UInt16) : readLE16 (lo16 x.toNat) (hi16 x.toNat) = x := by
  apply UInt16.toNat_inj.1
  have := x.toNat_lt
  rw [readLE16, UInt16.toNat_ofNat', read16_write]
  omega

theorem readLE32_le32 (x : UInt32) : readLE32 (byte32 x 3) (byte32 x 2) (byte32 x 1) (byte32 x 0) = x := by
  apply UInt32.toNat_inj.1
  have := x.toNat_lt
  simp only [readLE32, read16, byte32, UInt8.toNat_ofNat', UInt32.toNat_ofNat']
  omega

variable {buf : List UInt8} {p n : Nat}

theorem At.le16 {x : UInt16} (h : At buf p (le16 x)) : le16At buf p = x := by
  obtain ⟨h0, h1⟩ := at_cons.1 h
  rw [le16At, h0.byte, h1.byte, readLE16_le16]

theorem At.le32 {x : UInt32} (h : At buf p (le32 x)) : le32At buf p = x := by
  obtain ⟨h0, h⟩ := at_cons.1 h
  obtain ⟨h1, h⟩ := at_cons.1 h
  obtain ⟨h2, h3⟩ := at_cons.1 h
  rw [le32At, h0.byte, h1.byte, h2.byte, h3.byte, readLE32_le32]

theorem le16At_take (h : p + 2 ≤ n) : le16At (buf.take n) p = le16At buf p := by
  rw [le16At, byteAt_take (by omega), byteAt_take (by omega), le16At]

theorem le32At_take (h : p + 4 ≤ n) : le32At (buf.take n) p = le32At buf p := by
  rw [le32At, byteAt_take (by omega), byteAt_take (by omega), byteAt_take (by omega), byteAt_take (by omega), le32At]

theorem le32At_drop (buf : List UInt8) (n p : Nat) : le32At (buf.drop n) p = le32At buf (n + p) := by
  simp only [le32At, byteAt_drop, Nat.add_assoc]

@[simp] theorem le16_length (x : UInt16) : (le16 x).length = 2 := rfl
@[simp] theorem le32_length (x : UInt32) : (le32 x).length = 4 := rfl

end Bytes
