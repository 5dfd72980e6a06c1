import WebRtc.Base.BitBuffer

/-!
# The bit buffer gives back what was written (`webrtc/base/bitbuffer.cc`)

A buffer is a sequence of bits (`bitAt`), a read takes a number from it (`Holds`) and a write puts one
there (`put`). Both treat the first byte, the whole bytes and the last byte apart; the lemmas follow that.
-/

namespace WebRtc.Base

open Bytes BitString

/-! ## Parts of a byte -/

theorem lowestBits_testBit (byte n j : Nat) :
    (lowestBits byte n).testBit j = (byte.testBit j && decide (j < n)) := by
  simp [lowestBits, Nat.shiftLeft_eq, Bool.and_comm]

theorem testBit_byte (j : Nat) : Nat.testBit 255 j = decide (j < 8) :=
  Nat.testBit_two_pow_sub_one 8 j

theorem highestBits_testBit {n : Nat} (hn : n ≤ 8) (byte j : Nat) :
    (highestBits byte n).testBit j = (decide (j < n) && byte.testBit (8 - n + j)) := by
  have hlt : 8 - n + j < 8 ↔ j < n := by omega
  simp only [highestBits, Nat.testBit_shiftRight, Nat.testBit_and, Nat.testBit_mod_two_pow, Nat.testBit_shiftLeft,
    testBit_byte]
  by_cases hj : j < n
  · simp [hj, hlt, show j < 8 by omega]
  · simp [hj, hlt]

theorem testBit_uint8 (b : UInt8) {j : Nat} (hj : 8 ≤ j) : b.toNat.testBit j = false :=
  Nat.testBit_lt_two_pow (Nat.lt_of_lt_of_le b.toNat_lt (Nat.pow_le_pow_right (by decide) hj))

/-- The bits at the top of a number that has been pushed to the highest bits. -/
theorem highestByte_testBit {n k : Nat} (hn : n ≤ 64) (hk : k < 8) (v : Nat) :
    (highestByte ((v <<< (64 - n)) % 2 ^ 64)).toNat.testBit (7 - k) = (decide (k < n) && v.testBit (n - 1 - k)) := by
  simp only [highestByte, UInt8.toNat_ofNat', Nat.testBit_mod_two_pow, Nat.testBit_shiftRight, Nat.testBit_shiftLeft]
  by_cases hkn : k < n
  · have hplace : 56 + (7 - k) - (64 - n) = n - 1 - k := by omega
    simp [hkn, hplace, show 7 - k < 8 by omega, show 56 + (7 - k) < 64 by omega, show 64 - n ≤ 56 + (7 - k) by omega]
  · simp [hkn, show ¬64 - n ≤ 56 + (7 - k) by omega]

theorem testBit_complement (b : UInt8) {j : Nat} (hj : j < 8) : (~~~b).toNat.testBit j = !b.toNat.testBit j := by
  have hnot : (~~~b).toNat = 2 ^ 8 - (b.toNat + 1) := by
    rw [UInt8.toNat_not, Nat.add_comm, Nat.sub_add_eq]
    rfl
  rw [hnot, Nat.testBit_two_pow_sub_succ b.toNat_lt]
  simp [hj]

theorem shiftLeft_shiftLeft_mod (v a b : Nat) : (((v <<< a) % 2 ^ 64) <<< b) % 2 ^ 64 = (v <<< (a + b)) % 2 ^ 64 := by
  rw [Nat.shiftLeft_add]
  simp only [Nat.shiftLeft_eq]
  exact Nat.mod_mul_mod _ _ _

/-- Only the bits of the source that are asked for change the target, if there are zeros behind them. -/
theorem writePartialByte_testBit {n o : Nat} (ho : o + n ≤ 8) (source target : UInt8)
    (hzero : ∀ k, n ≤ k → o + k < 8 → source.toNat.testBit (7 - k) = false) {i : Nat} (hi : i < 8) :
    (writePartialByte source n target o).toNat.testBit (7 - i) =
      if o ≤ i ∧ i < o + n then source.toNat.testBit (7 - (i - o)) else target.toNat.testBit (7 - i) := by
  have hi' : 7 - i < 8 := by omega
  have hmask : (((0xFF <<< (8 - n)) % 2 ^ 8) >>> o).testBit (7 - i) = decide (o ≤ i ∧ i < o + n) := by
    rw [Nat.testBit_shiftRight, Nat.testBit_mod_two_pow, Nat.testBit_shiftLeft, testBit_byte, Bool.eq_iff_iff]
    simp only [Bool.and_eq_true, decide_eq_true_eq]
    omega
  have hsource : (source.toNat >>> o).testBit (7 - i) = (decide (o ≤ i) && source.toNat.testBit (7 - (i - o))) := by
    rw [Nat.testBit_shiftRight]
    by_cases hoi : o ≤ i
    · have hplace : o + (7 - i) = 7 - (i - o) := by omega
      simp [hoi, hplace]
    · simp [hoi, testBit_uint8 source (show 8 ≤ o + (7 - i) by omega)]
  simp only [writePartialByte, UInt8.toNat_or, UInt8.toNat_and, Nat.testBit_or, Nat.testBit_and,
    testBit_complement _ hi', UInt8.toNat_ofNat', Nat.testBit_mod_two_pow, hsource, hmask, hi', decide_true,
    Bool.true_and]
  by_cases hoi : o ≤ i
  · by_cases hin : i < o + n
    · simp [hoi, hin]
    · simp [hoi, hin, hzero (i - o) (by omega) (by omega)]
  · simp [hoi]

namespace BitBuffer

/-! ## Reading -/

theorem shiftLeft_mod {v n m w : Nat} (hv : v < 2 ^ n) (hle : n + m ≤ w) : (v <<< m) % 2 ^ w = v <<< m := by
  apply Nat.mod_eq_of_lt
  calc v <<< m = v * 2 ^ m := Nat.shiftLeft_eq v m
    _ < 2 ^ n * 2 ^ m := Nat.mul_lt_mul_of_pos_right hv (Nat.two_pow_pos m)
    _ = 2 ^ (n + m) := (Nat.pow_add 2 n m).symm
    _ ≤ 2 ^ w := Nat.pow_le_pow_right (by decide) hle

/-- The number read so far is the one of the bits from `start`, and it grows by whole bytes. -/
theorem peekRest_holds (bytes : List UInt8) (bitCount p bits : Nat) {start n : Nat}
    (hbits : Holds (bitAt bytes) start n bits) (hp : start + n = 8 * p) (hle : n + bitCount ≤ 32) :
    Holds (bitAt bytes) start (n + bitCount) (peekRest bytes bitCount p bits) := by
  fun_induction peekRest bytes bitCount p bits generalizing n with
  | case1 bitCount p bits ih =>
    have hbyte : Holds (bitAt bytes) (start + n) 8 (byteAt bytes p).toNat := by
      rw [hp]
      refine holds_of_byte (o := 0) (Nat.le_refl 8) fun j => ?_
      by_cases hj : j < 8
      · simp [hj]
      · simp [hj, testBit_uint8 _ (Nat.not_lt.1 hj)]
    have happend := hbits.append hbyte
    rw [← shiftLeft_mod hbits.lt (show n + 8 ≤ 32 by omega)] at happend
    have hrest := ih happend (by omega) (by omega)
    rwa [show n + 8 + bitCount = n + (bitCount + 8) by omega] at hrest
  | case2 bitCount p bits hsmall hpos =>
    have hlt : bitCount < 8 := by
      by_contra hge
      exact hsmall (bitCount - 8) (by omega)
    have hbyte : Holds (bitAt bytes) (start + n) bitCount (highestBits (byteAt bytes p).toNat bitCount) := by
      rw [hp]
      refine holds_of_byte (o := 0) (by omega) fun j => ?_
      rw [highestBits_testBit hlt.le, Nat.zero_add]
    rw [shiftLeft_mod hbits.lt hle]
    exact hbits.append hbyte
  | case3 bitCount p bits hsmall hpos =>
    have hzero : bitCount = 0 := by omega
    simpa [hzero] using hbits

theorem peekBits_holds {b : BitBuffer} {val : Bool} {n v : Nat} (h : b.peekBits val n = some v) :
    Holds (bitAt b.bytes) b.position n v := by
  have ho := b.inByte
  simp only [peekBits] at h
  split at h
  · cases h
  · rename_i hok
    split at h
    · rename_i hn
      cases h
      refine holds_of_byte (by omega) fun j => ?_
      rw [highestBits_testBit (by omega), lowestBits_testBit]
      by_cases hj : j < n
      · simp [hj, show j < b.bitOffset + n by omega, show 8 - (b.bitOffset + n) + j < 8 - b.bitOffset by omega]
      · simp only [hj, decide_false, Bool.false_and, show ¬8 - (b.bitOffset + n) + j < 8 - b.bitOffset by omega,
          Bool.and_false]
    · rename_i hn
      cases h
      have hfirst : Holds (bitAt b.bytes) b.position (8 - b.bitOffset)
          (lowestBits (byteAt b.bytes b.byteOffset).toNat (8 - b.bitOffset)) := by
        refine holds_of_byte (by omega) fun j => ?_
        rw [lowestBits_testBit, Bool.and_comm, show 8 - (b.bitOffset + (8 - b.bitOffset)) + j = j by omega]
      have hrest := peekRest_holds b.bytes (n - (8 - b.bitOffset)) (b.byteOffset + 1) _ hfirst
        (by simp only [position]; omega) (by omega)
      rwa [show 8 - b.bitOffset + (n - (8 - b.bitOffset)) = n by omega] at hrest

theorem peekBits_isSome {b : BitBuffer} {val : Bool} {n : Nat} :
    (b.peekBits val n).isSome = true ↔ val = true ∧ n ≤ b.remainingBitCount ∧ n ≤ 32 := by
  simp only [peekBits]
  split
  · rename_i hbad
    simp only [Option.isSome_none, Bool.false_eq_true, false_iff]
    rcases hbad with hval | hbad
    · simp_all
    · omega
  · rename_i hok
    have : val = true ∧ n ≤ b.remainingBitCount ∧ n ≤ 32 := by
      simp only [not_or, Bool.not_eq_true, Nat.not_lt] at hok
      simpa using hok
    split <;> simp [this]

theorem consumeBits_ok {b : BitBuffer} {n : Nat} (h : n ≤ b.remainingBitCount) :
    (b.consumeBits n).1 = true ∧ (b.consumeBits n).2.bytes = b.bytes ∧
      (b.consumeBits n).2.position = b.position + n := by
  simp only [consumeBits, Nat.not_lt.2 h, dif_neg, not_false_iff, position, true_and]
  omega

theorem readBits_ok {b : BitBuffer} {n : Nat} (hn : n ≤ b.remainingBitCount) (hmax : n ≤ 32) :
    ∃ v c, b.readBits true n = (some v, c) ∧ Holds (bitAt b.bytes) b.position n v ∧ c.bytes = b.bytes ∧
      c.position = b.position + n := by
  obtain ⟨v, hv⟩ := Option.isSome_iff_exists.1 (peekBits_isSome.2 ⟨rfl, hn, hmax⟩)
  obtain ⟨hok, hbytes, hpos⟩ := consumeBits_ok hn
  exact ⟨v, _, by simp [readBits, hv, hok], peekBits_holds hv, hbytes, hpos⟩

/-- A read that fails changes nothing. -/
theorem readBits_failed {b : BitBuffer} {val : Bool} {n : Nat} (h : (b.readBits val n).1 = none) :
    (b.readBits val n).2 = b := by
  cases hpeek : b.peekBits val n with
  | none => simp [readBits, hpeek]
  | some v =>
    obtain ⟨-, hn, -⟩ := peekBits_isSome.1 (Option.isSome_of_eq_some hpeek)
    simp [readBits, hpeek, (consumeBits_ok hn).1] at h

/-! ## Writing -/

/-- The first byte of a run of bits that have been pushed to the top of `val`. -/
theorem bitAt_writePartialByte {bytes : List UInt8} {k o n v : Nat} (hk : k < bytes.length) (ho : o < 8) (hn : n ≤ 64) :
    bitAt (bytes.set k (writePartialByte (highestByte ((v <<< (64 - n)) % 2 ^ 64)) (min n (8 - o)) (byteAt bytes k) o))
      = put (bitAt bytes) (8 * k + o) (min n (8 - o)) (v >>> (n - min n (8 - o))) := by
  refine bitAt_set hk (by omega) fun i hi => ?_
  rw [writePartialByte_testBit (by omega) _ _ _ hi]
  · split
    · rename_i hin
      have hplace : n - min n (8 - o) + (o + min n (8 - o) - 1 - i) = n - 1 - (i - o) := by omega
      rw [highestByte_testBit hn (by omega), Nat.testBit_shiftRight, hplace]
      simp [show i - o < n by omega]
    · rfl
  · intro k hk hok
    rw [highestByte_testBit hn (by omega)]
    simp [show ¬k < n by omega]

theorem bitAt_writeRest (n p val : Nat) (bytes : List UInt8) {v : Nat} (hn : n ≤ 64)
    (hval : val = (v <<< (64 - n)) % 2 ^ 64) (hroom : 8 * p + n ≤ 8 * bytes.length) :
    bitAt (writeRest n p val bytes) = put (bitAt bytes) (8 * p) n v := by
  fun_induction writeRest n p val bytes with
  | case1 n p val bytes ih =>
    have hbyte : bitAt (bytes.set p (highestByte val)) = put (bitAt bytes) (8 * p) 8 (v >>> n) := by
      refine bitAt_set (o := 0) (by omega) (Nat.le_refl 8) fun i hi => ?_
      rw [hval, highestByte_testBit hn hi, Nat.testBit_shiftRight]
      simp [hi, show n + (8 - 1 - i) = n + 8 - 1 - i by omega, show i < n + 8 by omega]
    have hnext : (val <<< 8) % 2 ^ 64 = (v <<< (64 - n)) % 2 ^ 64 := by
      rw [hval, shiftLeft_shiftLeft_mod, show 64 - (n + 8) + 8 = 64 - n by omega]
    rw [ih (by omega) hnext (by simp; omega), hbyte, show 8 * (p + 1) = 8 * p + 8 by omega, put_put, Nat.add_comm]
  | case2 n p val bytes hsmall hpos =>
    have hlt : n < 8 := by
      by_contra hge
      exact hsmall (n - 8) (by omega)
    have hlast := @bitAt_writePartialByte bytes p 0 _ v (by omega) (by decide) hn
    rw [show min n (8 - 0) = n by omega, Nat.sub_self, ← hval] at hlast
    simpa using hlast
  | case3 n p val bytes hsmall hpos =>
    have hzero : n = 0 := by omega
    funext i
    simp [hzero, put]

theorem bitAt_written {b : BitBuffer} {v n : Nat} (hpos : 0 < n) (hn : n ≤ 64) (hroom : n ≤ b.remainingBitCount) :
    bitAt (b.written v n) = put (bitAt b.bytes) b.position n v := by
  have ho := b.inByte
  have hend := b.position_add_remaining
  have hk : b.byteOffset < b.bytes.length := by
    simp only [position] at hend
    omega
  have hfirst := bitAt_writePartialByte (v := v) hk ho hn
  simp only [written]
  split
  · rename_i hle
    rw [hfirst, Nat.min_eq_left hle, Nat.sub_self]
    rfl
  · rename_i hlong
    rw [Nat.min_eq_right (by omega)] at hfirst ⊢
    rw [bitAt_writeRest _ _ _ _ (by omega) (v := v), hfirst]
    · rw [show 8 * (b.byteOffset + 1) = 8 * b.byteOffset + b.bitOffset + (8 - b.bitOffset) by omega, put_put,
        show 8 - b.bitOffset + (n - (8 - b.bitOffset)) = n by omega]
      rfl
    · rw [shiftLeft_shiftLeft_mod, show 64 - n + (8 - b.bitOffset) = 64 - (n - (8 - b.bitOffset)) by omega]
    · simp only [position] at hend
      simp only [List.length_set]
      omega

theorem writeBits_ok {b : BitBuffer} {v : UInt64} {n : Nat} (hpos : 0 < n) (hn : n ≤ 64)
    (hroom : n ≤ b.remainingBitCount) :
    (b.writeBits v n).1 = true ∧ bitAt (b.writeBits v n).2.bytes = put (bitAt b.bytes) b.position n v.toNat ∧
      (b.writeBits v n).2.bytes.length = b.bytes.length ∧ (b.writeBits v n).2.position = b.position + n := by
  simp only [writeBits, Nat.not_lt.2 hroom, if_false]
  obtain ⟨hok, hbytes, hposition⟩ := consumeBits_ok (b := { b with
    bytes := b.written v.toNat n
    inBuffer := by simpa using b.inBuffer }) (n := n) (by simpa [remainingBitCount] using hroom)
  rw [hok, hbytes, hposition, bitAt_written hpos hn hroom]
  simp [position]

/-- A write that fails changes nothing. -/
theorem writeBits_failed {b : BitBuffer} {v : UInt64} {n : Nat} (h : (b.writeBits v n).1 = false) :
    (b.writeBits v n).2 = b := by
  by_cases hroom : b.remainingBitCount < n
  · simp [writeBits, hroom]
  · have hok := (consumeBits_ok (b := { b with
      bytes := b.written v.toNat n
      inBuffer := by simpa using b.inBuffer }) (n := n) (by simpa [remainingBitCount] using hroom)).1
    rw [writeBits, if_neg hroom, hok] at h
    cases h

theorem writeExponentialGolomb_failed {b : BitBuffer} {v : UInt32} (h : (b.writeExponentialGolomb v).1 = false) :
    (b.writeExponentialGolomb v).2 = b := by
  simp only [writeExponentialGolomb] at h ⊢
  split
  · rfl
  · rename_i hmax
    rw [if_neg hmax] at h
    exact writeBits_failed h

/-- Back to a position that has been in the buffer before. -/
theorem seek_back {b c : BitBuffer} (h : c.bytes.length = b.bytes.length) :
    (c.seek b.byteOffset b.bitOffset).1 = true ∧ (c.seek b.byteOffset b.bitOffset).2.bytes = c.bytes ∧
      (c.seek b.byteOffset b.bitOffset).2.position = b.position := by
  have ho := b.inByte
  have hin := b.inBuffer
  have hok : ¬(c.bytes.length < b.byteOffset ∨ 7 < b.bitOffset ∨
      (b.byteOffset = c.bytes.length ∧ 0 < b.bitOffset)) := by omega
  simp [seek, hok, position]

/-! ## Runs of writes and reads -/

/-- `WriteBits` called with one value and count after the other, as long as it returns true. -/
def writeAll : BitBuffer → List (UInt64 × Nat) → Option BitBuffer
  | b, [] => some b
  | b, (v, n) :: rest => if (b.writeBits v n).1 then writeAll (b.writeBits v n).2 rest else none

/-- `ReadBits` called with one count after the other; the values that have been read. -/
def readAll : BitBuffer → List Nat → Option (List Nat × BitBuffer)
  | b, [] => some ([], b)
  | b, n :: rest =>
    match b.readBits true n with
    | (none, _) => none
    | (some v, c) => (readAll c rest).map fun r => (v :: r.1, r.2)

def bitCount (writes : List (UInt64 × Nat)) : Nat := (writes.map fun w => w.2).sum

/-- The bit string that a run of writes is to put into the buffer. -/
def bitString (writes : List (UInt64 × Nat)) : List Bool := writes.flatMap fun w => BitString.ofNat w.2 w.1.toNat

/-- The bit string that a run of reads has given. -/
def bitsRead (counts values : List Nat) : List Bool := (counts.zipWith BitString.ofNat values).flatten

theorem writeBits_room {b : BitBuffer} {v : UInt64} {n : Nat} (h : (b.writeBits v n).1 = true) :
    n ≤ b.remainingBitCount := by
  by_contra hroom
  simp [writeBits, Nat.not_le.1 hroom] at h

theorem writeAll_spec {b c : BitBuffer} {writes : List (UInt64 × Nat)} (hcounts : ∀ w ∈ writes, 1 ≤ w.2 ∧ w.2 ≤ 64)
    (h : b.writeAll writes = some c) :
    c.bytes.length = b.bytes.length ∧ c.position = b.position + bitCount writes ∧
      (∀ i, ¬(b.position ≤ i ∧ i < c.position) → bitAt c.bytes i = bitAt b.bytes i) ∧
      window (bitAt c.bytes) b.position (bitCount writes) = bitString writes := by
  induction writes generalizing b with
  | nil =>
    cases h
    simp [bitCount, bitString]
  | cons w rest ih =>
    obtain ⟨v, n⟩ := w
    obtain ⟨hpos, hmax⟩ := hcounts (v, n) (by simp)
    simp only [writeAll] at h
    split at h
    · rename_i hwrite
      obtain ⟨-, hbits, hlength, hposition⟩ := writeBits_ok (v := v) (n := n) hpos hmax (writeBits_room hwrite)
      obtain ⟨hlength', hposition', hframe, hwindow⟩ := ih (fun w hw => hcounts w (by simp [hw])) h
      have hcount : bitCount ((v, n) :: rest) = n + bitCount rest := by simp [bitCount]
      refine ⟨by rw [hlength', hlength], by omega, fun i hi => ?_, ?_⟩
      · rw [hframe i (by omega), hbits]
        rcases Nat.lt_or_ge i b.position with hlt | hge
        · rw [put_of_lt hlt]
        · rw [put_of_ge (by omega)]
      · have hhead : window (bitAt c.bytes) b.position n = BitString.ofNat n v.toNat := by
          rw [← window_put (f := bitAt b.bytes) (p := b.position), ← hbits]
          exact window_congr fun i _ hi => hframe i (by omega)
        rw [hposition] at hwindow
        rw [hcount, window_append, hhead, hwindow]
        simp [bitString]
    · cases h

/-- A run of writes gets through if and only if there is room for all of its bits. -/
theorem writeAll_isSome {b : BitBuffer} {writes : List (UInt64 × Nat)} (hcounts : ∀ w ∈ writes, 1 ≤ w.2 ∧ w.2 ≤ 64) :
    (b.writeAll writes).isSome ↔ bitCount writes ≤ b.remainingBitCount := by
  induction writes generalizing b with
  | nil => simp [writeAll, bitCount]
  | cons w rest ih =>
    obtain ⟨v, n⟩ := w
    obtain ⟨hpos, hmax⟩ := hcounts (v, n) (by simp)
    have hcount : bitCount ((v, n) :: rest) = n + bitCount rest := by simp [bitCount]
    rw [hcount, writeAll]
    by_cases hroom : n ≤ b.remainingBitCount
    · obtain ⟨hok, -, hlength, hposition⟩ := writeBits_ok (v := v) hpos hmax hroom
      have hb := b.position_add_remaining
      have hc := (b.writeBits v n).2.position_add_remaining
      rw [hlength, hposition] at hc
      rw [if_pos hok, ih fun w hw => hcounts w (by simp [hw])]
      omega
    · have hno : ¬(b.writeBits v n).1 = true := fun hok => hroom (writeBits_room hok)
      rw [if_neg hno]
      simp only [Option.isSome_none, Bool.false_eq_true, false_iff]
      omega

theorem readAll_spec {b : BitBuffer} {counts : List Nat} (hcounts : ∀ n ∈ counts, n ≤ 32)
    (hroom : counts.sum ≤ b.remainingBitCount) :
    ∃ values c, b.readAll counts = some (values, c) ∧ List.Forall₂ (fun n v => v < 2 ^ n) counts values ∧
      c.bytes = b.bytes ∧ c.position = b.position + counts.sum ∧
      bitsRead counts values = window (bitAt b.bytes) b.position counts.sum := by
  induction counts generalizing b with
  | nil => exact ⟨[], b, rfl, .nil, rfl, rfl, rfl⟩
  | cons n rest ih =>
    have hn : n ≤ b.remainingBitCount := by
      rw [List.sum_cons] at hroom
      omega
    obtain ⟨v, c, hread, hholds, hbytes, hposition⟩ := readBits_ok hn (hcounts n (by simp))
    have hleft : rest.sum ≤ c.remainingBitCount := by
      have hb := b.position_add_remaining
      have hc := c.position_add_remaining
      rw [hbytes] at hc
      rw [List.sum_cons] at hroom
      omega
    obtain ⟨values, d, hrest, hfit, hbytes', hposition', hbits⟩ := ih (fun n hn => hcounts n (by simp [hn])) hleft
    refine ⟨v :: values, d, by simp [readAll, hread, hrest], .cons hholds.lt hfit, by rw [hbytes', hbytes], ?_, ?_⟩
    · rw [hposition', hposition, List.sum_cons, Nat.add_assoc]
    · rw [hbytes, hposition] at hbits
      rw [List.sum_cons, window_append, ← hholds.ofNat_eq, ← hbits]
      rfl

/-! ## Golomb numbers -/

theorem countBitsLoop_bounds {fuel v : Nat} (hv : v < 2 ^ fuel) :
    v < 2 ^ countBitsLoop fuel v ∧ (0 < v → 2 ^ countBitsLoop fuel v ≤ 2 * v) := by
  induction fuel generalizing v with
  | zero => simp_all [countBitsLoop]
  | succ fuel ih =>
    by_cases hzero : v = 0
    · simp [countBitsLoop, hzero]
    · obtain ⟨hlt, hle⟩ := ih (v := v / 2) (by rw [Nat.pow_succ] at hv; omega)
      simp only [countBitsLoop, hzero, if_false, Nat.shiftRight_one, Nat.pow_succ]
      refine ⟨by omega, fun _ => ?_⟩
      by_cases hhalf : v / 2 = 0
      · have hnone : countBitsLoop fuel (v / 2) = 0 := by
          rw [hhalf]
          cases fuel <;> simp [countBitsLoop]
        rw [hnone]
        omega
      · have := hle (by omega)
        omega

theorem countBits_eq {v : Nat} (hpos : 0 < v) (hv : v < 2 ^ 64) : countBits v = v.log2 + 1 := by
  obtain ⟨hlt, hle⟩ := countBitsLoop_bounds hv
  have hzero : v ≠ 0 := Nat.ne_of_gt hpos
  have hup : v.log2 < countBits v := (Nat.log2_lt hzero).2 hlt
  have hdown : 2 ^ (countBits v - 1) ≤ v := by
    have h := hle hpos
    rw [← countBits, show countBits v = countBits v - 1 + 1 by omega, Nat.pow_succ] at h
    omega
  have := (Nat.le_log2 hzero).2 hdown
  omega

/-- The bits of the code of `v`: as many zeros as `v + 1` has bits behind its first one, and `v + 1`. -/
def golombBits (v : Nat) : Nat := 2 * (v + 1).log2 + 1

theorem writeExponentialGolomb_eq {v : UInt32} (hv : v.toNat < 2 ^ 32 - 1) (b : BitBuffer) :
    b.writeExponentialGolomb v = b.writeBits (v.toUInt64 + 1) (golombBits v.toNat) := by
  have hencode : (v.toUInt64 + 1).toNat = v.toNat + 1 := by
    rw [UInt64.toNat_add, UInt32.toNat_toUInt64]
    exact Nat.mod_eq_of_lt (by have : (1 : UInt64).toNat = 1 := rfl; omega)
  have hcount : countBits (v.toNat + 1) * 2 - 1 = golombBits v.toNat := by
    rw [countBits_eq (by omega) (by omega), golombBits]
    omega
  rw [writeExponentialGolomb, if_neg (Nat.ne_of_lt hv)]
  simp only [hencode, hcount]

theorem golombBits_le {v : Nat} (hv : v < 2 ^ 32 - 1) : golombBits v ≤ 63 := by
  have : (v + 1).log2 < 32 := (Nat.log2_lt (by omega)).2 (by omega)
  unfold golombBits
  omega

/-- A number is written if and only if it is not the greatest and there is room for its code. -/
theorem writeExponentialGolomb_ok_iff (b : BitBuffer) (v : UInt32) :
    (b.writeExponentialGolomb v).1 = true ↔ v.toNat < 2 ^ 32 - 1 ∧ golombBits v.toNat ≤ b.remainingBitCount := by
  by_cases hv : v.toNat < 2 ^ 32 - 1
  · have hbits := golombBits_le hv
    rw [writeExponentialGolomb_eq hv, and_iff_right hv]
    exact ⟨writeBits_room, fun hroom => (writeBits_ok (by unfold golombBits; omega) (by omega) hroom).1⟩
  · have hmax : v.toNat = 2 ^ 32 - 1 := by have := v.toNat_lt; omega
    rw [writeExponentialGolomb, if_pos hmax]
    exact iff_of_false Bool.false_ne_true fun h => hv h.1

theorem peekBit {b : BitBuffer} {v : Nat} (h : b.peekBits true 1 = some v) :
    v = (bitAt b.bytes b.position).toNat := by
  have hholds := peekBits_holds h
  have hlt := hholds.lt
  have hbit := hholds 0
  simp only [Nat.lt_one_iff, decide_true, Bool.true_and, Nat.add_sub_cancel, Nat.sub_zero] at hbit
  rw [← hbit, Nat.testBit_zero]
  rcases (show v = 0 ∨ v = 1 by omega) with rfl | rfl <;> rfl

theorem consumeBits_remaining {b : BitBuffer} {n : Nat} (h : n ≤ b.remainingBitCount) :
    (b.consumeBits n).2.remainingBitCount = b.remainingBitCount - n := by
  obtain ⟨-, hbytes, hposition⟩ := consumeBits_ok h
  have hb := b.position_add_remaining
  have hc := (b.consumeBits n).2.position_add_remaining
  rw [hbytes, hposition] at hc
  omega

/-- The loop stops in front of the first one, or at the end of the buffer. -/
theorem countZeros_spec {fuel : Nat} {b : BitBuffer} (hfuel : b.remainingBitCount ≤ fuel) :
    (countZeros fuel b).2.bytes = b.bytes ∧ (countZeros fuel b).2.position = b.position + (countZeros fuel b).1 ∧
      (∀ i < (countZeros fuel b).1, bitAt b.bytes (b.position + i) = false) ∧
      ((countZeros fuel b).2.remainingBitCount = 0 ∨
        bitAt b.bytes (b.position + (countZeros fuel b).1) = true) := by
  induction fuel generalizing b with
  | zero => exact ⟨rfl, rfl, by simp [countZeros], .inl (by simpa [countZeros] using hfuel)⟩
  | succ fuel ih =>
    by_cases hzero : b.peekBits true 1 = some 0
    · obtain ⟨-, hone, -⟩ := peekBits_isSome.1 (Option.isSome_of_eq_some hzero)
      obtain ⟨-, hbytes, hposition⟩ := consumeBits_ok hone
      obtain ⟨hbytes', hposition', hzeros, hend⟩ := ih (b := (b.consumeBits 1).2)
        (by rw [consumeBits_remaining hone]; omega)
      have hfirst : bitAt b.bytes b.position = false := by simpa using (peekBit hzero).symm
      rw [hbytes, hposition] at hzeros hend
      simp only [countZeros, hzero, if_true]
      refine ⟨by rw [hbytes', hbytes], by rw [hposition', hposition]; omega, fun i hi => ?_, ?_⟩
      · cases i with
        | zero => exact hfirst
        | succ i =>
          rw [show b.position + (i + 1) = b.position + 1 + i by omega]
          exact hzeros i (by omega)
      · rwa [show b.position + 1 + (countZeros fuel (b.consumeBits 1).2).1 =
          b.position + ((countZeros fuel (b.consumeBits 1).2).1 + 1) by omega] at hend
    · simp only [countZeros, hzero, if_false]
      refine ⟨trivial, rfl, by simp, ?_⟩
      rcases Nat.eq_zero_or_pos b.remainingBitCount with hnone | hsome
      · exact .inl hnone
      · obtain ⟨v, hv⟩ := Option.isSome_iff_exists.1 (peekBits_isSome.2 ⟨rfl, hsome, by decide⟩)
        refine .inr ?_
        by_contra hbit
        have hv0 := peekBit hv
        simp only [Nat.add_zero, Bool.not_eq_true] at hbit
        rw [hbit] at hv0
        rw [hv, hv0] at hzero
        exact hzero rfl

/-- After the loop the next bit is a one, or there is none: the assertion in the code. -/
theorem countZeros_asserted {b : BitBuffer} {bit : Nat}
    (h : (countZeros b.remainingBitCount b).2.peekBits true 1 = some bit) : bit = 1 := by
  obtain ⟨hbytes, hposition, -, hend⟩ := countZeros_spec (Nat.le_refl b.remainingBitCount)
  rcases hend with hend | hend
  · obtain ⟨-, hone, -⟩ := peekBits_isSome.1 (Option.isSome_of_eq_some h)
    omega
  · rw [peekBit h, hbytes, hposition, hend]
    rfl

/-- A parse that fails goes back to where it began, and the check that it can do so holds. -/
theorem readExponentialGolomb_failed (b : BitBuffer) (val : Bool) :
    ∃ r, b.readExponentialGolomb val = some r ∧ (r.1 = none → r.2 = b) := by
  cases val with
  | false => exact ⟨(none, b), rfl, fun _ => rfl⟩
  | true =>
    obtain ⟨hbytes, -, -, -⟩ := countZeros_spec (Nat.le_refl b.remainingBitCount)
    have hback : ∀ c : BitBuffer, c.bytes = b.bytes → c.seek b.byteOffset b.bitOffset = (true, b) := by
      intro c hc
      obtain ⟨hok, hsame, hpos⟩ := seek_back (b := b) (c := c) (by rw [hc])
      exact Prod.ext hok (ext_position (hsame.trans hc) hpos)
    simp only [readExponentialGolomb, Bool.not_true, Bool.false_eq_true, if_false]
    split
    · exact ⟨(none, b), by simp [hback _ hbytes], fun _ => rfl⟩
    · split
      · rename_i c hread
        have hc : c = (countZeros b.remainingBitCount b).2 := by
          have := readBits_failed (congrArg Prod.fst hread)
          rw [hread] at this
          exact this
        exact ⟨(none, b), by simp [hback c (by rw [hc, hbytes])], fun _ => rfl⟩
      · rename_i v c hread
        exact ⟨_, rfl, fun h => by cases h⟩

/-- Zeros, and then a number with as many bits behind its first one. -/
theorem readExponentialGolomb_ok {b : BitBuffer} {z x : Nat} (hz : z < 32)
    (hroom : 2 * z + 1 ≤ b.remainingBitCount) (hx : 0 < x)
    (hzeros : ∀ i < z, bitAt b.bytes (b.position + i) = false) (hone : bitAt b.bytes (b.position + z) = true)
    (hvalue : Holds (bitAt b.bytes) (b.position + z) (z + 1) x) :
    ∃ c, b.readExponentialGolomb true = some (some (x - 1), c) ∧ c.bytes = b.bytes ∧
      c.position = b.position + (2 * z + 1) := by
  obtain ⟨hbytes, hposition, hzeros', hend⟩ := countZeros_spec (Nat.le_refl b.remainingBitCount)
  have hb := b.position_add_remaining
  have hc := (countZeros b.remainingBitCount b).2.position_add_remaining
  rw [hbytes, hposition] at hc
  have hcount : (countZeros b.remainingBitCount b).1 = z := by
    rcases Nat.lt_trichotomy (countZeros b.remainingBitCount b).1 z with hlt | heq | hgt
    · rcases hend with hend | hend
      · omega
      · rw [hzeros _ hlt] at hend
        cases hend
    · exact heq
    · rw [hzeros' z hgt] at hone
      cases hone
  rw [hcount] at hposition hc
  obtain ⟨v, c, hread, hholds, hbytes', hposition'⟩ := readBits_ok (b := (countZeros b.remainingBitCount b).2)
    (n := z + 1) (by omega) (by omega)
  rw [hbytes, hposition] at hholds
  have hv : v = x := hholds.eq hvalue
  have hlt : x < 2 ^ 32 := Nat.lt_of_lt_of_le hvalue.lt (Nat.pow_le_pow_right (by decide) (by omega))
  have hless : (v + 2 ^ 32 - 1) % 2 ^ 32 = x - 1 := by omega
  refine ⟨c, ?_, by rw [hbytes', hbytes], by omega⟩
  simp only [readExponentialGolomb, Bool.not_true, Bool.false_eq_true, if_false, hcount,
    show ¬32 < z + 1 by omega, hread, hless]

/-- Where the next write has put a number with its zeros in front, the number is read. -/
theorem readExponentialGolomb_written {b : BitBuffer} {v : UInt32} (hv : v.toNat < 2 ^ 32 - 1)
    (hwritten : golombBits v.toNat ≤ b.remainingBitCount) :
    ((b.writeExponentialGolomb v).2.seek b.byteOffset b.bitOffset).1 = true ∧
      ((b.writeExponentialGolomb v).2.seek b.byteOffset b.bitOffset).2.readExponentialGolomb true =
        some (some v.toNat, (b.writeExponentialGolomb v).2) := by
  have hencode : (v.toUInt64 + 1).toNat = v.toNat + 1 := by
    rw [UInt64.toNat_add, UInt32.toNat_toUInt64]
    exact Nat.mod_eq_of_lt (by have : (1 : UInt64).toNat = 1 := rfl; omega)
  obtain ⟨z, hz⟩ : ∃ z, (v.toNat + 1).log2 = z := ⟨_, rfl⟩
  have hlt : v.toNat + 1 < 2 ^ (z + 1) := (Nat.log2_lt (by omega)).1 (by omega)
  have hge : 2 ^ z ≤ v.toNat + 1 := (Nat.le_log2 (by omega)).1 (by omega)
  have hz32 : z < 32 := (Nat.pow_lt_pow_iff_right (by decide : 1 < 2)).1 (by omega)
  rw [writeExponentialGolomb_eq hv]
  rw [golombBits, hz] at hwritten ⊢
  obtain ⟨-, hbits, hlength, hposition⟩ := writeBits_ok (v := v.toUInt64 + 1) (n := 2 * z + 1) (by omega) (by omega)
    hwritten
  rw [hencode] at hbits
  obtain ⟨hok, hsame, hback⟩ := seek_back (b := b) hlength
  have hroom : 2 * z + 1 ≤ ((b.writeBits (v.toUInt64 + 1) (2 * z + 1)).2.seek b.byteOffset
      b.bitOffset).2.remainingBitCount := by
    have hend := (b.writeBits (v.toUInt64 + 1) (2 * z + 1)).2.position_add_remaining
    have hstart := ((b.writeBits (v.toUInt64 + 1) (2 * z + 1)).2.seek b.byteOffset
      b.bitOffset).2.position_add_remaining
    rw [hsame, hback] at hstart
    omega
  -- a bit of the number stands as far from the end as its place in the number says
  have hbit : ∀ i < 2 * z + 1, put (bitAt b.bytes) b.position (2 * z + 1) (v.toNat + 1) (b.position + i) =
      (v.toNat + 1).testBit (2 * z - i) := by
    intro i hi
    rw [put, if_pos (by omega), show b.position + (2 * z + 1) - 1 - (b.position + i) = 2 * z - i by omega]
  obtain ⟨d, hread, hbytes, hpos⟩ := readExponentialGolomb_ok (x := v.toNat + 1) hz32 hroom (by omega)
    (by
      intro i hi
      rw [hsame, hback, hbits, hbit i (by omega)]
      exact Nat.testBit_lt_two_pow (Nat.lt_of_lt_of_le hlt (Nat.pow_le_pow_right (by decide) (by omega))))
    (by
      rw [hsame, hback, hbits, hbit z (by omega), show 2 * z - z = z by omega]
      exact Nat.testBit_of_two_pow_le_and_two_pow_add_one_gt hge hlt)
    (by
      intro j
      rw [hsame, hback, hbits]
      by_cases hj : j < z + 1
      · rw [show b.position + z + (z + 1) - 1 - j = b.position + (2 * z - j) by omega, hbit _ (by omega)]
        simp [hj, show 2 * z - (2 * z - j) = j by omega]
      · simp only [hj, decide_false, Bool.false_and]
        exact Nat.testBit_lt_two_pow (Nat.lt_of_lt_of_le hlt (Nat.pow_le_pow_right (by decide) (by omega))))
  have hd : d = (b.writeBits (v.toUInt64 + 1) (2 * z + 1)).2 :=
    ext_position (hbytes.trans hsame) (by rw [hpos, hback, hposition])
  exact ⟨hok, hd ▸ hread⟩

/-! ## The buffer as a whole -/

/-- Writes return true exactly as long as there is room, and what they have written is read back. -/
theorem bitBuffer_exact (b : BitBuffer) :
    (∀ writes, (∀ w ∈ writes, 1 ≤ w.2 ∧ w.2 ≤ 64) →
      ((b.writeAll writes).isSome ↔ bitCount writes ≤ b.remainingBitCount)) ∧
    (∀ writes c, (∀ w ∈ writes, 1 ≤ w.2 ∧ w.2 ≤ 64) → b.writeAll writes = some c →
      c.bytes.length = b.bytes.length ∧ c.position = b.position + bitCount writes ∧
      (∀ i, ¬(b.position ≤ i ∧ i < c.position) → bitAt c.bytes i = bitAt b.bytes i) ∧
      (c.seek b.byteOffset b.bitOffset).1 = true ∧
      ∀ counts, (∀ n ∈ counts, 1 ≤ n ∧ n ≤ 32) → counts.sum = bitCount writes →
        ∃ values, (c.seek b.byteOffset b.bitOffset).2.readAll counts = some (values, c) ∧
          List.Forall₂ (fun n v => v < 2 ^ n) counts values ∧ bitsRead counts values = bitString writes) ∧
    (∀ val n, (b.readBits val n).1 = none → (b.readBits val n).2 = b) ∧
    (∀ v n, (b.writeBits v n).1 = false → (b.writeBits v n).2 = b) ∧
    (∀ v, (b.writeExponentialGolomb v).1 = false → (b.writeExponentialGolomb v).2 = b) ∧
    (∀ v, (b.writeExponentialGolomb v).1 = true ↔
      v.toNat < 2 ^ 32 - 1 ∧ golombBits v.toNat ≤ b.remainingBitCount) ∧
    (∀ v, v.toNat < 2 ^ 32 - 1 → golombBits v.toNat ≤ b.remainingBitCount →
      ((b.writeExponentialGolomb v).2.seek b.byteOffset b.bitOffset).1 = true ∧
      ((b.writeExponentialGolomb v).2.seek b.byteOffset b.bitOffset).2.readExponentialGolomb true =
        some (some v.toNat, (b.writeExponentialGolomb v).2)) ∧
    ∀ val, ∃ r, b.readExponentialGolomb val = some r ∧ (r.1 = none → r.2 = b) := by
  refine ⟨fun _ => writeAll_isSome, fun writes c hcounts h => ?_, fun _ _ => readBits_failed,
    fun _ _ => writeBits_failed, fun _ => writeExponentialGolomb_failed, b.writeExponentialGolomb_ok_iff,
    fun _ => readExponentialGolomb_written, b.readExponentialGolomb_failed⟩
  obtain ⟨hlength, hposition, hframe, hwindow⟩ := writeAll_spec hcounts h
  obtain ⟨hok, hsame, hback⟩ := seek_back (b := b) hlength
  refine ⟨hlength, hposition, hframe, hok, fun counts hpieces hsum => ?_⟩
  have hroom : counts.sum ≤ (c.seek b.byteOffset b.bitOffset).2.remainingBitCount := by
    have hend := c.position_add_remaining
    have hstart := (c.seek b.byteOffset b.bitOffset).2.position_add_remaining
    rw [hsame, hback] at hstart
    omega
  obtain ⟨values, d, hread, hfit, hbytes, hpos, hbits⟩ := readAll_spec (fun n hn => (hpieces n hn).2) hroom
  have hd : d = c := ext_position (hbytes.trans hsame) (by rw [hpos, hback, hposition, hsum])
  rw [hsame, hback, hsum, hwindow] at hbits
  exact ⟨values, hd ▸ hread, hfit, hbits⟩

/-- From bit 3 of four bytes on: two values in pieces, and the code of 1000 with its 19 bits. -/
theorem bitBuffer_exact_four_bytes :
    let b := ((BitBuffer.ofBytes [0xff, 0xff, 0xff, 0xff]).seek 0 3).2
    (∃ c values, b.writeAll [(5, 3), (0x2bc, 10)] = some c ∧
      (c.seek 0 3).2.readAll [1, 12] = some (values, c) ∧
      bitsRead [1, 12] values = bitString [(5, 3), (0x2bc, 10)]) ∧
    (b.writeExponentialGolomb 1000).1 = true ∧
    ((b.writeExponentialGolomb 1000).2.seek 0 3).2.readExponentialGolomb true =
      some (some 1000, (b.writeExponentialGolomb 1000).2) := by
  intro b
  obtain ⟨hroom, hback, -, -, -, hgolomb, hread, -⟩ := bitBuffer_exact b
  obtain ⟨c, hc⟩ := Option.isSome_iff_exists.1 ((hroom [(5, 3), (0x2bc, 10)] (by decide)).2 (by decide))
  obtain ⟨-, -, -, -, hpieces⟩ := hback _ c (by decide) hc
  obtain ⟨values, hvalues, -, hbits⟩ := hpieces [1, 12] (by decide) (by decide)
  have hlt : (1000 : UInt32).toNat < 2 ^ 32 - 1 := by decide
  have hfits : golombBits (1000 : UInt32).toNat ≤ b.remainingBitCount := by decide
  exact ⟨⟨c, values, hc, hvalues, hbits⟩, (hgolomb 1000).2 ⟨hlt, hfits⟩, (hread 1000 hlt hfits).2⟩

end BitBuffer
end WebRtc.Base
