import Mathlib.Data.Nat.Bitwise
import Mathlib.Logic.Function.Basic
import WebRtc.Fec.Packet

/-!
# Columns of the FEC masks (`forward_error_correction.cc:293-386`)

| here | there |
| --- | --- |
| `copyRow`, `copyColumn` | `CopyColumn` (:371), and the body of its loop |
| `insertZeroColumns`     | `InsertZeroColumns` (:360) |
| `columns`               | the loop over the media packets of `InsertZerosInBitMasks` (:328) |
| `finishByte`            | the shift of a last byte that is not filled (:347) |
| `insertZerosInBitMasks` | `InsertZerosInBitMasks` (:293) |

A mask has a row for each FEC packet, of 2 or of 6 bytes. The functions have no result where the code
writes to a byte behind the row it is working on. A byte of the new mask is filled from below, so until it
is full its columns stand one place above a free bit (`Filled`).
-/

namespace WebRtc.Fec

abbrev Mask := Nat → UInt8

/-- The rows of a mask, one after the other. -/
def eachRow {σ : Type} (f : σ → Nat → σ) (s : σ) (numFecPackets : Nat) : σ := (List.range numFecPackets).foldl f s

/-- The column of one row, shifted in at one mask and out of the other. -/
def copyRow (newMaskBytes oldMaskBytes newBitIndex oldBitIndex : Nat) (m : Mask × Mask) (row : Nat) : Mask × Mask :=
  let newByteIndex := row * newMaskBytes + newBitIndex / 8
  let oldByteIndex := row * oldMaskBytes + oldBitIndex / 8
  let b := m.1 newByteIndex ||| ((m.2 oldByteIndex &&& 0x80) >>> 7)
  (Function.update m.1 newByteIndex (if newBitIndex % 8 ≠ 7 then b <<< 1 else b),
    Function.update m.2 oldByteIndex (m.2 oldByteIndex <<< 1))

def copyColumn (newMask : Mask) (newMaskBytes : Nat) (oldMask : Mask)
    (oldMaskBytes numFecPackets newBitIndex oldBitIndex : Nat) :
    Option (Mask × Mask) :=
  if numFecPackets = 0 ∨ newBitIndex / 8 < newMaskBytes ∧ oldBitIndex / 8 < oldMaskBytes then
    some (eachRow (copyRow newMaskBytes oldMaskBytes newBitIndex oldBitIndex) (newMask, oldMask) numFecPackets)
  else none

def shiftRow (newMaskBytes newBitIndex shifts : Nat) (m : Mask) (row : Nat) : Mask :=
  let newByteIndex := row * newMaskBytes + newBitIndex / 8
  Function.update m newByteIndex (m newByteIndex <<< UInt8.ofNat shifts)

/-- A byte of every row, shifted. -/
def shiftByte (newMask : Mask) (newMaskBytes numFecPackets newBitIndex shifts : Nat) : Option Mask :=
  if numFecPackets = 0 ∨ newBitIndex / 8 < newMaskBytes then
    some (eachRow (shiftRow newMaskBytes newBitIndex shifts) newMask numFecPackets)
  else none

def insertZeroColumns (numZeros : Nat) (newMask : Mask) (newMaskBytes numFecPackets newBitIndex : Nat) : Option Mask :=
  shiftByte newMask newMaskBytes numFecPackets newBitIndex (min numZeros (7 - newBitIndex % 8))

/-- Over the sequence numbers left. -/
def columns (newMaskBytes oldMaskBytes numFecPackets : Nat) :
    List UInt16 → (prevSeqNum : UInt16) → (newBitIndex oldBitIndex : Nat) → Mask × Mask → Option (Nat × Mask × Mask)
  | [], _, newBitIndex, _, m => some (newBitIndex, m)
  | seqNum :: rest, prevSeqNum, newBitIndex, oldBitIndex, m =>
    -- We can only cover up to 48 packets.
    if newBitIndex = 8 * maskSize true then some (newBitIndex, m)
    else do
      let zerosToInsert := (seqNum - prevSeqNum - 1).toNat
      let inserted := if zerosToInsert > 0 then
          insertZeroColumns zerosToInsert m.1 newMaskBytes numFecPackets newBitIndex
        else some m.1
      let newMask ← inserted
      let m ← copyColumn newMask newMaskBytes m.2 oldMaskBytes numFecPackets (newBitIndex + zerosToInsert) oldBitIndex
      columns newMaskBytes oldMaskBytes numFecPackets rest seqNum (newBitIndex + zerosToInsert + 1) (oldBitIndex + 1) m

def finishByte (newMask : Mask) (newMaskBytes numFecPackets newBitIndex : Nat) : Option Mask :=
  if newBitIndex % 8 ≠ 0 then shiftByte newMask newMaskBytes numFecPackets newBitIndex (7 - newBitIndex % 8)
  else some newMask

/-- The number of bits that is returned, and the mask. -/
def insertZerosInBitMasks (mediaPackets : List Packet) (packetMask : Mask) (numMaskBytes numFecPackets : Nat) :
    Option (Nat × Mask) :=
  match mediaPackets.map fun p => parseSequenceNumber p.data with
  | [] => some (0, packetMask)
  | [_] => some (1, packetMask)
  | first :: rest =>
    let size := rest.length + 1
    let last := rest.getLast?.getD first
    let totalMissingSeqNums : Int := ((last - first).toNat : Int) - size + 1
    if totalMissingSeqNums = 0 then some (size, packetMask)
    else do
      let newMaskBytes := maskSize ((size : Int) + totalMissingSeqNums > 8 * maskSize false)
      let m ← copyColumn (fun _ => 0) newMaskBytes packetMask numMaskBytes numFecPackets 0 0
      let (newBitIndex, m) ← columns newMaskBytes numMaskBytes numFecPackets rest first 1 1 m
      let newMask ← finishByte m.1 newMaskBytes numFecPackets newBitIndex
      some (newBitIndex, fun k => if k < maskSize true * numFecPackets then newMask k else m.2 k)

/-! ## Rows -/

/-- Bit `k` of row `i`; a row has no bits behind its bytes. -/
def maskRowBit (mask : Mask) (bytes i k : Nat) : Bool := decide (k < 8 * bytes) && maskBit mask (i * bytes) k

theorem row_inj {bytes i j b c : Nat} (hb : b < bytes) (hc : c < bytes) (h : i * bytes + b = j * bytes + c) :
    i = j ∧ b = c := by
  have hi : (i * bytes + b) / bytes = i := by
    rw [Nat.mul_comm, Nat.mul_add_div (by omega), Nat.div_eq_of_lt hb, Nat.add_zero]
  have hj : (j * bytes + c) / bytes = j := by
    rw [Nat.mul_comm, Nat.mul_add_div (by omega), Nat.div_eq_of_lt hc, Nat.add_zero]
  have hij : i = j := by rw [← hi, ← hj, h]
  subst hij
  exact ⟨rfl, by omega⟩

theorem eachRow_succ {σ : Type} (f : σ → Nat → σ) (s : σ) (n : Nat) : eachRow f s (n + 1) = f (eachRow f s n) n := by
  rw [eachRow, List.range_succ, List.foldl_append]
  rfl

/-- A byte of each of the first `n` rows is shifted, and no other byte is written. -/
theorem shiftByte_spec (mask : Mask) (n shifts : Nat) {bytes c : Nat} (hc : c / 8 < bytes) :
    ∃ mask', shiftByte mask bytes n c shifts = some mask' ∧ ∀ i b, b < bytes →
      mask' (i * bytes + b) = if i < n ∧ b = c / 8 then mask (i * bytes + b) <<< UInt8.ofNat shifts
          else mask (i * bytes + b) := by
  refine ⟨_, if_pos (.inr hc), ?_⟩
  induction n with
  | zero =>
    intro i b hb
    rw [if_neg (by omega)]
    rfl
  | succ n ih =>
    intro i b hb
    rw [eachRow_succ, shiftRow]
    by_cases hat : i = n ∧ b = c / 8
    · obtain ⟨rfl, rfl⟩ := hat
      rw [Function.update_self, ih i _ hb, if_neg (by omega), if_pos ⟨by omega, rfl⟩]
    · have hne : i * bytes + b ≠ n * bytes + c / 8 := fun h => hat (row_inj hb hc h)
      rw [Function.update_of_ne hne, ih i b hb]
      by_cases hin : i < n ∧ b = c / 8
      · rw [if_pos hin, if_pos ⟨by omega, hin.2⟩]
      · rw [if_neg hin, if_neg (by omega)]

/-- The byte a column is copied to, and the byte it is copied from. -/
def copied (new old : UInt8) (c : Nat) : UInt8 :=
  let b := new ||| ((old &&& 0x80) >>> 7)
  if c % 8 ≠ 7 then b <<< 1 else b

theorem copyColumn_spec (new old : Mask) (n : Nat) {bytes oldBytes c j : Nat} (hc : c / 8 < bytes)
    (hj : j / 8 < oldBytes) :
    ∃ new' old', copyColumn new bytes old oldBytes n c j = some (new', old') ∧
      (∀ i b, b < bytes → new' (i * bytes + b) =
        if i < n ∧ b = c / 8 then copied (new (i * bytes + b)) (old (i * oldBytes + j / 8)) c
          else new (i * bytes + b)) ∧
      ∀ i b, b < oldBytes → old' (i * oldBytes + b) =
        if i < n ∧ b = j / 8 then old (i * oldBytes + b) <<< 1 else old (i * oldBytes + b) := by
  refine ⟨(eachRow (copyRow bytes oldBytes c j) (new, old) n).1, (eachRow (copyRow bytes oldBytes c j) (new, old) n).2,
    if_pos (.inr ⟨hc, hj⟩), ?_⟩
  induction n with
  | zero =>
    constructor
    · intro i b hb
      rw [if_neg (by omega)]
      rfl
    · intro i b hb
      rw [if_neg (by omega)]
      rfl
  | succ n ih =>
    rw [eachRow_succ, copyRow]
    obtain ⟨ihnew, ihold⟩ := ih
    constructor
    · intro i b hb
      dsimp only
      by_cases hat : i = n ∧ b = c / 8
      · obtain ⟨rfl, rfl⟩ := hat
        have hnew : (eachRow (copyRow bytes oldBytes c j) (new, old) i).1 (i * bytes + c / 8) =
            new (i * bytes + c / 8) := by
          rw [ihnew i _ hb, if_neg (by omega)]
        have hold : (eachRow (copyRow bytes oldBytes c j) (new, old) i).2 (i * oldBytes + j / 8) =
            old (i * oldBytes + j / 8) := by
          rw [ihold i _ hj, if_neg (by omega)]
        have hin : i < i + 1 ∧ c / 8 = c / 8 := ⟨by omega, rfl⟩
        rw [Function.update_self, hnew, hold, if_pos hin]
        rfl
      · have hne : i * bytes + b ≠ n * bytes + c / 8 := fun h => hat (row_inj hb hc h)
        rw [Function.update_of_ne hne, ihnew i b hb]
        by_cases hin : i < n ∧ b = c / 8
        · rw [if_pos hin, if_pos ⟨by omega, hin.2⟩]
        · rw [if_neg hin, if_neg (by omega)]
    · intro i b hb
      dsimp only
      by_cases hat : i = n ∧ b = j / 8
      · obtain ⟨rfl, rfl⟩ := hat
        rw [Function.update_self, ihold i _ hb, if_neg (by omega), if_pos ⟨by omega, rfl⟩]
      · have hne : i * oldBytes + b ≠ n * oldBytes + j / 8 := fun h => hat (row_inj hb hj h)
        rw [Function.update_of_ne hne, ihold i b hb]
        by_cases hin : i < n ∧ b = j / 8
        · rw [if_pos hin, if_pos ⟨by omega, hin.2⟩]
        · rw [if_neg hin, if_neg (by omega)]

/-! ## One row -/

theorem testBit_shift (x : UInt8) {s : Nat} (hs : s < 8) (p : Nat) :
    (x <<< UInt8.ofNat s).toNat.testBit p = (decide (s ≤ p ∧ p < 8) && x.toNat.testBit (p - s)) := by
  have hs8 : (UInt8.ofNat s).toNat % 8 = s := by
    rw [UInt8.toNat_ofNat']
    omega
  rw [UInt8.toNat_shiftLeft, hs8, Nat.testBit_mod_two_pow, Nat.testBit_shiftLeft]
  by_cases h1 : p < 8
  · simp [h1]
  · simp [h1]

theorem testBit_top (old : UInt8) (p : Nat) :
    ((old &&& 0x80) >>> 7).toNat.testBit p = (decide (p = 0) && old.toNat.testBit 7) := by
  have hand : ((old &&& 0x80) >>> 7).toNat = (old.toNat &&& 128) >>> 7 := by
    rw [UInt8.toNat_shiftRight, UInt8.toNat_and]
    rfl
  rw [hand, Nat.testBit_shiftRight, Nat.testBit_and, show (128 : Nat) = 2 ^ 7 from rfl, Nat.testBit_two_pow]
  by_cases hp : p = 0
  · subst hp
    simp
  · simp [hp]

/-- The first `c` columns of a row are those of `col`: the bytes before the one that is being filled are full,
it holds its columns above a free bit, and nothing is written behind it. -/
structure Filled (bytes c : Nat) (row : Nat → UInt8) (col : Nat → Bool) : Prop where
  full : ∀ b < c / 8, b < bytes → ∀ r < 8, (row b).toNat.testBit (7 - r) = col (8 * b + r)
  partly : c / 8 < bytes → ∀ p, (row (c / 8)).toNat.testBit p = (decide (1 ≤ p ∧ p ≤ c % 8) &&
    col (8 * (c / 8) + c % 8 - p))
  empty : ∀ b, c / 8 < b → b < bytes → row b = 0

theorem Filled.start (bytes : Nat) (col : Nat → Bool) : Filled bytes 0 (fun _ => 0) col where
  full := fun b hb => by omega
  partly := fun _ p => by
    have hp : ¬ (1 ≤ p ∧ p ≤ 0 % 8) := by omega
    rw [decide_eq_false hp, Bool.false_and]
    exact Nat.zero_testBit p
  empty := fun _ _ _ => rfl

/-- Zeros for missing packets, which may end in a later byte. -/
theorem Filled.zeros {bytes c z : Nat} {row row' : Nat → UInt8} {col : Nat → Bool} (h : Filled bytes c row col)
    (hc : c / 8 < bytes) (hcol : ∀ q, c ≤ q → q < c + z → col q = false)
    (hrow : ∀ b < bytes, row' b = if b = c / 8 then row b <<< UInt8.ofNat (min z (7 - c % 8)) else row b) :
    Filled bytes (c + z) row' col := by
  have hother : ∀ b < bytes, b ≠ c / 8 → row' b = row b := fun b hb hne => by rw [hrow b hb, if_neg hne]
  have hthis : ∀ p, (row' (c / 8)).toNat.testBit p = (decide (min z (7 - c % 8) ≤ p ∧ p < 8) &&
      (decide (1 ≤ p - min z (7 - c % 8) ∧ p - min z (7 - c % 8) ≤ c % 8) &&
        col (8 * (c / 8) + c % 8 - (p - min z (7 - c % 8))))) := by
    intro p
    rw [hrow _ hc, if_pos rfl, testBit_shift _ (by omega), h.partly hc]
  refine ⟨?_, ?_, ?_⟩
  · intro b hb hbytes r hr
    by_cases hbefore : b < c / 8
    · rw [hother b hbytes (by omega), h.full b hbefore hbytes r hr]
    · by_cases hat : b = c / 8
      · subst hat
        have hs : min z (7 - c % 8) = 7 - c % 8 := by omega
        rw [hthis, hs]
        by_cases hr' : r < c % 8
        · have hindex : 8 * (c / 8) + c % 8 - (7 - r - (7 - c % 8)) = 8 * (c / 8) + r := by omega
          have h1 : 7 - c % 8 ≤ 7 - r ∧ 7 - r < 8 := by omega
          have h2 : 1 ≤ 7 - r - (7 - c % 8) ∧ 7 - r - (7 - c % 8) ≤ c % 8 := by omega
          rw [hindex, decide_eq_true h1, decide_eq_true h2, Bool.true_and, Bool.true_and]
        · have h2 : ¬ (1 ≤ 7 - r - (7 - c % 8) ∧ 7 - r - (7 - c % 8) ≤ c % 8) := by omega
          rw [decide_eq_false h2, Bool.false_and, Bool.and_false, hcol _ (by omega) (by omega)]
      · rw [hother b hbytes hat, h.empty b (by omega) hbytes, hcol _ (by omega) (by omega)]
        exact Nat.zero_testBit _
  · intro hbytes p
    by_cases hat : (c + z) / 8 = c / 8
    · have hs : min z (7 - c % 8) = z := by omega
      have hmod : (c + z) % 8 = c % 8 + z := by omega
      rw [hat, hthis, hs, hmod]
      by_cases hp : z < p ∧ p ≤ c % 8 + z
      · have hindex : 8 * (c / 8) + c % 8 - (p - z) = 8 * (c / 8) + (c % 8 + z) - p := by omega
        have h1 : z ≤ p ∧ p < 8 := by omega
        have h2 : 1 ≤ p - z ∧ p - z ≤ c % 8 := by omega
        have h3 : 1 ≤ p ∧ p ≤ c % 8 + z := by omega
        rw [hindex, decide_eq_true h1, decide_eq_true h2, decide_eq_true h3, Bool.true_and, Bool.true_and]
      · have h2 : ¬ (1 ≤ p - z ∧ p - z ≤ c % 8) := by omega
        rw [decide_eq_false h2, Bool.false_and, Bool.and_false]
        by_cases h3 : 1 ≤ p ∧ p ≤ c % 8 + z
        · rw [hcol _ (by omega) (by omega), Bool.and_false]
        · rw [decide_eq_false h3, Bool.false_and]
    · rw [hother _ hbytes hat, h.empty _ (by omega) hbytes]
      by_cases h3 : 1 ≤ p ∧ p ≤ (c + z) % 8
      · rw [hcol _ (by omega) (by omega), Bool.and_false]
        exact Nat.zero_testBit p
      · rw [decide_eq_false h3, Bool.false_and]
        exact Nat.zero_testBit p
  · intro b hb hbytes
    rw [hother b hbytes (by omega), h.empty b (by omega) hbytes]

/-- One more column. -/
theorem Filled.copy {bytes c : Nat} {row row' : Nat → UInt8} {col : Nat → Bool} {old : UInt8}
    (h : Filled bytes c row col)
    (hc : c / 8 < bytes) (hbit : old.toNat.testBit 7 = col c)
    (hrow : ∀ b < bytes, row' b = if b = c / 8 then copied (row b) old c else row b) : Filled bytes
    (c + 1) row' col := by
  have hother : ∀ b < bytes, b ≠ c / 8 → row' b = row b := fun b hb hne => by rw [hrow b hb, if_neg hne]
  have hjoined : ∀ p, (row (c / 8) ||| ((old &&& 0x80) >>> 7)).toNat.testBit p =
      ((decide (1 ≤ p ∧ p ≤ c % 8) && col (8 * (c / 8) + c % 8 - p)) || (decide (p = 0) && col c)) := by
    intro p
    rw [UInt8.toNat_or, Nat.testBit_or, testBit_top, hbit, h.partly hc]
  have hthis : row' (c / 8) = copied (row (c / 8)) old c := by rw [hrow _ hc, if_pos rfl]
  have hself : 8 * (c / 8) + c % 8 = c := by omega
  by_cases hlast : c % 8 = 7
  · have hbyte : (c + 1) / 8 = c / 8 + 1 := by omega
    have hcopied : row' (c / 8) = row (c / 8) ||| ((old &&& 0x80) >>> 7) := by
      rw [hthis, copied]
      exact if_neg (by omega)
    refine ⟨?_, ?_, ?_⟩
    · intro b hb hbytes r hr
      by_cases hat : b = c / 8
      · subst hat
        rw [hcopied, hjoined]
        by_cases hr7 : r = 7
        · subst hr7
          rw [show 8 * (c / 8) + 7 = c by omega]
          simp
        · have h1 : 1 ≤ 7 - r ∧ 7 - r ≤ c % 8 := by omega
          have h2 : ¬ 7 - r = 0 := by omega
          rw [decide_eq_true h1, decide_eq_false h2, Bool.true_and, Bool.false_and, Bool.or_false,
            show 8 * (c / 8) + c % 8 - (7 - r) = 8 * (c / 8) + r by omega]
      · rw [hother b hbytes hat, h.full b (by omega) hbytes r hr]
    · intro hbytes p
      have hp : ¬ (1 ≤ p ∧ p ≤ (c + 1) % 8) := by omega
      rw [hother _ hbytes (by omega), h.empty _ (by omega) hbytes, decide_eq_false hp, Bool.false_and]
      exact Nat.zero_testBit p
    · intro b hb hbytes
      rw [hother b hbytes (by omega), h.empty b (by omega) hbytes]
  · have hbyte : (c + 1) / 8 = c / 8 := by omega
    have hmod : (c + 1) % 8 = c % 8 + 1 := by omega
    have hcopied : row' (c / 8) = (row (c / 8) ||| ((old &&& 0x80) >>> 7)) <<< UInt8.ofNat 1 := by
      rw [hthis, copied]
      exact if_pos hlast
    refine ⟨?_, ?_, ?_⟩
    · intro b hb hbytes r hr
      rw [hother b hbytes (by omega), h.full b (by omega) hbytes r hr]
    · intro _ p
      rw [hbyte, hmod, hcopied, testBit_shift _ (by omega), hjoined]
      by_cases hp : p = 1
      · subst hp
        rw [show 8 * (c / 8) + (c % 8 + 1) - 1 = c by omega]
        simp
      · have h0 : ¬ (p - 1 = 0 ∧ 1 ≤ p) := by omega
        by_cases hin : 2 ≤ p ∧ p ≤ c % 8 + 1
        · have h1 : 1 ≤ p ∧ p < 8 := by omega
          have h2 : 1 ≤ p - 1 ∧ p - 1 ≤ c % 8 := by omega
          have h3 : ¬ p - 1 = 0 := by omega
          have h4 : 1 ≤ p ∧ p ≤ c % 8 + 1 := by omega
          rw [decide_eq_true h1, decide_eq_true h2, decide_eq_false h3, decide_eq_true h4, Bool.true_and, Bool.true_and,
            Bool.true_and, Bool.false_and, Bool.or_false, show 8 * (c / 8) + c % 8 - (p - 1) =
              8 * (c / 8) + (c % 8 + 1) - p by omega]
        · have h4 : ¬ (1 ≤ p ∧ p ≤ c % 8 + 1) := by omega
          have h2 : ¬ (1 ≤ p - 1 ∧ p - 1 ≤ c % 8) := by omega
          rw [decide_eq_false h4, decide_eq_false h2, Bool.false_and, Bool.false_and, Bool.false_or]
          by_cases hzero : p = 0
          · subst hzero
            simp
          · have h3 : ¬ p - 1 = 0 := by omega
            rw [decide_eq_false h3, Bool.false_and, Bool.and_false]
    · intro b hb hbytes
      rw [hother b hbytes (by omega), h.empty b (by omega) hbytes]

/-- The bits of a row whose last byte is shifted to its place. -/
theorem Filled.finish {bytes c : Nat} {row row' : Nat → UInt8} {col : Nat → Bool} (h : Filled bytes c row col)
    (hrow : ∀ b < bytes, row' b = if c % 8 ≠ 0 ∧ b = c / 8 then row b <<< UInt8.ofNat (7 - c % 8) else row b)
    {q : Nat} (hq : q < 8 * bytes) : (row' (q / 8)).toNat.testBit (7 - q % 8) = (decide (q < c) && col q) := by
  have hbytes : q / 8 < bytes := by omega
  have hself : 8 * (q / 8) + q % 8 = q := by omega
  by_cases hbefore : q / 8 < c / 8
  · have hlt : q < c := by omega
    rw [hrow _ hbytes, if_neg (by omega), h.full _ hbefore hbytes _ (by omega), hself,
      decide_eq_true hlt, Bool.true_and]
  · by_cases hat : q / 8 = c / 8
    · by_cases hzero : c % 8 = 0
      · have hlt : ¬ q < c := by omega
        have hp : ¬ (1 ≤ 7 - q % 8 ∧ 7 - q % 8 ≤ c % 8) := by omega
        rw [hrow _ hbytes, if_neg (by omega), hat, h.partly (by omega), decide_eq_false hlt, decide_eq_false hp,
          Bool.false_and, Bool.false_and]
      · rw [hrow _ hbytes, if_pos ⟨hzero, hat⟩, testBit_shift _ (by omega), hat, h.partly (by omega)]
        by_cases hlt : q < c
        · have h1 : 7 - c % 8 ≤ 7 - q % 8 ∧ 7 - q % 8 < 8 := by omega
          have h2 : 1 ≤ 7 - q % 8 - (7 - c % 8) ∧ 7 - q % 8 - (7 - c % 8) ≤ c % 8 := by omega
          rw [decide_eq_true h1, decide_eq_true h2, decide_eq_true hlt, Bool.true_and, Bool.true_and, Bool.true_and,
            show 8 * (c / 8) + c % 8 - (7 - q % 8 - (7 - c % 8)) = q by omega]
        · have h2 : ¬ (1 ≤ 7 - q % 8 - (7 - c % 8) ∧ 7 - q % 8 - (7 - c % 8) ≤ c % 8) := by omega
          rw [decide_eq_false h2, decide_eq_false hlt, Bool.false_and, Bool.and_false, Bool.false_and]
    · have hlt : ¬ q < c := by omega
      rw [hrow _ hbytes, if_neg (by omega), h.empty _ (by omega) hbytes, decide_eq_false hlt, Bool.false_and]
      exact Nat.zero_testBit _

/-- A row whose first `j` columns have been shifted out. -/
structure Shifted (bytes j : Nat) (orig row : Nat → UInt8) : Prop where
  here : j / 8 < bytes → ∀ p < 8, (row (j / 8)).toNat.testBit p = (decide (j % 8 ≤ p) &&
    (orig (j / 8)).toNat.testBit (p - j % 8))
  behind : ∀ b, j / 8 < b → b < bytes → row b = orig b

theorem Shifted.start (bytes : Nat) (orig : Nat → UInt8) : Shifted bytes 0 orig orig where
  here := fun _ p _ => by simp
  behind := fun _ _ _ => rfl

theorem Shifted.top {bytes j : Nat} {orig row : Nat → UInt8} (h : Shifted bytes j orig row) (hj : j / 8 < bytes) :
    (row (j / 8)).toNat.testBit 7 = (orig (j / 8)).toNat.testBit (7 - j % 8) := by
  have hle : j % 8 ≤ 7 := by omega
  rw [h.here hj 7 (by omega), decide_eq_true hle, Bool.true_and]

theorem Shifted.next {bytes j : Nat} {orig row row' : Nat → UInt8} (h : Shifted bytes j orig row) (hj : j / 8 < bytes)
    (hrow : ∀ b < bytes, row' b = if b = j / 8 then row b <<< 1 else row b) : Shifted bytes (j + 1) orig row' := by
  refine ⟨?_, ?_⟩
  · intro hbytes p hp
    by_cases hlast : j % 8 = 7
    · have hmod : (j + 1) % 8 = 0 := by omega
      rw [hrow _ hbytes, if_neg (by omega), h.behind _ (by omega) hbytes, hmod]
      simp
    · have hbyte : (j + 1) / 8 = j / 8 := by omega
      have hmod : (j + 1) % 8 = j % 8 + 1 := by omega
      rw [hbyte, hrow _ hj, if_pos rfl, hmod, show (1 : UInt8) = UInt8.ofNat 1 from rfl, testBit_shift _ (by omega)]
      by_cases hin : j % 8 + 1 ≤ p
      · have h1 : 1 ≤ p ∧ p < 8 := by omega
        have h2 : j % 8 ≤ p - 1 := by omega
        rw [h.here hj _ (by omega), decide_eq_true h1, decide_eq_true h2, decide_eq_true hin,
          Bool.true_and, Bool.true_and,
          Bool.true_and, show p - 1 - j % 8 = p - (j % 8 + 1) by omega]
      · rw [decide_eq_false hin, Bool.false_and]
        by_cases h1 : 1 ≤ p ∧ p < 8
        · have h2 : ¬ j % 8 ≤ p - 1 := by omega
          rw [h.here hj _ (by omega), decide_eq_false h2, Bool.false_and, Bool.and_false]
        · rw [decide_eq_false h1, Bool.false_and]
  · intro b hb hbytes
    rw [hrow b hbytes, if_neg (by omega), h.behind b (by omega) hbytes]

end WebRtc.Fec
