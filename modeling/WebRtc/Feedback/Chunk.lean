import Mathlib.Data.Fintype.Basic
import Mathlib.Tactic.FinCases
import WebRtc.Lib.Bytes

/-!
# Packet status chunks (`transport_feedback.cc`)

| here | there |
| --- | --- |
| `StatusSymbol`              | `TransportFeedback::StatusSymbol` |
| `encodeSymbol`, `decodeSymbol` | `EncodeSymbol` (:47), `DecodeSymbol` (:61) |
| `Chunk`                     | `OneBitVectorChunk` (:104), `TwoBitVectorChunk` (:179), `RunLengthChunk` (:247) |
| `fill`                      | the constructors of the vector chunks, which take symbols off the front of the deque |
| `numSymbols`, `symbols`, `writeTo` | `NumSymbols`, `AppendSymbolsTo`, `WriteTo` |
| `parseChunk`                | `ParseChunk` (:742) and the `ParseFrom` of each kind |

A vector chunk always holds as many symbols as it has room for, the last of them perhaps invented.
-/

namespace WebRtc.Feedback

inductive StatusSymbol where
  | notReceived
  | receivedSmallDelta
  | receivedLargeDelta
deriving DecidableEq, Repr

instance : Fintype StatusSymbol :=
  ⟨{.notReceived, .receivedSmallDelta, .receivedLargeDelta}, fun s => by cases s <;> decide⟩

def encodeSymbol : StatusSymbol → UInt8
  | .notReceived => 0
  | .receivedSmallDelta => 1
  | .receivedLargeDelta => 2

/-- A value of 3 is not a symbol; it is read as "not received". -/
def decodeSymbol (value : UInt8) : StatusSymbol :=
  if value = 0 then .notReceived
  else if value = 1 then .receivedSmallDelta
  else if value = 2 then .receivedLargeDelta
  else .notReceived

inductive Chunk where
  | oneBitVector (symbols : Fin 14 → StatusSymbol)
  | twoBitVector (symbols : Fin 7 → StatusSymbol)
  | runLength (symbol : StatusSymbol) (size : Nat)
deriving DecidableEq

/-- `n` symbols from the front, with "not received" where there are no more. -/
def fill (n : Nat) (symbols : List StatusSymbol) : Fin n → StatusSymbol := fun i => symbols.getD i .notReceived

namespace Chunk

def numSymbols : Chunk → Nat
  | oneBitVector _ => 14
  | twoBitVector _ => 7
  | runLength _ size => size

def symbols : Chunk → List StatusSymbol
  | oneBitVector f => List.ofFn f
  | twoBitVector f => List.ofFn f
  | runLength symbol size => List.replicate size symbol

end Chunk

/-- The bits of one-bit symbols, the last of them at the bottom of the byte. -/
def packBits : List StatusSymbol → UInt8 → UInt8
  | [], byte => byte
  | s :: rest, byte => packBits rest (byte ||| encodeSymbol s <<< UInt8.ofNat rest.length)

/-- The two bytes of a chunk. -/
def Chunk.writeTo : Chunk → List UInt8
  | oneBitVector f =>
    [packBits [f 0, f 1, f 2, f 3, f 4, f 5] 0x80, packBits [f 6, f 7, f 8, f 9, f 10, f 11, f 12, f 13] 0x00]
  | twoBitVector f =>
    [(0xC0 : UInt8) ||| encodeSymbol (f 0) <<< 4 ||| encodeSymbol (f 1) <<< 2 ||| encodeSymbol (f 2),
      encodeSymbol (f 3) <<< 6 ||| encodeSymbol (f 4) <<< 4 ||| encodeSymbol (f 5) <<< 2 ||| encodeSymbol (f 6)]
  | runLength symbol size => [encodeSymbol symbol <<< 5 ||| (UInt8.ofNat (size / 256) &&& 0x1F), UInt8.ofNat size]

def parseOneBitVector (a b : UInt8) : Chunk :=
  .oneBitVector fun i =>
    if i.val < 6 then decodeSymbol ((a >>> UInt8.ofNat (5 - i.val)) &&& 0x01)
    else decodeSymbol ((b >>> UInt8.ofNat (13 - i.val)) &&& 0x01)

def parseTwoBitVector (a b : UInt8) : Chunk :=
  .twoBitVector fun i =>
    if i.val < 3 then decodeSymbol ((a >>> UInt8.ofNat (4 - 2 * i.val)) &&& 0x03)
    else decodeSymbol ((b >>> UInt8.ofNat (12 - 2 * i.val)) &&& 0x03)

def parseRunLength (a b : UInt8) : Chunk :=
  .runLength (decodeSymbol ((a >>> 5) &&& 0x03)) ((a &&& 0x1F).toNat * 256 + b.toNat)

/-- The chunk in the two bytes, with at most `maxSize` packets left. -/
def parseChunk (a b : UInt8) (maxSize : Nat) : Option Chunk :=
  if a &&& 0x80 ≠ 0 then
    if a &&& 0x40 ≠ 0 then some (parseTwoBitVector a b) else some (parseOneBitVector a b)
  else if (parseRunLength a b).numSymbols > maxSize then none
  else some (parseRunLength a b)

/-! ## What is written is read -/

theorem length_symbols (c : Chunk) : c.symbols.length = c.numSymbols := by
  cases c <;> simp [Chunk.symbols, Chunk.numSymbols]

/-- The symbols a chunk is filled with come first. -/
theorem ofFn_fill (n : Nat) (l : List StatusSymbol) :
    List.ofFn (fill n l) = l.take n ++ List.replicate (n - l.length) .notReceived := by
  apply List.ext_getElem?
  intro i
  rw [List.getElem?_ofFn, List.getElem?_append, List.length_take]
  by_cases hi : i < n
  · rw [dif_pos hi]
    by_cases hl : i < l.length
    · rw [if_pos (by omega), List.getElem?_take_of_lt hi, List.getElem?_eq_getElem hl]
      simp [fill, List.getD_eq_getElem?_getD, List.getElem?_eq_getElem hl]
    · rw [if_neg (by omega), List.getElem?_replicate, if_pos (by omega)]
      simp [fill, List.getD_eq_getElem?_getD, List.getElem?_eq_none (Nat.le_of_not_lt hl)]
  · rw [dif_neg hi, if_neg (by omega), List.getElem?_replicate, if_neg (by omega)]

/-- Nothing is lost by writing the chunk: its symbols have room in its bits. -/
def Chunk.Writable : Chunk → Prop
  | oneBitVector f => ∀ i, f i ≠ .receivedLargeDelta
  | twoBitVector _ => True
  | runLength _ size => size ≤ 0x1FFF

/-- The symbol of a bit. -/
def ofBit (b : Bool) : StatusSymbol := if b then .receivedSmallDelta else .notReceived

theorem eq_ofBit {s : StatusSymbol} (h : s ≠ .receivedLargeDelta) : s = ofBit (decide (s = .receivedSmallDelta)) := by
  cases s
  · rfl
  · rfl
  · exact absurd rfl h

theorem encode_shift_bit (b : Bool) {n : Nat} (hn : n < 8) {k : Nat} (hk : k < 8) :
    (encodeSymbol (ofBit b) <<< UInt8.ofNat n).toNat.testBit k = (b && decide (k = n)) := by
  revert b n k
  decide

/-- The symbols stand in the low bits, the last one in the lowest. -/
theorem packBits_bit {bits : List Bool} (hlen : bits.length ≤ 8) (byte : UInt8) {k : Nat} (hk : k < 8) :
    (packBits (bits.map ofBit) byte).toNat.testBit k = (byte.toNat.testBit k || bits.reverse.getD k false) := by
  induction bits generalizing byte with
  | nil => simp [packBits]
  | cons b rest ih =>
    rw [List.length_cons] at hlen
    rw [List.map_cons, packBits, ih (by omega), UInt8.toNat_or, Nat.testBit_or, List.length_map,
      encode_shift_bit b (by omega) hk, Bool.or_assoc, List.reverse_cons]
    congr 1
    simp only [List.getD_eq_getElem?_getD]
    rcases Nat.lt_trichotomy k rest.length with hlt | heq | hgt
    · rw [List.getElem?_append_left (by simpa using hlt), decide_eq_false (Nat.ne_of_lt hlt), Bool.and_false,
        Bool.false_or]
    · subst heq
      simp
    · rw [List.getElem?_eq_none (by simp; omega), List.getElem?_eq_none (by simp; omega),
        decide_eq_false (by omega), Bool.and_false, Bool.false_or]

theorem decode_bit (a : UInt8) {k : Nat} (hk : k < 8) :
    decodeSymbol ((a >>> UInt8.ofNat k) &&& 0x01) = ofBit (a.toNat.testBit k) := by
  have hshift : ((a >>> UInt8.ofNat k) &&& 0x01).toNat = a.toNat / 2 ^ k % 2 := by
    have hk' : (UInt8.ofNat k).toNat = k := by
      rw [UInt8.toNat_ofNat']
      omega
    rw [UInt8.toNat_and, UInt8.toNat_shiftRight, hk', Nat.mod_eq_of_lt hk, Nat.shiftRight_eq_div_pow]
    exact Nat.and_one_is_mod _
  rw [Nat.testBit_eq_decide_div_mod_eq]
  rcases Nat.mod_two_eq_zero_or_one (a.toNat / 2 ^ k) with h | h
  · have hzero : (a >>> UInt8.ofNat k) &&& 0x01 = 0 := UInt8.toNat_inj.1 (hshift.trans h)
    rw [hzero, h]
    rfl
  · have hone : (a >>> UInt8.ofNat k) &&& 0x01 = 1 := UInt8.toNat_inj.1 (hshift.trans h)
    rw [hone, h]
    rfl

theorem and_two_pow_eq_zero (n i : Nat) : n &&& 2 ^ i = 0 ↔ n.testBit i = false := by
  constructor
  · intro h
    have hbit := congrArg (Nat.testBit · i) h
    simpa [Nat.testBit_and, Nat.testBit_two_pow_self] using hbit
  · intro h
    refine Nat.eq_of_testBit_eq fun k => ?_
    rw [Nat.testBit_and, Nat.testBit_two_pow, Nat.zero_testBit]
    by_cases hk : i = k
    · rw [← hk, h, Bool.false_and]
    · rw [decide_eq_false hk, Bool.and_false]

theorem high_bits (a : UInt8) : (a &&& 0x80 ≠ 0 ↔ a.toNat.testBit 7 = true) ∧
    (a &&& 0x40 ≠ 0 ↔ a.toNat.testBit 6 = true) := by
  have hseven : (a &&& 0x80).toNat = a.toNat &&& 2 ^ 7 := UInt8.toNat_and a 0x80
  have hsix : (a &&& 0x40).toNat = a.toNat &&& 2 ^ 6 := UInt8.toNat_and a 0x40
  constructor
  · rw [ne_eq, ← UInt8.toNat_inj, hseven, UInt8.toNat_zero, and_two_pow_eq_zero, Bool.not_eq_false]
  · rw [ne_eq, ← UInt8.toNat_inj, hsix, UInt8.toNat_zero, and_two_pow_eq_zero, Bool.not_eq_false]

theorem packBits_first (b0 b1 b2 b3 b4 b5 : Bool) :
    ∀ a, a = packBits [ofBit b0, ofBit b1, ofBit b2, ofBit b3, ofBit b4, ofBit b5] 0x80 →
      a &&& 0x80 ≠ 0 ∧ ¬ a &&& 0x40 ≠ 0 ∧ decodeSymbol ((a >>> 5) &&& 0x01) = ofBit b0 ∧
      decodeSymbol ((a >>> 4) &&& 0x01) = ofBit b1 ∧ decodeSymbol ((a >>> 3) &&& 0x01) = ofBit b2 ∧
      decodeSymbol ((a >>> 2) &&& 0x01) = ofBit b3 ∧ decodeSymbol ((a >>> 1) &&& 0x01) = ofBit b4 ∧
      decodeSymbol ((a >>> 0) &&& 0x01) = ofBit b5 := by
  intro a ha
  have hbit {k : Nat} (hk : k < 8) :
      a.toNat.testBit k = ((0x80 : UInt8).toNat.testBit k || [b5, b4, b3, b2, b1, b0].getD k false) := by
    rw [ha]
    exact @packBits_bit [b0, b1, b2, b3, b4, b5] (Nat.le_of_ble_eq_true rfl) 0x80 _ hk
  have hread {k : Nat} (hk : k < 8) : decodeSymbol ((a >>> UInt8.ofNat k) &&& 0x01) =
      ofBit ((0x80 : UInt8).toNat.testBit k || [b5, b4, b3, b2, b1, b0].getD k false) := by
    rw [decode_bit a hk, hbit hk]
  refine ⟨(high_bits a).1.2 (hbit (by decide)), fun h => ?_, hread (k := 5) (by decide), hread (k := 4) (by decide),
    hread (k := 3) (by decide), hread (k := 2) (by decide), hread (k := 1) (by decide), hread (k := 0) (by decide)⟩
  have hset := (high_bits a).2.1 h
  rw [hbit (by decide)] at hset
  cases hset

theorem packBits_second (b0 b1 b2 b3 b4 b5 b6 b7 : Bool) :
    ∀ b, b = packBits [ofBit b0, ofBit b1, ofBit b2, ofBit b3, ofBit b4, ofBit b5, ofBit b6, ofBit b7] 0x00 →
      decodeSymbol ((b >>> 7) &&& 0x01) = ofBit b0 ∧ decodeSymbol ((b >>> 6) &&& 0x01) = ofBit b1 ∧
      decodeSymbol ((b >>> 5) &&& 0x01) = ofBit b2 ∧ decodeSymbol ((b >>> 4) &&& 0x01) = ofBit b3 ∧
      decodeSymbol ((b >>> 3) &&& 0x01) = ofBit b4 ∧ decodeSymbol ((b >>> 2) &&& 0x01) = ofBit b5 ∧
      decodeSymbol ((b >>> 1) &&& 0x01) = ofBit b6 ∧ decodeSymbol ((b >>> 0) &&& 0x01) = ofBit b7 := by
  intro b hb
  have hread {k : Nat} (hk : k < 8) : decodeSymbol ((b >>> UInt8.ofNat k) &&& 0x01) =
      ofBit ((0x00 : UInt8).toNat.testBit k || [b7, b6, b5, b4, b3, b2, b1, b0].getD k false) := by
    rw [decode_bit b hk, hb]
    exact congrArg ofBit (@packBits_bit [b0, b1, b2, b3, b4, b5, b6, b7] (Nat.le_of_ble_eq_true rfl) 0x00 _ hk)
  exact ⟨hread (k := 7) (by decide), hread (k := 6) (by decide), hread (k := 5) (by decide), hread (k := 4) (by decide),
    hread (k := 3) (by decide), hread (k := 2) (by decide), hread (k := 1) (by decide), hread (k := 0) (by decide)⟩

theorem twoBit_first (s0 s1 s2 : StatusSymbol) :
    ∀ a : UInt8, a = (0xC0 : UInt8) ||| encodeSymbol s0 <<< 4 ||| encodeSymbol s1 <<< 2 ||| encodeSymbol s2 →
      a &&& 0x80 ≠ 0 ∧ a &&& 0x40 ≠ 0 ∧ decodeSymbol ((a >>> 4) &&& 0x03) = s0 ∧
      decodeSymbol ((a >>> 2) &&& 0x03) = s1 ∧ decodeSymbol ((a >>> 0) &&& 0x03) = s2 := by
  rintro a rfl
  revert s0 s1 s2
  decide

theorem twoBit_second (s0 s1 s2 s3 : StatusSymbol) :
    ∀ b : UInt8, b = encodeSymbol s0 <<< 6 ||| encodeSymbol s1 <<< 4 ||| encodeSymbol s2 <<< 2 ||| encodeSymbol s3 →
      decodeSymbol ((b >>> 6) &&& 0x03) = s0 ∧ decodeSymbol ((b >>> 4) &&& 0x03) = s1 ∧
      decodeSymbol ((b >>> 2) &&& 0x03) = s2 ∧ decodeSymbol ((b >>> 0) &&& 0x03) = s3 := by
  rintro b rfl
  revert s0 s1 s2 s3
  decide

open Bytes in
theorem runLength_first (s : StatusSymbol) (c : UInt8) :
    c < 32 → ¬ (encodeSymbol s <<< 5 ||| (c &&& 0x1F)) &&& 0x80 ≠ 0 ∧
      decodeSymbol (((encodeSymbol s <<< 5 ||| (c &&& 0x1F)) >>> 5) &&& 0x03) = s ∧
      (encodeSymbol s <<< 5 ||| (c &&& 0x1F)) &&& 0x1F = c := by
  revert s c
  decide +kernel

theorem parseOneBitVector_write (f : Fin 14 → StatusSymbol) (hf : ∀ i, f i ≠ .receivedLargeDelta) (n : Nat) :
    ∃ a b, (Chunk.oneBitVector f).writeTo = [a, b] ∧ parseChunk a b n = some (.oneBitVector f) := by
  refine ⟨_, _, rfl, ?_⟩
  generalize ha : packBits [f 0, f 1, f 2, f 3, f 4, f 5] 0x80 = a
  generalize hb : packBits [f 6, f 7, f 8, f 9, f 10, f 11, f 12, f 13] 0x00 = b
  have hg : f = fun i => ofBit (decide (f i = .receivedSmallDelta)) := funext fun i => eq_ofBit (hf i)
  rw [hg] at ha hb
  obtain ⟨hv, ht, h0, h1, h2, h3, h4, h5⟩ := packBits_first _ _ _ _ _ _ a ha.symm
  obtain ⟨h6, h7, h8, h9, h10, h11, h12, h13⟩ := packBits_second _ _ _ _ _ _ _ _ b hb.symm
  rw [parseChunk, if_pos hv, if_neg ht, parseOneBitVector, hg]
  congr 2
  funext i
  fin_cases i
  · exact h0
  · exact h1
  · exact h2
  · exact h3
  · exact h4
  · exact h5
  · exact h6
  · exact h7
  · exact h8
  · exact h9
  · exact h10
  · exact h11
  · exact h12
  · exact h13

theorem parseTwoBitVector_write (f : Fin 7 → StatusSymbol) (n : Nat) :
    ∃ a b, (Chunk.twoBitVector f).writeTo = [a, b] ∧ parseChunk a b n = some (.twoBitVector f) := by
  refine ⟨_, _, rfl, ?_⟩
  obtain ⟨hv, ht, h0, h1, h2⟩ := twoBit_first (f 0) (f 1) (f 2) _ rfl
  obtain ⟨h3, h4, h5, h6⟩ := twoBit_second (f 3) (f 4) (f 5) (f 6) _ rfl
  rw [parseChunk, if_pos hv, if_pos ht, parseTwoBitVector]
  congr 2
  funext i
  fin_cases i
  · exact h0
  · exact h1
  · exact h2
  · exact h3
  · exact h4
  · exact h5
  · exact h6

theorem parseRunLength_write (s : StatusSymbol) {size : Nat} (hs : size ≤ 0x1FFF) {n : Nat} (hn : size ≤ n) :
    ∃ a b, (Chunk.runLength s size).writeTo = [a, b] ∧ parseChunk a b n = some (.runLength s size) := by
  refine ⟨_, _, rfl, ?_⟩
  have hc : (UInt8.ofNat (size / 256)).toNat = size / 256 := by
    rw [UInt8.toNat_ofNat', Nat.mod_eq_of_lt (by omega)]
  have hc32 : UInt8.ofNat (size / 256) < 32 := by
    rw [UInt8.lt_iff_toNat_lt, hc]
    show size / 256 < 32
    omega
  obtain ⟨hv, hsym, hlow⟩ := runLength_first s _ hc32
  have hparse : parseRunLength (encodeSymbol s <<< 5 ||| (UInt8.ofNat (size / 256) &&& 0x1F)) (UInt8.ofNat size) =
      .runLength s size := by
    rw [parseRunLength, hsym, hlow, hc, UInt8.toNat_ofNat']
    congr 1
    omega
  rw [parseChunk, if_neg hv, hparse]
  exact if_neg (Nat.not_lt.2 hn)

/-- A chunk comes back from its two bytes; a run must not be longer than the packets that are left. -/
theorem parseChunk_writeTo {c : Chunk} (hc : c.Writable) {n : Nat}
    (hn : ∀ s size, c = .runLength s size → size ≤ n) :
    ∃ a b, c.writeTo = [a, b] ∧ parseChunk a b n = some c := by
  cases c with
  | oneBitVector f => exact parseOneBitVector_write f hc n
  | twoBitVector f => exact parseTwoBitVector_write f n
  | runLength s size => exact parseRunLength_write s hc (hn s size rfl)

end WebRtc.Feedback
