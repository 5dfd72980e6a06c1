import WebRtc.Lib.BitString

/-!
# The bit buffer (`webrtc/base/bitbuffer.cc`)

| here | there |
| --- | --- |
| `lowestBits` … `countBits` | the functions of the anonymous namespace (:21-70) |
| `BitBuffer`                | the class of `bitbuffer.h`; the constructor, `ConsumeBits` and `Seek` keep its two facts |
| `peekRest`, `peekBits`     | `PeekBits` (:110), the loop over whole bytes with the partial byte behind it |
| `consumeBits`, `seek`      | `ConsumeBits` (:150), `Seek` (:208) |
| `countZeros`, `readExponentialGolomb` | `ReadExponentialGolomb` (:160) and the loop in it |
| `writeRest`, `writeBits`   | `WriteBits` (:237) |

A result pointer `val` is `true` when it is not null. A call that returns true with `*val = v` gives `some v`.
-/

namespace WebRtc.Base

open Bytes BitString

/-! ## Parts of a byte -/

/-- The lowest (right-most) `bitCount` bits in `byte`. -/
def lowestBits (byte bitCount : Nat) : Nat := byte &&& (1 <<< bitCount - 1)

/-- The highest (left-most) `bitCount` bits in `byte`, shifted to the right. -/
def highestBits (byte bitCount : Nat) : Nat :=
  let shift := 8 - bitCount
  let mask := (0xFF <<< shift) % 2 ^ 8
  (byte &&& mask) >>> shift

def highestByte (val : Nat) : UInt8 := UInt8.ofNat (val >>> 56)

def writePartialByte (source : UInt8) (sourceBitCount : Nat) (target : UInt8) (targetBitOffset : Nat) : UInt8 :=
  let mask := UInt8.ofNat (((0xFF <<< (8 - sourceBitCount)) % 2 ^ 8) >>> targetBitOffset)
  (target &&& ~~~mask) ||| UInt8.ofNat (source.toNat >>> targetBitOffset)

/-- `fuel` is the width of the type: the loop shifts the number to zero. -/
def countBitsLoop : Nat → Nat → Nat
  | 0, _ => 0
  | fuel + 1, val => if val = 0 then 0 else countBitsLoop fuel (val >>> 1) + 1

def countBits (val : Nat) : Nat := countBitsLoop 64 val

/-! ## The buffer and the position in it -/

structure BitBuffer where
  bytes : List UInt8
  byteOffset : Nat
  bitOffset : Nat
  inByte : bitOffset < 8
  inBuffer : 8 * byteOffset + bitOffset ≤ 8 * bytes.length

namespace BitBuffer

/-- The constructor. -/
def ofBytes (bytes : List UInt8) : BitBuffer := ⟨bytes, 0, 0, by decide, Nat.zero_le _⟩

/-- The number of bits in front of the current one. -/
def position (b : BitBuffer) : Nat := 8 * b.byteOffset + b.bitOffset

def remainingBitCount (b : BitBuffer) : Nat := (b.bytes.length - b.byteOffset) * 8 - b.bitOffset

theorem position_add_remaining (b : BitBuffer) : b.position + b.remainingBitCount = 8 * b.bytes.length := by
  have := b.inBuffer
  simp only [position, remainingBitCount]
  omega

/-- The byte and the bit of a position. -/
theorem ext_position {b c : BitBuffer} (hbytes : b.bytes = c.bytes) (hpos : b.position = c.position) : b = c := by
  obtain ⟨_, k, o, ho, _⟩ := b
  obtain ⟨_, k', o', ho', _⟩ := c
  simp only [position] at hpos
  simp only [mk.injEq]
  exact ⟨hbytes, by omega, by omega⟩

/-! ## Reading -/

/-- From byte `p` on: whole bytes as long as there are eight bits to read, then a part of one. -/
def peekRest (bytes : List UInt8) : Nat → Nat → Nat → Nat
  | bitCount + 8, p, bits => peekRest bytes bitCount (p + 1) ((bits <<< 8) % 2 ^ 32 ||| (byteAt bytes p).toNat)
  | bitCount, p, bits =>
    if 0 < bitCount then (bits <<< bitCount) % 2 ^ 32 ||| highestBits (byteAt bytes p).toNat bitCount else bits

def peekBits (b : BitBuffer) (val : Bool) (bitCount : Nat) : Option Nat :=
  if !val ∨ b.remainingBitCount < bitCount ∨ 32 < bitCount then none
  else
    let remainingBitsInCurrentByte := 8 - b.bitOffset
    let bits := lowestBits (byteAt b.bytes b.byteOffset).toNat remainingBitsInCurrentByte
    if bitCount < remainingBitsInCurrentByte then some (highestBits bits (b.bitOffset + bitCount))
    else some (peekRest b.bytes (bitCount - remainingBitsInCurrentByte) (b.byteOffset + 1) bits)

def consumeBits (b : BitBuffer) (bitCount : Nat) : Bool × BitBuffer :=
  if h : b.remainingBitCount < bitCount then (false, b)
  else
    (true, { b with
      byteOffset := b.byteOffset + (b.bitOffset + bitCount) / 8
      bitOffset := (b.bitOffset + bitCount) % 8
      inByte := Nat.mod_lt _ (by decide)
      inBuffer := by
        have := b.position_add_remaining
        simp only [position] at this
        omega })

def readBits (b : BitBuffer) (val : Bool) (bitCount : Nat) : Option Nat × BitBuffer :=
  match b.peekBits val bitCount with
  | none => (none, b)
  | some v =>
    let consumed := b.consumeBits bitCount
    (if consumed.1 then some v else none, consumed.2)

def seek (b : BitBuffer) (byteOffset bitOffset : Nat) : Bool × BitBuffer :=
  if h : b.bytes.length < byteOffset ∨ 7 < bitOffset ∨ (byteOffset = b.bytes.length ∧ 0 < bitOffset) then (false, b)
  else
    (true, { b with
      byteOffset := byteOffset
      bitOffset := bitOffset
      inByte := by omega
      inBuffer := by omega })

/-- `fuel` bounds the rounds; a round takes a bit, so the bits that are left are enough. -/
def countZeros : Nat → BitBuffer → Nat × BitBuffer
  | 0, b => (0, b)
  | fuel + 1, b =>
    if b.peekBits true 1 = some 0 then
      let rest := countZeros fuel (b.consumeBits 1).2
      (rest.1 + 1, rest.2)
    else (0, b)

/-- `none` when the check of `Seek` fails, which ends the program. -/
def readExponentialGolomb (b : BitBuffer) (val : Bool) : Option (Option Nat × BitBuffer) :=
  if !val then some (none, b)
  else
    let (zeroBitCount, b') := countZeros b.remainingBitCount b
    let valueBitCount := zeroBitCount + 1
    let giveUp := fun (c : BitBuffer) =>
      let sought := c.seek b.byteOffset b.bitOffset
      if sought.1 then some (none, sought.2) else none
    if 32 < valueBitCount then giveUp b'
    else
      match b'.readBits val valueBitCount with
      | (none, c) => giveUp c
      | (some v, c) => some (some ((v + 2 ^ 32 - 1) % 2 ^ 32), c)

/-! ## Writing -/

def writeRest : Nat → Nat → Nat → List UInt8 → List UInt8
  | bitCount + 8, p, val, bytes => writeRest bitCount (p + 1) ((val <<< 8) % 2 ^ 64) (bytes.set p (highestByte val))
  | bitCount, p, val, bytes =>
    if 0 < bitCount then bytes.set p (writePartialByte (highestByte val) bitCount (byteAt bytes p) 0) else bytes

@[simp] theorem writeRest_length (bitCount p val : Nat) (bytes : List UInt8) :
    (writeRest bitCount p val bytes).length = bytes.length := by
  fun_induction writeRest bitCount p val bytes with
  | case1 bitCount p val bytes ih => simpa using ih
  | case2 => simp
  | case3 => rfl

/-- The bytes after the bits have been written. -/
def written (b : BitBuffer) (val bitCount : Nat) : List UInt8 :=
  let val := (val <<< (64 - bitCount)) % 2 ^ 64
  let remainingBitsInCurrentByte := 8 - b.bitOffset
  let bitsInFirstByte := min bitCount remainingBitsInCurrentByte
  let bytes := b.bytes.set b.byteOffset
    (writePartialByte (highestByte val) bitsInFirstByte (byteAt b.bytes b.byteOffset) b.bitOffset)
  if bitCount ≤ remainingBitsInCurrentByte then bytes
  else writeRest (bitCount - bitsInFirstByte) (b.byteOffset + 1) ((val <<< bitsInFirstByte) % 2 ^ 64) bytes

@[simp] theorem written_length (b : BitBuffer) (val bitCount : Nat) :
    (b.written val bitCount).length = b.bytes.length := by
  simp only [written]
  split <;> simp

def writeBits (b : BitBuffer) (val : UInt64) (bitCount : Nat) : Bool × BitBuffer :=
  if b.remainingBitCount < bitCount then (false, b)
  else consumeBits { b with
    bytes := b.written val.toNat bitCount
    inBuffer := by simpa using b.inBuffer } bitCount

def writeExponentialGolomb (b : BitBuffer) (val : UInt32) : Bool × BitBuffer :=
  if val.toNat = 2 ^ 32 - 1 then (false, b)
  else
    let valToEncode := val.toUInt64 + 1
    b.writeBits valToEncode (countBits valToEncode.toNat * 2 - 1)

end BitBuffer
end WebRtc.Base
