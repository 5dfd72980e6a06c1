import Mathlib.Data.List.Sort
import WebRtc.Lib.Bytes

/-!
# Packets and sequence numbers of the FEC (`forward_error_correction.h`, `module_common_types.h`)

| here | there |
| --- | --- |
| `Packet`                | the class (forward_error_correction.h:42): `data` is the array of `IP_PACKET_SIZE` bytes |
| `isNewerSequenceNumber` | `IsNewerSequenceNumber` (module_common_types.h:734) |
| `lessThan`              | `SortablePacket::LessThan` (forward_error_correction.cc:74), on the sequence numbers |
| `sortPackets`           | `std::list::sort`, which is stable, where the numbers are in order |
| `parseSequenceNumber`   | `ParseSequenceNumber` (:823) |
-/

namespace WebRtc.Fec

open Bytes

abbrev ipPacketSize : Nat := 1500
abbrev rtpHeaderSize : Nat := 12
abbrev fecHeaderSize : Nat := 10
abbrev maxMediaPackets : Nat := 48

structure Packet where
  length : Nat
  data : Nat → UInt8

/-- The size of the mask, `kMaskSizeLBitSet` or `kMaskSizeLBitClear`. -/
def maskSize (lBit : Bool) : Nat := if lBit then 6 else 2

/-- `kUlpHeaderSizeLBitSet` or `kUlpHeaderSizeLBitClear`. -/
def ulpHeaderSize (lBit : Bool) : Nat := 2 + maskSize lBit

def isNewerSequenceNumber (seq prev : UInt16) : Bool :=
  if seq - prev = 0x8000 then decide (prev < seq) else seq ≠ prev && decide (seq - prev < 0x8000)

def lessThan (first second : UInt16) : Bool := isNewerSequenceNumber second first

def parseSequenceNumber (data : Nat → UInt8) : UInt16 := UInt16.ofNat (read16 (data 2) (data 3))

/-- Bit `k` of a mask whose bytes start at `off`, the most significant bit of a byte first. -/
def maskBit (data : Nat → UInt8) (off k : Nat) : Bool := (data (off + k / 8)).toNat.testBit (7 - k % 8)

/-- Sort by sequence number, keeping the order of equal ones. -/
def sortPackets {α : Type} (seq : α → UInt16) (l : List α) : List α :=
  l.insertionSort fun a b => lessThan (seq b) (seq a) = false

end WebRtc.Fec
