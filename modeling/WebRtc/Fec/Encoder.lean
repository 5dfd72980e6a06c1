import WebRtc.Fec.Packet

/-!
# FEC generation (`forward_error_correction.cc`)

| here | there |
| --- | --- |
| `protect`               | the body of the mask test in `GenerateFecBitStrings` (:229-276) |
| `bitString`             | one round `i` of its outer loop (:221) |
| `generateFecBitStrings` | `GenerateFecBitStrings` (:208), on the packets `GenerateFEC` has just cleared |
| `generateFecUlpHeaders` | `GenerateFecUlpHeaders` (:388) |
-/

namespace WebRtc.Fec

open Bytes

/-- Where the RTP payload of a media packet goes: `fec_rtp_offset`. -/
def fecRtpOffset (lBit : Bool) : Nat := fecHeaderSize + ulpHeaderSize lBit - rtpHeaderSize

/-- A cleared packet. -/
def blank : Packet := ⟨0, fun _ => 0⟩

/-- XOR a media packet into a FEC packet. -/
def protect (lBit : Bool) (fec media : Packet) : Packet :=
  let payload := media.length - rtpHeaderSize
  let fecLength := (media.length + fecRtpOffset lBit) % 65536
  -- On the first protected packet, we don't need to XOR.
  let put (old new : UInt8) : UInt8 := if fec.length = 0 then new else old ^^^ new
  { length := if fecLength > fec.length then fecLength else fec.length
    data := fun j =>
      if j < 2 ∨ 4 ≤ j ∧ j < 8 then put (fec.data j) (media.data j)
      else if j = 8 then put (fec.data j) (hi16 payload)
      else if j = 9 then put (fec.data j) (lo16 payload)
      else if fecHeaderSize + ulpHeaderSize lBit ≤ j ∧ j < fecLength then
        put (fec.data j) (media.data (j - fecRtpOffset lBit))
      else fec.data j }

/-- Over the media packets left; `maskIdx` is the mask byte and `pktIdx` the bit of it, which moves on
by the difference of the sequence numbers. -/
def bitString (lBit : Bool) (mask : Nat → UInt8) : List Packet → Nat → Nat → Packet → Packet
  | [], _, _, fec => fec
  | media :: rest, maskIdx, pktIdx, fec =>
    let fec := if (mask maskIdx).toNat.testBit (7 - pktIdx) then protect lBit fec media else fec
    let pktIdx := match rest with
      | next :: _ => pktIdx + (parseSequenceNumber next.data - parseSequenceNumber media.data).toNat
      | [] => pktIdx
    if pktIdx = 8 then bitString lBit mask rest (maskIdx + 1) 0 fec
    else bitString lBit mask rest maskIdx pktIdx fec

def generateFecBitStrings (mediaPacketList : List Packet) (packetMask : Nat → UInt8) (numFecPackets : Nat)
    (lBit : Bool) : List Packet :=
  (List.range numFecPackets).map fun i =>
    bitString lBit (fun k => packetMask (i * maskSize lBit + k)) mediaPacketList 0 0 blank

/-- The headers of FEC packet `i`. -/
def ulpHeader (first : Packet) (packetMask : Nat → UInt8) (lBit : Bool) (i : Nat) (fec : Packet) : Packet :=
  let protectionLength := fec.length - fecHeaderSize - ulpHeaderSize lBit
  { fec with data := fun j =>
      if j = 0 then
        -- Set E to zero, and clear or set the L bit.
        let b := fec.data 0 &&& 0x7f
        if lBit then b ||| 0x40 else b &&& 0xbf
      else if j = 2 then first.data 2
      else if j = 3 then first.data 3
      else if j = 10 then hi16 protectionLength
      else if j = 11 then lo16 protectionLength
      else if 12 ≤ j ∧ j < 12 + maskSize lBit then packetMask (i * maskSize lBit + (j - 12))
      else fec.data j }

def generateFecUlpHeaders (mediaPacketList : List Packet) (packetMask : Nat → UInt8) (lBit : Bool)
    (fecPackets : List Packet) : List Packet :=
  match mediaPacketList with
  | [] => fecPackets
  | first :: _ => fecPackets.mapIdx fun i fec => ulpHeader first packetMask lBit i fec

end WebRtc.Fec
