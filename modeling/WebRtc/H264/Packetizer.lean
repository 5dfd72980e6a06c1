import Mathlib.Data.Option.Basic
import WebRtc.Lib.CInt
import WebRtc.Lib.Wire
import WebRtc.Vp8.Packetizer

/-!
# H.264 packets

| here | there |
| --- | --- |
| the constants | `rtp_format_h264.cc:22-44` |
| `verifyStapANaluLengths` | `rtp_format_h264.cc:46-63` |
| `parseSingleNalu`, `parseFuaNalu` | `rtp_format_h264.cc:65-149` |
| `generatePackets`, `packetizeFuA`, `packetizeStapA` | `rtp_format_h264.cc:174-250` |
| `nextPacket`, `nextAggregatePacket`, `nextFragmentPacket` | `rtp_format_h264.cc:252-331` |
| `parse` | `rtp_format_h264.cc:346-373` |

The parser of an SPS is a parameter: it returns the width and the height, or nothing. `fragmentLoop`,
`generatePackets` and `sendAll` are recursions on a count of rounds that is not exceeded.
-/

namespace WebRtc.H264

open CInt Bytes Vp8

/-! ## Constants -/

def kIdr : UInt8 := 5
def kSps : UInt8 := 7
def kPps : UInt8 := 8
def kStapA : UInt8 := 24
def kFuA : UInt8 := 28

def kNalHeaderSize : Nat := 1
def kFuAHeaderSize : Nat := 2
def kLengthFieldSize : Nat := 2
def kStapAHeaderSize : Nat := kNalHeaderSize + kLengthFieldSize

def kFBit : UInt8 := 0x80
def kNriMask : UInt8 := 0x60
def kTypeMask : UInt8 := 0x1F
def kSBit : UInt8 := 0x80
def kEBit : UInt8 := 0x40

/-! ## The packetizer -/

structure Packet where
  offset : Nat
  size : Nat
  firstFragment : Bool
  lastFragment : Bool
  aggregated : Bool
  header : UInt8
deriving DecidableEq, Repr

structure RtpPacketizerH264 where
  payloadData : List UInt8
  maxPayloadLen : Nat
  fragmentation : RTPFragmentationHeader
deriving DecidableEq, Repr

namespace RtpPacketizerH264

/-- The loop of `PacketizeFuA`. -/
def fragmentLoop (fragmentOffset avgSize : Nat) (header : UInt8) : Nat → Nat → Nat → List Packet
  | 0, _, _ => []
  | rounds + 1, offset, fragmentLength =>
    if fragmentLength > 0 then
      let packetLength := if fragmentLength < avgSize then fragmentLength else avgSize
      { offset
        size := packetLength
        firstFragment := decide (offset - kNalHeaderSize = fragmentOffset)
        lastFragment := decide (fragmentLength = packetLength)
        aggregated := false
        header } :: fragmentLoop fragmentOffset avgSize header rounds (offset + packetLength)
          (fragmentLength - packetLength)
    else []

def packetizeFuA (p : RtpPacketizerH264) (fragmentOffset fragmentLength : Nat) : List Packet :=
  let fragmentLength := fragmentLength - kNalHeaderSize
  let bytesAvailable := szSub p.maxPayloadLen kFuAHeaderSize
  let fragments := (fragmentLength + (bytesAvailable - 1)) / bytesAvailable
  let avgSize := (fragmentLength + fragments - 1) / fragments
  fragmentLoop fragmentOffset avgSize (byteAt p.payloadData fragmentOffset) fragmentLength
    (fragmentOffset + kNalHeaderSize) fragmentLength

/-- The loop of `PacketizeStapA`: the packets, and the fragments from `fragment_index` on. -/
def aggregateLoop (p : RtpPacketizerH264) : Nat → Nat → Nat → List (Nat × Nat) → List Packet × List (Nat × Nat)
  | _, _, _, [] => ([], [])
  | payloadSizeLeft, aggregatedFragments, fragmentHeadersLength, (offset, length) :: fragments =>
    if payloadSizeLeft ≥ length + fragmentHeadersLength then
      let packet : Packet :=
        { offset
          size := length
          firstFragment := decide (aggregatedFragments = 0)
          lastFragment := false
          aggregated := true
          header := byteAt p.payloadData offset }
      let (packets, rest) := p.aggregateLoop (payloadSizeLeft - length - fragmentHeadersLength)
        (aggregatedFragments + 1)
        (if aggregatedFragments = 0 then kLengthFieldSize + (kNalHeaderSize + kLengthFieldSize) else kLengthFieldSize)
        fragments
      (packet :: packets, rest)
    else ([], (offset, length) :: fragments)

/-- `packets_.back().last_fragment = true`. -/
def markLast : List Packet → List Packet
  | [] => []
  | [packet] => [{ packet with lastFragment := true }]
  | packet :: packets => packet :: markLast packets

def packetizeStapA (p : RtpPacketizerH264) (fragments : List (Nat × Nat)) : List Packet × List (Nat × Nat) :=
  let (packets, rest) := p.aggregateLoop p.maxPayloadLen 0 0 fragments
  (markLast packets, rest)

def generatePackets (p : RtpPacketizerH264) : Nat → List (Nat × Nat) → List Packet
  | _, [] => []
  | 0, _ :: _ => []
  | rounds + 1, (offset, length) :: fragments =>
    if length > p.maxPayloadLen then p.packetizeFuA offset length ++ p.generatePackets rounds fragments
    else
      let (packets, rest) := p.packetizeStapA ((offset, length) :: fragments)
      packets ++ p.generatePackets rounds rest

/-- The queue after `SetPayloadData`. -/
def packets (p : RtpPacketizerH264) : List Packet :=
  let fragments := p.fragmentation.fragmentationOffset.zip p.fragmentation.fragmentationLength
  p.generatePackets fragments.length fragments

def dataOf (p : RtpPacketizerH264) (packet : Packet) : List UInt8 := (p.payloadData.drop packet.offset).take packet.size

/-- The loop of `NextAggregatePacket`. -/
def aggregatedUnits (p : RtpPacketizerH264) : List Packet → List UInt8 × List Packet
  | [] => ([], [])
  | packet :: packets =>
    if packet.aggregated then
      let unit := be16 (UInt16.ofNat packet.size) ++ p.dataOf packet
      if packet.lastFragment then (unit, packets)
      else
        let (units, rest) := p.aggregatedUnits packets
        (unit ++ units, rest)
    else ([], packet :: packets)

def nextAggregatePacket (p : RtpPacketizerH264) (packet : Packet) (packets : List Packet) : List UInt8 × List Packet :=
  let (units, rest) := p.aggregatedUnits (packet :: packets)
  (((packet.header &&& (kFBit ||| kNriMask)) ||| kStapA) :: units, rest)

def nextFragmentPacket (p : RtpPacketizerH264) (packet : Packet) : List UInt8 :=
  let fuIndicator := (packet.header &&& (kFBit ||| kNriMask)) ||| kFuA
  let fuHeader := (if packet.firstFragment then kSBit else 0) ||| (if packet.lastFragment then kEBit else 0) |||
    (packet.header &&& kTypeMask)
  fuIndicator :: fuHeader :: p.dataOf packet

/-- The bytes of a packet and the queue after it. -/
def nextPacket (p : RtpPacketizerH264) : List Packet → Option (List UInt8 × List Packet)
  | [] => none
  | packet :: packets =>
    some (if packet.firstFragment && packet.lastFragment then (p.dataOf packet, packets)
      else if packet.aggregated then p.nextAggregatePacket packet packets
      else (p.nextFragmentPacket packet, packets))

/-- `NextPacket` until there is none. -/
def sendAll (p : RtpPacketizerH264) : Nat → List Packet → List (List UInt8)
  | 0, _ => []
  | rounds + 1, packets =>
    match p.nextPacket packets with
    | none => []
    | some (bytes, rest) => bytes :: p.sendAll rounds rest

def packetize (p : RtpPacketizerH264) : List (List UInt8) := p.sendAll p.packets.length p.packets

end RtpPacketizerH264

/-! ## The depacketizer -/

inductive PacketizationType where
  | singleNalu
  | stapA
  | fuA
deriving DecidableEq, Repr

inductive FrameType where
  | videoFrameKey
  | videoFrameDelta
deriving DecidableEq, Repr

structure ParsedPayload where
  payload : List UInt8
  frameType : FrameType
  resolution : UInt16 × UInt16
  isFirstPacket : Bool
  naluType : UInt8
  packetizationType : PacketizationType
deriving DecidableEq, Repr

def verifyStapANaluLengths : List UInt8 → Bool
  | [] => true
  | [_] => false
  | a :: b :: rest =>
    if read16 a b > rest.length then false
    else verifyStapANaluLengths (rest.drop (read16 a b))
termination_by bytes => bytes.length
decreasing_by
  simp only [List.length_drop, List.length_cons]
  omega

variable (sps : List UInt8 → Option (UInt16 × UInt16))

def parseSingleNalu (payloadData : List UInt8) : Option ParsedPayload := do
  let naluStart := payloadData.drop kNalHeaderSize
  let stapA := decide (byteAt payloadData 0 &&& kTypeMask = kStapA)
  guard (!stapA || !decide (payloadData.length ≤ kStapAHeaderSize))
  guard (!stapA || verifyStapANaluLengths naluStart)
  let nalType := if stapA then byteAt payloadData kStapAHeaderSize &&& kTypeMask else byteAt payloadData 0 &&& kTypeMask
  some
    { payload := payloadData
      frameType := if nalType = kSps ∨ nalType = kPps ∨ nalType = kIdr then .videoFrameKey else .videoFrameDelta
      resolution :=
        if nalType = kSps then (sps (if stapA then naluStart.drop kStapAHeaderSize
          else naluStart)).getD (0, 0) else (0, 0)
      isFirstPacket := true
      naluType := nalType
      packetizationType := if stapA then .stapA else .singleNalu }

def parseFuaNalu (payloadData : List UInt8) : Option ParsedPayload := do
  guard (!decide (payloadData.length < kFuAHeaderSize))
  let fnri := byteAt payloadData 0 &&& (kFBit ||| kNriMask)
  let originalNalType := byteAt payloadData 1 &&& kTypeMask
  let firstFragment := byteAt payloadData 1 &&& kSBit > 0
  some
    { payload :=
        if firstFragment then (fnri ||| originalNalType) :: payloadData.drop kFuAHeaderSize
        else payloadData.drop kFuAHeaderSize
      frameType := if originalNalType = kIdr then .videoFrameKey else .videoFrameDelta
      resolution := (0, 0)
      isFirstPacket := firstFragment
      naluType := originalNalType
      packetizationType := .fuA }

/-- `RtpDepacketizerH264::Parse`. -/
def parse (payloadData : List UInt8) : Option ParsedPayload :=
  if payloadData.length = 0 then none
  else if byteAt payloadData 0 &&& kTypeMask = kFuA then parseFuaNalu payloadData
  else parseSingleNalu sps payloadData

end WebRtc.H264
