import WebRtc.Fec.Decoder
import WebRtc.Fec.Encoder
import WebRtc.Lib.Memory

/-!
# RED encapsulation (`producer_fec.cc`, `fec_receiver_impl.cc`)

| here | there |
| --- | --- |
| `RedPacket` with `createHeader`, `setSeqNum`, `assignPayload`, `clearMarkerBit` | `RedPacket` (producer_fec.cc:40-88) |
| `buildRedPacket`       | `ProducerFec::BuildRedPacket` (:123) |
| `ProducerFec`          | `media_packets_fec_` and `fec_packets_` |
| `redFecPackets`, `getFecPackets` | the loop of `ProducerFec::GetFecPackets` and the function (:214) |
| `RtpHeader`            | `headerLength` and `sequenceNumber` of `RTPHeader` |
| `FecReceiver`          | `received_packet_list_` and `packet_counter_` of `FecReceiverImpl` |
| `redHeader`            | the part of `AddReceivedRedPacket` that reads the RED header (fec_receiver_impl.cc:100-142) |
| `addReceivedRedPacket` | `FecReceiverImpl::AddReceivedRedPacket` (:77) |

A received packet is the list of its bytes. The receiver fails where the code reads outside of it, or writes behind
the `ipPacketSize` bytes of a packet's `data` (`OutOfBounds`); the sender has no result where it reads there. What
memory holds before it is written is a parameter (`fresh`, `unset`).
-/

namespace WebRtc.Fec

open Bytes

abbrev redForFecHeaderLength : Nat := 1

/-! ## The sender -/

structure RedPacket where
  data : Memory
  length : Nat
  headerLength : Nat

def setByte (mem : Memory) (p : Nat) (b : UInt8) : Memory := fun a => if a = p then b else mem a

namespace RedPacket

def new (fresh : Memory) (length : Nat) : RedPacket := ⟨fresh, length, 0⟩

def createHeader (r : RedPacket) (rtpHeader : List UInt8) (redPlType plType : Nat) : RedPacket :=
  let copied := r.data.memcpy 0 rtpHeader
  -- Replace payload type.
  let typed := setByte copied 1 ((copied 1 &&& 0x80) + UInt8.ofNat redPlType)
  -- f-bit always 0
  { r with
    data := setByte typed rtpHeader.length (UInt8.ofNat plType)
    headerLength := rtpHeader.length + redForFecHeaderLength }

def setSeqNum (r : RedPacket) (seqNum : UInt16) : RedPacket :=
  { r with data := setByte (setByte r.data 2 (hi16 seqNum.toNat)) 3 (lo16 seqNum.toNat) }

def assignPayload (r : RedPacket) (payload : List UInt8) : RedPacket :=
  { r with data := r.data.memcpy r.headerLength payload }

def clearMarkerBit (r : RedPacket) : RedPacket := { r with data := setByte r.data 1 (r.data 1 &&& 0x7f) }

/-- What is sent. -/
def bytes (r : RedPacket) : List UInt8 := r.data.read 0 r.length

end RedPacket

def buildRedPacket (fresh dataBuffer : Memory) (payloadLength rtpHeaderLength redPlType : Nat) : RedPacket :=
  let plType := dataBuffer 1 &&& 0x7f
  ((RedPacket.new fresh (payloadLength + redForFecHeaderLength + rtpHeaderLength)).createHeader
    (dataBuffer.read 0 rtpHeaderLength) redPlType plType.toNat).assignPayload
      (dataBuffer.read rtpHeaderLength payloadLength)

structure ProducerFec where
  mediaPacketsFec : List Packet
  fecPackets : List Packet

/-- The first `n` bytes of a packet. -/
def dataBytes (packet : Packet) (n : Nat) : Option (List UInt8) :=
  if n ≤ ipPacketSize then some (Memory.read packet.data 0 n) else none

/-- The loop over the FEC packets left. -/
def redFecPackets (fresh : Memory) (mediaPacketsFec : List Packet) (redPlType fecPlType rtpHeaderLength : Nat) :
    List Packet → UInt16 → Option (List RedPacket)
  | [], _ => some []
  | packetToSend :: rest, sequenceNumber => do
    let lastMediaPacket ← mediaPacketsFec.getLast?
    let rtpHeader ← dataBytes lastMediaPacket rtpHeaderLength
    let red := (RedPacket.new fresh (packetToSend.length + redForFecHeaderLength + rtpHeaderLength)).createHeader
      rtpHeader redPlType fecPlType
    let payload ← dataBytes packetToSend packetToSend.length
    let red := ((red.setSeqNum sequenceNumber).clearMarkerBit).assignPayload payload
    let reds ← redFecPackets fresh mediaPacketsFec redPlType fecPlType rtpHeaderLength rest (sequenceNumber + 1)
    some (red :: reds)

/-- The packets and what the producer has left. -/
def getFecPackets (fresh : Memory) (s : ProducerFec) (redPlType fecPlType : Nat)
    (firstSeqNum : UInt16) (rtpHeaderLength : Nat) :
    Option (List RedPacket × ProducerFec) :=
  (redFecPackets fresh s.mediaPacketsFec redPlType fecPlType rtpHeaderLength s.fecPackets firstSeqNum).map (·, ⟨[], []⟩)

/-! ## The receiver -/

structure RtpHeader where
  headerLength : Nat
  sequenceNumber : UInt16

structure FecReceiver where
  receivedPacketList : List ReceivedPacket
  numPackets : Nat
  numFecPackets : Nat

/-- Where the receiver reads or writes and must not. -/
inductive OutOfBounds where
  /-- outside of the received packet -/
  | received
  /-- behind a packet's `data` -/
  | data
deriving DecidableEq

def byteOf (packet : List UInt8) (k : Nat) : Except OutOfBounds UInt8 :=
  if h : k < packet.length then .ok packet[k] else .error .received

/-- `n` bytes of a packet from `off` on. -/
def slice (packet : List UInt8) (off n : Nat) : Except OutOfBounds (List UInt8) :=
  if off + n ≤ packet.length then .ok ((packet.drop off).take n) else .error .received

/-- The `data` of a new packet. -/
def newData : Memory := blank.data

/-- `memcpy` to `data + off`. -/
def copyTo (data : Memory) (off : Nat) (bytes : List UInt8) : Except OutOfBounds Memory :=
  if off + bytes.length ≤ ipPacketSize then .ok (data.memcpy off bytes) else .error .data

/-- The length of the RED header as far as it is known here, and `blockLength`. `none` refuses the packet. -/
def redHeader (packet : List UInt8) (headerLength payloadDataLength : Nat) (red : UInt8) :
    Except OutOfBounds (Option (Nat × Nat)) :=
  if red &&& 0x80 = 0 then .ok (some (1, 0))
  else if payloadDataLength < 4 + 1 then .ok none
  else do
    let b1 ← byteOf packet (headerLength + 1)
    let b2 ← byteOf packet (headerLength + 2)
    let timestampOffset := read16 b1 b2 / 4
    if timestampOffset ≠ 0 then .ok none
    else do
      let b3 ← byteOf packet (headerLength + 3)
      let blockLength := read16 (0x03 &&& b2) b3
      let b4 ← byteOf packet (headerLength + 4)
      if b4 &&& 0x80 ≠ 0 then .ok none
      else if blockLength > payloadDataLength - (4 + 1) then .ok none
      else .ok (some (4, blockLength))

/-- The RTP header with the payload type of the block, and `n` bytes from behind the RED header. -/
def mediaData (packet : List UInt8) (headerLength redHeaderLength n : Nat) (payloadType : UInt8) :
    Except OutOfBounds Memory := do
  let head ← slice packet 0 headerLength
  let copied ← copyTo newData 0 head
  let typed := setByte copied 1 ((copied 1 &&& 0x80) + payloadType)
  let payload ← slice packet (headerLength + redHeaderLength) n
  copyTo typed headerLength payload

/-- The return value and the receiver. -/
def addReceivedRedPacket (unset : UInt32) (s : FecReceiver) (header : RtpHeader)
    (packet : List UInt8) (ulpfecPayloadType : UInt8) :
    Except OutOfBounds (Int × FecReceiver) :=
  if packet.length = header.headerLength then .ok (-1, s)
  else do
    let payloadDataLength := packet.length - header.headerLength
    let red ← byteOf packet header.headerLength
    let payloadType := red &&& 0x7f
    let isFec := payloadType == ulpfecPayloadType
    match ← redHeader packet header.headerLength payloadDataLength red with
    | none => .ok (-1, s)
    | some (redHeaderLength, blockLength) =>
      let s := { s with numPackets := s.numPackets + 1 }
      if blockLength > 0 then do
        let redHeaderLength := 5
        let data ← mediaData packet header.headerLength redHeaderLength blockLength payloadType
        let received : ReceivedPacket := ⟨header.sequenceNumber, unset, isFec, ⟨blockLength, data⟩⟩
        let rest := payloadDataLength - redHeaderLength - blockLength
        let payload ← slice packet (header.headerLength + redHeaderLength + blockLength) rest
        let data ← copyTo newData 0 payload
        let second : ReceivedPacket := ⟨header.sequenceNumber, unset, true, ⟨rest, data⟩⟩
        .ok (0, { s with
          receivedPacketList := s.receivedPacketList ++ [received, second], numFecPackets := s.numFecPackets + 1 })
      else if isFec then do
        let rest := payloadDataLength - redHeaderLength
        let payload ← slice packet (header.headerLength + redHeaderLength) rest
        let data ← copyTo newData 0 payload
        let ssrc ← slice packet 8 4
        let received : ReceivedPacket := ⟨header.sequenceNumber, read32At ssrc 0, true, ⟨rest, data⟩⟩
        let s := { s with numFecPackets := s.numFecPackets + 1 }
        if rest = 0 then .ok (0, s) else .ok (0, { s with receivedPacketList := s.receivedPacketList ++ [received] })
      else do
        let rest := payloadDataLength - redHeaderLength
        let data ← mediaData packet header.headerLength redHeaderLength rest payloadType
        let length := header.headerLength + payloadDataLength - redHeaderLength
        let received : ReceivedPacket := ⟨header.sequenceNumber, unset, false, ⟨length, data⟩⟩
        if length = 0 then .ok (0, s)
          else .ok (0, { s with receivedPacketList := s.receivedPacketList ++ [received] })

end WebRtc.Fec
