import WebRtc.Rtp.Layout

/-!
# Header extensions at the sender

| here | there |
| --- | --- |
| `createRtpHeader` | `RTPSender::CreateRtpHeader`, `rtp_sender.cc:1154-1190` |
| `buildRTPHeaderExtension`, `build…Extension` | `rtp_sender.cc:1217-1436` |
| `findHeaderExtensionPosition`, `verifyExtension`, `update…` | `rtp_sender.cc:1438-1636` |

The source writes the first octet of the header first and sets the number of contributing sources and the
extension bit later; here it is put together at once. What `FindHeaderExtensionPosition` adds up is
`kRtpHeaderLength + rtp_header.numCSRCs + extension_block_pos`.
-/

namespace WebRtc.Rtp

open Bytes

inductive VideoRotation where
  | rotation0
  | rotation90
  | rotation180
  | rotation270
deriving DecidableEq, Repr

def convertVideoRotationToCVOByte : VideoRotation → UInt8
  | .rotation0 => 0
  | .rotation90 => 1
  | .rotation180 => 2
  | .rotation270 => 3

/-- Milliseconds to 24 bits, 18 of them for the fraction of a second. The product is of 64 bits. -/
def convertMsTo24Bits (timeMs : Int) : UInt32 :=
  UInt32.ofNat ((((timeMs % 18446744073709551616).toNat * 262144 % 18446744073709551616 +
    500) % 18446744073709551616 / 1000) % 16777216)

/-- The lower 32 bits of a signed number. -/
def toU32 (x : Int) : UInt32 := UInt32.ofNat (x % 4294967296).toNat

structure RTPSender where
  rtpHeaderExtensionMap : RtpHeaderExtensionMap
  transmissionTimeOffset : Int
  absoluteSendTime : UInt32
  rotation : VideoRotation
  transportSequenceNumber : UInt16

namespace RTPSender

variable (s : RTPSender)

/-- The first octet of an extension; `len` is the number of bytes of its value less one. -/
def elementOctet (id : UInt8) (len : Nat) : UInt8 := (id <<< 4) + UInt8.ofNat len

/-- An extension with a value; nothing when it is not registered. -/
def buildExtension (type : RTPExtensionType) (len : Nat) (data : List UInt8) : List UInt8 :=
  match s.rtpHeaderExtensionMap.getId type with
  | none => []
  | some id => elementOctet id len :: data

def buildTransmissionTimeOffsetExtension : List UInt8 :=
  s.buildExtension .transmissionTimeOffset 2 (be24 (toU32 s.transmissionTimeOffset))

/-- Voice, 0 dBov. -/
def buildAudioLevelExtension : List UInt8 := s.buildExtension .audioLevel 0 [0x80]

def buildAbsoluteSendTimeExtension : List UInt8 := s.buildExtension .absoluteSendTime 2 (be24 s.absoluteSendTime)

def buildVideoRotationExtension : List UInt8 :=
    s.buildExtension .videoRotation 0 [convertVideoRotationToCVOByte s.rotation]

def buildTransportSequenceNumberExtension (sequenceNumber : UInt16) : List UInt8 :=
  s.buildExtension .transportSequenceNumber 1 (be16 sequenceNumber)

/-- The switch over the types. -/
def buildOne : RTPExtensionType → List UInt8
  | .none => []
  | .transmissionTimeOffset => s.buildTransmissionTimeOffsetExtension
  | .audioLevel => s.buildAudioLevelExtension
  | .absoluteSendTime => s.buildAbsoluteSendTimeExtension
  | .videoRotation => s.buildVideoRotationExtension
  | .transportSequenceNumber => s.buildTransportSequenceNumberExtension s.transportSequenceNumber

/-- The walk over the map from `type` on. -/
def buildAll : Nat → RTPExtensionType → Option (List UInt8)
  | 0, type => if type = .none then some [] else none
  | fuel + 1, type =>
    if type = .none then some []
    else (buildAll fuel (s.rtpHeaderExtensionMap.next type)).map fun rest => s.buildOne type ++ rest

/-- `Word32Align`. -/
def word32Align (size : Nat) : Nat := if size % 4 ≠ 0 then size + 4 - size % 4 else size

def buildRTPHeaderExtension : Option (List UInt8) :=
  if s.rtpHeaderExtensionMap.size = 0 then some []
  else (s.buildAll s.rtpHeaderExtensionMap.entries.length s.rtpHeaderExtensionMap.first).map fun block =>
    if block.length = 0 then []
    else
      -- Add padding elements until we've filled a 32 bit block.
      let padded := block ++ List.replicate (word32Align block.length - block.length) 0
      be16 0xBEDE ++ be16 (UInt16.ofNat (padded.length / 4)) ++ padded

def createRtpHeader (payloadType : UInt8) (ssrc : UInt32) (markerBit : Bool) (timestamp : UInt32)
    (sequenceNumber : UInt16)
    (csrcs : List UInt32) : Option (List UInt8) :=
  s.buildRTPHeaderExtension.map fun extension =>
    let first := flag (decide (extension.length > 0)) 0x10 ||| (0x80 ||| UInt8.ofNat csrcs.length)
    let second := if markerBit then payloadType ||| 0x80 else payloadType
    [first, second] ++ be16 sequenceNumber ++ be32 timestamp ++ be32 ssrc ++ csrcs.flatMap be32 ++ extension

/-! ## Updates -/

def findHeaderExtensionPosition (type : RTPExtensionType) (rtpPacket : List UInt8)
    (rtpHeader : RTPHeader) : Option Nat :=
  match s.rtpHeaderExtensionMap.getLengthUntilBlockStartInBytes type with
  | none => none
  | some extensionBlockPos =>
    let blockPos := 12 + rtpHeader.numCSRCs + extensionBlockPos
    if rtpPacket.length < blockPos + type.length ∨ rtpHeader.headerLength < blockPos + type.length then none
    -- Verify that header contains extension.
    else if ¬ (byteAt rtpPacket (12 + rtpHeader.numCSRCs) = 0xBE ∧
      byteAt rtpPacket (12 + rtpHeader.numCSRCs + 1) = 0xDE) then none
    else some blockPos

/-- The position of an extension; none where the source has an error. -/
def verifyExtension (type : RTPExtensionType) (rtpPacket : List UInt8) (rtpHeader : RTPHeader)
    (extensionLengthBytes : Nat) :
    Option Nat :=
  match s.rtpHeaderExtensionMap.getId type with
  | none => none
  | some id =>
    match s.findHeaderExtensionPosition type rtpPacket rtpHeader with
    | none => none
    | some blockPos =>
      if ¬ (byteAt rtpPacket (12 + rtpHeader.numCSRCs) = 0xBE ∧
        byteAt rtpPacket (12 + rtpHeader.numCSRCs + 1) = 0xDE) then none
      -- Verify first byte in block.
      else if byteAt rtpPacket blockPos ≠ elementOctet id (extensionLengthBytes - 2) then none
      else some blockPos

/-- Write over the value of an extension, where it is found. -/
def updateExtension (type : RTPExtensionType) (extensionLengthBytes : Nat) (rtpPacket : List UInt8)
    (rtpHeader : RTPHeader)
    (data : List UInt8) : List UInt8 :=
  match s.verifyExtension type rtpPacket rtpHeader extensionLengthBytes with
  | none => rtpPacket
  | some offset => put rtpPacket (offset + 1) data

/-- Converted to a 90 kHz timestamp. -/
def updateTransmissionTimeOffset (rtpPacket : List UInt8) (rtpHeader : RTPHeader) (timeDiffMs : Int) : List UInt8 :=
  s.updateExtension .transmissionTimeOffset 4 rtpPacket rtpHeader (be24 (toU32 (timeDiffMs * 90)))

def updateAudioLevel (rtpPacket : List UInt8) (rtpHeader : RTPHeader) (isVoiced : Bool) (dBov : UInt8) : List UInt8 :=
  s.updateExtension .audioLevel 2 rtpPacket rtpHeader [(if isVoiced then 0x80 else 0x00) + (dBov &&& 0x7F)]

def updateVideoRotation (rtpPacket : List UInt8) (rtpHeader : RTPHeader) (rotation : VideoRotation) : List UInt8 :=
  s.updateExtension .videoRotation 2 rtpPacket rtpHeader [convertVideoRotationToCVOByte rotation]

def updateAbsoluteSendTime (rtpPacket : List UInt8) (rtpHeader : RTPHeader) (nowMs : Int) : List UInt8 :=
  s.updateExtension .absoluteSendTime 4 rtpPacket rtpHeader (be24 (convertMsTo24Bits nowMs))

/-- The number is what the allocator gives. The octet before the value is written again. -/
def updateTransportSequenceNumber (rtpPacket : List UInt8) (rtpHeader : RTPHeader) (seq : UInt16) : List UInt8 :=
  match s.verifyExtension .transportSequenceNumber rtpPacket rtpHeader 3 with
  | none => rtpPacket
  | some offset => put rtpPacket offset (s.buildTransportSequenceNumberExtension seq)

end RTPSender

end WebRtc.Rtp
