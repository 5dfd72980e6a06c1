import WebRtc.Lib.Bytes

/-!
# RTP headers and header extensions

| here | there |
| --- | --- |
| `RTPHeader`, `RTPHeaderExtension` | `common_types.h:791-828` |
| `RtpHeaderExtensionMap` | `rtp_header_extension.h`, `rtp_header_extension.cc` |

The map is the list of its entries in the order of their ids.
-/

namespace WebRtc.Rtp

/-- `IP_PACKET_SIZE`. -/
def ipPacketSize : Nat := 1500

structure RTPHeaderExtension where
  hasTransmissionTimeOffset : Bool
  transmissionTimeOffset : Int
  hasAbsoluteSendTime : Bool
  absoluteSendTime : UInt32
  hasTransportSequenceNumber : Bool
  transportSequenceNumber : UInt16
  hasAudioLevel : Bool
  voiceActivity : Bool
  audioLevel : UInt8
  hasVideoRotation : Bool
  videoRotation : UInt8
deriving DecidableEq, Repr

structure RTPHeader where
  markerBit : Bool
  payloadType : UInt8
  sequenceNumber : UInt16
  timestamp : UInt32
  ssrc : UInt32
  numCSRCs : Nat
  arrOfCSRCs : List UInt32
  paddingLength : Nat
  headerLength : Nat
  payloadTypeFrequency : Int
  extension : RTPHeaderExtension
deriving DecidableEq, Repr

def RTPHeaderExtension.empty : RTPHeaderExtension := ⟨false, 0, false, 0, false, 0, false, false, 0, false, 0⟩

/-- `RTPHeader::RTPHeader`; there are `kRtpCsrcSize` places for contributing sources. -/
def RTPHeader.empty : RTPHeader := ⟨false, 0, 0, 0, 0, 0, List.replicate 15 0, 0, 0, 0, .empty⟩

inductive RTPExtensionType where
  /-- `kRtpExtensionNone`. -/
  | none
  | transmissionTimeOffset
  | audioLevel
  | absoluteSendTime
  | videoRotation
  | transportSequenceNumber
deriving DecidableEq, Repr

/-- The length `HeaderExtension::Init` sets, the octet with id and length included. -/
def RTPExtensionType.length : RTPExtensionType → Nat
  | .none => 0
  | .transmissionTimeOffset | .absoluteSendTime => 4
  | .audioLevel | .videoRotation => 2
  | .transportSequenceNumber => 3

structure HeaderExtension where
  id : UInt8
  type : RTPExtensionType
  active : Bool
deriving DecidableEq, Repr

/-- A `std::map` from ids to extensions. `Register` takes ids from 1 to 14. -/
structure RtpHeaderExtensionMap where
  entries : List HeaderExtension
  sorted : entries.Pairwise fun a b => a.id < b.id
  range : ∀ e ∈ entries, 1 ≤ e.id ∧ e.id ≤ 14

namespace RtpHeaderExtensionMap

variable (m : RtpHeaderExtensionMap)

def getType (id : UInt8) : Option RTPExtensionType := (m.entries.find? fun e => e.id = id).map HeaderExtension.type

def getId (type : RTPExtensionType) : Option UInt8 := (m.entries.find? fun e => e.type = type).map HeaderExtension.id

/-- The extensions in use. -/
def activeEntries : List HeaderExtension := m.entries.filter HeaderExtension.active

def size : Nat := m.activeEntries.length

def first : RTPExtensionType := ((m.entries.find? HeaderExtension.active).map HeaderExtension.type).getD .none

/-- The next extension in use behind `type`. -/
def next (type : RTPExtensionType) : RTPExtensionType :=
  match m.entries.dropWhile fun e => e.type ≠ type with
  | [] => .none
  | e :: rest => if e.active then ((rest.find? HeaderExtension.active).map HeaderExtension.type).getD .none else .none

/-- The loop of `GetLengthUntilBlockStartInBytes`. -/
def lengthUntil (type : RTPExtensionType) : List HeaderExtension → Nat → Option Nat
  | [], length => some length
  | e :: rest, length =>
    if e.type = type then (if e.active then some length else none)
    else lengthUntil type rest (if e.active then length + e.type.length else length)

/-- From the beginning of the extension header on; `kRtpOneByteHeaderLength` is 4. -/
def getLengthUntilBlockStartInBytes (type : RTPExtensionType) : Option Nat :=
  match m.getId type with
  | none => none
  | some _ => lengthUntil type m.entries 4

end RtpHeaderExtensionMap

end WebRtc.Rtp
