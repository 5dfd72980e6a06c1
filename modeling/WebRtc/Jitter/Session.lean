import WebRtc.Common.Numbers
import WebRtc.Lib.Bytes
import WebRtc.Lib.Memory
import Mathlib.Data.List.DropRight

/-!
# The packets of one frame

| here | there |
| --- | --- |
| `VCMPacket` | `packet.h:20-56` |
| `VCMSessionInfo` | `session_info.h:120-168`, `session_info.cc:26-36` |
| `nalUnits`, `insertBuffer` | `session_info.cc:158-216` |
| `insert`, `shiftSubsequentPackets` | `session_info.cc:218-249` |
| `updateCompleteSession` | `session_info.cc:251-265` |
| `trackFirst`, `trackLast`, `insertPacket` | `session_info.cc:475-564` |
| `informOfEmptyPacket` | `session_info.cc:566-579` |

A sequence number that the source marks with -1 is none. Addresses are relative to the start of the
frame buffer, for which `VCMFrameBuffer::InsertPacket` has made room; a pointer that is NULL is marked.
-/

namespace WebRtc.Jitter

open Bytes

def kMaxPacketsInSession : Nat := 1400
def kH264StartCodeLengthBytes : Nat := 4
def startCode : List UInt8 := [0, 0, 0, 1]

inductive FrameType where
  | emptyFrame
  | audioFrameSpeech
  | audioFrameCN
  | videoFrameKey
  | videoFrameDelta
deriving DecidableEq, Repr

inductive VideoCodecType where
  | vp8
  | vp9
  | h264
  | unknown
deriving DecidableEq, Repr

/-- `δ` tells of the data: its bytes when the packet arrives, where it stands when it is in a frame. -/
structure VCMPacket (δ : Type) where
  timestamp : UInt32 := 0
  seqNum : UInt16
  data : δ
  markerBit : Bool
  frameType : FrameType
  codec : VideoCodecType
  isFirstPacket : Bool
  insertStartCode : Bool := false
  /-- The codec specific header tells of an H.264 STAP-A. -/
  isStapA : Bool := false
deriving DecidableEq, Repr

abbrev ReceivedPacket := VCMPacket (List UInt8)

structure Area where
  dataPtr : Nat
  sizeBytes : Nat
  /-- `dataPtr` is NULL, as it is of a packet that came before the frame had a buffer. -/
  isNull : Bool := false
deriving DecidableEq, Repr

abbrev StoredPacket := VCMPacket Area

structure VCMSessionInfo where
  complete : Bool := false
  frameType : FrameType := .videoFrameDelta
  packets : List StoredPacket := []
  emptySeqNumLow : Option UInt16 := none
  emptySeqNumHigh : Option UInt16 := none
  firstPacketSeqNum : Option UInt16 := none
  lastPacketSeqNum : Option UInt16 := none
deriving DecidableEq, Repr

/-! ## The buffer -/

def totalSize (packets : List StoredPacket) : Nat := (packets.map fun q => q.data.sizeBytes).sum

/-- The bytes after the header of a STAP-A. The depacketizer lets no unit through that reaches past the end. -/
def nalUnits : List UInt8 → List (List UInt8)
  | a :: b :: rest => rest.take (read16 a b) :: nalUnits (rest.drop (read16 a b))
  | _ => []
termination_by bytes => bytes.length
decreasing_by simp only [List.length_drop, List.length_cons]; omega

def startCodeLength (insertStartCode : Bool) : Nat := if insertStartCode then kH264StartCodeLengthBytes else 0

/-- Returns the number of bytes too. -/
def insert (frameBuffer : Memory) (buffer : List UInt8) (insertStartCode : Bool) (dst : Nat) : Memory × Nat :=
  let started := if insertStartCode then frameBuffer.memcpy dst startCode else frameBuffer
  (started.memcpy (dst + startCodeLength insertStartCode) buffer, buffer.length + startCodeLength insertStartCode)

def insertUnits (frameBuffer : Memory) (insertStartCode : Bool) (dst : Nat) : List (List UInt8) → Memory
  | [] => frameBuffer
  | unit :: units =>
    let (written, length) := insert frameBuffer unit insertStartCode dst
    insertUnits written insertStartCode (dst + length) units

def shifted (stepsToShift : Nat) (q : StoredPacket) : StoredPacket :=
  if q.data.isNull then q else { q with data := { q.data with dataPtr := q.data.dataPtr + stepsToShift } }

/-- What is moved from NULL does not come from the frame buffer. -/
def shiftSubsequentPackets (frameBuffer : Memory) (stepsToShift : Nat) : List StoredPacket → List StoredPacket × Memory
  | [] => ([], frameBuffer)
  | first :: rest =>
    ((first :: rest).map (shifted stepsToShift),
      if first.data.isNull then frameBuffer
      else frameBuffer.memmove (first.data.dataPtr + stepsToShift) first.data.dataPtr (totalSize (first :: rest)))

@[simp] theorem shifted_seqNum (stepsToShift : Nat) (q : StoredPacket) :
    (shifted stepsToShift q).seqNum = q.seqNum := by
  unfold shifted
  split <;> rfl

@[simp] theorem shifted_sizeBytes (stepsToShift : Nat) (q : StoredPacket) :
    (shifted stepsToShift q).data.sizeBytes = q.data.sizeBytes := by
  unfold shifted
  split <;> rfl

@[simp] theorem shifted_isNull (stepsToShift : Nat) (q : StoredPacket) :
    (shifted stepsToShift q).data.isNull = q.data.isNull := by
  unfold shifted
  split <;> rfl

theorem shifted_of_placed {q : StoredPacket} (stepsToShift : Nat) (h : q.data.isNull = false) :
    shifted stepsToShift q = { q with data := { q.data with dataPtr := q.data.dataPtr + stepsToShift } } :=
  if_neg (by rw [h]; exact Bool.false_ne_true)

/-- The list with the packet in its place, the buffer and the number of bytes in it. -/
def insertBuffer (frameBuffer : Memory) (before : List StoredPacket) (packet : ReceivedPacket)
    (after : List StoredPacket) :
    List StoredPacket × Memory × Nat :=
  let offset := totalSize before
  if packet.isStapA then
    let units := nalUnits (packet.data.drop 1)
    let requiredLength := (units.map fun unit => unit.length + startCodeLength packet.insertStartCode).sum
    let (shifted, moved) := shiftSubsequentPackets frameBuffer requiredLength after
    (before ++ { packet with data := { dataPtr := offset, sizeBytes := requiredLength : Area } } :: shifted,
      insertUnits moved packet.insertStartCode offset units, requiredLength)
  else
    let (shifted, moved) :=
      shiftSubsequentPackets frameBuffer (packet.data.length + startCodeLength packet.insertStartCode) after
    let (written, sizeBytes) := insert moved packet.data packet.insertStartCode offset
    (before ++ { packet with data := { dataPtr := offset, sizeBytes : Area } } :: shifted, written, sizeBytes)

namespace VCMSessionInfo

/-! ## The packets -/

def haveFirstPacket (s : VCMSessionInfo) : Bool := s.packets ≠ [] && s.firstPacketSeqNum.isSome

def haveLastPacket (s : VCMSessionInfo) : Bool := s.packets ≠ [] && s.lastPacketSeqNum.isSome

def inSequence (packet previous : StoredPacket) : Bool := previous.seqNum + 1 == packet.seqNum

/-- Nothing is lost between the first of `packets` and the last. -/
def allInSequence : List StoredPacket → Bool
  | previous :: packet :: rest => inSequence packet previous && allInSequence (packet :: rest)
  | _ => true

def updateCompleteSession (s : VCMSessionInfo) : VCMSessionInfo :=
  if s.haveFirstPacket && s.haveLastPacket then { s with complete := allInSequence s.packets } else s

def informOfEmptyPacket (s : VCMSessionInfo) (seqNum : UInt16) : VCMSessionInfo :=
  { s with
    emptySeqNumHigh := some (match s.emptySeqNumHigh with
      | none => seqNum
      | some high => latestSequenceNumber seqNum high)
    emptySeqNumLow := match s.emptySeqNumLow with
      | none => some seqNum
      | some low => if isNewerSequenceNumber low seqNum then some seqNum else some low }

/-- None when the packet is before the first one. -/
def trackFirst (s : VCMSessionInfo) (packet : ReceivedPacket) : Option VCMSessionInfo :=
  if packet.codec = .h264 then
    let first := if packet.isFirstPacket && s.firstPacketSeqNum.all (isNewerSequenceNumber · packet.seqNum) then
        some packet.seqNum
      else s.firstPacketSeqNum
    some { s with frameType := packet.frameType, firstPacketSeqNum := first }
  else if packet.isFirstPacket ∧ s.firstPacketSeqNum = none then
    some { s with frameType := packet.frameType, firstPacketSeqNum := some packet.seqNum }
  else if s.firstPacketSeqNum.any (isNewerSequenceNumber · packet.seqNum) then none
  else if s.frameType = .emptyFrame ∧ packet.frameType ≠ .emptyFrame then some { s with frameType := packet.frameType }
  else some s

/-- None when the packet is after the one with the marker. -/
def trackLast (s : VCMSessionInfo) (packet : ReceivedPacket) : Option VCMSessionInfo :=
  if packet.codec = .h264 then
    let last := if packet.markerBit && s.lastPacketSeqNum.all (isNewerSequenceNumber packet.seqNum) then
        some packet.seqNum
      else s.lastPacketSeqNum
    some { s with lastPacketSeqNum := last }
  else if packet.markerBit ∧ s.lastPacketSeqNum = none then some { s with lastPacketSeqNum := some packet.seqNum }
  else if s.lastPacketSeqNum.any (isNewerSequenceNumber packet.seqNum) then none
  else some s

/-- The loop over the list in reverse order stops at the packet that is not newer than the one with this
number. -/
def passes (seqNum : UInt16) (q : StoredPacket) : Bool := latestSequenceNumber seqNum q.seqNum != seqNum

def isDuplicate (before : List StoredPacket) (seqNum : UInt16) : Bool :=
  before.getLast?.any fun q => q.seqNum == seqNum && decide (0 < q.data.sizeBytes)

/-- What is returned, the session and the buffer. -/
def insertPacket (s : VCMSessionInfo) (frameBuffer : Memory) (packet : ReceivedPacket) :
    Int × VCMSessionInfo × Memory :=
  if packet.frameType = .emptyFrame then (0, s.informOfEmptyPacket packet.seqNum, frameBuffer)
  else if s.packets.length = kMaxPacketsInSession then (-1, s, frameBuffer)
  else
    let before := s.packets.rdropWhile (passes packet.seqNum)
    let after := s.packets.rtakeWhile (passes packet.seqNum)
    if isDuplicate before packet.seqNum then (-2, s, frameBuffer)
    else match s.trackFirst packet with
      | none => (-3, s, frameBuffer)
      | some first => match first.trackLast packet with
        | none => (-3, first, frameBuffer)
        | some last =>
          let (packets, written, length) := insertBuffer frameBuffer before packet after
          (length, updateCompleteSession { last with packets }, written)

end VCMSessionInfo

end WebRtc.Jitter
