import Mathlib
import WebRtc.H264.Packetizer
import WebRtc.Jitter.JitterBuffer

/-!
# The buffer of a frame

| here | there |
| --- | --- |
| `FrameBuffer` | what `VCMFrameBuffer`, `VCMEncodedFrame` and `EncodedImage` store and `InsertPacket` reads |
| `insertAccesses` to `insertBufferAccesses` | what `session_info.cc:158-249` copies and moves, in its order |
| `verifyAndAllocate` | `encoded_frame.cc:218-234` |
| `newSize`, `makeRoom` | `frame_buffer.cc:117-136` |
| `setState`, `reset` | `frame_buffer.cc:211-255`, `encoded_frame.cc:87-102` |
| `insertPacket` | `frame_buffer.cc:93-179` |

A step is none where an assertion or an `RTC_DCHECK` fails, and where bytes outside of the buffer are read or written,
or bytes behind the units of a STAP-A. The data pointers are relative to the buffer, so that they stay what they are
when it moves; those of packets that came before it was allocated (`size` is 0) are NULL, and `UpdateDataPointers` and
`ShiftSubsequentPackets` leave them so.
-/

namespace WebRtc.Jitter

open CInt VCMSessionInfo

def kBufferIncStepSizeBytes : Nat := 30000
def kMaxJBFrameSizeBytes : Nat := 4000000

structure FrameBuffer where
  state : VCMFrameBufferStateEnum
  session : DecodableSession
  timeStamp : UInt32
  codec : VideoCodecType
  latestPacketTimeMs : Int
  buffer : Memory
  size : Nat
  length : Nat
  /-- `_rotation_set`, which the packet with the marker sets. -/
  rotationSet : Bool

/-! ## What is copied and moved -/

/-- Where an access begins, and its bytes. -/
abbrev Access := Nat × Nat

def insertAccesses (dst length : Nat) (insertStartCode : Bool) : List Access :=
  if insertStartCode then [(dst, kH264StartCodeLengthBytes), (dst + kH264StartCodeLengthBytes, length)]
  else [(dst, length)]

def unitAccesses (insertStartCode : Bool) (dst : Nat) : List (List UInt8) → List Access
  | [] => []
  | unit :: units => insertAccesses dst unit.length insertStartCode ++
    unitAccesses insertStartCode (dst + (unit.length + startCodeLength insertStartCode)) units

def shiftAccesses (stepsToShift : Nat) : List StoredPacket → List Access
  | [] => []
  | first :: rest =>
    if first.data.isNull then []
    else [(first.data.dataPtr, totalSize (first :: rest)),
      (first.data.dataPtr + stepsToShift, totalSize (first :: rest))]

/-- The bytes of a packet in the frame. -/
def requiredLength (packet : ReceivedPacket) : Nat :=
  if packet.isStapA then
    ((nalUnits (packet.data.drop 1)).map fun unit => unit.length + startCodeLength packet.insertStartCode).sum
  else packet.data.length + startCodeLength packet.insertStartCode

def insertBufferAccesses (before : List StoredPacket) (packet : ReceivedPacket) (after : List StoredPacket) :
    List Access :=
  shiftAccesses (requiredLength packet) after ++
    if packet.isStapA then unitAccesses packet.insertStartCode (totalSize before) (nalUnits (packet.data.drop 1))
    else insertAccesses (totalSize before) packet.data.length packet.insertStartCode

/-- `ShiftSubsequentPackets` moves bytes from NULL. -/
def MovesFromNull (after : List StoredPacket) : Prop :=
  (∃ first ∈ after.head?, first.data.isNull = true) ∧ 0 < totalSize after

instance (after : List StoredPacket) : Decidable (MovesFromNull after) := inferInstanceAs (Decidable (_ ∧ _))

def InRange (size : Nat) (accesses : List Access) : Prop := ∀ a ∈ accesses, a.1 + a.2 ≤ size

instance (size : Nat) (accesses : List Access) : Decidable (InRange size accesses) :=
  inferInstanceAs (Decidable (∀ a ∈ accesses, _))

/-- The units of a STAP-A end with it, as the depacketizer sees to. -/
def Whole (packet : ReceivedPacket) : Prop :=
  packet.isStapA = true → H264.verifyStapANaluLengths (packet.data.drop H264.kNalHeaderSize) = true

instance (packet : ReceivedPacket) : Decidable (Whole packet) := inferInstanceAs (Decidable (_ → _))

/-- What is put into a frame without a buffer has a data pointer of NULL, as all that is there already. -/
def pointersIn (size : Nat) (session : DecodableSession) : DecodableSession :=
  if size = 0 then
    { session with packets := session.packets.map fun q => { q with data := { q.data with isNull := true } } }
  else session

theorem pointersIn_rest (size : Nat) (session : DecodableSession) :
    (pointersIn size session).complete = session.complete ∧ (pointersIn size session).decodable = session.decodable ∧
      (pointersIn size session).firstPacketSeqNum = session.firstPacketSeqNum ∧
      (pointersIn size session).lastPacketSeqNum = session.lastPacketSeqNum := by
  unfold pointersIn
  split
  · exact ⟨rfl, rfl, rfl, rfl⟩
  · exact ⟨rfl, rfl, rfl, rfl⟩

namespace FrameBuffer

/-- A new frame buffer; the bytes that it will be given are any. -/
def create (buffer : Memory) : FrameBuffer where
  state := .stateEmpty
  session := {}
  timeStamp := 0
  codec := .unknown
  latestPacketTimeMs := -1
  buffer := buffer
  size := 0
  length := 0
  rotationSet := false

def reset (s : FrameBuffer) : FrameBuffer :=
  { s with
    state := .stateEmpty
    session := {}
    timeStamp := 0
    codec := .unknown
    latestPacketTimeMs := -1
    length := 0
    rotationSet := false }

/-- The old data is copied. -/
def verifyAndAllocate (s : FrameBuffer) (minimumSize : Nat) : FrameBuffer :=
  if minimumSize > s.size then { s with size := minimumSize } else s

def requiredSizeBytes (s : FrameBuffer) (packet : ReceivedPacket) : Nat :=
  (s.length + packet.data.length + startCodeLength packet.insertStartCode) % 4294967296

def newSize (size requiredSizeBytes : Nat) : Nat :=
  let increments :=
    requiredSizeBytes / kBufferIncStepSizeBytes + if requiredSizeBytes % kBufferIncStepSizeBytes > 0 then 1 else 0
  (size + increments * kBufferIncStepSizeBytes % 4294967296) % 4294967296

/-- None when the frame is too big. -/
def makeRoom (s : FrameBuffer) (requiredSizeBytes : Nat) : Option FrameBuffer :=
  if requiredSizeBytes ≥ s.size then
    if newSize s.size requiredSizeBytes > kMaxJBFrameSizeBytes then none
    else some (s.verifyAndAllocate (newSize s.size requiredSizeBytes))
  else some s

def setState (s : FrameBuffer) (state : VCMFrameBufferStateEnum) : Option FrameBuffer :=
  if s.state = state then some s
  else
    let expected : Bool := match state with
      -- we can go to this state from state kStateEmpty
      | .stateIncomplete => s.state = .stateEmpty
      | .stateComplete => s.state = .stateEmpty ∨ s.state = .stateIncomplete ∨ s.state = .stateDecodable
      -- Should only be set to empty through Reset().
      | .stateEmpty => false
      | .stateDecodable => s.state = .stateEmpty ∨ s.state = .stateIncomplete
    if expected then some { s with state } else none

/-- First packet (empty and/or media) inserted into this frame. -/
def firstPacket (s : FrameBuffer) (packet : ReceivedPacket) : Option FrameBuffer :=
  if s.state = .stateEmpty then
    let s := { s with timeStamp := packet.timestamp, codec := packet.codec }
    if packet.frameType ≠ .emptyFrame then s.setState .stateIncomplete else some s
  else some s

/-- The packet is put into the list, and the bytes that are copied and moved are in the buffer. -/
def insertIntoSession (s : FrameBuffer) (packet : ReceivedPacket) (decodeErrorMode : VCMDecodeErrorMode)
    (frameData : FrameData) : Option (Int × DecodableSession × Memory) :=
  let inserted := s.session.insertPacket s.buffer packet decodeErrorMode frameData
  let before := s.session.packets.rdropWhile (passes packet.seqNum)
  let after := s.session.packets.rtakeWhile (passes packet.seqNum)
  if inserted.1 < 0 ∨ packet.frameType = .emptyFrame then some inserted
  else if Whole packet ∧ InRange s.size (insertBufferAccesses before packet after) ∧ ¬ MovesFromNull after then
    some (inserted.1, pointersIn s.size inserted.2.1, inserted.2.2)
  else none

/-- What follows when the packet is in the session. -/
def packetInserted (s : FrameBuffer) (packet : ReceivedPacket) (retVal timeInMs : Int) :
    Option (VCMFrameBufferEnum × FrameBuffer) :=
  -- update length
  let s := { s with length := s.length + (u32 retVal).toNat, latestPacketTimeMs := timeInMs }
  if packet.markerBit = true ∧ s.rotationSet = true then none
  else
    let s := { s with rotationSet := s.rotationSet || packet.markerBit }
    if s.session.complete then (s.setState .stateComplete).map fun s => (.completeSession, s)
    else if s.session.decodable then (s.setState .stateDecodable).map fun s => (.decodableSession, s)
    else some (.incomplete, s)

def insertPacket (s : FrameBuffer) (packet : ReceivedPacket) (timeInMs : Int) (decodeErrorMode : VCMDecodeErrorMode)
    (frameData : FrameData) : Option (VCMFrameBufferEnum × FrameBuffer) := do
  let s ← s.firstPacket packet
  match s.makeRoom (s.requiredSizeBytes packet) with
  | none => return (.sizeError, s)
  | some s =>
    let (inserted, session, buffer) ← s.insertIntoSession packet decodeErrorMode frameData
    let s := { s with session, buffer }
    let retVal := i32 inserted
    if retVal = -1 then return (.sizeError, s)
    else if retVal = -2 then return (.duplicatePacket, s)
    else if retVal = -3 then return (.outOfBoundsPacket, s)
    else s.packetInserted packet retVal timeInMs

end FrameBuffer
end WebRtc.Jitter
