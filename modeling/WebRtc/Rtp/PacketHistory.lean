import WebRtc.Common.Numbers
import WebRtc.Lib.CInt
import WebRtc.Rtp.Header

/-!
# The history of sent packets

| here | there |
| --- | --- |
| `RTPPacketHistory` | `rtp_packet_history.h:25, 84-101` |
| `setStorePacketsStatus`, `allocate`, `free` | `rtp_packet_history.cc:38-68` |
| `putRTPPacket`, in two parts | `rtp_packet_history.cc:75-129` |
| `hasRTPPacket`, `setSent`, `getPacketAndSetSendTime`, `getPacket` | `rtp_packet_history.cc:131-228` |
| `findSeqNum` | `rtp_packet_history.cc:243-276` |

None is returned where an assertion or a check fails and where a slot outside of the ring is accessed.
What the clock says is an argument.
-/

namespace WebRtc.Rtp

open Bytes CInt

def kMaxHistoryCapacity : Nat := 9600

inductive StorageType where
  | dontRetransmit
  | allowRetransmission
deriving DecidableEq, Repr

structure StoredPacket where
  sequenceNumber : UInt16 := 0
  timeMs : Int := 0
  sendTime : Int := 0
  storageType : StorageType := .dontRetransmit
  hasBeenRetransmitted : Bool := false
  data : List UInt8 := []
  length : Nat := 0
deriving DecidableEq, Repr

structure RTPPacketHistory where
  store : Bool
  prevIndex : Nat
  storedPackets : List StoredPacket
deriving DecidableEq, Repr

namespace RTPPacketHistory

def create : RTPPacketHistory where
  store := false
  prevIndex := 0
  storedPackets := []

def allocate (h : RTPPacketHistory) (numberToStore : Nat) : Option RTPPacketHistory :=
  if 0 < numberToStore ∧ numberToStore ≤ kMaxHistoryCapacity then
    some { h with
      store := true
      storedPackets := h.storedPackets.take numberToStore ++ List.replicate
        (numberToStore - h.storedPackets.length) {} }
  else none

def free (h : RTPPacketHistory) : RTPPacketHistory :=
  if h.store then { h with store := false, prevIndex := 0, storedPackets := [] } else h

def setStorePacketsStatus (h : RTPPacketHistory) (enable : Bool) (numberToStore : UInt16) : Option RTPPacketHistory :=
  if enable then h.free.allocate numberToStore.toNat else some h.free

/-- The slot that is written next, after the ring has grown when a packet that has not been sent is in it. -/
def expandIfUnsent (h : RTPPacketHistory) : Option RTPPacketHistory := do
  let slot ← h.storedPackets[h.prevIndex]?
  let currentSize := h.storedPackets.length % 65536
  if 0 < slot.length ∧ slot.sendTime = 0 ∧ currentSize < kMaxHistoryCapacity then
    let expanded ← h.allocate (min (max (currentSize * 3 / 2) (currentSize + 1)) kMaxHistoryCapacity)
    some { expanded with prevIndex := currentSize }
  else some h

/-- `memcpy` leaves what is behind the packet. -/
def storeAt (h : RTPPacketHistory) (slot : StoredPacket) (packet : List UInt8) (timeMs : Int) (type : StorageType) :
    RTPPacketHistory :=
  { h with
    storedPackets := h.storedPackets.set h.prevIndex
      { sequenceNumber := read16At packet 2
        timeMs
        sendTime := 0
        storageType := type
        hasBeenRetransmitted := false
        data := packet ++ slot.data.drop packet.length
        length := packet.length }
    prevIndex := if h.prevIndex + 1 ≥ h.storedPackets.length then 0 else h.prevIndex + 1 }

def captureTime (captureTimeMs now : Int) : Int := if 0 < captureTimeMs then captureTimeMs else now

def putRTPPacket (h : RTPPacketHistory) (packet : List UInt8) (captureTimeMs : Int) (type : StorageType) (now : Int) :
    Option (Int × RTPPacketHistory) :=
  if h.store = false then some (0, h)
  else if packet.length ≤ 3 then none
  else if ipPacketSize < packet.length then some (-1, h)
  else do
    let expanded ← h.expandIfUnsent
    let slot ← expanded.storedPackets[expanded.prevIndex]?
    some (0, expanded.storeAt slot packet (captureTime captureTimeMs now) type)

/-- The last packet that was put tells where another one is to be guessed. When it is not there, all are
searched: the size is less than 2^16, so that the index of the loop does not wrap. -/
def findSeqNum (h : RTPPacketHistory) (sequenceNumber : UInt16) : Option (Option Nat) := do
  let size := h.storedPackets.length
  let last := if 0 < h.prevIndex then h.prevIndex - 1 else size - 1
  let latest ← h.storedPackets[last]?
  let idx := i32 ((h.prevIndex : Int) - 1 - ((latest.sequenceNumber.toNat : Int) - sequenceNumber.toNat))
  let index := if 0 ≤ idx ∧ idx < size then idx.toNat else last
  let guessed ← h.storedPackets[index]?
  if guessed.sequenceNumber = sequenceNumber then some (some index)
  else some (h.storedPackets.findIdx? fun p => p.sequenceNumber == sequenceNumber)

def hasRTPPacket (h : RTPPacketHistory) (sequenceNumber : UInt16) : Option Bool :=
  if h.store = false then some false
  else do
    let found ← h.findSeqNum sequenceNumber
    match found with
    | none => some false
    | some index => do
      let p ← h.storedPackets[index]?
      some (decide (p.length ≠ 0))

def setSent (h : RTPPacketHistory) (sequenceNumber : UInt16) (now : Int) : Option (Bool × RTPPacketHistory) :=
  if h.store = false then some (false, h)
  else do
    let found ← h.findSeqNum sequenceNumber
    match found with
    | none => some (false, h)
    | some index => do
      let p ← h.storedPackets[index]?
      if p.sendTime ≠ 0 then some (false, h)
      else some (true, { h with storedPackets := h.storedPackets.set index { p with sendTime := now } })

end RTPPacketHistory

/-- What `getPacketAndSetSendTime` is asked for, and what the clock says when it looks and when it sends. -/
structure Request where
  minElapsedTimeMs : Int
  retransmit : Bool
  now : Int
  later : Int
deriving DecidableEq, Repr

/-- A packet that is sent again is kept back when it was sent too short a time before. -/
def StoredPacket.tooEarly (p : StoredPacket) (r : Request) : Bool :=
  decide (0 < r.minElapsedTimeMs) && r.retransmit && p.hasBeenRetransmitted &&
    decide (r.now - p.sendTime < r.minElapsedTimeMs)

def StoredPacket.notAgain (p : StoredPacket) (r : Request) : Bool :=
  r.retransmit && decide (p.storageType = .dontRetransmit)

namespace RTPPacketHistory

def getPacket (p : StoredPacket) : List UInt8 × Int := (p.data.take p.length, p.timeMs)

def getPacketAndSetSendTime (h : RTPPacketHistory) (sequenceNumber : UInt16) (packetLength : Nat) (r : Request) :
    Option (Option (List UInt8 × Int) × RTPPacketHistory) :=
  if packetLength < ipPacketSize then none
  else if h.store = false then some (none, h)
  else do
    let found ← h.findSeqNum sequenceNumber
    match found with
    | none => some (none, h)
    | some index => do
      let p ← h.storedPackets[index]?
      if ipPacketSize < p.length then none
      else if p.length = 0 then some (none, h)
      else if p.tooEarly r then some (none, h)
      else if p.notAgain r then some (none, h)
      else
        let sent := { p with hasBeenRetransmitted := p.hasBeenRetransmitted || r.retransmit, sendTime := r.later }
        some (some (getPacket sent), { h with storedPackets := h.storedPackets.set index sent })

end RTPPacketHistory

end WebRtc.Rtp
