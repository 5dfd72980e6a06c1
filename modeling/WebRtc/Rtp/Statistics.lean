import WebRtc.Common.Numbers
import WebRtc.Lib.CInt
import WebRtc.Rtp.Header

/-!
# Receiver statistics

| here | there |
| --- | --- |
| `RtpPacketCounter.addPacket`, `RtcpStatistics` | `common_types.h:168-179, 844-850` |
| `updateCounters`, `updateJitter` | `receive_statistics_impl.cc:61-155` |
| `getStatistics`, `calculateRtcpStatistics` | `receive_statistics_impl.cc:194-288` |
| `inOrderPacketInternal` | `receive_statistics_impl.cc:366-379` |

The conversion of an NTP time into a number of samples is made with floating-point numbers in the
source; here it is a parameter.
-/

namespace WebRtc.Rtp

open CInt

structure RtpPacketCounter where
  headerBytes : Nat
  payloadBytes : Nat
  paddingBytes : Nat
  packets : UInt32
deriving DecidableEq, Repr

def RtpPacketCounter.addPacket (c : RtpPacketCounter) (packetLength : Nat) (header : RTPHeader) : RtpPacketCounter where
  packets := c.packets + 1
  headerBytes := szAdd c.headerBytes header.headerLength
  paddingBytes := szAdd c.paddingBytes header.paddingLength
  payloadBytes := szAdd c.payloadBytes (szSub packetLength (szAdd header.headerLength header.paddingLength))

structure RtcpStatistics where
  fractionLost : UInt8
  cumulativeLost : UInt32
  extendedMaxSequenceNumber : UInt32
  jitter : UInt32
deriving DecidableEq, Repr

/-- A packet that is received: its header and length, and what the clock says. -/
structure Arrival where
  header : RTPHeader
  packetLength : Nat
  retransmitted : Bool
  timeMs : Int
  ntpSecs : UInt32
  ntpFrac : UInt32
deriving DecidableEq, Repr

structure StreamStatistician where
  maxReorderingThreshold : Int
  jitterQ4 : UInt32
  cumulativeLoss : UInt32
  lastReceiveTimeMs : Int
  lastReceiveTimeSecs : UInt32
  lastReceiveTimeFrac : UInt32
  lastReceivedTimestamp : UInt32
  receivedSeqFirst : UInt16
  receivedSeqMax : UInt16
  receivedSeqWraps : UInt16
  transmitted : RtpPacketCounter
  retransmitted : RtpPacketCounter
  lastReportInorderPackets : UInt32
  lastReportOldPackets : UInt32
  lastReportSeqMax : UInt16
  lastReportedStatistics : RtcpStatistics
deriving DecidableEq, Repr

namespace StreamStatistician

/-- `kDefaultMaxReorderingThreshold` is 50. -/
def create : StreamStatistician where
  maxReorderingThreshold := 50
  jitterQ4 := 0
  cumulativeLoss := 0
  lastReceiveTimeMs := 0
  lastReceiveTimeSecs := 0
  lastReceiveTimeFrac := 0
  lastReceivedTimestamp := 0
  receivedSeqFirst := 0
  receivedSeqMax := 0
  receivedSeqWraps := 0
  transmitted := ⟨0, 0, 0, 0⟩
  retransmitted := ⟨0, 0, 0, 0⟩
  lastReportInorderPackets := 0
  lastReportOldPackets := 0
  lastReportSeqMax := 0
  lastReportedStatistics := ⟨0, 0, 0, 0⟩

section Packets
variable (convertNTPTimeToRTP : UInt32 → UInt32 → Int → UInt32) (s : StreamStatistician)

def inOrderPacketInternal (sequenceNumber : UInt16) : Bool :=
  -- First packet is always in order.
  if s.lastReceiveTimeMs = 0 then true
  else if isNewerSequenceNumber sequenceNumber s.receivedSeqMax then true
  else
    -- If we have a restart of the remote side this packet is still in order.
    !isNewerSequenceNumber sequenceNumber
      (UInt16.ofNat ((s.receivedSeqMax.toNat - s.maxReorderingThreshold : Int) % 65536).toNat)

/-- An `int` taken for a `uint32_t`. -/
def ofInt32 (x : Int) : UInt32 := UInt32.ofNat (x % 4294967296).toNat

/-- The jitter is in Q4. -/
def updateJitter (a : Arrival) : StreamStatistician :=
  let receiveTimeRtp := convertNTPTimeToRTP a.ntpSecs a.ntpFrac a.header.payloadTypeFrequency
  let lastReceiveTimeRtp := convertNTPTimeToRTP s.lastReceiveTimeSecs s.lastReceiveTimeFrac
    a.header.payloadTypeFrequency
  let timeDiffSamples :=
    i32 (((receiveTimeRtp - lastReceiveTimeRtp) - (a.header.timestamp - s.lastReceivedTimestamp)).toNat : Int)
  let timeDiffSamples := i32 timeDiffSamples.natAbs
  if timeDiffSamples < 450000 then
    let jitterDiffQ4 := i32 ((ofInt32 (timeDiffSamples * 16) - s.jitterQ4).toNat : Int)
    { s with jitterQ4 := s.jitterQ4 + ofInt32 (i32 (jitterDiffQ4 + 8) / 16) }
  else s

def updateCounters (a : Arrival) : StreamStatistician :=
  let inOrder := s.inOrderPacketInternal a.header.sequenceNumber
  let s := { s with transmitted := s.transmitted.addPacket a.packetLength a.header }
  let s :=
    if !inOrder && a.retransmitted then
      { s with retransmitted := s.retransmitted.addPacket a.packetLength a.header } else s
  let s := if s.transmitted.packets = 1 then { s with receivedSeqFirst := a.header.sequenceNumber } else s
  -- Count only the new packets received.
  if inOrder then
    let s :=
      if s.transmitted.packets > 1 ∧ s.receivedSeqMax > a.header.sequenceNumber then
        { s with receivedSeqWraps := s.receivedSeqWraps + 1 }
      else s
    let s := { s with receivedSeqMax := a.header.sequenceNumber }
    let s :=
      if a.header.timestamp ≠ s.lastReceivedTimestamp ∧ s.transmitted.packets - s.retransmitted.packets > 1 then
        updateJitter convertNTPTimeToRTP s a
      else s
    { s with
      lastReceivedTimestamp := a.header.timestamp
      lastReceiveTimeSecs := a.ntpSecs
      lastReceiveTimeFrac := a.ntpFrac
      lastReceiveTimeMs := a.timeMs }
  else s

end Packets

section Reports
variable (s : StreamStatistician)

def calculateRtcpStatistics : RtcpStatistics × StreamStatistician :=
  -- First time we send a report.
  let lastReportSeqMax := if s.lastReportInorderPackets = 0 then s.receivedSeqFirst - 1 else s.lastReportSeqMax
  let expSinceLast := if lastReportSeqMax > s.receivedSeqMax then 0 else s.receivedSeqMax - lastReportSeqMax
  let inorderPackets := s.transmitted.packets - s.retransmitted.packets
  let recSinceLast := inorderPackets - s.lastReportInorderPackets + (s.retransmitted.packets - s.lastReportOldPackets)
  let missing : Nat := if expSinceLast.toNat > recSinceLast.toNat then expSinceLast.toNat - recSinceLast.toNat else 0
  -- Scale 0 to 255, where 255 is 100% loss.
  let fractionLost := if expSinceLast ≠ 0 then UInt8.ofNat (255 * missing / expSinceLast.toNat) else 0
  let cumulativeLoss := s.cumulativeLoss + UInt32.ofNat missing
  let stats : RtcpStatistics :=
    { fractionLost, cumulativeLost := cumulativeLoss
      extendedMaxSequenceNumber := UInt32.ofNat (s.receivedSeqWraps.toNat * 65536 + s.receivedSeqMax.toNat)
      jitter := s.jitterQ4 >>> 4 }
  (stats, { s with
    cumulativeLoss, lastReportedStatistics := stats
    lastReportInorderPackets := inorderPackets
    lastReportOldPackets := s.retransmitted.packets
    lastReportSeqMax := s.receivedSeqMax })

/-- None where the source returns false. -/
def getStatistics (reset : Bool) : Option RtcpStatistics × StreamStatistician :=
  -- We have not received anything.
  if s.receivedSeqFirst = 0 ∧ s.transmitted.payloadBytes = 0 then (none, s)
  else if !reset then
    if s.lastReportInorderPackets = 0 then (none, s) else (some s.lastReportedStatistics, s)
  else (some s.calculateRtcpStatistics.1, s.calculateRtcpStatistics.2)

end Reports

end StreamStatistician

end WebRtc.Rtp
