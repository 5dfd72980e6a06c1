import WebRtc.Pacing.Budgets
import WebRtc.Pacing.PacketQueue

/-!
# The pacer (`paced_sender.cc`)

| here | there |
| --- | --- |
| `PacedSender`  | the fields of `PacedSender` (paced_sender.h:130); `probing_enabled_` is set before the first packet |
| `insertPacket` | `PacedSender::InsertPacket` (paced_sender.cc:295) |
| `expectedQueueTimeMs` to `averageQueueTimeMs` | the queries (:316-341); that `max_bitrate_kbps_` is positive is not asserted |
| `timeUntilNextProcess` | `TimeUntilNextProcess` (:343) |
| `process`      | `Process` (:355), up to the first call of the callback |
| `sendLoop`     | the loop of `Process` and what follows it, up to the next call of the callback |
| `packetSent`   | from the end of the callback in `SendPacket` (:419) to the next one |
| `paddingSent`  | from the end of the callback in `SendPadding` (:436) |
| `Processing`   | where the thread in `Process` is while it does not hold the lock |

Every function holds the lock from its beginning to its end. The readings of the clock are arguments.
-/

namespace WebRtc.Pacing

open CInt

def kMinPacketLimitMs : Int := 5
def kMaxIntervalTimeMs : Int := 30
def kMaxQueueLengthMs : Int := 2000

structure PacedSender where
  paused : Bool
  probingEnabled : Bool
  mediaBudget : IntervalBudget
  paddingBudget : IntervalBudget
  prober : BitrateProber
  bitrateBps : Int
  maxBitrateKbps : Int
  timeLastUpdateUs : Int
  packets : PacketQueue
  packetCounter : UInt64

inductive Processing where
  | idle
  | sendPacket (packet : Packet)
  | sendPadding (paddingNeeded : UInt64)

namespace PacedSender

def updateBytesPerInterval (s : PacedSender) (deltaTimeMs : Int) : PacedSender :=
  { s with
    mediaBudget := s.mediaBudget.increaseBudget deltaTimeMs
    paddingBudget := s.paddingBudget.increaseBudget deltaTimeMs }

def create (nowUs nowMs : Int) (probingEnabled : Bool)
    (bitrateKbps maxBitrateKbps minBitrateKbps : Int) : PacedSender :=
  updateBytesPerInterval
    { paused := false
      probingEnabled := probingEnabled
      mediaBudget := .create maxBitrateKbps
      paddingBudget := .create minBitrateKbps
      prober := .create
      bitrateBps := 1000 * bitrateKbps
      maxBitrateKbps := maxBitrateKbps
      timeLastUpdateUs := nowUs
      packets := .create nowMs
      packetCounter := 0 } kMinPacketLimitMs

def pause (s : PacedSender) : PacedSender := { s with paused := true }

def resume (s : PacedSender) : PacedSender := { s with paused := false }

def updateBitrate (s : PacedSender) (bitrateKbps maxBitrateKbps minBitrateKbps : Int) : PacedSender :=
  { s with
    paddingBudget := s.paddingBudget.setTargetRateKbps minBitrateKbps
    bitrateBps := 1000 * bitrateKbps
    maxBitrateKbps := maxBitrateKbps }

/-- The packet that `InsertPacket` makes of its arguments. -/
def newPacket (s : PacedSender) (priority : Priority) (ssrc : UInt32) (sequenceNumber : UInt16) (captureTimeMs : Int)
    (bytes : UInt64) (retransmission : Bool) (nowMs : Int) : Packet where
  priority := priority
  ssrc := ssrc
  sequenceNumber := sequenceNumber
  captureTimeMs := if captureTimeMs < 0 then nowMs else captureTimeMs
  enqueueTimeMs := nowMs
  bytes := bytes
  retransmission := retransmission
  enqueueOrder := s.packetCounter

def insertPacket (heap : PriorityQueue Packet) (product : Int → Int → Int) (s : PacedSender)
    (priority : Priority) (ssrc : UInt32)
    (sequenceNumber : UInt16) (captureTimeMs : Int) (bytes : UInt64) (retransmission : Bool)
    (nowMs : Int) : Option PacedSender :=
  let prober := if s.probingEnabled && !s.prober.isProbing then s.prober.setEnabled true else s.prober
  let prober := prober.maybeInitializeProbe product s.bitrateBps
  (s.packets.push heap (s.newPacket priority ssrc sequenceNumber captureTimeMs bytes retransmission
    nowMs)).map fun packets =>
    { s with prober := prober, packets := packets, packetCounter := s.packetCounter + 1 }

def expectedQueueTimeMs (s : PacedSender) : Int := (s.packets.sizeInBytes * 8).toNat / toSize s.maxBitrateKbps

def queueSizePackets (s : PacedSender) : Nat := s.packets.sizeInPackets

def queueInMs (s : PacedSender) (nowMs : Int) : Int :=
  if s.packets.oldestEnqueueTimeMs = 0 then 0 else nowMs - s.packets.oldestEnqueueTimeMs

def averageQueueTimeMs (s : PacedSender) (nowMs : Int) : Option (Int × PacedSender) :=
  (s.packets.updateQueueTime nowMs).map fun packets => (packets.averageQueueTimeMs, { s with packets := packets })

def timeUntilNextProcess (s : PacedSender) (nowUs nowMs : Int) : Int × PacedSender :=
  let (ret, prober) := if s.prober.isProbing then s.prober.timeUntilNextProbe nowMs else (-1, s.prober)
  let s := { s with prober := prober }
  if ret ≥ 0 then (ret, s)
  else
    let elapsedTimeMs := (nowUs - s.timeLastUpdateUs + 500).tdiv 1000
    (max (kMinPacketLimitMs - elapsedTimeMs) 0, s)

/-- Nothing is left to send. -/
def sendPadding (s : PacedSender) : Processing :=
  let paddingNeeded := if s.prober.isProbing then s.prober.recommendedPacketSize else s.paddingBudget.remaining
  if paddingNeeded > 0 then .sendPadding paddingNeeded else .idle

def sendLoop (heap : PriorityQueue Packet) (s : PacedSender) : Processing × PacedSender :=
  if s.packets.isEmpty then (s.sendPadding, s)
  else if s.mediaBudget.remaining = 0 ∧ !s.prober.isProbing then (.idle, s)
  else
    match s.packets.beginPop heap with
    | none => (.idle, s)
    | some (packet, packets) => (.sendPacket packet, { s with packets := packets })

/-- Call for the rate at which the queue is empty in time. -/
def targetBitrate (s : PacedSender) : Int :=
  let avgTimeLeftMs := max 1 (kMaxQueueLengthMs - s.packets.averageQueueTimeMs)
  max (i32 ((s.packets.sizeInBytes * 8).toNat / avgTimeLeftMs.toNat)) s.maxBitrateKbps

def process (heap : PriorityQueue Packet) (s : PacedSender) (nowUs nowMs : Int) : Option (Processing × PacedSender) :=
  let elapsedTimeMs := (nowUs - s.timeLastUpdateUs + 500).tdiv 1000
  let s := { s with timeLastUpdateUs := nowUs }
  if s.paused then some (.idle, s)
  else if elapsedTimeMs > 0 then
    let counted := if s.packets.sizeInBytes > 0 then s.packets.updateQueueTime nowMs else some s.packets
    counted.map fun packets =>
      let s := { s with packets := packets }
      let targetBitrateKbps := if s.packets.sizeInBytes > 0 then s.targetBitrate else s.maxBitrateKbps
      let s := { s with mediaBudget := s.mediaBudget.setTargetRateKbps targetBitrateKbps }
      sendLoop heap (s.updateBytesPerInterval (min kMaxIntervalTimeMs elapsedTimeMs))
  else some (sendLoop heap s)

/-- `UseBudget` on both budgets, and the prober. -/
def bytesSent (s : PacedSender) (nowMs : Int) (bytes : UInt64) : PacedSender :=
  { s with
    prober := s.prober.packetSent nowMs bytes
    mediaBudget := s.mediaBudget.useBudget bytes
    paddingBudget := s.paddingBudget.useBudget bytes }

def packetSent (heap : PriorityQueue Packet) (s : PacedSender) (packet : Packet) (success : Bool) (nowMs : Int) :
    Option (Processing × PacedSender) :=
  if success then
    let s := s.bytesSent nowMs packet.bytes
    -- Send succeeded, remove it from the queue.
    (s.packets.finalizePop packet).map fun packets =>
      let s := { s with packets := packets }
      if s.prober.isProbing then (.idle, s) else sendLoop heap s
  else
    -- Send failed, put it back into the queue.
    some (.idle, { s with packets := s.packets.cancelPop heap packet })

def paddingSent (s : PacedSender) (bytes : UInt64) (nowMs : Int) : PacedSender :=
  if bytes > 0 then s.bytesSent nowMs bytes else s

end PacedSender

end WebRtc.Pacing
