import WebRtc.Common.Numbers
import WebRtc.Lib.CInt

/-!
# The delay manager

| here | there |
| --- | --- |
| `DelayPeakDetector` | `delay_peak_detector.cc:25-112` |
| `resetHistogram`, `update`, `updateCumulativeSums` | `delay_manager.cc:59-164` |
| `updateHistogram`, `limitTargetLevel`, `calculateTargetLevel` | `delay_manager.cc:181-291` |
| `setPacketAudioLength`, `reset`, `updateCounters` and the setters | `delay_manager.cc:293-418` |

A function of the histogram gives none where the source would fail an assertion, read or write outside of the
vector, or overflow a 32-bit number in `UpdateHistogram`. Everywhere else 32-bit numbers wrap.
-/

namespace WebRtc.NetEq

open CInt

structure Peak where
  periodMs : Int
  peakHeightPackets : Int
deriving DecidableEq, Repr

structure DelayPeakDetector where
  peakHistory : List Peak
  peakFound : Bool
  peakDetectionThreshold : Int
  peakPeriodCounterMs : Int
deriving DecidableEq, Repr

namespace DelayPeakDetector

def create : DelayPeakDetector := ⟨[], false, 0, -1⟩

variable (d : DelayPeakDetector)

def reset : DelayPeakDetector := { d with peakPeriodCounterMs := -1, peakFound := false, peakHistory := [] }

/-- The threshold in packets; `kPeakHeightMs` is 78. -/
def setPacketAudioLength (lengthMs : Int) : DelayPeakDetector :=
  if lengthMs > 0 then { d with peakDetectionThreshold := Int.tdiv 78 lengthMs } else d

def maxPeakHeight : Int := d.peakHistory.foldl (fun m p => max m p.peakHeightPackets) (-1)

def maxPeakPeriod : Int := d.peakHistory.foldl (fun m p => max m p.periodMs) (-1)

def checkPeakConditions : DelayPeakDetector × Bool :=
  let found := decide (2 ≤ d.peakHistory.length ∧ d.peakPeriodCounterMs ≤ i32 (2 * d.maxPeakPeriod))
  ({ d with peakFound := found }, found)

/-- The history keeps the last `kMaxNumPeaks` peaks. -/
def pushPeak (p : Peak) : DelayPeakDetector :=
  { d with peakHistory := (d.peakHistory ++ [p]).drop ((d.peakHistory ++ [p]).length - 8) }

def update (interArrivalTime targetLevel : Int) : DelayPeakDetector × Bool :=
  let d :=
    if interArrivalTime > i32 (targetLevel + d.peakDetectionThreshold) ∨ interArrivalTime > i32 (2 * targetLevel) then
      if d.peakPeriodCounterMs = -1 then { d with peakPeriodCounterMs := 0 }
      else if d.peakPeriodCounterMs ≤ 10000 then
        { d.pushPeak ⟨d.peakPeriodCounterMs, interArrivalTime⟩ with peakPeriodCounterMs := 0 }
      else if d.peakPeriodCounterMs ≤ 20000 then { d with peakPeriodCounterMs := 0 }
      else d.reset
    else d
  d.checkPeakConditions

def incrementCounter (incMs : Int) : DelayPeakDetector :=
  if d.peakPeriodCounterMs ≥ 0 then { d with peakPeriodCounterMs := i32 (d.peakPeriodCounterMs + incMs) } else d

end DelayPeakDetector

structure DelayManager where
  firstPacketReceived : Bool
  maxPacketsInBuffer : Nat
  iatVector : List Int
  iatFactor : Int
  packetIatCountMs : Int
  baseTargetLevel : Int
  targetLevel : Int
  packetLenMs : Int
  streamingMode : Bool
  lastSeqNo : UInt16
  lastTimestamp : UInt32
  minimumDelayMs : Int
  leastRequiredDelayMs : Int
  maximumDelayMs : Int
  iatCumulativeSum : Int
  maxIatCumulativeSum : Int
  maxTimerMs : Int
  peakDetector : DelayPeakDetector
deriving DecidableEq, Repr

namespace DelayManager

/-- The steady-state factor `kIatFactor_`. -/
def kIatFactor : Int := 32745

/-- Half of what is left, shifted into Q30; the number has 16 bits. -/
def decaying : Nat → Nat → List Int
  | 0, _ => []
  | n + 1, tempProb => ((tempProb / 2 * 65536 : Nat) : Int) :: decaying n (tempProb / 2)

variable (s : DelayManager)

def resetHistogram : DelayManager :=
  { s with iatVector := decaying s.iatVector.length 0x4002, baseTargetLevel := 4, targetLevel := 1024 }

def reset : DelayManager :=
  { { s with packetLenMs := 0, streamingMode := false, peakDetector := s.peakDetector.reset }.resetHistogram with
    iatFactor := 0, packetIatCountMs := 0, maxTimerMs := 0, iatCumulativeSum := 0, maxIatCumulativeSum := 0 }

/-- `DelayManager::DelayManager`; `kMaxIat` is 64. -/
def create (maxPacketsInBuffer : Nat) : DelayManager :=
  reset
    { firstPacketReceived := false, maxPacketsInBuffer, iatVector := List.replicate 65 0, iatFactor := 0,
      packetIatCountMs := 0,
      baseTargetLevel := 4, targetLevel := 1024, packetLenMs := 0, streamingMode :=
        false, lastSeqNo := 0, lastTimestamp := 0,
      minimumDelayMs := 0, leastRequiredDelayMs := 1024, maximumDelayMs := 1024, iatCumulativeSum :=
        0, maxIatCumulativeSum := 0,
      maxTimerMs := 0, peakDetector := .create }

/-! ## The histogram -/

/-- All elements multiplied with the factor, and their sum. The product has 64 bits. -/
def scale (factor : Int) : List Int → Int → Option (List Int × Int)
  | [], vectorSum => some ([], vectorSum)
  | v :: l, vectorSum => do
    let v ← checked32 (v * factor / 32768)
    let vectorSum ← checked32 (vectorSum + v)
    let (l, vectorSum) ← scale factor l vectorSum
    return (v :: l, vectorSum)

/-- Add or subtract 1/16 of the elements, but not more than the sum. -/
def repair (flipSign : Int) : List Int → Int → Option (List Int × Int)
  | [], vectorSum => some ([], vectorSum)
  | v :: l, vectorSum =>
    if 0 < vectorSum.natAbs then do
      let size ← checked32 vectorSum.natAbs
      let correction ← checked32 (flipSign * min size (v / 16))
      let v ← checked32 (v + correction)
      let vectorSum ← checked32 (vectorSum + correction)
      let (l, vectorSum) ← repair flipSign l vectorSum
      return (v :: l, vectorSum)
    else some (v :: l, vectorSum)

def updateHistogram (iatPackets : Nat) : Option DelayManager := do
  let (vector, vectorSum) ← scale s.iatFactor s.iatVector 0
  let rest ← checked32 (32768 - s.iatFactor)
  let weight ← checked32 (rest * 32768)
  let old ← vector[iatPackets]?
  let new ← checked32 (old + weight)
  let vectorSum ← checked32 (vectorSum + weight)
  let vectorSum ← checked32 (vectorSum - 1073741824)
  let (vector, vectorSum) ← repair (if vectorSum > 0 then -1 else 1) (vector.set iatPackets new) vectorSum
  -- The assertion.
  if vectorSum ≠ 0 then none
  else do
    let gap ← checked32 (kIatFactor - s.iatFactor)
    let gap ← checked32 (gap + 3)
    let iatFactor ← checked32 (s.iatFactor + gap / 4)
    return { s with iatVector := vector, iatFactor }

/-- The loop over the histogram. -/
def findIndex (vector : List Int) (limitProbability : Int) : Nat → Nat → Int → Option Nat
  | 0, _, _ => none
  | fuel + 1, index, sum => do
    let v ← vector[index + 1]?
    let sum := sum - v
    if sum > limitProbability ∧ index + 1 < vector.length - 1 then
      findIndex vector limitProbability fuel (index + 1) sum
    else some (index + 1)

def calculateTargetLevel (iatPackets : Int) : Option DelayManager := do
  let limitProbability : Int := if s.streamingMode then 536871 else 53687091
  let first ← s.iatVector[0]?
  let index ← findIndex s.iatVector limitProbability s.iatVector.length 0 (1073741824 - first)
  let (peakDetector, delayPeakFound) := s.peakDetector.update iatPackets index
  let targetLevel := if delayPeakFound then max (index : Int) peakDetector.maxPeakHeight else index
  return { s with baseTargetLevel := index, peakDetector, targetLevel := i32 (max targetLevel 1 * 256) }

def limitTargetLevel : DelayManager :=
  let s := { s with leastRequiredDelayMs := i32 (s.targetLevel * s.packetLenMs) / 256 }
  let s :=
    if s.packetLenMs > 0 ∧ s.minimumDelayMs > 0 then
      { s with targetLevel := max s.targetLevel (Int.tdiv (i32 (s.minimumDelayMs * 256)) s.packetLenMs) }
    else s
  let s :=
    if s.maximumDelayMs > 0 ∧ s.packetLenMs > 0 then
      { s with targetLevel := min s.targetLevel (Int.tdiv (i32 (s.maximumDelayMs * 256)) s.packetLenMs) }
    else s
  let maxBufferPacketsQ8 := i32 (toSize (3 * toSize (s.maxPacketsInBuffer * 256)) / 4)
  { s with targetLevel := max (min s.targetLevel maxBufferPacketsQ8) 256 }

def updateCumulativeSums (packetLenMs : Int) (sequenceNumber : UInt16) : DelayManager :=
  let iatPacketsQ8 := Int.tdiv (i32 (s.packetIatCountMs * 256)) packetLenMs
  let sum := i32 (s.iatCumulativeSum + i32
    (iatPacketsQ8 - i32 ((sequenceNumber.toNat - s.lastSeqNo.toNat : Int) * 256)))
  let sum := max (i32 (sum - 2)) 0
  let s := { s with iatCumulativeSum := sum }
  let s := if sum > s.maxIatCumulativeSum then { s with maxIatCumulativeSum := sum, maxTimerMs := 0 } else s
  if s.maxTimerMs > 600000 then { s with maxIatCumulativeSum := i32 (s.maxIatCumulativeSum - 2) } else s

/-- The packet length that `Update` goes by. -/
def packetLen (sequenceNumber : UInt16) (timestamp : UInt32) (sampleRateHz : Int) : Int :=
  if ¬ isNewerTimestamp timestamp s.lastTimestamp ∨
    ¬ isNewerSequenceNumber sequenceNumber s.lastSeqNo then s.packetLenMs
  else
    let packetLenSamp := i32 ((timestamp - s.lastTimestamp).toNat / (sequenceNumber - s.lastSeqNo).toNat : Nat)
    Int.tdiv (i32 (1000 * packetLenSamp)) sampleRateHz

/-- The inter-arrival time in packets, with the numbers that are missing or late taken into account. -/
def iatPackets (sequenceNumber : UInt16) (packetLenMs : Int) : Int :=
  let iat := Int.tdiv s.packetIatCountMs packetLenMs
  let iat :=
    if isNewerSequenceNumber sequenceNumber (s.lastSeqNo + 1) then
      max (i32 (iat - (sequenceNumber - s.lastSeqNo - 1).toNat)) 0
    else if ¬ isNewerSequenceNumber sequenceNumber s.lastSeqNo then i32 (iat + (s.lastSeqNo + 1 - sequenceNumber).toNat)
    else iat
  min iat 64

/-- The part of `Update` with a valid packet length. -/
def updateStatistics (sequenceNumber : UInt16) (packetLenMs : Int) : Option DelayManager := do
  let iat := s.iatPackets sequenceNumber packetLenMs
  let s := if s.streamingMode then s.updateCumulativeSums packetLenMs sequenceNumber else s
  let s ← s.updateHistogram (toSize iat)
  let s ← s.calculateTargetLevel iat
  let s := if s.streamingMode then { s with targetLevel := max s.targetLevel s.maxIatCumulativeSum } else s
  return s.limitTargetLevel

/-- The return value and the state. -/
def update (sequenceNumber : UInt16) (timestamp : UInt32) (sampleRateHz : Int) : Option (Int × DelayManager) :=
  if sampleRateHz ≤ 0 then some (-1, s)
  else if s.firstPacketReceived = false then
    some (0, { s with
      packetIatCountMs := 0, lastSeqNo := sequenceNumber, lastTimestamp := timestamp, firstPacketReceived := true })
  else
    let packetLenMs := s.packetLen sequenceNumber timestamp sampleRateHz
    -- Cannot update statistics unless the length is valid.
    let updated := if packetLenMs > 0 then s.updateStatistics sequenceNumber packetLenMs else some s
    updated.map fun s => (0, { s with packetIatCountMs := 0, lastSeqNo := sequenceNumber, lastTimestamp := timestamp })

/-! ## The other calls -/

def setPacketAudioLength (lengthMs : Int) : Int × DelayManager :=
  if lengthMs ≤ 0 then (-1, s)
  else (0, { s with
    packetLenMs := lengthMs, peakDetector := s.peakDetector.setPacketAudioLength lengthMs, packetIatCountMs := 0 })

def updateCounters (elapsedTimeMs : Int) : DelayManager :=
  { s with
    packetIatCountMs := i32 (s.packetIatCountMs + elapsedTimeMs)
    peakDetector := s.peakDetector.incrementCounter elapsedTimeMs
    maxTimerMs := i32 (s.maxTimerMs + elapsedTimeMs) }

def resetPacketIatCount : DelayManager := { s with packetIatCountMs := 0 }

def setMinimumDelay (delayMs : Int) : Bool × DelayManager :=
  if (s.maximumDelayMs > 0 ∧ delayMs > s.maximumDelayMs) ∨ (s.packetLenMs > 0 ∧
      delayMs > i32 (toSize (toSize (3 * s.maxPacketsInBuffer) * s.packetLenMs) / 4)) then (false, s)
  else (true, { s with minimumDelayMs := delayMs })

def setMaximumDelay (delayMs : Int) : Bool × DelayManager :=
  if delayMs = 0 then (true, { s with maximumDelayMs := 0 })
  else if delayMs < s.minimumDelayMs ∨ delayMs < s.packetLenMs then (false, s)
  else (true, { s with maximumDelayMs := delayMs })

/-- A call of a method. -/
inductive Call where
  | reset
  | update (sequenceNumber : UInt16) (timestamp : UInt32) (sampleRateHz : Int)
  | setPacketAudioLength (lengthMs : Int)
  | updateCounters (elapsedTimeMs : Int)
  | resetPacketIatCount
  | setMinimumDelay (delayMs : Int)
  | setMaximumDelay (delayMs : Int)
  | setStreamingMode (value : Bool)
deriving DecidableEq, Repr

def call : Call → Option DelayManager
  | .reset => some s.reset
  | .update sequenceNumber timestamp sampleRateHz => (s.update sequenceNumber timestamp sampleRateHz).map Prod.snd
  | .setPacketAudioLength lengthMs => some (s.setPacketAudioLength lengthMs).2
  | .updateCounters elapsedTimeMs => some (s.updateCounters elapsedTimeMs)
  | .resetPacketIatCount => some s.resetPacketIatCount
  | .setMinimumDelay delayMs => some (s.setMinimumDelay delayMs).2
  | .setMaximumDelay delayMs => some (s.setMaximumDelay delayMs).2
  | .setStreamingMode value => some { s with streamingMode := value }

end DelayManager

end WebRtc.NetEq
