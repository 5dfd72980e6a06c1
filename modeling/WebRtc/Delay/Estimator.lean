import Mathlib.Data.BitVec
import WebRtc.Delay.BitCount
import WebRtc.Lib.CInt

/-!
# The binary delay estimator (`utility/delay_estimator.c`)

| here | there |
| --- | --- |
| `Farend`                | `BinaryDelayEstimatorFarend` (delay_estimator.h:21) |
| `BinaryDelayEstimator`  | `BinaryDelayEstimator` (delay_estimator.h:29), with the far end it points to |
| `Farend.allocate`       | `WebRtc_AllocateFarendBufferMemory` (:289) |
| `Farend.init`           | `WebRtc_InitBinaryDelayEstimatorFarend` (:319) |
| `Farend.softReset`      | `WebRtc_SoftResetBinaryDelayEstimatorFarend` (:328) |
| `Farend.addBinaryFarSpectrum` | `WebRtc_AddBinaryFarSpectrum` (:358) |
| `allocateHistoryBufferMemory` | `WebRtc_AllocateHistoryBufferMemory` (:436) |
| `init`                  | `WebRtc_InitBinaryDelayEstimator` (:478) |
| `softReset`             | `WebRtc_SoftResetBinaryDelayEstimator` (:502) |
| `bitCountComparison`, `meanEstimatorFix` | `BitCountComparison` (:62), `WebRtc_MeanEstimatorFix` (:672) |
| `updateRobustValidationStatistics` | the function of this name (:93) |
| `histogramBasedValidation`, `robustValidation` | the functions of these names (:171, :237) |
| `updateMeans`, `findCandidate` | the two loops of `WebRtc_ProcessBinarySpectrum` (:551-:582) |
| `processBinarySpectrum` | `WebRtc_ProcessBinarySpectrum` (:517) |
| `selected`              | the value of `candidate_delay` after its loop |
| `setHistorySize`        | `WebRtc_set_history_size` (delay_estimator_wrapper.c:330) |

Arrays are lists. An index out of bounds reads 0 here and anything there: the theorems about indices
say when that does not happen. Allocations succeed. What `realloc` leaves in new elements is the
argument `junk`, and `written` counts the leading elements of `mean_bit_counts` and `histogram` that
have been given a value since (the code has no such field). Counters that can run for ever
(`candidate_hits`, `last_delay_probability`) wrap.
-/

namespace WebRtc.Delay

open CInt

def kMaxBitCountsQ9 : Int := 16384
def kShiftsAtZero : Int := 13
def kShiftsLinearSlope : Int := 3
def kProbabilityOffset : Int := 1024
def kProbabilityLowerLimit : Int := 8704
def kProbabilityMinSpread : Int := 2816
def kHistogramMax : Float32 := 3000
def kLastHistogramMax : Float32 := 250
def kMinHistogramThreshold : Float32 := 1.5
def kMinRequiredHits : Int := 10
def kMaxHitsWhenPossiblyNonCausal : Int := 10
def kMaxHitsWhenPossiblyCausal : Int := 1000
def kQ14Scaling : Float32 := 1 / 16384
def kFractionSlope : Float32 := 0.05
def kMinFractionWhenPossiblyCausal : Float32 := 0.5
def kMinFractionWhenPossiblyNonCausal : Float32 := 0.25

structure Farend where
  farBitCounts : List Int
  binaryFarHistory : List (BitVec 32)
  historySize : Nat

structure BinaryDelayEstimator where
  meanBitCounts : List Int
  bitCounts : List Int
  binaryNearHistory : List (BitVec 32)
  nearHistorySize : Nat
  historySize : Nat
  minimumProbability : Int
  lastDelayProbability : Int
  lastDelay : Int
  robustValidationEnabled : Bool
  allowedOffset : Int
  lastCandidateDelay : Int
  compareDelay : Int
  candidateHits : Int
  histogram : List Float32
  lastDelayHistogram : Float32
  lookahead : Int
  farend : Farend
  written : Nat

/-- `a[i]` for an `int` index. -/
def at0 {α : Type} [Zero α] (l : List α) (i : Int) : α := l.getD i.toNat 0

instance zeroFloat32 : Zero Float32 := ⟨0⟩

/-- `realloc` to `n` elements. -/
def realloc {α : Type} (l : List α) (n : Nat) (junk : α) : List α :=
  l.take n ++ List.replicate (n - l.length) junk

/-- `memset` of `n` elements from index `off` to zero. -/
def memsetZero {α : Type} [Zero α] (l : List α) (off n : Nat) : List α :=
  l.take off ++ List.replicate n 0 ++ l.drop (off + n)

/-! ## The far end -/

namespace Farend

def allocate (self : Farend) (historySize : Nat) (junk : Int) : Farend :=
  let counts := realloc self.farBitCounts historySize junk
  let history := realloc self.binaryFarHistory historySize (BitVec.ofInt 32 junk)
  -- Fill with zeros if we have expanded the buffers.
  let sizeDiff := historySize - self.historySize
  { farBitCounts := if historySize > self.historySize then memsetZero counts self.historySize sizeDiff else counts
    binaryFarHistory :=
      if historySize > self.historySize then memsetZero history self.historySize sizeDiff else history
    historySize := historySize }

def init (self : Farend) : Farend :=
  { self with farBitCounts := memsetZero self.farBitCounts 0 self.historySize
              binaryFarHistory := memsetZero self.binaryFarHistory 0 self.historySize }

/-- One buffer of `WebRtc_SoftResetBinaryDelayEstimatorFarend`: shift and zero pad. -/
def shiftBuffer {α : Type} [Zero α] (l : List α) (historySize : Nat) (delayShift : Int) : List α :=
  let absShift := delayShift.natAbs
  let shiftSize := historySize - absShift
  if delayShift > 0 then List.replicate absShift 0 ++ l.take shiftSize
  else (l.drop absShift).take shiftSize ++ List.replicate absShift 0

def softReset (self : Farend) (delayShift : Int) : Farend :=
  if delayShift = 0 then self
  else { self with farBitCounts := shiftBuffer self.farBitCounts self.historySize delayShift
                   binaryFarHistory := shiftBuffer self.binaryFarHistory self.historySize delayShift }

def addBinaryFarSpectrum (self : Farend) (binaryFarSpectrum : BitVec 32) : Farend :=
  { self with binaryFarHistory := binaryFarSpectrum :: self.binaryFarHistory.take (self.historySize - 1)
              farBitCounts := bitCount binaryFarSpectrum :: self.farBitCounts.take (self.historySize - 1) }

end Farend

/-! ## The loops -/

def bitCountComparison (binaryVector : BitVec 32) (binaryMatrix : List (BitVec 32)) : List Int :=
  binaryMatrix.map fun row => bitCount (binaryVector ^^^ row)

def meanEstimatorFix (newValue : Int) (factor : Nat) (meanValue : Int) : Int :=
  let diff := i32 (newValue - meanValue)
  let diff := if diff < 0 then -((-diff) >>> factor) else diff >>> factor
  i32 (meanValue + diff)

/-- The smoothing of one element. It is updated only when the far end has something to contribute. -/
def updateMean (bitCount farBitCount mean : Int) : Int :=
  if farBitCount > 0 then
    meanEstimatorFix (i32 (bitCount * 512)) (kShiftsAtZero - (kShiftsLinearSlope * farBitCount) >>>
      (4 : Nat)).toNat mean
  else mean

def updateMeans : List Int → List Int → List Int → List Int
  | b :: bs, f :: fs, m :: ms => updateMean b f m :: updateMeans bs fs ms
  | _, _, ms => ms

structure Candidate where
  delay : Int
  best : Int
  worst : Int
deriving DecidableEq, Repr

/-- `valley_depth` -/
def Candidate.valleyDepth (c : Candidate) : Int := i32 (c.worst - c.best)

/-- `i` is the index of the first element of the list. -/
def findCandidate : List Int → Nat → Candidate → Candidate
  | [], _, c => c
  | m :: ms, i, c =>
    findCandidate ms (i + 1)
      { delay := if m < c.best then i else c.delay
        best := if m < c.best then m else c.best
        worst := if m > c.worst then m else c.worst }

namespace BinaryDelayEstimator

/-! ## Robust validation -/

/-- The decrease of one histogram bin, never below 0. -/
def decreaseBin (self : BinaryDelayEstimator) (candidateDelay : Int) (decreaseInLastSet valleyDepth : Float32)
    (i : Int) (bin : Float32) : Float32 :=
  let isInLastSet := decide (i ≥ self.lastDelay - 2) && decide (i ≤ self.lastDelay + 1) && decide (i ≠ candidateDelay)
  let isInCandidateSet := decide (i ≥ candidateDelay - 2) && decide (i ≤ candidateDelay + 1)
  let bin := bin - (decreaseInLastSet * (if isInLastSet then 1 else 0) +
    valleyDepth * (if !isInLastSet && !isInCandidateSet then 1 else 0))
  if bin < 0 then 0 else bin

def updateRobustValidationStatistics (self : BinaryDelayEstimator)
    (candidateDelay valleyDepthQ14 valleyLevelQ14 : Int) :
    BinaryDelayEstimator :=
  let valleyDepth := Float32.ofInt valleyDepthQ14 * kQ14Scaling
  let maxHitsForSlowChange :=
    if candidateDelay < self.lastDelay then kMaxHitsWhenPossiblyNonCausal else kMaxHitsWhenPossiblyCausal
  -- Reset |candidate_hits| if we have a new candidate.
  let candidateHits := i32 ((if candidateDelay ≠ self.lastCandidateDelay then 0 else self.candidateHits) + 1)
  let raised := at0 self.histogram candidateDelay + valleyDepth
  let histogram := self.histogram.set candidateDelay.toNat (if raised > kHistogramMax then kHistogramMax else raised)
  let decreaseInLastSet :=
    if candidateHits < maxHitsForSlowChange then
      Float32.ofInt (i32 (at0 self.meanBitCounts self.compareDelay - valleyLevelQ14)) * kQ14Scaling
    else valleyDepth
  { self with
    candidateHits := candidateHits
    lastCandidateDelay := candidateDelay
    histogram := (histogram.take self.historySize).mapIdx
        (fun i bin => self.decreaseBin candidateDelay decreaseInLastSet valleyDepth i bin) ++
      histogram.drop self.historySize }

def histogramBasedValidation (self : BinaryDelayEstimator) (candidateDelay : Int) : Bool :=
  let delayDifference := i32 (candidateDelay - self.lastDelay)
  let linear := 1 - kFractionSlope * Float32.ofInt (i32 (delayDifference - self.allowedOffset))
  let nonCausal := kMinFractionWhenPossiblyNonCausal - kFractionSlope * Float32.ofInt delayDifference
  let fraction : Float32 :=
    if delayDifference > self.allowedOffset then
      (if linear > kMinFractionWhenPossiblyCausal then linear else kMinFractionWhenPossiblyCausal)
    else if delayDifference < 0 then (if nonCausal > 1 then 1 else nonCausal)
    else 1
  let scaled := at0 self.histogram self.compareDelay * fraction
  let histogramThreshold := if scaled > kMinHistogramThreshold then scaled else kMinHistogramThreshold
  decide (at0 self.histogram candidateDelay ≥ histogramThreshold) && decide (self.candidateHits > kMinRequiredHits)

def robustValidation (self : BinaryDelayEstimator) (candidateDelay : Int)
    (isInstantaneousValid isHistogramValid : Bool) :
    Bool :=
  (decide (self.lastDelay < 0) && (isInstantaneousValid || isHistogramValid)) ||
    (isInstantaneousValid && isHistogramValid) ||
    (isHistogramValid && decide (at0 self.histogram candidateDelay > self.lastDelayHistogram))

/-! ## The operations -/

def allocateHistoryBufferMemory (self : BinaryDelayEstimator) (historySize : Nat) (junk : Int) : BinaryDelayEstimator :=
  -- Only update far-end buffers if we need.
  let far := if historySize ≠ self.farend.historySize then self.farend.allocate historySize junk else self.farend
  let means := realloc self.meanBitCounts (historySize + 1) junk
  let counts := realloc self.bitCounts historySize junk
  let histogram := realloc self.histogram (historySize + 1) (Float32.ofInt junk)
  let sizeDiff := historySize - self.historySize
  let grown := decide (historySize > self.historySize)
  { self with
    farend := far
    meanBitCounts := if grown then memsetZero means self.historySize sizeDiff else means
    bitCounts := if grown then memsetZero counts self.historySize sizeDiff else counts
    histogram := if grown then memsetZero histogram self.historySize sizeDiff else histogram
    historySize := historySize
    -- the dummy element of a grown buffer is not filled
    written :=
      if grown then (if self.historySize ≤ self.written then historySize else self.written)
      else min self.written (historySize + 1) }

def init (self : BinaryDelayEstimator) : BinaryDelayEstimator :=
  { self with
    bitCounts := memsetZero self.bitCounts 0 self.historySize
    binaryNearHistory := memsetZero self.binaryNearHistory 0 self.nearHistorySize
    meanBitCounts := List.replicate (self.historySize + 1) 10240 ++ self.meanBitCounts.drop (self.historySize + 1)
    histogram := List.replicate (self.historySize + 1) 0 ++ self.histogram.drop (self.historySize + 1)
    minimumProbability := kMaxBitCountsQ9
    lastDelayProbability := kMaxBitCountsQ9
    lastDelay := -2
    lastCandidateDelay := -2
    compareDelay := self.historySize
    candidateHits := 0
    lastDelayHistogram := 0
    written := self.historySize + 1 }

def softReset (self : BinaryDelayEstimator) (delayShift : Int) : BinaryDelayEstimator × Int :=
  let lookahead := i32 (self.lookahead - delayShift)
  let lookahead := if lookahead < 0 then 0 else lookahead
  let lookahead := if lookahead > self.nearHistorySize - 1 then (self.nearHistorySize : Int) - 1 else lookahead
  ({ self with lookahead := lookahead }, i32 (self.lookahead - lookahead))

/-- The near spectrum to compare, after the shift of the near history when there is lookahead. -/
def delayNear (self : BinaryDelayEstimator) (binaryNearSpectrum : BitVec 32) : BinaryDelayEstimator × BitVec 32 :=
  let history := binaryNearSpectrum :: self.binaryNearHistory.take (self.nearHistorySize - 1)
  if self.nearHistorySize > 1 then
    ({ self with binaryNearHistory := history }, history.getD self.lookahead.toNat 0)
  else (self, binaryNearSpectrum)

/-- The smoothed bit counts after the comparison with all delayed far spectra. -/
def compareAll (self : BinaryDelayEstimator) (binaryNearSpectrum : BitVec 32) : BinaryDelayEstimator :=
  let bitCounts := bitCountComparison binaryNearSpectrum (self.farend.binaryFarHistory.take self.historySize)
  { self with bitCounts := bitCounts ++ self.bitCounts.drop self.historySize
              meanBitCounts := updateMeans bitCounts self.farend.farBitCounts self.meanBitCounts }

/-- The candidate of the smoothed counts. -/
def candidate (self : BinaryDelayEstimator) : Candidate :=
  findCandidate (self.meanBitCounts.take self.historySize) 0 ⟨-1, kMaxBitCountsQ9, 0⟩

/-- The adaptive thresholds. -/
def updateProbabilities (self : BinaryDelayEstimator) (c : Candidate) : BinaryDelayEstimator :=
  let threshold := i32 (c.best + kProbabilityOffset)
  let threshold := if threshold < kProbabilityLowerLimit then kProbabilityLowerLimit else threshold
  { self with
    minimumProbability :=
      if self.minimumProbability > kProbabilityLowerLimit ∧ c.valleyDepth > kProbabilityMinSpread ∧
          self.minimumProbability > threshold then threshold
      else self.minimumProbability
    lastDelayProbability := i32 (self.lastDelayProbability + 1) }

/-- A valid candidate becomes the delay. -/
def acceptCandidate (self : BinaryDelayEstimator) (c : Candidate) : BinaryDelayEstimator :=
  let here := at0 self.histogram c.delay
  let changed := decide (c.delay ≠ self.lastDelay)
  { self with
    lastDelayHistogram :=
      if changed then (if here > kLastHistogramMax then kLastHistogramMax else here) else self.lastDelayHistogram
    histogram :=
      if changed && decide (here < at0 self.histogram self.compareDelay) then
        self.histogram.set self.compareDelay.toNat here
      else self.histogram
    lastDelay := c.delay
    lastDelayProbability := if c.best < self.lastDelayProbability then c.best else self.lastDelayProbability
    compareDelay := c.delay }

/-- Everything after the candidate is found; returns whether it is valid. -/
def validate (self : BinaryDelayEstimator) (c : Candidate) : BinaryDelayEstimator × Bool :=
  let s := self.updateProbabilities c
  let instantaneous := decide (c.valleyDepth > kProbabilityOffset) &&
    (decide (c.best < s.minimumProbability) || decide (c.best < s.lastDelayProbability))
  let s := s.updateRobustValidationStatistics c.delay c.valleyDepth c.best
  (s, if s.robustValidationEnabled then
        s.robustValidation c.delay instantaneous (s.histogramBasedValidation c.delay)
      else instantaneous)

def processBinarySpectrum (self : BinaryDelayEstimator) (binaryNearSpectrum : BitVec 32) :
    BinaryDelayEstimator × Int :=
  if self.farend.historySize ≠ self.historySize then (self, -1)
  else
    let near := self.delayNear binaryNearSpectrum
    let s := near.1.compareAll near.2
    let c := s.candidate
    let v := s.validate c
    let s := if v.2 then v.1.acceptCandidate c else v.1
    (s, s.lastDelay)

/-- The candidate `processBinarySpectrum` selects. -/
def selected (self : BinaryDelayEstimator) (binaryNearSpectrum : BitVec 32) : Int :=
  ((self.delayNear binaryNearSpectrum).1.compareAll (self.delayNear binaryNearSpectrum).2).candidate.delay

def setHistorySize (self : BinaryDelayEstimator) (historySize : Int) (junk : Int) : BinaryDelayEstimator × Int :=
  if historySize ≤ 1 then (self, -1)
  else (self.allocateHistoryBufferMemory historySize.toNat junk, historySize)

end BinaryDelayEstimator

/-! ## The operations as one alphabet -/

inductive DelayOp
  | addFar (binaryFarSpectrum : BitVec 32)
  | process (binaryNearSpectrum : BitVec 32)
  | softResetFar (delayShift : Int)
  | softReset (delayShift : Int)
  | setHistorySize (historySize junk : Int)

/-- What a call of `processBinarySpectrum` did: the delay returned, the candidate selected, and the
history size it ran with. -/
structure ProcessObs where
  delay : Int
  candidate : Int
  historySize : Nat
deriving DecidableEq, Repr

def BinaryDelayEstimator.step (s : BinaryDelayEstimator) : DelayOp → BinaryDelayEstimator × Option ProcessObs
  | .addFar spectrum => ({ s with farend := s.farend.addBinaryFarSpectrum spectrum }, none)
  | .process spectrum =>
    ((s.processBinarySpectrum spectrum).1,
      some ⟨(s.processBinarySpectrum spectrum).2, s.selected spectrum, s.historySize⟩)
  | .softResetFar delayShift => ({ s with farend := s.farend.softReset delayShift }, none)
  | .softReset delayShift => ((s.softReset delayShift).1, none)
  | .setHistorySize historySize junk => ((s.setHistorySize historySize junk).1, none)

end WebRtc.Delay
