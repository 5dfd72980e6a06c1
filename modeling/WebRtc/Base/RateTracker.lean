import Mathlib.Algebra.Ring.Nat
import WebRtc.Lib.Circular

/-!
# The rate tracker (`webrtc/base/ratetracker.cc`)

Times, intervals and their products are unsigned 32-bit numbers; the model computes with natural numbers and
stops where one of them would wrap. `size_t` (bucket indices and sample counts) is a natural number: that the samples
times the length of a bucket stay below 2^64 is up to the caller, and then no count wraps (`Exact.total_le`).

| here | there |
| --- | --- |
| `RateTracker`            | the class; a bucket that has never been written holds `none` |
| `nextBucketIndex`        | `NextBucketIndex` (:144) |
| `ensureInitialized`      | `EnsureInitialized` (:132) |
| `advance`, `addSamples`  | the loop of `AddSamples` and the function (:108) |
| `sumBuckets`, `computeRateForInterval` | the loop of `ComputeRateForInterval` and the function (:36) |

`ComputeRateForInterval` returns 0.0 (`none`) or the quotient of a total, times 1000, and an interval in
milliseconds (`some`).
-/

namespace WebRtc.Base

inductive Fault where
  /-- A sum or a product of 32-bit numbers does not fit. -/
  | overflow
  /-- A difference is below zero. -/
  | negative
  /-- A bucket is read that has not been written, or none at all. -/
  | uninitialised
  /-- The loop over the buckets does not end. -/
  | endless
deriving DecidableEq, Repr

def add32 (a b : Nat) : Except Fault Nat := if a + b < 2 ^ 32 then .ok (a + b) else .error .overflow
def mul32 (a b : Nat) : Except Fault Nat := if a * b < 2 ^ 32 then .ok (a * b) else .error .overflow
def sub32 (a b : Nat) : Except Fault Nat := if b ≤ a then .ok (a - b) else .error .negative

structure RateTracker where
  bucketMilliseconds : Nat
  bucketCount : Nat
  sampleBuckets : List (Option Nat)
  totalSampleCount : Nat
  currentBucket : Nat
  bucketStartTimeMilliseconds : Nat
  initializationTimeMilliseconds : Nat
deriving DecidableEq, Repr

namespace RateTracker

/-- `~0u`, the start time as long as there are no samples. -/
def notStarted : Nat := 2 ^ 32 - 1

/-- The constructor. The last two fields it sets are not read before `EnsureInitialized` has set them. -/
def new (bucketMilliseconds bucketCount : Nat) : RateTracker where
  bucketMilliseconds := bucketMilliseconds
  bucketCount := bucketCount
  sampleBuckets := List.replicate (bucketCount + 1) none
  totalSampleCount := 0
  currentBucket := 0
  bucketStartTimeMilliseconds := notStarted
  initializationTimeMilliseconds := 0

def nextBucketIndex (s : RateTracker) (bucketIndex : Nat) : Nat := (bucketIndex + 1) % (s.bucketCount + 1)

def bucket (s : RateTracker) (i : Nat) : Option Nat := (s.sampleBuckets[i]?).join

def readBucket (s : RateTracker) (i : Nat) : Except Fault Nat :=
  match s.bucket i with
  | none => .error .uninitialised
  | some count => .ok count

/-! ## Adding samples -/

def ensureInitialized (s : RateTracker) (currentTime : Nat) : RateTracker :=
  if s.bucketStartTimeMilliseconds = notStarted then
    { s with
      initializationTimeMilliseconds := currentTime
      bucketStartTimeMilliseconds := currentTime
      currentBucket := 0
      sampleBuckets := s.sampleBuckets.set 0 (some 0) }
  else s

/-- The rounds that are left of `i <= bucket_count_`. -/
def advance (currentTime : Nat) : Nat → RateTracker → Except Fault RateTracker
  | 0, s => .ok s
  | rounds + 1, s => do
    let bucketEnd ← add32 s.bucketStartTimeMilliseconds s.bucketMilliseconds
    if bucketEnd ≤ currentTime then
      advance currentTime rounds { s with
        bucketStartTimeMilliseconds := bucketEnd
        currentBucket := s.nextBucketIndex s.currentBucket
        sampleBuckets := s.sampleBuckets.set (s.nextBucketIndex s.currentBucket) (some 0) }
    else .ok s

def addSamples (s : RateTracker) (currentTime sampleCount : Nat) : Except Fault RateTracker := do
  let s ← advance currentTime (s.bucketCount + 1) (s.ensureInitialized currentTime)
  let behind ← sub32 currentTime s.bucketStartTimeMilliseconds
  let skipped ← mul32 s.bucketMilliseconds (behind / s.bucketMilliseconds)
  let bucketStart ← add32 s.bucketStartTimeMilliseconds skipped
  let count ← s.readBucket s.currentBucket
  return { s with
    bucketStartTimeMilliseconds := bucketStart
    sampleBuckets := s.sampleBuckets.set s.currentBucket (some (count + sampleCount))
    totalSampleCount := s.totalSampleCount + sampleCount }

/-! ## The rate -/

/-- From bucket `i` up to the one behind the current bucket. -/
def sumBuckets (s : RateTracker) : Nat → Nat → Nat → Except Fault Nat
  | 0, _, _ => .error .endless
  | fuel + 1, i, totalSamples =>
    if i = s.nextBucketIndex s.currentBucket then .ok totalSamples
    else do
      let count ← s.readBucket i
      sumBuckets s fuel (s.nextBucketIndex i) (totalSamples + count)

/-- The total of the buckets that are not skipped, if there is one. -/
def computeTotal (s : RateTracker) (bucketsToSkip millisecondsToSkip availableIntervalMilliseconds : Nat) :
    Except Fault (Option (Nat × Nat)) :=
  if s.bucketCount < bucketsToSkip ∨ availableIntervalMilliseconds = 0 then .ok none
  else do
    let startBucket := s.nextBucketIndex (s.currentBucket + bucketsToSkip)
    let count ← s.readBucket startBucket
    let share ← sub32 s.bucketMilliseconds millisecondsToSkip
    let totalSamples := (count * share + s.bucketMilliseconds / 2) / s.bucketMilliseconds
    let totalSamples ← s.sumBuckets (s.bucketCount + 1) (s.nextBucketIndex startBucket) totalSamples
    return some (totalSamples, availableIntervalMilliseconds)

def computeRateForInterval (s : RateTracker) (currentTime intervalMilliseconds : Nat) :
    Except Fault (Option (Nat × Nat)) :=
  if s.bucketStartTimeMilliseconds = notStarted then .ok none
  else do
    let recorded ← mul32 s.bucketMilliseconds s.bucketCount
    let available := min intervalMilliseconds recorded
    let threshold ← add32 s.initializationTimeMilliseconds available
    if threshold < currentTime then do
      let sinceBucketStart ← sub32 currentTime s.bucketStartTimeMilliseconds
      let sinceOldest ← add32 sinceBucketStart recorded
      let timeToSkip ← sub32 sinceOldest available
      s.computeTotal (timeToSkip / s.bucketMilliseconds) (timeToSkip % s.bucketMilliseconds) available
    else do
      let bucketsToSkip ← sub32 s.bucketCount s.currentBucket
      let available ← sub32 currentTime s.initializationTimeMilliseconds
      s.computeTotal bucketsToSkip 0 available

/-! ## Runs -/

inductive Call where
  | addSamples (currentTime sampleCount : Nat)
  | computeRateForInterval (currentTime intervalMilliseconds : Nat)
deriving DecidableEq, Repr

/-- What `Time()` returns during the call. -/
def Call.time : Call → Nat
  | addSamples currentTime _ => currentTime
  | computeRateForInterval currentTime _ => currentTime

def step (s : RateTracker) : Call → Except Fault RateTracker
  | .addSamples currentTime sampleCount => s.addSamples currentTime sampleCount
  | .computeRateForInterval currentTime intervalMilliseconds =>
    (s.computeRateForInterval currentTime intervalMilliseconds).map fun _ => s

def run (s : RateTracker) (calls : List Call) : Except Fault RateTracker := calls.foldlM step s

end RateTracker
end WebRtc.Base
