import WebRtc.Lib.CInt

/-!
# The budgets and the prober of the pacer (`paced_sender.cc`, `bitrate_prober.cc`)

| here | there |
| --- | --- |
| `IntervalBudget` | `paced_sender::IntervalBudget` (paced_sender.cc:197) |
| `BitrateProber`, `ProbingState` | `BitrateProber` (bitrate_prober.h:25) |
| `maybeInitializeProbe` | `MaybeInitializeProbe` (bitrate_prober.cc:60) |
| `timeUntilNextProbe`   | `TimeUntilNextProbe` (:88) |
| `packetSent`           | `PacketSent` (:125), without its assertion that the size is positive |

A probe bitrate is a product of `float`s: `product` is that product, cut to an `int`.
-/

namespace WebRtc.Pacing

open CInt

structure IntervalBudget where
  targetRateKbps : Int
  bytesRemaining : Int
deriving DecidableEq, Repr

namespace IntervalBudget

def kWindowMs : Int := 500

def create (initialTargetRateKbps : Int) : IntervalBudget := ⟨initialTargetRateKbps, 0⟩

def setTargetRateKbps (b : IntervalBudget) (targetRateKbps : Int) : IntervalBudget where
  targetRateKbps := targetRateKbps
  bytesRemaining := max ((-kWindowMs * targetRateKbps).tdiv 8) b.bytesRemaining

def increaseBudget (b : IntervalBudget) (deltaTimeMs : Int) : IntervalBudget :=
  let bytes := (b.targetRateKbps * deltaTimeMs).tdiv 8
  if b.bytesRemaining < 0 then
    -- We overused last interval, compensate this interval.
    { b with bytesRemaining := i32 (b.bytesRemaining + bytes) }
  else
    -- If we underused last interval we can't use it this interval.
    { b with bytesRemaining := i32 bytes }

def useBudget (b : IntervalBudget) (bytes : UInt64) : IntervalBudget :=
  { b with bytesRemaining := max (b.bytesRemaining - i32 bytes.toNat) ((-kWindowMs * b.targetRateKbps).tdiv 8) }

/-- `bytes_remaining()`. -/
def remaining (b : IntervalBudget) : UInt64 := UInt64.ofNat (max 0 b.bytesRemaining).toNat

end IntervalBudget

inductive ProbingState where
  | disabled
  | allowedToProbe
  | probing
  | wait
deriving DecidableEq, Repr

structure BitrateProber where
  probingState : ProbingState
  probeBitrates : List Int
  packetSizeLastSend : UInt64
  timeLastSendMs : Int
deriving DecidableEq, Repr

namespace BitrateProber

def create : BitrateProber := ⟨.disabled, [], 0, -1⟩

def kMinProbePacketSize : UInt64 := 200

def computeDeltaFromBitrate (packetSize : UInt64) (bitrateBps : Int) : Int :=
    i32 ((1000 * packetSize.toNat * 8 : Int).tdiv bitrateBps)

def setEnabled (p : BitrateProber) (enable : Bool) : BitrateProber :=
  if enable then
    if p.probingState = .disabled then { p with probingState := .allowedToProbe } else p
  else { p with probingState := .disabled }

def isProbing (p : BitrateProber) : Bool := p.probingState = .probing

def maybeInitializeProbe (product : Int → Int → Int) (p : BitrateProber) (bitrateBps : Int) : BitrateProber :=
  if p.probingState ≠ .allowedToProbe then p
  else { p with
    -- We need one extra to get 5 deltas for the first probe.
    probeBitrates := List.replicate 6 (product 3 bitrateBps) ++ List.replicate 5 (product 6 bitrateBps)
    probingState := .probing }

def timeUntilNextProbe (p : BitrateProber) (nowMs : Int) : Int × BitrateProber :=
  match p.probeBitrates with
  | [] => (-1, if p.probingState ≠ .disabled then { p with probingState := .wait } else p)
  | front :: _ =>
    let elapsedTimeMs := nowMs - p.timeLastSendMs
    if p.packetSizeLastSend > kMinProbePacketSize ∧ p.probingState = .probing then
      let nextDeltaMs := computeDeltaFromBitrate p.packetSizeLastSend front
      let timeUntilProbeMs := i32 (nextDeltaMs - elapsedTimeMs)
      if nextDeltaMs < 1 ∨ timeUntilProbeMs < -3 then (0, { p with probingState := .wait })
      else (max timeUntilProbeMs 0, p)
    else (0, p)

def recommendedPacketSize (p : BitrateProber) : UInt64 := p.packetSizeLastSend

def packetSent (p : BitrateProber) (nowMs : Int) (packetSize : UInt64) : BitrateProber :=
  let p := { p with packetSizeLastSend := packetSize, timeLastSendMs := nowMs }
  if p.probingState ≠ .probing then p else { p with probeBitrates := p.probeBitrates.tail }

end BitrateProber

end WebRtc.Pacing
