import WebRtc.Common.Numbers
import WebRtc.Feedback.Decoded

/-!
# The proxy that sends arrival times back (`remote_estimator_proxy.cc`)

| here | there |
| --- | --- |
| `SequenceNumberUnwrapper` | `SequenceNumberUnwrapper` (module_common_types.h:772) |
| `RemoteEstimatorProxy`    | `RemoteEstimatorProxy` (remote_estimator_proxy.h:33): a map is the list of its entries in order |
| `timeUntilNextProcess`, `process` | `TimeUntilNextProcess` (remote_estimator_proxy.cc:71), `Process` (:81) |
| `incomingPacketFeedbackVector`, `incomingPacket` | the functions of the same names (:36, 43) |
| `onPacketArrival`         | `OnPacketArrival` (:102) |
| `addPackets`, `buildFeedbackPacket` | the loop of `BuildFeedbackPacket` (:142), and the function (:125) |
| `sendFeedback`            | the loop of `Process` |

A function has no result where an `RTC_CHECK` or `RTC_DCHECK` in it fails. The loop of `Process` has
fuel: one round for each packet of the map, and two more; without any left there is no result either.
-/

namespace WebRtc.Estimator

open Feedback

structure SequenceNumberUnwrapper where
  lastSeq : Int
deriving DecidableEq, Repr

namespace SequenceNumberUnwrapper

def unwrapWithoutUpdate (u : SequenceNumberUnwrapper) (sequenceNumber : UInt16) : Int :=
  if u.lastSeq = -1 then sequenceNumber.toNat
  else
    let croppedLast := u16 u.lastSeq
    let delta := (sequenceNumber.toNat : Int) - croppedLast.toNat
    if WebRtc.isNewerSequenceNumber sequenceNumber croppedLast then
      -- Wrap forwards.
      u.lastSeq + if delta < 0 then delta + 65536 else delta
    else
      -- A backwards wrap-around, but not past 0.
      u.lastSeq + if delta > 0 ∧ u.lastSeq + delta - 65536 ≥ 0 then delta - 65536 else delta

def unwrap (u : SequenceNumberUnwrapper) (sequenceNumber : UInt16) : Int × SequenceNumberUnwrapper :=
  (u.unwrapWithoutUpdate sequenceNumber, ⟨u.unwrapWithoutUpdate sequenceNumber⟩)

end SequenceNumberUnwrapper

def kDefaultProcessIntervalMs : Int := 200
def kBackWindowMs : Int := 500

structure RemoteEstimatorProxy where
  lastProcessTimeMs : Int
  mediaSsrc : UInt32
  feedbackSequence : UInt8
  unwrapper : SequenceNumberUnwrapper
  windowStartSeq : Int
  packetArrivalTimes : List (Int × Int)
deriving DecidableEq, Repr

/-- Assign to an entry of the map. -/
def insertArrival (seq arrivalTime : Int) : List (Int × Int) → List (Int × Int)
  | [] => [(seq, arrivalTime)]
  | entry :: rest =>
    if entry.1 < seq then entry :: insertArrival seq arrivalTime rest
    else if entry.1 = seq then (seq, arrivalTime) :: rest
    else (seq, arrivalTime) :: entry :: rest

/-- Over the packets from `it` on: the message, and the number the next one starts with. -/
def addPackets (windowStartSeq : Int) : Builder → List (Int × Int) → Option (Builder × Int)
  | feedbackPacket, [] => some (feedbackPacket, -1)
  | feedbackPacket, (seq, arrivalTime) :: rest =>
    let r := feedbackPacket.withReceivedPacket (u16 seq, arrivalTime * 1000)
    if r.2 then addPackets windowStartSeq r.1 rest
    -- If we can't even add the first seq to the feedback packet, we won't be able to build it at all.
    else if windowStartSeq = seq then none
    else some (r.1, seq)

namespace RemoteEstimatorProxy

def create : RemoteEstimatorProxy where
  lastProcessTimeMs := -1
  mediaSsrc := 0
  feedbackSequence := 0
  unwrapper := ⟨-1⟩
  windowStartSeq := -1
  packetArrivalTimes := []

def timeUntilNextProcess (s : RemoteEstimatorProxy) (nowMs : Int) : Int :=
  if s.lastProcessTimeMs ≠ -1 ∧ nowMs - s.lastProcessTimeMs < kDefaultProcessIntervalMs then
    s.lastProcessTimeMs + kDefaultProcessIntervalMs - nowMs
  else 0

def onPacketArrival (s : RemoteEstimatorProxy) (sequenceNumber : UInt16) (arrivalTime : Int) :
    Option RemoteEstimatorProxy :=
  let (seq, unwrapper) := s.unwrapper.unwrap sequenceNumber
  let s := { s with unwrapper := unwrapper }
  let s :=
    if s.windowStartSeq = -1 then
      -- Start new feedback packet, cull old packets.
      { s with
        windowStartSeq := seq
        packetArrivalTimes := s.packetArrivalTimes.dropWhile fun entry => entry.1 < seq ∧
          arrivalTime - entry.2 ≥ kBackWindowMs }
    else if seq < s.windowStartSeq then { s with windowStartSeq := seq }
    else s
  if s.packetArrivalTimes.any fun entry => entry.1 = seq then none
  else some { s with packetArrivalTimes := insertArrival seq arrivalTime s.packetArrivalTimes }

def incomingPacketFeedbackVector (s : RemoteEstimatorProxy) (packetFeedbackVector : List (UInt16 × Int)) :
    Option RemoteEstimatorProxy :=
  packetFeedbackVector.foldlM (fun s info => s.onPacketArrival info.1 info.2) s

/-- No number: the extension is missing. -/
def incomingPacket (s : RemoteEstimatorProxy) (arrivalTimeMs : Int) (ssrc : UInt32)
    (transportSequenceNumber : Option UInt16) :
    Option RemoteEstimatorProxy :=
  match transportSequenceNumber with
  | none => some s
  | some sequenceNumber => { s with mediaSsrc := ssrc }.onPacketArrival sequenceNumber arrivalTimeMs

/-- The message, if there is one. -/
def buildFeedbackPacket (s : RemoteEstimatorProxy) : Option (Option Builder × RemoteEstimatorProxy) :=
  if s.windowStartSeq = -1 then some (none, s)
  else
    match s.packetArrivalTimes.dropWhile fun entry => entry.1 ≠ s.windowStartSeq with
    | [] => none
    | (seq, arrivalTime) :: rest =>
      if arrivalTime * 1000 = -1 then none
      else
        let feedbackPacket := withBase 0 s.mediaSsrc s.feedbackSequence (u16 seq) (arrivalTime * 1000)
        (addPackets s.windowStartSeq feedbackPacket ((seq, arrivalTime) :: rest)).map fun
            (feedbackPacket, windowStartSeq) =>
          (some feedbackPacket, { s with feedbackSequence := s.feedbackSequence + 1, windowStartSeq := windowStartSeq })

/-- The messages, in the order they are sent. -/
def sendFeedback : Nat → RemoteEstimatorProxy → Option (List Builder × RemoteEstimatorProxy)
  | 0, _ => none
  | fuel + 1, s =>
    match s.buildFeedbackPacket with
    | none => none
    | some (none, s) => some ([], s)
    | some (some feedbackPacket, s) => (sendFeedback fuel s).map fun (sent, s) => (feedbackPacket :: sent, s)

def process (s : RemoteEstimatorProxy) (nowMs : Int) : Option (List Builder × RemoteEstimatorProxy) :=
  if s.timeUntilNextProcess nowMs > 0 then some ([], s)
  else sendFeedback (s.packetArrivalTimes.length + 2) { s with lastProcessTimeMs := nowMs }

/-- More fuel makes no difference. -/
theorem sendFeedback_fuel {fuel : Nat} {s : RemoteEstimatorProxy} {r : List Builder × RemoteEstimatorProxy}
    (h : sendFeedback fuel s = some r) (more : Nat) : sendFeedback (fuel + more) s = some r := by
  induction fuel generalizing s r with
  | zero => cases h
  | succ fuel ih =>
    rw [Nat.succ_add, sendFeedback]
    rw [sendFeedback] at h
    split at h
    · cases h
    · exact h
    · obtain ⟨rest, hrest, heq⟩ := Option.map_eq_some_iff.mp h
      rw [ih hrest, Option.map_some, heq]

end RemoteEstimatorProxy

end WebRtc.Estimator
