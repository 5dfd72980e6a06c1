import WebRtc.Common.Numbers
import WebRtc.Lib.Search

/-!
# The audio NACK list

| here | there |
| --- | --- |
| `Nack` | `nack.h:70-204` |
| `updateLastReceivedPacket` and what it calls | `nack.cc:52-139` |
| `setMaxNackListSize`, `limitNackListSize`, `timeToPlay`, `getNackList` | `nack.cc:197-229` |

The list is a `std::map`: a list in the order of its tree, with a search that is known to find a
position only when the comparison tells the elements before it from those behind it. None is returned
where an assertion or a check fails.
-/

namespace WebRtc.NetEq

structure NackElement where
  timeToPlayMs : Nat
  estimatedTimestamp : UInt32
  isMissing : Bool
deriving DecidableEq, Repr

abbrev NackList := List (UInt16 × NackElement)

structure Nack where
  nackThresholdPackets : Int
  sequenceNumLastReceivedRtp : UInt16
  timestampLastReceivedRtp : UInt32
  anyRtpReceived : Bool
  sequenceNumLastDecodedRtp : UInt16
  timestampLastDecodedRtp : UInt32
  anyRtpDecoded : Bool
  sampleRateKhz : UInt32
  samplesPerPacket : UInt32
  nackList : NackList
  maxNackListSize : Nat
deriving DecidableEq, Repr

/-- `NackListCompare`. -/
def nackListCompare (sequenceNumberOld sequenceNumberNew : UInt16) : Bool :=
  isNewerSequenceNumber sequenceNumberNew sequenceNumberOld

namespace Nack

/-- `kNackListSizeLimit` is 500. -/
def create (nackThresholdPackets : Int) : Nack where
  nackThresholdPackets
  sequenceNumLastReceivedRtp := 0
  timestampLastReceivedRtp := 0
  anyRtpReceived := false
  sequenceNumLastDecodedRtp := 0
  timestampLastDecodedRtp := 0
  anyRtpDecoded := false
  sampleRateKhz := 48
  samplesPerPacket := 960
  nackList := []
  maxNackListSize := 500

section Map
variable (tree : Search (UInt16 × NackElement))

def lowerBound (key : UInt16) (l : NackList) : Nat := tree.find (fun e => nackListCompare e.1 key) l

def upperBound (key : UInt16) (l : NackList) : Nat := tree.find (fun e => !nackListCompare key e.1) l

/-- `std::map::erase` of a key: keys are the same when neither comes before the other. -/
def erase (key : UInt16) (l : NackList) : NackList :=
  match l[lowerBound tree key l]? with
  | none => l
  | some e => if nackListCompare key e.1 || nackListCompare e.1 key then l else l.eraseIdx (lowerBound tree key l)

/-- `std::map::insert` with the end for a hint. -/
def insertEnd (l : NackList) (e : UInt16 × NackElement) : NackList :=
  match l.getLast? with
  | none => [e]
  | some last =>
    if nackListCompare last.1 e.1 then l ++ [e]
    else
      let position := lowerBound tree e.1 l
      match l[position]? with
      | none => l ++ [e]
      | some e' => if nackListCompare e.1 e'.1 then l.insertIdx position e else l

end Map

section Calls
variable (tree : Search (UInt16 × NackElement)) (s : Nack)

/-- An `int` subtracted from a sequence number. -/
def before (sequenceNumber : UInt16) (n : Int) : UInt16 := sequenceNumber - wrap16 n

def timeToPlay (timestamp : UInt32) : Nat := ((timestamp - s.timestampLastDecodedRtp) / s.sampleRateKhz).toNat

def estimateTimestamp (sequenceNum : UInt16) : UInt32 :=
  UInt32.ofNat (sequenceNum - s.sequenceNumLastReceivedRtp).toNat * s.samplesPerPacket + s.timestampLastReceivedRtp

def updateSamplesPerPacket (sequenceNumber : UInt16) (timestamp : UInt32) : Nack :=
  { s with samplesPerPacket :=
      (timestamp - s.timestampLastReceivedRtp) / UInt32.ofNat (sequenceNumber - s.sequenceNumLastReceivedRtp).toNat }

def changeFromLateToMissing (sequenceNumber : UInt16) : Nack :=
  let lower := lowerBound tree (before sequenceNumber s.nackThresholdPackets) s.nackList
  { s with nackList :=
      (s.nackList.take lower).map (fun e => (e.1, { e.2 with isMissing := true })) ++ s.nackList.drop lower }

/-- The loop of `AddToList` from `n` on. -/
def addFrom (sequenceNumber : UInt16) : Nat → UInt16 → NackList → Option NackList
  | 0, _, _ => none
  | fuel + 1, n, l =>
    if isNewerSequenceNumber sequenceNumber n then
      let isMissing := isNewerSequenceNumber (before sequenceNumber s.nackThresholdPackets) n
      let timestamp := s.estimateTimestamp n
      addFrom sequenceNumber fuel (n + 1) (insertEnd tree l (n, ⟨s.timeToPlay timestamp, timestamp, isMissing⟩))
    else some l

/-- There are 65536 numbers at most to be added. -/
def addToList (sequenceNumber : UInt16) : Option Nack :=
  if s.anyRtpDecoded && !isNewerSequenceNumber sequenceNumber s.sequenceNumLastDecodedRtp then none
  else (s.addFrom tree sequenceNumber 65536
    (s.sequenceNumLastReceivedRtp + 1) s.nackList).map fun l => { s with nackList := l }

def updateList (sequenceNumber : UInt16) : Option Nack :=
  -- Some of the packets which were considered late, now are considered missing.
  let s := s.changeFromLateToMissing tree sequenceNumber
  if isNewerSequenceNumber sequenceNumber (s.sequenceNumLastReceivedRtp + 1) then
    s.addToList tree sequenceNumber else some s

def limitNackListSize : Nack :=
  let limit := s.sequenceNumLastReceivedRtp - UInt16.ofNat s.maxNackListSize - 1
  { s with nackList := s.nackList.drop (upperBound tree limit s.nackList) }

def updateLastReceivedPacket (sequenceNumber : UInt16) (timestamp : UInt32) : Option Nack :=
  if s.anyRtpReceived = false then
    let s := { s with
      sequenceNumLastReceivedRtp := sequenceNumber, timestampLastReceivedRtp := timestamp, anyRtpReceived := true }
    -- If no packet is decoded, to have a reasonable estimate of time-to-play use the given values.
    some (if s.anyRtpDecoded then s
      else { s with sequenceNumLastDecodedRtp := sequenceNumber, timestampLastDecodedRtp := timestamp })
  else if sequenceNumber = s.sequenceNumLastReceivedRtp then some s
  else
    -- Received RTP should not be in the list.
    let s := { s with nackList := erase tree sequenceNumber s.nackList }
    -- If this is an old sequence number, no more action is required.
    if isNewerSequenceNumber s.sequenceNumLastReceivedRtp sequenceNumber then some s
    else
      let s := s.updateSamplesPerPacket sequenceNumber timestamp
      (s.updateList tree sequenceNumber).map fun s =>
        { s with
          sequenceNumLastReceivedRtp := sequenceNumber
          timestampLastReceivedRtp := timestamp }.limitNackListSize tree

def setMaxNackListSize (maxNackListSize : Nat) : Option Nack :=
  if 0 < maxNackListSize ∧ maxNackListSize ≤ 500 then some ({ s with maxNackListSize }.limitNackListSize tree) else none

/-- The elements with a time to play that is longer than the round-trip time. -/
def getNackList (roundTripTimeMs : Int) : List UInt16 :=
  (s.nackList.filter fun e => e.2.isMissing && decide ((e.2.timeToPlayMs : Int) > roundTripTimeMs)).map Prod.fst

end Calls

end Nack

end WebRtc.NetEq
