import WebRtc.Vp8.Aggregator
import WebRtc.Vp8.Descriptor

/-!
# The VP8 packetizer

| here | there |
| --- | --- |
| `calcNextSize` | `RtpPacketizerVp8::CalcNextSize`, `rtp_format_vp8.cc:253-276` |
| `fillPacket`, `packetLoop`, `generatePackets` | `GeneratePackets`, `rtp_format_vp8.cc:278-340` |
| `splitPartition`, `aggregateLoop`, `generatePacketsBalancedAggregates` | `rtp_format_vp8.cc:342-405` |
| `aggregateSmallPartitions` | `rtp_format_vp8.cc:407-446` |
| `setPayloadData`, `nextPacket` | `rtp_format_vp8.cc:196-239` |

Each loop is a recursion on a count that it cannot exceed: the room of a packet, the bytes of the frame,
the number of partitions. The average of `CalcNextSize` is rounded to the nearest whole number as a
fraction. Where the source subtracts the bytes that are done from an offset before it adds the length of
the partition, the addition comes first here.
-/

namespace WebRtc.Vp8

inductive VP8PacketizerMode where
  | strict
  | aggregate
  | equalSize
deriving DecidableEq, Repr

inductive AggregationMode where
  | aggrNone
  | aggrPartitions
  | aggrFragments
deriving DecidableEq, Repr

structure RTPFragmentationHeader where
  fragmentationOffset : List Nat
  fragmentationLength : List Nat
deriving DecidableEq, Repr

structure RtpPacketizerVp8 where
  payloadData : List UInt8
  partInfo : RTPFragmentationHeader
  aggrMode : AggregationMode
  balance : Bool
  separateFirst : Bool
  hdrInfo : RTPVideoHeaderVP8
  numPartitions : Nat
  maxPayloadLen : Nat
  packets : List InfoStruct
  packetsCalculated : Bool
deriving DecidableEq, Repr

/-- `aggr_modes_`. -/
def VP8PacketizerMode.aggrMode : VP8PacketizerMode → AggregationMode
  | .strict => .aggrNone
  | .aggregate => .aggrPartitions
  | .equalSize => .aggrFragments

/-- `separate_first_modes_`; all of `balance_modes_` are true. -/
def VP8PacketizerMode.separateFirst : VP8PacketizerMode → Bool
  | .strict => true
  | .aggregate | .equalSize => false

/-- The size of a packet's part of the partition; 0 when nothing more goes into the packet. -/
def calcNextSize (balance : Bool) (maxPayloadLen remainingBytes : Nat) (splitPayload : Bool) : Nat :=
  if maxPayloadLen = 0 ∨ remainingBytes = 0 then 0
  else if !splitPayload then (if maxPayloadLen ≥ remainingBytes then remainingBytes else 0)
  else if balance then
    -- Number of fragments for remaining_bytes:
    let numFrags := remainingBytes / maxPayloadLen + 1
    -- Number of bytes in this fragment:
    (2 * remainingBytes + numFrags) / (2 * numFrags)
  else if maxPayloadLen ≥ remainingBytes then remainingBytes
  else maxPayloadLen

/-- A packet while it is filled. -/
structure Filling where
  packetBytes : Nat
  remPayloadLen : Nat
  remainingInPartition : Nat
  partIx : Nat
  splitPayload : Bool
deriving DecidableEq, Repr

namespace RtpPacketizerVp8

def new (hdrInfo : RTPVideoHeaderVP8) (maxPayloadLen : Nat) (mode : VP8PacketizerMode) : RtpPacketizerVp8 where
  payloadData := []
  partInfo := ⟨[], []⟩
  aggrMode := mode.aggrMode
  balance := true
  separateFirst := mode.separateFirst
  hdrInfo := hdrInfo
  numPartitions := 0
  maxPayloadLen := maxPayloadLen
  packets := []
  packetsCalculated := false

def setPayloadData (p : RtpPacketizerVp8) (payloadData : List UInt8) (fragmentation : Option RTPFragmentationHeader) :
    RtpPacketizerVp8 :=
  let partInfo := fragmentation.getD ⟨[0], [payloadData.length]⟩
  { p with payloadData, partInfo, numPartitions := partInfo.fragmentationLength.length }

variable (p : RtpPacketizerVp8)

def length (ix : Nat) : Nat := p.partInfo.fragmentationLength.getD ix 0

/-- Room for the payload in a packet. -/
def room : Nat := p.maxPayloadLen - p.hdrInfo.descriptorLength

/-! ## Strict and equal size -/

def fillPacket (beginning startOnNewFragment : Bool) : Nat → Filling → Filling
  | 0, f => f
  | fuel + 1, f =>
    let nextSize := calcNextSize p.balance f.remPayloadLen f.remainingInPartition f.splitPayload
    if nextSize = 0 then f
    else
      let f : Filling :=
        { f with
          packetBytes := f.packetBytes + nextSize
          remPayloadLen := f.remPayloadLen - nextSize
          remainingInPartition := f.remainingInPartition - nextSize }
      if f.remainingInPartition = 0 ∧ !(beginning && p.separateFirst) then
        -- Advance to next partition?
        if f.partIx + 1 < p.numPartitions ∧
            (p.aggrMode = .aggrFragments ∨ p.aggrMode = .aggrPartitions ∧ startOnNewFragment) then
          fillPacket beginning startOnNewFragment fuel
            { f with
              partIx := f.partIx + 1
              remainingInPartition := p.length (f.partIx + 1)
              splitPayload := decide (p.aggrMode = .aggrFragments) }
        else fillPacket beginning startOnNewFragment fuel f
      else if p.balance ∧ f.remainingInPartition > 0 then f
      else fillPacket beginning startOnNewFragment fuel f

/-- The packet that begins at byte `totalBytesProcessed`. -/
def fill (totalBytesProcessed : Nat) (startOnNewFragment beginning : Bool) (partIx : Nat) : Filling :=
  let f : Filling := ⟨0, p.room, p.partInfo.fragmentationOffset.getD partIx 0 + p.length partIx - totalBytesProcessed,
    partIx, true⟩
  p.fillPacket beginning startOnNewFragment f.remPayloadLen f

def packetLoop : Nat → Nat → Bool → Bool → Nat → List InfoStruct
  | 0, _, _, _, _ => []
  | fuel + 1, totalBytesProcessed, startOnNewFragment, beginning, partIx =>
    if totalBytesProcessed < p.payloadData.length then
      let f := p.fill totalBytesProcessed startOnNewFragment beginning partIx
      ⟨totalBytesProcessed, f.packetBytes, startOnNewFragment, partIx⟩ ::
        packetLoop fuel (totalBytesProcessed + f.packetBytes) (decide (f.remainingInPartition = 0)) false
          -- Advance to next partition.
          (if f.remainingInPartition = 0 then f.partIx + 1 else f.partIx)
    else []

def generatePackets : Option (List InfoStruct) :=
  -- The provided payload length is not long enough for the payload descriptor and one payload byte.
  if p.maxPayloadLen < p.hdrInfo.descriptorLength + 1 then none
  else some (p.packetLoop p.payloadData.length 0 true true 0)

/-! ## Aggregation -/

/-- The lengths of the partitions that are left, and what is known of the packets so far. -/
def aggregateSmallPartitions : Nat → List Nat → Int → Int → Int → List Int × Int × Int
  | 0, _, minSize, maxSize, _ => ([], minSize, maxSize)
  | _ + 1, [], minSize, maxSize, _ => ([], minSize, maxSize)
  | fuel + 1, length :: rest, minSize, maxSize, numAggregatePackets =>
    if length < p.room then
      -- Found start of a set.
      let set := length :: rest.takeWhile (fun l => l < p.room)
      let optimalConfig := findOptimalConfiguration set minSize maxSize p.room p.hdrInfo.descriptorLength
      let (minSize, maxSize) := calcMinMax optimalConfig set minSize maxSize
      let decisions := optimalConfig.map fun (c : Nat) => numAggregatePackets + (c : Int)
      let (others, minSize, maxSize) :=
        aggregateSmallPartitions fuel (rest.dropWhile fun l => l < p.room) minSize maxSize
        (numAggregatePackets + ((optimalConfig.getLastD 0 : Nat) : Int) + 1)
      (decisions ++ others, minSize, maxSize)
    else
      let (others, minSize, maxSize) := aggregateSmallPartitions fuel rest minSize maxSize numAggregatePackets
      (-1 :: others, minSize, maxSize)

/-- Split large partitions: fragment `n` and those after it. With them come `total_bytes_processed` and
the extreme sizes. -/
def splitPartition (packetBytes partIx : Nat) : Nat → Nat → Nat → Nat → Int → Int → List InfoStruct × Nat × Int × Int
  | 0, _, _, total, minSize, maxSize => ([], total, minSize, maxSize)
  | left + 1, n, remainingPartition, total, minSize, maxSize =>
    let thisPacketBytes := if packetBytes < remainingPartition then packetBytes else remainingPartition
    let minSize := if (thisPacketBytes : Int) < minSize then (thisPacketBytes : Int) else minSize
    let maxSize := if (thisPacketBytes : Int) > maxSize then (thisPacketBytes : Int) else maxSize
    let others := splitPartition packetBytes partIx left (n + 1) (remainingPartition - thisPacketBytes)
      (total + thisPacketBytes) minSize maxSize
    (⟨total, thisPacketBytes, decide (n = 0), partIx⟩ :: others.1, others.2)

/-- The partitions from `partIx` on, each with its decision. -/
def aggregateLoop : Nat → List (Nat × Int) → Nat → Nat → Int → Int → List InfoStruct
  | 0, _, _, _, _, _ => []
  | _ + 1, [], _, _, _, _ => []
  | fuel + 1, (length, decision) :: rest, partIx, total, minSize, maxSize =>
    if decision = -1 then
      let numFragments := calcNumberOfFragments length p.room p.hdrInfo.descriptorLength minSize maxSize
      let packetBytes := (length + numFragments - 1) / numFragments
      let (fragments, total, minSize, maxSize) :=
        splitPartition packetBytes partIx numFragments 0 length total minSize maxSize
      fragments ++ aggregateLoop fuel rest (partIx + 1) total minSize maxSize
    else
      -- Collect all partitions that were aggregated into the same packet.
      let same := rest.takeWhile fun q => q.2 = decision
      let thisPacketBytes := length + (same.map Prod.fst).sum
      ⟨total, thisPacketBytes, true, partIx⟩ ::
        aggregateLoop fuel (rest.drop same.length) (partIx + 1 + same.length) (total + thisPacketBytes) minSize maxSize

def generatePacketsBalancedAggregates : Option (List InfoStruct) :=
  if p.maxPayloadLen < p.hdrInfo.descriptorLength + 1 then none
  else
    let lengths := p.partInfo.fragmentationLength
    let (partitionDecision, minSize, maxSize) := p.aggregateSmallPartitions p.numPartitions lengths (-1) (-1) 0
    some (p.aggregateLoop p.numPartitions (lengths.zip partitionDecision) 0 0 minSize maxSize)

/-! ## Packet by packet -/

def calculatePackets : Option (List InfoStruct) :=
  if p.aggrMode = .aggrPartitions ∧ p.balance then p.generatePacketsBalancedAggregates else p.generatePackets

/-- The packet and whether it is the last one. -/
def nextPacket : RtpPacketizerVp8 × Option (List UInt8 × Bool) :=
  match (if p.packetsCalculated then some p.packets else p.calculatePackets) with
  | none => (p, none)
  | some [] => ({ p with packets := [], packetsCalculated := true }, none)
  | some (packetInfo :: packets) =>
    let q := { p with packets := packets, packetsCalculated := true }
    (q, (writeHeaderAndPayload p.hdrInfo p.maxPayloadLen p.payloadData packetInfo).map fun bytes =>
      (bytes, packets.isEmpty))

/-- `NextPacket` is called until it returns false. -/
def sendAll : Nat → RtpPacketizerVp8 → List (List UInt8 × Bool)
  | 0, _ => []
  | fuel + 1, p =>
    match p.nextPacket with
    | (_, none) => []
    | (q, some packet) => packet :: sendAll fuel q

end RtpPacketizerVp8

end WebRtc.Vp8
