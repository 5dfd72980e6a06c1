import WebRtc.Lib.Bytes

/-!
# What the RTCP parser reports (`rtcp_utility.h`)

| here | there |
| --- | --- |
| `CommonHeader`, `blockSize` | `RtcpCommonHeader` (:315-334); the version is always 2 |
| `rtcpParseCommonHeader`     | `RtcpParseCommonHeader` (rtcp_utility.cc:472) |
| `Packet`                    | `RTCPPacketTypes` (:254) with the member of the union `RTCPPacket` (:218) that goes with it |
| `ParseState`                | `RTCPParserV2::ParseState` (:383) |
| `RpsiFields`                | `_packet.RPSI`: `ParseFBCommon` sets the SSRCs, `ParseRPSIItem` the rest |
-/

namespace WebRtc.Rtcp

open Bytes

/-! ## The common header -/

structure CommonHeader where
  countOrFormat : Nat
  packetType : Nat
  payloadSizeBytes : Nat
  paddingBytes : Nat
deriving DecidableEq, Repr

def CommonHeader.blockSize (h : CommonHeader) : Nat := 4 + h.payloadSizeBytes + h.paddingBytes

/-- The header at `p`, with `size` bytes left. -/
def rtcpParseCommonHeader (buf : List UInt8) (p size : Nat) : Option CommonHeader :=
  let words := (read16At buf (p + 2)).toNat + 1
  let format := (byteAt buf p &&& 0x1f).toNat
  let packetType := (byteAt buf (p + 1)).toNat
  if size < 4 then none
  else if (byteAt buf p).toNat / 64 ≠ 2 then none
  else if size < words * 4 then none
  else if byteAt buf p &&& 0x20 ≠ 0 then
    let padding := (byteAt buf (p + words * 4 - 1)).toNat
    -- The padding bit is set, but there is nothing to pad.
    if words * 4 ≤ 4 then none
    else if 4 + padding > words * 4 then none
    else some ⟨format, packetType, words * 4 - padding - 4, padding⟩
  else some ⟨format, packetType, words * 4 - 4, 0⟩

/-- A block is as long as its header says, whatever part of it is padding. -/
theorem blockSize_of_parse {buf : List UInt8} {p size : Nat} {h : CommonHeader}
    (hp : rtcpParseCommonHeader buf p size = some h) :
    h.blockSize = ((read16At buf (p + 2)).toNat + 1) * 4 ∧ h.blockSize ≤ size := by
  simp only [rtcpParseCommonHeader] at hp
  split at hp
  · cases hp
  split at hp
  · cases hp
  split at hp
  · cases hp
  split at hp
  · split at hp
    · cases hp
    split at hp
    · cases hp
    · rw [← Option.some.inj hp]
      unfold CommonHeader.blockSize
      dsimp only
      omega
  · rw [← Option.some.inj hp]
    unfold CommonHeader.blockSize
    dsimp only
    omega

theorem four_le_blockSize (h : CommonHeader) : 4 ≤ h.blockSize := by
  unfold CommonHeader.blockSize
  omega

/-! ## Packet types -/

abbrev ptIJ : Nat := 195
abbrev ptSR : Nat := 200
abbrev ptRR : Nat := 201
abbrev ptSDES : Nat := 202
abbrev ptBYE : Nat := 203
abbrev ptAPP : Nat := 204
abbrev ptRTPFB : Nat := 205
abbrev ptPSFB : Nat := 206
abbrev ptXR : Nat := 207

/-! ## The packets -/

structure SenderInfo where
  senderSsrc : UInt32
  ntpMostSignificant : UInt32
  ntpLeastSignificant : UInt32
  rtpTimestamp : UInt32
  senderPacketCount : UInt32
  senderOctetCount : UInt32
deriving DecidableEq, Repr

structure ReportBlock where
  ssrc : UInt32
  fractionLost : UInt8
  cumulativeNumOfPacketsLost : UInt32
  extendedHighestSequenceNumber : UInt32
  jitter : UInt32
  lastSR : UInt32
  delayLastSR : UInt32
deriving DecidableEq, Repr

/-- The entry of a TMMBR or TMMBN packet; the bit rate is in kbit/s. -/
structure TmmbItem where
  ssrc : UInt32
  maxTotalMediaBitRate : UInt32
  measuredOverhead : UInt32
deriving DecidableEq, Repr

structure SliItem where
  firstMB : UInt16
  numberOfMB : UInt16
  pictureId : UInt8
deriving DecidableEq, Repr

structure XrVoipMetric where
  ssrc : UInt32
  lossRate : UInt8
  discardRate : UInt8
  burstDensity : UInt8
  gapDensity : UInt8
  burstDuration : UInt16
  gapDuration : UInt16
  roundTripDelay : UInt16
  endSystemDelay : UInt16
  signalLevel : UInt8
  noiseLevel : UInt8
  rerl : UInt8
  gmin : UInt8
  rFactor : UInt8
  extRfactor : UInt8
  mosLQ : UInt8
  mosCQ : UInt8
  rxConfig : UInt8
  jbNominal : UInt16
  jbMax : UInt16
  jbAbsMax : UInt16
deriving DecidableEq, Repr

/-- What a report of `kPsfbRpsi` sets in `_packet.RPSI`; the type of the packet does not tell which it is. -/
inductive RpsiFields where
  | header (senderSsrc mediaSsrc : UInt32)
  | item (payloadType : UInt8) (numberOfValidBits : UInt16) (nativeBitString : List UInt8)
deriving DecidableEq, Repr

/-- The type of a packet or item, with its fields. `F` is a transport feedback message. -/
inductive Packet (F : Type) where
  | rr (senderSsrc : UInt32) (numberOfReportBlocks : Nat)
  | sr (info : SenderInfo) (numberOfReportBlocks : Nat)
  | reportBlockItem (block : ReportBlock)
  | sdes
  | sdesChunk (senderSsrc : UInt32) (cName : List UInt8)
  | bye (senderSsrc : UInt32)
  | extendedIj
  | extendedIjItem (jitter : UInt32)
  | rtpfbNack (senderSsrc mediaSsrc : UInt32)
  | rtpfbNackItem (packetId bitMask : UInt16)
  | psfbPli (senderSsrc mediaSsrc : UInt32)
  | psfbRpsi (fields : RpsiFields)
  | psfbSli (senderSsrc mediaSsrc : UInt32)
  | psfbSliItem (item : SliItem)
  | psfbApp (senderSsrc mediaSsrc : UInt32)
  | psfbRemb
  | psfbRembItem (bitRate : UInt32) (ssrcs : List UInt32)
  | rtpfbTmmbr (senderSsrc mediaSsrc : UInt32)
  | rtpfbTmmbrItem (item : TmmbItem)
  | rtpfbTmmbn (senderSsrc mediaSsrc : UInt32)
  | rtpfbTmmbnItem (item : TmmbItem)
  | psfbFir (senderSsrc mediaSsrc : UInt32)
  | psfbFirItem (ssrc : UInt32) (commandSequenceNumber : UInt8)
  | rtpfbSrReq
  | xrHeader (originatorSsrc : UInt32)
  | xrReceiverReferenceTime (ntpMostSignificant ntpLeastSignificant : UInt32)
  | xrDlrrReportBlock
  | xrDlrrReportBlockItem (ssrc lastRR delayLastRR : UInt32)
  | xrVoipMetric (metric : XrVoipMetric)
  | app (subType : Nat) (name : UInt32)
  | appItem (data : List UInt8)
  | transportFeedback (feedback : F)
deriving DecidableEq, Repr

inductive ParseState where
  | topLevel
  | reportBlockItem
  | sdesChunk
  | byeItem
  | extendedJitterItem
  | rtpfbNackItem
  | rtpfbTmmbrItem
  | rtpfbTmmbnItem
  | psfbSliItem
  | psfbRpsiItem
  | psfbFirItem
  | psfbAppItem
  | psfbRembItem
  | xrItem
  | xrDlrrItem
  | appItem
deriving DecidableEq, Repr

end WebRtc.Rtcp
