import WebRtc.Rtcp.Packet

/-!
# `RTCPParserV2` (`rtcp_utility.cc`)

| here | there |
| --- | --- |
| `Parser`, `init`, `validate` | the members of `RTCPParserV2`, its constructor (:49) and `Validate` (:421) |
| `moveTo`, `endCurrentBlock`, `endItem` | `_ptrRTCPData = …`, `EndCurrentBlock` (:458), the three lines that end an item parser |
| `parse…`                     | the functions of the same names (:533-1679) |
| `topLevelBlock`, `iterateTopLevel` | the `switch` and the body of the loop of `IterateTopLevel` (:164) |
| `iterate`, `dispatch`, `clear` | `Iterate` (:107), its `switch`, and its first line |

Positions count from `_ptrRTCPDataBegin`. Most functions return `bool` in the source; where it is
`false`, `Iterate` goes on, either with the next round of the loop in `IterateTopLevel` or by calling
itself. So one call is a run of `iterate` up to the first `true`, and a whole parse is one run of it
(`steps`), which is over once a call has returned with nothing (`ended`). `parseFrom` is
`TransportFeedback::ParseFrom`.

`steady` is not in the source. It records that no assignment has moved the pointer back or past the
end of the buffer.
-/

namespace WebRtc.Rtcp

open Bytes

structure Parser (F : Type) where
  ptr : Nat
  blockEnd : Nat
  state : ParseState
  numberOfBlocks : Nat
  numSkippedBlocks : Nat
  validPacket : Bool
  packet : Option (Packet F)
  steady : Bool

variable (buf : List UInt8) {F : Type} (s : Parser F)

namespace Parser

def moveTo (p : Nat) : Parser F :=
  { s with ptr := p, steady := s.steady && decide (s.ptr ≤ p) && decide (p ≤ buf.length) }

def endCurrentBlock : Parser F := s.moveTo buf s.blockEnd

/-- Back to the top level, at the end of the block. -/
def endItem : Parser F := { s.endCurrentBlock buf with state := .topLevel }

@[simp] theorem moveTo_packet (p : Nat) : (s.moveTo buf p).packet = s.packet := rfl

@[simp] theorem endCurrentBlock_packet : (s.endCurrentBlock buf).packet = s.packet := rfl

@[simp] theorem endItem_packet : (s.endItem buf).packet = s.packet := rfl

/-- `_ptrRTCPBlockEnd - _ptrRTCPData`. -/
def length : Nat := s.blockEnd - s.ptr

/-- Set `_packetType` and the fields of `_packet`. -/
def report (packet : Packet F) : Parser F := { s with packet := some packet }

@[simp] theorem report_packet (packet : Packet F) : (s.report packet).packet = some packet := rfl

/-- An item of `need` bytes, which `item` reads. -/
def parseItem (need : Nat) (item : Packet F) : Parser F × Bool :=
  if s.length < need then (s.endItem buf, false) else ((s.moveTo buf (s.ptr + need)).report item, true)

/-! ## Reports -/

def parseRR : Parser F × Bool :=
  if s.length < 8 then (s, false)
  else ({ (s.moveTo buf (s.ptr + 8)).report (.rr (read32At buf (s.ptr + 4)) s.numberOfBlocks) with
    state := .reportBlockItem }, true)

def senderInfoAt (p : Nat) : SenderInfo where
  senderSsrc := read32At buf p
  ntpMostSignificant := read32At buf (p + 4)
  ntpLeastSignificant := read32At buf (p + 8)
  rtpTimestamp := read32At buf (p + 12)
  senderPacketCount := read32At buf (p + 16)
  senderOctetCount := read32At buf (p + 20)

def parseSR : Parser F × Bool :=
  if s.length < 28 then (s.endCurrentBlock buf, false)
  else
    let t := (s.moveTo buf (s.ptr + 28)).report (.sr (senderInfoAt buf (s.ptr + 4)) s.numberOfBlocks)
    if s.numberOfBlocks ≠ 0 then ({ t with state := .reportBlockItem }, true)
    -- Don't go to state report block item if 0 report blocks.
    else ({ t with state := .topLevel }.endCurrentBlock buf, true)

def reportBlockAt (p : Nat) : ReportBlock where
  ssrc := read32At buf p
  fractionLost := byteAt buf (p + 4)
  cumulativeNumOfPacketsLost := read24At buf (p + 5)
  extendedHighestSequenceNumber := read32At buf (p + 8)
  jitter := read32At buf (p + 12)
  lastSR := read32At buf (p + 16)
  delayLastSR := read32At buf (p + 20)

/-- One of `_numberOfBlocks` items. -/
def parseCountedItem (need : Nat) (item : Packet F) : Parser F × Bool :=
  if s.length < need ∨ s.numberOfBlocks = 0 then (s.endItem buf, false)
  else ({ (s.moveTo buf (s.ptr + need)).report item with numberOfBlocks := s.numberOfBlocks - 1 }, true)

def parseReportBlockItem : Parser F × Bool :=
  s.parseCountedItem buf 24 (.reportBlockItem (reportBlockAt buf s.ptr))

def parseIJ : Parser F × Bool :=
  if s.length < 4 then (s, false)
  else ({ (s.moveTo buf (s.ptr + 4)).report .extendedIj with state := .extendedJitterItem }, true)

def parseIJItem : Parser F × Bool := s.parseCountedItem buf 4 (.extendedIjItem (read32At buf s.ptr))

/-! ## Source descriptions -/

def parseSDES : Parser F × Bool :=
  if s.length < 8 then (s.endItem buf, false)
  else ({ (s.moveTo buf (s.ptr + 4)).report .sdes with state := .sdesChunk }, true)

/-- A character a CNAME must not have. -/
def illegalChar (c : UInt8) : Bool := c < 0x20 || c > 0x7b || c = 0x25 || c = 0x5c

/-- The `len` bytes at `p`. -/
def bytesAt (p len : Nat) : List UInt8 := (List.range len).map fun i => byteAt buf (p + i)

/-- The loop of `ParseSDESItem`, after `octets` bytes of the chunk and perhaps a CNAME. Every round
reads a tag, so there are at most as many rounds as bytes. -/
def sdesItemLoop : Nat → Parser F → Nat → Option (List UInt8) → Parser F × Option (List UInt8)
  | 0, s, _, _ => (s.endItem buf, none)
  | fuel + 1, s, octets, found =>
    if s.blockEnd ≤ s.ptr then (s.endItem buf, none) -- No end tag found!
    else
      let tag := byteAt buf s.ptr
      let t := s.moveTo buf (s.ptr + 1)
      if tag = 0 then
        -- End tag! 4 oct aligned
        (t.moveTo buf (t.ptr + (4 - (octets + 1) % 4) % 4), found)
      else if t.blockEnd ≤ t.ptr then sdesItemLoop fuel t (octets + 1) found
      else
        let len := (byteAt buf t.ptr).toNat
        let t := t.moveTo buf (t.ptr + 1)
        if tag = 1 then
          -- CNAME
          if t.blockEnd ≤ t.ptr + len then (t.endItem buf, none)
          else if (bytesAt buf t.ptr len).any illegalChar then (t.endItem buf, none)
          else sdesItemLoop fuel (t.moveTo buf (t.ptr + len)) (octets + 2 + len) (some (bytesAt buf t.ptr len))
        else sdesItemLoop fuel (t.moveTo buf (t.ptr + len)) (octets + 2 + len) found

/-- The CNAME of a chunk, if it has one. -/
def parseSDESItem : Parser F × Option (List UInt8) := sdesItemLoop buf (s.length + 1) s 0 none

/-- The loop of `ParseSDESChunk`. Every round reads an SSRC. -/
def sdesChunkLoop : Nat → Parser F → Parser F × Bool
  | 0, s => (s.endItem buf, false)
  | fuel + 1, s =>
    if s.length < 4 then (s.endItem buf, false)
    else
      let r := (s.moveTo buf (s.ptr + 4)).parseSDESItem buf
      match r.2 with
      | some cName => (r.1.report (.sdesChunk (read32At buf s.ptr) cName), true)
      | none => sdesChunkLoop fuel r.1

def parseSDESChunk : Parser F × Bool :=
  if s.numberOfBlocks = 0 then (s.endItem buf, false)
  else sdesChunkLoop buf (s.length + 1) { s with numberOfBlocks := s.numberOfBlocks - 1 }

/-! ## Bye -/

def parseBYEItem : Parser F × Bool :=
  if s.length < 4 ∨ s.numberOfBlocks = 0 then (s.endItem buf, false)
  else
    let t := (s.moveTo buf (s.ptr + 4)).report (.bye (read32At buf s.ptr))
    -- We can have several CSRCs attached.
    let t := if s.length ≥ 4 * s.numberOfBlocks then t.moveTo buf (t.ptr + (s.numberOfBlocks - 1) * 4) else t
    ({ t with numberOfBlocks := 0 }, true)

def parseBYE : Parser F × Bool := { s.moveTo buf (s.ptr + 4) with state := .byeItem }.parseBYEItem buf

/-! ## Extended reports -/

def parseXr : Parser F × Bool :=
  if s.length < 8 then (s.endCurrentBlock buf, false)
  else ({ (s.moveTo buf (s.ptr + 8)).report (.xrHeader (read32At buf (s.ptr + 4))) with state := .xrItem }, true)

def parseXrReceiverReferenceTimeItem (blockLength4bytes : Nat) : Parser F × Bool :=
  if blockLength4bytes ≠ 2 ∨ s.length < 8 then (s.endItem buf, false)
  else ({ (s.moveTo buf (s.ptr + 8)).report
    (.xrReceiverReferenceTime (read32At buf s.ptr) (read32At buf (s.ptr + 4))) with state := .xrItem }, true)

/-- `_numberOfBlocks` has 8 bits. -/
def parseXrDlrr (blockLength4bytes : Nat) : Parser F × Bool :=
  if blockLength4bytes % 3 ≠ 0 then (s.endItem buf, false)
  else ({ s.report .xrDlrrReportBlock with state := .xrDlrrItem, numberOfBlocks := blockLength4bytes / 3 % 256 }, true)

def parseXrDlrrItem : Parser F × Bool :=
  if s.numberOfBlocks = 0 then ({ s with state := .xrItem }, false)
  else if s.length < 12 then (s.endItem buf, false)
  else ({ (s.moveTo buf (s.ptr + 12)).report
    (.xrDlrrReportBlockItem (read32At buf s.ptr) (read32At buf (s.ptr + 4)) (read32At buf (s.ptr + 8))) with
      numberOfBlocks := s.numberOfBlocks - 1, state := .xrDlrrItem }, true)

def voipMetricAt (p : Nat) : XrVoipMetric where
  ssrc := read32At buf p
  lossRate := byteAt buf (p + 4)
  discardRate := byteAt buf (p + 5)
  burstDensity := byteAt buf (p + 6)
  gapDensity := byteAt buf (p + 7)
  burstDuration := read16At buf (p + 8)
  gapDuration := read16At buf (p + 10)
  roundTripDelay := read16At buf (p + 12)
  endSystemDelay := read16At buf (p + 14)
  signalLevel := byteAt buf (p + 16)
  noiseLevel := byteAt buf (p + 17)
  rerl := byteAt buf (p + 18)
  gmin := byteAt buf (p + 19)
  rFactor := byteAt buf (p + 20)
  extRfactor := byteAt buf (p + 21)
  mosLQ := byteAt buf (p + 22)
  mosCQ := byteAt buf (p + 23)
  rxConfig := byteAt buf (p + 24)
  jbNominal := read16At buf (p + 26)
  jbMax := read16At buf (p + 28)
  jbAbsMax := read16At buf (p + 30)

def parseXrVoipMetricItem (blockLength4bytes : Nat) : Parser F × Bool :=
  if blockLength4bytes ≠ 8 ∨ s.length < 32 then (s.endItem buf, false)
  else ({ (s.moveTo buf (s.ptr + 32)).report (.xrVoipMetric (voipMetricAt buf s.ptr)) with state := .xrItem }, true)

def parseXrUnsupportedBlockType (blockLength4bytes : Nat) : Parser F × Bool :=
  if s.length < blockLength4bytes * 4 then (s.endItem buf, false)
  -- Skip block.
  else ({ s.moveTo buf (s.ptr + blockLength4bytes * 4) with state := .xrItem }, false)

def parseXrItem : Parser F × Bool :=
  if s.length < 4 then (s.endItem buf, false)
  else
    let blockType := byteAt buf s.ptr
    let blockLength := (read16At buf (s.ptr + 2)).toNat
    let t := s.moveTo buf (s.ptr + 4)
    if blockType = 4 then t.parseXrReceiverReferenceTimeItem buf blockLength
    else if blockType = 5 then t.parseXrDlrr buf blockLength
    else if blockType = 7 then t.parseXrVoipMetricItem buf blockLength
    else t.parseXrUnsupportedBlockType buf blockLength

/-! ## Feedback -/

def parseNACKItem : Parser F × Bool :=
  s.parseItem buf 4 (.rtpfbNackItem (read16At buf s.ptr) (read16At buf (s.ptr + 2)))

/-- The exponent and the mantissa are a bit rate in bit/s. -/
def tmmbItemAt (p : Nat) : TmmbItem :=
  let exp := (byteAt buf (p + 4) >>> 2) &&& 0x3f
  let mantissa := (byteAt buf (p + 4) &&& 0x03).toUInt32 <<< 15 + (byteAt buf (p + 5)).toUInt32 <<< 7 +
    ((byteAt buf (p + 6) >>> 1) &&& 0x7f).toUInt32
  { ssrc := read32At buf p
    maxTotalMediaBitRate := (mantissa <<< exp.toUInt32) / 1000
    measuredOverhead := (byteAt buf (p + 6) &&& 0x01).toUInt32 <<< 8 + (byteAt buf (p + 7)).toUInt32 }

def parseTMMBRItem : Parser F × Bool := s.parseItem buf 8 (.rtpfbTmmbrItem (tmmbItemAt buf s.ptr))

def parseTMMBNItem : Parser F × Bool := s.parseItem buf 8 (.rtpfbTmmbnItem (tmmbItemAt buf s.ptr))

def sliItemAt (p : Nat) : SliItem :=
  let buffer := read32At buf p
  { firstMB := ((buffer >>> 19) &&& 0x1fff).toUInt16
    numberOfMB := ((buffer >>> 6) &&& 0x1fff).toUInt16
    pictureId := (buffer &&& 0x3f).toUInt8 }

def parseSLIItem : Parser F × Bool := s.parseItem buf 4 (.psfbSliItem (sliItemAt buf s.ptr))

def parseFIRItem : Parser F × Bool :=
  s.parseItem buf 8 (.psfbFirItem (read32At buf s.ptr) (byteAt buf (s.ptr + 4)))

def parseRPSIItem : Parser F × Bool :=
  if s.length < 4 ∨ s.length > 2 + 30 then (s.endItem buf, false)
  else
    let numberOfValidBits := UInt16.ofNat (s.length - 2) * 8 - (byteAt buf s.ptr).toUInt16
    ((s.moveTo buf (s.ptr + s.length)).report
      (.psfbRpsi (.item (byteAt buf (s.ptr + 1)) numberOfValidBits (bytesAt buf (s.ptr + 2) (s.length - 2)))), true)

/-- The bytes are read one by one up to the first that does not match. -/
def parsePsfbAppItem : Parser F × Bool :=
  if s.length < 4 then (s.endItem buf, false)
  else if byteAt buf s.ptr ≠ 0x52 then ((s.moveTo buf (s.ptr + 1)).endItem buf, false)
  else if byteAt buf (s.ptr + 1) ≠ 0x45 then ((s.moveTo buf (s.ptr + 2)).endItem buf, false)
  else if byteAt buf (s.ptr + 2) ≠ 0x4d then ((s.moveTo buf (s.ptr + 3)).endItem buf, false)
  else if byteAt buf (s.ptr + 3) ≠ 0x42 then ((s.moveTo buf (s.ptr + 4)).endItem buf, false)
  else ({ (s.moveTo buf (s.ptr + 4)).report .psfbRemb with state := .psfbRembItem }, true)

def parsePsfbREMBItem : Parser F × Bool :=
  if s.length < 4 then (s.endItem buf, false)
  else
    let numberOfSsrcs := (byteAt buf s.ptr).toNat
    let brExp := (byteAt buf (s.ptr + 1) >>> 2) &&& 0x3f
    let brMantissa := (byteAt buf (s.ptr + 1) &&& 0x03).toUInt32 <<< 16 + (byteAt buf (s.ptr + 2)).toUInt32 <<< 8 +
      (byteAt buf (s.ptr + 3)).toUInt32
    let t := s.moveTo buf (s.ptr + 4)
    if t.length < 4 * numberOfSsrcs then (t.endItem buf, false)
    else ((t.moveTo buf (t.ptr + 4 * numberOfSsrcs)).report (.psfbRembItem (brMantissa <<< brExp.toUInt32)
      ((List.range numberOfSsrcs).map fun i => read32At buf (t.ptr + 4 * i))), true)

/-! ## Application packets -/

def parseAPP (header : CommonHeader) : Parser F × Bool :=
  if s.length < 12 then (s.endCurrentBlock buf, false)
  else ({ (s.moveTo buf (s.ptr + 12)).report (.app header.countOrFormat (read32At buf (s.ptr + 8))) with
    state := .appItem }, true)

/-- At most `kRtcpAppCode_DATA_SIZE` bytes at a time. -/
def parseAPPItem : Parser F × Bool :=
  if s.length < 4 then (s.endItem buf, false)
  else
    let size := if s.length > 128 then 128 else s.length
    ((s.moveTo buf (s.ptr + size)).report (.appItem (bytesAt buf s.ptr size)), true)

/-! ## The top level -/

variable (parseFrom : List UInt8 → Option F)

def parseRtpfb (fmt : Nat) (senderSsrc mediaSsrc : UInt32) (block : List UInt8) : Parser F × Bool :=
  if fmt = 1 then ({ s.report (.rtpfbNack senderSsrc mediaSsrc) with state := .rtpfbNackItem }, true)
  else if fmt = 3 then ({ s.report (.rtpfbTmmbr senderSsrc mediaSsrc) with state := .rtpfbTmmbrItem }, true)
  else if fmt = 4 then ({ s.report (.rtpfbTmmbn senderSsrc mediaSsrc) with state := .rtpfbTmmbnItem }, true)
  -- Note: No state transition, SR REQ is empty!
  else if fmt = 5 then (s.report .rtpfbSrReq, true)
  else if fmt = 15 then
    match parseFrom block with
    | some feedback => ((s.endCurrentBlock buf).report (.transportFeedback feedback), true)
    | none =>
      let t := s.endCurrentBlock buf
      ({ t with numSkippedBlocks := t.numSkippedBlocks + 1 }, false)
  -- Unsupported RTPFB message. Skip and move to next block.
  else ({ s with numSkippedBlocks := s.numSkippedBlocks + 1 }, false)

def parsePsfb (fmt : Nat) (senderSsrc mediaSsrc : UInt32) : Parser F × Bool :=
  -- Note: No state transition, PLI FCI is empty!
  if fmt = 1 then (s.report (.psfbPli senderSsrc mediaSsrc), true)
  else if fmt = 2 then ({ s.report (.psfbSli senderSsrc mediaSsrc) with state := .psfbSliItem }, true)
  else if fmt = 3 then ({ s.report (.psfbRpsi (.header senderSsrc mediaSsrc)) with state := .psfbRpsiItem }, true)
  else if fmt = 4 then ({ s.report (.psfbFir senderSsrc mediaSsrc) with state := .psfbFirItem }, true)
  else if fmt = 15 then ({ s.report (.psfbApp senderSsrc mediaSsrc) with state := .psfbAppItem }, true)
  else (s, false)

def parseFBCommon (header : CommonHeader) : Parser F × Bool :=
  if s.length < 12 then (s, false)
  else
    let t := s.moveTo buf (s.ptr + 12)
    if header.packetType = ptRTPFB then
      t.parseRtpfb buf parseFrom header.countOrFormat (read32At buf (s.ptr + 4)) (read32At buf (s.ptr + 8))
        (bytesAt buf s.ptr s.length)
    else t.parsePsfb header.countOrFormat (read32At buf (s.ptr + 4)) (read32At buf (s.ptr + 8))

/-- The block at the pointer; `false` if the loop goes on. -/
def topLevelBlock (header : CommonHeader) : Parser F × Bool :=
  let counted := { s with numberOfBlocks := header.countOrFormat }
  if header.packetType = ptSR then ((counted.parseSR buf).1, true)
  else if header.packetType = ptRR then ((counted.parseRR buf).1, true)
  else if header.packetType = ptSDES then counted.parseSDES buf
  else if header.packetType = ptBYE then counted.parseBYE buf
  else if header.packetType = ptIJ then ((counted.parseIJ buf).1, true)
  else if header.packetType = ptRTPFB ∨ header.packetType = ptPSFB then s.parseFBCommon buf parseFrom header
  else if header.packetType = ptAPP then s.parseAPP buf header
  else if header.packetType = ptXR then s.parseXr buf
  -- Not supported! Skip!
  else ({ s with numSkippedBlocks := s.numSkippedBlocks + 1 }.endCurrentBlock buf, false)

/-- The common header at the pointer. -/
def headerAt (p : Nat) : Option CommonHeader := rtcpParseCommonHeader buf p (buf.length - p)

def iterateTopLevel : Parser F × Bool :=
  if buf.length ≤ s.ptr then (s, true)
  else
    match headerAt buf s.ptr with
    | none => (s, true)
    | some header =>
      let t := { s with blockEnd := s.ptr + header.blockSize }
      if t.blockEnd > buf.length then ({ t with numSkippedBlocks := t.numSkippedBlocks + 1 }, true)
      else t.topLevelBlock buf parseFrom header

/-- The `switch` of `Iterate`. -/
def dispatch : Parser F × Bool :=
  match s.state with
  | .topLevel => s.iterateTopLevel buf parseFrom
  | .reportBlockItem => s.parseReportBlockItem buf
  | .sdesChunk => s.parseSDESChunk buf
  | .byeItem => s.parseBYEItem buf
  | .extendedJitterItem => s.parseIJItem buf
  | .rtpfbNackItem => s.parseNACKItem buf
  | .rtpfbTmmbrItem => s.parseTMMBRItem buf
  | .rtpfbTmmbnItem => s.parseTMMBNItem buf
  | .psfbSliItem => s.parseSLIItem buf
  | .psfbRpsiItem => s.parseRPSIItem buf
  | .psfbFirItem => s.parseFIRItem buf
  | .psfbAppItem => s.parsePsfbAppItem buf
  | .psfbRembItem => s.parsePsfbREMBItem buf
  | .xrItem => s.parseXrItem buf
  | .xrDlrrItem => s.parseXrDlrrItem buf
  | .appItem => s.parseAPPItem buf

/-- Reset the packet type. -/
def clear : Parser F := { s with packet := none }

/-- One round of `Iterate`; `true` if it returns. -/
def iterate : Parser F × Bool :=
  if s.validPacket then s.clear.dispatch buf parseFrom else (s.clear, true)

end Parser

open WebRtc.Rtcp.Parser

/-! ## A whole parse -/

def validate (reducedSize : Bool) : Bool :=
  if buf.length = 0 then false
  else
    match headerAt buf 0 with
    | none => false
    -- The first packet must be RR or SR.
    | some header => reducedSize || header.packetType = ptSR || header.packetType = ptRR

def init (reducedSize : Bool) : Parser F where
  ptr := 0
  blockEnd := 0
  state := .topLevel
  numberOfBlocks := 0
  numSkippedBlocks := 0
  validPacket := validate buf reducedSize
  packet := none
  steady := true

variable (parseFrom : List UInt8 → Option F)

/-- The parser after `n` rounds, and whether the last one returned. -/
def steps (reducedSize : Bool) : Nat → Parser F × Bool
  | 0 => (init buf reducedSize, false)
  | n + 1 => (steps reducedSize n).1.iterate buf parseFrom

/-- Round `n` has returned `kInvalid`. -/
def Ended (reducedSize : Bool) (n : Nat) : Prop :=
  (steps buf parseFrom reducedSize n).2 = true ∧ (steps buf parseFrom reducedSize n).1.packet = none

/-- No round before round `n` has returned `kInvalid`, so that it takes place. -/
def Reached (reducedSize : Bool) (n : Nat) : Prop := ∀ m < n, ¬ Ended buf parseFrom reducedSize m

end WebRtc.Rtcp
