import WebRtc.Rtp.Layout

/-!
# Retransmission in a stream of its own

| here | there |
| --- | --- |
| `buildRtxPacket` | `RTPSender::BuildRtxPacket`, `rtp_sender.cc:1817-1855` |
| `restoreOriginalPacket` | `RTPPayloadRegistry::RestoreOriginalPacket`, `rtp_payload_registry.cc:244-294` |

Sender and receiver find the end of the header each by parsing it. Between it and the payload the sender
inserts the original sequence number.
-/

namespace WebRtc.Rtp

open Bytes

/-- What the sender knows of the stream. -/
structure RtxSender where
  /-- -1 when there is none. -/
  rtxPayloadType : Int
  sequenceNumberRtx : UInt16
  ssrcRtx : UInt32
  /-- `SetRtxPayloadType` takes no others. -/
  range : rtxPayloadType = -1 ∨ 0 ≤ rtxPayloadType ∧ rtxPayloadType ≤ 127

/-- `kRtpMarkerBitMask`. -/
def markerBitMask : UInt8 := 0x80

/-- The sender and the packet that is sent. -/
def RtxSender.buildRtxPacket (s : RtxSender) (buffer : List UInt8) : RtxSender × List UInt8 :=
  -- The return value of the parser is ignored.
  let rtpHeader := ((parse (byteAt buffer) buffer.length none .empty).val.map Prod.snd).getD .empty
  let data := buffer.take rtpHeader.headerLength
  let data :=
    if s.rtxPayloadType ≠ -1 then
      put data 1 [if rtpHeader.markerBit then UInt8.ofInt s.rtxPayloadType ||| markerBitMask
        else UInt8.ofInt s.rtxPayloadType]
    else data
  let data := put data 2 (be16 s.sequenceNumberRtx)
  let data := put data 8 (be32 s.ssrcRtx)
  ({ s with sequenceNumberRtx := s.sequenceNumberRtx + 1 },
    data ++ be16 rtpHeader.sequenceNumber ++ buffer.drop rtpHeader.headerLength)

structure RTPPayloadRegistry where
  rtx : Bool
  /-- From the payload type of a retransmission to that of the packet. -/
  rtxPayloadTypeMap : List (Int × Int)
  useRtxPayloadMappingOnRestore : Bool
  rtxPayloadType : Int
  incomingPayloadType : Int

namespace RTPPayloadRegistry

variable (r : RTPPayloadRegistry)

def associatedPayloadType (payloadType : UInt8) : Option Int :=
  match r.rtxPayloadTypeMap.lookup (payloadType.toNat : Int), r.useRtxPayloadMappingOnRestore with
  | some associated, true => some associated
  | _, _ =>
    -- Assume this RTX packet matches the last non-RTX payload type we received.
    if r.rtxPayloadType = -1 ∨ r.incomingPayloadType = -1 then none else some r.incomingPayloadType

def restoreOriginalPacket (packet : List UInt8) (originalSsrc : UInt32) (header : RTPHeader) : Option (List UInt8) :=
  if 2 + header.headerLength + header.paddingLength > packet.length then none
  else
    let originalSequenceNumber := read16At packet header.headerLength
    let restored := packet.take header.headerLength ++ packet.drop (header.headerLength + 2)
    let restored := put restored 2 (be16 originalSequenceNumber)
    let restored := put restored 8 (be32 originalSsrc)
    if !r.rtx then some restored
    else (r.associatedPayloadType header.payloadType).map fun associated =>
      put restored 1 [if header.markerBit then UInt8.ofInt associated ||| markerBitMask else UInt8.ofInt associated]

/-- The payload type that a packet gets. -/
def restoredPayloadType (payloadType : UInt8) : Option UInt8 :=
  if r.rtx then (r.associatedPayloadType payloadType).map UInt8.ofInt else some payloadType

end RTPPayloadRegistry

/-! ## The packet and its retransmission -/

namespace RtpPacket

/-- Another payload type, sequence number and source. -/
def readdress (p : RtpPacket) (payloadType : UInt8) (h : payloadType < 128) (sequenceNumber : UInt16)
    (ssrc : UInt32) : RtpPacket :=
  { p with payloadType, sequenceNumber, ssrc, payloadType_lt := h }

/-- More before the payload. -/
def prepend (p : RtpPacket) (front : List UInt8) : RtpPacket := { p with payload := front ++ p.payload }

variable (p : RtpPacket)

theorem prepend_bytes (front : List UInt8) :
    (p.prepend front).bytes = p.headerBytes ++ front ++ p.payload ++ p.padding := by
  show p.headerBytes ++ (front ++ p.payload) ++ p.padding = _
  rw [List.append_assoc p.headerBytes front]

/-- Behind the source nothing depends on what is readdressed. -/
theorem headerBytes_eq : p.headerBytes = [p.firstByte, p.secondByte] ++ be16 p.sequenceNumber ++
    be32 p.timestamp ++ be32 p.ssrc ++
    (p.csrcs.flatMap be32 ++ p.extensionBytes) := by
  rw [headerBytes, fixedBytes, List.append_assoc _ (p.csrcs.flatMap be32)]

/-- The header is readdressed in place. -/
theorem put_header (rest : List UInt8) {payloadType : UInt8} (h : payloadType < 128)
    (sequenceNumber : UInt16) (ssrc : UInt32) :
    put (put (put (p.headerBytes ++ rest) 1 [flag p.markerBit 0x80 ||| payloadType]) 2
      (be16 sequenceNumber)) 8 (be32 ssrc) =
      (p.readdress payloadType h sequenceNumber ssrc).headerBytes ++ rest := by
  have h1 := @put_append [p.firstByte] [p.secondByte] [flag p.markerBit 0x80 ||| payloadType]
    (be16 p.sequenceNumber ++ be32 p.timestamp ++ be32 p.ssrc ++ (p.csrcs.flatMap be32 ++ p.extensionBytes) ++ rest) rfl
  have h2 := @put_append [p.firstByte, flag p.markerBit 0x80 ||| payloadType] (be16 p.sequenceNumber)
    (be16 sequenceNumber) (be32 p.timestamp ++ be32 p.ssrc ++ (p.csrcs.flatMap be32 ++ p.extensionBytes) ++ rest) rfl
  have h3 := @put_append ([p.firstByte, flag p.markerBit 0x80 ||| payloadType] ++
    be16 sequenceNumber ++ be32 p.timestamp)
    (be32 p.ssrc) (be32 ssrc) ((p.csrcs.flatMap be32 ++ p.extensionBytes) ++ rest) rfl
  rw [headerBytes_eq, headerBytes_eq]
  simp only [List.append_assoc, List.cons_append, List.nil_append, List.length_cons, List.length_nil,
    List.length_append,
    be16_length, be32_length] at h1 h2 h3 ⊢
  rw [h1, h2, h3]
  rfl

/-- The payload type alone. -/
theorem put_second (rest : List UInt8) {payloadType : UInt8} (h : payloadType < 128) :
    put (p.headerBytes ++ rest) 1 [flag p.markerBit 0x80 ||| payloadType] =
      (p.readdress payloadType h p.sequenceNumber p.ssrc).headerBytes ++ rest := by
  rw [headerBytes_eq, headerBytes_eq]
  rfl

/-- Where the payload type stays as it is. -/
theorem put_header_same (rest : List UInt8) (sequenceNumber : UInt16) (ssrc : UInt32) :
    put (put (p.headerBytes ++ rest) 2 (be16 sequenceNumber)) 8 (be32 ssrc) =
      (p.readdress p.payloadType p.payloadType_lt sequenceNumber ssrc).headerBytes ++ rest := by
  have h := p.put_header rest p.payloadType_lt sequenceNumber ssrc
  rw [p.put_second rest p.payloadType_lt] at h
  exact h

end RtpPacket

/-- A payload type of seven bits. -/
theorem ofInt_lt {t : Int} (h : 0 ≤ t ∧ t ≤ 127) : UInt8.ofInt t < 128 := by
  rw [UInt8.lt_iff_toNat_lt, UInt8.ofInt, UInt8.toNat_ofNat']
  show (t % 2 ^ 8).toNat % 2 ^ 8 < 128
  omega

/-- The payload type of the retransmission. -/
def RtxSender.payloadType (s : RtxSender) (p : RtpPacket) : UInt8 :=
  if s.rtxPayloadType = -1 then p.payloadType else UInt8.ofInt s.rtxPayloadType

theorem RtxSender.payloadType_lt (s : RtxSender) (p : RtpPacket) : s.payloadType p < 128 := by
  unfold RtxSender.payloadType
  split
  · exact p.payloadType_lt
  · next h => exact ofInt_lt (s.range.resolve_left h)

/-- The retransmission of `p`. -/
def RtxSender.rtxPacket (s : RtxSender) (p : RtpPacket) : RtpPacket :=
  (p.readdress (s.payloadType p) (s.payloadType_lt p) s.sequenceNumberRtx s.ssrcRtx).prepend (be16 p.sequenceNumber)

theorem marker_or (m : Bool) (t : UInt8) : (if m then t ||| markerBitMask else t) = flag m 0x80 ||| t := by
  cases m
  · exact (UInt8.zero_or).symm
  · exact UInt8.or_comm _ _

/-- **What the sender builds.** -/
theorem buildRtxPacket_bytes (s : RtxSender) (p : RtpPacket) :
    (s.buildRtxPacket p.bytes).2 = (s.rtxPacket p).bytes := by
  have hparse := parse_bytes p none .empty
  obtain ⟨ext, hext⟩ := Option.isSome_iff_exists.1 (parsedExtension_isSome p none RTPHeader.empty.extension.reset)
  rw [hext, Option.map_some] at hparse
  have htake : p.bytes.take p.headerBytes.length = p.headerBytes := by
    rw [RtpPacket.bytes, List.append_assoc, List.take_left]
  have hdrop : p.bytes.drop p.headerBytes.length = p.payload ++ p.padding := by
    rw [RtpPacket.bytes, List.append_assoc, List.drop_left]
  rw [RtxSender.rtxPacket, RtpPacket.prepend_bytes, RtxSender.buildRtxPacket]
  simp only [hparse, Option.map_some, Option.getD_some, RtpPacket.header, htake, hdrop]
  by_cases hnone : s.rtxPayloadType = -1
  · have hput := p.put_header_same [] s.sequenceNumberRtx s.ssrcRtx
    have hsame : s.payloadType p = p.payloadType := if_pos hnone
    simp only [List.append_nil] at hput
    simp only [hnone, ne_eq, not_true_eq_false, if_false, hput, List.append_assoc]
    simp only [RtpPacket.readdress, hsame]
  · have hput := p.put_header [] (ofInt_lt (s.range.resolve_left hnone)) s.sequenceNumberRtx s.ssrcRtx
    have hother : s.payloadType p = UInt8.ofInt s.rtxPayloadType := if_neg hnone
    simp only [List.append_nil] at hput
    simp only [hnone, ne_eq, not_false_eq_true, if_true, marker_or, hput, List.append_assoc]
    simp only [RtpPacket.readdress, hother]

/-- **What the receiver restores.** -/
theorem restoreOriginalPacket_bytes (r : RTPPayloadRegistry) (s : RtxSender) (p : RtpPacket) (hdr : RTPHeader)
    (ext : RTPHeaderExtension) (hpt : r.restoredPayloadType (s.payloadType p) = some p.payloadType) :
    r.restoreOriginalPacket (s.rtxPacket p).bytes p.ssrc ((s.rtxPacket p).header hdr ext) = some p.bytes := by
  -- The retransmission is `q` and two bytes before its payload.
  generalize hq : p.readdress (s.payloadType p) (s.payloadType_lt p) s.sequenceNumberRtx s.ssrcRtx = q
  have hrtx : s.rtxPacket p = q.prepend (be16 p.sequenceNumber) := by rw [RtxSender.rtxPacket, hq]
  have hqp : p = q.readdress p.payloadType p.payloadType_lt p.sequenceNumber p.ssrc := by rw [← hq]; rfl
  have hheader : (q.prepend (be16 p.sequenceNumber)).headerBytes = q.headerBytes := rfl
  have hpadding : (q.prepend (be16 p.sequenceNumber)).padding = q.padding := rfl
  have hbytes := q.prepend_bytes (be16 p.sequenceNumber)
  have htype : q.payloadType = s.payloadType p := by rw [← hq]; rfl
  have htake : (q.prepend (be16 p.sequenceNumber)).bytes.take q.headerBytes.length = q.headerBytes := by
    rw [hbytes, List.append_assoc, List.append_assoc, List.take_left]
  have hdrop : (q.prepend (be16 p.sequenceNumber)).bytes.drop (q.headerBytes.length + 2) = q.payload ++ q.padding := by
    rw [hbytes, ← be16_length p.sequenceNumber, ← List.length_append,
      List.append_assoc (q.headerBytes ++ _), List.drop_left]
  have hosn : read16At (q.prepend (be16 p.sequenceNumber)).bytes q.headerBytes.length = p.sequenceNumber := by
    apply At.read16
    rw [hbytes, List.append_assoc]
    exact at_suffix _ _ _
  have hlen : ¬ 2 + q.headerBytes.length + q.padding.length > (q.prepend (be16 p.sequenceNumber)).bytes.length := by
    rw [hbytes]
    simp only [List.length_append, be16_length]
    omega
  have hput := q.put_header_same (q.payload ++ q.padding) p.sequenceNumber p.ssrc
  have hback : ∀ (t : UInt8) (ht : t < 128), t = p.payloadType →
      (q.readdress t ht p.sequenceNumber p.ssrc).headerBytes ++ (q.payload ++ q.padding) = p.bytes := by
    rintro _ ht rfl
    rw [← List.append_assoc]
    exact congrArg RtpPacket.bytes hqp.symm
  rw [hrtx, RTPPayloadRegistry.restoreOriginalPacket]
  simp only [RtpPacket.header, hheader, hpadding]
  rw [if_neg hlen, hosn, htake, hdrop, hput]
  unfold RTPPayloadRegistry.restoredPayloadType at hpt
  cases hr : r.rtx with
  | false =>
    rw [hr] at hpt
    have hsame : s.payloadType p = p.payloadType := by simpa using hpt
    exact congrArg some (hback q.payloadType q.payloadType_lt (htype.trans hsame))
  | true =>
    rw [hr, if_pos rfl, Option.map_eq_some_iff] at hpt
    obtain ⟨associated, hassociated, hofInt⟩ := hpt
    have hlt : UInt8.ofInt associated < 128 := hofInt ▸ p.payloadType_lt
    have hsecond := (q.readdress q.payloadType q.payloadType_lt p.sequenceNumber p.ssrc).put_second
      (q.payload ++ q.padding) hlt
    rw [if_neg (by simp)]
    have hfound : r.associatedPayloadType (q.prepend (be16 p.sequenceNumber)).payloadType = some associated := by
      show r.associatedPayloadType q.payloadType = _
      rw [htype, hassociated]
    rw [hfound, Option.map_some, marker_or]
    exact congrArg some (hsecond.trans (hback _ hlt hofInt))

/-- In the header, only what is readdressed changes. -/
theorem rtxPacket_header (s : RtxSender) (p : RtpPacket) {i : Nat} (hi : i < p.headerBytes.length)
    (hother : i = 0 ∨ 4 ≤ i ∧ i < 8 ∨ 12 ≤ i) : byteAt (s.rtxPacket p).bytes i = byteAt p.bytes i := by
  have h12 : 12 ≤ p.headerBytes.length := by
    rw [headerBytes_length]
    omega
  have hput := p.put_header (be16 p.sequenceNumber ++ (p.payload ++ p.padding))
    (s.payloadType_lt p) s.sequenceNumberRtx s.ssrcRtx
  have hrtx : (s.rtxPacket p).bytes =
    (p.readdress (s.payloadType p) (s.payloadType_lt p) s.sequenceNumberRtx s.ssrcRtx).headerBytes ++
      (be16 p.sequenceNumber ++ (p.payload ++ p.padding)) := by
    rw [RtxSender.rtxPacket, RtpPacket.prepend_bytes, List.append_assoc, List.append_assoc]
    rfl
  have hlen : ∀ rest : List UInt8, 12 ≤ (p.headerBytes ++ rest).length := by
    intro rest
    rw [List.length_append]
    omega
  have hp : p.bytes = p.headerBytes ++ (p.payload ++ p.padding) := by
    rw [RtpPacket.bytes, List.append_assoc]
  rw [hrtx, ← hput, byteAt_put, byteAt_put, byteAt_put, byteAt_append hi, hp, byteAt_append hi]
  · have h := hlen (be16 p.sequenceNumber ++ (p.payload ++ p.padding))
    simp only [List.length_singleton]
    omega
  · simp only [List.length_singleton]
    omega
  · have h := hlen (be16 p.sequenceNumber ++ (p.payload ++ p.padding))
    rw [put_length (by simp only [List.length_singleton]; omega), be16_length]
    omega
  · rw [be16_length]
    omega
  · have h := hlen (be16 p.sequenceNumber ++ (p.payload ++ p.padding))
    rw [put_length, put_length, be32_length]
    · omega
    · simp only [List.length_singleton]
      omega
    · rw [put_length (by simp only [List.length_singleton]; omega), be16_length]
      omega
  · rw [be32_length]
    omega

/-- **A retransmission is undone by the receiver.** It is the packet with another payload type, sequence
number and source and with the two bytes before its payload; from the header that is parsed of it the
packet is restored. -/
theorem rtx_restored (s : RtxSender) (p : RtpPacket) (hlen : p.bytes.length ≤ ipPacketSize - 2) (r : RTPPayloadRegistry)
    (hpt : r.restoredPayloadType (s.payloadType p) = some p.payloadType)
    (m : Option RtpHeaderExtensionMap) (hdr : RTPHeader) :
    (s.buildRtxPacket p.bytes).2.length ≤ ipPacketSize ∧ (s.buildRtxPacket p.bytes).2 = (s.rtxPacket p).bytes ∧
      (∀ i < p.headerBytes.length, i = 0 ∨ 4 ≤ i ∧ i < 8 ∨ 12 ≤ i →
        byteAt (s.buildRtxPacket p.bytes).2 i = byteAt p.bytes i) ∧
      (s.buildRtxPacket p.bytes).2.drop p.headerBytes.length = be16 p.sequenceNumber ++
        p.bytes.drop p.headerBytes.length ∧
      ∃ header, (parse (byteAt (s.buildRtxPacket p.bytes).2)
        (s.buildRtxPacket p.bytes).2.length m hdr).val = some (true, header) ∧
        r.restoreOriginalPacket (s.buildRtxPacket p.bytes).2 p.ssrc header = some p.bytes := by
  have hbuild := buildRtxPacket_bytes s p
  have hheader : (s.rtxPacket p).headerBytes.length = p.headerBytes.length := by
    rw [headerBytes_length, headerBytes_length]
    rfl
  have hlength : (s.rtxPacket p).bytes.length = p.bytes.length + 2 := by
    have h1 := (s.rtxPacket p).bytes_length
    have h2 := p.bytes_length
    have hpayload : (s.rtxPacket p).payload.length = p.payload.length + 2 := by
      show (be16 p.sequenceNumber ++ p.payload).length = _
      rw [List.length_append, be16_length, Nat.add_comm]
    have hsame : (s.rtxPacket p).csrcs.length = p.csrcs.length ∧
      (s.rtxPacket p).extensionBytes.length = p.extensionBytes.length ∧
        (s.rtxPacket p).padding.length = p.padding.length := ⟨rfl, rfl, rfl⟩
    omega
  rw [hbuild]
  refine ⟨?_, rfl, fun i hi => rtxPacket_header s p hi, ?_, ?_⟩
  · rw [hlength]
    unfold ipPacketSize at hlen ⊢
    omega
  · have hp : p.bytes.drop p.headerBytes.length = p.payload ++ p.padding := by
      rw [RtpPacket.bytes, List.append_assoc, List.drop_left]
    have hrtx : (s.rtxPacket p).bytes = (s.rtxPacket p).headerBytes ++
        (be16 p.sequenceNumber ++ (p.payload ++ p.padding)) := by
      rw [RtpPacket.bytes, List.append_assoc]
      show _ ++ (be16 p.sequenceNumber ++ p.payload ++ p.padding) = _
      rw [List.append_assoc (be16 p.sequenceNumber)]
    rw [hp, hrtx, ← hheader, List.drop_left]
  · obtain ⟨ext, hext⟩ := Option.isSome_iff_exists.1 (parsedExtension_isSome (s.rtxPacket p) m hdr.extension.reset)
    refine ⟨(s.rtxPacket p).header hdr ext, ?_, restoreOriginalPacket_bytes r s p hdr ext hpt⟩
    rw [parse_bytes, hext, Option.map_some]

/-- A packet with a contributing source, an extension, a payload and padding. -/
def samplePacket : RtpPacket where
  markerBit := true
  payloadType := 96
  sequenceNumber := 7
  timestamp := 1000
  ssrc := 0x01020304
  csrcs := [5]
  extension := some ⟨0xBEDE, [0x10, 0xFF, 0, 0], by decide, by decide⟩
  payload := [1, 2, 3]
  padding := [0, 2]
  payloadType_lt := by decide
  csrcs_le := by decide
  padding_last := by
    intro b hb
    rw [← Option.some.inj hb]
    rfl

def sampleSender : RtxSender := ⟨97, 65535, 9, Or.inr (by decide)⟩

theorem rtx_restored_sample : (sampleSender.buildRtxPacket samplePacket.bytes).2.length ≤ ipPacketSize ∧
    ∃ header, (parse (byteAt (sampleSender.buildRtxPacket samplePacket.bytes).2)
      (sampleSender.buildRtxPacket samplePacket.bytes).2.length none .empty).val = some (true, header) ∧
      RTPPayloadRegistry.restoreOriginalPacket ⟨true, [(97, 96)], true, 97, 0⟩
        (sampleSender.buildRtxPacket samplePacket.bytes).2 0x01020304 header = some samplePacket.bytes := by
  obtain ⟨hlength, -, -, -, hrestored⟩ := rtx_restored sampleSender samplePacket (by decide)
    ⟨true, [(97, 96)], true, 97, 0⟩ (by decide) none .empty
  exact ⟨hlength, hrestored⟩

end WebRtc.Rtp
