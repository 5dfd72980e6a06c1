import WebRtc.Lib.Wire
import WebRtc.Rtp.Bounds

/-!
# RTP packets

An RTP packet by its parts, their bytes one behind the other, and what the parser returns for them
(`parse_bytes`).
-/

namespace WebRtc.Rtp

open Bytes

/-- The block behind the contributing sources, in words of four bytes. -/
structure ExtensionBlock where
  profile : UInt16
  data : List UInt8
  words : data.length % 4 = 0
  few : data.length < 262144
deriving DecidableEq

structure RtpPacket where
  markerBit : Bool
  payloadType : UInt8
  sequenceNumber : UInt16
  timestamp : UInt32
  ssrc : UInt32
  csrcs : List UInt32
  extension : Option ExtensionBlock
  payload : List UInt8
  /-- The last byte says how many there are. -/
  padding : List UInt8
  payloadType_lt : payloadType < 128
  csrcs_le : csrcs.length ≤ 15
  padding_last : ∀ b, padding.getLast? = some b → b.toNat = padding.length
deriving DecidableEq

def flag (b : Bool) (mask : UInt8) : UInt8 := if b then mask else 0

def ExtensionBlock.bytes (e : ExtensionBlock) : List UInt8 :=
  be16 e.profile ++ be16 (UInt16.ofNat (e.data.length / 4)) ++ e.data

namespace RtpPacket

variable (p : RtpPacket)

def firstByte : UInt8 :=
  0x80 ||| flag (decide (p.padding ≠ [])) 0x20 ||| flag p.extension.isSome 0x10 ||| UInt8.ofNat p.csrcs.length

def secondByte : UInt8 := flag p.markerBit 0x80 ||| p.payloadType

def fixedBytes : List UInt8 :=
  [p.firstByte, p.secondByte] ++ be16 p.sequenceNumber ++ be32 p.timestamp ++ be32 p.ssrc ++ p.csrcs.flatMap be32

def extensionBytes : List UInt8 := (p.extension.map ExtensionBlock.bytes).getD []

def headerBytes : List UInt8 := p.fixedBytes ++ p.extensionBytes

def bytes : List UInt8 := p.headerBytes ++ p.payload ++ p.padding

theorem fixedBytes_length : p.fixedBytes.length = 12 + p.csrcs.length * 4 := by
  have hcsrcs : ∀ l : List UInt32, (l.flatMap be32).length = l.length * 4 := by
    intro l
    induction l with
    | nil => rfl
    | cons x l ih =>
      rw [List.flatMap_cons, List.length_append, ih, be32_length, List.length_cons]
      omega
  simp only [fixedBytes, List.length_append, hcsrcs, be16_length, be32_length, List.length_cons, List.length_nil]

theorem extensionBytes_length : p.extensionBytes.length = (p.extension.map fun e => 4 + e.data.length).getD 0 := by
  cases h : p.extension with
  | none => simp [extensionBytes, h]
  | some e =>
    simp [extensionBytes, h, ExtensionBlock.bytes]
    omega

theorem bytes_length : p.bytes.length =
    12 + p.csrcs.length * 4 + p.extensionBytes.length + p.payload.length + p.padding.length := by
  simp only [bytes, headerBytes, List.length_append, fixedBytes_length]

end RtpPacket

/-! ## Reading the fields -/

theorem read16_val (buf : List UInt8) (p : Nat) : (read16 (byteAt buf) p).val = read16At buf p := rfl

theorem read32_val (buf : List UInt8) (p : Nat) : (read32 (byteAt buf) p).val = read32At buf p := rfl

theorem readCsrcs_val {buf : List UInt8} (csrcs : List UInt32) {p : Nat} (h : At buf p (csrcs.flatMap be32)) :
    (readCsrcs (byteAt buf) csrcs.length p).val = csrcs := by
  induction csrcs generalizing p with
  | nil => rfl
  | cons x csrcs ih =>
    rw [List.flatMap_cons, at_append] at h
    have hx : (read32 (byteAt buf) p).val = x := h.1.read32
    have hrest := ih h.2
    rw [be32_length] at hrest
    simp only [List.length_cons, readCsrcs, Reads.val_bind, Reads.val_pure, hx, hrest]

theorem first_bits (p x : Bool) {n : Nat} (hn : n ≤ 15) :
    let a := 0x80 ||| flag p 0x20 ||| flag x 0x10 ||| UInt8.ofNat n
    a >>> 6 = 2 ∧ (a &&& 0x20 ≠ 0 ↔ p = true) ∧ (a &&& 0x10 ≠ 0 ↔ x = true) ∧ (a &&& 0x0F).toNat = n := by
  have h : ∀ n < 16, ∀ p x : Bool,
      let a := 0x80 ||| flag p 0x20 ||| flag x 0x10 ||| UInt8.ofNat n
      a >>> 6 = 2 ∧ (a &&& 0x20 ≠ 0 ↔ p = true) ∧ (a &&& 0x10 ≠ 0 ↔ x = true) ∧ (a &&& 0x0F).toNat = n := by
    decide +kernel
  exact h n (Nat.lt_succ_of_le hn) p x

theorem second_bits (m : Bool) (t : UInt8) (ht : t < 128) :
    ((flag m 0x80 ||| t) &&& 0x80 ≠ 0 ↔ m = true) ∧ (flag m 0x80 ||| t) &&& 0x7F = t := by
  revert t
  cases m <;> decide +kernel

section Parse
variable (p : RtpPacket)

theorem firstByte_bits : p.firstByte >>> 6 = 2 ∧ (p.firstByte &&& 0x20 ≠ 0 ↔ p.padding ≠ []) ∧
    (p.firstByte &&& 0x10 ≠ 0 ↔ p.extension.isSome = true) ∧ (p.firstByte &&& 0x0F).toNat = p.csrcs.length := by
  obtain ⟨hV, hP, hX, hCC⟩ := first_bits (decide (p.padding ≠ [])) p.extension.isSome p.csrcs_le
  rw [decide_eq_true_eq] at hP
  exact ⟨hV, hP, hX, hCC⟩

/-- The bytes from the beginning on. -/
theorem bytes_at : At p.bytes 0 [p.firstByte] ∧ At p.bytes 1 [p.secondByte] ∧ At p.bytes 2 (be16 p.sequenceNumber) ∧
    At p.bytes 4 (be32 p.timestamp) ∧ At p.bytes 8 (be32 p.ssrc) ∧ At p.bytes 12 (p.csrcs.flatMap be32) := by
  have h : At p.bytes 0 p.fixedBytes := by
    rw [RtpPacket.bytes, RtpPacket.headerBytes, List.append_assoc, List.append_assoc]
    exact at_zero _ _
  simp only [RtpPacket.fixedBytes, List.cons_append, List.nil_append, List.append_assoc] at h
  obtain ⟨h0, h⟩ := at_cons.1 h
  obtain ⟨h1, h⟩ := at_cons.1 h
  rw [at_append, at_append, at_append] at h
  exact ⟨h0, h1, h⟩

theorem csrcEnd_bytes : csrcEnd (byteAt p.bytes) = 12 + p.csrcs.length * 4 := by
  obtain ⟨h0, -⟩ := bytes_at p
  obtain ⟨-, -, -, hcc⟩ := firstByte_bits p
  rw [csrcEnd, h0.byte, hcc]

/-- The extension block stands behind the contributing sources. -/
theorem extension_at : At p.bytes (12 + p.csrcs.length * 4) p.extensionBytes := by
  rw [← p.fixedBytes_length, RtpPacket.bytes, RtpPacket.headerBytes, List.append_assoc]
  exact at_suffix _ _ _

theorem last_byte (hp : p.padding ≠ []) : (byteAt p.bytes (p.bytes.length - 1)).toNat = p.padding.length := by
  obtain ⟨init, b, hb⟩ := List.eq_nil_or_concat p.padding |>.resolve_left hp
  have hlen := p.padding_last b (by rw [hb]; simp)
  rw [← hlen, byteAt, RtpPacket.bytes, hb]
  congr 1
  simp [List.getD_eq_getElem?_getD, ← List.append_assoc]

/-- What the fields of the header are. -/
theorem fixedHeader_bytes (header : RTPHeader) : fixedHeader (byteAt p.bytes) p.bytes.length header =
    { markerBit := p.markerBit, payloadType := p.payloadType, sequenceNumber := p.sequenceNumber,
      timestamp := p.timestamp,
      ssrc := p.ssrc, numCSRCs := p.csrcs.length, arrOfCSRCs := p.csrcs ++ header.arrOfCSRCs.drop p.csrcs.length,
      paddingLength := p.padding.length, headerLength := 12 + p.csrcs.length * 4,
      payloadTypeFrequency := header.payloadTypeFrequency, extension := header.extension.reset } := by
  obtain ⟨h0, h1, hseq, hts, hssrc, hcsrcs⟩ := bytes_at p
  obtain ⟨-, hP, -, hcc⟩ := firstByte_bits p
  obtain ⟨hM, hPT⟩ := second_bits p.markerBit p.payloadType p.payloadType_lt
  have hend := csrcEnd_bytes p
  have hlist := readCsrcs_val p.csrcs hcsrcs
  have hpadding : (if byteAt p.bytes 0 &&& 0x20 ≠ 0 then (byteAt p.bytes (p.bytes.length - 1)).toNat else 0) =
      p.padding.length := by
    rw [h0.byte]
    by_cases hp : p.padding = []
    · rw [if_neg (fun h => hP.1 h hp), hp, List.length_nil]
    · rw [if_pos (hP.2 hp), last_byte p hp]
  have hcc' : (byteAt p.bytes 0 &&& 0x0F).toNat = p.csrcs.length := by
    rw [h0.byte]
    exact hcc
  have hmarker : decide (byteAt p.bytes 1 &&& 0x80 ≠ 0) = p.markerBit := by
    rw [h1.byte, RtpPacket.secondByte]
    simp only [hM, Bool.decide_eq_true]
  have htype : byteAt p.bytes 1 &&& 0x7F = p.payloadType := by
    rw [h1.byte]
    exact hPT
  rw [fixedHeader, hmarker, htype, hcc', hlist, hend, hpadding, read16_val, read32_val, read32_val,
    hseq.read16, hts.read32,
    hssrc.read32]

/-- The header of the packet, with what has been made of its extension. -/
def RtpPacket.header (header : RTPHeader) (extension : RTPHeaderExtension) : RTPHeader :=
  { markerBit := p.markerBit, payloadType := p.payloadType, sequenceNumber := p.sequenceNumber,
    timestamp := p.timestamp,
    ssrc := p.ssrc, numCSRCs := p.csrcs.length, arrOfCSRCs := p.csrcs ++ header.arrOfCSRCs.drop p.csrcs.length,
    paddingLength := p.padding.length, headerLength := p.headerBytes.length,
    payloadTypeFrequency := header.payloadTypeFrequency, extension }

/-- What is made of it. -/
def RtpPacket.parsedExtension (ptrExtensionMap : Option RtpHeaderExtensionMap) (ext : RTPHeaderExtension) :
    Option RTPHeaderExtension :=
  match p.extension, ptrExtensionMap with
  | some e, some m =>
    if e.profile = 0xBEDE then
      let start := 12 + p.csrcs.length * 4 + 4
      (parseOneByteExtensionHeader (byteAt p.bytes) m (start + e.data.length) (start + e.data.length) start ext).val
    else some ext
  | _, _ => some ext

theorem parsedExtension_isSome (ptrExtensionMap : Option RtpHeaderExtensionMap) (ext : RTPHeaderExtension) :
    (p.parsedExtension ptrExtensionMap ext).isSome := by
  unfold RtpPacket.parsedExtension
  split
  · split
    · exact (parseOneByteExtensionHeader_log _ _ (by omega) ext).1
    · rfl
  · rfl

theorem parsedExtension_none (ext : RTPHeaderExtension) : p.parsedExtension none ext = some ext := by
  unfold RtpPacket.parsedExtension
  cases p.extension <;> rfl

theorem headerBytes_length : p.headerBytes.length = 12 + p.csrcs.length * 4 + p.extensionBytes.length := by
  rw [RtpPacket.headerBytes, List.length_append, p.fixedBytes_length]

theorem headerBytes_length_le : p.headerBytes.length + p.padding.length ≤ p.bytes.length := by
  rw [RtpPacket.bytes, List.length_append, List.length_append]
  omega

theorem finish_header (header : RTPHeader) (ext : RTPHeaderExtension) :
    finish p.bytes.length (p.header header ext) = (true, p.header header ext) := by
  have hle := headerBytes_length_le p
  simp only [finish, Prod.mk.injEq, Bool.not_eq_true', decide_eq_false_iff_not, Nat.not_lt, and_true]
  exact hle

/-- **A packet is parsed.** -/
theorem parse_bytes (ptrExtensionMap : Option RtpHeaderExtensionMap) (header : RTPHeader) :
    (parse (byteAt p.bytes) p.bytes.length ptrExtensionMap header).val =
      (p.parsedExtension ptrExtensionMap header.extension.reset).map fun ext => (true, p.header header ext) := by
  obtain ⟨h0, -⟩ := bytes_at p
  obtain ⟨hV, -, hX, -⟩ := firstByte_bits p
  have hlen := p.bytes_length
  have hend := csrcEnd_bytes p
  have hext := extension_at p
  have hextLen := p.extensionBytes_length
  have hheader := headerBytes_length p
  rw [parse_val, h0.byte, hend, if_neg (by omega), if_neg (not_not.2 hV), if_neg (by omega), fixedHeader_bytes]
  cases he : p.extension with
  | none =>
    rw [he] at hX hextLen
    rw [if_neg (fun h => by simp at hX; exact h hX)]
    have hnone : p.parsedExtension ptrExtensionMap header.extension.reset = some header.extension.reset := by
      simp [RtpPacket.parsedExtension, he]
    have hsame : 12 + p.csrcs.length * 4 = p.headerBytes.length := by
      rw [hheader, hextLen]
      rfl
    rw [hnone, Option.map_some, hsame]
    exact congrArg some (finish_header p header _)
  | some e =>
    rw [he] at hX hextLen
    rw [if_pos (hX.2 rfl)]
    have hbytes : p.extensionBytes = e.bytes := by rw [RtpPacket.extensionBytes, he]; rfl
    rw [hbytes, ExtensionBlock.bytes, at_append, at_append] at hext
    obtain ⟨⟨hprofile, hwords⟩, -⟩ := hext
    have hprofile' : (read16 (byteAt p.bytes) (12 + p.csrcs.length * 4)).val = e.profile := hprofile.read16
    have hwords' : (read16 (byteAt p.bytes) (12 + p.csrcs.length * 4 + 2)).val.toNat * 4 = e.data.length := by
      have hread : (read16 (byteAt p.bytes) (12 + p.csrcs.length * 4 + 2)).val = UInt16.ofNat (e.data.length / 4) :=
        hwords.read16
      have hfew := e.few
      have hmul := e.words
      rw [hread, UInt16.toNat_ofNat']
      omega
    have hextLen : p.extensionBytes.length = 4 + e.data.length := hextLen
    unfold parseExtension
    dsimp only
    rw [if_neg (by omega)]
    simp only [Reads.val_bind, hprofile', hwords']
    rw [if_neg (by omega)]
    have hdone : ∀ ext, finish p.bytes.length
        { markerBit := p.markerBit, payloadType := p.payloadType, sequenceNumber := p.sequenceNumber,
          timestamp := p.timestamp,
          ssrc := p.ssrc, numCSRCs := p.csrcs.length, arrOfCSRCs := p.csrcs ++ header.arrOfCSRCs.drop p.csrcs.length,
          paddingLength := p.padding.length, headerLength := 12 + p.csrcs.length * 4 + 4 + e.data.length,
          payloadTypeFrequency := header.payloadTypeFrequency, extension := ext } =
        (true, p.header header ext) := by
      intro ext
      have hsame : 12 + p.csrcs.length * 4 + 4 + e.data.length = p.headerBytes.length := by omega
      rw [hsame]
      exact finish_header p header ext
    simp only [Reads.val_bind, Reads.val_pure, hdone]
    congr 1
    unfold RtpPacket.parsedExtension
    rw [he]
    by_cases hone : e.profile = 0xBEDE
    · rw [if_pos hone]
      cases ptrExtensionMap with
      | none => rfl
      | some m => simp only [if_pos hone]
    · rw [if_neg hone]
      cases ptrExtensionMap with
      | none => rfl
      | some m => simp only [if_neg hone]; rfl

end Parse

end WebRtc.Rtp
