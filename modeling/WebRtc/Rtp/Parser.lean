import WebRtc.Rtp.Header

/-!
# The RTP header parser

| here | there |
| --- | --- |
| `parse` | `RtpHeaderParser::Parse`, `rtp_utility.cc:247-360` |
| `parseOneByteExtensionHeader` | `rtp_utility.cc:362-486` |
| `parsePaddingBytes` | `rtp_utility.cc:488-503` |

The packet is the first `length` bytes of a memory, and what is read of the memory is logged: `value` for
what goes into a field of the header extension, `octet` for the rest. A loop that has used up its fuel
gives none.
-/

namespace WebRtc.Rtp

inductive Access where
  | octet (pos : Nat)
  | value (pos : Nat)
deriving DecidableEq, Repr

def Access.pos : Access → Nat
  | .octet p => p
  | .value p => p

/-- A result and what was read for it. -/
@[ext] structure Reads (α : Type) where
  val : α
  log : List Access

namespace Reads

variable {α β : Type}

instance instMonad : Monad Reads where
  pure a := ⟨a, []⟩
  bind x f := ⟨(f x.val).val, x.log ++ (f x.val).log⟩

@[simp] theorem val_pure (a : α) : (pure a : Reads α).val = a := rfl
@[simp] theorem log_pure (a : α) : (pure a : Reads α).log = [] := rfl
@[simp] theorem val_bind (x : Reads α) (f : α → Reads β) : (x >>= f).val = (f x.val).val := rfl
@[simp] theorem log_bind (x : Reads α) (f : α → Reads β) : (x >>= f).log = x.log ++ (f x.val).log := rfl

end Reads

section Parser
variable (memory : Nat → UInt8)

def octet (p : Nat) : Reads UInt8 := ⟨memory p, [.octet p]⟩

def value (p : Nat) : Reads UInt8 := ⟨memory p, [.value p]⟩

def read16 (p : Nat) : Reads UInt16 := do
  let a ← octet memory p
  let b ← octet memory (p + 1)
  return UInt16.ofNat (Bytes.read16 a b)

def read32 (p : Nat) : Reads UInt32 := do
  let a ← octet memory p
  let b ← octet memory (p + 1)
  let c ← octet memory (p + 2)
  let d ← octet memory (p + 3)
  return UInt32.ofNat (Bytes.read16 a b * 65536 + Bytes.read16 c d)

def value24 (p : Nat) : Reads Nat := do
  let a ← value memory p
  let b ← value memory (p + 1)
  let c ← value memory (p + 2)
  return a.toNat * 65536 + Bytes.read16 b c

/-- The number of zeros, which is counted in 8 bits. -/
def parsePaddingBytes (extensionEnd : Nat) : Nat → Nat → UInt8 → Reads UInt8
  | 0, _, numZeroBytes => pure numZeroBytes
  | fuel + 1, p, numZeroBytes =>
    if p < extensionEnd then do
      let b ← octet memory p
      if b ≠ 0 then return numZeroBytes
      parsePaddingBytes extensionEnd fuel (p + 1) (numZeroBytes + 1)
    else pure numZeroBytes

/-- The length field of each extension: the number of bytes less one. None of them for those that are
not implemented. -/
def RTPExtensionType.len : RTPExtensionType → Option Nat
  | .none => Option.none
  | .transmissionTimeOffset | .absoluteSendTime => some 2
  | .audioLevel | .videoRotation => some 0
  | .transportSequenceNumber => some 1

/-- The value of an extension, which stands at `p`. -/
def readExtension (type : RTPExtensionType) (p : Nat) (ext : RTPHeaderExtension) : Reads RTPHeaderExtension :=
  match type with
  | .none => pure ext
  | .transmissionTimeOffset => do
    let x ← value24 memory p
    return { ext with
      transmissionTimeOffset := if x < 8388608 then x else x - 16777216, hasTransmissionTimeOffset := true }
  | .audioLevel => do
    let b ← value memory p
    return { ext with audioLevel := b &&& 0x7F, voiceActivity := decide (b &&& 0x80 ≠ 0), hasAudioLevel := true }
  | .absoluteSendTime => do
    let x ← value24 memory p
    return { ext with absoluteSendTime := UInt32.ofNat x, hasAbsoluteSendTime := true }
  | .videoRotation => do
    let b ← value memory p
    return { ext with hasVideoRotation := true, videoRotation := b }
  | .transportSequenceNumber => do
    let a ← value memory p
    let b ← value memory (p + 1)
    return { ext with transportSequenceNumber := UInt16.ofNat (Bytes.read16 a b), hasTransportSequenceNumber := true }

/-- The elements from `p` on. -/
def parseOneByteExtensionHeader (m : RtpHeaderExtensionMap) (extensionEnd : Nat) :
    Nat → Nat → RTPHeaderExtension → Reads (Option RTPHeaderExtension)
  | 0, p, ext => if p < extensionEnd then pure none else pure (some ext)
  | fuel + 1, p, ext =>
    if p < extensionEnd then do
      let b ← octet memory p
      let id := (b &&& 0xF0) >>> 4
      let len := (b &&& 0x0F).toNat
      let p := p + 1
      -- RTP extension header 15 encountered. Terminate parsing.
      if id = 15 then return some ext
      match m.getType id with
      | none => do
        -- If we encounter an unknown extension, just skip over it.
        let numBytes ← parsePaddingBytes memory extensionEnd extensionEnd (p + (len + 1)) 0
        parseOneByteExtensionHeader m extensionEnd fuel (p + (len + 1) + numBytes.toNat) ext
      | some type => do
        if type.len ≠ some len then return some ext
        let ext ← readExtension memory type p ext
        let numBytes ← parsePaddingBytes memory extensionEnd extensionEnd (p + (len + 1)) 0
        parseOneByteExtensionHeader m extensionEnd fuel (p + (len + 1) + numBytes.toNat) ext
    else pure (some ext)

def readCsrcs : Nat → Nat → Reads (List UInt32)
  | 0, _ => pure []
  | n + 1, p => do
    let csrc ← read32 memory p
    let rest ← readCsrcs n (p + 4)
    return csrc :: rest

/-- What may not be present in a packet is reset, but for the transport sequence number. -/
def RTPHeaderExtension.reset (ext : RTPHeaderExtension) : RTPHeaderExtension :=
  { RTPHeaderExtension.empty with
    hasTransportSequenceNumber := ext.hasTransportSequenceNumber
    transportSequenceNumber := ext.transportSequenceNumber }

/-- The return value and the header, when all of the header is read. -/
def finish (length : Nat) (header : RTPHeader) : Bool × RTPHeader :=
  (!decide (header.headerLength + header.paddingLength > length), header)

/-- The part of `Parse` for a header with extension, which begins at `p`. -/
def parseExtension (length : Nat) (ptrExtensionMap : Option RtpHeaderExtensionMap) (header : RTPHeader) (p : Nat) :
    Reads (Option (Bool × RTPHeader)) := do
  let remain := length - p
  if remain < 4 then return some (false, header)
  let header := { header with headerLength := header.headerLength + 4 }
  let definedByProfile ← read16 memory p
  let words ← read16 memory (p + 2)
  let xLen := words.toNat * 4
  if remain < 4 + xLen then return some (false, header)
  let extension ← (if definedByProfile = 0xBEDE then
      match ptrExtensionMap with
      | none => pure (some header.extension)
      | some m => parseOneByteExtensionHeader memory m (p + 4 + xLen) (p + 4 + xLen) (p + 4) header.extension
    else pure (some header.extension))
  return extension.map fun extension => finish length
    { header with extension, headerLength := header.headerLength + xLen }

/-- The return value and the header. -/
def parse (length : Nat) (ptrExtensionMap : Option RtpHeaderExtensionMap) (header : RTPHeader) :
    Reads (Option (Bool × RTPHeader)) := do
  if length < 12 then return some (false, header)
  let b0 ← octet memory 0
  let b1 ← octet memory 1
  let sequenceNumber ← read16 memory 2
  let timestamp ← read32 memory 4
  let ssrc ← read32 memory 8
  if b0 >>> 6 ≠ 2 then return some (false, header)
  let cc := (b0 &&& 0x0F).toNat
  let csrcOcts := cc * 4
  if 12 + csrcOcts > length then return some (false, header)
  let paddingLength ← (if b0 &&& 0x20 ≠ 0 then do
      let last ← octet memory (length - 1)
      return last.toNat
    else pure 0)
  let csrcs ← readCsrcs memory cc 12
  let header : RTPHeader :=
    { markerBit := decide (b1 &&& 0x80 ≠ 0), payloadType := b1 &&& 0x7F, sequenceNumber, timestamp,
      ssrc, numCSRCs := cc,
      arrOfCSRCs := csrcs ++ header.arrOfCSRCs.drop cc, paddingLength, headerLength := 12 + csrcOcts,
      payloadTypeFrequency := header.payloadTypeFrequency, extension := header.extension.reset }
  if b0 &&& 0x10 ≠ 0 then parseExtension memory length ptrExtensionMap header (12 + csrcOcts)
  else return some (finish length header)

end Parser

end WebRtc.Rtp
