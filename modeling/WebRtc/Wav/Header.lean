import WebRtc.Lib.LittleEndian

/-!
# WAV headers (`common_audio/wav_header.cc`)

| here | there |
| --- | --- |
| `WavFormat`, `WavParameters` | `WavFormat` of `wav_header.h`; the parameters that the functions take and return |
| `checkWavParameters`         | `CheckWavParameters` (:62) |
| `riffChunkSize`, `byteRate`, `blockAlign` | the functions of these names (:135-146) |
| `WavHeader`                  | the structure of 44 bytes (:33-45); its fields are little-endian numbers |
| `writeWavHeader`             | `WriteWavHeader` (:148), `none` when its check fails |
| `readWavHeader`              | `ReadWavHeader` (:182), `none` for false |

A `ReadableWav` is the list of the bytes that are left in it.
-/

namespace WebRtc.Wav

open Bytes

inductive WavFormat where
  | pcm
  | aLaw
  | muLaw
  /-- A number that is none of the enumeration. -/
  | other (value : UInt16)
deriving DecidableEq, Repr

namespace WavFormat

def value : WavFormat → UInt16
  | pcm => 1
  | aLaw => 6
  | muLaw => 7
  | other value => value

/-- The cast from a number. -/
def ofValue (value : UInt16) : WavFormat :=
  if value = 1 then pcm else if value = 6 then aLaw else if value = 7 then muLaw else other value

end WavFormat

structure WavParameters where
  numChannels : Int32
  sampleRate : Int32
  format : WavFormat
  bytesPerSample : Int32
  numSamples : UInt32
deriving DecidableEq

def kWavHeaderSize : Nat := 44
def kFmtSubchunkSize : UInt32 := 16

/-- Format and `bytes_per_sample` must agree. -/
def formatAgrees : WavFormat → Int → Bool
  | .pcm, bytesPerSample => bytesPerSample == 1 || bytesPerSample == 2
  | .aLaw, bytesPerSample => bytesPerSample == 1
  | .muLaw, bytesPerSample => bytesPerSample == 1
  | .other _, _ => false

def checkWavParameters (p : WavParameters) : Bool :=
  let numChannels := p.numChannels.toInt
  let sampleRate := p.sampleRate.toInt
  let bytesPerSample := p.bytesPerSample.toInt
  let numSamples : Int := p.numSamples.toNat
  if numChannels ≤ 0 ∨ sampleRate ≤ 0 ∨ bytesPerSample ≤ 0 then false
  else if 2 ^ 32 - 1 < sampleRate then false
  else if 2 ^ 16 - 1 < numChannels then false
  else if 2 ^ 16 - 1 < bytesPerSample * 8 then false
  else if 2 ^ 32 - 1 < sampleRate * numChannels * bytesPerSample then false
  else if !formatAgrees p.format bytesPerSample then false
  else if (2 ^ 32 - 1 - (kWavHeaderSize - 8)) / bytesPerSample < numSamples then false
  else numSamples % numChannels == 0

/-! ## The fields of a header -/

structure WavHeader where
  riffID : UInt32
  riffSize : UInt32
  riffFormat : UInt32
  fmtID : UInt32
  fmtSize : UInt32
  audioFormat : UInt16
  numChannels : UInt16
  sampleRate : UInt32
  byteRate : UInt32
  blockAlign : UInt16
  bitsPerSample : UInt16
  dataID : UInt32
  dataSize : UInt32
deriving DecidableEq

/-- `WriteFourCC`; `ReadFourCC` gives a string that is equal to four letters if and only if the number is. -/
def fourCC (a b c d : Char) : UInt32 := readLE32 a.toUInt8 b.toUInt8 c.toUInt8 d.toUInt8

def riffChunkSize (bytesInPayload : UInt32) : UInt32 := bytesInPayload + UInt32.ofNat kWavHeaderSize - 8

def byteRate (numChannels sampleRate bytesPerSample : Int32) : UInt32 :=
  numChannels.toUInt32 * sampleRate.toUInt32 * bytesPerSample.toUInt32

def blockAlign (numChannels bytesPerSample : Int32) : UInt16 :=
  (numChannels.toUInt32 * bytesPerSample.toUInt32).toUInt16

namespace WavHeader

/-- The header that `WriteWavHeader` fills in. -/
def ofParameters (p : WavParameters) : WavHeader :=
  let bytesInPayload := p.bytesPerSample.toUInt32 * p.numSamples
  { riffID := fourCC 'R' 'I' 'F' 'F'
    riffSize := riffChunkSize bytesInPayload
    riffFormat := fourCC 'W' 'A' 'V' 'E'
    fmtID := fourCC 'f' 'm' 't' ' '
    fmtSize := kFmtSubchunkSize
    audioFormat := p.format.value
    numChannels := p.numChannels.toUInt32.toUInt16
    sampleRate := p.sampleRate.toUInt32
    byteRate := Wav.byteRate p.numChannels p.sampleRate p.bytesPerSample
    blockAlign := Wav.blockAlign p.numChannels p.bytesPerSample
    bitsPerSample := (8 * p.bytesPerSample.toUInt32).toUInt16
    dataID := fourCC 'd' 'a' 't' 'a'
    dataSize := bytesInPayload }

/-- The memory of the structure. -/
def bytes (h : WavHeader) : List UInt8 :=
  le32 h.riffID ++ le32 h.riffSize ++ le32 h.riffFormat ++ le32 h.fmtID ++ le32 h.fmtSize ++ le16 h.audioFormat ++
    le16 h.numChannels ++ le32 h.sampleRate ++ le32 h.byteRate ++ le16 h.blockAlign ++ le16 h.bitsPerSample ++
    le32 h.dataID ++ le32 h.dataSize

/-- The structure after `first` has been read to its start and `data` to its last part. -/
def ofBytes (first data : List UInt8) : WavHeader where
  riffID := le32At first 0
  riffSize := le32At first 4
  riffFormat := le32At first 8
  fmtID := le32At first 12
  fmtSize := le32At first 16
  audioFormat := le16At first 20
  numChannels := le16At first 22
  sampleRate := le32At first 24
  byteRate := le32At first 28
  blockAlign := le16At first 32
  bitsPerSample := le16At first 34
  dataID := le32At data 0
  dataSize := le32At data 4

end WavHeader

def writeWavHeader (p : WavParameters) : Option (List UInt8) :=
  if checkWavParameters p then some (WavHeader.ofParameters p).bytes else none

/-! ## Reading -/

/-- `ReadableWav::Read`, when it returns as many bytes as were asked for. -/
def read (readable : List UInt8) (numBytes : Nat) : Option (List UInt8 × List UInt8) :=
  if numBytes ≤ readable.length then some (readable.take numBytes, readable.drop numBytes) else none

/-- The optional two-byte extension field, which must be zero. -/
def readExtension (fmtSize : UInt32) (readable : List UInt8) : Option (List UInt8) :=
  if fmtSize = kFmtSubchunkSize then some readable
  else if fmtSize ≠ kFmtSubchunkSize + 2 then none
  else do
    let (extSize, rest) ← read readable 2
    if le16At extSize 0 ≠ 0 then none else some rest

/-- The needed fields, and the sanity check of the remaining ones. -/
def parseHeader (header : WavHeader) : Option WavParameters :=
  let format := WavFormat.ofValue header.audioFormat
  let numChannels := Int32.ofNat header.numChannels.toNat
  let sampleRate := header.sampleRate.toInt32
  let bytesPerSample := Int32.ofNat (header.bitsPerSample.toNat / 8)
  let bytesInPayload := header.dataSize
  if bytesPerSample ≤ 0 then none
  else
    let numSamples := bytesInPayload / bytesPerSample.toUInt32
    if header.riffID ≠ fourCC 'R' 'I' 'F' 'F' then none
    else if header.riffFormat ≠ fourCC 'W' 'A' 'V' 'E' then none
    else if header.fmtID ≠ fourCC 'f' 'm' 't' ' ' then none
    else if header.dataID ≠ fourCC 'd' 'a' 't' 'a' then none
    else if header.riffSize < riffChunkSize bytesInPayload then none
    else if header.byteRate ≠ byteRate numChannels sampleRate bytesPerSample then none
    else if header.blockAlign ≠ blockAlign numChannels bytesPerSample then none
    else
      let p := { numChannels, sampleRate, format, bytesPerSample, numSamples : WavParameters }
      if checkWavParameters p then some p else none

def readWavHeader (readable : List UInt8) : Option WavParameters := do
  let (first, rest) ← read readable (kWavHeaderSize - 8)
  let rest ← readExtension (le32At first 16) rest
  let (data, _) ← read rest 8
  parseHeader (WavHeader.ofBytes first data)

end WebRtc.Wav
