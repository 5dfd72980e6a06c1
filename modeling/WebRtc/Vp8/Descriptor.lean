import WebRtc.Lib.Bytes
import WebRtc.Lib.Tiles

/-!
# The VP8 payload descriptor

| here | there |
| --- | --- |
| `RTPVideoHeaderVP8` | `module_common_types.h:47-71` |
| `writePictureID` … `writeHeaderAndPayload` | `RtpPacketizerVp8`, `rtp_format_vp8.cc:461-635` |
| `parseVP8PictureID` … `parseVP8FrameSize` | the parsers of the extension, `rtp_format_vp8.cc:23-138` |
| `parse` | `RtpDepacketizerVp8::Parse`, `rtp_format_vp8.cc:667-742` |

The writer sets a bit of the X octet with every field it writes behind it; here the octet and the bytes
behind it are the two components of `Extension`. The parsers advance `data`, `data_length` and
`parsed_bytes` together; here they return the data that is left.
-/

namespace WebRtc.Vp8

structure RTPVideoHeaderVP8 where
  nonReference : Bool
  /-- `kNoPictureId` is -1. -/
  pictureId : Int
  /-- `kNoTl0PicIdx` is -1. -/
  tl0PicIdx : Int
  /-- `kNoTemporalIdx` is 0xFF. -/
  temporalIdx : UInt8
  layerSync : Bool
  /-- `kNoKeyIdx` is -1. -/
  keyIdx : Int
  partitionId : Nat
  beginningOfPartition : Bool
deriving DecidableEq, Repr

structure InfoStruct where
  payloadStartPos : Nat
  size : Nat
  firstFragment : Bool
  firstPartitionIx : Nat
deriving DecidableEq, Repr

def bit (b : Bool) (mask : UInt8) : UInt8 := if b then mask else 0

/-! ## The writer -/

namespace RTPVideoHeaderVP8

variable (hdr : RTPVideoHeaderVP8)

def pictureIdPresent : Bool := hdr.pictureId ≠ -1
def tl0PicIdxFieldPresent : Bool := hdr.tl0PicIdx ≠ -1
def tidFieldPresent : Bool := hdr.temporalIdx ≠ 0xFF
def keyIdxFieldPresent : Bool := hdr.keyIdx ≠ -1

def xFieldPresent : Bool :=
  hdr.tidFieldPresent || hdr.tl0PicIdxFieldPresent || hdr.pictureIdPresent || hdr.keyIdxFieldPresent

def pictureIdLength : Nat := if hdr.pictureId = -1 then 0 else if hdr.pictureId ≤ 0x7F then 1 else 2

def payloadDescriptorExtraLength : Nat :=
  let lengthBytes := hdr.pictureIdLength
  let lengthBytes := if hdr.tl0PicIdxFieldPresent then lengthBytes + 1 else lengthBytes
  let lengthBytes := if hdr.tidFieldPresent || hdr.keyIdxFieldPresent then lengthBytes + 1 else lengthBytes
  -- Include the extension field.
  if lengthBytes > 0 then lengthBytes + 1 else lengthBytes

/-- `vp8_fixed_payload_descriptor_bytes_` and the extension. -/
def descriptorLength : Nat := 1 + hdr.payloadDescriptorExtraLength

end RTPVideoHeaderVP8

/-- The X octet and the fields behind it. -/
structure Extension where
  xField : UInt8
  fields : List UInt8

/-- `extension_length`: one octet for the X field. -/
def Extension.length (e : Extension) : Nat := 1 + e.fields.length

def Extension.add (e : Extension) (mask : UInt8) (bytes : List UInt8) : Extension :=
  ⟨e.xField ||| mask, e.fields ++ bytes⟩

section Writer
variable (hdr : RTPVideoHeaderVP8) (bufferLength : Nat)

def writePictureID (room : Nat) : Option (List UInt8) :=
  let picId := UInt16.ofInt hdr.pictureId
  if hdr.pictureIdLength > room then none
  else if hdr.pictureIdLength = 2 then
    some [(0x80 : UInt8) ||| ((picId >>> 8) &&& 0x7F : UInt16).toUInt8, (picId &&& 0xFF : UInt16).toUInt8]
  else if hdr.pictureIdLength = 1 then some [(picId &&& 0x7F : UInt16).toUInt8]
  else some []

def writePictureIDFields (e : Extension) : Option Extension :=
  (writePictureID hdr (bufferLength - 1 - e.length)).map (e.add 0x80)

def writeTl0PicIdxFields (e : Extension) : Option Extension :=
  if bufferLength < 1 + e.length + 1 then none else some (e.add 0x40 [UInt8.ofInt hdr.tl0PicIdx])

def writeTIDAndKeyIdxFields (e : Extension) : Option Extension :=
  if bufferLength < 1 + e.length + 1 then none
  else
    let tid := if hdr.tidFieldPresent then (hdr.temporalIdx <<< 6) ||| bit hdr.layerSync 0x20 else 0
    let keyIdx := if hdr.keyIdxFieldPresent then UInt8.ofInt hdr.keyIdx &&& 0x1F else 0
    some (e.add (bit hdr.tidFieldPresent 0x20 ||| bit hdr.keyIdxFieldPresent 0x10) [tid ||| keyIdx])

def writeExtensionFields : Option (List UInt8) :=
  if hdr.xFieldPresent then do
    let e : Extension := ⟨0, []⟩
    let e ← (if hdr.pictureIdPresent then writePictureIDFields hdr bufferLength e else some e)
    let e ← (if hdr.tl0PicIdxFieldPresent then writeTl0PicIdxFields hdr bufferLength e else some e)
    let e ← (if hdr.tidFieldPresent || hdr.keyIdxFieldPresent then
      writeTIDAndKeyIdxFields hdr bufferLength e else some e)
    some (e.xField :: e.fields)
  else some []

def writeHeaderAndPayload (payloadData : List UInt8) (packetInfo : InfoStruct) : Option (List UInt8) :=
  let first := bit hdr.xFieldPresent 0x80 ||| bit hdr.nonReference 0x20 ||| bit packetInfo.firstFragment 0x10 |||
    (UInt8.ofNat packetInfo.firstPartitionIx &&& 0x0F)
  (writeExtensionFields hdr bufferLength).map fun extension =>
    first :: extension ++ Cut.slice payloadData packetInfo.payloadStartPos packetInfo.size

end Writer

/-! ## The parser -/

inductive FrameType where
  | videoFrameKey
  | videoFrameDelta
deriving DecidableEq, Repr

structure ParsedPayload where
  frameType : FrameType
  width : Nat
  height : Nat
  isFirstPacket : Bool
  simulcastIdx : Nat
  vp8 : RTPVideoHeaderVP8
  payload : List UInt8
deriving DecidableEq, Repr

def parseVP8PictureID (vp8 : RTPVideoHeaderVP8) : List UInt8 → Option (RTPVideoHeaderVP8 × List UInt8)
  | [] => none
  | a :: data =>
    let pictureId := (a &&& 0x7F).toNat
    if a &&& 0x80 ≠ 0 then
      match data with
      | [] => none
      -- PictureId is 15 bits
      | b :: data => some ({ vp8 with pictureId := pictureId * 256 + b.toNat }, data)
    else some ({ vp8 with pictureId := pictureId }, data)

def parseVP8Tl0PicIdx (vp8 : RTPVideoHeaderVP8) : List UInt8 → Option (RTPVideoHeaderVP8 × List UInt8)
  | [] => none
  | a :: data => some ({ vp8 with tl0PicIdx := a.toNat }, data)

def parseVP8TIDAndKeyIdx (hasTid hasKeyIdx : Bool) (vp8 : RTPVideoHeaderVP8) :
    List UInt8 → Option (RTPVideoHeaderVP8 × List UInt8)
  | [] => none
  | a :: data =>
    let vp8 :=
      if hasTid then { vp8 with temporalIdx := (a >>> 6) &&& 0x03, layerSync := decide (a &&& 0x20 ≠ 0) } else vp8
    let vp8 := if hasKeyIdx then { vp8 with keyIdx := (a &&& 0x1F).toNat } else vp8
    some (vp8, data)

def parseVP8Extension (vp8 : RTPVideoHeaderVP8) : List UInt8 → Option (RTPVideoHeaderVP8 × List UInt8)
  | [] => none
  | x :: data => do
    let (vp8, data) ← (if x &&& 0x80 ≠ 0 then parseVP8PictureID vp8 data else some (vp8, data))
    let (vp8, data) ← (if x &&& 0x40 ≠ 0 then parseVP8Tl0PicIdx vp8 data else some (vp8, data))
    if x &&& 0x20 ≠ 0 ∨ x &&& 0x10 ≠ 0 then
      parseVP8TIDAndKeyIdx (decide (x &&& 0x20 ≠ 0)) (decide (x &&& 0x10 ≠ 0)) vp8 data
    else some (vp8, data)

/-- Width and height, which only the header of a key frame has. -/
def parseVP8FrameSize (frameType : FrameType) (data : List UInt8) : Option (Nat × Nat) :=
  if frameType ≠ .videoFrameKey then some (0, 0)
  -- For an I-frame we should always have the uncompressed VP8 header in the beginning of the partition.
  else if data.length < 10 then none
  else
    let octet i := (Bytes.byteAt data i).toNat
    some ((octet 7 * 256 + octet 6) % 16384, (octet 9 * 256 + octet 8) % 16384)

/-- Nothing is known of the frame but the first octet. -/
def fromFirstOctet (a : UInt8) : RTPVideoHeaderVP8 where
  nonReference := decide (a &&& 0x20 ≠ 0)
  pictureId := -1
  tl0PicIdx := -1
  temporalIdx := 0xFF
  layerSync := false
  keyIdx := -1
  partitionId := (a &&& 0x0F).toNat
  beginningOfPartition := decide (a &&& 0x10 ≠ 0)

/-- What follows the descriptor. -/
def parsePayload (vp8 : RTPVideoHeaderVP8) (data : List UInt8) : Option ParsedPayload :=
  let first := vp8.beginningOfPartition && decide (vp8.partitionId = 0)
  -- Read P bit from payload header (only at beginning of first partition).
  let frameType := if first ∧ Bytes.byteAt data 0 &&& 0x01 = 0 then .videoFrameKey else .videoFrameDelta
  (parseVP8FrameSize frameType data).map fun (width, height) => ⟨frameType, width, height, first, 0, vp8, data⟩

def parse : List UInt8 → Option ParsedPayload
  | [] => none
  | a :: data =>
    let vp8 := fromFirstOctet a
    -- Weak check for corrupt payload_data: PartID MUST NOT be larger than 8.
    if vp8.partitionId > 8 then none
    else if data = [] then none
    else do
      let (vp8, data) ← (if a &&& 0x80 ≠ 0 then parseVP8Extension vp8 data else some (vp8, data))
      if data = [] then none else parsePayload vp8 data

end WebRtc.Vp8
