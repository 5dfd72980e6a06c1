import WebRtc.Lib.Reader

/-!
# STUN messages

| here | there |
| --- | --- |
| attribute types, `getAttributeValueType` | `stun.h:36-50, 418-620`, `stun.cc:376-393` |
| `StunMessage.addAttribute`, `StunMessage.write`, `StunMessage.read` | `stun.cc:74-87, 296-374` |
| `consumePadding`, `writePadding`, `readValue` | `stun.cc:420-457` |
| `Value.length`, `Value.write` | `stun.h:260-400`, `stun.cc:486-867` |

The bytes of an address are those in memory, in network order, as the code keeps them.
-/

namespace WebRtc.Stun

open Bytes

def kStunHeaderSize : Nat := 20
def kStunAttributeHeaderSize : Nat := 4
def kStunMagicCookie : UInt32 := 0x2112A442
def kStunTransactionIdLength : Nat := 12
def kStunLegacyTransactionIdLength : Nat := 16

/-! ## Attribute types -/

@[match_pattern] abbrev mappedAddress : UInt16 := 0x0001
@[match_pattern] abbrev username : UInt16 := 0x0006
@[match_pattern] abbrev messageIntegrity : UInt16 := 0x0008
@[match_pattern] abbrev errorCode : UInt16 := 0x0009
@[match_pattern] abbrev unknownAttributes : UInt16 := 0x000a
@[match_pattern] abbrev realm : UInt16 := 0x0014
@[match_pattern] abbrev nonce : UInt16 := 0x0015
@[match_pattern] abbrev xorMappedAddress : UInt16 := 0x0020
@[match_pattern] abbrev software : UInt16 := 0x8022
@[match_pattern] abbrev alternateServer : UInt16 := 0x8023
@[match_pattern] abbrev fingerprint : UInt16 := 0x8028
@[match_pattern] abbrev origin : UInt16 := 0x802F
@[match_pattern] abbrev retransmitCount : UInt16 := 0xFF00

@[match_pattern] abbrev lifetime : UInt16 := 0x000d
@[match_pattern] abbrev magicCookie : UInt16 := 0x000f
@[match_pattern] abbrev bandwidth : UInt16 := 0x0010
@[match_pattern] abbrev destinationAddress : UInt16 := 0x0011
@[match_pattern] abbrev sourceAddress2 : UInt16 := 0x0012
@[match_pattern] abbrev data : UInt16 := 0x0013
@[match_pattern] abbrev options : UInt16 := 0x8001

@[match_pattern] abbrev channelNumber : UInt16 := 0x000C
@[match_pattern] abbrev turnLifetime : UInt16 := 0x000d
@[match_pattern] abbrev xorPeerAddress : UInt16 := 0x0012
@[match_pattern] abbrev xorRelayedAddress : UInt16 := 0x0016
@[match_pattern] abbrev evenPort : UInt16 := 0x0018
@[match_pattern] abbrev requestedTransport : UInt16 := 0x0019
@[match_pattern] abbrev dontFragment : UInt16 := 0x001A
@[match_pattern] abbrev reservationToken : UInt16 := 0x0022

@[match_pattern] abbrev priority : UInt16 := 0x0024
@[match_pattern] abbrev useCandidate : UInt16 := 0x0025
@[match_pattern] abbrev iceControlled : UInt16 := 0x8029
@[match_pattern] abbrev iceControlling : UInt16 := 0x802A

inductive ValueType
  | unknown | address | xorAddress | uint32 | uint64 | byteString | errorCode | uint16List
  deriving DecidableEq, Repr

/-- `StunMessage` and the classes derived from it. -/
inductive MessageClass
  | stun | relay | turn | ice
  deriving DecidableEq, Repr

def stunValueType : UInt16 → ValueType
  | mappedAddress => .address
  | username => .byteString
  | messageIntegrity => .byteString
  | errorCode => .errorCode
  | unknownAttributes => .uint16List
  | realm => .byteString
  | nonce => .byteString
  | xorMappedAddress => .xorAddress
  | software => .byteString
  | alternateServer => .address
  | fingerprint => .uint32
  | origin => .byteString
  | retransmitCount => .uint32
  | _ => .unknown

def relayValueType : UInt16 → ValueType
  | lifetime => .uint32
  | magicCookie => .byteString
  | bandwidth => .uint32
  | destinationAddress => .address
  | sourceAddress2 => .address
  | data => .byteString
  | options => .uint32
  | type => stunValueType type

def turnValueType : UInt16 → ValueType
  | channelNumber => .uint32
  | turnLifetime => .uint32
  | xorPeerAddress => .xorAddress
  | data => .byteString
  | xorRelayedAddress => .xorAddress
  | evenPort => .byteString
  | requestedTransport => .uint32
  | dontFragment => .byteString
  | reservationToken => .byteString
  | type => stunValueType type

def iceValueType : UInt16 → ValueType
  | priority => .uint32
  | useCandidate => .byteString
  | iceControlled => .uint64
  | iceControlling => .uint64
  | type => stunValueType type

def MessageClass.getAttributeValueType : MessageClass → UInt16 → ValueType
  | .stun => stunValueType
  | .relay => relayValueType
  | .turn => turnValueType
  | .ice => iceValueType

/-! ## Messages -/

/-- `IsValidTransactionId` holds of every transaction id of a message. -/
structure TransactionId where
  bytes : List UInt8
  valid : bytes.length = kStunTransactionIdLength ∨ bytes.length = kStunLegacyTransactionIdLength
  deriving DecidableEq

def TransactionId.isLegacy (id : TransactionId) : Bool := id.bytes.length == kStunLegacyTransactionIdLength

inductive IPAddress
  | unspec
  | v4 (addr : Vector UInt8 4)
  | v6 (addr : Vector UInt8 16)
  deriving DecidableEq

/-- What the classes derived from `StunAttribute` record. -/
inductive Value
  | address (ip : IPAddress) (port : UInt16)
  | xorAddress (ip : IPAddress) (port : UInt16)
  | uint32 (bits : UInt32)
  | uint64 (bits : UInt64)
  | byteString (bytes : List UInt8)
  | errorCode (eclass number : UInt8) (reason : List UInt8)
  | uint16List (attrTypes : List UInt16)
  deriving DecidableEq

structure StunAttribute where
  type : UInt16
  value : Value
  deriving DecidableEq

structure StunMessage where
  type : UInt16
  length : UInt16
  transactionId : TransactionId
  attrs : List StunAttribute
  deriving DecidableEq

def Value.valueType : Value → ValueType
  | address _ _ => .address
  | xorAddress _ _ => .xorAddress
  | uint32 _ => .uint32
  | uint64 _ => .uint64
  | byteString _ => .byteString
  | errorCode _ _ _ => .errorCode
  | uint16List _ => .uint16List

def IPAddress.size : IPAddress → Nat
  | unspec => 0
  | v4 _ => 8
  | v6 _ => 20

/-- Number of bytes of the value without its padding. -/
def Value.size : Value → Nat
  | address ip _ => ip.size
  | xorAddress ip _ => ip.size
  | uint32 _ => 4
  | uint64 _ => 8
  | byteString bytes => bytes.length
  | errorCode _ _ reason => 4 + reason.length
  | uint16List attrTypes => attrTypes.length * 2

/-- `length_`, which every change of the value sets anew. -/
def Value.length (v : Value) : UInt16 := UInt16.ofNat v.size

/-- `code()` of an error code. -/
def code (eclass number : UInt8) : Nat := eclass.toNat * 100 + number.toNat

/-! ## Xored addresses -/

def cookieBytes : Vector UInt8 4 := #v[0x21, 0x12, 0xA4, 0x42]

def xored {n : Nat} (addr key : Vector UInt8 n) : Vector UInt8 n := Vector.zipWith (· ^^^ ·) addr key

/-- What an IPv6 address is xored with: the cookie and the transaction id. -/
def TransactionId.key (id : TransactionId) (h : id.bytes.length = kStunTransactionIdLength) : Vector UInt8 16 :=
  ⟨(cookieBytes.toList ++ id.bytes).toArray, by rw [List.size_toArray, List.length_append, h]; rfl⟩

/-- `GetXoredIP`; `owner` is the transaction id of the message the attribute belongs to. -/
def IPAddress.xoredIP (owner : TransactionId) : IPAddress → IPAddress
  | unspec => unspec
  | v4 addr => v4 (xored addr cookieBytes)
  | v6 addr => if h : owner.bytes.length = kStunTransactionIdLength then v6 (xored addr (owner.key h)) else unspec

def xoredPort (port : UInt16) : UInt16 := port ^^^ UInt16.ofNat (kStunMagicCookie.toNat / 65536)

/-! ## Writing -/

def padded (n : Nat) : Nat := if n % 4 ≠ 0 then n + (4 - n % 4) else n

def writePadding (length : UInt16) : List UInt8 :=
  let remainder := length.toNat % 4
  if 0 < remainder then List.replicate (4 - remainder) 0 else []

def writeAddress (ip : IPAddress) (port : UInt16) : Option (List UInt8) :=
  match ip with
  | .unspec => none
  | .v4 addr => some ([0, 1] ++ be16 port ++ addr.toList)
  | .v6 addr => some ([0, 2] ++ be16 port ++ addr.toList)

def Value.write (owner : TransactionId) (v : Value) : Option (List UInt8) :=
  match v with
  | address ip port => writeAddress ip port
  | xorAddress ip port => writeAddress (ip.xoredIP owner) (xoredPort port)
  | uint32 bits => some (be32 bits)
  | uint64 bits => some (be64 bits)
  | byteString bytes => some (bytes.take v.length.toNat ++ writePadding v.length)
  | errorCode eclass number reason =>
    some (be32 (UInt32.ofNat (eclass.toNat * 256 ||| number.toNat)) ++ reason ++ writePadding v.length)
  | uint16List attrTypes => some (attrTypes.flatMap be16 ++ writePadding v.length)

def writeAttrs (owner : TransactionId) : List StunAttribute → Option (List UInt8)
  | [] => some []
  | attr :: attrs => do
    let value ← attr.value.write owner
    let rest ← writeAttrs owner attrs
    return be16 attr.type ++ be16 attr.value.length ++ value ++ rest

namespace StunMessage

def isLegacy (m : StunMessage) : Bool := m.transactionId.isLegacy

def writeHeader (type length : UInt16) (id : TransactionId) : List UInt8 :=
  be16 type ++ be16 length ++ (if id.isLegacy then [] else be32 kStunMagicCookie) ++ id.bytes

def write (m : StunMessage) : Option (List UInt8) := do
  let attrs ← writeAttrs m.transactionId m.attrs
  return writeHeader m.type m.length m.transactionId ++ attrs

/-- `none` when the attribute is not valid for this class of message; the message stays as it is then. -/
def addAttribute (cls : MessageClass) (m : StunMessage) (attr : StunAttribute) : Option StunMessage :=
  if attr.value.valueType ≠ cls.getAttributeValueType attr.type then none
  else some { m with
    attrs := m.attrs ++ [attr]
    length := m.length + UInt16.ofNat (padded attr.value.length.toNat + 4) }

/-- A new message after `SetType` and `SetTransactionID`. -/
def new (type : UInt16) (id : TransactionId) : StunMessage :=
    { type := type, length := 0, transactionId := id, attrs := [] }

/-- One call of `AddAttribute` after the other, none of which fails. -/
def addAttributes (cls : MessageClass) (m : StunMessage) (attrs : List StunAttribute) : Option StunMessage :=
  attrs.foldlM (addAttribute cls) m

end StunMessage

/-! ## Reading -/

open Reader

/-- Not all of the padding has to be there. -/
def consumePadding (length : UInt16) : Reader Unit :=
  let remainder := length.toNat % 4
  if 0 < remainder then consume (4 - remainder) <|> pure () else pure ()

def readAddress (length : UInt16) : Reader (IPAddress × UInt16) := do
  let _ ← readUInt8
  let family ← readUInt8
  let port ← readUInt16
  if family = 1 then
    if length ≠ 8 then failure
    let addr ← readVector 4
    return (.v4 addr, port)
  else if family = 2 then
    if length ≠ 20 then failure
    let addr ← readVector 16
    return (.v6 addr, port)
  else failure

def readErrorCode (length : UInt16) : Reader Value := do
  if length < 4 then failure
  let val ← readUInt32
  let reason ← readBytes (length.toNat - 4)
  consumePadding length
  return .errorCode (UInt8.ofNat (val.toNat / 256 % 8)) (UInt8.ofNat val.toNat) reason

def readUInt16List (length : UInt16) : Reader Value := do
  if length.toNat % 2 ≠ 0 then failure
  let attrTypes ← times readUInt16 (length.toNat / 2)
  consumePadding length
  return .uint16List attrTypes

/-- `StunAttribute::Create` and the `Read` of the attribute it creates. An attribute of 4 or 8 bytes is
created with that length, whatever length stands in the message. -/
def readValue (owner : TransactionId) (length : UInt16) : ValueType → Option (Reader Value)
  | .address => some do
    let (ip, port) ← readAddress length
    return .address ip port
  | .xorAddress => some do
    let (ip, port) ← readAddress length
    return .xorAddress (ip.xoredIP owner) (xoredPort port)
  | .uint32 => some do
    let bits ← readUInt32
    return .uint32 bits
  | .uint64 => some do
    let bits ← readUInt64
    return .uint64 bits
  | .byteString => some do
    let bytes ← readBytes length.toNat
    consumePadding length
    return .byteString bytes
  | .errorCode => some (readErrorCode length)
  | .uint16List => some (readUInt16List length)
  | .unknown => none

/-- The length of an attribute that is skipped is padded in 16 bits. -/
def skipped (length : UInt16) : UInt16 :=
  if length.toNat % 4 ≠ 0 then length + UInt16.ofNat (4 - length.toNat % 4) else length

/-- One run through the loop of `Read`. -/
def readAttribute (cls : MessageClass) (owner : TransactionId) : Reader (Option StunAttribute) := do
  let attrType ← readUInt16
  let attrLength ← readUInt16
  match readValue owner attrLength (cls.getAttributeValueType attrType) with
  | none =>
    consume (skipped attrLength).toNat
    return none
  | some r =>
    let value ← r
    return some { type := attrType, value := value }

/-- The loop ends when no more than `rest` bytes are left. Each run through it takes four bytes or more. -/
def readAttrs (cls : MessageClass) (owner : TransactionId) (rest : Nat) : Nat → Reader (List StunAttribute)
  | 0 => do
    if (← get).length ≤ rest then return [] else failure
  | fuel + 1 => do
    if (← get).length ≤ rest then return []
    else
      let attr ← readAttribute cls owner
      let attrs ← readAttrs cls owner rest fuel
      return attr.toList ++ attrs

/-- A message without the magic cookie comes from a peer that implements RFC3489; what stands in its
place is a part of the transaction id. -/
def transactionIdOf (cookie : Vector UInt8 4) (id : Vector UInt8 12) : TransactionId :=
  if read32At cookie.toList 0 ≠ kStunMagicCookie then
    ⟨cookie.toList ++ id.toList, .inr (by simp [kStunLegacyTransactionIdLength])⟩
  else ⟨id.toList, .inl (by simp [kStunTransactionIdLength])⟩

def StunMessage.reader (cls : MessageClass) : Reader StunMessage := do
  let type ← readUInt16
  if type &&& 0x8000 ≠ 0 then failure
  let length ← readUInt16
  let cookie ← readVector 4
  let id ← readVector 12
  let left := (← get).length
  if length.toNat ≠ left then failure
  let transactionId := transactionIdOf cookie id
  let attrs ← readAttrs cls transactionId (left - length.toNat) left
  return { type := type, length := length, transactionId := transactionId, attrs := attrs }

/-- The message that is read, if reading succeeds. -/
def StunMessage.read (cls : MessageClass) (buf : List UInt8) : Option StunMessage := (StunMessage.reader cls).run' buf

end WebRtc.Stun
