import WebRtc.Lib.CInt
import WebRtc.Lib.Wire

/-!
# The buffer a packet is built in (`rtcp_packet.cc`)

| here | there |
| --- | --- |
| `createHeader`  | `RtcpPacket::CreateHeader` (:741); `words` is the length less one |
| `onBufferFull`  | `RtcpPacket::OnBufferFull` (:717); the callback keeps the buffers it gets |
| `makeRoom`      | the loop `while (*index + BlockLength() > max_length)` of every `Create` but that of `Nack` |
-/

namespace WebRtc.Rtcp

open Bytes CInt

def createHeader (countOrFormat : Nat) (packetType : UInt8) (words : Nat) : List UInt8 :=
  [UInt8.ofNat (128 + countOrFormat), packetType] ++ be16 (UInt16.ofNat words)

@[simp] theorem createHeader_length (countOrFormat : Nat) (packetType : UInt8) (words : Nat) :
    (createHeader countOrFormat packetType words).length = 4 := rfl

/-- The buffer up to the index, and the buffers the callback has got. -/
structure Buffers where
  packet : List UInt8
  ready : List (List UInt8)

def Buffers.onBufferFull (b : Buffers) : Option Buffers :=
  if b.packet.length = 0 then none else some { packet := [], ready := b.ready ++ [b.packet] }

/-- The second time round the index is 0, and an empty buffer is not handed over. -/
def Buffers.makeRoom (b : Buffers) (blockLength maxLength : Nat) : Option Buffers :=
  if b.packet.length + blockLength ≤ maxLength then some b
  else
    match b.onBufferFull with
    | none => none
    | some b => if b.packet.length + blockLength ≤ maxLength then some b else none

end WebRtc.Rtcp
