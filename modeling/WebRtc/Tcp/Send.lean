import WebRtc.Tcp.State

/-!
# Sending

| here | there |
| --- | --- |
| `queue` | `pseudotcp.cc:487-511` |
| `packetBytes`, `packet` | `pseudotcp.cc:513-571` |
| `retransmitSmaller`, `transmit` | `pseudotcp.cc:964-1031` |
| `useable`, `available`, `sendSegment`, `attemptSend` | `pseudotcp.cc:1033-1128` |

A segment of the list is given by what is before it, itself and what is after it.
-/

namespace WebRtc.Tcp

open Bytes

def numBytes (data : List UInt8) : UInt32 := UInt32.ofNat data.length

namespace PseudoTcp

/-- Returns the number of bytes that were written to the send buffer. -/
def queue (t : PseudoTcp) (data : List UInt8) (bCtrl : Bool) : PseudoTcp × Nat :=
  let availableSpace := UInt32.ofNat t.outgoing.sbuf.getWriteRemaining
  let t := t.check .controlQueued (decide (numBytes data ≤ availableSpace) || !bCtrl)
  let len := if numBytes data > availableSpace then availableSpace else numBytes data
  let fresh : SSegment :=
    { seq := UInt32.ofNat (t.outgoing.sndUna.toNat + t.outgoing.sbuf.dataLength), len, bCtrl }
  let slist := match t.outgoing.slist.getLast? with
    | none => [fresh]
    | some last =>
      if last.bCtrl = bCtrl ∧ last.xmit = 0 then t.outgoing.slist.dropLast ++ [{ last with len := last.len + len }]
      else t.outgoing.slist ++ [fresh]
  let written := t.outgoing.sbuf.write (data.take len.toNat)
  ({ t with outgoing := { t.outgoing with slist, sbuf := written.1 } }, written.2)

/-- What is written to the network. -/
def packetBytes (t : PseudoTcp) (seq : UInt32) (flags : UInt8) (payload : List UInt8) : List UInt8 :=
  be32 t.conv ++ be32 seq ++ be32 t.incoming.rcvNxt ++ [0, flags] ++
    be16 (t.incoming.rcvWnd >>> t.rwndScale.toUInt32).toUInt16 ++ be32 t.env.now ++ be32 t.tsRecent ++ payload

/-- The bytes of the send buffer; what is missing there is not defined. -/
def readPayload (t : PseudoTcp) (offset len : UInt32) : PseudoTcp × List UInt8 :=
  if len = 0 then (t, [])
  else match t.outgoing.sbuf.readOffset len.toNat offset.toNat with
    | none => (t.check .packetData false, List.replicate len.toNat 0)
    | some data =>
      (t.check .packetData (decide (data.length = len.toNat)), data ++ List.replicate (len.toNat - data.length) 0)

/-- The network takes the packet, or not. -/
def tcpWritePacket (t : PseudoTcp) (bytes : List UInt8) : PseudoTcp × WriteResult :=
  let result := t.env.results.headD .success
  let written := if result = .success then t.env.written ++ [bytes] else t.env.written
  ({ t with env := { t.env with results := t.env.results.tail, written } }, result)

/-- The result of a packet without data is ignored. -/
def packet (t : PseudoTcp) (seq : UInt32) (flags : UInt8) (offset len : UInt32) : PseudoTcp × WriteResult :=
  let t := t.check .packetSize (decide (headerSize + len.toNat ≤ maxPacket))
  let read := t.readPayload offset len
  let sent := { read.1 with tsLastack := t.incoming.rcvNxt }.tcpWritePacket (t.packetBytes seq flags read.2)
  if sent.2 ≠ .success ∧ len ≠ 0 then sent
  else
    ({ sent.1 with
        tAck := 0
        lastsend := if 0 < len then t.env.now else t.lastsend
        lasttraffic := t.env.now
        bOutgoing := true }, .success)

def ctrlFlags (bCtrl : Bool) : UInt8 := if bCtrl then flagCtl else 0

def segmentPacket (t : PseudoTcp) (seg : SSegment) (nTransmit : UInt32) : PseudoTcp × WriteResult :=
  t.packet seg.seq (ctrlFlags seg.bCtrl) (seg.seq - t.outgoing.sndUna) nTransmit

/-- The next level. -/
def lowerMss (t : PseudoTcp) (maximum : UInt32) : PseudoTcp :=
  { t with msslevel := t.msslevel + 1, mss := maximum - packetOverhead, cwnd := 2 * (maximum - packetOverhead) }

/-- After a packet of `nTransmit` bytes was too large: down the levels, and with each one that makes it
smaller once more. What could be sent, or none. -/
def retransmitSmaller (t : PseudoTcp) (seg : SSegment) (nTransmit : UInt32) : List UInt32 → PseudoTcp × Option UInt32
  | [] => (t, none)
  | maximum :: levels =>
    let mss := maximum - packetOverhead
    if mss < nTransmit then
      match (t.lowerMss maximum).segmentPacket seg mss with
      | (sent, .success) => (sent, some mss)
      | (sent, .fail) => (sent, none)
      | (sent, .tooLarge) => retransmitSmaller sent seg mss levels
    else retransmitSmaller (t.lowerMss maximum) seg nTransmit levels

/-- A segment of which `nTransmit` bytes have been sent. It is split when these are not all. -/
def pieces (seg : SSegment) (nTransmit : UInt32) : List SSegment :=
  if nTransmit < seg.len then
    [{ seg with len := nTransmit, xmit := seg.xmit + 1 },
      { seq := seg.seq + nTransmit, len := seg.len - nTransmit, xmit := seg.xmit, bCtrl := seg.bCtrl }]
  else [{ seg with xmit := seg.xmit + 1 }]

def transmitted (t : PseudoTcp) (before : List SSegment) (seg : SSegment) (after : List SSegment)
    (nTransmit now : UInt32) :
    PseudoTcp :=
  let len := if nTransmit < seg.len then nTransmit else seg.len
  { t with
    outgoing := { t.outgoing with
      slist := before ++ (pieces seg nTransmit ++ after)
      sndNxt := if seg.xmit = 0 then t.outgoing.sndNxt + len else t.outgoing.sndNxt }
    rtoBase := if t.rtoBase = 0 then now else t.rtoBase }

def maxTransmits (t : PseudoTcp) : UInt8 := if t.state = .established then 15 else 30

/-- False when the segment could not be sent. -/
def transmit (t : PseudoTcp) (before : List SSegment) (seg : SSegment) (after : List SSegment) (now : UInt32) :
    PseudoTcp × Bool :=
  if t.maxTransmits ≤ seg.xmit then (t, false)
  else
    let nTransmit := min seg.len t.mss
    match t.segmentPacket seg nTransmit with
    | (sent, .success) => (sent.transmitted before seg after nTransmit now, true)
    | (sent, .fail) => (sent, false)
    | (sent, .tooLarge) =>
      match sent.retransmitSmaller seg nTransmit (packetMaximums.drop (sent.msslevel + 1)) with
      | (smaller, none) => (smaller, false)
      | (smaller, some nTransmit) => (smaller.transmitted before seg after nTransmit now, true)

/-- `transmit(m_slist.begin(), now)`. -/
def transmitFirst (t : PseudoTcp) (now : UInt32) : PseudoTcp × Bool :=
  match t.outgoing.slist with
  | [] => (t.check .transmitEmpty false, false)
  | seg :: after => t.transmit [] seg after now

/-! ## Sending as much as possible -/

def inFlight (t : PseudoTcp) : UInt32 := t.outgoing.sndNxt - t.outgoing.sndUna

/-- The congestion window, more of it after the first acks that were repeated. -/
def limitedWindow (t : PseudoTcp) : UInt32 :=
  if t.dupAcks = 1 ∨ t.dupAcks = 2 then t.cwnd + t.dupAcks.toUInt32 * t.mss else t.cwnd

def window (t : PseudoTcp) : UInt32 := min t.sndWnd t.limitedWindow

def useable (t : PseudoTcp) : UInt32 := if t.inFlight < t.window then t.window - t.inFlight else 0

/-- The number of bytes that can be sent now. -/
def available (t : PseudoTcp) : UInt32 :=
  let nAvailable := min (UInt32.ofNat t.outgoing.sbuf.dataLength - t.inFlight) t.mss
  if nAvailable > t.useable then
    if t.useable * 4 < t.window then 0 else t.useable
  else nAvailable

/-- Nothing can be sent: an ack may be due. -/
def sendAck (t : PseudoTcp) (sflags : SendFlags) : PseudoTcp :=
  if sflags = .none then t
  else if sflags = .immediateAck ∨ t.tAck ≠ 0 then (t.packet t.outgoing.sndNxt 0 0 0).1
  else { t with tAck := t.env.now }

/-- A segment that is too large is broken into two. -/
def breakSegment (seg : SSegment) (nAvailable : UInt32) : SSegment × List SSegment :=
  if seg.len > nAvailable then
    ({ seg with len := nAvailable }, [{ seq := seg.seq + nAvailable, len := seg.len - nAvailable, bCtrl := seg.bCtrl }])
  else (seg, [])

def withSlist (t : PseudoTcp) (slist : List SSegment) : PseudoTcp := { t with outgoing := { t.outgoing with slist } }

/-- The first segment that has not been transmitted, not more than `nAvailable` bytes of it. -/
def sendSegment (t : PseudoTcp) (nAvailable now : UInt32) : PseudoTcp × Bool :=
  let before := t.outgoing.slist.takeWhile fun s => decide (0 < s.xmit)
  match t.outgoing.slist.dropWhile fun s => decide (0 < s.xmit) with
  | [] => (t.check .nothingToSend false, false)
  | seg :: after =>
    let broken := breakSegment seg nAvailable
    (t.withSlist (before ++ broken.1 :: (broken.2 ++ after))).transmit before broken.1 (broken.2 ++ after) now

/-- The segments that have not been transmitted, and their bytes: with each round there are less. -/
def untransmitted (slist : List SSegment) : Nat :=
  (slist.map fun s => if s.xmit = 0 then s.len.toNat + 1 else 0).sum

/-- The number of rounds is limited; `attemptSend` starts with more than there can be. -/
def attemptSendLoop (now : UInt32) : Nat → SendFlags → PseudoTcp → PseudoTcp
  | 0, _, t => t
  | rounds + 1, sflags, t =>
    let t := t.check .sendDifference (decide (t.inFlight ≤ UInt32.ofNat t.outgoing.sbuf.dataLength))
    let nAvailable := t.available
    if nAvailable = 0 then t.sendAck sflags
    else if t.useNagling && decide (t.outgoing.sndNxt > t.outgoing.sndUna) && decide (nAvailable < t.mss) then t
    else match t.sendSegment nAvailable now with
      | (t, false) => t
      | (t, true) => attemptSendLoop now rounds .none t

def attemptSend (t : PseudoTcp) (sflags : SendFlags) : PseudoTcp :=
  let now := t.env.now
  let t := if timeDiff now t.lastsend > t.rxRto.toNat then { t with cwnd := t.mss } else t
  attemptSendLoop now (untransmitted t.outgoing.slist + 1) sflags t

end PseudoTcp

end WebRtc.Tcp
