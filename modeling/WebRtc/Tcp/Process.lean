import WebRtc.Tcp.Send

/-!
# Receiving, and the operations of an endpoint

| here | there |
| --- | --- |
| `connect`, `notifyClock`, `notifyPacket` | `pseudotcp.cc:265-363` |
| `recv`, `send` | `pseudotcp.cc:420-472` |
| `parse` | `pseudotcp.cc:573-602` |
| `closedown`, `adjustMTU`, `queueConnectMessage` | `pseudotcp.cc:1130-1181` |
| `readOptions`, `applyOption`, `parseOptions`, `resizeReceiveBuffer` | `pseudotcp.cc:1183-1281` |
| `control` | `pseudotcp.cc:672-702` |
| `updateTimestamp`, `measure`, `release`, `acknowledgeNew`, `acknowledgeSame` | `pseudotcp.cc:704-818` |
| `establish`, `notifyWriteable` | `pseudotcp.cc:820-845` |
| `ackFlags`, `trimOld`, `trimNew`, `advance`, `recover`, `store`, `receive` | `pseudotcp.cc:847-960` |
| `process` | `pseudotcp.cc:646-962` |

`Close` is not called, so that `m_shutdown` is `SD_NONE`.
-/

namespace WebRtc.Tcp

open CInt Bytes

namespace PseudoTcp

def closedown (t : PseudoTcp) (error : SocketError) : PseudoTcp := { t with state := .closed }.notify (.closed error)

def adjustMTU (t : PseudoTcp) : PseudoTcp :=
  let mss := t.mtuAdvise - packetOverhead
  { t with
    msslevel := (packetMaximums.dropLast.takeWhile fun maximum => !decide (maximum ≤ t.mtuAdvise)).length
    mss
    ssthresh := max t.ssthresh (2 * mss)
    cwnd := max t.cwnd mss }

/-! ## The connect message -/

def connectMessage (t : PseudoTcp) : List UInt8 :=
  ctlConnect :: if t.supportWndScale then [tcpOptWndScale, 1, t.rwndScale] else []

def queueConnectMessage (t : PseudoTcp) : PseudoTcp :=
  ({ t with sndWnd := numBytes t.connectMessage }.queue t.connectMessage true).1

/-- The kinds of the options with what they contain, and whether the list ends as it should. A length
that is missing is 0. -/
def readOptions : List UInt8 → List (UInt8 × List UInt8) × Bool
  | [] => ([], true)
  | kind :: rest =>
    if kind = tcpOptEol then ([], true)
    else if kind = tcpOptNoop then readOptions rest
    else
      let length := (rest.headD 0).toNat
      let content := rest.tail
      if length ≤ content.length then
        let (options, ended) := readOptions (content.drop length)
        ((kind, content.take length) :: options, ended)
      else ([], false)
termination_by bytes => bytes.length
decreasing_by
  · simp
  · simp only [List.length_drop, List.length_tail, List.length_cons]
    omega

def applyOption (t : PseudoTcp) (option : UInt8 × List UInt8) : PseudoTcp :=
  match option with
  | (kind, [scaleFactor]) => if kind = tcpOptWndScale then { t with swndScale := scaleFactor } else t
  | _ => t

/-- How often the size is halved until it fits into 16 bits. -/
def scaleFactor (newSize : UInt32) : Nat → UInt8
  | 0 => 0
  | steps + 1 => if newSize > 0xFFFF then scaleFactor (newSize >>> 1) steps + 1 else 0

def resizeReceiveBuffer (t : PseudoTcp) (newSize : UInt32) : PseudoTcp :=
  let scale := scaleFactor newSize 32
  let newSize := (newSize >>> scale.toUInt32) <<< scale.toUInt32
  let resized := t.incoming.rbuf.setCapacity newSize.toNat
  let t := t.check .resize resized.isSome
  let rbuf := resized.getD t.incoming.rbuf
  { t with
    rbufLen := newSize
    rwndScale := scale
    ssthresh := newSize
    incoming := { t.incoming with rbuf, rcvWnd := UInt32.ofNat rbuf.getWriteRemaining } }

/-- After a list that does not end as it should the rest is not looked at. -/
def parseOptions (t : PseudoTcp) (data : List UInt8) : PseudoTcp :=
  let (options, ended) := readOptions data
  let t := options.foldl applyOption t
  if ended = false then t
  else if (options.any fun option => option.1 == tcpOptWndScale) = false ∧ 0 < t.rwndScale then
    { t.resizeReceiveBuffer (UInt32.ofNat defaultRcvBufSize) with swndScale := 0 }
  else t

/-! ## Acknowledgements -/

/-- None when the control code is missing or not known. -/
def control (t : PseudoTcp) (seg : Segment) : Option PseudoTcp :=
  if seg.isCtl = false then some t
  else match seg.data with
    | [] => none
    | code :: options =>
      if code = ctlConnect then
        let t := t.parseOptions options
        some (match t.state with
          | .listen => { t with state := .synReceived }.queueConnectMessage
          | .synSent => { t with state := .established }.adjustMTU.notify .opened
          | _ => t)
      else none

def updateTimestamp (t : PseudoTcp) (seg : Segment) : PseudoTcp :=
  if seg.seq ≤ t.tsLastack ∧ t.tsLastack < seg.seq + numBytes seg.data then { t with tsRecent := seg.tsval } else t

def bound (lower middle upper : UInt32) : UInt32 := min (max lower middle) upper

/-- The round trip time. -/
def measure (t : PseudoTcp) (tsecr : UInt32) : PseudoTcp :=
  if tsecr = 0 then t
  else
    let rtt := timeDiff t.env.now tsecr
    if rtt < 0 then t.check .negativeRtt false
    else
      let rtt := UInt32.ofNat rtt.toNat
      let absErr := if rtt > t.rxSrtt then rtt - t.rxSrtt else t.rxSrtt - rtt
      let rxRttvar := if t.rxSrtt = 0 then rtt / 2 else (3 * t.rxRttvar + absErr) / 4
      let rxSrtt := if t.rxSrtt = 0 then rtt else (7 * t.rxSrtt + rtt) / 8
      { t with rxRttvar, rxSrtt, rxRto := bound minRto (rxSrtt + max 1 (4 * rxRttvar)) maxRto }

/-- The list and the largest segment without `nFree` bytes, and whether these were there. -/
def release (largest : UInt32) : UInt32 → List SSegment → List SSegment × UInt32 × Bool
  | nFree, [] => ([], largest, nFree = 0)
  | nFree, seg :: slist =>
    if nFree = 0 then (seg :: slist, largest, true)
    else if nFree < seg.len then ({ seg with len := seg.len - nFree } :: slist, largest, true)
    else release (if seg.len > largest then seg.len else largest) (nFree - seg.len) slist

/-- The acknowledged bytes leave the send buffer. -/
def releaseAcked (t : PseudoTcp) (ack : UInt32) : PseudoTcp :=
  let nAcked := ack - t.outgoing.sndUna
  let t := t.check .consumeRead (decide (nAcked.toNat ≤ t.outgoing.sbuf.dataLength))
  let (slist, largest, held) := release t.largest nAcked t.outgoing.slist
  { t.check .acknowledgeEmpty held with
    largest
    rtoBase := if ack = t.outgoing.sndNxt then 0 else t.env.now
    outgoing := { t.outgoing with slist, sndUna := ack, sbuf := t.outgoing.sbuf.consumeReadData nAcked.toNat } }

/-- After an ack of something new. False when a segment could not be sent. -/
def acknowledgeNew (t : PseudoTcp) (seg : Segment) : PseudoTcp × Bool :=
  let nAcked := seg.ack - t.outgoing.sndUna
  let t := t.measure seg.tsecr
  let t := { t with sndWnd := seg.wnd.toUInt32 <<< t.swndScale.toUInt32 }.releaseAcked seg.ack
  if 3 ≤ t.dupAcks then
    if t.outgoing.sndUna ≥ t.recover then ({ t with cwnd := min t.ssthresh (t.inFlight + t.mss), dupAcks := 0 }, true)
    else match t.transmitFirst t.env.now with
      | (t, false) => (t, false)
      | (t, true) => ({ t with cwnd := t.cwnd + (t.mss - min nAcked t.cwnd) }, true)
  else
    ({ t with
        dupAcks := 0
        cwnd := if t.cwnd < t.ssthresh then t.cwnd + t.mss else t.cwnd + max 1 (t.mss * t.mss / t.cwnd) }, true)

/-- After an ack that was received before. -/
def acknowledgeSame (t : PseudoTcp) (seg : Segment) : PseudoTcp × Bool :=
  let t := { t with sndWnd := seg.wnd.toUInt32 <<< t.swndScale.toUInt32 }
  if seg.data ≠ [] then (t, true)
  else if t.outgoing.sndUna = t.outgoing.sndNxt then ({ t with dupAcks := 0 }, true)
  else
    let t := { t with dupAcks := t.dupAcks + 1 }
    if t.dupAcks = 3 then
      match t.transmitFirst t.env.now with
      | (t, false) => (t, false)
      | (t, true) =>
        let ssthresh := max (t.inFlight / 2) (2 * t.mss)
        ({ t with recover := t.outgoing.sndNxt, ssthresh, cwnd := ssthresh + 3 * t.mss }, true)
    else if 3 < t.dupAcks then ({ t with cwnd := t.cwnd + t.mss }, true)
    else (t, true)

def acknowledge (t : PseudoTcp) (seg : Segment) : PseudoTcp × Bool :=
  if seg.ack > t.outgoing.sndUna ∧ seg.ack ≤ t.outgoing.sndNxt then t.acknowledgeNew seg
  else if seg.ack = t.outgoing.sndUna then t.acknowledgeSame seg
  else (t, true)

def establish (t : PseudoTcp) (bConnect : Bool) : PseudoTcp :=
  if t.state = .synReceived ∧ bConnect = false then { t with state := .established }.adjustMTU.notify .opened else t

def notifyWriteable (t : PseudoTcp) : PseudoTcp :=
  let kIdealRefillSize := (t.sbufLen + t.rbufLen) / 2
  if t.bWriteEnable ∧ UInt32.ofNat t.outgoing.sbuf.dataLength < kIdealRefillSize then
    { t with bWriteEnable := false }.notify .writeable
  else t

/-! ## Data -/

def ackFlags (t : PseudoTcp) (seg : Segment) : SendFlags :=
  if seg.seq ≠ t.incoming.rcvNxt then .immediateAck
  else if seg.data ≠ [] then
    if t.ackDelay = 0 then .immediateAck else .delayedAck
  else .none

/-- Without what has been received. -/
def trimOld (rcvNxt seq : UInt32) (data : List UInt8) : UInt32 × List UInt8 :=
  if seq < rcvNxt then
    let nAdjust := rcvNxt - seq
    if nAdjust < numBytes data then (seq + nAdjust, data.drop nAdjust.toNat) else (seq, [])
  else (seq, data)

/-- Without what is behind the end of the receive buffer. -/
def trimNew (rcvNxt availableSpace seq : UInt32) (data : List UInt8) : List UInt8 :=
  if seq + numBytes data - rcvNxt > availableSpace then
    let nAdjust := seq + numBytes data - rcvNxt - availableSpace
    if nAdjust < numBytes data then data.take (numBytes data - nAdjust).toNat else []
  else data

/-- `n` bytes that are in the buffer become readable. -/
def advance (t : PseudoTcp) (n : UInt32) : PseudoTcp :=
  let rbuf := t.incoming.rbuf
  let t := t.check .consumeWrite (decide (n.toNat ≤ rbuf.bufferLength - rbuf.dataLength))
  let t := t.check .receiveWindow (decide (n ≤ t.incoming.rcvWnd))
  { t with incoming := { t.incoming with
      rbuf := rbuf.consumeWriteBuffer n.toNat
      rcvNxt := t.incoming.rcvNxt + n
      rcvWnd := t.incoming.rcvWnd - n } }

/-- The segments that were stored and are reached now: they are removed from the list. Whether one made
a difference. -/
def recovered (t : PseudoTcp) : List RSegment → PseudoTcp × Bool
  | [] => ({ t with incoming := { t.incoming with rlist := [] } }, false)
  | it :: rlist =>
    if it.seq ≤ t.incoming.rcvNxt then
      if it.seq + it.len > t.incoming.rcvNxt then
        (((t.advance (it.seq + it.len - t.incoming.rcvNxt)).recovered rlist).1, true)
      else t.recovered rlist
    else ({ t with incoming := { t.incoming with rlist := it :: rlist } }, false)

/-- The segment before the first one that does not start earlier. -/
def insertSegment (rseg : RSegment) (rlist : List RSegment) : List RSegment :=
  rlist.takeWhile (fun it => decide (it.seq < rseg.seq)) ++ rseg :: rlist.dropWhile fun it => decide (it.seq < rseg.seq)

/-- Whether there is new data for the reader, and whether stored segments were reached. -/
def store (t : PseudoTcp) (isCtl : Bool) (seq : UInt32) (data : List UInt8) : PseudoTcp × Bool × Bool :=
  if data = [] then (t, false, false)
  else if isCtl then
    if seq = t.incoming.rcvNxt then
      ({ t with incoming := { t.incoming with rcvNxt := t.incoming.rcvNxt + numBytes data } }, false, false)
    else (t, false, false)
  else
    let written := t.incoming.rbuf.writeOffset data (seq - t.incoming.rcvNxt).toNat
    let t := t.check .writeOffset (written.any fun w => w.2 == data.length)
    let t := { t with incoming := { t.incoming with rbuf := (written.map Prod.fst).getD t.incoming.rbuf } }
    if seq = t.incoming.rcvNxt then
      let (t, reached) := (t.advance (numBytes data)).recovered t.incoming.rlist
      (t, true, reached)
    else
      let rseg : RSegment := { seq, len := numBytes data }
      ({ t with incoming := { t.incoming with rlist := insertSegment rseg t.incoming.rlist } }, false, false)

def receive (t : PseudoTcp) (seg : Segment) : PseudoTcp :=
  let sflags := t.ackFlags seg
  let (seq, data) := trimOld t.incoming.rcvNxt seg.seq seg.data
  let availableSpace := UInt32.ofNat t.incoming.rbuf.getWriteRemaining
  let (t, bNewData, reached) := t.store seg.isCtl seq (trimNew t.incoming.rcvNxt availableSpace seq data)
  let t := t.attemptSend (if reached then .immediateAck else sflags)
  if bNewData ∧ t.bReadEnable then { t with bReadEnable := false }.notify .readable else t

def process (t : PseudoTcp) (seg : Segment) : PseudoTcp × Bool :=
  if seg.conv ≠ t.conv then (t, false)
  else
    let t := { t with lasttraffic := t.env.now, lastrecv := t.env.now, bOutgoing := false }
    if t.state = .closed then (t, false)
    else if seg.flags &&& flagRst ≠ 0 then (t.closedown .connReset, false)
    else match t.control seg with
      | none => (t, false)
      | some t =>
        match (t.updateTimestamp seg).acknowledge seg with
        | (t, false) => (t.closedown .connAborted, false)
        | (t, true) => (((t.establish seg.isCtl).notifyWriteable).receive seg, true)

end PseudoTcp

/-! ## Operations -/

/-- What arrives from the network: not less than a header. -/
structure Datagram where
  bytes : List UInt8
  hasHeader : headerSize ≤ bytes.length

def Datagram.segment (d : Datagram) : Segment where
  conv := read32At d.bytes 0
  seq := read32At d.bytes 4
  ack := read32At d.bytes 8
  flags := byteAt d.bytes 13
  wnd := read16At d.bytes 14
  tsval := read32At d.bytes 16
  tsecr := read32At d.bytes 20
  data := d.bytes.drop headerSize

namespace PseudoTcp

def notifyPacket (t : PseudoTcp) (d : Datagram) : PseudoTcp × Bool :=
  if d.bytes.length > maxPacket then (t, false) else t.process d.segment

/-- False when the endpoint is connected or closed. -/
def connect (t : PseudoTcp) : PseudoTcp × Bool :=
  if t.state ≠ .listen then (t, false)
  else ({ t with state := .synSent }.queueConnectMessage.attemptSend .none, true)

/-- None is `SOCKET_ERROR`. -/
def recv (t : PseudoTcp) (len : Nat) : PseudoTcp × Option (List UInt8) :=
  if t.state ≠ .established then (t, none)
  else match t.incoming.rbuf.read len with
    | none => ({ t with bReadEnable := true }, none)
    | some (data, rbuf) =>
      let t := { t with incoming := { t.incoming with rbuf } }
      let availableSpace := UInt32.ofNat rbuf.getWriteRemaining
      let t := t.check .receiveDifference (decide (t.incoming.rcvWnd ≤ availableSpace))
      if availableSpace - t.incoming.rcvWnd ≥ min (t.rbufLen / 2) t.mss then
        let opened := { t with incoming := { t.incoming with rcvWnd := availableSpace } }
        (if t.incoming.rcvWnd = 0 then opened.attemptSend .immediateAck else opened, some data)
      else (t, some data)

/-- The number of bytes that were accepted. -/
def send (t : PseudoTcp) (data : List UInt8) : PseudoTcp × Option Nat :=
  if t.state ≠ .established then (t, none)
  else if t.outgoing.sbuf.getWriteRemaining = 0 then ({ t with bWriteEnable := true }, none)
  else
    let (t, written) := t.queue data false
    (t.attemptSend .none, some written)

/-- A segment that was not acknowledged in time is sent once more. -/
def clockRetransmit (t : PseudoTcp) (now : UInt32) : PseudoTcp × Bool :=
  if t.rtoBase ≠ 0 ∧ timeDiff (t.rtoBase + t.rxRto) now ≤ 0 then
    if t.outgoing.slist = [] then (t.check .transmitEmpty false, true)
    else match t.transmitFirst now with
      | (t, false) => (t, false)
      | (t, true) =>
        let rtoLimit := if t.state = .established ∨ t.state = .closed then maxRto else defRto
        ({ t with
            ssthresh := max (t.inFlight / 2) (2 * t.mss)
            cwnd := t.mss
            rxRto := min rtoLimit (t.rxRto * 2)
            rtoBase := now }, true)
  else (t, true)

/-- The window of the other side is closed: a probe. False when nothing has been received for long. -/
def clockProbe (t : PseudoTcp) (now : UInt32) : PseudoTcp × Bool :=
  if t.sndWnd = 0 ∧ timeDiff (t.lastsend + t.rxRto) now ≤ 0 then
    if timeDiff now t.lastrecv ≥ 15000 then (t, false)
    else
      let t := (t.packet (t.outgoing.sndNxt - 1) 0 0 0).1
      ({ t with lastsend := now, rxRto := min maxRto (t.rxRto * 2) }, true)
  else (t, true)

def clockAck (t : PseudoTcp) (now : UInt32) : PseudoTcp :=
  if t.tAck ≠ 0 ∧ timeDiff (t.tAck + t.ackDelay) now ≤ 0 then (t.packet t.outgoing.sndNxt 0 0 0).1 else t

def notifyClock (t : PseudoTcp) (now : UInt32) : PseudoTcp :=
  if t.state = .closed then t
  else match t.clockRetransmit now with
    | (t, false) => t.closedown .connAborted
    | (t, true) =>
      match t.clockProbe now with
      | (t, false) => t.closedown .connAborted
      | (t, true) => t.clockAck now

end PseudoTcp

end WebRtc.Tcp
