import WebRtc.Lib.Wire
import WebRtc.Tcp.FifoBuffer

/-!
# The state of an endpoint

| here | there |
| --- | --- |
| `packetMaximums` and the other constants | `pseudotcp.cc:36-139` |
| `WriteResult`, `Notification` | `pseudotcp.h:29-48` |
| `Segment`, `SSegment`, `RSegment` | `pseudotcp.h:121-144` |
| `PseudoTcp` | `pseudotcp.h:190-245` |
| `create` | `pseudotcp.cc:213-263` |
| `timeDiff` | `timeutils.cc:172-174` |

`Env` is what is around an endpoint: the clock, the results of the next calls of `TcpWritePacket`, the
packets that were written, the notifications, and `faults`. A fault is an assertion that failed, or a
difference of unsigned numbers that went below zero; the code goes on as it does where assertions are
not compiled.
-/

namespace WebRtc.Tcp

open CInt

/-! ## Constants -/

/-- Without the marker of the end of the list. -/
def packetMaximums : List UInt32 := [65535, 32000, 17914, 8166, 4352, 2002, 1492, 1006, 508, 296]

def maxPacket : Nat := 65535
def minPacket : UInt32 := 296
def headerSize : Nat := 24
/-- The headers of this protocol, of UDP, of IP and of the relay. -/
def packetOverhead : UInt32 := 24 + 8 + 20 + 64
def defaultRcvBufSize : Nat := 60 * 1024
def defaultSndBufSize : Nat := 90 * 1024
def minRto : UInt32 := 250
def defRto : UInt32 := 3000
def maxRto : UInt32 := 60000
def defAckDelay : UInt32 := 100
def flagCtl : UInt8 := 0x02
def flagRst : UInt8 := 0x04
def ctlConnect : UInt8 := 0
def tcpOptEol : UInt8 := 0
def tcpOptNoop : UInt8 := 1
def tcpOptWndScale : UInt8 := 3

/-! ## Data -/

inductive TcpState where
  | listen
  | synSent
  | synReceived
  | established
  | closed
deriving DecidableEq, Repr

inductive SendFlags where
  | none
  | delayedAck
  | immediateAck
deriving DecidableEq, Repr

inductive WriteResult where
  | success
  | tooLarge
  | fail
deriving DecidableEq, Repr

inductive SocketError where
  | connReset
  | connAborted
deriving DecidableEq, Repr

inductive Notification where
  | opened
  | readable
  | writeable
  | closed (error : SocketError)
deriving DecidableEq, Repr

inductive Fault where
  /-- `queue`: control data does not fit into the send buffer. -/
  | controlQueued
  /-- `packet`: the packet is too large, or the send buffer does not hold its data. -/
  | packetSize
  | packetData
  /-- A segment of an empty list is transmitted, or acknowledged, or none is left to transmit. -/
  | transmitEmpty
  | acknowledgeEmpty
  | nothingToSend
  /-- `ConsumeReadData`: more is acknowledged than the send buffer holds. -/
  | consumeRead
  | negativeRtt
  /-- `WriteOffset` does not store all bytes, or `ConsumeWriteBuffer` passes the end of the receive buffer. -/
  | writeOffset
  | consumeWrite
  | resize
  /-- Differences: `m_rcv_wnd -= ..`, `available_space - m_rcv_wnd`, `snd_buffered - nInFlight`. -/
  | receiveWindow
  | receiveDifference
  | sendDifference
deriving DecidableEq, Repr

/-- A packet that has been parsed. `len` is the length of `data`. -/
structure Segment where
  conv : UInt32
  seq : UInt32
  ack : UInt32
  flags : UInt8
  wnd : UInt16
  tsval : UInt32
  tsecr : UInt32
  data : List UInt8
deriving DecidableEq, Repr

def Segment.isCtl (seg : Segment) : Bool := seg.flags &&& flagCtl != 0

structure SSegment where
  seq : UInt32
  len : UInt32
  xmit : UInt8 := 0
  bCtrl : Bool
deriving DecidableEq, Repr

structure RSegment where
  seq : UInt32
  len : UInt32
deriving DecidableEq, Repr

/-- What is kept of the stream that is sent. -/
structure Outgoing where
  slist : List SSegment
  sndNxt : UInt32
  sndUna : UInt32
  sbuf : FifoBuffer

/-- What is kept of the stream that is received. -/
structure Incoming where
  rlist : List RSegment
  rcvNxt : UInt32
  rcvWnd : UInt32
  rbuf : FifoBuffer

structure Env where
  now : UInt32
  results : List WriteResult
  written : List (List UInt8)
  notifications : List Notification
  faults : List Fault

structure PseudoTcp where
  state : TcpState
  conv : UInt32
  bReadEnable : Bool
  bWriteEnable : Bool
  bOutgoing : Bool
  lasttraffic : UInt32
  rbufLen : UInt32
  lastrecv : UInt32
  rwndScale : UInt8
  incoming : Incoming
  sbufLen : UInt32
  sndWnd : UInt32
  lastsend : UInt32
  swndScale : UInt8
  outgoing : Outgoing
  mss : UInt32
  msslevel : Nat
  largest : UInt32
  mtuAdvise : UInt32
  rtoBase : UInt32
  tsRecent : UInt32
  tsLastack : UInt32
  rxRttvar : UInt32
  rxSrtt : UInt32
  rxRto : UInt32
  ssthresh : UInt32
  cwnd : UInt32
  dupAcks : UInt8
  recover : UInt32
  tAck : UInt32
  useNagling : Bool
  ackDelay : UInt32
  supportWndScale : Bool
  env : Env

theorem toNat_min (a b : UInt32) : (min a b).toNat = min a.toNat b.toNat := by
  have hmin : min a b = if a ≤ b then a else b := rfl
  rw [hmin]
  split
  · next h => exact (Nat.min_eq_left (UInt32.le_iff_toNat_le.1 h)).symm
  · next h =>
    rw [UInt32.le_iff_toNat_le] at h
    omega

def timeDiff (later earlier : UInt32) : Int := i32 ((later.toNat : Int) - earlier.toNat)

namespace PseudoTcp

/-- A fault unless `holds`. -/
def check (t : PseudoTcp) (fault : Fault) (holds : Bool) : PseudoTcp :=
  if holds then t else { t with env := { t.env with faults := t.env.faults ++ [fault] } }

def notify (t : PseudoTcp) (n : Notification) : PseudoTcp :=
  { t with env := { t.env with notifications := t.env.notifications ++ [n] } }

def create (conv now : UInt32) : PseudoTcp where
  state := .listen
  conv
  bReadEnable := true
  bWriteEnable := false
  bOutgoing := false
  lasttraffic := now
  rbufLen := UInt32.ofNat defaultRcvBufSize
  lastrecv := now
  rwndScale := 0
  incoming :=
    { rlist := [], rcvNxt := 0, rcvWnd := UInt32.ofNat defaultRcvBufSize, rbuf := FifoBuffer.create defaultRcvBufSize }
  sbufLen := UInt32.ofNat defaultSndBufSize
  sndWnd := 1
  lastsend := now
  swndScale := 0
  outgoing := { slist := [], sndNxt := 0, sndUna := 0, sbuf := FifoBuffer.create defaultSndBufSize }
  mss := minPacket - packetOverhead
  msslevel := 0
  largest := 0
  mtuAdvise := UInt32.ofNat maxPacket
  rtoBase := 0
  tsRecent := 0
  tsLastack := 0
  rxRttvar := 0
  rxSrtt := 0
  rxRto := defRto
  ssthresh := UInt32.ofNat defaultRcvBufSize
  cwnd := 2 * (minPacket - packetOverhead)
  dupAcks := 0
  recover := 0
  tAck := 0
  useNagling := true
  ackDelay := defAckDelay
  supportWndScale := true
  env := { now, results := [], written := [], notifications := [], faults := [] }

/-! ## Frames -/

section
variable (t : PseudoTcp) (fault : Fault) (holds : Bool) (n : Notification)

@[simp] theorem check_true : t.check fault true = t := rfl

@[simp] theorem check_outgoing : (t.check fault holds).outgoing = t.outgoing := by cases holds <;> rfl

@[simp] theorem check_incoming : (t.check fault holds).incoming = t.incoming := by cases holds <;> rfl

end

end PseudoTcp

end WebRtc.Tcp
