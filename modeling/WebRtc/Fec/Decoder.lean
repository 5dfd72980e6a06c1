import WebRtc.Fec.Packet

/-!
# FEC decoding (`forward_error_correction.cc`)

| here | there |
| --- | --- |
| `ReceivedPacket`, `RecoveredPacket` | the classes (forward_error_correction.h:66-115); `returned` is the caller's |
| `ProtectedPacket`, `FecPacket`  | `ProtectedPacket`, `FecPacket` (:57-72) |
| `Decoder`                       | `fec_packet_list_` and the caller's list; `fec_packet_received_` is never read |
| `lowerBound`, `setIntersection` | `std::lower_bound`, `std::set_intersection` |
| `updateCoveringFecPackets`      | `UpdateCoveringFECPackets` (:504) |
| `insertMediaPacket`             | `InsertMediaPacket` (:471) |
| `protectedSeqs`, `newFecPacket`, `insertFecPacket` | `InsertFECPacket` (:519) |
| `assignRecoveredPackets`        | `AssignRecoveredPackets` (:576) |
| `insertPacket`, `insertPackets` | `InsertPackets` (:599) |
| `initRecovery`, `xorPackets`, `finishRecovery`, `recoverPacket` | the functions of the same names (:637-739) |
| `attemptRecover`                | `AttemptRecover` (:741) |
| `decodeFec`                     | `DecodeFEC` (:828) |

A packet that a list points to is the packet itself: nothing writes to one after it was received or
recovered.
-/

namespace WebRtc.Fec

open Bytes

structure ReceivedPacket where
  seqNum : UInt16
  ssrc : UInt32
  isFec : Bool
  pkt : Packet

structure RecoveredPacket where
  seqNum : UInt16
  wasRecovered : Bool
  pkt : Packet

structure ProtectedPacket where
  seqNum : UInt16
  pkt : Option Packet

structure FecPacket where
  seqNum : UInt16
  ssrc : UInt32
  pkt : Packet
  protectedPktList : List ProtectedPacket

structure Decoder where
  fecPacketList : List FecPacket
  recoveredPacketList : List RecoveredPacket

/-! ## Standard library -/

/-- The loop of `std::lower_bound`: the first position among `len` from `first` on whose element is
not `less`, found by halving. -/
def lowerBoundLoop {α : Type} (less : α → Bool) (l : List α) : Nat → Nat → Nat → Nat
  | 0, first, _ => first
  | fuel + 1, first, len =>
    if len = 0 then first
    else
      let half := len / 2
      if l[first + half]?.any less then lowerBoundLoop less l fuel (first + half + 1) (len - half - 1)
      else lowerBoundLoop less l fuel first half

/-- Every round of the loop makes `len` smaller. -/
def lowerBound {α : Type} (less : α → Bool) (l : List α) : Nat := lowerBoundLoop less l l.length 0 l.length

/-- `std::set_intersection` of ranges of different types, taking from the first one. -/
def setIntersection {α β : Type} (ltab : α → β → Bool) (ltba : β → α → Bool) : List α → List β → List α
  | [], _ => []
  | a :: as, bs =>
    match bs.dropWhile fun b => !ltab a b && ltba b a with
    | [] => []
    | b :: bs => if ltab a b then setIntersection ltab ltba as (b :: bs) else a :: setIntersection ltab ltba as bs

theorem dropWhile_map_congr {α β : Type} {f : α → β} {p : β → Bool} {q : α → Bool} {l : List α}
    (h : ∀ a ∈ l, p (f a) = q a) : (l.map f).dropWhile p = (l.dropWhile q).map f := by
  induction l with
  | nil => rfl
  | cons a l ih =>
    rw [List.map_cons, List.dropWhile_cons, List.dropWhile_cons, h a List.mem_cons_self]
    split
    · exact ih fun b hb => h b (List.mem_cons_of_mem a hb)
    · rfl

/-! ## Inserting -/

/-- Link the packet to one FEC packet, if that protects it. -/
def cover (packet : RecoveredPacket) (fec : FecPacket) : FecPacket :=
  let i := lowerBound (fun p : ProtectedPacket => lessThan p.seqNum packet.seqNum) fec.protectedPktList
  { fec with protectedPktList := fec.protectedPktList.modify i fun p =>
      if p.seqNum = packet.seqNum then { p with pkt := some packet.pkt } else p }

def updateCoveringFecPackets (packet : RecoveredPacket) (fecPacketList : List FecPacket) : List FecPacket :=
  fecPacketList.map (cover packet)

/-- Add a packet to the sorted list, and tell the FEC packets that protect it. -/
def Decoder.add (s : Decoder) (packet : RecoveredPacket) : Decoder where
  recoveredPacketList := sortPackets RecoveredPacket.seqNum (s.recoveredPacketList ++ [packet])
  fecPacketList := updateCoveringFecPackets packet s.fecPacketList

def insertMediaPacket (s : Decoder) (rx : ReceivedPacket) : Decoder :=
  -- Search for duplicate packets.
  if s.recoveredPacketList.any fun r => rx.seqNum = r.seqNum then s
  else s.add ⟨rx.seqNum, false, rx.pkt⟩

/-- The L bit of a FEC packet. -/
def lBitOf (pkt : Packet) : Bool := pkt.data 0 &&& 0x40 ≠ 0

/-- The sequence numbers a FEC packet protects; `k` runs over `8 * byte_idx + bit_idx`. -/
def protectedSeqs (pkt : Packet) : List UInt16 :=
  ((List.range (8 * maskSize (lBitOf pkt))).filter fun k => maskBit pkt.data 12 k).map
    fun k => parseSequenceNumber pkt.data + UInt16.ofNat k

/-- Give the packet all recovered packets at the head of the list that have its number. -/
def assignAll (p : ProtectedPacket) : List RecoveredPacket → ProtectedPacket × List RecoveredPacket
  | [] => (p, [])
  | r :: rs => if r.seqNum = p.seqNum then assignAll { p with pkt := some r.pkt } rs else (p, r :: rs)

/-- Walk the protected packets along the recovered ones. -/
def assignRecovered : List ProtectedPacket → List RecoveredPacket → List ProtectedPacket
  | [], _ => []
  | p :: ps, rs => (assignAll p rs).1 :: assignRecovered ps (assignAll p rs).2

def assignRecoveredPackets (notRecovered : List ProtectedPacket) (recoveredPackets : List RecoveredPacket) :
    List ProtectedPacket :=
  assignRecovered notRecovered
    (setIntersection (fun (r : RecoveredPacket) (p : ProtectedPacket) => lessThan r.seqNum p.seqNum)
      (fun p r => lessThan p.seqNum r.seqNum) recoveredPackets notRecovered)

def newFecPacket (rx : ReceivedPacket) (recoveredPackets : List RecoveredPacket) : FecPacket where
  seqNum := rx.seqNum
  ssrc := rx.ssrc
  pkt := rx.pkt
  protectedPktList := assignRecoveredPackets ((protectedSeqs rx.pkt).map fun n => ⟨n, none⟩) recoveredPackets

def insertFecPacket (s : Decoder) (rx : ReceivedPacket) : Decoder :=
  -- Check for duplicate.
  if s.fecPacketList.any fun f => rx.seqNum = f.seqNum then s
  -- All-zero packet mask; we can discard this FEC packet.
  else if (protectedSeqs rx.pkt).isEmpty then s
  else
    let l := sortPackets FecPacket.seqNum (s.fecPacketList ++ [newFecPacket rx s.recoveredPacketList])
    { s with fecPacketList := if l.length > maxMediaPackets then l.tail else l }

/-- `abs(static_cast<int>(a) - static_cast<int>(b))`. -/
def seqNumDiff (a b : UInt16) : Nat := ((a.toNat : Int) - b.toNat).natAbs

/-- The oldest FEC packet is too far from the received one. -/
def tooOld (s : Decoder) (rx : ReceivedPacket) : Bool :=
  s.fecPacketList.head?.any fun f => decide (seqNumDiff rx.seqNum f.seqNum > 0x3fff)

def insertPacket (s : Decoder) (rx : ReceivedPacket) : Decoder :=
  let s := if tooOld s rx then { s with fecPacketList := s.fecPacketList.tail } else s
  if rx.isFec then insertFecPacket s rx else insertMediaPacket s rx

def discardOldPackets (l : List RecoveredPacket) : List RecoveredPacket := l.drop (l.length - maxMediaPackets)

def insertPackets (s : Decoder) (received : List ReceivedPacket) : Decoder :=
  let s := received.foldl insertPacket s
  { s with recoveredPacketList := discardOldPackets s.recoveredPacketList }

/-! ## Recovering -/

/-- A packet in the course of its recovery. -/
structure Recovery where
  seqNum : UInt16
  data : Nat → UInt8
  lengthRecovery : UInt8 × UInt8

def initRecovery (fec : FecPacket) : Option Recovery :=
  let ulp := ulpHeaderSize (lBitOf fec.pkt)
  let protectionLength := read16 (fec.pkt.data 10) (fec.pkt.data 11)
  -- Truncated FEC packet doesn't contain room for ULP header.
  if fec.pkt.length < fecHeaderSize + ulp then none
  -- Incorrect FEC protection length, dropping.
  else if protectionLength > min (ipPacketSize - rtpHeaderSize) (ipPacketSize - fecHeaderSize - ulp) then none
  else some
    { seqNum := 0
      data := fun j =>
        if j < 2 ∨ 4 ≤ j ∧ j < 8 then fec.pkt.data j
        else if 8 ≤ j ∧ j < 12 then byte32 fec.ssrc (j - 8)
        else if rtpHeaderSize ≤ j ∧ j < rtpHeaderSize + protectionLength then
          fec.pkt.data (fecHeaderSize + ulp + (j - rtpHeaderSize))
        else 0
      lengthRecovery := (fec.pkt.data 8, fec.pkt.data 9) }

def xorPackets (src : Packet) (dst : Recovery) : Recovery :=
  { dst with
    data := fun j =>
      if j < 2 ∨ 4 ≤ j ∧ j < 8 ∨ rtpHeaderSize ≤ j ∧ j < src.length then dst.data j ^^^ src.data j else dst.data j
    lengthRecovery := (dst.lengthRecovery.1 ^^^ hi16 (src.length - rtpHeaderSize),
      dst.lengthRecovery.2 ^^^ lo16 (src.length - rtpHeaderSize)) }

def finishRecovery (r : Recovery) : Option RecoveredPacket :=
  let length := read16 r.lengthRecovery.1 r.lengthRecovery.2 + rtpHeaderSize
  if length > ipPacketSize - rtpHeaderSize then none
  else some
    { seqNum := r.seqNum
      wasRecovered := true
      pkt :=
        { length := length
          data := fun j =>
            -- Set the RTP version to 2, and the SN field.
            if j = 0 then (r.data 0 ||| 0x80) &&& 0xbf
            else if j = 2 then hi16 r.seqNum.toNat
            else if j = 3 then lo16 r.seqNum.toNat
            else r.data j } }

/-- XOR in the packets there are; the one there is not is being recovered. -/
def recoverStep (r : Recovery) (p : ProtectedPacket) : Recovery :=
  match p.pkt with
  | none => { r with seqNum := p.seqNum }
  | some pkt => xorPackets pkt r

def recoverPacket (fec : FecPacket) : Option RecoveredPacket :=
  (initRecovery fec).bind fun r => finishRecovery (fec.protectedPktList.foldl recoverStep r)

/-- `NumCoveredPacketsMissing`, which stops counting at 2. -/
def numCoveredPacketsMissing (fec : FecPacket) : Nat := min 2 (fec.protectedPktList.countP fun p => p.pkt.isNone)

/-- The loop of `AttemptRecover` with the iterator after `seen`; with the packets recovered. `sort` is what
`std::list::sort` does to the recovered packets. -/
def attemptLoop (sort : List RecoveredPacket → List RecoveredPacket) :
    Nat → List FecPacket → List FecPacket → List RecoveredPacket → Decoder × List RecoveredPacket
  | 0, seen, rest, recovered => (⟨seen ++ rest, recovered⟩, [])
  | _ + 1, seen, [], recovered => (⟨seen, recovered⟩, [])
  | fuel + 1, seen, fec :: rest, recovered =>
    if numCoveredPacketsMissing fec = 1 then
      match recoverPacket fec with
      -- Can't recover using this packet, drop it.
      | none => attemptLoop sort fuel seen rest recovered
      | some packet =>
        let recovered := discardOldPackets (sort (recovered ++ [packet]))
        -- Restart for first FEC packet.
        let r := attemptLoop sort fuel [] (updateCoveringFecPackets packet (seen ++ rest)) recovered
        (r.1, packet :: r.2)
    else if numCoveredPacketsMissing fec = 0 then attemptLoop sort fuel seen rest recovered
    else attemptLoop sort fuel (seen ++ [fec]) rest recovered

/-- Between two recoveries the iterator passes every FEC packet at most once. -/
def attemptRecover (sort : List RecoveredPacket → List RecoveredPacket) (s : Decoder) :
    Decoder × List RecoveredPacket :=
  let n := s.fecPacketList.length
  attemptLoop sort ((n + 1) * (n + 1)) [] s.fecPacketList s.recoveredPacketList

section Fuel
variable {sort : List RecoveredPacket → List RecoveredPacket}

/-- The loop is over before its fuel is: a pass takes at most as many rounds as there are FEC packets,
and a new pass has one FEC packet less. -/
theorem attemptLoop_succ {n fuel : Nat} {seen rest : List FecPacket} (hn : seen.length + rest.length ≤ n)
    (hfuel : (seen.length + rest.length) * (n + 1) + rest.length < fuel) (recovered : List RecoveredPacket) :
    attemptLoop sort (fuel + 1) seen rest recovered = attemptLoop sort fuel seen rest recovered := by
  induction fuel generalizing seen rest recovered with
  | zero => omega
  | succ fuel ih =>
    cases rest with
    | nil => rfl
    | cons fec rest =>
      simp only [List.length_cons, ← Nat.add_assoc, Nat.add_one_mul] at hn hfuel
      have hdrop : ∀ recovered, attemptLoop sort (fuel + 1) seen rest recovered =
        attemptLoop sort fuel seen rest recovered :=
        ih (by omega) (by omega)
      have hagain : ∀ packet recovered,
          attemptLoop sort (fuel + 1) [] (updateCoveringFecPackets packet (seen ++ rest)) recovered =
            attemptLoop sort fuel [] (updateCoveringFecPackets packet (seen ++ rest)) recovered := by
        intro packet
        have hlen : (updateCoveringFecPackets packet (seen ++ rest)).length = seen.length + rest.length := by
          rw [updateCoveringFecPackets, List.length_map, List.length_append]
        refine ih ?_ ?_ <;> simp only [hlen, List.length_nil, Nat.zero_add] <;> omega
      have hpass : ∀ recovered,
          attemptLoop sort (fuel + 1) (seen ++ [fec]) rest recovered =
            attemptLoop sort fuel (seen ++ [fec]) rest recovered := by
        refine ih ?_ ?_ <;>
          simp only [List.length_append, List.length_singleton, Nat.add_right_comm _ 1, Nat.add_one_mul] <;>
          omega
      rw [attemptLoop, attemptLoop]
      simp only [hdrop, hagain, hpass]

theorem attemptRecover_fuel (s : Decoder) (k : Nat) :
    attemptLoop sort ((s.fecPacketList.length + 1) * (s.fecPacketList.length + 1) + k) [] s.fecPacketList
      s.recoveredPacketList = attemptRecover sort s := by
  induction k with
  | zero => rfl
  | succ k ih =>
    rw [← ih, ← Nat.add_assoc]
    refine attemptLoop_succ (n := s.fecPacketList.length) (by simp) ?_ _
    simp only [List.length_nil, Nat.zero_add, Nat.add_one_mul]
    omega

end Fuel

/-! ## Decoding -/

/-- A big gap in sequence numbers. -/
def bigGap (s : Decoder) (received : List ReceivedPacket) : Bool :=
  s.recoveredPacketList.length = maxMediaPackets &&
    (received.head?.any fun rx => s.recoveredPacketList.getLast?.any fun r =>
      decide (seqNumDiff rx.seqNum r.seqNum > maxMediaPackets))

/-- The next state, and the packets recovered by this call. -/
def decodeFec (s : Decoder) (received : List ReceivedPacket) : Decoder × List RecoveredPacket :=
  let s := if bigGap s received then ⟨[], []⟩ else s
  attemptRecover (sortPackets RecoveredPacket.seqNum) (insertPackets s received)

end WebRtc.Fec
