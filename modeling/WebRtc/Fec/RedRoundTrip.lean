import WebRtc.Fec.Red

/-!
# What a RED packet carries

A RED packet with one block, of which the sender makes two kinds, gives the receiver the packet it was made
of, if that has room in a packet's `data` (`received_media`, `received_fec`); if it has none, the receiver writes
behind it. Of a packet with two blocks it takes the FEC block as it is and puts the media block behind the RTP header,
but counts only the block in the length of the media packet, which so ends before its last bytes (`received_two`). No
packet makes it read outside (`addReceivedRedPacket_reads`).
-/

namespace WebRtc.Fec

open Bytes

/-! ## Bytes -/

theorem read_setByte (mem : Memory) (n k : Nat) (b : UInt8) : (setByte mem k b).read 0 n = (mem.read 0 n).set k b := by
  apply List.ext_getElem
  · simp
  · intro i hi _
    simp only [Memory.read, List.getElem_map, List.getElem_range, setByte, List.getElem_set, Nat.zero_add]
    by_cases hik : i = k
    · rw [if_pos hik, if_pos hik.symm]
    · rw [if_neg hik, if_neg fun h => hik h.symm]

/-- A copy behind the first bytes. -/
theorem read_memcpy_behind (mem : Memory) (h : Nat) (bytes : List UInt8) :
    (mem.memcpy h bytes).read 0 (h + bytes.length) = mem.read 0 h ++ bytes := by
  rw [Memory.read_add, Nat.zero_add, Memory.read_memcpy, Memory.read_memcpy_of_disjoint _ _ (Or.inl (by omega))]

theorem read_memcpy_zero (mem : Memory) (bytes : List UInt8) : (mem.memcpy 0 bytes).read 0 bytes.length = bytes :=
  Memory.read_memcpy mem 0 bytes

/-- An RTP header with this payload type. -/
def retyped (rtpHeader : List UInt8) (plType : UInt8) : List UInt8 :=
  rtpHeader.set 1 ((byteAt rtpHeader 1 &&& 0x80) + plType)

@[simp] theorem retyped_length (rtpHeader : List UInt8) (plType : UInt8) :
    (retyped rtpHeader plType).length = rtpHeader.length :=
  List.length_set ..

theorem byteAt_retyped {rtpHeader : List UInt8} (h : 2 ≤ rtpHeader.length) (plType : UInt8) :
    byteAt (retyped rtpHeader plType) 1 = (byteAt rtpHeader 1 &&& 0x80) + plType := by
  rw [byteAt, retyped, List.getD_eq_getElem?_getD, List.getElem?_set_self (by omega), Option.getD_some]

/-- The payload type is put back behind the marker bit. -/
theorem retype_byte (b r : UInt8) (hr : r < 128) : (((b &&& 0x80) + r) &&& 0x80) + (b &&& 0x7f) = b := by
  rcases top_cases b with ⟨hclear, hlow⟩ | ⟨hset, hlow⟩
  · rw [hclear, UInt8.zero_add, (top_clear_iff r).2 hr, UInt8.zero_add, hlow]
  · rw [hset, top_add hr, or_top, hlow]

theorem retyped_retyped {rtpHeader : List UInt8} (h : 2 ≤ rtpHeader.length) {r : UInt8} (hr : r < 128) :
    retyped (retyped rtpHeader r) (byteAt rtpHeader 1 &&& 0x7f) = rtpHeader := by
  rw [retyped, byteAt_retyped h, retype_byte _ _ hr, retyped, List.set_set, byteAt, List.getD_eq_getElem?_getD,
    List.getElem?_eq_getElem (show 1 < rtpHeader.length by omega), Option.getD_some, List.set_getElem_self]

/-! ## The sender's packets -/

theorem createHeader_bytes (r : RedPacket) {rtpHeader : List UInt8} (h : 2 ≤ rtpHeader.length)
    (redPlType plType : Nat) :
    (r.createHeader rtpHeader redPlType plType).data.read 0 (rtpHeader.length + 1) =
      retyped rtpHeader (UInt8.ofNat redPlType) ++ [UInt8.ofNat plType] := by
  have hcopied : (r.data.memcpy 0 rtpHeader).read 0 rtpHeader.length = rtpHeader := read_memcpy_zero _ _
  have hbyte : (r.data.memcpy 0 rtpHeader) 1 = byteAt rtpHeader 1 := by
    have hin : 0 ≤ 1 ∧ 1 < 0 + rtpHeader.length := by omega
    exact if_pos hin
  have hlast (mem : Memory) (b : UInt8) : (setByte mem rtpHeader.length b).read rtpHeader.length 1 = [b] := by
    simp [Memory.read, setByte]
  have hbefore (mem : Memory) (b : UInt8) :
      (setByte mem rtpHeader.length b).read 0 rtpHeader.length = mem.read 0 rtpHeader.length := by
    rw [read_setByte, List.set_eq_of_length_le (by simp)]
  rw [Memory.read_add, Nat.zero_add]
  unfold RedPacket.createHeader
  dsimp only
  rw [hlast, hbefore, read_setByte, hcopied, hbyte]
  rfl

/-- **The packet around a media packet.** -/
theorem buildRedPacket_bytes (fresh dataBuffer : Memory) (payloadLength redPlType : Nat) {rtpHeaderLength : Nat}
    (h : 2 ≤ rtpHeaderLength) :
    (buildRedPacket fresh dataBuffer payloadLength rtpHeaderLength redPlType).bytes =
      retyped (dataBuffer.read 0 rtpHeaderLength) (UInt8.ofNat redPlType) ++
        (dataBuffer 1 &&& 0x7f) :: dataBuffer.read rtpHeaderLength payloadLength := by
  have hlen : (dataBuffer.read 0 rtpHeaderLength).length = rtpHeaderLength := Memory.read_length _ _ _
  have hcreated := createHeader_bytes (RedPacket.new fresh (payloadLength + redForFecHeaderLength + rtpHeaderLength))
    (show 2 ≤ (dataBuffer.read 0 rtpHeaderLength).length by omega) redPlType (dataBuffer 1 &&& 0x7f).toNat
  rw [hlen, UInt8.ofNat_toNat] at hcreated
  have hpayload := read_memcpy_behind
    ((RedPacket.new fresh (payloadLength + redForFecHeaderLength + rtpHeaderLength)).createHeader
    (dataBuffer.read 0 rtpHeaderLength) redPlType (dataBuffer 1 &&& 0x7f).toNat).data (rtpHeaderLength + 1)
    (dataBuffer.read rtpHeaderLength payloadLength)
  rw [Memory.read_length, hcreated, List.append_assoc, List.singleton_append] at hpayload
  rw [← hpayload]
  have htotal : payloadLength + redForFecHeaderLength + rtpHeaderLength = rtpHeaderLength + 1 + payloadLength := by
    unfold redForFecHeaderLength
    omega
  unfold buildRedPacket RedPacket.bytes RedPacket.assignPayload
  dsimp only [RedPacket.createHeader, RedPacket.new]
  rw [hlen, htotal]

/-- An RTP header with this payload type and sequence number, and without the marker. -/
def fecHeader (rtpHeader : List UInt8) (plType : UInt8) (seqNum : UInt16) : List UInt8 :=
  let numbered := ((retyped rtpHeader plType).set 2 (hi16 seqNum.toNat)).set 3 (lo16 seqNum.toNat)
  numbered.set 1 (byteAt numbered 1 &&& 0x7f)

@[simp] theorem fecHeader_length (rtpHeader : List UInt8) (plType : UInt8) (seqNum : UInt16) :
    (fecHeader rtpHeader plType seqNum).length = rtpHeader.length := by
  simp [fecHeader]

/-- A packet of `getFecPackets`. -/
def fecRedPacket (fresh : Memory) (rtpHeader : List UInt8) (redPlType fecPlType : Nat)
    (sequenceNumber : UInt16) (packet : Packet) :
    RedPacket :=
  let red := (RedPacket.new fresh
    (packet.length + redForFecHeaderLength + rtpHeader.length)).createHeader rtpHeader redPlType fecPlType
  ((red.setSeqNum sequenceNumber).clearMarkerBit).assignPayload (Memory.read packet.data 0 packet.length)

/-- **The packet around a FEC packet.** -/
theorem fecRedPacket_bytes (fresh : Memory) {rtpHeader : List UInt8} (h : 4 ≤ rtpHeader.length)
    (redPlType fecPlType : Nat)
    (sequenceNumber : UInt16) (packet : Packet) :
    (fecRedPacket fresh rtpHeader redPlType fecPlType sequenceNumber packet).bytes =
      fecHeader rtpHeader (UInt8.ofNat redPlType) sequenceNumber ++
        UInt8.ofNat fecPlType :: Memory.read packet.data 0 packet.length := by
  have hcreated := createHeader_bytes (RedPacket.new fresh (packet.length + redForFecHeaderLength + rtpHeader.length))
    (show 2 ≤ rtpHeader.length by omega) redPlType fecPlType
  generalize hr : (RedPacket.new fresh
    (packet.length + redForFecHeaderLength + rtpHeader.length)).createHeader rtpHeader redPlType
    fecPlType = r at hcreated
  have hheader : r.headerLength = rtpHeader.length + 1 := by
    rw [← hr]
    rfl
  have hlength : r.length = rtpHeader.length + 1 + packet.length := by
    rw [← hr]
    simp only [RedPacket.createHeader, RedPacket.new]
    unfold redForFecHeaderLength
    omega
  have hbyte (mem : Memory) {l : List UInt8} (hl : mem.read 0 (rtpHeader.length + 1) = l) : mem 1 = byteAt l 1 := by
    rw [← hl, byteAt, List.getD_eq_getElem?_getD, List.getElem?_eq_getElem (by simp; omega), Option.getD_some]
    simp [Memory.read]
  have hnumbered : (r.setSeqNum sequenceNumber).data.read 0 (rtpHeader.length + 1) =
      (((retyped rtpHeader (UInt8.ofNat redPlType) ++ [UInt8.ofNat fecPlType]).set 2 (hi16 sequenceNumber.toNat)).set 3
        (lo16 sequenceNumber.toNat)) := by
    rw [RedPacket.setSeqNum, read_setByte, read_setByte, hcreated]
  have hcleared : ((r.setSeqNum sequenceNumber).clearMarkerBit).data.read 0 (rtpHeader.length + 1) =
      fecHeader rtpHeader (UInt8.ofNat redPlType) sequenceNumber ++ [UInt8.ofNat fecPlType] := by
    rw [RedPacket.clearMarkerBit, read_setByte, hbyte _ hnumbered, hnumbered, List.set_append_left _ _ (by simp; omega),
      List.set_append_left _ _ (by simp; omega), List.set_append_left _ _ (by simp; omega), fecHeader]
    congr 2
    rw [byteAt, byteAt, List.getD_eq_getElem?_getD, List.getD_eq_getElem?_getD,
      List.getElem?_append_left (by simp; omega)]
  have hpayload := read_memcpy_behind ((r.setSeqNum sequenceNumber).clearMarkerBit).data (rtpHeader.length + 1)
    (Memory.read packet.data 0 packet.length)
  have hlen : (Memory.read packet.data 0 packet.length).length = packet.length := Memory.read_length _ _ _
  rw [hlen, hcleared, List.append_assoc, List.singleton_append] at hpayload
  have hred : fecRedPacket fresh rtpHeader redPlType fecPlType sequenceNumber packet =
      ((r.setSeqNum sequenceNumber).clearMarkerBit).assignPayload (Memory.read packet.data 0 packet.length) := by
    rw [← hr]
    rfl
  rw [← hpayload, hred]
  unfold RedPacket.bytes RedPacket.assignPayload
  have hlength' : ((r.setSeqNum sequenceNumber).clearMarkerBit).length = rtpHeader.length + 1 + packet.length := hlength
  have hheader' : ((r.setSeqNum sequenceNumber).clearMarkerBit).headerLength = rtpHeader.length + 1 := hheader
  rw [hlength', hheader']

/-- The header and the packet lie in the arrays they are read from. -/
def InData (rtpHeaderLength : Nat) (fecPackets : List Packet) : Prop :=
  ∀ packet ∈ fecPackets, rtpHeaderLength ≤ ipPacketSize ∧ packet.length ≤ ipPacketSize

theorem redFecPackets_eq (fresh : Memory) {mediaPacketsFec : List Packet} {lastMediaPacket : Packet}
    (hlast : mediaPacketsFec.getLast? = some lastMediaPacket)
    (redPlType fecPlType : Nat) {rtpHeaderLength : Nat} {fecPackets : List Packet}
    (hin : InData rtpHeaderLength fecPackets) (first : UInt16) :
    redFecPackets fresh mediaPacketsFec redPlType fecPlType rtpHeaderLength fecPackets first =
      some (fecPackets.mapIdx fun k packet => fecRedPacket fresh
        (Memory.read lastMediaPacket.data 0 rtpHeaderLength) redPlType
        fecPlType (first + UInt16.ofNat k) packet) := by
  induction fecPackets generalizing first with
  | nil => rfl
  | cons packet rest ih =>
    obtain ⟨hheader, hpacket⟩ := hin packet List.mem_cons_self
    rw [redFecPackets, hlast]
    simp only [Option.bind_eq_bind, Option.bind_some, dataBytes, if_pos hheader, if_pos hpacket]
    rw [ih fun p hp => hin p (List.mem_cons_of_mem _ hp), Option.bind_some, List.mapIdx_cons]
    have hlen : (Memory.read lastMediaPacket.data 0 rtpHeaderLength).length = rtpHeaderLength :=
      Memory.read_length _ _ _
    congr 2
    · rw [fecRedPacket, hlen]
      simp
    · apply List.ext_getElem
      · simp
      · intro k _ _
        simp only [List.getElem_mapIdx]
        congr 1
        rw [UInt16.add_assoc, UInt16.ofNat_add, UInt16.add_comm (UInt16.ofNat k)]
        rfl

theorem dataBytes_in {packet : Packet} {n : Nat} {bytes : List UInt8} (h : dataBytes packet n = some bytes) :
    n ≤ ipPacketSize := by
  unfold dataBytes at h
  split at h
  · assumption
  · cases h

theorem inData_of_red {fresh : Memory} {mediaPacketsFec : List Packet} {redPlType fecPlType rtpHeaderLength : Nat}
    {fecPackets : List Packet} {first : UInt16} {reds : List RedPacket}
    (h : redFecPackets fresh mediaPacketsFec redPlType fecPlType rtpHeaderLength fecPackets first = some reds) :
    InData rtpHeaderLength fecPackets := by
  induction fecPackets generalizing first reds with
  | nil => exact fun packet hmem => absurd hmem List.not_mem_nil
  | cons packet rest ih =>
    simp only [redFecPackets, Option.bind_eq_bind, Option.bind_eq_some_iff] at h
    obtain ⟨_, _, _, hheader, _, hpayload, _, hrest, _⟩ := h
    rintro p (_ | ⟨_, hp⟩)
    · exact ⟨dataBytes_in hheader, dataBytes_in hpayload⟩
    · exact ih hrest p hp

/-! ## What the receiver reads and writes -/

theorem ok_bind {α β : Type} (a : α) (f : α → Except OutOfBounds β) : (Except.ok a >>= f) = f a := rfl
theorem error_bind {α β : Type} (e : OutOfBounds) (f : α → Except OutOfBounds β) :
    (Except.error e >>= f) = .error e := rfl

theorem byteOf_ok {packet : List UInt8} {k : Nat} {b : UInt8} (h : packet[k]? = some b) : byteOf packet k = .ok b := by
  obtain ⟨hk, hb⟩ := List.getElem?_eq_some_iff.1 h
  rw [byteOf, dif_pos hk, hb]

theorem byteOf_some {packet : List UInt8} {k : Nat} (h : k < packet.length) : ∃ b, byteOf packet k = .ok b :=
  ⟨packet[k], dif_pos h⟩

theorem copyTo_fits {bytes : List UInt8} {off : Nat} (data : Memory) (h : off + bytes.length ≤ ipPacketSize) :
    copyTo data off bytes = .ok (data.memcpy off bytes) :=
  if_pos h

theorem copyTo_outside {bytes : List UInt8} {off : Nat} (data : Memory) (h : ipPacketSize < off + bytes.length) :
    copyTo data off bytes = .error .data :=
  if_neg (Nat.not_le.2 h)

theorem copyTo_cases (data : Memory) (off : Nat) (bytes : List UInt8) :
    (∃ mem, copyTo data off bytes = .ok mem) ∨ copyTo data off bytes = .error .data := by
  rcases Nat.lt_or_ge ipPacketSize (off + bytes.length) with h | h
  · exact Or.inr (copyTo_outside data h)
  · exact Or.inl ⟨_, copyTo_fits data h⟩

theorem slice_append (before mid after : List UInt8) :
    slice (before ++ (mid ++ after)) before.length mid.length = .ok mid := by
  have hin : before.length + mid.length ≤ (before ++ (mid ++ after)).length := by simp
  rw [slice, if_pos hin, List.drop_left, List.take_left]

theorem slice_head (head rest : List UInt8) : slice (head ++ rest) 0 head.length = .ok head :=
  slice_append [] head rest

/-- No read of `n` bytes leaves a packet that has them. -/
theorem slice_some {packet : List UInt8} {off n : Nat} (h : off + n ≤ packet.length) :
    ∃ bytes, slice packet off n = .ok bytes :=
  ⟨_, if_pos h⟩

theorem slice_block (head redHeader block rest : List UInt8) :
    slice (head ++ (redHeader ++ (block ++ rest))) (head.length + redHeader.length) block.length = .ok block := by
  have happ := slice_append (head ++ redHeader) block rest
  rwa [List.length_append, List.append_assoc] at happ

/-- The media data in memory: the header and a block. -/
theorem mediaData_eq {head block : List UInt8} (h : 2 ≤ head.length) (redHeader rest : List UInt8)
    (payloadType : UInt8) (hfits : head.length + block.length ≤ ipPacketSize) :
    ∃ data, mediaData (head ++ (redHeader ++
      (block ++ rest))) head.length redHeader.length block.length payloadType = .ok data ∧
      data.read 0 (head.length + block.length) = retyped head payloadType ++ block := by
  have hbyte : newData.memcpy 0 head 1 = byteAt head 1 := by
    have hin : 0 ≤ 1 ∧ 1 < 0 + head.length := by omega
    exact if_pos hin
  have hcopied : (newData.memcpy 0 head).read 0 head.length = head := read_memcpy_zero _ _
  have hroom : 0 + head.length ≤ ipPacketSize := by omega
  rw [mediaData, slice_head, ok_bind, copyTo_fits _ hroom, ok_bind, slice_block, ok_bind, copyTo_fits _ hfits]
  refine ⟨_, rfl, ?_⟩
  rw [read_memcpy_behind, read_setByte, hbyte, hcopied]
  rfl

/-- The header or the block goes behind `data`. -/
theorem mediaData_outside {head block : List UInt8} (redHeader rest : List UInt8) (payloadType : UInt8)
    (hlong : ipPacketSize < head.length + block.length) :
    mediaData (head ++ (redHeader ++ (block ++ rest))) head.length redHeader.length block.length payloadType =
      .error .data := by
  rw [mediaData, slice_head, ok_bind]
  rcases copyTo_cases newData 0 head with ⟨mem, hmem⟩ | hmem
  · rw [hmem, ok_bind, slice_block, ok_bind, copyTo_outside _ hlong]
  · rw [hmem, error_bind]

/-- The header of a packet as it is parsed. -/
def parsedHeader (packet : List UInt8) (headerLength : Nat) : RtpHeader :=
  ⟨headerLength, UInt16.ofNat (read16 (byteAt packet 2) (byteAt packet 3))⟩

/-- A received packet has these bytes, no more and no less. -/
structure Carries (received : ReceivedPacket) (isFec : Bool) (seqNum : UInt16) (bytes : List UInt8) : Prop where
  isFec : received.isFec = isFec
  seqNum : received.seqNum = seqNum
  bytes : Memory.read received.pkt.data 0 received.pkt.length = bytes

/-- The receiver after these packets came in one RED packet. -/
def FecReceiver.queued (s : FecReceiver) (received : List ReceivedPacket) (numFecPackets : Nat) : FecReceiver :=
  { receivedPacketList := s.receivedPacketList ++ received, numPackets := s.numPackets + 1
    numFecPackets := s.numFecPackets + numFecPackets }

theorem one_block {red : UInt8} (h : red < 128) : red &&& 0x80 = 0 ∧ red &&& 0x7f = red :=
  ⟨(top_clear_iff red).2 h, low7_of_lt h⟩

section
variable {unset : UInt32} {s : FecReceiver} {head body : List UInt8} {red ulpfecPayloadType : UInt8}

theorem byteOf_red (head body : List UInt8) (red : UInt8) : byteOf (head ++ red :: body) head.length = .ok red :=
  byteOf_ok (by simp)

/-- What the receiver does with a block that is not FEC. -/
theorem media_step (seqNum : UInt16) (hhead : 12 ≤ head.length) (hred : red < 128) (hmedia : red ≠ ulpfecPayloadType) :
    addReceivedRedPacket unset s ⟨head.length, seqNum⟩ (head ++ red :: body) ulpfecPayloadType =
      (mediaData (head ++ ([red] ++ (body ++ []))) head.length 1 body.length red).map fun data =>
        (0, s.queued [⟨seqNum, unset, false, ⟨head.length + body.length, data⟩⟩] 0) := by
  obtain ⟨hclear, htype⟩ := one_block hred
  have hne : ¬ (head ++ red :: body).length = head.length := by simp
  have hbody : (head ++ red :: body).length - head.length - 1 = body.length := by simp
  have hlength : head.length + ((head ++ red :: body).length - head.length) - 1 = head.length + body.length := by simp
  have hnotFec : (red == ulpfecPayloadType) = false := by simp [hmedia]
  have hzero : ¬ head.length + body.length = 0 := by omega
  rw [addReceivedRedPacket, if_neg hne, List.append_nil, List.singleton_append]
  simp only [byteOf_red, ok_bind, redHeader, hclear, htype, hnotFec, hbody, hlength, hzero, if_true, if_false,
    Nat.lt_irrefl, Bool.false_eq_true, FecReceiver.queued, Nat.add_zero, gt_iff_lt]
  cases mediaData (head ++ red :: body) head.length 1 body.length red <;> rfl

/-- **A media packet.** -/
theorem received_media (unset : UInt32) (s : FecReceiver) (hhead : 12 ≤ head.length)
    (hfits : head.length + body.length ≤ ipPacketSize) (seqNum : UInt16) (hred : red < 128)
    (hmedia : red ≠ ulpfecPayloadType) :
    ∃ received, addReceivedRedPacket unset s ⟨head.length, seqNum⟩ (head ++ red :: body) ulpfecPayloadType =
        .ok (0, s.queued [received] 0) ∧ Carries received false seqNum (retyped head red ++ body) := by
  obtain ⟨data, hdata, hread⟩ := mediaData_eq (by omega : 2 ≤ head.length) [red] [] red hfits
  rw [List.length_singleton] at hdata
  refine ⟨⟨seqNum, unset, false, ⟨head.length + body.length, data⟩⟩, ?_, rfl, rfl, hread⟩
  rw [media_step seqNum hhead hred hmedia, hdata]
  rfl

theorem media_outside (hhead : 12 ≤ head.length) (hlong : ipPacketSize < head.length + body.length) (seqNum : UInt16)
    (hred : red < 128) (hmedia : red ≠ ulpfecPayloadType) :
    addReceivedRedPacket unset s ⟨head.length, seqNum⟩ (head ++ red :: body) ulpfecPayloadType = .error .data := by
  have hdata := mediaData_outside [red] [] red hlong
  rw [List.length_singleton] at hdata
  rw [media_step seqNum hhead hred hmedia, hdata]
  rfl

/-- **A FEC packet.** -/
theorem received_fec (unset : UInt32) (s : FecReceiver) (hhead : 12 ≤ head.length) (hbody : body ≠ [])
    (hfits : body.length ≤ ipPacketSize) (seqNum : UInt16) (hred : red < 128) :
    ∃ received, addReceivedRedPacket unset s ⟨head.length, seqNum⟩ (head ++ red :: body) red =
      .ok (0, s.queued [received] 1) ∧
      Carries received true seqNum body := by
  obtain ⟨hclear, htype⟩ := one_block hred
  have hne : ¬ (head ++ red :: body).length = head.length := by simp
  have hrest : (head ++ red :: body).length - head.length - 1 = body.length := by simp
  have hzero : ¬ body.length = 0 := by simp [hbody]
  have hpayload : slice (head ++ red :: body) (head.length + 1) body.length = .ok body := by
    have happ := slice_block head [red] body []
    rwa [List.append_nil, List.singleton_append, List.length_singleton] at happ
  have hroom : 0 + body.length ≤ ipPacketSize := by omega
  obtain ⟨ssrc, hssrc⟩ := slice_some (show 8 + 4 ≤ (head ++ red :: body).length by simp; omega)
  refine ⟨⟨seqNum, read32At ssrc 0, true, ⟨body.length, newData.memcpy 0 body⟩⟩, ?_, rfl,
    rfl, read_memcpy_zero _ _⟩
  rw [addReceivedRedPacket, if_neg hne]
  simp only [byteOf_red, ok_bind, redHeader, hclear, htype, beq_self_eq_true, hrest, hpayload, copyTo_fits _ hroom,
    hssrc, hzero, if_true, if_false, Nat.lt_irrefl, FecReceiver.queued, gt_iff_lt]

end

/-! ## Two blocks -/

/-- The RED headers of a media block of this length and a FEC block behind it. -/
def twoHeaders (payloadType fecPlType : UInt8) (blockLength : Nat) : List UInt8 :=
  [0x80 + payloadType, 0, hi16 blockLength, lo16 blockLength, fecPlType]

theorem first_of_two {payloadType : UInt8} (h : payloadType < 128) :
    (0x80 + payloadType) &&& 0x80 ≠ 0 ∧ (0x80 + payloadType) &&& 0x7f = payloadType := by
  rw [top_add h]
  exact ⟨or_top_ne payloadType, low7_or_top h⟩

/-- The timestamp offset and the block length that are read back. -/
theorem block_fields {blockLength : Nat} (h : blockLength ≤ 1023) :
    read16 0 (hi16 blockLength) / 4 = 0 ∧ read16 (0x03 &&& hi16 blockLength) (lo16 blockLength) = blockLength := by
  have hhi : hi16 blockLength < 4 := by
    rw [UInt8.lt_iff_toNat_lt, hi16, UInt8.toNat_ofNat']
    have : (4 : UInt8).toNat = 4 := rfl
    omega
  have hlow : ∀ b : UInt8, b < 4 → read16 0 b / 4 = 0 ∧ 0x03 &&& b = b := by decide +kernel
  obtain ⟨hoffset, hmask⟩ := hlow _ hhi
  refine ⟨hoffset, ?_⟩
  rw [hmask, read16_write]
  omega

theorem redHeader_two {head block fec : List UInt8} {payloadType fecPlType : UInt8} (hblock : block.length ≤ 1023)
    (htype : payloadType < 128) (hfec : fecPlType < 128) :
    redHeader (head ++ (twoHeaders payloadType fecPlType block.length ++ (block ++ fec))) head.length
      (5 + block.length + fec.length) (0x80 + payloadType) = .ok (some (4, block.length)) := by
  obtain ⟨hset, _⟩ := first_of_two htype
  obtain ⟨hoffset, hlength⟩ := block_fields hblock
  have hat (k : Nat) {b : UInt8} (hb : (twoHeaders payloadType fecPlType block.length ++ (block ++ fec))[k]? = some b) :
      byteOf (head ++ (twoHeaders payloadType fecPlType block.length ++ (block ++ fec))) (head.length + k) = .ok b := by
    apply byteOf_ok
    rw [List.getElem?_append_right (by omega), Nat.add_sub_cancel_left, hb]
  have hlong : ¬ 5 + block.length + fec.length < 4 + 1 := by omega
  have hfits : ¬ block.length > 5 + block.length + fec.length - (4 + 1) := by omega
  have hlast : ¬ fecPlType &&& 0x80 ≠ 0 := not_not_intro (one_block hfec).1
  rw [redHeader, if_neg hset, if_neg hlong, hat 1 rfl, ok_bind, hat 2 rfl, ok_bind, hoffset,
    if_neg (not_not_intro rfl), hat 3 rfl, ok_bind, hat 4 rfl, ok_bind,
    hlength, if_neg hlast, if_neg hfits]

section
variable {unset : UInt32} {s : FecReceiver} {head block fec : List UInt8} {payloadType ulpfecPayloadType : UInt8}

/-- What the receiver does with two blocks. -/
theorem two_step (seqNum : UInt16) (hsome : block ≠ []) (hblock : block.length ≤ 1023) (htype : payloadType < 128)
    (hmedia : payloadType ≠ ulpfecPayloadType) (hfec : ulpfecPayloadType < 128) :
    addReceivedRedPacket unset s ⟨head.length, seqNum⟩
        (head ++ (twoHeaders payloadType ulpfecPayloadType block.length ++ (block ++ fec))) ulpfecPayloadType =
      (do
        let data ← mediaData (head ++ (twoHeaders payloadType ulpfecPayloadType block.length ++ (block ++ fec)))
          head.length (twoHeaders payloadType ulpfecPayloadType block.length).length block.length payloadType
        let fecData ← copyTo newData 0 fec
        .ok (0, s.queued [⟨seqNum, unset, false, ⟨block.length, data⟩⟩,
          ⟨seqNum, unset, true, ⟨fec.length, fecData⟩⟩] 1)) := by
  obtain ⟨hset, hlow⟩ := first_of_two htype
  have hlen : (head ++ (twoHeaders payloadType ulpfecPayloadType block.length ++ (block ++ fec))).length =
      head.length + (5 + block.length + fec.length) := by
    simp [twoHeaders]
    omega
  have hne : ¬ head.length + (5 + block.length + fec.length) = head.length := by omega
  have hat : byteOf (head ++ (twoHeaders payloadType ulpfecPayloadType block.length ++ (block ++ fec))) head.length =
      .ok (0x80 + payloadType) :=
    byteOf_red head _ (0x80 + payloadType)
  have hpayload : slice (head ++ (twoHeaders payloadType ulpfecPayloadType block.length ++ (block ++ fec)))
      (head.length + 5 + block.length) fec.length = .ok fec := by
    have happ := slice_block head (twoHeaders payloadType ulpfecPayloadType block.length ++ block) fec []
    rwa [List.append_nil, List.append_assoc, List.length_append, ← Nat.add_assoc] at happ
  have hnotFec : (payloadType == ulpfecPayloadType) = false := by simp [hmedia]
  have hpos : 0 < block.length := List.length_pos_of_ne_nil hsome
  have hdataLength : head.length + (5 + block.length + fec.length) - head.length =
      5 + block.length + fec.length := by omega
  have hrest : 5 + block.length + fec.length - 5 - block.length = fec.length := by omega
  have htwo : (twoHeaders payloadType ulpfecPayloadType block.length).length = 5 := rfl
  rw [addReceivedRedPacket, hlen, if_neg hne, htwo]
  simp only [hat, ok_bind, hlow, hnotFec, hdataLength, redHeader_two hblock htype hfec, hpos, hrest, hpayload, if_true,
    FecReceiver.queued, gt_iff_lt]

/-- **Two blocks.** The media packet has the right bytes, but the length of its block alone. -/
theorem received_two (unset : UInt32) (s : FecReceiver) (hhead : 12 ≤ head.length)
    (hroom : head.length + block.length ≤ ipPacketSize) (hfecRoom : fec.length ≤ ipPacketSize) (seqNum : UInt16)
    (hsome : block ≠ []) (hblock : block.length ≤ 1023) (htype : payloadType < 128)
    (hmedia : payloadType ≠ ulpfecPayloadType) (hfec : ulpfecPayloadType < 128) :
    ∃ media second, addReceivedRedPacket unset s ⟨head.length, seqNum⟩
        (head ++ (twoHeaders payloadType ulpfecPayloadType block.length ++ (block ++ fec))) ulpfecPayloadType =
          .ok (0, s.queued [media, second] 1) ∧
      media.isFec = false ∧ media.seqNum = seqNum ∧ media.pkt.length = block.length ∧
      Memory.read media.pkt.data 0 (head.length + block.length) = retyped head payloadType ++ block ∧
      Carries second true seqNum fec := by
  obtain ⟨data, hdata, hread⟩ := mediaData_eq (by omega : 2 ≤ head.length)
    (twoHeaders payloadType ulpfecPayloadType block.length) fec payloadType hroom
  refine ⟨⟨seqNum, unset, false, ⟨block.length, data⟩⟩,
    ⟨seqNum, unset, true, ⟨fec.length, newData.memcpy 0 fec⟩⟩, ?_, rfl, rfl, rfl, hread,
      rfl, rfl, read_memcpy_zero _ _⟩
  rw [two_step seqNum hsome hblock htype hmedia hfec, hdata, ok_bind, copyTo_fits _ (by omega), ok_bind]

/-- Whatever else is with them, the media packet of two blocks has the length of its block. -/
theorem two_length {seqNum : UInt16} {r : Int} {s' : FecReceiver} (hsome : block ≠ []) (hblock : block.length ≤ 1023)
    (htype : payloadType < 128) (hmedia : payloadType ≠ ulpfecPayloadType) (hfec : ulpfecPayloadType < 128)
    (h : addReceivedRedPacket unset s ⟨head.length, seqNum⟩
      (head ++ (twoHeaders payloadType ulpfecPayloadType block.length ++ (block ++ fec))) ulpfecPayloadType =
        .ok (r, s')) :
    ∃ media second, s' = s.queued [media, second] 1 ∧ media.pkt.length = block.length := by
  rw [two_step seqNum hsome hblock htype hmedia hfec] at h
  cases hdata : mediaData (head ++ (twoHeaders payloadType ulpfecPayloadType block.length ++ (block ++ fec)))
    head.length (twoHeaders payloadType ulpfecPayloadType block.length).length block.length payloadType with
  | error e =>
    rw [hdata, error_bind] at h
    cases h
  | ok data =>
    rw [hdata, ok_bind] at h
    rcases copyTo_cases newData 0 fec with ⟨mem, hmem⟩ | hmem
    · rw [hmem, ok_bind] at h
      cases h
      exact ⟨_, _, rfl, rfl⟩
    · rw [hmem, error_bind] at h
      cases h

end

/-! ## Every packet -/

/-- What the RED header says of the blocks lies in the packet. -/
theorem redHeader_fits {packet : List UInt8} {headerLength : Nat} (red : UInt8) (h : headerLength < packet.length) :
    redHeader packet headerLength (packet.length - headerLength) red = .ok none ∨
      redHeader packet headerLength (packet.length - headerLength) red = .ok (some (1, 0)) ∨
      ∃ blockLength, redHeader packet headerLength (packet.length - headerLength) red = .ok (some (4, blockLength)) ∧
        headerLength + 5 + blockLength ≤ packet.length := by
  unfold redHeader
  split
  · exact Or.inr (Or.inl rfl)
  split
  · exact Or.inl rfl
  rename_i hlong
  obtain ⟨b1, h1⟩ := byteOf_some (show headerLength + 1 < packet.length by omega)
  obtain ⟨b2, h2⟩ := byteOf_some (show headerLength + 2 < packet.length by omega)
  obtain ⟨b3, h3⟩ := byteOf_some (show headerLength + 3 < packet.length by omega)
  obtain ⟨b4, h4⟩ := byteOf_some (show headerLength + 4 < packet.length by omega)
  simp only [h1, h2, h3, h4, ok_bind]
  split
  · exact Or.inl rfl
  split
  · exact Or.inl rfl
  split
  · exact Or.inl rfl
  · rename_i hfits
    exact Or.inr (Or.inr ⟨_, rfl, by omega⟩)

/-- It comes to an end, or it writes behind `data`. -/
def ReadsInside {α : Type} (r : Except OutOfBounds α) : Prop := r ≠ .error .received

theorem readsInside_ok {α : Type} (a : α) : ReadsInside (.ok a : Except OutOfBounds α) := nofun

theorem ReadsInside.bind {α β : Type} {r : Except OutOfBounds α} {f : α → Except OutOfBounds β}
    (hr : ReadsInside r) (hf : ∀ a, ReadsInside (f a)) : ReadsInside (r >>= f) := by
  cases r with
  | error e =>
    rw [error_bind]
    exact fun he => hr (congrArg Except.error (Except.error.inj he))
  | ok a => exact hf a

theorem slice_inside {packet : List UInt8} {off n : Nat} (h : off + n ≤ packet.length) :
    ReadsInside (slice packet off n) := by
  rw [slice, if_pos h]
  exact readsInside_ok _

theorem copyTo_inside (data : Memory) (off : Nat) (bytes : List UInt8) : ReadsInside (copyTo data off bytes) := by
  rcases copyTo_cases data off bytes with ⟨mem, hmem⟩ | hmem
  · rw [hmem]
    exact readsInside_ok _
  · rw [hmem]
    exact nofun

theorem mediaData_inside {packet : List UInt8} {headerLength redHeaderLength n : Nat} (payloadType : UInt8)
    (h : headerLength + redHeaderLength + n ≤ packet.length) :
    ReadsInside (mediaData packet headerLength redHeaderLength n payloadType) :=
  (slice_inside (by omega)).bind fun _ => (copyTo_inside _ _ _).bind fun _ =>
    (slice_inside h).bind fun _ => copyTo_inside _ _ _

/-- **No read leaves the packet**, whatever is in it. -/
theorem addReceivedRedPacket_reads (unset : UInt32) (s : FecReceiver) {header : RtpHeader} {packet : List UInt8}
    (ulpfecPayloadType : UInt8) (hrtp : 12 ≤ header.headerLength) (hlong : header.headerLength ≤ packet.length) :
    ReadsInside (addReceivedRedPacket unset s header packet ulpfecPayloadType) := by
  unfold addReceivedRedPacket
  split
  · exact readsInside_ok _
  rename_i hne
  obtain ⟨red, hred⟩ := byteOf_some (show header.headerLength < packet.length by omega)
  have hssrc : ReadsInside (slice packet 8 4) := slice_inside (by omega)
  rw [hred, ok_bind]
  -- the three blocks that are copied lie in the packet, one byte or five behind the header
  have hone {payloadType : UInt8} : ReadsInside (mediaData packet header.headerLength 1
      (packet.length - header.headerLength - 1) payloadType) := mediaData_inside _ (by omega)
  have hfec : ReadsInside (slice packet (header.headerLength + 1) (packet.length - header.headerLength - 1)) :=
    slice_inside (by omega)
  rcases redHeader_fits red (show header.headerLength < packet.length by omega) with hh | hh | ⟨blockLength, hh, hfits⟩
  · simp only [hh, ok_bind]
    exact readsInside_ok _
  · simp only [hh, ok_bind, gt_iff_lt, Nat.lt_irrefl, if_false]
    split
    · refine hfec.bind fun _ => (copyTo_inside _ _ _).bind fun _ => hssrc.bind fun _ => ?_
      split <;> exact readsInside_ok _
    · refine hone.bind fun _ => ?_
      split <;> exact readsInside_ok _
  · simp only [hh, ok_bind]
    split
    · refine (mediaData_inside _ hfits).bind fun _ => (slice_inside (by omega)).bind fun _ =>
        (copyTo_inside _ _ _).bind fun _ => readsInside_ok _
    split
    · refine (slice_inside (by omega)).bind fun _ => (copyTo_inside _ _ _).bind fun _ => hssrc.bind fun _ => ?_
      split <;> exact readsInside_ok _
    · refine (mediaData_inside _ (by omega)).bind fun _ => ?_
      split <;> exact readsInside_ok _

/-- A packet for the receiver, and how it was made: by the two functions of the sender, or with two blocks. -/
inductive RedInput where
  | media (fresh dataBuffer : Memory) (payloadLength rtpHeaderLength redPlType : Nat)
  | fec (fresh : Memory) (producer : ProducerFec) (redPlType : Nat) (firstSeqNum : UInt16) (rtpHeaderLength : Nat)
  | twoBlocks (rtpHeader : List UInt8) (payloadType : UInt8) (block fecBlock : List UInt8)

namespace RedInput

def WellFormed (ulpfecPayloadType : UInt8) : RedInput → Prop
  | media _ dataBuffer payloadLength rtpHeaderLength redPlType =>
    12 ≤ rtpHeaderLength ∧ 0 < payloadLength ∧ redPlType < 128 ∧ dataBuffer 1 &&& 0x7f ≠ ulpfecPayloadType
  | fec _ producer redPlType _ rtpHeaderLength =>
    12 ≤ rtpHeaderLength ∧ redPlType < 128 ∧ ulpfecPayloadType < 128 ∧ producer.mediaPacketsFec ≠ [] ∧
      ∀ packet ∈ producer.fecPackets, 0 < packet.length
  | twoBlocks rtpHeader payloadType block _ =>
    12 ≤ rtpHeader.length ∧ payloadType < 128 ∧ ulpfecPayloadType < 128 ∧ payloadType ≠ ulpfecPayloadType ∧
      block ≠ [] ∧ block.length ≤ 1023

/-- The receiver queues what went into the packet. -/
def Undone (unset : UInt32) (s : FecReceiver) (ulpfecPayloadType : UInt8) : RedInput → Prop
  | media fresh dataBuffer payloadLength rtpHeaderLength redPlType =>
    let packet := (buildRedPacket fresh dataBuffer payloadLength rtpHeaderLength redPlType).bytes
    ∃ received, addReceivedRedPacket unset s (parsedHeader packet rtpHeaderLength) packet ulpfecPayloadType =
        .ok (0, s.queued [received] 0) ∧
      Carries received false (UInt16.ofNat (read16 (dataBuffer 2) (dataBuffer 3)))
        (dataBuffer.read 0 (rtpHeaderLength + payloadLength))
  | fec fresh producer redPlType firstSeqNum rtpHeaderLength =>
    ∃ sent left, getFecPackets fresh producer redPlType ulpfecPayloadType.toNat firstSeqNum rtpHeaderLength
      = some (sent, left) ∧
      sent.length = producer.fecPackets.length ∧
      ∀ k packet red, producer.fecPackets[k]? = some packet → sent[k]? = some red →
        ∃ received, addReceivedRedPacket unset s (parsedHeader red.bytes rtpHeaderLength) red.bytes ulpfecPayloadType =
            .ok (0, s.queued [received] 1) ∧
          Carries received true (firstSeqNum + UInt16.ofNat k) (Memory.read packet.data 0 packet.length)
  | twoBlocks rtpHeader payloadType block fecBlock =>
    let packet := rtpHeader ++ (twoHeaders payloadType ulpfecPayloadType block.length ++ (block ++ fecBlock))
    ∃ media second, addReceivedRedPacket unset s (parsedHeader packet rtpHeader.length) packet ulpfecPayloadType =
        .ok (0, s.queued [media, second] 1) ∧
      Carries media false (read16At rtpHeader 2) (retyped rtpHeader payloadType ++ block) ∧
      Carries second true (read16At rtpHeader 2) fecBlock

/-- One block, and every packet that is read or restored has room in `data`. -/
def OneBlockFits : RedInput → Prop
  | media _ _ payloadLength rtpHeaderLength _ => rtpHeaderLength + payloadLength ≤ ipPacketSize
  | fec _ producer _ _ rtpHeaderLength => InData rtpHeaderLength producer.fecPackets
  | twoBlocks .. => False

end RedInput

theorem byteAt_append_left {l : List UInt8} (rest : List UInt8) {k : Nat} (h : k < l.length) :
    byteAt (l ++ rest) k = byteAt l k := by
  rw [byteAt, byteAt, List.getD_eq_getElem?_getD, List.getD_eq_getElem?_getD, List.getElem?_append_left h]

theorem byteAt_retyped_ne (l : List UInt8) (plType : UInt8) {k : Nat} (h : k ≠ 1) :
    byteAt (retyped l plType) k = byteAt l k := by
  rw [byteAt, byteAt, retyped, List.getD_eq_getElem?_getD, List.getD_eq_getElem?_getD, List.getElem?_set_ne (Ne.symm h)]

theorem byteAt_read (mem : Memory) {k n : Nat} (h : k < n) : byteAt (mem.read 0 n) k = mem k := by
  rw [byteAt, List.getD_eq_getElem?_getD, List.getElem?_eq_getElem (by simpa using h), Option.getD_some]
  simp [Memory.read]

theorem byteAt_fecHeader {rtpHeader : List UInt8} (h : 4 ≤ rtpHeader.length) (plType : UInt8) (seqNum : UInt16) :
    byteAt (fecHeader rtpHeader plType seqNum) 2 = hi16 seqNum.toNat ∧
      byteAt (fecHeader rtpHeader plType seqNum) 3 = lo16 seqNum.toNat := by
  simp only [fecHeader, byteAt, List.getD_eq_getElem?_getD]
  constructor
  · rw [List.getElem?_set_ne (by omega), List.getElem?_set_ne (by omega), List.getElem?_set_self
      (by simp; omega), Option.getD_some]
  · rw [List.getElem?_set_ne (by omega), List.getElem?_set_self (by simp; omega), Option.getD_some]

theorem media_undone (unset : UInt32) (s : FecReceiver) {ulpfecPayloadType : UInt8} (fresh : Memory)
    {dataBuffer : Memory}
    (payloadLength : Nat) {rtpHeaderLength redPlType : Nat} (hrtp : 12 ≤ rtpHeaderLength) (hred : redPlType < 128)
    (hmedia : dataBuffer 1 &&& 0x7f ≠ ulpfecPayloadType) :
    (RedInput.media fresh dataBuffer payloadLength rtpHeaderLength redPlType).Undone unset s ulpfecPayloadType ↔
      rtpHeaderLength + payloadLength ≤ ipPacketSize := by
  have hlen : (dataBuffer.read 0 rtpHeaderLength).length = rtpHeaderLength := Memory.read_length _ _ _
  have htype : dataBuffer 1 &&& 0x7f < 128 := low7_lt _
  have hredType : UInt8.ofNat redPlType < 128 := by
    rw [UInt8.lt_iff_toNat_lt, UInt8.toNat_ofNat']
    have : (128 : UInt8).toNat = 128 := rfl
    omega
  have hbytes := buildRedPacket_bytes fresh dataBuffer payloadLength redPlType (show 2 ≤ rtpHeaderLength by omega)
  have hhead : 12 ≤ (retyped (dataBuffer.read 0 rtpHeaderLength) (UInt8.ofNat redPlType)).length := by
    rw [retyped_length, hlen]
    exact hrtp
  have hpayload : (dataBuffer.read rtpHeaderLength payloadLength).length = payloadLength := Memory.read_length _ _ _
  have hheadLength : (retyped (dataBuffer.read 0 rtpHeaderLength) (UInt8.ofNat redPlType)).length =
    rtpHeaderLength := by
    rw [retyped_length, hlen]
  have hback : retyped (retyped (dataBuffer.read 0 rtpHeaderLength) (UInt8.ofNat redPlType)) (dataBuffer 1 &&& 0x7f) =
      dataBuffer.read 0 rtpHeaderLength := by
    rw [← byteAt_read dataBuffer (by omega : 1 < rtpHeaderLength)]
    exact retyped_retyped (by omega) hredType
  have hparsed : parsedHeader (buildRedPacket fresh dataBuffer payloadLength rtpHeaderLength
    redPlType).bytes rtpHeaderLength =
      ⟨rtpHeaderLength, UInt16.ofNat (read16 (dataBuffer 2) (dataBuffer 3))⟩ := by
    rw [parsedHeader, hbytes, byteAt_append_left _ (by simp; omega), byteAt_append_left _ (by simp; omega),
      byteAt_retyped_ne _ _ (by omega), byteAt_retyped_ne _ _ (by omega), byteAt_read _ (by omega),
        byteAt_read _ (by omega)]
  have hsplit : dataBuffer.read 0 (rtpHeaderLength + payloadLength) =
      dataBuffer.read 0 rtpHeaderLength ++ dataBuffer.read rtpHeaderLength payloadLength := by
    rw [Memory.read_add, Nat.zero_add]
  constructor
  · rintro ⟨received, hadd, -⟩
    by_contra hlong
    have hout := @media_outside unset s _ (dataBuffer.read rtpHeaderLength payloadLength) _ ulpfecPayloadType hhead
      (by omega) (UInt16.ofNat (read16 (dataBuffer 2) (dataBuffer 3))) htype hmedia
    rw [hheadLength] at hout
    rw [hparsed, hbytes, hout] at hadd
    cases hadd
  · intro hfits
    obtain ⟨received, hadd, hcarries⟩ := received_media unset s hhead
      (show _ + (dataBuffer.read rtpHeaderLength payloadLength).length ≤ ipPacketSize by omega)
      (UInt16.ofNat (read16 (dataBuffer 2) (dataBuffer 3))) htype hmedia
    rw [hback, ← hsplit] at hcarries
    rw [hheadLength] at hadd
    refine ⟨received, ?_, hcarries⟩
    rw [hparsed, hbytes]
    exact hadd

theorem fec_undone (unset : UInt32) (s : FecReceiver) {ulpfecPayloadType : UInt8} (fresh : Memory)
    {producer : ProducerFec}
    (redPlType : Nat) (firstSeqNum : UInt16) {rtpHeaderLength : Nat} (hrtp : 12 ≤ rtpHeaderLength)
    (hfec : ulpfecPayloadType < 128)
    (hmedia : producer.mediaPacketsFec ≠ []) (hsome : ∀ packet ∈ producer.fecPackets, 0 < packet.length)
    (hin : InData rtpHeaderLength producer.fecPackets) :
    (RedInput.fec fresh producer redPlType firstSeqNum rtpHeaderLength).Undone unset s ulpfecPayloadType := by
  have hlast := List.getLast?_eq_some_getLast hmedia
  refine ⟨_, _, by rw [getFecPackets, redFecPackets_eq fresh hlast _ _ hin, Option.map_some], ?_, ?_⟩
  · simp
  · intro k packet red hpacket hred
    rw [List.getElem?_mapIdx, hpacket, Option.map_some, Option.some.injEq] at hred
    subst hred
    have hpos := hsome packet (List.mem_of_getElem? hpacket)
    have hlen : (Memory.read (producer.mediaPacketsFec.getLast hmedia).data 0 rtpHeaderLength).length =
      rtpHeaderLength :=
      Memory.read_length _ _ _
    generalize Memory.read (producer.mediaPacketsFec.getLast hmedia).data 0 rtpHeaderLength = rtpHeader at hlen
    have hshort : 4 ≤ rtpHeader.length := by omega
    have hpayload : (Memory.read packet.data 0 packet.length).length = packet.length := Memory.read_length _ _ _
    have hbytes := fecRedPacket_bytes fresh hshort redPlType ulpfecPayloadType.toNat
      (firstSeqNum + UInt16.ofNat k) packet
    rw [UInt8.ofNat_toNat] at hbytes
    obtain ⟨hhi, hlo⟩ := byteAt_fecHeader hshort (UInt8.ofNat redPlType) (firstSeqNum + UInt16.ofNat k)
    have hparsed : parsedHeader (fecRedPacket fresh rtpHeader redPlType ulpfecPayloadType.toNat
      (firstSeqNum + UInt16.ofNat k)
        packet).bytes rtpHeaderLength = ⟨rtpHeaderLength, firstSeqNum + UInt16.ofNat k⟩ := by
      rw [parsedHeader, hbytes, byteAt_append_left _ (by simp; omega), byteAt_append_left _
        (by simp; omega), hhi, hlo, read16_write,
        Nat.mod_eq_of_lt (UInt16.toNat_lt _), UInt16.ofNat_toNat]
    have hhead : 12 ≤ (fecHeader rtpHeader (UInt8.ofNat redPlType) (firstSeqNum + UInt16.ofNat k)).length := by
      rw [fecHeader_length, hlen]
      exact hrtp
    have hne : Memory.read packet.data 0 packet.length ≠ [] := List.ne_nil_of_length_pos (by omega)
    have hfits : (Memory.read packet.data 0 packet.length).length ≤ ipPacketSize := by
      rw [hpayload]
      exact (hin packet (List.mem_of_getElem? hpacket)).2
    obtain ⟨received, hadd, hcarries⟩ := received_fec unset s hhead hne hfits (firstSeqNum + UInt16.ofNat k) hfec
    rw [fecHeader_length, hlen] at hadd
    refine ⟨received, ?_, hcarries⟩
    rw [hparsed, hbytes]
    exact hadd

/-- With two blocks the media packet ends before its last bytes. -/
theorem two_not_undone (unset : UInt32) (s : FecReceiver) {rtpHeader block : List UInt8} (fecBlock : List UInt8)
    {payloadType ulpfecPayloadType : UInt8} (hrtp : 12 ≤ rtpHeader.length)
    (htype : payloadType < 128) (hfec : ulpfecPayloadType < 128)
    (hmedia : payloadType ≠ ulpfecPayloadType) (hsome : block ≠ []) (hblock : block.length ≤ 1023) :
    ¬ (RedInput.twoBlocks rtpHeader payloadType block fecBlock).Undone unset s ulpfecPayloadType := by
  rintro ⟨media, second, hadd, ⟨_, _, hbytes⟩, _⟩
  obtain ⟨media', second', hqueued, hlength⟩ := two_length hsome hblock htype hmedia hfec hadd
  have hmediaSame : media = media' := by
    have hlist := congrArg FecReceiver.receivedPacketList hqueued
    simp only [FecReceiver.queued, List.append_cancel_left_eq, List.cons.injEq] at hlist
    exact hlist.1
  have hread : (Memory.read media.pkt.data 0 media.pkt.length).length = media.pkt.length := Memory.read_length _ _ _
  have hlen := congrArg List.length hbytes
  rw [hread, List.length_append, retyped_length, hmediaSame, hlength] at hlen
  omega

/-- **The receiver undoes the RED encapsulation** of the packets that carry one block, as long as they fit. -/
theorem addReceivedRedPacket_undoes (unset : UInt32) (s : FecReceiver) {ulpfecPayloadType : UInt8} {input : RedInput}
    (hwf : input.WellFormed ulpfecPayloadType) : input.Undone unset s ulpfecPayloadType ↔ input.OneBlockFits := by
  cases input with
  | media fresh dataBuffer payloadLength rtpHeaderLength redPlType =>
    obtain ⟨hrtp, _, hred, hmedia⟩ := hwf
    exact media_undone unset s fresh payloadLength hrtp hred hmedia
  | fec fresh producer redPlType firstSeqNum rtpHeaderLength =>
    obtain ⟨hrtp, _, hfec, hmedia, hsome⟩ := hwf
    refine ⟨fun h => ?_, fun h => fec_undone unset s fresh redPlType firstSeqNum hrtp hfec hmedia hsome h⟩
    obtain ⟨sent, left, hsent, -⟩ := h
    obtain ⟨reds, hreds, -⟩ := Option.map_eq_some_iff.1 hsent
    exact inData_of_red hreds
  | twoBlocks rtpHeader payloadType block fecBlock =>
    obtain ⟨hrtp, htype, hfec, hmedia, hsome, hblock⟩ := hwf
    exact ⟨fun h => two_not_undone unset s fecBlock hrtp htype hfec hmedia hsome hblock h, fun h => h.elim⟩

/-- A VP8 packet of twelve header bytes, with a payload of the largest size that fits and with one byte more. -/
theorem addReceivedRedPacket_undoes_vp8 :
    (RedInput.media (fun _ => 0) (fun p => if p = 0 then 0x80 else if p = 1 then 0x80 + 100
      else 7) 1488 12 116).Undone 0
      ⟨[], 0, 0⟩ 117 ∧
    ¬ (RedInput.media (fun _ => 0) (fun p => if p = 0 then 0x80 else if p = 1 then 0x80 + 100
      else 7) 1489 12 116).Undone 0
      ⟨[], 0, 0⟩ 117 := by
  have hwf (n : Nat) (hn : 0 < n) : (RedInput.media (fun _ => 0)
    (fun p => if p = 0 then 0x80 else if p = 1 then 0x80 + 100
      else 7) n 12 116).WellFormed 117 :=
    ⟨by omega, hn, by omega, by decide⟩
  constructor
  · exact (addReceivedRedPacket_undoes 0 ⟨[], 0, 0⟩ (hwf 1488 (by omega))).mpr (Nat.le_refl 1500)
  · exact fun h => absurd ((addReceivedRedPacket_undoes 0 ⟨[], 0, 0⟩ (hwf 1489 (by omega))).mp h)
      (Nat.not_succ_le_self 1500)

/-- A block of one byte, with a FEC block behind it. -/
theorem two_blocks_cut :
    (RedInput.twoBlocks [0x80, 0x80 + 116, 0, 1, 0, 0, 0, 2, 0, 0, 0, 3] 100 [7] [9, 9]).WellFormed 117 ∧
      ¬ (RedInput.twoBlocks [0x80, 0x80 + 116, 0, 1, 0, 0, 0, 2, 0, 0, 0, 3] 100 [7] [9, 9]).Undone 0
          ⟨[], 0, 0⟩ 117 := by
  constructor
  · simp [RedInput.WellFormed]
  · exact two_not_undone 0 _ _ (by simp) (by decide) (by decide) (by decide) (by simp) (by simp)

end WebRtc.Fec
