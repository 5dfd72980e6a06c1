import WebRtc.Lib.CInt
import WebRtc.NetEq.SplitAudio

/-!
# Splitting RED payloads

| here | there |
| --- | --- |
| `redHeaders`, `redBlocks`, `splitRedPacket`, `splitRed` | `PayloadSplitter::SplitRed` (`payload_splitter.cc:27-122`) |

The loop over the block headers ends with a header whose F bit is not set. It does not look for the end of the
payload, so where there is no such header it reads on behind it (none). Where there is one, the blocks are right
(`splitRed_exact_iff`).
-/

namespace WebRtc.NetEq

open Rtp CInt Bytes

/-! ## The code -/

/-- A new packet with the header of the RED packet, as far as it is known before the data is. -/
def redBlock (redPacket : Packet) (payloadType : UInt8) (timestamp : UInt32) (payloadLength : Nat)
    (primary : Bool) : Packet where
  header := { redPacket.header with payloadType, timestamp }
  payload := none
  payloadLength
  primary
  waitingTime := 0
  syncPacket := false

/-- The loop over the RED headers: the new packets and what follows the headers. `payloadPtr` is the payload from
where `payload_ptr` points. -/
def redHeaders (redPacket : Packet) : (payloadPtr : List UInt8) → (sumLength : Nat) → Option (List Packet × List UInt8)
  | [], _ => none
  | b0 :: payloadPtr, sumLength =>
    if b0 &&& 0x80 = 0 then
      let length := toSize (redPacket.payloadLength - (sumLength + 1))
      some ([redBlock redPacket (b0 &&& 0x7F) redPacket.timestamp length true], payloadPtr)
    else
      match payloadPtr with
      | b1 :: b2 :: b3 :: payloadPtr => do
        let timestampOffset := (b1.toNat <<< 6) + ((b2 &&& 0xFC) >>> 2).toNat
        let length := ((b2 &&& 0x03).toNat <<< 8) + b3.toNat
        let newPacket := redBlock redPacket (b0 &&& 0x7F)
          (redPacket.timestamp - UInt32.ofNat timestampOffset) length false
        let (newPackets, data) ← redHeaders redPacket payloadPtr (sumLength + length + 4)
        some (newPacket :: newPackets, data)
      | _ => none

/-- The loop that populates the new packets; the flag says that there was a length mismatch. -/
def redBlocks : List Packet → (payloadPtr : List UInt8) → List Packet × Bool
  | [], _ => ([], false)
  | newPacket :: newPackets, payloadPtr =>
    if newPacket.payloadLength > payloadPtr.length then ([], true)
    else
      let (populated, mismatch) := redBlocks newPackets (payloadPtr.drop newPacket.payloadLength)
      ({ newPacket with payload := some (payloadPtr.take newPacket.payloadLength) } :: populated, mismatch)

def splitRedPacket (redPacket : Packet) : Option (List Packet × Bool) := do
  let payload ← redPacket.data
  let (newPackets, data) ← redHeaders redPacket payload 0
  let (populated, mismatch) := redBlocks newPackets data
  some (populated.reverse, mismatch)

def splitRed : List Packet → Option (List Packet × SplitterReturnCode)
  | [] => some ([], .ok)
  | redPacket :: packetList => do
    let (newPackets, mismatch) ← splitRedPacket redPacket
    let (rest, ret) ← splitRed packetList
    some (newPackets ++ rest, if mismatch then .redLengthMismatch else ret)

/-! ## RED payloads -/

/-- The header of a redundant block (RFC 2198). -/
structure RedHeader where
  payloadType : UInt8
  timestampOffset : Nat
  blockLength : Nat
  payloadType_lt : payloadType < 0x80
  timestampOffset_lt : timestampOffset < 2 ^ 14
  blockLength_lt : blockLength < 2 ^ 10

def RedHeader.bytes (h : RedHeader) : List UInt8 :=
  [0x80 ||| h.payloadType, UInt8.ofNat (h.timestampOffset / 64),
    UInt8.ofNat (h.timestampOffset % 64 * 4 + h.blockLength / 256), UInt8.ofNat h.blockLength]

/-- The headers of the redundant blocks, the one of the primary block, and the data of the blocks. -/
structure RedPayload where
  redundant : List RedHeader
  primaryType : UInt8
  data : List UInt8
  primaryType_lt : primaryType < 0x80

namespace RedPayload

def bytes (r : RedPayload) : List UInt8 := r.redundant.flatMap RedHeader.bytes ++ r.primaryType :: r.data

/-- The length of the redundant blocks. -/
def redundantLength (r : RedPayload) : Nat := (r.redundant.map RedHeader.blockLength).sum

/-- The lengths match the length of the payload. -/
def Consistent (r : RedPayload) : Prop := r.redundantLength ≤ r.data.length

instance (r : RedPayload) : Decidable r.Consistent := inferInstanceAs (Decidable (_ ≤ _))

end RedPayload

/-- The new packet of a redundant block. -/
def redundantPacket (redPacket : Packet) (h : RedHeader) (bytes : List UInt8) : Packet where
  header := { redPacket.header with
    payloadType := h.payloadType
    timestamp := redPacket.timestamp - UInt32.ofNat h.timestampOffset }
  payload := some bytes
  payloadLength := bytes.length
  primary := false
  waitingTime := 0
  syncPacket := false

/-- The new packet of the primary block. -/
def primaryPacket (redPacket : Packet) (payloadType : UInt8) (bytes : List UInt8) : Packet where
  header := { redPacket.header with payloadType }
  payload := some bytes
  payloadLength := bytes.length
  primary := true
  waitingTime := 0
  syncPacket := false

/-- When the lengths match, the blocks are the data, and the primary block comes first. When they do not, there are
only blocks that are inside of the data. -/
structure Exact (redPacket : Packet) (r : RedPayload) (newPackets : List Packet) : Prop where
  consistent : r.Consistent → ∃ parts primary, parts.flatten ++ primary = r.data ∧
    parts.map List.length = r.redundant.map RedHeader.blockLength ∧
    newPackets = primaryPacket redPacket r.primaryType primary ::
      (List.zipWith (redundantPacket redPacket) r.redundant parts).reverse
  inside : ¬ r.Consistent → ∀ p ∈ newPackets, ∃ before h after, r.redundant = before ++ h :: after ∧
    (before.map RedHeader.blockLength).sum + h.blockLength ≤ r.data.length ∧
    p = redundantPacket redPacket h ((r.data.drop (before.map RedHeader.blockLength).sum).take h.blockLength)

/-! ## Headers -/

theorem upper6 : ∀ b : UInt8, ((b &&& 0xFC) >>> 2).toNat = b.toNat / 4 := by decide +kernel

theorem lower2 (b : UInt8) : (b &&& 0x03).toNat = b.toNat % 4 := by
  rw [UInt8.toNat_and]
  exact Nat.and_two_pow_sub_one_eq_mod b.toNat 2

/-- A header is read as it was written. -/
theorem redHeaders_cons (redPacket : Packet) (h : RedHeader) (rest : List UInt8) (sumLength : Nat) :
    redHeaders redPacket (h.bytes ++ rest) sumLength =
      (redHeaders redPacket rest (sumLength + h.blockLength + 4)).map fun (newPackets, data) =>
        (redBlock redPacket h.payloadType (redPacket.timestamp - UInt32.ofNat h.timestampOffset) h.blockLength false ::
          newPackets, data) := by
  have hset := or_top_ne h.payloadType
  have htype := low7_or_top h.payloadType_lt
  have hoffset := h.timestampOffset_lt
  have hlength := h.blockLength_lt
  have hstamp : (UInt8.ofNat (h.timestampOffset / 64)).toNat <<< 6 +
      ((UInt8.ofNat (h.timestampOffset % 64 * 4 + h.blockLength / 256) &&& 0xFC) >>> 2).toNat = h.timestampOffset := by
    rw [upper6, UInt8.toNat_ofNat', UInt8.toNat_ofNat', Nat.shiftLeft_eq]
    omega
  have hsize : (UInt8.ofNat (h.timestampOffset % 64 * 4 + h.blockLength / 256) &&& 0x03).toNat <<< 8 +
      (UInt8.ofNat h.blockLength).toNat = h.blockLength := by
    rw [lower2, UInt8.toNat_ofNat', UInt8.toNat_ofNat', Nat.shiftLeft_eq]
    omega
  simp only [RedHeader.bytes, List.cons_append, List.nil_append, redHeaders, hset, if_false, htype, hstamp, hsize]
  cases redHeaders redPacket rest (sumLength + h.blockLength + 4) <;> rfl

/-- **The headers** of a RED payload, and what follows them. -/
theorem redHeaders_bytes (redPacket : Packet) (redundant : List RedHeader) {primaryType : UInt8}
    (htype : primaryType < 0x80)
    (data : List UInt8) (sumLength : Nat) :
    redHeaders redPacket (redundant.flatMap RedHeader.bytes ++ primaryType :: data) sumLength =
      some (redundant.map (fun h => redBlock redPacket h.payloadType
          (redPacket.timestamp - UInt32.ofNat h.timestampOffset) h.blockLength false) ++
        [redBlock redPacket primaryType redPacket.timestamp (toSize (redPacket.payloadLength -
          (sumLength + (redundant.map RedHeader.blockLength).sum + 4 * redundant.length + 1 : Nat))) true], data) := by
  induction redundant generalizing sumLength with
  | nil =>
    rw [List.flatMap_nil, List.nil_append, redHeaders.eq_def]
    simp [(top_clear_iff primaryType).2 htype, low7_of_lt htype]
  | cons h redundant ih =>
    rw [List.flatMap_cons, List.append_assoc, redHeaders_cons, ih]
    simp only [Option.map_some, List.map_cons, List.cons_append, List.sum_cons, List.length_cons]
    congr 7
    omega

/-- There is a header without F bit at a place where one is looked for. -/
def HeadersEnd (payload : List UInt8) : Prop := ∃ k b, payload[4 * k]? = some b ∧ b &&& 0x80 = 0

theorem headersEnd_cons {b0 b1 b2 b3 : UInt8} {rest : List UInt8} (h : ¬ b0 &&& 0x80 = 0) :
    HeadersEnd (b0 :: b1 :: b2 :: b3 :: rest) ↔ HeadersEnd rest := by
  constructor
  · rintro ⟨k, b, hb, hclear⟩
    cases k with
    | zero =>
      cases hb
      exact absurd hclear h
    | succ k => exact ⟨k, b, by simpa [Nat.mul_succ] using hb, hclear⟩
  · rintro ⟨k, b, hb, hclear⟩
    exact ⟨k + 1, b, by simpa [Nat.mul_succ] using hb, hclear⟩

/-- **A payload whose headers end** is a RED payload. -/
theorem redPayload_of_headersEnd (payload : List UInt8) (h : HeadersEnd payload) : ∃ r :
    RedPayload, payload = r.bytes := by
  match payload with
  | [] =>
    obtain ⟨k, b, hb, -⟩ := h
    cases hb
  | b0 :: rest =>
    by_cases hclear : b0 &&& 0x80 = 0
    · exact ⟨⟨[], b0, rest, (top_clear_iff b0).1 hclear⟩, rfl⟩
    · match rest with
      | b1 :: b2 :: b3 :: rest =>
        obtain ⟨r, hr⟩ := redPayload_of_headersEnd rest ((headersEnd_cons hclear).1 h)
        have h1 := b1.toNat_lt
        have h2 := b2.toNat_lt
        have h3 := b3.toNat_lt
        let header : RedHeader := ⟨b0 &&& 0x7F, b1.toNat * 64 + b2.toNat / 4, b2.toNat % 4 * 256 + b3.toNat, low7_lt b0,
          by omega, by omega⟩
        have hbytes : header.bytes = [b0, b1, b2, b3] := by
          simp only [RedHeader.bytes, header, top_or_low7 hclear, List.cons.injEq, and_true, true_and]
          refine ⟨?_, ?_, ?_⟩ <;> apply UInt8.toNat_inj.1 <;> rw [UInt8.toNat_ofNat'] <;> omega
        refine ⟨⟨header :: r.redundant, r.primaryType, r.data, r.primaryType_lt⟩, ?_⟩
        simp only [RedPayload.bytes, List.flatMap_cons, hbytes, hr]
        rfl
      | [] | [_] | [_, _] =>
        obtain ⟨k, b, hb, hb0⟩ := h
        cases k with
        | zero =>
          cases hb
          exact absurd hb0 hclear
        | succ k => simp [Nat.mul_succ] at hb

/-- Otherwise there is a read behind the end. -/
theorem headersEnd_of_redHeaders {redPacket : Packet} (payload : List UInt8) {sumLength : Nat}
    (h : redHeaders redPacket payload sumLength ≠ none) : HeadersEnd payload := by
  match payload with
  | [] => exact absurd rfl h
  | b0 :: rest =>
    by_cases hclear : b0 &&& 0x80 = 0
    · exact ⟨0, b0, rfl, hclear⟩
    · match rest with
      | b1 :: b2 :: b3 :: rest =>
        refine (headersEnd_cons hclear).2 (@headersEnd_of_redHeaders redPacket rest
          (sumLength + (((b2 &&& 0x03).toNat <<< 8) + b3.toNat) + 4) fun hnone => h ?_)
        simp only [redHeaders, hclear, if_false, hnone]
        rfl
      | [] | [_] | [_, _] => simp [redHeaders, hclear] at h

/-! ## Blocks -/

section Blocks
variable {redundant : List RedHeader} {data : List UInt8}

/-- A new packet before it is populated. -/
def unpopulated (redPacket : Packet) (h : RedHeader) : Packet :=
  redBlock redPacket h.payloadType (redPacket.timestamp - UInt32.ofNat h.timestampOffset) h.blockLength false

/-- The blocks that all fit, the last one with what is left. -/
theorem redBlocks_consistent (redPacket last : Packet)
    (hfits : (redundant.map RedHeader.blockLength).sum ≤ data.length)
    (hlast : last.payloadLength = data.length - (redundant.map RedHeader.blockLength).sum) :
    ∃ parts primary, parts.flatten ++ primary = data ∧ parts.map List.length = redundant.map RedHeader.blockLength ∧
      primary.length = last.payloadLength ∧
      redBlocks (redundant.map (unpopulated redPacket) ++ [last]) data =
        (List.zipWith (redundantPacket redPacket) redundant parts ++ [{ last with payload := some primary }],
          false) := by
  induction redundant generalizing data with
  | nil =>
    refine ⟨[], data, rfl, rfl, by simpa using hlast.symm, ?_⟩
    have hall : last.payloadLength = data.length := by simpa using hlast
    simp [redBlocks, hall]
  | cons h redundant ih =>
    rw [List.map_cons, List.sum_cons] at hfits hlast
    have hrest : (data.drop h.blockLength).length = data.length - h.blockLength := List.length_drop
    obtain ⟨parts, primary, hdata, hlengths, hprimary, hblocks⟩ := @ih (data.drop h.blockLength) (by omega) (by omega)
    have htake : (data.take h.blockLength).length = h.blockLength := by
      rw [List.length_take]
      omega
    refine ⟨data.take h.blockLength :: parts, primary, ?_, ?_, hprimary, ?_⟩
    · rw [List.flatten_cons, List.append_assoc, hdata, List.take_append_drop]
    · simp [hlengths, htake]
    · have hle : ¬ h.blockLength > data.length := by omega
      simp [redBlocks, unpopulated, redBlock, hle, hblocks, redundantPacket, htake]

/-- When they do not fit, the loop stops before the last one. -/
theorem redBlocks_inconsistent (redPacket last : Packet)
    (hlong : data.length < (redundant.map RedHeader.blockLength).sum) :
    (redBlocks (redundant.map (unpopulated redPacket) ++ [last]) data).2 = true ∧
      ∀ p ∈ (redBlocks (redundant.map (unpopulated redPacket) ++ [last]) data).1, ∃ before h after,
        redundant = before ++ h :: after ∧
        (before.map RedHeader.blockLength).sum + h.blockLength ≤ data.length ∧
        p = redundantPacket redPacket h ((data.drop (before.map RedHeader.blockLength).sum).take h.blockLength) := by
  induction redundant generalizing data with
  | nil => simp at hlong
  | cons h redundant ih =>
    rw [List.map_cons, List.sum_cons] at hlong
    rw [List.map_cons, List.cons_append, redBlocks]
    by_cases hfits : h.blockLength > data.length
    · rw [if_pos (show (unpopulated redPacket h).payloadLength > data.length from hfits)]
      simp
    · rw [if_neg (show ¬ (unpopulated redPacket h).payloadLength > data.length from hfits)]
      have hrest : (data.drop h.blockLength).length = data.length - h.blockLength := List.length_drop
      obtain ⟨hmismatch, hinside⟩ := @ih (data.drop h.blockLength) (by omega)
      refine ⟨hmismatch, List.forall_mem_cons.2 ⟨⟨[], h, redundant, rfl, by simp; omega, ?_⟩, fun p hp => ?_⟩⟩
      · have htake : (data.take h.blockLength).length = h.blockLength := by
          rw [List.length_take]
          omega
        simp [unpopulated, redBlock, redundantPacket, htake]
      · obtain ⟨before, h', after, rfl, hle, rfl⟩ := hinside p hp
        refine ⟨h :: before, h', after, rfl, ?_, ?_⟩
        · rw [List.map_cons, List.sum_cons]
          omega
        · rw [List.drop_drop, List.map_cons, List.sum_cons]

end Blocks

theorem redHeader_bytes_length (redundant : List RedHeader) :
    (redundant.flatMap RedHeader.bytes).length = 4 * redundant.length := by
  induction redundant with
  | nil => rfl
  | cons h redundant ih =>
    rw [List.flatMap_cons, List.length_append, ih, List.length_cons, Nat.mul_succ, Nat.add_comm]
    rfl

/-- The primary block before it is populated. -/
def unpopulatedPrimary (redPacket : Packet) (r : RedPayload) : Packet :=
  redBlock redPacket r.primaryType redPacket.timestamp
    (toSize (redPacket.payloadLength - (0 + r.redundantLength + 4 * r.redundant.length + 1 : Nat))) true

theorem splitRedPacket_eq {redPacket : Packet} (r : RedPayload) (hdata : redPacket.data = some r.bytes) :
    splitRedPacket redPacket = some
      ((redBlocks (r.redundant.map (unpopulated redPacket) ++ [unpopulatedPrimary redPacket r]) r.data).1.reverse,
        (redBlocks (r.redundant.map (unpopulated redPacket) ++ [unpopulatedPrimary redPacket r]) r.data).2) := by
  simp only [splitRedPacket, hdata, Option.bind_eq_bind, Option.bind_some]
  rw [RedPayload.bytes, redHeaders_bytes redPacket r.redundant r.primaryType_lt]
  rfl

/-- When the lengths match, the length of the primary block does not wrap. -/
theorem unpopulatedPrimary_length {redPacket : Packet} {r : RedPayload} (hdata : redPacket.data = some r.bytes)
    (hsize : r.bytes.length < 2 ^ 64) (hcons : r.Consistent) :
    (unpopulatedPrimary redPacket r).payloadLength = r.data.length - r.redundantLength := by
  have hlength : r.bytes.length = 4 * r.redundant.length + 1 + r.data.length := by
    rw [RedPayload.bytes, List.length_append, redHeader_bytes_length, List.length_cons]
    omega
  have htotal := (data_eq hdata).2
  have hfits : r.redundantLength ≤ r.data.length := hcons
  simp only [unpopulatedPrimary, redBlock, toSize]
  omega

/-- **A RED payload is split** into its blocks. -/
theorem splitRedPacket_exact {redPacket : Packet} (r : RedPayload) (hdata : redPacket.data = some r.bytes)
    (hsize : r.bytes.length < 2 ^ 64) : ∃ newPackets mismatch,
      splitRedPacket redPacket = some (newPackets, mismatch) ∧ Exact redPacket r newPackets ∧
      (mismatch = true ↔ ¬ r.Consistent) := by
  rw [splitRedPacket_eq r hdata]
  by_cases hcons : r.Consistent
  · obtain ⟨parts, primary, hparts, hlengths, hprimary, hblocks⟩ := redBlocks_consistent redPacket
      (unpopulatedPrimary redPacket r) hcons (unpopulatedPrimary_length hdata hsize hcons)
    have hpopulated : { unpopulatedPrimary redPacket r with payload := some primary } =
        primaryPacket redPacket r.primaryType primary := by
      simp only [primaryPacket, hprimary]
      rfl
    rw [hblocks, hpopulated]
    refine ⟨_, _, rfl, ⟨fun _ => ⟨parts, primary, hparts, hlengths, ?_⟩, fun h => absurd hcons h⟩, by simp [hcons]⟩
    simp
  · obtain ⟨hmismatch, hinside⟩ := redBlocks_inconsistent redPacket (unpopulatedPrimary redPacket r)
      (Nat.lt_of_not_le hcons)
    exact ⟨_, _, rfl, ⟨fun h => absurd h hcons, fun _ p hp => hinside p (List.mem_reverse.1 hp)⟩,
      iff_of_true hmismatch hcons⟩

/-- Where the headers do not end, there is a read behind the payload. -/
theorem headersEnd_of_split {redPacket : Packet} {payload : List UInt8} (hdata : redPacket.data = some payload)
    (h : splitRedPacket redPacket ≠ none) : HeadersEnd payload := by
  refine @headersEnd_of_redHeaders redPacket payload 0 fun hnone => h ?_
  simp [splitRedPacket, hdata, hnone]

/-! ## Lists of packets -/

/-- Every packet is replaced by its blocks. -/
def AllExact (packetList newPackets : List Packet) : Prop :=
  ∃ parts : List (List Packet), newPackets = parts.flatten ∧
    List.Forall₂ (fun p part => ∃ r : RedPayload, p.data = some r.bytes ∧ Exact p r part) packetList parts

/-- The payload of a packet is there, and its size is a `size_t`. -/
def Loaded (p : Packet) : Prop := ∃ payload, p.data = some payload ∧ payload.length < 2 ^ 64

theorem splitRed_exact {packetList : List Packet} (hloaded : ∀ p ∈ packetList, Loaded p)
    (hend : ∀ p ∈ packetList, ∀ payload, p.data = some payload → HeadersEnd payload) :
    ∃ newPackets ret, splitRed packetList = some (newPackets, ret) ∧ AllExact packetList newPackets := by
  induction packetList with
  | nil => exact ⟨[], .ok, rfl, [], rfl, .nil⟩
  | cons redPacket packetList ih =>
    obtain ⟨⟨payload, hdata, hsize⟩, hloaded⟩ := List.forall_mem_cons.1 hloaded
    obtain ⟨hfirst, hend⟩ := List.forall_mem_cons.1 hend
    obtain ⟨rest, ret, hsplit, parts, rfl, hparts⟩ := ih hloaded hend
    obtain ⟨r, rfl⟩ := redPayload_of_headersEnd payload (hfirst payload hdata)
    obtain ⟨newPackets, mismatch, hnew, hexact, -⟩ := splitRedPacket_exact r hdata hsize
    refine ⟨newPackets ++ parts.flatten, if mismatch then .redLengthMismatch else ret, ?_,
      newPackets :: parts, rfl, .cons ⟨r, hdata, hexact⟩ hparts⟩
    simp [splitRed, hnew, hsplit]

theorem headersEnd_of_splitRed {packetList : List Packet} (h : splitRed packetList ≠ none) :
    ∀ p ∈ packetList, ∀ payload, p.data = some payload → HeadersEnd payload := by
  induction packetList with
  | nil => simp
  | cons redPacket packetList ih =>
    refine List.forall_mem_cons.2 ⟨fun payload hdata => ?_, ih fun hnone => h ?_⟩
    · refine headersEnd_of_split hdata fun hnone => h ?_
      simp [splitRed, hnone]
    · simp [splitRed, hnone]

/-- **RED packets are split exactly when their headers end** inside of the payloads. -/
theorem splitRed_exact_iff (packetList : List Packet) (hloaded : ∀ p ∈ packetList, Loaded p) :
    (∃ newPackets ret, splitRed packetList = some (newPackets, ret) ∧ AllExact packetList newPackets) ↔
    ∀ p ∈ packetList, ∀ payload, p.data = some payload → HeadersEnd payload := by
  constructor
  · rintro ⟨newPackets, ret, hsplit, -⟩
    exact headersEnd_of_splitRed (by simp [hsplit])
  · exact splitRed_exact hloaded

/-- A RED packet with these bytes. -/
def redPacketOf (payload : List UInt8) : Packet where
  header := .empty
  payload := some payload
  payloadLength := payload.length
  primary := true
  waitingTime := 0
  syncPacket := false

/-- A redundant block of two bytes and a primary block of one. -/
theorem splitRed_exact_two : ∃ newPackets ret,
    splitRed [redPacketOf [0x85, 0x01, 0x40, 0x02, 0x05, 1, 2, 3]] = some (newPackets, ret) ∧
    AllExact [redPacketOf [0x85, 0x01, 0x40, 0x02, 0x05, 1, 2, 3]] newPackets := by
  refine (splitRed_exact_iff [redPacketOf [0x85, 0x01, 0x40, 0x02, 0x05, 1, 2, 3]] ?_).2 ?_
  · simpa using ⟨[0x85, 0x01, 0x40, 0x02, 0x05, 1, 2, 3], rfl, by decide⟩
  · simp only [List.forall_mem_singleton]
    intro payload hdata
    obtain rfl := Option.some.inj hdata
    exact ⟨1, 0x05, rfl, rfl⟩

/-- One byte that says that there are more headers. -/
theorem not_splitRed_exact : ¬ ∀ packetList : List Packet, (∀ p ∈ packetList, Loaded p ∧ 1 ≤ p.payloadLength) →
    ∃ newPackets ret, splitRed packetList = some (newPackets, ret) ∧ AllExact packetList newPackets := by
  intro h
  obtain ⟨newPackets, ret, hsplit, -⟩ := h [redPacketOf [0x80]]
    (by simpa using ⟨⟨[0x80], rfl, by decide⟩, by decide⟩)
  exact absurd hsplit (by simp [show splitRed [redPacketOf [0x80]] = none from rfl])

end WebRtc.NetEq
