import WebRtc.Vp8.Extension
import WebRtc.Vp8.Packetizer

/-!
# Frames and what is sent of them

`Lossless` says what the packets of a frame are to be. Which pieces of the frame a packetizer queues is
said by `Cuts`; for such pieces all that is left to see is that `first_fragment` is set on those with
which a partition begins (`lossless_onWire`).
-/

namespace WebRtc.Vp8

/-- An encoded frame, one partition behind the other. -/
structure Frame where
  data : List UInt8
  lengths : List Nat
  pos : ∀ l ∈ lengths, 0 < l
  sum : lengths.sum = data.length
  /-- A first partition and up to eight others (`kMaxVP8Partitions`). -/
  few : lengths.length ≤ 9

namespace Frame

variable (frame : Frame)

/-- Where partition `i` begins. -/
def offset (i : Nat) : Nat := (frame.lengths.take i).sum

def fragmentation : RTPFragmentationHeader := ⟨(List.range frame.lengths.length).map frame.offset, frame.lengths⟩

/-- Byte `n` is in partition `i`. -/
def Contains (i n : Nat) : Prop := i < frame.lengths.length ∧ frame.offset i ≤ n ∧ n < frame.offset (i + 1)

theorem offset_succ (i : Nat) : frame.offset (i + 1) = frame.offset i + frame.lengths.getD i 0 := by
  rw [offset, List.take_add_one, List.sum_append, List.getD_eq_getElem?_getD]
  cases frame.lengths[i]? <;> simp [offset]

theorem offset_zero : frame.offset 0 = 0 := rfl

theorem offset_length : frame.offset frame.lengths.length = frame.data.length := by
  rw [offset, List.take_length, frame.sum]

variable {frame} {i j n : Nat}

theorem length_pos (hi : i < frame.lengths.length) : 0 < frame.lengths.getD i 0 := by
  rw [List.getD_eq_getElem?_getD, List.getElem?_eq_getElem hi]
  exact frame.pos _ (List.getElem_mem hi)

theorem offset_mono (h : i ≤ j) : frame.offset i ≤ frame.offset j := by
  induction h with
  | refl => exact Nat.le_refl _
  | step _ ih => exact Nat.le_trans ih (by rw [offset_succ]; exact Nat.le_add_right _ _)

theorem offset_le (i : Nat) : frame.offset i ≤ frame.data.length := by
  rcases Nat.le_total i frame.lengths.length with h | h
  · rw [← frame.offset_length]
    exact offset_mono h
  · exact Nat.le_of_eq (by rw [offset, List.take_of_length_le h, frame.sum])

/-- A byte with which a partition begins is in no other. -/
theorem Contains.offset_eq (h : frame.Contains i n) (hj : j < frame.lengths.length)
    (hn : n = frame.offset j) : i = j := by
  obtain ⟨hi, hle, hlt⟩ := h
  rcases Nat.lt_trichotomy i j with hij | hij | hij
  · have hle : frame.offset (i + 1) ≤ frame.offset j := offset_mono hij
    omega
  · exact hij
  · have hle : frame.offset (j + 1) ≤ frame.offset i := offset_mono hij
    have hpos := length_pos hj
    have hsucc := frame.offset_succ j
    omega

theorem Contains.starts_iff (h : frame.Contains i n) :
    (∃ j, j < frame.lengths.length ∧ n = frame.offset j) ↔ n = frame.offset i := by
  constructor
  · rintro ⟨j, hj, hn⟩
    rw [h.offset_eq hj hn]
    exact hn
  · intro hn
    exact ⟨i, h.1, hn⟩

end Frame

/-! ## The packets of a frame -/

def packetizer (hdr : RTPVideoHeaderVP8) (maxPayloadLen : Nat) (mode : VP8PacketizerMode)
    (frame : Frame) : RtpPacketizerVp8 :=
  (RtpPacketizerVp8.new hdr maxPayloadLen mode).setPayloadData frame.data (some frame.fragmentation)

/-- All that `NextPacket` gives for the frame: there is a packet for each byte at most. -/
def sent (hdr : RTPVideoHeaderVP8) (maxPayloadLen : Nat) (mode : VP8PacketizerMode) (frame : Frame) :
    List (List UInt8 × Bool) :=
  (packetizer hdr maxPayloadLen mode frame).sendAll (frame.data.length + 1)

def payloadOf (hdr : RTPVideoHeaderVP8) (packet : List UInt8 × Bool) : List UInt8 := packet.1.drop hdr.descriptorLength

def sBit (bytes : List UInt8) : Bool := decide (Bytes.byteAt bytes 0 &&& 0x10 ≠ 0)

def partId (bytes : List UInt8) : Nat := (Bytes.byteAt bytes 0 &&& 0x0F).toNat

/-- The packets carry the frame, and each says where in the frame it begins. -/
structure Lossless (hdr : RTPVideoHeaderVP8) (maxPayloadLen : Nat) (frame : Frame)
    (packets : List (List UInt8 × Bool)) :
    Prop where
  bytes : packets.flatMap (payloadOf hdr) = frame.data
  fits : ∀ p ∈ packets, payloadOf hdr p ≠ [] ∧ p.1.length ≤ maxPayloadLen
  sBit : ∀ pre p post, packets = pre ++ p :: post →
    (sBit p.1 = true ↔ ∃ i, i < frame.lengths.length ∧ (pre.flatMap (payloadOf hdr)).length = frame.offset i)
  partId : ∀ pre p post, packets = pre ++ p :: post → frame.Contains (partId p.1) (pre.flatMap (payloadOf hdr)).length
  last : ∀ pre p post, packets = pre ++ p :: post → (p.2 = true ↔ post = [])

/-- The pieces of the frame that are queued. -/
structure Cuts (frame : Frame) (room : Nat) (infos : List InfoStruct) : Prop where
  tiles : Cut.Tiles InfoStruct.payloadStartPos InfoStruct.size 0 infos frame.data.length
  fits : ∀ i ∈ infos, 0 < i.size ∧ i.size ≤ room
  partition : ∀ i ∈ infos, frame.Contains i.firstPartitionIx i.payloadStartPos

/-- `first_fragment` is right. -/
def Marked (frame : Frame) (info : InfoStruct) : Prop :=
  info.firstFragment = true ↔ info.payloadStartPos = frame.offset info.firstPartitionIx

section Wire
variable (hdr : RTPVideoHeaderVP8) (maxPayloadLen : Nat) (data : List UInt8)

def wire (info : InfoStruct) : List UInt8 := (writeHeaderAndPayload hdr maxPayloadLen data info).getD []

def onWire : List InfoStruct → List (List UInt8 × Bool)
  | [] => []
  | info :: rest => (wire hdr maxPayloadLen data info, rest.isEmpty) :: onWire rest

theorem onWire_split (pre : List InfoStruct) (info : InfoStruct) (post : List InfoStruct) :
    onWire hdr maxPayloadLen data (pre ++ info :: post) =
      pre.map (fun i => (wire hdr maxPayloadLen data i, false)) ++
        (wire hdr maxPayloadLen data info, post.isEmpty) :: onWire hdr maxPayloadLen data post := by
  induction pre with
  | nil => rfl
  | cons i pre ih =>
    rw [List.cons_append, onWire, ih]
    simp

/-- Every place among the packets is one among the pieces. -/
theorem onWire_place {infos : List InfoStruct} {pre post : List (List UInt8 × Bool)} {p : List UInt8 × Bool}
    (h : onWire hdr maxPayloadLen data infos = pre ++ p :: post) :
    ∃ before info after, infos = before ++ info :: after ∧
      pre = before.map (fun i => (wire hdr maxPayloadLen data i, false)) ∧
      p = (wire hdr maxPayloadLen data info, after.isEmpty) ∧ post = onWire hdr maxPayloadLen data after := by
  induction infos generalizing pre with
  | nil => simp [onWire] at h
  | cons i infos ih =>
    cases pre with
    | nil =>
      obtain ⟨rfl, rfl⟩ := List.cons.inj h
      exact ⟨[], i, infos, rfl, rfl, rfl, rfl⟩
    | cons q pre =>
      obtain ⟨hq, h⟩ := List.cons.inj h
      obtain ⟨before, info, after, rfl, rfl, hp, hpost⟩ := ih h
      refine ⟨i :: before, info, after, rfl, ?_, hp, hpost⟩
      rw [List.map_cons, ← hq]
      simp

end Wire

/-! ## What is queued is sent -/

section Sent
variable {hdr : RTPVideoHeaderVP8} {maxPayloadLen : Nat} {frame : Frame}

/-- A piece on the wire. -/
theorem wire_eq (hmax : hdr.descriptorLength ≤ maxPayloadLen) (data : List UInt8) (info : InfoStruct) :
    ∃ descriptor : List UInt8, descriptor.length = hdr.descriptorLength ∧
      writeHeaderAndPayload hdr maxPayloadLen data info = some (wire hdr maxPayloadLen data info) ∧
      wire hdr maxPayloadLen data info = descriptor ++ Cut.slice data info.payloadStartPos info.size ∧
      (sBit (wire hdr maxPayloadLen data info) = true ↔ info.firstFragment = true) ∧
      partId (wire hdr maxPayloadLen data info) = info.firstPartitionIx % 16 := by
  obtain ⟨descriptor, hlen, hwrite, hS, hP⟩ := writeHeaderAndPayload_eq hmax data info
  have hwire : wire hdr maxPayloadLen data info = descriptor ++ Cut.slice data info.payloadStartPos info.size := by
    rw [wire, hwrite, Option.getD_some]
  have hfirst : Bytes.byteAt (descriptor ++ Cut.slice data info.payloadStartPos info.size) 0 =
      Bytes.byteAt descriptor 0 := by
    cases descriptor with
    | nil =>
      rw [RTPVideoHeaderVP8.descriptorLength, List.length_nil] at hlen
      omega
    | cons a descriptor => rfl
  refine ⟨descriptor, hlen, by rw [hwire, hwrite], hwire, ?_, ?_⟩
  · rw [sBit, hwire, hfirst, decide_eq_true_eq]
    exact hS
  · rw [partId, hwire, hfirst]
    exact hP

theorem payloadOf_wire (hmax : hdr.descriptorLength ≤ maxPayloadLen) (data : List UInt8)
    (info : InfoStruct) (last : Bool) :
    payloadOf hdr (wire hdr maxPayloadLen data info, last) = Cut.slice data info.payloadStartPos info.size := by
  obtain ⟨descriptor, hlen, -, hwire, -, -⟩ := wire_eq hmax data info
  rw [payloadOf, hwire, ← hlen, List.drop_left]

theorem sendAll_queue (hmax : hdr.descriptorLength ≤ maxPayloadLen) (infos : List InfoStruct) {fuel : Nat}
    (hfuel : infos.length ≤ fuel) {p : RtpPacketizerVp8} (hhdr : hdr = p.hdrInfo)
    (hlen : maxPayloadLen = p.maxPayloadLen)
    (hcalc : (if p.packetsCalculated then some p.packets else p.calculatePackets) = some infos) :
    p.sendAll fuel = onWire hdr maxPayloadLen p.payloadData infos := by
  subst hhdr hlen
  induction infos generalizing p fuel with
  | nil =>
    cases fuel with
    | zero => rfl
    | succ fuel => rw [RtpPacketizerVp8.sendAll, RtpPacketizerVp8.nextPacket, hcalc]; rfl
  | cons info infos ih =>
    obtain ⟨fuel, rfl⟩ : ∃ f, fuel = f + 1 := ⟨fuel - 1, by simp only [List.length_cons] at hfuel; omega⟩
    obtain ⟨-, -, hwrite, -⟩ := wire_eq hmax p.payloadData info
    rw [RtpPacketizerVp8.sendAll, RtpPacketizerVp8.nextPacket, hcalc]
    dsimp only
    rw [hwrite, Option.map_some]
    have hrest := ih (p := { p with packets := infos, packetsCalculated := true })
      (Nat.le_of_succ_le_succ hfuel) rfl hmax
    rw [onWire]
    exact congrArg (List.cons _) hrest

theorem Cuts.length_le {room : Nat} {infos : List InfoStruct} (h : Cuts frame room infos) :
    infos.length ≤ frame.data.length := by
  have hsum := h.tiles.sum
  have hle : infos.length ≤ (infos.map InfoStruct.size).sum := by
    have hpos := fun i hi => (h.fits i hi).1
    clear hsum h
    induction infos with
    | nil => exact Nat.le_refl _
    | cons i infos ih =>
      have hi := hpos i List.mem_cons_self
      have hrest := ih (fun j hj => hpos j (List.mem_cons_of_mem _ hj))
      simp only [List.length_cons, List.map_cons, List.sum_cons]
      omega
  omega

/-- The pieces before a piece are as long as it is far from the beginning. -/
theorem Cuts.start {room : Nat} {before after : List InfoStruct} {info : InfoStruct}
    (h : Cuts frame room (before ++ info :: after))
    (hmax : hdr.descriptorLength ≤ maxPayloadLen) :
    ((before.map fun i => (wire hdr maxPayloadLen frame.data i, false)).flatMap
        (payloadOf hdr)).length = info.payloadStartPos := by
  have htiles := h.tiles.pos_eq
  have hdata := htiles.flatMap_slice frame.data
  have hinfo := h.tiles.mem_le (p := info) (by simp)
  rw [List.flatMap_map]
  simp only [payloadOf_wire hmax]
  rw [hdata, Cut.slice_length _ (by omega), Nat.sub_zero]

/-- **What is sent is the frame** when every piece is marked as it should be. -/
theorem lossless_onWire (hmax : hdr.descriptorLength ≤ maxPayloadLen) {infos : List InfoStruct}
    (h : Cuts frame (maxPayloadLen - hdr.descriptorLength) infos) :
    Lossless hdr maxPayloadLen frame (onWire hdr maxPayloadLen frame.data infos) ↔ ∀ i ∈ infos, Marked frame i := by
  have hpart : ∀ i ∈ infos, partId (wire hdr maxPayloadLen frame.data i) = i.firstPartitionIx := by
    intro i hi
    obtain ⟨-, -, -, -, -, hpart⟩ := wire_eq hmax frame.data i
    have hlt := (h.partition i hi).1
    have hfew := frame.few
    omega
  have hsBit : ∀ i, sBit (wire hdr maxPayloadLen frame.data i) = true ↔ i.firstFragment = true := by
    intro i
    obtain ⟨-, -, -, -, hS, -⟩ := wire_eq hmax frame.data i
    exact hS
  constructor
  · intro hl i hi
    obtain ⟨before, after, rfl⟩ := List.append_of_mem hi
    have hplace := hl.sBit _ _ _ (onWire_split hdr maxPayloadLen frame.data before i after)
    rw [h.start hmax, hsBit, (h.partition i hi).starts_iff] at hplace
    exact hplace
  · intro hmarked
    refine ⟨?_, ?_, ?_, ?_, ?_⟩
    · have hall : ∀ l : List InfoStruct, (onWire hdr maxPayloadLen frame.data l).flatMap (payloadOf hdr) =
          l.flatMap fun i => Cut.slice frame.data i.payloadStartPos i.size := by
        intro l
        induction l with
        | nil => rfl
        | cons i l ih => rw [onWire, List.flatMap_cons, List.flatMap_cons, payloadOf_wire hmax, ih]
      rw [hall, h.tiles.flatMap_slice, Nat.sub_zero, Cut.slice_all]
    · intro p hp
      obtain ⟨pre, post, hsplit⟩ := List.append_of_mem hp
      obtain ⟨before, info, after, rfl, -, rfl, -⟩ := onWire_place _ _ _ hsplit
      obtain ⟨hpos, hroom⟩ := h.fits info (by simp)
      obtain ⟨descriptor, hlen, -, hwire, -, -⟩ := wire_eq hmax frame.data info
      have hinfo := h.tiles.mem_le (p := info) (by simp)
      have hslice := Cut.slice_length frame.data hinfo.2
      constructor
      · rw [payloadOf_wire hmax]
        intro hnil
        rw [hnil, List.length_nil] at hslice
        omega
      · show (wire hdr maxPayloadLen frame.data info).length ≤ _
        rw [hwire, List.length_append, hlen, hslice]
        omega
    · intro pre p post hsplit
      obtain ⟨before, info, after, rfl, rfl, rfl, -⟩ := onWire_place _ _ _ hsplit
      rw [h.start hmax, hsBit, (h.partition info (by simp)).starts_iff]
      exact hmarked info (by simp)
    · intro pre p post hsplit
      obtain ⟨before, info, after, rfl, rfl, rfl, -⟩ := onWire_place _ _ _ hsplit
      rw [h.start hmax, hpart info (by simp)]
      exact h.partition info (by simp)
    · intro pre p post hsplit
      obtain ⟨before, info, after, rfl, rfl, rfl, rfl⟩ := onWire_place _ _ _ hsplit
      cases after with
      | nil => simp [onWire]
      | cons i after => simp [onWire]

end Sent

end WebRtc.Vp8
