import WebRtc.Vp8.Balanced

/-!
# Packets of a frame

In the strict and in the aggregate mode the packets of a frame are always what they are to be. In the
equal-size mode they are when no partition but the last ends where its packet is full: behind such a
partition `GeneratePackets` has gone on to the next one, so that `remaining_in_partition` is not 0, and
the packet that begins with the next partition is not marked as the start of one.
-/

namespace WebRtc.Vp8

variable {hdr : RTPVideoHeaderVP8} {maxPayloadLen : Nat} {mode : VP8PacketizerMode} {frame : Frame}

theorem packetizer_room : (packetizer hdr maxPayloadLen mode frame).room = maxPayloadLen - hdr.descriptorLength := rfl

/-- The first byte of a frame begins its first partition. -/
theorem Frame.contains_zero (h : frame.data ≠ []) : frame.Contains 0 0 := by
  have hix : 0 < frame.lengths.length := by
    rw [Nat.pos_iff_ne_zero]
    intro h0
    have hsum := frame.sum
    rw [List.length_eq_zero_iff.1 h0, List.sum_nil] at hsum
    exact h (List.length_eq_zero_iff.1 hsum.symm)
  have hpos := Frame.length_pos hix
  refine ⟨hix, Nat.le_refl 0, ?_⟩
  rw [Frame.offset_succ, Frame.offset_zero, Nat.zero_add]
  exact hpos

/-- A packet of the strict mode is filled. -/
theorem fill_strict (hroom : 0 < maxPayloadLen - hdr.descriptorLength) {total ix : Nat} {start beginning : Bool}
    (h : frame.Contains ix total) : Filled frame (maxPayloadLen - hdr.descriptorLength) total
      ((packetizer hdr maxPayloadLen .strict frame).fill total start beginning ix) := by
  have hbegin := @begins_inv hdr maxPayloadLen .strict frame _ _ h
  have hrem : 0 < frame.offset (ix + 1) - total := Nat.sub_pos_of_lt h.2.2
  rw [fill_eq h]
  rw [packetizer_room] at hbegin ⊢
  obtain ⟨k, hk⟩ := Nat.exists_eq_succ_of_ne_zero (Nat.pos_iff_ne_zero.1 hroom)
  rw [hk] at hbegin ⊢
  rw [fillPacket_strict k hbegin (Nat.succ_pos k) hrem]
  obtain ⟨hpos, hle, hlen⟩ := nextSize_spec (Nat.succ_pos k) hrem
  refine ⟨hbegin.take hle hlen, ?_⟩
  show 0 < 0 + nextSize (k + 1) (frame.offset (ix + 1) - total)
  rw [Nat.zero_add]
  exact hpos

/-- So is one of the equal-size mode. -/
theorem fill_equalSize (hroom : 0 < maxPayloadLen - hdr.descriptorLength) {total ix : Nat} {start beginning : Bool}
    (h : frame.Contains ix total) : Filled frame (maxPayloadLen - hdr.descriptorLength) total
      ((packetizer hdr maxPayloadLen .equalSize frame).fill total start beginning ix) := by
  have hrem : 0 < frame.offset (ix + 1) - total := Nat.sub_pos_of_lt h.2.2
  rw [fill_eq h]
  obtain ⟨hinv, hbytes, -⟩ := @fillPacket_equalSize hdr maxPayloadLen frame _ _ beginning start _ _
    (begins_inv h) hroom hrem (Nat.le_refl _)
  exact ⟨hinv, hbytes⟩

/-- No packet is queued for an empty frame. -/
theorem packetLoop_empty (h : frame.data = []) (start beginning : Bool) :
    (packetizer hdr maxPayloadLen mode frame).packetLoop frame.data.length 0 start beginning 0 = [] := by
  rw [h]
  rfl

theorem cuts_empty (h : frame.data = []) (room : Nat) : Cuts frame room [] := by
  refine ⟨?_, by simp, by simp⟩
  rw [h]
  exact .nil 0

/-- The pieces that `GeneratePackets` queues. -/
theorem generatePackets_cuts
    (hfill : ∀ {total ix start beginning}, frame.Contains ix total →
    Filled frame (maxPayloadLen - hdr.descriptorLength) total
      ((packetizer hdr maxPayloadLen mode frame).fill total start beginning ix)) :
    Cuts frame (maxPayloadLen - hdr.descriptorLength)
      ((packetizer hdr maxPayloadLen mode frame).packetLoop frame.data.length 0 true true 0) := by
  by_cases hdata : frame.data = []
  · rw [packetLoop_empty hdata]
    exact cuts_empty hdata _
  · have hcuts : CutsFrom frame (maxPayloadLen - hdr.descriptorLength) 0
        ((packetizer hdr maxPayloadLen mode frame).packetLoop frame.data.length 0 true true 0) :=
      packetLoop_cuts hfill frame.data.length (Frame.contains_zero hdata) (Nat.le_of_eq (Nat.zero_add _).symm)
    exact ⟨hcuts.tiles, hcuts.fits, hcuts.partition⟩

/-- **What is queued**: pieces of the frame, of which each is marked as it should be unless a packet of the
equal-size mode is full at the end of a partition. -/
theorem calculatePackets_cuts (hmax : hdr.descriptorLength + 1 ≤ maxPayloadLen)
    (mode : VP8PacketizerMode) (frame : Frame) :
    ∃ infos, (packetizer hdr maxPayloadLen mode frame).calculatePackets = some infos ∧
      Cuts frame (maxPayloadLen - hdr.descriptorLength) infos ∧
      ((∀ i ∈ infos, Marked frame i) ↔ (mode = .equalSize →
        NeverFull (maxPayloadLen - hdr.descriptorLength) (maxPayloadLen - hdr.descriptorLength) frame.lengths)) := by
  have hroom : 0 < maxPayloadLen - hdr.descriptorLength := by omega
  have hlong : ¬ maxPayloadLen < hdr.descriptorLength + 1 := Nat.not_lt.2 hmax
  have hgenerate : ∀ mode, (packetizer hdr maxPayloadLen mode frame).generatePackets =
      some ((packetizer hdr maxPayloadLen mode frame).packetLoop frame.data.length 0 true true 0) := by
    intro mode
    exact if_neg hlong
  cases mode with
  | strict =>
    refine ⟨_, hgenerate .strict, generatePackets_cuts (fill_strict hroom), ?_⟩
    simp only [reduceCtorEq, false_implies, iff_true]
    by_cases hdata : frame.data = []
    · rw [packetLoop_empty hdata]
      simp
    · exact packetLoop_strict _ (Frame.contains_zero hdata) hroom (by simp [Frame.offset_zero])
  | equalSize =>
    refine ⟨_, hgenerate .equalSize, generatePackets_cuts (fill_equalSize hroom), ?_⟩
    simp only [forall_const]
    by_cases hdata : frame.data = []
    · have hsum := frame.sum
      rw [hdata, List.length_nil] at hsum
      have hnone : frame.lengths = [] := by
        cases hl : frame.lengths with
        | nil => rfl
        | cons l ls =>
          have hpos := frame.pos l (by simp [hl])
          rw [hl, List.sum_cons] at hsum
          omega
      rw [packetLoop_empty hdata, hnone]
      simp [NeverFull]
    · have hcont := Frame.contains_zero hdata
      have hall := @packetLoop_equalSize hdr maxPayloadLen frame frame.data.length 0 0 true true hcont hroom
        (Nat.le_of_eq (Nat.zero_add _).symm) (by simp [Frame.offset_zero])
      have hlengths : (frame.offset (0 + 1) - 0) :: frame.lengths.drop (0 + 1) = frame.lengths := by
        rw [Frame.offset_succ, Frame.offset_zero, Nat.zero_add, Nat.sub_zero]
        have hix := hcont.1
        cases hl : frame.lengths with
        | nil => simp [hl] at hix
        | cons l ls => rfl
      rw [hlengths] at hall
      exact hall
  | aggregate =>
    have hdecided : Decided (packetizer hdr maxPayloadLen .aggregate frame) frame.lengths
        ((packetizer hdr maxPayloadLen .aggregate frame).aggregateSmallPartitions frame.lengths.length
          frame.lengths (-1) (-1) 0) :=
      aggregateSmallPartitions_decided _ _ (Nat.le_refl _) frame.pos (Or.inl (by decide)) (Int.le_refl 0)
    generalize hresult : (packetizer hdr maxPayloadLen .aggregate frame).aggregateSmallPartitions
      frame.lengths.length frame.lengths (-1) (-1) 0 = result at hdecided
    have hzip : (frame.lengths.zip result.1).map Prod.fst = frame.lengths := by
      rw [List.map_fst_zip]
      exact Nat.le_of_eq hdecided.length.symm
    have hpieces : Pieces frame (maxPayloadLen - hdr.descriptorLength) 0 frame.data.length
        ((packetizer hdr maxPayloadLen .aggregate frame).aggregateLoop frame.lengths.length
          (frame.lengths.zip result.1) 0 0
          result.2.1 result.2.2) := by
      have hfuel : (frame.lengths.zip result.1).length ≤ frame.lengths.length := by
        rw [List.length_zip]
        exact Nat.min_le_left _ _
      exact @aggregateLoop_pieces frame
        (packetizer hdr maxPayloadLen .aggregate frame) hroom _ _ hdecided.packed hfuel []
        (by rw [hzip, List.nil_append]) _ _ hdecided.min
    have hcalc : (packetizer hdr maxPayloadLen .aggregate frame).calculatePackets =
        some ((packetizer hdr maxPayloadLen .aggregate frame).aggregateLoop frame.lengths.length
          (frame.lengths.zip result.1) 0 0 result.2.1 result.2.2) := by
      rw [← hresult]
      exact if_neg hlong
    refine ⟨_, hcalc, ⟨hpieces.tiles, hpieces.fits, hpieces.partition⟩, ?_⟩
    simp only [reduceCtorEq, false_implies, iff_true]
    exact hpieces.marked

/-- What is sent is what is queued. -/
theorem sent_eq (hmax : hdr.descriptorLength + 1 ≤ maxPayloadLen) {infos : List InfoStruct}
    (hcalc : (packetizer hdr maxPayloadLen mode frame).calculatePackets = some infos)
    (hcuts : Cuts frame (maxPayloadLen - hdr.descriptorLength) infos) :
    sent hdr maxPayloadLen mode frame = onWire hdr maxPayloadLen frame.data infos :=
  sendAll_queue (Nat.le_of_succ_le hmax) infos (Nat.le_succ_of_le hcuts.length_le) rfl rfl hcalc

/-- **Packetisation is lossless** exactly when no packet of the equal-size mode is full at the end of a
partition. -/
theorem lossless_iff (hmax : hdr.descriptorLength + 1 ≤ maxPayloadLen) (mode : VP8PacketizerMode) (frame : Frame) :
    Lossless hdr maxPayloadLen frame (sent hdr maxPayloadLen mode frame) ↔ (mode = .equalSize →
      NeverFull (maxPayloadLen - hdr.descriptorLength) (maxPayloadLen - hdr.descriptorLength) frame.lengths) := by
  obtain ⟨infos, hcalc, hcuts, hmarked⟩ := calculatePackets_cuts hmax mode frame
  rw [sent_eq hmax hcalc hcuts, lossless_onWire (Nat.le_of_succ_le hmax) hcuts, hmarked]

/-- Two partitions in packets with room for three bytes: the first goes on in a packet that the second shares. -/
def sharedFrame : Frame := ⟨[1, 2, 3, 4, 5, 6, 7], [4, 3], by decide, rfl, by decide⟩

theorem lossless_shared : (sent ⟨false, -1, -1, 0xFF, false, -1, 0, false⟩ 4 .equalSize sharedFrame).length = 3 ∧
    Lossless ⟨false, -1, -1, 0xFF, false, -1, 0, false⟩ 4 sharedFrame
      (sent ⟨false, -1, -1, 0xFF, false, -1, 0, false⟩ 4 .equalSize sharedFrame) :=
  ⟨by decide, (lossless_iff (by decide) .equalSize sharedFrame).2 fun _ => ⟨by decide, trivial⟩⟩

/-- Two partitions of one byte each, in packets with room for one byte. -/
def fullFrame : Frame := ⟨[1, 2], [1, 1], by decide, rfl, by decide⟩

theorem sent_fullFrame : sent ⟨false, -1, -1, 0xFF, false, -1, 0, false⟩ 2 .equalSize fullFrame =
    [([0x10, 1], false), ([0x01, 2], true)] := by
  decide

/-- The second packet begins with the second partition, and its S bit is not set. -/
theorem fullFrame_not_lossless :
    ¬ ∀ (hdr : RTPVideoHeaderVP8) (maxPayloadLen : Nat) (mode : VP8PacketizerMode) (frame : Frame),
      hdr.descriptorLength + 1 ≤ maxPayloadLen → Lossless hdr maxPayloadLen frame
          (sent hdr maxPayloadLen mode frame) := by
  intro h
  have hl := h ⟨false, -1, -1, 0xFF, false, -1, 0, false⟩ 2 .equalSize fullFrame (by decide)
  rw [sent_fullFrame] at hl
  have hS := hl.sBit [([0x10, 1], false)] ([0x01, 2], true) [] rfl
  have hset := hS.2 ⟨1, by decide, by decide⟩
  exact absurd hset (by decide)

/-! ## What the receiver reads -/

/-- A packet with which a key frame begins, and which does not hold the uncompressed header of the frame. -/
def ShortKeyFrame (info : InfoStruct) (payload : List UInt8) : Prop :=
  info.firstFragment = true ∧ info.firstPartitionIx = 0 ∧ Bytes.byteAt payload 0 &&& 0x01 = 0 ∧ payload.length < 10

/-- The packet is read as it was put together. -/
def ReadBack (hdr : RTPVideoHeaderVP8) (info : InfoStruct) (payload bytes : List UInt8) : Prop :=
  ∃ parsed, parse bytes = some parsed ∧
    parsed.vp8 = { hdr with partitionId := info.firstPartitionIx, beginningOfPartition := info.firstFragment } ∧
    parsed.payload = payload

/-- The payload of any other packet is taken. -/
theorem received_eq (hdr : RTPVideoHeaderVP8) {info : InfoStruct} (hix : info.firstPartitionIx < 9)
    {payload : List UInt8}
    (hlong : ¬ ShortKeyFrame info payload) : ∃ parsed, received hdr info payload = some parsed ∧
      parsed.vp8 = { hdr with partitionId := info.firstPartitionIx, beginningOfPartition := info.firstFragment } ∧
      parsed.payload = payload := by
  have hmod : info.firstPartitionIx % 16 = info.firstPartitionIx := Nat.mod_eq_of_lt (by omega)
  have hhdr : headerOf hdr info =
      { hdr with partitionId := info.firstPartitionIx, beginningOfPartition := info.firstFragment } := by
    rw [headerOf, hmod]
  have hvalid : ¬ info.firstPartitionIx > 8 := Nat.not_lt.2 (Nat.le_of_lt_succ hix)
  rw [received, hhdr, if_neg hvalid, parsePayload]
  dsimp only
  by_cases hkey : (info.firstFragment && decide (info.firstPartitionIx = 0)) = true ∧
    Bytes.byteAt payload 0 &&& 0x01 = 0
  · rw [if_pos hkey]
    simp only [Bool.and_eq_true, decide_eq_true_eq] at hkey
    have hlen : ¬ payload.length < 10 := fun h => hlong ⟨hkey.1.1, hkey.1.2, hkey.2, h⟩
    rw [parseVP8FrameSize, if_neg (by simp), if_neg hlen]
    exact ⟨_, rfl, rfl, rfl⟩
  · rw [if_neg hkey, parseVP8FrameSize, if_pos (by simp)]
    exact ⟨_, rfl, rfl, rfl⟩

/-- Packet by packet, what the pieces give when each is read back. -/
theorem forall₂_onWire {R : List UInt8 × Bool → InfoStruct → Prop} (data : List UInt8) (infos : List InfoStruct)
    (h : ∀ i ∈ infos, ∀ last, R (wire hdr maxPayloadLen data i, last) i) :
    List.Forall₂ R (onWire hdr maxPayloadLen data infos) infos := by
  induction infos with
  | nil => exact .nil
  | cons i infos ih =>
    exact .cons (h i List.mem_cons_self _) (ih fun j hj => h j (List.mem_cons_of_mem _ hj))

/-- **Every packet is read as it was put together**, but for a key frame whose uncompressed header is cut. -/
theorem sent_read (hp : hdr.Permitted) (hmax : hdr.descriptorLength + 1 ≤ maxPayloadLen) (mode : VP8PacketizerMode)
    (frame : Frame) : ∃ infos, (packetizer hdr maxPayloadLen mode frame).calculatePackets = some infos ∧
      List.Forall₂ (fun packet info =>
        ¬ ShortKeyFrame info (Cut.slice frame.data info.payloadStartPos info.size) →
          ReadBack hdr info (Cut.slice frame.data info.payloadStartPos info.size) packet.1)
        (sent hdr maxPayloadLen mode frame) infos := by
  obtain ⟨infos, hcalc, hcuts, -⟩ := calculatePackets_cuts hmax mode frame
  refine ⟨infos, hcalc, ?_⟩
  rw [sent_eq hmax hcalc hcuts]
  apply forall₂_onWire
  intro info hi last hlong
  have hroom : hdr.descriptorLength ≤ maxPayloadLen := Nat.le_of_succ_le hmax
  have hin := hcuts.tiles.mem_le hi
  have hne : Cut.slice frame.data info.payloadStartPos info.size ≠ [] := by
    intro hnil
    have hlen := Cut.slice_length frame.data hin.2
    have hpos := (hcuts.fits info hi).1
    rw [hnil, List.length_nil] at hlen
    omega
  obtain ⟨descriptor, -, hwrite, hparse⟩ := parse_written hp hroom frame.data info hne
  have hwire : wire hdr maxPayloadLen frame.data info = descriptor ++
      Cut.slice frame.data info.payloadStartPos info.size := by
    rw [wire, hwrite, Option.getD_some]
  have hix : info.firstPartitionIx < 9 := Nat.lt_of_lt_of_le (hcuts.partition info hi).1 frame.few
  show ∃ parsed, parse (wire hdr maxPayloadLen frame.data info) = some parsed ∧ _
  rw [hwire, hparse]
  exact received_eq hdr hix hlong

/-- A header with every field, and one packet. -/
theorem sent_read_small : ∃ infos, (packetizer ⟨true, 0x1234, 7, 2, true, 5, 0, false⟩ 20 .strict
      ⟨[1, 2, 3, 4], [3, 1], by decide, rfl, by decide⟩).calculatePackets = some infos ∧
    List.Forall₂ (fun packet info => ¬ ShortKeyFrame info (Cut.slice [1, 2, 3, 4] info.payloadStartPos info.size) →
        ReadBack ⟨true, 0x1234, 7, 2, true, 5, 0, false⟩ info
          (Cut.slice [1, 2, 3, 4] info.payloadStartPos info.size) packet.1)
      (sent ⟨true, 0x1234, 7, 2, true, 5, 0, false⟩ 20 .strict ⟨[1, 2, 3, 4], [3, 1], by decide, rfl,
          by decide⟩) infos :=
  @sent_read ⟨true, 0x1234, 7, 2, true, 5, 0, false⟩ 20 ⟨by decide, by decide, by decide, by decide, by decide⟩
    (by decide) .strict ⟨[1, 2, 3, 4], [3, 1], by decide, rfl, by decide⟩

/-- A key frame of one byte: its packet is not accepted. -/
def keyByte : Frame := ⟨[0], [1], by decide, rfl, by decide⟩

theorem keyByte_not_read :
    ¬ ∀ (hdr : RTPVideoHeaderVP8) (maxPayloadLen : Nat) (mode : VP8PacketizerMode) (frame : Frame), hdr.Permitted →
      hdr.descriptorLength + 1 ≤ maxPayloadLen → ∀ packet ∈ sent hdr maxPayloadLen mode frame,
          (parse packet.1).isSome := by
  intro h
  have hparse := h ⟨false, -1, -1, 0xFF, false, -1, 0, false⟩ 20 .strict keyByte
    ⟨by decide, by decide, by decide, by decide, by decide⟩ (by decide) ([0x10, 0], true) (by decide)
  exact absurd hparse (by decide)

end WebRtc.Vp8
