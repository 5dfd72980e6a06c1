import Mathlib.Algebra.BigOperators.Group.List.Basic
import WebRtc.Jitter.Complete
import WebRtc.Jitter.FrameBuffer

/-!
# Room for a packet

The data of the packets of a frame lies without gaps in the buffer (`Contiguous`). A packet that is put between two
others moves what is behind it, and what is copied and moved ends where the longer frame ends
(`insertBufferAccesses_inRange`). The buffer grows for the data of the packet and one start code: enough for every
packet but a STAP-A, which gets a start code for each of its units.
-/

namespace WebRtc.Jitter

open VCMSessionInfo

/-! ## Without gaps -/

/-- A pointer that is NULL is that of no bytes. -/
def Contiguous : Nat → List StoredPacket → Prop
  | _, [] => True
  | offset, q :: rest => (if q.data.isNull then q.data.sizeBytes = 0 else q.data.dataPtr = offset) ∧
    Contiguous (offset + q.data.sizeBytes) rest

section Contiguous
variable {offset steps size : Nat} {before after : List StoredPacket} {packet : ReceivedPacket}

@[simp] theorem totalSize_nil : totalSize [] = 0 := rfl

@[simp] theorem totalSize_cons (q : StoredPacket) (rest : List StoredPacket) :
    totalSize (q :: rest) = q.data.sizeBytes + totalSize rest := by simp [totalSize]

@[simp] theorem totalSize_append (before after : List StoredPacket) :
    totalSize (before ++ after) = totalSize before + totalSize after := by simp [totalSize]

theorem contiguous_append : Contiguous offset (before ++ after) ↔
    Contiguous offset before ∧ Contiguous (offset + totalSize before) after := by
  induction before generalizing offset with
  | nil => simp [Contiguous]
  | cons q rest ih =>
    simp only [List.cons_append, Contiguous, ih, totalSize_cons, and_assoc, Nat.add_assoc]

theorem shiftSubsequentPackets_packets (frameBuffer : Memory) (steps : Nat) (after : List StoredPacket) :
    (shiftSubsequentPackets frameBuffer steps after).1 = after.map (shifted steps) := by
  cases after <;> rfl

theorem contiguous_shift (frameBuffer : Memory) (h : Contiguous offset after) :
    Contiguous (offset + steps) (shiftSubsequentPackets frameBuffer steps after).1 := by
  rw [shiftSubsequentPackets_packets]
  induction after generalizing offset with
  | nil => trivial
  | cons q rest ih =>
    obtain ⟨hq, hrest⟩ := h
    have hnext := ih hrest
    rw [Nat.add_right_comm] at hnext
    rw [List.map_cons, Contiguous, shifted_isNull, shifted_sizeBytes]
    refine ⟨?_, hnext⟩
    cases hnull : q.data.isNull with
    | true => simpa [hnull] using hq
    | false => simpa [hnull, shifted_of_placed steps hnull] using hq

theorem totalSize_shift (frameBuffer : Memory) (steps : Nat) (after : List StoredPacket) :
    totalSize (shiftSubsequentPackets frameBuffer steps after).1 = totalSize after := by
  rw [shiftSubsequentPackets_packets]
  simp [totalSize, Function.comp_def]

/-- What `insertBuffer` makes of the list. -/
theorem insertBuffer_packets (frameBuffer : Memory) (before after : List StoredPacket) (packet : ReceivedPacket) :
    (insertBuffer frameBuffer before packet after).1 =
        before ++ { packet with data := { dataPtr := totalSize before, sizeBytes := requiredLength packet : Area } } ::
          (shiftSubsequentPackets frameBuffer (requiredLength packet) after).1 ∧
      (insertBuffer frameBuffer before packet after).2.2 = requiredLength packet := by
  unfold insertBuffer requiredLength
  split
  · exact ⟨rfl, rfl⟩
  · exact ⟨rfl, rfl⟩

theorem insertBuffer_contiguous (frameBuffer : Memory) (packet : ReceivedPacket) (h : Contiguous 0 (before ++ after)) :
    Contiguous 0 (insertBuffer frameBuffer before packet after).1 ∧
      totalSize (insertBuffer frameBuffer before packet after).1 =
        totalSize (before ++ after) + requiredLength packet := by
  obtain ⟨hbefore, hafter⟩ := contiguous_append.1 h
  rw [(insertBuffer_packets frameBuffer before after packet).1]
  constructor
  · exact contiguous_append.2 ⟨hbefore, (Nat.zero_add _).symm, contiguous_shift frameBuffer hafter⟩
  · simp only [totalSize_append, totalSize_cons, totalSize_shift]
    omega

/-- When nothing is in it, a frame may lose its pointers. -/
theorem contiguous_nulled {packets : List StoredPacket} (hempty : totalSize packets = 0) : Contiguous offset
    (packets.map fun q => { q with data := { q.data with isNull := true } }) := by
  induction packets generalizing offset with
  | nil => trivial
  | cons q rest ih =>
    rw [totalSize_cons] at hempty
    have hbytes : q.data.sizeBytes = 0 := by omega
    exact ⟨(if_pos rfl).mpr hbytes, ih (by omega)⟩

theorem pointersIn_packets {frameSize : Nat} {session : DecodableSession} (h : Contiguous 0 session.packets)
    (hfits : totalSize session.packets ≤ frameSize) : Contiguous 0 (pointersIn frameSize session).packets ∧
      totalSize (pointersIn frameSize session).packets = totalSize session.packets := by
  unfold pointersIn
  split
  · exact ⟨contiguous_nulled (by omega), by simp [totalSize, Function.comp_def]⟩
  · exact ⟨h, rfl⟩

/-! ## In range -/

theorem inRange_append {a b : List Access} : InRange size (a ++ b) ↔ InRange size a ∧ InRange size b :=
  List.forall_mem_append

theorem insertAccesses_inRange {dst length : Nat} {insertStartCode : Bool} :
    InRange size (insertAccesses dst length insertStartCode) ↔
      dst + (length + startCodeLength insertStartCode) ≤ size := by
  cases insertStartCode
  · simp [InRange, insertAccesses, startCodeLength]
  · simp only [InRange, insertAccesses, startCodeLength, if_true, List.forall_mem_cons, List.not_mem_nil]
    constructor
    · rintro ⟨-, h, -⟩
      omega
    · intro h
      exact ⟨by omega, by omega, fun _ hmem => hmem.elim⟩

theorem unitAccesses_inRange {insertStartCode : Bool} {dst : Nat} (hdst : dst ≤ size) {units : List (List UInt8)} :
    InRange size (unitAccesses insertStartCode dst units) ↔
      dst + (units.map fun unit => unit.length + startCodeLength insertStartCode).sum ≤ size := by
  induction units generalizing dst with
  | nil => simpa [unitAccesses, InRange] using hdst
  | cons unit units ih =>
    rw [unitAccesses, inRange_append, insertAccesses_inRange, List.map_cons, List.sum_cons]
    constructor
    · rintro ⟨hunit, hunits⟩
      rw [ih hunit] at hunits
      omega
    · intro h
      have hunit : dst + (unit.length + startCodeLength insertStartCode) ≤ size := by omega
      refine ⟨hunit, (ih hunit).2 ?_⟩
      omega

/-- What is moved ends where the frame ends. -/
theorem shiftAccesses_inRange (h : Contiguous offset after) (hfits : offset + totalSize after ≤ size)
    (hnull : ¬ MovesFromNull after) :
    InRange size (shiftAccesses steps after) ↔ totalSize after = 0 ∧ shiftAccesses steps after = [] ∨
      offset + totalSize after + steps ≤ size := by
  cases after with
  | nil => simp [shiftAccesses, InRange]
  | cons q rest =>
    obtain ⟨hq, -⟩ := h
    by_cases hfirst : q.data.isNull = true
    · have hzero : totalSize (q :: rest) = 0 := Nat.eq_zero_of_not_pos fun hpos => hnull ⟨⟨q, rfl, hfirst⟩, hpos⟩
      have hnone : shiftAccesses steps (q :: rest) = [] := if_pos hfirst
      exact iff_of_true (by rw [hnone]; exact fun _ hmem => absurd hmem List.not_mem_nil) (.inl ⟨hzero, hnone⟩)
    · rw [if_neg hfirst] at hq
      rw [shiftAccesses, if_neg hfirst]
      simp only [InRange, List.forall_mem_cons, List.not_mem_nil, hq, reduceCtorEq, and_false, false_or]
      constructor
      · rintro ⟨-, hmoved, -⟩
        omega
      · intro hmoved
        exact ⟨hfits, by omega, fun _ hmem => hmem.elim⟩

/-- **All that is copied and moved is in the buffer** exactly where the frame with the packet is. -/
theorem insertBufferAccesses_inRange (h : Contiguous 0 (before ++ after)) (hfits : totalSize (before ++ after) ≤ size)
    (hnull : ¬ MovesFromNull after) :
    InRange size (insertBufferAccesses before packet after) ↔
      totalSize (before ++ after) + requiredLength packet ≤ size := by
  obtain ⟨-, hafter⟩ := contiguous_append.1 h
  rw [totalSize_append] at hfits ⊢
  rw [Nat.zero_add] at hafter
  have hpacket : InRange size (if packet.isStapA then
        unitAccesses packet.insertStartCode (totalSize before) (nalUnits (packet.data.drop 1))
      else insertAccesses (totalSize before) packet.data.length packet.insertStartCode) ↔
      totalSize before + requiredLength packet ≤ size := by
    unfold requiredLength
    split
    · exact unitAccesses_inRange (by omega)
    · exact insertAccesses_inRange
  rw [insertBufferAccesses, inRange_append, shiftAccesses_inRange hafter hfits hnull, hpacket]
  constructor
  · rintro ⟨⟨hzero, -⟩ | hmoved, hcopied⟩
    · omega
    · exact hmoved
  · intro hall
    exact ⟨.inr hall, by omega⟩

end Contiguous

/-! ## The units of a STAP-A -/

/-- Each unit has its length in front of it. -/
theorem nalUnits_whole {bytes : List UInt8} (h : H264.verifyStapANaluLengths bytes = true) :
    ((nalUnits bytes).map List.length).sum + 2 * (nalUnits bytes).length = bytes.length := by
  induction bytes using nalUnits.induct with
  | case1 a b rest ih =>
    rw [H264.verifyStapANaluLengths] at h
    split at h
    · cases h
    · rename_i hfits
      have hrest := ih h
      rw [nalUnits]
      simp only [List.map_cons, List.sum_cons, List.length_cons, List.length_take, List.length_drop] at hrest ⊢
      omega
  | case2 bytes hshort =>
    rcases bytes with _ | ⟨a, _ | ⟨b, rest⟩⟩
    · simp [nalUnits]
    · simp [H264.verifyStapANaluLengths] at h
    · exact absurd rfl (hshort a b rest)

/-- The header and the lengths are left out, and the start codes come in. -/
theorem requiredLength_stapA {packet : ReceivedPacket} (hstapA : packet.isStapA = true) (hwhole : Whole packet)
    (hheader : packet.data ≠ []) : requiredLength packet + 1 + 2 * (nalUnits (packet.data.drop 1)).length =
      packet.data.length + (nalUnits (packet.data.drop 1)).length * startCodeLength packet.insertStartCode := by
  have hunits := nalUnits_whole (hwhole hstapA)
  have hpos := List.length_pos_iff.2 hheader
  rw [H264.kNalHeaderSize, List.length_drop] at hunits
  rw [requiredLength, if_pos hstapA, List.sum_map_add, List.map_const', List.sum_replicate_nat]
  omega

/-! ## The buffer grows -/

namespace FrameBuffer

/-- Of a frame that stays below four gigabytes: the buffer has room for the data of the packet and one start code. -/
theorem newSize_ge {size required : Nat} (hsize : size ≤ kMaxJBFrameSizeBytes)
    (hrequired : required + kBufferIncStepSizeBytes + kMaxJBFrameSizeBytes < 4294967296) :
    size + required ≤ newSize size required := by
  have hround : required ≤ (required / kBufferIncStepSizeBytes +
      if required % kBufferIncStepSizeBytes > 0 then 1 else 0) * kBufferIncStepSizeBytes ∧
      (required / kBufferIncStepSizeBytes + if required % kBufferIncStepSizeBytes > 0 then 1 else 0) *
        kBufferIncStepSizeBytes < required + kBufferIncStepSizeBytes := by
    have hdiv := Nat.div_add_mod required kBufferIncStepSizeBytes
    have hmod := Nat.mod_lt required (show 0 < kBufferIncStepSizeBytes by decide)
    by_cases hrest : required % kBufferIncStepSizeBytes > 0
    · rw [if_pos hrest]
      simp only [kBufferIncStepSizeBytes] at *
      omega
    · rw [if_neg hrest]
      simp only [kBufferIncStepSizeBytes] at *
      omega
  simp only [newSize]
  rw [Nat.mod_eq_of_lt (by omega), Nat.mod_eq_of_lt (by omega)]
  omega

end FrameBuffer
end WebRtc.Jitter
