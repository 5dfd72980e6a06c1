import WebRtc.Jitter.Session
import WebRtc.Lib.Machine
import Mathlib.Data.List.Chain
import Mathlib.Order.Fin.Basic

/-!
# A frame is put together from packets in any order

The packets of a frame may arrive in any order and more than once. `Assembled` says what the session has
made of those that have arrived: they stand in order, the buffer holds their data one after the other,
and the session is complete when none is missing. `assembly_exact`: this is so all the time exactly when
no packet without data arrives once more, which the session does not take for a duplicate
(`empty_packet_again`).
-/

namespace WebRtc.Jitter

open VCMSessionInfo

/-- A frame as it is sent: the data of its packets, which are numbered from `seqNum` on. -/
structure SentFrame where
  seqNum : UInt16
  timestamp : UInt32
  codec : VideoCodecType
  payloads : List (List UInt8)
  frameTypeOf : Fin payloads.length → FrameType
  codec_eq : codec = .vp8 ∨ codec = .unknown
  nonempty : payloads ≠ []
  fits : payloads.length ≤ kMaxPacketsInSession
  media : ∀ i, frameTypeOf i ≠ .emptyFrame

namespace SentFrame

variable (f : SentFrame)

/-- The packets of the frame. -/
abbrev Index := Fin f.payloads.length

def payload (i : f.Index) : List UInt8 := f.payloads.get i

def numberOf (i : f.Index) : UInt16 := wrap16 (f.seqNum.toNat + i.val)

def packet (i : f.Index) : ReceivedPacket where
  timestamp := f.timestamp
  seqNum := f.numberOf i
  data := f.payload i
  markerBit := i.val + 1 = f.payloads.length
  frameType := f.frameTypeOf i
  codec := f.codec
  isFirstPacket := i.val = 0

/-- What the packets `is` make together. -/
def bytes (is : List f.Index) : List UInt8 := is.flatMap f.payload

def stored (offset : Nat) (i : f.Index) : StoredPacket :=
  { f.packet i with data := { dataPtr := offset, sizeBytes := (f.payload i).length : Area } }

/-- Each packet at its offset. -/
def layout : Nat → List f.Index → List StoredPacket
  | _, [] => []
  | offset, i :: is => f.stored offset i :: layout (offset + (f.payload i).length) is

def first : f.Index := ⟨0, List.length_pos_iff.2 f.nonempty⟩

def last : f.Index := ⟨f.payloads.length - 1, Nat.sub_lt (List.length_pos_iff.2 f.nonempty) Nat.one_pos⟩

/-- Those that have arrived, in the order in which they were sent. -/
def received (arrived : List f.Index) : List f.Index := (List.finRange f.payloads.length).filter (· ∈ arrived)

end SentFrame

/-- `arrived` tells what has been inserted. -/
structure Assembly (f : SentFrame) where
  arrived : List f.Index
  session : VCMSessionInfo
  frameBuffer : Memory

def Assembly.start (f : SentFrame) (frameBuffer : Memory) : Assembly f where
  arrived := []
  session := {}
  frameBuffer

def Assembly.deliver {f : SentFrame} (a : Assembly f) (i : f.Index) : Assembly f × Int :=
  let inserted := a.session.insertPacket a.frameBuffer (f.packet i)
  ({ arrived := a.arrived ++ [i], session := inserted.2.1, frameBuffer := inserted.2.2 }, inserted.1)

/-- What is expected of the session after these arrivals. -/
structure Assembled {f : SentFrame} (a : Assembly f) : Prop where
  packets : a.session.packets = f.layout 0 (f.received a.arrived)
  sorted : a.session.packets.Pairwise fun p q => isNewerSequenceNumber q.seqNum p.seqNum
  buffer : a.frameBuffer.read 0 (f.bytes (f.received a.arrived)).length = f.bytes (f.received a.arrived)
  complete : a.session.complete = true ↔ ∀ i, i ∈ a.arrived
  frame : (∀ i, i ∈ a.arrived) → a.frameBuffer.read 0 f.payloads.flatten.length = f.payloads.flatten

variable {f : SentFrame}

/-! ## Numbers and places -/

theorem SentFrame.isNewer_numberOf (i j : f.Index) :
    isNewerSequenceNumber (f.numberOf i) (f.numberOf j) = decide (j < i) := by
  have hi := i.isLt
  have hj := j.isLt
  have hfits : f.payloads.length ≤ 1400 := f.fits
  rw [numberOf, numberOf, isNewer_wrap16 (by omega) (by omega)]
  simp only [Fin.lt_def]
  congr 1
  rw [eq_iff_iff]
  omega

theorem SentFrame.numberOf_inj {i j : f.Index} : f.numberOf i = f.numberOf j ↔ i = j := by
  have hi := i.isLt
  have hj := j.isLt
  have hfits : f.payloads.length ≤ 1400 := f.fits
  rw [numberOf, numberOf, wrap16_inj (by omega) (by omega), Fin.ext_iff]
  omega

theorem SentFrame.numberOf_succ {i j : f.Index} : f.numberOf i + 1 = f.numberOf j ↔ i.val + 1 = j.val := by
  have hi := i.isLt
  have hj := j.isLt
  have hfits : f.payloads.length ≤ 1400 := f.fits
  have hone : (1 : UInt16).toNat = 1 := rfl
  rw [numberOf, numberOf, wrap16_add, wrap16_inj (by omega) (by omega), hone]
  omega

theorem SentFrame.passes_stored (i j : f.Index) (offset : Nat) :
    passes (f.packet i).seqNum (f.stored offset j) = decide (i < j) := by
  have hseq : (f.stored offset j).seqNum = f.numberOf j := rfl
  have hnumber : (f.packet i).seqNum = f.numberOf i := rfl
  rw [passes, hseq, hnumber, latestSequenceNumber, isNewer_numberOf]
  by_cases h : j < i
  · simp [h, Fin.not_lt.2 (Fin.le_of_lt h)]
  · by_cases heq : j = i
    · simp [heq]
    · have hlt : i < j := lt_of_le_of_ne (Fin.not_lt.1 h) (Ne.symm heq)
      simp [h, hlt, bne_iff_ne, numberOf_inj, heq]

theorem SentFrame.layout_append (offset : Nat) (is js : List f.Index) :
    f.layout offset (is ++ js) = f.layout offset is ++ f.layout (offset + (f.bytes is).length) js := by
  induction is generalizing offset with
  | nil => rfl
  | cons i is ih =>
    simp only [List.cons_append, layout, ih, bytes, List.flatMap_cons, List.length_append, Nat.add_assoc]

theorem SentFrame.map_seqNum_layout (offset : Nat) (is : List f.Index) :
    (f.layout offset is).map VCMPacket.seqNum = is.map f.numberOf := by
  induction is generalizing offset with
  | nil => rfl
  | cons i is ih => rw [layout, List.map_cons, ih]; rfl

@[simp] theorem SentFrame.layout_length (offset : Nat) (is : List f.Index) :
    (f.layout offset is).length = is.length := by
  rw [← List.length_map VCMPacket.seqNum, map_seqNum_layout, List.length_map]

@[simp] theorem SentFrame.totalSize_layout (offset : Nat) (is : List f.Index) :
    totalSize (f.layout offset is) = (f.bytes is).length := by
  induction is generalizing offset with
  | nil => rfl
  | cons i is ih =>
    have hrest := ih (offset + (f.payload i).length)
    simp only [totalSize] at hrest
    simp [totalSize, layout, hrest, bytes, stored]

theorem SentFrame.mem_layout {offset : Nat} {is : List f.Index} {q : StoredPacket} (h : q ∈ f.layout offset is) :
    ∃ i ∈ is, ∃ place, q = f.stored place i := by
  induction is generalizing offset with
  | nil => cases h
  | cons i is ih =>
    rcases List.mem_cons.1 h with rfl | h
    · exact ⟨i, List.mem_cons_self, offset, rfl⟩
    · obtain ⟨j, hj, place, rfl⟩ := ih h
      exact ⟨j, List.mem_cons_of_mem i hj, place, rfl⟩

/-! ## The place of a packet -/

/-- The packets before and after one. -/
theorem SentFrame.split (i : f.Index) : ∃ lower upper, List.finRange f.payloads.length = lower ++ i :: upper ∧
    (∀ j ∈ lower, j < i) ∧ ∀ j ∈ upper, i < j := by
  obtain ⟨lower, upper, h⟩ := List.append_of_mem (List.mem_finRange i)
  have hsorted := List.pairwise_lt_finRange f.payloads.length
  rw [h, List.pairwise_append] at hsorted
  obtain ⟨_, hupper, hacross⟩ := hsorted
  exact ⟨lower, upper, h, fun j hj => hacross j hj i List.mem_cons_self, (List.pairwise_cons.1 hupper).1⟩

theorem SentFrame.received_concat (arrived : List f.Index) (i : f.Index) : ∃ before after,
    (∀ j ∈ before, j < i) ∧ (∀ j ∈ after, i < j) ∧ f.received (arrived ++ [i]) = before ++ i :: after ∧
      f.received arrived = before ++ (if i ∈ arrived then [i] else []) ++ after := by
  obtain ⟨lower, upper, h, hlower, hupper⟩ := f.split i
  have hsame : ∀ js : List f.Index, i ∉ js → js.filter (· ∈ arrived ++ [i]) = js.filter (· ∈ arrived) := by
    intro js hi
    apply List.filter_congr
    intro j hj
    have hne : j ≠ i := fun heq => hi (heq ▸ hj)
    simp [hne]
  have hl : i ∉ lower := fun hi => Nat.lt_irrefl _ (hlower i hi)
  have hu : i ∉ upper := fun hi => Nat.lt_irrefl _ (hupper i hi)
  refine ⟨lower.filter (· ∈ arrived), upper.filter (· ∈ arrived), fun j hj => hlower j (List.mem_of_mem_filter hj),
    fun j hj => hupper j (List.mem_of_mem_filter hj), ?_, ?_⟩
  · rw [received, h, List.filter_append, List.filter_cons_of_pos (by simp), hsame lower hl, hsame upper hu]
  · rw [received, h, List.filter_append, List.filter_cons]
    by_cases hi : i ∈ arrived <;> simp [hi]

theorem rdropWhile_append {α : Type} {p : α → Bool} {l r : List α}
    (hl : ∀ x ∈ l.getLast?, p x = false) (hr : ∀ x ∈ r, p x) :
    (l ++ r).rdropWhile p = l ∧ (l ++ r).rtakeWhile p = r := by
  induction r using List.reverseRecOn with
  | nil =>
    rw [List.append_nil]
    cases l using List.reverseRecOn with
    | nil => simp
    | append_singleton l x =>
      have hx : p x = false := hl x (by simp)
      simp [hx]
  | append_singleton r x ih =>
    have hx : p x := hr x (by simp)
    obtain ⟨hd, ht⟩ := ih fun y hy => hr y (List.mem_append_left _ hy)
    rw [← List.append_assoc, List.rdropWhile_concat_pos _ _ _ hx, List.rtakeWhile_concat_pos _ _ _ hx, hd, ht]
    exact ⟨rfl, rfl⟩

/-- The loop stops behind the packets that are not after this one. -/
theorem SentFrame.position {i : f.Index} {before after : List f.Index} (offset : Nat) (hbefore : ∀ j ∈ before, j ≤ i)
    (hafter : ∀ j ∈ after, i < j) :
    (f.layout offset (before ++ after)).rdropWhile (passes (f.packet i).seqNum) = f.layout offset before ∧
      (f.layout offset (before ++ after)).rtakeWhile (passes (f.packet i).seqNum) =
        f.layout (offset + (f.bytes before).length) after := by
  rw [layout_append]
  apply rdropWhile_append
  · intro q hq
    obtain ⟨j, hj, place, rfl⟩ := mem_layout (List.mem_of_getLast? hq)
    rw [passes_stored, decide_eq_false_iff_not, Fin.not_lt]
    exact hbefore j hj
  · intro q hq
    obtain ⟨j, hj, place, rfl⟩ := mem_layout hq
    rw [passes_stored, decide_eq_true_eq]
    exact hafter j hj

/-! ## Making room -/

theorem SentFrame.shift_layout (frameBuffer : Memory) (steps offset : Nat) (is : List f.Index) :
    shiftSubsequentPackets frameBuffer steps (f.layout offset is) =
      (f.layout (offset + steps) is, frameBuffer.memmove (offset + steps) offset (f.bytes is).length) := by
  cases is with
  | nil => rw [layout, layout, shiftSubsequentPackets, bytes, List.flatMap_nil, List.length_nil, Memory.memmove_zero]
  | cons i is =>
    have hshift : ∀ (at0 : Nat) (js : List f.Index), (f.layout at0 js).map (shifted steps) =
        f.layout (at0 + steps) js := by
      intro at0 js
      induction js generalizing at0 with
      | nil => rfl
      | cons j js ih => rw [layout, layout, List.map_cons, ih, Nat.add_right_comm]; rfl
    rw [← totalSize_layout offset (i :: is), ← hshift]
    rfl

theorem SentFrame.insertBuffer_layout (frameBuffer : Memory) (before after : List f.Index) (i : f.Index) :
    insertBuffer frameBuffer (f.layout 0 before) (f.packet i) (f.layout (0 + (f.bytes before).length) after) =
      (f.layout 0 (before ++ i :: after),
        (frameBuffer.memmove (0 + (f.bytes before).length + (f.payload i).length) (0 + (f.bytes before).length)
          (f.bytes after).length).memcpy (0 + (f.bytes before).length) (f.payload i),
        (f.payload i).length) := by
  have hsteps : (f.packet i).data.length + startCodeLength (f.packet i).insertStartCode = (f.payload i).length := rfl
  rw [insertBuffer, if_neg (by simp [packet]), hsteps, shift_layout, totalSize_layout, Nat.zero_add,
    layout_append, layout,
    Nat.zero_add]
  rfl

/-- The data of the others moves aside. -/
theorem SentFrame.read_inserted {frameBuffer : Memory} {before after : List f.Index} (i : f.Index)
    (h : frameBuffer.read 0 (f.bytes (before ++ after)).length = f.bytes (before ++ after)) :
    ((frameBuffer.memmove (0 + (f.bytes before).length + (f.payload i).length) (0 + (f.bytes before).length)
      (f.bytes after).length).memcpy (0 + (f.bytes before).length) (f.payload i)).read 0
        (f.bytes (before ++ i :: after)).length = f.bytes (before ++ i :: after) := by
  have hparts : f.bytes (before ++ i :: after) = f.bytes before ++ (f.payload i ++ f.bytes after) := by simp [bytes]
  have hboth : f.bytes (before ++ after) = f.bytes before ++ f.bytes after := List.flatMap_append
  rw [hboth, List.length_append] at h
  rw [hparts, List.length_append, List.length_append]
  exact Memory.read_insert (f.payload i) h

/-! ## What the session tracks -/

theorem SentFrame.packet_media (i : f.Index) : (f.packet i).frameType ≠ .emptyFrame := f.media i

/-- What the session knows of the first packet and of the one with the marker. -/
structure Tracks (a : Assembly f) : Prop where
  first : a.session.firstPacketSeqNum = if f.first ∈ a.arrived then some (f.numberOf f.first) else none
  last : a.session.lastPacketSeqNum = if f.last ∈ a.arrived then some (f.numberOf f.last) else none

theorem SentFrame.eq_first {i : f.Index} : i = f.first ↔ i.val = 0 := Fin.ext_iff

theorem SentFrame.eq_last {i : f.Index} : i = f.last ↔ i.val + 1 = f.payloads.length := by
  have hi := i.isLt
  have hval : f.last.val = f.payloads.length - 1 := rfl
  rw [Fin.ext_iff, hval]
  omega

theorem SentFrame.not_h264 (i : f.Index) : (f.packet i).codec ≠ .h264 := by
  change f.codec ≠ .h264
  rcases f.codec_eq with h | h <;> rw [h] <;> simp

/-- Within the frame nothing is before the first packet. -/
theorem trackFirst_spec {a : Assembly f} (h : Tracks a) (i : f.Index) :
    ∃ s, a.session.trackFirst (f.packet i) = some s ∧
    s.complete = a.session.complete ∧ s.packets = a.session.packets ∧ s.lastPacketSeqNum = a.session.lastPacketSeqNum ∧
    s.firstPacketSeqNum = if f.first ∈ a.arrived ++ [i] then some (f.numberOf f.first) else none := by
  have hnewer : isNewerSequenceNumber (f.numberOf f.first) (f.numberOf i) = false := by
    rw [SentFrame.isNewer_numberOf, decide_eq_false_iff_not]
    exact Nat.not_lt_zero _
  have hany : a.session.firstPacketSeqNum.any (isNewerSequenceNumber · (f.packet i).seqNum) = false := by
    rw [h.first]
    split
    · exact hnewer
    · rfl
  rw [VCMSessionInfo.trackFirst, if_neg (f.not_h264 i), hany]
  by_cases hfirst : f.first ∈ a.arrived
  · have hset : a.session.firstPacketSeqNum = some (f.numberOf f.first) := by rw [h.first, if_pos hfirst]
    rw [if_neg (by simp [hset]), if_neg Bool.false_ne_true, if_pos (List.mem_append_left _ hfirst)]
    split
    · exact ⟨_, rfl, rfl, rfl, rfl, hset⟩
    · exact ⟨_, rfl, rfl, rfl, rfl, hset⟩
  · have hset : a.session.firstPacketSeqNum = none := by rw [h.first, if_neg hfirst]
    by_cases hi : i = f.first
    · have hisFirst : (f.packet i).isFirstPacket = true := decide_eq_true (SentFrame.eq_first.1 hi)
      rw [if_pos ⟨hisFirst, hset⟩, if_pos (by simp [hi])]
      exact ⟨_, rfl, rfl, rfl, rfl, by rw [← hi]; rfl⟩
    · have hisFirst : (f.packet i).isFirstPacket = false := decide_eq_false fun h0 => hi (SentFrame.eq_first.2 h0)
      have hnone : f.first ∉ a.arrived ++ [i] := by simp [hfirst, Ne.symm hi]
      rw [if_neg (by simp [hisFirst]), if_neg Bool.false_ne_true, if_neg hnone]
      split
      · exact ⟨_, rfl, rfl, rfl, rfl, hset⟩
      · exact ⟨_, rfl, rfl, rfl, rfl, hset⟩

/-- And nothing is after the last one. -/
theorem trackLast_spec {s : VCMSessionInfo} {arrived : List f.Index}
    (h : s.lastPacketSeqNum = if f.last ∈ arrived then some (f.numberOf f.last) else none) (i : f.Index) :
    ∃ t, s.trackLast (f.packet i) = some t ∧ t.complete = s.complete ∧ t.packets = s.packets ∧
      t.firstPacketSeqNum = s.firstPacketSeqNum ∧
      t.lastPacketSeqNum = if f.last ∈ arrived ++ [i] then some (f.numberOf f.last) else none := by
  have hnewer : isNewerSequenceNumber (f.numberOf i) (f.numberOf f.last) = false := by
    rw [SentFrame.isNewer_numberOf, decide_eq_false_iff_not, Fin.not_lt, Fin.le_def, SentFrame.last]
    exact Nat.le_sub_one_of_lt i.isLt
  have hany : s.lastPacketSeqNum.any (isNewerSequenceNumber (f.packet i).seqNum) = false := by
    rw [h]
    split
    · exact hnewer
    · rfl
  rw [VCMSessionInfo.trackLast, if_neg (f.not_h264 i), hany]
  by_cases hlast : f.last ∈ arrived
  · have hset : s.lastPacketSeqNum = some (f.numberOf f.last) := by rw [h, if_pos hlast]
    rw [if_neg (by simp [hset]), if_neg Bool.false_ne_true, if_pos (List.mem_append_left _ hlast)]
    exact ⟨_, rfl, rfl, rfl, rfl, hset⟩
  · have hset : s.lastPacketSeqNum = none := by rw [h, if_neg hlast]
    by_cases hi : i = f.last
    · have hmarker : (f.packet i).markerBit = true := decide_eq_true (SentFrame.eq_last.1 hi)
      rw [if_pos ⟨hmarker, hset⟩, if_pos (by simp [hi])]
      exact ⟨_, rfl, rfl, rfl, rfl, by rw [← hi]; rfl⟩
    · have hmarker : (f.packet i).markerBit = false := decide_eq_false fun h0 => hi (SentFrame.eq_last.2 h0)
      rw [if_neg (by simp [hmarker]), if_neg Bool.false_ne_true, if_neg (by simp [hlast, Ne.symm hi])]
      exact ⟨_, rfl, rfl, rfl, rfl, hset⟩

/-! ## Complete -/

theorem allInSequence_iff (packets : List StoredPacket) :
    allInSequence packets = true ↔ (packets.map VCMPacket.seqNum).IsChain fun a b => a + 1 = b := by
  induction packets with
  | nil => simp [allInSequence]
  | cons p rest ih =>
    cases rest with
    | nil => simp [allInSequence]
    | cons q rest => simp [allInSequence, inSequence, ih]

/-- From one number to a later one of the list nothing is missing. -/
theorem mem_of_chain {n : Nat} {i k m : Fin n} {is : List (Fin n)} (h : (i :: is).IsChain fun a b => a.val + 1 = b.val)
    (hm : m ∈ i :: is) (hik : i ≤ k) (hkm : k ≤ m) : k ∈ i :: is := by
  induction is generalizing i with
  | nil =>
    rw [List.mem_singleton] at hm ⊢
    exact le_antisymm (hm ▸ hkm) hik
  | cons j is ih =>
    obtain ⟨hstep, hrest⟩ := List.isChain_cons_cons.1 h
    by_cases heq : k = i
    · exact heq ▸ List.mem_cons_self
    · have hlt : i < k := lt_of_le_of_ne hik (Ne.symm heq)
      have hjk : j ≤ k := by
        rw [Fin.le_def]
        rw [Fin.lt_def] at hlt
        omega
      have hmj : m ∈ j :: is := by
        rcases List.mem_cons.1 hm with rfl | hm
        · exact absurd hkm (Fin.not_le.2 hlt)
        · exact hm
      exact List.mem_cons_of_mem i (ih hrest hmj hjk)

theorem SentFrame.mem_received {arrived : List f.Index} {i : f.Index} : i ∈ f.received arrived ↔ i ∈ arrived := by
  simp [received]

theorem SentFrame.received_sorted (arrived : List f.Index) : (f.received arrived).Pairwise (· < ·) :=
  (List.pairwise_lt_finRange _).filter _

/-- With the first packet and the one with the marker there is a gap unless all are there. -/
theorem SentFrame.allInSequence_received {arrived : List f.Index} (hfirst : f.first ∈ arrived)
    (hlast : f.last ∈ arrived) :
    allInSequence (f.layout 0 (f.received arrived)) = true ↔ ∀ i, i ∈ arrived := by
  have hchain : allInSequence (f.layout 0 (f.received arrived)) = true ↔
      (f.received arrived).IsChain fun i j => i.val + 1 = j.val := by
    rw [allInSequence_iff, map_seqNum_layout, List.isChain_map]
    simp only [numberOf_succ]
  rw [hchain]
  constructor
  · intro h k
    rw [← mem_received] at hfirst hlast ⊢
    cases hr : f.received arrived with
    | nil => rw [hr] at hfirst; cases hfirst
    | cons i is =>
      rw [hr] at h hfirst hlast
      have hi : i ≤ f.first := by
        rcases List.mem_cons.1 hfirst with h0 | h0
        · exact le_of_eq h0.symm
        · have hsorted := f.received_sorted arrived
          rw [hr] at hsorted
          exact le_of_lt ((List.pairwise_cons.1 hsorted).1 _ h0)
      refine mem_of_chain h hlast (le_trans hi (Nat.zero_le _)) ?_
      exact Nat.le_sub_one_of_lt k.isLt
  · intro h
    have hall : f.received arrived = List.finRange f.payloads.length := List.filter_eq_self.2 fun i _ => by simp [h i]
    rw [hall, List.isChain_iff_getElem]
    intro i hi
    simp

theorem updateCompleteSession_complete {s : VCMSessionInfo} (h : s.complete = false) :
    s.updateCompleteSession.complete = (s.haveFirstPacket && s.haveLastPacket && allInSequence s.packets) := by
  rw [VCMSessionInfo.updateCompleteSession]
  split
  · next hboth => rw [hboth, Bool.true_and]
  · next hboth => rw [h, Bool.eq_false_iff.2 hboth, Bool.false_and]

theorem updateCompleteSession_rest (s : VCMSessionInfo) : s.updateCompleteSession.packets = s.packets ∧
    s.updateCompleteSession.firstPacketSeqNum = s.firstPacketSeqNum ∧
    s.updateCompleteSession.lastPacketSeqNum = s.lastPacketSeqNum := by
  rw [VCMSessionInfo.updateCompleteSession]
  split <;> exact ⟨rfl, rfl, rfl⟩

theorem isSome_if {α : Type} (p : Prop) [Decidable p] (x : α) : (if p then some x else none).isSome = decide p := by
  by_cases h : p <;> simp [h]

/-! ## One arrival -/

theorem insertPacket_inserts {s first last : VCMSessionInfo} {frameBuffer written : Memory} {packet : ReceivedPacket}
    {before after packets : List StoredPacket} {length : Nat} (hmedia : packet.frameType ≠ .emptyFrame)
    (hroom : s.packets.length ≠ kMaxPacketsInSession) (hbefore : s.packets.rdropWhile (passes packet.seqNum) = before)
    (hafter : s.packets.rtakeWhile (passes packet.seqNum) = after)
    (hduplicate : isDuplicate before packet.seqNum = false)
    (hfirst : s.trackFirst packet = some first) (hlast : first.trackLast packet = some last)
    (hinsert : insertBuffer frameBuffer before packet after = (packets, written, length)) :
    s.insertPacket frameBuffer packet = ((length : Int), updateCompleteSession { last with packets }, written) := by
  rw [VCMSessionInfo.insertPacket, if_neg hmedia, if_neg hroom]
  simp only [hbefore, hafter, hduplicate, hfirst, hlast, hinsert, Bool.false_eq_true, if_false]

/-- A packet that is put into the list: it was not there, or it was there without data. -/
theorem deliver_insert {a : Assembly f} (ht : Tracks a) (h : Assembled a) (i : f.Index)
    (hroom : a.session.packets.length ≠ kMaxPacketsInSession) {before after : List f.Index}
    (hreceived : f.received a.arrived = before ++ after) (hbefore : ∀ j ∈ before, j ≤ i) (hafter : ∀ j ∈ after, i < j)
    (hnew : ∀ j ∈ before, j = i → f.payload i = []) :
    (a.deliver i).1.session.packets = f.layout 0 (before ++ i :: after) ∧
    (a.deliver i).1.frameBuffer.read 0 (f.bytes (before ++ i :: after)).length = f.bytes (before ++ i :: after) ∧
    (a.session.complete = false → (a.deliver i).1.session.complete =
      (decide (f.first ∈ a.arrived ++ [i]) && decide (f.last ∈ a.arrived ++ [i]) &&
        allInSequence (f.layout 0 (before ++ i :: after)))) ∧
    Tracks (a.deliver i).1 := by
  obtain ⟨s, hs, hscomplete, -, hslast, hsfirst⟩ := trackFirst_spec ht i
  rw [ht.last] at hslast
  obtain ⟨t, hlast, htcomplete, -, htfirst, htlast⟩ := trackLast_spec hslast i
  rw [hsfirst] at htfirst
  obtain ⟨hdrop, htake⟩ := f.position 0 hbefore hafter
  have hbuffer := h.buffer
  rw [hreceived] at hbuffer
  have hread := f.read_inserted i hbuffer
  have hduplicate : isDuplicate (f.layout 0 before) (f.packet i).seqNum = false := by
    rw [isDuplicate, Option.any_eq_false]
    intro q hq
    obtain ⟨j, hj, place, rfl⟩ := SentFrame.mem_layout (List.mem_of_getLast? hq)
    rw [← Bool.not_eq_true, Bool.and_eq_true, beq_iff_eq, decide_eq_true_eq]
    rintro ⟨hseq, hsize⟩
    have hji : j = i := SentFrame.numberOf_inj.1 hseq
    have hempty := hnew j hj hji
    rw [hji, SentFrame.stored, hempty] at hsize
    exact Nat.lt_irrefl 0 hsize
  rw [← hreceived, ← h.packets] at hdrop htake
  have hinsert := insertPacket_inserts (f.packet_media i) hroom hdrop htake hduplicate hs hlast
    (f.insertBuffer_layout a.frameBuffer before after i)
  obtain ⟨hpackets, hfirstSeq, hlastSeq⟩ :=
    updateCompleteSession_rest { t with packets := f.layout 0 (before ++ i :: after) }
  have hsession : (a.deliver i).1.session = updateCompleteSession
      { t with packets := f.layout 0 (before ++ i :: after) } := by
    rw [Assembly.deliver, hinsert]
  have hbufferAfter : (a.deliver i).1.frameBuffer = _ := congrArg (fun r => r.2.2) hinsert
  rw [hbufferAfter]
  refine ⟨by rw [hsession, hpackets], hread, fun hcomplete => ?_, ⟨?_, ?_⟩⟩
  rotate_left
  · rw [hsession, hfirstSeq]
    exact htfirst
  · rw [hsession, hlastSeq]
    exact htlast
  rw [hsession]
  have hincomplete : ({ t with packets := f.layout 0 (before ++ i :: after) } : VCMSessionInfo).complete = false :=
    (htcomplete.trans hscomplete).trans hcomplete
  have hnonempty : f.layout 0 (before ++ i :: after) ≠ [] := by
    rw [ne_eq, ← List.length_eq_zero_iff]
    simp
  refine (updateCompleteSession_complete hincomplete).trans ?_
  simp only [haveFirstPacket, haveLastPacket, htfirst, htlast, decide_eq_true hnonempty, isSome_if, Bool.true_and]

theorem le_of_mem_concat {n : Nat} {i : Fin n} {before : List (Fin n)} (h : ∀ j ∈ before, j < i) :
    ∀ j ∈ before ++ [i], j ≤ i := by
  intro j hj
  rcases List.mem_append.1 hj with hj | hj
  · exact le_of_lt (h j hj)
  · exact le_of_eq (List.mem_singleton.1 hj)

/-- The packet is there with its data, or the list is full: nothing changes. -/
theorem deliver_again {a : Assembly f} (h : Assembled a) {i : f.Index} (hi : i ∈ a.arrived)
    (hkept : f.payload i = [] → a.session.packets.length = kMaxPacketsInSession) :
    (a.deliver i).1.session = a.session ∧ (a.deliver i).1.frameBuffer = a.frameBuffer := by
  have hsame : ∀ r : Int, a.session.insertPacket a.frameBuffer (f.packet i) = (r, a.session, a.frameBuffer) →
      (a.deliver i).1.session = a.session ∧ (a.deliver i).1.frameBuffer = a.frameBuffer := by
    intro r hr
    rw [Assembly.deliver, hr]
    exact ⟨rfl, rfl⟩
  by_cases hfull : a.session.packets.length = kMaxPacketsInSession
  · apply hsame (-1)
    rw [VCMSessionInfo.insertPacket, if_neg (f.packet_media i), if_pos hfull]
  · apply hsame (-2)
    obtain ⟨before, after, hbefore, hafter, -, hreceived⟩ := f.received_concat a.arrived i
    rw [if_pos hi, List.append_assoc] at hreceived
    obtain ⟨hdrop, -⟩ := f.position 0 (le_of_mem_concat hbefore) hafter
    rw [List.append_assoc, ← hreceived, ← h.packets] at hdrop
    have hduplicate : isDuplicate (f.layout 0 (before ++ [i])) (f.packet i).seqNum = true := by
      have hdata : 0 < (f.payload i).length := List.length_pos_iff.2 fun h0 => hfull (hkept h0)
      rw [isDuplicate, SentFrame.layout_append, SentFrame.layout, SentFrame.layout, List.getLast?_concat]
      simp [SentFrame.stored, hdata]
    rw [VCMSessionInfo.insertPacket, if_neg (f.packet_media i), if_neg hfull]
    simp only [hdrop, hduplicate, if_true]

/-- The list gets longer though nothing new has arrived. -/
theorem deliver_empty_again {a : Assembly f} (ht : Tracks a) (h : Assembled a) {i : f.Index} (hi : i ∈ a.arrived)
    (hempty : f.payload i = []) (hroom : a.session.packets.length ≠ kMaxPacketsInSession) :
    ¬ Assembled (a.deliver i).1 := by
  intro hafter
  obtain ⟨before, after, hbefore, hlater, hconcat, hreceived⟩ := f.received_concat a.arrived i
  rw [if_pos hi] at hreceived
  obtain ⟨hpackets, -⟩ := deliver_insert ht h i hroom hreceived (le_of_mem_concat hbefore) hlater fun _ _ _ => hempty
  have hexpected : (a.deliver i).1.session.packets = f.layout 0 (before ++ i :: after) := by
    rw [hafter.packets, ← hconcat]
    rfl
  have hlength := congrArg List.length (hpackets.symm.trans hexpected)
  simp only [SentFrame.layout_length, List.length_append, List.length_cons, List.length_nil] at hlength
  omega

theorem SentFrame.layout_sorted (offset : Nat) {is : List f.Index} (h : is.Pairwise (· < ·)) :
    (f.layout offset is).Pairwise fun p q => isNewerSequenceNumber q.seqNum p.seqNum := by
  have hnumbers : (is.map f.numberOf).Pairwise fun m n => isNewerSequenceNumber n m := by
    rw [List.pairwise_map]
    exact h.imp fun hlt => by rw [isNewer_numberOf]; exact decide_eq_true hlt
  rw [← f.map_seqNum_layout offset, List.pairwise_map] at hnumbers
  exact hnumbers

theorem SentFrame.bytes_received {arrived : List f.Index} (h : ∀ i, i ∈ arrived) :
    f.bytes (f.received arrived) = f.payloads.flatten := by
  have hall : f.received arrived = List.finRange f.payloads.length := List.filter_eq_self.2 fun i _ => by simp [h i]
  rw [hall, bytes, List.flatMap_def]
  congr 1
  exact List.map_get_finRange f.payloads

/-- What is in order makes an assembled state. -/
theorem assembled_of {a : Assembly f} (hpackets : a.session.packets = f.layout 0 (f.received a.arrived))
    (hbuffer : a.frameBuffer.read 0 (f.bytes (f.received a.arrived)).length = f.bytes (f.received a.arrived))
    (hcomplete : a.session.complete = true ↔ ∀ i, i ∈ a.arrived) : Assembled a where
  packets := hpackets
  sorted := hpackets ▸ f.layout_sorted 0 (f.received_sorted a.arrived)
  buffer := hbuffer
  complete := hcomplete
  frame := fun hall => by rw [← SentFrame.bytes_received hall]; exact hbuffer

/-- A packet without data does not arrive once more while there is room. -/
def NoEmptyAgain (a : Assembly f) (i : f.Index) : Prop :=
  f.payload i = [] → i ∈ a.arrived → a.session.packets.length = kMaxPacketsInSession

theorem deliver_keeps {a : Assembly f} {i : f.Index} (h : Assembled a ∧ Tracks a) (hi : NoEmptyAgain a i) :
    Assembled (a.deliver i).1 ∧ Tracks (a.deliver i).1 := by
  obtain ⟨ha, ht⟩ := h
  have harrived : (a.deliver i).1.arrived = a.arrived ++ [i] := rfl
  by_cases hmem : i ∈ a.arrived
  · obtain ⟨hsession, hbuffer⟩ := deliver_again ha hmem fun h0 => hi h0 hmem
    have hiff : ∀ j, j ∈ a.arrived ++ [i] ↔ j ∈ a.arrived := by
      intro j
      rw [List.mem_append, List.mem_singleton]
      exact ⟨fun hj => hj.elim id fun heq => heq ▸ hmem, Or.inl⟩
    have hreceived : f.received (a.arrived ++ [i]) = f.received a.arrived := by simp only [SentFrame.received, hiff]
    refine ⟨assembled_of ?_ ?_ ?_, ⟨?_, ?_⟩⟩
    · rw [hsession, harrived, hreceived, ha.packets]
    · rw [hbuffer, harrived, hreceived, ha.buffer]
    · simp only [hsession, harrived, hiff]
      exact ha.complete
    · simp only [hsession, harrived, hiff]
      exact ht.first
    · simp only [hsession, harrived, hiff]
      exact ht.last
  · obtain ⟨before, after, hbefore, hafter, hconcat, hreceived⟩ := f.received_concat a.arrived i
    rw [if_neg hmem, List.append_nil] at hreceived
    have hincomplete : a.session.complete = false := Bool.eq_false_iff.2 fun hc => hmem (ha.complete.1 hc i)
    have hroom : a.session.packets.length ≠ kMaxPacketsInSession := by
      have hlength := congrArg List.length hconcat
      have hle := List.length_filter_le (· ∈ a.arrived ++ [i]) (List.finRange f.payloads.length)
      have hfits := f.fits
      rw [SentFrame.received] at hlength
      rw [List.length_finRange, hlength] at hle
      rw [ha.packets, hreceived, SentFrame.layout_length]
      simp only [List.length_append, List.length_cons] at hle ⊢
      omega
    obtain ⟨hpackets, hbuffer, hcomplete, htracks⟩ := deliver_insert ht ha i hroom hreceived
      (fun j hj => le_of_lt (hbefore j hj)) hafter fun j hj heq => absurd (hbefore j hj) (heq ▸ Nat.lt_irrefl _)
    refine ⟨assembled_of ?_ ?_ ?_, htracks⟩
    · rw [hpackets, harrived, hconcat]
    · rw [harrived, hconcat, hbuffer]
    · rw [hcomplete hincomplete, harrived, ← hconcat, Bool.and_eq_true, Bool.and_eq_true,
        decide_eq_true_eq, decide_eq_true_eq]
      constructor
      · rintro ⟨⟨hf, hl⟩, hall⟩
        exact (SentFrame.allInSequence_received hf hl).1 hall
      · intro hall
        exact ⟨⟨hall _, hall _⟩, (SentFrame.allInSequence_received (hall _) (hall _)).2 hall⟩

/-! ## Every order of arrival -/

theorem assembled_start (f : SentFrame) (frameBuffer : Memory) :
    Assembled (Assembly.start f frameBuffer) ∧ Tracks (Assembly.start f frameBuffer) := by
  have hnone : f.received [] = [] := List.filter_eq_nil_iff.2 fun i _ => by simp
  refine ⟨assembled_of ?_ ?_ ?_, ⟨rfl, rfl⟩⟩
  · rw [Assembly.start, hnone]
    rfl
  · rw [Assembly.start, hnone]
    rfl
  · refine iff_of_false Bool.false_ne_true fun hall => ?_
    cases hall f.first

/-- **Assembly.** Whatever the order of arrival and whatever arrives more than once, the session is in
order after each packet exactly when no packet without data arrives again. -/
theorem assembly_exact (f : SentFrame) (frameBuffer : Memory) (arrivals : List f.Index) :
    Machine.Always Assembly.deliver Assembled (Assembly.start f frameBuffer) arrivals ↔
      Machine.Meets Assembly.deliver NoEmptyAgain (Assembly.start f frameBuffer) arrivals := by
  apply Machine.always_iff_meets (P := fun a => Assembled a ∧ Tracks a)
  · exact fun a h => h.1
  · exact fun a i h hi => deliver_keeps h hi
  · intro a i h hafter hempty hi
    by_contra hroom
    exact deliver_empty_again h.2 h.1 hi hempty hroom hafter
  · exact assembled_start f frameBuffer

/-- Two packets, of which the last one has no data. -/
def emptyTail : SentFrame where
  seqNum := 65535
  timestamp := 0
  codec := .unknown
  payloads := [[7], []]
  frameTypeOf := fun _ => .videoFrameKey
  codec_eq := Or.inr rfl
  nonempty := by simp
  fits := by simp [kMaxPacketsInSession]
  media := by simp

/-- The session was complete, and it is not any more. -/
theorem empty_packet_again :
    ¬ Machine.Always Assembly.deliver Assembled (Assembly.start emptyTail fun _ => 0)
      [emptyTail.first, emptyTail.last, emptyTail.last] := by
  rintro ⟨-, -, -, h⟩
  have hall : ∀ i : emptyTail.Index, i ∈ [emptyTail.first, emptyTail.last, emptyTail.last] := by decide
  exact absurd (h.complete.2 hall) (by decide)

end WebRtc.Jitter
