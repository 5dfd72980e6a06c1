import WebRtc.Rtp.Sender

/-!
# What the sender writes and the receiver finds

The extensions in use stand in the block in the order of their ids. The parser takes them in this order
(`parsedExtension_elements`), and another value of one changes nothing for the others (`reported_update`).
-/

namespace WebRtc.Rtp

open Bytes

/-- Every type is registered once at most. -/
structure RtpHeaderExtensionMap.Proper (m : RtpHeaderExtensionMap) : Prop where
  distinct : m.entries.Pairwise fun a b => a.type ≠ b.type
  known : ∀ e ∈ m.entries, e.type ≠ .none

variable {m : RtpHeaderExtensionMap}

/-! ## The map -/

/-- In a list with distinct keys the first entry with a key is the one. -/
theorem find?_of_pairwise {α β : Type} [DecidableEq β] {key : α → β} {l : List α}
    (h : l.Pairwise fun a b => key a ≠ key b) {e : α}
    (he : e ∈ l) : l.find? (fun a => key a = key e) = some e := by
  induction l with
  | nil => simp at he
  | cons a l ih =>
    rw [List.pairwise_cons] at h
    rcases List.mem_cons.1 he with rfl | he
    · simp
    · have hne : ¬ key a = key e := h.1 e he
      rw [List.find?_cons_of_neg (by simpa using hne)]
      exact ih h.2 he

theorem getId_mem (hm : m.Proper) {e : HeaderExtension} (he : e ∈ m.entries) : m.getId e.type = some e.id := by
  rw [RtpHeaderExtensionMap.getId, find?_of_pairwise hm.distinct he, Option.map_some]

theorem getType_mem {e : HeaderExtension} (he : e ∈ m.entries) : m.getType e.id = some e.type := by
  have hdistinct : m.entries.Pairwise fun a b => a.id ≠ b.id := by
    refine m.sorted.imp ?_
    intro a b hlt heq
    rw [heq] at hlt
    exact absurd hlt (UInt8.lt_irrefl _)
  rw [RtpHeaderExtensionMap.getType, find?_of_pairwise hdistinct he, Option.map_some]

theorem mem_active {e : HeaderExtension} (he : e ∈ m.activeEntries) : e ∈ m.entries := List.mem_of_mem_filter he

/-- There are at most 14 ids. -/
theorem entries_few (m : RtpHeaderExtensionMap) : m.entries.length ≤ 14 := by
  have h : ∀ (l : List HeaderExtension) (lo : Nat), l.Pairwise (fun a b => a.id < b.id) →
      (∀ e ∈ l, lo ≤ e.id.toNat ∧ e.id.toNat ≤ 14) → lo ≤ 15 → l.length + lo ≤ 15 := by
    intro l
    induction l with
    | nil => simp
    | cons e l ih =>
      intro lo hsorted hrange hlo
      rw [List.pairwise_cons] at hsorted
      have he := hrange e List.mem_cons_self
      have hrest := ih (e.id.toNat + 1) hsorted.2 (fun e' he' => ?_) (by omega)
      · simp only [List.length_cons]
        omega
      · have hlt := UInt8.lt_iff_toNat_lt.1 (hsorted.1 e' he')
        exact ⟨hlt, (hrange e' (List.mem_cons_of_mem _ he')).2⟩
  have h1 := h m.entries 1 m.sorted (fun e he => ?_) (by omega)
  · omega
  · obtain ⟨hlo, hhi⟩ := m.range e he
    exact ⟨UInt8.le_iff_toNat_le.1 hlo, UInt8.le_iff_toNat_le.1 hhi⟩

/-! ## What is written -/

/-- An extension with its value. -/
def element (values : RTPExtensionType → List UInt8) (e : HeaderExtension) : List UInt8 :=
  RTPSender.elementOctet e.id (e.type.length - 2) :: values e.type

/-- The length of every value is that of its type. -/
def Sized (values : RTPExtensionType → List UInt8) : Prop := ∀ t, t ≠ .none → (values t).length + 1 = t.length

/-- The values that the sender puts into a new header. -/
def RTPSender.values (s : RTPSender) : RTPExtensionType → List UInt8
  | .none => []
  | .transmissionTimeOffset => be24 (toU32 s.transmissionTimeOffset)
  | .audioLevel => [0x80]
  | .absoluteSendTime => be24 s.absoluteSendTime
  | .videoRotation => [convertVideoRotationToCVOByte s.rotation]
  | .transportSequenceNumber => be16 s.transportSequenceNumber

theorem RTPSender.values_sized (s : RTPSender) : Sized s.values := by
  intro t ht
  cases t <;> first | rfl | exact absurd rfl ht

theorem element_length {values : RTPExtensionType → List UInt8} (h : Sized values)
    {e : HeaderExtension} (he : e.type ≠ .none) :
    (element values e).length = e.type.length := by
  rw [element, List.length_cons]
  exact h e.type he

/-- All of the extensions in use. -/
def elements (m : RtpHeaderExtensionMap) (values : RTPExtensionType → List UInt8) : List UInt8 :=
  m.activeEntries.flatMap (element values)

theorem flatMap_element_length {values : RTPExtensionType → List UInt8} (h : Sized values) (l : List HeaderExtension)
    (hl : ∀ e ∈ l, e.type ≠ .none) : (l.flatMap (element values)).length = (l.map fun e => e.type.length).sum := by
  induction l with
  | nil => rfl
  | cons e l ih =>
    rw [List.flatMap_cons, List.length_append, element_length h (hl e List.mem_cons_self), List.map_cons, List.sum_cons,
      ih fun e he => hl e (List.mem_cons_of_mem _ he)]

section Writer
variable {s : RTPSender}

theorem buildOne_eq (hm : s.rtpHeaderExtensionMap.Proper) {e : HeaderExtension}
    (he : e ∈ s.rtpHeaderExtensionMap.entries) :
    s.buildOne e.type = element s.values e := by
  have hid := getId_mem hm he
  have hknown := hm.known e he
  obtain ⟨id, type, active⟩ := e
  dsimp only at hid hknown ⊢
  cases type with
  | none => exact absurd rfl hknown
  | transmissionTimeOffset =>
    simp only [RTPSender.buildOne, RTPSender.buildTransmissionTimeOffsetExtension, RTPSender.buildExtension, hid]
    rfl
  | audioLevel =>
    simp only [RTPSender.buildOne, RTPSender.buildAudioLevelExtension, RTPSender.buildExtension, hid]
    rfl
  | absoluteSendTime =>
    simp only [RTPSender.buildOne, RTPSender.buildAbsoluteSendTimeExtension, RTPSender.buildExtension, hid]
    rfl
  | videoRotation =>
    simp only [RTPSender.buildOne, RTPSender.buildVideoRotationExtension, RTPSender.buildExtension, hid]
    rfl
  | transportSequenceNumber =>
    simp only [RTPSender.buildOne, RTPSender.buildTransportSequenceNumberExtension, RTPSender.buildExtension, hid]
    rfl

/-- The first extension in use of those in `l`. -/
def firstOf (l : List HeaderExtension) : RTPExtensionType :=
    ((l.find? HeaderExtension.active).map HeaderExtension.type).getD .none

theorem next_eq {e : HeaderExtension} {pre rest : List HeaderExtension} (h : m.entries = pre ++ e :: rest)
    (hm : m.Proper) (hactive : e.active = true) : m.next e.type = firstOf rest := by
  have hdistinct := hm.distinct
  rw [h, List.pairwise_append] at hdistinct
  have hdrop : m.entries.dropWhile (fun a => decide (a.type ≠ e.type)) = e :: rest := by
    rw [h, List.dropWhile_append_of_pos]
    · simp
    · intro a ha
      have hne := hdistinct.2.2 a ha e List.mem_cons_self
      simpa using hne
  rw [RtpHeaderExtensionMap.next, hdrop]
  dsimp only
  rw [if_pos hactive]
  rfl

/-- **The walk over the map** comes to every extension in use. -/
theorem buildAll_eq (hm : s.rtpHeaderExtensionMap.Proper) (pre rest : List HeaderExtension)
    (h : s.rtpHeaderExtensionMap.entries = pre ++ rest) {fuel : Nat} (hfuel : rest.length ≤ fuel) :
    s.buildAll fuel (firstOf rest) = some ((rest.filter HeaderExtension.active).flatMap (element s.values)) := by
  induction rest generalizing pre fuel with
  | nil => cases fuel <;> rfl
  | cons e rest ih =>
    have hmem : e ∈ s.rtpHeaderExtensionMap.entries := by rw [h]; simp
    have h' : s.rtpHeaderExtensionMap.entries = (pre ++ [e]) ++ rest := by rw [h]; simp
    cases hactive : e.active with
    | false =>
      have hfirst : firstOf (e :: rest) = firstOf rest := by simp [firstOf, hactive]
      rw [hfirst, List.filter_cons_of_neg (by simp [hactive])]
      exact ih (pre ++ [e]) h' (Nat.le_of_succ_le hfuel)
    | true =>
      obtain ⟨fuel, rfl⟩ : ∃ k, fuel = k + 1 := ⟨fuel - 1, by simp only [List.length_cons] at hfuel; omega⟩
      have hfirst : firstOf (e :: rest) = e.type := by simp [firstOf, hactive]
      rw [hfirst, RTPSender.buildAll, if_neg (hm.known e hmem), next_eq h hm hactive,
        ih (pre ++ [e]) h' (Nat.le_of_succ_le_succ hfuel), Option.map_some, buildOne_eq hm hmem,
        List.filter_cons_of_pos hactive, List.flatMap_cons]

end Writer

/-! ## The packet -/

/-- The extensions and the padding behind them. -/
def blockData (m : RtpHeaderExtensionMap) (values : RTPExtensionType → List UInt8) : List UInt8 :=
  elements m values ++ List.replicate (RTPSender.word32Align (elements m values).length - (elements m values).length) 0

theorem word32Align_spec (n : Nat) : n ≤ RTPSender.word32Align n ∧ RTPSender.word32Align n < n + 4 ∧
    RTPSender.word32Align n % 4 = 0 := by
  unfold RTPSender.word32Align
  split <;> omega

theorem blockData_length (m : RtpHeaderExtensionMap) (values : RTPExtensionType → List UInt8) :
    (blockData m values).length = RTPSender.word32Align (elements m values).length := by
  have h := word32Align_spec (elements m values).length
  rw [blockData, List.length_append, List.length_replicate]
  omega

theorem type_length_le (t : RTPExtensionType) : t.length ≤ 4 := by
  cases t <;> decide

theorem elements_length (hm : m.Proper) {values : RTPExtensionType → List UInt8} (h : Sized values) :
    (elements m values).length = (m.activeEntries.map fun e => e.type.length).sum :=
  flatMap_element_length h _ fun e he => hm.known e (mem_active he)

theorem elements_few (hm : m.Proper) {values : RTPExtensionType → List UInt8} (h : Sized values) :
    (elements m values).length ≤ 56 := by
  have hsum : ∀ l : List HeaderExtension, (l.map fun e => e.type.length).sum ≤ 4 * l.length := by
    intro l
    induction l with
    | nil => exact Nat.le_refl 0
    | cons e l ih =>
      have he := type_length_le e.type
      simp only [List.map_cons, List.sum_cons, List.length_cons]
      omega
  have hle := hsum m.activeEntries
  have hfilter : m.activeEntries.length ≤ m.entries.length := List.length_filter_le _ _
  have hfew := entries_few m
  rw [elements_length hm h]
  omega

/-- The extension of a header with these values. -/
def blockOf (hm : m.Proper) {values : RTPExtensionType → List UInt8} (h : Sized values) : Option ExtensionBlock :=
  if m.activeEntries = [] then none
  else some
    { profile := 0xBEDE
      data := blockData m values
      words := by
        rw [blockData_length]
        exact (word32Align_spec _).2.2
      few := by
        have h1 := elements_few hm h
        have h2 := word32Align_spec (elements m values).length
        rw [blockData_length]
        omega }

/-- The arguments of `CreateRtpHeader`, and the payload behind the header. -/
structure PacketArgs where
  payloadType : UInt8
  ssrc : UInt32
  markerBit : Bool
  timestamp : UInt32
  sequenceNumber : UInt16
  csrcs : List UInt32
  payload : List UInt8
  csrcs_le : csrcs.length ≤ 15

theorem and_127_lt (t : UInt8) : t &&& 0x7F < 128 := low7_lt t

/-- The packet with these values of its extensions. -/
def PacketArgs.packet (a : PacketArgs) (hm : m.Proper) {values : RTPExtensionType → List UInt8}
    (h : Sized values) : RtpPacket where
  markerBit := a.markerBit || decide (a.payloadType &&& 0x80 ≠ 0)
  payloadType := a.payloadType &&& 0x7F
  sequenceNumber := a.sequenceNumber
  timestamp := a.timestamp
  ssrc := a.ssrc
  csrcs := a.csrcs
  extension := blockOf hm h
  payload := a.payload
  padding := []
  payloadType_lt := and_127_lt _
  csrcs_le := a.csrcs_le
  padding_last := by simp

theorem second_eq (b : Bool) (t : UInt8) :
    flag (b || decide (t &&& 0x80 ≠ 0)) 0x80 ||| (t &&& 0x7F) = if b then t ||| 0x80 else t := by
  revert t
  cases b <;> decide +kernel

section Created
variable {s : RTPSender} (hm : s.rtpHeaderExtensionMap.Proper) (a : PacketArgs)

/-- The sender's header for the packet. -/
def PacketArgs.header (a : PacketArgs) (s : RTPSender) : Option (List UInt8) :=
  s.createRtpHeader a.payloadType a.ssrc a.markerBit a.timestamp a.sequenceNumber a.csrcs

theorem buildRTPHeaderExtension_eq :
    s.buildRTPHeaderExtension = some (((blockOf hm s.values_sized).map ExtensionBlock.bytes).getD []) := by
  unfold RTPSender.buildRTPHeaderExtension blockOf RtpHeaderExtensionMap.size
  by_cases hnone : s.rtpHeaderExtensionMap.activeEntries = []
  · rw [if_pos (by simp [hnone]), if_pos hnone]
    rfl
  · have hwalk := buildAll_eq hm [] s.rtpHeaderExtensionMap.entries rfl (Nat.le_refl _)
    have hne : (elements s.rtpHeaderExtensionMap s.values).length ≠ 0 := by
      intro h0
      obtain ⟨e, rest, he⟩ := List.exists_cons_of_ne_nil hnone
      rw [elements, he, List.flatMap_cons, element] at h0
      simp at h0
    rw [if_neg (by simpa using hnone), if_neg hnone]
    show (s.buildAll _ (firstOf s.rtpHeaderExtensionMap.entries)).map _ = _
    rw [hwalk, Option.map_some]
    show some (if (elements s.rtpHeaderExtensionMap s.values).length = 0 then [] else _) = _
    rw [if_neg hne]
    rfl

theorem first_eq (x : Bool) {n : Nat} (hn : n ≤ 15) :
    flag x 0x10 ||| (0x80 ||| UInt8.ofNat n) = 0x80 ||| flag false 0x20 ||| flag x 0x10 ||| UInt8.ofNat n := by
  have h : ∀ n < 16, ∀ x : Bool,
      flag x 0x10 ||| (0x80 ||| UInt8.ofNat n) = 0x80 ||| flag false 0x20 ||| flag x 0x10 ||| UInt8.ofNat n := by
    decide +kernel
  exact h n (Nat.lt_succ_of_le hn) x

/-- **The header that is created** is that of the packet. -/
theorem header_eq : a.header s = some (a.packet hm s.values_sized).headerBytes := by
  have hsome : ∀ b : Option ExtensionBlock, decide (((b.map ExtensionBlock.bytes).getD []).length > 0) = b.isSome := by
    intro b
    cases b with
    | none => rfl
    | some e =>
      have hlen : e.bytes.length = 4 + e.data.length := by
        simp only [ExtensionBlock.bytes, List.length_append, be16_length]
      simp only [Option.map_some, Option.getD_some, hlen, Option.isSome_some, decide_eq_true_eq]
      exact Nat.lt_of_lt_of_le (Nat.succ_pos 3) (Nat.le_add_right 4 _)
  have hbyte : (a.packet hm s.values_sized).firstByte =
      flag (blockOf hm s.values_sized).isSome 0x10 ||| (0x80 ||| UInt8.ofNat a.csrcs.length) := by
    rw [first_eq _ a.csrcs_le]
    rfl
  rw [PacketArgs.header, RTPSender.createRtpHeader, buildRTPHeaderExtension_eq hm, Option.map_some]
  dsimp only
  rw [hsome, RtpPacket.headerBytes, RtpPacket.fixedBytes, RtpPacket.extensionBytes, hbyte, RtpPacket.secondByte]
  simp only [PacketArgs.packet, second_eq]

end Created

/-! ## What the parser finds -/

/-- The value of an extension, taken from its bytes. -/
def setValue (type : RTPExtensionType) (data : List UInt8) (ext : RTPHeaderExtension) : RTPHeaderExtension :=
  (readExtension (byteAt data) type 0 ext).val

theorem readExtension_at {buf data : List UInt8} {p : Nat} {type : RTPExtensionType} (h : At buf p data)
    (hlen : data.length + 1 = type.length) (ext : RTPHeaderExtension) :
    (readExtension (byteAt buf) type p ext).val = setValue type data ext := by
  have hbyte : ∀ i, i < data.length → byteAt buf (p + i) = byteAt data (0 + i) := by
    intro i hi
    rw [h.bytes hi, byteAt, Nat.zero_add, List.getD_eq_getElem?_getD, List.getElem?_eq_getElem hi, Option.getD_some]
  have h0 := hbyte 0
  have h1 := hbyte 1
  have h2 := hbyte 2
  cases type <;> simp only [RTPExtensionType.length] at hlen
  case none => rfl
  case audioLevel | videoRotation =>
    simp only [readExtension, setValue, value, Reads.val_bind, Reads.val_pure]
    rw [show byteAt buf p = byteAt data 0 from h0 (by omega)]
  case transportSequenceNumber =>
    simp only [readExtension, setValue, value, Reads.val_bind, Reads.val_pure]
    rw [show byteAt buf p = byteAt data 0 from h0 (by omega), h1 (by omega)]
  case transmissionTimeOffset | absoluteSendTime =>
    simp only [readExtension, setValue, value24, value, Reads.val_bind, Reads.val_pure]
    rw [show byteAt buf p = byteAt data 0 from h0 (by omega), h1 (by omega), h2 (by omega)]

theorem elementOctet_bits {id : UInt8} (h1 : 1 ≤ id) (h14 : id ≤ 14) {len : Nat} (hlen : len < 16) :
    RTPSender.elementOctet id len ≠ 0 ∧ (RTPSender.elementOctet id len &&& 0xF0) >>> 4 = id ∧
      (RTPSender.elementOctet id len &&& 0x0F).toNat = len := by
  have h : ∀ len < 16, ∀ k < 15, 1 ≤ k → RTPSender.elementOctet (UInt8.ofNat k) len ≠ 0 ∧
      (RTPSender.elementOctet (UInt8.ofNat k) len &&& 0xF0) >>> 4 = UInt8.ofNat k ∧
      (RTPSender.elementOctet (UInt8.ofNat k) len &&& 0x0F).toNat = len := by
    decide
  have hk := h len hlen id.toNat (Nat.lt_succ_of_le (UInt8.le_iff_toNat_le.1 h14)) (UInt8.le_iff_toNat_le.1 h1)
  rwa [UInt8.ofNat_toNat] at hk

theorem type_len {type : RTPExtensionType} (h : type ≠ .none) : type.len = some (type.length - 2) ∧
    2 ≤ type.length := by
  cases type <;> first | exact absurd rfl h | exact ⟨rfl, by decide⟩

section Padding
variable {buf : List UInt8} {stop : Nat}

theorem parsePaddingBytes_nonzero {p : Nat} (h : byteAt buf p ≠ 0) (fuel : Nat) (k : UInt8) :
    (parsePaddingBytes (byteAt buf) stop fuel p k).val = k := by
  cases fuel with
  | zero => rfl
  | succ fuel =>
    rw [parsePaddingBytes]
    split
    · simp only [octet, Reads.val_bind, if_pos h, Reads.val_pure]
    · rfl

/-- Zeros up to something else, or to the end. -/
theorem parsePaddingBytes_run {p n : Nat} (h : At buf p (List.replicate n 0)) (hstop : p + n ≤ stop)
    (hnext : p + n < stop → byteAt buf (p + n) ≠ 0) {fuel : Nat} (hfuel : n ≤ fuel) (k : UInt8) :
    (parsePaddingBytes (byteAt buf) stop fuel p k).val = k + UInt8.ofNat n := by
  induction n generalizing p fuel k with
  | zero =>
    have hzero : k + UInt8.ofNat 0 = k := UInt8.add_zero k
    rw [hzero]
    by_cases hp : p < stop
    · exact parsePaddingBytes_nonzero (hnext hp) fuel k
    · cases fuel with
      | zero => rfl
      | succ fuel =>
        rw [parsePaddingBytes, if_neg hp]
        rfl
  | succ n ih =>
    obtain ⟨fuel, rfl⟩ : ∃ j, fuel = j + 1 := ⟨fuel - 1, by omega⟩
    rw [List.replicate_succ] at h
    obtain ⟨hzero, hrest⟩ := at_cons.1 h
    have hnext' : p + 1 + n < stop → byteAt buf (p + 1 + n) ≠ 0 := by
      rw [Nat.add_assoc, Nat.add_comm 1 n]
      exact hnext
    rw [parsePaddingBytes, if_pos (by omega)]
    simp only [octet, Reads.val_bind, hzero.byte]
    rw [if_neg (by simp), ih hrest (by omega) hnext' (Nat.le_of_succ_le_succ hfuel), UInt8.add_assoc]
    congr 1
    rw [UInt8.add_comm, UInt8.ofNat_add]
    rfl

end Padding

/-- **The elements one by one.** The zeros at the end belong to the last of them. -/
theorem parseOneByteExtensionHeader_elements (hm : m.Proper) {values : RTPExtensionType → List UInt8}
    (hv : Sized values)
    {buf : List UInt8} (l : List HeaderExtension) (hl : ∀ e ∈ l, e ∈ m.entries) {n p stop : Nat}
    (hn : n ≤ 3) (hlast : l = [] → n = 0)
    (h : At buf p (l.flatMap (element values) ++ List.replicate n 0))
    (hstop : stop = p + (l.flatMap (element values)).length + n) {fuel : Nat}
    (hfuel : l.length ≤ fuel) (ext : RTPHeaderExtension) :
    (parseOneByteExtensionHeader (byteAt buf) m stop fuel p ext).val =
      some (l.foldl (fun ext e => setValue e.type (values e.type) ext) ext) := by
  induction l generalizing n p fuel ext with
  | nil =>
    have hend : ¬ p < stop := by
      rw [hstop, hlast rfl]
      simp
    cases fuel <;> rw [parseOneByteExtensionHeader, if_neg hend] <;> rfl
  | cons e l ih =>
    obtain ⟨fuel, rfl⟩ : ∃ j, fuel = j + 1 := ⟨fuel - 1, by simp only [List.length_cons] at hfuel; omega⟩
    have he := hl e List.mem_cons_self
    have hknown := hm.known e he
    obtain ⟨hlo, hhi⟩ := m.range e he
    obtain ⟨hlen, htwo⟩ := type_len hknown
    have hfour := type_length_le e.type
    obtain ⟨-, hid, hlow⟩ := elementOctet_bits hlo hhi (show e.type.length - 2 < 16 by omega)
    have hvalue := hv e.type hknown
    rw [List.flatMap_cons, List.append_assoc, at_append, element_length hv hknown, element] at h
    rw [List.flatMap_cons, List.length_append, element_length hv hknown] at hstop
    obtain ⟨hthis, hrest⟩ := h
    obtain ⟨hoctet, hdata⟩ := at_cons.1 hthis
    have hnot15 : e.id ≠ 15 := by
      intro h15
      rw [h15] at hhi
      exact absurd hhi (by decide)
    have hpos : p + 1 + (e.type.length - 2 + 1) = p + e.type.length := by omega
    rw [parseOneByteExtensionHeader, if_pos (by omega)]
    simp only [octet, Reads.val_bind, hoctet.byte, hid, if_neg hnot15, getType_mem he, hlow, hlen,
      ne_eq, not_true_eq_false,
      if_false, readExtension_at hdata hvalue, hpos, List.foldl_cons]
    cases l with
    | nil =>
      -- The rest of the block is padding.
      have hzeros : (parsePaddingBytes (byteAt buf) stop stop (p + e.type.length) 0).val = UInt8.ofNat n := by
        rw [List.flatMap_nil, List.nil_append] at hrest
        have hend : stop = p + e.type.length + n := by simpa using hstop
        rw [parsePaddingBytes_run hrest (by omega) (by omega) (by omega), UInt8.zero_add]
      have hcount : (UInt8.ofNat n).toNat = n := by
        rw [UInt8.toNat_ofNat']
        omega
      rw [hzeros, hcount]
      exact ih (n := 0) (by simp) (Nat.zero_le 3) (fun _ => rfl) at_nil (by simpa using hstop) (Nat.zero_le fuel) _
    | cons e' l =>
      have he' := hl e' (by simp)
      obtain ⟨hlo', hhi'⟩ := m.range e' he'
      have hfour' := type_length_le e'.type
      have hnonzero : byteAt buf (p + e.type.length) ≠ 0 := by
        obtain ⟨hnext, -, -⟩ := elementOctet_bits hlo' hhi' (show e'.type.length - 2 < 16 by omega)
        rw [List.flatMap_cons, element, List.cons_append, List.cons_append] at hrest
        rw [(at_cons.1 hrest).1.byte]
        exact hnext
      rw [parsePaddingBytes_nonzero hnonzero]
      exact ih (fun e he => hl e (List.mem_cons_of_mem _ he)) hn (by simp) hrest (by omega)
        (Nat.le_of_succ_le_succ hfuel) _

/-- What is reported for a packet with these values. -/
def reported (m : RtpHeaderExtensionMap) (values : RTPExtensionType → List UInt8)
    (ext : RTPHeaderExtension) : RTPHeaderExtension :=
  m.activeEntries.foldl (fun ext e => setValue e.type (values e.type) ext) ext

theorem parsedExtension_elements (hm : m.Proper) {values : RTPExtensionType → List UInt8}
    (hv : Sized values) (a : PacketArgs)
    (ext : RTPHeaderExtension) : (a.packet hm hv).parsedExtension (some m) ext = some (reported m values ext) := by
  have hat := extension_at (a.packet hm hv)
  rw [RtpPacket.extensionBytes] at hat
  unfold RtpPacket.parsedExtension
  by_cases hnone : m.activeEntries = []
  · have he : (a.packet hm hv).extension = none := if_pos hnone
    simp only [he, reported, hnone, List.foldl_nil]
  · have he : (a.packet hm hv).extension = some _ := if_neg hnone
    rw [he] at hat
    simp only [he, if_true]
    rw [Option.map_some, Option.getD_some, ExtensionBlock.bytes, at_append] at hat
    refine parseOneByteExtensionHeader_elements hm hv m.activeEntries (fun e => mem_active) ?_
      (fun h => absurd h hnone) hat.2 ?_ ?_ ext
    · have h := word32Align_spec (elements m values).length
      omega
    · have hlen := blockData_length m values
      have h := word32Align_spec (elements m values).length
      show 12 + a.csrcs.length * 4 + 4 + (blockData m values).length =
        12 + a.csrcs.length * 4 + 4 + (elements m values).length + _
      omega
    · have hshort : ∀ l : List HeaderExtension, l.length ≤ (l.flatMap (element values)).length := by
        intro l
        induction l with
        | nil => exact Nat.le_refl 0
        | cons e l ih =>
          simp only [List.flatMap_cons, List.length_append, element, List.length_cons]
          omega
      have hle := hshort m.activeEntries
      show _ ≤ _ + (blockData m values).length
      rw [blockData, List.length_append, elements]
      omega

/-! ## One value -/

theorem setValue_comm {t t' : RTPExtensionType} (h : t ≠ t') (d d' : List UInt8) (ext : RTPHeaderExtension) :
    setValue t d (setValue t' d' ext) = setValue t' d' (setValue t d ext) := by
  cases t <;> cases t' <;> first
    | exact absurd rfl h
    | simp only [setValue, readExtension, value24, value, Reads.val_bind, Reads.val_pure]

theorem setValue_setValue (t : RTPExtensionType) (d d' : List UInt8) (ext : RTPHeaderExtension) :
    setValue t d (setValue t d' ext) = setValue t d ext := by
  cases t <;> simp only [setValue, readExtension, value24, value, Reads.val_bind, Reads.val_pure]

theorem foldl_setValue {t : RTPExtensionType} (d : List UInt8) (values : RTPExtensionType →
    List UInt8) (l : List HeaderExtension)
    (h : ∀ e ∈ l, e.type ≠ t) (ext : RTPHeaderExtension) :
    l.foldl (fun ext e => setValue e.type (values e.type) ext) (setValue t d ext) =
      setValue t d (l.foldl (fun ext e => setValue e.type (values e.type) ext) ext) := by
  induction l generalizing ext with
  | nil => rfl
  | cons e l ih =>
    rw [List.foldl_cons, List.foldl_cons, setValue_comm (h e List.mem_cons_self),
      ih fun e' he' => h e' (List.mem_cons_of_mem _ he')]

theorem foldl_other {t : RTPExtensionType} (d : List UInt8) (values : RTPExtensionType → List UInt8)
    (l : List HeaderExtension)
    (h : ∀ e ∈ l, e.type ≠ t) (ext : RTPHeaderExtension) :
    l.foldl (fun ext e => setValue e.type (Function.update values t d e.type) ext) ext =
      l.foldl (fun ext e => setValue e.type (values e.type) ext) ext := by
  induction l generalizing ext with
  | nil => simp only [List.foldl_nil]
  | cons e l ih =>
    have hsame : Function.update values t d e.type = values e.type :=
      Function.update_of_ne (h e List.mem_cons_self) d values
    have hrest : ∀ e' ∈ l, e'.type ≠ t := fun e' he' => h e' (List.mem_cons_of_mem _ he')
    simp only [List.foldl_cons, hsame]
    exact ih hrest _

/-- Where an extension in use stands among them. -/
theorem active_split (hm : m.Proper) {e : HeaderExtension} (he : e ∈ m.activeEntries) :
    ∃ before after, m.activeEntries = before ++ e :: after ∧ (∀ b ∈ before, b.type ≠ e.type) ∧
        ∀ b ∈ after, b.type ≠ e.type := by
  obtain ⟨before, after, h⟩ := List.append_of_mem he
  have hdistinct : m.activeEntries.Pairwise fun a b => a.type ≠ b.type := hm.distinct.filter _
  rw [h, List.pairwise_append, List.pairwise_cons] at hdistinct
  refine ⟨before, after, h, ?_, ?_⟩
  · intro b hb
    exact hdistinct.2.2 b hb e List.mem_cons_self
  · intro b hb
    exact (hdistinct.2.1.1 b hb).symm

/-- **Another value for one of them** changes nothing of what is reported for the others. -/
theorem reported_update (hm : m.Proper) (values : RTPExtensionType → List UInt8)
    {e : HeaderExtension} (he : e ∈ m.activeEntries)
    (d : List UInt8) (ext : RTPHeaderExtension) :
    reported m (Function.update values e.type d) ext = setValue e.type d (reported m values ext) := by
  obtain ⟨before, after, h, hbefore, hafter⟩ := active_split hm he
  simp only [reported, h, List.foldl_append, List.foldl_cons]
  rw [foldl_other d values before hbefore, foldl_other d values after hafter, Function.update_self,
    foldl_setValue d values after hafter, foldl_setValue (values e.type) values after hafter, setValue_setValue]

end WebRtc.Rtp
