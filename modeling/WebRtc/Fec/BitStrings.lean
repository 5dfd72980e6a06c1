import WebRtc.Fec.MaskGaps
import WebRtc.Fec.RoundTrip

/-!
# FEC packets over gaps (`forward_error_correction.cc`)

`GenerateFecBitStrings` walks along a row of the mask by the sequence numbers: `media_pkt_idx` moves on
by the difference of two numbers, and the walk goes to the next byte when the index is exactly eight. A
gap that goes past the first bit of the next byte leaves the index above seven for good, and
`1 << (7 - media_pkt_idx)` shifts by a number below zero.

| here | there |
| --- | --- |
| `protectChecked`        | the body of the mask test (:229-276), which writes to an array of `IP_PACKET_SIZE` bytes |
| `bitStringChecked`      | one round `i` of the outer loop (:221), as long as its shifts are defined |
| `generateChecked`       | `GenerateFecBitStrings` (:208); the assertion at its end tells of an empty row and is not modelled |
-/

namespace WebRtc.Fec

open Bytes

/-- XOR a media packet into a FEC packet, if there is room for it. -/
def protectChecked (lBit : Bool) (fec media : Packet) : Option Packet :=
  if media.length + fecRtpOffset lBit ≤ ipPacketSize then some (protect lBit fec media) else none

/-- `media_pkt_idx` at the packet behind `media`. -/
def advance (media : Packet) : List Packet → Nat → Nat
  | [], pktIdx => pktIdx
  | next :: _, pktIdx => pktIdx + (parseSequenceNumber next.data - parseSequenceNumber media.data).toNat

/-- Over the media packets left, as `bitString`. -/
def bitStringChecked (lBit : Bool) (mask : Nat → UInt8) : List Packet → Nat → Nat → Packet → Option Packet
  | [], _, _, fec => some fec
  | media :: rest, maskIdx, pktIdx, fec =>
    -- 1 << (7 - media_pkt_idx)
    if 7 < pktIdx then none
    else
      let covered := if (mask maskIdx).toNat.testBit (7 - pktIdx) then protectChecked lBit fec media else some fec
      let pktIdx := advance media rest pktIdx
      covered.bind fun fec =>
        if pktIdx = 8 then bitStringChecked lBit mask rest (maskIdx + 1) 0 fec
        else bitStringChecked lBit mask rest maskIdx pktIdx fec

def generateChecked (mediaPacketList : List Packet) (packetMask : Nat → UInt8) (numFecPackets : Nat)
    (lBit : Bool) : Option (List Packet) :=
  (List.range numFecPackets).mapM fun i =>
    bitStringChecked lBit (fun k => packetMask (i * maskSize lBit + k)) mediaPacketList 0 0 blank

/-! ## Where the walk is defined it is the one of the encoder -/

theorem bitString_cons (lBit : Bool) (mask : Nat → UInt8) (media : Packet) (rest : List Packet) (maskIdx pktIdx : Nat)
    (fec : Packet) : bitString lBit mask (media :: rest) maskIdx pktIdx fec =
      let fec := if (mask maskIdx).toNat.testBit (7 - pktIdx) then protect lBit fec media else fec
      if advance media rest pktIdx = 8 then bitString lBit mask rest (maskIdx + 1) 0 fec
      else bitString lBit mask rest maskIdx (advance media rest pktIdx) fec := by
  cases rest <;> rfl

theorem protectChecked_eq {lBit : Bool} {fec media fec' : Packet} (h : protectChecked lBit fec media = some fec') :
    fec' = protect lBit fec media := by
  unfold protectChecked at h
  split at h
  · exact (Option.some.inj h).symm
  · cases h

theorem bitStringChecked_eq {lBit : Bool} {mask : Nat → UInt8} {ms : List Packet} {maskIdx pktIdx : Nat}
    {fec fec' : Packet} (h : bitStringChecked lBit mask ms maskIdx pktIdx fec = some fec') :
    bitString lBit mask ms maskIdx pktIdx fec = fec' := by
  induction ms generalizing maskIdx pktIdx fec with
  | nil => exact Option.some.inj h
  | cons media rest ih =>
    rw [bitStringChecked] at h
    split at h
    · cases h
    · obtain ⟨fec₁, hfec₁, hrest⟩ := Option.bind_eq_some_iff.1 h
      have hfec : fec₁ = if (mask maskIdx).toNat.testBit (7 - pktIdx) then protect lBit fec media else fec := by
        split at hfec₁
        · rw [if_pos ‹_›]
          exact protectChecked_eq hfec₁
        · rw [if_neg ‹_›]
          exact (Option.some.inj hfec₁).symm
      rw [bitString_cons, ← hfec]
      dsimp only at hrest ⊢
      split at hrest
      · rw [if_pos ‹_›]
        exact ih hrest
      · rw [if_neg ‹_›]
        exact ih hrest

theorem mapM_eq_some_iff {α β : Type} {f : α → Option β} {l : List α} {l' : List β} :
    l.mapM f = some l' ↔ l.map f = l'.map some := by
  induction l generalizing l' with
  | nil => cases l' <;> simp
  | cons a l ih =>
    rw [List.mapM_cons]
    cases l' with
    | nil => simp [Option.bind_eq_some_iff]
    | cons b l' => simp [← ih, Option.bind_eq_some_iff]

/-- The FEC packets of defined walks are those of the encoder. -/
theorem generateChecked_eq {mediaPacketList : List Packet} {packetMask : Nat → UInt8}
    {numFecPackets : Nat} {lBit : Bool}
    {fecs : List Packet} (h : generateChecked mediaPacketList packetMask numFecPackets lBit = some fecs) :
    generateFecBitStrings mediaPacketList packetMask numFecPackets lBit = fecs := by
  have hmap := mapM_eq_some_iff.1 h
  apply List.map_injective_iff.2 (Option.some_injective Packet)
  rw [← hmap, generateFecBitStrings, List.map_map]
  refine List.map_congr_left fun i hi => ?_
  have hget := congrArg (fun l => l[i]?) hmap
  simp only [List.getElem?_map, List.getElem?_range (List.mem_range.1 hi), Option.map_some] at hget
  obtain ⟨fec, -, hfec⟩ := Option.map_eq_some_iff.1 hget.symm
  rw [Function.comp, ← hfec, bitStringChecked_eq hfec.symm]

/-! ## The row that the walk reads -/

/-- The packets of a row of the mask: those whose distance from the first number is a bit of it. -/
def selected (first : UInt16) (row : Nat → UInt8) (ms : List Packet) : List Packet :=
  ms.filter fun m => maskBit row 0 (column first (parseSequenceNumber m.data))

/-- Every number is at most the first one of the mask byte behind that of the number before it. -/
def NextByte (offs : List Nat) : Prop := offs.IsChain fun o next => next ≤ 8 * (o / 8 + 1)

/-- The packet and the header of the FEC packet fit a packet. -/
def Fits (lBit : Bool) (m : Packet) : Prop := m.length + fecRtpOffset lBit ≤ ipPacketSize

theorem protectChecked_bind {lBit : Bool} {bit : Bool} {fec media fec' : Packet} {k : Packet → Option Packet} :
    (if bit then protectChecked lBit fec media else some fec).bind k = some fec' ↔
      (bit = true → Fits lBit media) ∧ k (if bit then protect lBit fec media else fec) = some fec' := by
  cases bit with
  | false => simp
  | true =>
    simp only [if_true, protectChecked, forall_const]
    by_cases h : media.length + fecRtpOffset lBit ≤ ipPacketSize
    · rw [if_pos h, Option.bind_some, and_iff_right (show Fits lBit media from h)]
    · rw [if_neg h, Option.bind_none]
      exact ⟨fun hn => (by cases hn), fun hfit => absurd hfit.1 h⟩

theorem selected_cons (first : UInt16) (row : Nat → UInt8) (media : Packet) (rest : List Packet) :
    selected first row (media :: rest) =
      if maskBit row 0 (column first (parseSequenceNumber media.data)) then media :: selected first row rest
      else selected first row rest := List.filter_cons

/-- The distance of two numbers is the difference of their columns. -/
theorem column_sub {first s next : UInt16} (h : column first s < column first next) :
    column first next = column first s + (next - s).toNat := by
  have hf := first.toNat_lt
  have hs := s.toNat_lt
  have hn := next.toNat_lt
  simp only [column, UInt16.toNat_sub] at h ⊢
  omega

/-- Where the walk is defined, and what it makes: by induction on the packets, each of which is tested at
its column. -/
theorem bitStringChecked_iff {lBit : Bool} {row : Nat → UInt8} {first : UInt16} {media : Packet} {rest : List Packet}
    (hinc : ((media :: rest).map fun m => column first (parseSequenceNumber m.data)).IsChain (· < ·))
    {o : Nat} (ho : column first (parseSequenceNumber media.data) = o) {fec fec' : Packet} :
    bitStringChecked lBit row (media :: rest) (o / 8) (o % 8) fec = some fec' ↔
      NextByte ((media :: rest).map fun m => column first (parseSequenceNumber m.data)) ∧
      (∀ m ∈ selected first row (media :: rest), Fits lBit m) ∧
      (selected first row (media :: rest)).foldl (protect lBit) fec = fec' := by
  induction rest generalizing media o fec with
  | nil =>
    have hadv : ¬ advance media [] (o % 8) = 8 := by
      rw [advance]
      omega
    have hbit : (row (o / 8)).toNat.testBit (7 - o % 8) = maskBit row 0 o := by rw [maskBit, Nat.zero_add]
    rw [bitStringChecked, if_neg (by omega), hbit]
    dsimp only
    rw [protectChecked_bind, if_neg hadv, bitStringChecked, Option.some.injEq, selected_cons, ho]
    by_cases hset : maskBit row 0 o
    · simp [hset, selected, NextByte]
    · simp [hset, selected, NextByte]
  | cons next rest ih =>
    have hlt : column first (parseSequenceNumber media.data) < column first (parseSequenceNumber next.data) :=
      (List.isChain_cons_cons.1 hinc).1
    have hnext := column_sub hlt
    rw [ho] at hnext
    have hadv : advance media (next :: rest) (o % 8) =
        o % 8 + (parseSequenceNumber next.data - parseSequenceNumber media.data).toNat := rfl
    have hbit : (row (o / 8)).toNat.testBit (7 - o % 8) = maskBit row 0 o := by rw [maskBit, Nat.zero_add]
    have hrest := @ih next (List.isChain_cons_cons.1 hinc).2 _ rfl (if maskBit row 0 o then
      protect lBit fec media else fec)
    have hchain : NextByte ((media :: next :: rest).map fun m => column first (parseSequenceNumber m.data)) ↔
        column first (parseSequenceNumber next.data) ≤ 8 * (o / 8 + 1) ∧
          NextByte ((next :: rest).map fun m => column first (parseSequenceNumber m.data)) := by
      rw [NextByte, List.map_cons, List.map_cons, List.isChain_cons_cons, ho]
      rfl
    have hsel : ((∀ m ∈ selected first row (media :: next :: rest), Fits lBit m) ∧
        (selected first row (media :: next :: rest)).foldl (protect lBit) fec = fec') ↔
        (maskBit row 0 o = true → Fits lBit media) ∧ (∀ m ∈ selected first row (next :: rest), Fits lBit m) ∧
          (selected first row (next :: rest)).foldl (protect lBit)
            (if maskBit row 0 o then protect lBit fec media else fec) = fec' := by
      rw [selected_cons first row media, ho]
      by_cases hset : maskBit row 0 o
      · simp [hset, and_assoc]
      · simp [hset]
    rw [bitStringChecked, if_neg (by omega), hbit]
    dsimp only
    rw [protectChecked_bind, hchain, hsel, hadv]
    generalize column first (parseSequenceNumber next.data) = c at *
    generalize (parseSequenceNumber next.data - parseSequenceNumber media.data).toNat = gap at *
    rcases Nat.lt_trichotomy (o % 8 + gap) 8 with hlow | heq | hhigh
    · -- The same byte.
      rw [if_neg (by omega), show o / 8 = c / 8 by omega, show o % 8 + gap = c % 8 by omega, hrest,
        and_iff_right (show c ≤ 8 * (c / 8 + 1) by omega)]
      exact and_left_comm
    · have hfirst : c % 8 = 0 := by omega
      rw [hfirst] at hrest
      rw [if_pos heq, show o / 8 + 1 = c / 8 by omega, hrest, and_iff_right (show c ≤ 8 * (c / 8) by omega)]
      exact and_left_comm
    · -- The index stays above seven.
      rw [if_neg (by omega), bitStringChecked, if_pos (by omega)]
      exact ⟨fun h => (by cases h.2), fun h => absurd h.1.1 (by omega)⟩

/-! ## The FEC packets -/

/-- Every byte is the XOR of what the packets contribute, each continued with zeros, and the length is
that of the longest. -/
structure XorOf (lBit : Bool) (ps : List Packet) (fec : Packet) : Prop where
  data : ∀ j, fec.data j = xorSum (fun p => enc lBit p j) ps
  length : fec.length = longest lBit ps

/-- The media packets of row `i` of the mask. -/
def rowPackets (mediaPacketList : List Packet) (packetMask : Nat → UInt8) (lBit : Bool) (i : Nat) : List Packet :=
  match mediaPacketList with
  | [] => []
  | first :: rest =>
    selected (parseSequenceNumber first.data) (fun k => packetMask (i * maskSize lBit + k)) (first :: rest)

/-- The walks are defined, and each gives the XOR of the packets of its row. -/
def HonoursMask (mediaPacketList : List Packet) (packetMask : Nat → UInt8) (numFecPackets : Nat) (lBit : Bool) : Prop :=
  ∃ fecs, generateChecked mediaPacketList packetMask numFecPackets lBit = some fecs ∧ fecs.length = numFecPackets ∧
    ∀ i, (hi : i < fecs.length) → XorOf lBit (rowPackets mediaPacketList packetMask lBit i) fecs[i]

theorem xorOf_foldl {lBit : Bool} {ps : List Packet} (hps : ∀ p ∈ ps, 12 ≤ p.length ∧ p.length ≤ 1500) :
    XorOf lBit ps (ps.foldl (protect lBit) blank) := by
  obtain ⟨hdata, hlen⟩ := foldl_protect (l := lBit) hps (g := blank) fun _ _ => rfl
  refine ⟨fun j => ?_, ?_⟩
  · rw [hdata j]
    exact UInt8.zero_xor
  · rw [hlen]
    exact Nat.zero_max _

/-- One walk from the start of a row. -/
theorem row_iff {ms : List Packet} (hinc : (offsets ms).IsChain (· < ·)) (packetMask : Nat → UInt8) (lBit : Bool)
    (i : Nat) {fec : Packet} :
    bitStringChecked lBit (fun k => packetMask (i * maskSize lBit + k)) ms 0 0 blank = some fec ↔
      NextByte (offsets ms) ∧ (∀ m ∈ rowPackets ms packetMask lBit i, Fits lBit m) ∧
        (rowPackets ms packetMask lBit i).foldl (protect lBit) blank = fec := by
  cases ms with
  | nil => simp [bitStringChecked, offsets, NextByte, rowPackets]
  | cons first rest =>
    have hoffs : offsets (first :: rest) =
        (first :: rest).map fun m => column (parseSequenceNumber first.data) (parseSequenceNumber m.data) := by
      rw [offsets]
      simp only [List.map_cons, List.map_map]
      rfl
    rw [hoffs] at hinc ⊢
    exact bitStringChecked_iff hinc (column_self _)

theorem mem_rowPackets {ms : List Packet} {packetMask : Nat → UInt8} {lBit : Bool} {i : Nat} {m : Packet}
    (h : m ∈ rowPackets ms packetMask lBit i) : m ∈ ms := by
  cases ms with
  | nil => cases h
  | cons first rest => exact (List.mem_filter.1 h).1

/-- **The mask is honoured exactly when no number lies past the first one of the mask byte behind that of
the number before it, and every packet of a row fits.** -/
theorem honoursMask_iff (mediaPacketList : List Packet) (packetMask : Nat → UInt8) (numFecPackets : Nat) (lBit : Bool)
    (hn : 0 < numFecPackets) (hinc : (offsets mediaPacketList).IsChain (· < ·))
    (hlen : ∀ m ∈ mediaPacketList, rtpHeaderSize ≤ m.length ∧ m.length ≤ ipPacketSize) :
    HonoursMask mediaPacketList packetMask numFecPackets lBit ↔
      NextByte (offsets mediaPacketList) ∧
        ∀ i < numFecPackets, ∀ m ∈ rowPackets mediaPacketList packetMask lBit i, Fits lBit m := by
  constructor
  · rintro ⟨fecs, hgen, hsize, -⟩
    have hrow : ∀ i < numFecPackets, NextByte (offsets mediaPacketList) ∧
        ∀ m ∈ rowPackets mediaPacketList packetMask lBit i, Fits lBit m := by
      intro i hi
      have hget := congrArg (fun l => l[i]?) (mapM_eq_some_iff.1 hgen)
      simp only [List.getElem?_map, List.getElem?_range hi, Option.map_some,
        List.getElem?_eq_getElem (show i < fecs.length by omega), Option.some.injEq] at hget
      obtain ⟨hbytes, hfits, -⟩ := (row_iff hinc packetMask lBit i).1 hget
      exact ⟨hbytes, hfits⟩
    exact ⟨(hrow 0 hn).1, fun i hi => (hrow i hi).2⟩
  · rintro ⟨hbytes, hfits⟩
    refine ⟨(List.range numFecPackets).map fun i => (rowPackets mediaPacketList packetMask lBit i).foldl (protect lBit)
      blank, ?_, by simp, ?_⟩
    · rw [generateChecked, mapM_eq_some_iff, List.map_map]
      refine List.map_congr_left fun i hi => ?_
      exact (row_iff hinc packetMask lBit i).2 ⟨hbytes, hfits i (List.mem_range.1 hi), rfl⟩
    · intro i hi
      rw [List.getElem_map, List.getElem_range]
      exact xorOf_foldl fun p hp => hlen p (mem_rowPackets hp)

theorem honoursMask_iff_three :
    HonoursMask [numbered 7, numbered 8, numbered 15] (fun _ => 0xc1) 1 false := by
  refine (honoursMask_iff _ _ 1 false (by decide) (by decide) (by decide)).2 ⟨by unfold NextByte; decide, ?_⟩
  intro i hi m hm
  obtain rfl : i = 0 := by omega
  have hin := mem_rowPackets hm
  simp only [List.mem_cons, List.not_mem_nil, or_false] at hin
  rcases hin with rfl | rfl | rfl <;> unfold Fits <;> decide

/-- A gap from the first number of a byte to the second one of the next byte. -/
theorem honoursMask_not :
    (offsets [numbered 0, numbered 9]).IsChain (· < ·) ∧ (∀ o ∈ offsets [numbered 0, numbered 9], o < 48) ∧
      ¬ HonoursMask [numbered 0, numbered 9] (fun _ => 0xff) 1 false := by
  refine ⟨by decide, by decide, ?_⟩
  rintro ⟨fecs, hgen, -, -⟩
  have hnone : generateChecked [numbered 0, numbered 9] (fun _ => 0xff) 1 false = none := by rfl
  rw [hnone] at hgen
  cases hgen

end WebRtc.Fec
