import Mathlib.Data.List.Sort
import WebRtc.NetEq.PacketBuffer

/-!
# The content of the packet buffer and the order of arrival

Within the windows that the comparison can tell apart, packets with different timestamps are in the
order of their offsets from the start of the window, and those with one timestamp in the order of a
rank. The ranks of two sync packets with the same sequence number are the same, and either goes before
the other.
-/

namespace WebRtc.NetEq

open Rtp

/-- What tells packets apart. -/
def Packet.key (p : Packet) : UInt32 × UInt16 × Bool × Bool :=
  (p.timestamp, p.header.sequenceNumber, p.syncPacket, p.primary)

/-- Timestamps in a window of less than 2^31 - 1, and sequence numbers of one timestamp in one of less
than 2^15 - 1. -/
structure InWindow (packets : List Packet) : Prop where
  timestamps : ∃ base : UInt32, ∀ p ∈ packets, (p.timestamp - base).toNat < 2147483647
  sequenceNumbers : ∀ timestamp : UInt32, ∃ base : UInt16, ∀ p ∈ packets, p.timestamp = timestamp →
    (p.header.sequenceNumber - base).toNat < 32767

/-- The packets one after the other in an empty buffer. -/
def insertAll (maxNumberOfPackets : Nat) (packets : List Packet) : PacketBuffer :=
  packets.foldl (fun s p => (s.insertPacket (some p)).1) (.create maxNumberOfPackets)

/-- One packet for each timestamp, smaller than the others with it. -/
structure SmallestOf (packets content : List Packet) : Prop where
  sorted : content.Pairwise fun p q => isNewerTimestamp q.timestamp p.timestamp = true
  smallest : ∀ p ∈ content, p ∈ packets ∧ ∀ q ∈ packets, q.timestamp = p.timestamp → q = p ∨ p.lt q = true
  complete : ∀ q ∈ packets, ∃ p ∈ content, p.timestamp = q.timestamp

def OrderIndependent (maxNumberOfPackets : Nat) (packets : List Packet) : Prop :=
  ∃ content, SmallestOf packets content ∧ ∀ arrivals : List Packet, arrivals.Perm packets →
    (insertAll maxNumberOfPackets arrivals).buffer = content

/-- Two sync packets with one sequence number, and no packet with their timestamp is earlier. -/
def TiedSyncs (packets : List Packet) : Prop :=
  ∃ p ∈ packets, ∃ q ∈ packets, p ≠ q ∧ p.syncPacket = true ∧ q.syncPacket = true ∧ p.timestamp = q.timestamp ∧
    p.header.sequenceNumber = q.header.sequenceNumber ∧ ∀ r ∈ packets, r.timestamp = p.timestamp → p.lt r = true

section Window
variable (base : UInt32) (seqBase : UInt32 → UInt16)

def Packet.offset (p : Packet) : Nat := (p.timestamp - base).toNat

def Packet.age (p : Packet) : Nat := (p.header.sequenceNumber - seqBase p.timestamp).toNat

/-- Regular packets go before sync packets and primary ones before redundant ones. -/
def Packet.rank (p : Packet) : Nat :=
  3 * p.age seqBase + (if p.syncPacket then 2 else if p.primary then 0 else 1)

structure Packet.Inside (p : Packet) : Prop where
  offset : p.offset base < 2147483647
  age : p.age seqBase < 32767

variable {base seqBase} {p q : Packet}

theorem offset_inj : p.offset base = q.offset base ↔ p.timestamp = q.timestamp := by
  unfold Packet.offset
  rw [UInt32.toNat_inj, UInt32.sub_left_inj]

variable (base) in
theorem sub_offset (p q : Packet) : (q.timestamp - p.timestamp).toNat =
    (4294967296 - p.offset base + q.offset base) % 4294967296 := by
  have hp := p.timestamp.toNat_lt
  have hq := q.timestamp.toNat_lt
  have hbase := base.toNat_lt
  unfold Packet.offset
  rw [UInt32.toNat_sub, UInt32.toNat_sub, UInt32.toNat_sub]
  omega

variable (seqBase) in
theorem sub_age (ht : p.timestamp = q.timestamp) : (q.header.sequenceNumber - p.header.sequenceNumber).toNat =
    (65536 - p.age seqBase + q.age seqBase) % 65536 := by
  have hp := p.header.sequenceNumber.toNat_lt
  have hq := q.header.sequenceNumber.toNat_lt
  unfold Packet.age
  rw [ht]
  have hbase := (seqBase q.timestamp).toNat_lt
  rw [UInt16.toNat_sub, UInt16.toNat_sub, UInt16.toNat_sub]
  omega

theorem age_inj (ht : p.timestamp = q.timestamp) :
    p.age seqBase = q.age seqBase ↔ p.header.sequenceNumber = q.header.sequenceNumber := by
  unfold Packet.age
  rw [ht, UInt16.toNat_inj, UInt16.sub_left_inj]

section Inside
variable (hp : p.Inside base seqBase) (hq : q.Inside base seqBase)
include hp hq

theorem newer_of_offset (h : p.offset base < q.offset base) : isNewerTimestamp q.timestamp p.timestamp = true := by
  have hp' := hp.offset
  have hq' := hq.offset
  rw [isNewerTimestamp_iff, sub_offset base]
  omega

theorem lt_of_ne (ht : p.timestamp ≠ q.timestamp) : p.lt q = decide (p.offset base < q.offset base) := by
  have hp' := hp.offset
  have hq' := hq.offset
  have hne : p.offset base ≠ q.offset base := fun h => ht (offset_inj.1 h)
  have hsub := sub_offset base p q
  have ht' : ¬ p.header.timestamp = q.header.timestamp := ht
  unfold Packet.lt
  rw [if_neg ht', decide_eq_decide, UInt32.lt_iff_toNat_lt]
  unfold Packet.timestamp at hsub
  rw [hsub]
  show _ < 2147483647 ↔ _
  omega

theorem lt_of_eq (ht : p.timestamp = q.timestamp) :
    p.lt q = true ↔ p.rank seqBase < q.rank seqBase ∨ p.rank seqBase = q.rank seqBase ∧ q.syncPacket = true := by
  have hp' := hp.age
  have hq' := hq.age
  have ht' : p.header.timestamp = q.header.timestamp := ht
  unfold Packet.lt
  rw [if_pos ht']
  by_cases hseq : p.header.sequenceNumber = q.header.sequenceNumber
  · have hage : p.age seqBase = q.age seqBase := (age_inj ht).2 hseq
    rw [if_pos hseq]
    unfold Packet.rank
    rw [hage]
    cases p.syncPacket <;> cases q.syncPacket <;> cases p.primary <;> cases q.primary <;> simp
  · have hne : p.age seqBase ≠ q.age seqBase := fun h => hseq ((age_inj ht).1 h)
    rw [if_neg hseq, decide_eq_true_eq, UInt16.lt_iff_toNat_lt, sub_age seqBase ht]
    unfold Packet.rank
    have hhalf : ((0xFFFF : UInt16) / 2).toNat = 32767 := rfl
    rw [hhalf]
    have hpc : (if p.syncPacket then 2 else if p.primary then 0 else 1) < 3 := by split <;> [omega; split <;> omega]
    have hqc : (if q.syncPacket then 2 else if q.primary then 0 else 1) < 3 := by split <;> [omega; split <;> omega]
    omega

end Inside

end Window

/-! ## One packet is placed -/

section Place
variable {base : UInt32} {seqBase : UInt32 → UInt16}

/-- In the order of the timestamps, each of which is there once. -/
def Ordered (base : UInt32) (buffer : List Packet) : Prop := buffer.Pairwise fun p q => p.offset base < q.offset base

/-- **The place of a packet**: either the packet with its timestamp is kept, or it takes its place. -/
theorem place_spec {packet : Packet} {buffer : List Packet} (hpacket : packet.Inside base seqBase)
    (hinside : ∀ p ∈ buffer, p.Inside base seqBase) (hordered : Ordered base buffer) :
    Ordered base (place packet buffer) ∧
      ((∃ r ∈ buffer, r.timestamp = packet.timestamp ∧ packet.lt r = false ∧ place packet buffer = buffer) ∨
        ((∀ r ∈ buffer, r.timestamp = packet.timestamp → packet.lt r = true) ∧
          ∀ p, p ∈ place packet buffer ↔ p = packet ∨ p ∈ buffer ∧ p.timestamp ≠ packet.timestamp)) := by
  obtain ⟨before, behind, rfl, hbehind, hbefore, ⟨⟨r, hr, hsame⟩, hplace⟩ | ⟨hne, rest, hplace,
      hrest⟩⟩ := place_cases packet buffer
  · rw [hplace]
    exact ⟨hordered, Or.inl ⟨r, List.mem_append_left _ (List.mem_of_getLast? hr), hsame.symm, hbefore r hr, rfl⟩⟩
  obtain ⟨hfirst, hsecond, hjoin⟩ := List.pairwise_append.1 hordered
  -- What is before the place has smaller offsets.
  have hsmall : ∀ p ∈ before, p.offset base < packet.offset base := by
    intro p hp
    obtain ⟨last, hlast⟩ : ∃ r, r ∈ before.getLast? := by
      cases hb : before.getLast? with
      | none => rw [List.getLast?_eq_none_iff.1 hb] at hp; cases hp
      | some r => exact ⟨r, rfl⟩
    have hlastMem : last ∈ before := List.mem_of_getLast? hlast
    have hlastInside := hinside last (List.mem_append_left _ hlastMem)
    have hlt := hbefore last hlast
    rw [lt_of_ne hpacket hlastInside (hne last hlast), decide_eq_false_iff_not] at hlt
    have hoff : packet.offset base ≠ last.offset base := fun h => hne last hlast (offset_inj.1 h)
    have hle : p.offset base ≤ last.offset base := by
      obtain ⟨init, rfl⟩ := List.getLast?_eq_some_iff.1 hlast
      rcases List.mem_append.1 hp with hp | hp
      · exact Nat.le_of_lt ((List.pairwise_append.1 hfirst).2.2 p hp last (List.mem_singleton_self last))
      · rw [List.mem_singleton.1 hp]
    omega
  -- What is behind it has larger ones, but for the packet that is replaced.
  have hlarge : ∀ p ∈ rest, packet.offset base < p.offset base := by
    have hge : ∀ p ∈ behind, packet.timestamp ≠ p.timestamp → packet.offset base < p.offset base := by
      intro p hp hpt
      have hlt := hbehind p hp
      rwa [lt_of_ne hpacket (hinside p (List.mem_append_right _ hp)) hpt, decide_eq_true_eq] at hlt
    intro p hp
    rcases hrest with ⟨rfl, hhead⟩ | ⟨r, rfl, hrt⟩
    · cases behind with
      | nil => cases hp
      | cons r rest =>
        have hr := hge r List.mem_cons_self (hhead r rfl)
        rcases List.mem_cons.1 hp with rfl | hp
        · exact hr
        · exact Nat.lt_trans hr (List.rel_of_pairwise_cons hsecond hp)
    · rw [offset_inj.2 hrt]
      exact List.rel_of_pairwise_cons hsecond hp
  have hrestOrdered : Ordered base rest := by
    rcases hrest with ⟨rfl, -⟩ | ⟨r, rfl, -⟩
    · exact hsecond
    · exact hsecond.of_cons
  rw [hplace]
  constructor
  · refine List.pairwise_append.2 ⟨hfirst, List.pairwise_cons.2 ⟨hlarge, hrestOrdered⟩, ?_⟩
    intro p hp q hq
    rcases List.mem_cons.1 hq with rfl | hq
    · exact hsmall p hp
    · exact Nat.lt_trans (hsmall p hp) (hlarge q hq)
  · right
    have hbeforeNe : ∀ p ∈ before, p.timestamp ≠ packet.timestamp := by
      intro p hp ht
      have hlt := hsmall p hp
      rw [offset_inj.2 ht] at hlt
      exact Nat.lt_irrefl _ hlt
    have hrestNe : ∀ p ∈ rest, p.timestamp ≠ packet.timestamp := by
      intro p hp ht
      have hlt := hlarge p hp
      rw [offset_inj.2 ht] at hlt
      exact Nat.lt_irrefl _ hlt
    constructor
    · intro r hr ht
      rcases List.mem_append.1 hr with hr | hr
      · exact absurd ht (hbeforeNe r hr)
      · exact hbehind r hr
    · intro p
      rw [List.mem_append, List.mem_cons, List.mem_append]
      constructor
      · rintro (hp | rfl | hp)
        · exact Or.inr ⟨Or.inl hp, hbeforeNe p hp⟩
        · exact Or.inl rfl
        · refine Or.inr ⟨Or.inr ?_, hrestNe p hp⟩
          rcases hrest with ⟨rfl, -⟩ | ⟨r, rfl, -⟩
          · exact hp
          · exact List.mem_cons_of_mem r hp
      · rintro (rfl | ⟨hp | hp, ht⟩)
        · exact Or.inr (Or.inl rfl)
        · exact Or.inl hp
        · refine Or.inr (Or.inr ?_)
          rcases hrest with ⟨rfl, -⟩ | ⟨r, rfl, hrt⟩
          · exact hp
          · rcases List.mem_cons.1 hp with rfl | hp
            · exact absurd hrt.symm ht
            · exact hp

end Place

/-! ## Packets that arrive -/

section Arrivals
variable {base : UInt32} {seqBase : UInt32 → UInt16}

/-- The buffer has the packets of the lowest rank among those that have arrived. -/
structure Best (base : UInt32) (seqBase : UInt32 → UInt16) (arrived buffer : List Packet) : Prop where
  ordered : Ordered base buffer
  lowest : ∀ p ∈ buffer, p ∈ arrived ∧ ∀ q ∈ arrived, q.timestamp = p.timestamp → p.rank seqBase ≤ q.rank seqBase
  complete : ∀ q ∈ arrived, ∃ p ∈ buffer, p.timestamp = q.timestamp

theorem Ordered.nodup {buffer : List Packet} (h : Ordered base buffer) : buffer.Nodup := by
  refine List.Pairwise.imp ?_ h
  rintro p q hlt rfl
  exact Nat.lt_irrefl _ hlt

theorem Ordered.eq_of_timestamp {buffer : List Packet} (h : Ordered base buffer) {p q : Packet}
    (hp : p ∈ buffer) (hq : q ∈ buffer)
    (ht : p.timestamp = q.timestamp) : p = q := by
  have hmap : (buffer.map (Packet.offset base)).Nodup := by
    rw [List.Nodup, List.pairwise_map]
    exact h.imp fun hlt => Nat.ne_of_lt hlt
  exact List.inj_on_of_nodup_map hmap hp hq (offset_inj.2 ht)

theorem Best.length_le {arrived buffer : List Packet} (h : Best base seqBase arrived buffer) :
    buffer.length ≤ arrived.length :=
  (List.subperm_of_subset h.ordered.nodup fun p hp => (h.lowest p hp).1).length_le

/-- **One arrival.** -/
theorem Best.place {arrived buffer : List Packet} (h : Best base seqBase arrived buffer) {packet : Packet}
    (hpacket : packet.Inside base seqBase) (hinside : ∀ p ∈ arrived, p.Inside base seqBase) :
    Best base seqBase (arrived ++ [packet]) (place packet buffer) := by
  have hbuffer : ∀ p ∈ buffer, p.Inside base seqBase := fun p hp => hinside p (h.lowest p hp).1
  obtain ⟨hordered, ⟨r, hr, hrt, hlt, hplace⟩ | ⟨hall, hmem⟩⟩ := place_spec hpacket hbuffer h.ordered
  · rw [hplace] at hordered ⊢
    have hrank : r.rank seqBase ≤ packet.rank seqBase := by
      rw [← Bool.not_eq_true, lt_of_eq hpacket (hbuffer r hr) hrt.symm] at hlt
      omega
    constructor
    case ordered => exact hordered
    case lowest =>
      intro p hp
      obtain ⟨hpa, hlow⟩ := h.lowest p hp
      refine ⟨List.mem_append_left _ hpa, ?_⟩
      intro q hq ht
      rcases List.mem_append.1 hq with hq | hq
      · exact hlow q hq ht
      · rw [List.mem_singleton] at hq
        subst hq
        rw [hordered.eq_of_timestamp hp hr (by rw [← ht, hrt])]
        exact hrank
    case complete =>
      intro q hq
      rcases List.mem_append.1 hq with hq | hq
      · exact h.complete q hq
      · rw [List.mem_singleton] at hq
        subst hq
        exact ⟨r, hr, hrt⟩
  · constructor
    case ordered => exact hordered
    case lowest =>
      intro p hp
      rcases (hmem p).1 hp with rfl | ⟨hp, hpt⟩
      · refine ⟨List.mem_append_right _ (List.mem_singleton_self p), ?_⟩
        intro q hq ht
        rcases List.mem_append.1 hq with hq | hq
        · obtain ⟨r, hr, hrt⟩ := h.complete q hq
          have hlow := (h.lowest r hr).2 q hq hrt.symm
          have hlt := hall r hr (by rw [hrt, ht])
          rw [lt_of_eq hpacket (hbuffer r hr) (by rw [hrt, ht])] at hlt
          omega
        · rw [List.mem_singleton] at hq
          rw [hq]
      · obtain ⟨hpa, hlow⟩ := h.lowest p hp
        refine ⟨List.mem_append_left _ hpa, ?_⟩
        intro q hq ht
        rcases List.mem_append.1 hq with hq | hq
        · exact hlow q hq ht
        · rw [List.mem_singleton] at hq
          subst hq
          exact absurd ht.symm hpt
    case complete =>
      intro q hq
      by_cases ht : packet.timestamp = q.timestamp
      · exact ⟨packet, (hmem packet).2 (Or.inl rfl), ht⟩
      · rcases List.mem_append.1 hq with hq | hq
        · obtain ⟨p, hp, hpt⟩ := h.complete q hq
          exact ⟨p, (hmem p).2 (Or.inr ⟨hp, fun heq => ht (by rw [← heq, hpt])⟩), hpt⟩
        · rw [List.mem_singleton] at hq
          subst hq
          exact absurd rfl ht

theorem insertAll_snoc (maxNumberOfPackets : Nat) (arrived : List Packet) (packet : Packet) :
    insertAll maxNumberOfPackets (arrived ++ [packet]) =
        ((insertAll maxNumberOfPackets arrived).insertPacket (some packet)).1 := by
  simp [insertAll]

theorem insertPacket_room {s : PacketBuffer} {packet : Packet} (hpayload : packet.payload.isSome = true)
    (hroom : s.buffer.length < s.maxNumberOfPackets) :
    (s.insertPacket (some packet)).1 = { s with buffer := NetEq.place packet s.buffer } := by
  unfold PacketBuffer.insertPacket
  dsimp only
  rw [if_neg (by simp [Option.isNone_iff_eq_none, Option.ne_none_iff_isSome, hpayload]),
    if_neg (Nat.not_le_of_lt hroom)]

theorem insertAll_best (maxNumberOfPackets : Nat) (arrived : List Packet)
    (hpayload : ∀ p ∈ arrived, p.payload.isSome = true)
    (hinside : ∀ p ∈ arrived, p.Inside base seqBase) (hlength : arrived.length ≤ maxNumberOfPackets) :
    (insertAll maxNumberOfPackets arrived).maxNumberOfPackets = maxNumberOfPackets ∧
      Best base seqBase arrived (insertAll maxNumberOfPackets arrived).buffer := by
  induction arrived using List.reverseRecOn with
  | nil => exact ⟨rfl, List.Pairwise.nil, by simp [insertAll, PacketBuffer.create], by simp⟩
  | append_singleton arrived packet ih =>
    rw [List.length_append, List.length_singleton] at hlength
    have hinside' : ∀ p ∈ arrived, p.Inside base seqBase := fun p hp => hinside p (List.mem_append_left _ hp)
    obtain ⟨hmax, hbest⟩ := ih (fun p hp => hpayload p (List.mem_append_left _ hp)) hinside' (by omega)
    have hroom := hbest.length_le
    have hlast : packet ∈ arrived ++ [packet] := List.mem_append_right _ (List.mem_singleton_self packet)
    rw [insertAll_snoc, insertPacket_room (hpayload packet hlast) (by omega)]
    exact ⟨hmax, hbest.place (hinside packet hlast) hinside'⟩

variable (base seqBase) in
/-- A packet that goes before all the others with its timestamp is there when it comes last. -/
theorem last_kept {maxNumberOfPackets : Nat} {arrived : List Packet} {packet : Packet}
    (hpayload : ∀ p ∈ arrived ++ [packet], p.payload.isSome = true)
    (hinside : ∀ p ∈ arrived ++ [packet], p.Inside base seqBase)
    (hlength : (arrived ++ [packet]).length ≤ maxNumberOfPackets)
    (hfirst : ∀ r ∈ arrived, r.timestamp = packet.timestamp → packet.lt r = true) :
    packet ∈ (insertAll maxNumberOfPackets (arrived ++ [packet])).buffer := by
  rw [List.length_append, List.length_singleton] at hlength
  have hinside' : ∀ p ∈ arrived, p.Inside base seqBase := fun p hp => hinside p (List.mem_append_left _ hp)
  have hlast : packet ∈ arrived ++ [packet] := List.mem_append_right _ (List.mem_singleton_self packet)
  obtain ⟨hmax, hbest⟩ := insertAll_best maxNumberOfPackets arrived
    (fun p hp => hpayload p (List.mem_append_left _ hp)) hinside' (by omega)
  have hroom := hbest.length_le
  rw [insertAll_snoc, insertPacket_room (hpayload packet hlast) (by omega)]
  have hbuffer : ∀ p ∈ (insertAll maxNumberOfPackets arrived).buffer, p.Inside base seqBase :=
    fun p hp => hinside' p (hbest.lowest p hp).1
  obtain ⟨-, ⟨r, hr, hrt, hlt, -⟩ | ⟨-, hmem⟩⟩ := place_spec (hinside packet hlast) hbuffer hbest.ordered
  · rw [hfirst r (hbest.lowest r hr).1 hrt] at hlt
    cases hlt
  · exact (hmem packet).2 (Or.inl rfl)

end Arrivals

/-! ## Orders of arrival -/

section Orders
variable {base : UInt32} {seqBase : UInt32 → UInt16} {packets : List Packet}
    (hinside : ∀ p ∈ packets, p.Inside base seqBase)
include hinside

/-- Without tied sync packets, one packet of a timestamp has the lowest rank. -/
theorem lowest_unique (hkeys : (packets.map Packet.key).Nodup) (huntied : ¬ TiedSyncs packets)
    {p q : Packet} (hp : p ∈ packets)
    (hq : q ∈ packets) (ht : p.timestamp = q.timestamp)
    (hlow : ∀ r ∈ packets, r.timestamp = p.timestamp → p.rank seqBase ≤ r.rank seqBase)
    (hrank : p.rank seqBase = q.rank seqBase) :
    p = q := by
  by_contra hne
  have hage : p.age seqBase = q.age seqBase ∧ (p.syncPacket = q.syncPacket ∧
      (p.syncPacket = true ∨ p.primary = q.primary)) := by
    unfold Packet.rank at hrank
    cases hps : p.syncPacket <;> cases hqs : q.syncPacket <;> cases hpp : p.primary <;> cases hqp : q.primary <;>
      simp [hps, hqs, hpp, hqp] at hrank ⊢ <;> omega
  obtain ⟨hage, hsync, hwhich⟩ := hage
  have hseq := (age_inj ht).1 hage
  rcases hwhich with hps | hprimary
  · apply huntied
    refine ⟨p, hp, q, hq, hne, hps, by rw [← hsync, hps], ht, hseq, ?_⟩
    intro r hr hrt
    have hle := hlow r hr hrt
    rw [lt_of_eq (hinside p hp) (hinside r hr) hrt.symm]
    rcases Nat.lt_or_eq_of_le hle with hlt | heq
    · exact Or.inl hlt
    · refine Or.inr ⟨heq, ?_⟩
      unfold Packet.rank at heq
      rw [hps] at heq
      cases hrs : r.syncPacket with
      | true => rfl
      | false =>
        rw [hrs] at heq
        simp only [Bool.false_eq_true, if_false, if_true] at heq
        split at heq <;> omega
  · apply hne
    apply List.inj_on_of_nodup_map hkeys hp hq
    unfold Packet.key
    rw [ht, hseq, hsync, hprimary]

/-- Which packets are in the buffer does not depend on the order in which they have arrived. -/
theorem mem_of_best (hkeys : (packets.map Packet.key).Nodup) (huntied : ¬ TiedSyncs packets)
    {arrived buffer : List Packet}
    (hperm : arrived.Perm packets) (hbest : Best base seqBase arrived buffer) (p : Packet) : p ∈ buffer ↔
      p ∈ packets ∧ ∀ r ∈ packets, r.timestamp = p.timestamp → p.rank seqBase ≤ r.rank seqBase := by
  constructor
  · intro hp
    obtain ⟨hpa, hlow⟩ := hbest.lowest p hp
    exact ⟨hperm.mem_iff.1 hpa, fun r hr => hlow r (hperm.mem_iff.2 hr)⟩
  · rintro ⟨hp, hlow⟩
    obtain ⟨q, hq, hqt⟩ := hbest.complete p (hperm.mem_iff.2 hp)
    obtain ⟨hqa, hqlow⟩ := hbest.lowest q hq
    have hqPackets := hperm.mem_iff.1 hqa
    have hrank : p.rank seqBase = q.rank seqBase :=
      Nat.le_antisymm (hlow q hqPackets hqt) (hqlow p (hperm.mem_iff.2 hp) hqt.symm)
    rw [lowest_unique hinside hkeys huntied hp hqPackets hqt.symm hlow hrank]
    exact hq

variable {maxNumberOfPackets : Nat} (hpayload : ∀ p ∈ packets, p.payload.isSome = true)
    (hlength : packets.length ≤ maxNumberOfPackets)
include hpayload hlength

theorem independent_of_untied (hkeys : (packets.map Packet.key).Nodup) (huntied : ¬ TiedSyncs packets) :
    OrderIndependent maxNumberOfPackets packets := by
  have hbest : ∀ arrivals : List Packet, arrivals.Perm packets →
      Best base seqBase arrivals (insertAll maxNumberOfPackets arrivals).buffer := by
    intro arrivals hperm
    refine (insertAll_best _ arrivals ?_ ?_ ?_).2
    · exact fun p hp => hpayload p (hperm.mem_iff.1 hp)
    · exact fun p hp => hinside p (hperm.mem_iff.1 hp)
    · rw [hperm.length_eq]
      exact hlength
  have hown := hbest packets (List.Perm.refl _)
  refine ⟨(insertAll maxNumberOfPackets packets).buffer, ⟨?_, ?_, hown.complete⟩, ?_⟩
  · refine hown.ordered.imp_of_mem ?_
    intro p q hp hq hlt
    exact newer_of_offset (hinside p (hown.lowest p hp).1) (hinside q (hown.lowest q hq).1) hlt
  · intro p hp
    obtain ⟨hpPackets, hlow⟩ := hown.lowest p hp
    refine ⟨hpPackets, ?_⟩
    intro q hq ht
    rcases Nat.lt_or_eq_of_le (hlow q hq ht) with hlt | heq
    · exact Or.inr ((lt_of_eq (hinside p hpPackets) (hinside q hq) ht.symm).2 (Or.inl hlt))
    · exact Or.inl (lowest_unique hinside hkeys huntied hpPackets hq ht.symm hlow heq).symm
  · intro arrivals hperm
    have hirrefl : Std.Irrefl fun p q : Packet => p.offset base < q.offset base := ⟨fun _ => Nat.lt_irrefl _⟩
    refine List.Pairwise.eq_of_mem_iff (hbest arrivals hperm).ordered hown.ordered ?_
    intro p
    rw [mem_of_best hinside hkeys huntied hperm (hbest arrivals hperm),
      mem_of_best hinside hkeys huntied (List.Perm.refl _) hown]

/-- Of two tied sync packets the one that comes last is kept. -/
theorem tied_dependent (htied : TiedSyncs packets) : ¬ OrderIndependent maxNumberOfPackets packets := by
  obtain ⟨p, hp, q, hq, hne, hps, hqs, ht, hseq, hfirst⟩ := htied
  rintro ⟨content, hcontent, hsame⟩
  have hqFirst : ∀ r ∈ packets, r.timestamp = q.timestamp → q.lt r = true := by
    intro r hr hrt
    have hpr := hfirst r hr (by rw [hrt, ht])
    have hranks : p.rank seqBase = q.rank seqBase := by
      unfold Packet.rank
      rw [(age_inj ht).2 hseq, hps, hqs, if_pos rfl, if_pos rfl]
    rw [lt_of_eq (hinside p hp) (hinside r hr) (by rw [ht, hrt])] at hpr
    rw [lt_of_eq (hinside q hq) (hinside r hr) hrt.symm, ← hranks]
    exact hpr
  have hlastKept : ∀ a b, a ∈ packets → b ∈ packets → a ≠ b →
    (∀ r ∈ packets, r.timestamp = b.timestamp → b.lt r = true) →
      b ∈ content := by
    intro a b ha hb hab hfirst
    have hperm : (packets.erase b ++ [b]).Perm packets :=
      (List.perm_append_singleton b _).trans (List.perm_cons_erase hb).symm
    rw [← hsame _ hperm]
    apply last_kept base seqBase
    · exact fun r hr => hpayload r (hperm.mem_iff.1 hr)
    · exact fun r hr => hinside r (hperm.mem_iff.1 hr)
    · rw [hperm.length_eq]
      exact hlength
    · exact fun r hr => hfirst r (List.mem_of_mem_erase hr)
  have hpContent := hlastKept q p hq hp (Ne.symm hne) hfirst
  have hqContent := hlastKept p q hp hq hne hqFirst
  have hbest := (insertAll_best _ packets hpayload hinside hlength).2
  rw [hsame packets (List.Perm.refl _)] at hbest
  exact hne (hbest.ordered.eq_of_timestamp hpContent hqContent ht)

end Orders

theorem InWindow.inside {packets : List Packet} (h : InWindow packets) :
    ∃ base seqBase, ∀ p ∈ packets, p.Inside base seqBase := by
  obtain ⟨base, hbase⟩ := h.timestamps
  choose seqBase hseq using h.sequenceNumbers
  exact ⟨base, seqBase, fun p hp => ⟨hbase p hp, hseq p.timestamp p hp rfl⟩⟩

/-- **The content of the buffer does not depend on the order of arrival** unless sync packets are tied;
and in no run do two packets with one timestamp follow one another. -/
theorem independent_iff (maxNumberOfPackets : Nat) (packets : List Packet)
    (hpayload : ∀ p ∈ packets, p.payload.isSome = true)
    (hlength : packets.length < maxNumberOfPackets) (hwindow : InWindow packets)
    (hkeys : (packets.map Packet.key).Nodup) :
    (OrderIndependent maxNumberOfPackets packets ↔ ¬ TiedSyncs packets) ∧
      ∀ (size : Nat) (calls : List BufferCall),
        Machine.Always bufferStep (fun o => ∃ s, o = some s ∧ Tidy s.buffer) (some (.create size)) calls := by
  obtain ⟨base, seqBase, hinside⟩ := hwindow.inside
  refine ⟨⟨?_, ?_⟩, tidy_always⟩
  · exact fun hindependent htied => tied_dependent hinside hpayload (Nat.le_of_lt hlength) htied hindependent
  · exact independent_of_untied hinside hpayload (Nat.le_of_lt hlength) hkeys

/-- A packet of one byte. -/
def bytePacket (timestamp : UInt32) (primary syncPacket : Bool) : Packet where
  header := { RTPHeader.empty with timestamp }
  payload := some [0]
  payloadLength := 1
  primary
  waitingTime := 0
  syncPacket

/-- A sync packet gives way to a regular one. -/
theorem independent_regular : OrderIndependent 4 [bytePacket 10 true true, bytePacket 0 true false,
    bytePacket 10 false false] := by
  have hseq : ∀ p ∈ [bytePacket 10 true true, bytePacket 0 true false, bytePacket 10 false false],
      (p.header.sequenceNumber - 0).toNat < 32767 := by decide
  have hiff := independent_iff 4 [bytePacket 10 true true, bytePacket 0 true false,
    bytePacket 10 false false] (by decide) (by decide)
    ⟨⟨0, by decide⟩, fun _ => ⟨0, fun p hp _ => hseq p hp⟩⟩ (by decide)
  exact hiff.1.2 (by unfold TiedSyncs; decide)

/-- Of two sync packets that are told apart only by their being primary either may be kept. -/
theorem tied_order : ¬ ∀ (maxNumberOfPackets : Nat) (packets : List Packet), (∀ p ∈ packets, p.payload.isSome = true) →
    packets.length < maxNumberOfPackets → InWindow packets → (packets.map Packet.key).Nodup →
    OrderIndependent maxNumberOfPackets packets := by
  intro h
  have hseq : ∀ p ∈ [bytePacket 0 true true, bytePacket 0 false true],
      (p.header.sequenceNumber - 0).toNat < 32767 := by decide
  obtain ⟨content, -, hsame⟩ := h 3 [bytePacket 0 true true, bytePacket 0 false true] (by decide) (by decide)
    ⟨⟨0, by decide⟩, fun _ => ⟨0, fun p hp _ => hseq p hp⟩⟩ (by decide)
  have hfirst := hsame [bytePacket 0 true true, bytePacket 0 false true] (List.Perm.refl _)
  have hsecond := hsame [bytePacket 0 false true, bytePacket 0 true true] (List.Perm.swap _ _ _)
  rw [← hsecond] at hfirst
  exact absurd hfirst (by decide)

end WebRtc.NetEq
