import WebRtc.Jitter.Assembly

/-!
# When a session is complete

`UpdateCompleteSession` looks for gaps between the packets that there are. What it takes for granted is that the first
one of them is the first packet and the last one the last packet. Packets outside of these boundaries are refused, but
not when they have come before the boundary is known, nor with H.264, and a packet that is refused may have become the
first one before. In all other runs a session that is complete has every packet once (`session_complete`).
-/

namespace WebRtc.Jitter

open VCMSessionInfo

/-! ## Where a packet goes -/

/-- All packets that there are are newer. -/
def GoesToFront (s : VCMSessionInfo) (packet : ReceivedPacket) : Prop :=
  ∀ q ∈ s.packets, isNewerSequenceNumber q.seqNum packet.seqNum = true

/-- The last packet that there is is not newer. -/
def GoesToEnd (s : VCMSessionInfo) (packet : ReceivedPacket) : Prop :=
  ∀ q ∈ s.packets.getLast?, isNewerSequenceNumber q.seqNum packet.seqNum = false

instance (s : VCMSessionInfo) (packet : ReceivedPacket) : Decidable (GoesToFront s packet) :=
  inferInstanceAs (Decidable (∀ q ∈ s.packets, _))

instance (s : VCMSessionInfo) (packet : ReceivedPacket) : Decidable (GoesToEnd s packet) :=
  inferInstanceAs (Decidable (∀ q ∈ s.packets.getLast?, _))

/-- The packet becomes the first one. -/
def takesFirst (s : VCMSessionInfo) (packet : ReceivedPacket) : Bool :=
  packet.isFirstPacket &&
    if packet.codec = .h264 then s.firstPacketSeqNum.all (isNewerSequenceNumber · packet.seqNum)
    else s.firstPacketSeqNum.isNone

/-- The packet becomes the last one. -/
def takesLast (s : VCMSessionInfo) (packet : ReceivedPacket) : Bool :=
  packet.markerBit &&
    if packet.codec = .h264 then s.lastPacketSeqNum.all (isNewerSequenceNumber packet.seqNum)
    else s.lastPacketSeqNum.isNone

theorem passes_iff (seqNum : UInt16) (q : StoredPacket) : passes seqNum q = isNewerSequenceNumber q.seqNum seqNum := by
  unfold passes latestSequenceNumber
  rcases hnewer : isNewerSequenceNumber seqNum q.seqNum with _ | _
  · rcases hother : isNewerSequenceNumber q.seqNum seqNum with _ | _
    · simp [eq_of_not_newer hnewer hother]
    · have hne : q.seqNum ≠ seqNum := by
        rintro heq
        rw [heq] at hother hnewer
        rw [hnewer] at hother
        cases hother
      simp [hne]
  · simp [not_newer_both hnewer]

section Place
variable {s : VCMSessionInfo} {packet : ReceivedPacket}

theorem goesToFront_iff : GoesToFront s packet ↔ s.packets.rdropWhile (passes packet.seqNum) = [] := by
  rw [List.rdropWhile_eq_nil_iff]
  simp only [passes_iff, GoesToFront]

theorem goesToEnd_iff : GoesToEnd s packet ↔ s.packets.rtakeWhile (passes packet.seqNum) = [] := by
  rw [List.rtakeWhile_eq_nil_iff, GoesToEnd]
  constructor
  · intro h hne
    rw [passes_iff, h _ (List.getLast?_eq_some_getLast hne)]
    exact Bool.false_ne_true
  · intro h q hq
    obtain ⟨hne, rfl⟩ := List.mem_getLast?_eq_getLast hq
    rw [← passes_iff, ← Bool.not_eq_true]
    exact h hne

/-- The numbers, when the packet is in its place. -/
def placed (s : VCMSessionInfo) (packet : ReceivedPacket) : List UInt16 :=
  (s.packets.rdropWhile (passes packet.seqNum)).map VCMPacket.seqNum ++
    packet.seqNum :: (s.packets.rtakeWhile (passes packet.seqNum)).map VCMPacket.seqNum

theorem placed_head (h : ¬ GoesToFront s packet) :
    (placed s packet).head? = (s.packets.map VCMPacket.seqNum).head? := by
  rw [goesToFront_iff] at h
  have hall := @List.rdropWhile_append_rtakeWhile _ (passes packet.seqNum) s.packets
  obtain ⟨q, before, hbefore⟩ := List.exists_cons_of_ne_nil h
  rw [hbefore] at hall
  rw [placed, hbefore, ← hall]
  rfl

theorem placed_head_first (h : GoesToFront s packet ∨ (s.packets.map VCMPacket.seqNum).head? = some packet.seqNum) :
    (placed s packet).head? = some packet.seqNum := by
  by_cases hfront : GoesToFront s packet
  · rw [placed, goesToFront_iff.1 hfront]
    rfl
  · rw [placed_head hfront]
    exact h.resolve_left hfront

theorem placed_last (h : ¬ GoesToEnd s packet) :
    (placed s packet).getLast? = (s.packets.map VCMPacket.seqNum).getLast? := by
  rw [goesToEnd_iff] at h
  have hall := @List.rdropWhile_append_rtakeWhile _ (passes packet.seqNum) s.packets
  obtain ⟨after, q, hafter⟩ := List.eq_nil_or_concat' _ |>.resolve_left h
  rw [hafter] at hall
  rw [placed, hafter, ← hall]
  simp [List.getLast?_cons, List.getLast?_append]

theorem placed_last_last (h : GoesToEnd s packet) : (placed s packet).getLast? = some packet.seqNum := by
  rw [placed, goesToEnd_iff.1 h]
  simp

end Place

/-! ## The boundaries -/

theorem all_not_of_not_any {p : UInt16 → Bool} {number : Option UInt16} (h : ¬ number.any p = true) :
    number.all (fun x => !p x) = true := by
  cases number with
  | none => rfl
  | some x => simpa using h

/-- What `trackFirst` and `trackLast` leave as it is, and what they make of the first and the last number. -/
theorem trackFirst_cases (s : VCMSessionInfo) (packet : ReceivedPacket) :
    (s.trackFirst packet = none ∧ packet.codec ≠ .h264) ∨
    ∃ first, s.trackFirst packet = some first ∧ first.packets = s.packets ∧ first.complete = s.complete ∧
      first.lastPacketSeqNum = s.lastPacketSeqNum ∧
      first.firstPacketSeqNum = (if takesFirst s packet then some packet.seqNum else s.firstPacketSeqNum) ∧
      (packet.codec ≠ .h264 → takesFirst s packet = false →
        s.firstPacketSeqNum.all (fun number => !isNewerSequenceNumber number packet.seqNum)) := by
  by_cases hcodec : packet.codec = .h264
  · right
    rw [VCMSessionInfo.trackFirst, takesFirst, if_pos hcodec, if_pos hcodec]
    exact ⟨_, rfl, rfl, rfl, rfl, rfl, fun h => absurd hcodec h⟩
  · have htakes : takesFirst s packet = (packet.isFirstPacket && s.firstPacketSeqNum.isNone) := by
      rw [takesFirst, if_neg hcodec]
    rw [VCMSessionInfo.trackFirst, if_neg hcodec]
    by_cases hbecomes : packet.isFirstPacket = true ∧ s.firstPacketSeqNum = none
    · right
      rw [if_pos hbecomes, htakes, hbecomes.1, hbecomes.2]
      exact ⟨_, rfl, rfl, rfl, rfl, rfl, fun _ h => absurd h Bool.true_eq_false.mp⟩
    · have hfalse : takesFirst s packet = false := by
        rw [htakes, ← Bool.not_eq_true, Bool.and_eq_true, Option.isNone_iff_eq_none]
        exact hbecomes
      rw [if_neg hbecomes, hfalse]
      by_cases hbefore : s.firstPacketSeqNum.any (isNewerSequenceNumber · packet.seqNum) = true
      · exact .inl ⟨if_pos hbefore, hcodec⟩
      · right
        rw [if_neg hbefore]
        have hkept := all_not_of_not_any hbefore
        split
        · exact ⟨_, rfl, rfl, rfl, rfl, rfl, fun _ _ => hkept⟩
        · exact ⟨s, rfl, rfl, rfl, rfl, rfl, fun _ _ => hkept⟩

theorem trackLast_cases (s : VCMSessionInfo) (packet : ReceivedPacket) :
    (s.trackLast packet = none ∧ packet.codec ≠ .h264 ∧ s.lastPacketSeqNum.any (isNewerSequenceNumber packet.seqNum)) ∨
    ∃ last, s.trackLast packet = some last ∧ last.packets = s.packets ∧ last.complete = s.complete ∧
      last.firstPacketSeqNum = s.firstPacketSeqNum ∧
      last.lastPacketSeqNum = (if takesLast s packet then some packet.seqNum else s.lastPacketSeqNum) ∧
      (packet.codec ≠ .h264 → takesLast s packet = false →
        s.lastPacketSeqNum.all (fun number => !isNewerSequenceNumber packet.seqNum number)) := by
  by_cases hcodec : packet.codec = .h264
  · right
    rw [VCMSessionInfo.trackLast, takesLast, if_pos hcodec, if_pos hcodec]
    exact ⟨_, rfl, rfl, rfl, rfl, rfl, fun h => absurd hcodec h⟩
  · have htakes : takesLast s packet = (packet.markerBit && s.lastPacketSeqNum.isNone) := by
      rw [takesLast, if_neg hcodec]
    rw [VCMSessionInfo.trackLast, if_neg hcodec]
    by_cases hbecomes : packet.markerBit = true ∧ s.lastPacketSeqNum = none
    · right
      rw [if_pos hbecomes, htakes, hbecomes.1, hbecomes.2]
      exact ⟨_, rfl, rfl, rfl, rfl, rfl, fun _ h => absurd h Bool.true_eq_false.mp⟩
    · have hfalse : takesLast s packet = false := by
        rw [htakes, ← Bool.not_eq_true, Bool.and_eq_true, Option.isNone_iff_eq_none]
        exact hbecomes
      rw [if_neg hbecomes, hfalse]
      by_cases hbehind : s.lastPacketSeqNum.any (isNewerSequenceNumber packet.seqNum) = true
      · exact .inl ⟨if_pos hbehind, hcodec, hbehind⟩
      · right
        rw [if_neg hbehind]
        exact ⟨s, rfl, rfl, rfl, rfl, rfl, fun _ _ => all_not_of_not_any hbehind⟩

/-- The first packet is in front and the last one at the end, and a complete session has both and no gaps. -/
structure Bounded (s : VCMSessionInfo) : Prop where
  first : ∀ number, s.firstPacketSeqNum = some number → (s.packets.map VCMPacket.seqNum).head? = some number
  last : ∀ number, s.lastPacketSeqNum = some number → (s.packets.map VCMPacket.seqNum).getLast? = some number
  complete : s.complete = true → s.firstPacketSeqNum.isSome ∧ s.lastPacketSeqNum.isSome ∧ allInSequence s.packets = true
  room : s.packets.length ≤ kMaxPacketsInSession

/-- The packet is neither empty nor a duplicate, and there is room. -/
structure Arrives (s : VCMSessionInfo) (packet : ReceivedPacket) : Prop where
  media : packet.frameType ≠ .emptyFrame
  room : s.packets.length ≠ kMaxPacketsInSession
  fresh : isDuplicate (s.packets.rdropWhile (passes packet.seqNum)) packet.seqNum = false

/-- A packet that becomes the first one goes to the front and one that becomes the last one to the end. With H.264 no
other packet does when the first or the last one is known. A packet behind the last one does not become the
first one. -/
structure Ordered (s : VCMSessionInfo) (packet : ReceivedPacket) : Prop where
  first : takesFirst s packet = true → GoesToFront s packet ∨
    (s.packets.map VCMPacket.seqNum).head? = some packet.seqNum
  last : takesLast s packet = true → GoesToEnd s packet
  notFront : packet.codec = .h264 → takesFirst s packet = false → s.firstPacketSeqNum ≠ none → ¬ GoesToFront s packet
  notEnd : packet.codec = .h264 → takesLast s packet = false → s.lastPacketSeqNum ≠ none →
    ¬ GoesToEnd s packet ∨ s.lastPacketSeqNum = some packet.seqNum
  notBehind : packet.codec ≠ .h264 → takesFirst s packet = true →
    s.lastPacketSeqNum.any (isNewerSequenceNumber packet.seqNum) = false

section Step
variable {s : VCMSessionInfo} {packet : ReceivedPacket}

/-- The first number is in front of the list with the packet. -/
theorem placed_first (h : Bounded s) (hordered : Ordered s packet)
    (hkept : packet.codec ≠ .h264 → takesFirst s packet = false →
      s.firstPacketSeqNum.all (fun number => !isNewerSequenceNumber number packet.seqNum)) {number : UInt16}
    (hnumber : (if takesFirst s packet then some packet.seqNum else s.firstPacketSeqNum) = some number) :
    (placed s packet).head? = some number := by
  split at hnumber
  · rename_i htakes
    cases hnumber
    exact placed_head_first (hordered.first htakes)
  · rename_i htakes
    rw [Bool.not_eq_true] at htakes
    have hfront := h.first number hnumber
    have hother : ¬ GoesToFront s packet := by
      by_cases hcodec : packet.codec = .h264
      · exact hordered.notFront hcodec htakes (by simp [hnumber])
      · -- The packet in front is not newer.
        intro hgoes
        rw [List.head?_map, Option.map_eq_some_iff] at hfront
        obtain ⟨q, hq, hseq⟩ := hfront
        have hnewer := hgoes q (List.mem_of_mem_head? hq)
        have hall := hkept hcodec htakes
        rw [hnumber, Option.all_some, ← hseq, hnewer] at hall
        cases hall
    rw [placed_head hother, hfront]

/-- The last number is at the end. -/
theorem placed_last_known (h : Bounded s) (hordered : Ordered s packet)
    (hkept : packet.codec ≠ .h264 → takesLast s packet = false →
      s.lastPacketSeqNum.all (fun number => !isNewerSequenceNumber packet.seqNum number)) {number : UInt16}
    (hnumber : (if takesLast s packet then some packet.seqNum else s.lastPacketSeqNum) = some number) :
    (placed s packet).getLast? = some number := by
  split at hnumber
  · rename_i htakes
    cases hnumber
    exact placed_last_last (hordered.last htakes)
  · rename_i htakes
    rw [Bool.not_eq_true] at htakes
    have hend := h.last number hnumber
    by_cases hgoes : GoesToEnd s packet
    · -- Then it has the same number as the last one.
      have hsame : number = packet.seqNum := by
        by_cases hcodec : packet.codec = .h264
        · have hlast := (hordered.notEnd hcodec htakes (by simp [hnumber])).resolve_left (not_not.2 hgoes)
          rw [hnumber] at hlast
          exact Option.some.inj hlast
        · rw [List.getLast?_map, Option.map_eq_some_iff] at hend
          obtain ⟨q, hq, rfl⟩ := hend
          have hall := hkept hcodec htakes
          rw [hnumber, Option.all_some, Bool.not_eq_true'] at hall
          exact eq_of_not_newer (hgoes q hq) hall
      rw [placed_last_last hgoes, hsame]
    · rw [placed_last hgoes, hend]

/-- The list that `insertBuffer` makes has the packet in its place. -/
theorem insertBuffer_seqNums (frameBuffer : Memory) (before after : List StoredPacket) (packet : ReceivedPacket) :
    (insertBuffer frameBuffer before packet after).1.map VCMPacket.seqNum =
      before.map VCMPacket.seqNum ++ packet.seqNum :: after.map VCMPacket.seqNum := by
  have hshift : ∀ steps (l : List StoredPacket), (shiftSubsequentPackets frameBuffer steps l).1.map VCMPacket.seqNum =
      l.map VCMPacket.seqNum := by
    intro steps l
    cases l with
    | nil => rfl
    | cons q l => simp [shiftSubsequentPackets, Function.comp_def]
  unfold insertBuffer
  split <;> simp [hshift]

/-- The boundaries hold again when the session has been completed or not. -/
theorem bounded_update {s : VCMSessionInfo}
    (hfirst : ∀ number, s.firstPacketSeqNum = some number → (s.packets.map VCMPacket.seqNum).head? = some number)
    (hlast : ∀ number, s.lastPacketSeqNum = some number → (s.packets.map VCMPacket.seqNum).getLast? = some number)
    (hcomplete : s.complete = true → s.firstPacketSeqNum.isSome ∧ s.lastPacketSeqNum.isSome) (hne : s.packets ≠ [])
    (hroom : s.packets.length ≤ kMaxPacketsInSession) : Bounded s.updateCompleteSession := by
  obtain ⟨hpackets, hfirsts, hlasts⟩ := updateCompleteSession_rest s
  refine ⟨?_, ?_, fun hdone => ?_, ?_⟩
  · rw [hpackets, hfirsts]
    exact hfirst
  · rw [hpackets, hlasts]
    exact hlast
  · rw [hpackets, hfirsts, hlasts]
    rw [VCMSessionInfo.updateCompleteSession] at hdone
    split at hdone
    · rename_i hboth
      simp only [haveFirstPacket, haveLastPacket, Bool.and_eq_true] at hboth
      exact ⟨hboth.1.2, hboth.2.2, hdone⟩
    · -- A session that was complete has both.
      rename_i hboth
      obtain ⟨hsome, hsome'⟩ := hcomplete hdone
      exact absurd (by simp [haveFirstPacket, haveLastPacket, hne, hsome, hsome']) hboth
  · rw [hpackets]
    exact hroom

/-- A session of which nothing changes that the boundaries are about. -/
theorem Bounded.same {s' : VCMSessionInfo} (h : Bounded s) (hpackets : s'.packets = s.packets)
    (hfirst : s'.firstPacketSeqNum = s.firstPacketSeqNum) (hlast : s'.lastPacketSeqNum = s.lastPacketSeqNum)
    (hcomplete : s'.complete = s.complete) : Bounded s' := by
  refine ⟨?_, ?_, ?_, ?_⟩
  · rw [hpackets, hfirst]
    exact h.first
  · rw [hpackets, hlast]
    exact h.last
  · rw [hpackets, hfirst, hlast, hcomplete]
    exact h.complete
  · rw [hpackets]
    exact h.room

theorem isSome_first {p : Bool} {x : UInt16} {y : Option UInt16} (h : y.isSome) : (if p then some x else y).isSome := by
  split
  · rfl
  · exact h

/-- A packet that is put in its place. -/
theorem inserted_bounded (h : Bounded s) (hordered : Ordered s packet) (hfull : s.packets.length ≠ kMaxPacketsInSession)
    {last : VCMSessionInfo} {packets : List StoredPacket} (hnumbers : packets.map VCMPacket.seqNum = placed s packet)
    (hcomplete : last.complete = s.complete)
    (hfirst : last.firstPacketSeqNum = if takesFirst s packet then some packet.seqNum else s.firstPacketSeqNum)
    (hlast : last.lastPacketSeqNum = if takesLast s packet then some packet.seqNum else s.lastPacketSeqNum)
    (hkept : packet.codec ≠ .h264 → takesFirst s packet = false →
      s.firstPacketSeqNum.all (fun number => !isNewerSequenceNumber number packet.seqNum))
    (hkept' : packet.codec ≠ .h264 → takesLast s packet = false →
      s.lastPacketSeqNum.all (fun number => !isNewerSequenceNumber packet.seqNum number)) :
    Bounded (updateCompleteSession { last with packets }) := by
  have hlength : packets.length = s.packets.length + 1 := by
    have hplaced := congrArg List.length hnumbers
    have hall := congrArg List.length (@List.rdropWhile_append_rtakeWhile _ (passes packet.seqNum) s.packets)
    rw [List.length_append] at hall
    simp only [placed, List.length_map, List.length_append, List.length_cons] at hplaced
    omega
  have hroom := h.room
  refine bounded_update ?_ ?_ ?_ ?_ ?_
  · intro number hnumber
    rw [hnumbers]
    exact placed_first h hordered hkept (hfirst ▸ hnumber)
  · intro number hnumber
    rw [hnumbers]
    exact placed_last_known h hordered hkept' (hlast ▸ hnumber)
  · intro hdone
    obtain ⟨hone, htwo, -⟩ := h.complete (hcomplete ▸ hdone)
    simp only [hfirst, hlast]
    exact ⟨isSome_first hone, isSome_first htwo⟩
  · exact List.ne_nil_of_length_eq_add_one hlength
  · change packets.length ≤ kMaxPacketsInSession
    omega

/-- **One packet.** -/
theorem insertPacket_bounded (h : Bounded s) (frameBuffer : Memory) (hordered : Arrives s packet → Ordered s packet) :
    Bounded (s.insertPacket frameBuffer packet).2.1 := by
  rw [VCMSessionInfo.insertPacket]
  by_cases hmedia : packet.frameType = .emptyFrame
  · rw [if_pos hmedia]
    exact h.same rfl rfl rfl rfl
  · rw [if_neg hmedia]
    by_cases hfull : s.packets.length = kMaxPacketsInSession
    · rw [if_pos hfull]
      exact h
    · rw [if_neg hfull]
      simp only
      rcases hduplicate : isDuplicate (s.packets.rdropWhile (passes packet.seqNum)) packet.seqNum with _ | _
      · have hplace := hordered ⟨hmedia, hfull, hduplicate⟩
        rw [if_neg Bool.false_ne_true]
        rcases trackFirst_cases s packet with ⟨hnone, -⟩ | ⟨first, hsome, hpackets, hcomplete, hlast, hfirst, hkept⟩
        · rw [hnone]
          exact h
        · rw [hsome]
          simp only
          rcases trackLast_cases first packet with ⟨hnone, hcodec, hbehind⟩ |
            ⟨last, hsome', hpackets', hcomplete', hfirst', hlast', hkept'⟩
          · -- Refused, and so it has not become the first packet.
            rw [hnone]
            rw [hlast] at hbehind
            have hnot : takesFirst s packet = false := by
              rw [← Bool.not_eq_true]
              intro htakes
              rw [hplace.notBehind hcodec htakes] at hbehind
              cases hbehind
            rw [hnot] at hfirst
            exact h.same hpackets hfirst hlast hcomplete
          · rw [hsome']
            have htakesLast : takesLast first packet = takesLast s packet := by rw [takesLast, takesLast, hlast]
            rw [htakesLast, hlast] at hlast' hkept'
            exact inserted_bounded h hplace hfull (insertBuffer_seqNums frameBuffer _ _ packet)
              (hcomplete'.trans hcomplete)
              (hfirst'.trans hfirst) hlast' hkept hkept'
      · rw [if_pos rfl]
        exact h

end Step

/-! ## Runs -/

/-- One packet for every number from the first to the last. -/
def IsComplete (s : VCMSessionInfo) : Prop := ∃ first last, s.firstPacketSeqNum = some first ∧
    s.lastPacketSeqNum = some last ∧
  s.packets.map VCMPacket.seqNum = (List.range ((last - first).toNat + 1)).map fun k => first + UInt16.ofNat k

theorem chain_numbers {x : UInt16} {l : List UInt16} (h : (x :: l).IsChain fun a b => a + 1 = b) :
    x :: l = (List.range (l.length + 1)).map fun k => x + UInt16.ofNat k := by
  induction l generalizing x with
  | nil => simp
  | cons y l ih =>
    obtain ⟨rfl, hrest⟩ := List.isChain_cons_cons.1 h
    rw [List.length_cons, @List.range_succ_eq_map (l.length + 1), List.map_cons, List.map_map, ih hrest]
    congr 1
    · simp
    · apply List.map_congr_left
      intro k _
      simp only [Function.comp_apply, Nat.succ_eq_add_one, UInt16.ofNat_add]
      rw [UInt16.add_assoc, UInt16.add_comm 1]
      rfl

/-- Without gaps between the first packet and the last one, all are there. -/
theorem Bounded.isComplete {s : VCMSessionInfo} (h : Bounded s) (hcomplete : s.complete = true) : IsComplete s := by
  obtain ⟨hfirst, hlast, hsequence⟩ := h.complete hcomplete
  obtain ⟨first, hfirst⟩ := Option.isSome_iff_exists.1 hfirst
  obtain ⟨last, hlast⟩ := Option.isSome_iff_exists.1 hlast
  have hhead := h.first first hfirst
  have hend := h.last last hlast
  have hroom := h.room
  rw [allInSequence_iff] at hsequence
  rw [← List.length_map (f := VCMPacket.seqNum)] at hroom
  refine ⟨first, last, hfirst, hlast, ?_⟩
  generalize s.packets.map VCMPacket.seqNum = numbers at *
  cases numbers with
  | nil => cases hhead
  | cons x l =>
    obtain rfl := Option.some.inj hhead
    have hall := chain_numbers hsequence
    have hlength : l.length < 65536 := by
      rw [List.length_cons, kMaxPacketsInSession] at hroom
      omega
    have hlastEq : last = x + UInt16.ofNat l.length := by
      rw [hall] at hend
      simpa [List.range_succ] using hend.symm
    have hdist : (last - x).toNat = l.length := by
      rw [hlastEq, UInt16.add_comm, UInt16.add_sub_cancel, UInt16.toNat_ofNat', Nat.mod_eq_of_lt hlength]
    rw [hdist]
    exact hall

def sessionStep (s : VCMSessionInfo × Memory) (packet : ReceivedPacket) : (VCMSessionInfo × Memory) × Int :=
  ((s.1.insertPacket s.2 packet).2, (s.1.insertPacket s.2 packet).1)

/-- **A session that is complete has all packets**, in every run in which the packets that arrive are in the boundaries
of those that have come before. -/
theorem session_complete (frameBuffer : Memory) (packets : List ReceivedPacket)
    (hordered : Machine.Meets sessionStep (fun s packet => Arrives s.1 packet → Ordered s.1 packet)
      ({}, frameBuffer) packets) :
    Machine.Always sessionStep (fun s => s.1.complete = true → IsComplete s.1) ({}, frameBuffer) packets := by
  have hstart : Bounded {} := by
    constructor <;> simp
  have hrun := @Machine.always_of_meets _ _ _ sessionStep (fun s => Bounded s.1) _
    (fun s packet h hplace => insertPacket_bounded h s.2 hplace) ({}, frameBuffer) hstart packets hordered
  exact hrun.mono fun s h => h.isComplete

/-- A VP8 packet without data. -/
def vp8Packet (seqNum : UInt16) (isFirstPacket markerBit : Bool) : ReceivedPacket where
  seqNum
  data := []
  markerBit
  frameType := .videoFrameKey
  codec := .vp8
  isFirstPacket

/-- Two packets, the last one first. -/
theorem session_complete_two : Machine.Always sessionStep (fun s => s.1.complete = true → IsComplete s.1)
    ({}, fun _ => 0) [vp8Packet 6 false true, vp8Packet 5 true false] := by
  refine session_complete (fun _ => 0) [vp8Packet 6 false true, vp8Packet 5 true false]
    ⟨fun _ => ?_, fun _ => ?_, trivial⟩
  · exact ⟨by decide, by decide, by decide, by decide, by decide⟩
  · exact ⟨by decide, by decide, by decide, by decide, by decide⟩

/-- Packet 5 comes before it is known that 6 is the first one. -/
theorem not_session_complete : ¬ ∀ packets : List ReceivedPacket,
    Machine.Always sessionStep (fun s => s.1.complete = true → IsComplete s.1) ({}, fun _ => 0) packets := by
  intro h
  obtain ⟨-, -, -, hend⟩ := h [vp8Packet 5 false false, vp8Packet 6 true false, vp8Packet 7 false true]
  obtain ⟨first, last, hfirst, hlast, hpackets⟩ := hend (by decide)
  obtain rfl := Option.some.inj hfirst
  obtain rfl := Option.some.inj hlast
  exact absurd hpackets (by decide)

end WebRtc.Jitter
