import WebRtc.Jitter.FrameRoom

/-!
# What the session makes of a packet

An empty packet is noted, a packet that is a duplicate or not within the boundaries is rejected, and every other one
is taken (`insertPacket_cases`). Of a packet that is taken `Inserted` says when the frame is complete, and when it can
be decoded although it is not.
-/

namespace WebRtc.Jitter

open CInt VCMSessionInfo

/-- The packet is put into the list. -/
structure Takes (s : VCMSessionInfo) (packet : ReceivedPacket) : Prop where
  arrives : Arrives s packet
  notBefore : packet.codec ≠ .h264 → s.firstPacketSeqNum.any (isNewerSequenceNumber · packet.seqNum) = false
  notBehind : packet.codec ≠ .h264 → s.lastPacketSeqNum.any (isNewerSequenceNumber packet.seqNum) = false

/-- The first packet and the last one are known. -/
def Known (s : VCMSessionInfo) : Prop := s.firstPacketSeqNum.isSome = true ∧ s.lastPacketSeqNum.isSome = true

/-- The type of a frame whose first packet is known, with one more packet. -/
def frameTypeWith (s : VCMSessionInfo) (packet : ReceivedPacket) : FrameType :=
  if packet.codec = .h264 then packet.frameType
  else if s.frameType = .emptyFrame then packet.frameType else s.frameType

/-- With the packet the frame can be decoded, should it have gaps. -/
def DecodableWith (s : DecodableSession) (packet : ReceivedPacket) (decodeErrorMode : VCMDecodeErrorMode)
    (frameData : FrameData) : Prop :=
  s.decodable = true ∨ decodeErrorMode = .withErrors ∨
    decodeErrorMode = .selectiveErrors ∧ kRttThreshold ≤ frameData.rttMs ∧
      frameTypeWith s.toVCMSessionInfo packet ≠ .videoFrameKey ∧ frameData.between (s.packets.length + 1) = false

section Session
variable {s : VCMSessionInfo} {packet : ReceivedPacket}

theorem trackFirst_none_iff : s.trackFirst packet = none ↔
    packet.codec ≠ .h264 ∧ s.firstPacketSeqNum.any (isNewerSequenceNumber · packet.seqNum) = true := by
  constructor
  · intro h
    refine ⟨fun hcodec => ?_, trackFirst_none h⟩
    rw [trackFirst, if_pos hcodec] at h
    cases h
  · rintro ⟨hcodec, hbefore⟩
    have hknown : s.firstPacketSeqNum ≠ none := by
      intro heq
      rw [heq] at hbefore
      cases hbefore
    rw [trackFirst, if_neg hcodec, if_neg fun hfirst => hknown hfirst.2, if_pos hbefore]

theorem trackLast_none_iff : s.trackLast packet = none ↔
    packet.codec ≠ .h264 ∧ s.lastPacketSeqNum.any (isNewerSequenceNumber packet.seqNum) = true := by
  constructor
  · exact trackLast_none
  · rintro ⟨hcodec, hbehind⟩
    have hknown : s.lastPacketSeqNum ≠ none := by
      intro heq
      rw [heq] at hbehind
      cases hbehind
    rw [trackLast, if_neg hcodec, if_neg fun hlast => hknown hlast.2, if_pos hbehind]

theorem trackFirst_frameType {first : VCMSessionInfo} (hmedia : packet.frameType ≠ .emptyFrame)
    (hknown : s.firstPacketSeqNum.isSome = true) (h : s.trackFirst packet = some first) :
    first.frameType = frameTypeWith s packet := by
  have hfirst : s.firstPacketSeqNum ≠ none := Option.isSome_iff_ne_none.1 hknown
  unfold trackFirst at h
  unfold frameTypeWith
  split at h
  · obtain rfl := Option.some.inj h
    rename_i hcodec
    exact (if_pos hcodec).symm
  · rename_i hcodec
    rw [if_neg fun hnone => hfirst hnone.2] at h
    rw [if_neg hcodec]
    split at h
    · cases h
    · split at h
      · rename_i htype
        obtain rfl := Option.some.inj h
        exact (if_pos htype.1).symm
      · rename_i htype
        obtain rfl := Option.some.inj h
        exact (if_neg fun hempty => htype ⟨hempty, hmedia⟩).symm

theorem trackLast_frameType {last : VCMSessionInfo} (h : s.trackLast packet = some last) :
    last.frameType = s.frameType := by
  unfold trackLast at h
  split at h
  · obtain rfl := Option.some.inj h
    rfl
  · split at h
    · obtain rfl := Option.some.inj h
      rfl
    · split at h
      · cases h
      · obtain rfl := Option.some.inj h
        rfl

theorem trackFirst_keeps {first : VCMSessionInfo} (h : s.trackFirst packet = some first) :
    first.packets = s.packets ∧ first.complete = s.complete ∧ first.lastPacketSeqNum = s.lastPacketSeqNum ∧
      first.firstPacketSeqNum = if takesFirst s packet then some packet.seqNum else s.firstPacketSeqNum := by
  rcases trackFirst_cases s packet with ⟨hnone, -⟩ | ⟨first', hsome, hpackets, hcomplete, hlasts, hfirsts, -⟩
  · rw [hnone] at h
    cases h
  · obtain rfl := Option.some.inj (h.symm.trans hsome)
    exact ⟨hpackets, hcomplete, hlasts, hfirsts⟩

theorem trackLast_keeps {last : VCMSessionInfo} (h : s.trackLast packet = some last) :
    last.packets = s.packets ∧ last.complete = s.complete ∧ last.firstPacketSeqNum = s.firstPacketSeqNum ∧
      last.lastPacketSeqNum = if takesLast s packet then some packet.seqNum else s.lastPacketSeqNum := by
  rcases trackLast_cases s packet with ⟨hnone, -⟩ | ⟨last', hsome, hpackets, hcomplete, hfirsts, hlasts, -⟩
  · rw [hnone] at h
    cases h
  · obtain rfl := Option.some.inj (h.symm.trans hsome)
    exact ⟨hpackets, hcomplete, hfirsts, hlasts⟩

end Session

/-- What a packet that is put into the list makes of the session. -/
structure Inserted (s : DecodableSession) (packet : ReceivedPacket) (decodeErrorMode : VCMDecodeErrorMode)
    (frameData : FrameData) (list : List StoredPacket) (s' : DecodableSession) : Prop where
  packets : s'.packets = list
  known : Known s.toVCMSessionInfo → Known s'.toVCMSessionInfo
  complete : Known s.toVCMSessionInfo → s'.complete = allInSequence list
  completed : (s.complete = true → Known s.toVCMSessionInfo) → s'.complete = true → Known s'.toVCMSessionInfo
  decodable : Known s.toVCMSessionInfo → s'.complete = false →
    (s'.decodable = true ↔ DecodableWith s packet decodeErrorMode frameData)

/-- What a packet that is rejected leaves of the session. -/
structure Left (s s' : DecodableSession) : Prop where
  packets : s'.packets = s.packets
  known : Known s.toVCMSessionInfo → Known s'.toVCMSessionInfo
  complete : s'.complete = s.complete
  decodable : s'.decodable = s.decodable

section DecodableSession
variable {s : DecodableSession} {packet : ReceivedPacket} {decodeErrorMode : VCMDecodeErrorMode}
  {frameData : FrameData} {frameBuffer : Memory}

theorem isSome_took {p : Bool} {x : UInt16} {y : Option UInt16} (h : y.isSome = true) :
    (if p = true then some x else y).isSome = true := by
  split
  · rfl
  · exact h

/-- The boundaries stay known. -/
theorem known_of_tracked {first last : VCMSessionInfo} (hfirst : s.trackFirst packet = some first)
    (hlast : first.trackLast packet = some last) (h : Known s.toVCMSessionInfo) : Known last := by
  obtain ⟨-, -, hlasts, hfirsts⟩ := trackFirst_keeps hfirst
  obtain ⟨-, -, hfirsts', hlasts'⟩ := trackLast_keeps hlast
  rw [Known, hfirsts', hfirsts, hlasts', hlasts]
  exact ⟨isSome_took h.1, isSome_took h.2⟩

theorem complete_of_tracked {first last : VCMSessionInfo} (hfirst : s.trackFirst packet = some first)
    (hlast : first.trackLast packet = some last) : last.complete = s.complete :=
  (trackLast_keeps hlast).2.1.trans (trackFirst_keeps hfirst).2.1

theorem both_of_known {t : VCMSessionInfo} (hne : t.packets ≠ []) (h : Known t) :
    (t.haveFirstPacket && t.haveLastPacket) = true := by
  simp [haveFirstPacket, haveLastPacket, hne, h.1, h.2]

/-- Of a session that is put together from the checks of the boundaries, whatever is said about its decoding. -/
theorem inserted_of_tracked {first last : VCMSessionInfo} {list : List StoredPacket} {s' : DecodableSession}
    (hmedia : packet.frameType ≠ .emptyFrame) (hfirst : s.trackFirst packet = some first)
    (hlast : first.trackLast packet = some last) (hlength : list.length = s.packets.length + 1)
    (hsession : s'.toVCMSessionInfo = updateCompleteSession { last with packets := list })
    (hdecided : s' = match decodeErrorMode with
      | .withErrors =>
        { s with toVCMSessionInfo := updateCompleteSession { last with packets := list }, decodable := true }
      | .selectiveErrors => DecodableSession.updateDecodableSession
          { s with toVCMSessionInfo := updateCompleteSession { last with packets := list } } frameData
      | .noErrors => { s with toVCMSessionInfo := updateCompleteSession { last with packets := list } }) :
    Inserted s packet decodeErrorMode frameData list s' := by
  obtain ⟨hpackets, hfirsts, hlasts⟩ := updateCompleteSession_rest { last with packets := list }
  have hne : list ≠ [] := List.ne_nil_of_length_eq_add_one hlength
  have hlist : Known s.toVCMSessionInfo → Known { last with packets := list } := by
    intro h
    have hlast' : Known last := known_of_tracked hfirst hlast h
    exact hlast'
  have hknown : Known s.toVCMSessionInfo → Known s'.toVCMSessionInfo := by
    intro h
    rw [hsession, Known, hfirsts, hlasts]
    exact hlist h
  refine ⟨?_, hknown, fun h => ?_, fun hbefore hdone => ?_, fun h hincomplete => ?_⟩
  · rw [hsession, hpackets]
  · rw [hsession, updateCompleteSession, if_pos (both_of_known hne (hlist h))]
  · rw [hsession, updateCompleteSession] at hdone
    split at hdone
    · rename_i hboth
      simp only [haveFirstPacket, haveLastPacket, Bool.and_eq_true] at hboth
      rw [hsession, Known, hfirsts, hlasts]
      exact ⟨hboth.1.2, hboth.2.2⟩
    · exact hknown (hbefore ((complete_of_tracked hfirst hlast).symm.trans hdone))
  · cases decodeErrorMode with
    | noErrors =>
      rw [hdecided]
      simp [DecodableWith]
    | withErrors =>
      rw [hdecided]
      simp [DecodableWith]
    | selectiveErrors =>
      have htype : (updateCompleteSession { last with packets := list }).frameType =
          frameTypeWith s.toVCMSessionInfo packet := by
        rw [← trackFirst_frameType hmedia h.1 hfirst, ← trackLast_frameType hlast, updateCompleteSession]
        split <;> rfl
      have hhave : (updateCompleteSession { last with packets := list }).haveFirstPacket = true := by
        have hfirst' := (hknown h).1
        rw [hsession] at hfirst'
        simp [haveFirstPacket, hpackets, hne, hfirst']
      rw [hsession] at hincomplete
      rw [hdecided]
      simp only [DecodableSession.updateDecodableSession, DecodableWith, hincomplete, htype, hhave, hpackets, hlength,
        Bool.false_or]
      by_cases hdecodable : s.decodable = true
      · simp [hdecodable]
      · rw [if_neg hdecodable]
        split
        · rename_i hstop
          simp only [Bool.or_eq_true, decide_eq_true_eq, Bool.not_true, Bool.false_eq_true, or_false] at hstop
          simp only [hdecodable, false_or, reduceCtorEq, true_and, false_iff]
          rintro ⟨hrtt, hkey, hbetween⟩
          rcases hstop with (hlow | htype') | hcount
          · omega
          · exact hkey htype'
          · rw [hcount] at hbetween
            cases hbetween
        · rename_i hgo
          simp only [Bool.or_eq_true, decide_eq_true_eq, Bool.not_true, Bool.false_eq_true, or_false, not_or] at hgo
          obtain ⟨⟨hrtt, hkey⟩, hcount⟩ := hgo
          exact iff_of_true rfl (.inr (.inr ⟨trivial, by omega, hkey, Bool.not_eq_true _ ▸ hcount⟩))

theorem Left.refl (s : DecodableSession) : Left s s := ⟨rfl, id, rfl, rfl⟩

/-- **The session.** An empty packet is noted, a packet that is not taken is rejected, and one that is taken is put
into the list. -/
theorem insertPacket_cases (s : DecodableSession) (frameBuffer : Memory) (packet : ReceivedPacket)
    (decodeErrorMode : VCMDecodeErrorMode) (frameData : FrameData) :
    (packet.frameType = .emptyFrame ∧ ∃ s', s.insertPacket frameBuffer packet decodeErrorMode frameData =
        (0, s', frameBuffer) ∧ Left s s') ∨
    ((packet.frameType ≠ .emptyFrame ∧ ¬Takes s.toVCMSessionInfo packet) ∧ ∃ code s',
      s.insertPacket frameBuffer packet decodeErrorMode frameData = (code, s', frameBuffer) ∧
        (code = -1 ∨ code = -2 ∨ code = -3) ∧ Left s s') ∨
    (Takes s.toVCMSessionInfo packet ∧ ∃ s' written,
      s.insertPacket frameBuffer packet decodeErrorMode frameData = ((requiredLength packet : Int), s', written) ∧
        Inserted s packet decodeErrorMode frameData
          (insertBuffer frameBuffer (s.packets.rdropWhile (passes packet.seqNum)) packet
            (s.packets.rtakeWhile (passes packet.seqNum))).1 s') := by
  rw [DecodableSession.insertPacket]
  by_cases hmedia : packet.frameType = .emptyFrame
  · rw [if_pos hmedia]
    exact .inl ⟨hmedia, _, rfl, rfl, id, rfl, rfl⟩
  right
  rw [if_neg hmedia]
  by_cases hfull : s.packets.length = kMaxPacketsInSession
  · rw [if_pos hfull]
    exact .inl ⟨⟨hmedia, fun h => h.arrives.room hfull⟩, -1, s, rfl, .inl rfl, .refl s⟩
  rw [if_neg hfull]
  dsimp only
  by_cases hduplicate : isDuplicate (s.packets.rdropWhile (passes packet.seqNum)) packet.seqNum = true
  · rw [if_pos hduplicate]
    refine .inl ⟨⟨hmedia, fun h => ?_⟩, -2, s, rfl, .inr (.inl rfl), .refl s⟩
    rw [h.arrives.fresh] at hduplicate
    cases hduplicate
  rw [if_neg hduplicate]
  cases hfirst : s.trackFirst packet with
  | none =>
    obtain ⟨hcodec, hbefore⟩ := trackFirst_none_iff.1 hfirst
    refine .inl ⟨⟨hmedia, fun h => ?_⟩, -3, s, rfl, .inr (.inr rfl), .refl s⟩
    rw [h.notBefore hcodec] at hbefore
    cases hbefore
  | some first =>
    dsimp only
    obtain ⟨hkept, hcomplete, hlasts, hfirsts⟩ := trackFirst_keeps hfirst
    cases hlast : first.trackLast packet with
    | none =>
      obtain ⟨hcodec, hbehind⟩ := trackLast_none_iff.1 hlast
      refine .inl ⟨⟨hmedia, fun h => ?_⟩, -3, _, rfl, .inr (.inr rfl), hkept, fun h => ?_, hcomplete, rfl⟩
      · rw [hlasts, h.notBehind hcodec] at hbehind
        cases hbehind
      · rw [Known, hfirsts, hlasts]
        exact ⟨isSome_took h.1, h.2⟩
    | some last =>
      obtain ⟨hpackets, hsize⟩ := insertBuffer_packets frameBuffer (s.packets.rdropWhile (passes packet.seqNum))
        (s.packets.rtakeWhile (passes packet.seqNum)) packet
      have htakes : Takes s.toVCMSessionInfo packet := by
        refine ⟨⟨hmedia, hfull, Bool.not_eq_true _ ▸ hduplicate⟩, fun hcodec => ?_, fun hcodec => ?_⟩
        · by_contra hbefore
          rw [trackFirst_none_iff.2 ⟨hcodec, Bool.not_eq_false _ ▸ hbefore⟩] at hfirst
          cases hfirst
        · by_contra hbehind
          rw [← hlasts] at hbehind
          rw [trackLast_none_iff.2 ⟨hcodec, Bool.not_eq_false _ ▸ hbehind⟩] at hlast
          cases hlast
      have hlength : (insertBuffer frameBuffer (s.packets.rdropWhile (passes packet.seqNum)) packet
          (s.packets.rtakeWhile (passes packet.seqNum))).1.length = s.packets.length + 1 := by
        have hnumbers := congrArg List.length (insertBuffer_seqNums frameBuffer
          (s.packets.rdropWhile (passes packet.seqNum)) (s.packets.rtakeWhile (passes packet.seqNum)) packet)
        have hall := congrArg List.length (@List.rdropWhile_append_rtakeWhile _ (passes packet.seqNum) s.packets)
        rw [List.length_append] at hall
        simp only [List.length_map, List.length_append, List.length_cons] at hnumbers
        omega
      refine .inr ⟨htakes, _, _, Prod.ext_iff.2 ⟨congrArg Int.ofNat hsize, rfl⟩,
        inserted_of_tracked hmedia hfirst hlast hlength ?_ rfl⟩
      cases decodeErrorMode with
      | noErrors => rfl
      | withErrors => rfl
      | selectiveErrors => exact DecodableSession.updateDecodableSession_session _ _

end DecodableSession
end WebRtc.Jitter
