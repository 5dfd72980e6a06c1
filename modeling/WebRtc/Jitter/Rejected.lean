import WebRtc.Jitter.Session

/-!
# Packets that are rejected

| here | there |
| --- | --- |
| `VCMDecodeErrorMode`, `FrameData` | `video_coding.h:56-69`, `session_info.h:24-27` |
| `updateDecodableSession` | `session_info.cc:267-290` |
| `DecodableSession.insertPacket` | `session_info.cc:481-564` |

The boundaries of a frame are checked one after the other, and what the first check records is not taken back when
the second one rejects the packet: a packet behind the last one that says it is the first one is recorded as such
(`Misplaced`). All other packets that are rejected change nothing.
-/

namespace WebRtc.Jitter

open VCMSessionInfo

inductive VCMDecodeErrorMode where
  | noErrors
  | selectiveErrors
  | withErrors
deriving DecidableEq, Repr

/-- `between` tells which numbers of packets lie between the two percentages of the rolling average, a floating-point
number. -/
structure FrameData where
  rttMs : Int
  between : Nat → Bool

/-- A session, and whether it can be decoded with errors. -/
structure DecodableSession extends VCMSessionInfo where
  decodable : Bool := false
deriving DecidableEq, Repr

def kRttThreshold : Int := 100

namespace DecodableSession

def updateDecodableSession (s : DecodableSession) (frameData : FrameData) : DecodableSession :=
  if s.complete || s.decodable then s
  else if frameData.rttMs < kRttThreshold || s.frameType = .videoFrameKey || !s.haveFirstPacket ||
      frameData.between s.packets.length then s
  else { s with decodable := true }

/-- What is returned, the session and the buffer. -/
def insertPacket (s : DecodableSession) (frameBuffer : Memory) (packet : ReceivedPacket)
    (decodeErrorMode : VCMDecodeErrorMode) (frameData : FrameData) : Int × DecodableSession × Memory :=
  if packet.frameType = .emptyFrame then
    (0, { s with toVCMSessionInfo := s.informOfEmptyPacket packet.seqNum }, frameBuffer)
  else if s.packets.length = kMaxPacketsInSession then (-1, s, frameBuffer)
  else
    let before := s.packets.rdropWhile (passes packet.seqNum)
    let after := s.packets.rtakeWhile (passes packet.seqNum)
    if isDuplicate before packet.seqNum then (-2, s, frameBuffer)
    else match s.trackFirst packet with
      | none => (-3, s, frameBuffer)
      | some first => match first.trackLast packet with
        | none => (-3, { s with toVCMSessionInfo := first }, frameBuffer)
        | some last =>
          let (packets, written, length) := insertBuffer frameBuffer before packet after
          let inserted : DecodableSession := { s with toVCMSessionInfo := updateCompleteSession { last with packets } }
          let decided := match decodeErrorMode with
            | .withErrors => { inserted with decodable := true }
            | .selectiveErrors => inserted.updateDecodableSession frameData
            | .noErrors => inserted
          (length, decided, written)

end DecodableSession

/-- The packet is behind the last one, and before that is found out it is recorded as the first one, or the frame
gets its type. -/
structure Misplaced (s : VCMSessionInfo) (packet : ReceivedPacket) : Prop where
  codec : packet.codec ≠ .h264
  room : s.packets.length ≠ kMaxPacketsInSession
  fresh : isDuplicate (s.packets.rdropWhile (passes packet.seqNum)) packet.seqNum = false
  behind : s.lastPacketSeqNum.any (isNewerSequenceNumber packet.seqNum) = true
  recorded : packet.isFirstPacket = true ∧ s.firstPacketSeqNum = none ∨
    s.frameType = .emptyFrame ∧ s.firstPacketSeqNum.any (isNewerSequenceNumber · packet.seqNum) = false

section Rejected
variable {s first : VCMSessionInfo} {packet : ReceivedPacket}

/-! ## The two checks -/

theorem trackFirst_none (h : s.trackFirst packet = none) :
    s.firstPacketSeqNum.any (isNewerSequenceNumber · packet.seqNum) = true := by
  unfold trackFirst at h
  split at h
  · cases h
  · split at h
    · cases h
    · split at h
      · assumption
      · split at h <;> cases h

/-- What the first check records. -/
theorem trackFirst_recorded (hcodec : packet.codec ≠ .h264) (hmedia : packet.frameType ≠ .emptyFrame)
    (h : s.trackFirst packet = some first) : first.lastPacketSeqNum = s.lastPacketSeqNum ∧
      (first = s ↔ ¬ (packet.isFirstPacket = true ∧ s.firstPacketSeqNum = none ∨
        s.frameType = .emptyFrame ∧ s.firstPacketSeqNum.any (isNewerSequenceNumber · packet.seqNum) = false)) := by
  rw [trackFirst, if_neg hcodec] at h
  by_cases hbecomes : packet.isFirstPacket = true ∧ s.firstPacketSeqNum = none
  · rw [if_pos hbecomes] at h
    obtain rfl := Option.some.inj h
    refine ⟨rfl, iff_of_false (fun heq => ?_) (not_not.2 (.inl hbecomes))⟩
    have hnumber := congrArg VCMSessionInfo.firstPacketSeqNum heq
    rw [hbecomes.2] at hnumber
    cases hnumber
  · rw [if_neg hbecomes] at h
    by_cases hbefore : s.firstPacketSeqNum.any (isNewerSequenceNumber · packet.seqNum) = true
    · rw [if_pos hbefore] at h
      cases h
    · rw [if_neg hbefore] at h
      by_cases htype : s.frameType = .emptyFrame
      · rw [if_pos ⟨htype, hmedia⟩] at h
        obtain rfl := Option.some.inj h
        refine ⟨rfl, iff_of_false (fun heq => ?_) (not_not.2 (.inr ⟨htype, Bool.not_eq_true _ ▸ hbefore⟩))⟩
        have hframe := congrArg VCMSessionInfo.frameType heq
        rw [htype] at hframe
        exact hmedia hframe
      · rw [if_neg fun hboth => htype hboth.1] at h
        obtain rfl := Option.some.inj h
        refine ⟨rfl, iff_of_true rfl ?_⟩
        rintro (hfirst | hempty)
        · exact hbecomes hfirst
        · exact htype hempty.1

theorem trackLast_none (h : s.trackLast packet = none) :
    packet.codec ≠ .h264 ∧ s.lastPacketSeqNum.any (isNewerSequenceNumber packet.seqNum) = true := by
  unfold trackLast at h
  split at h
  · cases h
  · rename_i hcodec
    split at h
    · cases h
    · split at h
      · exact ⟨hcodec, by assumption⟩
      · cases h

end Rejected

/-! ## All of a session -/

namespace DecodableSession

/-- Whether it can be decoded changes nothing else. -/
theorem updateDecodableSession_session (s : DecodableSession) (frameData : FrameData) :
    (s.updateDecodableSession frameData).toVCMSessionInfo = s.toVCMSessionInfo := by
  unfold updateDecodableSession
  split
  · rfl
  · split <;> rfl

/-- The rest of the session and the buffer do not depend on whether it can be decoded. -/
theorem insertPacket_session (s : DecodableSession) (frameBuffer : Memory) (packet : ReceivedPacket)
    (decodeErrorMode : VCMDecodeErrorMode) (frameData : FrameData) :
    ((s.insertPacket frameBuffer packet decodeErrorMode frameData).1,
      (s.insertPacket frameBuffer packet decodeErrorMode frameData).2.1.toVCMSessionInfo,
      (s.insertPacket frameBuffer packet decodeErrorMode frameData).2.2) =
        s.toVCMSessionInfo.insertPacket frameBuffer packet := by
  unfold insertPacket VCMSessionInfo.insertPacket
  split
  · rfl
  · split
    · rfl
    · dsimp only
      split
      · rfl
      · cases s.trackFirst packet with
        | none => rfl
        | some first =>
          dsimp only
          cases first.trackLast packet with
          | none => rfl
          | some last =>
            cases decodeErrorMode with
            | noErrors => rfl
            | selectiveErrors => simp only [updateDecodableSession_session]
            | withErrors => rfl

/-- **A packet that is rejected changes nothing**, unless it is misplaced. -/
theorem insertPacket_rejected_iff (s : DecodableSession) (frameBuffer : Memory) (packet : ReceivedPacket)
    (decodeErrorMode : VCMDecodeErrorMode) (frameData : FrameData)
    (hrejected : (s.insertPacket frameBuffer packet decodeErrorMode frameData).1 < 0) :
    (s.insertPacket frameBuffer packet decodeErrorMode frameData).2 = (s, frameBuffer) ↔
      ¬ Misplaced s.toVCMSessionInfo packet := by
  unfold insertPacket at hrejected ⊢
  by_cases hmedia : packet.frameType = .emptyFrame
  · rw [if_pos hmedia] at hrejected
    exact absurd hrejected (Int.lt_irrefl 0)
  rw [if_neg hmedia] at hrejected ⊢
  by_cases hfull : s.packets.length = kMaxPacketsInSession
  · rw [if_pos hfull]
    exact iff_of_true rfl fun h => h.room hfull
  rw [if_neg hfull] at hrejected ⊢
  dsimp only at hrejected ⊢
  by_cases hduplicate : isDuplicate (s.packets.rdropWhile (passes packet.seqNum)) packet.seqNum = true
  · rw [if_pos hduplicate]
    refine iff_of_true rfl fun h => ?_
    rw [h.fresh] at hduplicate
    cases hduplicate
  rw [if_neg hduplicate] at hrejected ⊢
  cases hfirst : s.trackFirst packet with
  | none =>
    have hbefore := trackFirst_none hfirst
    refine iff_of_true rfl fun h => ?_
    rcases h.recorded with ⟨-, hnone⟩ | ⟨-, hnot⟩
    · rw [hnone] at hbefore
      cases hbefore
    · rw [hbefore] at hnot
      cases hnot
  | some first =>
    rw [hfirst] at hrejected
    dsimp only at hrejected ⊢
    cases hlast : first.trackLast packet with
    | none =>
      obtain ⟨hcodec, hbehind⟩ := trackLast_none hlast
      obtain ⟨hsame, hrecorded⟩ := trackFirst_recorded hcodec hmedia hfirst
      rw [hsame] at hbehind
      have hunchanged : ((-3, { s with toVCMSessionInfo := first }, frameBuffer) :
          Int × DecodableSession × Memory).2 = (s, frameBuffer) ↔ first = s.toVCMSessionInfo := by
        constructor
        · intro h
          exact congrArg (fun result => result.1.toVCMSessionInfo) h
        · rintro rfl
          rfl
      rw [hunchanged, hrecorded]
      exact not_congr ⟨fun h => ⟨hcodec, hfull, Bool.not_eq_true _ ▸ hduplicate, hbehind, h⟩, fun h => h.recorded⟩
    | some last =>
      rw [hlast] at hrejected
      dsimp only at hrejected
      omega

def storedAt (seqNum : UInt16) : StoredPacket where
  seqNum
  data := { dataPtr := 0, sizeBytes := 1 }
  markerBit := true
  frameType := .videoFrameDelta
  codec := .vp8
  isFirstPacket := false

def receivedAt (seqNum : UInt16) (isFirstPacket : Bool) : ReceivedPacket where
  seqNum
  data := [1]
  markerBit := true
  frameType := .videoFrameDelta
  codec := .vp8
  isFirstPacket

/-- A frame whose last packet has arrived. -/
def withMarker : DecodableSession where
  packets := [storedAt 5]
  lastPacketSeqNum := some 5

/-- A packet behind the last one, which does not say that it is the first one. -/
theorem insertPacket_rejected_behind :
    (withMarker.insertPacket (fun _ => 0) (receivedAt 7 false) .noErrors ⟨0, fun _ => false⟩).2 =
      (withMarker, fun _ => 0) ↔ ¬ Misplaced withMarker.toVCMSessionInfo (receivedAt 7 false) :=
  insertPacket_rejected_iff withMarker (fun _ => 0) (receivedAt 7 false) .noErrors ⟨0, fun _ => false⟩ (by decide)

/-- The one behind it does: then the frame begins behind its end. -/
theorem not_insertPacket_rejected : ¬ ∀ (s : DecodableSession) (frameBuffer : Memory) (packet : ReceivedPacket)
    (decodeErrorMode : VCMDecodeErrorMode) (frameData : FrameData),
    (s.insertPacket frameBuffer packet decodeErrorMode frameData).1 < 0 →
      (s.insertPacket frameBuffer packet decodeErrorMode frameData).2 = (s, frameBuffer) := by
  intro h
  have hsame := h withMarker (fun _ => 0) (receivedAt 6 true) .noErrors ⟨0, fun _ => false⟩ (by decide)
  have hnumber := congrArg (fun result => result.1.firstPacketSeqNum) hsame
  exact absurd hnumber (by decide)

end DecodableSession

end WebRtc.Jitter
