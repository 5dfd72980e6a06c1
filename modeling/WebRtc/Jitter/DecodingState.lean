import WebRtc.Jitter.Session

/-!
# What has been decoded

| here | there |
| --- | --- |
| `kNoPictureId`, `kNoTl0PicIdx`, `kNoTemporalIdx` | `module_common_types.h:34-38` |
| `VCMDecodingState` | `decoding_state.h:22-78`, `decoding_state.cc:20-46` |
| `reset`, `isOld` | `decoding_state.cc:33-65` |
| `setState`, `clearUntil` | `decoding_state.cc:67-97` |
| `updateEmptyFrame`, `updateOldPacket` | `decoding_state.cc:111-135` |
| `updateSyncState` | `decoding_state.cc:158-184` |
| `continuousFrame` and what it asks | `decoding_state.cc:186-284` |

The flags of the decoded frames stand in a ring of `kFrameDecodedLength`; what `frame_decoded_cleared_to_` is before
the first frame does not matter.
-/

namespace WebRtc.Jitter

def kNoPictureId : Int := -1
def kNoTl0PicIdx : Int := -1
def kNoTemporalIdx : Int := 0xFF
def kFrameDecodedLength : UInt16 := 128

/-- What the decoding state asks of a frame. -/
structure VCMFrameBuffer where
  frameType : FrameType
  timeStamp : UInt32
  lowSeqNum : Int
  highSeqNum : Int
  pictureId : Int
  temporalId : Int
  tl0PicId : Int
  layerSync : Bool
  /-- The codec is VP9, in flexible mode. -/
  flexibleMode : Bool
  pDiff : List UInt8
deriving DecidableEq, Repr

structure VCMDecodingState where
  sequenceNum : UInt16 := 0
  timeStamp : UInt32 := 0
  pictureId : Int := kNoPictureId
  temporalId : Int := kNoTemporalIdx
  tl0PicId : Int := kNoTl0PicIdx
  fullSync : Bool := true
  inInitialState : Bool := true
  frameDecoded : Nat → Bool := fun _ => false
  frameDecodedClearedTo : UInt16 := 0

namespace VCMDecodingState

variable (s : VCMDecodingState)

/-! ## Continuity -/

def continuousPictureId (pictureId : Int) : Bool :=
  let nextPictureId := s.pictureId + 1
  if pictureId < s.pictureId then
    if s.pictureId ≥ 0x80 then nextPictureId % 0x8000 == pictureId else nextPictureId % 0x80 == pictureId
  else nextPictureId == pictureId

def continuousSeqNum (seqNum : UInt16) : Bool := seqNum == s.sequenceNum + 1

def continuousLayer (temporalId tl0PicId : Int) : Bool :=
  if temporalId = kNoTemporalIdx ∨ tl0PicId = kNoTl0PicIdx then false
  else if s.tl0PicId = kNoTl0PicIdx ∧ s.temporalId = kNoTemporalIdx ∧ temporalId = 0 then true
  else if temporalId ≠ 0 then false
  else (s.tl0PicId + 1) % 256 == tl0PicId

/-- The index is taken to be ahead when it is more than half of the ring behind. -/
def aheadOfFramesDecodedClearedTo (index : UInt16) : Bool :=
  let diff :=
    if index > s.frameDecodedClearedTo then kFrameDecodedLength - (index - s.frameDecodedClearedTo)
    else s.frameDecodedClearedTo - index
  diff > kFrameDecodedLength / 2

def continuousFrameRefs (frame : VCMFrameBuffer) : Bool :=
  frame.pDiff.all fun pDiff =>
    let frameRef := wrap16 (frame.pictureId - pDiff.toNat)
    let frameIndex := frameRef % kFrameDecodedLength
    !(s.aheadOfFramesDecodedClearedTo frameIndex || !s.frameDecoded frameIndex.toNat)

def usingPictureId (frame : VCMFrameBuffer) : Bool := frame.pictureId ≠ kNoPictureId && s.pictureId ≠ kNoPictureId

def continuousFrame (frame : VCMFrameBuffer) : Bool :=
  if frame.frameType = .videoFrameKey then true
  else if s.inInitialState then false
  else if s.continuousLayer frame.temporalId frame.tl0PicId then true
  else if frame.tl0PicId ≠ s.tl0PicId then false
  else if !s.fullSync && !frame.layerSync then false
  else if s.usingPictureId frame then
    if frame.flexibleMode then s.continuousFrameRefs frame else s.continuousPictureId frame.pictureId
  else s.continuousSeqNum (wrap16 frame.lowSeqNum)

/-! ## Decoding a frame -/

def updateSyncState (frame : VCMFrameBuffer) : VCMDecodingState :=
  if s.inInitialState then s
  else if frame.temporalId = kNoTemporalIdx ∨ frame.tl0PicId = kNoTl0PicIdx then { s with fullSync := true }
  else if frame.frameType = .videoFrameKey ∨ frame.layerSync = true then { s with fullSync := true }
  else if s.fullSync then
    if s.usingPictureId frame then
      if frame.tl0PicId - s.tl0PicId > 1 then { s with fullSync := false }
      else { s with fullSync := s.continuousPictureId frame.pictureId }
    else { s with fullSync := s.continuousSeqNum (wrap16 frame.lowSeqNum) }
  else s

/-- The loop that clears the flags up to `frameIndex`. -/
def clearUntil (frameIndex : UInt16) : Nat → VCMDecodingState → VCMDecodingState
  | 0, s => s
  | fuel + 1, s =>
    if s.frameDecodedClearedTo = frameIndex then s
    else
      let next := (s.frameDecodedClearedTo + 1) % kFrameDecodedLength
      clearUntil frameIndex fuel
        { s with frameDecodedClearedTo := next, frameDecoded := Function.update s.frameDecoded next.toNat false }

/-- What `SetState` does to the flags in flexible mode. -/
def trackDecoded (frameType : FrameType) (frameIndex : UInt16) : VCMDecodingState :=
  let cleared :=
    if s.inInitialState then { s with frameDecodedClearedTo := frameIndex }
    else if frameType = .videoFrameKey then
      { s with frameDecoded := fun _ => false, frameDecodedClearedTo := frameIndex }
    else if s.aheadOfFramesDecodedClearedTo frameIndex then clearUntil frameIndex kFrameDecodedLength.toNat s
    else s
  { cleared with frameDecoded := Function.update cleared.frameDecoded frameIndex.toNat true }

def setState (frame : VCMFrameBuffer) : VCMDecodingState :=
  let synced := if frame.flexibleMode then s else s.updateSyncState frame
  let set := { synced with
    sequenceNum := wrap16 frame.highSeqNum
    timeStamp := frame.timeStamp
    pictureId := frame.pictureId
    temporalId := frame.temporalId
    tl0PicId := frame.tl0PicId }
  let tracked :=
    if frame.flexibleMode then
      set.trackDecoded frame.frameType (wrap16 (frame.pictureId.tmod kFrameDecodedLength.toNat))
    else set
  { tracked with inInitialState := false }

/-! ## What is not decoded -/

def reset : VCMDecodingState := { frameDecodedClearedTo := s.frameDecodedClearedTo }

/-- `IsOldFrame` and `IsOldPacket`. -/
def isOld (timeStamp : UInt32) : Bool := !s.inInitialState && !isNewerTimestamp timeStamp s.timeStamp

/-- Whether the frame is dropped. -/
def updateEmptyFrame (frame : VCMFrameBuffer) : VCMDecodingState × Bool :=
  let emptyPacket : Bool := frame.highSeqNum = frame.lowSeqNum
  -- Drop empty packets as long as we are in the initial state.
  if s.inInitialState && emptyPacket then (s, true)
  else if emptyPacket && s.continuousSeqNum (wrap16 frame.highSeqNum) || s.continuousFrame frame then
    -- Continuous empty packets or continuous frames can be dropped if we advance the sequence number.
    ({ s with sequenceNum := wrap16 frame.highSeqNum, timeStamp := frame.timeStamp }, true)
  else (s, false)

def updateOldPacket {δ : Type} (packet : VCMPacket δ) : VCMDecodingState :=
  if packet.timestamp = s.timeStamp then
    { s with sequenceNum := latestSequenceNumber packet.seqNum s.sequenceNum }
  else s

/-! ## The loop -/

variable {s}

theorem index_toNat {n : Int} : (wrap16 n % kFrameDecodedLength).toNat = (n % 128).toNat := by
  have hlength : kFrameDecodedLength.toNat = 128 := rfl
  rw [UInt16.toNat_mod, wrap16_toNat, hlength]
  omega

/-- The loop gets to `frameIndex`, clears the flags on the way and no others. -/
theorem clearUntil_spec {frameIndex : UInt16} {fuel distance : Nat} (hs : s.frameDecodedClearedTo.toNat < 128)
    (hindex : frameIndex.toNat = (s.frameDecodedClearedTo.toNat + distance) % 128) (hdistance : distance < 128)
    (hfuel : distance ≤ fuel) :
    (clearUntil frameIndex fuel s).frameDecodedClearedTo = frameIndex ∧
      (∀ k, 0 < k → k ≤ distance →
        (clearUntil frameIndex fuel s).frameDecoded ((s.frameDecodedClearedTo.toNat + k) % 128) = false) ∧
      ∀ i, (∀ k, 0 < k → k ≤ distance → i ≠ (s.frameDecodedClearedTo.toNat + k) % 128) →
        (clearUntil frameIndex fuel s).frameDecoded i = s.frameDecoded i := by
  induction fuel generalizing s distance with
  | zero =>
    obtain rfl := Nat.le_zero.1 hfuel
    rw [Nat.add_zero, Nat.mod_eq_of_lt hs] at hindex
    refine ⟨UInt16.toNat_inj.1 hindex.symm, fun k hk hle => ?_, fun i _ => rfl⟩
    omega
  | succ fuel ih =>
    unfold clearUntil
    by_cases hsame : s.frameDecodedClearedTo = frameIndex
    · rw [if_pos hsame]
      have heq := congrArg UInt16.toNat hsame
      refine ⟨hsame, fun k hk hle => ?_, fun i _ => rfl⟩
      omega
    · rw [if_neg hsame]
      have hne : s.frameDecodedClearedTo.toNat ≠ frameIndex.toNat := fun h => hsame (UInt16.toNat_inj.1 h)
      have hnext : ((s.frameDecodedClearedTo + 1) % kFrameDecodedLength).toNat =
        (s.frameDecodedClearedTo.toNat + 1) % 128 := by
        have hlength : kFrameDecodedLength.toNat = 128 := rfl
        have hone : (1 : UInt16).toNat = 1 := rfl
        rw [UInt16.toNat_mod, UInt16.toNat_add, hlength, hone]
        omega
      cases distance with
      | zero => omega
      | succ distance =>
        dsimp only
        generalize (s.frameDecodedClearedTo + 1) % kFrameDecodedLength = next at hnext ⊢
        generalize hcleared : ({ s with
          frameDecodedClearedTo := next
          frameDecoded := Function.update s.frameDecoded next.toNat false } : VCMDecodingState) = t
        have hto : t.frameDecodedClearedTo.toNat =
          (s.frameDecodedClearedTo.toNat + 1) % 128 := by rw [← hcleared, hnext]
        have hflags : t.frameDecoded = Function.update s.frameDecoded next.toNat false := by rw [← hcleared]
        obtain ⟨hdone, hbehind, hkept⟩ := @ih t distance (by omega) (by omega) (by omega) (by omega)
        rw [hto] at hbehind hkept
        refine ⟨hdone, fun k hk hle => ?_, fun i hi => ?_⟩
        · by_cases hfirst : k = 1
          · rw [hfirst, hkept _ fun j hj hjle => by omega, hflags, ← hnext]
            exact Function.update_self _ _ _
          · have hplace : (s.frameDecodedClearedTo.toNat + k) % 128 =
              ((s.frameDecodedClearedTo.toNat + 1) % 128 + (k - 1)) % 128 := by
              omega
            rw [hplace]
            exact hbehind (k - 1) (by omega) (by omega)
        · have hother : i ≠ next.toNat := by
            rw [hnext]
            exact hi 1 Nat.one_pos (by omega)
          have hpassed : t.frameDecoded i = s.frameDecoded i := by
            rw [hflags]
            exact Function.update_of_ne hother _ _
          rw [← hpassed]
          refine hkept i fun k hk hle => ?_
          have hne := hi (k + 1) (by omega) (by omega)
          omega

end VCMDecodingState

end WebRtc.Jitter
