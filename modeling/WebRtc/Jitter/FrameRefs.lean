import WebRtc.Jitter.DecodingState
import WebRtc.Lib.Machine

/-!
# References of frames

A picture id tells a position in the stream only up to multiples of 2^15, and the ring of decoded flags knows a
position only up to multiples of 128. As long as frames stay within half of the ring of the newest position, the
flags of that half are those of the frames decoded since the last key frame (`FollowsDecoded`), and references into
it are told apart from those ahead.
-/

namespace WebRtc.Jitter

open VCMDecodingState

/-- A frame in flexible mode, and where in the stream it is. -/
structure Positioned where
  frame : VCMFrameBuffer
  position : Int
  flexible : frame.flexibleMode = true
  id : frame.pictureId = position % 0x8000

/-- The frames decoded since the last key frame. -/
structure Decoded where
  newest : Int
  positions : List Int

def Decoded.add (d : Option Decoded) (p : Positioned) : Decoded :=
  match d with
  | none => { newest := p.position, positions := [p.position] }
  | some d =>
    if p.frame.frameType = .videoFrameKey then { newest := p.position, positions := [p.position] }
    else { newest := max d.newest p.position, positions := p.position :: d.positions }

/-- `SetState`, and what has been decoded then. -/
def decodeStep (s : VCMDecodingState × Option Decoded) (p : Positioned) : (VCMDecodingState × Option Decoded) × Unit :=
  ((s.1.setState p.frame, some (.add s.2 p)), ())

/-- The frame is a key frame, or closer than `limit` to the newest one. -/
def MovesWithin (limit : Int) (s : VCMDecodingState × Option Decoded) (p : Positioned) : Prop :=
  ∀ d, s.2 = some d → p.frame.frameType ≠ .videoFrameKey →
    d.newest - limit < p.position ∧ p.position < d.newest + limit

/-- The frames that are referred to are closer than `limit` to the newest one. -/
def RefersWithin (limit : Int) (d : Decoded) (p : Positioned) : Prop :=
  ∀ pDiff ∈ p.frame.pDiff, d.newest - limit < p.position - pDiff.toNat ∧ p.position - pDiff.toNat < d.newest + limit

/-- All of them have been decoded. -/
def RefersToDecoded (d : Decoded) (p : Positioned) : Prop :=
  ∀ pDiff ∈ p.frame.pDiff, p.position - pDiff.toNat ∈ d.positions

/-- In the half of the ring up to the newest frame the flags are those of the decoded frames. -/
structure FollowsDecoded (s : VCMDecodingState) (d : Decoded) : Prop where
  started : s.inInitialState = false
  cleared : s.frameDecodedClearedTo.toNat = (d.newest % 128).toNat
  newest : ∀ p ∈ d.positions, p ≤ d.newest
  flags : ∀ p, d.newest - 64 < p → p ≤ d.newest → s.frameDecoded (p % 128).toNat = decide (p ∈ d.positions)

section Ring
variable {s : VCMDecodingState} {d : Decoded} {index : UInt16} {n : Int}

/-- How far behind the index is, around the ring. -/
theorem ahead_iff (hcleared : s.frameDecodedClearedTo.toNat = (n % 128).toNat) {p : Int}
    (hindex : index.toNat = (p % 128).toNat) : s.aheadOfFramesDecodedClearedTo index = true ↔ 64 < (n - p) % 128 := by
  have hlength : kFrameDecodedLength.toNat = 128 := rfl
  have hhalf : (kFrameDecodedLength / 2).toNat = 64 := rfl
  unfold aheadOfFramesDecodedClearedTo
  dsimp only
  rw [decide_eq_true_eq, gt_iff_lt, UInt16.lt_iff_toNat_lt, hhalf]
  split
  · rename_i hlt
    rw [gt_iff_lt, UInt16.lt_iff_toNat_lt] at hlt
    rw [UInt16.toNat_sub, UInt16.toNat_sub, hlength]
    omega
  · rename_i hle
    rw [gt_iff_lt, UInt16.lt_iff_toNat_lt] at hle
    rw [UInt16.toNat_sub]
    omega

/-- In flexible mode `SetState` tracks the frame, and what else it sets has nothing to do with the flags. -/
theorem setState_tracks (s : VCMDecodingState) (p : Positioned) : ∃ (t : VCMDecodingState) (index : UInt16),
    t.inInitialState = s.inInitialState ∧ t.frameDecoded = s.frameDecoded ∧
      t.frameDecodedClearedTo = s.frameDecodedClearedTo ∧ index.toNat = (p.position % 128).toNat ∧
      (s.setState p.frame).inInitialState = false ∧
      (s.setState p.frame).frameDecoded = (t.trackDecoded p.frame.frameType index).frameDecoded ∧
      (s.setState p.frame).frameDecodedClearedTo = (t.trackDecoded p.frame.frameType index).frameDecodedClearedTo := by
  refine ⟨{ s with
    sequenceNum := wrap16 p.frame.highSeqNum
    timeStamp := p.frame.timeStamp
    pictureId := p.frame.pictureId
    temporalId := p.frame.temporalId
    tl0PicId := p.frame.tl0PicId }, wrap16 (p.frame.pictureId.tmod kFrameDecodedLength.toNat), rfl, rfl, rfl,
    ?_, ?_, ?_, ?_⟩
  · have hlength : (kFrameDecodedLength.toNat : Int) = 128 := rfl
    rw [wrap16_toNat, p.id, hlength, Int.tmod_eq_emod_of_nonneg (Int.emod_nonneg _ (by decide))]
    omega
  · rfl
  · unfold setState
    rw [p.flexible]
    rfl
  · unfold setState
    rw [p.flexible]
    rfl

/-- The first frame, and a key frame. -/
theorem tracks_start (p : Positioned) (hflags : s.inInitialState = true → s.frameDecoded = fun _ => false)
    (hstart : s.inInitialState = true ∨ p.frame.frameType = .videoFrameKey) :
    FollowsDecoded (s.setState p.frame) { newest := p.position, positions := [p.position] } := by
  obtain ⟨t, index, hinitial, hdecoded, -, hindex, hstarted, hset, hto⟩ := setState_tracks s p
  have htracked : (t.trackDecoded p.frame.frameType index).frameDecodedClearedTo = index ∧
      (t.trackDecoded p.frame.frameType index).frameDecoded = Function.update (fun _ => false) index.toNat true := by
    unfold trackDecoded
    by_cases h : t.inInitialState = true
    · rw [if_pos h, hdecoded, hflags (hinitial ▸ h)]
      exact ⟨rfl, rfl⟩
    · rw [if_neg h, if_pos (hstart.resolve_left fun h' => h (hinitial ▸ h'))]
      exact ⟨rfl, rfl⟩
  refine ⟨hstarted, ?_, ?_, ?_⟩
  · rw [hto, htracked.1, hindex]
  · intro q hq
    exact Int.le_of_eq (List.mem_singleton.1 hq)
  · intro q hlow hhigh
    dsimp only at hlow hhigh
    rw [hset, htracked.2, hindex]
    by_cases hq : q = p.position
    · subst hq
      simp
    · rw [Function.update_of_ne (by omega)]
      simp [hq]

/-- **A frame near the newest one.** -/
theorem followsDecoded_next (h : FollowsDecoded s d) (p : Positioned) (hkey : p.frame.frameType ≠ .videoFrameKey)
    (hbehind : d.newest - 64 < p.position) (hahead : p.position < d.newest + 64) :
    FollowsDecoded (s.setState p.frame)
      { newest := max d.newest p.position, positions := p.position :: d.positions } := by
  obtain ⟨t, index, hinitial, hdecoded, hcleared, hindex, hstarted, hset, hto⟩ := setState_tracks s p
  have hnewest : t.frameDecodedClearedTo.toNat = (d.newest % 128).toNat := by rw [hcleared, h.cleared]
  -- The flags before the one of the frame is set.
  obtain ⟨u, hu, hindexed, hwindow⟩ : ∃ u : VCMDecodingState,
      t.trackDecoded p.frame.frameType index =
          { u with frameDecoded := Function.update u.frameDecoded index.toNat true } ∧
        u.frameDecodedClearedTo.toNat = (max d.newest p.position % 128).toNat ∧
        ∀ q, max d.newest p.position - 64 < q → q ≤ max d.newest p.position → q ≠ p.position →
          u.frameDecoded (q % 128).toNat = decide (q ∈ d.positions) := by
    have hinit : ¬ t.inInitialState = true := by
      rw [hinitial, h.started]
      decide
    unfold trackDecoded
    rw [if_neg hinit, if_neg hkey]
    by_cases hforward : d.newest < p.position
    · have hfar : t.aheadOfFramesDecodedClearedTo index = true := (ahead_iff hnewest hindex).2 (by omega)
      obtain ⟨distance, hdistance⟩ := Int.eq_ofNat_of_zero_le (Int.sub_nonneg.2 (Int.le_of_lt hforward))
      obtain ⟨hdone, hpassed, hkept⟩ :=
        @clearUntil_spec t index kFrameDecodedLength.toNat distance (by omega) (by omega)
        (by omega) (show distance ≤ 128 by omega)
      rw [if_pos hfar]
      refine ⟨_, rfl, ?_, fun q hlow hhigh hq => ?_⟩
      · rw [hdone, hindex]
        omega
      · by_cases hold : q ≤ d.newest
        · rw [hkept _ fun k hk hle => by omega, hdecoded]
          exact h.flags q (by omega) hold
        · -- Between the newest frame so far and this one: passed by the loop, and not decoded.
          have hnot : q ∉ d.positions := fun hmem => hold (h.newest q hmem)
          have hplace : (q % 128).toNat = (t.frameDecodedClearedTo.toNat + (q - d.newest).toNat) % 128 := by omega
          rw [hplace, hpassed _ (by omega) (by omega)]
          simp [hnot]
    · have hnear : ¬ t.aheadOfFramesDecodedClearedTo index = true := fun hfar => by
        have hfar := (ahead_iff hnewest hindex).1 hfar
        omega
      rw [if_neg hnear]
      refine ⟨t, rfl, ?_, fun q hlow hhigh hq => ?_⟩
      · rw [hnewest]
        omega
      · rw [hdecoded]
        exact h.flags q (by omega) (by omega)
  refine ⟨hstarted, ?_, ?_, ?_⟩
  · rw [hto, hu]
    exact hindexed
  · intro q hq
    rcases List.mem_cons.1 hq with rfl | hq
    · exact Int.le_max_right _ _
    · exact Int.le_trans (h.newest q hq) (Int.le_max_left _ _)
  · intro q hlow hhigh
    dsimp only at hlow hhigh
    rw [hset, hu]
    dsimp only
    by_cases hq : q = p.position
    · subst hq
      rw [← hindex]
      simp
    · rw [Function.update_of_ne (by omega), hwindow q hlow hhigh hq]
      simp [hq]

/-! ## Runs -/

/-- Nothing has been decoded, or the flags are tracked. -/
def Follows (s : VCMDecodingState × Option Decoded) : Prop :=
  (s.2 = none → s.1.inInitialState = true ∧ s.1.frameDecoded = fun _ => false) ∧
    ∀ d, s.2 = some d → FollowsDecoded s.1 d

theorem follows_step (s : VCMDecodingState × Option Decoded) (p : Positioned) (h : Follows s)
    (hmoves : MovesWithin 64 s p) :
    Follows (decodeStep s p).1 := by
  refine ⟨fun hnone => (by cases hnone), fun d hd => ?_⟩
  obtain rfl := Option.some.inj hd
  obtain ⟨state, decoded⟩ := s
  cases decoded with
  | none =>
    obtain ⟨hinitial, hflags⟩ := h.1 rfl
    exact tracks_start p (fun _ => hflags) (Or.inl hinitial)
  | some d =>
    have htracks := h.2 d rfl
    by_cases hkey : p.frame.frameType = .videoFrameKey
    · have hadd : Decoded.add (some d) p = { newest := p.position, positions := [p.position] } := if_pos hkey
      change FollowsDecoded (state.setState p.frame) (Decoded.add (some d) p)
      rw [hadd]
      refine tracks_start p (fun hinitial => ?_) (Or.inr hkey)
      rw [htracks.started] at hinitial
      cases hinitial
    · have hadd : Decoded.add (some d) p =
          { newest := max d.newest p.position, positions := p.position :: d.positions } :=
        if_neg hkey
      change FollowsDecoded (state.setState p.frame) (Decoded.add (some d) p)
      rw [hadd]
      obtain ⟨hbehind, hahead⟩ := hmoves d rfl hkey
      exact followsDecoded_next htracks p hkey hbehind hahead

/-- Which references are taken to be decoded. -/
theorem FollowsDecoded.refs_iff (h : FollowsDecoded s d) (p : Positioned) (hrefers : RefersWithin 64 d p) :
    s.continuousFrameRefs p.frame = true ↔ RefersToDecoded d p := by
  unfold continuousFrameRefs RefersToDecoded
  rw [List.all_eq_true]
  refine forall₂_congr fun pDiff hpDiff => ?_
  obtain ⟨hbehind, hahead⟩ := hrefers pDiff hpDiff
  have hindex : (wrap16 (p.frame.pictureId - pDiff.toNat) % kFrameDecodedLength).toNat =
      ((p.position - pDiff.toNat) % 128).toNat := by
    rw [index_toNat, p.id]
    omega
  have hfar := ahead_iff h.cleared hindex
  dsimp only
  rw [Bool.not_eq_true', Bool.or_eq_false_iff, hindex]
  by_cases hold : p.position - pDiff.toNat ≤ d.newest
  · rw [h.flags _ hbehind hold]
    have hnear :
        s.aheadOfFramesDecodedClearedTo (wrap16 (p.frame.pictureId - pDiff.toNat) % kFrameDecodedLength) = false := by
      rw [← Bool.not_eq_true, hfar]
      omega
    simp [hnear]
  · have hnot : p.position - pDiff.toNat ∉ d.positions := fun hmem => hold (h.newest _ hmem)
    have hbeyond :
        s.aheadOfFramesDecodedClearedTo (wrap16 (p.frame.pictureId - pDiff.toNat) % kFrameDecodedLength) = true :=
      hfar.2 (by omega)
    simp [hbeyond, hnot]

end Ring

/-- **References are tracked exactly** within half of the ring. -/
theorem continuousFrameRefs_exact (frames : List Positioned)
    (hmoves : Machine.Meets decodeStep (MovesWithin 64) ({}, none) frames)
    (frame : Positioned) (d : Decoded) (hd : (Machine.run decodeStep ({}, none) frames).2 = some d)
    (hrefers : RefersWithin 64 d frame) :
    (Machine.run decodeStep ({}, none) frames).1.continuousFrameRefs frame.frame = true ↔ RefersToDecoded d frame := by
  have hstart : Follows ({}, none) := ⟨fun _ => ⟨rfl, rfl⟩, fun d hnone => by cases hnone⟩
  have hfollows := Machine.run_of_meets follows_step hstart hmoves
  exact (hfollows.2 d hd).refs_iff frame hrefers

/-- A frame at a position, with references to earlier ones. -/
def frameAt (position : Nat) (key : Bool) (pDiff : List UInt8) : Positioned where
  frame :=
    { frameType := if key then .videoFrameKey else .videoFrameDelta
      timeStamp := 0
      lowSeqNum := position
      highSeqNum := position
      pictureId := position % 0x8000
      temporalId := kNoTemporalIdx
      tl0PicId := kNoTl0PicIdx
      layerSync := false
      flexibleMode := true
      pDiff }
  position := position
  flexible := rfl
  id := rfl

/-- A key frame, a frame out of order, and one that refers to both. -/
theorem continuousFrameRefs_exact_three :
    (Machine.run decodeStep ({}, none)
        [frameAt 10 true [], frameAt 15 false [5], frameAt 12 false [2]]).1.continuousFrameRefs
          (frameAt 16 false [4, 6]).frame = true ↔
      RefersToDecoded { newest := 15, positions := [12, 15, 10] } (frameAt 16 false [4, 6]) := by
  refine continuousFrameRefs_exact [frameAt 10 true [], frameAt 15 false [5], frameAt 12 false [2]]
    ⟨?_, ?_, ?_, trivial⟩
    (frameAt 16 false [4, 6]) { newest := 15, positions := [12, 15, 10] } rfl ?_
  · exact fun d hd => by cases hd
  · intro d hd _
    obtain rfl := Option.some.inj hd
    decide
  · intro d hd _
    obtain rfl := Option.some.inj hd
    decide
  · simp [RefersWithin, frameAt]

/-- The key frame is more than half of the ring behind the newest frame. -/
theorem not_continuousFrameRefs_exact : ¬ ∀ (frames : List Positioned),
    Machine.Meets decodeStep (MovesWithin 4096) ({}, none) frames → ∀ (frame : Positioned) (d : Decoded),
      (Machine.run decodeStep ({}, none) frames).2 = some d → RefersWithin 4096 d frame →
        ((Machine.run decodeStep ({}, none) frames).1.continuousFrameRefs frame.frame = true ↔
          RefersToDecoded d frame) := by
  intro h
  have hmoves : Machine.Meets decodeStep (MovesWithin 4096) ({}, none)
      [frameAt 0 true [], frameAt 40 false [40], frameAt 80 false [40]] := by
    refine ⟨?_, ?_, ?_, trivial⟩
    · exact fun d hd => by cases hd
    · intro d hd _
      obtain rfl := Option.some.inj hd
      decide
    · intro d hd _
      obtain rfl := Option.some.inj hd
      decide
  have hexact := h _ hmoves (frameAt 81 false [81]) { newest := 80, positions := [80, 40, 0] } rfl
    (by simp [RefersWithin, frameAt])
  have hdecoded : RefersToDecoded { newest := 80, positions := [80, 40, 0] } (frameAt 81 false [81]) := by
    simp [RefersToDecoded, frameAt]
  exact absurd (hexact.2 hdecoded) (by decide +kernel)

end WebRtc.Jitter
