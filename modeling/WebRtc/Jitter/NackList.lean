import WebRtc.Jitter.JitterBuffer

/-!
# Dropping frames until the list of missing packets is small enough

The loops end in every state (`handleTooLargeNackList_isSome`, `handleTooOldPackets_isSome`): a round drops a frame or
clears the list. None of it puts a number on the list (`Shrinks`), and what is left is within the limits
(`limitNackList_spec`).
-/

namespace WebRtc.Jitter

/-! ## What only shrinks the list -/

/-- Numbers are dropped, and what was decoded last is kept or forgotten. -/
structure Shrinks (s s' : VCMJitterBuffer) : Prop where
  missing : s'.missingSequenceNumbers.Sublist s.missingSequenceNumbers
  decoded : s'.lastDecodedState = s.lastDecodedState ∨ s'.lastDecodedState.inInitialState = true
  latest : s'.latestReceivedSequenceNumber = s.latestReceivedSequenceNumber
  first : s'.firstPacketSinceReset = s.firstPacketSinceReset
  mode : s'.nackMode = s.nackMode
  size : s'.maxNackListSize = s.maxNackListSize
  age : s'.maxPacketAgeToNack = s.maxPacketAgeToNack

namespace Shrinks

variable {s s' s'' : VCMJitterBuffer}

/-- The lists of frames do not matter. -/
theorem same (missing : s'.missingSequenceNumbers = s.missingSequenceNumbers)
    (decoded : s'.lastDecodedState = s.lastDecodedState ∨ s'.lastDecodedState.inInitialState = true)
    (latest : s'.latestReceivedSequenceNumber = s.latestReceivedSequenceNumber)
    (first : s'.firstPacketSinceReset = s.firstPacketSinceReset) (mode : s'.nackMode = s.nackMode)
    (size : s'.maxNackListSize = s.maxNackListSize) (age : s'.maxPacketAgeToNack = s.maxPacketAgeToNack) :
    Shrinks s s' :=
  ⟨missing ▸ List.Sublist.refl _, decoded, latest, first, mode, size, age⟩

theorem refl (s : VCMJitterBuffer) : Shrinks s s := same rfl (Or.inl rfl) rfl rfl rfl rfl rfl

theorem trans (h : Shrinks s s') (h' : Shrinks s' s'') : Shrinks s s'' := by
  refine ⟨h'.missing.trans h.missing, ?_, h'.latest.trans h.latest, h'.first.trans h.first, h'.mode.trans h.mode,
    h'.size.trans h.size, h'.age.trans h.age⟩
  rcases h'.decoded with hsame | hreset
  · rw [hsame]
    exact h.decoded
  · exact Or.inr hreset

theorem drop (trees : Trees) (s : VCMJitterBuffer) (number : UInt16) :
    Shrinks s (s.dropPacketsFromNackList trees number) :=
  ⟨List.drop_sublist _ _, Or.inl rfl, rfl, rfl, rfl, rfl, rfl⟩

end Shrinks

/-! ## The loops end -/

namespace FrameList

theorem recycle_length (l : FrameList) :
    (recycleFramesUntilKeyFrame l).1.length + (recycleFramesUntilKeyFrame l).2 = l.length := by
  induction l with
  | nil => rfl
  | cons frame rest ih =>
    unfold recycleFramesUntilKeyFrame
    split
    · rfl
    · dsimp only
      rw [List.length_cons, ← ih]
      omega

theorem recycle_none {l : FrameList} (h : (recycleFramesUntilKeyFrame l).2 = 0) : l = [] := by
  cases l with
  | nil => rfl
  | cons frame rest =>
    unfold recycleFramesUntilKeyFrame at h
    split at h
    · exact absurd h Nat.one_ne_zero
    · exact absurd h (Nat.succ_ne_zero _)

end FrameList

namespace VCMJitterBuffer

variable {trees : Trees} {s : VCMJitterBuffer}

/-- Fewer frames are left, or there have been none. -/
theorem releaseFrames_less (incomplete decodable : FrameList) :
    (releaseFrames incomplete decodable).1.length + (releaseFrames incomplete decodable).2.1.length <
        incomplete.length + decodable.length ∨ releaseFrames incomplete decodable = ([], [], none) := by
  have hincomplete := FrameList.recycle_length incomplete
  have hdecodable := FrameList.recycle_length decodable
  unfold releaseFrames
  dsimp only
  split
  · rename_i hnone
    obtain rfl := FrameList.recycle_none hnone
    by_cases hdropped : (FrameList.recycleFramesUntilKeyFrame decodable).2 = 0
    · obtain rfl := FrameList.recycle_none hdropped
      exact Or.inr rfl
    · dsimp only
      omega
  · dsimp only
    omega

/-- **What a round does.** -/
theorem recycle_cases (trees : Trees) (s : VCMJitterBuffer) : ∃ incompleteFrames decodableFrames key,
    releaseFrames s.incompleteFrames s.decodableFrames = (incompleteFrames, decodableFrames, key) ∧
    ((∃ number, key ≠ none ∧ s.recycleFramesUntilKeyFrame trees = (dropPacketsFromNackList trees
        { s with incompleteFrames, decodableFrames, lastDecodedState := s.lastDecodedState.reset } number, true)) ∨
      s.recycleFramesUntilKeyFrame trees = ({ s with
        incompleteFrames, decodableFrames, lastDecodedState := s.lastDecodedState.reset
        missingSequenceNumbers := [] }, false) ∨
      decodableFrames ≠ [] ∧
        s.recycleFramesUntilKeyFrame trees = ({ s with incompleteFrames, decodableFrames }, false)) := by
  obtain ⟨incompleteFrames, decodableFrames, key, hreleased⟩ : ∃ incompleteFrames decodableFrames key,
    releaseFrames s.incompleteFrames s.decodableFrames = (incompleteFrames, decodableFrames, key) := ⟨_, _, _, rfl⟩
  refine ⟨incompleteFrames, decodableFrames, key, hreleased, ?_⟩
  unfold recycleFramesUntilKeyFrame
  rw [hreleased]
  dsimp only
  cases key with
  | some frame => exact Or.inl ⟨_, Option.some_ne_none frame, rfl⟩
  | none =>
    by_cases hempty : decodableFrames = []
    · exact Or.inr (Or.inl (if_pos hempty))
    · exact Or.inr (Or.inr ⟨hempty, if_neg hempty⟩)

theorem recycle_shrinks : Shrinks s (s.recycleFramesUntilKeyFrame trees).1 := by
  obtain ⟨_, _, _, -, ⟨number, -, hround⟩ | hround | ⟨-, hround⟩⟩ := recycle_cases trees s
  · rw [hround]
    refine Shrinks.trans ?_ (Shrinks.drop trees _ number)
    exact Shrinks.same rfl (Or.inr rfl) rfl rfl rfl rfl rfl
  · rw [hround]
    exact ⟨List.nil_sublist _, Or.inr rfl, rfl, rfl, rfl, rfl, rfl⟩
  · rw [hround]
    exact Shrinks.same rfl (Or.inl rfl) rfl rfl rfl rfl rfl

/-- **A round** drops a frame or clears the list. -/
theorem recycle_rounds : (s.recycleFramesUntilKeyFrame trees).1.rounds < s.rounds ∨
    (s.recycleFramesUntilKeyFrame trees).1.missingSequenceNumbers = [] := by
  have hless := releaseFrames_less s.incompleteFrames s.decodableFrames
  obtain ⟨incompleteFrames, decodableFrames, key, hreleased, hround⟩ := recycle_cases trees s
  rw [hreleased] at hless
  have hrounds : ∀ s' : VCMJitterBuffer, s'.incompleteFrames = incompleteFrames → s'.decodableFrames = decodableFrames →
      s'.rounds = incompleteFrames.length + decodableFrames.length + 2 := by
    intro s' hincomplete hdecodable
    rw [rounds, hincomplete, hdecodable]
  have hbefore : s.rounds = s.incompleteFrames.length + s.decodableFrames.length + 2 := rfl
  rcases hround with ⟨number, hkey, hround⟩ | hround | ⟨hkept, hround⟩
  · left
    rw [hround, hrounds _ rfl rfl]
    rcases hless with hless | hnone
    · dsimp only at hless
      omega
    · exact absurd (congrArg (fun r => r.2.2) hnone) hkey
  · rw [hround]
    exact Or.inr rfl
  · left
    rw [hround, hrounds _ rfl rfl]
    rcases hless with hless | hnone
    · dsimp only at hless
      omega
    · exact absurd (congrArg (fun r => r.2.1) hnone) hkept

/-- Without a key frame all numbers go, or none. -/
theorem recycle_none (h : (s.recycleFramesUntilKeyFrame trees).2 = false) :
    (s.recycleFramesUntilKeyFrame trees).1.missingSequenceNumbers = [] ∨
      (s.recycleFramesUntilKeyFrame trees).1.missingSequenceNumbers = s.missingSequenceNumbers := by
  obtain ⟨_, _, _, -, ⟨number, -, hround⟩ | hround | ⟨-, hround⟩⟩ := recycle_cases trees s
  · rw [hround] at h
    exact absurd h.symm Bool.false_ne_true
  · rw [hround]
    exact Or.inl rfl
  · rw [hround]
    exact Or.inr rfl

/-- A test of the list alone, passed by the empty one. -/
structure Tests (tooMuch : VCMJitterBuffer → Bool) : Prop where
  empty : ∀ {s}, s.missingSequenceNumbers = [] → tooMuch s = false
  congr : ∀ {s s'}, Shrinks s s' → s'.missingSequenceNumbers = s.missingSequenceNumbers → tooMuch s' = tooMuch s

theorem tooLarge_tests : Tests tooLargeNackList where
  empty := by
    intro s h
    simp [tooLargeNackList, h]
  congr := by
    intro s s' h hsame
    rw [tooLargeNackList, tooLargeNackList, hsame, h.size]

theorem missingTooOld_tests (sequenceNumber : UInt16) : Tests (missingTooOldPacket sequenceNumber) where
  empty := by
    intro s h
    rw [missingTooOldPacket, h]
  congr := by
    intro s s' h hsame
    rw [missingTooOldPacket, missingTooOldPacket, hsame, h.age]

variable {tooMuch : VCMJitterBuffer → Bool}

/-- **The loop ends**, with fuel for all frames. -/
theorem recycleWhile_isSome (htests : Tests tooMuch) {fuel : Nat} (found : Bool) (h : s.rounds ≤ fuel) :
    (recycleWhile trees tooMuch fuel s found).isSome = true := by
  induction fuel generalizing s found with
  | zero => exact absurd h (by unfold rounds; omega)
  | succ fuel ih =>
    unfold recycleWhile
    split
    · dsimp only
      rcases @recycle_rounds trees s with hless | hempty
      · exact ih _ (by omega)
      · -- The next round is the last one.
        obtain ⟨fuel, rfl⟩ : ∃ n, fuel = n + 1 := ⟨fuel - 1, by unfold rounds at h; omega⟩
        unfold recycleWhile
        rw [if_neg (by rw [htests.empty hempty]; exact Bool.false_ne_true)]
        rfl
    · rfl

/-- What the loop leaves. Where no key frame has been found in the last round, it has cleared the list. -/
theorem recycleWhile_spec (htests : Tests tooMuch) {fuel : Nat} {found found' : Bool} {s' : VCMJitterBuffer}
    (h : recycleWhile trees tooMuch fuel s found = some (s', found')) :
    Shrinks s s' ∧ tooMuch s' = false ∧
      (found' = true ∨ s'.missingSequenceNumbers = [] ∨ s' = s ∧ found' = found) := by
  induction fuel generalizing s found with
  | zero => exact absurd h (Option.some_ne_none _).symm
  | succ fuel ih =>
    unfold recycleWhile at h
    by_cases htest : tooMuch s = true
    · rw [if_pos htest] at h
      dsimp only at h
      have hround := @recycle_shrinks trees s
      obtain ⟨hrest, hdone, hwhich⟩ := ih h
      refine ⟨hround.trans hrest, hdone, ?_⟩
      rcases hwhich with hfound | hempty | ⟨hsame, hlast⟩
      · exact Or.inl hfound
      · exact Or.inr (Or.inl hempty)
      · -- The round was the last one, so it has changed the list.
        cases hkey : (s.recycleFramesUntilKeyFrame trees).2 with
        | true => exact Or.inl (hlast.trans hkey)
        | false =>
          rw [hsame]
          rcases recycle_none hkey with hempty | hunchanged
          · exact Or.inr (Or.inl hempty)
          · have hagain := htests.congr hround hunchanged
            rw [hsame, hagain, htest] at hdone
            exact absurd hdone.symm Bool.false_ne_true
    · rw [if_neg htest, Option.some.injEq, Prod.mk.injEq] at h
      rw [← h.1, ← h.2]
      rw [Bool.not_eq_true] at htest
      exact ⟨Shrinks.refl s, htest, Or.inr (Or.inr ⟨rfl, rfl⟩)⟩

/-- **The two loops end**, whatever is in the lists. -/
theorem handleTooLargeNackList_isSome : (s.handleTooLargeNackList trees).isSome = true :=
  recycleWhile_isSome tooLarge_tests false (Nat.le_refl _)

theorem handleTooOldPackets_isSome (sequenceNumber : UInt16) :
    (s.handleTooOldPackets trees sequenceNumber).isSome = true :=
  recycleWhile_isSome (missingTooOld_tests sequenceNumber) false (Nat.le_refl _)

/-- **The limits** are kept then. -/
theorem limitNackList_spec (trees : Trees) (s : VCMJitterBuffer) (sequenceNumber : UInt16) : ∃ s' found,
    s.limitNackList trees sequenceNumber = some (s', found) ∧ Shrinks s s' ∧
      s'.tooLargeNackList = false ∧ s'.missingTooOldPacket sequenceNumber = false := by
  obtain ⟨s₁, found₁, hfirst, hshrinks₁, hsmall, hwhich⟩ : ∃ s₁ found₁,
      (if s.tooLargeNackList then s.handleTooLargeNackList trees else some (s, true)) = some (s₁, found₁) ∧
        Shrinks s s₁ ∧ s₁.tooLargeNackList = false ∧ (found₁ = true ∨ s₁.missingSequenceNumbers = []) := by
    by_cases hlarge : s.tooLargeNackList = true
    · rw [if_pos hlarge]
      obtain ⟨⟨s₁, found₁⟩, hloop⟩ := Option.isSome_iff_exists.1 (@handleTooLargeNackList_isSome trees s)
      obtain ⟨hshrinks, hsmall, hwhich⟩ := recycleWhile_spec tooLarge_tests hloop
      refine ⟨s₁, found₁, hloop, hshrinks, hsmall, ?_⟩
      rcases hwhich with hfound | hempty | ⟨rfl, -⟩
      · exact Or.inl hfound
      · exact Or.inr hempty
      · rw [hlarge] at hsmall
        exact absurd hsmall.symm Bool.false_ne_true
    · rw [if_neg hlarge]
      rw [Bool.not_eq_true] at hlarge
      exact ⟨s, true, rfl, Shrinks.refl s, hlarge, Or.inl rfl⟩
  unfold limitNackList
  rw [hfirst]
  show ∃ s' found, (if found₁ && s₁.missingTooOldPacket sequenceNumber then s₁.handleTooOldPackets trees sequenceNumber
    else some (s₁, found₁)) = some (s', found) ∧ _
  by_cases hold : s₁.missingTooOldPacket sequenceNumber = true
  · -- The list is not empty, so a key frame has been found.
    have hfound : found₁ = true := by
      rcases hwhich with hfound | hempty
      · exact hfound
      · rw [(missingTooOld_tests sequenceNumber).empty hempty] at hold
        exact absurd hold Bool.false_ne_true
    rw [hfound, hold, Bool.and_self, if_pos rfl]
    obtain ⟨⟨s₂, found₂⟩, hloop⟩ :=
      Option.isSome_iff_exists.1 (@handleTooOldPackets_isSome trees s₁ sequenceNumber)
    obtain ⟨hshrinks₂, hyoung, -⟩ := recycleWhile_spec (missingTooOld_tests sequenceNumber) hloop
    refine ⟨s₂, found₂, hloop, hshrinks₁.trans hshrinks₂, ?_, hyoung⟩
    have hlength := hshrinks₂.missing.length_le
    unfold tooLargeNackList at hsmall ⊢
    rw [decide_eq_false_iff_not] at hsmall ⊢
    rw [hshrinks₂.size]
    omega
  · rw [Bool.not_eq_true] at hold
    rw [hold, Bool.and_false, if_neg Bool.false_ne_true]
    exact ⟨s₁, found₁, rfl, hshrinks₁, hsmall, hold⟩

end VCMJitterBuffer

end WebRtc.Jitter
