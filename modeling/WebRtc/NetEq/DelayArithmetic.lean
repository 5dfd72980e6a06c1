import WebRtc.Common.Shifts
import WebRtc.NetEq.DelayChecked

/-!
# The arithmetic of the delay manager

Runs of the delay manager, with none once an `int` has overflown. Packets are compared by the distances of their
numbers from the last one's, but two numbers half of the range apart by which is the larger, and in streaming mode
the difference of the sequence numbers is taken without wrap-around. `delayRun_exact`: without these other numbers
make no difference.
-/

namespace WebRtc.NetEq.DelayManager

open CInt

/-! ## Other numbers -/

section Shift
variable (c : UInt16) (d : UInt32)

/-- The numbers of the last packet moved. -/
def moved (s : DelayManager) : DelayManager :=
  { s with lastSeqNo := s.lastSeqNo + c, lastTimestamp := s.lastTimestamp + d }

/-- Half of the range from the last packet, the numbers are in the same half of the range as before; in streaming
mode they do not wrap. -/
structure Plain (s : DelayManager) (sequenceNumber : UInt16) (timestamp : UInt32) (sampleRateHz : Int) : Prop where
  stamps : timestamp - s.lastTimestamp = 0x80000000 →
    (0x80000000 ≤ (timestamp + d).toNat ↔ 0x80000000 ≤ timestamp.toNat)
  numbers : sequenceNumber - s.lastSeqNo = 0x8000 ∨ sequenceNumber - (s.lastSeqNo + 1) = 0x8000 →
    (0x8000 ≤ (sequenceNumber + c).toNat ↔ 0x8000 ≤ sequenceNumber.toNat)
  distance : s.streamingMode = true → 0 < s.packetLen sequenceNumber timestamp sampleRateHz →
    ((sequenceNumber + c).toNat - (s.lastSeqNo + c).toNat : Int) = sequenceNumber.toNat - s.lastSeqNo.toNat

variable {c d} {s : DelayManager} {sequenceNumber : UInt16} {timestamp : UInt32} {sampleRateHz : Int}

theorem Plain.newerTimestamp (h : Plain c d s sequenceNumber timestamp sampleRateHz) :
    isNewerTimestamp (timestamp + d) (s.lastTimestamp + d) = isNewerTimestamp timestamp s.lastTimestamp := by
  by_cases hhalf : timestamp - s.lastTimestamp = 0x80000000
  · rw [isNewerTimestamp_half hhalf, isNewerTimestamp_half (by rw [shift_sub32, hhalf])]
    exact decide_eq_decide.2 (h.stamps hhalf)
  · exact isNewerTimestamp_shift hhalf d

theorem Plain.newerNumber (h : Plain c d s sequenceNumber timestamp sampleRateHz) {last : UInt16}
    (hlast : last = s.lastSeqNo ∨ last = s.lastSeqNo + 1) :
    isNewerSequenceNumber (sequenceNumber + c) (last + c) = isNewerSequenceNumber sequenceNumber last := by
  by_cases hhalf : sequenceNumber - last = 0x8000
  · rw [isNewerSequenceNumber_half hhalf, isNewerSequenceNumber_half (by rw [shift_sub16, hhalf])]
    refine decide_eq_decide.2 (h.numbers ?_)
    rcases hlast with rfl | rfl
    · exact Or.inl hhalf
    · exact Or.inr hhalf
  · exact isNewerSequenceNumber_shift hhalf c

theorem checkedPacketLen_moved (h : Plain c d s sequenceNumber timestamp sampleRateHz) :
    (s.moved c d).checkedPacketLen (sequenceNumber + c) (timestamp + d) sampleRateHz =
      s.checkedPacketLen sequenceNumber timestamp sampleRateHz := by
  simp [checkedPacketLen, moved, h.newerTimestamp, h.newerNumber (Or.inl rfl)]

theorem checkedIatPackets_moved (h : Plain c d s sequenceNumber timestamp sampleRateHz) (packetLenMs : Int) :
    (s.moved c d).checkedIatPackets (sequenceNumber + c) packetLenMs =
      s.checkedIatPackets sequenceNumber packetLenMs := by
  have hnext : s.lastSeqNo + c + 1 = s.lastSeqNo + 1 + c := by ac_rfl
  simp [checkedIatPackets, moved, hnext, h.newerNumber]

theorem checkedCumulativeSums_moved
    (h : ((sequenceNumber + c).toNat - (s.lastSeqNo + c).toNat : Int) = sequenceNumber.toNat - s.lastSeqNo.toNat)
    (packetLenMs : Int) : (s.moved c d).checkedCumulativeSums packetLenMs (sequenceNumber + c) =
      (s.checkedCumulativeSums packetLenMs sequenceNumber).map (moved c d) := by
  unfold checkedCumulativeSums
  simp only [moved, h, Option.bind_eq_bind, Option.map_bind, Function.comp_def]
  rfl

theorem histogramUpdate_moved (iat : Int) :
    (s.moved c d).histogramUpdate iat = (s.histogramUpdate iat).map (moved c d) := by
  have hself := histogramUpdate_frame (s := s) rfl rfl rfl rfl iat
  rw [histogramUpdate_frame (t := s.moved c d) (s := s) rfl rfl rfl rfl, hself, Option.map_map, Option.map_map]
  rfl

theorem checkedLimit_moved : (s.moved c d).checkedLimit = s.checkedLimit.map (moved c d) := by
  unfold checkedLimit
  simp only [moved, Option.bind_eq_bind, Option.map_bind, Function.comp_def]
  rfl

/-- Nothing but `Update` notes that there was a packet. -/
theorem checkedStatistics_first {packetLenMs : Int} {s' : DelayManager}
    (h : s.checkedStatistics sequenceNumber packetLenMs = some s') :
      s'.firstPacketReceived = s.firstPacketReceived := by
  rw [checkedStatistics_parts] at h
  simp only [Option.bind_eq_some_iff] at h
  obtain ⟨iat, -, t, ht, u, hu, h⟩ := h
  have hsums : t.firstPacketReceived = s.firstPacketReceived := by
    split at ht
    · unfold checkedCumulativeSums at ht
      simp only [Option.bind_eq_bind, Option.bind_eq_some_iff] at ht
      obtain ⟨_, -, _, -, _, -, _, -, _, -, _, -, ht⟩ := ht
      rw [← Option.some.inj ht]
    · rw [← Option.some.inj ht]
  have hhistogram : u.firstPacketReceived = t.firstPacketReceived := by
    rw [histogramUpdate_frame (s := t) rfl rfl rfl rfl, Option.map_eq_some_iff] at hu
    obtain ⟨-, -, rfl⟩ := hu
    rfl
  have hraised : u.raised.firstPacketReceived = u.firstPacketReceived := by
    unfold raised
    split <;> rfl
  unfold checkedLimit at h
  simp only [Option.bind_eq_bind, Option.bind_eq_some_iff] at h
  obtain ⟨_, -, _, -, _, -, h⟩ := h
  rw [← Option.some.inj h]
  exact hraised.trans (hhistogram.trans hsums)

theorem checkedUpdate_first {r : Int} {s' : DelayManager} (hfirst : s.firstPacketReceived = true)
    (h : s.checkedUpdate sequenceNumber timestamp sampleRateHz = some (r, s')) : s'.firstPacketReceived = true := by
  unfold checkedUpdate at h
  split at h
  · cases h
    exact hfirst
  · rw [if_neg (by simp [hfirst])] at h
    simp only [Option.bind_eq_bind, Option.bind_eq_some_iff] at h
    obtain ⟨packetLenMs, -, t, ht, h⟩ := h
    cases h
    split at ht
    · exact (checkedStatistics_first ht).trans hfirst
    · cases ht
      exact hfirst

theorem raised_moved (s : DelayManager) : (s.moved c d).raised = s.raised.moved c d := by
  unfold raised moved
  dsimp only
  split <;> rfl

theorem checkedStatistics_moved (h : Plain c d s sequenceNumber timestamp sampleRateHz)
    (hlen : 0 < s.packetLen sequenceNumber timestamp sampleRateHz) (packetLenMs : Int) :
    (s.moved c d).checkedStatistics (sequenceNumber + c) packetLenMs =
      (s.checkedStatistics sequenceNumber packetLenMs).map (moved c d) := by
  have hsums : (if s.streamingMode then (s.moved c d).checkedCumulativeSums packetLenMs (sequenceNumber + c)
      else some (s.moved c d)) =
      (if s.streamingMode then s.checkedCumulativeSums packetLenMs sequenceNumber else some s).map (moved c d) := by
    by_cases hmode : s.streamingMode = true
    · rw [if_pos hmode, if_pos hmode, checkedCumulativeSums_moved (h.distance hmode hlen)]
    · rw [if_neg hmode, if_neg hmode, Option.map_some]
  rw [checkedStatistics_parts, checkedStatistics_parts, checkedIatPackets_moved h, Option.map_bind]
  refine Option.bind_congr fun iat _ => ?_
  rw [show (s.moved c d).streamingMode = s.streamingMode from rfl, hsums, Option.bind_map, Function.comp_apply,
    Option.map_bind]
  refine Option.bind_congr fun t _ => ?_
  simp only [Function.comp_apply, histogramUpdate_moved, Option.bind_map, Option.map_bind]
  refine Option.bind_congr fun u _ => ?_
  simp only [raised_moved, checkedLimit_moved]

/-- **An update goes by the distances** from the last packet. -/
theorem checkedUpdate_moved (h : 0 < sampleRateHz → Plain c d s sequenceNumber timestamp sampleRateHz)
    (hfirst : s.firstPacketReceived = true) :
    (s.moved c d).checkedUpdate (sequenceNumber + c) (timestamp + d) sampleRateHz =
      (s.checkedUpdate sequenceNumber timestamp sampleRateHz).map fun r => (r.1, r.2.moved c d) := by
  unfold checkedUpdate
  by_cases hrate : sampleRateHz ≤ 0
  · rw [if_pos hrate, if_pos hrate]
    rfl
  · have hplain := h (Int.not_le.1 hrate)
    rw [if_neg hrate, if_neg hrate, show (s.moved c d).firstPacketReceived = s.firstPacketReceived from rfl,
      if_neg (by simp [hfirst]), if_neg (by simp [hfirst]), checkedPacketLen_moved hplain]
    simp only [Option.bind_eq_bind, Option.map_bind]
    refine Option.bind_congr fun packetLenMs hpacketLen => ?_
    have hsame : packetLenMs = s.packetLen sequenceNumber timestamp sampleRateHz := by
      by_cases hshort : s.ShortPackets sequenceNumber timestamp
      · rw [checkedPacketLen_eq hshort, Option.some.injEq] at hpacketLen
        exact hpacketLen.symm
      · rw [checkedPacketLen_none hshort] at hpacketLen
        cases hpacketLen
    rw [Function.comp_apply]
    by_cases hlen : packetLenMs > 0
    · rw [if_pos hlen, if_pos hlen, checkedStatistics_moved hplain (hsame ▸ hlen), Option.bind_map, Option.map_bind]
      rfl
    · rw [if_neg hlen, if_neg hlen]
      rfl

theorem setPacketAudioLength_moved (s : DelayManager) (lengthMs : Int) :
    ((s.moved c d).setPacketAudioLength lengthMs).2 = (s.setPacketAudioLength lengthMs).2.moved c d ∧
      (s.setPacketAudioLength lengthMs).2.firstPacketReceived = s.firstPacketReceived := by
  unfold setPacketAudioLength
  split <;> exact ⟨rfl, rfl⟩

theorem setMinimumDelay_moved (s : DelayManager) (delayMs : Int) :
    ((s.moved c d).setMinimumDelay delayMs).2 = (s.setMinimumDelay delayMs).2.moved c d ∧
      (s.setMinimumDelay delayMs).2.firstPacketReceived = s.firstPacketReceived := by
  unfold setMinimumDelay moved
  dsimp only
  split <;> exact ⟨rfl, rfl⟩

theorem setMaximumDelay_moved (s : DelayManager) (delayMs : Int) :
    ((s.moved c d).setMaximumDelay delayMs).2 = (s.setMaximumDelay delayMs).2.moved c d ∧
      (s.setMaximumDelay delayMs).2.firstPacketReceived = s.firstPacketReceived := by
  unfold setMaximumDelay moved
  dsimp only
  split
  · exact ⟨rfl, rfl⟩
  · split <;> exact ⟨rfl, rfl⟩

/-- The other calls do not look at the numbers. -/
theorem call_moved (s : DelayManager) {call : Call} (hother : ∀ sequenceNumber timestamp sampleRateHz,
    call ≠ .update sequenceNumber timestamp sampleRateHz) :
    ∃ s', s.call call = some s' ∧ (s.moved c d).call call = some (s'.moved c d) ∧
      s'.firstPacketReceived = s.firstPacketReceived := by
  cases call with
  | update sequenceNumber timestamp sampleRateHz => exact absurd rfl (hother _ _ _)
  | setPacketAudioLength lengthMs =>
    obtain ⟨hmoved, hfirst⟩ := setPacketAudioLength_moved (c := c) (d := d) s lengthMs
    exact ⟨_, rfl, congrArg some hmoved, hfirst⟩
  | setMinimumDelay delayMs =>
    obtain ⟨hmoved, hfirst⟩ := setMinimumDelay_moved (c := c) (d := d) s delayMs
    exact ⟨_, rfl, congrArg some hmoved, hfirst⟩
  | setMaximumDelay delayMs =>
    obtain ⟨hmoved, hfirst⟩ := setMaximumDelay_moved (c := c) (d := d) s delayMs
    exact ⟨_, rfl, congrArg some hmoved, hfirst⟩
  | reset | updateCounters | resetPacketIatCount | setStreamingMode => exact ⟨_, rfl, rfl, rfl⟩

end Shift

/-! ## Runs -/

/-- What is asked of the delay manager. -/
inductive DelayUse where
  | call (call : Call)
  | averageIat
deriving DecidableEq, Repr

def checkedUse (s : DelayManager) : DelayUse → Option DelayManager
  | .call (.update sequenceNumber timestamp sampleRateHz) =>
    (s.checkedUpdate sequenceNumber timestamp sampleRateHz).map Prod.snd
  | .call call => s.call call
  | .averageIat => s.checkedAverageIat.map fun _ => s

/-- A step; what it shows is the target level, or none once a number has overflown. -/
def delayStep (o : Option DelayManager) (u : DelayUse) : Option DelayManager × Option Int :=
  let o := o.bind fun s => s.checkedUse u
  (o, o.map targetLevel)

/-- Other sequence numbers and timestamps. -/
def DelayUse.shift (c : UInt16) (d : UInt32) : DelayUse → DelayUse
  | .call (.update sequenceNumber timestamp sampleRateHz) =>
    .call (.update (sequenceNumber + c) (timestamp + d) sampleRateHz)
  | u => u

/-- Less than an hour passes between packets. -/
def WithinHour (o : Option DelayManager) : DelayUse → Prop
  | .call (.updateCounters elapsedTimeMs) => ∀ s, o = some s → s.firstPacketReceived = true →
      0 ≤ elapsedTimeMs ∧ s.packetIatCountMs + elapsedTimeMs < 3600000
  | _ => True

/-- The numbers of an update, or of the mean, fit. -/
def Fits (o : Option DelayManager) : DelayUse → Prop
  | .call (.update sequenceNumber timestamp sampleRateHz) => ∀ s, o = some s → 0 < sampleRateHz →
      s.firstPacketReceived = true → s.UpdateFits sequenceNumber timestamp sampleRateHz
  | .averageIat => ∀ s, o = some s → weightedMean s.iatVector 0 ≤ 34369407
  | _ => True

def Steady (c : UInt16) (d : UInt32) (o : Option DelayManager) : DelayUse → Prop
  | .call (.update sequenceNumber timestamp sampleRateHz) => ∀ s, o = some s → 0 < sampleRateHz →
      s.firstPacketReceived = true → Plain c d s sequenceNumber timestamp sampleRateHz
  | _ => True

section Runs
variable {s : DelayManager}

theorem reset_bounded (h : s.Distribution) : s.reset.Bounded :=
  { reset_counting h with
    hour := fun _ => show (0 : Int) ≤ 0 ∧ (0 : Int) < 3600000 by decide
    sum := show (0 : Int) ≤ 0 ∧ (0 : Int) ≤ 2147483647 by decide
    maxSum := show (-2 : Int) ≤ 0 ∧ (0 : Int) ≤ 2147483647 by decide
    length := Int.le_refl 0
    peaks := fun p hp => by cases hp }

theorem create_bounded (n : Nat) : (create n).Bounded := by
  have hreset : (create n).reset = create n := rfl
  rw [← hreset]
  exact reset_bounded (create_counting n).toDistribution

/-- Between packets. -/
theorem updateCounters_bounded (h : s.Bounded) {elapsedTimeMs : Int}
    (hhour : WithinHour (some s) (.call (.updateCounters elapsedTimeMs))) :
      (s.updateCounters elapsedTimeMs).Bounded := by
  have hpeaks : LowPeaks (s.peakDetector.incrementCounter elapsedTimeMs) := by
    unfold DelayPeakDetector.incrementCounter
    split <;> exact h.peaks
  refine { h with counter := i32_range _, hour := ?_, peaks := hpeaks }
  intro hfirst
  obtain ⟨h0, h1⟩ := hhour s rfl hfirst
  obtain ⟨hhour0, hhour1⟩ := h.hour hfirst
  show 0 ≤ i32 (s.packetIatCountMs + elapsedTimeMs) ∧ i32 (s.packetIatCountMs + elapsedTimeMs) < 3600000
  rw [i32_id (by omega) (by omega)]
  omega

theorem setPacketAudioLength_bounded (h : s.Bounded) (lengthMs : Int) :
    (s.setPacketAudioLength lengthMs).2.Bounded := by
  have hpeaks : LowPeaks (s.peakDetector.setPacketAudioLength lengthMs) := by
    unfold DelayPeakDetector.setPacketAudioLength
    split <;> exact h.peaks
  unfold setPacketAudioLength
  split
  · exact h
  · rename_i hpos
    exact { h with
      counter := counter_zero
      hour := fun _ => show (0 : Int) ≤ 0 ∧ (0 : Int) < 3600000 by decide
      length := Int.le_of_lt (Int.not_le.1 hpos)
      peaks := hpeaks }

/-- The calls without arithmetic on packets. -/
theorem call_bounded (h : s.Bounded) {call : Call} (hhour : WithinHour (some s) (.call call))
    (hother : ∀ sequenceNumber timestamp sampleRateHz, call ≠ .update sequenceNumber timestamp sampleRateHz) :
    ∃ s', s.call call = some s' ∧ s'.Bounded := by
  cases call with
  | reset => exact ⟨_, rfl, reset_bounded h.toDistribution⟩
  | update sequenceNumber timestamp sampleRateHz => exact absurd rfl (hother _ _ _)
  | setPacketAudioLength lengthMs => exact ⟨_, rfl, setPacketAudioLength_bounded h lengthMs⟩
  | updateCounters elapsedTimeMs => exact ⟨_, rfl, updateCounters_bounded h hhour⟩
  | resetPacketIatCount => exact ⟨_, rfl, h.arrived s.firstPacketReceived s.lastSeqNo s.lastTimestamp⟩
  | setMinimumDelay delayMs =>
    refine ⟨_, rfl, ?_⟩
    unfold setMinimumDelay
    split
    · exact h
    · exact { h with }
  | setMaximumDelay delayMs =>
    refine ⟨_, rfl, ?_⟩
    unfold setMaximumDelay
    split
    · exact { h with }
    · split
      · exact h
      · exact { h with }
  | setStreamingMode value => exact ⟨_, rfl, { h with }⟩

theorem checkedUse_other {call : Call} (hother : ∀ sequenceNumber timestamp sampleRateHz,
    call ≠ .update sequenceNumber timestamp sampleRateHz) (s : DelayManager) : s.checkedUse
      (.call call) = s.call call := by
  cases call with
  | update sequenceNumber timestamp sampleRateHz => exact absurd rfl (hother _ _ _)
  | _ => rfl

theorem shift_other {call : Call} (hother : ∀ sequenceNumber timestamp sampleRateHz,
    call ≠ .update sequenceNumber timestamp sampleRateHz) (c : UInt16) (d : UInt32) :
    DelayUse.shift c d (.call call) = .call call := by
  cases call with
  | update sequenceNumber timestamp sampleRateHz => exact absurd rfl (hother _ _ _)
  | _ => rfl

/-- **One step** is without overflow when the numbers fit, and not otherwise. -/
theorem checkedUse_eq (h : s.Bounded) {u : DelayUse} (hhour : WithinHour (some s) u) :
    (Fits (some s) u → ∃ s', s.checkedUse u = some s' ∧ s'.Bounded) ∧ (¬ Fits (some s) u → s.checkedUse u = none) := by
  cases u with
  | averageIat =>
    obtain ⟨hfits, hnot⟩ := checkedAverageIat_eq h.toDistribution
    have hiff : Fits (some s) .averageIat ↔ weightedMean s.iatVector 0 ≤ 34369407 := by simp [Fits]
    rw [hiff]
    constructor
    · intro hmean
      refine ⟨s, ?_, h⟩
      rw [checkedUse, hfits hmean, Option.map_some]
    · intro hmean
      rw [checkedUse, hnot hmean, Option.map_none]
  | call call =>
    by_cases hupdate : ∃ sequenceNumber timestamp sampleRateHz, call = .update sequenceNumber timestamp sampleRateHz
    · obtain ⟨sequenceNumber, timestamp, sampleRateHz, rfl⟩ := hupdate
      obtain ⟨hfits, hnot⟩ := checkedUpdate_eq h sequenceNumber timestamp sampleRateHz
      have hiff : Fits (some s) (.call (.update sequenceNumber timestamp sampleRateHz)) ↔
          (0 < sampleRateHz → s.firstPacketReceived = true → s.UpdateFits sequenceNumber timestamp sampleRateHz) := by
        simp [Fits]
      rw [hiff]
      constructor
      · intro hfit
        obtain ⟨r, s', hchecked, -, hbounded⟩ := hfits hfit
        exact ⟨s', by rw [checkedUse, hchecked, Option.map_some], hbounded⟩
      · intro hnofit
        rw [checkedUse, hnot hnofit, Option.map_none]
    · have hother : ∀ sequenceNumber timestamp sampleRateHz, call ≠ .update sequenceNumber timestamp sampleRateHz :=
        fun sequenceNumber timestamp sampleRateHz heq => hupdate ⟨_, _, _, heq⟩
      obtain ⟨s', hcall, hbounded⟩ := call_bounded h hhour hother
      have hfits : Fits (some s) (.call call) := by
        cases call with
        | update sequenceNumber timestamp sampleRateHz => exact absurd rfl (hother _ _ _)
        | _ => trivial
      exact ⟨fun _ => ⟨s', by rw [checkedUse_other hother, hcall], hbounded⟩, fun hnot => absurd hfits hnot⟩

/-- The same state, for the numbers that are moved. -/
def shifted (c : UInt16) (d : UInt32) (s : DelayManager) : DelayManager :=
  if s.firstPacketReceived then s.moved c d else s

/-- **One step with other numbers.** -/
theorem checkedUse_shifted {c : UInt16} {d : UInt32} (s : DelayManager) (u : DelayUse) (h : Steady c d (some s) u) :
    (s.shifted c d).checkedUse (u.shift c d) = (s.checkedUse u).map (shifted c d) := by
  by_cases hfirst : s.firstPacketReceived = true
  · have hmoved : ∀ {t : DelayManager}, t.firstPacketReceived = true → t.shifted c d = t.moved c d := fun ht => by
      simp [shifted, ht]
    rw [hmoved hfirst]
    cases u with
    | averageIat =>
      show (s.checkedAverageIat.map fun _ => s.moved c d) = (s.checkedAverageIat.map fun _ => s).map (shifted c d)
      rw [Option.map_map]
      simp only [Function.comp_def, hmoved hfirst]
    | call call =>
      by_cases hupdate : ∃ sequenceNumber timestamp sampleRateHz, call = .update sequenceNumber timestamp sampleRateHz
      · obtain ⟨sequenceNumber, timestamp, sampleRateHz, rfl⟩ := hupdate
        have hplain := checkedUpdate_moved (fun hrate => h s rfl hrate hfirst) hfirst
        simp only [DelayUse.shift, checkedUse, hplain, Option.map_map]
        refine Option.map_congr fun r hr => ?_
        exact (hmoved (checkedUpdate_first hfirst hr)).symm
      · have hother : ∀ sequenceNumber timestamp sampleRateHz, call ≠ .update sequenceNumber timestamp sampleRateHz :=
          fun sequenceNumber timestamp sampleRateHz heq => hupdate ⟨_, _, _, heq⟩
        obtain ⟨s', hcall, hcall', hsame⟩ := call_moved (c := c) (d := d) s hother
        rw [shift_other hother, checkedUse_other hother, checkedUse_other hother, hcall, hcall', Option.map_some,
          hmoved (hsame.trans hfirst)]
  · have hstill : ∀ {t : DelayManager}, ¬ t.firstPacketReceived = true → t.shifted c d = t := fun ht => by
      simp [shifted, ht]
    rw [hstill hfirst]
    cases u with
    | averageIat =>
      show (s.checkedAverageIat.map fun _ => s) = (s.checkedAverageIat.map fun _ => s).map (shifted c d)
      rw [Option.map_map]
      simp only [Function.comp_def, hstill hfirst]
    | call call =>
      by_cases hupdate : ∃ sequenceNumber timestamp sampleRateHz, call = .update sequenceNumber timestamp sampleRateHz
      · obtain ⟨sequenceNumber, timestamp, sampleRateHz, rfl⟩ := hupdate
        by_cases hrate : sampleRateHz ≤ 0
        · simp only [DelayUse.shift, checkedUse, checkedUpdate, if_pos hrate, Option.map_some, hstill hfirst]
        · simp only [DelayUse.shift, checkedUse, checkedUpdate, if_neg hrate, hfirst]
          rfl
      · have hother : ∀ sequenceNumber timestamp sampleRateHz, call ≠ .update sequenceNumber timestamp sampleRateHz :=
          fun sequenceNumber timestamp sampleRateHz heq => hupdate ⟨_, _, _, heq⟩
        obtain ⟨s', hcall, -, hsame⟩ := call_moved (c := c) (d := d) s hother
        rw [shift_other hother, checkedUse_other hother, hcall, Option.map_some, hstill (hsame ▸ hfirst)]

/-- **The arithmetic of a run.** Within an hour between packets no number overflows exactly when the numbers of
every step fit; and other numbers make no difference when every step is steady. -/
theorem delayRun_exact (maxPacketsInBuffer : Nat) (uses : List DelayUse)
    (hhour : Machine.Meets delayStep WithinHour (some (create maxPacketsInBuffer)) uses) :
    (Machine.Always delayStep (· ≠ none) (some (create maxPacketsInBuffer)) uses ↔
      Machine.Meets delayStep Fits (some (create maxPacketsInBuffer)) uses) ∧
    ∀ c d, Machine.Meets delayStep (Steady c d) (some (create maxPacketsInBuffer)) uses →
      Machine.trace delayStep (some (create maxPacketsInBuffer)) (uses.map (.shift c d)) =
        Machine.trace delayStep (some (create maxPacketsInBuffer)) uses := by
  constructor
  · refine Machine.always_iff_meets_of (P := fun o => ∃ s, o = some s ∧ s.Bounded) ?_ ?_ ?_ ⟨_, rfl,
      create_bounded maxPacketsInBuffer⟩ hhour
    · rintro o ⟨s, rfl, -⟩
      exact Option.some_ne_none s
    · rintro o u ⟨s, rfl, hs⟩ hwithin hfits
      exact (checkedUse_eq hs hwithin).1 hfits
    · rintro o u ⟨s, rfl, hs⟩ hwithin hsound
      by_contra hnot
      exact hsound ((checkedUse_eq hs hwithin).2 hnot)
  · intro c d hsteady
    rw [Machine.trace_map]
    refine (Machine.trace_eq_of_meets (R := fun o o' => o' = o.map (shifted c d)) ?_ rfl hsteady).symm
    rintro o - u rfl hu
    cases o with
    | none => exact ⟨rfl, rfl⟩
    | some s =>
      have hstep := checkedUse_shifted s u hu
      have hlevel : ∀ s : DelayManager, (s.shifted c d).targetLevel = s.targetLevel := by
        intro s
        unfold shifted
        split <;> rfl
      unfold delayStep
      simp only [Option.map_some, Option.bind_some, hstep, Option.map_map, Function.comp_def, hlevel]
      exact ⟨trivial, trivial⟩

/-- Two packets of 20 ms. -/
def twoPackets (streaming : Bool) : List DelayUse :=
  [.call (.setStreamingMode streaming), .call (.setPacketAudioLength 20), .call (.update 1 160 8000),
    .call (.updateCounters 20),
    .call (.update 2 320 8000), .averageIat]

theorem twoPackets_hour (streaming : Bool) :
    Machine.Meets delayStep WithinHour (some (create 50)) (twoPackets streaming) := by
  refine ⟨trivial, trivial, trivial, ?_, trivial, trivial, trivial⟩
  intro s hs hfirst
  obtain rfl := Option.some.inj hs
  exact ⟨by simp, show (0 : Int) + 20 < 3600000 by decide⟩

theorem delayRun_exact_two : Machine.Meets delayStep Fits (some (create 50)) (twoPackets false) ∧
    Machine.trace delayStep (some (create 50)) ((twoPackets false).map (.shift 65534 4294967136)) =
      Machine.trace delayStep (some (create 50)) (twoPackets false) := by
  obtain ⟨hfits, hsame⟩ := delayRun_exact 50 (twoPackets false) (twoPackets_hour false)
  refine ⟨hfits.1 ?_, hsame _ _ ?_⟩
  · simp only [twoPackets, Machine.Always]
    decide +kernel
  · refine ⟨trivial, trivial, ?_, trivial, ?_, trivial, trivial⟩
    · intro s hs _ hfirst
      obtain rfl := Option.some.inj hs
      cases hfirst
    · intro s hs _ _
      obtain rfl := Option.some.inj hs
      exact ⟨by decide, by decide, by decide⟩

/-- A pause of 2147484 samples overflows, and in streaming mode the levels depend on where the numbers wrap. -/
theorem not_delayRun_exact :
    (¬ ∀ (maxPacketsInBuffer : Nat) (uses : List DelayUse),
      Machine.Meets delayStep WithinHour (some (create maxPacketsInBuffer)) uses →
        Machine.Always delayStep (· ≠ none) (some (create maxPacketsInBuffer)) uses) ∧
    ¬ ∀ (maxPacketsInBuffer : Nat) (uses : List DelayUse) (c : UInt16) (d : UInt32),
      Machine.Meets delayStep WithinHour (some (create maxPacketsInBuffer)) uses →
        Machine.trace delayStep (some (create maxPacketsInBuffer)) (uses.map (.shift c d)) =
          Machine.trace delayStep (some (create maxPacketsInBuffer)) uses := by
  constructor
  · intro h
    have halways := h 50 [.call (.update 1 160 8000), .call (.update 2 2147644 8000)] ⟨trivial, trivial, trivial⟩
    exact halways.2.2 (by decide +kernel)
  · intro h
    have hsame := h 50 (twoPackets true) 65534 0 (twoPackets_hour true)
    revert hsame
    decide +kernel

end Runs

end WebRtc.NetEq.DelayManager
