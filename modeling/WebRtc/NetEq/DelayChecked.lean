import WebRtc.NetEq.Histogram

/-!
# The delay manager, with overflow

| here | there |
| --- | --- |
| `checkedPacketLen`, `checkedIatPackets`, `checkedUpdate` | `DelayManager::Update` (`delay_manager.cc:72-140`) |
| `checkedCumulativeSums` | `DelayManager::UpdateCumulativeSums` (:142-166) |
| `checkedLimit` | `DelayManager::LimitTargetLevel` (:228-255) |
| `averageIat`, `checkedAverageIat` | `DelayManager::AverageIAT` (:319-335) |

The same functions as before, with none where an `int` overflows. `checkedUpdate_eq` and `checkedAverageIat_eq` say
from which states that is, and that otherwise the result is the same.
-/

namespace WebRtc.NetEq.DelayManager

open CInt

/-! ## With overflow -/

section Checked
variable (s : DelayManager)

def checkedPacketLen (sequenceNumber : UInt16) (timestamp : UInt32) (sampleRateHz : Int) : Option Int :=
  if ¬ isNewerTimestamp timestamp s.lastTimestamp ∨
    ¬ isNewerSequenceNumber sequenceNumber s.lastSeqNo then some s.packetLenMs
  else do
    let packetLenSamp := i32 ((timestamp - s.lastTimestamp).toNat / (sequenceNumber - s.lastSeqNo).toNat : Nat)
    let product ← checked32 (1000 * packetLenSamp)
    some (product.tdiv sampleRateHz)

def checkedIatPackets (sequenceNumber : UInt16) (packetLenMs : Int) : Option Int := do
  let iat := Int.tdiv s.packetIatCountMs packetLenMs
  let iat ←
    (if isNewerSequenceNumber sequenceNumber (s.lastSeqNo + 1) then
      (checked32 (iat - (sequenceNumber - s.lastSeqNo - 1).toNat)).map (max · 0)
    else if ¬ isNewerSequenceNumber sequenceNumber s.lastSeqNo then
      checked32 (iat + (s.lastSeqNo + 1 - sequenceNumber).toNat)
    else some iat)
  some (min iat 64)

def checkedCumulativeSums (packetLenMs : Int) (sequenceNumber : UInt16) : Option DelayManager := do
  let counted ← checked32 (s.packetIatCountMs * 256)
  let iatPacketsQ8 := counted.tdiv packetLenMs
  let numbers ← checked32 ((sequenceNumber.toNat - s.lastSeqNo.toNat : Int) * 256)
  let difference ← checked32 (iatPacketsQ8 - numbers)
  let sum ← checked32 (s.iatCumulativeSum + difference)
  let sum ← checked32 (sum - 2)
  let sum := max sum 0
  let (maxSum, maxTimerMs) := if sum > s.maxIatCumulativeSum then (sum, 0) else (s.maxIatCumulativeSum, s.maxTimerMs)
  let maxSum ← (if maxTimerMs > 600000 then checked32 (maxSum - 2) else some maxSum)
  some { s with iatCumulativeSum := sum, maxIatCumulativeSum := maxSum, maxTimerMs }

def checkedLimit : Option DelayManager := do
  let product ← checked32 (s.targetLevel * s.packetLenMs)
  let targetLevel ←
    (if s.packetLenMs > 0 ∧ s.minimumDelayMs > 0 then
      (checked32 (s.minimumDelayMs * 256)).map fun delay => max s.targetLevel (Int.tdiv delay s.packetLenMs)
    else some s.targetLevel)
  let targetLevel ←
    (if s.maximumDelayMs > 0 ∧ s.packetLenMs > 0 then
      (checked32 (s.maximumDelayMs * 256)).map fun delay => min targetLevel (Int.tdiv delay s.packetLenMs)
    else some targetLevel)
  let maxBufferPacketsQ8 := i32 (toSize (3 * toSize (s.maxPacketsInBuffer * 256)) / 4)
  some { s with leastRequiredDelayMs := product / 256, targetLevel := max (min targetLevel maxBufferPacketsQ8) 256 }

def checkedStatistics (sequenceNumber : UInt16) (packetLenMs : Int) : Option DelayManager := do
  let iat ← s.checkedIatPackets sequenceNumber packetLenMs
  let s ← (if s.streamingMode then s.checkedCumulativeSums packetLenMs sequenceNumber else some s)
  let s ← s.updateHistogram (toSize iat)
  let s ← s.calculateTargetLevel iat
  let s := if s.streamingMode then { s with targetLevel := max s.targetLevel s.maxIatCumulativeSum } else s
  s.checkedLimit

def checkedUpdate (sequenceNumber : UInt16) (timestamp : UInt32) (sampleRateHz : Int) : Option (Int × DelayManager) :=
  if sampleRateHz ≤ 0 then some (-1, s)
  else if s.firstPacketReceived = false then
    some (0, { s with
      packetIatCountMs := 0, lastSeqNo := sequenceNumber, lastTimestamp := timestamp, firstPacketReceived := true })
  else do
    let packetLenMs ← s.checkedPacketLen sequenceNumber timestamp sampleRateHz
    let s ← (if packetLenMs > 0 then s.checkedStatistics sequenceNumber packetLenMs else some s)
    some (0, { s with packetIatCountMs := 0, lastSeqNo := sequenceNumber, lastTimestamp := timestamp })

/-- The loop of `AverageIAT`. -/
def weightedSum : List Int → Nat → Int → Int
  | [], _, sum => sum
  | v :: l, i, sum => weightedSum l (i + 1) (i32 (sum + i32 (v / 64 * i)))

def averageIat : Int :=
  let sumQ24 := i32 (weightedSum s.iatVector 0 0 - 16777216)
  i32 (sumQ24 / 128 * 15625) / 2048

def checkedWeightedSum : List Int → Nat → Int → Option Int
  | [], _, sum => some sum
  | v :: l, i, sum => do
    let weighted ← checked32 (v / 64 * i)
    let sum ← checked32 (sum + weighted)
    checkedWeightedSum l (i + 1) sum

def checkedAverageIat : Option Int := do
  let sum ← checkedWeightedSum s.iatVector 0 0
  let sumQ24 ← checked32 (sum - 16777216)
  let product ← checked32 (sumQ24 / 128 * 15625)
  some (product / 2048)

end Checked

/-! ## What the parts of an update change -/

section Parts
variable {s s' : DelayManager}

/-- The histogram is a matter of the vector and the factor. -/
theorem updateHistogram_frame {t : DelayManager} (hvector : t.iatVector = s.iatVector)
    (hfactor : t.iatFactor = s.iatFactor)
    (i : Nat) : t.updateHistogram i =
      (s.updateHistogram i).map fun s' => { t with iatVector := s'.iatVector, iatFactor := s'.iatFactor } := by
  unfold updateHistogram
  simp only [hvector, hfactor, Option.bind_eq_bind, Option.map_bind, Function.comp_def, apply_ite (Option.map _),
    Option.map_none, Option.pure_def, Option.map_some]

/-- The target level is a matter of the vector, the mode and the peaks. -/
theorem calculateTargetLevel_frame {t : DelayManager} (hvector : t.iatVector = s.iatVector)
    (hmode : t.streamingMode = s.streamingMode) (hpeaks : t.peakDetector = s.peakDetector) (iat : Int) :
    t.calculateTargetLevel iat = (s.calculateTargetLevel iat).map fun s' =>
      { t with
        baseTargetLevel := s'.baseTargetLevel
        peakDetector := s'.peakDetector
        targetLevel := s'.targetLevel } := by
  unfold calculateTargetLevel
  simp only [hvector, hmode, hpeaks, Option.bind_eq_bind, Option.map_bind, Function.comp_def, Option.pure_def,
    Option.map_some]

/-- The packets of a peak are no more than `kMaxIat`. -/
def LowPeaks (d : DelayPeakDetector) : Prop := ∀ p ∈ d.peakHistory, p.peakHeightPackets ≤ 64

theorem maxPeakHeight_le {d : DelayPeakDetector} (h : LowPeaks d) : d.maxPeakHeight ≤ 64 := by
  have hfold : ∀ (l : List Peak) (m : Int), m ≤ 64 → (∀ p ∈ l, p.peakHeightPackets ≤ 64) →
      l.foldl (fun m p => max m p.peakHeightPackets) m ≤ 64 := by
    intro l
    induction l with
    | nil => exact fun m hm _ => hm
    | cons p l ih =>
      intro m hm hl
      obtain ⟨hp, hl⟩ := List.forall_mem_cons.1 hl
      exact ih _ (Int.max_le.2 ⟨hm, hp⟩) hl
  exact hfold _ _ (by decide) h

theorem peakUpdate_low {d : DelayPeakDetector} (h : LowPeaks d) {iat : Int} (hiat : iat ≤ 64) (targetLevel : Int) :
    LowPeaks (d.update iat targetLevel).1 := by
  have hpush : ∀ period, LowPeaks (d.pushPeak ⟨period, iat⟩) := by
    intro period p hp
    rcases List.mem_append.1 (List.mem_of_mem_drop hp) with hp | hp
    · exact h p hp
    · rw [List.mem_singleton.1 hp]
      exact hiat
  unfold DelayPeakDetector.update DelayPeakDetector.checkPeakConditions
  dsimp only
  split
  · split
    · exact h
    · split
      · exact hpush _
      · split
        · exact h
        · simp [LowPeaks, DelayPeakDetector.reset]
  · exact h

theorem findIndex_le {vector : List Int} {limit : Int} {fuel index k : Nat} {sum : Int}
    (h : findIndex vector limit fuel index sum = some k) : k < vector.length := by
  induction fuel generalizing index sum with
  | zero => cases h
  | succ fuel ih =>
    obtain ⟨v, hv, h⟩ := Option.bind_eq_some_iff.1 h
    have hindex := (List.getElem?_eq_some_iff.1 hv).1
    dsimp only at h
    split at h
    · exact ih h
    · cases h
      exact hindex

theorem calculateTargetLevel_rest (hsize : s.iatVector.length = 65) (hpeaks : LowPeaks s.peakDetector) {iat : Int}
    (hiat : iat ≤ 64) (h : s.calculateTargetLevel iat = some s') :
    ∃ baseTargetLevel peakDetector targetLevel, s' = { s with baseTargetLevel, peakDetector, targetLevel } ∧
      LowPeaks peakDetector ∧ 256 ≤ targetLevel ∧ targetLevel ≤ 16384 := by
  unfold calculateTargetLevel at h
  simp only [Option.bind_eq_bind, Option.bind_eq_some_iff] at h
  obtain ⟨first, -, index, hindex, h⟩ := h
  have hlow := peakUpdate_low hpeaks hiat index
  have hheight := maxPeakHeight_le hlow
  have hless := findIndex_le hindex
  refine ⟨_, _, _, (Option.some.inj h).symm, hlow, ?_, ?_⟩ <;>
    split <;> rw [i32_id (by omega) (by omega)] <;> omega

/-- One more packet in the histogram. -/
def histogramUpdate (s : DelayManager) (iat : Int) : Option DelayManager :=
  (s.updateHistogram (toSize iat)).bind fun s => s.calculateTargetLevel iat

theorem histogramUpdate_frame {t : DelayManager} (hvector : t.iatVector = s.iatVector)
    (hfactor : t.iatFactor = s.iatFactor)
    (hmode : t.streamingMode = s.streamingMode) (hpeaks : t.peakDetector = s.peakDetector) (iat : Int) :
    t.histogramUpdate iat = (s.histogramUpdate iat).map fun s' => { t with
      iatVector := s'.iatVector
      iatFactor := s'.iatFactor
      baseTargetLevel := s'.baseTargetLevel
      peakDetector := s'.peakDetector
      targetLevel := s'.targetLevel } := by
  have hself := updateHistogram_frame (s := s) rfl rfl (toSize iat)
  unfold histogramUpdate
  rw [updateHistogram_frame hvector hfactor]
  cases hupdate : s.updateHistogram (toSize iat) with
  | none => rfl
  | some u =>
    rw [hupdate, Option.map_some, Option.some.injEq] at hself
    have hmode' : u.streamingMode = s.streamingMode := by rw [hself]
    have hpeaks' : u.peakDetector = s.peakDetector := by rw [hself]
    have hsame := calculateTargetLevel_frame (s := u) rfl rfl rfl iat
    rw [Option.map_some, Option.bind_some, Option.bind_some,
      calculateTargetLevel_frame (t := { t with iatVector := u.iatVector, iatFactor := u.iatFactor }) (s := u) rfl
        (hmode.trans hmode'.symm) (hpeaks.trans hpeaks'.symm)]
    cases htarget : u.calculateTargetLevel iat with
    | none => rfl
    | some v =>
      rw [htarget, Option.map_some, Option.some.injEq] at hsame
      have hvector' : v.iatVector = u.iatVector := by rw [hsame]
      have hfactor' : v.iatFactor = u.iatFactor := by rw [hsame]
      rw [Option.map_some, Option.map_some, hvector', hfactor']

/-- What one more packet changes. -/
theorem histogramUpdate_eq (h : s.Distribution) (hpeaks : LowPeaks s.peakDetector) {iat : Int} (h0 : 0 ≤ iat)
    (h1 : iat ≤ 64) : ∃ iatVector iatFactor baseTargetLevel peakDetector targetLevel,
      s.histogramUpdate iat = some { s with iatVector, iatFactor, baseTargetLevel, peakDetector, targetLevel } ∧
      Distribution { s with iatVector, iatFactor } ∧ LowPeaks peakDetector ∧ 256 ≤ targetLevel ∧
        targetLevel ≤ 16384 := by
  have hindex : toSize iat < 65 := by
    unfold toSize
    omega
  obtain ⟨iatVector, iatFactor, hupdate, hdist⟩ := updateHistogram_eq h hindex
  obtain ⟨s', htarget, -⟩ := calculateTargetLevel_same hdist iat
  obtain ⟨baseTargetLevel, peakDetector, targetLevel, rfl, hrest⟩ :=
    calculateTargetLevel_rest hdist.size hpeaks h1 htarget
  refine ⟨iatVector, iatFactor, baseTargetLevel, peakDetector, targetLevel, ?_, hdist, hrest⟩
  rw [histogramUpdate, hupdate, Option.bind_some, htarget]

theorem limitTargetLevel_rest (s : DelayManager) :
    ∃ leastRequiredDelayMs targetLevel, s.limitTargetLevel = { s with leastRequiredDelayMs, targetLevel } := by
  unfold limitTargetLevel
  dsimp only
  split <;> split <;> exact ⟨_, _, rfl⟩

end Parts

/-! ## Without overflow -/

/-- What the sums are, between two packets that are less than an hour apart. -/
structure Bounded (s : DelayManager) : Prop extends Counting s where
  hour : s.firstPacketReceived = true → 0 ≤ s.packetIatCountMs ∧ s.packetIatCountMs < 3600000
  sum : 0 ≤ s.iatCumulativeSum ∧ s.iatCumulativeSum ≤ 2147483647
  maxSum : -2 ≤ s.maxIatCumulativeSum ∧ s.maxIatCumulativeSum ≤ 2147483647
  length : 0 ≤ s.packetLenMs
  peaks : LowPeaks s.peakDetector

section Conditions
variable (s : DelayManager) (sequenceNumber : UInt16)

/-- The timestamps go up by at most 2147483 for each packet. -/
def ShortPackets (timestamp : UInt32) : Prop :=
  isNewerTimestamp timestamp s.lastTimestamp = true → isNewerSequenceNumber sequenceNumber s.lastSeqNo = true →
    (timestamp - s.lastTimestamp).toNat / (sequenceNumber - s.lastSeqNo).toNat ≤ 2147483

/-- The cumulative sum, before the drift is subtracted. -/
def nextSum (packetLenMs : Int) : Int :=
  s.iatCumulativeSum + (s.packetIatCountMs * 256 / packetLenMs - (sequenceNumber.toNat - s.lastSeqNo.toNat : Int) * 256)

/-- The largest cumulative sum, with a drift of 2. -/
def nextMaxSum (packetLenMs : Int) : Int :=
  if max (s.nextSum sequenceNumber packetLenMs - 2) 0 > s.maxIatCumulativeSum then
    max (s.nextSum sequenceNumber packetLenMs - 2) 0
  else if s.maxTimerMs > 600000 then s.maxIatCumulativeSum - 2
  else s.maxIatCumulativeSum

/-- The target level of the histogram with one more packet. -/
def histogramLevel (iat : Int) : Option Int := (s.histogramUpdate iat).map DelayManager.targetLevel

/-- The delay of the target level has 31 bits. -/
def ShortDelay (packetLenMs : Int) : Prop :=
  ∀ targetLevel, s.histogramLevel (s.iatPackets sequenceNumber packetLenMs) = some targetLevel →
    (if s.streamingMode then max targetLevel (s.nextMaxSum sequenceNumber packetLenMs)
      else targetLevel) * s.packetLenMs ≤
      2147483647

structure StatisticsFit (packetLenMs : Int) : Prop where
  sum : s.streamingMode = true → s.nextSum sequenceNumber packetLenMs ≤ 2147483647
  delay : s.ShortDelay sequenceNumber packetLenMs
  limits : 0 < s.packetLenMs → s.minimumDelayMs ≤ 8388607 ∧ s.maximumDelayMs ≤ 8388607

structure UpdateFits (timestamp : UInt32) (sampleRateHz : Int) : Prop where
  short : s.ShortPackets sequenceNumber timestamp
  statistics : 0 < s.packetLen sequenceNumber timestamp sampleRateHz →
    s.StatisticsFit sequenceNumber (s.packetLen sequenceNumber timestamp sampleRateHz)

/-- The mean of the histogram in Q24. -/
def weightedMean : List Int → Nat → Int
  | [], _ => 0
  | v :: l, i => v / 64 * i + weightedMean l (i + 1)

end Conditions

section Exact
variable {s s' : DelayManager}

theorem checked32_none {x : Int} (h : ¬ (-2147483648 ≤ x ∧ x ≤ 2147483647)) : checked32 x = none := if_neg h

theorem checkedPacketLen_eq {sequenceNumber : UInt16} {timestamp : UInt32} (h : s.ShortPackets sequenceNumber timestamp)
    (sampleRateHz : Int) : s.checkedPacketLen sequenceNumber timestamp sampleRateHz =
      some (s.packetLen sequenceNumber timestamp sampleRateHz) := by
  unfold checkedPacketLen packetLen
  split
  · rfl
  · rename_i hordered
    rw [not_or, not_not, not_not] at hordered
    have hshort := h hordered.1 hordered.2
    dsimp only
    generalize (timestamp - s.lastTimestamp).toNat / (sequenceNumber - s.lastSeqNo).toNat = packetLenSamp at hshort ⊢
    rw [i32_id (by omega) (by omega), checked32_eq (by omega) (by omega), i32_id (by omega) (by omega)]
    rfl

theorem checkedPacketLen_none {sequenceNumber : UInt16} {timestamp : UInt32}
    (h : ¬ s.ShortPackets sequenceNumber timestamp) (sampleRateHz : Int) :
    s.checkedPacketLen sequenceNumber timestamp sampleRateHz = none := by
  unfold ShortPackets at h
  simp only [Classical.not_imp] at h
  obtain ⟨hts, hseq, hlong⟩ := h
  have hhalf := ((isNewerTimestamp_iff _ _).1 hts)
  have hle := Nat.div_le_self (timestamp - s.lastTimestamp).toNat (sequenceNumber - s.lastSeqNo).toNat
  have hlt := (timestamp - s.lastTimestamp).toNat_lt
  unfold checkedPacketLen
  rw [if_neg (by simp [hts, hseq])]
  dsimp only
  rw [checked32_none]
  · rfl
  · unfold i32
    omega

theorem checkedIatPackets_eq (hcount : 0 ≤ s.packetIatCountMs ∧ s.packetIatCountMs < 3600000) {packetLenMs : Int}
    (hlen : 0 < packetLenMs) (sequenceNumber : UInt16) :
    s.checkedIatPackets sequenceNumber packetLenMs = some (s.iatPackets sequenceNumber packetLenMs) := by
  have hquot : 0 ≤ s.packetIatCountMs / packetLenMs := Int.ediv_nonneg hcount.1 (Int.le_of_lt hlen)
  have hle : s.packetIatCountMs / packetLenMs ≤ s.packetIatCountMs := Int.ediv_le_self packetLenMs hcount.1
  have hahead := (sequenceNumber - s.lastSeqNo - 1).toNat_lt
  have hbehind := (s.lastSeqNo + 1 - sequenceNumber).toNat_lt
  unfold checkedIatPackets iatPackets
  rw [Int.tdiv_eq_ediv_of_nonneg hcount.1]
  dsimp only
  split
  · rw [checked32_eq (by omega) (by omega), i32_id (by omega) (by omega)]
    rfl
  · split
    · rw [checked32_eq (by omega) (by omega), i32_id (by omega) (by omega)]
      rfl
    · rfl

theorem quotient_range (h : s.Bounded) (hfirst : s.firstPacketReceived = true) {packetLenMs : Int}
    (hlen : 0 < packetLenMs) :
    0 ≤ s.packetIatCountMs * 256 / packetLenMs ∧ s.packetIatCountMs * 256 / packetLenMs < 921600000 := by
  obtain ⟨hlo, hhi⟩ := h.hour hfirst
  have hquot : 0 ≤ s.packetIatCountMs * 256 / packetLenMs := Int.ediv_nonneg (by omega) (Int.le_of_lt hlen)
  have hle : s.packetIatCountMs * 256 / packetLenMs ≤ s.packetIatCountMs * 256 :=
    Int.ediv_le_self packetLenMs (by omega)
  omega

/-- The sums that are computed with 32 bits are those of `nextSum` and `nextMaxSum`. -/
theorem checkedCumulativeSums_eq (h : s.Bounded) (hfirst : s.firstPacketReceived = true) {packetLenMs : Int}
    (hlen : 0 < packetLenMs) {sequenceNumber : UInt16} (hsum : s.nextSum sequenceNumber packetLenMs ≤ 2147483647) :
    s.checkedCumulativeSums packetLenMs sequenceNumber = some (s.updateCumulativeSums packetLenMs sequenceNumber) ∧
      ∃ maxTimerMs, s.updateCumulativeSums packetLenMs sequenceNumber = { s with
        iatCumulativeSum := max (s.nextSum sequenceNumber packetLenMs - 2) 0
        maxIatCumulativeSum := s.nextMaxSum sequenceNumber packetLenMs
        maxTimerMs } := by
  obtain ⟨hhour0, hhour1⟩ := h.hour hfirst
  obtain ⟨hquot0, hquot1⟩ := quotient_range h hfirst hlen
  obtain ⟨hsum0, hsum1⟩ := h.sum
  obtain ⟨hmax0, hmax1⟩ := h.maxSum
  have hnew := sequenceNumber.toNat_lt
  have hlast := s.lastSeqNo.toNat_lt
  unfold nextSum at hsum
  unfold checkedCumulativeSums updateCumulativeSums nextMaxSum nextSum
  rw [i32_id (x := s.packetIatCountMs * 256) (by omega) (by omega), checked32_eq (by omega) (by omega)]
  simp only [Option.bind_eq_bind, Option.bind_some]
  rw [Int.tdiv_eq_ediv_of_nonneg (by omega)]
  generalize s.packetIatCountMs * 256 / packetLenMs = quotient at hsum hquot0 hquot1 ⊢
  rw [checked32_eq (by omega) (by omega), Option.bind_some, checked32_eq (by omega) (by omega), Option.bind_some,
    checked32_eq (by omega) (by omega), Option.bind_some, checked32_eq (by omega) (by omega), Option.bind_some,
    i32_id (x := (sequenceNumber.toNat - s.lastSeqNo.toNat : Int) * 256) (by omega) (by omega),
    i32_id (x := quotient - _) (by omega) (by omega), i32_id (x := s.iatCumulativeSum + _) (by omega) (by omega),
    i32_id (x := _ - 2) (by omega) (by omega)]
  generalize max (s.iatCumulativeSum + (quotient - (sequenceNumber.toNat - s.lastSeqNo.toNat : Int) * 256) - 2) 0 = sum
  by_cases hlarger : sum > s.maxIatCumulativeSum
  · simp only [hlarger, if_true, show ¬ (0 : Int) > 600000 by decide, if_false]
    exact ⟨rfl, _, rfl⟩
  · by_cases htimer : s.maxTimerMs > 600000
    · simp only [hlarger, htimer, if_true, if_false]
      rw [checked32_eq (by omega) (by omega), i32_id (by omega) (by omega)]
      exact ⟨rfl, _, rfl⟩
    · simp only [hlarger, htimer, if_false]
      exact ⟨rfl, _, rfl⟩

/-- Nothing but the sum itself can be too large. -/
theorem checkedCumulativeSums_none (h : s.Bounded) (hfirst : s.firstPacketReceived = true) {packetLenMs : Int}
    (hlen : 0 < packetLenMs) {sequenceNumber : UInt16} (hsum : ¬ s.nextSum sequenceNumber packetLenMs ≤ 2147483647) :
    s.checkedCumulativeSums packetLenMs sequenceNumber = none := by
  obtain ⟨hhour0, hhour1⟩ := h.hour hfirst
  obtain ⟨hquot0, hquot1⟩ := quotient_range h hfirst hlen
  obtain ⟨hsum0, hsum1⟩ := h.sum
  have hnew := sequenceNumber.toNat_lt
  have hlast := s.lastSeqNo.toNat_lt
  unfold nextSum at hsum
  unfold checkedCumulativeSums
  rw [checked32_eq (by omega) (by omega)]
  simp only [Option.bind_eq_bind, Option.bind_some]
  rw [Int.tdiv_eq_ediv_of_nonneg (by omega)]
  generalize s.packetIatCountMs * 256 / packetLenMs = quotient at hsum hquot0 hquot1 ⊢
  rw [checked32_eq (by omega) (by omega), Option.bind_some, checked32_eq (by omega) (by omega), Option.bind_some,
    checked32_none (by omega), Option.bind_none]

/-- A limit in packets, when there is one. -/
theorem checkedPackets_eq {p : Prop} [Decidable p] {delayMs : Int} (h : p → 0 < delayMs ∧ delayMs ≤ 8388607)
    (f : Int → Int) (level : Int) : (if p then (checked32 (delayMs * 256)).map f else some level) =
      some (if p then f (i32 (delayMs * 256)) else level) := by
  by_cases hp : p
  · obtain ⟨hlo, hhi⟩ := h hp
    rw [if_pos hp, if_pos hp, checked32_eq (by omega) (by omega), i32_id (by omega) (by omega), Option.map_some]
  · rw [if_neg hp, if_neg hp]

/-- What `LimitTargetLevel` multiplies fits. -/
theorem checkedLimit_eq (hdelay : s.targetLevel * s.packetLenMs ≤ 2147483647) (hlevel : 0 ≤ s.targetLevel)
    (hlen : 0 ≤ s.packetLenMs) (hlimits : 0 < s.packetLenMs → s.minimumDelayMs ≤ 8388607 ∧ s.maximumDelayMs ≤ 8388607) :
    s.checkedLimit = some s.limitTargetLevel := by
  have hproduct : 0 ≤ s.targetLevel * s.packetLenMs := Int.mul_nonneg hlevel hlen
  unfold checkedLimit limitTargetLevel
  rw [checked32_eq (by omega) hdelay, i32_id (by omega) hdelay]
  simp only [Option.bind_eq_bind, Option.bind_some]
  rw [checkedPackets_eq fun hmin => ⟨hmin.2, (hlimits hmin.1).1⟩, Option.bind_some,
    checkedPackets_eq fun hmax => ⟨hmax.1, (hlimits hmax.2).2⟩, Option.bind_some]
  split <;> split <;> rfl

theorem checkedLimit_none (hnot : ¬ (s.targetLevel * s.packetLenMs ≤ 2147483647 ∧
    (0 < s.packetLenMs → s.minimumDelayMs ≤ 8388607 ∧ s.maximumDelayMs ≤ 8388607))) : s.checkedLimit = none := by
  unfold checkedLimit
  by_cases hdelay : -2147483648 ≤ s.targetLevel * s.packetLenMs ∧ s.targetLevel * s.packetLenMs ≤ 2147483647
  · rw [not_and, Classical.not_imp, not_and_or] at hnot
    obtain ⟨hlen, hlimit⟩ := hnot hdelay.2
    rw [checked32_eq hdelay.1 hdelay.2]
    simp only [Option.bind_eq_bind, Option.bind_some]
    by_cases hmin : s.minimumDelayMs ≤ 8388607
    · have hmax : ¬ s.maximumDelayMs ≤ 8388607 := hlimit.resolve_left (not_not.2 hmin)
      rw [checkedPackets_eq fun hpos => ⟨hpos.2, hmin⟩, Option.bind_some, if_pos ⟨by omega, hlen⟩,
        checked32_none (by omega)]
      rfl
    · rw [if_pos ⟨hlen, by omega⟩, checked32_none (by omega)]
      rfl
  · rw [checked32_none hdelay]
    rfl

/-! ### The statistics -/

/-- The cumulative sum, in streaming mode. -/
def raised (s : DelayManager) : DelayManager :=
  if s.streamingMode then { s with targetLevel := max s.targetLevel s.maxIatCumulativeSum } else s

theorem checkedStatistics_parts (sequenceNumber : UInt16) (packetLenMs : Int) :
    s.checkedStatistics sequenceNumber packetLenMs = (s.checkedIatPackets sequenceNumber packetLenMs).bind fun iat =>
      (if s.streamingMode then s.checkedCumulativeSums packetLenMs sequenceNumber else some s).bind fun s =>
        (s.histogramUpdate iat).bind fun s => s.raised.checkedLimit := by
  unfold checkedStatistics histogramUpdate raised
  split <;> simp only [Option.bind_eq_bind, Option.bind_assoc, Option.bind_some]

theorem updateStatistics_parts (sequenceNumber : UInt16) (packetLenMs : Int) :
    s.updateStatistics sequenceNumber packetLenMs =
      ((if s.streamingMode then s.updateCumulativeSums packetLenMs sequenceNumber else s).histogramUpdate
        (s.iatPackets sequenceNumber packetLenMs)).map fun s => s.raised.limitTargetLevel := by
  unfold updateStatistics histogramUpdate raised
  simp only [Option.bind_eq_bind, Option.pure_def, Option.map_eq_bind, Option.bind_assoc]
  rfl

/-- What the target level is when it is limited. -/
def LevelFits (s : DelayManager) (iat : Int) : Prop :=
  (∀ targetLevel, s.histogramLevel iat = some targetLevel →
    (if s.streamingMode then max targetLevel s.maxIatCumulativeSum else targetLevel) * s.packetLenMs ≤ 2147483647) ∧
  (0 < s.packetLenMs → s.minimumDelayMs ≤ 8388607 ∧ s.maximumDelayMs ≤ 8388607)

theorem limited_eq (h : s.Bounded) {iat : Int} (h0 : 0 ≤ iat) (h1 : iat ≤ 64) :
    (s.LevelFits iat → ∃ s', ((s.histogramUpdate iat).bind fun s => s.raised.checkedLimit) = some s' ∧
      ((s.histogramUpdate iat).map fun s => s.raised.limitTargetLevel) = some s' ∧ s'.Bounded) ∧
    (¬ s.LevelFits iat → ((s.histogramUpdate iat).bind fun s => s.raised.checkedLimit) = none) := by
  obtain ⟨iatVector, iatFactor, baseTargetLevel, peakDetector, targetLevel, hupdate, hdist, hlow, htarget0, htarget1⟩ :=
    histogramUpdate_eq h.toDistribution h.peaks h0 h1
  have hlevel : s.histogramLevel iat = some targetLevel := by rw [histogramLevel, hupdate, Option.map_some]
  unfold LevelFits
  rw [hupdate, Option.bind_some, Option.map_some, hlevel]
  simp only [Option.some.injEq, forall_eq']
  have hstate : Bounded (raised { s with iatVector, iatFactor, baseTargetLevel, peakDetector, targetLevel }) := by
    unfold raised
    split <;> exact { hdist with
      hour := h.hour, sum := h.sum, maxSum := h.maxSum, length := h.length, peaks := hlow, counter := h.counter }
  obtain ⟨hraised, hlength, hminimum, hmaximum⟩ :
      (raised { s with iatVector, iatFactor, baseTargetLevel, peakDetector, targetLevel }).targetLevel =
          (if s.streamingMode then max targetLevel s.maxIatCumulativeSum else targetLevel) ∧
        (raised { s with iatVector, iatFactor, baseTargetLevel, peakDetector, targetLevel }).packetLenMs =
          s.packetLenMs ∧
        (raised { s with iatVector, iatFactor, baseTargetLevel, peakDetector, targetLevel }).minimumDelayMs =
          s.minimumDelayMs ∧
        (raised { s with iatVector, iatFactor, baseTargetLevel, peakDetector, targetLevel }).maximumDelayMs =
          s.maximumDelayMs := by
    unfold raised
    dsimp only
    split <;> exact ⟨rfl, rfl, rfl, rfl⟩
  have hpos : 0 ≤ if s.streamingMode then max targetLevel s.maxIatCumulativeSum else targetLevel := by
    split <;> omega
  generalize raised { s with iatVector, iatFactor, baseTargetLevel, peakDetector, targetLevel } = u at *
  rw [← hraised, ← hlength, ← hminimum, ← hmaximum]
  refine ⟨?_, checkedLimit_none⟩
  rintro ⟨hdelay, hlimits⟩
  obtain ⟨leastRequiredDelayMs, targetLevel, hlimited⟩ := limitTargetLevel_rest u
  refine ⟨u.limitTargetLevel, checkedLimit_eq hdelay (hraised ▸ hpos) (hlength ▸ h.length) hlimits, rfl, ?_⟩
  rw [hlimited]
  exact { hstate with }

theorem histogramLevel_frame {t : DelayManager} (hvector : t.iatVector = s.iatVector)
    (hfactor : t.iatFactor = s.iatFactor)
    (hmode : t.streamingMode = s.streamingMode) (hpeaks : t.peakDetector = s.peakDetector) (iat : Int) :
    t.histogramLevel iat = s.histogramLevel iat := by
  rw [histogramLevel, histogramUpdate_frame hvector hfactor hmode hpeaks, Option.map_map]
  rfl

theorem iatPackets_range (h : s.Bounded) (hfirst : s.firstPacketReceived = true) {packetLenMs : Int}
    (hlen : 0 < packetLenMs)
    (sequenceNumber : UInt16) :
    0 ≤ s.iatPackets sequenceNumber packetLenMs ∧ s.iatPackets sequenceNumber packetLenMs ≤ 64 := by
  obtain ⟨hhour0, hhour1⟩ := h.hour hfirst
  refine ⟨(iatPackets_nonneg_iff h.toCounting hlen sequenceNumber).2 (Or.inr ?_), Int.min_le_right _ _⟩
  obtain ⟨hlate0, hlate1⟩ := s.late_range sequenceNumber
  have hpos : 0 < packetLenMs * (s.late sequenceNumber + 1) := Int.mul_pos hlen (by omega)
  have hle : 1 * (2147483648 - s.late sequenceNumber) ≤ packetLenMs * (2147483648 - s.late sequenceNumber) :=
    Int.mul_le_mul_of_nonneg_right hlen (by omega)
  omega

/-- **The statistics are updated without overflow** when the sum, the delay and the limits fit, and not otherwise. -/
theorem checkedStatistics_eq (h : s.Bounded) (hfirst : s.firstPacketReceived = true) {packetLenMs : Int}
    (hlen : 0 < packetLenMs)
    (sequenceNumber : UInt16) :
    (s.StatisticsFit sequenceNumber packetLenMs → ∃ s', s.checkedStatistics sequenceNumber packetLenMs = some s' ∧
      s.updateStatistics sequenceNumber packetLenMs = some s' ∧ s'.Bounded) ∧
    (¬ s.StatisticsFit sequenceNumber packetLenMs → s.checkedStatistics sequenceNumber packetLenMs = none) := by
  obtain ⟨hiat0, hiat1⟩ := iatPackets_range h hfirst hlen sequenceNumber
  rw [checkedStatistics_parts, updateStatistics_parts, checkedIatPackets_eq (h.hour hfirst) hlen, Option.bind_some]
  by_cases hmode : s.streamingMode = true
  · rw [if_pos hmode, if_pos hmode]
    by_cases hsum : s.nextSum sequenceNumber packetLenMs ≤ 2147483647
    · obtain ⟨hsums, maxTimerMs, hshape⟩ := checkedCumulativeSums_eq h hfirst hlen hsum
      have hnext : Bounded (s.updateCumulativeSums packetLenMs sequenceNumber) := by
        obtain ⟨hmax0, hmax1⟩ := h.maxSum
        rw [hshape]
        refine { h with sum := ?_, maxSum := ?_ }
        · dsimp only
          omega
        · dsimp only [nextMaxSum]
          split <;> try split
          all_goals omega
      rw [hsums, Option.bind_some]
      obtain ⟨hfits, hnot⟩ := limited_eq hnext hiat0 hiat1
      have hiff : (s.updateCumulativeSums packetLenMs sequenceNumber).LevelFits
        (s.iatPackets sequenceNumber packetLenMs) ↔
          s.StatisticsFit sequenceNumber packetLenMs := by
        have hframe : histogramLevel (s.updateCumulativeSums packetLenMs sequenceNumber)
            (s.iatPackets sequenceNumber packetLenMs) = s.histogramLevel (s.iatPackets sequenceNumber packetLenMs) := by
          apply histogramLevel_frame <;> rw [hshape]
        unfold LevelFits
        rw [hframe, hshape]
        exact ⟨fun ⟨hdelay, hlimits⟩ => ⟨fun _ => hsum, hdelay, hlimits⟩, fun hfit => ⟨hfit.delay, hfit.limits⟩⟩
      rw [← hiff]
      exact ⟨hfits, hnot⟩
    · rw [checkedCumulativeSums_none h hfirst hlen hsum]
      exact ⟨fun hfit => absurd (hfit.sum hmode) hsum, fun _ => rfl⟩
  · rw [if_neg hmode, if_neg hmode, Option.bind_some]
    obtain ⟨hfits, hnot⟩ := limited_eq h hiat0 hiat1
    have hiff : s.LevelFits (s.iatPackets sequenceNumber packetLenMs) ↔ s.StatisticsFit sequenceNumber packetLenMs := by
      have hsame : s.LevelFits (s.iatPackets sequenceNumber packetLenMs) ↔ s.ShortDelay sequenceNumber packetLenMs ∧
          (0 < s.packetLenMs → s.minimumDelayMs ≤ 8388607 ∧ s.maximumDelayMs ≤ 8388607) := by
        simp [LevelFits, ShortDelay, hmode]
      rw [hsame]
      exact ⟨fun ⟨hdelay, hlimits⟩ => ⟨fun hm => absurd hm hmode, hdelay,
        hlimits⟩, fun hfit => ⟨hfit.delay, hfit.limits⟩⟩
    rw [← hiff]
    exact ⟨hfits, hnot⟩

/-! ### The calls -/

theorem Bounded.arrived (h : s.Bounded) (firstPacketReceived : Bool) (lastSeqNo : UInt16) (lastTimestamp : UInt32) :
    Bounded { s with packetIatCountMs := 0, lastSeqNo, lastTimestamp, firstPacketReceived } :=
  { h with counter := counter_zero, hour := fun _ => show (0 : Int) ≤ 0 ∧ (0 : Int) < 3600000 by decide }

/-- **`Update` does not overflow** when the parts of it fit. -/
theorem checkedUpdate_eq (h : s.Bounded) (sequenceNumber : UInt16) (timestamp : UInt32) (sampleRateHz : Int) :
    ((0 < sampleRateHz → s.firstPacketReceived = true → s.UpdateFits sequenceNumber timestamp sampleRateHz) →
      ∃ r s', s.checkedUpdate sequenceNumber timestamp sampleRateHz = some (r, s') ∧
        s.update sequenceNumber timestamp sampleRateHz = some (r, s') ∧ s'.Bounded) ∧
    (¬ (0 < sampleRateHz → s.firstPacketReceived = true → s.UpdateFits sequenceNumber timestamp sampleRateHz) →
      s.checkedUpdate sequenceNumber timestamp sampleRateHz = none) := by
  unfold checkedUpdate update
  by_cases hrate : sampleRateHz ≤ 0
  · rw [if_pos hrate, if_pos hrate]
    exact ⟨fun _ => ⟨_, _, rfl, rfl, h⟩, fun hnot => absurd (fun hpos => absurd hrate (Int.not_le.2 hpos)) hnot⟩
  · rw [if_neg hrate, if_neg hrate]
    by_cases hfirst : s.firstPacketReceived = true
    · rw [if_neg (by simp [hfirst]), if_neg (by simp [hfirst])]
      simp only [Int.not_le.1 hrate, hfirst, forall_const]
      by_cases hshort : s.ShortPackets sequenceNumber timestamp
      · rw [checkedPacketLen_eq hshort]
        simp only [Option.bind_eq_bind, Option.bind_some]
        by_cases hlen : s.packetLen sequenceNumber timestamp sampleRateHz > 0
        · have hiff : s.UpdateFits sequenceNumber timestamp sampleRateHz ↔
              s.StatisticsFit sequenceNumber (s.packetLen sequenceNumber timestamp sampleRateHz) :=
            ⟨fun hfits => hfits.statistics hlen, fun hfit => ⟨hshort, fun _ => hfit⟩⟩
          obtain ⟨hfits, hnot⟩ := checkedStatistics_eq h hfirst hlen sequenceNumber
          rw [if_pos hlen, if_pos hlen, hiff]
          constructor
          · intro hfit
            obtain ⟨s', hchecked, hupdated, hbounded⟩ := hfits hfit
            rw [hchecked, hupdated]
            exact ⟨_, _, rfl, rfl, hbounded.arrived s'.firstPacketReceived sequenceNumber timestamp⟩
          · intro hnofit
            rw [hnot hnofit, Option.bind_none]
        · rw [if_neg hlen, if_neg hlen]
          exact ⟨fun _ => ⟨_, _, rfl, rfl, h.arrived s.firstPacketReceived sequenceNumber timestamp⟩,
            fun hnot => absurd ⟨hshort, fun hpos => absurd hpos hlen⟩ hnot⟩
      · rw [checkedPacketLen_none hshort]
        exact ⟨fun hfits => absurd hfits.short hshort, fun _ => rfl⟩
    · rw [if_pos (by simp [hfirst]), if_pos (by simp [hfirst])]
      exact ⟨fun _ => ⟨_, _, rfl, rfl, h.arrived true sequenceNumber timestamp⟩,
        fun hnot => absurd (fun _ hreceived => absurd hreceived hfirst) hnot⟩

/-- The sum of the loop is the mean, and no more than the whole histogram. -/
theorem checkedWeightedSum_eq (l : List Int) (hl : ∀ v ∈ l, 0 ≤ v) {i : Nat} (hi : i + l.length ≤ 65) {sum : Int}
    (hsum : 0 ≤ sum) (hfit : sum + l.sum ≤ 2147483647) :
    checkedWeightedSum l i sum = some (sum + weightedMean l i) ∧ weightedSum l i sum = sum + weightedMean l i ∧
      0 ≤ weightedMean l i ∧ weightedMean l i ≤ l.sum := by
  induction l generalizing i sum with
  | nil => simp [checkedWeightedSum, weightedSum, weightedMean]
  | cons v l ih =>
    obtain ⟨hv, hrest⟩ := List.forall_mem_cons.1 hl
    rw [List.length_cons] at hi
    rw [List.sum_cons] at hfit ⊢
    have hnonneg : 0 ≤ l.sum := List.sum_nonneg hrest
    have hlo : 0 ≤ v / 64 * i := Int.mul_nonneg (by omega) (Int.natCast_nonneg i)
    have hhi : v / 64 * i ≤ v / 64 * 64 := Int.mul_le_mul_of_nonneg_left (by omega) (by omega)
    have hsum' : 0 ≤ sum + v / 64 * i := by omega
    have hfit' : sum + v / 64 * i + l.sum ≤ 2147483647 := by omega
    obtain ⟨hchecked, hsame, hmean0, hmean1⟩ := ih hrest (i := i + 1) (by omega) hsum' hfit'
    rw [checkedWeightedSum, weightedSum, weightedMean]
    refine ⟨?_, ?_, by omega, by omega⟩
    · rw [checked32_eq (by omega) (by omega)]
      simp only [Option.bind_eq_bind, Option.bind_some]
      rw [checked32_eq (by omega) (by omega), Option.bind_some, hchecked, Int.add_assoc]
    · rw [i32_id (x := v / 64 * i) (by omega) (by omega), i32_id (by omega) (by omega), hsame, Int.add_assoc]

/-- **`AverageIAT` overflows** when the mean is more than 2.04 packets. -/
theorem checkedAverageIat_eq (h : s.Distribution) :
    (weightedMean s.iatVector 0 ≤ 34369407 → s.checkedAverageIat = some s.averageIat) ∧
    (¬ weightedMean s.iatVector 0 ≤ 34369407 → s.checkedAverageIat = none) := by
  obtain ⟨hchecked, hsame, hmean0, hmean1⟩ :=
    checkedWeightedSum_eq s.iatVector h.nonneg (i := 0) (by rw [h.size]) (Int.le_refl 0)
    (by rw [h.total]; decide)
  rw [h.total] at hmean1
  unfold checkedAverageIat averageIat
  rw [hchecked, hsame]
  generalize weightedMean s.iatVector 0 = mean at hmean0 hmean1 ⊢
  simp only [Option.bind_eq_bind, Option.bind_some, Int.zero_add]
  rw [checked32_eq (by omega) (by omega), Option.bind_some, i32_id (x := mean - _) (by omega) (by omega)]
  constructor
  · intro hmean
    rw [checked32_eq (by omega) (by omega), i32_id (by omega) (by omega), Option.bind_some]
  · intro hmean
    rw [checked32_none (by omega), Option.bind_none]

end Exact

end WebRtc.NetEq.DelayManager
