import WebRtc.Lib.Machine
import WebRtc.Lib.Quotients
import WebRtc.NetEq.DelayManager

/-!
# The histogram is a distribution

Rounding down loses less than one for each of the 65 elements, and a sixteenth of all of them is far more than
that: the repair always reaches the sum (`updateHistogram_eq`). What can go wrong is the index, when the
time that has been counted is negative (`distribution_always_iff`).
-/

namespace WebRtc.NetEq.DelayManager

open CInt Quotients

/-- The elements add up to 1 in Q30. -/
structure Distribution (s : DelayManager) : Prop where
  size : s.iatVector.length = 65
  nonneg : ∀ v ∈ s.iatVector, 0 ≤ v
  total : s.iatVector.sum = 1073741824
  factor : 0 ≤ s.iatFactor ∧ s.iatFactor ≤ kIatFactor

/-! ## One update -/

section Update
variable {f : Int}

theorem scaled_bounds {v : Int} (hv : 0 ≤ v) (hf0 : 0 ≤ f) (hf1 : f ≤ 32768) :
    0 ≤ v * f / 32768 ∧ v * f / 32768 ≤ v := by
  have hpos : 0 ≤ v * f := Int.mul_nonneg hv hf0
  have hle : v * f ≤ v * 32768 := Int.mul_le_mul_of_nonneg_left hf1 hv
  omega

theorem scale_eq (hf0 : 0 ≤ f) (hf1 : f ≤ 32768) (l : List Int) (hl : ∀ v ∈ l, 0 ≤ v) {sum : Int} (h0 : 0 ≤ sum)
    (h1 : sum + l.sum ≤ 1073741824) :
    scale f l sum = some (quotients 32768 (l.map (· * f)), sum + (quotients 32768 (l.map (· * f))).sum) := by
  induction l generalizing sum with
  | nil => simp [scale]
  | cons v l ih =>
    have hv := hl v List.mem_cons_self
    have hrest : ∀ v ∈ l, 0 ≤ v := fun w hw => hl w (List.mem_cons_of_mem v hw)
    have hsum : 0 ≤ l.sum := List.sum_nonneg hrest
    obtain ⟨hlo, hhi⟩ := scaled_bounds hv hf0 hf1
    rw [List.sum_cons] at h1
    have hrec : scale f l (sum + v * f / 32768) = _ := ih hrest (by omega) (by omega)
    rw [scale, checked32_eq (by omega) (by omega)]
    simp only [Option.bind_eq_bind, Option.bind_some]
    rw [checked32_eq (by omega) (by omega), Option.bind_some, hrec, Option.bind_some]
    simp only [List.map_cons, quotients_cons, List.sum_cons, Int.add_assoc]
    rfl

theorem quotient_sum_nonneg {l : List Int} (hl : ∀ v ∈ l, 0 ≤ v) : 0 ≤ (quotients 16 l).sum :=
  List.sum_nonneg (quotients_nonneg (by decide) hl)

/-- What is missing is added where it fits. -/
theorem repair_eq (l : List Int) (hl : ∀ v ∈ l, 0 ≤ v) (hsum : l.sum ≤ 1073741824) {d : Int}
    (h0 : 0 ≤ d) (h1 : d ≤ 64) :
    ∃ l', repair 1 l (-d) = some (l', -(d - min d (quotients 16 l).sum)) ∧ l'.length = l.length ∧ (∀ v ∈ l', 0 ≤ v) ∧
      l'.sum = l.sum + min d (quotients 16 l).sum := by
  induction l generalizing d with
  | nil =>
    refine ⟨[], ?_, rfl, hl, ?_⟩
    · simp [repair, Int.min_eq_right h0]
    · simp [Int.min_eq_right h0]
  | cons v l ih =>
    have hv := hl v List.mem_cons_self
    have hrest : ∀ v ∈ l, 0 ≤ v := fun w hw => hl w (List.mem_cons_of_mem v hw)
    have hnonneg : 0 ≤ l.sum := List.sum_nonneg hrest
    have hquot := quotient_sum_nonneg hrest
    rw [List.sum_cons] at hsum
    rw [repair]
    by_cases hd : 0 < (-d).natAbs
    · have habs : ((-d).natAbs : Int) = d := by omega
      obtain ⟨l', hrec, hlen, hpos, htotal⟩ := ih hrest (by omega) (d := d - min d (v / 16)) (by omega) (by omega)
      have hneg : -d + min d (v / 16) = -(d - min d (v / 16)) := by omega
      refine ⟨(v + min d (v / 16)) :: l', ?_, by rw [List.length_cons, List.length_cons, hlen], ?_, ?_⟩
      · rw [if_pos hd, habs, checked32_eq (by omega) (by omega)]
        simp only [Option.bind_eq_bind, Option.bind_some, Int.one_mul]
        rw [checked32_eq (by omega) (by omega), Option.bind_some, checked32_eq (by omega) (by omega), Option.bind_some,
          checked32_eq (by omega) (by omega), Option.bind_some, hneg, hrec, Option.bind_some]
        simp only [quotients_cons, List.sum_cons, Option.pure_def, Option.some.injEq, Prod.mk.injEq, true_and]
        omega
      · intro w hw
        rcases List.mem_cons.1 hw with rfl | hw
        · omega
        · exact hpos w hw
      · rw [List.sum_cons, htotal, List.sum_cons, quotients_cons, List.sum_cons]
        omega
    · have hzero : d = 0 := by omega
      subst hzero
      have hmin : min 0 (quotients 16 (v :: l)).sum = 0 := Int.min_eq_left (quotient_sum_nonneg hl)
      refine ⟨v :: l, ?_, rfl, hl, ?_⟩
      · rw [if_neg hd, hmin]
        rfl
      · rw [hmin, Int.add_zero]

end Update

variable {s : DelayManager}

/-- The vector after the multiplication, and what rounding has lost. -/
theorem scaled_total (h : s.Distribution) :
    (quotients 32768 (s.iatVector.map (· * s.iatFactor))).sum ≤ 32768 * s.iatFactor ∧
      32768 * s.iatFactor ≤ (quotients 32768 (s.iatVector.map (· * s.iatFactor))).sum + 64 := by
  have hmul : (s.iatVector.map (· * s.iatFactor)).sum = 1073741824 * s.iatFactor := by
    rw [List.sum_map_mul_right, List.map_id', h.total]
  have hquot := sum_quotients (k := 32768) (by decide) (s.iatVector.map (· * s.iatFactor))
  rw [hmul, List.length_map, h.size] at hquot
  omega

/-- **The update of the histogram.** -/
theorem updateHistogram_eq (h : s.Distribution) {i : Nat} (hi : i < 65) :
    ∃ vector factor, s.updateHistogram i = some { s with iatVector := vector, iatFactor := factor } ∧
      Distribution { s with iatVector := vector, iatFactor := factor } := by
  obtain ⟨hf0, hf1⟩ := h.factor
  unfold kIatFactor at hf1
  obtain ⟨hlo, hhi⟩ := scaled_total h
  have hscale : scale s.iatFactor s.iatVector 0 = _ :=
    scale_eq hf0 (Int.le_trans hf1 (by decide)) s.iatVector h.nonneg (Int.le_refl 0) (by rw [h.total]; decide)
  have hpos : ∀ v ∈ s.iatVector.map (· * s.iatFactor), 0 ≤ v := by
    intro v hv
    obtain ⟨w, hw, rfl⟩ := List.mem_map.1 hv
    exact Int.mul_nonneg (h.nonneg w hw) hf0
  have hscaled := quotients_nonneg (k := 32768) (by decide) hpos
  have hlen : (quotients 32768 (s.iatVector.map (· * s.iatFactor))).length = 65 := by
    rw [quotients, List.length_map, List.length_map, h.size]
  generalize hq : quotients 32768 (s.iatVector.map (· * s.iatFactor)) = q at hscale hscaled hlen hlo hhi
  rw [Int.zero_add] at hscale
  have hi' : i < q.length := hlen ▸ hi
  have hget : q[i]? = some q[i] := List.getElem?_eq_getElem hi'
  have hold := hscaled q[i] (List.getElem_mem hi')
  have holdle : q[i] ≤ q.sum := List.single_le_sum hscaled _ (List.getElem_mem hi')
  have hset : (q.set i (q[i] + (32768 - s.iatFactor) * 32768)).sum = q.sum + (32768 - s.iatFactor) * 32768 :=
    sum_set_add q hi' _
  have hsetpos : ∀ v ∈ q.set i (q[i] + (32768 - s.iatFactor) * 32768), 0 ≤ v := by
    intro v hv
    rcases List.mem_or_eq_of_mem_set hv with hv | rfl
    · exact hscaled v hv
    · omega
  -- What is missing is at most 64, and there is enough to take from.
  obtain ⟨vector, hrepair, hvlen, hvpos, hvsum⟩ := repair_eq _ hsetpos (by rw [hset]; omega)
    (d := 1073741824 - (q.sum + (32768 - s.iatFactor) * 32768)) (by omega) (by omega)
  have henough := (sum_quotients (k := 16) (by decide) (q.set i (q[i] + (32768 - s.iatFactor) * 32768))).2
  rw [hset, List.length_set, hlen] at henough
  have hmin : min (1073741824 - (q.sum + (32768 - s.iatFactor) * 32768))
      (quotients 16 (q.set i (q[i] + (32768 - s.iatFactor) * 32768))).sum =
      1073741824 - (q.sum + (32768 - s.iatFactor) * 32768) := Int.min_eq_left (by omega)
  rw [hmin, Int.sub_self, Int.neg_zero] at hrepair
  rw [hmin, hset] at hvsum
  have hflip : ¬ q.sum + (32768 - s.iatFactor) * 32768 - 1073741824 > 0 := by omega
  have hneg : q.sum + (32768 - s.iatFactor) * 32768 - 1073741824 =
      -(1073741824 - (q.sum + (32768 - s.iatFactor) * 32768)) := by
    omega
  refine ⟨vector, s.iatFactor + (32745 - s.iatFactor + 3) / 4, ?_, ?_⟩
  · rw [updateHistogram, hscale]
    simp only [Option.bind_eq_bind, Option.bind_some]
    rw [checked32_eq (by omega) (by omega), Option.bind_some, checked32_eq (by omega) (by omega),
      Option.bind_some, hget,
      Option.bind_some, checked32_eq (by omega) (by omega), Option.bind_some, checked32_eq (by omega)
        (by omega), Option.bind_some,
      checked32_eq (by omega) (by omega), Option.bind_some, if_neg hflip, hneg, hrepair, Option.bind_some]
    simp only [ne_eq, not_true_eq_false, if_false, kIatFactor]
    rw [checked32_eq (by omega) (by omega), Option.bind_some, checked32_eq (by omega) (by omega), Option.bind_some,
      checked32_eq (by omega) (by omega), Option.bind_some]
    rfl
  · refine ⟨?_, hvpos, ?_, ?_⟩
    · rw [hvlen, List.length_set, hlen]
    · rw [hvsum]
      omega
    · unfold kIatFactor
      dsimp only
      omega

/-- No element is written outside of the vector. -/
theorem updateHistogram_outside (h : s.Distribution) {i : Nat} (hi : ¬ i < 65) : s.updateHistogram i = none := by
  obtain ⟨hf0, hf1⟩ := h.factor
  unfold kIatFactor at hf1
  have hscale : scale s.iatFactor s.iatVector 0 = _ :=
    scale_eq hf0 (Int.le_trans hf1 (by decide)) s.iatVector h.nonneg (Int.le_refl 0) (by rw [h.total]; decide)
  have hget : (quotients 32768 (s.iatVector.map (· * s.iatFactor)))[i]? = none := by
    rw [List.getElem?_eq_none]
    rw [quotients, List.length_map, List.length_map, h.size]
    omega
  rw [updateHistogram, hscale]
  simp only [Option.bind_eq_bind, Option.bind_some]
  rw [checked32_eq (by omega) (by omega), Option.bind_some, checked32_eq (by omega) (by omega), Option.bind_some, hget]
  rfl

/-! ## What else there is -/

/-- Only the vector, the factor and the counter matter. -/
structure Counting (s : DelayManager) : Prop extends Distribution s where
  counter : -2147483648 ≤ s.packetIatCountMs ∧ s.packetIatCountMs ≤ 2147483647

/-- A state with the same histogram. -/
structure SameHistogram (s s' : DelayManager) : Prop where
  vector : s'.iatVector = s.iatVector
  factor : s'.iatFactor = s.iatFactor

theorem Distribution.same {s' : DelayManager} (h : s.Distribution) (hs : SameHistogram s s') : s'.Distribution := by
  obtain ⟨hsize, hnonneg, htotal, hfactor⟩ := h
  constructor
  · rw [hs.vector]
    exact hsize
  · rw [hs.vector]
    exact hnonneg
  · rw [hs.vector]
    exact htotal
  · rw [hs.factor]
    exact hfactor

/-- The loop ends before the end of the vector. -/
theorem findIndex_lt {vector : List Int} {limit : Int} (fuel index : Nat) (sum : Int) (hi : index + 1 < vector.length)
    (hfuel : vector.length ≤ index + 1 + fuel) : ∃ k, findIndex vector limit fuel index sum =
    some k ∧ k < vector.length := by
  induction fuel generalizing index sum with
  | zero => exact absurd hi (Nat.not_lt.2 hfuel)
  | succ fuel ih =>
    rw [findIndex, List.getElem?_eq_getElem hi]
    simp only [Option.bind_eq_bind, Option.bind_some]
    split
    · rename_i h
      exact ih (index + 1) _ (by omega) (by omega)
    · exact ⟨index + 1, rfl, hi⟩

theorem calculateTargetLevel_same (h : s.Distribution) (iat : Int) :
    ∃ s', s.calculateTargetLevel iat = some s' ∧ SameHistogram s s' := by
  have hsize := h.size
  have hfirst : 0 < s.iatVector.length := by omega
  have hloop : ∀ limit sum : Int, ∃ k, findIndex s.iatVector limit s.iatVector.length 0 sum =
      some k ∧ k < s.iatVector.length :=
    fun limit sum => findIndex_lt s.iatVector.length 0 sum (by omega) (by omega)
  rw [calculateTargetLevel, List.getElem?_eq_getElem hfirst]
  simp only [Option.bind_eq_bind, Option.bind_some]
  obtain ⟨k, hk, -⟩ := hloop (if s.streamingMode then 536871 else 53687091) ((1073741824 : Int) - s.iatVector[0])
  rw [hk, Option.bind_some]
  exact ⟨_, rfl, rfl, rfl⟩

theorem updateCumulativeSums_same (packetLenMs : Int) (sequenceNumber : UInt16) :
    SameHistogram s (s.updateCumulativeSums packetLenMs sequenceNumber) := by
  unfold updateCumulativeSums
  dsimp only
  constructor <;> split <;> split <;> rfl

theorem limitTargetLevel_same : SameHistogram s s.limitTargetLevel := by
  unfold limitTargetLevel
  dsimp only
  constructor <;> split <;> split <;> rfl

/-! ## The index -/

/-- How many numbers a late packet is behind the next one. -/
def late (s : DelayManager) (sequenceNumber : UInt16) : Int := (s.lastSeqNo + 1 - sequenceNumber).toNat

/-- The time counted since the last packet makes an index: with the late packets it is not negative, nor
too large for 32 bits. -/
def Countable (s : DelayManager) (sequenceNumber : UInt16) (packetLenMs : Int) : Prop :=
  isNewerSequenceNumber sequenceNumber (s.lastSeqNo + 1) = true ∨
    -(packetLenMs * (s.late sequenceNumber + 1)) < s.packetIatCountMs ∧
      s.packetIatCountMs < packetLenMs * (2147483648 - s.late sequenceNumber)

theorem late_range (sequenceNumber : UInt16) : 0 ≤ s.late sequenceNumber ∧ s.late sequenceNumber < 65536 := by
  have hlt := (s.lastSeqNo + 1 - sequenceNumber).toNat_lt
  unfold late
  omega

/-- Neither ahead of the next number nor late is the next one. -/
theorem late_next {sequenceNumber : UInt16} (h1 : ¬ isNewerSequenceNumber sequenceNumber (s.lastSeqNo + 1) = true)
    (h2 : isNewerSequenceNumber sequenceNumber s.lastSeqNo = true) : s.late sequenceNumber = 0 := by
  rw [isNewerSequenceNumber_iff] at h1 h2
  have ha := sequenceNumber.toNat_lt
  have hb := s.lastSeqNo.toNat_lt
  simp only [UInt16.toNat_sub, UInt16.toNat_add, late, show (1 : UInt16).toNat = 1 from rfl] at h1 h2 ⊢
  omega

theorem tdiv_range {c len : Int} (hlen : 0 < len) (hc0 : -2147483648 ≤ c) (hc1 : c ≤ 2147483647) :
    -2147483648 ≤ c.tdiv len ∧ c.tdiv len ≤ 2147483647 := by
  by_cases hc : 0 ≤ c
  · have hquot : 0 ≤ c / len := Int.ediv_nonneg hc (Int.le_of_lt hlen)
    have hle : c / len ≤ c := Int.ediv_le_self len hc
    rw [Int.tdiv_eq_ediv_of_nonneg hc]
    omega
  · have hquot : 0 ≤ (-c) / len := Int.ediv_nonneg (by omega) (Int.le_of_lt hlen)
    have hle : (-c) / len ≤ -c := Int.ediv_le_self len (by omega)
    rw [← Int.neg_neg c, Int.neg_tdiv, Int.tdiv_eq_ediv_of_nonneg (by omega)]
    omega

theorem tdiv_bounds {c len k : Int} (hlen : 0 < len) (hk0 : 0 ≤ k) (hk1 : k < 65536)
    (hc0 : -2147483648 ≤ c) (hc1 : c ≤ 2147483647) :
    0 ≤ i32 (c.tdiv len + k) ↔ -(len * (k + 1)) < c ∧ c < len * (2147483648 - k) := by
  have hpos : 0 < len * (k + 1) := Int.mul_pos hlen (by omega)
  have hpos' : 0 < len * (2147483648 - k) := Int.mul_pos hlen (by omega)
  have hdivmul : ∀ x y : Int, x / len < y ↔ x < y * len := fun x y => Int.ediv_lt_iff_lt_mul hlen
  by_cases hc : 0 ≤ c
  · have htdiv : c.tdiv len = c / len := Int.tdiv_eq_ediv_of_nonneg hc
    have hquot : 0 ≤ c / len := Int.ediv_nonneg hc (Int.le_of_lt hlen)
    have hle : c / len ≤ c := Int.ediv_le_self len hc
    have hiff := hdivmul c (2147483648 - k)
    rw [Int.mul_comm] at hiff
    rw [htdiv]
    by_cases hsmall : c / len < 2147483648 - k
    · rw [i32_id (by omega) (by omega)]
      exact ⟨fun _ => ⟨by omega, hiff.1 hsmall⟩, fun _ => by omega⟩
    · rw [i32_over (by omega) (by omega)]
      constructor
      · intro h
        omega
      · rintro ⟨-, h⟩
        exact absurd (hiff.2 h) hsmall
  · have htdiv : c.tdiv len = -((-c) / len) := by
      have h : c.tdiv len = -((-c).tdiv len) := by rw [Int.neg_tdiv, Int.neg_neg]
      rw [h, Int.tdiv_eq_ediv_of_nonneg (by omega)]
    have hquot : 0 ≤ (-c) / len := Int.ediv_nonneg (by omega) (Int.le_of_lt hlen)
    have hle : (-c) / len ≤ -c := Int.ediv_le_self len (by omega)
    have hiff := hdivmul (-c) (k + 1)
    rw [Int.mul_comm] at hiff
    rw [htdiv, i32_id (by omega) (by omega)]
    constructor
    · intro h
      have hlt := hiff.1 (by omega)
      omega
    · rintro ⟨h, -⟩
      have hlt := hiff.2 (by omega)
      omega

theorem iatPackets_ge (h : s.Counting) {packetLenMs : Int} (hlen : 0 < packetLenMs) (sequenceNumber : UInt16) :
    -2147483648 ≤ s.iatPackets sequenceNumber packetLenMs := by
  obtain ⟨hlo, hhi⟩ := h.counter
  have hrange := tdiv_range hlen hlo hhi
  have hlate := i32_range (s.packetIatCountMs.tdiv packetLenMs + (s.lastSeqNo + 1 - sequenceNumber).toNat)
  unfold iatPackets
  dsimp only
  split
  · omega
  · split <;> omega

theorem iatPackets_nonneg_iff (h : s.Counting) {packetLenMs : Int} (hlen : 0 < packetLenMs) (sequenceNumber : UInt16) :
    0 ≤ s.iatPackets sequenceNumber packetLenMs ↔ s.Countable sequenceNumber packetLenMs := by
  obtain ⟨hlo, hhi⟩ := h.counter
  obtain ⟨hk0, hk1⟩ := s.late_range sequenceNumber
  have hbounds := tdiv_bounds hlen hk0 hk1 hlo hhi
  unfold iatPackets Countable
  dsimp only
  by_cases hnext : isNewerSequenceNumber sequenceNumber (s.lastSeqNo + 1) = true
  · rw [if_pos hnext]
    simp only [hnext, true_or, iff_true]
    omega
  · rw [if_neg hnext]
    simp only [hnext, Bool.false_eq_true, false_or]
    by_cases hnewer : isNewerSequenceNumber sequenceNumber s.lastSeqNo = true
    · rw [if_neg (not_not.2 hnewer), ← hbounds, late_next hnext hnewer, Int.add_zero]
      obtain ⟨h1, h2⟩ := tdiv_range hlen hlo hhi
      rw [i32_id h1 h2]
      omega
    · rw [if_pos hnewer, ← hbounds]
      show 0 ≤ min (i32 (s.packetIatCountMs.tdiv packetLenMs + s.late sequenceNumber)) 64 ↔ _
      omega

/-- The statistics are updated when the index is in the vector. -/
theorem updateStatistics_iff (hs : s.Counting) (sequenceNumber : UInt16) {packetLenMs : Int} (hlen : 0 < packetLenMs) :
    (0 ≤ s.iatPackets sequenceNumber packetLenMs →
      ∃ s', s.updateStatistics sequenceNumber packetLenMs = some s' ∧ s'.Distribution) ∧
    (s.iatPackets sequenceNumber packetLenMs < 0 → s.updateStatistics sequenceNumber packetLenMs = none) := by
  have h := hs.toDistribution
  have hmax : s.iatPackets sequenceNumber packetLenMs ≤ 64 := Int.min_le_right _ _
  have hmin := iatPackets_ge hs hlen sequenceNumber
  generalize hiat : s.iatPackets sequenceNumber packetLenMs = iat at hmax hmin
  have hbefore : Distribution (if s.streamingMode then s.updateCumulativeSums packetLenMs sequenceNumber else s) := by
    split
    · exact h.same (updateCumulativeSums_same packetLenMs sequenceNumber)
    · exact h
  unfold updateStatistics
  rw [hiat]
  dsimp only
  generalize (if s.streamingMode = true then s.updateCumulativeSums packetLenMs sequenceNumber else s) = t at hbefore
  constructor
  · intro hpos
    have hindex : toSize iat < 65 := by
      unfold toSize
      omega
    obtain ⟨vector, factor, hupdate, hdist⟩ := updateHistogram_eq hbefore hindex
    obtain ⟨u, htarget, hsame⟩ := calculateTargetLevel_same hdist iat
    simp only [hupdate, htarget, Option.bind_eq_bind, Option.bind_some]
    refine ⟨_, rfl, ?_⟩
    have hu := hdist.same hsame
    split
    · have hraised : Distribution
        { u with targetLevel := max u.targetLevel u.maxIatCumulativeSum } := hu.same ⟨rfl, rfl⟩
      exact hraised.same limitTargetLevel_same
    · exact hu.same limitTargetLevel_same
  · intro hneg
    have hindex : ¬ toSize iat < 65 := by
      unfold toSize
      omega
    rw [updateHistogram_outside hbefore hindex]
    rfl

/-! ## Runs -/

/-- What a call of `Update` needs when it comes to the histogram. -/
def InTime (s : DelayManager) : Call → Prop
  | .update sequenceNumber timestamp sampleRateHz => 0 < sampleRateHz → s.firstPacketReceived = true →
      0 < s.packetLen sequenceNumber timestamp sampleRateHz →
      s.Countable sequenceNumber (s.packetLen sequenceNumber timestamp sampleRateHz)
  | _ => True

theorem counter_zero : (-2147483648 : Int) ≤ 0 ∧ (0 : Int) ≤ 2147483647 := by decide

theorem decaying_sum : (decaying 65 0x4002).sum = 1073741824 ∧ ∀ v ∈ decaying 65 0x4002, 0 ≤ v := by
  decide +kernel

theorem reset_counting (h : s.Distribution) : s.reset.Counting := by
  refine ⟨⟨?_, ?_, ?_, ?_⟩, ?_⟩
  · show (decaying s.iatVector.length 0x4002).length = 65
    rw [h.size]
    decide
  · show ∀ v ∈ decaying s.iatVector.length 0x4002, 0 ≤ v
    rw [h.size]
    exact decaying_sum.2
  · show (decaying s.iatVector.length 0x4002).sum = 1073741824
    rw [h.size]
    exact decaying_sum.1
  · exact ⟨Int.le_refl 0, show (0 : Int) ≤ 32745 by decide⟩
  · exact counter_zero

theorem create_counting (n : Nat) : (create n).Counting := by
  refine ⟨⟨rfl, decaying_sum.2, decaying_sum.1, ?_⟩, ?_⟩
  · exact ⟨Int.le_refl 0, show (0 : Int) ≤ 32745 by decide⟩
  · exact counter_zero

theorem Counting.same {s' : DelayManager} (h : s.Counting) (hs : SameHistogram s s')
    (hcount : s'.packetIatCountMs = 0 ∨ s'.packetIatCountMs = s.packetIatCountMs) : s'.Counting := by
  have hcounter := h.counter
  exact ⟨h.toDistribution.same hs, by omega⟩

/-- **One call** keeps the distribution. -/
theorem call_counting (h : s.Counting) {c : Call} (hin : s.InTime c) : ∃ s', s.call c = some s' ∧ s'.Counting := by
  cases c with
  | reset => exact ⟨_, rfl, reset_counting h.toDistribution⟩
  | setPacketAudioLength lengthMs =>
    refine ⟨_, rfl, ?_⟩
    unfold setPacketAudioLength
    split
    · exact h
    · exact h.same ⟨rfl, rfl⟩ (Or.inl rfl)
  | updateCounters elapsedTimeMs => exact ⟨_, rfl, h.toDistribution.same ⟨rfl, rfl⟩, i32_range _⟩
  | resetPacketIatCount => exact ⟨_, rfl, h.same ⟨rfl, rfl⟩ (Or.inl rfl)⟩
  | setMinimumDelay delayMs =>
    refine ⟨_, rfl, ?_⟩
    unfold setMinimumDelay
    split
    · exact h
    · exact h.same ⟨rfl, rfl⟩ (Or.inr rfl)
  | setMaximumDelay delayMs =>
    refine ⟨_, rfl, ?_⟩
    unfold setMaximumDelay
    split
    · exact h.same ⟨rfl, rfl⟩ (Or.inr rfl)
    · split
      · exact h
      · exact h.same ⟨rfl, rfl⟩ (Or.inr rfl)
  | setStreamingMode value => exact ⟨_, rfl, h.same ⟨rfl, rfl⟩ (Or.inr rfl)⟩
  | update sequenceNumber timestamp sampleRateHz =>
    rw [call, update]
    by_cases hrate : sampleRateHz ≤ 0
    · rw [if_pos hrate]
      exact ⟨s, rfl, h⟩
    · rw [if_neg hrate]
      by_cases hfirst : s.firstPacketReceived = false
      · rw [if_pos hfirst]
        exact ⟨_, rfl, h.same ⟨rfl, rfl⟩ (Or.inl rfl)⟩
      · rw [if_neg hfirst]
        dsimp only
        by_cases hlen : s.packetLen sequenceNumber timestamp sampleRateHz > 0
        · have hcount := hin (Int.not_le.1 hrate) (Bool.not_eq_false _ ▸ hfirst) hlen
          obtain ⟨t, ht, hdist⟩ := (updateStatistics_iff h sequenceNumber hlen).1
            ((iatPackets_nonneg_iff h hlen sequenceNumber).2 hcount)
          rw [if_pos hlen, ht]
          exact ⟨_, rfl, hdist.same ⟨rfl, rfl⟩, counter_zero⟩
        · rw [if_neg hlen]
          exact ⟨_, rfl, h.same ⟨rfl, rfl⟩ (Or.inl rfl)⟩

/-- An update with a time that does not make an index fails. -/
theorem call_fails (h : s.Counting) {c : Call} (hnot : ¬ s.InTime c) : s.call c = none := by
  cases c with
  | update sequenceNumber timestamp sampleRateHz =>
    simp only [InTime, Classical.not_imp] at hnot
    obtain ⟨hrate, hfirst, hlen, hcount⟩ := hnot
    have hneg : s.iatPackets sequenceNumber (s.packetLen sequenceNumber timestamp sampleRateHz) < 0 :=
      Int.not_le.1 fun hle => hcount ((iatPackets_nonneg_iff h hlen sequenceNumber).1 hle)
    rw [call, update, if_neg (Int.not_le.2 hrate), if_neg (by simp [hfirst])]
    dsimp only
    rw [if_pos hlen, (updateStatistics_iff h sequenceNumber hlen).2 hneg]
    rfl
  | reset | setPacketAudioLength | updateCounters | resetPacketIatCount | setMinimumDelay |
    setMaximumDelay | setStreamingMode =>
    exact absurd trivial hnot

/-- A call; the state is none once a call has failed. -/
def step (o : Option DelayManager) (c : Call) : Option DelayManager × Unit := (o.bind fun s => s.call c, ())

/-- Nothing has failed, and the histogram is a distribution. -/
def Sound (o : Option DelayManager) : Prop := ∃ s, o = some s ∧ s.Distribution

/-- Every update that comes to the histogram finds a time that makes an index. -/
def Timely (o : Option DelayManager) (c : Call) : Prop := ∀ s, o = some s → s.InTime c

/-- **The histogram stays a distribution** in the runs whose updates all find a time that makes an
index, and in no others. -/
theorem distribution_always_iff (maxPacketsInBuffer : Nat) (calls : List Call) :
    Machine.Always step Sound (some (create maxPacketsInBuffer)) calls ↔
      Machine.Meets step Timely (some (create maxPacketsInBuffer)) calls := by
  refine Machine.always_iff_meets (P := fun o => ∃ s, o = some s ∧ s.Counting) ?_ ?_ ?_ ⟨_, rfl,
    create_counting maxPacketsInBuffer⟩ calls
  · rintro o ⟨s, rfl, hs⟩
    exact ⟨s, rfl, hs.toDistribution⟩
  · rintro o c ⟨s, rfl, hs⟩ hg
    exact call_counting hs (hg s rfl)
  · rintro o c ⟨s, rfl, hs⟩ ⟨t, ht, -⟩ s' hs'
    cases hs'
    by_contra hnot
    have hfail : s.call c = some t := ht
    rw [call_fails hs hnot] at hfail
    cases hfail

/-! ## Without packets for 25 days -/

/-- 214748365 frames of 10 ms. -/
def silence : List Call := List.replicate 214748365 (.updateCounters 10)

theorem i32_add (x y : Int) : i32 (i32 x + y) = i32 (x + y) := by
  unfold i32
  split <;> split <;> split <;> omega

theorem counters_run (n : Nat) (s : DelayManager) (hs : i32 s.packetIatCountMs = s.packetIatCountMs) :
    ∃ s', Machine.run step (some s) (List.replicate n (.updateCounters 10)) = some s' ∧
      s'.packetIatCountMs = i32 (s.packetIatCountMs + 10 * n) ∧ s'.lastSeqNo = s.lastSeqNo ∧
      s'.lastTimestamp = s.lastTimestamp ∧ s'.firstPacketReceived = s.firstPacketReceived := by
  induction n generalizing s with
  | zero =>
    refine ⟨s, rfl, ?_, rfl, rfl, rfl⟩
    rw [← hs]
    simp [hs]
  | succ n ih =>
    have hone : (s.updateCounters 10).packetIatCountMs = i32 (s.packetIatCountMs + 10) := rfl
    have hwrapped : i32 (s.updateCounters 10).packetIatCountMs = (s.updateCounters 10).packetIatCountMs := by
      have h := i32_add (s.packetIatCountMs + 10) 0
      rwa [Int.add_zero, Int.add_zero] at h
    obtain ⟨s', hrun, hcount, hseq, hts, hfirst⟩ := ih (s.updateCounters 10) hwrapped
    refine ⟨s', hrun, ?_, hseq, hts, hfirst⟩
    rw [hcount, hone, i32_add]
    congr 1
    push_cast
    omega

/-- Behind the first packet. -/
def firstArrived : DelayManager :=
  { create 50 with packetIatCountMs := 0, lastSeqNo := 1, lastTimestamp := 160, firstPacketReceived := true }

/-- **The counter overflows**, and the next packet in order has a negative index. -/
theorem silence_not_sound : ¬ ∀ (maxPacketsInBuffer : Nat) (calls : List Call),
    Machine.Always step Sound (some (create maxPacketsInBuffer)) calls := by
  intro h
  have hmeets := h 50 (.update 1 160 8000 :: (silence ++ [.update 2 320 8000]))
  rw [distribution_always_iff] at hmeets
  obtain ⟨-, hrest⟩ := hmeets
  have hfirst : (step (some (create 50)) (.update 1 160 8000)).1 = some firstArrived := rfl
  rw [hfirst, Machine.meets_append, silence] at hrest
  obtain ⟨s, hrun, hcount, hseq, hts, hreceived⟩ := counters_run 214748365 firstArrived (by decide)
  rw [hrun] at hrest
  have hlen : s.packetLen 2 320 8000 = 20 := by
    have hordered : ¬ (¬ isNewerTimestamp 320 firstArrived.lastTimestamp = true ∨
        ¬ isNewerSequenceNumber 2 firstArrived.lastSeqNo = true) := by decide
    rw [packetLen, hseq, hts, if_neg hordered]
    decide
  have hin : s.InTime (.update 2 320 8000) := hrest.2.1 s rfl
  have hcountable := hin (by decide) hreceived (by rw [hlen]; decide)
  have hlate : s.late 2 = 0 := by
    rw [late, hseq]
    decide
  rw [hlen, Countable, hlate, hseq, hcount] at hcountable
  exact absurd hcountable (by decide)

end WebRtc.NetEq.DelayManager
