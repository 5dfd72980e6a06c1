import WebRtc.Delay.Estimator
import WebRtc.Lib.Machine

/-!
# The delay estimator stays in range

`candidate_delay` starts at -1 and is set only by an element of `mean_bit_counts` strictly below 32 in
Q9. That every element is, for ever, rests on the smoothing: a mean below its new value moves up by
at most a 128th of the distance (`meanEstimatorFix_range`), so it never reaches it.

`Inv` is the invariant, `step_inv` the step, `processBinarySpectrum_inRange` the run.
-/

namespace WebRtc.Delay

open CInt

/-! ## Smoothing -/

theorem shift_bounds {d : Int} (h0 : 0 ≤ d) {k : Nat} (hk : 7 ≤ k) : 0 ≤ d >>> k ∧ (d >>> k) * 128 ≤ d := by
  obtain ⟨j, rfl⟩ := Nat.exists_eq_add_of_le hk
  rw [Int.shiftRight_add, Int.shiftRight_eq_div_pow, Int.shiftRight_eq_div_pow]
  have h7 : ((2 ^ 7 : Nat) : Int) = 128 := rfl
  rw [h7]
  have hq : 0 ≤ d / 128 := by omega
  have hdiv : d / 128 / ((2 ^ j : Nat) : Int) ≤ d / 128 := Int.ediv_le_self _ hq
  have hnn : 0 ≤ d / 128 / ((2 ^ j : Nat) : Int) := Int.ediv_nonneg hq (Int.natCast_nonneg _)
  constructor <;> omega

/-- **Strictly below 32 in Q9 stays strictly below.** -/
theorem meanEstimatorFix_range {new mean : Int} {factor : Nat} (hn : 0 ≤ new ∧ new ≤ 16384)
    (hm : 0 ≤ mean ∧ mean < 16384) (hf : 7 ≤ factor) :
    0 ≤ meanEstimatorFix new factor mean ∧ meanEstimatorFix new factor mean < 16384 := by
  have hd : i32 (new - mean) = new - mean := i32_id (by omega) (by omega)
  unfold meanEstimatorFix
  simp only [hd]
  split
  · obtain ⟨h1, h2⟩ := shift_bounds (d := -(new - mean)) (by omega) hf
    rw [i32_id (by omega) (by omega)]
    constructor <;> omega
  · obtain ⟨h1, h2⟩ := shift_bounds (d := new - mean) (by omega) hf
    rw [i32_id (by omega) (by omega)]
    constructor <;> omega

theorem shifts_ge {f : Int} (h0 : 0 ≤ f) (h32 : f ≤ 32) :
    7 ≤ (kShiftsAtZero - (kShiftsLinearSlope * f) >>> (4 : Nat)).toNat := by
  have h : (kShiftsLinearSlope * f) >>> (4 : Nat) ≤ 6 := by
    rw [Int.shiftRight_eq_div_pow, kShiftsLinearSlope]; omega
  unfold kShiftsAtZero
  omega

theorem updateMean_range {b f m : Int} (hb : 0 ≤ b ∧ b ≤ 32) (hf : 0 ≤ f ∧ f ≤ 32) (hm : 0 ≤ m ∧ m < 16384) :
    0 ≤ updateMean b f m ∧ updateMean b f m < 16384 := by
  unfold updateMean
  split
  · exact meanEstimatorFix_range (by rw [i32_id (by omega) (by omega)]; omega) hm (shifts_ge hf.1 hf.2)
  · exact hm

theorem updateMeans_length (bs fs ms : List Int) : (updateMeans bs fs ms).length = ms.length := by
  induction bs, fs, ms using updateMeans.induct with
  | case1 b bs f fs m ms ih => simp only [updateMeans, List.length_cons, ih]
  | case2 bs fs ms h => rw [updateMeans]; exact h

theorem updateMeans_range {bs fs ms : List Int} {n : Nat} (hb : ∀ b ∈ bs, 0 ≤ b ∧ b ≤ 32)
    (hf : ∀ f ∈ fs, 0 ≤ f ∧ f ≤ 32) (hm : ∀ m ∈ ms.take n, 0 ≤ m ∧ m < 16384) :
    ∀ m ∈ (updateMeans bs fs ms).take n, 0 ≤ m ∧ m < 16384 := by
  induction bs, fs, ms using updateMeans.induct generalizing n with
  | case1 b bs f fs m ms ih =>
    cases n with
    | zero => intro m hm; cases hm
    | succ n =>
      simp only [List.take_succ_cons, List.mem_cons, forall_eq_or_imp] at hb hf hm
      simp only [updateMeans, List.take_succ_cons, List.mem_cons, forall_eq_or_imp]
      exact ⟨updateMean_range hb.1 hf.1 hm.1, ih hb.2 hf.2 hm.2⟩
  | case2 bs fs ms h => rw [updateMeans]; exact hm; exact h

/-! ## The candidate -/

theorem findCandidate_delay {ms : List Int} {i N : Nat} {c : Candidate} (hc : 0 ≤ c.delay ∧ c.delay < N)
    (hN : i + ms.length ≤ N) : 0 ≤ (findCandidate ms i c).delay ∧ (findCandidate ms i c).delay < N := by
  induction ms generalizing i c with
  | nil => exact hc
  | cons m ms ih =>
    rw [findCandidate]
    rw [List.length_cons] at hN
    refine ih ?_ (by omega)
    simp only
    split
    · constructor <;> omega
    · exact hc

/-- A first element below the starting value is enough for a candidate. -/
theorem findCandidate_inRange {ms : List Int} (hne : ms ≠ []) (hm : ∀ m ∈ ms, 0 ≤ m ∧ m < 16384) :
    0 ≤ (findCandidate ms 0 ⟨-1, kMaxBitCountsQ9, 0⟩).delay ∧
    (findCandidate ms 0 ⟨-1, kMaxBitCountsQ9, 0⟩).delay < ms.length := by
  cases ms with
  | nil => exact absurd rfl hne
  | cons m ms =>
    have hlt := (hm m List.mem_cons_self).2
    rw [findCandidate]
    refine findCandidate_delay ?_ (by rw [List.length_cons]; omega)
    simp only [kMaxBitCountsQ9, hlt, if_true, List.length_cons]
    constructor <;> omega

/-! ## The invariant -/

/-- The far end's buffers have the history size, and the counts are those of the spectra. -/
structure Farend.Inv (far : Farend) (n : Nat) : Prop where
  size : far.historySize = n
  length_history : far.binaryFarHistory.length = n
  counts : far.farBitCounts = far.binaryFarHistory.map bitCount

/-- The part of the invariant a change of `last_delay`, `compare_delay` or the histogram cannot touch. -/
structure BinaryDelayEstimator.Sized (s : BinaryDelayEstimator) : Prop where
  size : 2 ≤ s.historySize
  farend : s.farend.Inv s.historySize
  length_means : s.meanBitCounts.length = s.historySize + 1
  means : ∀ m ∈ s.meanBitCounts.take s.historySize, 0 ≤ m ∧ m < 16384
  lookahead : 0 ≤ s.lookahead ∧ s.lookahead < s.nearHistorySize
  written : s.historySize ≤ s.written

/-- The delays are in range, and `compare_delay` is the index of an element that was written. -/
structure BinaryDelayEstimator.DelaysIn (s : BinaryDelayEstimator) : Prop where
  compare : 0 ≤ s.compareDelay ∧ s.compareDelay ≤ s.historySize
  compare_written : s.compareDelay < s.written
  last : s.lastDelay = -2 ∨ (0 ≤ s.lastDelay ∧ s.lastDelay < s.historySize)

structure BinaryDelayEstimator.Inv (s : BinaryDelayEstimator) : Prop where
  sized : s.Sized
  delays : s.DelaysIn

/-! ## The far end keeps its invariant -/

namespace Farend

variable {far : Farend} {n : Nat}

theorem Inv.count_range (h : far.Inv n) : ∀ f ∈ far.farBitCounts, 0 ≤ f ∧ f ≤ 32 := by
  intro f hf
  rw [h.counts, List.mem_map] at hf
  obtain ⟨u, -, rfl⟩ := hf
  exact bitCount_range u

theorem Inv.addBinaryFarSpectrum (h : far.Inv n) (hn : 1 ≤ n) (u : BitVec 32) : (far.addBinaryFarSpectrum u).Inv n where
  size := h.size
  length_history := by
    simp only [Farend.addBinaryFarSpectrum, List.length_cons, List.length_take, h.size, h.length_history]; omega
  counts := by simp only [Farend.addBinaryFarSpectrum, h.counts, List.map_cons, List.map_take]

theorem bitCount_zero : bitCount 0 = 0 := by decide

theorem shiftBuffer_map (l : List (BitVec 32)) (n : Nat) (d : Int) :
    shiftBuffer (l.map bitCount) n d = (shiftBuffer l n d).map bitCount := by
  simp only [shiftBuffer]
  split
  · rw [List.map_append, List.map_replicate, bitCount_zero, List.map_take]
  · rw [List.map_append, List.map_replicate, bitCount_zero, List.map_take, List.map_drop]

theorem shiftBuffer_length {l : List (BitVec 32)} (hl : l.length = n) {d : Int} (hd : d.natAbs < n) :
    (shiftBuffer l n d).length = n := by
  simp only [shiftBuffer]
  split
  · rw [List.length_append, List.length_replicate, List.length_take]; omega
  · rw [List.length_append, List.length_replicate, List.length_take, List.length_drop]; omega

theorem Inv.softReset (h : far.Inv n) {d : Int} (hd : d.natAbs < n) : (far.softReset d).Inv n := by
  unfold Farend.softReset
  split
  · exact h
  · refine ⟨h.size, ?_, ?_⟩
    · rw [h.size]; exact shiftBuffer_length h.length_history hd
    · rw [h.counts]; exact shiftBuffer_map ..

/-- Growing a buffer fills exactly what `realloc` left open. -/
theorem grow_eq {α : Type} [Zero α] {l : List α} {m : Nat} (hl : l.length ≤ m) (junk : α) :
    memsetZero (realloc l m junk) l.length (m - l.length) = l ++ List.replicate (m - l.length) 0 := by
  rw [realloc, List.take_of_length_le hl, memsetZero, List.take_left, List.drop_eq_nil_of_le, List.append_nil]
  rw [List.length_append, List.length_replicate]

theorem shrink_eq {α : Type} {l : List α} {m : Nat} (hl : m ≤ l.length) (junk : α) : realloc l m junk = l.take m := by
  rw [realloc, Nat.sub_eq_zero_of_le hl, List.replicate_zero, List.append_nil]

theorem Inv.allocate (h : far.Inv n) (m : Nat) (junk : Int) : (far.allocate m junk).Inv m := by
  have hl := h.length_history
  have hs := h.size
  have hc : far.farBitCounts.length = n := by rw [h.counts, List.length_map, hl]
  by_cases hg : m > n
  · have h1 : (far.allocate m junk).binaryFarHistory = far.binaryFarHistory ++ List.replicate (m - n) 0 := by
      simp only [Farend.allocate, hs, hg, if_true]
      rw [← hl, grow_eq (by omega)]
    have h2 : (far.allocate m junk).farBitCounts = far.farBitCounts ++ List.replicate (m - n) 0 := by
      simp only [Farend.allocate, hs, hg, if_true]
      rw [← hc, grow_eq (by omega)]
    refine ⟨rfl, ?_, ?_⟩
    · rw [h1, List.length_append, List.length_replicate, hl]; omega
    · rw [h1, h2, List.map_append, List.map_replicate, bitCount_zero, h.counts]
  · have h1 : (far.allocate m junk).binaryFarHistory = far.binaryFarHistory.take m := by
      simp only [Farend.allocate, hs, hg, if_false]
      exact shrink_eq (by omega) _
    have h2 : (far.allocate m junk).farBitCounts = far.farBitCounts.take m := by
      simp only [Farend.allocate, hs, hg, if_false]
      exact shrink_eq (by omega) _
    refine ⟨rfl, ?_, ?_⟩
    · rw [h1, List.length_take, hl]; omega
    · rw [h1, h2, List.map_take, h.counts]

end Farend

/-! ## The estimator keeps its invariant -/

namespace BinaryDelayEstimator

variable {s : BinaryDelayEstimator}

theorem Sized.delayNear (h : s.Sized) (x : BitVec 32) : (s.delayNear x).1.Sized := by
  unfold BinaryDelayEstimator.delayNear
  split
  · exact ⟨h.size, h.farend, h.length_means, h.means, h.lookahead, h.written⟩
  · exact h

theorem DelaysIn.delayNear (h : s.DelaysIn) (x : BitVec 32) : (s.delayNear x).1.DelaysIn := by
  unfold BinaryDelayEstimator.delayNear
  split
  · exact ⟨h.compare, h.compare_written, h.last⟩
  · exact h

theorem Sized.compareAll (h : s.Sized) (x : BitVec 32) : (s.compareAll x).Sized where
  size := h.size
  farend := h.farend
  length_means := by rw [BinaryDelayEstimator.compareAll, updateMeans_length]; exact h.length_means
  means := by
    refine updateMeans_range ?_ h.farend.count_range h.means
    intro b hb
    rw [bitCountComparison, List.mem_map] at hb
    obtain ⟨row, -, rfl⟩ := hb
    exact bitCount_range _
  lookahead := h.lookahead
  written := h.written

/-- **The candidate is an index.** -/
theorem Sized.candidate (h : s.Sized) : 0 ≤ s.candidate.delay ∧ s.candidate.delay < s.historySize := by
  have hlen : (s.meanBitCounts.take s.historySize).length = s.historySize := by
    rw [List.length_take, h.length_means]; omega
  have hne : s.meanBitCounts.take s.historySize ≠ [] := by
    intro hnil
    have := h.size
    rw [hnil, List.length_nil] at hlen
    omega
  have hc := findCandidate_inRange hne h.means
  rw [hlen] at hc
  exact hc

/-- `validate` changes neither the buffers' sizes nor the delays. -/
theorem validate_inv (h : s.Inv) (c : Candidate) : (s.validate c).1.Inv := by
  obtain ⟨hs, hd⟩ := h
  exact ⟨⟨hs.size, hs.farend, hs.length_means, hs.means, hs.lookahead, hs.written⟩,
    ⟨hd.compare, hd.compare_written, hd.last⟩⟩

theorem acceptCandidate_inv (h : s.Inv) {c : Candidate} (hc : 0 ≤ c.delay ∧ c.delay < s.historySize) :
    (s.acceptCandidate c).Inv := by
  obtain ⟨hs, hd⟩ := h
  have hw := hs.written
  refine ⟨⟨hs.size, hs.farend, hs.length_means, hs.means, hs.lookahead, hs.written⟩, ?_, ?_, Or.inr hc⟩
  · exact ⟨hc.1, Int.le_of_lt hc.2⟩
  · simp only [BinaryDelayEstimator.acceptCandidate]; omega

theorem Inv.processBinarySpectrum (h : s.Inv) (x : BitVec 32) :
    (s.processBinarySpectrum x).1.Inv ∧ (s.processBinarySpectrum x).1.historySize = s.historySize ∧
    (s.processBinarySpectrum x).2 = (s.processBinarySpectrum x).1.lastDelay := by
  have hfar : ¬ s.farend.historySize ≠ s.historySize := by
    rw [h.sized.farend.size]; simp
  have hsz : (s.delayNear x).1.historySize = s.historySize := by
    unfold BinaryDelayEstimator.delayNear; split <;> rfl
  have hs := (h.sized.delayNear x).compareAll (s.delayNear x).2
  have hd : ((s.delayNear x).1.compareAll (s.delayNear x).2).DelaysIn := by
    have h' := h.delays.delayNear x
    exact ⟨h'.compare, h'.compare_written, h'.last⟩
  have hc := hs.candidate
  have hv := validate_inv ⟨hs, hd⟩ ((s.delayNear x).1.compareAll (s.delayNear x).2).candidate
  simp only [BinaryDelayEstimator.processBinarySpectrum]
  rw [if_neg hfar]
  refine ⟨?_, ?_, rfl⟩
  · simp only
    split
    · exact acceptCandidate_inv hv hc
    · exact hv
  · simp only
    split <;> exact hsz

theorem Sized.selected (h : s.Sized) (x : BitVec 32) : 0 ≤ s.selected x ∧ s.selected x < s.historySize := by
  have hsz : (s.delayNear x).1.historySize = s.historySize := by
    unfold BinaryDelayEstimator.delayNear; split <;> rfl
  have hc := ((h.delayNear x).compareAll (s.delayNear x).2).candidate
  have hsz' : ((s.delayNear x).1.compareAll (s.delayNear x).2).historySize = s.historySize := hsz
  rwa [hsz'] at hc

theorem Inv.softReset (h : s.Inv) (d : Int) : (s.softReset d).1.Inv := by
  obtain ⟨hs, hd⟩ := h
  have hl := hs.lookahead
  refine ⟨⟨hs.size, hs.farend, hs.length_means, hs.means, ?_, hs.written⟩, ⟨hd.compare, hd.compare_written, hd.last⟩⟩
  simp only [BinaryDelayEstimator.softReset]
  generalize i32 (s.lookahead - d) = l
  constructor
  · split
    · omega
    · split <;> omega
  · split
    · omega
    · split <;> omega

theorem Inv.withFarend (h : s.Inv) {far : Farend} (hf : far.Inv s.historySize) :
    BinaryDelayEstimator.Inv { s with farend := far } :=
  ⟨⟨h.sized.size, hf, h.sized.length_means, h.sized.means, h.sized.lookahead, h.sized.written⟩,
    ⟨h.delays.compare, h.delays.compare_written, h.delays.last⟩⟩

end BinaryDelayEstimator

/-! ## Runs -/

/-- A call the estimator's own size allows: far-end shifts smaller than the history, and no change of
its size. -/
def DelayOp.KeepsSize (n : Nat) : DelayOp → Prop
  | .softResetFar d => d.natAbs < n
  | .setHistorySize _ _ => False
  | _ => True

/-- What a call of `processBinarySpectrum` must do. -/
structure ProcessObs.InRange (o : ProcessObs) : Prop where
  candidate : 0 ≤ o.candidate ∧ o.candidate < o.historySize
  delay : o.delay = -2 ∨ (0 ≤ o.delay ∧ o.delay < o.historySize)

namespace BinaryDelayEstimator

variable {s : BinaryDelayEstimator}

theorem Inv.obs (h : s.Inv) (x : BitVec 32) :
    ProcessObs.InRange ⟨(s.processBinarySpectrum x).2, s.selected x, s.historySize⟩ := by
  obtain ⟨hi, hsz, hret⟩ := h.processBinarySpectrum x
  refine ⟨h.sized.selected x, ?_⟩
  simp only
  rw [hret, ← hsz]
  exact hi.delays.last

/-- **One call.** -/
theorem step_inv (h : s.Inv) (op : DelayOp) (hop : op.KeepsSize s.historySize) :
    (s.step op).1.Inv ∧ (s.step op).1.historySize = s.historySize ∧ ∀ o, (s.step op).2 = some o → o.InRange := by
  cases op with
  | addFar u =>
    refine ⟨h.withFarend (h.sized.farend.addBinaryFarSpectrum (by have := h.sized.size; omega) u), rfl, ?_⟩
    intro o ho
    cases ho
  | process x =>
    obtain ⟨hi, hsz, -⟩ := h.processBinarySpectrum x
    refine ⟨hi, hsz, ?_⟩
    intro o ho
    cases ho
    exact h.obs x
  | softResetFar d =>
    refine ⟨h.withFarend (h.sized.farend.softReset hop), rfl, ?_⟩
    intro o ho
    cases ho
  | softReset d =>
    refine ⟨h.softReset d, rfl, ?_⟩
    intro o ho
    cases ho
  | setHistorySize n junk => exact absurd hop id

/-- What `WebRtc_CreateBinaryDelayEstimatorFarend` and `WebRtc_CreateBinaryDelayEstimator` allocate; the
contents are whatever they are. -/
structure Allocated (s : BinaryDelayEstimator) : Prop where
  size : 2 ≤ s.historySize
  far_size : s.farend.historySize = s.historySize
  length_counts : s.farend.farBitCounts.length = s.historySize
  length_history : s.farend.binaryFarHistory.length = s.historySize
  length_means : s.meanBitCounts.length = s.historySize + 1
  length_histogram : s.histogram.length = s.historySize + 1
  lookahead : 0 ≤ s.lookahead ∧ s.lookahead < s.nearHistorySize

/-- `WebRtc_InitDelayEstimatorFarend` and `WebRtc_InitDelayEstimator`, for the part that is modelled. -/
def initialised (s : BinaryDelayEstimator) : BinaryDelayEstimator := init { s with farend := s.farend.init }

theorem memsetZero_all {α : Type} [Zero α] {l : List α} {n : Nat} (h : l.length = n) :
    memsetZero l 0 n = List.replicate n 0 := by
  rw [memsetZero, List.take_zero, List.nil_append, Nat.zero_add, ← h, List.drop_length, List.append_nil]

theorem Allocated.inv (h : s.Allocated) : s.initialised.Inv := by
  have hm : s.initialised.meanBitCounts = List.replicate (s.historySize + 1) 10240 := by
    rw [initialised, init]
    simp only
    rw [List.drop_eq_nil_of_le (Nat.le_of_eq h.length_means), List.append_nil]
  have hfar : s.farend.init.Inv s.historySize := by
    refine ⟨h.far_size, ?_, ?_⟩
    · rw [Farend.init, h.far_size, memsetZero_all h.length_history, List.length_replicate]
    · rw [Farend.init, h.far_size, memsetZero_all h.length_history, memsetZero_all h.length_counts, List.map_replicate,
        Farend.bitCount_zero]
  refine ⟨⟨h.size, hfar, ?_, ?_, h.lookahead, ?_⟩, ⟨?_, ?_, Or.inl rfl⟩⟩
  · rw [hm, List.length_replicate]; rfl
  · intro m hmem
    rw [hm, List.take_replicate] at hmem
    rw [List.eq_of_mem_replicate hmem]
    decide
  · exact Nat.le_succ _
  · exact ⟨Int.natCast_nonneg _, Int.le_refl _⟩
  · show ((s.historySize : Int) < ((s.historySize + 1 : Nat) : Int)); omega

/-- What holds of a state, element by element. -/
structure InRange (s : BinaryDelayEstimator) : Prop where
  means : ∀ i < s.historySize, ∃ m, s.meanBitCounts[i]? = some m ∧ 0 ≤ m ∧ m < kMaxBitCountsQ9
  counts : ∀ i < s.historySize, ∃ u, s.farend.binaryFarHistory[i]? = some u ∧
    s.farend.farBitCounts[i]? = some (popCount u : Int)
  lookahead : 0 ≤ s.lookahead ∧ s.lookahead < s.nearHistorySize
  compare : 0 ≤ s.compareDelay ∧ s.compareDelay ≤ s.historySize

theorem Inv.inRange (h : s.Inv) : s.InRange where
  means i hi := by
    have hlt : i < s.meanBitCounts.length := by rw [h.sized.length_means]; omega
    have hmem : s.meanBitCounts[i] ∈ s.meanBitCounts.take s.historySize :=
      List.mem_take_iff_getElem.2 ⟨i, by omega, rfl⟩
    exact ⟨_, List.getElem?_eq_getElem hlt, h.sized.means _ hmem⟩
  counts i hi := by
    have hlt : i < s.farend.binaryFarHistory.length := by rw [h.sized.farend.length_history]; exact hi
    refine ⟨_, List.getElem?_eq_getElem hlt, ?_⟩
    rw [h.sized.farend.counts, List.getElem?_map, List.getElem?_eq_getElem hlt, Option.map_some, bitCount_eq]
  lookahead := h.sized.lookahead
  compare := h.delays.compare

/-- **The delay estimator stays in range**, whatever the calls, as long as its size is not changed. -/
theorem processBinarySpectrum_inRange (s : BinaryDelayEstimator) (halloc : s.Allocated) (ops : List DelayOp)
    (hops : ∀ op ∈ ops, op.KeepsSize s.historySize) :
    Machine.Always step InRange s.initialised ops ∧
    ∀ o ∈ Machine.trace step s.initialised ops, ∀ p, o = some p → p.InRange := by
  have hstep : ∀ (t : BinaryDelayEstimator) (op : DelayOp), t.Inv ∧ t.historySize = s.historySize →
      op.KeepsSize s.historySize → ((t.step op).1.Inv ∧ (t.step op).1.historySize = s.historySize) ∧
        ∀ p, (t.step op).2 = some p → p.InRange := by
    rintro t op ⟨ht, hsz⟩ hop
    obtain ⟨hi, hsz', ho⟩ := step_inv ht op (hsz ▸ hop)
    exact ⟨⟨hi, hsz'.trans hsz⟩, ho⟩
  have hinit : s.initialised.Inv ∧ s.initialised.historySize = s.historySize := ⟨halloc.inv, rfl⟩
  have hmeets := Machine.meets_of_forall step hops s.initialised
  constructor
  · exact (Machine.always_of_meets (fun t op ht hop => (hstep t op ht hop).1) hinit hmeets).mono
      fun t ht => ht.1.inRange
  · exact Machine.trace_of_meets (Q := fun o => ∀ p : ProcessObs, o = some p → p.InRange) hstep hinit hmeets

/-- An estimator as it is created: a history of `n` spectra, no lookahead. -/
def created (n : Nat) : BinaryDelayEstimator :=
  { meanBitCounts := List.replicate (n + 1) 0, bitCounts := List.replicate n 0, binaryNearHistory := [0]
    nearHistorySize := 1, historySize := n, minimumProbability := 0, lastDelayProbability := 0, lastDelay := 0
    robustValidationEnabled := false, allowedOffset := 0, lastCandidateDelay := 0, compareDelay := 0
    candidateHits := 0, histogram := List.replicate (n + 1) 0, lastDelayHistogram := 0, lookahead := 0
    farend := ⟨List.replicate n 0, List.replicate n 0, n⟩, written := 0 }

theorem created_allocated {n : Nat} (h : 2 ≤ n) : (created n).Allocated :=
  ⟨h, rfl, List.length_replicate, List.length_replicate, List.length_replicate, List.length_replicate,
    Int.le_refl 0, Int.zero_lt_one⟩

theorem processBinarySpectrum_inRange_four_calls :
    Machine.Always step InRange (created 2).initialised [.addFar 5, .process 3, .softResetFar (-1), .softReset 7] ∧
    ∀ o ∈ Machine.trace step (created 2).initialised [.addFar 5, .process 3, .softResetFar (-1), .softReset 7],
      ∀ p, o = some p → p.InRange :=
  processBinarySpectrum_inRange (created 2) (created_allocated (by decide)) _ (by
    simp only [List.mem_cons, List.not_mem_nil, or_false, forall_eq_or_imp, forall_eq]
    exact ⟨trivial, trivial, Nat.lt_succ_self 1, trivial⟩)

end BinaryDelayEstimator

end WebRtc.Delay
