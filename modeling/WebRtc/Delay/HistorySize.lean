import WebRtc.Delay.Range

/-!
# Changing the history size (`delay_estimator.c:436`, `delay_estimator_wrapper.c:330`)

`WebRtc_AllocateHistoryBufferMemory` gives the buffers their new size and fills what was added, but it
leaves `last_delay` and `compare_delay` as they are, and `compare_delay` starts out as the history size
the estimator was initialised with. So the size may be changed to anything that is not below
`compare_delay` and is above `last_delay` (`accessesValid_of_sizeAllowed`); an estimator without an
estimate that is made smaller reads beyond its buffers (`not_accessesValid_shrink`).
-/

namespace WebRtc.Delay

open CInt

namespace BinaryDelayEstimator

variable {s : BinaryDelayEstimator}

/-- What must hold when `processBinarySpectrum` is called: `compare_delay` is the index of an element of
`mean_bit_counts` and `histogram` that has been given a value. -/
structure ValidIndices (s : BinaryDelayEstimator) : Prop where
  compare : 0 ≤ s.compareDelay ∧ s.compareDelay ≤ s.historySize
  compare_written : s.compareDelay < s.written
  last : s.lastDelay < s.historySize

/-- Every access of a call is valid, and so is the delay it returns. -/
def AccessesValid (s : BinaryDelayEstimator) : DelayOp → Prop
  | .process x => s.ValidIndices ∧ ((s.processBinarySpectrum x).2 = -2 ∨
      (0 ≤ (s.processBinarySpectrum x).2 ∧ (s.processBinarySpectrum x).2 < s.historySize))
  | _ => True

/-- The delays the estimator holds fit the size it is given. -/
def SizeAllowed (s : BinaryDelayEstimator) : DelayOp → Prop
  | .setHistorySize n _ => s.compareDelay ≤ n ∧ s.lastDelay < n
  | .softResetFar d => d.natAbs < s.historySize
  | _ => True

/-- The smoothed counts of a grown estimator: the old ones, zeros, and the dummy element unfilled. -/
theorem grow_means {l : List Int} {h n : Nat} (hl : l.length = h + 1) (hn : h < n) (junk : Int) :
    memsetZero (realloc l (n + 1) junk) h (n - h) = l.take h ++ List.replicate (n - h) 0 ++ [junk] := by
  have hre : realloc l (n + 1) junk = l ++ List.replicate (n - h) junk := by
    rw [realloc, List.take_of_length_le (by omega), hl]
    congr 2; omega
  have hdrop : (l ++ List.replicate (n - h) junk).drop (h + (n - h)) = [junk] := by
    rw [List.drop_append, List.drop_eq_nil_of_le (by omega), List.nil_append, hl, List.drop_replicate]
    have h1 : n - h - (h + (n - h) - (h + 1)) = 1 := by omega
    rw [h1]; rfl
  rw [hre, memsetZero, hdrop, List.take_append_of_le_length (by omega)]

theorem Inv.allocate (h : s.Inv) {n : Nat} (hn : 2 ≤ n) (junk : Int) (hc : s.compareDelay ≤ n) (hl : s.lastDelay < n) :
    (s.allocateHistoryBufferMemory n junk).Inv := by
  obtain ⟨hs, hd⟩ := h
  have hlen := hs.length_means
  have hw := hs.written
  have hcw := hd.compare_written
  have hcc := hd.compare
  have hfar : (if n ≠ s.farend.historySize then s.farend.allocate n junk else s.farend).Inv n := by
    split
    · exact hs.farend.allocate n junk
    · rename_i heq
      rw [hs.farend.size] at heq
      have hsn : n = s.historySize := by simpa using heq
      rw [hsn]
      exact hs.farend
  have hlast : s.lastDelay = -2 ∨ (0 ≤ s.lastDelay ∧ s.lastDelay < n) := by
    rcases hd.last with h2 | ⟨h0, -⟩
    · exact Or.inl h2
    · exact Or.inr ⟨h0, hl⟩
  by_cases hg : n > s.historySize
  · have hm : (s.allocateHistoryBufferMemory n junk).meanBitCounts =
        s.meanBitCounts.take s.historySize ++ List.replicate (n - s.historySize) 0 ++ [junk] := by
      simp only [allocateHistoryBufferMemory, hg, decide_true, if_true]
      exact grow_means hlen hg junk
    have htake : (s.meanBitCounts.take s.historySize ++ List.replicate (n - s.historySize) 0).length = n := by
      rw [List.length_append, List.length_take, List.length_replicate]; omega
    have hwr : (s.allocateHistoryBufferMemory n junk).written = n := by
      simp only [allocateHistoryBufferMemory, hg, decide_true, if_true, hw]
    refine ⟨⟨hn, hfar, ?_, ?_, hs.lookahead, ?_⟩, ⟨⟨hcc.1, hc⟩, ?_, hlast⟩⟩
    · rw [hm, List.length_append, htake]; rfl
    · rw [hm]
      show ∀ m ∈ (s.meanBitCounts.take s.historySize ++ List.replicate (n - s.historySize) 0 ++ [junk]).take n, _
      rw [List.take_append_of_le_length (Nat.le_of_eq htake.symm), List.take_of_length_le (Nat.le_of_eq htake)]
      intro m hmem
      rcases List.mem_append.1 hmem with hmem | hmem
      · exact hs.means m hmem
      · rw [List.eq_of_mem_replicate hmem]; decide
    · rw [hwr]; exact Nat.le_refl n
    · rw [hwr]
      show s.compareDelay < n
      omega
  · have hm : (s.allocateHistoryBufferMemory n junk).meanBitCounts = s.meanBitCounts.take (n + 1) := by
      simp only [allocateHistoryBufferMemory, hg, decide_false, Bool.false_eq_true, if_false]
      exact Farend.shrink_eq (by omega) _
    have hwr : (s.allocateHistoryBufferMemory n junk).written = min s.written (n + 1) := by
      simp only [allocateHistoryBufferMemory, hg, decide_false, Bool.false_eq_true, if_false]
    refine ⟨⟨hn, hfar, ?_, ?_, hs.lookahead, ?_⟩, ⟨⟨hcc.1, hc⟩, ?_, hlast⟩⟩
    · rw [hm, List.length_take, hlen]
      show min (n + 1) (s.historySize + 1) = n + 1
      omega
    · rw [hm]
      show ∀ m ∈ (s.meanBitCounts.take (n + 1)).take n, _
      rw [List.take_take, Nat.min_eq_left (Nat.le_succ n)]
      intro m hmem
      exact hs.means m (List.take_subset_take_left _ (by omega) hmem)
    · rw [hwr]
      show n ≤ min s.written (n + 1)
      omega
    · rw [hwr]
      show s.compareDelay < (min s.written (n + 1) : Nat)
      omega

theorem Inv.setHistorySize (h : s.Inv) {n junk : Int} (hc : s.compareDelay ≤ n ∧ s.lastDelay < n) :
    (s.setHistorySize n junk).1.Inv := by
  unfold BinaryDelayEstimator.setHistorySize
  split
  · exact h
  · exact h.allocate (by omega) junk (by omega) (by omega)

/-- **One call**, a change of the size included. -/
theorem step_inv_sized (h : s.Inv) {op : DelayOp} (hop : s.SizeAllowed op) :
    (s.step op).1.Inv ∧ s.AccessesValid op := by
  cases op with
  | setHistorySize n junk => exact ⟨h.setHistorySize hop, trivial⟩
  | process x =>
    have hobs := (h.obs x).delay
    refine ⟨(step_inv h (.process x) trivial).1, ⟨h.delays.compare, h.delays.compare_written, ?_⟩, hobs⟩
    rcases h.delays.last with h2 | ⟨-, hlt⟩
    · rw [h2]; omega
    · exact hlt
  | addFar u => exact ⟨(step_inv h (.addFar u) trivial).1, trivial⟩
  | softResetFar d => exact ⟨(step_inv h (.softResetFar d) hop).1, trivial⟩
  | softReset d => exact ⟨(step_inv h (.softReset d) trivial).1, trivial⟩

/-- **Every access is valid in every run whose changes of size fit the delays held.** -/
theorem accessesValid_of_sizeAllowed (s : BinaryDelayEstimator) (halloc : s.Allocated) (ops : List DelayOp)
    (hops : Machine.Meets step SizeAllowed s.initialised ops) :
    Machine.Meets step AccessesValid s.initialised ops :=
  Machine.meets_of_inv (P := Inv) (fun _ _ ht hop => step_inv_sized ht hop) halloc.inv hops

theorem accessesValid_grow :
    Machine.Meets step AccessesValid (created 10).initialised [.setHistorySize 20 0, .addFar 5, .process 3] :=
  accessesValid_of_sizeAllowed (created 10) (created_allocated (by decide)) _
    ⟨⟨by decide, by decide⟩, trivial, trivial, trivial⟩

/-- **Shrinking before there is an estimate.** `compare_delay` is still 100, in buffers of 11. -/
theorem not_accessesValid_shrink :
    ¬ Machine.Meets step AccessesValid (created 100).initialised [.setHistorySize 10 0, .process 0] := by
  rintro ⟨-, ⟨hv, -⟩, -⟩
  have h : (100 : Int) ≤ 10 := hv.compare.2
  omega

end BinaryDelayEstimator

end WebRtc.Delay
