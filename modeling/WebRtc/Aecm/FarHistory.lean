import WebRtc.Aecm.Channel
import WebRtc.Aecm.FarLine
import WebRtc.Lib.Circular

/-!
# The two far-end histories of the AECM (`aecm_core.c`, `aecm_core_c.c`)

| here | there |
| --- | --- |
| `maxDelay`, `partLen2`  | `MAX_DELAY`, `PART_LEN2` (aecm_defines.h:22-26) |
| `FarHistory`            | the fields of `AecmCore` and of its `aecmfloat` (aecm_core.h:43-63) for it |
| `initHistory`           | the same fields in `WebRtcAecm_InitCore` (aecm_core.c:383) |
| `Transformed`           | what `TimeToFrequencyDomain` (aecm_core_c.c:193) gives: the bins, their magnitudes, the Q-domain |
| `copyFixFFT2Float`      | `CopyFixFFT2Float` (aecm_core_c.c:868) |
| `updateFarHistory`      | `WebRtcAecm_UpdateFarHistory` (aecm_core.c:156) |
| `alignedFarend`         | `WebRtcAecm_AlignedFarend` (:190) |
| `writeFloatHistory`, `processBlockwithFloat` | `WebRtcAecm_ProcessBlockwithFloat` (aecm_core_c.c:1162-1257) |
| `floatSlot`             | the slot it reads, and `UpdateH` (:937) too |

The float path writes at a position and then steps it modulo `MAX_DELAY`; the fixed path steps first
and wraps by comparison, from a start position that is no slot. Both keep the last `MAX_DELAY` blocks,
so what a block reads at a delay is what came in that many blocks ago (`histories_aligned`).
-/

namespace WebRtc.Aecm

open Machine Circular

abbrev maxDelay : Nat := 25
abbrev partLen2 : Nat := 512

structure ComplexInt16 where
  real : Int
  imag : Int
deriving DecidableEq, Repr

/-- The scaling is a `WebRtcSpl_NormW16`, so it is at most 15. -/
structure Transformed where
  freqSignal : List ComplexInt16
  freqSignalAbs : List Int
  q : Int
  length_freqSignal : freqSignal.length = partLen1
  length_abs : freqSignalAbs.length = partLen1
  q_le : q ≤ 15

structure FarHistory where
  farHistory : List Int
  farHistoryComplex : List ComplexInt16
  farQDomains : List Int
  farHistoryPos : Int
  farSpectrumHistory : List Float32
  farWritePosition : Int
  currentDelay : Int
  fixedDelay : Int
  enablefloatpro : Bool

/-- What a block has when it reaches the histories: its far end, its near end and the return value of
`WebRtc_DelayEstimatorProcessFix`. -/
structure FarBlock where
  far : Transformed
  near : Transformed
  estimate : Int

/-- What the block reads: the float slot, the aligned fixed slot, its Q-domain. -/
structure AlignedFar where
  floatSlot : List Float32
  farSpectrum : List Int
  farQ : Int

/-- The `k`-th of the blocks of `w` elements of an array. -/
def slot {α : Type} (w : Nat) (l : List α) (k : Nat) : List α := (l.drop (k * w)).take w

namespace FarHistory

def initHistory : FarHistory where
  farHistory := List.replicate (partLen1 * maxDelay) 0
  farHistoryComplex := List.replicate (partLen1 * maxDelay) ⟨0, 0⟩
  farQDomains := List.replicate maxDelay 0
  farHistoryPos := maxDelay
  farSpectrumHistory := List.replicate (partLen2 * maxDelay) 0
  farWritePosition := 0
  currentDelay := 0
  fixedDelay := -1
  enablefloatpro := true

/-- The last of the 257 bins has no place in the 512 floats. -/
def copyFixFFT2Float (freqSignal : List ComplexInt16) (zeros : Int) : List Float32 :=
  let normalize : Float32 :=
    if zeros > 0 then 1 / Float32.ofInt (2 ^ zeros.toNat) else Float32.ofInt (2 ^ (-zeros).toNat)
  (freqSignal.take partLen).flatMap fun c => [Float32.ofInt c.real * normalize, Float32.ofInt c.imag * normalize]

def writeFloatHistory (self : FarHistory) (far : Transformed) : FarHistory :=
  { self with
    farSpectrumHistory :=
      memcpy self.farSpectrumHistory (self.farWritePosition.toNat * partLen2) (copyFixFFT2Float far.freqSignal far.q)
    farWritePosition := (self.farWritePosition + 1).tmod maxDelay }

/-- The delay of the block: an unknown one is assumed to be zero. -/
def blockDelay (self : FarHistory) (estimate : Int) : Int :=
  if self.fixedDelay ≥ 0 then self.fixedDelay else if estimate = -2 then 0 else estimate

def withDelay (self : FarHistory) (delay : Int) : FarHistory := { self with currentDelay := delay }

def floatSlot (self : FarHistory) : List Float32 :=
  slot partLen2 self.farSpectrumHistory ((self.farWritePosition - self.currentDelay + maxDelay).tmod maxDelay).toNat

def updateFarHistory (self : FarHistory) (farSpectrum : List Int)
    (farSpectrumComplex : List ComplexInt16) (farQ : Int) :
    FarHistory :=
  -- Get new buffer position
  let pos := if self.farHistoryPos + 1 ≥ maxDelay then 0 else self.farHistoryPos + 1
  { self with farHistoryPos := pos
              farQDomains := self.farQDomains.set pos.toNat farQ
              farHistory := memcpy self.farHistory (pos.toNat * partLen1) farSpectrum
              farHistoryComplex := memcpy self.farHistoryComplex (pos.toNat * partLen1) farSpectrumComplex }

/-- The spectrum and its Q-domain. -/
def alignedFarend (self : FarHistory) (delay : Int) : List Int × Int :=
  let pos := self.farHistoryPos - delay
  -- Check buffer position
  let pos := if pos < 0 then pos + maxDelay else pos
  (slot partLen1 self.farHistory pos.toNat, self.farQDomains.getD pos.toNat 0)

/-- `none` is the return value -1. -/
def processBlockwithFloat (self : FarHistory) (b : FarBlock) : FarHistory × Option AlignedFar :=
  let self := if self.enablefloatpro then self.writeFloatHistory b.far else self
  -- `WebRtc_AddFarSpectrumFix` and the delay estimator
  if b.far.q > 15 ∨ b.estimate = -1 then (self, none)
  else
    let self := self.withDelay (self.blockDelay b.estimate + 1)
    let floats := if self.enablefloatpro then self.floatSlot else []
    -- Save far-end history; `dfw` is the near end's by now.
    let self := self.updateFarHistory b.far.freqSignalAbs b.near.freqSignal b.far.q
    let aligned := self.alignedFarend (self.currentDelay - 1)
    (self, some { floatSlot := floats, farSpectrum := aligned.1, farQ := aligned.2 })

end FarHistory

/-! ## Slots of a flat array -/

section Slots
variable {α : Type} {w : Nat}

theorem slot_getElem? (l : List α) (k i : Nat) : (slot w l k)[i]? = if i < w then l[k * w + i]? else none := by
  rw [slot, List.getElem?_take]
  split
  · rw [List.getElem?_drop]
  · rfl

theorem slot_memcpy_same {l src : List α} {k : Nat} (hsrc : src.length = w) (hk : k * w + w ≤ l.length) :
    slot w (memcpy l (k * w) src) k = src := by
  apply List.ext_getElem?
  intro i
  rw [slot_getElem?, RingBuffer.memcpy_getElem? (by omega), hsrc]
  by_cases hi : i < w
  · rw [if_pos hi, if_pos (by omega), Nat.add_sub_cancel_left]
  · rw [if_neg hi, List.getElem?_eq_none (by omega)]

theorem slots_apart {j k i w : Nat} (hne : j ≠ k) (hi : i < w) : ¬ (k * w ≤ j * w + i ∧ j * w + i < k * w + w) := by
  rcases Nat.lt_or_gt_of_ne hne with h | h
  · have hstep : j * w + w ≤ k * w := by
      rw [← Nat.succ_mul]
      exact Nat.mul_le_mul_right w h
    omega
  · have hstep : k * w + w ≤ j * w := by
      rw [← Nat.succ_mul]
      exact Nat.mul_le_mul_right w h
    omega

theorem slot_memcpy_other {l src : List α} {j k : Nat} (hne : j ≠ k) (hsrc : src.length = w)
    (hk : k * w + w ≤ l.length) :
    slot w (memcpy l (k * w) src) j = slot w l j := by
  apply List.ext_getElem?
  intro i
  rw [slot_getElem?, slot_getElem?, RingBuffer.memcpy_getElem? (by omega), hsrc]
  by_cases hi : i < w
  · rw [if_pos hi, if_pos hi, if_neg (slots_apart hne hi)]
  · rw [if_neg hi, if_neg hi]

theorem slot_replicate (x : α) {n k : Nat} (hk : k < n) : slot w (List.replicate (w * n) x) k = List.replicate w x := by
  have hfit : k * w + w ≤ w * n := by
    rw [← Nat.succ_mul, Nat.mul_comm]
    exact Nat.mul_le_mul_left w hk
  rw [slot, List.drop_replicate, List.take_replicate]
  congr 1
  omega

theorem write_fits {n k : Nat} {l src : List α} (hl : l.length = w * n) (hsrc : src.length = w) (hk : k < n) :
    k * w + src.length ≤ l.length := by
  rw [hsrc, ← Nat.succ_mul, hl, Nat.mul_comm]
  exact Nat.mul_le_mul_left w hk

theorem length_memcpy_slot {n k : Nat} {l src : List α} (hl : l.length = w * n) (hsrc : src.length = w) (hk : k < n) :
    (memcpy l (k * w) src).length = w * n := by
  rw [RingBuffer.memcpy_length (write_fits hl hsrc hk), hl]

/-- A write to the next slot of a circular history. -/
theorem recent_memcpy {n p : Nat} {l src rest : List α} {past : List (List α)} (hp : p < n) (hl : l.length = w * n)
    (hsrc : src.length = w) (hr : Recent n (slot w l) rest p past) :
    Recent n (slot w (memcpy l (next n p * w) src)) rest (next n p) (src :: past) := by
  have hfit := write_fits hl hsrc (next_lt p (Nat.lt_of_le_of_lt (Nat.zero_le p) hp))
  rw [hsrc] at hfit
  exact hr.push hp (slot_memcpy_same hsrc hfit) fun k _ hk => slot_memcpy_other hk hsrc hfit

end Slots

/-! ## What the blocks left -/

namespace FarBlock

def delay (b : FarBlock) : Int := if b.estimate = -2 then 0 else b.estimate

/-- The far end as the float path keeps it. -/
def floats (b : FarBlock) : List Float32 := FarHistory.copyFixFFT2Float b.far.freqSignal b.far.q

theorem length_floats (b : FarBlock) : b.floats.length = partLen2 := by
  have hl := b.far.length_freqSignal
  have hmin : min partLen partLen1 * 2 = partLen2 := rfl
  simp [floats, FarHistory.copyFixFFT2Float, List.length_flatMap, List.map_const', hl, hmin]

end FarBlock

/-- The far end of the block `d` blocks ago, or the initial zeros; the newest block is the first of `past`. -/
def ago (past : List FarBlock) (d : Nat) : AlignedFar where
  floatSlot := (past.map FarBlock.floats).getD d (List.replicate partLen2 0)
  farSpectrum := (past.map fun b => b.far.freqSignalAbs).getD d (List.replicate partLen1 0)
  farQ := (past.map fun b => b.far.q).getD d 0

/-- A block is aligned with the far end of the block its delay ago. -/
def lookBack (past : List FarBlock) (b : FarBlock) : List FarBlock × Option AlignedFar :=
  (b :: past, some (ago (b :: past) b.delay.toNat))

namespace FarHistory

/-- Both histories hold `past`, the last block in slot `p`. -/
structure Synced (s : FarHistory) (p : Nat) (past : List FarBlock) : Prop where
  pos_lt : p < maxDelay
  writePosition : s.farWritePosition = next maxDelay p
  /-- Before the first block the position is not that of a slot. -/
  historyPos : s.farHistoryPos = p ∨ s.farHistoryPos = maxDelay ∧ p + 1 = maxDelay
  length_floats : s.farSpectrumHistory.length = partLen2 * maxDelay
  length_history : s.farHistory.length = partLen1 * maxDelay
  length_qDomains : s.farQDomains.length = maxDelay
  floats : Recent maxDelay (slot partLen2 s.farSpectrumHistory) (List.replicate partLen2 0) p (past.map FarBlock.floats)
  history : Recent maxDelay (slot partLen1 s.farHistory) (List.replicate partLen1 0) p
    (past.map fun b => b.far.freqSignalAbs)
  qDomains : Recent maxDelay (fun k => s.farQDomains.getD k 0) 0 p (past.map fun b => b.far.q)
  fixedDelay : s.fixedDelay = -1
  enablefloatpro : s.enablefloatpro = true

theorem synced_init : initHistory.Synced 24 [] where
  pos_lt := by simp
  writePosition := by simp [initHistory, next]
  historyPos := by simp [initHistory]
  length_floats := by simp [initHistory]
  length_history := by simp [initHistory]
  length_qDomains := by simp [initHistory]
  floats := Recent.init (by simp) fun k hk => slot_replicate 0 hk
  history := Recent.init (by simp) fun k hk => slot_replicate 0 hk
  qDomains := Recent.init (by simp) fun k hk => by simp [initHistory, List.getD_eq_getElem?_getD, hk]
  fixedDelay := rfl
  enablefloatpro := rfl

section Step
variable {s : FarHistory} {p : Nat} {past : List FarBlock}

/-- The slot the float path reads once its position has been stepped to `next maxDelay p`. -/
theorem floatSlot_eq_back {d : Nat} (hp : p < maxDelay) (hd : d < maxDelay) :
    (((next maxDelay p : Nat) : Int) - (d + 1) + maxDelay).tmod maxDelay = back maxDelay p d := by
  rw [Int.tmod_eq_emod_of_nonneg (by unfold maxDelay at *; omega)]
  unfold next
  by_cases hlast : p + 1 < maxDelay
  · rw [if_pos hlast]
    by_cases h : d ≤ p
    · rw [back_of_le hp h]
      unfold maxDelay at *
      omega
    · rw [back_of_lt (by omega) hd]
      unfold maxDelay at *
      omega
  · rw [if_neg hlast, back_of_le hp (by omega)]
    unfold maxDelay at *
    omega

/-- The slot the fixed path reads. -/
theorem alignedPos_eq_back {d : Nat} (hp : p < maxDelay) (hd : d < maxDelay) :
    (if (p : Int) - d < 0 then (p : Int) - d + maxDelay else p - d) = back maxDelay p d := by
  by_cases h : d ≤ p
  · rw [if_neg (by omega), back_of_le hp h]
    omega
  · rw [if_pos (by omega), back_of_lt (by omega) hd]
    unfold maxDelay at *
    omega

theorem tmod_eq_next (hp : p < maxDelay) : ((p : Int) + 1).tmod maxDelay = next maxDelay p := by
  rw [Int.tmod_eq_emod_of_nonneg (by omega)]
  unfold next maxDelay at *
  split <;> omega

theorem Synced.nextPos (h : s.Synced p past) :
    (if s.farHistoryPos + 1 ≥ maxDelay then 0 else s.farHistoryPos + 1) = next maxDelay p := by
  have hp := h.pos_lt
  have hpos := h.historyPos
  unfold next maxDelay at *
  split <;> split <;> omega

/-- The two writes of a block. -/
theorem Synced.write (h : s.Synced p past) (b : FarBlock) (delay : Int) :
    (((s.writeFloatHistory b.far).withDelay delay).updateFarHistory b.far.freqSignalAbs b.near.freqSignal
      b.far.q).Synced (next maxDelay p) (b :: past) := by
  have hp := h.pos_lt
  have hnext := next_lt p (Nat.lt_of_le_of_lt (Nat.zero_le p) hp)
  have hwrite : s.farWritePosition.toNat = next maxDelay p := by rw [h.writePosition, Int.toNat_natCast]
  have hpos : (if s.farHistoryPos + 1 ≥ maxDelay then 0 else s.farHistoryPos + 1).toNat = next maxDelay p := by
    rw [h.nextPos, Int.toNat_natCast]
  refine
    { pos_lt := hnext
      writePosition := ?_
      historyPos := .inl h.nextPos
      length_floats := ?_
      length_history := ?_
      length_qDomains := ?_
      floats := ?_
      history := ?_
      qDomains := ?_
      fixedDelay := h.fixedDelay
      enablefloatpro := h.enablefloatpro }
  all_goals simp only [updateFarHistory, withDelay, writeFloatHistory, hwrite, hpos]
  · rw [h.writePosition, tmod_eq_next hnext]
  · exact length_memcpy_slot h.length_floats b.length_floats hnext
  · exact length_memcpy_slot h.length_history b.far.length_abs hnext
  · rw [List.length_set, h.length_qDomains]
  · exact recent_memcpy hp h.length_floats b.length_floats h.floats
  · exact recent_memcpy hp h.length_history b.far.length_abs h.history
  · refine h.qDomains.push hp ?_ fun k hk hne => ?_
    · simp [List.getD_eq_getElem?_getD, h.length_qDomains, hnext]
    · simp [List.getD_eq_getElem?_getD, List.getElem?_set_ne (Ne.symm hne)]

theorem Synced.processBlock (h : s.Synced p past) {b : FarBlock} (hb : 0 ≤ b.delay ∧ b.delay < maxDelay) :
    (s.processBlockwithFloat b).1.Synced (next maxDelay p) (b :: past) ∧
    (s.processBlockwithFloat b).2 = (lookBack past b).2 := by
  obtain ⟨d, hd⟩ := Int.eq_ofNat_of_zero_le hb.1
  have hdlt : d < maxDelay := by omega
  have hknown : ¬ (b.far.q > 15 ∨ b.estimate = -1) := by
    have hq := b.far.q_le
    unfold FarBlock.delay at hb
    split at hb <;> omega
  have hdelay : s.blockDelay b.estimate = d := by
    rw [blockDelay, if_neg (by rw [h.fixedDelay]; omega)]
    exact hd
  have hwrite := h.write b (d + 1)
  have hp := h.pos_lt
  have hnext := hwrite.pos_lt
  have htoNat : b.delay.toNat = d := by
    rw [hd]
    exact Int.toNat_natCast d
  generalize ht : ((s.writeFloatHistory b.far).withDelay (d + 1)).updateFarHistory b.far.freqSignalAbs
    b.near.freqSignal b.far.q = t at hwrite
  have hfloats : ((s.writeFloatHistory b.far).withDelay (d + 1)).floatSlot = (ago (b :: past) d).floatSlot := by
    have hw : ((s.writeFloatHistory b.far).withDelay (d + 1)).farWritePosition = next maxDelay (next maxDelay p) := by
      rw [← hwrite.writePosition, ← ht]
      rfl
    have hmem : ((s.writeFloatHistory b.far).withDelay (d + 1)).farSpectrumHistory = t.farSpectrumHistory := by
      rw [← ht]
      rfl
    have hback := floatSlot_eq_back hnext hdlt
    rw [floatSlot, hw, hmem]
    simp only [withDelay, hback, Int.toNat_natCast]
    exact hwrite.floats d hdlt
  have haligned : t.alignedFarend d = ((ago (b :: past) d).farSpectrum, (ago (b :: past) d).farQ) := by
    have hpos : t.farHistoryPos = next maxDelay p := by
      rw [← h.nextPos, ← ht]
      rfl
    rw [alignedFarend, hpos, alignedPos_eq_back hnext hdlt, Int.toNat_natCast]
    exact Prod.ext (hwrite.history d hdlt) (hwrite.qDomains d hdlt)
  have hfloat : (if s.enablefloatpro then s.writeFloatHistory b.far else s) = s.writeFloatHistory b.far :=
    if_pos h.enablefloatpro
  have hdelay' : (s.writeFloatHistory b.far).blockDelay b.estimate = d := hdelay
  have henable : ((s.writeFloatHistory b.far).withDelay (d + 1)).enablefloatpro = true := h.enablefloatpro
  have hcurrent : t.currentDelay - 1 = d := by
    rw [← ht]
    exact Int.add_sub_cancel (d : Int) 1
  simp only [processBlockwithFloat, hfloat, if_neg hknown, hdelay', henable, if_true, ht, hcurrent, hfloats, haligned,
    lookBack, htoNat]
  exact ⟨hwrite, trivial⟩

end Step

/-- **Every block reads the same far end in both histories: the one its delay ago.** -/
theorem histories_aligned (blocks : List FarBlock) (hb : ∀ b ∈ blocks, 0 ≤ b.delay ∧ b.delay < maxDelay) :
    trace processBlockwithFloat initHistory blocks = trace lookBack [] blocks := by
  suffices h : ∀ s p past, Synced s p past → trace processBlockwithFloat s blocks = trace lookBack past blocks from
    h _ _ _ synced_init
  induction blocks with
  | nil => exact fun _ _ _ _ => rfl
  | cons b blocks ih =>
    intro s p past hs
    obtain ⟨hnext, hread⟩ := hs.processBlock (hb b List.mem_cons_self)
    rw [trace, trace, hread, ih (fun c hc => hb c (List.mem_cons_of_mem b hc)) _ _ _ hnext]
    rfl

/-- A far end with the same value in every bin, in Q`q`. -/
def flat (x q : Int) (hq : q ≤ 15) : Transformed where
  freqSignal := List.replicate partLen1 ⟨x, 0⟩
  freqSignalAbs := List.replicate partLen1 x
  q := q
  length_freqSignal := List.length_replicate
  length_abs := List.length_replicate
  q_le := hq

/-- The second block finds the first one at delay 1. -/
theorem histories_aligned_two :
    trace processBlockwithFloat initHistory [⟨flat 3 2 (by decide), flat 0 0 (by decide), 24⟩, ⟨flat 5 1 (by decide),
      flat 0 0 (by decide), 1⟩] = trace lookBack [] [⟨flat 3 2 (by decide), flat 0 0 (by decide), 24⟩,
      ⟨flat 5 1 (by decide), flat 0 0 (by decide), 1⟩] := by
  refine histories_aligned _ fun b hb => ?_
  rcases List.mem_cons.1 hb with rfl | hb
  · decide
  · rw [List.mem_singleton.1 hb]
    decide

end FarHistory

end WebRtc.Aecm
