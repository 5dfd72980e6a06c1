import WebRtc.Aecm.FarLevels

/-!
# The step size of the channel estimation (`aecm_core.c:919-951`)

| here | there |
| --- | --- |
| `muMin`, `muMax`, `muDiff`, `convLen`, `convLen2` | `MU_MIN`, `MU_MAX`, `MU_DIFF`, `CONV_LEN`, `CONV_LEN2` (aecm_defines.h) |
| `Levels.calcStepSize`, `Levels.divisor` | `WebRtcAecm_CalcStepSize` and what it divides by |
| `Estimation.block`      | what `WebRtcAecm_ProcessBlock` does to the channels of a block (aecm_core_c.c:367-484) |

The range the code divides by is never empty, so it never divides by zero. Above the minimum the step
size is clamped, below it is not: the minimum rises slowly under loud blocks, the VAD level waits up to
1024 blocks before it follows, and in between a block can be loud enough for the VAD and still lie far
below the minimum (`legal_iff`).
-/

namespace WebRtc.Aecm

open CInt Machine

abbrev muMin : Int := 10
abbrev muMax : Int := 1
abbrev muDiff : Int := 9
abbrev convLen : Int := 512
abbrev convLen2 : Int := 1024

namespace Levels

/-- The divisor of `WebRtcSpl_DivW32W16`, where it is called. -/
def divisor (l : Levels) : Option Int :=
  if l.currentVADValue ∧ l.startupState > 0 ∧ l.farEnergyMin < l.farEnergyMax then some l.farEnergyMaxMin else none

def calcStepSize (l : Levels) : Int :=
  if !l.currentVADValue then
    -- Far end energy level too low, no channel update
    0
  else if l.startupState > 0 then
    let mu :=
      if l.farEnergyMin ≥ l.farEnergyMax then muMin
      else
        let tmp32 := divW32W16 (i16 (l.farLogEnergy - l.farEnergyMin) * muDiff) l.farEnergyMaxMin
        i16 (muMin - 1 - i16 tmp32)
    -- Equivalent with maximum step size of 2^-MU_MAX
    if mu < muMax then muMax else mu
  else muMax

end Levels

structure StepSize where
  mu : Int
  divisor : Option Int
deriving DecidableEq, Repr

def StepSize.Legal (o : StepSize) : Prop := o.mu = 0 ∨ muMax ≤ o.mu ∧ o.mu ≤ muMin

/-- The spectra, Q-domains and the near energy of a block. -/
structure EnergyBlock where
  farSpectrum : Bins
  farQ : Int
  dfaNoisy : Bins
  dfaNoisyQDomain : Int
  nearEner : Int

def EnergyBlock.farLog (b : EnergyBlock) : Int := Channels.logOfEnergyInQ8 (u32 (binSum b.farSpectrum)) b.farQ

structure Estimation where
  channels : Channels
  totCount : Int

/-- There are three states: the first `CONV_LEN` blocks, another `CONV_LEN` blocks, the rest. -/
def nextStartup (startupState totCount : Int) : Int :=
  if startupState < 2 then (if totCount ≥ convLen then 1 else 0) + (if totCount ≥ convLen2 then 1 else 0)
  else startupState

def Estimation.block (s : Estimation) (b : EnergyBlock) : Estimation × StepSize :=
  let c := { s.channels with startupState := nextStartup s.channels.startupState s.totCount
                             dfaNoisyQDomain := b.dfaNoisyQDomain }
  -- Calculate log(energy) and update energy threshold levels
  let e := c.calcEnergies b.farSpectrum b.farQ b.nearEner
  let mu := e.1.levels.calcStepSize
  ({ channels := (e.1.updateChannel b.farSpectrum b.farQ b.dfaNoisy mu e.2).1, totCount := u32 (s.totCount + 1) },
    { mu := mu, divisor := e.1.levels.divisor })

/-! ## The levels of a run -/

/-- The levels and the block count: all a step size depends on. -/
structure Heard where
  levels : Levels
  totCount : Int

def Levels.inState (l : Levels) (startupState : Int) : Levels := { l with startupState := startupState }

def Heard.next (h : Heard) (farLog : Int) : Heard where
  levels := (h.levels.inState (nextStartup h.levels.startupState h.totCount)).hear farLog
  totCount := u32 (h.totCount + 1)

namespace Estimation

def heard (s : Estimation) : Heard := ⟨s.channels.levels, s.totCount⟩

theorem block_heard (s : Estimation) (b : EnergyBlock) :
    (s.block b).1.heard = s.heard.next b.farLog ∧
    (s.block b).2 = ⟨(s.heard.next b.farLog).levels.calcStepSize, (s.heard.next b.farLog).levels.divisor⟩ := by
  have hl := Channels.levels_calcEnergies { s.channels with
    startupState := nextStartup s.channels.startupState s.totCount, dfaNoisyQDomain := b.dfaNoisyQDomain }
    b.farSpectrum b.farQ b.nearEner
  have hnext : (s.heard.next b.farLog).levels = _ := hl.symm
  refine ⟨?_, ?_⟩
  · simp only [heard, block, Channels.levels_updateChannel, hl]
    rfl
  · simp only [block, hl]
    rfl

end Estimation

namespace Levels

variable {l : Levels}

/-! ## One call -/

/-- The difference and the quotient the step size is computed from fit their 16 bits. -/
def Fits (l : Levels) : Prop :=
  l.currentVADValue = false ∨ l.startupState ≤ 0 ∨ l.farEnergyMax ≤ l.farEnergyMin ∨
    -32768 ≤ l.farLogEnergy - l.farEnergyMin ∧
    -32758 * (l.farEnergyMax - l.farEnergyMin) < 9 * (l.farLogEnergy - l.farEnergyMin) ∧
    9 * (l.farLogEnergy - l.farEnergyMin) < 32768 * (l.farEnergyMax - l.farEnergyMin)

/-- The far end is less than two ninths of the range below the minimum. -/
def Close (l : Levels) : Prop :=
  l.currentVADValue = false ∨ l.startupState ≤ 0 ∨ l.farEnergyMax ≤ l.farEnergyMin ∨
    9 * (l.farEnergyMin - l.farLogEnergy) < 2 * (l.farEnergyMax - l.farEnergyMin)

theorem range_of_lt (h : l.Inv) (hlt : l.farEnergyMin < l.farEnergyMax) :
    l.farEnergyMaxMin = l.farEnergyMax - l.farEnergyMin ∧ l.farEnergyMax ≤ 32767 := by
  have hm := h.farMin
  rcases h.farMax with ⟨-, hle, heq⟩ | ⟨hnone, -⟩
  · exact ⟨heq, hle⟩
  · omega

theorem divisor_ne_zero (h : l.Inv) : l.divisor ≠ some 0 := by
  unfold divisor
  split
  · next hcall =>
    rw [(range_of_lt h hcall.2.2).1]
    intro heq
    have hzero := Option.some.inj heq
    omega
  · simp

/-- A quotient towards zero is at least -1 exactly when the dividend is not two divisors below zero. -/
theorem neg_one_le_tdiv {a d : Int} (hd : 0 < d) : -1 ≤ a.tdiv d ↔ -a < 2 * d := by
  rcases Int.le_total 0 a with ha | ha
  · rw [Int.tdiv_eq_ediv_of_nonneg ha]
    have hq := Int.ediv_nonneg ha (Int.le_of_lt hd)
    omega
  · have hneg : a.tdiv d = -(-a / d) := by
      rw [← Int.tdiv_eq_ediv_of_nonneg (by omega), Int.neg_tdiv, Int.neg_neg]
    rw [hneg, ← Int.ediv_lt_iff_lt_mul hd]
    omega

theorem tdiv_bounds {a d b c : Int} (hd : 0 < d) (hlo : -(b * d) < a) (hhi : a < c * d) (hb : 0 ≤ b) (hc : 0 < c) :
    -b ≤ a.tdiv d ∧ a.tdiv d < c := by
  rcases Int.le_total 0 a with ha | ha
  · rw [Int.tdiv_eq_ediv_of_nonneg ha, Int.ediv_lt_iff_lt_mul hd]
    have hq := Int.ediv_nonneg ha (Int.le_of_lt hd)
    exact ⟨by omega, hhi⟩
  · have hneg : a.tdiv d = -(-a / d) := by
      rw [← Int.tdiv_eq_ediv_of_nonneg (by omega), Int.neg_tdiv, Int.neg_neg]
    have hq := Int.ediv_nonneg (show 0 ≤ -a by omega) (Int.le_of_lt hd)
    have hlt : -a / d < b + 1 := by
      rw [Int.ediv_lt_iff_lt_mul hd, Int.add_mul]
      omega
    rw [hneg]
    omega

theorem calcStepSize_legal_iff (h : l.Inv) (hlog : l.farLogEnergy ≤ 32767) (hfits : l.Fits) :
    (l.calcStepSize = 0 ∨ muMax ≤ l.calcStepSize ∧ l.calcStepSize ≤ muMin) ↔ l.Close := by
  unfold muMax muMin
  by_cases hoff : l.currentVADValue = false
  · have hmu : l.calcStepSize = 0 := by simp [calcStepSize, hoff]
    rw [hmu]
    exact iff_of_true (.inl rfl) (.inl hoff)
  · have hon : l.currentVADValue = true := by simpa using hoff
    by_cases hstart : l.startupState ≤ 0
    · have hmu : l.calcStepSize = 1 := by simp [calcStepSize, hon, Int.not_lt.2 hstart]
      rw [hmu]
      exact iff_of_true (by omega) (.inr (.inl hstart))
    · by_cases hspan : l.farEnergyMax ≤ l.farEnergyMin
      · have hmu : l.calcStepSize = 10 := by simp [calcStepSize, hon, Int.not_le.1 hstart, hspan, muMax, muMin]
        rw [hmu]
        exact iff_of_true (by omega) (.inr (.inr (.inl hspan)))
      · -- the quotient is computed, and nothing wraps
        have hm := h.farMin
        obtain ⟨hrange, hle⟩ := range_of_lt h (Int.not_le.1 hspan)
        obtain ⟨hlow, hlo, hhi⟩ : -32768 ≤ l.farLogEnergy - l.farEnergyMin ∧
            -32758 * (l.farEnergyMax - l.farEnergyMin) < 9 * (l.farLogEnergy - l.farEnergyMin) ∧
            9 * (l.farLogEnergy - l.farEnergyMin) < 32768 * (l.farEnergyMax - l.farEnergyMin) := by
          rcases hfits with h0 | h0 | h0 | h0
          · exact absurd h0 hoff
          · exact absurd h0 hstart
          · exact absurd h0 hspan
          · exact h0
        have hd : 0 < l.farEnergyMax - l.farEnergyMin := by omega
        have hq := tdiv_bounds (a := (l.farLogEnergy - l.farEnergyMin) * 9) (b := 32758) (c := 32768) hd (by omega)
          (by omega) (by omega) (by omega)
        have hone := neg_one_le_tdiv (a := (l.farLogEnergy - l.farEnergyMin) * 9) hd
        have hdiff : i16 (l.farLogEnergy - l.farEnergyMin) = l.farLogEnergy - l.farEnergyMin := i16_id hlow (by omega)
        generalize hquot : ((l.farLogEnergy - l.farEnergyMin) * 9).tdiv (l.farEnergyMax - l.farEnergyMin) = q at hq hone
        have hdiv : divW32W16 (i16 (l.farLogEnergy - l.farEnergyMin) * muDiff) l.farEnergyMaxMin = q := by
          rw [hdiff, hrange, divW32W16, if_pos (by omega), hquot]
          exact i32_id (by omega) (by omega)
        have hmu : l.calcStepSize = if 9 - q < 1 then 1 else 9 - q := by
          have hnarrow : i16 q = q := i16_id (by omega) (by omega)
          have hwrap : i16 (10 - 1 - q) = 9 - q := i16_id (by omega) (by omega)
          rw [calcStepSize, hon, Bool.not_true, if_neg (by simp), if_pos (Int.not_le.1 hstart)]
          dsimp only
          rw [if_neg (show ¬ l.farEnergyMin ≥ l.farEnergyMax by omega), hdiv, hnarrow, hwrap]
        have hclose : l.Close ↔ -1 ≤ q := by
          rw [hone]
          constructor
          · rintro (h0 | h0 | h0 | h0)
            · exact absurd h0 hoff
            · exact absurd h0 hstart
            · exact absurd h0 hspan
            · omega
          · intro h0
            exact .inr (.inr (.inr (by omega)))
        rw [hmu, hclose]
        split <;> omega

/-! ## The Q-domains of `TimeToFrequencyDomain` -/

/-- Levels of far ends whose Q-domains are in range. -/
structure Tame (l : Levels) : Prop where
  order : 1026 ≤ l.farEnergyMin ∧ l.farEnergyMin ≤ l.farEnergyMax ∧ l.farEnergyMax ≤ 9343 ∨
    l.farEnergyMax = -32768 ∧ l.farEnergyMin = 32767
  farVad : 1025 ≤ l.farEnergyVAD ∧ l.farEnergyVAD ≤ 10300

theorem vadRegion_range {m : Int} (h : 1026 ≤ m ∧ m ≤ 9343) : 230 ≤ vadRegion m ∧ vadRegion m ≤ 919 := by
  unfold vadRegion farEnergyVadRegion
  dsimp only
  rw [i16_id (show -32768 ≤ 2560 - m by omega) (by omega)]
  by_cases hpos : 2560 - m > 0
  · rw [if_pos hpos, i16_id (show -32768 ≤ (2560 - m) * 230 / 512 by omega) (by omega), i16_id (by omega) (by omega)]
    omega
  · rw [if_neg hpos]
    exact ⟨by decide, by decide⟩

theorem movedMin_eq {x : Int} (hm : 1026 ≤ l.farEnergyMin ∧ l.farEnergyMin ≤ 9343)
    (hx : 1025 < x ∧ x ≤ 9343) :
    l.movedMin x =
      if l.farEnergyMin > x then
        l.farEnergyMin - (l.farEnergyMin - x) / (if l.startupState = 0 then 4 else 8)
      else l.farEnergyMin + (x - l.farEnergyMin) / (if l.startupState = 0 then 256 else 2048) := by
  rw [movedMin, (asymFilt_between _ _ (by omega) (by omega)).1, minUp, minDown]
  split
  · split <;> rfl
  · split <;> rfl

theorem movedMax_eq {x : Int} (hm : 1026 ≤ l.farEnergyMax ∧ l.farEnergyMax ≤ 9343)
    (hx : 1025 < x ∧ x ≤ 9343) :
    l.movedMax x =
      if l.farEnergyMax > x then l.farEnergyMax - (l.farEnergyMax - x) / 2048
      else l.farEnergyMax + (x - l.farEnergyMax) / (if l.startupState = 0 then 4 else 16) := by
  rw [movedMax, (asymFilt_between _ _ (by omega) (by omega)).1, maxUp]
  split
  · rfl
  · split <;> rfl

/-- The first far end is both levels. -/
theorem moved_first {x : Int} (h : l.farEnergyMax = -32768 ∧ l.farEnergyMin = 32767) :
    l.movedMin x = x ∧ l.movedMax x = x := by
  rw [movedMin, movedMax, Channels.asymFilt, if_pos (.inl h.2), Channels.asymFilt, if_pos (.inr h.1)]
  exact ⟨rfl, rfl⟩

/-- The two levels a far end moves, in order. -/
theorem moved_order (h : l.Tame) {farLog : Int} (hx : 1025 < farLog ∧ farLog ≤ 9343) :
    1026 ≤ l.movedMin farLog ∧ l.movedMin farLog ≤ l.movedMax farLog ∧ l.movedMax farLog ≤ 9343 := by
  rcases h.order with ⟨hlo, hle, hhi⟩ | hfirst
  · rw [movedMin_eq ⟨hlo, by omega⟩ hx, movedMax_eq ⟨by omega, hhi⟩ hx]
    by_cases hs : l.startupState = 0
    · simp only [hs, if_true]
      split <;> split <;> omega
    · simp only [hs, if_false]
      split <;> split <;> omega
  · obtain ⟨hmin, hmax⟩ := moved_first (x := farLog) hfirst
    rw [hmin, hmax]
    omega

theorem movedVad_tame (h : l.Tame) {farLog : Int} (hx : 1025 < farLog ∧ farLog ≤ 9343) :
    1025 ≤ l.movedVad farLog ∧ l.movedVad farLog ≤ 10300 := by
  have ho := moved_order h hx
  have hr := vadRegion_range (m := l.movedMin farLog) (by omega)
  have hv := h.farVad
  unfold movedVad
  split
  · rw [i16_id (by omega) (by omega)]
    omega
  · split
    · next hbehind =>
      have hgt : l.farEnergyVAD > farLog := by simpa [behind] using hbehind
      rw [i16_id (by omega) (by omega)]
      omega
    · exact hv

theorem Tame.hear (h : l.Tame) {farLog : Int} (hx : farLog ≤ 9343) : (l.hear farLog).Tame := by
  unfold Levels.hear
  split
  · next hfar => exact ⟨.inl (moved_order h ⟨hfar, hx⟩), movedVad_tame h ⟨hfar, hx⟩⟩
  · exact ⟨h.order, h.farVad⟩

/-- The levels a far end has just moved are not too far from it. -/
theorem moved_fits (h : l.Tame) {farLog : Int} (hx : 1025 < farLog ∧ farLog ≤ 9343) (hs : l.startupState ≠ 0)
    (hlt : l.movedMin farLog < l.movedMax farLog) :
    -32768 ≤ farLog - l.movedMin farLog ∧
    -32758 * (l.movedMax farLog - l.movedMin farLog) < 9 * (farLog - l.movedMin farLog) ∧
    9 * (farLog - l.movedMin farLog) < 32768 * (l.movedMax farLog - l.movedMin farLog) := by
  rcases h.order with ⟨hlo, hle, hhi⟩ | hfirst
  · rw [movedMin_eq ⟨hlo, by omega⟩ hx, movedMax_eq ⟨by omega, hhi⟩ hx] at *
    simp only [hs, if_false] at *
    split at hlt <;> split at hlt <;> omega
  · obtain ⟨hmin, hmax⟩ := moved_first (x := farLog) hfirst
    omega

/-- An active VAD has just heard a far end above its level, so the levels have moved. -/
theorem Tame.fits_hear (h : l.Tame) {farLog : Int} (hx : farLog ≤ 9343) : (l.hear farLog).Fits := by
  by_cases hfar : farLog > farEnergyMinLevel
  · have heard : l.hear farLog = (l.moved farLog).decideVad := by rw [Levels.hear, if_pos hfar]
    rw [heard]
    by_cases hs : l.startupState ≤ 0
    · exact .inr (.inl hs)
    · by_cases hlt : l.movedMin farLog < l.movedMax farLog
      · exact .inr (.inr (.inr (moved_fits h ⟨hfar, hx⟩ (by omega) hlt)))
      · exact .inr (.inr (.inl (Int.not_lt.1 hlt)))
  · refine .inl ?_
    have hv := h.farVad
    have hquiet : ¬ farLog > l.farEnergyVAD := by
      unfold farEnergyMinLevel at hfar
      omega
    rw [Levels.hear, if_neg hfar]
    exact if_neg hquiet

end Levels

namespace Channels

theorem normU32_range (a : Int) : 0 ≤ normU32 a ∧ normU32 a ≤ 31 := by
  unfold normU32
  split
  · omega
  · refine ⟨Int.natCast_nonneg _, ?_⟩
    dsimp only
    split <;> split <;> split <;> split <;> split <;> omega

theorem extractFractionPart_range (a zeros : Int) :
    0 ≤ extractFractionPart a zeros ∧ extractFractionPart a zeros ≤ 255 := by
  unfold extractFractionPart
  rw [i16_id (by omega) (by omega)]
  omega

theorem logOfEnergyInQ8_le {energy q : Int} (hq : 0 ≤ q ∧ q ≤ 15) : logOfEnergyInQ8 energy q ≤ 9343 := by
  have hz := normU32_range energy
  have hf := extractFractionPart_range energy (normU32 energy)
  unfold logOfEnergyInQ8
  dsimp only
  split
  · rw [i16_id (by omega) (by omega)]
    omega
  · omega

end Channels

namespace Estimation

open Levels

variable {s : Estimation}

theorem heard_inv (h : s.heard.levels.Inv) (b : EnergyBlock) : (s.heard.next b.farLog).levels.Inv := by
  have hset : (s.heard.levels.inState (nextStartup s.heard.levels.startupState s.heard.totCount)).Inv :=
    ⟨h.farMin, h.farMax, h.farVad⟩
  exact hset.hear (logOfEnergyInQ8_range _ _).2

theorem farLogEnergy_hear (l : Levels) (farLog : Int) : (l.hear farLog).farLogEnergy = farLog := by
  unfold Levels.hear
  split <;> rfl

theorem run_heard_inv {s0 c : Channels} {samplingFreq : Int} (h : Channels.initCore s0 samplingFreq = some c)
    (blocks : List EnergyBlock) : (run block ⟨c, 0⟩ blocks).heard.levels.Inv := by
  have hinit : (⟨c, 0⟩ : Estimation).heard.levels.Inv := Channels.levels_run_inv h []
  refine run_inv (P := fun s : Estimation => s.heard.levels.Inv) (fun s b hs => ?_) hinit blocks
  rw [(s.block_heard b).1]
  exact heard_inv hs b

/-- **Along every run the divisor is not zero, and the step sizes are legal exactly when no far end that
the VAD takes for speech lies too far below the minimum.** -/
theorem legal_iff {s0 c : Channels} {samplingFreq : Int} (h : Channels.initCore s0 samplingFreq = some c)
    (blocks : List EnergyBlock) :
    (∀ o ∈ trace block ⟨c, 0⟩ blocks, o.divisor ≠ some 0) ∧
    (Meets block (fun s b => (s.heard.next b.farLog).levels.Fits) ⟨c, 0⟩ blocks →
      ((∀ o ∈ trace block ⟨c, 0⟩ blocks, o.Legal) ↔
        Meets block (fun s b => (s.heard.next b.farLog).levels.Close) ⟨c, 0⟩ blocks)) ∧
    ((∀ b ∈ blocks, 0 ≤ b.farQ ∧ b.farQ ≤ 15) →
      Meets block (fun s b => (s.heard.next b.farLog).levels.Fits) ⟨c, 0⟩ blocks) := by
  have hinit : (⟨c, 0⟩ : Estimation).heard.levels.Inv := Channels.levels_run_inv h []
  have htame : (⟨c, 0⟩ : Estimation).heard.levels.Tame := by
    have hl : (⟨c, 0⟩ : Estimation).heard.levels = c.levels := rfl
    rw [hl, Channels.levels_initCore h]
    exact ⟨.inr ⟨rfl, rfl⟩, by simp [farEnergyMinLevel]⟩
  have hstep (s : Estimation) (b : EnergyBlock) (hs : s.heard.levels.Inv) : (s.block b).1.heard.levels.Inv := by
    rw [(s.block_heard b).1]
    exact heard_inv hs b
  refine ⟨?_, ?_, ?_⟩
  · refine trace_of_meets (P := fun s : Estimation => s.heard.levels.Inv) (G := fun _ _ => True)
      (fun s b hs _ => ⟨hstep s b hs, ?_⟩) hinit (meets_of_forall _ (fun _ _ => trivial) _)
    rw [(s.block_heard b).2]
    exact divisor_ne_zero (heard_inv hs b)
  · refine trace_iff_meets (P := fun s : Estimation => s.heard.levels.Inv) hstep (fun s b hs hf => ?_) hinit
    rw [(s.block_heard b).2]
    have hlog : (s.heard.next b.farLog).levels.farLogEnergy = b.farLog := farLogEnergy_hear _ _
    exact calcStepSize_legal_iff (heard_inv hs b) (by rw [hlog]; exact (logOfEnergyInQ8_range _ _).2) hf
  · intro hq
    refine meets_of_inv (P := fun s : Estimation => s.heard.levels.Tame) (fun s b hs hb => ?_) htame
      (meets_of_forall block hq _)
    have hset : (s.heard.levels.inState (nextStartup s.heard.levels.startupState s.heard.totCount)).Tame :=
      ⟨hs.order, hs.farVad⟩
    refine ⟨?_, hset.fits_hear (Channels.logOfEnergyInQ8_le hb)⟩
    rw [(s.block_heard b).1]
    exact hset.hear (Channels.logOfEnergyInQ8_le hb)

/-! ## A far end that falls below the minimum -/

/-- A far end with the same magnitude in every bin. -/
def flatBlock (x q : Int) : EnergyBlock := ⟨fun _ => x, q, fun _ => 0, 0, 0⟩

abbrev silentBlock : EnergyBlock := flatBlock 0 0
abbrev loudBlock : EnergyBlock := flatBlock 65535 0
abbrev softBlock : EnergyBlock := flatBlock 22 9

theorem farLog_flat (x q : Int) : (flatBlock x q).farLog = Channels.logOfEnergyInQ8 (u32 (257 * x)) q := by
  rw [EnergyBlock.farLog, flatBlock, binSum_const]

theorem farLog_silent : silentBlock.farLog = 1152 := by rw [farLog_flat]; rfl
theorem farLog_loud : loudBlock.farLog = 7296 := by rw [farLog_flat]; decide
theorem farLog_soft : softBlock.farLog = 2017 := by rw [farLog_flat]; decide

theorem run_replicate_succ (s : Estimation) (n : Nat) (b : EnergyBlock) :
    (run block s (List.replicate (n + 1) b)).heard = (run block s (List.replicate n b)).heard.next b.farLog := by
  rw [List.replicate_succ', run_append, ← (block_heard _ b).1]
  rfl

/-- Silence through the startup. -/
theorem run_silent {s0 c : Channels} {samplingFreq : Int} (h : Channels.initCore s0 samplingFreq = some c) {n : Nat}
    (hn : n < 512) : (run block ⟨c, 0⟩ (List.replicate (n + 1) silentBlock)).heard =
      ⟨⟨1152, 1152, 0, 2014, 2270, false, 0, 0, 1152⟩, n + 1⟩ := by
  induction n with
  | zero =>
    have hl : (⟨c, 0⟩ : Estimation).heard = ⟨c.levels, 0⟩ := rfl
    rw [run_replicate_succ, List.replicate_zero, run_nil, hl, Channels.levels_initCore h, farLog_silent]
    rfl
  | succ n ih =>
    have hstartup : nextStartup 0 (n + 1) = 0 := by
      have hlow : ¬ (n : Int) + 1 ≥ 512 ∧ ¬ (n : Int) + 1 ≥ 1024 := by omega
      rw [nextStartup, if_pos (by decide), if_neg hlow.1, if_neg hlow.2]
      rfl
    have hcount : u32 ((n : Int) + 1 + 1) = (n + 1 : Nat) + 1 := by
      unfold u32
      omega
    have hlevels : (Levels.inState ⟨1152, 1152, 0, 2014, 2270, false, 0, 0, 1152⟩ 0).hear 1152 =
        ⟨1152, 1152, 0, 2014, 2270, false, 0, 0, 1152⟩ := by decide
    rw [run_replicate_succ, ih (by omega), farLog_silent, Heard.next]
    dsimp only
    rw [hstartup, hcount, hlevels]

/-- The levels after `n + 1` loud blocks. -/
structure Loud (n : Nat) (l : Levels) : Prop where
  farMin : l.farEnergyMin = 1155 + 2 * n
  farMax : min (1345 + 193 * (n : Int)) 4200 ≤ l.farEnergyMax ∧ l.farEnergyMax ≤ 7296
  farVad : l.farEnergyVAD = 2014
  count : l.vadUpdateCount = n + 1
  startup : 1 ≤ l.startupState

theorem nextStartup_pos (startup : Int) {tot : Int} (h : 512 ≤ tot) : 1 ≤ nextStartup startup tot := by
  have hlate : tot ≥ convLen := h
  rw [nextStartup, if_pos hlate]
  split
  · split <;> omega
  · omega

theorem Loud.inState {n : Nat} {l : Levels} (hl : Loud n l) {st : Int} (hst : 1 ≤ st) : Loud n (l.inState st) :=
  ⟨hl.farMin, hl.farMax, hl.farVad, hl.count, hst⟩

theorem hear_eq {l : Levels} {x : Int} (h : x > 1025) :
    (l.hear x).farEnergyMin = l.movedMin x ∧ (l.hear x).farEnergyMax = l.movedMax x ∧
    (l.hear x).farEnergyVAD = l.movedVad x ∧ (l.hear x).startupState = l.startupState ∧
    (l.hear x).vadUpdateCount =
      if l.halted then l.vadUpdateCount else if l.behind x then 0 else i16 (l.vadUpdateCount + 1) := by
  rw [Levels.hear, if_pos h]
  exact ⟨rfl, rfl, rfl, rfl, rfl⟩

/-- Up to 1024 blocks the VAD level waits. -/
theorem Loud.waits {n : Nat} {l : Levels} (hl : Loud n l) (hn : n < 1022) {x : Int} (hx : 2014 ≤ x) :
    l.halted = false ∧ l.behind x = false ∧ l.movedVad x = 2014 := by
  have hstartup := hl.startup
  have hcount := hl.count
  have hvad := hl.farVad
  have hhalted : l.halted = false := decide_eq_false (by omega)
  have hbehind : l.behind x = false := decide_eq_false (by omega)
  refine ⟨hhalted, hbehind, ?_⟩
  rw [movedVad, hhalted, hbehind]
  exact hvad

/-- The maximum closes a sixteenth of its distance in every block. -/
theorem loud_rise {a m : Int} (h : min a 4200 ≤ m) (hm : m ≤ 7296) :
    min (a + 193) 4200 ≤ m + (7296 - m) / 16 ∧ m + (7296 - m) / 16 ≤ 7296 := by
  refine ⟨?_, by omega⟩
  rcases Int.le_total 4200 m with hfar | hnear
  · exact Int.le_trans (Int.min_le_right _ _) (by omega)
  · have hstep : 193 ≤ (7296 - m) / 16 := by omega
    by_cases ha : a ≤ 4200
    · rw [Int.min_eq_left ha] at h
      exact Int.le_trans (Int.min_le_left _ _) (by omega)
    · rw [Int.min_eq_right (by omega)] at h
      exact Int.le_trans (Int.min_le_right _ _) (by omega)

theorem Loud.hear {n : Nat} {l : Levels} (hl : Loud n l) (hn : n < 1022) : Loud (n + 1) (l.hear 7296) := by
  obtain ⟨hhalted, hbehind, hmovedVad⟩ := hl.waits hn (x := 7296) (by omega)
  obtain ⟨hmin', hmax', hvad', hstartup', hcount'⟩ := hear_eq (l := l) (x := 7296) (by omega)
  have hmin := hl.farMin
  have hmax := hl.farMax
  have hstartup := hl.startup
  have hmovedMin := movedMin_eq (l := l) (x := 7296) (by omega) (by omega)
  have hmovedMax := movedMax_eq (l := l) (x := 7296) (by omega) (by omega)
  rw [if_neg (by omega), if_neg (by omega)] at hmovedMin hmovedMax
  rw [hhalted, hbehind, hl.count] at hcount'
  have hrise := loud_rise hmax.1 hmax.2
  have hcast : 1345 + 193 * ((n + 1 : Nat) : Int) = 1345 + 193 * (n : Int) + 193 := by omega
  refine ⟨by omega, ?_, by omega, ?_, by omega⟩
  · rw [hmax', hmovedMax, hcast]
    exact hrise
  · rw [hcount']
    simp only [Bool.false_eq_true, if_false]
    rw [i16_id (by omega) (by omega)]
    omega

/-- A far end below the minimum and just above the VAD level. -/
theorem Loud.soft {l : Levels} (hl : Loud 1019 l) : (l.hear 2017).Fits ∧ ¬ (l.hear 2017).Close := by
  obtain ⟨hhalted, hbehind, hmovedVad⟩ := hl.waits (by omega) (x := 2017) (by omega)
  obtain ⟨hmin', hmax', hvad', hstartup', -⟩ := hear_eq (l := l) (x := 2017) (by omega)
  have hlog := farLogEnergy_hear l 2017
  have hmin := hl.farMin
  have hmax := hl.farMax
  have hstartup := hl.startup
  have hmovedMin := movedMin_eq (l := l) (x := 2017) (by omega) (by omega)
  have hmovedMax := movedMax_eq (l := l) (x := 2017) (by omega) (by omega)
  rw [if_pos (by omega), if_neg (by omega)] at hmovedMin
  rw [if_pos (by omega)] at hmovedMax
  have hon : (l.hear 2017).currentVADValue = true := by
    have hspan : i16 (l.movedMax 2017 - l.movedMin 2017) > 929 := by
      rw [i16_id (by omega) (by omega)]
      omega
    have hloud : (2017 : Int) > l.movedVad 2017 := by omega
    rw [Levels.hear, if_pos (by decide)]
    exact (if_pos hloud).trans (if_pos (.inr hspan))
  refine ⟨.inr (.inr (.inr (by omega))), ?_⟩
  rintro (hoff | hstart | hspan | hclose)
  · rw [hon] at hoff
    cases hoff
  · omega
  · omega
  · omega

theorem run_loud {s0 c : Channels} {samplingFreq : Int} (h : Channels.initCore s0 samplingFreq = some c) {n : Nat}
    (hn : n < 1022) :
    Loud n (run block ⟨c, 0⟩ (List.replicate 512 silentBlock ++ List.replicate (n + 1) loudBlock)).heard.levels ∧
    (run block ⟨c, 0⟩ (List.replicate 512 silentBlock ++ List.replicate
        (n + 1) loudBlock)).heard.totCount = 513 + n := by
  rw [run_append]
  have hsilent := run_silent h (n := 511) (by omega)
  generalize run block ⟨c, 0⟩ (List.replicate (511 + 1) silentBlock) = s at hsilent
  induction n with
  | zero =>
    rw [run_replicate_succ, List.replicate_zero, run_nil, hsilent, farLog_loud]
    exact ⟨⟨by decide, by decide, by decide, by decide, by decide⟩, by decide⟩
  | succ n ih =>
    obtain ⟨hloud, htot⟩ := ih (by omega)
    rw [run_replicate_succ, farLog_loud]
    have htotal : 512 ≤ (run block s (List.replicate (n + 1) loudBlock)).heard.totCount := by omega
    refine ⟨(hloud.inState (nextStartup_pos _ htotal)).hear (by omega), ?_⟩
    rw [Heard.next]
    dsimp only
    rw [htot]
    unfold u32
    omega

/-- A far end above the minimum is close to it. -/
theorem close_of_le {l : Levels} (h : l.farEnergyMin ≤ l.farLogEnergy) : l.Close := by
  by_cases hspan : l.farEnergyMax ≤ l.farEnergyMin
  · exact .inr (.inr (.inl hspan))
  · exact .inr (.inr (.inr (by omega)))

theorem meets_close_loud {s0 c : Channels} {samplingFreq : Int} (h : Channels.initCore s0 samplingFreq = some c) :
    Meets block (fun s b => (s.heard.next b.farLog).levels.Close) ⟨c, 0⟩
      (List.replicate 512 silentBlock ++ List.replicate 1020 loudBlock) := by
  rw [meets_append]
  constructor
  · refine meets_replicate fun k hk => ?_
    rw [← run_replicate_succ, run_silent h hk]
    exact .inr (.inl (Int.le_refl _))
  · refine meets_replicate fun k hk => ?_
    have hmin := (run_loud h (n := k) (by omega)).1.farMin
    rw [run_append, run_replicate_succ, farLog_loud] at hmin
    rw [farLog_loud]
    refine close_of_le ?_
    rw [hmin, Heard.next, farLogEnergy_hear]
    omega

/-- A silent startup and 1020 loud blocks after it: the quotient is computed, and every step size is legal. -/
theorem legal_iff_loud : ∃ c, Channels.blank.initCore 16000 = some c ∧
    ∀ o ∈ trace block ⟨c, 0⟩ (List.replicate 512 silentBlock ++ List.replicate 1020 loudBlock),
      o.divisor ≠ some 0 ∧ o.Legal := by
  obtain ⟨c, hc⟩ := Channels.blank_initCore
  obtain ⟨hdivisor, hlegal, hfits⟩ :=
    legal_iff hc (List.replicate 512 silentBlock ++ List.replicate 1020 loudBlock)
  have hq : ∀ b ∈ List.replicate 512 silentBlock ++ List.replicate 1020 loudBlock, 0 ≤ b.farQ ∧ b.farQ ≤ 15 := by
    intro b hb
    rcases List.mem_append.1 hb with hsilent | hloud
    · rw [List.eq_of_mem_replicate hsilent]
      exact ⟨by decide, by decide⟩
    · rw [List.eq_of_mem_replicate hloud]
      exact ⟨by decide, by decide⟩
  exact ⟨c, hc, fun o ho => ⟨hdivisor o ho, (hlegal (hfits hq)).2 (meets_close_loud hc) o ho⟩⟩

def fallingFarEnd : List EnergyBlock :=
  List.replicate 512 silentBlock ++ List.replicate 1020 loudBlock ++ [softBlock]

theorem not_legal_falling : ∃ c, Channels.blank.initCore 16000 = some c ∧
    ¬ ∀ o ∈ trace block ⟨c, 0⟩ fallingFarEnd, o.Legal := by
  obtain ⟨c, hc⟩ := Channels.blank_initCore
  refine ⟨c, hc, fun hall => ?_⟩
  obtain ⟨hloud, htot⟩ := run_loud hc (n := 1019) (by omega)
  have hinv : (run block ⟨c, 0⟩ (List.replicate 512 silentBlock ++ List.replicate
      (1019 + 1) loudBlock)).heard.levels.Inv :=
    run_heard_inv hc _
  generalize hrun : run block ⟨c, 0⟩ (List.replicate 512 silentBlock ++ List.replicate (1019 + 1) loudBlock) = s
    at hinv hloud htot
  have hlast : ((s.block softBlock).2).Legal := by
    refine hall _ ?_
    rw [fallingFarEnd, trace_append, ← hrun]
    exact List.mem_append_right _ List.mem_cons_self
  have hnext := heard_inv hinv softBlock
  rw [(s.block_heard softBlock).2] at hlast
  rw [farLog_soft] at hnext hlast
  have hlate : 512 ≤ s.heard.totCount := by omega
  obtain ⟨hfits, hfar⟩ := (hloud.inState (nextStartup_pos s.heard.levels.startupState hlate)).soft
  exact hfar ((calcStepSize_legal_iff hnext (by rw [Heard.next, farLogEnergy_hear]; omega) hfits).1 hlast)

end Estimation

end WebRtc.Aecm
