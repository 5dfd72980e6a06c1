import WebRtc.Aecm.Drift

/-!
# The far-end decision levels (`aecm_core.c:832-890`)

`WebRtcAecm_CalcEnergies` moves the levels by the far-end energy of the block and by nothing else:
`Levels` are the fields it moves, `hear` is what it does to them (`levels_calcEnergies`). No other
function touches them, so along a run every level stays that of a far end above `FAR_ENERGY_MIN`
(`Levels.Inv`).

The log of a far end without energy is `PART_LEN_SHIFT << 7`, which is above `FAR_ENERGY_MIN`: silence
moves the levels like any block, unless they rest there already (`silence_unmoved_iff`).
-/

namespace WebRtc.Aecm

open CInt Machine

structure Levels where
  farEnergyMin : Int
  farEnergyMax : Int
  farEnergyMaxMin : Int
  farEnergyVAD : Int
  farEnergyMSE : Int
  currentVADValue : Bool
  vadUpdateCount : Int
  startupState : Int
  farLogEnergy : Int
deriving DecidableEq, Repr

/-- The size of the VAD region above a minimum (:848-858). -/
def vadRegion (farMin : Int) : Int :=
  let tmp := i16 (2560 - farMin)
  i16 ((if tmp > 0 then i16 (tmp * farEnergyVadRegion / 512) else 0) + farEnergyVadRegion)

namespace Levels

/-- The shifts of the minimum and the maximum, up and down. -/
def minUp (l : Levels) : Int := if l.startupState = 0 then 8 else 11
def minDown (l : Levels) : Int := if l.startupState = 0 then 2 else 3
def maxUp (l : Levels) : Int := if l.startupState = 0 then 2 else 4

def movedMin (l : Levels) (farLog : Int) : Int := Channels.asymFilt l.farEnergyMin farLog l.minUp l.minDown
def movedMax (l : Levels) (farLog : Int) : Int := Channels.asymFilt l.farEnergyMax farLog l.maxUp 11

/-- In startup phase or VAD update halted. -/
def halted (l : Levels) : Bool := decide (l.startupState = 0 ∨ l.vadUpdateCount > 1024)

def behind (l : Levels) (farLog : Int) : Bool := decide (l.farEnergyVAD > farLog)

def movedVad (l : Levels) (farLog : Int) : Int :=
  if l.halted then i16 (l.movedMin farLog + vadRegion (l.movedMin farLog))
  else if l.behind farLog then
    i16 (l.farEnergyVAD + (farLog + vadRegion (l.movedMin farLog) - l.farEnergyVAD) / 64)
  else l.farEnergyVAD

def moved (l : Levels) (farLog : Int) : Levels :=
  { l with farEnergyMin := l.movedMin farLog
           farEnergyMax := l.movedMax farLog
           farEnergyMaxMin := i16 (l.movedMax farLog - l.movedMin farLog)
           farEnergyVAD := l.movedVad farLog
           farEnergyMSE := i16 (l.movedVad farLog + 256)
           vadUpdateCount :=
             if l.halted then l.vadUpdateCount else if l.behind farLog then 0 else i16 (l.vadUpdateCount + 1)
           farLogEnergy := farLog }

def decideVad (l : Levels) : Levels :=
  { l with currentVADValue :=
      if l.farLogEnergy > l.farEnergyVAD then
        if l.startupState = 0 ∨ l.farEnergyMaxMin > farEnergyDiff then true else l.currentVADValue
      else false }

/-- A block whose far end has this energy. -/
def hear (l : Levels) (farLog : Int) : Levels :=
  (if farLog > farEnergyMinLevel then l.moved farLog else { l with farLogEnergy := farLog }).decideVad

end Levels

namespace Channels

def levels (s : Channels) : Levels :=
  ⟨s.farEnergyMin, s.farEnergyMax, s.farEnergyMaxMin, s.farEnergyVAD, s.farEnergyMSE, s.currentVADValue,
    s.vadUpdateCount, s.startupState, s.farLogEnergy⟩

/-! ## Who moves the levels -/

theorem levels_updateFarLevels (s : Channels) :
    (updateVad (updateFarLevels s)).levels = s.levels.hear s.farLogEnergy := by
  unfold updateFarLevels Levels.hear
  split
  · rfl
  · rfl

theorem levels_measure (s : Channels) (far : Bins) (farQ nearEner : Int) :
    (s.measure far farQ nearEner).levels = s.levels.hear (logOfEnergyInQ8 (u32 (binSum far)) farQ) := by
  rw [measure, levels_updateFarLevels]
  rfl

theorem levels_calcEnergies (s : Channels) (far : Bins) (farQ nearEner : Int) :
    (s.calcEnergies far farQ nearEner).1.levels = s.levels.hear (logOfEnergyInQ8 (u32 (binSum far)) farQ) := by
  rw [← s.levels_measure far farQ nearEner]
  unfold calcEnergies
  dsimp only
  split
  · rfl
  · split <;> rfl

theorem levels_compareChannels (s : Channels) (far echoEst : Bins) :
    (s.compareChannels far echoEst).1.levels = s.levels := by
  unfold compareChannels
  dsimp only
  split
  · rfl
  · split <;> rfl

theorem levels_nlms (s : Channels) (far : Bins) (farQ : Int) (dfa : Bins) (mu : Int) :
    (s.nlms far farQ dfa mu).levels = s.levels := by
  unfold nlms
  split <;> rfl

theorem levels_updateChannel (s : Channels) (far : Bins) (farQ : Int) (dfa : Bins) (mu : Int) (echoEst : Bins) :
    (s.updateChannel far farQ dfa mu echoEst).1.levels = s.levels := by
  rw [← s.levels_nlms far farQ dfa mu]
  unfold updateChannel
  generalize s.nlms far farQ dfa mu = t
  dsimp only
  split
  · rfl
  · generalize (if t.farLogEnergy < t.farEnergyMSE then 0 else i16 (t.mseChannelCount + 1)) = count
    split
    · exact levels_compareChannels { t with mseChannelCount := count } far echoEst
    · rfl

/-- The next levels of a call: a block's energy, the startup state it sets, or nothing. -/
theorem levels_step (s : Channels) (op : Op) :
    (∃ far farQ nearEner, op = .calcEnergies far farQ nearEner ∧
      (s.step op).1.levels = s.levels.hear (logOfEnergyInQ8 (u32 (binSum far)) farQ)) ∨
    ∃ startup, (s.step op).1.levels = { s.levels with startupState := startup } := by
  cases op with
  | block startup q => exact .inr ⟨startup, rfl⟩
  | calcEnergies far farQ nearEner => exact .inl ⟨far, farQ, nearEner, rfl, s.levels_calcEnergies far farQ nearEner⟩
  | updateChannel far farQ dfa mu echoEst => exact .inr ⟨_, s.levels_updateChannel far farQ dfa mu echoEst⟩
  | storeAdaptiveChannel far => exact .inr ⟨s.startupState, rfl⟩
  | resetAdaptiveChannel echoEst => exact .inr ⟨s.startupState, rfl⟩

theorem levels_initCore {s0 s : Channels} {samplingFreq : Int} (h : initCore s0 samplingFreq = some s) :
    s.levels = ⟨32767, -32768, 0, farEnergyMinLevel, 0, false, 0, 0, 0⟩ := by
  unfold initCore at h
  split at h
  · cases h
  · have hs := Option.some.inj h
    rw [← hs]
    rfl

end Channels

/-! ## Levels of a far end -/

namespace Levels

/-- A filtered value lies between the old one and the input, both included. -/
theorem asymFilt_between (up down : Int) {old x : Int} (ho : -32768 < old ∧ old < 32767) (hx : -32768 ≤ x ∧ x ≤ 32767) :
    Channels.asymFilt old x up down =
      (if old > x then old - (old - x) / 2 ^ down.toNat else old + (x - old) / 2 ^ up.toNat) ∧
    min old x ≤ Channels.asymFilt old x up down ∧ Channels.asymFilt old x up down ≤ max old x := by
  have hpow (n : Nat) : (0 : Int) < 2 ^ n := Int.pow_pos (by omega)
  have hpart {a : Int} (ha : 0 ≤ a) (n : Nat) : 0 ≤ a / 2 ^ n ∧ a / 2 ^ n ≤ a :=
    ⟨Int.ediv_nonneg ha (Int.le_of_lt (hpow n)), Int.ediv_le_self _ ha⟩
  rw [Channels.asymFilt, if_neg (by omega)]
  by_cases h : old > x
  · have hp := hpart (show 0 ≤ old - x by omega) down.toNat
    rw [if_pos h, if_pos h, i16_id (by omega) (by omega)]
    omega
  · have hp := hpart (show 0 ≤ x - old by omega) up.toNat
    rw [if_neg h, if_neg h, i16_id (by omega) (by omega)]
    omega

/-- What every far end leaves: the levels of blocks above `FAR_ENERGY_MIN`, or those of no block. -/
structure Inv (l : Levels) : Prop where
  farMin : 1026 ≤ l.farEnergyMin ∧ l.farEnergyMin ≤ 32767
  farMax : 1026 ≤ l.farEnergyMax ∧ l.farEnergyMax ≤ 32767 ∧ l.farEnergyMaxMin = l.farEnergyMax - l.farEnergyMin ∨
    l.farEnergyMax = -32768 ∧ l.farEnergyMin = 32767
  farVad : -32768 ≤ l.farEnergyVAD ∧ l.farEnergyVAD ≤ 32767

theorem movedMin_range {l : Levels} (h : l.Inv) {farLog : Int} (hx : farEnergyMinLevel < farLog ∧ farLog ≤ 32767) :
    1026 ≤ l.movedMin farLog ∧ l.movedMin farLog ≤ 32767 := by
  have hm := h.farMin
  unfold farEnergyMinLevel at hx
  by_cases hlast : l.farEnergyMin = 32767
  · rw [movedMin, Channels.asymFilt, if_pos (.inl hlast)]
    omega
  · have hb := (asymFilt_between l.minUp l.minDown (show -32768 < l.farEnergyMin ∧ l.farEnergyMin < 32767 by omega)
      (show -32768 ≤ farLog ∧ farLog ≤ 32767 by omega)).2
    rw [movedMin]
    omega

theorem movedMax_range {l : Levels} (h : l.Inv) {farLog : Int} (hx : farEnergyMinLevel < farLog ∧ farLog ≤ 32767) :
    1026 ≤ l.movedMax farLog ∧ l.movedMax farLog ≤ 32767 := by
  unfold farEnergyMinLevel at hx
  by_cases hlast : l.farEnergyMax = 32767 ∨ l.farEnergyMax = -32768
  · rw [movedMax, Channels.asymFilt, if_pos hlast]
    omega
  · have hm := h.farMax
    have hb := (asymFilt_between l.maxUp 11 (show -32768 < l.farEnergyMax ∧ l.farEnergyMax < 32767 by omega)
      (show -32768 ≤ farLog ∧ farLog ≤ 32767 by omega)).2
    rw [movedMax]
    omega

theorem movedVad_range {l : Levels} (h : l.Inv) (farLog : Int) :
    -32768 ≤ l.movedVad farLog ∧ l.movedVad farLog ≤ 32767 := by
  unfold movedVad
  split
  · exact i16_range _
  · split
    · exact i16_range _
    · exact h.farVad

theorem Inv.hear {l : Levels} (h : l.Inv) {farLog : Int} (hx : farLog ≤ 32767) : (l.hear farLog).Inv := by
  unfold Levels.hear
  split
  · next hfar =>
    have hmin := movedMin_range h ⟨hfar, hx⟩
    have hmax := movedMax_range h ⟨hfar, hx⟩
    exact ⟨hmin, .inl ⟨hmax.1, hmax.2, i16_id (by omega) (by omega)⟩, movedVad_range h farLog⟩
  · exact ⟨h.farMin, h.farMax, h.farVad⟩

end Levels

theorem logOfEnergyInQ8_range (energy q : Int) :
    -32768 ≤ Channels.logOfEnergyInQ8 energy q ∧ Channels.logOfEnergyInQ8 energy q ≤ 32767 := by
  unfold Channels.logOfEnergyInQ8
  dsimp only
  split
  · exact i16_range _
  · omega

namespace Channels

theorem levels_run_inv {s0 s : Channels} {samplingFreq : Int} (h : initCore s0 samplingFreq = some s) (ops : List Op) :
    (run step s ops).levels.Inv := by
  refine run_inv (P := fun t : Channels => t.levels.Inv) (fun t op ht => ?_) ?_ ops
  · rcases t.levels_step op with ⟨far, farQ, nearEner, -, heq⟩ | ⟨startup, heq⟩
    · rw [heq]
      exact ht.hear (logOfEnergyInQ8_range _ _).2
    · rw [heq]
      exact ⟨ht.farMin, ht.farMax, ht.farVad⟩
  · rw [levels_initCore h]
    exact ⟨by simp, .inr ⟨rfl, rfl⟩, by simp [farEnergyMinLevel]⟩

end Channels

/-! ## Silence -/

/-- The log the code gives to no energy. -/
abbrev silence : Int := 1152

theorem binSum_const (x : Int) : binSum (fun _ => x) = 257 * x := by
  have hsum (l : List Bin) : (l.map fun _ => x).sum = l.length * x := by
    induction l with
    | nil => simp
    | cons i l ih =>
      simp only [List.map_cons, List.sum_cons, ih, List.length_cons]
      rw [Int.natCast_add, Int.add_mul]
      omega
  rw [binSum, hsum, List.length_finRange]
  rfl

theorem logOfEnergyInQ8_zero (q : Int) : Channels.logOfEnergyInQ8 (u32 (binSum fun _ => 0)) q = silence := by
  rw [binSum_const]
  rfl

namespace Levels

/-- The levels silence does not move, and that keep it quiet: those of a far end that has been near the
log of no energy for long. -/
structure Settled (l : Levels) : Prop where
  farMin : l.farEnergyMin < if l.startupState = 0 then silence + 4 else silence + 8
  farMax_gt : l.farEnergyMax > if l.startupState = 0 then silence - 4 else silence - 16
  farMax_lt : l.farEnergyMax < silence + 2048
  farVad : if l.startupState = 0 ∨ l.vadUpdateCount > 1024 then
      l.farEnergyVAD = l.farEnergyMin + (2560 - l.farEnergyMin) * 230 / 512 + 230
    else
      l.farEnergyVAD > silence →
        silence + (2560 - l.farEnergyMin) * 230 / 512 + 230 - 64 < l.farEnergyVAD ∧
        l.farEnergyVAD ≤ silence + (2560 - l.farEnergyMin) * 230 / 512 + 230
  farMse : l.farEnergyMSE = l.farEnergyVAD + 256
  quiet : l.farEnergyVAD < silence →
    l.currentVADValue = false ∧ l.startupState ≠ 0 ∧ l.farEnergyMaxMin ≤ farEnergyDiff

variable {l : Levels}

theorem scale_two : (2 : Int) ^ Int.toNat 2 = 4 := rfl
theorem scale_three : (2 : Int) ^ Int.toNat 3 = 8 := rfl
theorem scale_four : (2 : Int) ^ Int.toNat 4 = 16 := rfl
theorem scale_eight : (2 : Int) ^ Int.toNat 8 = 256 := rfl
theorem scale_eleven : (2 : Int) ^ Int.toNat 11 = 2048 := rfl

theorem movedMin_silence (h : l.Inv) :
    l.movedMin silence = l.farEnergyMin ↔ l.farEnergyMin < if l.startupState = 0 then silence + 4 else silence + 8 := by
  have hm := h.farMin
  unfold silence
  by_cases hlast : l.farEnergyMin = 32767
  · rw [movedMin, Channels.asymFilt, if_pos (.inl hlast)]
    split <;> omega
  · rw [movedMin, (asymFilt_between _ _ (by omega) (by omega)).1, minUp, minDown]
    by_cases hs : l.startupState = 0
    · rw [if_pos hs, if_pos hs, if_pos hs, scale_eight, scale_two]
      split <;> omega
    · rw [if_neg hs, if_neg hs, if_neg hs, scale_eleven, scale_three]
      split <;> omega

theorem movedMax_silence (h : l.Inv) :
    l.movedMax silence = l.farEnergyMax ↔
      (l.farEnergyMax > if l.startupState = 0 then silence - 4 else silence - 16) ∧
          l.farEnergyMax < silence + 2048 := by
  have hm := h.farMax
  unfold silence
  by_cases hlast : l.farEnergyMax = 32767 ∨ l.farEnergyMax = -32768
  · rw [movedMax, Channels.asymFilt, if_pos hlast]
    split <;> omega
  · rw [movedMax, (asymFilt_between _ _ (by omega) (by omega)).1, maxUp, scale_eleven]
    by_cases hs : l.startupState = 0
    · rw [if_pos hs, if_pos hs, scale_two]
      split <;> omega
    · rw [if_neg hs, if_neg hs, scale_four]
      split <;> omega

theorem vadRegion_eq {m : Int} (h : 1026 ≤ m ∧ m < 2560) : vadRegion m = (2560 - m) * 230 / 512 + 230 := by
  have htmp : i16 (2560 - m) = 2560 - m := i16_id (by omega) (by omega)
  have hscaled : i16 ((2560 - m) * farEnergyVadRegion / 512) = (2560 - m) * 230 / 512 := by
    unfold farEnergyVadRegion
    exact i16_id (by omega) (by omega)
  unfold vadRegion
  dsimp only
  rw [htmp, if_pos (by omega), hscaled]
  unfold farEnergyVadRegion
  exact i16_id (by omega) (by omega)

/-- The five levels of a block. -/
def SameLevels (l l' : Levels) : Prop :=
  l'.farEnergyMin = l.farEnergyMin ∧ l'.farEnergyMax = l.farEnergyMax ∧ l'.farEnergyMaxMin = l.farEnergyMaxMin ∧
    l'.farEnergyVAD = l.farEnergyVAD ∧ l'.farEnergyMSE = l.farEnergyMSE

theorem movedVad_silence (h : l.Inv) (hmin : l.movedMin silence = l.farEnergyMin) (hlt : l.farEnergyMin < 2560) :
    l.movedVad silence = l.farEnergyVAD ↔
      if l.startupState = 0 ∨ l.vadUpdateCount > 1024 then
        l.farEnergyVAD = l.farEnergyMin + (2560 - l.farEnergyMin) * 230 / 512 + 230
      else
        l.farEnergyVAD > silence →
          silence + (2560 - l.farEnergyMin) * 230 / 512 + 230 - 64 < l.farEnergyVAD ∧
          l.farEnergyVAD ≤ silence + (2560 - l.farEnergyMin) * 230 / 512 + 230 := by
  have hm := h.farMin
  have hv := h.farVad
  rw [movedVad, hmin, vadRegion_eq ⟨hm.1, hlt⟩, halted, behind]
  by_cases hhalt : l.startupState = 0 ∨ l.vadUpdateCount > 1024
  · rw [if_pos (by simpa using hhalt), if_pos hhalt, i16_id (by omega) (by omega)]
    omega
  · rw [if_neg (by simpa using hhalt), if_neg hhalt]
    by_cases hbehind : l.farEnergyVAD > silence
    · rw [if_pos (by simpa using hbehind)]
      unfold silence at *
      rw [i16_id (by omega) (by omega)]
      omega
    · rw [if_neg (by simpa using hbehind)]
      exact iff_of_true rfl fun hgt => absurd hgt hbehind

/-- Levels that silence leaves alone are low. -/
theorem vad_le_of_resting (h : l.Inv) (hlt : l.farEnergyMin < 2560)
    (hv : if l.startupState = 0 ∨ l.vadUpdateCount > 1024 then
        l.farEnergyVAD = l.farEnergyMin + (2560 - l.farEnergyMin) * 230 / 512 + 230
      else
        l.farEnergyVAD > silence →
          silence + (2560 - l.farEnergyMin) * 230 / 512 + 230 - 64 < l.farEnergyVAD ∧
          l.farEnergyVAD ≤ silence + (2560 - l.farEnergyMin) * 230 / 512 + 230) : l.farEnergyVAD ≤ 4000 := by
  have hm := h.farMin
  unfold silence at hv
  split at hv <;> omega

theorem maxMin_of_resting (h : l.Inv)
    (hmax : l.farEnergyMax > if l.startupState = 0 then silence - 4 else silence - 16) :
    l.farEnergyMaxMin = l.farEnergyMax - l.farEnergyMin ∧ i16 (l.farEnergyMax - l.farEnergyMin) =
        l.farEnergyMaxMin := by
  have hm := h.farMin
  unfold silence at hmax
  rcases h.farMax with ⟨hlo, hhi, heq⟩ | ⟨hnone, -⟩
  · rw [heq]
    exact ⟨rfl, i16_id (by omega) (by omega)⟩
  · rw [hnone] at hmax
    split at hmax <;> omega

/-- **The levels silence leaves alone, and leaves quiet, are the settled ones.** -/
theorem hear_silence_iff (h : l.Inv) :
    l.SameLevels (l.hear silence) ∧ (l.hear silence).currentVADValue = false ↔ l.Settled := by
  have hv := h.farVad
  have hheard : l.hear silence = (l.moved silence).decideVad := by
    rw [hear, if_pos (by decide)]
  have hsame : l.SameLevels (l.hear silence) ↔
      l.movedMin silence = l.farEnergyMin ∧ l.movedMax silence = l.farEnergyMax ∧
        i16 (l.movedMax silence - l.movedMin silence) = l.farEnergyMaxMin ∧
        l.movedVad silence = l.farEnergyVAD ∧ i16 (l.movedVad silence + 256) = l.farEnergyMSE := by
    rw [hheard]
    rfl
  have hcurrent : (l.hear silence).currentVADValue =
      if silence > l.movedVad silence then
        if l.startupState = 0 ∨ i16 (l.movedMax silence - l.movedMin silence) > farEnergyDiff then true
        else l.currentVADValue
      else false := by
    rw [hheard]
    rfl
  have hlow : (l.farEnergyMin < if l.startupState = 0 then silence + 4 else silence + 8) → l.farEnergyMin < 2560 := by
    unfold silence
    split <;> omega
  constructor
  · rintro ⟨hlevels, hoff⟩
    obtain ⟨hmin, hmax, hspan, hvad, hmse⟩ := hsame.1 hlevels
    have hfarMin := (movedMin_silence h).1 hmin
    obtain ⟨hfarMaxGt, hfarMaxLt⟩ := (movedMax_silence h).1 hmax
    have hfarVad := (movedVad_silence h hmin (hlow hfarMin)).1 hvad
    have hle := vad_le_of_resting h (hlow hfarMin) hfarVad
    rw [hvad, i16_id (by omega) (by omega)] at hmse
    rw [hcurrent, hspan, hvad] at hoff
    refine ⟨hfarMin, hfarMaxGt, hfarMaxLt, hfarVad, hmse.symm, fun hbelow => ?_⟩
    rw [if_pos hbelow] at hoff
    split at hoff
    · cases hoff
    · next hcalm =>
      rw [not_or] at hcalm
      exact ⟨hoff, hcalm.1, Int.not_lt.1 hcalm.2⟩
  · intro hs
    have hmin := (movedMin_silence h).2 hs.farMin
    have hmax := (movedMax_silence h).2 ⟨hs.farMax_gt, hs.farMax_lt⟩
    have hvad := (movedVad_silence h hmin (hlow hs.farMin)).2 hs.farVad
    have hspan := (maxMin_of_resting h hs.farMax_gt).2
    have hle := vad_le_of_resting h (hlow hs.farMin) hs.farVad
    refine ⟨hsame.2 ⟨hmin, hmax, by rw [hmax, hmin, hspan], hvad, ?_⟩, ?_⟩
    · rw [hvad, hs.farMse, i16_id (by omega) (by omega)]
    · rw [hcurrent, hmax, hmin, hspan, hvad]
      by_cases hbelow : l.farEnergyVAD < silence
      · obtain ⟨hoff, hstart, hdiff⟩ := hs.quiet hbelow
        rw [if_pos hbelow, if_neg (not_or.2 ⟨hstart, Int.not_lt.2 hdiff⟩), hoff]
      · rw [if_neg hbelow]

end Levels

namespace Channels

/-- A block of silence changes no level and is not taken for speech. -/
def Unmoved (s : Channels) (farQ nearEner : Int) : Prop :=
  let t := (s.calcEnergies (fun _ => 0) farQ nearEner).1
  t.farEnergyMin = s.farEnergyMin ∧ t.farEnergyMax = s.farEnergyMax ∧ t.farEnergyMaxMin = s.farEnergyMaxMin ∧
    t.farEnergyVAD = s.farEnergyVAD ∧ t.farEnergyMSE = s.farEnergyMSE ∧ t.currentVADValue = false

theorem unmoved_iff (s : Channels) (farQ nearEner : Int) :
    s.Unmoved farQ nearEner ↔
      s.levels.SameLevels (s.levels.hear silence) ∧ (s.levels.hear silence).currentVADValue = false := by
  have hl := s.levels_calcEnergies (fun _ => 0) farQ nearEner
  rw [logOfEnergyInQ8_zero] at hl
  rw [← hl]
  simp only [Unmoved, Levels.SameLevels, levels, and_assoc]

/-- **In every state reached, silence moves nothing exactly when the levels are settled.** -/
theorem silence_unmoved_iff {s0 s : Channels} {samplingFreq : Int}
    (h : initCore s0 samplingFreq = some s) (ops : List Op)
    (farQ nearEner : Int) : (run step s ops).Unmoved farQ nearEner ↔ (run step s ops).levels.Settled := by
  rw [unmoved_iff]
  exact Levels.hear_silence_iff (levels_run_inv h ops)

theorem blank_initCore : ∃ s, blank.initCore 16000 = some s := ⟨_, rfl⟩

theorem levels_first_silence {s0 s : Channels} {samplingFreq : Int} (h : initCore s0 samplingFreq = some s) :
    (run step s [.calcEnergies (fun _ => 0) 0 0]).levels = ⟨1152, 1152, 0, 2014, 2270, false, 0, 0, 1152⟩ := by
  have hl := s.levels_calcEnergies (fun _ => 0) 0 0
  rw [logOfEnergyInQ8_zero, levels_initCore h] at hl
  exact hl

/-- One block of silence settles the initial levels; the next ones move nothing. -/
theorem silence_unmoved_second : ∃ s, blank.initCore 16000 = some s ∧
    (run step s [.calcEnergies (fun _ => 0) 0 0]).Unmoved 0 0 := by
  obtain ⟨s, hs⟩ := blank_initCore
  refine ⟨s, hs, (silence_unmoved_iff hs [.calcEnergies (fun _ => 0) 0 0] 0 0).2 ?_⟩
  rw [levels_first_silence hs]
  exact ⟨by decide, by decide, by decide, by decide, by decide, by decide⟩

/-- The first block of silence replaces the initial minimum. -/
theorem not_unmoved_first : ∃ s, blank.initCore 16000 = some s ∧ ¬ s.Unmoved 0 0 := by
  obtain ⟨s, hs⟩ := blank_initCore
  refine ⟨s, hs, fun h => ?_⟩
  have hsame := ((s.unmoved_iff 0 0).1 h).1.1
  rw [levels_initCore hs] at hsame
  exact absurd hsame (by decide)

end Channels

end WebRtc.Aecm
