import Mathlib.Tactic.Linarith
import WebRtc.Aecm.FarHistory

/-!
# The suppression gains (`aecm_core_c.c:617-711`, again at `:1413-1507`)

| here | there |
| --- | --- |
| `mul16U16` | `WEBRTC_SPL_MUL_16_U16` (signal_processing_library.h:45) |
| `mulRsftWithRound` | `WEBRTC_SPL_MUL_16_16_RSFT_WITH_ROUND` (:73) |
| `divU32U16`                 | `WebRtcSpl_DivU32U16` (division_operations.c:26) |
| `energySums`                | one of the two energy loops of the stage, over its bins |
| `nlpGain`, `lowGain`        | `nlpGain` and `tmp16no2` as they are when the last loop starts |
| `rescale`, `suppress`       | the last loop |

The quotient of the two energies is a 32-bit number, the gain made of it an `int16_t` that is clamped
only after it has been narrowed. So the gain is negative for the quotients whose bit 17 is set, and in
particular for a near end without energy, whose quotient is `0xFFFFFFFF` (`inRange_iff`).
-/

namespace WebRtc.Aecm

open CInt

abbrev oneQ14 : Int := 16384
abbrev nlpCompLow : Int := 8192

/-- Conversion to `uint16_t`. -/
def u16 (x : Int) : Int := x % 65536

def mul16U16 (a b : Int) : Int := i16 a * u16 b

/-- With a shift by 14. -/
def mulRsftWithRound (a b : Int) : Int := (i16 a * i16 b + 8192) / 16384

def divU32U16 (num den : Int) : Int := if den ≠ 0 then num / den else 4294967295

abbrev Spectrum := Bin → ComplexInt16

/-- `(uint32_t)WEBRTC_SPL_MUL_16_U16(x, x)>>8`. For a negative `x` this is not its square. -/
def power (x : Int) : Int := u32 (mul16U16 x x) / 256

/-- The gain applied to a bin. -/
def weigh (c : ComplexInt16) (hnl : Int) : ComplexInt16 :=
  ⟨i16 (mulRsftWithRound c.real hnl), i16 (mulRsftWithRound c.imag hnl)⟩

/-- The suppressed and the near energy. -/
structure Energies where
  eb : Int
  ea : Int
deriving DecidableEq, Repr

def Energies.add (e : Energies) (after before : ComplexInt16) : Energies where
  eb := u32 (u32 (e.eb + power after.real) + power after.imag)
  ea := u32 (u32 (e.ea + power before.real) + power before.imag)

def energySums (dfw : Spectrum) (hnl : Bins) (band : List Bin) : Energies :=
  band.foldl (fun e i => e.add (weigh (dfw i) (hnl i)) (dfw i)) ⟨0, 0⟩

/-- The bins 5 to 256. -/
def wideBand : List Bin := (List.finRange partLen1).drop 5

/-- The bins 1 to 14. -/
def lowBand : List Bin := ((List.finRange partLen1).take 15).drop 1

def nlpGain (dfw : Spectrum) (hnl : Bins) : Int :=
  let e := energySums dfw hnl wideBand
  let tmpU32 := divU32U16 e.eb (u16 (e.ea / 65536))
  if tmpU32 > 6231 then
    let gain := i16 (tmpU32 / 4)
    if gain > oneQ14 then oneQ14 else gain
  else 0

def lowGain (dfw : Spectrum) (hnl : Bins) : Int :=
  let e := energySums dfw hnl lowBand
  let tmpU32 := divU32U16 e.eb (u16 (e.ea / 65536))
  if nlpGain dfw hnl < oneQ14 / 128 then
    if tmpU32 < oneQ14 then
      let gain := i16 (e.eb / 4194304)
      if gain > oneQ14 then oneQ14 else gain
    else oneQ14
  else oneQ14

/-- The bin's coefficient after the non-linear processing. -/
def rescale (nlp low : Int) (i : Bin) (hnl : Int) : Int :=
  if i.val > 15 then
    -- Truncate values close to zero and one.
    let h := if hnl > oneQ14 then oneQ14 else if hnl < nlpCompLow then 0 else hnl
    if h = oneQ14 ∧ nlp = oneQ14 then oneQ14 else i16 (h * nlp / 16384)
  else i16 (hnl * low / 16384)

/-- The coefficients and the output spectrum of the stage. -/
def suppress (dfw : Spectrum) (hnl : Bins) : Bins × Spectrum :=
  let h : Bins := fun i => rescale (nlpGain dfw hnl) (lowGain dfw hnl) i (hnl i)
  (h, fun i => weigh (dfw i) (h i))

def InQ14 (x : Int) : Prop := 0 ≤ x ∧ x ≤ oneQ14

/-! ## The energies -/

/-- The energy of a spectrum in a band, as far as 32 bits hold it. -/
def bandEnergy (f : Spectrum) (band : List Bin) : Int :=
  (band.map fun i => power (f i).real + power (f i).imag).sum % 4294967296

/-- The near end after the Wiener filter. -/
def filtered (dfw : Spectrum) (hnl : Bins) : Spectrum := fun i => weigh (dfw i) (hnl i)

theorem energySums_eq (dfw : Spectrum) (hnl : Bins) (band : List Bin) :
    energySums dfw hnl band = ⟨bandEnergy (filtered dfw hnl) band, bandEnergy dfw band⟩ := by
  have hgen (e : Energies) (l : List Bin) (h : 0 ≤ e.eb ∧ e.eb < 4294967296 ∧ 0 ≤ e.ea ∧ e.ea < 4294967296) :
      l.foldl (fun e i => e.add (weigh (dfw i) (hnl i)) (dfw i)) e =
        ⟨(e.eb + (l.map fun i => power (filtered dfw hnl i).real + power (filtered dfw hnl i).imag).sum) % 4294967296,
          (e.ea + (l.map fun i => power (dfw i).real + power (dfw i).imag).sum) % 4294967296⟩ := by
    induction l generalizing e with
    | nil =>
      simp only [List.foldl_nil, List.map_nil, List.sum_nil]
      rw [Int.add_zero, Int.add_zero, Int.emod_eq_of_lt h.1 h.2.1, Int.emod_eq_of_lt h.2.2.1 h.2.2.2]
    | cons i l ih =>
      rw [List.foldl_cons, ih]
      · simp only [Energies.add, u32, List.map_cons, List.sum_cons, filtered]
        congr 1
        · omega
        · omega
      · simp only [Energies.add, u32]
        omega
  rw [energySums, hgen _ _ (by decide)]
  simp only [Int.zero_add, bandEnergy]

theorem bandEnergy_range (f : Spectrum) (band : List Bin) : 0 ≤ bandEnergy f band ∧ bandEnergy f band < 4294967296 := by
  unfold bandEnergy
  omega

/-! ## The gains -/

/-- The near end has energy, and its quotient does not become negative when it is narrowed. -/
def Narrows (dfw : Spectrum) (hnl : Bins) : Prop :=
  let near := bandEnergy dfw wideBand / 65536
  let left := bandEnergy (filtered dfw hnl) wideBand
  0 < near ∧ (left < 6232 * near ∨ left / near % 262144 < 131072)

theorem narrow_iff (q : Int) :
    InQ14 (if i16 (q / 4) > oneQ14 then oneQ14 else i16 (q / 4)) ↔ q % 262144 < 131072 := by
  unfold InQ14 oneQ14 i16
  constructor
  · intro h
    split at h <;> split at h <;> omega
  · intro h
    split <;> split <;> omega

theorem nlpGain_inQ14_iff (dfw : Spectrum) (hnl : Bins) : InQ14 (nlpGain dfw hnl) ↔ Narrows dfw hnl := by
  have hea := bandEnergy_range dfw wideBand
  have heb := bandEnergy_range (filtered dfw hnl) wideBand
  rw [nlpGain, energySums_eq, Narrows]
  dsimp only
  have hden : u16 (bandEnergy dfw wideBand / 65536) = bandEnergy dfw wideBand / 65536 := by
    unfold u16
    omega
  rw [hden]
  have hnear : 0 ≤ bandEnergy dfw wideBand / 65536 := by omega
  generalize bandEnergy dfw wideBand / 65536 = near at hnear
  generalize bandEnergy (filtered dfw hnl) wideBand = left
  by_cases hpos : 0 < near
  · have hdiv : divU32U16 left near = left / near := if_pos (by omega)
    rw [hdiv]
    have hsmall : left / near < 6232 ↔ left < 6232 * near := Int.ediv_lt_iff_lt_mul hpos
    by_cases hgt : left / near > 6231
    · rw [if_pos hgt, narrow_iff]
      constructor
      · intro h
        exact ⟨hpos, .inr h⟩
      · rintro ⟨-, h | h⟩
        · have hlt := hsmall.2 h
          omega
        · exact h
    · rw [if_neg hgt]
      exact iff_of_true ⟨Int.le_refl _, by decide⟩ ⟨hpos, .inl (hsmall.1 (by omega))⟩
  · have hzero : near = 0 := by omega
    have hdiv : divU32U16 left near = 4294967295 := if_neg (by omega)
    rw [hdiv, if_pos (by decide), narrow_iff]
    exact iff_of_false (by decide) fun h => hpos h.1

theorem lowGain_inQ14 (dfw : Spectrum) (hnl : Bins) : InQ14 (lowGain dfw hnl) := by
  have hone : InQ14 oneQ14 := ⟨by decide, Int.le_refl _⟩
  have heb := bandEnergy_range (filtered dfw hnl) lowBand
  rw [lowGain, energySums_eq]
  dsimp only
  split
  · split
    · split
      · exact hone
      · next hle =>
        rw [i16_id (by omega) (by omega)] at hle ⊢
        unfold InQ14
        omega
    · exact hone
  · exact hone

theorem scaled_inQ14 {h g : Int} (hh : InQ14 h) (hg : InQ14 g) : InQ14 (i16 (h * g / 16384)) := by
  unfold InQ14 oneQ14 at *
  have hlo : 0 ≤ h * g := Int.mul_nonneg hh.1 hg.1
  have hhi : h * g ≤ 16384 * 16384 := Int.mul_le_mul hh.2 hg.2 hg.1 (by omega)
  rw [i16_id (by omega) (by omega)]
  omega

theorem rescale_inQ14 {nlp low : Int} (hn : InQ14 nlp) (hl : InQ14 low) (i : Bin) {hnl : Int} (hh : InQ14 hnl) :
    InQ14 (rescale nlp low i hnl) := by
  have hone : InQ14 oneQ14 := ⟨by decide, Int.le_refl _⟩
  have htruncated : InQ14 (if hnl > oneQ14 then oneQ14 else if hnl < nlpCompLow then 0 else hnl) := by
    split
    · exact hone
    · split
      · exact ⟨Int.le_refl _, by decide⟩
      · exact hh
  unfold rescale
  generalize (if hnl > oneQ14 then oneQ14 else if hnl < nlpCompLow then 0 else hnl) = t at htruncated
  dsimp only
  split
  · split
    · exact hone
    · exact scaled_inQ14 htruncated hn
  · exact scaled_inQ14 hh hl

/-- **The gains and all coefficients stay in range exactly when the quotient narrows well.** -/
theorem inRange_iff (dfw : Spectrum) (hnl : Bins) (h : ∀ i, InQ14 (hnl i)) :
    (InQ14 (nlpGain dfw hnl) ∧ InQ14 (lowGain dfw hnl) ∧ ∀ i, InQ14 ((suppress dfw hnl).1 i)) ↔ Narrows dfw hnl := by
  have hlow := lowGain_inQ14 dfw hnl
  rw [← nlpGain_inQ14_iff]
  constructor
  · intro hall
    exact hall.1
  · intro hn
    exact ⟨hn, hlow, fun i => rescale_inQ14 hn hlow i (h i)⟩

theorem bandEnergy_const (c : ComplexInt16) (band : List Bin) :
    bandEnergy (fun _ => c) band = band.length * (power c.real + power c.imag) % 4294967296 := by
  rw [bandEnergy, List.map_const', List.sum_replicate_int]

/-- A near end with the same energy in every bin, of which nothing is taken away; and a silent one. -/
theorem inRange_iff_loud : (∀ i, InQ14 ((suppress (fun _ => ⟨8000, -8000⟩) fun _ => oneQ14).1 i)) ∧
    ¬ (InQ14 (nlpGain (fun _ => ⟨0, 0⟩) fun _ => oneQ14) ∧ InQ14 (lowGain (fun _ => ⟨0, 0⟩) fun _ => oneQ14) ∧
      ∀ i, InQ14 ((suppress (fun _ => ⟨0, 0⟩) fun _ => oneQ14).1 i)) := by
  have hone (i : Bin) : InQ14 ((fun _ => oneQ14 : Bins) i) := ⟨Int.natCast_nonneg 16384, Int.le_refl _⟩
  have hwide : wideBand.length = 252 := by
    rw [wideBand, List.length_drop, List.length_finRange]
    rfl
  constructor
  · refine ((inRange_iff (fun _ => ⟨8000, -8000⟩) (fun _ => oneQ14) hone).2 ?_).2.2
    have hkept : filtered (fun _ => ⟨8000, -8000⟩) (fun _ => oneQ14) = fun _ => ⟨8000, -8000⟩ := rfl
    rw [Narrows, hkept, bandEnergy_const, hwide]
    decide
  · rw [inRange_iff (fun _ => ⟨0, 0⟩) (fun _ => oneQ14) hone, Narrows, bandEnergy_const, hwide]
    decide

/-! ## A silent near end -/

theorem bandEnergy_silence (band : List Bin) : bandEnergy (fun _ => ⟨0, 0⟩) band = 0 := by
  have hpower : power 0 + power 0 = 0 := rfl
  rw [bandEnergy_const, hpower, Int.mul_zero, Int.zero_emod]

/-- **Without energy at the near end the gain is negative.** -/
theorem nlpGain_silence (hnl : Bins) : nlpGain (fun _ => ⟨0, 0⟩) hnl = -1 := by
  rw [nlpGain, energySums_eq, bandEnergy_silence]
  rfl

/-- Every coefficient above bin 15 that was one becomes -1. -/
theorem not_inRange_silence : ¬ InQ14 ((suppress (fun _ => ⟨0, 0⟩) (fun _ => oneQ14)).1 16) := by
  have hflipped : (suppress (fun _ => ⟨0, 0⟩) (fun _ => oneQ14)).1 16 = -1 := by
    rw [suppress]
    dsimp only
    rw [nlpGain_silence]
    rfl
  rw [hflipped]
  intro h
  exact absurd h.1 (by decide)

end WebRtc.Aecm
