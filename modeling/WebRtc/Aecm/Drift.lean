import Mathlib.Data.List.GetD
import WebRtc.Aecm.Channel

/-!
# The 16-bit and the 32-bit channel

`channelAdapt16` is the upper half of `channelAdapt32`: every function that writes one of them writes
the other, except for the scaling down of a channel that was initialised too aggressively, which
shifts `channelAdapt16` and forgets `channelAdapt32` (aecm_core.c:899). The two agree all along a run
exactly when each time that branch is taken there is nothing to shift (`agree_iff`).
-/

namespace WebRtc.Aecm.Channels

open CInt

/-- `channelAdapt16[i] == channelAdapt32[i] >> 16` for every bin. -/
def Agree (s : Channels) : Prop := ∀ i, s.channelAdapt16 i = s.channelAdapt32 i / 65536

def NonNegative (s : Channels) : Prop := ∀ i, 0 ≤ s.channelAdapt32 i

/-- Right after `WebRtcAecm_InitEchoPathCore` or `WebRtcAecm_InitCore`. -/
def Started (s : Channels) : Prop :=
  (∃ s0 path, s = initEchoPathCore s0 path) ∨ ∃ s0 samplingFreq, initCore s0 samplingFreq = some s

/-- A call that scales the channel down finds nothing but 0 and -1 in it, which a shift leaves alone. -/
def Harmless (s : Channels) (op : Op) : Prop :=
  ∀ far farQ nearEner, op = .calcEnergies far farQ nearEner → (s.measure far farQ nearEner).tooAggressive = true →
    ∀ i, s.channelAdapt16 i = 0 ∨ s.channelAdapt16 i = -1

/-! ## What the functions do to the channels -/

/-- The three channels. -/
def arrays (s : Channels) : Bins × Bins × Bins := (s.channelStored, s.channelAdapt16, s.channelAdapt32)

theorem arrays_measure (s : Channels) (far : Bins) (farQ nearEner : Int) :
    (s.measure far farQ nearEner).arrays = s.arrays := by
  simp only [measure, updateFarLevels, updateVad]
  split <;> rfl

/-- The energies of the block. -/
theorem energies_measure (s : Channels) (far : Bins) (farQ nearEner : Int) :
    (s.measure far farQ nearEner).nearLogEnergy.headD 0 = logOfEnergyInQ8 nearEner s.dfaNoisyQDomain ∧
      (s.measure far farQ nearEner).echoAdaptLogEnergy.headD 0 =
        logOfEnergyInQ8 (CInt.u32 (binSum fun i => s.channelAdapt16 i * far i)) (resolutionChannel16 + farQ) := by
  simp only [measure, updateFarLevels, updateVad]
  split <;> exact ⟨rfl, rfl⟩

/-- The near end has no part in the voice detection. -/
theorem voice_measure (s : Channels) (far : Bins) (farQ nearEner nearEner' : Int) :
    (s.measure far farQ nearEner).currentVADValue = (s.measure far farQ nearEner').currentVADValue ∧
      (s.measure far farQ nearEner).firstVAD = s.firstVAD := by
  simp only [measure, updateFarLevels, updateVad]
  split <;> exact ⟨rfl, rfl⟩

/-- Either the channel is scaled down, or the channels stay. -/
theorem arrays_calcEnergies (s : Channels) (far : Bins) (farQ nearEner : Int) :
    (s.calcEnergies far farQ nearEner).1.arrays =
      if (s.measure far farQ nearEner).tooAggressive then
        (s.channelStored, fun i => s.channelAdapt16 i / 8, s.channelAdapt32)
      else s.arrays := by
  have hm := s.arrays_measure far farQ nearEner
  unfold calcEnergies
  generalize s.measure far farQ nearEner = m at hm
  simp only [arrays, Prod.mk.injEq] at hm
  obtain ⟨h1, h2, h3⟩ := hm
  dsimp only
  split
  · simp only [scaleDown, arrays, h1, h2, h3]
  · split
    · simp only [arrays, h1, h2, h3]
    · simp only [arrays, h1, h2, h3]

theorem arrays_compareChannels (s : Channels) (far echoEst : Bins) :
    (s.compareChannels far echoEst).1.arrays ∈
      [s.arrays, (s.storeAdaptiveChannel far).1.arrays, s.resetAdaptiveChannel.arrays] := by
  unfold compareChannels
  generalize logError s.echoStoredLogEnergy s.nearLogEnergy = mseStored
  generalize logError s.echoAdaptLogEnergy s.nearLogEnergy = mseAdapt
  dsimp only
  split
  · simp [arrays, resetAdaptiveChannel]
  · split
    · simp [arrays, storeAdaptiveChannel]
    · simp [arrays]

/-- After the NLMS step the channels may be left, stored or reset. -/
theorem arrays_updateChannel (s : Channels) (far : Bins) (farQ : Int) (dfa : Bins) (mu : Int) (echoEst : Bins) :
    (s.updateChannel far farQ dfa mu echoEst).1.arrays ∈
      [(s.nlms far farQ dfa mu).arrays, ((s.nlms far farQ dfa mu).storeAdaptiveChannel far).1.arrays,
        (s.nlms far farQ dfa mu).resetAdaptiveChannel.arrays] := by
  unfold updateChannel
  generalize s.nlms far farQ dfa mu = t
  dsimp only
  generalize (if t.farLogEnergy < t.farEnergyMSE then 0 else i16 (t.mseChannelCount + 1)) = count
  split
  · simp
  · split
    · exact arrays_compareChannels { t with mseChannelCount := count } far echoEst
    · simp [arrays]

/-! ## Bins in range -/

theorem i32_half_id {x : Int} (h : -32768 ≤ x ∧ x ≤ 32767) : widen x / 65536 = x := by
  unfold widen
  rw [i32_id (by omega) (by omega)]
  omega

theorem addSatW32_range (a b : Int) : -2147483648 ≤ addSatW32 a b ∧ addSatW32 a b ≤ 2147483647 := by
  have h := i32_range (a + b)
  simp only [addSatW32]
  split
  · split
    · decide
    · exact h
  · split
    · decide
    · exact h

/-- An updated bin is in range, not negative, and agrees. -/
theorem updateBin_some (adapt16 adapt32 x : Int) :
    (updateBin adapt16 adapt32 (some x)).1 = (updateBin adapt16 adapt32 (some x)).2 / 65536 ∧
    0 ≤ (updateBin adapt16 adapt32 (some x)).2 ∧ (updateBin adapt16 adapt32 (some x)).2 ≤ 2147483647 := by
  have h := addSatW32_range adapt32 x
  have hw : 0 ≤ (if addSatW32 adapt32 x < 0 then 0 else addSatW32 adapt32 x) ∧
      (if addSatW32 adapt32 x < 0 then 0 else addSatW32 adapt32 x) ≤ 2147483647 := by
    split <;> omega
  simp only [updateBin]
  generalize (if addSatW32 adapt32 x < 0 then 0 else addSatW32 adapt32 x) = w at hw
  exact ⟨i16_id (by omega) (by omega), hw⟩

/-! ## Agreement -/

/-- Channels in range that agree, as a property of the arrays. -/
structure InSync (a : Bins × Bins × Bins) : Prop where
  stored : ∀ i, -32768 ≤ a.1 i ∧ a.1 i ≤ 32767
  wide : ∀ i, -2147483648 ≤ a.2.2 i ∧ a.2.2 i ≤ 2147483647
  agree : ∀ i, a.2.1 i = a.2.2 i / 65536

theorem InSync.adapt16 {a : Bins × Bins × Bins} (h : InSync a) (i : Bin) : -32768 ≤ a.2.1 i ∧ a.2.1 i ≤ 32767 := by
  have := h.wide i
  have := h.agree i
  omega

section Sync
variable {s : Channels}

theorem nlms_inSync (h : InSync s.arrays) (far : Bins) (farQ : Int) (dfa : Bins) (mu : Int) :
    InSync (s.nlms far farQ dfa mu).arrays := by
  unfold nlms
  split
  · refine ⟨h.stored, fun i => ?_, fun i => ?_⟩
    · dsimp only [arrays]
      cases nlmsUpdate (s.channelAdapt32 i) (far i) (dfa i) farQ s.dfaNoisyQDomain mu i with
      | none => exact h.wide i
      | some x =>
        obtain ⟨-, h0, h1⟩ := updateBin_some (s.channelAdapt16 i) (s.channelAdapt32 i) x
        exact ⟨by omega, h1⟩
    · dsimp only [arrays]
      cases nlmsUpdate (s.channelAdapt32 i) (far i) (dfa i) farQ s.dfaNoisyQDomain mu i with
      | none => exact h.agree i
      | some x => exact (updateBin_some (s.channelAdapt16 i) (s.channelAdapt32 i) x).1
  · exact h

theorem store_inSync (h : InSync s.arrays) (far : Bins) : InSync (s.storeAdaptiveChannel far).1.arrays :=
  ⟨h.adapt16, h.wide, h.agree⟩

theorem reset_inSync (h : InSync s.arrays) : InSync s.resetAdaptiveChannel.arrays :=
  ⟨h.stored, fun _ => i32_range _, fun i => (i32_half_id (h.stored i)).symm⟩

theorem updateChannel_inSync (h : InSync s.arrays) (far : Bins) (farQ : Int) (dfa : Bins) (mu : Int) (echoEst : Bins) :
    InSync (s.updateChannel far farQ dfa mu echoEst).1.arrays := by
  have hn := nlms_inSync h far farQ dfa mu
  have hmem := s.arrays_updateChannel far farQ dfa mu echoEst
  simp only [List.mem_cons, List.not_mem_nil, or_false] at hmem
  rcases hmem with he | he | he
  · exact he ▸ hn
  · exact he ▸ store_inSync hn far
  · exact he ▸ reset_inSync hn

/-- **A harmless step keeps the channels in sync.** -/
theorem step_inSync (h : InSync s.arrays) {op : Op} (hop : s.Harmless op) : InSync (s.step op).1.arrays := by
  cases op with
  | block startupState dfaNoisyQDomain => exact h
  | calcEnergies far farQ nearEner =>
    show InSync (s.calcEnergies far farQ nearEner).1.arrays
    rw [arrays_calcEnergies]
    split
    · rename_i hd
      have hfix : (fun i => s.channelAdapt16 i / 8) = s.channelAdapt16 := by
        funext i
        rcases hop far farQ nearEner rfl hd i with h0 | h0 <;> rw [h0] <;> decide
      rw [hfix]
      exact h
    · exact h
  | updateChannel far farQ dfa mu echoEst => exact updateChannel_inSync h far farQ dfa mu echoEst
  | storeAdaptiveChannel far => exact store_inSync h far
  | resetAdaptiveChannel echoEst => exact reset_inSync h

/-- A step that keeps the channels in agreement was harmless. -/
theorem harmless_of_agree (h : InSync s.arrays) {op : Op} (ha : (s.step op).1.Agree) : s.Harmless op := by
  rintro far farQ nearEner rfl hd i
  have harr := s.arrays_calcEnergies far farQ nearEner
  rw [if_pos hd] at harr
  have h16 : (s.calcEnergies far farQ nearEner).1.channelAdapt16 i = s.channelAdapt16 i / 8 :=
    congrArg (fun a : Bins × Bins × Bins => a.2.1 i) harr
  have h32 : (s.calcEnergies far farQ nearEner).1.channelAdapt32 i = s.channelAdapt32 i :=
    congrArg (fun a : Bins × Bins × Bins => a.2.2 i) harr
  have hnow : (s.calcEnergies far farQ nearEner).1.channelAdapt16 i =
      (s.calcEnergies far farQ nearEner).1.channelAdapt32 i / 65536 := ha i
  have hold : s.channelAdapt16 i = s.channelAdapt32 i / 65536 := h.agree i
  rw [h16, h32] at hnow
  omega

end Sync

theorem initEchoPathCore_inSync (s : Channels) (path : Bins) : InSync (s.initEchoPathCore path).arrays :=
  ⟨fun _ => i16_range _, fun _ => i32_range _, fun _ => (i32_half_id (i16_range _)).symm⟩

theorem arrays_initCore {s0 s : Channels} {samplingFreq : Int} (h : initCore s0 samplingFreq = some s) :
    ∃ table ∈ [channelStored8kHz, channelStored16kHz],
      s.arrays = (s0.initEchoPathCore fun i => table.getD i 0).arrays := by
  unfold initCore at h
  split at h
  · cases h
  · obtain rfl := Option.some.inj h
    refine ⟨if samplingFreq = 8000 then channelStored8kHz else channelStored16kHz, ?_, rfl⟩
    split <;> simp

theorem Started.inSync {s : Channels} (h : s.Started) : InSync s.arrays := by
  rcases h with ⟨s0, path, rfl⟩ | ⟨s0, f, hf⟩
  · exact initEchoPathCore_inSync s0 path
  · obtain ⟨table, -, he⟩ := arrays_initCore hf
    exact he ▸ initEchoPathCore_inSync s0 _

/-! ## No negative gain -/

/-- Channels in range without a negative gain. -/
structure Gains (a : Bins × Bins × Bins) : Prop where
  stored : ∀ i, 0 ≤ a.1 i ∧ a.1 i ≤ 32767
  adapt16 : ∀ i, 0 ≤ a.2.1 i ∧ a.2.1 i ≤ 32767
  wide : ∀ i, 0 ≤ a.2.2 i

section Gain
variable {s : Channels}

theorem widen_nonneg {x : Int} (h : 0 ≤ x ∧ x ≤ 32767) : 0 ≤ widen x := by
  unfold widen
  rw [i32_id (by omega) (by omega)]
  omega

theorem nlms_gains (h : Gains s.arrays) (far : Bins) (farQ : Int) (dfa : Bins) (mu : Int) :
    Gains (s.nlms far farQ dfa mu).arrays := by
  unfold nlms
  split
  · refine ⟨h.stored, fun i => ?_, fun i => ?_⟩
    · dsimp only [arrays]
      cases nlmsUpdate (s.channelAdapt32 i) (far i) (dfa i) farQ s.dfaNoisyQDomain mu i with
      | none => exact h.adapt16 i
      | some x =>
        obtain ⟨he, h0, h1⟩ := updateBin_some (s.channelAdapt16 i) (s.channelAdapt32 i) x
        omega
    · dsimp only [arrays]
      cases nlmsUpdate (s.channelAdapt32 i) (far i) (dfa i) farQ s.dfaNoisyQDomain mu i with
      | none => exact h.wide i
      | some x => exact (updateBin_some (s.channelAdapt16 i) (s.channelAdapt32 i) x).2.1
  · exact h

theorem store_gains (h : Gains s.arrays) (far : Bins) : Gains (s.storeAdaptiveChannel far).1.arrays :=
  ⟨h.adapt16, h.adapt16, h.wide⟩

theorem reset_gains (h : Gains s.arrays) : Gains s.resetAdaptiveChannel.arrays :=
  ⟨h.stored, h.stored, fun i => widen_nonneg (h.stored i)⟩

/-- Every step keeps the gains from being negative, scaling down included. -/
theorem step_gains (h : Gains s.arrays) (op : Op) : Gains (s.step op).1.arrays := by
  cases op with
  | block startupState dfaNoisyQDomain => exact h
  | calcEnergies far farQ nearEner =>
    show Gains (s.calcEnergies far farQ nearEner).1.arrays
    rw [arrays_calcEnergies]
    split
    · refine ⟨h.stored, fun i => ?_, h.wide⟩
      have := h.adapt16 i
      simp only [arrays] at this ⊢
      omega
    · exact h
  | updateChannel far farQ dfa mu echoEst =>
    have hn := nlms_gains h far farQ dfa mu
    have hmem := s.arrays_updateChannel far farQ dfa mu echoEst
    simp only [List.mem_cons, List.not_mem_nil, or_false] at hmem
    show Gains (s.updateChannel far farQ dfa mu echoEst).1.arrays
    rcases hmem with he | he | he
    · exact he ▸ hn
    · exact he ▸ store_gains hn far
    · exact he ▸ reset_gains hn
  | storeAdaptiveChannel far => exact store_gains h far
  | resetAdaptiveChannel echoEst => exact reset_gains h

/-- The initial shapes are gains. -/
theorem table_gain {table : List Int} (hmem : table ∈ [channelStored8kHz, channelStored16kHz]) (k : Nat) :
    0 ≤ table.getD k 0 ∧ table.getD k 0 ≤ 32767 := by
  have htable : ∀ x ∈ table, 0 ≤ x ∧ x ≤ 32767 := by
    simp only [List.mem_cons, List.not_mem_nil, or_false] at hmem
    rcases hmem with rfl | rfl <;> decide
  by_cases hk : k < table.length
  · rw [List.getD_eq_getElem _ _ hk]
    exact htable _ (List.getElem_mem hk)
  · rw [List.getD_eq_default _ _ (by omega)]
    decide

theorem initCore_gains {s0 : Channels} {samplingFreq : Int} (h : initCore s0 samplingFreq = some s) :
    Gains s.arrays := by
  obtain ⟨table, hmem, he⟩ := arrays_initCore h
  have hget (i : Bin) : 0 ≤ i16 (table.getD i 0) ∧ i16 (table.getD i 0) ≤ 32767 := by
    have hx := table_gain hmem i
    rwa [i16_id (by omega) (by omega)]
  rw [he]
  exact ⟨hget, hget, fun i => widen_nonneg (hget i)⟩

end Gain

/-! ## Runs -/

/-- All along a run the channels agree and, if it starts at `WebRtcAecm_InitCore`, no gain is negative. -/
def NeverDrift (s : Channels) (ops : List Op) : Prop :=
  Machine.Always step Agree s ops ∧
  ((∃ s0 samplingFreq, initCore s0 samplingFreq = some s) → Machine.Always step NonNegative s ops)

theorem agree_iff {s : Channels} (h : InSync s.arrays) (ops : List Op) :
    Machine.Always step Agree s ops ↔ Machine.Meets step Harmless s ops := by
  induction ops generalizing s with
  | nil => exact ⟨fun _ => trivial, fun _ => h.agree⟩
  | cons op ops ih =>
    constructor
    · rintro ⟨-, hrest⟩
      have hop := harmless_of_agree h hrest.head
      exact ⟨hop, (ih (step_inSync h hop)).1 hrest⟩
    · rintro ⟨hop, hrest⟩
      exact ⟨h.agree, (ih (step_inSync h hop)).2 hrest⟩

theorem always_nonNegative {s : Channels} (h : Gains s.arrays) (ops : List Op) :
    Machine.Always step NonNegative s ops := by
  have hall : Machine.Always step (fun s => Gains s.arrays) s ops :=
    Machine.always_of_meets (P := fun s => Gains s.arrays) (G := fun _ _ => True)
      (fun _ op hs _ => step_gains hs op) h (Machine.meets_of_forall step (fun _ _ => trivial) s)
  exact hall.mono fun _ hs => hs.wide

/-- **The channels never drift apart exactly when scaling down is always harmless.** -/
theorem neverDrift_iff {s : Channels} (hs : s.Started) (ops : List Op) :
    s.NeverDrift ops ↔ Machine.Meets step Harmless s ops := by
  constructor
  · rintro ⟨ha, -⟩
    exact (agree_iff hs.inSync ops).1 ha
  · intro hm
    refine ⟨(agree_iff hs.inSync ops).2 hm, ?_⟩
    rintro ⟨s0, f, hf⟩
    exact always_nonNegative (initCore_gains hf) ops

/-- Channels before any initialisation. -/
def blank : Channels where
  channelStored := fun _ => 0
  channelAdapt16 := fun _ => 0
  channelAdapt32 := fun _ => 0
  nearLogEnergy := []
  echoAdaptLogEnergy := []
  echoStoredLogEnergy := []
  farLogEnergy := 0
  farEnergyMin := 0
  farEnergyMax := 0
  farEnergyMaxMin := 0
  farEnergyVAD := 0
  farEnergyMSE := 0
  currentVADValue := false
  vadUpdateCount := 0
  firstVAD := false
  startupState := 0
  dfaNoisyQDomain := 0
  mseAdaptOld := 0
  mseStoredOld := 0
  mseThreshold := 0
  mseChannelCount := 0

/-- The channels after `WebRtcAecm_InitCore` at 8 kHz. -/
def inited : Channels := (blank.initCore 8000).get (by decide)

/-- And after a block with a quiet far end. -/
def quietStart : Channels := (inited.step (.calcEnergies (fun _ => 1) 0 0)).1

theorem initCore_blank : blank.initCore 8000 = some inited := (Option.some_get _).symm

theorem inited_quiet : (inited.measure (fun _ => 1) 0 0).tooAggressive = false := by
  decide +kernel

theorem adapt16_of_quiet {s : Channels} {far : Bins} {farQ nearEner : Int}
    (h : (s.measure far farQ nearEner).tooAggressive = false) :
    (s.calcEnergies far farQ nearEner).1.channelAdapt16 = s.channelAdapt16 := by
  have harrays := arrays_calcEnergies s far farQ nearEner
  rw [h, if_neg Bool.false_ne_true] at harrays
  exact congrArg (fun a : Bins × Bins × Bins => a.2.1) harrays

theorem quietStart_adapt16 : quietStart.channelAdapt16 = fun i : Bin => channelStored8kHz.getD i 0 := by
  have hsame : quietStart.channelAdapt16 = inited.channelAdapt16 := adapt16_of_quiet inited_quiet
  rw [hsame]
  funext i
  have hgain := table_gain (List.mem_cons_self : channelStored8kHz ∈ [channelStored8kHz, channelStored16kHz]) i
  have hid : i16 (channelStored8kHz.getD i 0) = channelStored8kHz.getD i 0 := i16_id (by omega) hgain.2
  exact hid

theorem binSum_getD {l : List Int} (hl : l.length ≤ partLen1) (c : Int) :
    binSum (fun i => l.getD i 0 * c) = (l.map (· * c)).sum := by
  have hlist : (List.finRange partLen1).map (fun i : Bin => l.getD i 0 * c) =
      l.map (· * c) ++ List.replicate (partLen1 - l.length) 0 := by
    apply List.ext_getElem
    · simp
      omega
    · intro k h1 h2
      simp only [List.getElem_map, List.getElem_finRange, Fin.val_cast]
      rcases Nat.lt_or_ge k l.length with hk | hk
      · rw [List.getElem_append_left (by simpa using hk), List.getElem_map, List.getD_eq_getElem _ _ hk]
      · rw [List.getElem_append_right (by simpa using hk), List.getElem_replicate, List.getD_eq_default _ _ hk,
          Int.zero_mul]
  rw [binSum, hlist, List.sum_append, List.sum_replicate_int, Int.mul_zero, Int.add_zero]

/-- A louder far end is found to be speech; the channel is scaled down if the near end is not as loud as the echo. -/
theorem quietStart_louder (nearEner : Int) :
    (quietStart.measure (fun _ => 1000) 0 nearEner).tooAggressive = decide (4879 > logOfEnergyInQ8 nearEner 0) := by
  obtain ⟨hnear, hecho⟩ := quietStart.energies_measure (fun _ => 1000) 0 nearEner
  obtain ⟨hvad, hfirst⟩ := quietStart.voice_measure (fun _ => 1000) 0 nearEner 0
  have hspeech : (quietStart.measure (fun _ => 1000) 0 0).currentVADValue = true := by decide +kernel
  have hnever : quietStart.firstVAD = true := by decide +kernel
  have hq : quietStart.dfaNoisyQDomain = 0 := by decide +kernel
  have hsum : binSum (fun i : Bin => channelStored8kHz.getD i 0 * 1000) = 104700000 := by
    rw [binSum_getD (by decide)]
    decide +kernel
  have henergy : logOfEnergyInQ8 (CInt.u32 104700000) (resolutionChannel16 + 0) = 4879 := by decide +kernel
  rw [quietStart_adapt16, hsum, henergy] at hecho
  rw [hq] at hnear
  rw [tooAggressive, hvad, hspeech, hfirst, hnever, hnear, hecho, Bool.true_and, Bool.true_and]

/-- Two blocks with speech at the far end and a louder near end, and an update between them. -/
def answered : List Op :=
  [.calcEnergies (fun _ => 1) 0 0, .calcEnergies (fun _ => 1000) 0 1000000,
    .updateChannel (fun _ => 1000) 0 (fun _ => 500) 1 (fun _ => 0), .resetAdaptiveChannel fun _ => 0]

theorem neverDrift_answered : ∃ s, blank.initCore 8000 = some s ∧ s.NeverDrift answered := by
  refine ⟨_, initCore_blank, (neverDrift_iff (Or.inr ⟨blank, 8000, initCore_blank⟩) _).2 ?_⟩
  refine ⟨?_, ?_, fun _ _ _ h => (nomatch h), fun _ _ _ h => (nomatch h), trivial⟩
  · rintro _ _ _ ⟨⟩ haggressive
    rw [inited_quiet] at haggressive
    cases haggressive
  · rintro _ _ _ ⟨⟩ haggressive
    have hlouder := quietStart_louder 1000000
    rw [show logOfEnergyInQ8 1000000 0 = 6248 by decide +kernel] at hlouder
    exact absurd (hlouder.symm.trans haggressive) (by decide)

/-- Silence at the near end, and a far end that gets louder. -/
def louder : List Op := [.calcEnergies (fun _ => 1) 0 0, .calcEnergies (fun _ => 1000) 0 0]

/-- The second call of `louder` scales down the first bin, which is 2040. -/
theorem not_neverDrift_louder : ∃ s, blank.initCore 8000 = some s ∧ ¬ s.NeverDrift louder := by
  refine ⟨_, initCore_blank, fun h => ?_⟩
  have hstarted : inited.Started := Or.inr ⟨blank, 8000, initCore_blank⟩
  have hlouder := quietStart_louder 0
  rw [show logOfEnergyInQ8 0 0 = 1152 by decide +kernel] at hlouder
  have hgain : quietStart.channelAdapt16 0 = 2040 := by
    rw [quietStart_adapt16]
    rfl
  have hharmless : quietStart.Harmless (.calcEnergies (fun _ => 1000) 0 0) :=
    ((agree_iff hstarted.inSync louder).1 h.1).2.1
  rcases hharmless _ _ _ rfl hlouder 0 with h0 | h0
  · rw [hgain] at h0
    exact absurd h0 (by decide)
  · rw [hgain] at h0
    exact absurd h0 (by decide)

end WebRtc.Aecm.Channels
