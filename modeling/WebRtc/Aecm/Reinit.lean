import WebRtc.Aecm.Mobile
import WebRtc.Aecm.Rebuffer

/-!
# What survives `WebRtcAecm_Init`

Two instances that were initialised alike may still differ in three places: in the core, of which
this level only reads `mult`; in `msInSndCardBuf`, which is written before it is read; and in the
second row of `farendOld`, as `WebRtcAecm_Init` clears 160 bytes of an array of 320. The first two
never reach a frame (`step_alike`), the third does as soon as a call of two frames finds the far end
buffer dry (`handedFrames_dryCalls`).
-/

namespace WebRtc.Aecm.AecMobile

open CInt

variable {α σ : Type} [Zero α]

/-! ## Two instances alike -/

def withCore (s : AecMobile α σ) (core : AecmCore α σ) : AecMobile α σ := { s with aecmCore := core }

/-- Alike but for the core and, while starting up, the last delay reported. -/
def Alike (s t : AecMobile α σ) : Prop :=
  ∃ core ms, t = (s.withCore core).withMs ms ∧ core.mult = s.aecmCore.mult ∧
    (s.ecStartup = false → ms = s.msInSndCardBuf)

section WithCore
variable {s : AecMobile α σ} {core : AecmCore α σ}

omit [Zero α] in
theorem alike_withCore (h : core.mult = s.aecmCore.mult) : Alike s (s.withCore core) :=
  ⟨core, s.msInSndCardBuf, rfl, h, fun _ => rfl⟩

omit [Zero α] in
theorem estBufDelay_withCore (h : core.mult = s.aecmCore.mult) (ms : Int) :
    (s.withCore core).estBufDelay ms = (s.estBufDelay ms).withCore core := by
  cases core
  dsimp only at h
  subst h
  rfl

omit [Zero α] in
theorem delayComp_withCore (h : core.mult = s.aecmCore.mult) :
    (s.withCore core).delayComp = s.delayComp.withCore core := by
  cases core
  dsimp only at h
  subst h
  rfl

omit [Zero α] in
theorem checkBufSize_withCore (h : core.mult = s.aecmCore.mult) (nBlocks10ms : Nat) :
    (s.withCore core).checkBufSize nBlocks10ms =
      ((s.checkBufSize nBlocks10ms).1.withCore core, (s.checkBufSize nBlocks10ms).2) := by
  cases core
  dsimp only at h
  subst h
  rfl

omit [Zero α] in
theorem endStartup_withCore : (s.withCore core).endStartup = s.endStartup.withCore core := by
  simp only [endStartup, apply_ite (fun x : AecMobile α σ => x.withCore core)]
  rfl

theorem nextFarend_withCore (i : Nat) :
    (s.withCore core).nextFarend i = ((s.nextFarend i).1.withCore core, (s.nextFarend i).2) := by
  have hf : (s.withCore core).filledBuffers = s.filledBuffers := rfl
  unfold nextFarend
  rw [hf]
  by_cases h : s.filledBuffers > 0
  · rw [if_pos h, if_pos h]
    rfl
  · rw [if_neg h, if_neg h]
    rfl

omit [Zero α] in
theorem endStartup_core : s.endStartup.aecmCore = s.aecmCore := by
  unfold endStartup
  split
  · rfl
  · split
    · rfl
    · split <;> rfl

theorem nextFarend_core (i : Nat) : (s.nextFarend i).1.aecmCore = s.aecmCore := by
  unfold nextFarend
  split <;> rfl

end WithCore

/-! ## One call -/

section Step
variable {proc : BlockProc α σ}

theorem prepareFrame_withCore {s : AecMobile α σ} {core : AecmCore α σ} (h : core.mult = s.aecmCore.mult)
    (noisy : Nat → α) (clean : Option (Nat → α)) (i : Nat) :
    (s.withCore core).prepareFrame noisy clean i =
      ((s.prepareFrame noisy clean i).1.withCore core, (s.prepareFrame noisy clean i).2) := by
  have hc := nextFarend_core (s := s) i
  unfold prepareFrame
  rw [nextFarend_withCore]
  generalize s.nextFarend i = far at hc
  have he := @estBufDelay_withCore α σ far.1 core (by rw [hc, h]) far.1.msInSndCardBuf
  dsimp only
  rw [apply_ite (fun x : AecMobile α σ => x.withCore core), ← he]
  rfl

theorem prepareFrame_core (s : AecMobile α σ) (noisy : Nat → α) (clean : Option (Nat → α)) (i : Nat) :
    (s.prepareFrame noisy clean i).1.aecmCore = s.aecmCore := by
  have hc := nextFarend_core (s := s) i
  unfold prepareFrame
  generalize s.nextFarend i = far at hc
  dsimp only
  split
  · exact hc
  · exact hc

/-- The loop hands the same frames, whatever the core. -/
theorem processLoop_alike (hproc : proc.Total) (noisy : Nat → α) (clean : Option (Nat → α)) (ret : Int)
    (is : List Nat) {s : AecMobile α σ} {core : AecmCore α σ} (h : core.mult = s.aecmCore.mult) :
    Alike (processLoop proc noisy clean ret is s).1 (processLoop proc noisy clean ret is (s.withCore core)).1 ∧
    (processLoop proc noisy clean ret is s).2.handed =
      (processLoop proc noisy clean ret is (s.withCore core)).2.handed := by
  induction is generalizing s core with
  | nil => exact ⟨alike_withCore h, rfl⟩
  | cons i is ih =>
    have hc := prepareFrame_core s noisy clean i
    have hok (t : AecmCore α σ) (c : FrameCall α) : (t.processFrame proc c).2.ok = true :=
      processFrame_total hproc t c
    simp only [processLoop, prepareFrame_withCore h, hok, if_true]
    generalize s.prepareFrame noisy clean i = p at hc
    have hm : (core.processFrame proc p.2).1.mult = (p.1.aecmCore.processFrame proc p.2).1.mult := by
      rw [AecmCore.processFrame_mult, AecmCore.processFrame_mult, hc, h]
    have hw : (p.1.withCore core).aecmCore = core := rfl
    rw [hw]
    generalize core.processFrame proc p.2 = r' at hm ⊢
    generalize p.1.aecmCore.processFrame proc p.2 = r at hm ⊢
    obtain ⟨ha, hh⟩ := ih (s := p.1.withCore r.1) hm
    exact ⟨ha, congrArg (p.2 :: ·) hh⟩

omit [Zero α] in
theorem processStartup_withCore {s : AecMobile α σ} {core : AecmCore α σ} (h : core.mult = s.aecmCore.mult)
    (out : List α) (nBlocks10ms : Nat) (ret : Int) :
    (s.withCore core).processStartup out nBlocks10ms ret =
      ((s.processStartup out nBlocks10ms ret).1.withCore core, (s.processStartup out nBlocks10ms ret).2) := by
  have hb : (s.withCore core).checkBuffSize = s.checkBuffSize := rfl
  unfold processStartup
  rw [checkBufSize_withCore h, hb]
  generalize s.checkBufSize nBlocks10ms = r
  dsimp only
  split
  · rw [endStartup_withCore]
  · rw [endStartup_withCore]

omit [Zero α] in
theorem processStartup_core (s : AecMobile α σ) (out : List α) (nBlocks10ms : Nat) (ret : Int) :
    (s.processStartup out nBlocks10ms ret).1.aecmCore = s.aecmCore := by
  unfold processStartup
  split
  · exact endStartup_core
  · exact endStartup_core

theorem processChecked_alike (hproc : proc.Total) {s t : AecMobile α σ} (h : Alike s t) (noisy : Nat → α)
    (c : ProcessCall α) :
    Alike (s.processChecked proc noisy c).1 (t.processChecked proc noisy c).1 ∧
    (s.processChecked proc noisy c).2.handed = (t.processChecked proc noisy c).2.handed := by
  obtain ⟨core, ms, rfl, hm, -⟩ := h
  -- The reported delay is stored first, so from here on only the cores differ.
  have hs : ((s.withCore core).withMs ms).withMs (clampMs c.msInSndCardBuf) =
      (s.withMs (clampMs c.msInSndCardBuf)).withCore core := rfl
  have hm' : core.mult = (s.withMs (clampMs c.msInSndCardBuf)).aecmCore.mult := hm
  rw [processChecked_eq, processChecked_eq, hs]
  generalize s.withMs (clampMs c.msInSndCardBuf) = u at hm'
  have he : ((s.withCore core).withMs ms).ecStartup = s.ecStartup := rfl
  have hmult : ((s.withCore core).withMs ms).aecmCore.mult = s.aecmCore.mult := hm
  rw [he, hmult]
  split
  · rw [processStartup_withCore hm']
    exact ⟨alike_withCore (by rw [processStartup_core, hm']), rfl⟩
  · exact processLoop_alike hproc _ _ _ _ hm'

theorem process_alike (hproc : proc.Total) {s t : AecMobile α σ} (h : Alike s t) (c : ProcessCall α) :
    Alike (s.process proc c).1 (t.process proc c).1 ∧
    (s.process proc c).2.handed = (t.process proc c).2.handed := by
  have herr : t.processError c = s.processError c := by
    obtain ⟨core, ms, rfl, -, -⟩ := h
    rfl
  unfold process
  rw [herr]
  cases c.nearendNoisy with
  | none => exact ⟨h, rfl⟩
  | some noisy =>
    dsimp only
    split
    · exact ⟨h, rfl⟩
    · exact processChecked_alike hproc h noisy c

omit [Zero α] in
theorem delayComp_alike {s t : AecMobile α σ} (h : Alike s t) (hs : s.ecStartup = false) :
    Alike s.delayComp t.delayComp := by
  obtain ⟨core, ms, rfl, hm, hms⟩ := h
  have ht : (s.withCore core).withMs ms = s.withCore core := by rw [hms hs]; rfl
  rw [ht, delayComp_withCore hm]
  exact alike_withCore hm

omit [Zero α] in
theorem bufferFarend_alike {s t : AecMobile α σ} (h : Alike s t) (farend : Option (Nat → α)) (nrOfSamples : Nat) :
    Alike (s.bufferFarend farend nrOfSamples).1 (t.bufferFarend farend nrOfSamples).1 ∧
    (s.bufferFarend farend nrOfSamples).2.handed = (t.bufferFarend farend nrOfSamples).2.handed := by
  have herr : t.getBufferFarendError farend nrOfSamples = s.getBufferFarendError farend nrOfSamples := by
    obtain ⟨core, ms, rfl, -, -⟩ := h
    rfl
  have hst : t.ecStartup = s.ecStartup := by
    obtain ⟨core, ms, rfl, -, -⟩ := h
    rfl
  have hu : Alike (if s.ecStartup then s else s.delayComp) (if t.ecStartup then t else t.delayComp) := by
    rw [hst]
    split
    · exact h
    · exact delayComp_alike h (by simpa using ‹¬ s.ecStartup = true›)
  unfold bufferFarend
  rw [herr]
  cases farend with
  | none => exact ⟨h, rfl⟩
  | some p =>
    dsimp only
    split
    · exact ⟨h, rfl⟩
    · obtain ⟨core, ms, ht, hm, hms⟩ := hu
      rw [ht]
      exact ⟨⟨core, ms, rfl, hm, hms⟩, rfl⟩

/-- **Alike instances hand the same frames and stay alike.** -/
theorem step_alike (hproc : proc.Total) {s t : AecMobile α σ} (h : Alike s t) (call : MobileCall α) :
    Alike (s.step proc call).1 (t.step proc call).1 ∧ (s.step proc call).2.handed = (t.step proc call).2.handed := by
  cases call with
  | bufferFarend farend nrOfSamples => exact bufferFarend_alike h farend nrOfSamples
  | process c => exact process_alike hproc h c

theorem handedFrames_alike (hproc : proc.Total) {s t : AecMobile α σ} (h : Alike s t)
    (calls : List (MobileCall α)) : s.handedFrames proc calls = t.handedFrames proc calls := by
  simp only [handedFrames, List.flatMap_def]
  rw [Machine.trace_map_eq_of_sim (R := Alike) (fun _ _ call h => step_alike hproc h call) h]

end Step

/-! ## Initialised instances -/

/-- An initialised instance after `k` calls that reported no delay, none of them long enough to end the
wait for the sound card. -/
def waiting (k : Nat) (sampFreq ms : Int) (old : List α) (b : RingBuffer α) (core : AecmCore α σ) :
    AecMobile α σ where
  sampFreq := sampFreq
  bufSizeStart := 0
  knownDelay := 0
  farendOld := old
  initFlag := initCheck
  counter := k
  sum := 10 * k
  firstVal := if k = 0 then 0 else 10
  checkBufSizeCtr := k
  msInSndCardBuf := if k = 0 then ms else 10
  filtDelay := 0
  timeForDelayChange := 0
  ecStartup := true
  checkBuffSize := true
  delayChange := true
  lastDelayDiff := 0
  farendBuf := b
  aecmCore := core

theorem init_eq {sampFreq : Int} (hf : sampFreq = 8000 ∨ sampFreq = 16000) (initBlk : Int → σ → σ)
    (s : AecMobile α σ) :
    s.init initBlk sampFreq =
      (waiting 0 sampFreq s.msInSndCardBuf (List.replicate frameLen 0 ++ s.farendOld.drop frameLen)
        s.farendBuf.initBuffer (s.aecmCore.initFields initBlk sampFreq), 0) := by
  have hok : ¬ (sampFreq ≠ 8000 ∧ sampFreq ≠ 16000) := by omega
  have hold : memcpy s.farendOld 0 (List.replicate (160 / 2) 0) =
      List.replicate frameLen 0 ++ s.farendOld.drop frameLen := by
    rw [RingBuffer.memcpy_zero, List.length_replicate]
  simp only [init, AecmCore.initCore, if_neg hok, hold]
  rfl

omit [Zero α] in
theorem alike_waiting {core core' : AecmCore α σ} (h : core'.mult = core.mult) (sampFreq ms ms' : Int)
    (old : List α) (b : RingBuffer α) :
    Alike (waiting 0 sampFreq ms old b core) (waiting 0 sampFreq ms' old b core') :=
  ⟨core', ms', rfl, h, fun he => absurd he (by simp [waiting])⟩

/-! ## A run that shows the second row -/

section Dry
variable {proc : BlockProc α σ}

theorem handedFrames_cons (s : AecMobile α σ) (call : MobileCall α) (calls : List (MobileCall α)) :
    s.handedFrames proc (call :: calls) =
      (s.step proc call).2.handed ++ (s.step proc call).1.handedFrames proc calls := by
  simp only [handedFrames, Machine.trace, List.flatMap_cons]

/-- Two frames of silence, and no delay. -/
def quiet : ProcessCall α := ⟨some fun _ => 0, none, true, 160, 0⟩

theorem step_quiet {s : AecMobile α σ} (hi : s.initFlag = initCheck) :
    s.step proc (.process quiet) = s.processChecked proc (fun _ => 0) quiet := by
  have herr : s.processError (quiet (α := α)) = 0 := by
    simp only [processError, quiet, hi]
    rfl
  simp only [step, process, herr]
  rfl

variable (proc) in
theorem step_quiet_startup {s : AecMobile α σ} (hi : s.initFlag = initCheck) (hs : s.ecStartup = true) :
    ∃ out, s.step proc (.process quiet) =
      (s.withMs 10).processStartup out (2 / toSize s.aecmCore.mult) 0 := by
  have hms : clampMs (quiet (α := α)).msInSndCardBuf = 10 := show clampMs 0 = 10 by decide
  have hn : (quiet (α := α)).nrOfSamples / frameLen = 2 := show 160 / 80 = 2 by decide
  have hret : ¬ ((quiet (α := α)).msInSndCardBuf < 0 ∨ (quiet (α := α)).msInSndCardBuf > 500) := by
    simp only [quiet]; omega
  rw [step_quiet hi, processChecked_eq, if_pos hs, hms, hn, if_neg hret]
  exact ⟨_, rfl⟩

omit [Zero α] in
theorem processStartup_handed (s : AecMobile α σ) (out : List α) (n : Nat) (ret : Int) :
    (s.processStartup out n ret).2.handed = [] := by
  unfold processStartup
  split <;> rfl

/-- While starting up a quiet call hands nothing on. -/
theorem handedFrames_quiet {s : AecMobile α σ} (hi : s.initFlag = initCheck) (hs : s.ecStartup = true)
    (hb : s.checkBuffSize = true) (calls : List (MobileCall α)) :
    s.handedFrames proc (.process quiet :: calls) =
      ((s.withMs 10).checkBufSize (2 / toSize s.aecmCore.mult)).1.endStartup.handedFrames proc calls := by
  obtain ⟨out, he⟩ := step_quiet_startup proc hi hs
  rw [handedFrames_cons, he, processStartup_handed, List.nil_append]
  unfold processStartup
  rw [if_pos (show (s.withMs 10).checkBuffSize = true from hb)]

theorem handedFrames_quiet_settled {s : AecMobile α σ} (hi : s.initFlag = initCheck) (hs : s.ecStartup = true)
    (hb : s.checkBuffSize = false) (calls : List (MobileCall α)) :
    s.handedFrames proc (.process quiet :: calls) = (s.withMs 10).endStartup.handedFrames proc calls := by
  obtain ⟨out, he⟩ := step_quiet_startup proc hi hs
  rw [handedFrames_cons, he, processStartup_handed, List.nil_append]
  unfold processStartup
  rw [if_neg (ne_true_of_eq_false (show (s.withMs 10).checkBuffSize = false from hb))]

omit [Zero α] in
/-- The sound card is stable, but not for long enough. -/
theorem checkBufSize_waiting {k n : Nat} (hn : 1 ≤ n) (hk : (k + 1) * n < 6) (sampFreq ms : Int) (old : List α)
    (b : RingBuffer α) (core : AecmCore α σ) :
    (((waiting k sampFreq ms old b core).withMs 10).checkBufSize n).1.endStartup =
      waiting (k + 1) sampFreq ms old b core := by
  have hk' : k + 1 ≤ (k + 1) * n := Nat.le_mul_of_pos_right _ hn
  have hstable : stable 10 10 = true := by decide
  have hcount : i16 ((k : Int) + 1) = k + 1 := i16_id (by omega) (by omega)
  have hsum : i16 (10 * (k : Int) + 10) = 10 * k + 10 := i16_id (by omega) (by omega)
  have hprod : toSize (((k : Int) + 1) * n) = (k + 1) * n := by
    have hcast : ((k : Int) + 1) * n = ((k + 1) * n : Nat) := by push_cast; rfl
    rw [hcast, toSize_id (by omega) (by omega), Int.toNat_natCast]
  have hsettled : ¬ 6 ≤ (k + 1) * n := by omega
  have hlate : ¬ 50 < (k + 1) * n := by omega
  rcases Nat.eq_zero_or_pos k with rfl | hpos
  · have h1 : i16 1 = 1 := by decide
    have h10 : i16 10 = 10 := by decide
    simp only [Nat.cast_zero, zero_add, one_mul] at hprod hsettled hlate
    simp [checkBufSize, firstValue, sumSoFar, isStable, nextSum, nextCounter, waiting, withMs,
      endStartup, hstable, h1, h10, hprod, hsettled, hlate]
  · have h0 : k ≠ 0 := by omega
    simp [checkBufSize, firstValue, sumSoFar, isStable, nextSum, nextCounter, waiting, withMs,
      endStartup, hstable, hcount, hsum, hprod, hsettled, hlate, h0]
    omega

/-- A running instance whose far end buffer holds `q`. -/
structure Running (f : Int) (old q : List α) (s : AecMobile α σ) : Prop where
  initFlag : s.initFlag = initCheck
  ecStartup : s.ecStartup = false
  sampFreq : s.sampFreq = f
  mult : s.aecmCore.mult = f / 8000
  farendOld : s.farendOld = old
  farendBuf : Holds bufSizeSamp s.farendBuf q

theorem filledBuffers_eq {s : AecMobile α σ} {q : List α} (h : Holds bufSizeSamp s.farendBuf q) :
    s.filledBuffers = (q.length / 80 : Nat) := by
  have hle : q.length ≤ 4000 := h.length_le
  have hq : i16 (q.length : Int) = q.length := i16_id (by omega) (by omega)
  unfold filledBuffers available
  rw [h.availableRead_eq, hq, Int.tdiv_eq_ediv_of_nonneg (by omega), i16_id (by omega) (by omega)]
  omega

/-- The second row survives what is stored to the first. -/
theorem getD_memcpy_second (old : List α) (farend : Frame α) (j : Nat) :
    (memcpy old 0 farend.1).getD (frameLen + j) 0 = old.getD (frameLen + j) 0 := by
  have hlen := farend.2
  rw [RingBuffer.memcpy_zero, List.getD_eq_getElem?_getD, List.getElem?_append_right (by omega), hlen,
    List.getElem?_drop, Nat.add_sub_cancel_left, List.getD_eq_getElem?_getD]

theorem nextFarend_dry {s : AecMobile α σ} (h : Holds bufSizeSamp s.farendBuf []) (i : Nat) :
    s.nextFarend i = (s, s.oldRow i) := by
  have hf : ¬ s.filledBuffers > 0 := by
    rw [filledBuffers_eq h]
    simp
  rw [nextFarend, if_neg hf]

theorem prepareFrame_dry {s : AecMobile α σ} (h : Holds bufSizeSamp s.farendBuf []) (noisy : Nat → α)
    (clean : Option (Nat → α)) (i : Nat) :
    (s.prepareFrame noisy clean i).2 =
      ⟨s.oldRow i, frameFrom fun j => noisy (frameLen * i + j), clean.map fun p => frameFrom fun j =>
          p (frameLen * i + j)⟩ := by
  rw [prepareFrame, nextFarend_dry h]

/-- After the first frame of a quiet call the far end buffer is dry. -/
theorem prepareFrame_running {f : Int} {old q : List α} {s : AecMobile α σ} (h : Running f old q s)
    (hq : f = 8000 ∧ q = [] ∨ f = 16000 ∧ q.length = 80) (noisy : Nat → α) (clean : Option (Nat → α)) :
    Holds bufSizeSamp ((s.withMs 10).prepareFrame noisy clean 0).1.farendBuf [] ∧
    ∀ j, ((s.withMs 10).prepareFrame noisy clean 0).1.farendOld.getD (frameLen + j) 0 = old.getD (frameLen + j) 0 := by
  rcases hq with ⟨rfl, rfl⟩ | ⟨rfl, hlen⟩
  · -- Narrow band: the delay estimator runs, and finds 80 samples on the sound card, none buffered.
    have hend : decide ((0 : Nat) = 0 ∧ (s.withMs 10).sampFreq = 8000 ∨ (0 : Nat) = 1 ∧ (s.withMs 10).sampFreq = 16000)
        = true := decide_eq_true (Or.inl ⟨rfl, h.sampFreq⟩)
    have hms : i16 (10 * sampMsNb * (s.withMs 10).aecmCore.mult) = 80 := by
      rw [show (s.withMs 10).aecmCore.mult = 1 from h.mult.trans (by decide)]
      decide
    have hav : (s.withMs 10).available = 0 := h.farendBuf.availableRead_eq
    have hdelay : ¬ i16 (80 - i16 ((0 : Nat) : Int)) < 80 := by decide
    unfold prepareFrame
    rw [nextFarend_dry (s := s.withMs 10) h.farendBuf]
    dsimp only
    rw [if_pos hend, estBufDelay]
    simp only [show (s.withMs 10).msInSndCardBuf = 10 from rfl, hms, hav, if_neg hdelay]
    exact ⟨h.farendBuf, fun j => by rw [show (s.withMs 10).farendOld = old from h.farendOld]⟩
  · -- Wide band: the first frame is read and stored to the first row.
    have hfull : (s.withMs 10).filledBuffers > 0 := by
      rw [filledBuffers_eq (s := s.withMs 10) h.farendBuf, hlen]
      decide
    have hend : decide ((0 : Nat) = 0 ∧ (s.withMs 10).sampFreq = 8000 ∨ (0 : Nat) = 1 ∧ (s.withMs 10).sampFreq = 16000)
        = false := by
      rw [show (s.withMs 10).sampFreq = 16000 from h.sampFreq]
      decide
    obtain ⟨hr, -⟩ := h.farendBuf.read (by decide) true [] frameLen
    rw [List.drop_of_length_le (le_of_eq hlen)] at hr
    unfold prepareFrame nextFarend
    rw [if_pos hfull]
    dsimp only
    rw [if_neg (ne_true_of_eq_false hend)]
    refine ⟨hr, fun j => ?_⟩
    dsimp only
    rw [Nat.mul_zero, getD_memcpy_second, show (s.withMs 10).farendOld = old from h.farendOld]

theorem processLoop_two (hproc : proc.Total) (noisy : Nat → α) (clean : Option (Nat → α)) (ret : Int)
    (s : AecMobile α σ) :
    (processLoop proc noisy clean ret [0, 1] s).2.handed =
      [(s.prepareFrame noisy clean 0).2,
        (((s.prepareFrame noisy clean 0).1.withCore
          ((s.prepareFrame noisy clean 0).1.aecmCore.processFrame proc (s.prepareFrame noisy clean 0).2).1).prepareFrame
          noisy clean 1).2] := by
  have hok (t : AecmCore α σ) (c : FrameCall α) : (t.processFrame proc c).2.ok = true :=
    processFrame_total hproc t c
  simp only [processLoop, hok, if_true]
  rfl

/-- With nothing buffered, the second frame of a quiet call is the second row of `farendOld`. -/
theorem handed_running {f : Int} {old q : List α} {s : AecMobile α σ} (hproc : proc.Total)
    (h : Running f old q s) (hq : f = 8000 ∧ q = [] ∨ f = 16000 ∧ q.length = 80) :
    ∃ c : FrameCall α, (s.step proc (.process quiet)).2.handed =
      [c, ⟨frameFrom fun j => old.getD (frameLen + j) 0, frameFrom fun _ => 0, none⟩] := by
  have hms : clampMs (quiet (α := α)).msInSndCardBuf = 10 := show clampMs 0 = 10 by decide
  have hn : List.range ((quiet (α := α)).nrOfSamples / frameLen) = [0, 1] :=
    show List.range (160 / 80) = [0, 1] by decide
  obtain ⟨hdry, hold⟩ := prepareFrame_running h hq (fun _ => 0) none
  have hrow (core : AecmCore α σ) :
      ((((s.withMs 10).prepareFrame (fun _ => 0) none 0).1.withCore core).prepareFrame (fun _ => 0) none 1).2 =
        ⟨frameFrom fun j => old.getD (frameLen + j) 0, frameFrom fun _ => 0, none⟩ := by
    rw [prepareFrame_dry (s := ((s.withMs 10).prepareFrame (fun _ => 0) none 0).1.withCore core) hdry]
    simp only [oldRow, withCore, Nat.mul_one, hold, Option.map_none]
  rw [step_quiet h.initFlag, processChecked_eq, if_neg (by rw [h.ecStartup]; decide), hms, hn]
  refine ⟨((s.withMs 10).prepareFrame (fun _ => 0) none 0).2, ?_⟩
  rw [← hrow]
  exact processLoop_two hproc ..

/-! ### Getting there -/

/-- Quiet calls until a second frame is taken from an empty far end buffer. -/
def dryCalls (f : Int) : List (MobileCall α) :=
  if f = 8000 then List.replicate 4 (.process quiet)
  else List.replicate 6 (.process quiet) ++
    [.bufferFarend (some fun _ => 0) 80, .process quiet, .process quiet]

/-- `k` quiet calls that do not end the wait. -/
theorem handedFrames_wait {k n : Nat} (hn : 1 ≤ n) (hk : k * n < 6) {core : AecmCore α σ}
    (hc : 2 / toSize core.mult = n) (f ms : Int) (old : List α) (b : RingBuffer α) (calls : List (MobileCall α)) :
    (waiting 0 f ms old b core).handedFrames proc (List.replicate k (.process quiet) ++ calls) =
      (waiting k f ms old b core).handedFrames proc calls := by
  induction k generalizing calls with
  | zero => rfl
  | succ k ih =>
    have hk' : k * n < 6 := by
      rw [Nat.succ_mul] at hk
      omega
    rw [List.replicate_succ', List.append_assoc, ih hk', List.singleton_append,
      handedFrames_quiet rfl rfl rfl, show (waiting k f ms old b core).aecmCore = core from rfl, hc,
      checkBufSize_waiting hn hk]

omit [Zero α] in
theorem endStartup_filled {s : AecMobile α σ} (h1 : s.checkBuffSize = false) (h2 : s.filledBuffers = s.bufSizeStart) :
    s.endStartup = { s with ecStartup := false } := by
  rw [endStartup, if_neg (by rw [h1]; decide), if_pos h2]

omit [Zero α] in
theorem endStartup_filling {s : AecMobile α σ} (h : s.filledBuffers < s.bufSizeStart) : s.endStartup = s := by
  unfold endStartup
  split
  · rfl
  · rw [if_neg (by omega), if_neg (by omega)]

/-- After `k` quiet calls that settled for a far end buffer of `n` frames. -/
def settled (k n : Nat) (f ms : Int) (old : List α) (b : RingBuffer α) (core : AecmCore α σ) : AecMobile α σ :=
  { waiting k f ms old b core with checkBuffSize := false, bufSizeStart := n }

/-- As soon as the far end buffer holds what was settled for, the instance runs. -/
theorem running_settled {k n : Nat} {f : Int} {core : AecmCore α σ} (hc : core.mult = f / 8000) (ms : Int)
    (old : List α) {b : RingBuffer α} {q : List α} (hb : Holds bufSizeSamp b q) (hq : q.length / 80 = n) :
    Running f old q (settled k n f ms old b core).endStartup := by
  have hfill : (settled k n f ms old b core).filledBuffers = n := by
    rw [filledBuffers_eq (s := settled k n f ms old b core) hb, hq]
  rw [endStartup_filled rfl hfill]
  exact ⟨rfl, rfl, rfl, hc, rfl, hb⟩

omit [Zero α] in
/-- Narrow band: three calls of two frames, and no far end buffer is asked for. -/
theorem checkBufSize_nb {core : AecmCore α σ} (hc : core.mult = 1) (ms : Int) (old : List α) (b : RingBuffer α) :
    (((waiting 2 8000 ms old b core).withMs 10).checkBufSize 2).1 = settled 3 0 8000 ms old b core := by
  simp [checkBufSize, firstValue, sumSoFar, isStable, nextSum, nextCounter, averageBufSize, settled, waiting, withMs,
    stable, i16, i32, toSize, hc]

omit [Zero α] in
/-- Wide band: six calls of two frames, and one far end frame is asked for. -/
theorem checkBufSize_wb {core : AecmCore α σ} (hc : core.mult = 2) (ms : Int) (old : List α) (b : RingBuffer α) :
    (((waiting 5 16000 ms old b core).withMs 10).checkBufSize 1).1 = settled 6 1 16000 ms old b core := by
  simp [checkBufSize, firstValue, sumSoFar, isStable, nextSum, nextCounter, averageBufSize, settled, waiting, withMs,
    stable, i16, i32, toSize, hc]

theorem handedFrames_nb {core : AecmCore α σ} (hproc : proc.Total) (hc : core.mult = 1) (ms : Int) (old : List α)
    {b : RingBuffer α} (hb : Holds bufSizeSamp b []) :
    ∃ c : FrameCall α, (waiting 0 8000 ms old b core).handedFrames proc (dryCalls 8000) =
      [c, ⟨frameFrom fun j => old.getD (frameLen + j) 0, frameFrom fun _ => 0, none⟩] := by
  have hn : 2 / toSize core.mult = 2 := by rw [hc]; decide
  have hcalls : dryCalls (α := α) 8000 = List.replicate 2 (.process quiet) ++ [.process quiet, .process quiet] := rfl
  rw [hcalls, handedFrames_wait (by decide) (by decide) hn, handedFrames_quiet rfl rfl rfl,
    show (waiting 2 8000 ms old b core).aecmCore = core from rfl, hn, handedFrames_cons]
  have hrun := running_settled (k := 3) (f := 8000) hc ms old hb (n := 0) (by simp)
  obtain ⟨c, hh⟩ := handed_running hproc hrun (Or.inl ⟨rfl, rfl⟩)
  rw [checkBufSize_nb hc, hh]
  exact ⟨c, rfl⟩

omit [Zero α] in
theorem settled_withMs (k n : Nat) (f ms : Int) (old : List α) (b : RingBuffer α) (core : AecmCore α σ) :
    (settled (k + 1) n f ms old b core).withMs 10 = settled (k + 1) n f ms old b core := rfl

/-- A far end frame that comes in while starting up. -/
theorem step_bufferFarend_settled (k n : Nat) (f ms : Int) (old : List α) (b : RingBuffer α) (core : AecmCore α σ) :
    (settled k n f ms old b core).step proc (.bufferFarend (some fun _ => 0) 80) =
      (settled k n f ms old (b.writeBuffer (List.replicate 80 0)).1 core).done 0 := by
  have hz : (List.range 80).map (fun _ => (0 : α)) = List.replicate 80 0 := by
    rw [List.map_const', List.length_range]
  have herr : (settled k n f ms old b core).getBufferFarendError (some fun _ => (0 : α)) 80 = 0 := rfl
  simp only [step, bufferFarend, herr, hz, ne_eq, not_true_eq_false, if_false]
  rfl

theorem handedFrames_wb {core : AecmCore α σ} (hproc : proc.Total) (hc : core.mult = 2) (ms : Int) (old : List α)
    {b : RingBuffer α} (hb : Holds bufSizeSamp b []) :
    ∃ c : FrameCall α, (waiting 0 16000 ms old b core).handedFrames proc (dryCalls 16000) =
      [c, ⟨frameFrom fun j => old.getD (frameLen + j) 0, frameFrom fun _ => 0, none⟩] := by
  have hn : 2 / toSize core.mult = 1 := by rw [hc]; decide
  have hcalls : dryCalls (α := α) 16000 = List.replicate 5 (.process quiet) ++
      [.process quiet, .bufferFarend (some fun _ => 0) 80, .process quiet, .process quiet] := rfl
  have hempty : (settled 6 1 16000 ms old b core).filledBuffers < (settled 6 1 16000 ms old b core).bufSizeStart := by
    rw [filledBuffers_eq (s := settled 6 1 16000 ms old b core) hb]
    exact (by decide : ((0 / 80 : Nat) : Int) < (1 : Nat))
  obtain ⟨hw, -⟩ := hb.write (List.replicate 80 0)
  have hq : ([] ++ (List.replicate 80 (0 : α)).take (bufSizeSamp - ([] : List α).length)).length = 80 := by simp
  have hrun := running_settled (k := 6) (f := 16000) hc ms old hw (n := 1) (by rw [hq])
  obtain ⟨c, hh⟩ := handed_running hproc hrun (Or.inr ⟨rfl, hq⟩)
  refine ⟨c, ?_⟩
  rw [hcalls, handedFrames_wait (by decide) (by decide) hn, handedFrames_quiet rfl rfl rfl,
    show (waiting 5 16000 ms old b core).aecmCore = core from rfl, hn, checkBufSize_wb hc, endStartup_filling hempty,
    handedFrames_cons, step_bufferFarend_settled]
  dsimp only [done]
  rw [List.nil_append, handedFrames_quiet_settled rfl rfl rfl, settled_withMs, handedFrames_cons, hh]
  rfl

end Dry

/-! ## The result -/

/-- After `init` the two instances hand the same frames on in every run. -/
def NoTrace (proc : BlockProc α σ) (initBlk : Int → σ → σ) (sampFreq : Int) (s t : AecMobile α σ) : Prop :=
  ∀ calls, (s.init initBlk sampFreq).1.handedFrames proc calls = (t.init initBlk sampFreq).1.handedFrames proc calls

theorem handedFrames_dryCalls {proc : BlockProc α σ} (hproc : proc.Total) {sampFreq : Int}
    (hf : sampFreq = 8000 ∨ sampFreq = 16000) (initBlk : Int → σ → σ) {s : AecMobile α σ} (hs : s.Created) :
    ∃ c : FrameCall α, (s.init initBlk sampFreq).1.handedFrames proc (dryCalls sampFreq) =
      [c, ⟨s.oldRow 1, frameFrom fun _ => 0, none⟩] := by
  have hb : Holds bufSizeSamp s.farendBuf.initBuffer [] := Holds.init hs.farendBuf (by decide) (by decide)
  have hrow : (fun j => (List.replicate frameLen 0 ++ s.farendOld.drop frameLen).getD (frameLen + j) 0) =
      fun j => s.farendOld.getD (frameLen * 1 + j) 0 := by
    funext j
    rw [List.getD_eq_getElem?_getD, List.getElem?_append_right (by simp), List.length_replicate, List.getElem?_drop,
      Nat.add_sub_cancel_left, List.getD_eq_getElem?_getD, Nat.mul_one]
  rw [init_eq hf, oldRow, ← hrow]
  rcases hf with rfl | rfl
  · exact handedFrames_nb hproc rfl _ _ hb
  · exact handedFrames_wb hproc rfl _ _ hb

theorem drop_eq_oldRow {s : AecMobile α σ} (hs : s.Created) : s.farendOld.drop frameLen = (s.oldRow 1).1 := by
  have hlen : s.farendOld.length = 160 := hs.farendOld
  apply List.ext_getElem
  · rw [List.length_drop, hlen, (s.oldRow 1).2]
    rfl
  · intro j h1 h2
    have hj : frameLen + j < s.farendOld.length := by
      rw [List.length_drop] at h1
      omega
    simp [oldRow, frameFrom, List.getD_eq_getElem?_getD, List.getElem?_eq_getElem hj]

/-- **Re-initialisation leaves no trace exactly when the second rows of `farendOld` agree.** -/
theorem noTrace_iff {proc : BlockProc α σ} (hproc : proc.Total) (initBlk : Int → σ → σ) {sampFreq : Int}
    (hf : sampFreq = 8000 ∨ sampFreq = 16000) {s t : AecMobile α σ} (hs : s.Created) (ht : t.Created) :
    NoTrace proc initBlk sampFreq s t ↔ s.oldRow 1 = t.oldRow 1 := by
  constructor
  · intro h
    obtain ⟨c, hc⟩ := handedFrames_dryCalls hproc hf initBlk hs
    obtain ⟨d, hd⟩ := handedFrames_dryCalls hproc hf initBlk ht
    have heq := h (dryCalls sampFreq)
    rw [hc, hd] at heq
    simp only [List.cons.injEq, FrameCall.mk.injEq] at heq
    exact heq.2.1.1
  · intro h calls
    have hbuf : t.farendBuf.initBuffer = s.farendBuf.initBuffer := by
      rw [RingBuffer.initBuffer, RingBuffer.initBuffer, hs.farendBuf, ht.farendBuf]
    rw [init_eq hf, init_eq hf, drop_eq_oldRow hs, drop_eq_oldRow ht, h, hbuf]
    have hmult : (t.aecmCore.initFields initBlk sampFreq).mult = (s.aecmCore.initFields initBlk sampFreq).mult := rfl
    exact handedFrames_alike hproc (alike_waiting hmult ..) calls

/-- An instance with rows of `x` and of `y` in `farendOld`. -/
def played (x y : Int) : AecMobile Int Unit :=
  { waiting 0 8000 0 (List.replicate 80 x ++ List.replicate 80 y) ⟨0, 0, bufSizeSamp, .sameWrap, []⟩ newCore with
    initFlag := 0 }

theorem played_created (x y : Int) : (played x y).Created := ⟨rfl, rfl, newCore_created⟩

theorem oldRow_played (x y : Int) : ((played x y).oldRow 1).1 = List.replicate 80 y := by
  rw [← drop_eq_oldRow (played_created x y)]
  exact List.drop_left' (List.length_replicate ..)

theorem noTrace_first_row : NoTrace passNoisy (fun _ b => b) 16000 (played 1 3) (played 2 3) :=
  (noTrace_iff passNoisy_total _ (Or.inr rfl) (played_created 1 3) (played_created 2 3)).2
    (Subtype.ext ((oldRow_played 1 3).trans (oldRow_played 2 3).symm))

/-- The last frame of a past call comes back after a restart. -/
theorem not_noTrace_second_row : ¬ NoTrace passNoisy (fun _ b => b) 16000 (played 0 0) (played 0 1) := by
  intro h
  obtain ⟨c, hc⟩ := handedFrames_dryCalls passNoisy_total (Or.inr rfl) (fun _ b => b) (played_created 0 0)
  obtain ⟨d, hd⟩ := handedFrames_dryCalls passNoisy_total (Or.inr rfl) (fun _ b => b) (played_created 0 1)
  have heq := h (dryCalls 16000)
  rw [hc, hd] at heq
  simp only [List.cons.injEq, FrameCall.mk.injEq] at heq
  exact absurd (congrArg (fun f => f.1.head?) heq.2.1.1) (by decide)

end WebRtc.Aecm.AecMobile
