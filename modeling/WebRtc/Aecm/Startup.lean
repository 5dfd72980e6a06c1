import WebRtc.Aecm.Reinit

/-!
# The start-up phase of the AECM

While `checkBuffSize` is set every accepted call counts up `checkBufSizeCtr`, and the wait ends when
that counter times `nBlocks10ms` passes 50. A call of 80 samples at 16000 Hz is half a block:
`nBlocks10ms` is 0 and nothing ends the wait, so the counters may grow without bound. All other calls
count for at least one block, and then the wait is over after 51 of them with every sum far below
`short` (`step_inv`). Only the 51st call matters: the theorem at the end says which runs go wrong.
-/

namespace WebRtc.Aecm

open CInt

variable {α σ : Type} [Zero α]

/-- The call passes the checks of an initialised instance. -/
def ProcessCall.accepted (c : ProcessCall α) : Bool :=
  c.nearendNoisy.isSome && c.hasOut && (c.nrOfSamples == 80 || c.nrOfSamples == 160)

def MobileCall.accepted : MobileCall α → Bool
  | .bufferFarend _ _ => false
  | .process c => c.accepted

/-- No stored value leaves `short`, no division is by zero. -/
def MobileResult.Bounded (r : MobileResult α) : Prop :=
  (∀ v ∈ r.stores, -32768 ≤ v ∧ v ≤ 32767) ∧ ∀ d ∈ r.divisors, d ≠ 0

namespace AecMobile

/-- A run after `n` accepted calls: every step is bounded, and every state on the way has a
`bufSizeStart` in range and `checkBuffSize` cleared once 51 calls were accepted. -/
def BoundedFrom (proc : BlockProc α σ) (n : Nat) (s : AecMobile α σ) (calls : List (MobileCall α)) : Prop :=
  (∀ r ∈ Machine.trace (step proc) s calls, r.Bounded) ∧
  ∀ pre, pre <+: calls →
    (0 ≤ (Machine.run (step proc) s pre).bufSizeStart ∧ (Machine.run (step proc) s pre).bufSizeStart ≤ bufSizeFrames) ∧
    (51 ≤ n + pre.countP MobileCall.accepted → (Machine.run (step proc) s pre).checkBuffSize = false)

/-- The call does not find 50 calls counted and the wait still on, or it counts for a block. -/
def InTime (s : AecMobile α σ) (call : MobileCall α) : Prop :=
  ∀ c, call = .process c → c.accepted = true → s.checkBuffSize = true → s.checkBufSizeCtr = 50 →
    ¬ (s.sampFreq = 16000 ∧ c.nrOfSamples = 80)

/-! ## What the start-up phase works on -/

/-- The fields of the start-up phase, and `mult`. -/
structure Books where
  initFlag : Int
  sampFreq : Int
  mult : Int
  bufSizeStart : Int
  checkBufSizeCtr : Int
  counter : Int
  sum : Int
  ecStartup : Bool
  checkBuffSize : Bool

def books (s : AecMobile α σ) : Books :=
  ⟨s.initFlag, s.sampFreq, s.aecmCore.mult, s.bufSizeStart, s.checkBufSizeCtr, s.counter, s.sum, s.ecStartup,
    s.checkBuffSize⟩

section Frame
variable (s : AecMobile α σ)

theorem books_nextFarend (i : Nat) : (s.nextFarend i).1.books = s.books := by
  unfold nextFarend
  split <;> rfl

theorem books_prepareFrame (noisy : Nat → α) (clean : Option (Nat → α)) (i : Nat) :
    (s.prepareFrame noisy clean i).1.books = s.books := by
  have h := s.books_nextFarend i
  unfold prepareFrame
  generalize s.nextFarend i = far at h
  dsimp only
  split
  · exact h
  · exact h

/-- The frame loop neither touches the books nor adds to the log. -/
theorem books_processLoop (proc : BlockProc α σ) (noisy : Nat → α) (clean : Option (Nat → α)) (ret : Int)
    (is : List Nat) :
    (processLoop proc noisy clean ret is s).1.books = s.books ∧
    (processLoop proc noisy clean ret is s).2.stores = [] ∧
        (processLoop proc noisy clean ret is s).2.divisors = [] := by
  induction is generalizing s with
  | nil => exact ⟨rfl, rfl, rfl⟩
  | cons i is ih =>
    have hp := s.books_prepareFrame noisy clean i
    simp only [processLoop]
    generalize s.prepareFrame noisy clean i = p at hp
    have hm := AecmCore.processFrame_mult proc p.1.aecmCore p.2
    generalize p.1.aecmCore.processFrame proc p.2 = r at hm
    have hb : ({ p.1 with aecmCore := r.1 } : AecMobile α σ).books = s.books := by
      rw [← hp]
      simp only [books, hm]
    split
    · obtain ⟨h1, h2, h3⟩ := ih { p.1 with aecmCore := r.1 }
      exact ⟨h1.trans hb, h2, h3⟩
    · exact ⟨hb, rfl, rfl⟩

omit [Zero α] in
theorem books_bufferFarend (farend : Option (Nat → α)) (nrOfSamples : Nat) :
    (s.bufferFarend farend nrOfSamples).1.books = s.books ∧
    (s.bufferFarend farend nrOfSamples).2.Bounded := by
  have hdone (t : AecMobile α σ) (ret : Int) : (t.done ret).2.Bounded := by simp [done, MobileResult.Bounded]
  unfold bufferFarend
  cases farend with
  | none => exact ⟨rfl, hdone ..⟩
  | some p =>
    dsimp only
    split
    · exact ⟨rfl, hdone ..⟩
    · refine ⟨?_, hdone ..⟩
      split <;> rfl

omit [Zero α] in
/-- Ending the start-up changes the books in `ecStartup` alone, and not before the wait is over. -/
theorem books_endStartup :
    s.endStartup.books = s.books ∨ s.checkBuffSize = false ∧ s.endStartup.books =
        { s.books with ecStartup := false } := by
  unfold endStartup
  split
  · exact Or.inl rfl
  · have hc : s.checkBuffSize = false := by simpa using ‹¬ s.checkBuffSize = true›
    split
    · exact Or.inr ⟨hc, rfl⟩
    · split
      · exact Or.inr ⟨hc, rfl⟩
      · exact Or.inl rfl

end Frame

/-! ## One call while waiting -/

/-- The books while the wait is on and `n` calls were accepted. -/
structure Books.Waiting (n : Nat) (b : Books) : Prop where
  ecStartup : b.ecStartup = true
  ctr : b.checkBufSizeCtr = n
  le : n ≤ 50
  counter : 0 ≤ b.counter ∧ b.counter ≤ n
  sum : 0 ≤ b.sum ∧ b.sum ≤ 510 * n

section Wait
variable {s : AecMobile α σ} {n : Nat}

omit [Zero α] in
theorem sumSoFar_bounds (h : s.books.Waiting n) : 0 ≤ s.sumSoFar ∧ s.sumSoFar ≤ 510 * n := by
  have hsum : 0 ≤ s.sum ∧ s.sum ≤ 510 * n := h.sum
  unfold sumSoFar
  split
  · omega
  · exact hsum

omit [Zero α] in
theorem nextSum_bounds (h : s.books.Waiting n) (hms : 10 ≤ s.msInSndCardBuf ∧ s.msInSndCardBuf ≤ 510) :
    0 ≤ s.nextSum ∧ s.nextSum ≤ 510 * (n + 1) := by
  have hn := h.le
  have hsum := sumSoFar_bounds h
  unfold nextSum
  split
  · rw [i16_id (by omega) (by omega)]
    omega
  · omega

omit [Zero α] in
theorem nextCounter_bounds (h : s.books.Waiting n) : 0 ≤ s.nextCounter ∧ s.nextCounter ≤ n + 1 := by
  have hn := h.le
  have hc : 0 ≤ s.counter ∧ s.counter ≤ n := h.counter
  unfold nextCounter
  split
  · rw [i16_id (by omega) (by omega)]
    omega
  · omega

omit [Zero α] in
theorem averageBufSize_bounds (h : s.books.Waiting n) (hms : 10 ≤ s.msInSndCardBuf ∧ s.msInSndCardBuf ≤ 510)
    (hmult : s.aecmCore.mult = 1 ∨ s.aecmCore.mult = 2) : 0 ≤ s.averageBufSize ∧ s.averageBufSize ≤ 50 := by
  have hn := h.le
  have hsum := nextSum_bounds h hms
  have hc := nextCounter_bounds h
  have hx : 0 ≤ 3 * s.nextSum * s.aecmCore.mult ∧ 3 * s.nextSum * s.aecmCore.mult ≤ 2147483647 := by
    rcases hmult with hm | hm <;> rw [hm] <;> omega
  have hq : 0 ≤ (3 * s.nextSum * s.aecmCore.mult).tdiv (s.nextCounter * 40) :=
    Int.tdiv_nonneg hx.1 (by omega)
  unfold averageBufSize bufSizeFrames
  rw [i32_id (by omega) hx.2, i16_id (by omega) (by omega)]
  omega

omit [Zero α] in
theorem lastBufSize_bounds (hms : 10 ≤ s.msInSndCardBuf ∧ s.msInSndCardBuf ≤ 510)
    (hmult : s.aecmCore.mult = 1 ∨ s.aecmCore.mult = 2) : 0 ≤ s.lastBufSize ∧ s.lastBufSize ≤ 50 := by
  have hx : 0 ≤ 3 * s.msInSndCardBuf * s.aecmCore.mult ∧ 3 * s.msInSndCardBuf * s.aecmCore.mult ≤ 2147483647 := by
    rcases hmult with hm | hm <;> rw [hm] <;> omega
  have hq : 0 ≤ (3 * s.msInSndCardBuf * s.aecmCore.mult).tdiv 40 := Int.tdiv_nonneg hx.1 (by omega)
  unfold lastBufSize bufSizeFrames
  rw [i32_id (by omega) hx.2, i16_id (by omega) (by omega)]
  omega

omit [Zero α] in
/-- Everything a call in the wait stores is small, and it divides by a counter that is not 0. -/
theorem checkBufSize_bounded (h : s.books.Waiting n) (hms : 10 ≤ s.msInSndCardBuf ∧ s.msInSndCardBuf ≤ 510)
    (nBlocks10ms : Nat) :
    (∀ v ∈ (s.checkBufSize nBlocks10ms).2.1, -32768 ≤ v ∧ v ≤ 32767) ∧
    ∀ d ∈ (s.checkBufSize nBlocks10ms).2.2, d ≠ 0 := by
  have hn := h.le
  have hctr : s.checkBufSizeCtr = n := h.ctr
  have hc : 0 ≤ s.counter ∧ s.counter ≤ n := h.counter
  have hsum := sumSoFar_bounds h
  constructor
  · intro v hv
    simp only [checkBufSize, List.mem_cons] at hv
    rcases hv with rfl | hv
    · omega
    · split at hv
      · simp only [List.mem_cons, List.not_mem_nil, or_false] at hv
        rcases hv with rfl | rfl <;> omega
      · cases hv
  · intro d hd
    simp only [checkBufSize, decide_eq_true_eq] at hd
    split at hd
    · rename_i hset
      rw [List.mem_singleton.1 hd]
      intro h0
      rw [show s.nextCounter = 0 by omega, Int.zero_mul] at hset
      exact absurd hset (by decide)
    · cases hd

omit [Zero α] in
theorem blocksWaited_eq (h : s.books.Waiting n) {nBlocks10ms : Nat} (hb : nBlocks10ms ≤ 2) :
    toSize (i16 (s.checkBufSizeCtr + 1) * nBlocks10ms) = (n + 1) * nBlocks10ms := by
  have hn := h.le
  have hctr : s.checkBufSizeCtr = n := h.ctr
  have hle : (n + 1) * nBlocks10ms ≤ 51 * 2 := Nat.mul_le_mul (by omega) hb
  have hcast : ((n : Int) + 1) * nBlocks10ms = ((n + 1) * nBlocks10ms : Nat) := by push_cast; rfl
  rw [hctr, i16_id (by omega) (by omega), hcast, toSize_id (by omega) (by omega), Int.toNat_natCast]

omit [Zero α] in
/-- A call that leaves the wait on leaves the counters in bounds, if the 51st call does not. -/
theorem checkBufSize_waiting_books (h : s.books.Waiting n)
    (hms : 10 ≤ s.msInSndCardBuf ∧ s.msInSndCardBuf ≤ 510) {nBlocks10ms : Nat} (hb : nBlocks10ms ≤ 2)
    (hin : n = 50 → 1 ≤ nBlocks10ms) (hopen : (s.checkBufSize nBlocks10ms).1.checkBuffSize = true) :
    (s.checkBufSize nBlocks10ms).1.books.Waiting (n + 1) := by
  have hn := h.le
  have hctr : s.checkBufSizeCtr = n := h.ctr
  simp only [checkBufSize, blocksWaited_eq h hb, Bool.and_eq_true, Bool.not_eq_true', decide_eq_false_iff_not] at hopen
  have hle : n + 1 ≤ 50 := by
    by_contra hgt
    have h50 : n = 50 := by omega
    have hmul : 51 * 1 ≤ (n + 1) * nBlocks10ms := Nat.mul_le_mul (by omega) (hin h50)
    omega
  refine ⟨h.ecStartup, ?_, hle, ?_, ?_⟩
  · show i16 (s.checkBufSizeCtr + 1) = ((n + 1 : Nat) : Int)
    rw [hctr, i16_id (by omega) (by omega)]
    omega
  · show 0 ≤ s.nextCounter ∧ s.nextCounter ≤ ((n + 1 : Nat) : Int)
    have := nextCounter_bounds h
    omega
  · show 0 ≤ s.nextSum ∧ s.nextSum ≤ 510 * ((n + 1 : Nat) : Int)
    have := nextSum_bounds h hms
    omega

omit [Zero α] in
/-- Half a block never ends the wait. -/
theorem checkBufSize_zero : (s.checkBufSize 0).1.checkBuffSize = true := by
  simp only [checkBufSize, Nat.cast_zero, Int.mul_zero]
  decide

omit [Zero α] in
theorem checkBufSize_size (h : s.books.Waiting n) (hms : 10 ≤ s.msInSndCardBuf ∧ s.msInSndCardBuf ≤ 510)
    (hmult : s.aecmCore.mult = 1 ∨ s.aecmCore.mult = 2) (hsize : 0 ≤ s.bufSizeStart ∧ s.bufSizeStart ≤ bufSizeFrames)
    (nBlocks10ms : Nat) :
    0 ≤ (s.checkBufSize nBlocks10ms).1.bufSizeStart ∧ (s.checkBufSize nBlocks10ms).1.bufSizeStart ≤ bufSizeFrames := by
  simp only [checkBufSize]
  split
  · exact lastBufSize_bounds hms hmult
  · split
    · exact averageBufSize_bounds h hms hmult
    · exact hsize

end Wait

/-! ## Every call -/

/-- The books after `n` accepted calls. -/
structure Books.Inv (n : Nat) (b : Books) : Prop where
  initFlag : b.initFlag = initCheck
  rate : b.sampFreq = 8000 ∧ b.mult = 1 ∨ b.sampFreq = 16000 ∧ b.mult = 2
  size : 0 ≤ b.bufSizeStart ∧ b.bufSizeStart ≤ bufSizeFrames
  waiting : b.checkBuffSize = true → b.Waiting n

theorem Books.Inv.mono {n m : Nat} {b : Books} (h : b.Inv n) (hc : b.checkBuffSize = false) : b.Inv m :=
  ⟨h.initFlag, h.rate, h.size, fun ho => absurd ho (by rw [hc]; decide)⟩

section Step
variable {s : AecMobile α σ} {n : Nat} {proc : BlockProc α σ}

omit [Zero α] in
theorem endStartup_inv (h : s.books.Inv n) : s.endStartup.books.Inv n := by
  rcases s.books_endStartup with he | ⟨hc, he⟩
  · rw [he]
    exact h
  · rw [he]
    exact ⟨h.initFlag, h.rate, h.size, fun ho => absurd (hc.symm.trans ho) (by decide)⟩

theorem clampMs_bounds (ms : Int) : 10 ≤ clampMs ms ∧ clampMs ms ≤ 510 := by
  unfold clampMs
  rw [i16_id (by omega) (by omega)]
  omega

/-- The number of 10 ms blocks of a call; it is 0 for 80 samples at 16000 Hz only. -/
theorem nBlocks_le {m : Int} (hm : m = 1 ∨ m = 2) {k : Nat} (hk : k = 80 ∨ k = 160) :
    k / frameLen / toSize m ≤ 2 ∧ (k / frameLen / toSize m = 0 ↔ m = 2 ∧ k = 80) := by
  rcases hm with rfl | rfl <;> rcases hk with rfl | rfl <;> decide

omit [Zero α] in
theorem processError_accepted (hi : s.initFlag = initCheck) (c : ProcessCall α) :
    s.processError c = 0 ↔ c.accepted = true := by
  unfold processError ProcessCall.accepted
  rcases c with ⟨_ | p, clean, _ | _, k, ms⟩ <;> simp [hi, nullPointerError, badParameterError]
  by_cases h1 : k = 80
  · simp [h1]
  · by_cases h2 : k = 160 <;> simp [h1, h2]

variable (proc) in
theorem process_rejected (hi : s.initFlag = initCheck) {c : ProcessCall α} (h : c.accepted = false) :
    ∃ err, s.process proc c = s.done err := by
  have herr : s.processError c ≠ 0 := by
    rw [ne_eq, processError_accepted hi, h]
    decide
  unfold process
  cases c.nearendNoisy with
  | none => exact ⟨_, rfl⟩
  | some noisy => exact ⟨_, if_pos herr⟩

variable (proc) in
theorem process_accepted (hi : s.initFlag = initCheck) {c : ProcessCall α} (h : c.accepted = true) :
    ∃ noisy, s.process proc c = s.processChecked proc noisy c := by
  have herr : s.processError c = 0 := (processError_accepted hi c).2 h
  unfold process
  cases hn : c.nearendNoisy with
  | none => simp [ProcessCall.accepted, hn] at h
  | some noisy => exact ⟨noisy, if_neg (by simpa using herr)⟩

omit [Zero α] in
theorem nrOfSamples_of_accepted {c : ProcessCall α} (h : c.accepted = true) :
    c.nrOfSamples = 80 ∨ c.nrOfSamples = 160 := by
  simp only [ProcessCall.accepted, Bool.and_eq_true, Bool.or_eq_true, beq_iff_eq] at h
  exact h.2

omit [Zero α] in
/-- A checked call in the start-up phase. -/
theorem processStartup_inv (h : s.books.Inv n) (hms : 10 ≤ s.msInSndCardBuf ∧ s.msInSndCardBuf ≤ 510)
    (out : List α) {nBlocks10ms : Nat} (hb : nBlocks10ms ≤ 2) (ret : Int)
    (hin : s.checkBuffSize = true → n = 50 → 1 ≤ nBlocks10ms) :
    (s.processStartup out nBlocks10ms ret).1.books.Inv (n + 1) ∧
    (s.processStartup out nBlocks10ms ret).2.Bounded := by
  have hmult : s.aecmCore.mult = 1 ∨ s.aecmCore.mult = 2 := h.rate.imp And.right And.right
  unfold processStartup
  split
  · rename_i hopen
    have hw := h.waiting hopen
    refine ⟨endStartup_inv ⟨h.initFlag, h.rate, ?_, ?_⟩, checkBufSize_bounded hw hms _⟩
    · exact checkBufSize_size hw hms hmult h.size _
    · exact checkBufSize_waiting_books hw hms hb (hin hopen)
  · rename_i hclosed
    refine ⟨endStartup_inv (h.mono (eq_false_of_ne_true hclosed)), ?_⟩
    simp [MobileResult.Bounded]

variable (proc) in
/-- **One call keeps the books**, counting itself if it is accepted. -/
theorem step_inv (h : s.books.Inv n) {call : MobileCall α} (hin : s.InTime call) :
    (s.step proc call).1.books.Inv (n + if call.accepted then 1 else 0) ∧ (s.step proc call).2.Bounded := by
  cases call with
  | bufferFarend farend nrOfSamples =>
    obtain ⟨hb, hr⟩ := s.books_bufferFarend farend nrOfSamples
    refine ⟨?_, hr⟩
    show (s.bufferFarend farend nrOfSamples).1.books.Inv n
    rw [hb]
    exact h
  | process c =>
    cases ha : c.accepted with
    | false =>
      obtain ⟨err, he⟩ := process_rejected proc h.initFlag ha
      simp only [step, he, MobileCall.accepted, ha]
      exact ⟨h, by simp [done, MobileResult.Bounded]⟩
    | true =>
      obtain ⟨noisy, he⟩ := process_accepted proc h.initFlag ha
      have hm : s.aecmCore.mult = 1 ∨ s.aecmCore.mult = 2 := h.rate.imp And.right And.right
      obtain ⟨hle, hzero⟩ := nBlocks_le hm (nrOfSamples_of_accepted ha)
      have hs : (s.withMs (clampMs c.msInSndCardBuf)).books = s.books := rfl
      simp only [step, he, MobileCall.accepted, ha, if_true]
      rw [processChecked_eq]
      split
      · apply processStartup_inv (hs ▸ h) (clampMs_bounds _) _ hle
        intro hopen hn
        by_contra h0
        have hhalf := hzero.1 (Nat.eq_zero_of_not_pos h0)
        have hctr : s.checkBufSizeCtr = 50 := by
          rw [show s.checkBufSizeCtr = n from (h.waiting hopen).ctr, hn]
          rfl
        have hrate : s.sampFreq = 16000 := by
          have := h.rate
          simp only [books] at this
          omega
        exact hin c rfl ha hopen hctr ⟨hrate, hhalf.2⟩
      · rename_i hst
        obtain ⟨h1, h2, h3⟩ := books_processLoop (s.withMs (clampMs c.msInSndCardBuf)) proc noisy c.nearendClean
          (if c.msInSndCardBuf < 0 ∨ c.msInSndCardBuf > 500 then badParameterWarning else 0)
          (List.range (c.nrOfSamples / frameLen))
        constructor
        · rw [h1, hs]
          have hclosed : s.books.checkBuffSize = false :=
            eq_false_of_ne_true fun hopen => hst (h.waiting hopen).ecStartup
          exact h.mono hclosed
        · rw [MobileResult.Bounded, h2, h3]
          simp

variable (proc) in
/-- Half a block leaves the wait on, whatever was reported. -/
theorem step_half_block (hi : s.initFlag = initCheck) (hm : s.aecmCore.mult = 2) (hst : s.ecStartup = true)
    (hopen : s.checkBuffSize = true) {c : ProcessCall α} (ha : c.accepted = true) (h80 : c.nrOfSamples = 80) :
    (s.step proc (.process c)).1 = ((s.withMs (clampMs c.msInSndCardBuf)).checkBufSize 0).1 := by
  obtain ⟨noisy, he⟩ := process_accepted proc hi ha
  have hn : c.nrOfSamples / frameLen / toSize s.aecmCore.mult = 0 := by
    rw [h80, hm]
    decide
  simp only [step, he]
  rw [processChecked_eq, if_pos hst, hn, processStartup,
    if_pos (show (s.withMs (clampMs c.msInSndCardBuf)).checkBuffSize = true from hopen)]
  dsimp only
  rw [endStartup, if_pos checkBufSize_zero]

end Step

/-! ## Whole runs -/

section Run
variable {proc : BlockProc α σ}

variable (proc) in
theorem boundedFrom_nil {s : AecMobile α σ} {n : Nat} (h : s.books.Inv n) : BoundedFrom proc n s [] := by
  refine ⟨fun r hr => (by cases hr), fun pre hpre => ?_⟩
  rw [List.prefix_nil.1 hpre]
  refine ⟨h.size, fun h51 => eq_false_of_ne_true fun hopen => ?_⟩
  have := (h.waiting hopen).le
  simp only [List.countP_nil] at h51
  omega

theorem boundedFrom_cons {s : AecMobile α σ} {n : Nat} (h : s.books.Inv n) (call : MobileCall α)
    (calls : List (MobileCall α)) :
    BoundedFrom proc n s (call :: calls) ↔ (s.step proc call).2.Bounded ∧
      BoundedFrom proc (n + if call.accepted then 1 else 0) (s.step proc call).1 calls := by
  have hcount (pre : List (MobileCall α)) : n + (call :: pre).countP MobileCall.accepted =
      (n + if call.accepted then 1 else 0) + pre.countP MobileCall.accepted := by
    rw [List.countP_cons]
    omega
  constructor
  · rintro ⟨hr, hpre⟩
    refine ⟨hr _ List.mem_cons_self, fun r hmem => hr r (List.mem_cons_of_mem _ hmem), fun pre hp => ?_⟩
    have hcons := hpre (call :: pre) ((List.prefix_cons_inj _).2 hp)
    rw [hcount] at hcons
    exact hcons
  · rintro ⟨hb, hr, hpre⟩
    refine ⟨fun r hmem => ?_, fun pre hp => ?_⟩
    · rcases List.mem_cons.1 hmem with rfl | hmem
      · exact hb
      · exact hr r hmem
    · cases pre with
      | nil => exact (boundedFrom_nil proc h).2 [] (List.prefix_refl _)
      | cons c pre =>
        obtain ⟨rfl, htail⟩ := List.cons_prefix_cons.1 hp
        rw [hcount]
        exact hpre pre htail

/-- **A run is bounded exactly when every call is in time.** -/
theorem boundedFrom_iff {s : AecMobile α σ} {n : Nat} (h : s.books.Inv n) (calls : List (MobileCall α)) :
    BoundedFrom proc n s calls ↔ Machine.Meets (step proc) InTime s calls := by
  induction calls generalizing s n with
  | nil => exact ⟨fun _ => trivial, fun _ => boundedFrom_nil proc h⟩
  | cons call calls ih =>
    rw [boundedFrom_cons h]
    constructor
    · rintro ⟨-, hrest⟩
      have hin : s.InTime call := by
        rintro c rfl ha hopen hctr hhalf
        have hn : (n : Int) = 50 := (h.waiting hopen).ctr.symm.trans hctr
        have hacc : (MobileCall.process c).accepted = true := ha
        have hclosed := (hrest.2 [] List.nil_prefix).2 (by
          rw [hacc, if_pos rfl, List.countP_nil]
          omega)
        have hm : s.aecmCore.mult = 2 := by
          have := h.rate
          simp only [books] at this
          omega
        have hhb := step_half_block proc h.initFlag hm (h.waiting hopen).ecStartup hopen ha hhalf.2
        rw [Machine.run_nil, hhb, checkBufSize_zero] at hclosed
        exact absurd hclosed (by decide)
      exact ⟨hin, (ih (step_inv proc h hin).1).1 hrest⟩
    · rintro ⟨hin, hrest⟩
      obtain ⟨hinv, hb⟩ := step_inv proc h hin
      exact ⟨hb, (ih hinv).2 hrest⟩

end Run

theorem init_inv {sampFreq : Int} (hf : sampFreq = 8000 ∨ sampFreq = 16000) (initBlk : Int → σ → σ)
    (s : AecMobile α σ) : (s.init initBlk sampFreq).1.books.Inv 0 := by
  have hok : ¬ (sampFreq ≠ 8000 ∧ sampFreq ≠ 16000) := by omega
  have hrate : sampFreq = 8000 ∧ sampFreq / 8000 = 1 ∨ sampFreq = 16000 ∧ sampFreq / 8000 = 2 := by omega
  simp only [init, AecmCore.initCore, if_neg hok]
  have hsize : (0 : Int) ≤ 0 ∧ (0 : Int) ≤ 50 := by decide
  have hzero : (0 : Int) ≤ 0 ∧ (0 : Int) ≤ (0 : Nat) := by decide
  exact ⟨rfl, hrate, hsize, fun _ => ⟨rfl, rfl, by decide, hzero, hzero⟩⟩

/-- **Start-up bookkeeping.** From `init` on a run is bounded exactly when no accepted call of 80
samples at 16000 Hz comes as the 51st while the wait is still on. -/
theorem startupBounded_iff (proc : BlockProc α σ) (initBlk : Int → σ → σ) {sampFreq : Int}
    (hf : sampFreq = 8000 ∨ sampFreq = 16000) (s : AecMobile α σ) (calls : List (MobileCall α)) :
    BoundedFrom proc 0 (s.init initBlk sampFreq).1 calls ↔
      Machine.Meets (step proc) InTime (s.init initBlk sampFreq).1 calls :=
  boundedFrom_iff (init_inv hf initBlk s) calls

/-- Half a block of silence, and no delay. -/
def halfBlock : MobileCall Int := .process ⟨some fun _ => 0, none, true, 80, 0⟩

theorem startupBounded_half_block :
    BoundedFrom passNoisy 0 ((played 0 0).init (fun _ b => b) 16000).1 [halfBlock] :=
  (startupBounded_iff passNoisy _ (Or.inr rfl) (played 0 0) _).2
    ⟨fun _ _ _ _ hctr => absurd hctr (by rw [init_eq (Or.inr rfl)]; decide), trivial⟩

/-- As many half blocks as one likes leave a wide band instance waiting. -/
theorem run_halfBlock (k : Nat) {s : AecMobile Int Unit} (hi : s.initFlag = initCheck) (hm : s.aecmCore.mult = 2)
    (hst : s.ecStartup = true) (hopen : s.checkBuffSize = true) :
    (Machine.run (step passNoisy) s (List.replicate k halfBlock)).checkBuffSize = true := by
  induction k generalizing s with
  | zero => exact hopen
  | succ k ih =>
    have hstep := step_half_block passNoisy hi hm hst hopen (c := ⟨some fun _ => 0, none, true, 80, 0⟩) rfl rfl
    rw [List.replicate_succ, Machine.run_cons, halfBlock, hstep]
    exact ih hi hm hst checkBufSize_zero

theorem not_startupBounded_half_blocks :
    ¬ BoundedFrom passNoisy 0 ((played 0 0).init (fun _ b => b) 16000).1 (List.replicate 51 halfBlock) := by
  intro h
  have hclosed := (h.2 _ (List.prefix_refl _)).2 (by decide)
  rw [init_eq (Or.inr rfl), run_halfBlock 51 rfl rfl rfl rfl] at hclosed
  exact absurd hclosed (by decide)

end AecMobile

end WebRtc.Aecm
