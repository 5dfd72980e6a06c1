import WebRtc.Aecm.Lanes

/-!
# Rebuffering: 80-sample frames to 256-sample blocks and back

The output side. After `k` frames without a failing block, the blocks done have produced
`256 * (80 * k / 256)` samples and `80 * k - 240` of these are out. Both are multiples of 16, so when
a block comes at most 64 samples of output are waiting for it, and from the fourth frame on a whole
frame of output is always there. In the first three frames nothing has been written yet, and what goes
out is the silence the buffer was initialised with.

`Phase` is that state, `processFrame_spec` the step, `run_spec` the run, `processFrame_rebuffers` the
result of both sides.
-/

namespace WebRtc.Aecm

open AecmCore

section Loop
variable {α σ : Type} {proc : BlockProc α σ} {s : AecmCore α σ}

theorem blockRound_length {hasClean : Bool} {o : List α} (ho : (blockRound proc hasClean s).2.out = some o) :
    o.length = 256 := by
  simp only [blockRound, Option.map_eq_some_iff] at ho
  obtain ⟨b, -, rfl⟩ := ho
  exact b.2

theorem blockRound_out {hasClean : Bool} {o : List α} (ho : (blockRound proc hasClean s).2.out = some o) :
    (blockRound proc hasClean s).1.outFrameBuf = (s.outFrameBuf.writeBuffer o).1 ∧
    (blockRound proc hasClean s).2.written = (s.outFrameBuf.writeBuffer o).2 := by
  simp only [blockRound] at ho ⊢
  rw [ho]
  simp only [Option.isSome_some, if_true, Option.getD_some, and_self]

end Loop

section Step
variable {α σ : Type} [Zero α] {proc : BlockProc α σ} {s : AecmCore α σ} {q : Queues α} {k : Nat} {outs : List α}

/-- The samples a block processor gave back. -/
def BlockCall.output (b : BlockCall α) : List α := b.out.getD []

/-- The core after `k` frames, with the output of all blocks so far. -/
structure Phase (k : Nat) (s : AecmCore α σ) (q : Queues α) (outs : List α) : Prop where
  lanes : Lanes k s q
  out : Refines bufLen s.outFrameBuf ⟨outs, ((80 * k - 240 : Nat) : Int)⟩
  length_out : outs.length = 256 * (80 * k / 256)

theorem phase_initFields (initBlk : Int → σ → σ) {s0 : AecmCore α σ} (hc : s0.Created) (samplingFreq : Int) :
    Phase 0 (s0.initFields initBlk samplingFreq) Queues.empty [] :=
  ⟨lanes_initFields initBlk hc samplingFreq, Refines.init hc.out (by decide) (by decide), rfl⟩

/-! ## A block comes in -/

/-- Room for a block in the output is enough for all of it. -/
theorem blockRound_output {hasClean : Bool} {R : Nat} {o : List α} (h : Refines bufLen s.outFrameBuf ⟨outs, (R : Int)⟩)
    (hroom : outs.length - R + 256 ≤ bufLen) (ho : (blockRound proc hasClean s).2.out = some o) :
    Refines bufLen (blockRound proc hasClean s).1.outFrameBuf ⟨outs ++ o, (R : Int)⟩ ∧
    (blockRound proc hasClean s).2.written = 256 := by
  obtain ⟨hw, hret⟩ := h.write o
  obtain ⟨eo, eo'⟩ := blockRound_out ho
  have hol := blockRound_length ho
  have hwin := h.inWindow.2
  have hk : min o.length ((bufLen : Int) - (Stream.W (⟨outs, R⟩ : Stream α) - R)).toNat = 256 := by
    simp only [Stream.W, bufLen] at *; omega
  have hs : (Stream.write bufLen (⟨outs, R⟩ : Stream α) o).1 = ⟨outs ++ o, R⟩ := by
    simp only [Stream.write, hk, List.take_of_length_le (Nat.le_of_eq hol)]
  have hwr : (Stream.write bufLen (⟨outs, R⟩ : Stream α) o).2 = 256 := hk
  rw [hs] at hw
  rw [hwr] at hret
  rw [eo, eo']
  exact ⟨hw, hret⟩

/-! ## A frame goes out -/

/-- A slice that is inside what was written. -/
theorem slice_eq_take {l : List α} {R m : Nat} (h : R + m ≤ l.length) (r : Int) :
    Stream.slice (⟨l, r⟩ : Stream α) R m = (l.drop R).take m := by
  apply List.ext_getElem?
  intro j
  by_cases hj : j < m
  · have h0 : (0 : Int) ≤ (R : Int) + j := by omega
    have hn : ((R : Int) + j).toNat = R + j := by omega
    rw [Stream.slice_getElem? _ _ hj, List.getElem?_take_of_lt hj, List.getElem?_drop]
    simp only [Stream.val, h0, if_true, hn]
    rw [List.getD_eq_getElem?_getD, List.getElem?_eq_getElem (by omega)]
    rfl
  · rw [List.getElem?_eq_none (by simp; omega), List.getElem?_eq_none (by simp; omega)]

/-- The output as a stream: 240 samples of silence, then the blocks. -/
def delayed (out : List α) : List α := List.replicate 240 0 ++ out

theorem outputFrame_spec {outs : List α} (h : Refines bufLen s.outFrameBuf ⟨outs, ((80 * k - 240 : Nat) : Int)⟩)
    (hl : outs.length = 256 * (80 * (k + 1) / 256)) :
    Refines bufLen (outputFrame s).1.outFrameBuf ⟨outs, ((80 * (k + 1) - 240 : Nat) : Int)⟩ ∧
    (outputFrame s).2.1 = ((delayed outs).drop (80 * k)).take 80 ∧ (outputFrame s).2.2 = decide (k < 3) := by
  have hav := h.availableRead_eq
  simp only [Stream.W] at hav
  by_cases hk : k < 3
  · -- nothing has been written yet: wind back a frame of silence
    have hnil : outs = [] := List.length_eq_zero_iff.1 (by omega)
    have hR : 80 * k - 240 = 0 := by omega
    have hR' : 80 * (k + 1) - 240 = 0 := by omega
    subst hnil
    rw [hR] at h hav
    have hsize : s.outFrameBuf.availableRead = 0 := by simpa using hav
    obtain ⟨hr, he⟩ := h.rewind (by decide) (k := 80) (by decide) true []
    have hback : ((0 : Nat) : Int) - ((80 : Nat) : Int) = -((80 : Nat) : Int) := by omega
    simp only [outputFrame, hsize, frameLen, Nat.ofNat_pos, if_true, decide_true, hk, hR']
    rw [hback]
    refine ⟨hr, ?_, trivial⟩
    have hmin : min 80 (240 - 80 * k) = 80 := by omega
    rw [he, delayed, List.append_nil, List.drop_replicate, List.take_replicate, hmin]
  · have hsize : ¬ s.outFrameBuf.availableRead < frameLen := by unfold frameLen; omega
    obtain ⟨hr, he⟩ := h.read_small (by decide) true [] 80
    have hmin : min 80 (Stream.W (⟨outs, ((80 * k - 240 : Nat) : Int)⟩ : Stream α) -
        ((80 * k - 240 : Nat) : Int)).toNat = 80 := by
      simp only [Stream.W]; omega
    simp only [Stream.read, hmin] at hr he
    simp only [outputFrame, hsize, if_false, decide_false, hk]
    refine ⟨?_, he.trans ?_, trivial⟩
    · have hR : ((80 * k - 240 : Nat) : Int) + (80 : Nat) = ((80 * (k + 1) - 240 : Nat) : Int) := by omega
      rw [hR] at hr
      exact hr
    · have hz : (List.replicate 240 (0 : α)).drop (80 * k) = [] :=
        List.drop_eq_nil_of_le (by rw [List.length_replicate]; omega)
      rw [slice_eq_take (by omega), delayed, List.drop_append, hz, List.nil_append, List.length_replicate]

/-! ## One frame -/

/-- What a call returns in phase `k`. -/
structure FrameSpec (k : Nat) (q : Queues α) (c : FrameCall α) (r : FrameResult α) (outs' : List α) : Prop where
  out : r.out = ((delayed outs').drop (80 * k)).take 80
  stuffed : r.stuffed = decide (k < 3)
  writes : r.writes = frameWrites q c ++ r.blocks.map fun _ => (256, 256)

theorem processFrame_ok {c : FrameCall α} (hok : (processFrame proc s c).2.ok = true) {s' : AecmCore α σ}
    {blocks : List (BlockCall α)}
    (hloop : processBlocks proc c.nearendClean.isSome (bufferFrames s c).1.farFrameBuf.availableRead
      (bufferFrames s c).1 = (s', blocks)) :
    blocks.all (·.out.isSome) = true ∧
    processFrame proc s c = ((outputFrame s').1,
      { ok := true, out := (outputFrame s').2.1, writes := (bufferFrames s c).2 ++ blockWrites blocks,
        blocks := blocks, stuffed := (outputFrame s').2.2 }) := by
  simp only [processFrame, hloop] at hok ⊢
  by_cases hall : blocks.all (·.out.isSome) = true
  · exact ⟨hall, if_pos hall⟩
  · rw [if_neg hall] at hok
    cases hok

/-- The loop, on the output side: all blocks are written in full. -/
theorem processBlocks_output (hlen : 80 * k % 256 + 80 = s.farFrameBuf.availableRead)
    (h' : ∀ hasClean, (blockRound proc hasClean s).1.farFrameBuf.availableRead < 256)
    (ho : Refines bufLen s.outFrameBuf ⟨outs, ((80 * k - 240 : Nat) : Int)⟩)
    (hout : outs.length = 256 * (80 * k / 256)) {hasClean : Bool} {s' : AecmCore α σ} {blocks : List (BlockCall α)}
    (hloop : processBlocks proc hasClean s.farFrameBuf.availableRead s = (s', blocks))
    (hall : blocks.all (·.out.isSome) = true) :
    Refines bufLen s'.outFrameBuf ⟨outs ++ blocks.flatMap BlockCall.output, ((80 * k - 240 : Nat) : Int)⟩ ∧
    (outs ++ blocks.flatMap BlockCall.output).length = 256 * (80 * (k + 1) / 256) ∧
    blockWrites blocks = blocks.map fun _ => (256, 256) := by
  by_cases hfull : 80 * k % 256 < 176
  · rw [processBlocks_none _ (by unfold partLen; omega)] at hloop
    cases hloop
    rw [List.flatMap_nil, List.append_nil]
    exact ⟨ho, by omega, rfl⟩
  · have hlen' : outs.length + 256 = 256 * (80 * (k + 1) / 256) := by omega
    have hroom : outs.length - (80 * k - 240) + 256 ≤ bufLen := by unfold bufLen; omega
    rw [processBlocks_one (by omega) (by unfold partLen; omega) (h' hasClean)] at hloop
    generalize hr : blockRound proc hasClean s = r at hloop
    cases hloop
    obtain ⟨o, hbo⟩ : ∃ o, r.2.out = some o := by
      simpa only [List.all_cons, List.all_nil, Bool.and_true, Option.isSome_iff_exists] using hall
    have hbo' := hbo
    rw [← hr] at hbo'
    obtain ⟨hrf, hwr⟩ := blockRound_output ho hroom hbo'
    have hol := blockRound_length hbo'
    rw [hr] at hrf hwr
    have hfm : [r.2].flatMap BlockCall.output = o := by
      rw [List.flatMap_cons, List.flatMap_nil, List.append_nil, BlockCall.output, hbo, Option.getD_some]
    rw [hfm]
    refine ⟨hrf, by rw [List.length_append, hol, hlen'], ?_⟩
    simp only [blockWrites, List.filterMap_cons, List.filterMap_nil, hbo, Option.map_some, hol, hwr,
      List.map_cons, List.map_nil]

/-- **One frame.** -/
theorem processFrame_spec (h : Phase k s q outs) (c : FrameCall α) (hok : (processFrame proc s c).2.ok = true) :
    ∃ q', Phase (k + 1) (processFrame proc s c).1 q'
        (outs ++ (processFrame proc s c).2.blocks.flatMap BlockCall.output) ∧
      LaneSpec k q c (processFrame proc s c).2.blocks q' ∧
      FrameSpec k q c (processFrame proc s c).2
        (outs ++ (processFrame proc s c).2.blocks.flatMap BlockCall.output) := by
  obtain ⟨hbuf, hwr, hob⟩ := bufferFrames_spec h.lanes c
  obtain ⟨q', hlanes, hspec⟩ := processFrame_lanes proc h.lanes c
  have hlf : (q.push c).far.length = 80 * k % 256 + 80 := by
    simp only [Queues.push, List.length_append, h.lanes.lengths.far, c.farend.2]
  have hav := hbuf.far.availableRead_eq
  rw [hlf] at hav
  have hnext : ∀ hasClean, (blockRound proc hasClean (bufferFrames s c).1).1.farFrameBuf.availableRead < 256 := by
    intro hasClean
    rw [(blockRound_far ..).1, (hbuf.far.read (by decide) true [] partLen).1.availableRead_eq, List.length_drop, hlf]
    unfold partLen; omega
  have ho := h.out
  rw [← hob] at ho
  generalize hloop : processBlocks proc c.nearendClean.isSome (bufferFrames s c).1.farFrameBuf.availableRead
    (bufferFrames s c).1 = loop
  obtain ⟨s', blocks⟩ := loop
  obtain ⟨hall, he⟩ := processFrame_ok hok hloop
  obtain ⟨href, hlen, hbw⟩ := processBlocks_output hav.symm hnext ho h.length_out hloop hall
  obtain ⟨hr, hout, hst⟩ := outputFrame_spec href hlen
  refine ⟨q', ⟨hlanes, ?_, ?_⟩, hspec, ?_⟩
  · rw [he]; exact hr
  · rw [he]; exact hlen
  · rw [he]
    refine ⟨?_, ?_, ?_⟩ <;> dsimp only
    · exact hout
    · exact hst
    · rw [hwr, hbw]

end Step

/-! ## Runs -/

section Runs
variable {α σ : Type} [Zero α] {proc : BlockProc α σ} {s : AecmCore α σ} {q : Queues α} {k : Nat} {outs : List α}

/-- A run from phase `k` without a failing block, call by call. -/
inductive RunSpec : Nat → Queues α → List α → List (FrameCall α) → List (FrameResult α) → List α → Prop
  | nil {k : Nat} {q : Queues α} {outs : List α} : RunSpec k q outs [] [] outs
  | cons {k : Nat} {q q' : Queues α} {outs outs' outs'' : List α} {c : FrameCall α} {cs : List (FrameCall α)}
      {r : FrameResult α} {rs : List (FrameResult α)} :
      outs' = outs ++ r.blocks.flatMap BlockCall.output → outs'.length = 256 * (80 * (k + 1) / 256) →
      LaneSpec k q c r.blocks q' → FrameSpec k q c r outs' → RunSpec (k + 1) q' outs' cs rs outs'' →
      RunSpec k q outs (c :: cs) (r :: rs) outs''

theorem run_spec (h : Phase k s q outs) (calls : List (FrameCall α))
    (hok : ∀ r ∈ Machine.trace (processFrame proc) s calls, r.ok = true) :
    ∃ outs', RunSpec k q outs calls (Machine.trace (processFrame proc) s calls) outs' := by
  induction calls generalizing k s q outs with
  | nil => exact ⟨outs, .nil⟩
  | cons c cs ih =>
    simp only [Machine.trace, List.mem_cons, forall_eq_or_imp] at hok ⊢
    obtain ⟨q', hp, hl, hf⟩ := processFrame_spec h c hok.1
    obtain ⟨outs', hr⟩ := ih hp hok.2
    exact ⟨outs', .cons rfl hp.length_out hl hf hr⟩

namespace RunSpec

variable {cs : List (FrameCall α)} {rs : List (FrameResult α)} {outs' : List α}

theorem grows (h : RunSpec k q outs cs rs outs') : outs' = outs ++ (blocksOf rs).flatMap BlockCall.output := by
  induction h with
  | nil => simp only [blocksOf, List.flatMap_nil, List.append_nil]
  | cons hg _ _ _ _ ih =>
    simp only [blocksOf, List.flatMap_cons, List.flatMap_append] at ih ⊢
    rw [ih, hg, List.append_assoc]

/-- The frame that goes out in phase `k` is already determined then. -/
theorem delayed_frame {a : List α} (b : List α) (h : a.length = 256 * (80 * (k + 1) / 256)) :
    ((delayed (a ++ b)).drop (80 * k)).take 80 = ((delayed a).drop (80 * k)).take 80 := by
  have hl : (delayed a).length = 240 + a.length := by simp only [delayed, List.length_append, List.length_replicate]
  have ha : delayed (a ++ b) = delayed a ++ b := by simp only [delayed, List.append_assoc]
  rw [ha, List.drop_append_of_le_length (by omega), List.take_append_of_le_length (by rw [List.length_drop]; omega)]

theorem output (h : RunSpec k q outs cs rs outs') :
    rs.flatMap (·.out) = ((delayed outs').drop (80 * k)).take (80 * cs.length) := by
  induction h with
  | nil => simp only [List.flatMap_nil, List.length_nil, Nat.mul_zero, List.take_zero]
  | @cons k q q1 outs outs1 outs2 c cs r rs hg hlen hl hf hr ih =>
    have hcs : 80 * (c :: cs).length = 80 + 80 * cs.length := by rw [List.length_cons]; omega
    have hdrop : ((delayed outs2).drop (80 * k)).drop 80 = (delayed outs2).drop (80 * (k + 1)) := by
      rw [List.drop_drop]; rfl
    rw [List.flatMap_cons, ih, hf.out, hcs, List.take_add, hdrop, hr.grows, delayed_frame _ hlen]

theorem stuffed (h : RunSpec k q outs cs rs outs') {i : Nat} {r : FrameResult α} (hr : rs[i]? = some r) :
    r.stuffed = decide (k + i < 3) := by
  induction h generalizing i with
  | nil => simp at hr
  | cons _ _ _ hf _ ih =>
    cases i with
    | zero =>
      simp only [List.getElem?_cons_zero, Option.some.injEq] at hr
      rw [← hr, hf.stuffed, Nat.add_zero]
    | succ i =>
      rw [ih (by simpa using hr)]
      congr 2; omega

end RunSpec

/-! ### No write is cut short -/

/-- The clean input is never given, or it is always given and its queue keeps up with the others. -/
def CleanSteady (k : Nat) (q : Queues α) (cs : List (FrameCall α)) : Prop :=
  (∀ c ∈ cs, c.nearendClean = none) ∨ ((∀ c ∈ cs, c.nearendClean.isSome) ∧ q.clean.length = 80 * k % 256)

theorem FrameSpec.writes_full {c : FrameCall α} {r : FrameResult α} (h : FrameSpec k q c r outs)
    (hc : c.nearendClean.isSome → q.clean.length ≤ 256) : ∀ w ∈ r.writes, w.1 = w.2 := by
  intro w hw
  rw [h.writes, List.mem_append] at hw
  rcases hw with hw | hw
  · rw [frameWrites] at hw
    split at hw
    · rename_i hs
      have hq := hc hs
      simp only [List.mem_cons, List.not_mem_nil, or_false] at hw
      rcases hw with rfl | rfl | rfl
      · rfl
      · rfl
      · simp only; omega
    · simp only [List.mem_cons, List.not_mem_nil, or_false] at hw
      rcases hw with rfl | rfl <;> rfl
  · rw [List.mem_map] at hw
    obtain ⟨_, -, rfl⟩ := hw
    rfl

theorem RunSpec.writes_full {cs : List (FrameCall α)} {rs : List (FrameResult α)} {outs' : List α}
    (h : RunSpec k q outs cs rs outs') (hc : CleanSteady k q cs) : ∀ r ∈ rs, ∀ w ∈ r.writes, w.1 = w.2 := by
  induction h with
  | nil => intro r hr; cases hr
  | @cons k q q1 outs outs1 outs2 c cs r rs _ _ hl hf _ ih =>
    have hstep : (c.nearendClean.isSome → q.clean.length ≤ 256) ∧ CleanSteady (k + 1) q1 cs := by
      rcases hc with hn | ⟨hs, hq⟩
      · have hc := hn c List.mem_cons_self
        refine ⟨fun h => ?_, Or.inl fun c h => hn c (List.mem_cons_of_mem _ h)⟩
        rw [hc] at h
        cases h
      · exact ⟨fun _ => by omega, Or.inr ⟨fun c h => hs c (List.mem_cons_of_mem _ h),
          hl.lane_length isLane_clean (hs c List.mem_cons_self) hq⟩⟩
    intro r' hr'
    rcases List.mem_cons.1 hr' with rfl | hr'
    · exact hf.writes_full hstep.1
    · exact ih hstep.2 r' hr'

/-! ## The rebuffering theorem -/

/-- What the calls `cs` and their results `rs` have to do with each other. -/
structure Rebuffered (cs : List (FrameCall α)) (rs : List (FrameResult α)) : Prop where
  far : (blocksOf rs).map (·.far) = slices (cs.flatMap (·.farend.1))
  noisy : (blocksOf rs).map (·.noisy) = slices (cs.flatMap (·.nearendNoisy.1))
  clean_none : (∀ c ∈ cs, c.nearendClean = none) → ∀ b ∈ blocksOf rs, b.clean = none
  clean_some : (∀ c ∈ cs, c.nearendClean.isSome) →
    (blocksOf rs).map (·.clean) = (slices (cs.flatMap FrameCall.clean)).map some
  writes : ∀ r ∈ rs, ∀ w ∈ r.writes, w.1 = w.2
  output : rs.flatMap (·.out) =
    (List.replicate 240 0 ++ (blocksOf rs).flatMap BlockCall.output).take (80 * cs.length)
  stuffed : ∀ (i : Nat) (r : FrameResult α), rs[i]? = some r → (r.stuffed = true ↔ i < 3)

/-- **`WebRtcAecm_ProcessFrame` neither loses nor repeats a sample.** From `WebRtcAecm_InitCore` on,
with the clean input always or never given and no block failing, whatever the number of frames. -/
theorem processFrame_rebuffers (initBlk : Int → σ → σ) (s0 : AecmCore α σ) (hcreated : s0.Created)
    (samplingFreq : Int) (hinit : initCore initBlk s0 samplingFreq = some s) (calls : List (FrameCall α))
    (hclean : (∀ c ∈ calls, c.nearendClean = none) ∨ (∀ c ∈ calls, c.nearendClean.isSome))
    (hok : ∀ r ∈ Machine.trace (processFrame proc) s calls, r.ok = true) :
    Rebuffered calls (Machine.trace (processFrame proc) s calls) := by
  have hphase := phase_initFields initBlk hcreated samplingFreq
  rw [← initCore_some hinit] at hphase
  obtain ⟨outs', hrun⟩ := run_spec hphase calls hok
  obtain ⟨q', hlanes⟩ := run_lanes proc hphase.lanes calls
  have hsteady : CleanSteady 0 Queues.empty calls := hclean.imp id fun h => ⟨h, rfl⟩
  refine ⟨?_, ?_, hlanes.clean_none, fun h => hlanes.lane isLane_clean rfl h, hrun.writes_full hsteady, ?_, ?_⟩
  · simpa [Queues.empty] using hlanes.lane isLane_far rfl fun _ _ => trivial
  · simpa [Queues.empty] using hlanes.lane isLane_noisy rfl fun _ _ => trivial
  · rw [hrun.output, hrun.grows]; rfl
  · intro i r hr
    rw [hrun.stuffed hr, Nat.zero_add, decide_eq_true_iff]

/-! ### A block processor that cannot fail -/

/-- Never returns -1. -/
def BlockProc.Total (proc : BlockProc α σ) : Prop := ∀ st far noisy clean, (proc st far noisy clean).2.isSome

omit [Zero α] in
theorem processBlocks_total (hproc : proc.Total) (hasClean : Bool) (fuel : Nat) (s : AecmCore α σ) :
    (processBlocks proc hasClean fuel s).2.all (·.out.isSome) = true := by
  induction fuel generalizing s with
  | zero => rfl
  | succ f ih =>
    have hsome : (blockRound proc hasClean s).2.out.isSome = true := by
      simp only [blockRound, Option.isSome_map]
      exact hproc _ _ _ _
    simp only [processBlocks, hsome, if_true]
    split
    · rw [List.all_cons, hsome, ih, Bool.and_self]
    · rfl

theorem processFrame_total (hproc : proc.Total) (s : AecmCore α σ) (c : FrameCall α) :
    (processFrame proc s c).2.ok = true := by
  simp only [processFrame]
  rw [if_pos (processBlocks_total hproc _ _ _)]

theorem trace_total (hproc : proc.Total) (s : AecmCore α σ) (calls : List (FrameCall α)) :
    ∀ r ∈ Machine.trace (processFrame proc) s calls, r.ok = true := by
  induction calls generalizing s with
  | nil => intro r hr; cases hr
  | cons c cs ih =>
    simp only [Machine.trace, List.mem_cons, forall_eq_or_imp]
    exact ⟨processFrame_total hproc s c, ih _⟩

/-- Hands the noisy block back. -/
def passNoisy : BlockProc α Unit := fun _ _ noisy _ =>
  ((), some (if h : noisy.length = partLen then ⟨noisy, h⟩ else ⟨List.replicate partLen 0, List.length_replicate⟩))

def newCore : AecmCore α Unit :=
  { farLine := ⟨List.replicate farBufLen 0, 0, 0, 0⟩
    knownDelay := 0
    mult := 1
    farFrameBuf := RingBuffer.initBuffer ⟨0, 0, bufLen, .sameWrap, []⟩
    nearNoisyFrameBuf := RingBuffer.initBuffer ⟨0, 0, bufLen, .sameWrap, []⟩
    nearCleanFrameBuf := RingBuffer.initBuffer ⟨0, 0, bufLen, .sameWrap, []⟩
    outFrameBuf := RingBuffer.initBuffer ⟨0, 0, bufLen, .sameWrap, []⟩
    blk := () }

theorem newCore_created : (newCore (α := α)).Created := ⟨List.length_replicate, rfl, rfl, rfl, rfl⟩

theorem passNoisy_total : (passNoisy (α := α)).Total := fun _ _ _ _ => rfl

def constCall (far noisy clean : Int) : FrameCall Int :=
  ⟨⟨List.replicate frameLen far, List.length_replicate⟩, ⟨List.replicate frameLen noisy, List.length_replicate⟩,
    some ⟨List.replicate frameLen clean, List.length_replicate⟩⟩

theorem processFrame_rebuffers_four_frames :
    Rebuffered (List.replicate 4 (constCall 1 2 3))
      (Machine.trace (processFrame passNoisy) (newCore.initFields (fun _ b => b) 8000)
        (List.replicate 4 (constCall 1 2 3))) :=
  processFrame_rebuffers _ newCore newCore_created 8000 (if_neg (by decide)) _
    (Or.inr fun c hc => by rw [List.eq_of_mem_replicate hc]; rfl) (trace_total passNoisy_total _ _)

end Runs

end WebRtc.Aecm
