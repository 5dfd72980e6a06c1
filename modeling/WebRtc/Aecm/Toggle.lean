import WebRtc.Aecm.Rebuffer

/-!
# Toggling the clean near end (`aecm_core.c:603-686`)

`nearCleanFrameBuf` is written and read only in calls that have a clean frame, `nearNoisyFrameBuf` in
every call. To follow which samples meet in a block, samples carry the index they came in at (80 to a
frame); the code copies samples and never looks at them, so the labels tell where each one went.

Sixteen frames are five blocks, and only there do frame and block boundaries meet. A switch inside
such a group leaves the two queues out of step for good: either clean samples are missing at the next
block that wants them, or some are left over. A switch between two groups does no harm. `AlignedRun`
holds of every run in which a block with a clean part comes only after groups without a switch
(`alignedRun_of_steady`), and fails when the clean input starts with the second frame
(`not_alignedRun_late_start`).
-/

namespace WebRtc.Aecm

open AecmCore

/-- A sample and the index it came in at; the silence of a fresh buffer has none. -/
structure Sample (β : Type) where
  value : β
  index : Option Nat
deriving DecidableEq, Repr

variable {β σ : Type}

instance [Zero β] : Zero (Sample β) := ⟨⟨0, none⟩⟩

/-- The indices of the samples `a, a + 1, …, a + n - 1`. -/
def indices (a n : Nat) : List (Option Nat) := (List.range n).map fun j => some (a + j)

@[simp] theorem indices_length (a n : Nat) : (indices a n).length = n := by simp [indices]

theorem indices_append (a m n : Nat) : indices a m ++ indices (a + m) n = indices a (m + n) := by
  simp only [indices, List.range_add, List.map_append, List.map_map]
  congr 1
  apply List.map_congr_left
  intro j _
  simp [Nat.add_assoc]

theorem indices_drop (a : Nat) {m n : Nat} (h : m ≤ n) : (indices a n).drop m = indices (a + m) (n - m) := by
  obtain ⟨d, rfl⟩ := Nat.exists_eq_add_of_le h
  rw [← indices_append, Nat.add_sub_cancel_left]
  exact List.drop_left' (indices_length a m)

/-- Frame number `k`, its samples labelled. -/
def labelFrame (k : Nat) (f : Frame β) : Frame (Sample β) :=
  ⟨f.1.mapIdx fun j v => ⟨v, some (80 * k + j)⟩, by rw [List.length_mapIdx]; exact f.2⟩

def labelCall (k : Nat) (c : FrameCall β) : FrameCall (Sample β) :=
  ⟨labelFrame k c.farend, labelFrame k c.nearendNoisy, c.nearendClean.map (labelFrame k)⟩

/-- The calls from frame number `k` on. -/
def labelCalls : Nat → List (FrameCall β) → List (FrameCall (Sample β))
  | _, [] => []
  | k, c :: cs => labelCall k c :: labelCalls (k + 1) cs

/-- The clean block, if there is one, has 256 samples, and they are the ones of the noisy block. -/
def Aligned (b : BlockCall (Sample β)) : Prop :=
  ∀ clean, b.clean = some clean → clean.length = 256 ∧ clean.map (·.index) = b.noisy.map (·.index)

/-- Every block of the run is aligned. -/
def AlignedRun [Zero β] (proc : BlockProc (Sample β) σ) (s : AecmCore (Sample β) σ) (calls : List (FrameCall β)) :
    Prop :=
  ∀ b ∈ blocksOf (Machine.trace (processFrame proc) s (labelCalls 0 calls)), Aligned b

/-- Call number `k` has a clean frame. -/
def passesClean (calls : List (FrameCall β)) (k : Nat) : Bool := (calls[k]?.bind (·.nearendClean)).isSome

/-- Frame number `k` completes a block. -/
def completesBlock (k : Nat) : Prop := 176 ≤ 80 * k % 256

/-- Up to frame `k` the clean input was switched on or off only between groups of 16 frames. -/
def Steady (flag : Nat → Bool) (k : Nat) : Prop := ∀ i ≤ k, flag i = flag (16 * (i / 16))

/-! ## The queues of labelled samples -/

theorem labelFrame_index (k : Nat) (f : Frame β) : (labelFrame k f).1.map (·.index) = indices (80 * k) 80 := by
  have hf : f.1.length = 80 := f.2
  apply List.ext_getElem?
  intro j
  simp only [labelFrame, indices, List.getElem?_map, List.getElem?_mapIdx]
  by_cases hj : j < 80
  · rw [List.getElem?_range hj, List.getElem?_eq_getElem (by omega)]; rfl
  · rw [List.getElem?_eq_none (by omega), List.getElem?_eq_none (by simp; omega)]; rfl

theorem push_noisy_index {q : Queues (Sample β)} {k : Nat} (c : FrameCall β)
    (hn : q.noisy.map (·.index) = indices (256 * (80 * k / 256)) (80 * k % 256)) :
    (q.push (labelCall k c)).noisy.map (·.index) = indices (256 * (80 * k / 256)) (80 * k % 256 + 80) := by
  have hk : 80 * k = 256 * (80 * k / 256) + 80 * k % 256 := by omega
  rw [Queues.push, List.map_append, hn, labelCall, labelFrame_index, ← indices_append, ← hk]

/-- What is known of the queues after `k` frames: the noisy one holds the last `80 * k % 256` samples;
the clean one, after a steady start, the same, or nothing if this group has no clean input. -/
structure Labelled (flag : Nat → Bool) (k : Nat) (q : Queues (Sample β)) : Prop where
  noisy : q.noisy.map (·.index) = indices (256 * (80 * k / 256)) (80 * k % 256)
  clean : (∀ i < k, flag i = flag (16 * (i / 16))) →
    q.clean.map (·.index) = if k % 16 ≠ 0 ∧ flag (16 * (k / 16)) then q.noisy.map (·.index) else []

section Step
variable {flag : Nat → Bool} {k : Nat} {q q' : Queues (Sample β)} {c : FrameCall β}
  {blocks : List (BlockCall (Sample β))}

theorem labelCall_isSome (k : Nat) (c : FrameCall β) :
    (labelCall k c).nearendClean.isSome = c.nearendClean.isSome := by
  simp only [labelCall, Option.isSome_map]

theorem clean_index (hc : c.nearendClean.isSome) : (labelCall k c).clean.map (·.index) = indices (80 * k) 80 := by
  obtain ⟨f, hf⟩ := Option.isSome_iff_exists.1 hc
  simp only [FrameCall.clean, labelCall, hf, Option.map_some, Option.getD_some, labelFrame_index]

/-- A frame with a clean part in a steady group finds both queues in step. -/
theorem Labelled.in_step (h : Labelled flag k q) (hs : Steady flag k) (hk : flag k) :
    q.clean.map (·.index) = q.noisy.map (·.index) := by
  have hg := hs k (Nat.le_refl k)
  have hcl := h.clean fun i hi => hs i (by omega)
  by_cases h16 : k % 16 = 0
  · have h0 : 80 * k % 256 = 0 := by omega
    have hn := h.noisy
    rw [h0] at hn
    rw [hcl, hn, if_neg (by simp [h16])]
    rfl
  · rw [hcl, if_pos ⟨h16, by rw [← hg]; exact hk⟩]

/-- A frame without a clean part in a steady group finds no clean samples waiting. -/
theorem Labelled.no_clean (h : Labelled flag k q) (hs : Steady flag k) (hk : flag k = false) : q.clean = [] := by
  have hg := hs k (Nat.le_refl k)
  have hcl := h.clean fun i hi => hs i (by omega)
  rw [if_neg (by rw [← hg, hk]; simp), List.map_eq_nil_iff] at hcl
  exact hcl

/-- In step before a frame that both get, in step after it. -/
theorem push_in_step (hin : q.clean.map (·.index) = q.noisy.map (·.index)) (hlen : q.noisy.length ≤ 256)
    (hc : c.nearendClean.isSome) :
    (q.push (labelCall k c)).clean.map (·.index) = (q.push (labelCall k c)).noisy.map (·.index) := by
  have hl : q.clean.length = q.noisy.length := by simpa using congrArg List.length hin
  rw [isLane_clean.push q _ (by rw [labelCall_isSome]; exact hc) (by omega), List.map_append, hin, clean_index hc,
    isLane_noisy.push q _ trivial hlen, List.map_append]
  simp only [labelCall, labelFrame_index]

theorem Labelled.step_noisy (h : Labelled flag k q) (hs : LaneSpec k q (labelCall k c) blocks q') :
    q'.noisy.map (·.index) = indices (256 * (80 * (k + 1) / 256)) (80 * (k + 1) % 256) := by
  have hpush := push_noisy_index c h.noisy
  rcases hs.blocks with ⟨hlt, -, rfl⟩ | ⟨hge, b, -, -, rfl⟩
  · have h1 : 256 * (80 * (k + 1) / 256) = 256 * (80 * k / 256) := by omega
    have h2 : 80 * (k + 1) % 256 = 80 * k % 256 + 80 := by omega
    rw [hpush, h1, h2]
  · have h1 : 256 * (80 * (k + 1) / 256) = 256 * (80 * k / 256) + 256 := by omega
    have h2 : 80 * (k + 1) % 256 = 80 * k % 256 + 80 - 256 := by omega
    rw [isLane_noisy.pop _ (labelCall k c) trivial, List.map_drop, hpush, indices_drop _ (by omega), h1, h2]

/-- **One frame under toggling.** -/
theorem Labelled.step (h : Labelled flag k q) (hlen : q.After k) (hs : LaneSpec k q (labelCall k c) blocks q')
    (hf : c.nearendClean.isSome = flag k) (hcond : completesBlock k → flag k → Steady flag k) :
    Labelled flag (k + 1) q' ∧ ∀ b ∈ blocks, Aligned b := by
  have hnoisy := h.step_noisy hs
  have hnl := hlen.noisy
  have hsome := labelCall_isSome k c
  rw [hf] at hsome
  have hgroup : (∀ i < k + 1, flag i = flag (16 * (i / 16))) → Steady flag k := fun hst i hi => hst i (by omega)
  have hnext : (k + 1) % 16 ≠ 0 → 16 * ((k + 1) / 16) = 16 * (k / 16) := by omega
  have hzero : (k + 1) % 16 = 0 → q'.noisy.map (·.index) = [] := by
    intro h16
    have h0 : 80 * (k + 1) % 256 = 0 := by omega
    rw [hnoisy, h0]; rfl
  cases hk : flag k with
  | true =>
    rw [hk] at hsome hf
    have hstep : Steady flag k → (q.push (labelCall k c)).clean.map (·.index) =
        (q.push (labelCall k c)).noisy.map (·.index) :=
      fun hst => push_in_step (h.in_step hst hk) (by omega) hf
    refine ⟨⟨hnoisy, fun hst => ?_⟩, ?_⟩
    · -- both queues lose the same block
      have heq : q'.clean.map (·.index) = q'.noisy.map (·.index) := by
        rcases hs.blocks with ⟨-, -, rfl⟩ | ⟨-, b, -, -, rfl⟩
        · exact hstep (hgroup hst)
        · rw [isLane_clean.pop _ _ hsome, isLane_noisy.pop _ (labelCall k c) trivial, List.map_drop, List.map_drop,
            hstep (hgroup hst)]
      by_cases h16 : (k + 1) % 16 = 0
      · rw [heq, hzero h16, if_neg (by simp [h16])]
      · rw [heq, if_pos ⟨h16, by rw [hnext h16, ← hst k (by omega)]; exact hk⟩]
    · rcases hs.blocks with ⟨-, rfl, -⟩ | ⟨hge, b, rfl, hcall, -⟩
      · intro b hb; cases hb
      · intro b' hb' clean hclean
        rw [List.mem_singleton] at hb'
        subst hb'
        have hst := hstep (hcond hge hk)
        rw [isLane_clean.call _ _ _ hsome hcall, Option.some.injEq] at hclean
        subst hclean
        have hpl : (q.push (labelCall k c)).clean.length = 80 * k % 256 + 80 := by
          have := congrArg List.length (hst.trans (push_noisy_index c h.noisy))
          simpa using this
        refine ⟨by rw [List.length_take, hpl]; omega, ?_⟩
        rw [hcall.noisy, List.map_take, List.map_take, hst]
  | false =>
    rw [hk] at hsome hf
    refine ⟨⟨hnoisy, fun hst => ?_⟩, ?_⟩
    · have hnil := h.no_clean (hgroup hst) hk
      have hnone : (labelCall k c).clean = [] := by
        have hn : (labelCall k c).nearendClean = none := Option.not_isSome_iff_eq_none.1 (by rw [hsome]; decide)
        rw [FrameCall.clean, hn]; rfl
      have hpush : (q.push (labelCall k c)).clean = [] := by
        simp only [Queues.push, hnil, hnone, List.take_nil, List.append_nil]
      have hq' : q'.clean = [] := by
        rcases hs.blocks with ⟨-, -, rfl⟩ | ⟨-, b, -, -, rfl⟩
        · exact hpush
        · simp only [Queues.pop, hsome, Bool.false_eq_true, if_false, hpush]
      rw [hq', if_neg, List.map_nil]
      rintro ⟨h16, hfl⟩
      rw [hnext h16, ← hst k (by omega), hk] at hfl
      cases hfl
    · rcases hs.blocks with ⟨-, rfl, -⟩ | ⟨-, b, rfl, hcall, -⟩
      · intro b hb; cases hb
      · intro b' hb' clean hclean
        rw [List.mem_singleton] at hb'
        rw [hb', hcall.clean, hsome] at hclean
        cases hclean

end Step

/-! ## Runs -/

theorem labelled_empty (flag : Nat → Bool) : Labelled flag 0 (Queues.empty : Queues (Sample β)) :=
  ⟨rfl, fun _ => rfl⟩

theorem RunLanes.aligned {flag : Nat → Bool} (hcond : ∀ k, completesBlock k → flag k → Steady flag k)
    (calls : List (FrameCall β)) {k : Nat} {q q' : Queues (Sample β)} {rs : List (FrameResult (Sample β))}
    (hl : Labelled flag k q) (hlen : q.After k)
    (hf : ∀ j c, calls[j]? = some c → c.nearendClean.isSome = flag (k + j))
    (h : RunLanes k q (labelCalls k calls) rs q') : ∀ b ∈ blocksOf rs, Aligned b := by
  induction calls generalizing k q rs with
  | nil => cases h; intro b hb; cases hb
  | cons c cs ih =>
    cases h with
    | cons hs hr =>
      obtain ⟨hl', hal⟩ := hl.step hlen hs (hf 0 c rfl) (hcond k)
      intro b hb
      rw [blocksOf, List.flatMap_cons, List.mem_append] at hb
      rcases hb with hb | hb
      · exact hal b hb
      · refine ih hl' hs.lengths ?_ hr b hb
        intro j c' hj
        rw [hf (j + 1) c' hj]
        congr 1; omega

/-- **Toggling between groups of 16 frames is safe.** A run is aligned if every frame that completes a
block and has a clean part comes after a start in which the clean input was switched on or off only
at multiples of 16 frames. -/
theorem alignedRun_of_steady [Zero β] {proc : BlockProc (Sample β) σ} {s : AecmCore (Sample β) σ}
    (initBlk : Int → σ → σ) (s0 : AecmCore (Sample β) σ) (hcreated : s0.Created) (samplingFreq : Int)
    (hinit : initCore initBlk s0 samplingFreq = some s) (calls : List (FrameCall β))
    (hcond : ∀ k, completesBlock k → passesClean calls k → Steady (passesClean calls) k) :
    AlignedRun proc s calls := by
  have hlanes := lanes_initFields initBlk hcreated samplingFreq
  rw [← initCore_some hinit] at hlanes
  obtain ⟨q', hrun⟩ := run_lanes proc hlanes (labelCalls 0 calls)
  refine hrun.aligned hcond calls (labelled_empty _) hlanes.lengths ?_
  intro j c hj
  simp only [passesClean, Nat.zero_add, hj, Option.bind_some]

/-- A call with or without a clean frame. -/
def toggled (clean : Bool) : FrameCall Int :=
  { constCall 1 2 3 with nearendClean := if clean then (constCall 1 2 3).nearendClean else none }

theorem passesClean_second_group (k : Nat) :
    passesClean (List.replicate 16 (toggled false) ++ List.replicate 16 (toggled true)) k =
      decide (16 ≤ k ∧ k < 32) := by
  simp only [passesClean, List.getElem?_append, List.length_replicate, List.getElem?_replicate]
  by_cases h1 : k < 16
  · simp [h1, toggled]
  · by_cases h2 : k < 32
    · have h3 : k - 16 < 16 := by omega
      simp [h1, h3, toggled, constCall, h2]
      omega
    · have h3 : ¬ k - 16 < 16 := by omega
      simp [h1, h3, h2]

theorem alignedRun_second_group :
    AlignedRun passNoisy (newCore.initFields (fun _ b => b) 8000)
      (List.replicate 16 (toggled false) ++ List.replicate 16 (toggled true)) := by
  refine alignedRun_of_steady _ newCore newCore_created 8000 (if_neg (by decide)) _ ?_
  intro k _ hk i hi
  rw [passesClean_second_group, decide_eq_true_iff] at hk
  rw [passesClean_second_group, passesClean_second_group, decide_eq_decide]
  omega

theorem push_clean_length {α : Type} (q : Queues α) (c : FrameCall α) (hc : c.nearendClean.isSome)
    (hq : q.clean.length ≤ 256) : (q.push c).clean.length = q.clean.length + 80 := by
  rw [isLane_clean.push q c hc hq, List.length_append, isLane_clean.length_inp c hc]

/-- **The clean input starts with the second frame.** The fourth frame completes a block, and only 240
clean samples are there for it. -/
theorem not_alignedRun_late_start :
    ¬ AlignedRun passNoisy (newCore.initFields (fun _ b => b) 8000)
      [toggled false, toggled true, toggled true, toggled true] := by
  intro hal
  obtain ⟨q', hrun⟩ := run_lanes passNoisy
    (lanes_initFields (fun _ b => b) (newCore_created (α := Sample Int)) 8000)
    (labelCalls 0 [toggled false, toggled true, toggled true, toggled true])
  unfold AlignedRun at hal
  generalize Machine.trace (processFrame passNoisy) (newCore.initFields (fun _ b => b) 8000)
    (labelCalls 0 [toggled false, toggled true, toggled true, toggled true]) = rs at hal hrun
  simp only [labelCalls, Nat.zero_add, Nat.reduceAdd] at hrun
  cases hrun with | cons h0 hrun =>
  cases hrun with | cons h1 hrun =>
  cases hrun with | cons h2 hrun =>
  cases hrun with | cons h3 hrun =>
  rcases h0.blocks with ⟨-, -, rfl⟩ | ⟨hge, -⟩
  rcases h1.blocks with ⟨-, -, rfl⟩ | ⟨hge, -⟩
  rcases h2.blocks with ⟨-, -, rfl⟩ | ⟨hge, -⟩
  rcases h3.blocks with ⟨hlt, -⟩ | ⟨-, b, hb, hcall, -⟩
  all_goals try omega
  have hc : ∀ k, (labelCall k (toggled true)).nearendClean.isSome := fun _ => rfl
  have hl0 : (Queues.empty.push (labelCall 0 (toggled false))).clean.length = 0 := rfl
  have hl1 := push_clean_length _ _ (hc 1) (by rw [hl0]; omega)
  have hl2 := push_clean_length _ _ (hc 2) (by rw [hl1]; omega)
  have hl3 := push_clean_length _ _ (hc 3) (by rw [hl2]; omega)
  have hlen := (hal b (by rw [blocksOf]; simp [hb]) _ (isLane_clean.call _ _ _ (hc 3) hcall)).1
  rw [List.length_take] at hlen
  omega

end WebRtc.Aecm
