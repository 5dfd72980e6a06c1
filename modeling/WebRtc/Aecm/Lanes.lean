import WebRtc.Aecm.Core
import WebRtc.Lib.Machine

/-!
# The input side of `WebRtcAecm_ProcessFrame`: 80-sample frames to 256-sample blocks

After `k` frames the far and noisy queues hold `80 * k % 256` samples. That is a multiple of 16, so
the 336 elements of their buffers are never exceeded, and a frame completes a block exactly when at
least 176 samples were waiting. The clean queue is filled and drained only by calls that have a clean
frame, so nothing is said here about its length.

`Lanes` is that state, `processFrame_lanes` the step, `run_lanes` the run: none of them depends on the
block processor succeeding.
-/

namespace WebRtc.Aecm

open AecmCore

/-! ## The block loop -/

section Loop
variable {α σ : Type} {proc : BlockProc α σ} {s : AecmCore α σ}

theorem processBlocks_none {hasClean : Bool} (fuel : Nat) (h : s.farFrameBuf.availableRead < partLen) :
    processBlocks proc hasClean fuel s = (s, []) := by
  cases fuel with
  | zero => rfl
  | succ f => simp only [processBlocks]; rw [if_neg (by omega)]

theorem processBlocks_one {hasClean : Bool} {fuel : Nat} (hf : 0 < fuel)
    (h : partLen ≤ s.farFrameBuf.availableRead)
    (h' : (blockRound proc hasClean s).1.farFrameBuf.availableRead < partLen) :
    processBlocks proc hasClean fuel s = ((blockRound proc hasClean s).1, [(blockRound proc hasClean s).2]) := by
  cases fuel with
  | zero => omega
  | succ f =>
    simp only [processBlocks]
    rw [if_pos h, processBlocks_none f h']
    split <;> rfl

theorem blockRound_far (proc : BlockProc α σ) (s : AecmCore α σ) (hasClean : Bool) :
    (blockRound proc hasClean s).1.farFrameBuf = (s.farFrameBuf.readBuffer true [] partLen).1 ∧
    (blockRound proc hasClean s).2.far = (s.farFrameBuf.readBuffer true [] partLen).2.elements := by
  simp only [blockRound, and_self]

theorem blockRound_noisy (proc : BlockProc α σ) (s : AecmCore α σ) (hasClean : Bool) :
    (blockRound proc hasClean s).1.nearNoisyFrameBuf = (s.nearNoisyFrameBuf.readBuffer true [] partLen).1 ∧
    (blockRound proc hasClean s).2.noisy = (s.nearNoisyFrameBuf.readBuffer true [] partLen).2.elements := by
  simp only [blockRound, and_self]

theorem blockRound_clean (proc : BlockProc α σ) (s : AecmCore α σ) (hasClean : Bool) :
    (blockRound proc hasClean s).1.nearCleanFrameBuf =
      (if hasClean then (s.nearCleanFrameBuf.readBuffer true [] partLen).1 else s.nearCleanFrameBuf) ∧
    (blockRound proc hasClean s).2.clean =
      (if hasClean then some (s.nearCleanFrameBuf.readBuffer true [] partLen).2.elements else none) := by
  simp only [blockRound, and_self]

theorem blockRound_line (proc : BlockProc α σ) (s : AecmCore α σ) (hasClean : Bool) :
    (blockRound proc hasClean s).1.farLine = s.farLine ∧
    (blockRound proc hasClean s).1.knownDelay = s.knownDelay := by
  unfold blockRound
  exact ⟨rfl, rfl⟩

end Loop

/-! ## The state between two frames -/

/-- The far, noisy and clean samples no block has taken yet. -/
structure Queues (α : Type) where
  far : List α
  noisy : List α
  clean : List α

/-- The clean frame of a call, empty if there is none. -/
def FrameCall.clean {α : Type} (c : FrameCall α) : List α := (c.nearendClean.map Subtype.val).getD []

namespace Queues

variable {α : Type}

def empty : Queues α := ⟨[], [], []⟩

/-- A frame comes in. Only the clean queue can be out of room. -/
def push (q : Queues α) (c : FrameCall α) : Queues α :=
  { far := q.far ++ c.farend.1
    noisy := q.noisy ++ c.nearendNoisy.1
    clean := q.clean ++ c.clean.take (bufLen - q.clean.length) }

/-- A block goes through. -/
def pop (q : Queues α) (hasClean : Bool) : Queues α :=
  { far := q.far.drop partLen
    noisy := q.noisy.drop partLen
    clean := if hasClean then q.clean.drop partLen else q.clean }

/-- `b` is the call the block processor gets when the queues are `q`. -/
structure Call (q : Queues α) (hasClean : Bool) (b : BlockCall α) : Prop where
  far : b.far = q.far.take partLen
  noisy : b.noisy = q.noisy.take partLen
  clean : b.clean = if hasClean then some (q.clean.take partLen) else none

/-- The queues after `k` frames, by length. -/
structure After (k : Nat) (q : Queues α) : Prop where
  far : q.far.length = 80 * k % 256
  noisy : q.noisy.length = 80 * k % 256

end Queues

/-- What a call does to the queues in phase `k`: a block goes through when the frame completes one. -/
structure LaneSpec {α : Type} (k : Nat) (q : Queues α) (c : FrameCall α) (blocks : List (BlockCall α))
    (q' : Queues α) : Prop where
  blocks : (80 * k % 256 < 176 ∧ blocks = [] ∧ q' = q.push c) ∨
    (176 ≤ 80 * k % 256 ∧ ∃ b, blocks = [b] ∧ (q.push c).Call c.nearendClean.isSome b ∧
      q' = (q.push c).pop c.nearendClean.isSome)
  lengths : q'.After (k + 1)

section Step
variable {α σ : Type} [Zero α] {proc : BlockProc α σ} {s : AecmCore α σ} {q : Queues α} {k : Nat}

/-- The buffers hold the queues. -/
structure Buffered (s : AecmCore α σ) (q : Queues α) : Prop where
  line : s.farLine.InStep
  noDelay : s.knownDelay = 0
  far : Holds bufLen s.farFrameBuf q.far
  noisy : Holds bufLen s.nearNoisyFrameBuf q.noisy
  clean : Holds bufLen s.nearCleanFrameBuf q.clean

/-- The core after `k` frames. -/
structure Lanes (k : Nat) (s : AecmCore α σ) (q : Queues α) : Prop where
  buffered : Buffered s q
  lengths : q.After k

theorem lanes_initFields (initBlk : Int → σ → σ) {s0 : AecmCore α σ} (hc : s0.Created) (samplingFreq : Int) :
    Lanes 0 (s0.initFields initBlk samplingFreq) Queues.empty :=
  ⟨⟨⟨hc.farBuf, Nat.zero_le _, rfl, rfl⟩, rfl, Holds.init hc.far (by decide) (by decide),
    Holds.init hc.noisy (by decide) (by decide), Holds.init hc.clean (by decide) (by decide)⟩, rfl, rfl⟩

theorem Holds.writeFrame {b : RingBuffer α} {l : List α} (h : Holds bufLen b l) (f : Frame α)
    (hl : l.length ≤ 256) : Holds bufLen (b.writeBuffer f.1).1 (l ++ f.1) ∧ (b.writeBuffer f.1).2 = frameLen := by
  obtain ⟨hw, hret⟩ := h.write f.1
  have hf := f.2
  rw [List.take_of_length_le (by unfold bufLen frameLen at *; omega)] at hw
  exact ⟨hw, by rw [hret, hf]; unfold bufLen frameLen; omega⟩

/-- The writes of a call that are not those of blocks. -/
def frameWrites (q : Queues α) (c : FrameCall α) : List (Nat × Nat) :=
  (80, 80) :: (80, 80) :: if c.nearendClean.isSome then [(80, min 80 (336 - q.clean.length))] else []

theorem bufferFrames_spec (h : Lanes k s q) (c : FrameCall α) :
    Buffered (bufferFrames s c).1 (q.push c) ∧ (bufferFrames s c).2 = frameWrites q c ∧
    (bufferFrames s c).1.outFrameBuf = s.outFrameBuf := by
  have hlf := h.lengths.far
  have hln := h.lengths.noisy
  have hf := c.farend.2
  have hb := h.buffered
  obtain ⟨hfetch, hstep⟩ := FarLine.fetch_buffer hb.line c.farend.1 (List.replicate frameLen 0)
    (by unfold frameLen at hf; omega) (by unfold frameLen at hf; unfold farBufLen; omega) (by simp [hf])
  obtain ⟨hfw, hfr⟩ := Holds.writeFrame hb.far c.farend (by omega)
  obtain ⟨hnw, hnr⟩ := Holds.writeFrame hb.noisy c.nearendNoisy (by omega)
  simp only [bufferFrames, hb.noDelay, hfetch, hfr, hnr]
  refine ⟨⟨hstep, rfl, hfw, hnw, ?_⟩, ?_, trivial⟩
  · cases hc : c.nearendClean with
    | none =>
      simp only [Queues.push, FrameCall.clean, hc, Option.isSome_none, Bool.false_eq_true, if_false,
        Option.map_none, Option.getD_none, List.take_nil, List.append_nil]
      exact hb.clean
    | some f =>
      simp only [Queues.push, FrameCall.clean, hc, Option.isSome_some, if_true, Option.map_some, Option.getD_some]
      exact (hb.clean.write f.1).1
  · cases hc : c.nearendClean with
    | none => simp only [frameWrites, hc, Option.isSome_none, Bool.false_eq_true, if_false]
    | some f =>
      simp only [frameWrites, hc, Option.isSome_some, if_true, Option.map_some, Option.getD_some,
        (hb.clean.write f.1).2, f.2]

/-- One round of the loop. -/
theorem blockRound_lanes (proc : BlockProc α σ) (hasClean : Bool) (h : Buffered s q) :
    q.Call hasClean (blockRound proc hasClean s).2 ∧ Buffered (blockRound proc hasClean s).1 (q.pop hasClean) := by
  obtain ⟨hf, hef⟩ := h.far.read (by decide) true [] partLen
  obtain ⟨hn, hen⟩ := h.noisy.read (by decide) true [] partLen
  obtain ⟨hc, hec⟩ := h.clean.read (by decide) true [] partLen
  obtain ⟨ef, ef'⟩ := blockRound_far proc s hasClean
  obtain ⟨en, en'⟩ := blockRound_noisy proc s hasClean
  obtain ⟨ec, ec'⟩ := blockRound_clean proc s hasClean
  obtain ⟨el, ed⟩ := blockRound_line proc s hasClean
  refine ⟨⟨ef'.trans hef, en'.trans hen, by rw [ec', hec]⟩, ?_, ?_, ?_, ?_, ?_⟩
  · rw [el]; exact h.line
  · rw [ed]; exact h.noDelay
  · rw [ef]; exact hf
  · rw [en]; exact hn
  · rw [ec]
    cases hasClean with
    | true => rw [if_pos rfl]; exact hc
    | false => rw [if_neg (by decide)]; exact h.clean

/-- The whole loop: at most one block is ready. -/
theorem processBlocks_lanes (proc : BlockProc α σ) {c : FrameCall α} (h : Buffered s (q.push c)) (hlen : q.After k) :
    ∃ q', LaneSpec k q c (processBlocks proc c.nearendClean.isSome s.farFrameBuf.availableRead s).2 q' ∧
      Buffered (processBlocks proc c.nearendClean.isSome s.farFrameBuf.availableRead s).1 q' := by
  have hlf : (q.push c).far.length = 80 * k % 256 + 80 := by
    simp only [Queues.push, List.length_append, hlen.far, c.farend.2]
  have hln : (q.push c).noisy.length = 80 * k % 256 + 80 := by
    simp only [Queues.push, List.length_append, hlen.noisy, c.nearendNoisy.2]
  have hav := h.far.availableRead_eq
  rw [hlf] at hav
  by_cases hfull : 80 * k % 256 < 176
  · rw [processBlocks_none _ (by unfold partLen; omega)]
    exact ⟨q.push c, ⟨Or.inl ⟨hfull, rfl, rfl⟩, by omega, by omega⟩, h⟩
  · have hge : 176 ≤ 80 * k % 256 := by omega
    rw [processBlocks_one (by omega) (by unfold partLen; omega) (by
      rw [(blockRound_far ..).1, (h.far.read (by decide) true [] partLen).1.availableRead_eq, List.length_drop, hlf]
      unfold partLen; omega)]
    obtain ⟨hcall, hpop⟩ := blockRound_lanes proc c.nearendClean.isSome h
    refine ⟨(q.push c).pop c.nearendClean.isSome, ⟨Or.inr ⟨hge, _, rfl, hcall, rfl⟩, ?_, ?_⟩, hpop⟩
    · simp only [Queues.pop, List.length_drop, hlf, partLen]; omega
    · simp only [Queues.pop, List.length_drop, hln, partLen]; omega

omit [Zero α] in
theorem outputFrame_eq (s : AecmCore α σ) :
    (outputFrame s).1 = { s with outFrameBuf := (outputFrame s).1.outFrameBuf } := by
  simp only [outputFrame]

theorem processFrame_buffers (c : FrameCall α) {q' : Queues α}
    (h : Buffered (processBlocks proc c.nearendClean.isSome (bufferFrames s c).1.farFrameBuf.availableRead
      (bufferFrames s c).1).1 q') : Buffered (processFrame proc s c).1 q' := by
  simp only [processFrame]
  generalize processBlocks proc _ _ _ = r at h
  split
  · simp only
    rw [outputFrame_eq]
    exact ⟨h.line, h.noDelay, h.far, h.noisy, h.clean⟩
  · exact h

theorem processFrame_blocks (s : AecmCore α σ) (c : FrameCall α) :
    (processFrame proc s c).2.blocks =
      (processBlocks proc c.nearendClean.isSome (bufferFrames s c).1.farFrameBuf.availableRead
        (bufferFrames s c).1).2 := by
  simp only [processFrame]
  generalize processBlocks proc _ _ _ = r
  split <;> rfl

/-- **One frame, on the input side.** -/
theorem processFrame_lanes (proc : BlockProc α σ) (h : Lanes k s q) (c : FrameCall α) :
    ∃ q', Lanes (k + 1) (processFrame proc s c).1 q' ∧ LaneSpec k q c (processFrame proc s c).2.blocks q' := by
  obtain ⟨hbuf, -, -⟩ := bufferFrames_spec h c
  obtain ⟨q', hspec, hbuf'⟩ := processBlocks_lanes proc hbuf h.lengths
  refine ⟨q', ⟨processFrame_buffers c hbuf', hspec.lengths⟩, ?_⟩
  rw [processFrame_blocks]
  exact hspec

end Step

/-! ## Runs -/

section Runs
variable {α σ : Type} {q : Queues α} {k : Nat}

/-- A run from phase `k`, call by call. -/
inductive RunLanes : Nat → Queues α → List (FrameCall α) → List (FrameResult α) → Queues α → Prop
  | nil {k : Nat} {q : Queues α} : RunLanes k q [] [] q
  | cons {k : Nat} {q q' q'' : Queues α} {c : FrameCall α} {cs : List (FrameCall α)} {r : FrameResult α}
      {rs : List (FrameResult α)} :
      LaneSpec k q c r.blocks q' → RunLanes (k + 1) q' cs rs q'' → RunLanes k q (c :: cs) (r :: rs) q''

/-- **A run, on the input side.** -/
theorem run_lanes [Zero α] (proc : BlockProc α σ) {s : AecmCore α σ} (h : Lanes k s q) (calls : List (FrameCall α)) :
    ∃ q', RunLanes k q calls (Machine.trace (processFrame proc) s calls) q' := by
  induction calls generalizing k s q with
  | nil => exact ⟨q, .nil⟩
  | cons c cs ih =>
    obtain ⟨q', hp, hf⟩ := processFrame_lanes proc h c
    obtain ⟨q'', hr⟩ := ih hp
    exact ⟨q'', .cons hf hr⟩

/-- The blocks handed to the block processor. -/
def blocksOf (rs : List (FrameResult α)) : List (BlockCall α) := rs.flatMap (·.blocks)

/-- The consecutive whole slices of `PART_LEN` samples. -/
def slices (l : List α) : List (List α) :=
  (List.range (l.length / partLen)).map fun j => (l.drop (partLen * j)).take partLen

theorem slices_short {l : List α} (h : l.length < 256) : slices l = [] := by
  have h0 : l.length / partLen = 0 := by unfold partLen; omega
  rw [slices, h0]; rfl

theorem slices_append {a : List α} (h : a.length = 256) (l : List α) : slices (a ++ l) = a :: slices l := by
  have hd : (a ++ l).length / partLen = l.length / partLen + 1 := by
    rw [List.length_append, h]; unfold partLen; omega
  rw [slices, hd, List.range_succ_eq_map, List.map_cons, List.map_map, slices]
  congr 1
  · rw [Nat.mul_zero, List.drop_zero, show partLen = a.length from h.symm, List.take_left]
  · apply List.map_congr_left
    intro j _
    have hj : partLen * (j + 1) - a.length = partLen * j := by rw [h]; unfold partLen; omega
    simp only [Function.comp_apply, Nat.succ_eq_add_one]
    rw [List.drop_append, List.drop_eq_nil_of_le (by rw [h]; unfold partLen; omega), List.nil_append, hj]

theorem slices_take_drop {a : List α} (h : 256 ≤ a.length) (l : List α) :
    slices (a ++ l) = a.take 256 :: slices (a.drop 256 ++ l) := by
  rw [← slices_append (a := a.take 256) (by rw [List.length_take]; omega), ← List.append_assoc,
    List.take_append_drop]

/-- One of the three inputs: `get` its queue, `inp` its frames, `blk` its blocks. -/
structure IsLane {β : Type} (P : FrameCall α → Prop) (get : Queues α → List α) (inp : FrameCall α → List α)
    (blk : BlockCall α → β) (wrap : List α → β) : Prop where
  length_inp : ∀ c, P c → (inp c).length = 80
  push : ∀ q c, P c → (get q).length ≤ 256 → get (q.push c) = get q ++ inp c
  pop : ∀ q c, P c → get (q.pop c.nearendClean.isSome) = (get q).drop 256
  call : ∀ q c b, P c → q.Call c.nearendClean.isSome b → blk b = wrap ((get q).take 256)

theorem isLane_far : IsLane (α := α) (fun _ => True) (·.far) (·.farend.1) (·.far) id where
  length_inp c _ := c.farend.2
  push _ _ _ _ := rfl
  pop _ _ _ := rfl
  call _ _ _ _ h := h.far

theorem isLane_noisy : IsLane (α := α) (fun _ => True) (·.noisy) (·.nearendNoisy.1) (·.noisy) id where
  length_inp c _ := c.nearendNoisy.2
  push _ _ _ _ := rfl
  pop _ _ _ := rfl
  call _ _ _ _ h := h.noisy

theorem FrameCall.length_clean {c : FrameCall α} (h : c.nearendClean.isSome) : c.clean.length = 80 := by
  obtain ⟨f, hf⟩ := Option.isSome_iff_exists.1 h
  rw [FrameCall.clean, hf]
  exact f.2

theorem isLane_clean :
    IsLane (α := α) (·.nearendClean.isSome) (·.clean) FrameCall.clean (·.clean) some where
  length_inp c h := FrameCall.length_clean h
  push q c h hq := by
    have hc := FrameCall.length_clean h
    simp only [Queues.push]
    rw [List.take_of_length_le (by unfold bufLen; omega)]
  pop q c h := by simp only [Queues.pop, h, if_true]
  call q c b h hb := by rw [hb.clean, h, if_pos rfl]

/-- A lane that is in phase stays in phase. -/
theorem LaneSpec.lane_length {β : Type} {P : FrameCall α → Prop} {get : Queues α → List α}
    {inp : FrameCall α → List α} {blk : BlockCall α → β} {wrap : List α → β} (hl : IsLane P get inp blk wrap)
    {c : FrameCall α} {blocks : List (BlockCall α)} {q' : Queues α} (h : LaneSpec k q c blocks q') (hc : P c)
    (hq : (get q).length = 80 * k % 256) : (get q').length = 80 * (k + 1) % 256 := by
  have hlen : (get (q.push c)).length = 80 * k % 256 + 80 := by
    rw [hl.push q c hc (by omega), List.length_append, hq, hl.length_inp c hc]
  rcases h.blocks with ⟨hlt, -, rfl⟩ | ⟨hge, b, -, -, rfl⟩
  · omega
  · rw [hl.pop _ c hc, List.length_drop]; omega

/-- **The blocks of a lane are the slices of its frames.** -/
theorem RunLanes.lane {β : Type} {P : FrameCall α → Prop} {get : Queues α → List α} {inp : FrameCall α → List α}
    {blk : BlockCall α → β} {wrap : List α → β} (hl : IsLane P get inp blk wrap)
    {cs : List (FrameCall α)} {rs : List (FrameResult α)} {q' : Queues α} (hq : (get q).length = 80 * k % 256)
    (hP : ∀ c ∈ cs, P c) (h : RunLanes k q cs rs q') :
    (blocksOf rs).map blk = (slices (get q ++ cs.flatMap inp)).map wrap := by
  induction h with
  | nil =>
    simp only [blocksOf, List.flatMap_nil, List.map_nil, List.append_nil]
    rw [slices_short (by omega), List.map_nil]
  | @cons k q q1 q2 c cs r rs hf _ ih =>
    have hc := hP c List.mem_cons_self
    have hlen1 := hf.lane_length hl hc hq
    have hpush := hl.push q c hc (by omega)
    have hlen : (get (q.push c)).length = 80 * k % 256 + 80 := by
      rw [hpush, List.length_append, hq, hl.length_inp c hc]
    have ih := ih hlen1 fun c h => hP c (List.mem_cons_of_mem _ h)
    simp only [blocksOf, List.flatMap_cons, List.map_append] at ih ⊢
    rw [← List.append_assoc, ← hpush, ih]
    rcases hf.blocks with ⟨hlt, hb, rfl⟩ | ⟨hge, b, hb, hcall, rfl⟩
    · rw [hb, List.map_nil, List.nil_append]
    · rw [hb, slices_take_drop (a := get (q.push c)) (by omega), List.map_cons, List.map_cons, List.map_nil,
        hl.call _ _ _ hc hcall, hl.pop _ _ hc]
      rfl

/-- With no clean input no block has one. -/
theorem RunLanes.clean_none {cs : List (FrameCall α)} {rs : List (FrameResult α)} {q' : Queues α}
    (h : RunLanes k q cs rs q') (hc : ∀ c ∈ cs, c.nearendClean = none) : ∀ b ∈ blocksOf rs, b.clean = none := by
  induction h with
  | nil => intro b hb; cases hb
  | @cons k q q1 q2 c cs r rs hf _ ih =>
    intro b hb
    rw [blocksOf, List.flatMap_cons, List.mem_append] at hb
    rcases hb with hb | hb
    · have hcn := hc c List.mem_cons_self
      rcases hf.blocks with ⟨-, hr, -⟩ | ⟨-, b', hr, hcall, -⟩
      · rw [hr] at hb; cases hb
      · rw [hr, List.mem_singleton] at hb
        rw [hb, hcall.clean, hcn]; rfl
    · exact ih (fun c h => hc c (List.mem_cons_of_mem _ h)) b hb

end Runs

end WebRtc.Aecm
