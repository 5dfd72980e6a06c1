import WebRtc.Aecm.FarLine
import WebRtc.RingBuffer.Fifo

/-!
# The AECM core: frames in, blocks through, frames out (`aecm_core.c`)

| here | there |
| --- | --- |
| `AecmCore`      | `AecmCore` (aecm_core.h:63); `blk` is what only the block processor reads and writes |
| `BlockProc`     | `WebRtcAecm_ProcessBlock` / `WebRtcAecm_ProcessBlockwithFloat`: any function of its state and the blocks |
| `Created`       | what `WebRtcAecm_CreateCore` (aecm_core.c:206) allocates |
| `initFields`, `initCore` | `WebRtcAecm_InitCore` (aecm_core.c:383) |
| `blockRound`    | the body of the `while` loop (aecm_core.c:613-686) |
| `processBlocks` | the `while` loop (aecm_core.c:613) |
| `bufferFrames`, `outputFrame` | the parts of `WebRtcAecm_ProcessFrame` before and after the loop |
| `processFrame`  | `WebRtcAecm_ProcessFrame` (aecm_core.c:537) |

`FrameResult` records, besides the return value and the output frame, what the call did to the world
around it: the counts `WebRtc_WriteBuffer` returned (the code drops them), the blocks handed to the
block processor, and whether the output was wound back. The file dumps under `AECM_DUMP_DEBUG` are
not modelled.
-/

namespace WebRtc.Aecm

abbrev Frame (α : Type) := { l : List α // l.length = frameLen }
abbrev Block (α : Type) := { l : List α // l.length = partLen }

/-- The far, noisy and, if there is one, clean block; `none` is the return value -1. -/
abbrev BlockProc (α σ : Type) := σ → List α → List α → Option (List α) → σ × Option (Block α)

structure AecmCore (α σ : Type) where
  farLine : FarLine α
  knownDelay : Int
  mult : Int
  farFrameBuf : RingBuffer α
  nearNoisyFrameBuf : RingBuffer α
  nearCleanFrameBuf : RingBuffer α
  outFrameBuf : RingBuffer α
  blk : σ

/-- One call of the block processor: what it got, what it gave, and how much of that was buffered. -/
structure BlockCall (α : Type) where
  far : List α
  noisy : List α
  clean : Option (List α)
  out : Option (List α)
  written : Nat
deriving DecidableEq, Repr

structure FrameCall (α : Type) where
  farend : Frame α
  nearendNoisy : Frame α
  nearendClean : Option (Frame α)
deriving DecidableEq

structure FrameResult (α : Type) where
  /-- The return value is 0, not -1. -/
  ok : Bool
  out : List α
  /-- Every `WebRtc_WriteBuffer` of the call: the count asked for and the count returned. -/
  writes : List (Nat × Nat)
  blocks : List (BlockCall α)
  stuffed : Bool
deriving DecidableEq, Repr

namespace AecmCore

variable {α σ : Type} [Zero α]

/-- The size of the four buffers, `FRAME_LEN + PART_LEN`. -/
abbrev bufLen : Nat := 336

/-- What every instance has had since its creation, whatever was done with it. -/
structure Created (s : AecmCore α σ) : Prop where
  farBuf : s.farLine.farBuf.length = farBufLen
  far : s.farFrameBuf.elementCount = bufLen
  noisy : s.nearNoisyFrameBuf.elementCount = bufLen
  clean : s.nearCleanFrameBuf.elementCount = bufLen
  out : s.outFrameBuf.elementCount = bufLen

/-- The assignments of `WebRtcAecm_InitCore`; `initBlk` makes those to the block processor's fields.
`farBuf` is not cleared. -/
def initFields (initBlk : Int → σ → σ) (s : AecmCore α σ) (samplingFreq : Int) : AecmCore α σ :=
  { farLine := { s.farLine with farBufWritePos := 0, farBufReadPos := 0, lastKnownDelay := 0 }
    knownDelay := 0
    mult := samplingFreq / 8000
    farFrameBuf := s.farFrameBuf.initBuffer
    nearNoisyFrameBuf := s.nearNoisyFrameBuf.initBuffer
    nearCleanFrameBuf := s.nearCleanFrameBuf.initBuffer
    outFrameBuf := s.outFrameBuf.initBuffer
    blk := initBlk samplingFreq s.blk }

def initCore (initBlk : Int → σ → σ) (s : AecmCore α σ) (samplingFreq : Int) : Option (AecmCore α σ) :=
  if samplingFreq ≠ 8000 ∧ samplingFreq ≠ 16000 then none else some (s.initFields initBlk samplingFreq)

theorem initCore_some {initBlk : Int → σ → σ} {s0 s : AecmCore α σ} {samplingFreq : Int}
    (h : initCore initBlk s0 samplingFreq = some s) : s = s0.initFields initBlk samplingFreq := by
  unfold initCore at h
  split at h
  · cases h
  · exact (Option.some.inj h).symm

variable (proc : BlockProc α σ)

def blockRound (hasClean : Bool) (s : AecmCore α σ) : AecmCore α σ × BlockCall α :=
  let far := s.farFrameBuf.readBuffer true [] partLen
  let noisy := s.nearNoisyFrameBuf.readBuffer true [] partLen
  let clean := s.nearCleanFrameBuf.readBuffer true [] partLen
  let cleanBlock := if hasClean then some clean.2.elements else none
  let r := proc s.blk far.2.elements noisy.2.elements cleanBlock
  let outBlock := r.2.map Subtype.val
  let written := s.outFrameBuf.writeBuffer (outBlock.getD [])
  ({ s with farFrameBuf := far.1
            nearNoisyFrameBuf := noisy.1
            nearCleanFrameBuf := if hasClean then clean.1 else s.nearCleanFrameBuf
            outFrameBuf := if outBlock.isSome then written.1 else s.outFrameBuf
            blk := r.1 },
    { far := far.2.elements, noisy := noisy.2.elements, clean := cleanBlock, out := outBlock,
      written := if outBlock.isSome then written.2 else 0 })

/-- A failing block ends the loop (and the call). -/
def processBlocks (hasClean : Bool) : Nat → AecmCore α σ → AecmCore α σ × List (BlockCall α)
  | 0, s => (s, [])
  | fuel + 1, s =>
    if partLen ≤ s.farFrameBuf.availableRead then
      let r := blockRound proc hasClean s
      if r.2.out.isSome then
        let rest := processBlocks hasClean fuel r.1
        (rest.1, r.2 :: rest.2)
      else (r.1, [r.2])
    else (s, [])

/-- The writes of the loop. -/
def blockWrites (blocks : List (BlockCall α)) : List (Nat × Nat) :=
  blocks.filterMap fun c => c.out.map fun o => (o.length, c.written)

/-- Buffer the synchronized far and near frames (aecm_core.c:589-610): with the writes made. -/
def bufferFrames (s : AecmCore α σ) (c : FrameCall α) : AecmCore α σ × List (Nat × Nat) :=
  -- Buffer the current frame. Fetch an older one corresponding to the delay.
  let fetched := (s.farLine.bufferFarFrame c.farend.1).fetchFarFrame (List.replicate frameLen 0) s.knownDelay
  let far := s.farFrameBuf.writeBuffer fetched.2
  let noisy := s.nearNoisyFrameBuf.writeBuffer c.nearendNoisy.1
  let clean := s.nearCleanFrameBuf.writeBuffer ((c.nearendClean.map Subtype.val).getD [])
  ({ s with farLine := fetched.1
            farFrameBuf := far.1
            nearNoisyFrameBuf := noisy.1
            nearCleanFrameBuf := if c.nearendClean.isSome then clean.1 else s.nearCleanFrameBuf },
    (frameLen, far.2) :: (frameLen, noisy.2) :: if c.nearendClean.isSome then [(frameLen, clean.2)] else [])

/-- Obtain an output frame (aecm_core.c:688-701), and whether the out buffer was stuffed for it. -/
def outputFrame (s : AecmCore α σ) : AecmCore α σ × List α × Bool :=
  let size := s.outFrameBuf.availableRead
  -- Stuff the out buffer if we have less than a frame to output.
  let outBuf := if size < frameLen then (s.outFrameBuf.moveReadPtr (size - frameLen)).1 else s.outFrameBuf
  let out := outBuf.readBuffer true [] frameLen
  ({ s with outFrameBuf := out.1 }, out.2.elements, decide (size < frameLen))

/-- Every round of the loop reads from `farFrameBuf`, so as many rounds as it holds elements are more
than enough. -/
def processFrame (s : AecmCore α σ) (c : FrameCall α) : AecmCore α σ × FrameResult α :=
  let inp := bufferFrames s c
  let loop := processBlocks proc c.nearendClean.isSome inp.1.farFrameBuf.availableRead inp.1
  let writes := inp.2 ++ blockWrites loop.2
  if loop.2.all (·.out.isSome) then
    let out := outputFrame loop.1
    (out.1, { ok := true, out := out.2.1, writes := writes, blocks := loop.2, stuffed := out.2.2 })
  else (loop.1, { ok := false, out := [], writes := writes, blocks := loop.2, stuffed := false })

variable {proc}

omit [Zero α] in
theorem processBlocks_mult (hasClean : Bool) (fuel : Nat) (s : AecmCore α σ) :
    (processBlocks proc hasClean fuel s).1.mult = s.mult := by
  induction fuel generalizing s with
  | zero => rfl
  | succ f ih =>
    simp only [processBlocks]
    split
    · split
      · exact ih _
      · rfl
    · rfl

variable (proc) in
/-- No frame changes the rate. -/
theorem processFrame_mult (s : AecmCore α σ) (c : FrameCall α) : (s.processFrame proc c).1.mult = s.mult := by
  have hb : (bufferFrames s c).1.mult = s.mult := rfl
  have ho (t : AecmCore α σ) : (outputFrame t).1.mult = t.mult := rfl
  simp only [processFrame]
  split
  · rw [ho, processBlocks_mult, hb]
  · rw [processBlocks_mult, hb]

end AecmCore

end WebRtc.Aecm
