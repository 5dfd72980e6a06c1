import WebRtc.RingBuffer.Spec

/-!
# The AECM far-end delay line (`aecm_core.c:1243-1305`)

| here | there |
| --- | --- |
| `frameLen`, `partLen`, `farBufLen` | `FRAME_LEN`, `PART_LEN`, `FAR_BUF_LEN` (aecm_defines.h:17-25) |
| `FarLine`           | the fields `farBuf`, `farBufWritePos`, `farBufReadPos`, `lastKnownDelay` of `AecmCore` (aecm_core.h:63) |
| `bufferFarFrame`    | `WebRtcAecm_BufferFarFrame` (aecm_core.c:1243) |
| `fetchFarFrame`     | `WebRtcAecm_FetchFarFrame` (aecm_core.c:1265) |

Every frame is written at the write position and read back at the read position, which trails it by
the known delay. With no delay what is fetched is the frame just buffered (`fetch_buffer`).
-/

namespace WebRtc.Aecm

abbrev frameLen : Nat := 80
abbrev partLen : Nat := 256
abbrev farBufLen : Nat := 1024

structure FarLine (α : Type) where
  farBuf : List α
  farBufWritePos : Nat
  farBufReadPos : Int
  lastKnownDelay : Int
deriving DecidableEq, Repr

namespace FarLine

variable {α : Type}

/-- The `while` loop of `WebRtcAecm_BufferFarFrame`: `writeLen` samples are left, from `writePos` on.
Two rounds of fuel are one more than a frame that fits the buffer can need (`bufferLoop_done`). -/
def bufferLoop (farend : List α) : Nat → FarLine α → (writeLen writePos : Nat) → FarLine α × Nat × Nat
  | 0, s, writeLen, writePos => (s, writeLen, writePos)
  | fuel + 1, s, writeLen, writePos =>
    if s.farBufWritePos + writeLen > farBufLen then
      -- Write to remaining buffer space before wrapping
      let n := farBufLen - s.farBufWritePos
      bufferLoop farend fuel
        { s with farBuf := memcpy s.farBuf s.farBufWritePos ((farend.drop writePos).take n), farBufWritePos := 0 }
        (farend.length - n) n
    else (s, writeLen, writePos)

def bufferFarFrame (s : FarLine α) (farend : List α) : FarLine α :=
  let r := bufferLoop farend 2 s farend.length 0
  { r.1 with farBuf := memcpy r.1.farBuf r.1.farBufWritePos ((farend.drop r.2.2).take r.2.1)
             farBufWritePos := r.1.farBufWritePos + r.2.1 }

/-- The read loop of `WebRtcAecm_FetchFarFrame`, which fills `farend` from `readPos` on. -/
def fetchLoop (farLen : Nat) :
    Nat → FarLine α → List α → (readLen readPos : Nat) → FarLine α × List α × Nat × Nat
  | 0, s, farend, readLen, readPos => (s, farend, readLen, readPos)
  | fuel + 1, s, farend, readLen, readPos =>
    if s.farBufReadPos + readLen > farBufLen then
      -- Read from remaining buffer space before wrapping
      let n := farBufLen - s.farBufReadPos.toNat
      fetchLoop farLen fuel { s with farBufReadPos := 0 }
        (memcpy farend readPos ((s.farBuf.drop s.farBufReadPos.toNat).take n)) (farLen - n) n
    else (s, farend, readLen, readPos)

/-- The two loops that bring the read position back into the buffer add or subtract `FAR_BUF_LEN`
until it is, which is the remainder. -/
def fetchFarFrame (s : FarLine α) (farend : List α) (knownDelay : Int) : FarLine α × List α :=
  let delayChange := knownDelay - s.lastKnownDelay
  let s := { s with farBufReadPos := (s.farBufReadPos - delayChange) % farBufLen
                    lastKnownDelay := knownDelay }
  let r := fetchLoop farend.length 2 s farend farend.length 0
  ({ r.1 with farBufReadPos := r.1.farBufReadPos + r.2.2.1 },
    memcpy r.2.1 r.2.2.2 ((r.1.farBuf.drop r.1.farBufReadPos.toNat).take r.2.2.1))

/-! ## One wrap at most -/

theorem bufferLoop_done {s : FarLine α} {farend : List α} {n : Nat} (fuel m : Nat)
    (h : s.farBufWritePos + n ≤ farBufLen) : bufferLoop farend fuel s n m = (s, n, m) := by
  cases fuel with
  | zero => rfl
  | succ f => simp only [bufferLoop]; rw [if_neg (by omega)]

theorem bufferFarFrame_eq {s : FarLine α} {farend : List α} (hw : s.farBufWritePos ≤ farBufLen)
    (hl : farend.length ≤ farBufLen) :
    s.bufferFarFrame farend =
      if s.farBufWritePos + farend.length ≤ farBufLen then
        { s with farBuf := memcpy s.farBuf s.farBufWritePos farend
                 farBufWritePos := s.farBufWritePos + farend.length }
      else
        { s with
          farBuf := memcpy (memcpy s.farBuf s.farBufWritePos (farend.take (farBufLen - s.farBufWritePos))) 0
            (farend.drop (farBufLen - s.farBufWritePos))
          farBufWritePos := farend.length - (farBufLen - s.farBufWritePos) } := by
  by_cases h : s.farBufWritePos + farend.length ≤ farBufLen
  · simp only [bufferFarFrame, bufferLoop_done 2 0 h, List.drop_zero, List.take_length, h, if_true]
  · have hround : bufferLoop farend 2 s farend.length 0 =
        ({ s with farBuf := memcpy s.farBuf s.farBufWritePos (farend.take (farBufLen - s.farBufWritePos))
                  farBufWritePos := 0 },
          farend.length - (farBufLen - s.farBufWritePos), farBufLen - s.farBufWritePos) := by
      simp only [bufferLoop]
      rw [if_pos (by omega), if_neg (by omega), List.drop_zero]
    have htake : (farend.drop (farBufLen - s.farBufWritePos)).take
        (farend.length - (farBufLen - s.farBufWritePos)) = farend.drop (farBufLen - s.farBufWritePos) :=
      List.take_of_length_le (by simp)
    simp only [bufferFarFrame, hround, htake, h, if_false, Nat.zero_add]

theorem fetchLoop_done {s : FarLine α} {farend : List α} {farLen n : Nat} (fuel m : Nat)
    (h : s.farBufReadPos + n ≤ farBufLen) : fetchLoop farLen fuel s farend n m = (s, farend, n, m) := by
  cases fuel with
  | zero => rfl
  | succ f => simp only [fetchLoop]; rw [if_neg (by omega)]

theorem memcpy_append (a x b : List α) : memcpy (a ++ x) a.length b = a ++ b ++ x.drop b.length := by
  rw [memcpy, List.take_left, List.drop_append]
  simp

/-- `p` is where the read position comes to rest before the copy. -/
theorem fetchFarFrame_eq {buf : List α} {wp : Nat} {rp lkd : Int} {farend : List α} {knownDelay : Int} {p : Nat}
    (hb : buf.length = farBufLen) (hl : farend.length ≤ farBufLen)
    (hp : (rp - (knownDelay - lkd)) % farBufLen = p) :
    fetchFarFrame ⟨buf, wp, rp, lkd⟩ farend knownDelay =
      if p + farend.length ≤ farBufLen then
        (⟨buf, wp, p + farend.length, knownDelay⟩,
          (buf.drop p).take farend.length)
      else
        (⟨buf, wp, (farend.length - (farBufLen - p) : Nat), knownDelay⟩,
          buf.drop p ++ buf.take (farend.length - (farBufLen - p))) := by
  have hp' : p < farBufLen := by unfold farBufLen at hp ⊢; omega
  by_cases h : p + farend.length ≤ farBufLen
  · have hlen : ((buf.drop p).take farend.length).length = farend.length := by
      simp only [List.length_take, List.length_drop]; omega
    simp only [fetchFarFrame, hp, h, if_true]
    rw [fetchLoop_done 2 0 (by simp only; omega)]
    simp only [Int.toNat_natCast, RingBuffer.memcpy_zero, hlen, List.drop_length, List.append_nil]
  · have hround : fetchLoop farend.length 2 ⟨buf, wp, (p : Int), knownDelay⟩
        farend farend.length 0 =
        (⟨buf, wp, 0, knownDelay⟩,
          memcpy farend 0 ((buf.drop p).take (farBufLen - p)), farend.length - (farBufLen - p),
          farBufLen - p) := by
      simp only [fetchLoop]
      rw [if_pos (by omega), if_neg (by omega), Int.toNat_natCast]
    have hd : (buf.drop p).take (farBufLen - p) = buf.drop p :=
      List.take_of_length_le (by simp only [List.length_drop]; omega)
    have hdl : (buf.drop p).length = farBufLen - p := by simp only [List.length_drop]; omega
    have htl : (buf.take (farend.length - (farBufLen - p))).length = farend.length - (farBufLen - p) := by
      simp only [List.length_take]; omega
    have hout : memcpy (buf.drop p ++ farend.drop (farBufLen - p)) (farBufLen - p)
        (buf.take (farend.length - (farBufLen - p))) =
        buf.drop p ++ buf.take (farend.length - (farBufLen - p)) := by
      have hnil : (farend.drop (farBufLen - p)).drop (farend.length - (farBufLen - p)) = [] :=
        List.drop_eq_nil_of_le (by simp only [List.length_drop]; omega)
      rw [← hdl, memcpy_append, hdl, htl, hnil, List.append_nil]
    simp only [fetchFarFrame, hp, h, if_false, hround, hd, RingBuffer.memcpy_zero, Int.toNat_zero,
      List.drop_zero, Int.zero_add, hdl, hout]

/-- The line between two frames when there is no delay: both positions are together. -/
structure InStep (s : FarLine α) : Prop where
  length_farBuf : s.farBuf.length = farBufLen
  writePos_le : s.farBufWritePos ≤ farBufLen
  readPos_eq : s.farBufReadPos = s.farBufWritePos
  noDelay : s.lastKnownDelay = 0

theorem InStep.readPos {s : FarLine α} (h : s.InStep) {w : Nat} (hw : s.farBufWritePos % farBufLen = w) :
    (s.farBufReadPos - (0 - s.lastKnownDelay)) % (farBufLen : Int) = w := by
  have hr := h.readPos_eq
  have hd := h.noDelay
  unfold farBufLen at *
  omega

/-- A frame copied to a buffer at `w` and, past its end, to its start, read back the same way. -/
theorem read_back_wrapped (buf frame : List α) (w : Nat) (hw : w ≤ buf.length) (hl : frame.length ≤ buf.length)
    (hwrap : buf.length ≤ w + frame.length) :
    (memcpy (memcpy buf w (frame.take (buf.length - w))) 0 (frame.drop (buf.length - w))).drop w ++
      (memcpy (memcpy buf w (frame.take (buf.length - w))) 0 (frame.drop (buf.length - w))).take
        (frame.length - (buf.length - w)) = frame := by
  have htl : (frame.take (buf.length - w)).length = buf.length - w := by
    simp only [List.length_take]; omega
  have hwl : (buf.take w).length = w := by simp only [List.length_take]; omega
  have hdl : (frame.drop (buf.length - w)).length = frame.length - (buf.length - w) := List.length_drop ..
  have hfirst : memcpy buf w (frame.take (buf.length - w)) = buf.take w ++ frame.take (buf.length - w) := by
    rw [memcpy, List.drop_eq_nil_of_le (by omega), List.append_nil]
  rw [hfirst, RingBuffer.memcpy_zero, hdl, ← hdl, List.take_left, hdl]
  have hcut : (frame.drop (buf.length - w) ++
      (buf.take w ++ frame.take (buf.length - w)).drop (frame.length - (buf.length - w))).drop w =
      frame.take (buf.length - w) := by
    rw [List.drop_append, List.drop_eq_nil_of_le (by omega), List.nil_append, hdl, List.drop_drop,
      List.drop_append, List.drop_eq_nil_of_le (by omega), List.nil_append, hwl]
    have hz : frame.length - (buf.length - w) + (w - (frame.length - (buf.length - w))) - w = 0 := by omega
    rw [hz, List.drop_zero]
  rw [hcut, List.take_append_drop]

/-- **With no delay, a frame is fetched as it was buffered.** -/
theorem fetch_buffer {s : FarLine α} (h : s.InStep) (frame out : List α) (hf : 0 < frame.length)
    (hl : frame.length < farBufLen) (ho : out.length = frame.length) :
    ((s.bufferFarFrame frame).fetchFarFrame out 0).2 = frame ∧
    ((s.bufferFarFrame frame).fetchFarFrame out 0).1.InStep := by
  have hb := h.length_farBuf
  have hw := h.writePos_le
  rw [bufferFarFrame_eq hw (by omega)]
  by_cases hfit : s.farBufWritePos + frame.length ≤ farBufLen
  · simp only [hfit, if_true]
    have hlen : (memcpy s.farBuf s.farBufWritePos frame).length = farBufLen := by
      rw [RingBuffer.memcpy_length (by omega), hb]
    rw [fetchFarFrame_eq hlen (by omega) (h.readPos (Nat.mod_eq_of_lt (by omega))), ho]
    simp only [hfit, if_true]
    have htk : (s.farBuf.take s.farBufWritePos).length = s.farBufWritePos := by
      simp only [List.length_take]; omega
    refine ⟨?_, hlen, by simp only; omega, by simp, rfl⟩
    rw [memcpy, List.append_assoc, List.drop_append_of_le_length (by omega),
      List.drop_eq_nil_of_le (by omega), List.nil_append, List.take_left]
  · simp only [hfit, if_false]
    have hlen1 : (memcpy s.farBuf s.farBufWritePos (frame.take (farBufLen - s.farBufWritePos))).length =
        farBufLen := by
      rw [RingBuffer.memcpy_length (by simp only [List.length_take]; omega), hb]
    have hlen2 : (memcpy (memcpy s.farBuf s.farBufWritePos (frame.take (farBufLen - s.farBufWritePos))) 0
        (frame.drop (farBufLen - s.farBufWritePos))).length = farBufLen := by
      rw [RingBuffer.memcpy_length (by simp only [List.length_drop]; omega), hlen1]
    by_cases hend : s.farBufWritePos = farBufLen
    · -- the frame starts at the wrap
      rw [fetchFarFrame_eq hlen2 (by omega) (h.readPos (w := 0) (by rw [hend, Nat.mod_self])), ho]
      rw [if_pos (by omega)]
      refine ⟨?_, hlen2, ?_, ?_, rfl⟩
      · simp only [hend, Nat.sub_self, List.drop_zero, RingBuffer.memcpy_zero, List.take_left]
      · simp only; omega
      · simp only; omega
    · rw [fetchFarFrame_eq hlen2 (by omega) (h.readPos (Nat.mod_eq_of_lt (by omega))), ho]
      rw [if_neg hfit]
      refine ⟨?_, hlen2, by simp only; omega, by simp, rfl⟩
      have hback := read_back_wrapped s.farBuf frame s.farBufWritePos
        (by omega) (by omega) (by omega)
      rw [hb] at hback
      exact hback

end FarLine

end WebRtc.Aecm
