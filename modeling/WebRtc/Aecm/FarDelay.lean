import WebRtc.Aecm.FarLine
import WebRtc.Lib.Machine

/-!
# The far-end delay line delays

Sample `j` of the far end stands at place `j` modulo `FAR_BUF_LEN` until `FAR_BUF_LEN` more have been written
(`Holds`). The read position is the known delay behind the write position, again modulo `FAR_BUF_LEN`, whatever the
delays before were: each change of the delay moves it by as much (`fetch_holds`).
-/

namespace WebRtc.Aecm

/-- The frame that comes in, the delay, and what the frame that goes out was before. -/
structure FarInput (α : Type) where
  farend : List α
  knownDelay : Int
  farFrame : List α
deriving DecidableEq, Repr

/-- The frame that goes out, and the copies that were made into and out of the buffer: their places and lengths. There
are none if a loop has not ended. -/
structure FarOutput (α : Type) where
  farFrame : List α
  written : Option (List (Nat × Nat))
  read : Option (List (Nat × Nat))
deriving DecidableEq, Repr

namespace FarLine

variable {α : Type}

/-- The copies of `WebRtcAecm_BufferFarFrame` and of `WebRtcAecm_FetchFarFrame`, from a position on. -/
def copies (farLen : Nat) : Nat → (pos len : Nat) → Option (List (Nat × Nat))
  | 0, _, _ => none
  | fuel + 1, pos, len =>
    if pos + len > farBufLen then
      (copies farLen fuel 0 (farLen - (farBufLen - pos))).map fun rest => (pos, farBufLen - pos) :: rest
    else some [(pos, len)]

/-- What `WebRtcAecm_ProcessFrame` does with the line. -/
def step (s : FarLine α) (i : FarInput α) : FarLine α × FarOutput α :=
  let buffered := s.bufferFarFrame i.farend
  let fetched := buffered.fetchFarFrame i.farFrame i.knownDelay
  let readPos := ((buffered.farBufReadPos - (i.knownDelay - buffered.lastKnownDelay)) % farBufLen).toNat
  (fetched.1, ⟨fetched.2, copies i.farend.length 2 s.farBufWritePos i.farend.length,
    copies i.farFrame.length 2 readPos i.farFrame.length⟩)

/-- After `WebRtcAecm_InitCore`. -/
def init (farBuf : List α) : FarLine α := ⟨farBuf, 0, 0, 0⟩

/-- Both positions are in the buffer or at its end. -/
def InRange (s : FarLine α) : Prop :=
  s.farBufWritePos ≤ farBufLen ∧ 0 ≤ s.farBufReadPos ∧ s.farBufReadPos ≤ farBufLen

/-- The copies stay inside the buffer. -/
def Inside (copies : Option (List (Nat × Nat))) : Prop :=
  ∃ l, copies = some l ∧ ∀ c ∈ l, c.1 + c.2 ≤ farBufLen

theorem copies_inside {farLen pos : Nat} (hfar : farLen ≤ farBufLen) (hpos : pos ≤ farBufLen) :
    Inside (copies farLen 2 pos farLen) := by
  unfold Inside copies
  split
  · have hrest : copies farLen 1 0 (farLen - (farBufLen - pos)) = some [(0, farLen - (farBufLen - pos))] := by
      rw [copies, if_neg (by omega)]
    refine ⟨_, by rw [hrest]; rfl, ?_⟩
    simp
    omega
  · refine ⟨_, rfl, ?_⟩
    simp
    omega

/-! ## The samples in the buffer -/

/-- The line when `far` has been written and `delay` was the last known one. -/
structure Holds (s : FarLine α) (far : List α) (delay : Int) : Prop where
  length_farBuf : s.farBuf.length = farBufLen
  writePos_le : s.farBufWritePos ≤ farBufLen
  writePos_mod : s.farBufWritePos % farBufLen = far.length % farBufLen
  samples : ∀ j < far.length, far.length ≤ j + farBufLen → s.farBuf[j % farBufLen]? = far[j]?
  readPos_nonneg : 0 ≤ s.farBufReadPos
  readPos_le : s.farBufReadPos ≤ farBufLen
  lastKnownDelay_eq : s.lastKnownDelay = delay

/-- A copy puts the samples where they belong. -/
theorem memcpy_place {buf frame : List α} {w i : Nat} (hfit : w + frame.length ≤ buf.length) :
    (memcpy buf w frame)[i]? = if w ≤ i ∧ i < w + frame.length then frame[i - w]? else buf[i]? :=
  RingBuffer.memcpy_getElem? hfit i

/-- **A frame is buffered.** -/
theorem buffer_holds {s : FarLine α} {far : List α} {delay : Int} (h : s.Holds far delay) (farend : List α)
    (hlen : farend.length ≤ farBufLen) : (s.bufferFarFrame farend).Holds (far ++ farend) delay ∧
      (s.bufferFarFrame farend).farBufReadPos = s.farBufReadPos := by
  obtain ⟨hbuf, hle, hmod, hsamples, hread0, hread1, hdelay⟩ := h
  unfold farBufLen at *
  rw [bufferFarFrame_eq hle hlen]
  by_cases hfit : s.farBufWritePos + farend.length ≤ farBufLen
  · rw [if_pos hfit]
    unfold farBufLen at hfit
    have hfitBuf : s.farBufWritePos + farend.length ≤ s.farBuf.length := by omega
    refine ⟨⟨?_, ?_, ?_, fun j hj hnear => ?_, hread0, hread1, hdelay⟩, rfl⟩
    · rw [RingBuffer.memcpy_length hfitBuf]
      exact hbuf
    · exact hfit
    · show (s.farBufWritePos + farend.length) % 1024 = (far ++ farend).length % 1024
      rw [List.length_append]
      omega
    · unfold farBufLen at hnear ⊢
      rw [List.length_append] at hj hnear
      show (memcpy s.farBuf s.farBufWritePos farend)[j % 1024]? = _
      rw [memcpy_place hfitBuf, List.getElem?_append]
      by_cases hnew : j < far.length
      · rw [if_pos hnew, if_neg (by omega)]
        exact hsamples j hnew (by omega)
      · by_cases hempty : farend.length = 0
        · omega
        · rw [if_neg hnew, if_pos (by omega)]
          congr 1
          omega
  · rw [if_neg hfit]
    unfold farBufLen at hfit
    have htake : (farend.take (1024 - s.farBufWritePos)).length = 1024 - s.farBufWritePos := by simp; omega
    have hdrop : (farend.drop (1024 - s.farBufWritePos)).length = farend.length - (1024 - s.farBufWritePos) := by simp
    have hfirst : (memcpy s.farBuf s.farBufWritePos (farend.take (1024 - s.farBufWritePos))).length = 1024 := by
      rw [RingBuffer.memcpy_length (by omega), hbuf]
    have hsecond : 0 + (farend.drop (1024 - s.farBufWritePos)).length ≤
        (memcpy s.farBuf s.farBufWritePos (farend.take (1024 - s.farBufWritePos))).length := by omega
    refine ⟨⟨?_, ?_, ?_, fun j hj hnear => ?_, hread0, hread1, hdelay⟩, rfl⟩
    · exact (RingBuffer.memcpy_length hsecond).trans hfirst
    · show farend.length - (1024 - s.farBufWritePos) ≤ 1024
      omega
    · show (farend.length - (1024 - s.farBufWritePos)) % 1024 = (far ++ farend).length % 1024
      rw [List.length_append]
      omega
    · unfold farBufLen at hnear ⊢
      rw [List.length_append] at hj hnear
      show (memcpy (memcpy s.farBuf s.farBufWritePos (farend.take (1024 - s.farBufWritePos))) 0
        (farend.drop (1024 - s.farBufWritePos)))[j % 1024]? = _
      rw [memcpy_place hsecond, memcpy_place (by omega), htake, hdrop, List.getElem?_append]
      by_cases hold : j < far.length
      · rw [if_pos hold, if_neg (by omega), if_neg (by omega)]
        exact hsamples j hold (by omega)
      · rw [if_neg hold]
        by_cases hwrapped : 0 ≤ j % 1024 ∧ j % 1024 < 0 + (farend.length - (1024 - s.farBufWritePos))
        · rw [if_pos hwrapped, List.getElem?_drop]
          congr 1
          omega
        · rw [if_neg hwrapped, if_pos (by omega), List.getElem?_take_of_lt (by omega)]
          congr 1
          omega

/-- The samples from a place on, around the end of the buffer. -/
theorem fetch_getElem? {buf : List α} (hbuf : buf.length = farBufLen) {p n i : Nat} (hp : p < farBufLen)
    (hn : n ≤ farBufLen) (hi : i < n) :
    (if p + n ≤ farBufLen then (buf.drop p).take n else buf.drop p ++ buf.take (n - (farBufLen - p)))[i]? =
      buf[(p + i) % farBufLen]? := by
  unfold farBufLen at *
  split
  · rw [List.getElem?_take_of_lt hi, List.getElem?_drop]
    congr 1
    omega
  · rw [List.getElem?_append, List.length_drop]
    split
    · rw [List.getElem?_drop]
      congr 1
      omega
    · rw [List.getElem?_take_of_lt (by omega)]
      congr 1
      omega

/-- **A frame is fetched**: it is the frame written last, moved back by the delay. -/
theorem fetch_holds {s : FarLine α} {far : List α} {n : Nat} {delay : Int} (knownDelay : Int) {farFrame : List α}
    (h : s.Holds far delay) (hn : farFrame.length = n) (hfar : n ≤ far.length) (hle : n ≤ farBufLen)
    (hread : (s.farBufReadPos - (far.length - n - delay)) % (farBufLen : Int) = 0) :
    (s.fetchFarFrame farFrame knownDelay).1.Holds far knownDelay ∧
      ((s.fetchFarFrame farFrame knownDelay).1.farBufReadPos - (far.length - knownDelay)) % (farBufLen : Int) = 0 ∧
      (0 ≤ knownDelay → knownDelay ≤ farBufLen - n → knownDelay + n ≤ far.length →
        (s.fetchFarFrame farFrame knownDelay).2 = (far.drop (far.length - n - knownDelay.toNat)).take n) := by
  obtain ⟨hbuf, hw, hmod, hsamples, hread0, hread1, hlast⟩ := h
  obtain ⟨buf, wp, rp, lkd⟩ := s
  dsimp only at hbuf hw hmod hsamples hread0 hread1 hlast hread
  subst hlast
  subst hn
  obtain ⟨p, hp⟩ : ∃ p : Nat, (rp - (knownDelay - lkd)) % (farBufLen : Int) = p := by
    refine ⟨((rp - (knownDelay - lkd)) % (farBufLen : Int)).toNat, ?_⟩
    unfold farBufLen
    omega
  have hplt : p < farBufLen := by unfold farBufLen at hp ⊢; omega
  have hplace : (p : Int) = (far.length - farFrame.length - knownDelay) % 1024 := by
    unfold farBufLen at hp hread
    omega
  have heq := @fetchFarFrame_eq α buf wp rp lkd farFrame knownDelay p hbuf hle hp
  have hfetched : (fetchFarFrame ⟨buf, wp, rp, lkd⟩ farFrame knownDelay).2 =
      if p + farFrame.length ≤ farBufLen then (buf.drop p).take farFrame.length
      else buf.drop p ++ buf.take (farFrame.length - (farBufLen - p)) := by
    rw [heq]
    split <;> rfl
  have hline : ∃ q : Nat,
      (fetchFarFrame ⟨buf, wp, rp, lkd⟩ farFrame knownDelay).1 = ⟨buf, wp, (q : Int), knownDelay⟩ ∧ q ≤ farBufLen ∧
        ((q : Int) - (p + farFrame.length)) % 1024 = 0 := by
    rw [heq]
    unfold farBufLen at *
    split
    · exact ⟨p + farFrame.length, by simp, by omega, by omega⟩
    · exact ⟨farFrame.length - (1024 - p), rfl, by omega, by omega⟩
  obtain ⟨q, hq, hqle, hqmod⟩ := hline
  refine ⟨?_, ?_, fun h0 h1 h2 => ?_⟩
  · rw [hq]
    exact ⟨hbuf, hw, hmod, hsamples, by simp, Int.ofNat_le.2 hqle, rfl⟩
  · rw [hq]
    unfold farBufLen
    dsimp only
    omega
  · rw [hfetched]
    unfold farBufLen at h1
    have hlength : (if p + farFrame.length ≤ farBufLen then (buf.drop p).take farFrame.length
        else buf.drop p ++ buf.take (farFrame.length - (farBufLen - p))).length = farFrame.length := by
      unfold farBufLen at *
      split <;> simp <;> omega
    apply List.ext_getElem?
    intro i
    by_cases hi : i < farFrame.length
    · rw [fetch_getElem? hbuf hplt hle hi, List.getElem?_take_of_lt hi, List.getElem?_drop,
        ← hsamples _ (by omega) (by unfold farBufLen; omega)]
      congr 1
      unfold farBufLen
      omega
    · rw [List.getElem?_eq_none (by omega), List.getElem?_eq_none (by simp; omega)]

/-! ## Runs -/

/-- Frames of `FRAME_LEN` samples. -/
def Framed (i : FarInput α) : Prop := i.farend.length = frameLen ∧ i.farFrame.length = frameLen

/-- What is said of the frame that is fetched when `far` has been written, the last frame included. -/
def Delayed (far : List α) (knownDelay : Int) (farFrame : List α) : Prop :=
  0 ≤ knownDelay → knownDelay ≤ farBufLen - frameLen → knownDelay + frameLen ≤ far.length →
    farFrame = (far.drop (far.length - frameLen - knownDelay.toNat)).take frameLen

/-- The line between two frames. -/
def Ready (s : FarLine α) (far : List α) : Prop :=
  ∃ delay, s.Holds far delay ∧ (s.farBufReadPos - (far.length - delay)) % (farBufLen : Int) = 0

theorem Ready.inRange {s : FarLine α} {far : List α} (h : s.Ready far) : s.InRange := by
  obtain ⟨delay, hholds, -⟩ := h
  exact ⟨hholds.writePos_le, hholds.readPos_nonneg, hholds.readPos_le⟩

/-- **One frame.** -/
theorem step_ready {s : FarLine α} {far : List α} (h : s.Ready far) {i : FarInput α} (hi : Framed i) :
    (s.step i).1.Ready (far ++ i.farend) ∧ Inside (s.step i).2.written ∧ Inside (s.step i).2.read ∧
      Delayed (far ++ i.farend) i.knownDelay (s.step i).2.farFrame := by
  obtain ⟨delay, hholds, hread⟩ := h
  obtain ⟨hfarend, hfarFrame⟩ := hi
  have hlen : frameLen ≤ farBufLen := by decide
  obtain ⟨hbuffered, hsame⟩ := buffer_holds hholds i.farend (by omega)
  have hlast : (s.bufferFarFrame i.farend).lastKnownDelay = delay := hbuffered.lastKnownDelay_eq
  have hplace : ((s.bufferFarFrame i.farend).farBufReadPos - ((far ++ i.farend).length - frameLen - delay)) %
      (farBufLen : Int) = 0 := by
    rw [hsame, List.length_append, hfarend]
    unfold farBufLen frameLen at *
    omega
  obtain ⟨hnext, hnextRead, hdelayed⟩ := fetch_holds i.knownDelay hbuffered hfarFrame
    (by rw [List.length_append]; omega) hlen hplace
  refine ⟨⟨i.knownDelay, hnext, hnextRead⟩, copies_inside (by omega) hholds.writePos_le,
    copies_inside (by omega) ?_, hdelayed⟩
  unfold farBufLen
  omega

/-- **A run.** -/
theorem run_ready {s : FarLine α} {far : List α} (h : s.Ready far) {inputs : List (FarInput α)}
    (hinputs : ∀ i ∈ inputs, Framed i) : Machine.Always step InRange s inputs ∧
      ∀ k i, inputs[k]? = some i → ∃ out, (Machine.trace step s inputs)[k]? = some out ∧
        Inside out.written ∧ Inside out.read ∧
        Delayed (far ++ (inputs.take (k + 1)).flatMap FarInput.farend) i.knownDelay out.farFrame := by
  induction inputs generalizing s far with
  | nil => exact ⟨h.inRange, fun k i hk => by simp at hk⟩
  | cons first rest ih =>
    obtain ⟨hnext, hwritten, hread, hdelayed⟩ := step_ready h (hinputs first List.mem_cons_self)
    obtain ⟨halways, hlater⟩ := ih hnext fun i hi => hinputs i (List.mem_cons_of_mem first hi)
    refine ⟨⟨h.inRange, halways⟩, fun k i hk => ?_⟩
    cases k with
    | zero =>
      obtain rfl : first = i := by simpa using hk
      exact ⟨_, rfl, hwritten, hread, by simpa using hdelayed⟩
    | succ k =>
      obtain ⟨out, hout, hspec⟩ := hlater k i (by simpa using hk)
      rw [List.append_assoc] at hspec
      exact ⟨out, hout, hspec⟩

theorem init_ready {farBuf : List α} (hbuf : farBuf.length = farBufLen) : (init farBuf).Ready [] :=
  ⟨0, ⟨hbuf, Nat.zero_le _, rfl, fun j hj => by simp at hj, Int.le_refl 0, by simp [init], rfl⟩, by simp [init]⟩

/-- **The delay line delays by exactly the known delay**, in every run, whatever the delays before were. -/
theorem farLine_delays (farBuf : List α) (hbuf : farBuf.length = farBufLen) (inputs : List (FarInput α))
    (hinputs : ∀ i ∈ inputs, Framed i) :
    Machine.Always step InRange (init farBuf) inputs ∧
    ∀ k i, inputs[k]? = some i → ∃ out, (Machine.trace step (init farBuf) inputs)[k]? = some out ∧
      Inside out.written ∧ Inside out.read ∧
      Delayed ((inputs.take (k + 1)).flatMap FarInput.farend) i.knownDelay out.farFrame :=
  run_ready (init_ready hbuf) hinputs

/-- Two frames, the second one fetched with a delay of half a frame. -/
theorem farLine_delays_two : ∃ out, (Machine.trace step (init (List.replicate 1024 (0 : Int)))
    [⟨List.replicate 80 1, 0, List.replicate 80 0⟩, ⟨List.replicate 80 2, 40, List.replicate 80 0⟩])[1]? =
      some out ∧ out.farFrame = List.replicate 40 1 ++ List.replicate 40 2 := by
  have hframed : ∀ (x : Int) d, Framed ⟨List.replicate 80 x, d, List.replicate 80 0⟩ :=
    fun x d => ⟨List.length_replicate, List.length_replicate⟩
  have hrun := farLine_delays (List.replicate 1024 (0 : Int)) List.length_replicate
    [⟨List.replicate 80 1, 0, List.replicate 80 0⟩, ⟨List.replicate 80 2, 40, List.replicate 80 0⟩]
    (List.forall_mem_cons.2 ⟨hframed 1 0, List.forall_mem_cons.2 ⟨hframed 2 40, List.forall_mem_nil _⟩⟩)
  obtain ⟨out, hout, -, -, hdelayed⟩ := hrun.2 1 _ rfl
  refine ⟨out, hout, ?_⟩
  have hfar : (List.take (1 + 1) [(⟨List.replicate 80 1, 0, List.replicate 80 0⟩ : FarInput Int),
      ⟨List.replicate 80 2, 40, List.replicate 80 0⟩]).flatMap FarInput.farend =
        List.replicate 80 1 ++ List.replicate 80 2 := rfl
  rw [hfar] at hdelayed
  rw [hdelayed (by decide) (by decide) (by simp [-List.reduceReplicate])]
  simp [-List.reduceReplicate, frameLen, List.drop_append, List.take_append]

end FarLine

end WebRtc.Aecm
