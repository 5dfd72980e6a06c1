import Mathlib.Tactic.Linarith
import WebRtc.Lib.Machine
import WebRtc.RingBuffer.Spec

/-!
# The ring buffer refines a stream with a write and a read index

The abstract machine keeps everything ever written. `Stream.W` is the write index, `Stream.R` the
read index; the stream is zero before its start. The read index may fall back behind data that was
already read, down to `W - n`, which is why the buffer must never lose one of the last `n` elements.

The invariant that ties the two together (`Refines`): the number of elements held is `W - R`, the
write position is congruent to `W` modulo `n`, and cell `p` holds the element of the window
`[W - n, W)` whose index is congruent to `p`.
-/

namespace WebRtc

open CInt

/-! ## The abstract machine -/

/-- Everything written since the last initialisation, and the read index. -/
structure Stream (α : Type) where
  hist : List α
  R : Int
deriving DecidableEq, Repr

namespace Stream

variable {α : Type} [Zero α]

def empty : Stream α := ⟨[], 0⟩

/-- The write index. -/
def W (s : Stream α) : Int := s.hist.length

/-- Element `i` of the zero-extended stream. -/
def val (s : Stream α) (i : Int) : α := if 0 ≤ i then s.hist.getD i.toNat 0 else 0

/-- The elements `i, i + 1, …, i + k - 1`. -/
def slice (s : Stream α) (i : Int) (k : Nat) : List α := (List.range k).map fun j : Nat => s.val (i + j)

/-- Append as many elements as there is room for. -/
def write (n : Nat) (s : Stream α) (xs : List α) : Stream α × Nat :=
  let k := min xs.length (n - (s.W - s.R)).toNat
  ({ s with hist := s.hist ++ xs.take k }, k)

/-- Hand out the next elements and advance. -/
def read (s : Stream α) (count : Nat) : Stream α × List α :=
  let k := min count (s.W - s.R).toNat
  ({ s with R := s.R + k }, s.slice s.R k)

/-- Move the read index within `[W - n, W]`. -/
def move (n : Nat) (s : Stream α) (m : Int) : Stream α × Int :=
  let d := max (-(n - (s.W - s.R))) (min m (s.W - s.R))
  ({ s with R := s.R + d }, d)

/-- The read index is in the window the buffer can hold. -/
def InWindow (n : Nat) (s : Stream α) : Prop := s.W - n ≤ s.R ∧ s.R ≤ s.W

end Stream

/-! ## The operations as one alphabet -/

inductive RingOp (α : Type)
  | init
  | write (data : List α)
  | read (hasDataPtr : Bool) (data : List α) (count : Nat)
  | move (m : Int)

inductive RingRet (α : Type)
  | unit
  | wrote (count : Nat)
  | read (count : Nat) (elements : List α)
  | moved (count : Int)

/-- A call's return value, and what `availableRead` and `availableWrite` return after it. -/
abbrev RingObs (α : Type) := RingRet α × Nat × Nat

variable {α : Type} [Zero α]

def RingBuffer.step (b : RingBuffer α) : RingOp α → RingBuffer α × RingObs α
  | .init => (b.initBuffer, .unit, b.initBuffer.availableRead, b.initBuffer.availableWrite)
  | .write xs =>
    ((b.writeBuffer xs).1, .wrote (b.writeBuffer xs).2, (b.writeBuffer xs).1.availableRead,
      (b.writeBuffer xs).1.availableWrite)
  | .read hasDataPtr data count =>
    ((b.readBuffer hasDataPtr data count).1,
      .read (b.readBuffer hasDataPtr data count).2.readCount
        (b.readBuffer hasDataPtr data count).2.elements,
      (b.readBuffer hasDataPtr data count).1.availableRead,
      (b.readBuffer hasDataPtr data count).1.availableWrite)
  | .move m =>
    ((b.moveReadPtr m).1, .moved (b.moveReadPtr m).2, (b.moveReadPtr m).1.availableRead,
      (b.moveReadPtr m).1.availableWrite)

def Stream.obs (n : Nat) (s : Stream α) (r : RingRet α) : Stream α × RingObs α :=
  (s, r, (s.W - s.R).toNat, (n - (s.W - s.R)).toNat)

def Stream.step (n : Nat) (s : Stream α) : RingOp α → Stream α × RingObs α
  | .init => Stream.empty.obs n .unit
  | .write xs => (s.write n xs).1.obs n (.wrote (s.write n xs).2)
  | .read _ _ count => (s.read count).1.obs n (.read (s.read count).2.length (s.read count).2)
  | .move m => (s.move n m).1.obs n (.moved (s.move n m).2)

/-- No `size_t` subtraction of the code wraps from this state. The remaining ones
(`read_elements - margin`, `n -= margin`, `write_elements - n`) stand under the test that makes
them safe. -/
structure RingBuffer.NoUnderflow (b : RingBuffer α) : Prop where
  /-- `write_pos - read_pos` (ring_buffer.c:235) -/
  read_same : b.rwWrap = .sameWrap → b.readPos ≤ b.writePos
  /-- `element_count - read_pos` (ring_buffer.c:49, :237) -/
  read_margin : b.readPos ≤ b.elementCount
  /-- `element_count - write_pos` (ring_buffer.c:174) -/
  write_margin : b.writePos ≤ b.elementCount
  /-- `element_count - WebRtc_available_read` (ring_buffer.c:246) -/
  write_room : b.availableRead ≤ b.elementCount

/-! ## Indices modulo the size -/

/-- Two indices of one window that name the same cell are equal. -/
theorem eq_of_congr_window {i j n k : Int} (hk : i = j + k * n) (h1 : i - j < n) (h2 : j - i < n) : i = j := by
  rcases lt_trichotomy k 0 with h | h | h
  · nlinarith
  · subst h; omega
  · nlinarith

theorem Stream.val_append (s : Stream α) (xs : List α) (i : Int) (h : i < s.W) :
    ({ s with hist := s.hist ++ xs } : Stream α).val i = s.val i := by
  unfold Stream.val
  by_cases h0 : 0 ≤ i
  · have hi : i.toNat < s.hist.length := by unfold Stream.W at h; omega
    simp only [h0, if_true]
    rw [List.getD_eq_getElem?_getD, List.getD_eq_getElem?_getD, List.getElem?_append_left hi]
  · simp [h0]

theorem Stream.val_append_right (s : Stream α) (xs : List α) (j : Nat) :
    ({ s with hist := s.hist ++ xs } : Stream α).val (s.W + j) = xs.getD j 0 := by
  have h0 : 0 ≤ s.W + j := by unfold Stream.W; omega
  have hj : (s.W + j).toNat = s.hist.length + j := by unfold Stream.W; omega
  simp only [Stream.val, h0, if_true]
  rw [hj, List.getD_eq_getElem?_getD, List.getD_eq_getElem?_getD, List.getElem?_append_right (by omega)]
  simp

/-! ## The refinement relation -/

structure Refines (n : Nat) (b : RingBuffer α) (s : Stream α) : Prop where
  wf : b.WF
  count : b.elementCount = n
  fill : s.W - s.R = b.fill
  wpos : ∃ k : Int, s.W = b.writePos + k * n
  cell : ∀ (i : Int) (p : Nat) (k : Int), s.W - n ≤ i → i < s.W → p < n → i = p + k * n →
    b.data[p]? = some (s.val i)

namespace Refines

variable {n : Nat} {b : RingBuffer α} {s : Stream α}

theorem fill_le (h : Refines n b s) : b.fill ≤ n := h.count ▸ h.wf.fill_le

theorem inWindow (h : Refines n b s) : s.InWindow n := by
  have h1 := h.fill
  have h2 := h.fill_le
  unfold Stream.InWindow
  omega

theorem availableRead_eq (h : Refines n b s) : b.availableRead = (s.W - s.R).toNat := by
  rw [h.wf.availableRead_eq, h.fill, Int.toNat_natCast]

theorem availableWrite_eq (h : Refines n b s) : b.availableWrite = (n - (s.W - s.R)).toNat := by
  rw [h.wf.availableWrite_eq, h.fill, h.count]; omega

theorem noUnderflow (h : Refines n b s) : b.NoUnderflow where
  read_same := h.wf.same
  read_margin := h.wf.readPos_le
  write_margin := h.wf.writePos_le
  write_room := by rw [h.wf.availableRead_eq]; exact h.wf.fill_le

/-- The read position is congruent to the read index. -/
theorem rpos (h : Refines n b s) : ∃ k : Int, s.R = b.readPos + k * n := by
  obtain ⟨k, hk⟩ := h.wpos
  have hf := h.fill
  have h3 := h.wf.readPos_le
  have hc := h.count
  cases hw : b.rwWrap with
  | sameWrap =>
    have := h.wf.same hw
    rw [RingBuffer.fill_same hw] at hf
    exact ⟨k, by omega⟩
  | diffWrap =>
    rw [RingBuffer.fill_diff hw] at hf
    refine ⟨k - 1, ?_⟩
    rw [Int.sub_mul]; omega

/-! ### Write -/

theorem write (h : Refines n b s) (xs : List α) :
    Refines n (b.writeBuffer xs).1 (s.write n xs).1 ∧ (b.writeBuffer xs).2 = (s.write n xs).2 := by
  obtain ⟨hwf, hcnt, hret, hfill, hwp⟩ := h.wf.writeBuffer_spec xs
  have hcell := h.wf.writeBuffer_cell xs
  have hf := h.fill
  have hfl := h.fill_le
  have hc := h.count
  have hk : (b.writeBuffer xs).2 = (s.write n xs).2 := by
    rw [hret]; simp only [Stream.write]; omega
  have hkx : (s.write n xs).2 ≤ xs.length := by simp only [Stream.write]; omega
  have hkn : (s.write n xs).2 ≤ n := by simp only [Stream.write]; omega
  have hs' : (s.write n xs).1 = { s with hist := s.hist ++ xs.take (s.write n xs).2 } := rfl
  have hW : (s.write n xs).1.W = s.W + (s.write n xs).2 := by
    rw [hs']; simp only [Stream.W, List.length_append, List.length_take]; omega
  have hR : (s.write n xs).1.R = s.R := rfl
  obtain ⟨k0, hk0⟩ := h.wpos
  refine ⟨⟨hwf, by omega, by rw [hW, hR, hfill, hk]; omega, ?_, ?_⟩, hk⟩
  · rw [hW]
    rcases hwp with hwp | hwp
    · exact ⟨k0, by omega⟩
    · refine ⟨k0 + 1, ?_⟩
      rw [Int.add_mul]; omega
  · intro i p k hlo hhi hp hik
    rw [hcell p (by omega), hc, hk]
    rw [hW] at hlo hhi
    have h4 := h.wf.writePos_le
    generalize hj : RingBuffer.writeOffset n b.writePos p = j
    -- cell `p` is the one that index `W + j` names
    have hjn : j < n ∧ ∃ e : Int, (b.writePos : Int) + j = p + e * n := by
      unfold RingBuffer.writeOffset at hj
      split at hj
      · exact ⟨by omega, 0, by omega⟩
      · exact ⟨by omega, 1, by omega⟩
    obtain ⟨hjlt, e, he⟩ := hjn
    by_cases hlt : j < (s.write n xs).2
    · have hi : i = s.W + j := by
        refine eq_of_congr_window (n := n) (k := k - k0 - e) ?_ (by omega) (by omega)
        rw [Int.sub_mul, Int.sub_mul]; omega
      rw [if_pos hlt, hi, hs', Stream.val_append_right, List.getD_eq_getElem?_getD,
        List.getElem?_take_of_lt hlt, List.getElem?_eq_getElem (by omega)]
      rfl
    · have hi : i = s.W + j - n := by
        refine eq_of_congr_window (n := n) (k := k - k0 - e + 1) ?_ (by omega) (by omega)
        rw [Int.add_mul, Int.sub_mul, Int.sub_mul]; omega
      rw [if_neg hlt, hs', Stream.val_append _ _ _ (by omega)]
      exact h.cell i p k (by omega) (by omega) hp hik

/-! ### Move and read -/

theorem clampMove_eq (h : Refines n b s) (m : Int) : b.clampMove m = (s.move n m).2 := by
  have hf := h.fill
  have hc := h.count
  simp only [RingBuffer.clampMove, Stream.move, hf, hc]

theorem move (h : Refines n b s) (m : Int) (hfit : (b.readPos : Int) + b.clampMove m ≤ 2147483647) :
    Refines n (b.moveReadPtr m).1 (s.move n m).1 ∧ (b.moveReadPtr m).2 = (s.move n m).2 := by
  obtain ⟨hwf, hcnt, hdata, hwp, hret, hfill⟩ := h.wf.moveReadPtr_spec m hfit
  have hd := h.clampMove_eq m
  have hW : (s.move n m).1.W = s.W := rfl
  have hR : (s.move n m).1.R = s.R + (s.move n m).2 := rfl
  refine ⟨⟨hwf, hcnt.trans h.count, ?_, ?_, ?_⟩, hret.trans hd⟩
  · rw [hfill, hd, hW, hR, ← h.fill]; omega
  · rw [hW, hwp]; exact h.wpos
  · rw [hdata]; exact h.cell

theorem read (h : Refines n b s) (hasDataPtr : Bool) (data : List α) (count : Nat)
    (hfit : (b.readPos : Int) + min count b.fill ≤ 2147483647) :
    Refines n (b.readBuffer hasDataPtr data count).1 (s.read count).1 ∧
    (b.readBuffer hasDataPtr data count).2.readCount = (s.read count).2.length ∧
    (b.readBuffer hasDataPtr data count).2.elements = (s.read count).2 := by
  have hf := h.fill
  have hc := h.count
  have h2 := h.wf.fits
  have h3 := h.wf.readPos_le
  have hfl := h.wf.fill_le
  have hreg : (b.getBufferReadRegions count).1 = min count b.fill := by rw [h.wf.getBufferReadRegions_eq]
  have hk : min count (s.W - s.R).toNat = min count b.fill := by omega
  have hi32 : i32 ((min count b.fill : Nat) : Int) = (min count b.fill : Nat) := i32_id (by omega) (by omega)
  have hcl : b.clampMove ((min count b.fill : Nat) : Int) = (min count b.fill : Nat) :=
    RingBuffer.clampMove_read h.wf (by omega)
  have hlen : (s.read count).2.length = min count b.fill := by
    simp only [Stream.read, Stream.slice, List.length_map, List.length_range, hk]
  obtain ⟨hmv, -⟩ := h.move ((min count b.fill : Nat) : Int) (by rw [hcl]; omega)
  have hst : (s.move n ((min count b.fill : Nat) : Int)).1 = (s.read count).1 := by
    have := h.clampMove_eq ((min count b.fill : Nat) : Int)
    simp only [Stream.read, hk]
    show { s with R := s.R + (s.move n _).2 } = _
    rw [← this, hcl]
  refine ⟨?_, ?_, ?_⟩
  · rw [RingBuffer.readBuffer_fst, hreg, hi32, ← hst]; exact hmv
  · rw [RingBuffer.readBuffer_readCount, hreg, hlen]
  · rw [RingBuffer.elements_readBuffer h.wf]
    apply List.ext_getElem?
    intro j
    by_cases hj : j < min count b.fill
    · rw [RingBuffer.regions_getElem? h.wf count j hj]
      have hval : (s.read count).2[j]? = some (s.val (s.R + j)) := by
        simp only [Stream.read, Stream.slice, hk, List.getElem?_map, List.getElem?_range hj, Option.map_some]
      obtain ⟨k, hk⟩ := h.rpos
      rw [hval, hc]
      by_cases hin : b.readPos + j < n
      · rw [if_pos hin]
        exact h.cell _ _ k (by omega) (by omega) hin (by omega)
      · rw [if_neg hin]
        refine h.cell _ _ (k + 1) (by omega) (by omega) (by omega) ?_
        rw [Int.add_mul]; omega
    · have hlen' := RingBuffer.regions_length h.wf count
      rw [List.getElem?_eq_none (by omega), List.getElem?_eq_none (by omega)]

/-! ### Initialisation -/

theorem init (hb : b.elementCount = n) (h1 : 1 ≤ n) (h2 : n ≤ 2147483647) :
    Refines n b.initBuffer (Stream.empty : Stream α) where
  wf := ⟨by simp only [RingBuffer.initBuffer]; omega, by simp only [RingBuffer.initBuffer]; omega,
    Nat.zero_le _, Nat.zero_le _, fun _ => Nat.le_refl _, fun _ => Nat.le_refl _,
    by simp [RingBuffer.initBuffer]⟩
  count := hb
  fill := rfl
  wpos := ⟨0, by simp [Stream.W, Stream.empty, RingBuffer.initBuffer]⟩
  cell := by
    intro i p k hlo hhi hp _
    have hneg : ¬ 0 ≤ i := by simp only [Stream.W, Stream.empty, List.length_nil] at hhi; omega
    simp only [RingBuffer.initBuffer, Stream.val, hneg, if_false, List.getElem?_replicate]
    rw [if_pos (by omega)]

end Refines

/-! ## The main theorem -/

namespace RingBuffer

/-- Every run of a buffer of `n` elements returns what the abstract machine returns, with the read
index in its window and no `size_t` subtraction wrapping in any state. -/
def RefinesStream (α : Type) [Zero α] (n : Nat) : Prop :=
  ∀ b : RingBuffer α, createBuffer n = some b → ∀ ops : List (RingOp α),
    Machine.trace step b ops = Machine.trace (Stream.step n) Stream.empty ops ∧
    Machine.Always step NoUnderflow b ops ∧
    Machine.Always (Stream.step n) (Stream.InWindow n) (Stream.empty : Stream α) ops

theorem refines_createBuffer {n : Nat} {b : RingBuffer α} (h2 : n ≤ 2147483647)
    (hb : createBuffer n = some b) : Refines n b (Stream.empty : Stream α) := by
  unfold createBuffer at hb
  split at hb
  · cases hb
  · cases hb
    exact Refines.init rfl (by omega) h2

/-- One call of the code is one step of the abstract machine. -/
theorem step_refines {n : Nat} (hn : n ≤ 1073741823) {b : RingBuffer α} {s : Stream α}
    (h : Refines n b s) (op : RingOp α) :
    Refines n (b.step op).1 (s.step n op).1 ∧ (b.step op).2 = (s.step n op).2 := by
  have hc := h.count
  have h3 := h.wf.readPos_le
  have hfl := h.wf.fill_le
  cases op with
  | init =>
    have h' : Refines n b.initBuffer (Stream.empty : Stream α) :=
      Refines.init hc (by have := h.wf.pos; omega) (by omega)
    refine ⟨h', ?_⟩
    simp only [step, Stream.step, Stream.obs, h'.availableRead_eq, h'.availableWrite_eq]
  | write xs =>
    obtain ⟨h', hret⟩ := h.write xs
    refine ⟨h', ?_⟩
    simp only [step, Stream.step, Stream.obs, h'.availableRead_eq, h'.availableWrite_eq, hret]
  | read hasDataPtr data count =>
    obtain ⟨h', hret, hel⟩ := h.read hasDataPtr data count (by omega)
    refine ⟨h', ?_⟩
    simp only [step, Stream.step, Stream.obs, h'.availableRead_eq, h'.availableWrite_eq, hret, hel]
  | move m =>
    have hm := (clampMove_bounds h.wf m).2
    obtain ⟨h', hret⟩ := h.move m (by omega)
    refine ⟨h', ?_⟩
    simp only [step, Stream.step, Stream.obs, h'.availableRead_eq, h'.availableWrite_eq, hret]

theorem refinesStream_of_small {n : Nat} (hn : n ≤ 1073741823) : RefinesStream α n := by
  intro b hb ops
  have h0 := refines_createBuffer (by omega) hb
  have hsim := fun (b : RingBuffer α) s op (h : Refines n b s) => step_refines hn h op
  have htr := Machine.trace_eq_of_sim hsim h0 ops
  obtain ⟨ha, hw⟩ := Machine.always_of_sim (fun b s op h => (hsim b s op h).1)
    (fun _ _ h => ⟨h.noUnderflow, h.inWindow⟩) h0 ops
  exact ⟨htr, ha, hw⟩

/-! ### Above half of `int`'s range the refinement fails -/

/-- Fill, drain, fill, drain. -/
def drainTwice (n : Nat) : List (RingOp α) :=
  [.write (List.replicate n 0), .read false [] n, .write (List.replicate n 0), .read false [] n]

/-- After the drain the abstract machine has nothing left to read. -/
theorem stream_drain {n : Nat} {s : Stream α} (h : s.InWindow n) (hasDataPtr : Bool) (data : List α) :
    (s.step n (.read hasDataPtr data n)).2.2.1 = 0 := by
  unfold Stream.InWindow at h
  simp only [Stream.step, Stream.obs, Stream.read, Stream.W] at *
  omega

theorem step_read_availableRead (b : RingBuffer α) (hasDataPtr : Bool) (data : List α) (count : Nat) :
    (b.step (.read hasDataPtr data count)).2.2.1 = (b.readBuffer hasDataPtr data count).1.availableRead := by
  simp only [step]

/-- Fill: the write position goes to `n`. -/
theorem fill_refines {n : Nat} {b : RingBuffer α} {s : Stream α} (h : Refines n b s) (hf : b.fill = 0)
    (hw : b.writePos = 0 ∨ b.writePos = n) :
    ∃ b' s', (b.step (.write (List.replicate n 0))).1 = b' ∧ (s.step n (.write (List.replicate n 0))).1 = s' ∧
      Refines n b' s' ∧ b'.writePos = n ∧ b'.readPos = b.readPos ∧
      b'.rwWrap = if b.writePos = 0 then b.rwWrap else .diffWrap := by
  have hc := h.count
  obtain ⟨hw', hr', hs'⟩ := writeBuffer_full h.wf hf (List.replicate n 0) (by simp [hc]) (by omega)
  refine ⟨(b.writeBuffer (List.replicate n 0)).1, (s.write n (List.replicate n 0)).1, ?_, ?_,
    (h.write _).1, by omega, hr', hs'⟩
  · simp only [step]
  · simp only [Stream.step, Stream.obs]

/-- Drain from read position 0: the read position goes to `n`. -/
theorem drain_refines {n : Nat} {b : RingBuffer α} {s : Stream α} (h : Refines n b s) (hf : b.fill = n)
    (hr : b.readPos = 0) :
    ∃ b' s', (b.step (.read false [] n)).1 = b' ∧ (s.step n (.read false [] n)).1 = s' ∧ Refines n b' s' ∧
      b'.readPos = n ∧ b'.writePos = b.writePos ∧ b'.rwWrap = b.rwWrap := by
  have hc := h.count
  have h2 := h.wf.fits
  have hd := readBuffer_full h.wf (by omega) false []
  rw [moveReadPtr_full h.wf (by omega) hr, hc] at hd
  have href := (h.read false [] n (by omega)).1
  refine ⟨(b.readBuffer false [] n).1, (s.read n).1, ?_, ?_, href, ?_, ?_, ?_⟩
  · simp only [step]
  · simp only [Stream.step, Stream.obs]
  · rw [hd]
  · rw [hd]
  · rw [hd]

theorem not_refinesStream_of_large {n : Nat} (hn : 1073741823 < n) (h2 : n ≤ 2147483647) :
    ¬ RefinesStream α n := by
  intro href
  have hb : createBuffer (α := α) n = some (initBuffer ⟨0, 0, n, .sameWrap, []⟩) := by
    simp only [createBuffer]; rw [if_neg (by omega)]
  have h0 := refines_createBuffer h2 hb
  obtain ⟨htr, -⟩ := href _ hb (drainTwice n)
  simp only [drainTwice, Machine.trace, List.cons.injEq, and_true] at htr
  obtain ⟨-, -, -, h4⟩ := htr
  generalize hb0 : (initBuffer ⟨0, 0, n, .sameWrap, []⟩ : RingBuffer α) = b0 at h0 h4
  have hr0 : b0.readPos = 0 := by rw [← hb0, initBuffer]
  have hw0 : b0.writePos = 0 := by rw [← hb0, initBuffer]
  have hs0 : b0.rwWrap = .sameWrap := by rw [← hb0, initBuffer]
  obtain ⟨b1, s1, e1, e1', h1, hw1, hr1, hs1⟩ := fill_refines h0 (by rw [fill_same hs0]; omega) (Or.inl hw0)
  rw [if_pos hw0, hs0] at hs1
  obtain ⟨b2, s2, e2, e2', h2', hr2, hw2, hs2⟩ :=
    drain_refines h1 (by rw [fill_same hs1]; omega) (by omega)
  rw [hs1] at hs2
  obtain ⟨b3, s3, e3, e3', h3, hw3, hr3, hs3⟩ :=
    fill_refines h2' (by rw [fill_same hs2]; omega) (Or.inr (by omega))
  rw [if_neg (by omega)] at hs3
  -- the last drain: the buffer reports elements, the stream has none
  rw [e1, e1', e2, e2', e3, e3'] at h4
  have hc3 := h3.count
  have hd3 := readBuffer_full h3.wf (by rw [fill_diff hs3]; omega) false []
  rw [hc3] at hd3
  have hov := availableRead_overflow h3.wf (by omega) (by omega) hs3 (by omega)
  have hlast := congrArg (fun o : RingObs α => o.2.1) h4
  rw [step_read_availableRead, stream_drain h3.inWindow, hd3, ← hc3, hov] at hlast
  omega

/-- **`ring_buffer.c` refines the stream machine exactly up to half of `int`'s range.** -/
theorem refinesStream_iff (n : Nat) (h1 : 1 ≤ n) (h2 : n ≤ 2147483647) :
    RefinesStream α n ↔ n ≤ 1073741823 := by
  constructor
  · intro href
    by_contra hn
    exact not_refinesStream_of_large (by omega) h2 href
  · exact refinesStream_of_small

theorem refinesStream_iff_far_frame : RefinesStream Int 336 ↔ 336 ≤ 1073741823 :=
  refinesStream_iff 336 (by decide) (by decide)

theorem not_refinesStream_two_pow_30 :
    1 ≤ 1073741824 ∧ 1073741824 ≤ 2147483647 ∧ ¬ RefinesStream Int 1073741824 :=
  ⟨by decide, by decide, not_refinesStream_of_large (by decide) (by decide)⟩

end RingBuffer

end WebRtc
