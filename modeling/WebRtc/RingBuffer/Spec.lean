import WebRtc.RingBuffer.Basic

/-!
# What each ring-buffer operation does to the positions and the cells

Both positions may rest at `element_count`, and an empty and a full buffer have the same positions:
only `rw_wrap` tells them apart. `WF` is what all operations keep; under it `availableRead` is
`fill`, and each operation has a closed form without machine arithmetic (`writeBuffer_eq`,
`getBufferReadRegions_eq`, `moveReadPtr_eq`).
-/

namespace WebRtc

open CInt

namespace RingBuffer

variable {α : Type}

/-- The buffer's invariant. -/
structure WF (b : RingBuffer α) : Prop where
  pos : 1 ≤ b.elementCount
  fits : b.elementCount ≤ 2147483647
  readPos_le : b.readPos ≤ b.elementCount
  writePos_le : b.writePos ≤ b.elementCount
  same : b.rwWrap = .sameWrap → b.readPos ≤ b.writePos
  diff : b.rwWrap = .diffWrap → b.writePos ≤ b.readPos
  length_data : b.data.length = b.elementCount

/-- The number of elements held. -/
def fill (b : RingBuffer α) : Nat :=
  if b.rwWrap = .sameWrap then b.writePos - b.readPos else b.elementCount - b.readPos + b.writePos

theorem fill_same {b : RingBuffer α} (h : b.rwWrap = .sameWrap) : b.fill = b.writePos - b.readPos := by
  simp [fill, h]

theorem fill_diff {b : RingBuffer α} (h : b.rwWrap = .diffWrap) :
    b.fill = b.elementCount - b.readPos + b.writePos := by
  simp [fill, h]

theorem WF.fill_le {b : RingBuffer α} (h : b.WF) : b.fill ≤ b.elementCount := by
  have h3 := h.readPos_le
  have h4 := h.writePos_le
  cases hw : b.rwWrap with
  | sameWrap => rw [fill_same hw]; omega
  | diffWrap => rw [fill_diff hw]; have := h.diff hw; omega

theorem WF.availableRead_eq {b : RingBuffer α} (h : b.WF) : b.availableRead = b.fill := by
  have h2 := h.fits
  have h3 := h.readPos_le
  have h4 := h.writePos_le
  cases hw : b.rwWrap with
  | sameWrap =>
    have h5 := h.same hw
    simp only [availableRead, hw, ↓reduceIte, fill_same hw]
    exact szSub_eq h5 (by omega)
  | diffWrap =>
    simp only [availableRead, hw, reduceCtorEq, ↓reduceIte, fill_diff hw]
    rw [szSub_eq h3 (by omega), szAdd_eq (by omega)]

theorem WF.availableWrite_eq {b : RingBuffer α} (h : b.WF) :
    b.availableWrite = b.elementCount - b.fill := by
  have h2 := h.fits
  rw [availableWrite, h.availableRead_eq, szSub_eq h.fill_le (by omega)]

/-- The distance `moveReadPtr` really moves. -/
def clampMove (b : RingBuffer α) (m : Int) : Int :=
  max (-((b.elementCount : Int) - b.fill)) (min m b.fill)

/-- Where the read position comes to rest after a move by `d` elements. -/
def movedPos (b : RingBuffer α) (d : Int) : Nat × Wrap :=
  if (b.readPos : Int) + d > b.elementCount then ((b.readPos + d - b.elementCount).toNat, .sameWrap)
  else if (b.readPos : Int) + d < 0 then ((b.readPos + d + b.elementCount).toNat, .diffWrap)
  else ((b.readPos + d).toNat, b.rwWrap)

theorem clampMove_bounds {b : RingBuffer α} (h : b.WF) (m : Int) :
    -((b.elementCount : Int) - b.fill) ≤ b.clampMove m ∧ b.clampMove m ≤ b.fill := by
  have := h.fill_le
  unfold clampMove
  omega

/-- The read position's new value is formed in an `int` before it is wrapped, so the closed form
needs the sum to fit. -/
theorem WF.moveReadPtr_eq {b : RingBuffer α} (h : b.WF) (m : Int)
    (hfit : (b.readPos : Int) + b.clampMove m ≤ 2147483647) :
    b.moveReadPtr m =
      ({ b with readPos := (b.movedPos (b.clampMove m)).1, rwWrap := (b.movedPos (b.clampMove m)).2 },
        b.clampMove m) := by
  have h2 := h.fits
  have h3 := h.readPos_le
  have h4 := h.fill_le
  have hn : i32 b.elementCount = b.elementCount := i32_id (by omega) (by omega)
  have hr : i32 b.readPos = b.readPos := i32_id (by omega) (by omega)
  have hf : i32 b.fill = b.fill := i32_id (by omega) (by omega)
  have hw : i32 ((b.elementCount - b.fill : Nat) : Int) = (b.elementCount : Int) - b.fill := by
    rw [Int.ofNat_sub h4]; exact i32_id (by omega) (by omega)
  have hneg : i32 (-((b.elementCount : Int) - b.fill)) = -((b.elementCount : Int) - b.fill) :=
    i32_id (by omega) (by omega)
  -- the two `if`s of the code are the clamp
  have hc : (if (if m > (b.fill : Int) then (b.fill : Int) else m) < -((b.elementCount : Int) - b.fill)
      then -((b.elementCount : Int) - b.fill) else if m > (b.fill : Int) then (b.fill : Int) else m) =
      b.clampMove m := by
    unfold clampMove
    by_cases hm : m > (b.fill : Int)
    · rw [if_pos hm, if_neg (by omega)]; omega
    · rw [if_neg hm]
      by_cases hl : m < -((b.elementCount : Int) - b.fill)
      · rw [if_pos hl]; omega
      · rw [if_neg hl]; omega
  obtain ⟨hlo, hhi⟩ := clampMove_bounds h m
  simp only [moveReadPtr, h.availableRead_eq, h.availableWrite_eq, hn, hr, hf, hw, hneg, hc]
  generalize b.clampMove m = d at hlo hhi hfit
  have hsum : i32 ((b.readPos : Int) + d) = b.readPos + d := i32_id (by omega) (by omega)
  rw [hsum]
  by_cases hup : (b.readPos : Int) + d > b.elementCount
  · have hsub : i32 ((b.readPos : Int) + d - b.elementCount) = b.readPos + d - b.elementCount :=
      i32_id (by omega) (by omega)
    have hnn : ¬ (b.readPos : Int) + d - b.elementCount < 0 := by omega
    simp only [movedPos, hup, ↓reduceIte, hsub, hnn]
    rw [toSize_id (by omega) (by omega)]
  · by_cases hdn : (b.readPos : Int) + d < 0
    · have hadd : i32 ((b.readPos : Int) + d + b.elementCount) = b.readPos + d + b.elementCount :=
        i32_id (by omega) (by omega)
      simp only [movedPos, hup, hdn, ↓reduceIte, hadd]
      rw [toSize_id (by omega) (by omega)]
    · simp only [movedPos, hup, hdn, ↓reduceIte]
      rw [toSize_id (by omega) (by omega)]

theorem WF.writeBuffer_eq {b : RingBuffer α} (h : b.WF) (xs : List α) :
    b.writeBuffer xs =
      let k := min xs.length (b.elementCount - b.fill)
      if b.writePos + k ≤ b.elementCount then
        ({ b with data := memcpy b.data b.writePos (xs.take k), writePos := b.writePos + k }, k)
      else
        ({ b with data := memcpy (memcpy b.data b.writePos (xs.take (b.elementCount - b.writePos))) 0
                    ((xs.drop (b.elementCount - b.writePos)).take (b.writePos + k - b.elementCount)),
                  writePos := b.writePos + k - b.elementCount, rwWrap := .diffWrap }, k) := by
  have h2 := h.fits
  have h3 := h.writePos_le
  have h4 := h.fill_le
  have hk : (if b.elementCount - b.fill < xs.length then b.elementCount - b.fill else xs.length) =
      min xs.length (b.elementCount - b.fill) := by
    split <;> omega
  simp only [writeBuffer, h.availableWrite_eq, hk, szSub_eq h3 (show b.elementCount < _ by omega)]
  generalize hkk : min xs.length (b.elementCount - b.fill) = k
  by_cases hwrap : k > b.elementCount - b.writePos
  · rw [if_pos hwrap, if_neg (by omega), szSub_eq (by omega) (by omega), szSub_eq (by omega) (by omega)]
    have e1 : k - (b.elementCount - b.writePos) = b.writePos + k - b.elementCount := by omega
    have e2 : k - (b.writePos + k - b.elementCount) = b.elementCount - b.writePos := by omega
    rw [e1, e2]
  · rw [if_neg hwrap, if_pos (by omega), szAdd_eq (by omega)]

theorem WF.getBufferReadRegions_eq {b : RingBuffer α} (h : b.WF) (count : Nat) :
    b.getBufferReadRegions count =
      let k := min count b.fill
      (k, (b.data.drop b.readPos).take (min k (b.elementCount - b.readPos)),
        b.data.take (b.readPos + k - b.elementCount)) := by
  have h2 := h.fits
  have h3 := h.readPos_le
  have h4 := h.fill_le
  have hk : (if b.fill < count then b.fill else count) = min count b.fill := by
    split <;> omega
  simp only [getBufferReadRegions, h.availableRead_eq, hk, szSub_eq h3 (show b.elementCount < _ by omega)]
  generalize hkk : min count b.fill = k
  by_cases hwrap : k > b.elementCount - b.readPos
  · rw [if_pos hwrap, szSub_eq (by omega) (by omega), Nat.min_eq_right (by omega)]
    have e1 : k - (b.elementCount - b.readPos) = b.readPos + k - b.elementCount := by omega
    rw [e1]
  · have e1 : b.readPos + k - b.elementCount = 0 := by omega
    rw [if_neg hwrap, Nat.min_eq_left (by omega), e1, List.take_zero]

/-! ## `memcpy` -/

theorem memcpy_length {dst src : List α} {off : Nat} (h : off + src.length ≤ dst.length) :
    (memcpy dst off src).length = dst.length := by
  simp only [memcpy, List.length_append, List.length_take, List.length_drop]; omega

theorem memcpy_zero (dst src : List α) : memcpy dst 0 src = src ++ dst.drop src.length := by
  simp [memcpy]

theorem memcpy_getElem? {dst src : List α} {off : Nat} (h : off + src.length ≤ dst.length) (i : Nat) :
    (memcpy dst off src)[i]? = if off ≤ i ∧ i < off + src.length then src[i - off]? else dst[i]? := by
  have hlen : (dst.take off).length = off := by simp; omega
  unfold memcpy
  by_cases h1 : i < off
  · rw [if_neg (by omega), List.append_assoc, List.getElem?_append_left (by omega),
      List.getElem?_take_of_lt h1]
  · by_cases h2 : i < off + src.length
    · rw [if_pos ⟨by omega, h2⟩, List.getElem?_append_left (by simp; omega),
        List.getElem?_append_right (by omega), hlen]
    · rw [if_neg (by omega), List.getElem?_append_right (by simp; omega), List.getElem?_drop]
      simp only [List.length_append, hlen]
      congr 1; omega

/-! ## What a write leaves behind -/

/-- The position in a write that starts at `wp` of the element that lands in cell `p`. -/
def writeOffset (n wp p : Nat) : Nat := if wp ≤ p then p - wp else p + n - wp

/-- Cell by cell, what `writeBuffer` leaves in the buffer. -/
theorem WF.writeBuffer_cell {b : RingBuffer α} (h : b.WF) (xs : List α) (p : Nat) (hp : p < b.elementCount) :
    (b.writeBuffer xs).1.data[p]? =
      if writeOffset b.elementCount b.writePos p < (b.writeBuffer xs).2 then
        xs[writeOffset b.elementCount b.writePos p]?
      else b.data[p]? := by
  have h3 := h.writePos_le
  have hl := h.length_data
  rw [h.writeBuffer_eq]
  dsimp only
  generalize hk : min xs.length (b.elementCount - b.fill) = k
  by_cases hwrap : b.writePos + k ≤ b.elementCount
  · rw [if_pos hwrap]
    have hlen : (xs.take k).length = k := by simp; omega
    rw [memcpy_getElem? (by omega), hlen]
    by_cases hin : b.writePos ≤ p ∧ p < b.writePos + k
    · have ho : writeOffset b.elementCount b.writePos p = p - b.writePos := by simp [writeOffset, hin.1]
      rw [if_pos hin, ho, if_pos (by omega), List.getElem?_take_of_lt (by omega)]
    · have ho : ¬ writeOffset b.elementCount b.writePos p < k := by unfold writeOffset; split <;> omega
      rw [if_neg hin, if_neg ho]
  · rw [if_neg hwrap]
    have hk' : b.writePos + k - b.elementCount ≤ b.elementCount := by omega
    have hlen1 : (xs.take (b.elementCount - b.writePos)).length = b.elementCount - b.writePos := by
      simp; omega
    have hlen2 : ((xs.drop (b.elementCount - b.writePos)).take (b.writePos + k - b.elementCount)).length =
        b.writePos + k - b.elementCount := by
      simp; omega
    have hlen3 : (memcpy b.data b.writePos (xs.take (b.elementCount - b.writePos))).length = b.elementCount := by
      rw [memcpy_length (by omega), hl]
    rw [memcpy_getElem? (by omega), memcpy_getElem? (by omega), hlen1, hlen2]
    by_cases hfront : p < b.writePos + k - b.elementCount
    · -- the part that wrapped
      have hwp : ¬ b.writePos ≤ p := by
        have := h.fill_le
        cases hw : b.rwWrap with
        | sameWrap => have := h.same hw; have := fill_same hw; omega
        | diffWrap => have := h.diff hw; have := fill_diff hw; have := h.readPos_le; omega
      have ho : writeOffset b.elementCount b.writePos p = p + b.elementCount - b.writePos := by
        simp [writeOffset, hwp]
      rw [if_pos (by omega), ho, if_pos (by omega), Nat.sub_zero, List.getElem?_take_of_lt (by omega),
        List.getElem?_drop]
      congr 1; omega
    · rw [if_neg (by omega)]
      by_cases hin : b.writePos ≤ p
      · have ho : writeOffset b.elementCount b.writePos p = p - b.writePos := by simp [writeOffset, hin]
        rw [if_pos (by omega), ho, if_pos (by omega), List.getElem?_take_of_lt (by omega)]
      · have ho : ¬ writeOffset b.elementCount b.writePos p < k := by simp [writeOffset, hin]; omega
        rw [if_neg (by omega), if_neg ho]

/-- `writeBuffer` keeps the invariant and adds what it wrote to the fill. -/
theorem WF.writeBuffer_spec {b : RingBuffer α} (h : b.WF) (xs : List α) :
    (b.writeBuffer xs).1.WF ∧ (b.writeBuffer xs).1.elementCount = b.elementCount ∧
    (b.writeBuffer xs).2 = min xs.length (b.elementCount - b.fill) ∧
    (b.writeBuffer xs).1.fill = b.fill + (b.writeBuffer xs).2 ∧
    ((b.writeBuffer xs).1.writePos = b.writePos + (b.writeBuffer xs).2 ∨
      (b.writeBuffer xs).1.writePos + b.elementCount = b.writePos + (b.writeBuffer xs).2) := by
  have h2 := h.fits
  have h3 := h.readPos_le
  have h4 := h.writePos_le
  have h5 := h.fill_le
  have hl := h.length_data
  rw [h.writeBuffer_eq]
  dsimp only
  generalize hk : min xs.length (b.elementCount - b.fill) = k
  by_cases hwrap : b.writePos + k ≤ b.elementCount
  · rw [if_pos hwrap]
    refine ⟨⟨h.pos, h2, h3, hwrap, fun hw => ?_, fun hw => ?_, ?_⟩, rfl, rfl, ?_, Or.inl rfl⟩
    · have := h.same hw; simp only at *; omega
    · have hf := fill_diff (b := b) hw; have := h.diff hw; simp only at *; omega
    · rw [memcpy_length (by simp; omega), hl]
    · cases hw : b.rwWrap with
      | sameWrap => have := h.same hw; simp only [fill, hw, ↓reduceIte]; omega
      | diffWrap => simp only [fill, hw, reduceCtorEq, ↓reduceIte]; omega
  · rw [if_neg hwrap]
    have hsame : b.rwWrap = .sameWrap := by
      cases hw : b.rwWrap with
      | sameWrap => rfl
      | diffWrap => have := fill_diff hw; have := h.diff hw; omega
    have hf := fill_same hsame
    have hrp := h.same hsame
    refine ⟨⟨h.pos, h2, h3, ?_, fun hw => ?_, fun _ => ?_, ?_⟩, rfl, rfl, ?_, Or.inr ?_⟩
    · simp only; omega
    · simp at hw
    · simp only; omega
    · have hlen3 : (memcpy b.data b.writePos (xs.take (b.elementCount - b.writePos))).length =
          b.elementCount := by
        rw [memcpy_length (by simp; omega), hl]
      rw [memcpy_length (by simp; omega), hlen3]
    · simp only [fill, hsame, reduceCtorEq, ↓reduceIte]; omega
    · simp only; omega

/-! ## What a move and a read leave behind -/

/-- `moveReadPtr` keeps the invariant and takes what it moved from the fill. -/
theorem WF.moveReadPtr_spec {b : RingBuffer α} (h : b.WF) (m : Int)
    (hfit : (b.readPos : Int) + b.clampMove m ≤ 2147483647) :
    (b.moveReadPtr m).1.WF ∧ (b.moveReadPtr m).1.elementCount = b.elementCount ∧
    (b.moveReadPtr m).1.data = b.data ∧ (b.moveReadPtr m).1.writePos = b.writePos ∧
    (b.moveReadPtr m).2 = b.clampMove m ∧
    ((b.moveReadPtr m).1.fill : Int) = b.fill - b.clampMove m := by
  have h2 := h.fits
  have h3 := h.readPos_le
  have h4 := h.writePos_le
  obtain ⟨hlo, hhi⟩ := clampMove_bounds h m
  rw [h.moveReadPtr_eq m hfit]
  generalize b.clampMove m = d at hlo hhi
  refine ⟨?_, rfl, rfl, rfl, rfl, ?_⟩
  · cases hw : b.rwWrap with
    | sameWrap =>
      have hs := h.same hw
      have hf := fill_same hw
      have hup : ¬ (b.readPos : Int) + d > b.elementCount := by omega
      by_cases hdn : (b.readPos : Int) + d < 0
      · simp only [movedPos, hup, hdn, ↓reduceIte]
        exact ⟨h.pos, h2, by simp only; omega, h4, by simp, fun _ => by simp only; omega, h.length_data⟩
      · simp only [movedPos, hup, hdn, ↓reduceIte]
        exact ⟨h.pos, h2, by simp only; omega, h4, fun _ => by simp only; omega,
          fun hd => by simp [hw] at hd, h.length_data⟩
    | diffWrap =>
      have hs := h.diff hw
      have hf := fill_diff hw
      have hdn : ¬ (b.readPos : Int) + d < 0 := by omega
      by_cases hup : (b.readPos : Int) + d > b.elementCount
      · simp only [movedPos, hup, ↓reduceIte]
        exact ⟨h.pos, h2, by simp only; omega, h4, fun _ => by simp only; omega, by simp, h.length_data⟩
      · simp only [movedPos, hup, hdn, ↓reduceIte]
        exact ⟨h.pos, h2, by simp only; omega, h4, fun hd => by simp [hw] at hd,
          fun _ => by simp only; omega, h.length_data⟩
  · cases hw : b.rwWrap with
    | sameWrap =>
      have hs := h.same hw
      have hf := fill_same hw
      have hup : ¬ (b.readPos : Int) + d > b.elementCount := by omega
      by_cases hdn : (b.readPos : Int) + d < 0
      · simp only [movedPos, hup, hdn, fill, hw, reduceCtorEq, ↓reduceIte]; omega
      · simp only [movedPos, hup, hdn, fill, hw, ↓reduceIte]; omega
    | diffWrap =>
      have hs := h.diff hw
      have hf := fill_diff hw
      have hdn : ¬ (b.readPos : Int) + d < 0 := by omega
      by_cases hup : (b.readPos : Int) + d > b.elementCount
      · simp only [movedPos, hup, fill, hw, reduceCtorEq, ↓reduceIte]; omega
      · simp only [movedPos, hup, hdn, fill, hw, reduceCtorEq, ↓reduceIte]; omega

theorem clampMove_read {b : RingBuffer α} (h : b.WF) {k : Nat} (hk : k ≤ b.fill) : b.clampMove k = k := by
  have := h.fill_le
  unfold clampMove
  omega

theorem regions_length {b : RingBuffer α} (h : b.WF) (count : Nat) :
    ((b.getBufferReadRegions count).2.1 ++ (b.getBufferReadRegions count).2.2).length =
      (b.getBufferReadRegions count).1 := by
  have h3 := h.readPos_le
  have hl := h.length_data
  have hf := h.fill_le
  rw [h.getBufferReadRegions_eq]
  simp only [List.length_append, List.length_take, List.length_drop]
  omega

/-- With or without `data_ptr`, wrapped or not, the caller gets the two regions in order. -/
theorem elements_readBuffer {b : RingBuffer α} (h : b.WF) (hasDataPtr : Bool) (data : List α) (count : Nat) :
    (b.readBuffer hasDataPtr data count).2.elements =
      (b.getBufferReadRegions count).2.1 ++ (b.getBufferReadRegions count).2.2 := by
  have hlen := regions_length h count
  simp only [readBuffer]
  generalize b.getBufferReadRegions count = r at hlen ⊢
  obtain ⟨k, r1, r2⟩ := r
  simp only at hlen ⊢
  have hwr : (memcpy (memcpy data 0 r1) r1.length r2).take k = r1 ++ r2 := by
    rw [memcpy_zero, memcpy, List.take_left, ← hlen]
    exact List.take_left
  have hnw : r2.length = 0 → r2 = [] := List.length_eq_zero_iff.1
  cases hasDataPtr with
  | true =>
    simp only [if_true, ReadResult.elements]
    split
    · exact hwr
    · simp [hnw (by omega)]
  | false =>
    simp only [Bool.false_eq_true, if_false, ReadResult.elements]
    split
    · exact hwr
    · have h0 := hnw (by omega)
      subst h0
      rw [memcpy_zero, ← hlen, List.append_nil]
      exact List.take_left

/-- Element by element, what `readBuffer` hands out. -/
theorem regions_getElem? {b : RingBuffer α} (h : b.WF) (count j : Nat) (hj : j < min count b.fill) :
    ((b.getBufferReadRegions count).2.1 ++ (b.getBufferReadRegions count).2.2)[j]? =
      b.data[if b.readPos + j < b.elementCount then b.readPos + j
        else b.readPos + j - b.elementCount]? := by
  have h3 := h.readPos_le
  have hl := h.length_data
  have hf := h.fill_le
  rw [h.getBufferReadRegions_eq]
  dsimp only
  generalize hk : min count b.fill = k at hj
  have hlen : ((b.data.drop b.readPos).take (min k (b.elementCount - b.readPos))).length =
      min k (b.elementCount - b.readPos) := by
    simp only [List.length_take, List.length_drop]; omega
  by_cases hin : b.readPos + j < b.elementCount
  · rw [if_pos hin, List.getElem?_append_left (by omega), List.getElem?_take_of_lt (by omega),
      List.getElem?_drop]
  · rw [if_neg hin, List.getElem?_append_right (by omega), hlen, List.getElem?_take_of_lt (by omega)]
    congr 1; omega

theorem readBuffer_fst (b : RingBuffer α) (hasDataPtr : Bool) (data : List α) (count : Nat) :
    (b.readBuffer hasDataPtr data count).1 = (b.moveReadPtr (i32 (b.getBufferReadRegions count).1)).1 := rfl

theorem readBuffer_readCount (b : RingBuffer α) (hasDataPtr : Bool) (data : List α) (count : Nat) :
    (b.readBuffer hasDataPtr data count).2.readCount = (b.getBufferReadRegions count).1 := rfl

/-! ## Where the sum of two positions leaves `int`

`moveReadPtr` adds the distance to the read position before it wraps it. Filling, draining and
filling again leaves the read position at `n` with `n` elements to read, so the next drain forms
`2 * n` in an `int`. -/

/-- A write of `n` elements to an empty buffer whose write position is 0 or `n`. -/
theorem writeBuffer_full {b : RingBuffer α} (h : b.WF) (hf : b.fill = 0) (xs : List α)
    (hx : xs.length = b.elementCount) (hw : b.writePos = 0 ∨ b.writePos = b.elementCount) :
    (b.writeBuffer xs).1.writePos = b.elementCount ∧ (b.writeBuffer xs).1.readPos = b.readPos ∧
    (b.writeBuffer xs).1.rwWrap = if b.writePos = 0 then b.rwWrap else .diffWrap := by
  have h1 := h.pos
  rw [h.writeBuffer_eq]
  simp only [hx, hf, Nat.sub_zero, Nat.min_self]
  rcases hw with hw | hw
  · simp [hw]
  · have hne : b.writePos ≠ 0 := by omega
    rw [if_neg (by omega), if_neg hne]
    refine ⟨?_, rfl, rfl⟩
    simp only; omega

theorem readBuffer_full {b : RingBuffer α} (h : b.WF) (hf : b.fill = b.elementCount) (hasDataPtr : Bool)
    (data : List α) :
    (b.readBuffer hasDataPtr data b.elementCount).1 = (b.moveReadPtr (i32 b.elementCount)).1 := by
  rw [readBuffer_fst, h.getBufferReadRegions_eq]
  simp only [hf, Nat.min_self]

/-- Draining a full buffer whose read position is 0. -/
theorem moveReadPtr_full {b : RingBuffer α} (h : b.WF) (hf : b.fill = b.elementCount) (hr : b.readPos = 0) :
    (b.moveReadPtr (i32 b.elementCount)).1 = { b with readPos := b.elementCount } := by
  have h2 := h.fits
  have hcl := clampMove_read h (Nat.le_of_eq hf.symm)
  rw [i32_id (by omega) (by omega), h.moveReadPtr_eq _ (by rw [hcl]; omega), hcl]
  have hup : ¬ (b.readPos : Int) + b.elementCount > b.elementCount := by omega
  have hdn : ¬ (b.readPos : Int) + b.elementCount < 0 := by omega
  have hpos : ((b.readPos : Int) + b.elementCount).toNat = b.elementCount := by omega
  simp only [movedPos, hup, hdn, hpos, ↓reduceIte]

/-- The drain that overflows: from read and write position `n`, with `n` elements to read. -/
theorem availableRead_overflow {b : RingBuffer α} (h : b.WF) (hr : b.readPos = b.elementCount)
    (hw : b.writePos = b.elementCount) (hd : b.rwWrap = .diffWrap)
    (hn : 1073741823 < b.elementCount) :
    (b.moveReadPtr (i32 b.elementCount)).1.availableRead = 4294967296 - b.elementCount := by
  have h2 := h.fits
  have hf := fill_diff hd
  have hav := h.availableRead_eq
  have hfr := h.availableWrite_eq
  have hE : i32 b.elementCount = b.elementCount := i32_id (by omega) (by omega)
  have hf' : b.fill = b.elementCount := by omega
  have h0 : i32 ((0 : Nat) : Int) = 0 := i32_id (by omega) (by omega)
  have hneg : i32 (-0) = 0 := i32_id (by omega) (by omega)
  have hsum : i32 ((b.elementCount : Int) + b.elementCount) = 2 * b.elementCount - 4294967296 := by
    rw [i32_over (by omega) (by omega)]; omega
  have hpos : i32 (2 * b.elementCount - 4294967296 + b.elementCount) = 3 * b.elementCount - 4294967296 := by
    rw [i32_id (by omega) (by omega)]; omega
  have hmv : (b.moveReadPtr (i32 b.elementCount)).1 =
      { b with readPos := toSize (i32 (2 * b.elementCount - 4294967296 + b.elementCount)) } := by
    simp only [moveReadPtr, hav, hfr, hf', hr, hE, Nat.sub_self, h0, hneg, gt_iff_lt,
      Int.lt_irrefl, if_false]
    have hlt : ¬ (b.elementCount : Int) < 0 := by omega
    simp only [hlt, if_false, hsum]
    have hup : ¬ (b.elementCount : Int) < 2 * b.elementCount - 4294967296 := by omega
    have hdn : 2 * (b.elementCount : Int) - 4294967296 < 0 := by omega
    simp only [hup, hdn, hd, if_true, if_false]
  rw [hmv, hpos]
  simp only [availableRead, hd, reduceCtorEq, if_false, hw, szSub_toSize, szAdd_toSize]
  rw [toSize_id (by omega) (by omega)]
  omega

end RingBuffer

end WebRtc
