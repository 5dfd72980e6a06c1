import WebRtc.RingBuffer.Refine

/-!
# The ring buffer as a queue

A user that only writes and reads sees a queue: `Holds n b q` says that `q` is what is left to read,
oldest first. Writes append to it, short of the room there is; reads take from its front. A fresh
buffer can also be wound back: what is read then is silence (`rewind`).
-/

namespace WebRtc

open CInt

variable {α : Type} [Zero α]

namespace Stream

@[simp] theorem slice_length (s : Stream α) (i : Int) (k : Nat) : (s.slice i k).length = k := by
  simp [slice]

theorem slice_getElem? (s : Stream α) (i : Int) {j k : Nat} (h : j < k) :
    (s.slice i k)[j]? = some (s.val (i + j)) := by
  simp only [slice, List.getElem?_map, List.getElem?_range h, Option.map_some]

theorem slice_take (s : Stream α) (i : Int) (j k : Nat) : (s.slice i k).take j = s.slice i (min j k) := by
  apply List.ext_getElem?
  intro m
  by_cases hm : m < min j k
  · rw [List.getElem?_take_of_lt (by omega), slice_getElem? s i (by omega), slice_getElem? s i hm]
  · rw [List.getElem?_eq_none (by simp; omega), List.getElem?_eq_none (by simp; omega)]

theorem slice_drop (s : Stream α) (i : Int) (j k : Nat) : (s.slice i k).drop j = s.slice (i + j) (k - j) := by
  apply List.ext_getElem?
  intro m
  rw [List.getElem?_drop]
  by_cases hm : j + m < k
  · rw [slice_getElem? s i hm, slice_getElem? s _ (by omega)]
    congr 2; omega
  · rw [List.getElem?_eq_none (by simp; omega), List.getElem?_eq_none (by simp; omega)]

/-- What is to be read after a write: what was, and the new elements. -/
theorem slice_append (s : Stream α) (xs : List α) (k : Nat) (hk : s.R + k = s.W) :
    ({ s with hist := s.hist ++ xs } : Stream α).slice s.R (k + xs.length) = s.slice s.R k ++ xs := by
  apply List.ext_getElem?
  intro m
  by_cases hm : m < k
  · rw [slice_getElem? _ _ (by omega), List.getElem?_append_left (by simpa using hm), slice_getElem? s _ hm,
      val_append _ _ _ (by omega)]
  · rw [List.getElem?_append_right (by simp; omega), slice_length]
    by_cases hx : m < k + xs.length
    · have hi : s.R + m = s.W + (m - k : Nat) := by omega
      rw [slice_getElem? _ _ hx, hi, val_append_right, List.getD_eq_getElem?_getD,
        List.getElem?_eq_getElem (by omega)]
      rfl
    · rw [List.getElem?_eq_none (by simp; omega), List.getElem?_eq_none (by omega)]

/-- What is left to read. -/
def pending (s : Stream α) : List α := s.slice s.R (s.W - s.R).toNat

end Stream

/-- `q` is what is left to read in `b`. -/
def Holds (n : Nat) (b : RingBuffer α) (q : List α) : Prop := ∃ s : Stream α, Refines n b s ∧ s.pending = q

namespace Refines

variable {n : Nat} {b : RingBuffer α} {s : Stream α}

theorem holds (h : Refines n b s) : Holds n b s.pending := ⟨s, h, rfl⟩

/-- A read from a small buffer keeps the sum of two positions inside `int`. -/
theorem read_small (h : Refines n b s) (hn : n ≤ 1073741823) (hasDataPtr : Bool) (data : List α) (count : Nat) :
    Refines n (b.readBuffer hasDataPtr data count).1 (s.read count).1 ∧
    (b.readBuffer hasDataPtr data count).2.elements = (s.read count).2 := by
  have h1 := h.count
  have h2 := h.wf.readPos_le
  have h3 := h.wf.fill_le
  obtain ⟨hr, -, he⟩ := h.read hasDataPtr data count (by omega)
  exact ⟨hr, he⟩

/-- **Winding back a buffer nothing was written to yields silence.** -/
theorem rewind (h : Refines n b Stream.empty) (hn : n ≤ 1073741823) {k : Nat} (hk : k ≤ n)
    (hasDataPtr : Bool) (data : List α) :
    Refines n ((b.moveReadPtr (-k)).1.readBuffer hasDataPtr data k).1 Stream.empty ∧
    ((b.moveReadPtr (-k)).1.readBuffer hasDataPtr data k).2.elements = List.replicate k 0 := by
  have hc := h.count
  have h3 := h.wf.readPos_le
  have hb := RingBuffer.clampMove_bounds h.wf (-k)
  obtain ⟨hm, -⟩ := h.move (-k) (by have := h.wf.fill_le; omega)
  have hd : (Stream.move n (Stream.empty : Stream α) (-k)).1 = ⟨[], -k⟩ := by
    simp only [Stream.move, Stream.empty, Stream.W, List.length_nil, Stream.mk.injEq, true_and]
    omega
  rw [hd] at hm
  obtain ⟨hr, he⟩ := hm.read_small hn hasDataPtr data k
  have hkk : min k (Stream.W (⟨[], -k⟩ : Stream α) - -k).toNat = k := by
    simp only [Stream.W, List.length_nil]; omega
  constructor
  · have hs : (Stream.read (⟨[], -k⟩ : Stream α) k).1 = Stream.empty := by
      simp only [Stream.read, hkk, Stream.empty, Stream.mk.injEq, true_and]; omega
    rwa [hs] at hr
  · rw [he]
    simp only [Stream.read, hkk]
    apply List.ext_getElem?
    intro m
    by_cases hm : m < k
    · rw [Stream.slice_getElem? _ _ hm, List.getElem?_replicate, if_pos hm]
      simp only [Stream.val, List.getD_nil, ite_self]
    · rw [List.getElem?_eq_none (by simp; omega), List.getElem?_eq_none (by simp; omega)]

end Refines

namespace Holds

variable {n : Nat} {b : RingBuffer α} {q : List α}

theorem availableRead_eq (h : Holds n b q) : b.availableRead = q.length := by
  obtain ⟨s, hr, rfl⟩ := h
  simp only [hr.availableRead_eq, Stream.pending, Stream.slice_length]

theorem length_le (h : Holds n b q) : q.length ≤ n := by
  obtain ⟨s, hr, rfl⟩ := h
  have := hr.fill
  have := hr.fill_le
  simp only [Stream.pending, Stream.slice_length]
  omega

theorem init (hb : b.elementCount = n) (h1 : 1 ≤ n) (h2 : n ≤ 2147483647) : Holds n b.initBuffer [] :=
  ⟨Stream.empty, Refines.init hb h1 h2, rfl⟩

/-- A write appends as many elements as there is room for. -/
theorem write (h : Holds n b q) (xs : List α) :
    Holds n (b.writeBuffer xs).1 (q ++ xs.take (n - q.length)) ∧
    (b.writeBuffer xs).2 = min xs.length (n - q.length) := by
  have hle := h.length_le
  obtain ⟨s, hr, rfl⟩ := h
  obtain ⟨hw, hret⟩ := hr.write xs
  have hf := hr.fill
  have hlen : s.pending.length = (s.W - s.R).toNat := Stream.slice_length ..
  have hk : (s.write n xs).2 = min xs.length (n - s.pending.length) := by
    simp only [Stream.write]; omega
  refine ⟨⟨_, hw, ?_⟩, hret.trans hk⟩
  have hs' : (s.write n xs).1 = { s with hist := s.hist ++ xs.take (n - s.pending.length) } := by
    have ht : xs.take (min xs.length (n - s.pending.length)) = xs.take (n - s.pending.length) := by
      rw [Nat.min_comm, ← List.take_take, List.take_length]
    rw [← ht, ← hk]; rfl
  rw [hs', Stream.pending]
  have hcount : (Stream.W { s with hist := s.hist ++ xs.take (n - s.pending.length) } - s.R).toNat =
      (s.W - s.R).toNat + (xs.take (n - s.pending.length)).length := by
    simp only [Stream.W, List.length_append] at *; omega
  rw [hcount]
  exact Stream.slice_append s _ _ (by omega)

/-- A read takes from the front. -/
theorem read (h : Holds n b q) (hn : n ≤ 1073741823) (hasDataPtr : Bool) (data : List α) (count : Nat) :
    Holds n (b.readBuffer hasDataPtr data count).1 (q.drop count) ∧
    (b.readBuffer hasDataPtr data count).2.elements = q.take count := by
  obtain ⟨s, hr, rfl⟩ := h
  obtain ⟨hs, he⟩ := hr.read_small hn hasDataPtr data count
  refine ⟨⟨_, hs, ?_⟩, ?_⟩
  · simp only [Stream.read, Stream.pending, Stream.slice_drop, Stream.W]
    by_cases hc : (count : Int) ≤ s.hist.length - s.R
    · have h1 : min count ((s.hist.length : Int) - s.R).toNat = count := by omega
      have h2 : ((s.hist.length : Int) - (s.R + count)).toNat = ((s.hist.length : Int) - s.R).toNat - count := by
        omega
      rw [h1, h2]; rfl
    · have hwin := hr.inWindow.2
      simp only [Stream.W] at hwin
      have hk : min count ((s.hist.length : Int) - s.R).toNat = ((s.hist.length : Int) - s.R).toNat := by omega
      have h1 : ((s.hist.length : Int) - (s.R + (((s.hist.length : Int) - s.R).toNat : Nat))).toNat = 0 := by
        omega
      have h2 : ((s.hist.length : Int) - s.R).toNat - count = 0 := by omega
      rw [hk, h1, h2]; rfl
  · rw [he, Stream.pending, Stream.slice_take]
    simp only [Stream.read]

end Holds

end WebRtc
