import WebRtc.Estimator.Proxy
import WebRtc.Lib.Machine

/-!
# Sequence numbers unwrapped

A number near the last one comes back as it was (`unwrap_near`), any other one is congruent to what has been received
and not negative (`unwrap_any`). A step forward is 32768 at most, so that the sums are far from the end of 64 bits.
-/

namespace WebRtc.Estimator

open Feedback

namespace SequenceNumberUnwrapper

/-- As a machine, from the constructor on. -/
def step (u : SequenceNumberUnwrapper) (sequenceNumber : UInt16) : SequenceNumberUnwrapper × Int :=
  ((u.unwrap sequenceNumber).2, (u.unwrap sequenceNumber).1)

def unwrapAll (sequenceNumbers : List UInt16) : List Int := Machine.trace step ⟨-1⟩ sequenceNumbers

theorem unwrap_first {n : Int} (h0 : 0 ≤ n) (h1 : n ≤ 65535) :
    SequenceNumberUnwrapper.unwrapWithoutUpdate ⟨-1⟩ (u16 n) = n := by
  have hu := toNat_u16 n
  rw [SequenceNumberUnwrapper.unwrapWithoutUpdate, if_pos rfl]
  omega

/-- A number near to the last one, and not before 0. -/
theorem unwrap_near {last n : Int} (hlast : 0 ≤ last) (hn : 0 ≤ n) (hnear : (n - last).natAbs ≤ 32767) :
    SequenceNumberUnwrapper.unwrapWithoutUpdate ⟨last⟩ (u16 n) = n := by
  have hu := toNat_u16 n
  have hl := toNat_u16 last
  have hsub := UInt16.toNat_sub (u16 n) (u16 last)
  have hsentinel : ¬ last = -1 := by omega
  rw [SequenceNumberUnwrapper.unwrapWithoutUpdate, if_neg hsentinel]
  dsimp only
  by_cases hnewer : WebRtc.isNewerSequenceNumber (u16 n) (u16 last) = true
  · rw [if_pos hnewer]
    rw [WebRtc.isNewerSequenceNumber_iff] at hnewer
    split <;> omega
  · rw [if_neg hnewer]
    rw [WebRtc.isNewerSequenceNumber_iff] at hnewer
    split <;> omega

/-- Any number: the low bits are right, and it is not far ahead. -/
theorem unwrap_any {u : SequenceNumberUnwrapper} (sequenceNumber : UInt16) (hu : u.lastSeq = -1 ∨ 0 ≤ u.lastSeq) :
    0 ≤ u.unwrapWithoutUpdate sequenceNumber ∧ u16 (u.unwrapWithoutUpdate sequenceNumber) = sequenceNumber ∧
      (u.unwrapWithoutUpdate sequenceNumber ≤ 65535 ∨ u.unwrapWithoutUpdate sequenceNumber ≤ u.lastSeq + 32768) := by
  have hlt := sequenceNumber.toNat_lt
  suffices h : 0 ≤ u.unwrapWithoutUpdate sequenceNumber ∧
      u.unwrapWithoutUpdate sequenceNumber % 65536 = sequenceNumber.toNat ∧
      (u.unwrapWithoutUpdate sequenceNumber ≤ 65535 ∨ u.unwrapWithoutUpdate sequenceNumber ≤ u.lastSeq + 32768) by
    refine ⟨h.1, ?_, h.2.2⟩
    have hlow := toNat_u16 (u.unwrapWithoutUpdate sequenceNumber)
    exact UInt16.toNat_inj.1 (by omega)
  have hl := toNat_u16 u.lastSeq
  have hsub := UInt16.toNat_sub sequenceNumber (u16 u.lastSeq)
  unfold unwrapWithoutUpdate
  by_cases hfirst : u.lastSeq = -1
  · rw [if_pos hfirst]
    omega
  · rw [if_neg hfirst]
    dsimp only
    by_cases hnewer : WebRtc.isNewerSequenceNumber sequenceNumber (u16 u.lastSeq) = true
    · rw [if_pos hnewer]
      rw [WebRtc.isNewerSequenceNumber_iff] at hnewer
      split <;> omega
    · rw [if_neg hnewer]
      rw [WebRtc.isNewerSequenceNumber_iff] at hnewer
      split <;> omega

/-! ## Runs -/

/-- What is near to what comes before it. -/
theorem trace_near {last : Int} (hlast : 0 ≤ last) {numbers : List Int} (hpos : ∀ n ∈ numbers, 0 ≤ n)
    (hnear : (last :: numbers).IsChain fun a b => (b - a).natAbs < 32768) :
    Machine.trace step ⟨last⟩ (numbers.map u16) = numbers := by
  induction numbers generalizing last with
  | nil => rfl
  | cons n numbers ih =>
    rw [List.isChain_cons_cons] at hnear
    have hn := hpos n List.mem_cons_self
    have hunwrap := unwrap_near hlast hn (Nat.le_of_lt_succ hnear.1)
    simp only [List.map_cons, Machine.trace, step, unwrap, hunwrap]
    rw [ih hn (fun m hm => hpos m (List.mem_cons_of_mem n hm)) hnear.2]

theorem trace_any {u : SequenceNumberUnwrapper} {bound : Int} (hu : u.lastSeq = -1 ∨ 0 ≤ u.lastSeq)
    (hbound : 32768 ≤ bound) (hlast : u.lastSeq < bound) {sequenceNumbers : List UInt16} {i : Nat}
    {sequenceNumber : UInt16} (hi : sequenceNumbers[i]? = some sequenceNumber) :
    ∃ n, (Machine.trace step u sequenceNumbers)[i]? = some n ∧ 0 ≤ n ∧ u16 n = sequenceNumber ∧
      n < bound + 32768 * (i + 1) := by
  induction sequenceNumbers generalizing u bound i with
  | nil => simp at hi
  | cons first rest ih =>
    obtain ⟨h0, hlow, hmax⟩ := unwrap_any first hu
    cases i with
    | zero =>
      obtain rfl : first = sequenceNumber := by simpa using hi
      exact ⟨_, rfl, h0, hlow, show u.unwrapWithoutUpdate first < _ by omega⟩
    | succ i =>
      have hnext : u.unwrapWithoutUpdate first < bound + 32768 := by omega
      obtain ⟨n, hn, hpos, hsame, hlt⟩ :=
        ih (u := ⟨u.unwrapWithoutUpdate first⟩) (Or.inr h0) (by omega) hnext (by simpa using hi)
      refine ⟨n, hn, hpos, hsame, ?_⟩
      push_cast
      omega

/-- **Unwrapping is exact** for numbers that begin below 2^16 and stay near to each other, and whatever comes, the
result is congruent to it and not negative. -/
theorem unwrapAll_exact :
    (∀ numbers : List Int, (∀ n ∈ numbers, 0 ≤ n ∧ n < 2 ^ 63) → (∀ n ∈ numbers.head?, n < 65536) →
      numbers.IsChain (fun a b => (b - a).natAbs < 32768) → unwrapAll (numbers.map u16) = numbers) ∧
    ∀ (sequenceNumbers : List UInt16) (i : Nat) (sequenceNumber : UInt16),
      sequenceNumbers[i]? = some sequenceNumber → ∃ n, (unwrapAll sequenceNumbers)[i]? = some n ∧ 0 ≤ n ∧
        u16 n = sequenceNumber ∧ n < 65536 + 32768 * i := by
  refine ⟨fun numbers hrange hfirst hnear => ?_, fun sequenceNumbers i sequenceNumber hi => ?_⟩
  · cases numbers with
    | nil => rfl
    | cons n numbers =>
      have hn := (hrange n List.mem_cons_self).1
      have hfirst : n < 65536 := hfirst n rfl
      have hunwrap := unwrap_first hn (by omega)
      have hrest := trace_near hn (fun m hm => (hrange m (List.mem_cons_of_mem n hm)).1) hnear
      simp only [unwrapAll, List.map_cons, Machine.trace, step, unwrap, hunwrap, hrest]
  · obtain ⟨n, hn, hpos, hsame, hlt⟩ := trace_any (Or.inl rfl) (Int.le_refl 32768)
      (show (-1 : Int) < 32768 by decide) hi
    exact ⟨n, hn, hpos, hsame, by omega⟩

/-- Forwards past the end of 16 bits, and back. -/
theorem unwrapAll_exact_wrap : unwrapAll [65535, 0, 65534] = [65535, 65536, 65534] := by
  have hrun := unwrapAll_exact.1 [65535, 65536, 65534] (by decide) (by decide) (by decide)
  exact hrun

end SequenceNumberUnwrapper

end WebRtc.Estimator
