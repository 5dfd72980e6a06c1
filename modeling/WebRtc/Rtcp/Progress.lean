import WebRtc.Rtcp.Rounds

/-!
# The parser ends

Every round that does not end the parse goes forward by a word, or closes something it has entered
(`Parser.toGo`), with one exception: at a feedback block without room for its SSRCs nothing moves, and
the loop of `IterateTopLevel` reads the same header for ever. The pointer goes forward as well, and
stays in the buffer, but for an SDES item whose length runs past its block: there the pointer is moved
by that length before it is set back to the end of the block.
-/

namespace WebRtc.Rtcp

open WebRtc.Rtcp.Parser

variable {buf : List UInt8} {F : Type} {s : Parser F}

/-- What is left to do: the bytes, and what has been entered. -/
def Parser.toGo (buf : List UInt8) (s : Parser F) : Nat := 3 * (buf.length - s.ptr) + rank s.state

/-- The parser is at a feedback block it cannot pass. -/
def Stuck (buf : List UInt8) (s : Parser F) : Prop :=
  s.validPacket = true ∧ s.state = .topLevel ∧ ∃ hd, headerAt buf s.ptr = some hd ∧ hd.ShortFeedback

theorem rank_le (st : ParseState) : rank st ≤ 2 := by
  cases st <;> decide

section Step
variable (parseFrom : List UInt8 → Option F) (h : s.Inv buf)
include h

/-- A round that is not stuck ends the parse or leaves less to do. -/
theorem iterate_progress (hns : ¬ Stuck buf s) :
    (s.iterate buf parseFrom).2 = true ∧ (s.iterate buf parseFrom).1.packet = none ∨
      (s.iterate buf parseFrom).1.toGo buf < s.toGo buf := by
  have hptr := (iterate_inv parseFrom h).ptr
  unfold Parser.toGo
  cases iterate_cases parseFrom h with
  | finished returned same why => exact Or.inl ⟨returned, by rw [same]; rfl⟩
  | block hd valid state header round =>
    cases round.move with
    | stopped returned packet state ptr long => exact Or.inl ⟨returned, packet⟩
    | stuck short goesOn _ ptr => exact absurd ⟨valid, state, hd, header, short⟩ hns
    | moved reported forward inBlock word passed long =>
      have hf : s.ptr + 4 ≤ (s.iterate buf parseFrom).1.ptr := forward
      have hr := rank_le (s.iterate buf parseFrom).1.state
      exact Or.inr (by omega)
  | item valid inside round =>
    have hr := rank_le (s.iterate buf parseFrom).1.state
    have hf : s.ptr ≤ (s.iterate buf parseFrom).1.ptr := round.forward
    rcases round.progress with hp | hp
    · have hp : s.ptr + 4 ≤ (s.iterate buf parseFrom).1.ptr := hp
      exact Or.inr (by omega)
    · have hp : rank (s.iterate buf parseFrom).1.state < rank s.state := hp
      exact Or.inr (by omega)

/-- A round that is stuck changes nothing that the next one looks at. -/
theorem iterate_stuck (hs : Stuck buf s) :
    (s.iterate buf parseFrom).2 = false ∧ Stuck buf (s.iterate buf parseFrom).1 := by
  obtain ⟨hv, hst, hd, hh, hsh⟩ := hs
  cases iterate_cases parseFrom h with
  | finished returned same why =>
    rcases why with hw | ⟨-, hw⟩
    · rw [hv] at hw
      cases hw
    · rw [hw] at hh
      cases hh
  | block hd' valid state header round =>
    obtain rfl : hd' = hd := by
      rw [header] at hh
      exact Option.some.inj hh
    cases round.move with
    | stopped returned packet state ptr long => exact absurd hsh long
    | stuck short goesOn state ptr =>
      have hptr : (s.iterate buf parseFrom).1.ptr = s.ptr := ptr
      refine ⟨goesOn, round.valid.trans hv, state, hd', ?_, hsh⟩
      rw [hptr]
      exact header
    | moved reported forward inBlock word passed long => exact absurd hsh long
  | item valid inside round => exact absurd hst inside

theorem iterate_steady (hno : ¬ Overruns buf s) : (s.iterate buf parseFrom).1.steady = s.steady := by
  cases iterate_cases parseFrom h with
  | finished returned same why =>
    rw [same]
    rfl
  | block hd valid state header round => exact round.steady
  | item valid inside round =>
    have hst : (s.iterate buf parseFrom).1.steady = (s.steady && !decide (Overruns buf s)) := round.steady
    rw [hst, decide_eq_false hno]
    exact Bool.and_true _

theorem iterate_overrun (hv : s.validPacket = true) (ho : Overruns buf s) :
    (s.iterate buf parseFrom).1.steady = false := by
  have hin : s.state ≠ .topLevel := by
    rw [ho.1]
    simp
  cases iterate_cases parseFrom h with
  | finished returned same why =>
    rcases why with hw | hw
    · rw [hv] at hw
      cases hw
    · exact absurd hw.1 hin
  | block hd valid state header round => exact absurd state hin
  | item valid inside round =>
    have hst : (s.iterate buf parseFrom).1.steady = (s.steady && !decide (Overruns buf s)) := round.steady
    rw [hst, decide_eq_true ho]
    exact Bool.and_false _

end Step

/-! ## Whole parses -/

section Run
variable (parseFrom : List UInt8 → Option F) (reducedSize : Bool)

/-- `Begin` and `Iterate` return `kInvalid` in the end, every call of them returns, and until then the
pointer only goes forward and stays in the buffer. -/
structure WellBehaved (buf : List UInt8) : Prop where
  ends : ∃ n, Ended buf parseFrom reducedSize n
  steady : ∀ n, Reached buf parseFrom reducedSize n → (steps buf parseFrom reducedSize n).1.steady = true

theorem reached_succ {n : Nat} (h : Reached buf parseFrom reducedSize n) (hn : ¬ Ended buf parseFrom reducedSize n) :
    Reached buf parseFrom reducedSize (n + 1) := by
  intro m hm
  rcases Nat.lt_succ_iff_lt_or_eq.1 hm with hm | rfl
  · exact h m hm
  · exact hn

/-- By induction on what is left to do. -/
theorem ends_of_not_stuck (hno : ∀ n, Reached buf parseFrom reducedSize (n + 1) → ¬ Stuck buf
    (steps buf parseFrom reducedSize n).1)
    (k n : Nat) (hk : (steps buf parseFrom reducedSize n).1.toGo buf ≤ k) (hr : Reached buf parseFrom reducedSize n) :
    ∃ n, Ended buf parseFrom reducedSize n := by
  induction k generalizing n with
  | zero =>
    by_cases he : Ended buf parseFrom reducedSize n
    · exact ⟨n, he⟩
    · have hr := reached_succ parseFrom reducedSize hr he
      rcases iterate_progress parseFrom (steps_inv parseFrom reducedSize n) (hno n hr) with hend | hlt
      · exact ⟨n + 1, hend⟩
      · omega
  | succ k ih =>
    by_cases he : Ended buf parseFrom reducedSize n
    · exact ⟨n, he⟩
    · have hr := reached_succ parseFrom reducedSize hr he
      rcases iterate_progress parseFrom (steps_inv parseFrom reducedSize n) (hno n hr) with hend | hlt
      · exact ⟨n + 1, hend⟩
      · exact ih (n + 1) (by rw [steps]; omega) hr

/-- Once stuck, never over. -/
theorem not_ended_of_stuck {n : Nat} (hr : Reached buf parseFrom reducedSize (n + 1))
    (hs : Stuck buf (steps buf parseFrom reducedSize n).1) (k : Nat) :
    ¬ Ended buf parseFrom reducedSize (n + k) ∧ Stuck buf (steps buf parseFrom reducedSize (n + k)).1 := by
  induction k with
  | zero => exact ⟨hr n (Nat.lt_succ_self n), hs⟩
  | succ k ih =>
    obtain ⟨hgo, hstuck⟩ := iterate_stuck parseFrom (steps_inv parseFrom reducedSize (n + k)) ih.2
    refine ⟨fun he => ?_, hstuck⟩
    have hret : (steps buf parseFrom reducedSize (n + k + 1)).2 = true := he.1
    rw [steps, hgo] at hret
    cases hret

/-- **The parser is well behaved** exactly on the buffers on which it comes to no feedback block without
room for its SSRCs, and to no SDES block with an item that runs past its end. -/
theorem wellBehaved_iff (buf : List UInt8) :
    WellBehaved parseFrom reducedSize buf ↔
      ∀ n, Reached buf parseFrom reducedSize (n + 1) →
        ¬ Stuck buf (steps buf parseFrom reducedSize n).1 ∧ ¬ Overruns buf (steps buf parseFrom reducedSize n).1 := by
  constructor
  · intro h n hr
    refine ⟨fun hs => ?_, fun ho => ?_⟩
    · obtain ⟨m, hm⟩ := h.ends
      rcases Nat.lt_or_ge m n with hlt | hge
      · exact hr m (by omega) hm
      · obtain ⟨k, rfl⟩ := Nat.exists_eq_add_of_le hge
        exact (not_ended_of_stuck parseFrom reducedSize hr hs k).1 hm
    · have hv := steps_valid parseFrom reducedSize n (by rw [ho.1]; simp)
      have hfalse := iterate_overrun parseFrom (steps_inv parseFrom reducedSize n) hv ho
      have htrue : (steps buf parseFrom reducedSize (n + 1)).1.steady = true := h.steady (n + 1) hr
      rw [steps, hfalse] at htrue
      cases htrue
  · intro hno
    refine ⟨ends_of_not_stuck parseFrom reducedSize (fun n hr => (hno n hr).1) _ 0 (Nat.le_refl _)
      fun m hm => absurd hm (Nat.not_lt_zero m), fun n hr => ?_⟩
    induction n with
    | zero => rfl
    | succ n ih =>
      rw [steps, iterate_steady parseFrom (steps_inv parseFrom reducedSize n) (hno n hr).2]
      exact ih fun m hm => hr m (Nat.lt_succ_of_lt hm)

end Run

/-- A receiver report, and a transport feedback message that is only a header. -/
def headerOnlyFeedback : List UInt8 := [0x80, 201, 0, 1, 0, 0, 0, 1, 0x80, 205, 0, 0]

theorem not_wellBehaved_headerOnly : ¬ WellBehaved (F := Unit) (fun _ => none) false headerOnlyFeedback := by
  rintro ⟨⟨n, hn⟩, -⟩
  have h0 : ¬ Ended (F := Unit) headerOnlyFeedback (fun _ => none) false 0 := fun h => nomatch h.1
  have h1 : ¬ Ended (F := Unit) headerOnlyFeedback (fun _ => none) false 1 := fun h => absurd h.2 (by decide)
  have h2 : ¬ Ended (F := Unit) headerOnlyFeedback (fun _ => none) false 2 := fun h => absurd h.1 (by decide)
  have hr : Reached (F := Unit) headerOnlyFeedback (fun _ => none) false 3 := by
    intro m hm
    match m with
    | 0 => exact h0
    | 1 => exact h1
    | 2 => exact h2
    | m + 3 => omega
  -- After the two rounds of the receiver report.
  have hs : Stuck headerOnlyFeedback (steps (F := Unit) headerOnlyFeedback (fun _ => none) false 2).1 :=
    ⟨by decide, by decide, ⟨0, 205, 0, 0⟩, by decide, by decide⟩
  rcases Nat.lt_or_ge n 2 with hlt | hge
  · exact hr n (by omega) hn
  · obtain ⟨k, rfl⟩ := Nat.exists_eq_add_of_le hge
    exact (not_ended_of_stuck _ _ hr hs k).1 hn

end WebRtc.Rtcp
