import WebRtc.Rtcp.Rounds

/-!
# Headers are read at block boundaries

The blocks of a compound packet follow from the lengths in their headers (`Boundary`). The parser comes
to the next block by setting its pointer to the end of the one it is in, but it does not do so for a
feedback block of a format without items (`LeavesRest`): behind the two SSRCs of such a block it reads
a header, and what is there is payload.
-/

namespace WebRtc.Rtcp

open WebRtc.Rtcp.Parser

variable {buf : List UInt8} {F : Type} {s : Parser F}

/-- The start of a block of the compound packet, or its end. -/
inductive Boundary (buf : List UInt8) : Nat → Prop where
  | start : Boundary buf 0
  | next {p : Nat} {hd : CommonHeader} (at_ : Boundary buf p) (header : headerAt buf p = some hd) :
      Boundary buf (p + hd.blockSize)

/-- There is no boundary inside a block. -/
theorem Boundary.after {q : Nat} (hq : Boundary buf q) {p : Nat} (hp : Boundary buf p) {hd : CommonHeader}
    (hh : headerAt buf p = some hd) (hlt : p < q) : p + hd.blockSize ≤ q := by
  induction hq generalizing p hd with
  | start => omega
  | @next q₀ hd₀ hq₀ hh₀ ih =>
    -- Nor is there one inside the block at `q₀`.
    have hout : p ≤ q₀ ∨ q₀ + hd₀.blockSize ≤ p := by
      clear hlt hh
      induction hp with
      | start => omega
      | @next p₀ hdp hp₀ hhp ihp =>
        rcases ihp with hle | hge
        · rcases Nat.lt_or_eq_of_le hle with hlt | rfl
          · exact Or.inl (ih hp₀ hhp hlt)
          · rw [hhp] at hh₀
            exact Or.inr (Nat.le_of_eq (congrArg (p₀ + CommonHeader.blockSize ·) (Option.some.inj hh₀).symm))
        · omega
    rcases hout with hle | hge
    · rcases Nat.lt_or_eq_of_le hle with hlt | rfl
      · have := ih hp hh hlt
        omega
      · rw [hh] at hh₀
        exact Nat.le_of_eq (congrArg (p + CommonHeader.blockSize ·) (Option.some.inj hh₀))
    · omega

/-- The next round reads a common header. -/
def ReadsHeader (buf : List UInt8) (s : Parser F) : Prop :=
  s.validPacket = true ∧ s.state = .topLevel ∧ s.ptr < buf.length

/-- The next round reads the header of a block of which it leaves the rest. -/
def LeavesBlock (buf : List UInt8) (s : Parser F) : Prop :=
  s.validPacket = true ∧ s.state = .topLevel ∧ ∃ hd, headerAt buf s.ptr = some hd ∧ hd.LeavesRest

/-- The parser is at a boundary, or in a block that ends at one. -/
structure OnFrame (buf : List UInt8) (s : Parser F) : Prop where
  top : s.state = .topLevel → Boundary buf s.ptr
  inside : s.state ≠ .topLevel → Boundary buf s.blockEnd

section Step
variable (parseFrom : List UInt8 → Option F)

theorem iterate_onFrame (h : s.Inv buf) (hf : OnFrame buf s) (hno : ¬ LeavesBlock buf s) :
    OnFrame buf (s.iterate buf parseFrom).1 := by
  cases iterate_cases parseFrom h with
  | finished returned same why =>
    rw [same]
    exact ⟨hf.top, hf.inside⟩
  | block hd valid state header round =>
    have hat : Boundary buf s.ptr := hf.top state
    have hnext : Boundary buf (s.ptr + hd.blockSize) := .next hat header
    have hend : (s.iterate buf parseFrom).1.blockEnd = s.ptr + hd.blockSize := round.blockEnd
    refine ⟨fun htop => ?_, fun _ => hend ▸ hnext⟩
    cases round.move with
    | stopped returned packet _ ptr long =>
      rcases ptr with hp | hp
      · rw [hp]
        exact hat
      · rw [hp]
        exact hnext
    | stuck short goesOn _ ptr =>
      rw [ptr]
      exact hat
    | moved reported forward inBlock word passed long =>
      rcases passed htop with hp | ⟨hrest, -⟩
      · rw [hp]
        exact hnext
      · exact absurd ⟨valid, state, hd, header, hrest⟩ hno
  | item valid inside round =>
    have hend : (s.iterate buf parseFrom).1.blockEnd = s.blockEnd := round.blockEnd
    refine ⟨fun htop => ?_, fun _ => hend ▸ hf.inside inside⟩
    have hp : (s.iterate buf parseFrom).1.ptr = s.blockEnd := round.closed htop
    rw [hp]
    exact hf.inside inside

/-- A block that is left is left behind its SSRCs, at the top level. -/
theorem topLevelBlock_leaves {hd : CommonHeader} (h : AtBlock buf s hd) (hrest : hd.LeavesRest) :
    (s.topLevelBlock buf parseFrom hd).1.state = .topLevel ∧
      (s.topLevelBlock buf parseFrom hd).1.ptr = s.ptr + 12 ∧
      (s.topLevelBlock buf parseFrom hd).1.validPacket = s.validPacket ∧
      ((s.topLevelBlock buf parseFrom hd).2 = true → (s.topLevelBlock buf parseFrom hd).1.packet ≠ none) := by
  have hlen : ¬ s.length < 12 := by
    rw [atBlock_length h]
    exact Nat.not_lt.2 (Nat.le_of_lt hrest.2)
  rcases hrest.1 with ⟨ht, hfmt⟩ | ⟨ht, hfmt⟩
  · simp only [List.mem_cons, List.not_mem_nil, or_false, not_or] at hfmt
    rw [topLevelBlock_feedback parseFrom (Or.inl ht), parseFBCommon, if_neg hlen]
    simp only [ht, if_true, parseRtpfb, if_neg hfmt.1, if_neg hfmt.2.1, if_neg hfmt.2.2.1, if_neg hfmt.2.2.2]
    split
    · exact ⟨h.state, rfl, rfl, fun _ => by simp [report]⟩
    · exact ⟨h.state, rfl, rfl, fun hc => absurd hc Bool.false_ne_true⟩
  · simp only [List.mem_cons, List.not_mem_nil, or_false, not_or] at hfmt
    have hne : ¬ hd.packetType = ptRTPFB := by
      rw [ht]
      decide
    rw [topLevelBlock_feedback parseFrom (Or.inr ht), parseFBCommon, if_neg hlen]
    simp only [if_neg hne, parsePsfb, if_neg hfmt.1, if_neg hfmt.2.1, if_neg hfmt.2.2.1, if_neg hfmt.2.2.2]
    split
    · exact ⟨h.state, rfl, rfl, fun _ => by simp [report]⟩
    · exact ⟨h.state, rfl, rfl, fun hc => absurd hc Bool.false_ne_true⟩

/-- After it the parser reads a header inside that block. -/
theorem iterate_leaves (h : s.Inv buf) (hl : LeavesBlock buf s) (hat : Boundary buf s.ptr) :
    ReadsHeader buf (s.iterate buf parseFrom).1 ∧ ¬ Boundary buf (s.iterate buf parseFrom).1.ptr ∧
      ¬ ((s.iterate buf parseFrom).2 = true ∧ (s.iterate buf parseFrom).1.packet = none) := by
  obtain ⟨hv, hst, hd, hh, hrest⟩ := hl
  have hblock := atBlock_spec h hst hh
  have hfits : s.ptr + hd.blockSize ≤ buf.length := hblock.fits
  obtain ⟨h1, h2, h3, h4⟩ := topLevelBlock_leaves parseFrom hblock hrest
  have h2 : ((atBlock s hd).topLevelBlock buf parseFrom hd).1.ptr = s.ptr + 12 := h2
  have hlong := hrest.2
  rw [iterate_block parseFrom h.ptr hv hst hh]
  refine ⟨⟨h3.trans hv, h1, by omega⟩, fun hb => ?_, fun hend => h4 hend.1 hend.2⟩
  rw [h2] at hb
  have := hb.after hat hh (by omega)
  omega

end Step

section Run
variable (parseFrom : List UInt8 → Option F) (reducedSize : Bool)

/-- Every common header that is read is at a block boundary. -/
def Framed (buf : List UInt8) : Prop :=
  ∀ n, Reached buf parseFrom reducedSize (n + 1) → ReadsHeader buf (steps buf parseFrom reducedSize n).1 →
    Boundary buf (steps buf parseFrom reducedSize n).1.ptr

theorem steps_onFrame {n : Nat} (hr : Reached buf parseFrom reducedSize (n + 1))
    (hno : ∀ m < n, ¬ LeavesBlock buf (steps buf parseFrom reducedSize m).1) :
    OnFrame buf (steps buf parseFrom reducedSize n).1 := by
  induction n with
  | zero => exact ⟨fun _ => .start, fun hs => absurd rfl hs⟩
  | succ n ih =>
    have hf := ih (fun m hm => hr m (Nat.lt_succ_of_lt hm)) fun m hm => hno m (Nat.lt_succ_of_lt hm)
    exact iterate_onFrame parseFrom (steps_inv parseFrom reducedSize n) hf (hno n (Nat.lt_succ_self n))

/-- **The framing is respected** exactly on the buffers on which the parser comes to no feedback block of
a format without items that has more than its SSRCs. -/
theorem framed_iff (buf : List UInt8) :
    Framed parseFrom reducedSize buf ↔
      ∀ n, Reached buf parseFrom reducedSize (n + 1) → ¬ LeavesBlock buf (steps buf parseFrom reducedSize n).1 := by
  constructor
  · intro hframed n hr hl
    obtain ⟨hd, hh, -⟩ := hl.2.2
    have hptr : (steps buf parseFrom reducedSize n).1.ptr < buf.length := by
      have h1 : _ ≤ buf.length := (atBlock_spec (steps_inv parseFrom reducedSize n) hl.2.1 hh).fits
      have h2 := four_le_blockSize hd
      simp only [atBlock] at h1
      omega
    have hat := hframed n hr ⟨hl.1, hl.2.1, hptr⟩
    obtain ⟨hreads, hnot, hgo⟩ := iterate_leaves parseFrom (steps_inv parseFrom reducedSize n) hl hat
    refine hnot (hframed (n + 1) ?_ hreads)
    intro m hm
    rcases Nat.lt_succ_iff_lt_or_eq.1 hm with hm | rfl
    · exact hr m hm
    · exact hgo
  · intro hno n hr hreads
    refine (steps_onFrame parseFrom reducedSize hr fun m hm => hno m ?_).top hreads.2.1
    exact fun k hk => hr k (by omega)

end Run

/-- A picture loss indication with a trailing word that looks like a header. -/
def paddedPli : List UInt8 := [0x81, 206, 0, 3, 0, 0, 0, 1, 0, 0, 0, 2, 0x80, 201, 0, 0]

/-- The word at offset 12 is read as the header of a receiver report. -/
theorem not_framed_paddedPli : ¬ Framed (F := Unit) (fun _ => none) true paddedPli := by
  intro h
  have hr : Reached (F := Unit) paddedPli (fun _ => none) true 2 := by
    intro m hm
    match m with
    | 0 => exact fun h => nomatch h.1
    | 1 => exact fun h => absurd h.2 (by decide)
    | m + 2 => omega
  have hb : Boundary paddedPli 12 := h 1 hr ⟨by decide, by decide, by decide⟩
  have hh : headerAt paddedPli 0 = some ⟨1, 206, 12, 0⟩ := by decide
  exact absurd (hb.after .start hh (by decide)) (by decide)

end WebRtc.Rtcp
