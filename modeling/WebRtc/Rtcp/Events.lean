import WebRtc.Rtcp.Buffer
import WebRtc.Rtcp.Rounds

/-!
# What a parse reports

`Yields` is what a caller sees who calls `Iterate` until it returns `kInvalid`. `Run` puts rounds
together; the lemmas below it take the parser over the header of a block, over its items and out of it
again, from what stands in the buffer.
-/

namespace WebRtc.Rtcp

open Bytes
open WebRtc.Rtcp.Parser

section
variable (buf : List UInt8) {F : Type} (parseFrom : List UInt8 → Option F)

/-- What a round returns to the caller. -/
def returned (r : Parser F × Bool) : Option (Packet F) := if r.2 then r.1.packet else none

def reports (reducedSize : Bool) : Nat → List (Packet F)
  | 0 => []
  | n + 1 => reports reducedSize n ++ (returned (steps buf parseFrom reducedSize (n + 1))).toList

/-- A whole parse ends, and reports `packets`. -/
def Yields (reducedSize : Bool) (packets : List (Packet F)) : Prop :=
  ∃ n, Reached buf parseFrom reducedSize n ∧ Ended buf parseFrom reducedSize n ∧
    reports buf parseFrom reducedSize n = packets

/-- Rounds from one state to another, none of which returns `kInvalid`. -/
inductive Run : Parser F → List (Packet F) → Parser F → Prop
  | refl (s : Parser F) : Run s [] s
  | quiet {s t u : Parser F} {ps : List (Packet F)} :
      s.iterate buf parseFrom = (t, false) → Run t ps u → Run s ps u
  | report {s t u : Parser F} {p : Packet F} {ps : List (Packet F)} :
      s.iterate buf parseFrom = (t, true) → t.packet = some p → Run t ps u → Run s (p :: ps) u

end

variable {buf : List UInt8} {F : Type} {parseFrom : List UInt8 → Option F} {s t u : Parser F}
variable {ps qs : List (Packet F)}

theorem Run.trans (h : Run buf parseFrom s ps t) (h' : Run buf parseFrom t qs u) :
    Run buf parseFrom s (ps ++ qs) u := by
  induction h with
  | refl s => exact h'
  | quiet hi _ ih => exact .quiet hi (ih h')
  | report hi hp _ ih => exact .report hi hp (ih h')

/-- The rounds of a run are rounds of the parse. -/
theorem Run.steps {reducedSize : Bool} (h : Run buf parseFrom s ps t) {n : Nat}
    (hn : (steps buf parseFrom reducedSize n).1 = s) (hr : Reached buf parseFrom reducedSize (n + 1)) :
    ∃ m, (steps buf parseFrom reducedSize m).1 = t ∧ Reached buf parseFrom reducedSize (m + 1) ∧
      reports buf parseFrom reducedSize m = reports buf parseFrom reducedSize n ++ ps := by
  induction h generalizing n with
  | refl s => exact ⟨n, hn, hr, (List.append_nil _).symm⟩
  | @quiet s t u ps hi _ ih =>
    have hs : WebRtc.Rtcp.steps buf parseFrom reducedSize (n + 1) = (t, false) := by rw [WebRtc.Rtcp.steps, hn, hi]
    have hr' : Reached buf parseFrom reducedSize (n + 1 + 1) := by
      intro m hm
      rcases Nat.lt_succ_iff_lt_or_eq.1 hm with hm | rfl
      · exact hr m hm
      · rintro ⟨hret, -⟩
        rw [hs] at hret
        exact Bool.false_ne_true hret
    obtain ⟨m, hm, hmr, hrep⟩ := ih (by rw [hs]) hr'
    refine ⟨m, hm, hmr, ?_⟩
    rw [hrep, reports, hs]
    simp [returned]
  | @report s t u p ps hi hp _ ih =>
    have hs : WebRtc.Rtcp.steps buf parseFrom reducedSize (n + 1) = (t, true) := by rw [WebRtc.Rtcp.steps, hn, hi]
    have hr' : Reached buf parseFrom reducedSize (n + 1 + 1) := by
      intro m hm
      rcases Nat.lt_succ_iff_lt_or_eq.1 hm with hm | rfl
      · exact hr m hm
      · rintro ⟨-, hnone⟩
        rw [hs, hp] at hnone
        cases hnone
    obtain ⟨m, hm, hmr, hrep⟩ := ih (by rw [hs]) hr'
    refine ⟨m, hm, hmr, ?_⟩
    rw [hrep, reports, hs]
    simp [returned, hp]

/-- A run from the start to a state that returns `kInvalid` is a whole parse. -/
theorem Run.yields {reducedSize : Bool} (h : Run buf parseFrom (init buf reducedSize) ps t)
    (hlast : t.iterate buf parseFrom = (u, true)) (hnone : u.packet = none) :
    Yields buf parseFrom reducedSize ps := by
  have hr : Reached buf parseFrom reducedSize (0 + 1) := by
    intro m hm
    have h0 : m = 0 := by omega
    subst h0
    rintro ⟨hret, -⟩
    exact Bool.false_ne_true hret
  obtain ⟨m, hm, hmr, hrep⟩ := h.steps (n := 0) rfl hr
  have hs : WebRtc.Rtcp.steps buf parseFrom reducedSize (m + 1) = (u, true) := by rw [WebRtc.Rtcp.steps, hm, hlast]
  refine ⟨m + 1, hmr, ⟨by rw [hs], by rw [hs]; exact hnone⟩, ?_⟩
  rw [reports, hrep, hs]
  simp [reports, returned, hnone]

/-! ## Places -/

/-- At the top level, at `p`. -/
structure AtTop (s : Parser F) (p : Nat) : Prop where
  valid : s.validPacket = true
  state : s.state = .topLevel
  ptr : s.ptr = p

/-- Among the items of a block that ends at `e`. -/
structure InItems (state : ParseState) (s : Parser F) (p e : Nat) : Prop where
  valid : s.validPacket = true
  state : s.state = state
  ptr : s.ptr = p
  blockEnd : s.blockEnd = e

variable {p e : Nat}

theorem atTop_end (h : AtTop s buf.length) : s.iterate buf parseFrom = (s.clear, true) := by
  have hst : s.clear.state = .topLevel := h.state
  have hptr : buf.length ≤ s.clear.ptr := Nat.le_of_eq h.ptr.symm
  rw [iterate, if_pos h.valid, dispatch, hst]
  dsimp only
  rw [iterateTopLevel, if_pos hptr]

/-- A parse of a buffer that is all blocks. -/
theorem Run.yields_of_atTop {reducedSize : Bool} (h : Run buf parseFrom (init buf reducedSize) ps t)
    (ht : AtTop t buf.length) : Yields buf parseFrom reducedSize ps :=
  h.yields (atTop_end ht) rfl

theorem iterate_state {state : ParseState} (h : InItems state s p e) :
    s.iterate buf parseFrom = s.clear.dispatch buf parseFrom := by rw [iterate, if_pos h.valid]

/-! ## Headers -/

theorem headerByte (c : UInt8) : c < 32 → (128 + c) &&& 0x1f = c ∧ (128 + c).toNat / 64 = 2 ∧
    (128 + c) &&& 0x20 = 0 := by
  revert c
  decide +kernel

theorem headerAt_create {count words : Nat} {packetType : UInt8} (hc : count < 32) (hw : words < 65536)
    (h : At buf p (createHeader count packetType words)) (hfits : p + (words + 1) * 4 ≤ buf.length) :
    headerAt buf p = some ⟨count, packetType.toNat, words * 4, 0⟩ := by
  obtain ⟨h0, h⟩ := at_cons.1 h
  obtain ⟨h1, h2⟩ := at_cons.1 h
  have hwords : (read16At buf (p + 2)).toNat = words := by
    rw [h2.read16, UInt16.toNat_ofNat', Nat.mod_eq_of_lt hw]
  have hcount : (UInt8.ofNat count).toNat = count := by
    rw [UInt8.toNat_ofNat', Nat.mod_eq_of_lt (by omega)]
  have hbyte : byteAt buf p = 128 + UInt8.ofNat count := by
    rw [h0.byte, UInt8.ofNat_add]
    rfl
  obtain ⟨hformat, hversion, hpadding⟩ :=
    headerByte (UInt8.ofNat count) (by rw [UInt8.lt_iff_toNat_lt, hcount]; exact hc)
  simp only [headerAt, rtcpParseCommonHeader]
  rw [hwords, hbyte, h1.byte, hformat, hversion, hpadding, hcount, if_neg (by omega),
    if_neg (by simp), if_neg (by omega),
    if_neg (by simp)]
  simp only [Option.some.injEq, CommonHeader.mk.injEq, and_true, true_and]
  omega

/-- The parser takes up a block. -/
theorem iterate_header {hd : CommonHeader} (h : AtTop s p) (hp : p ≤ buf.length) (hh : headerAt buf p = some hd) :
    s.iterate buf parseFrom = (atBlock s hd).topLevelBlock buf parseFrom hd :=
  iterate_block parseFrom (h.ptr ▸ hp) h.valid h.state (h.ptr ▸ hh)

/-- The SSRCs of a feedback block. What follows is `parseRtpfb` or `parsePsfb`, at the first item. -/
theorem iterate_feedback {fmt words : Nat} {packetType : UInt8} {sender media : UInt32}
    (hfb : packetType.toNat = ptRTPFB ∨ packetType.toNat = ptPSFB) (hfmt : fmt < 32) (h2 : 2 ≤ words)
    (hw : words < 65536) (h : AtTop s p) (hp : p + (words + 1) * 4 ≤ buf.length)
    (hat : At buf p (createHeader fmt packetType words ++ be32 sender ++ be32 media)) :
    ∃ (t : Parser F) (block : List UInt8), AtTop t (p + 12) ∧ t.blockEnd = p + (words + 1) * 4 ∧
      s.iterate buf parseFrom =
        if packetType.toNat = ptRTPFB then t.parseRtpfb buf parseFrom fmt sender media block
        else t.parsePsfb fmt sender media := by
  obtain ⟨hat, hmedia⟩ := at_append.1 hat
  obtain ⟨hhead, hsender⟩ := at_append.1 hat
  have hsender : read32At buf (p + 4) = sender := hsender.read32
  have hmedia : read32At buf (p + 8) = media := hmedia.read32
  have hh := headerAt_create hfmt hw hhead hp
  have hsize : (CommonHeader.mk fmt packetType.toNat (words * 4) 0).blockSize = (words + 1) * 4 := by
    unfold CommonHeader.blockSize
    dsimp only
    omega
  have hptr : (atBlock s ⟨fmt, packetType.toNat, words * 4, 0⟩).ptr = p := h.ptr
  have hend : (atBlock s ⟨fmt, packetType.toNat, words * 4, 0⟩).blockEnd = p + (words + 1) * 4 := by
    show s.ptr + _ = _
    rw [h.ptr, hsize]
  have hlen : (atBlock s ⟨fmt, packetType.toNat, words * 4, 0⟩).length = (words + 1) * 4 := by
    unfold Parser.length
    rw [hend, hptr, Nat.add_sub_cancel_left]
  refine ⟨(atBlock s ⟨fmt, packetType.toNat, words * 4, 0⟩).moveTo buf (p + 12), bytesAt buf p ((words + 1) * 4),
    ⟨h.valid, h.state, rfl⟩, hend, ?_⟩
  rw [iterate_header h (by omega) hh, topLevelBlock_feedback parseFrom hfb, parseFBCommon, hlen,
    if_neg (by omega), hptr,
    hsender, hmedia]

/-- Where a parse starts, if the buffer starts with a block; any will do where packets may be short. -/
theorem init_atTop {hd : CommonHeader} (hh : headerAt buf 0 = some hd) : AtTop (init (F := F) buf true) 0 := by
  have hsize := (blockSize_of_parse hh).2
  have h4 := four_le_blockSize hd
  refine ⟨?_, rfl, rfl⟩
  show validate buf true = true
  rw [validate, if_neg (by omega), hh]
  rfl

/-- Nothing is reported of an empty buffer. -/
theorem yields_nil (parseFrom : List UInt8 → Option F) : Yields [] parseFrom true [] :=
  Run.yields (.refl _) (u := (init [] true).clear) rfl rfl

/-! ## Items -/

theorem InItems.length {state : ParseState} {n : Nat} (h : InItems state s p (p + n)) : s.clear.length = n := by
  have hlen : s.clear.length = s.blockEnd - s.ptr := rfl
  rw [hlen, h.blockEnd, h.ptr, Nat.add_sub_cancel_left]

/-- Out of a block that has nothing more. -/
theorem endItem_run {state : ParseState} (h : InItems state s p e)
    (hend : s.clear.dispatch buf parseFrom = (s.clear.endItem buf, false)) :
    ∃ t, Run buf parseFrom s [] t ∧ AtTop t e := by
  have hround : s.iterate buf parseFrom = (s.clear.endItem buf, false) := by rw [iterate_state h, hend]
  exact ⟨_, .quiet hround (.refl _), h.valid, rfl, h.blockEnd⟩

/-- The items of a block up to its end, `k` bytes each. `item` is what the parser reads at a position,
`enc` what was written for `event`. -/
theorem items_run {α : Type} {state : ParseState} {k : Nat} (hk : 0 < k) {item : Nat → Packet F}
    (hdisp : ∀ s : Parser F, s.state = state → s.dispatch buf parseFrom = s.parseItem buf k (item s.ptr))
    {enc : α → List UInt8} {event : α → Packet F} (hlen : ∀ a, (enc a).length = k)
    (hread : ∀ q a, At buf q (enc a) → item q = event a) (l : List α) {s : Parser F} {p : Nat}
    (hat : At buf p (l.flatMap enc)) (h : InItems state s p (p + k * l.length)) :
    ∃ t, Run buf parseFrom s (l.map event) t ∧ AtTop t (p + k * l.length) := by
  induction l generalizing s p with
  | nil =>
    refine endItem_run h ?_
    rw [hdisp s.clear h.state, parseItem, h.length, if_pos (by simpa using hk)]
  | cons a l ih =>
    have hmul : k * (a :: l).length = k + k * l.length := by rw [List.length_cons, Nat.mul_succ, Nat.add_comm]
    have hptr : s.clear.ptr = p := h.ptr
    rw [List.flatMap_cons] at hat
    obtain ⟨ha, hl⟩ := at_append.1 hat
    rw [hlen a] at hl
    have hround : s.iterate buf parseFrom = ((s.clear.moveTo buf (p + k)).report (event a), true) := by
      rw [iterate_state h, hdisp s.clear h.state, parseItem, h.length, if_neg (by omega), hptr, hread p a ha]
    have hin : InItems state ((s.clear.moveTo buf (p + k)).report (event a)) (p + k) (p + k + k * l.length) := by
      refine ⟨h.valid, h.state, rfl, h.blockEnd.trans ?_⟩
      rw [hmul, Nat.add_assoc]
    obtain ⟨t, hrun, ht⟩ := ih hl hin
    refine ⟨t, .report hround rfl hrun, ?_⟩
    rw [hmul, ← Nat.add_assoc]
    exact ht

end WebRtc.Rtcp
