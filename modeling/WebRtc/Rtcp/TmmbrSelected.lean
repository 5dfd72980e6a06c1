import Mathlib.Data.Real.Basic
import WebRtc.Lib.Lines
import WebRtc.Rtcp.Tmmbr

/-!
# The selected list

Of a tuple only its line matters: the net bitrate it allows falls with the packet rate. The candidates come with
larger and larger overheads, and as long as none has a lower bitrate than the last tuple selected, `place` does with
the stack what Lib/Lines says of falling lines (`place_spec`).
-/

namespace WebRtc.Rtcp

open Lines

/-- What a receiver can be asked: bitrates in kbit/s of 32-bit numbers of bit/s, and overheads of 9 bits. -/
structure SetElement.Valid (c : SetElement) : Prop where
  bitrate : 0 < c.tmmbr.toNat ∧ c.tmmbr.toNat ≤ 4294967
  overhead : 0 < c.packetOh.toNat ∧ c.packetOh.toNat ≤ 511

noncomputable def SetElement.line (c : SetElement) : Line ℝ := ⟨c.tmmbr.toNat, 8 * c.packetOh.toNat⟩

/-- The constraint of a tuple. -/
def SetElement.Allows (c : SetElement) (bitrate packetRate : ℝ) : Prop :=
  bitrate + 8 * c.packetOh.toNat * packetRate ≤ c.tmmbr.toNat

theorem line_allows {c : SetElement} {x y : ℝ} : c.line.Allows x y ↔ c.Allows y x := Iff.rfl

/-! ## Rates -/

section Rates
variable {c l p : SetElement}

/-- No bitrate is lower, no overhead as large. -/
structure Steeper (c l : SetElement) : Prop where
  overhead : l.packetOh.toNat < c.packetOh.toNat
  bitrate : l.tmmbr.toNat ≤ c.tmmbr.toNat

theorem Steeper.trans (h : Steeper c l) (h' : Steeper l p) : Steeper c p :=
  ⟨Nat.lt_trans h'.overhead h.overhead, Nat.le_trans h'.bitrate h.bitrate⟩

theorem Steeper.slope (h : Steeper c l) : l.line.slope < c.line.slope := by
  have hlt : (l.packetOh.toNat : ℝ) < c.packetOh.toNat := by exact_mod_cast h.overhead
  unfold SetElement.line
  dsimp only
  linarith

theorem Steeper.height (h : Steeper c l) : l.line.height ≤ c.line.height := by
  have hle : (l.tmmbr.toNat : ℝ) ≤ c.tmmbr.toNat := by exact_mod_cast h.bitrate
  exact hle

theorem SetElement.Valid.slope_pos (h : c.Valid) : 0 < c.line.slope := by
  have hpos : (0 : ℝ) < c.packetOh.toNat := by exact_mod_cast h.overhead.1
  unfold SetElement.line
  dsimp only
  linarith

/-- Without a lower bitrate nothing wraps. -/
theorem packetRate_eq (h : Steeper c l) (hc : c.Valid) : packetRate c l =
    ⟨(c.tmmbr.toNat - l.tmmbr.toNat) * 1000, 8 * (c.packetOh.toNat - l.packetOh.toNat)⟩ := by
  obtain ⟨hoh, htmmbr⟩ := h
  have hover := hc.overhead.2
  have hlow := c.tmmbr.toNat_lt
  have height : (8 : UInt32).toNat = 8 := rfl
  unfold packetRate
  rw [UInt32.toNat_sub, UInt32.toNat_mul, UInt32.toNat_sub, height]
  exact congrArg₂ FloatQuotient.mk (by omega) (by omega)

theorem maxPacketRate_eq (hl : l.Valid) : maxPacketRate l = ⟨l.tmmbr.toNat * 1000, 8 * l.packetOh.toNat⟩ := by
  have hbitrate := hl.bitrate.2
  have hover := hl.overhead.2
  have hthousand : (1000 : UInt32).toNat = 1000 := rfl
  have height : (8 : UInt32).toNat = 8 := rfl
  unfold maxPacketRate
  rw [UInt32.toNat_mul, UInt32.toNat_mul, hthousand, height]
  exact congrArg₂ FloatQuotient.mk (by omega) (by omega)

theorem le_iff {a b a' b' : Nat} (hb : 0 < b) (hb' : 0 < b') :
    (FloatQuotient.mk a b).le ⟨a', b'⟩ = true ↔ a * b' ≤ a' * b := by
  simp [FloatQuotient.le, FloatQuotient.isNan, hb.ne', hb'.ne']

theorem lt_iff {a b a' b' : Nat} (hb : 0 < b) (hb' : 0 < b') :
    (FloatQuotient.mk a b).lt ⟨a', b'⟩ = true ↔ a * b' < a' * b := by
  simp [FloatQuotient.lt, FloatQuotient.isNan, hb.ne', hb'.ne']

theorem packetRate_le_iff (hcl : Steeper c l) (hlp : Steeper l p) (hc : c.Valid) (hl : l.Valid) :
    (packetRate c l).le (packetRate l p) = true ↔ c.line.CrossesBefore l.line p.line := by
  obtain ⟨hoh, htmmbr⟩ := hcl
  obtain ⟨hoh', htmmbr'⟩ := hlp
  rw [packetRate_eq ⟨hoh, htmmbr⟩ hc, packetRate_eq ⟨hoh', htmmbr'⟩ hl, le_iff (by omega) (by omega)]
  have hcast : c.line.CrossesBefore l.line p.line ↔
      (c.tmmbr.toNat - l.tmmbr.toNat) * (l.packetOh.toNat - p.packetOh.toNat) ≤
        (l.tmmbr.toNat - p.tmmbr.toNat) * (c.packetOh.toNat - l.packetOh.toNat) := by
    unfold Line.CrossesBefore SetElement.line
    rw [← Nat.cast_le (α := ℝ)]
    push_cast [Nat.cast_sub htmmbr, Nat.cast_sub htmmbr', Nat.cast_sub hoh.le, Nat.cast_sub hoh'.le]
    constructor <;> intro h <;> linarith
  rw [hcast]
  constructor <;> intro h
  · nlinarith
  · nlinarith

theorem packetRate_lt_iff (hcl : Steeper c l) (hc : c.Valid) (hl : l.Valid) :
    (packetRate c l).lt (maxPacketRate l) = true ↔ ¬ c.line.CrossesUnder l.line := by
  obtain ⟨hoh, htmmbr⟩ := hcl
  have hpos := hl.overhead.1
  rw [packetRate_eq ⟨hoh, htmmbr⟩ hc, maxPacketRate_eq hl, lt_iff (by omega) (by omega)]
  have hcast : c.line.CrossesUnder l.line ↔ l.tmmbr.toNat * (c.packetOh.toNat - l.packetOh.toNat) ≤
      (c.tmmbr.toNat - l.tmmbr.toNat) * l.packetOh.toNat := by
    unfold Line.CrossesUnder SetElement.line
    rw [← Nat.cast_le (α := ℝ)]
    push_cast [Nat.cast_sub htmmbr, Nat.cast_sub hoh.le]
    constructor <;> intro h <;> linarith
  rw [hcast, not_le]
  constructor <;> intro h
  · nlinarith
  · nlinarith

theorem packetRate_le_zero_iff (hcl : Steeper c l) (hc : c.Valid) :
    (packetRate c l).le ⟨0, 1⟩ = true ↔ c.tmmbr.toNat = l.tmmbr.toNat := by
  obtain ⟨hoh, htmmbr⟩ := hcl
  rw [packetRate_eq ⟨hoh, htmmbr⟩ hc, le_iff (by omega) (by omega)]
  omega

end Rates

/-! ## The stack -/

/-- The list goes down to the tuple it began with; every tuple is kept with its crossing. -/
def Stacked (base : SetElement) : List Selected → Prop
  | [] => False
  | [s] => s = ⟨base, ⟨0, 1⟩, maxPacketRate base⟩
  | s :: p :: selected => Steeper s.tuple p.tuple ∧ s.intersection = packetRate s.tuple p.tuple ∧
      s.maxPr = maxPacketRate s.tuple ∧ s.intersection.le p.intersection = false ∧ Stacked base (p :: selected)

section Stack
variable {base c : SetElement} {selected : List Selected}

noncomputable def lines (selected : List Selected) : List (Line ℝ) := selected.map fun s => s.tuple.line

theorem Stacked.maxPr {s : Selected} (h : Stacked base (s :: selected)) : s.maxPr = maxPacketRate s.tuple := by
  cases selected with
  | nil =>
    rw [Stacked] at h
    rw [h]
  | cons p selected => exact h.2.2.1

theorem Stacked.base_mem (h : Stacked base selected) : ∃ s ∈ selected, s.tuple = base := by
  induction selected with
  | nil => exact h.elim
  | cons s selected ih =>
    cases selected with
    | nil =>
      rw [Stacked] at h
      exact ⟨s, List.mem_cons_self, by rw [h]⟩
    | cons p selected =>
      obtain ⟨t, ht, hbase⟩ := ih h.2.2.2.2
      exact ⟨t, List.mem_cons_of_mem s ht, hbase⟩

theorem Stacked.rising (h : Stacked base selected) (hvalid : ∀ s ∈ selected, s.tuple.Valid) :
    Rising (lines selected) := by
  induction selected with
  | nil => trivial
  | cons s selected ih =>
    cases selected with
    | nil => trivial
    | cons p selected =>
      obtain ⟨hs, hrest⟩ := List.forall_mem_cons.1 hvalid
      have hp := hrest p List.mem_cons_self
      have htail := ih h.2.2.2.2 hrest
      cases selected with
      | nil => exact h.1.slope
      | cons q selected =>
        refine ⟨h.1.slope, ?_, htail⟩
        have hle := h.2.2.2.1
        rw [h.2.1, h.2.2.2.2.2.1] at hle
        rw [← packetRate_le_iff h.1 h.2.2.2.2.1 hs hp, hle]
        simp

/-- The last tuple is the steepest. -/
theorem Stacked.steeper {s t : Selected} (h : Stacked base (s :: selected)) (ht : t ∈ selected) :
    Steeper s.tuple t.tuple := by
  induction selected generalizing s with
  | nil => cases ht
  | cons p selected ih =>
    rcases List.mem_cons.1 ht with rfl | ht
    · exact h.1
    · exact h.1.trans (ih h.2.2.2.2 ht)

theorem Stacked.nodup (h : Stacked base selected) : (selected.map Selected.tuple).Nodup := by
  induction selected with
  | nil => exact List.nodup_nil
  | cons s selected ih =>
    have htail : (selected.map Selected.tuple).Nodup := by
      cases selected with
      | nil => exact List.nodup_nil
      | cons p selected => exact ih h.2.2.2.2
    refine List.nodup_cons.2 ⟨fun hmem => ?_, htail⟩
    obtain ⟨t, ht, heq⟩ := List.mem_map.1 hmem
    have hlt := (h.steeper ht).overhead
    rw [heq] at hlt
    exact Nat.lt_irrefl _ hlt

theorem Stacked.le_iff {s p : Selected} (h : Stacked base (s :: p :: selected)) (hs : s.tuple.Valid) (hc : c.Valid)
    (hsteep : Steeper c s.tuple) :
    (packetRate c s.tuple).le s.intersection = true ↔ c.line.CrossesBefore s.tuple.line p.tuple.line := by
  rw [h.2.1]
  exact packetRate_le_iff hsteep h.1 hc hs

/-- **A candidate that is steeper than the whole list.** The new list allows what the old one and the candidate allow,
and has the candidate in it only when that makes a difference. -/
theorem place_spec (hstack : Stacked base selected) (hvalid : ∀ s ∈ selected, s.tuple.Valid) (hc : c.Valid)
    (hsteep : ∀ s ∈ selected, Steeper c s.tuple) (hbase : base.tmmbr.toNat < c.tmmbr.toNat) :
    ∃ selected', place c selected = some selected' ∧ Stacked base selected' ∧
      (selected' <:+ selected ∨
        ∃ s rest, selected' = s :: rest ∧ s.tuple = c ∧ rest <:+ selected ∧ Touches c.line (lines selected)) ∧
      (∀ bitrate rate, 0 ≤ bitrate → (∀ s ∈ selected', s.tuple.Allows bitrate rate) →
        (∀ s ∈ selected, s.tuple.Allows bitrate rate) ∧ c.Allows bitrate rate) := by
  induction selected with
  | nil => exact hstack.elim
  | cons s selected ih =>
    obtain ⟨hs, hrest⟩ := List.forall_mem_cons.1 hvalid
    obtain ⟨hcs, hsteep'⟩ := List.forall_mem_cons.1 hsteep
    rw [place]
    by_cases hpop : (packetRate c s.tuple).le s.intersection = true
    · rw [if_pos hpop]
      cases selected with
      | nil =>
        -- The first tuple stays: the candidate has a higher bitrate.
        rw [Stacked] at hstack
        rw [hstack, packetRate_le_zero_iff (by rw [hstack] at hcs; exact hcs) hc] at hpop
        exact absurd hpop hbase.ne'
      | cons p selected =>
        have hcross := (hstack.le_iff hs hc hcs).1 hpop
        obtain ⟨selected', hplace, hstacked, hmem, hregion⟩ := ih hstack.2.2.2.2 hrest hsteep'
        refine ⟨selected', hplace, hstacked, ?_, ?_⟩
        · have hcons : p :: selected <:+ s :: p :: selected := List.suffix_cons s _
          rcases hmem with hsuffix | ⟨t, rest, heq, ht, hsuffix, htouch⟩
          · exact Or.inl (hsuffix.trans hcons)
          · exact Or.inr ⟨t, rest, heq, ht, hsuffix.trans hcons, Touches.cons htouch hstack.1.slope hcs.slope hcross⟩
        · intro bitrate rate hbitrate hall
          obtain ⟨hsel, hcand⟩ := hregion bitrate rate hbitrate hall
          refine ⟨List.forall_mem_cons.2 ⟨?_, hsel⟩, hcand⟩
          exact Line.allows_between hstack.1.slope hcs.slope hcross (line_allows.2 (hsel p List.mem_cons_self)) hcand
    · rw [if_neg hpop, hstack.maxPr]
      by_cases hpush : (packetRate c s.tuple).lt (maxPacketRate s.tuple) = true
      · rw [if_pos hpush]
        have hunder := (packetRate_lt_iff hcs hc hs).1 hpush
        have htouch : Touches c.line (lines (s :: selected)) := by
          refine touches_last (hstack.rising hvalid) hs.slope_pos hcs.slope hcs.height hunder ?_
          intro l hl
          cases selected with
          | nil => simp at hl
          | cons p selected =>
            obtain rfl : p.tuple.line = l := by simpa using hl
            rw [← hstack.le_iff hs hc hcs]
            exact hpop
        refine ⟨_, rfl, ⟨hcs, rfl, rfl, Bool.not_eq_true _ ▸ hpop, hstack⟩, ?_, ?_⟩
        · exact Or.inr ⟨_, _, rfl, rfl, List.suffix_refl _, htouch⟩
        · intro bitrate rate _ hall
          obtain ⟨hcand, hsel⟩ := List.forall_mem_cons.1 hall
          exact ⟨hsel, hcand⟩
      · rw [if_neg hpush]
        refine ⟨_, rfl, hstack, Or.inl (List.suffix_refl _), ?_⟩
        intro bitrate rate hbitrate hall
        refine ⟨hall, ?_⟩
        have hunder : c.line.CrossesUnder s.tuple.line := by
          by_contra hnot
          exact hpush ((packetRate_lt_iff hcs hc hs).2 hnot)
        exact Line.allows_beyond hs.slope_pos hcs.slope hunder hbitrate (line_allows.2 (hall s List.mem_cons_self))

/-- The difference to a higher bitrate wraps to a packet rate that is larger than any. -/
theorem packetRate_wrapped {l : SetElement} (hl : l.Valid) (hc : c.Valid) (hoh : l.packetOh.toNat < c.packetOh.toNat)
    (hlower : c.tmmbr.toNat < l.tmmbr.toNat) {a b : Nat} (hab : a * 4088 < 4290672330000 * b) :
    (packetRate c l).le ⟨a, b⟩ = false ∧ (packetRate c l).lt ⟨a, b⟩ = false := by
  have height : (8 : UInt32).toNat = 8 := rfl
  have hnumerator : 4290672330000 ≤ (c.tmmbr - l.tmmbr).toNat * 1000 := by
    have hbitrate := hl.bitrate.2
    have hpos := hc.bitrate.1
    rw [UInt32.toNat_sub]
    omega
  have hdenominator : 0 < (8 * (c.packetOh - l.packetOh)).toNat ∧ (8 * (c.packetOh - l.packetOh)).toNat ≤ 4088 := by
    have hover := hc.overhead.2
    rw [UInt32.toNat_mul, UInt32.toNat_sub, height]
    omega
  have hlt : a * (8 * (c.packetOh - l.packetOh)).toNat < (c.tmmbr - l.tmmbr).toNat * 1000 * b := by
    calc a * (8 * (c.packetOh - l.packetOh)).toNat ≤ a * 4088 := Nat.mul_le_mul_left a hdenominator.2
      _ < 4290672330000 * b := hab
      _ ≤ (c.tmmbr - l.tmmbr).toNat * 1000 * b := Nat.mul_le_mul_right b hnumerator
  have hb : 0 < b := by omega
  constructor
  · rw [← Bool.not_eq_true, packetRate, le_iff hdenominator.1 hb]
    exact Nat.not_le.2 hlt
  · rw [← Bool.not_eq_true, packetRate, lt_iff hdenominator.1 hb]
    exact Nat.not_lt.2 hlt.le

/-- **A candidate with a lower bitrate than the last tuple.** It is passed over. -/
theorem place_lower {s : Selected} (hstack : Stacked base (s :: selected)) (hvalid : ∀ t ∈ s :: selected, t.tuple.Valid)
    (hc : c.Valid) (hoh : s.tuple.packetOh.toNat < c.packetOh.toNat) (hlower : c.tmmbr.toNat < s.tuple.tmmbr.toNat) :
    place c (s :: selected) = some (s :: selected) := by
  obtain ⟨hs, hrest⟩ := List.forall_mem_cons.1 hvalid
  have hbitrate := hs.bitrate.2
  have hover := hs.overhead.1
  have hmax : (packetRate c s.tuple).lt s.maxPr = false := by
    rw [hstack.maxPr, maxPacketRate_eq hs]
    exact (packetRate_wrapped hs hc hoh hlower (by omega)).2
  have hintersection : (packetRate c s.tuple).le s.intersection = false := by
    cases selected with
    | nil =>
      have hzero : s.intersection = ⟨0, 1⟩ := by
        rw [Stacked] at hstack
        rw [hstack]
      rw [hzero]
      exact (packetRate_wrapped hs hc hoh hlower (by decide)).1
    | cons p selected =>
      have hp := hstack.1.overhead
      rw [hstack.2.1, packetRate_eq hstack.1 hs]
      exact (packetRate_wrapped hs hc hoh hlower (by omega)).1
  rw [place, hintersection, hmax]
  rfl

/-- The same candidate once more changes nothing. -/
theorem place_again (cur : SetElement) {selected selected' : List Selected} (h : place cur selected = some selected') :
    place cur selected' = some selected' := by
  induction selected with
  | nil => cases h
  | cons s selected ih =>
    rw [place] at h
    by_cases hpop : (packetRate cur s.tuple).le s.intersection = true
    · rw [if_pos hpop] at h
      exact ih h
    · rw [if_neg hpop] at h
      by_cases hpush : (packetRate cur s.tuple).lt s.maxPr = true
      · rw [if_pos hpush] at h
        obtain rfl := Option.some.inj h
        -- 0 / 0 is neither less nor equal.
        have hnan : (packetRate cur cur).isNan = true := by simp [packetRate, FloatQuotient.isNan]
        simp [place, FloatQuotient.le, FloatQuotient.lt, hnan]
      · rw [if_neg hpush] at h
        obtain rfl := Option.some.inj h
        simp [place, hpop, hpush]

end Stack

end WebRtc.Rtcp
