import WebRtc.Desktop.Algebra

/-!
# The canonical form of a region

A region without rows that could be merged is determined by its points. Every operation keeps it so but
a subtraction that `Misses` a part of a row.
-/

namespace WebRtc.Desktop

open HalfOpen

section Unique

theorem spans_unique {a b : List RowSpan} (ha : SpansOk a) (hb : SpansOk b) (h : ∀ x, InSpans a x ↔
    InSpans b x) : a = b := by
  have hcanonical : ∀ l : List RowSpan, SpansOk l → Canonical (fun _ => ()) l := by
    intro l hl
    refine hl.apart.isChain.imp ?_
    intro s t hst htouch
    have heq : s.right = t.left := htouch.1
    omega
  refine eq_of_on (fun _ => ()) ha.ordered hb.ordered (hcanonical a ha) (hcanonical b hb) ?_ ?_
  · rintro ⟨l1, r1⟩ - ⟨l2, r2⟩ - hlo hhi -
    simp only [lo_span, hi_span] at hlo hhi
    rw [hlo, hhi]
  · intro x _
    simpa [InSpans] using h x

/-- The spans of the row at a line are determined by the points of the line. -/
theorem on_spans {rows : List Row} (h : WellFormed rows) {spans : List RowSpan} (hok : SpansOk spans)
    (hne : spans ≠ []) (y : Int) :
    On (fun r => r.spans = spans) rows y ↔ ∀ x, Points rows x y ↔ InSpans spans x := by
  constructor
  · rintro ⟨r, hr, hlo, hhi, rfl⟩ x
    exact h.points_iff hr hlo hhi
  · intro hpoints
    obtain ⟨s, hs⟩ := List.exists_mem_of_ne_nil spans hne
    have hin : InSpans spans s.left := inSpans_iff.2 ⟨s, hs, Int.le_refl _, hok.proper s hs⟩
    obtain ⟨r, hr, hlo, hhi, -⟩ := (hpoints s.left).2 hin
    refine ⟨r, hr, hlo, hhi, spans_unique (h.ok r hr).spans hok fun x => ?_⟩
    rw [← hpoints x]
    exact (h.points_iff hr hlo hhi).symm

/-- **Regions without rows that could be merged** are equal when they have the same points. -/
theorem rows_unique {l m : List Row} (hl : WellFormed l) (hm : WellFormed m) (hul : Unmerged l) (hum : Unmerged m)
    (h : ∀ x y, Points l x y ↔ Points m x y) : l = m := by
  refine eq_of_on Row.spans hl.ordered hm.ordered hul hum ?_ ?_
  · rintro ⟨key1, top1, bottom1, spans1⟩ h1 ⟨key2, top2, bottom2, spans2⟩ h2 hlo hhi hspans
    have hkey1 := (hl.ok _ h1).keyed
    have hkey2 := (hm.ok _ h2).keyed
    simp only [lo_row, hi_row] at hlo hhi hspans hkey1 hkey2
    rw [hkey1, hkey2, hlo, hhi, hspans]
  · intro y spans
    constructor
    · rintro ⟨r, hr, hlo, hhi, rfl⟩
      have hrow := hl.ok r hr
      refine (on_spans hm hrow.spans hrow.nonempty y).2 fun x => ?_
      rw [← h, hl.points_iff hr hlo hhi]
    · rintro ⟨r, hr, hlo, hhi, rfl⟩
      have hrow := hm.ok r hr
      refine (on_spans hl hrow.spans hrow.nonempty y).2 fun x => ?_
      rw [h, hm.points_iff hr hlo hhi]

end Unique

theorem equalsLoop_iff (l m : List Row) : DesktopRegion.equalsLoop l m = true ↔ l = m := by
  induction l generalizing m with
  | nil => cases m <;> simp [DesktopRegion.equalsLoop]
  | cons r l ih =>
    cases m with
    | nil => simp [DesktopRegion.equalsLoop]
    | cons q m =>
      unfold DesktopRegion.equalsLoop
      obtain ⟨key1, top1, bottom1, spans1⟩ := r
      obtain ⟨key2, top2, bottom2, spans2⟩ := q
      dsimp only
      split
      · rename_i hdiffer
        simp only [Bool.false_eq_true, List.cons.injEq, Row.mk.injEq, false_iff]
        tauto
      · rename_i hsame
        simp only [not_or, ne_eq, Decidable.not_not] at hsame
        obtain ⟨rfl, rfl, rfl, rfl⟩ := hsame
        rw [ih]
        simp

/-! ## A rectangle is subtracted -/

section Rect
variable {rowsA rowsB : List Row}

/-- Rows that touch have different points. -/
theorem line_changes (hA : WellFormed rowsA) (hun : Unmerged rowsA) {a : Row} (ha : a ∈ rowsA)
    (hline : ∀ x, Points rowsA x (a.top - 1) ↔ Points rowsA x a.top) : False := by
  have hrow := hA.ok a ha
  have htall := hrow.tall
  have habove : On (fun r => r.spans = a.spans) rowsA (a.top - 1) := by
    refine (on_spans hA hrow.spans hrow.nonempty _).2 fun x => ?_
    rw [hline, hA.points_iff ha (Int.le_refl _) htall]
  obtain ⟨d, hd, hlo, hhi, hspans⟩ := habove
  have hnext : On (fun r => r.spans = d.spans) rowsA a.top := ⟨a, ha, Int.le_refl _, htall, hspans.symm⟩
  have hends : d.bottom = a.top := by
    rw [hi_row] at hhi
    rcases Int.lt_or_le a.top d.bottom with hlt | hle
    · have hsame := hA.ordered.eq_of_mem hd ha (y := a.top) (by rw [lo_row] at hlo ⊢; omega) hlt (Int.le_refl _) htall
      rw [hsame, lo_row] at hlo
      omega
    · omega
  exact hun.not_on_of_mem hA.ordered hd (by rw [hi_row, hends]; exact hnext)

/-- What is above a gap or inside of a rectangle is not missed. -/
theorem not_misses_rect (hA : WellFormed rowsA) (hB : WellFormed rowsB) (hun : Unmerged rowsA) {rect : DesktopRect}
    (hrect : ∀ x y, Points rowsB x y ↔ rect.Has x y) : ¬ Misses rowsA rowsB := by
  rintro ⟨a, ha, b, hb, y, htop, hlt, hbottom, hcut, hgap, hline⟩
  obtain ⟨s, hs⟩ := List.exists_mem_of_ne_nil b.spans (hB.ok b hb).nonempty
  have hproper := (hB.ok b hb).spans.proper s hs
  have hbtall := (hB.ok b hb).tall
  have hcolumn : rect.Has s.left b.top :=
    (hrect _ _).1 ((hB.points_iff hb (Int.le_refl _) hbtall).2 (inSpans_iff.2 ⟨s, hs, Int.le_refl _, hproper⟩))
  -- A line of the rectangle above the row would go on down to it.
  have hnone : ∀ x, ¬ Points rowsB x (y - 1) := by
    intro x hon
    have habove := (hrect _ _).1 hon
    have hbetween : rect.Has s.left y :=
      ⟨hcolumn.1, by have hlo := habove.2.1; omega, by have hhi := hcolumn.2.2; omega⟩
    obtain ⟨b', hb', hlo, hhi, -⟩ := (hrect _ _).2 hbetween
    exact hgap b' hb' ⟨hhi, by rw [lo_row] at hlo; omega⟩
  rcases hcut with heq | ⟨b', hb', heq⟩
  · subst heq
    exact line_changes hA hun ha fun x => by rw [← hline]; exact (and_iff_left (hnone x)).symm
  · obtain ⟨s', hs'⟩ := List.exists_mem_of_ne_nil b'.spans (hB.ok b' hb').nonempty
    have htall' := (hB.ok b' hb').tall
    exact hnone s'.left ((hB.points_iff hb' (by omega) (by omega)).2
      (inSpans_iff.2 ⟨s', hs', Int.le_refl _, (hB.ok b' hb').spans.proper s' hs'⟩))

end Rect

/-! ## Runs -/

/-- The regions that are made when no subtraction misses a part of a row. -/
abbrev Kept : DesktopRegion → Prop := Made fun r region => ¬ Misses r.rows region.rows

theorem Kept.unmerged {r : DesktopRegion} (h : Kept r) : Unmerged r.rows := by
  induction h with
  | create => exact List.isChain_nil
  | addRect rect hr hadd ih =>
    obtain ⟨r', heq, -, -, hunmerged⟩ := addRect_spec hr.wellFormed rect
    rw [heq] at hadd
    cases hadd
    exact hunmerged ih
  | addRects rects hr hadd ih =>
    obtain ⟨r', heq, -, -, hunmerged⟩ := addRects_spec hr.wellFormed rects
    rw [heq] at hadd
    cases hadd
    exact hunmerged ih
  | addRegion hr hregion hadd ih _ =>
    obtain ⟨r', heq, -, -, hunmerged⟩ := addRegion_spec hr.wellFormed hregion.wellFormed
    rw [heq] at hadd
    cases hadd
    exact hunmerged ih
  | intersect h1 h2 hinter _ _ =>
    obtain ⟨r', heq, -, -, hunmerged⟩ := intersect_spec h1.wellFormed h2.wellFormed
    rw [heq] at hinter
    cases hinter
    exact hunmerged
  | intersectWith hr hregion hinter _ _ =>
    obtain ⟨r', heq, -, -, hunmerged⟩ := intersect_spec hr.wellFormed hregion.wellFormed
    unfold DesktopRegion.intersectWith at hinter
    rw [heq] at hinter
    cases hinter
    exact hunmerged
  | intersectWithRect rect hr hinter _ =>
    obtain ⟨r', heq, -, -, hunmerged⟩ := intersectWithRect_spec hr.wellFormed rect
    rw [heq] at hinter
    cases hinter
    exact hunmerged
  | subtract hr hregion hallowed hsub ih _ =>
    obtain ⟨r', heq, -, -, hunmerged⟩ := subtract_spec hr.wellFormed hregion.wellFormed
    rw [heq] at hsub
    cases hsub
    exact hunmerged ih hallowed
  | subtractRect rect hr hsub ih =>
    obtain ⟨region, hadd, hwell, hrect, -⟩ := rect_spec rect
    obtain ⟨region', r', hadd', heq, -, -, hunmerged⟩ := subtractRect_spec hr.wellFormed rect
    rw [hadd] at hadd'
    cases hadd'
    rw [heq] at hsub
    cases hsub
    exact hunmerged ih (not_misses_rect hr.wellFormed hwell ih hrect)
  | translate dx dy hr ih => exact (translate_spec hr.wellFormed dx dy).2.2 ih

/-- **No two rows that touch have the same spans**, and regions are equal when they have the same points. -/
theorem canonical_form (r : DesktopRegion) (hr : Kept r) :
    (r.rows.IsChain fun row next => ¬ (row.bottom = next.top ∧ row.spans = next.spans)) ∧
    ∀ region, Kept region → (r.equals region = true ↔ r.points = region.points) := by
  refine ⟨hr.unmerged, fun region hregion => ?_⟩
  unfold DesktopRegion.equals
  rw [equalsLoop_iff]
  constructor
  · intro heq
    unfold DesktopRegion.points
    rw [heq]
  · intro heq
    refine rows_unique hr.wellFormed hregion.wellFormed hr.unmerged hregion.unmerged fun x y => ?_
    rw [← DesktopRegion.mem_points (p := (x, y)), heq, DesktopRegion.mem_points]

/-- Two notches in a rectangle; the line above each of them has other points. -/
theorem not_misses_notches : ¬ Misses [⟨10, 0, 10, [⟨0, 10⟩]⟩] [⟨4, 2, 4, [⟨0, 3⟩]⟩, ⟨9, 6, 9, [⟨5, 8⟩]⟩] := by
  rintro ⟨a, ha, b, hb, y, -, hlt, -, hcut, -, hline⟩
  have hcorner := hline 0
  simp only [points_cons, points_nil, inSpans_cons, inSpans_nil, or_false] at hcorner
  simp only [List.mem_cons, List.not_mem_nil, or_false, exists_eq_or_imp, exists_eq_left] at ha hb hcut
  subst ha
  dsimp only at hlt hcorner hcut
  rcases hb with rfl | rfl <;> dsimp only at hlt <;> omega

/-- The two notches are cut into the rectangle by one subtraction; what is left is not the rectangle. -/
theorem canonical_form_of_notches : ∃ plain notches cut : DesktopRegion, plain.subtract notches = some cut ∧
    (cut.rows.IsChain fun row next => ¬ (row.bottom = next.top ∧ row.spans = next.spans)) ∧
    cut.rows.length = 5 ∧ cut.points ≠ plain.points := by
  have hplain : Kept ⟨[⟨10, 0, 10, [⟨0, 10⟩]⟩]⟩ := Made.addRect ⟨0, 0, 10, 10⟩ Made.create (by decide)
  have hnotches : Kept ⟨[⟨4, 2, 4, [⟨0, 3⟩]⟩, ⟨9, 6, 9, [⟨5, 8⟩]⟩]⟩ :=
    Made.addRects [⟨0, 2, 3, 4⟩, ⟨5, 6, 8, 9⟩] Made.create (by decide)
  have hsub : DesktopRegion.subtract ⟨[⟨10, 0, 10, [⟨0, 10⟩]⟩]⟩ ⟨[⟨4, 2, 4, [⟨0, 3⟩]⟩, ⟨9, 6, 9, [⟨5, 8⟩]⟩]⟩ =
      some ⟨[⟨2, 0, 2, [⟨0, 10⟩]⟩, ⟨4, 2, 4, [⟨3, 10⟩]⟩, ⟨6, 4, 6, [⟨0, 10⟩]⟩, ⟨9, 6, 9, [⟨0, 5⟩, ⟨8, 10⟩]⟩,
        ⟨10, 9, 10, [⟨0, 10⟩]⟩]⟩ := by decide
  have hcut : Kept _ := Made.subtract hplain hnotches not_misses_notches hsub
  obtain ⟨hchain, hequals⟩ := canonical_form _ hcut
  exact ⟨_, _, _, hsub, hchain, rfl, fun heq => absurd ((hequals _ hplain).2 heq) (by decide)⟩

/-- **Two strips beside a rectangle are subtracted from it**: its points are the same, but it has been
cut in two. -/
theorem cut_in_two : ∃ plain strips cut, Reachable plain ∧ Reachable strips ∧ plain.subtract strips =
    some cut ∧ Reachable cut ∧
    cut.points = plain.points ∧ cut.equals plain = false ∧
    cut.rows = [⟨3, 0, 3, [⟨0, 10⟩]⟩, ⟨10, 3, 10, [⟨0, 10⟩]⟩] := by
  have hplain : Reachable ⟨[⟨10, 0, 10, [⟨0, 10⟩]⟩]⟩ := Made.addRect ⟨0, 0, 10, 10⟩ Made.create (by decide)
  have hstrips : Reachable ⟨[⟨3, 2, 3, [⟨20, 30⟩]⟩, ⟨6, 5, 6, [⟨20, 30⟩]⟩]⟩ :=
    Made.addRects [⟨20, 2, 30, 3⟩, ⟨20, 5, 30, 6⟩] Made.create (by decide)
  have hsub : DesktopRegion.subtract ⟨[⟨10, 0, 10, [⟨0, 10⟩]⟩]⟩ ⟨[⟨3, 2, 3, [⟨20, 30⟩]⟩, ⟨6, 5, 6, [⟨20, 30⟩]⟩]⟩ =
      some ⟨[⟨3, 0, 3, [⟨0, 10⟩]⟩, ⟨10, 3, 10, [⟨0, 10⟩]⟩]⟩ := by decide
  refine ⟨_, _, _, hplain, hstrips, hsub, Made.subtract hplain hstrips trivial hsub, ?_, by decide, rfl⟩
  ext ⟨x, y⟩
  simp only [DesktopRegion.mem_points, points_cons, inSpans_cons]
  simp
  omega

end WebRtc.Desktop
