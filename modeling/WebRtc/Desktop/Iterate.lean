import WebRtc.Desktop.Subtract

/-!
# A region is added

The iterator returns the rectangles of `rectsFrom`, one for each span that is not also on the row above.
Together they have the points of the region.
-/

namespace WebRtc.Desktop

open HalfOpen

namespace Iterator

/-- The rectangles that begin on a row, at these spans. -/
def rowRects (previousRow : Option Row) (row : Row) (rest : List Row) (spans : List RowSpan) : List DesktopRect :=
  (spans.filter fun span => !isMerged previousRow row span).map (currentRect row rest)

/-- The rectangles that begin on these rows. -/
def rectsFrom : Option Row → List Row → List DesktopRect
  | _, [] => []
  | previousRow, row :: rest => rowRects previousRow row rest row.spans ++ rectsFrom (some row) rest

/-- The rectangles that the iterator returns from now on. -/
def Returns (it : Iterator) (rects : List DesktopRect) : Prop :=
  (it.row = [] ∧ rects = []) ∨ ∃ previousRow row rest span more,
    it = ⟨row :: rest, previousRow, span :: more, currentRect row rest span⟩ ∧
    rects = currentRect row rest span :: (rowRects previousRow row rest more ++ rectsFrom (some row) rest)

section Returns
variable {previousRow : Option Row} {row : Row} {rest : List Row} {it : Iterator} {rects : List DesktopRect}

/-- Spans that are merged into the rectangles above are passed over. -/
theorem rowRects_dropWhile (spans : List RowSpan) :
    rowRects previousRow row rest (spans.dropWhile (isMerged previousRow row)) =
        rowRects previousRow row rest spans := by
  unfold rowRects
  induction spans with
  | nil => rfl
  | cons span more ih =>
    by_cases hmerged : isMerged previousRow row span = true
    · rw [List.dropWhile_cons_of_pos hmerged, ih, List.filter_cons_of_neg (by simp [hmerged])]
    · rw [List.dropWhile_cons_of_neg hmerged]

theorem returns_first {spans more : List RowSpan} {span : RowSpan}
    (h : spans.dropWhile (isMerged previousRow row) = span :: more) :
    Returns ⟨row :: rest, previousRow, span :: more, currentRect row rest span⟩
      (rowRects previousRow row rest spans ++ rectsFrom (some row) rest) := by
  have hhead := List.head?_dropWhile_not (isMerged previousRow row) spans
  rw [h] at hhead
  refine Or.inr ⟨previousRow, row, rest, span, more, rfl, ?_⟩
  rw [← rowRects_dropWhile, h]
  unfold rowRects
  rw [List.filter_cons_of_pos (by simpa using hhead), List.map_cons, List.cons_append]

variable (previousRow) in
theorem seek_returns (hne : ∀ r ∈ row :: rest, r.spans ≠ []) (spans : List RowSpan) :
    ∃ it, seek previousRow (row :: rest) spans = some it ∧
    it.Returns (rowRects previousRow row rest spans ++ rectsFrom (some row) rest) ∧ ∀ r ∈ it.row, r.spans ≠ [] := by
  induction rest generalizing previousRow row spans with
  | nil =>
    unfold seek
    cases hdrop : spans.dropWhile (isMerged previousRow row) with
    | nil =>
      rw [← rowRects_dropWhile, hdrop]
      exact ⟨_, rfl, Or.inl ⟨rfl, rfl⟩, by simp⟩
    | cons span more => exact ⟨_, rfl, returns_first hdrop, hne⟩
  | cons next below ih =>
    unfold seek
    cases hdrop : spans.dropWhile (isMerged previousRow row) with
    | nil =>
      rw [← rowRects_dropWhile, hdrop]
      have hbelow : ∀ r ∈ next :: below, r.spans ≠ [] := fun r hr => hne r (List.mem_cons_of_mem row hr)
      dsimp only
      rw [if_neg (hbelow next List.mem_cons_self)]
      exact ih (some row) hbelow next.spans
    | cons span more => exact ⟨_, rfl, returns_first hdrop, hne⟩

theorem start_returns {region : DesktopRegion} (hne : ∀ r ∈ region.rows, r.spans ≠ []) : ∃ it, start region = some it ∧
    it.Returns (rectsFrom none region.rows) ∧ ∀ r ∈ it.row, r.spans ≠ [] := by
  unfold start
  cases hrows : region.rows with
  | nil => exact ⟨_, rfl, Or.inl ⟨rfl, rfl⟩, by simp⟩
  | cons row rest =>
    rw [hrows] at hne
    have hrow := hne row List.mem_cons_self
    dsimp only
    cases hspans : row.spans with
    | nil => exact absurd hspans hrow
    | cons span more =>
      refine ⟨_, rfl, Or.inr ⟨none, row, rest, span, more, rfl, ?_⟩, hne⟩
      show rowRects none row rest row.spans ++ rectsFrom (some row) rest = _
      rw [hspans]
      rfl

/-- **The rectangles of the iterator are added** one after the other. -/
theorem addRegionLoop_eq (fuel : Nat) {r : DesktopRegion} (hne : ∀ q ∈ it.row, q.spans ≠ []) (h : it.Returns rects)
    (hfuel : rects.length ≤ fuel) : DesktopRegion.addRegionLoop fuel it r = r.addRects rects := by
  induction fuel generalizing it rects r with
  | zero =>
    have hnil : rects = [] := List.length_eq_zero_iff.1 (by omega)
    rcases h with ⟨hend, -⟩ | ⟨_, _, _, _, _, -, hrects⟩
    · unfold DesktopRegion.addRegionLoop isAtEnd
      rw [hend, hnil]
      rfl
    · rw [hrects] at hnil
      cases hnil
  | succ fuel ih =>
    unfold DesktopRegion.addRegionLoop isAtEnd
    rcases h with ⟨hend, hrects⟩ | ⟨previousRow, row, rest, span, more, rfl, hrects⟩
    · rw [hend, hrects]
      rfl
    · obtain ⟨next, hseek, hreturns, hnext⟩ := seek_returns previousRow hne more
      rw [hrects] at hfuel ⊢
      simp only [List.isEmpty_cons, Bool.false_eq_true, if_false, Option.bind_eq_bind,
        DesktopRegion.addRects, List.foldlM_cons,
        advance, List.tail_cons, hseek, Option.bind_some]
      cases r.addRect (currentRect row rest span) with
      | none => rfl
      | some r' => exact ih hnext hreturns (by simp only [List.length_cons] at hfuel; omega)

theorem rectsFrom_length (previousRow : Option Row) (rows : List Row) :
    (rectsFrom previousRow rows).length ≤ (rows.map fun row => row.spans.length).sum := by
  induction rows generalizing previousRow with
  | nil => exact Nat.le_refl _
  | cons row rest ih =>
    have hrow : (rowRects previousRow row rest row.spans).length ≤ row.spans.length := by
      unfold rowRects
      rw [List.length_map]
      exact List.length_filter_le _ _
    have hrest := ih (some row)
    simp only [rectsFrom, List.length_append, List.map_cons, List.sum_cons]
    omega

end Returns

/-! ## The points of the rectangles -/

section Points
variable {previousRow : Option Row} {row : Row} {rest : List Row} {span : RowSpan} {x y : Int}

/-- What is above the end of the merged rows is in one of them. -/
theorem mergedBottom_spec (h : WellFormed (row :: rest)) (hspan : span ∈ row.spans) :
    row.bottom ≤ mergedBottom span row rest ∧
    (span.left ≤ x → x < span.right → row.top ≤ y → y < mergedBottom span row rest → Points (row :: rest) x y) := by
  have hown : span.left ≤ x → x < span.right → row.top ≤ y → y < row.bottom → Points (row :: rest) x y := by
    intro hleft hright htop hbottom
    exact points_cons.2 (Or.inl ⟨htop, hbottom, inSpans_iff.2 ⟨span, hspan, hleft, hright⟩⟩)
  induction rest generalizing row with
  | nil => exact ⟨Int.le_refl _, hown⟩
  | cons next below ih =>
    unfold mergedBottom
    obtain ⟨hrow, hbelow, -⟩ := wellFormed_cons.1 h
    have hnext := (wellFormed_cons.1 hbelow).1
    by_cases hmerge : row.bottom = next.top ∧ isSpanInRow next span = true
    · rw [if_pos hmerge]
      obtain ⟨htouch, hin⟩ := hmerge
      have hmem := (isSpanInRow_iff hnext.spans).1 hin
      have htall := hnext.tall
      obtain ⟨hle, hpoints⟩ := ih hbelow hmem (fun hleft hright htop hbottom =>
        points_cons.2 (Or.inl ⟨htop, hbottom, inSpans_iff.2 ⟨span, hmem, hleft, hright⟩⟩))
      refine ⟨by omega, ?_⟩
      intro hleft hright htop hbottom
      by_cases hy : y < row.bottom
      · exact hown hleft hright htop hy
      · exact points_cons.2 (Or.inr (hpoints hleft hright (by omega) hbottom))
    · rw [if_neg hmerge]
      exact ⟨Int.le_refl _, hown⟩

theorem mem_rowRects {spans : List RowSpan} {rect : DesktopRect} : rect ∈ rowRects previousRow row rest spans ↔
    ∃ span ∈ spans, isMerged previousRow row span = false ∧ rect = currentRect row rest span := by
  unfold rowRects
  simp only [List.mem_map, List.mem_filter, Bool.not_eq_true']
  constructor
  · rintro ⟨span, ⟨hmem, hmerged⟩, rfl⟩
    exact ⟨span, hmem, hmerged, rfl⟩
  · rintro ⟨span, hmem, hmerged, rfl⟩
    exact ⟨span, ⟨hmem, hmerged⟩, rfl⟩

theorem currentRect_has : (currentRect row rest span).Has x y ↔
    (span.left ≤ x ∧ x < span.right) ∧ row.top ≤ y ∧ y < mergedBottom span row rest := Iff.rfl

/-- A rectangle has only points of the rows. -/
theorem rectsFrom_sound {rows : List Row} (h : WellFormed rows) {rect : DesktopRect}
    (hmem : rect ∈ rectsFrom previousRow rows)
    (hhas : rect.Has x y) : Points rows x y := by
  induction rows generalizing previousRow with
  | nil => cases hmem
  | cons row rest ih =>
    rcases List.mem_append.1 hmem with hmem | hmem
    · obtain ⟨span, hspan, -, rfl⟩ := mem_rowRects.1 hmem
      obtain ⟨⟨hleft, hright⟩, htop, hbottom⟩ := currentRect_has.1 hhas
      exact (mergedBottom_spec h hspan).2 hleft hright htop hbottom
    · exact points_cons.2 (Or.inr (ih (wellFormed_cons.1 h).2.1 hmem))

/-- A point that is in the rectangle of a span on the row above. -/
def InMerged (previousRow : Option Row) (rows : List Row) (x y : Int) : Prop :=
  ∃ row rest, rows = row :: rest ∧ ∃ span ∈ row.spans, isMerged previousRow row span = true ∧
    (currentRect row rest span).Has x y

variable (previousRow) in
/-- Every point of the rows is in a rectangle that begins on one of them, or in one from above. -/
theorem rectsFrom_complete {rows : List Row} (h : WellFormed rows) (hp : Points rows x y) :
    (∃ rect ∈ rectsFrom previousRow rows, rect.Has x y) ∨ InMerged previousRow rows x y := by
  induction rows generalizing previousRow with
  | nil => exact absurd hp points_nil
  | cons row rest ih =>
    obtain ⟨hrow, hrest, hbehind⟩ := wellFormed_cons.1 h
    -- A rectangle of a span of the row begins on it or above.
    have hfirst : ∀ span ∈ row.spans, (currentRect row rest span).Has x y →
        (∃ rect ∈ rectsFrom previousRow (row :: rest), rect.Has x y) ∨ InMerged previousRow (row :: rest) x y := by
      intro span hspan hhas
      by_cases hmerged : isMerged previousRow row span = true
      · exact Or.inr ⟨row, rest, rfl, span, hspan, hmerged, hhas⟩
      · refine Or.inl ⟨_, List.mem_append_left _ (mem_rowRects.2 ⟨span, hspan, ?_, rfl⟩), hhas⟩
        rwa [Bool.not_eq_true] at hmerged
    rcases points_cons.1 hp with ⟨htop, hbottom, hx⟩ | hp
    · obtain ⟨span, hspan, hx⟩ := inSpans_iff.1 hx
      have hle := (mergedBottom_spec (x := x) (y := y) h hspan).1
      exact hfirst span hspan ⟨hx, htop, by show y < mergedBottom span row rest; omega⟩
    · rcases ih (some row) hrest hp with ⟨rect, hmem, hhas⟩ | ⟨next, below, rfl, span, hspan, hmerged, hhas⟩
      · exact Or.inl ⟨rect, List.mem_append_right _ hmem, hhas⟩
      · simp only [isMerged, Option.any_some, Bool.and_eq_true, decide_eq_true_eq] at hmerged
        obtain ⟨htouch, hin⟩ := hmerged
        obtain ⟨hx, htop, hbottom⟩ := currentRect_has.1 hhas
        have hnext := (wellFormed_cons.1 hrest).1
        have htall := hrow.tall
        refine hfirst span ((isSpanInRow_iff hrow.spans).1 hin) ⟨hx, ?_, ?_⟩
        · show row.top ≤ y
          omega
        · show y < mergedBottom span row (next :: below)
          unfold mergedBottom
          rwa [if_pos ⟨htouch, (isSpanInRow_iff hnext.spans).2 hspan⟩]

/-- **The rectangles have the points of the region.** -/
theorem rectsFrom_points {rows : List Row} (h : WellFormed rows) :
    (∃ rect ∈ rectsFrom none rows, rect.Has x y) ↔ Points rows x y := by
  constructor
  · rintro ⟨rect, hmem, hhas⟩
    exact rectsFrom_sound h hmem hhas
  · intro hp
    rcases rectsFrom_complete none h hp with hrect | ⟨row, rest, -, span, -, hmerged, -⟩
    · exact hrect
    · cases hmerged

end Points

end Iterator

theorem addRects_spec {r : DesktopRegion} (h : WellFormed r.rows) (rects : List DesktopRect) :
    ∃ r', r.addRects rects = some r' ∧
    WellFormed r'.rows ∧ (∀ x y, Points r'.rows x y ↔ Points r.rows x y ∨ ∃ rect ∈ rects, rect.Has x y) ∧
    (Unmerged r.rows → Unmerged r'.rows) := by
  induction rects generalizing r with
  | nil => exact ⟨r, rfl, h, by simp, id⟩
  | cons rect rects ih =>
    obtain ⟨r1, hadd, hwell, hpoints, hunmerged⟩ := addRect_spec h rect
    obtain ⟨r2, hadds, hwell', hpoints', hunmerged'⟩ := ih hwell
    refine ⟨r2, ?_, hwell', ?_, fun hun => hunmerged' (hunmerged hun)⟩
    · unfold DesktopRegion.addRects at hadds ⊢
      rw [List.foldlM_cons, hadd]
      exact hadds
    · intro x y
      rw [hpoints', hpoints, or_assoc]
      simp

/-- **A region is added.** -/
theorem addRegion_spec {r region : DesktopRegion} (h : WellFormed r.rows) (hregion : WellFormed region.rows) : ∃ r',
    r.addRegion region = some r' ∧ WellFormed r'.rows ∧ (∀ x y, Points r'.rows x y ↔
      Points r.rows x y ∨ Points region.rows x y) ∧
    (Unmerged r.rows → Unmerged r'.rows) := by
  obtain ⟨it, hstart, hreturns, hne⟩ := Iterator.start_returns fun q hq => (hregion.ok q hq).nonempty
  obtain ⟨r', hadds, hwell, hpoints, hunmerged⟩ := addRects_spec h (Iterator.rectsFrom none region.rows)
  have hloop := Iterator.addRegionLoop_eq (r := r) _ hne hreturns (Iterator.rectsFrom_length none region.rows)
  unfold DesktopRegion.addRegion
  rw [hstart]
  refine ⟨r', hloop.trans hadds, hwell, ?_, hunmerged⟩
  intro x y
  rw [hpoints, Iterator.rectsFrom_points hregion]

end WebRtc.Desktop
