import Mathlib.Data.Set.Lattice
import Mathlib.Order.CompletePartialOrder
import WebRtc.Desktop.Algebra

/-!
# The rectangles of a region

Two rectangles of the iterator have no point in common. Those that begin on one row are of different spans.
One that begins further down, where a rectangle from above goes through, is of a span that is not on the row
before, and so of another one.
-/

namespace WebRtc.Desktop

namespace Iterator

/-- The rectangles up to the end, with at most `fuel` calls of `Advance`. -/
def rects : Nat → Iterator → Option (List DesktopRect)
  | fuel, it =>
    if it.isAtEnd then some []
    else match fuel with
      | 0 => none
      | fuel + 1 => do
        let next ← it.advance
        let rest ← rects fuel next
        some (it.rect :: rest)

section Partition
variable {previousRow : Option Row} {row : Row} {rest : List Row} {span : RowSpan} {it : Iterator}

/-- The iterator yields the rectangles it returns. -/
theorem rects_eq {l : List DesktopRect} (fuel : Nat) (hne : ∀ q ∈ it.row, q.spans ≠ []) (h : it.Returns l)
    (hfuel : l.length ≤ fuel) : it.rects fuel = some l := by
  induction fuel generalizing it l with
  | zero =>
    have hnil : l = [] := List.length_eq_zero_iff.1 (by omega)
    rcases h with ⟨hend, -⟩ | ⟨_, _, _, _, _, -, hrects⟩
    · unfold rects isAtEnd
      rw [hend, hnil]
      rfl
    · rw [hrects] at hnil
      cases hnil
  | succ fuel ih =>
    unfold rects isAtEnd
    rcases h with ⟨hend, hrects⟩ | ⟨previousRow, row, rest, span, more, rfl, hrects⟩
    · rw [hend, hrects]
      rfl
    · obtain ⟨next, hseek, hreturns, hnext⟩ := seek_returns previousRow hne more
      rw [hrects] at hfuel ⊢
      have hmore := ih hnext hreturns (by simp only [List.length_cons] at hfuel; omega)
      simp only [List.isEmpty_cons, Bool.false_eq_true, if_false, Option.bind_eq_bind, advance, List.tail_cons,
        hseek, hmore, Option.bind_some]

/-- Different spans of a row do not overlap. -/
theorem spans_apart {spans : List RowSpan} (h : SpansOk spans) {s t : RowSpan} (hs : s ∈ spans) (ht : t ∈ spans)
    (hne : s ≠ t) : s.right < t.left ∨ t.right < s.left := by
  induction spans with
  | nil => cases hs
  | cons r spans ih =>
    rcases List.mem_cons.1 hs with rfl | hs'
    · rcases List.mem_cons.1 ht with rfl | ht'
      · exact absurd rfl hne
      · exact Or.inl (List.rel_of_pairwise_cons h.apart ht')
    · rcases List.mem_cons.1 ht with rfl | ht'
      · exact Or.inr (List.rel_of_pairwise_cons h.apart hs')
      · exact ih h.tail hs' ht'

/-- What is below a row has its points below it. -/
theorem rectsFrom_below (h : WellFormed (row :: rest)) {rect : DesktopRect} (hmem : rect ∈ rectsFrom previousRow rest)
    {x y : Int} (hhas : rect.Has x y) : row.bottom ≤ y := by
  obtain ⟨-, hrest, hbehind⟩ := wellFormed_cons.1 h
  obtain ⟨q, hq, htop, -, -⟩ := rectsFrom_sound hrest hmem hhas
  exact Int.le_trans (hbehind q hq) htop

/-- A rectangle goes on through the rows that have its span, and what begins on them has other spans. -/
theorem below_disjoint (h : WellFormed (row :: rest)) (hspan : span ∈ row.spans) {rect : DesktopRect}
    (hmem : rect ∈ rectsFrom (some row) rest) {x y : Int} :
    ¬ (rect.Has x y ∧ (currentRect row rest span).Has x y) := by
  rintro ⟨hhas, hcurrent⟩
  induction rest generalizing row with
  | nil => cases hmem
  | cons next below ih =>
    obtain ⟨hx, htop, hbottom⟩ := currentRect_has.1 hcurrent
    have hbelow := rectsFrom_below h hmem hhas
    obtain ⟨hrow, hrest, -⟩ := wellFormed_cons.1 h
    have hnext := (wellFormed_cons.1 hrest).1
    unfold mergedBottom at hbottom
    split at hbottom
    · rename_i hmerge
      have hnextSpan := (isSpanInRow_iff hnext.spans).1 hmerge.2
      rcases List.mem_append.1 hmem with hmem | hmem
      · -- The span of the rectangle is not on the row above, as the one that goes through is.
        obtain ⟨t, ht, hnot, rfl⟩ := mem_rowRects.1 hmem
        have hne : t ≠ span := by
          rintro rfl
          rw [isMerged, Option.any_some, decide_eq_true hmerge.1, (isSpanInRow_iff hrow.spans).2 hspan] at hnot
          cases hnot
        obtain ⟨hxt, -, -⟩ := currentRect_has.1 hhas
        have := spans_apart hnext.spans ht hnextSpan hne
        omega
      · have hy := rectsFrom_below hrest hmem hhas
        have htall := hnext.tall
        exact ih hrest hnextSpan hmem (currentRect_has.2 ⟨hx, by omega, hbottom⟩)
    · omega

variable (previousRow) in
/-- **No point is in two of the rectangles.** -/
theorem rectsFrom_disjoint {rows : List Row} (h : WellFormed rows) :
    (rectsFrom previousRow rows).Pairwise fun a b => ∀ x y, ¬ (a.Has x y ∧ b.Has x y) := by
  induction rows generalizing previousRow with
  | nil => exact List.Pairwise.nil
  | cons row rest ih =>
    obtain ⟨hrow, hrest, -⟩ := wellFormed_cons.1 h
    rw [rectsFrom, List.pairwise_append]
    refine ⟨?_, ih (some row) hrest, fun a ha b hb x y hab => ?_⟩
    · rw [rowRects, List.pairwise_map]
      refine (hrow.spans.apart.filter _).imp fun {s t} hst x y hboth => ?_
      obtain ⟨⟨-, hs⟩, -, -⟩ := currentRect_has.1 hboth.1
      obtain ⟨⟨ht, -⟩, -, -⟩ := currentRect_has.1 hboth.2
      omega
    · obtain ⟨span, hspan, -, rfl⟩ := mem_rowRects.1 ha
      exact below_disjoint h hspan hb hab.symm

/-- Every rectangle has its upper left corner. -/
theorem rectsFrom_corner {rows : List Row} (h : WellFormed rows) {rect : DesktopRect}
    (hmem : rect ∈ rectsFrom previousRow rows) : rect.Has rect.left rect.top := by
  induction rows generalizing previousRow with
  | nil => cases hmem
  | cons row rest ih =>
    obtain ⟨hrow, hrest, -⟩ := wellFormed_cons.1 h
    rcases List.mem_append.1 hmem with hmem | hmem
    · obtain ⟨span, hspan, -, rfl⟩ := mem_rowRects.1 hmem
      have hle := (mergedBottom_spec (x := 0) (y := 0) h hspan).1
      have hproper := hrow.spans.proper span hspan
      have htall := hrow.tall
      exact currentRect_has.2 ⟨⟨Int.le_refl _, hproper⟩, Int.le_refl _, by show row.top < _; omega⟩
    · exact ih hrest hmem

end Partition

end Iterator

theorem DesktopRect.mem_points {rect : DesktopRect} {p : Int × Int} : p ∈ rect.points ↔ rect.Has p.1 p.2 := Iff.rfl

/-- **The iterator partitions the region**: it comes to an end, and its rectangles are not empty, have no point
in common, and make up the region. -/
theorem iterator_partition {r : DesktopRegion} (h : Reachable r) : ∃ it rects, Iterator.start r = some it ∧
    it.rects (r.rows.map fun row => row.spans.length).sum = some rects ∧
    (∀ rect ∈ rects, rect.isEmpty = false ∧ rect.points.Nonempty) ∧
    rects.Pairwise (fun a b => Disjoint a.points b.points) ∧
    ⋃ rect ∈ rects, rect.points = r.points := by
  have hwell := h.wellFormed
  obtain ⟨it, hstart, hreturns, hne⟩ := Iterator.start_returns fun q hq => (hwell.ok q hq).nonempty
  refine ⟨it, _, hstart, Iterator.rects_eq _ hne hreturns (Iterator.rectsFrom_length none r.rows), ?_, ?_, ?_⟩
  · intro rect hrect
    have hcorner := Iterator.rectsFrom_corner hwell hrect
    refine ⟨?_, ⟨(rect.left, rect.top), hcorner⟩⟩
    obtain ⟨⟨-, hwide⟩, -, htall⟩ := hcorner
    simp only [DesktopRect.isEmpty, Bool.or_eq_false_iff, decide_eq_false_iff_not]
    omega
  · refine (Iterator.rectsFrom_disjoint none hwell).imp fun {a b} hab => ?_
    rw [Set.disjoint_left]
    exact fun p ha hb => hab p.1 p.2 ⟨ha, hb⟩
  · ext p
    rw [Set.mem_iUnion₂, DesktopRegion.mem_points, ← Iterator.rectsFrom_points hwell]
    exact exists_congr fun rect => exists_prop

/-- Two rectangles side by side, on three rows. -/
theorem iterator_partition_two : ∃ r, Reachable r ∧ r.rows.length = 3 ∧
    ∃ it rects, Iterator.start r = some it ∧ it.rects (r.rows.map fun row => row.spans.length).sum = some rects ∧
    (∀ rect ∈ rects, rect.isEmpty = false ∧ rect.points.Nonempty) ∧
    rects.Pairwise (fun a b => Disjoint a.points b.points) ∧
    ⋃ rect ∈ rects, rect.points = r.points :=
  ⟨_, .addRect ⟨5, 2, 9, 6⟩ (.addRect ⟨0, 0, 4, 4⟩ .create rfl) rfl, rfl,
    iterator_partition (.addRect ⟨5, 2, 9, 6⟩ (.addRect ⟨0, 0, 4, 4⟩ .create rfl) rfl)⟩

end WebRtc.Desktop
