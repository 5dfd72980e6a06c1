import Mathlib.Data.Set.Basic
import WebRtc.Desktop.Iterate

/-!
# The algebra of regions

A region is the set of its points. Runs of the operations are taken with a condition on what is
subtracted from what; for the algebra there is none.
-/

namespace WebRtc.Desktop

def DesktopRegion.points (r : DesktopRegion) : Set (Int × Int) :=
  {p | ∃ row ∈ r.rows, (row.top ≤ p.2 ∧ p.2 < row.bottom) ∧ ∃ span ∈ row.spans, span.left ≤ p.1 ∧ p.1 < span.right}

def DesktopRect.points (rect : DesktopRect) : Set (Int × Int) :=
  {p | (rect.left ≤ p.1 ∧ p.1 < rect.right) ∧ rect.top ≤ p.2 ∧ p.2 < rect.bottom}

theorem DesktopRegion.mem_points {r : DesktopRegion} {p : Int × Int} : p ∈ r.points ↔ Points r.rows p.1 p.2 := by
  constructor
  · rintro ⟨row, hrow, ⟨hlo, hhi⟩, hx⟩
    exact ⟨row, hrow, hlo, hhi, inSpans_iff.2 hx⟩
  · rintro ⟨row, hrow, hlo, hhi, hx⟩
    exact ⟨row, hrow, ⟨hlo, hhi⟩, inSpans_iff.1 hx⟩

/-- The regions that come out of operations, when every subtraction of a region meets the condition. -/
inductive Made (Allowed : DesktopRegion → DesktopRegion → Prop) : DesktopRegion → Prop
  | create : Made Allowed DesktopRegion.create
  | addRect {r r' : DesktopRegion} (rect : DesktopRect) (hr : Made Allowed r)
      (h : r.addRect rect = some r') : Made Allowed r'
  | addRects {r r' : DesktopRegion} (rects : List DesktopRect) (hr : Made Allowed r)
      (h : r.addRects rects = some r') : Made Allowed r'
  | addRegion {r region r' : DesktopRegion} (hr : Made Allowed r) (hregion : Made Allowed region)
      (h : r.addRegion region = some r') :
      Made Allowed r'
  | intersect {region1 region2 r' : DesktopRegion} (h1 : Made Allowed region1) (h2 : Made Allowed region2)
      (h : DesktopRegion.intersect region1 region2 = some r') : Made Allowed r'
  | intersectWith {r region r' : DesktopRegion} (hr : Made Allowed r) (hregion : Made Allowed region)
      (h : r.intersectWith region = some r') : Made Allowed r'
  | intersectWithRect {r r' : DesktopRegion} (rect : DesktopRect) (hr : Made Allowed r)
      (h : r.intersectWithRect rect = some r') :
      Made Allowed r'
  | subtract {r region r' : DesktopRegion} (hr : Made Allowed r) (hregion : Made Allowed region)
      (hallowed : Allowed r region)
      (h : r.subtract region = some r') : Made Allowed r'
  | subtractRect {r r' : DesktopRegion} (rect : DesktopRect) (hr : Made Allowed r)
      (h : r.subtractRect rect = some r') : Made Allowed r'
  | translate {r : DesktopRegion} (dx dy : Int) (hr : Made Allowed r) : Made Allowed (r.translate dx dy)

/-- Every region that can be made. -/
abbrev Reachable : DesktopRegion → Prop := Made fun _ _ => True

/-! ## The operations -/

section Operations
variable {r region : DesktopRegion} {x y : Int}

theorem wellFormed_create : WellFormed DesktopRegion.create.rows := wellFormed_nil

theorem rect_spec (rect : DesktopRect) : ∃ region, DesktopRegion.create.addRect rect = some region ∧
    WellFormed region.rows ∧
    (∀ x y, Points region.rows x y ↔ rect.Has x y) ∧ Unmerged region.rows := by
  obtain ⟨region, hadd, hwell, hpoints, hunmerged⟩ := addRect_spec wellFormed_create rect
  refine ⟨region, hadd, hwell, fun x y => ?_, hunmerged List.isChain_nil⟩
  rw [hpoints]
  exact or_iff_right points_nil

theorem intersectWithRect_spec (hr : WellFormed r.rows) (rect : DesktopRect) :
    ∃ r', r.intersectWithRect rect = some r' ∧
    WellFormed r'.rows ∧ (∀ x y, Points r'.rows x y ↔ Points r.rows x y ∧ rect.Has x y) ∧ Unmerged r'.rows := by
  obtain ⟨region, hadd, hwell, hrect, -⟩ := rect_spec rect
  obtain ⟨r', hinter, hwell', hpoints, hunmerged⟩ := intersect_spec hr hwell
  unfold DesktopRegion.intersectWithRect DesktopRegion.intersectWith
  rw [hadd]
  refine ⟨r', hinter, hwell', fun x y => ?_, hunmerged⟩
  rw [hpoints, hrect]

theorem subtractRect_spec (hr : WellFormed r.rows) (rect : DesktopRect) :
    ∃ region r', DesktopRegion.create.addRect rect = some region ∧
    r.subtractRect rect = some r' ∧ WellFormed r'.rows ∧ (∀ x y, Points r'.rows x y ↔
      Points r.rows x y ∧ ¬ rect.Has x y) ∧
    (Unmerged r.rows → ¬ Misses r.rows region.rows → Unmerged r'.rows) := by
  obtain ⟨region, hadd, hwell, hrect, -⟩ := rect_spec rect
  obtain ⟨r', hsub, hwell', hpoints, hunmerged⟩ := subtract_spec hr hwell
  unfold DesktopRegion.subtractRect
  rw [hadd]
  refine ⟨region, r', rfl, hsub, hwell', fun x y => ?_, hunmerged⟩
  rw [hpoints, hrect]

/-- A row that has been moved. -/
def Row.moved (row : Row) (dx dy : Int) : Row :=
  { key := if dy ≠ 0 then row.bottom + dy else row.key
    top := row.top + dy
    bottom := row.bottom + dy
    spans := if dx ≠ 0 then row.spans.map fun span => ⟨span.left + dx, span.right + dx⟩ else row.spans }

theorem moved_spans (row : Row) (dx dy : Int) : (row.moved dx dy).spans = row.spans.map fun span =>
    ⟨span.left + dx, span.right + dx⟩ := by
  unfold Row.moved
  by_cases hdx : dx = 0
  · subst hdx
    simp
  · exact if_pos hdx

theorem moved_ok {row : Row} (h : RowOk row) (dx dy : Int) : RowOk (row.moved dx dy) := by
  obtain ⟨⟨hkeyed, htall, hspans⟩, hne⟩ := h
  refine ⟨⟨?_, ?_, ?_⟩, ?_⟩
  · show (if dy ≠ 0 then row.bottom + dy else row.key) = row.bottom + dy
    split <;> omega
  · show row.top + dy < row.bottom + dy
    omega
  · rw [moved_spans]
    refine ⟨?_, List.pairwise_map.2 (hspans.apart.imp ?_)⟩
    · intro s hs
      obtain ⟨t, ht, rfl⟩ := List.mem_map.1 hs
      have hproper := hspans.proper t ht
      show t.left + dx < t.right + dx
      omega
    · intro s t hst
      show s.right + dx < t.left + dx
      omega
  · rw [moved_spans]
    simpa using hne

theorem translate_rows (dx dy : Int) : (r.translate dx dy).rows = r.rows.map fun row => row.moved dx dy := rfl

/-- **A region is translated.** -/
theorem translate_spec (hr : WellFormed r.rows) (dx dy : Int) : WellFormed (r.translate dx dy).rows ∧
    (∀ x y, Points (r.translate dx dy).rows x y ↔ Points r.rows (x - dx) (y - dy)) ∧
    (Unmerged r.rows → Unmerged (r.translate dx dy).rows) := by
  rw [translate_rows]
  refine ⟨⟨?_, ?_⟩, ?_, ?_⟩
  · intro row hrow
    obtain ⟨q, hq, rfl⟩ := List.mem_map.1 hrow
    exact moved_ok (hr.ok q hq) dx dy
  · refine List.pairwise_map.2 (hr.apart.imp ?_)
    intro row q hle
    show row.bottom + dy ≤ q.top + dy
    omega
  · intro x y
    constructor
    · rintro ⟨row, hrow, hlo, hhi, hx⟩
      obtain ⟨q, hq, rfl⟩ := List.mem_map.1 hrow
      rw [moved_spans, inSpans_iff] at hx
      obtain ⟨s, hs, hleft, hright⟩ := hx
      obtain ⟨t, ht, rfl⟩ := List.mem_map.1 hs
      have hlo' : q.top + dy ≤ y := hlo
      have hhi' : y < q.bottom + dy := hhi
      dsimp only at hleft hright
      exact ⟨q, hq, by rw [lo_row]; omega, by rw [hi_row]; omega, inSpans_iff.2 ⟨t, ht, by omega, by omega⟩⟩
    · rintro ⟨row, hrow, hlo, hhi, hx⟩
      obtain ⟨s, hs, hleft, hright⟩ := inSpans_iff.1 hx
      have hlo' : row.top ≤ y - dy := hlo
      have hhi' : y - dy < row.bottom := hhi
      refine ⟨row.moved dx dy, List.mem_map_of_mem hrow, ?_, ?_, ?_⟩
      · show row.top + dy ≤ y
        omega
      · show y < row.bottom + dy
        omega
      · show InSpans (row.moved dx dy).spans x
        rw [moved_spans, inSpans_iff]
        exact ⟨_, List.mem_map_of_mem hs, by dsimp only; omega, by dsimp only; omega⟩
  · intro hun
    refine List.isChain_map_of_isChain _ ?_ hun
    intro row q hfirst hsame
    rw [moved_spans, moved_spans] at hsame
    obtain ⟨htouch, hspans⟩ := hsame
    have htouch' : row.bottom + dy = q.top + dy := htouch
    refine hfirst ⟨by rw [hi_row, lo_row]; omega, List.map_injective_iff.2 ?_ hspans⟩
    rintro ⟨l1, r1⟩ ⟨l2, r2⟩ heq
    simp only [RowSpan.mk.injEq] at heq ⊢
    omega

/-- Every region that is made is well formed. -/
theorem Made.wellFormed {Allowed : DesktopRegion → DesktopRegion → Prop} (h : Made Allowed r) : WellFormed r.rows := by
  induction h with
  | create => exact wellFormed_create
  | addRect rect _ hadd ih =>
    obtain ⟨r', heq, hwell, -⟩ := addRect_spec ih rect
    rw [heq] at hadd
    cases hadd
    exact hwell
  | addRects rects _ hadd ih =>
    obtain ⟨r', heq, hwell, -⟩ := addRects_spec ih rects
    rw [heq] at hadd
    cases hadd
    exact hwell
  | addRegion _ _ hadd ih ihRegion =>
    obtain ⟨r', heq, hwell, -⟩ := addRegion_spec ih ihRegion
    rw [heq] at hadd
    cases hadd
    exact hwell
  | intersect _ _ hinter ih1 ih2 =>
    obtain ⟨r', heq, hwell, -⟩ := intersect_spec ih1 ih2
    rw [heq] at hinter
    cases hinter
    exact hwell
  | intersectWith _ _ hinter ih ihRegion =>
    obtain ⟨r', heq, hwell, -⟩ := intersect_spec ih ihRegion
    unfold DesktopRegion.intersectWith at hinter
    rw [heq] at hinter
    cases hinter
    exact hwell
  | intersectWithRect rect _ hinter ih =>
    obtain ⟨r', heq, hwell, -⟩ := intersectWithRect_spec ih rect
    rw [heq] at hinter
    cases hinter
    exact hwell
  | subtract _ _ _ hsub ih ihRegion =>
    obtain ⟨r', heq, hwell, -⟩ := subtract_spec ih ihRegion
    rw [heq] at hsub
    cases hsub
    exact hwell
  | subtractRect rect _ hsub ih =>
    obtain ⟨region, r', -, heq, hwell, -⟩ := subtractRect_spec ih rect
    rw [heq] at hsub
    cases hsub
    exact hwell
  | translate dx dy _ ih => exact (translate_spec ih dx dy).1

end Operations

/-! ## The algebra -/

/-- What the operations do to a region: each returns, with exactly the points that it should have. -/
structure ExactAlgebra (r : DesktopRegion) : Prop where
  rows : r.rows.Pairwise fun row next => row.bottom ≤ next.top
  row : ∀ row ∈ r.rows, row.key = row.bottom ∧ row.top < row.bottom ∧ row.spans ≠ []
  spans : ∀ row ∈ r.rows, (∀ span ∈ row.spans, span.left < span.right) ∧
    row.spans.Pairwise fun span next => span.right < next.left
  addRect : ∀ rect, ∃ r', r.addRect rect = some r' ∧ Reachable r' ∧ r'.points = r.points ∪ rect.points
  addRects : ∀ rects, ∃ r', r.addRects rects = some r' ∧ Reachable r' ∧
    r'.points = r.points ∪ {p | ∃ rect ∈ rects, p ∈ rect.points}
  addRegion : ∀ region, Reachable region → ∃ r', r.addRegion region = some r' ∧ Reachable r' ∧
    r'.points = r.points ∪ region.points
  intersect : ∀ region, Reachable region → ∃ r', DesktopRegion.intersect r region = some r' ∧ Reachable r' ∧
    r'.points = r.points ∩ region.points
  intersectWith : ∀ region, Reachable region → ∃ r', r.intersectWith region = some r' ∧ Reachable r' ∧
    r'.points = r.points ∩ region.points
  intersectWithRect : ∀ rect, ∃ r', r.intersectWithRect rect = some r' ∧ Reachable r' ∧
    r'.points = r.points ∩ rect.points
  subtract : ∀ region, Reachable region → ∃ r', r.subtract region = some r' ∧ Reachable r' ∧
    r'.points = r.points \ region.points
  subtractRect : ∀ rect, ∃ r', r.subtractRect rect = some r' ∧ Reachable r' ∧ r'.points = r.points \ rect.points
  translate : ∀ dx dy, Reachable (r.translate dx dy) ∧ (r.translate dx dy).points =
    {p | (p.1 - dx, p.2 - dy) ∈ r.points}

/-- **A region is an exact set algebra.** -/
theorem exact_algebra (r : DesktopRegion) (hr : Reachable r) : ExactAlgebra r := by
  have hwell := hr.wellFormed
  constructor
  case rows => exact hwell.apart
  case row =>
    intro row hrow
    obtain ⟨⟨hkeyed, htall, -⟩, hne⟩ := hwell.ok row hrow
    exact ⟨hkeyed, htall, hne⟩
  case spans =>
    intro row hrow
    obtain ⟨hproper, hapart⟩ := (hwell.ok row hrow).spans
    exact ⟨hproper, hapart⟩
  case addRect =>
    intro rect
    obtain ⟨r', hadd, -, hpoints, -⟩ := addRect_spec hwell rect
    refine ⟨r', hadd, Made.addRect rect hr hadd, Set.ext fun p => ?_⟩
    simp only [DesktopRegion.mem_points, Set.mem_union, hpoints]
    rfl
  case addRects =>
    intro rects
    obtain ⟨r', hadd, -, hpoints, -⟩ := addRects_spec hwell rects
    refine ⟨r', hadd, Made.addRects rects hr hadd, Set.ext fun p => ?_⟩
    simp only [DesktopRegion.mem_points, Set.mem_union, hpoints]
    rfl
  case addRegion =>
    intro region hregion
    obtain ⟨r', hadd, -, hpoints, -⟩ := addRegion_spec hwell hregion.wellFormed
    refine ⟨r', hadd, Made.addRegion hr hregion hadd, Set.ext fun p => ?_⟩
    simp only [DesktopRegion.mem_points, Set.mem_union, hpoints]
  case intersect =>
    intro region hregion
    obtain ⟨r', hinter, -, hpoints, -⟩ := intersect_spec hwell hregion.wellFormed
    refine ⟨r', hinter, Made.intersect hr hregion hinter, Set.ext fun p => ?_⟩
    simp only [DesktopRegion.mem_points, Set.mem_inter_iff, hpoints]
  case intersectWith =>
    intro region hregion
    obtain ⟨r', hinter, -, hpoints, -⟩ := intersect_spec hwell hregion.wellFormed
    refine ⟨r', hinter, Made.intersectWith hr hregion hinter, Set.ext fun p => ?_⟩
    simp only [DesktopRegion.mem_points, Set.mem_inter_iff, hpoints]
  case intersectWithRect =>
    intro rect
    obtain ⟨r', hinter, -, hpoints, -⟩ := intersectWithRect_spec hwell rect
    refine ⟨r', hinter, Made.intersectWithRect rect hr hinter, Set.ext fun p => ?_⟩
    simp only [DesktopRegion.mem_points, Set.mem_inter_iff, hpoints]
    rfl
  case subtract =>
    intro region hregion
    obtain ⟨r', hsub, -, hpoints, -⟩ := subtract_spec hwell hregion.wellFormed
    refine ⟨r', hsub, Made.subtract hr hregion trivial hsub, Set.ext fun p => ?_⟩
    simp only [DesktopRegion.mem_points, Set.mem_sdiff, hpoints]
  case subtractRect =>
    intro rect
    obtain ⟨-, r', -, hsub, -, hpoints, -⟩ := subtractRect_spec hwell rect
    refine ⟨r', hsub, Made.subtractRect rect hr hsub, Set.ext fun p => ?_⟩
    simp only [DesktopRegion.mem_points, Set.mem_sdiff, hpoints]
    rfl
  case translate =>
    intro dx dy
    refine ⟨Made.translate dx dy hr, Set.ext fun p => ?_⟩
    simp only [DesktopRegion.mem_points, Set.mem_ofPred_eq, (translate_spec hwell dx dy).2.1]

/-- A region that a rectangle has been taken out of. -/
theorem exact_algebra_of_hole :
    ExactAlgebra ⟨[⟨1, 0, 1, [⟨0, 3⟩]⟩, ⟨2, 1, 2, [⟨0, 1⟩, ⟨2, 3⟩]⟩, ⟨3, 2, 3, [⟨0, 3⟩]⟩]⟩ :=
  exact_algebra _ (Made.subtractRect ⟨1, 1, 2, 2⟩ (r := ⟨[⟨3, 0, 3, [⟨0, 3⟩]⟩]⟩)
    (Made.addRect ⟨0, 0, 3, 3⟩ Made.create (by decide)) (by decide))

end WebRtc.Desktop
