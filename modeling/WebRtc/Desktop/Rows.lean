import WebRtc.Desktop.Spans

/-!
# The rows of a region

A region is read as the set of the points in the spans of its rows. Rows before an iterator are kept in
the opposite order (`Before`), so that what happens at it happens at the heads of two lists.
-/

namespace WebRtc.Desktop

open HalfOpen

instance : HalfOpen Row := ⟨Row.top, Row.bottom⟩

@[simp] theorem lo_row (r : Row) : lo r = r.top := rfl
@[simp] theorem hi_row (r : Row) : hi r = r.bottom := rfl

/-- The points of the rows. -/
def Points (rows : List Row) (x y : Int) : Prop := On (fun r => InSpans r.spans x) rows y

/-- A row that is not empty in height, keyed by its bottom, with spans in order. -/
structure RowShape (r : Row) : Prop where
  keyed : r.key = r.bottom
  tall : r.top < r.bottom
  spans : SpansOk r.spans

structure RowOk (r : Row) : Prop extends RowShape r where
  nonempty : r.spans ≠ []

/-- Rows from top to bottom that do not overlap. -/
structure WellFormed (rows : List Row) : Prop where
  ok : ∀ r ∈ rows, RowOk r
  apart : rows.Pairwise fun r q => r.bottom ≤ q.top

/-- The same from bottom to top. -/
structure Before (done : List Row) : Prop where
  ok : ∀ r ∈ done, RowOk r
  apart : done.Pairwise fun r q => q.bottom ≤ r.top

/-- No row can be merged with the one before it. -/
abbrev Unmerged (rows : List Row) : Prop := Canonical Row.spans rows

/-- The same from bottom to top. -/
def Settled (done : List Row) : Prop := done.IsChain fun r q => ¬ (q.bottom = r.top ∧ q.spans = r.spans)

section Basics
variable {r : Row} {rows done todo : List Row} {x y : Int}

@[simp] theorem points_nil : ¬ Points [] x y := on_nil

theorem points_cons : Points (r :: rows) x y ↔ (r.top ≤ y ∧ y < r.bottom ∧ InSpans r.spans x) ∨
    Points rows x y := on_cons

theorem points_append {a b : List Row} : Points (a ++ b) x y ↔ Points a x y ∨ Points b x y := on_append

theorem points_reverse : Points rows.reverse x y ↔ Points rows x y := on_reverse

theorem wellFormed_nil : WellFormed [] := ⟨by simp, List.Pairwise.nil⟩

theorem before_nil : Before [] := ⟨by simp, List.Pairwise.nil⟩

theorem WellFormed.ordered (h : WellFormed rows) : Ordered rows := ⟨fun r hr => (h.ok r hr).tall, h.apart⟩

/-- On the lines of a row there is nothing else. -/
theorem WellFormed.points_iff (h : WellFormed rows) (hr : r ∈ rows) (hlo : r.top ≤ y) (hhi : y < r.bottom) :
    Points rows x y ↔ InSpans r.spans x := h.ordered.on_of_mem hr hlo hhi

theorem wellFormed_cons : WellFormed (r :: rows) ↔ RowOk r ∧ WellFormed rows ∧ ∀ q ∈ rows, r.bottom ≤ q.top := by
  constructor
  · intro h
    exact ⟨h.ok r List.mem_cons_self, ⟨fun q hq => h.ok q (List.mem_cons_of_mem r hq), h.apart.of_cons⟩,
      fun q hq => List.rel_of_pairwise_cons h.apart hq⟩
  · rintro ⟨hr, hrows, happart⟩
    exact ⟨List.forall_mem_cons.2 ⟨hr, hrows.ok⟩, List.pairwise_cons.2 ⟨happart, hrows.apart⟩⟩

theorem before_cons : Before (r :: done) ↔ RowOk r ∧ Before done ∧ ∀ q ∈ done, q.bottom ≤ r.top := by
  constructor
  · intro h
    exact ⟨h.ok r List.mem_cons_self, ⟨fun q hq => h.ok q (List.mem_cons_of_mem r hq), h.apart.of_cons⟩,
      fun q hq => List.rel_of_pairwise_cons h.apart hq⟩
  · rintro ⟨hr, hdone, happart⟩
    exact ⟨List.forall_mem_cons.2 ⟨hr, hdone.ok⟩, List.pairwise_cons.2 ⟨happart, hdone.apart⟩⟩

/-- The last row ends last. -/
theorem Before.ends (h : Before (r :: done)) : ∀ q ∈ r :: done, q.bottom ≤ r.bottom := by
  obtain ⟨hr, -, hapart⟩ := before_cons.1 h
  have htall := hr.tall
  intro q hq
  rcases List.mem_cons.1 hq with rfl | hq
  · exact Int.le_refl _
  · have hle := hapart q hq
    omega

/-- The rows on both sides of an iterator. -/
theorem wellFormed_join : WellFormed (done.reverse ++ todo) ↔
    Before done ∧ WellFormed todo ∧ ∀ r ∈ done, ∀ q ∈ todo, r.bottom ≤ q.top := by
  constructor
  · rintro ⟨hok, happart⟩
    obtain ⟨hdone, htodo, hcross⟩ := List.pairwise_append.1 happart
    refine ⟨⟨fun r hr => hok r (List.mem_append_left _ (List.mem_reverse.2 hr)), List.pairwise_reverse.1 hdone⟩,
      ⟨fun r hr => hok r (List.mem_append_right _ hr), htodo⟩, fun r hr q hq => hcross r (List.mem_reverse.2 hr) q hq⟩
  · rintro ⟨hdone, htodo, hcross⟩
    refine ⟨?_, List.pairwise_append.2 ⟨List.pairwise_reverse.2 hdone.apart, htodo.apart, ?_⟩⟩
    · intro r hr
      rcases List.mem_append.1 hr with hr | hr
      · exact hdone.ok r (List.mem_reverse.1 hr)
      · exact htodo.ok r hr
    · exact fun r hr q hq => hcross r (List.mem_reverse.1 hr) q hq

theorem Before.reverse (h : Before done) : WellFormed done.reverse := by
  rw [← List.append_nil done.reverse]
  exact wellFormed_join.2 ⟨h, wellFormed_nil, by simp⟩

theorem unmerged_reverse : Unmerged done.reverse ↔ Settled done := by
  unfold Unmerged Canonical Settled
  rw [List.isChain_reverse]
  rfl

/-- The rows on both sides of an iterator, with the row at it. -/
theorem unmerged_join : Unmerged (done.reverse ++ r :: rows) ↔ Settled (r :: done) ∧ Unmerged (r :: rows) := by
  rw [← unmerged_reverse, List.reverse_cons]
  exact List.isChain_split

end Basics

/-! ## A row is split or merged -/

section Split
variable {done rest : List Row} {row : Row} (hdone : Before done) (hbelow : ∀ r ∈ done, r.bottom ≤ row.top)
include hdone hbelow

variable (row) in
theorem inserts_before {key : Int} (h1 : row.top < key) {todo : List Row} (h2 : ∀ r ∈ todo.head?, key < r.key) :
    inserts done todo key = true := by
  unfold inserts
  rw [Bool.and_eq_true]
  constructor
  · cases done with
    | nil => rfl
    | cons d done =>
      have hle := hbelow d List.mem_cons_self
      have hkey := (hdone.ok d List.mem_cons_self).keyed
      simp only [List.head?_cons, Option.all_some, decide_eq_true_eq]
      omega
  · cases todo with
    | nil => rfl
    | cons q todo => simpa using h2

/-- **The upper part of a row is left behind.** -/
theorem splitAbove_spec (hrow : RowOk row) {top : Int} (htop : top < row.bottom) :
    ∃ done' row', splitAbove top done row = some (done', row') ∧
    Before done' ∧ RowOk row' ∧ (∀ r ∈ done', r.bottom ≤ row'.top) ∧ row'.top = max row.top top ∧
      row'.bottom = row.bottom ∧
    row'.spans = row.spans ∧ (∀ x y, Points (row' :: done') x y ↔ Points (row :: done) x y) ∧
    ((row.top < top → Settled (row :: done)) → Settled done → Settled done') := by
  unfold splitAbove
  by_cases hlt : row.top < top
  · rw [if_pos hlt, if_pos ⟨Int.le_of_lt htop, inserts_before row hdone hbelow hlt (by simpa [hrow.keyed] using htop)⟩]
    refine ⟨_, _, rfl, ?_, ?_, ?_, ?_, rfl, rfl, ?_, ?_⟩
    · exact before_cons.2 ⟨⟨⟨rfl, hlt, hrow.spans⟩, hrow.nonempty⟩, hdone, hbelow⟩
    · exact ⟨⟨hrow.keyed, htop, hrow.spans⟩, hrow.nonempty⟩
    · intro r hr
      rcases List.mem_cons.1 hr with rfl | hr
      · exact Int.le_refl _
      · have hle := hbelow r hr
        show r.bottom ≤ top
        omega
    · show top = max row.top top
      omega
    · intro x y
      rw [points_cons, points_cons, points_cons]
      dsimp only
      constructor
      · rintro (⟨hlo, hhi, hx⟩ | ⟨hlo, hhi, hx⟩ | h)
        · exact Or.inl ⟨by omega, hhi, hx⟩
        · exact Or.inl ⟨hlo, by omega, hx⟩
        · exact Or.inr h
      · rintro (⟨hlo, hhi, hx⟩ | h)
        · by_cases hy : y < top
          · exact Or.inr (Or.inl ⟨hlo, hy, hx⟩)
          · exact Or.inl ⟨by omega, hhi, hx⟩
        · exact Or.inr (Or.inr h)
    · intro hfirst hsettled
      have hcons := hfirst hlt
      cases done with
      | nil => exact List.isChain_singleton _
      | cons d done => exact List.isChain_cons_cons.2 ⟨(List.isChain_cons_cons.1 hcons).1, hsettled⟩
  · rw [if_neg hlt]
    exact ⟨done, row, rfl, hdone, hrow, hbelow, by omega, rfl, rfl, fun _ _ => Iff.rfl, fun _ h => h⟩

/-- **The lower part of a row is left over.** -/
theorem splitBelow_spec (hrow : RowShape row) (hrest : WellFormed rest)
    (habove : ∀ q ∈ rest, row.bottom ≤ q.top) (bottom : Int)
    (hbottom : row.top < bottom) (hne : bottom < row.bottom → row.spans ≠ []) :
    ∃ row' rest', splitBelow row.top bottom done row rest = some (row', rest') ∧ RowShape row' ∧ WellFormed rest' ∧
      (∀ q ∈ rest', row'.bottom ≤ q.top) ∧ row'.top = row.top ∧ row'.bottom = min row.bottom bottom ∧
        row'.spans = row.spans ∧
      (∀ x y, Points (row' :: rest') x y ↔ Points (row :: rest) x y) ∧
      (bottom < row.bottom → rest' = { row with top := bottom } :: rest) ∧ (¬ bottom < row.bottom → rest' = rest) := by
  unfold splitBelow
  by_cases hlt : bottom < row.bottom
  · rw [if_pos hlt, if_pos (inserts_before row hdone hbelow hbottom (by simpa [hrow.keyed] using hlt))]
    refine ⟨_, _, rfl, ⟨rfl, hbottom, hrow.spans⟩, ?_, ?_, rfl, ?_, rfl, ?_, fun _ => rfl, fun hno => absurd hlt hno⟩
    · exact wellFormed_cons.2 ⟨⟨⟨hrow.keyed, hlt, hrow.spans⟩, hne hlt⟩, hrest, habove⟩
    · intro q hq
      rcases List.mem_cons.1 hq with rfl | hq
      · exact Int.le_refl _
      · have hle := habove q hq
        show bottom ≤ q.top
        omega
    · show bottom = min row.bottom bottom
      omega
    · intro x y
      rw [points_cons, points_cons, points_cons]
      dsimp only
      constructor
      · rintro (⟨hlo, hhi, hx⟩ | ⟨hlo, hhi, hx⟩ | h)
        · exact Or.inl ⟨hlo, by omega, hx⟩
        · exact Or.inl ⟨by omega, hhi, hx⟩
        · exact Or.inr h
      · rintro (⟨hlo, hhi, hx⟩ | h)
        · by_cases hy : y < bottom
          · exact Or.inl ⟨hlo, hy, hx⟩
          · exact Or.inr (Or.inl ⟨by omega, hhi, hx⟩)
        · exact Or.inr (Or.inr h)
  · rw [if_neg hlt]
    exact ⟨row, rest, rfl, hrow, hrest, habove, rfl, by omega, rfl, fun _ _ => Iff.rfl, fun h =>
      absurd h hlt, fun _ => rfl⟩

/-- **A row is merged** when it can be. -/
theorem mergeWithPrecedingRow_spec (hrow : RowOk row) : ∃ done' row', mergeWithPrecedingRow done row = (done', row') ∧
    Before (row' :: done') ∧ row'.bottom = row.bottom ∧ row'.spans = row.spans ∧
    (∀ x y, Points (row' :: done') x y ↔ Points (row :: done) x y) ∧ (Settled done → Settled (row' :: done')) := by
  cases done with
  | nil => exact ⟨[], row, rfl, before_cons.2 ⟨hrow, hdone, hbelow⟩, rfl, rfl, fun _ _ => Iff.rfl,
    fun _ => List.isChain_singleton _⟩
  | cons d done =>
    obtain ⟨hd, hdone', hapart⟩ := before_cons.1 hdone
    unfold mergeWithPrecedingRow
    dsimp only
    by_cases hmerge : d.bottom = row.top ∧ d.spans = row.spans
    · rw [if_pos hmerge]
      obtain ⟨hbottom, hspans⟩ := hmerge
      have htall := hd.tall
      have htallRow := hrow.tall
      refine ⟨_, _, rfl, ?_, rfl, rfl, ?_, ?_⟩
      · exact before_cons.2 ⟨⟨⟨hrow.keyed, by show d.top < row.bottom; omega, hrow.spans⟩,
          hrow.nonempty⟩, hdone', hapart⟩
      · intro x y
        rw [points_cons, points_cons, points_cons, hspans]
        dsimp only
        constructor
        · rintro (⟨hlo, hhi, hx⟩ | h)
          · by_cases hy : y < d.bottom
            · exact Or.inr (Or.inl ⟨hlo, hy, hx⟩)
            · exact Or.inl ⟨by omega, hhi, hx⟩
          · exact Or.inr (Or.inr h)
        · rintro (⟨hlo, hhi, hx⟩ | ⟨hlo, hhi, hx⟩ | h)
          · exact Or.inl ⟨by omega, hhi, hx⟩
          · exact Or.inl ⟨hlo, by omega, hx⟩
          · exact Or.inr h
      · intro hsettled
        cases done with
        | nil => exact List.isChain_singleton _
        | cons e done =>
          obtain ⟨hfirst, hchain⟩ := List.isChain_cons_cons.1 hsettled
          rw [hspans] at hfirst
          exact List.isChain_cons_cons.2 ⟨hfirst, hchain⟩
    · rw [if_neg hmerge]
      exact ⟨_, _, rfl, before_cons.2 ⟨hrow, hdone, hbelow⟩, rfl, rfl, fun _ _ => Iff.rfl,
        fun hsettled => List.isChain_cons_cons.2 ⟨hmerge, hsettled⟩⟩

variable (row) in
/-- **A row is left behind**, when it is not empty. -/
theorem leave_spec (hrow : RowShape row) : ∃ done', done' = (if row.spans = [] then done
      else (mergeWithPrecedingRow done row).2 :: (mergeWithPrecedingRow done row).1) ∧ Before done' ∧
    (∀ r ∈ done', r.bottom ≤ row.bottom) ∧ (∀ x y, Points done' x y ↔ Points (row :: done) x y) ∧
        (Settled done → Settled done') := by
  refine ⟨_, rfl, ?_⟩
  by_cases hnone : row.spans = []
  · rw [if_pos hnone]
    refine ⟨hdone, ?_, ?_, id⟩
    · intro r hr
      have hle := hbelow r hr
      have htall := hrow.tall
      omega
    · intro x y
      rw [points_cons, hnone]
      simp
  · rw [if_neg hnone]
    obtain ⟨done', row', hmerge, hbefore, hbottom, -, hpoints, hsettled⟩ :=
      mergeWithPrecedingRow_spec hdone hbelow ⟨hrow, hnone⟩
    rw [hmerge]
    refine ⟨hbefore, ?_, hpoints, hsettled⟩
    rw [← hbottom]
    exact hbefore.ends

end Split

/-- **After a loop** the rows on both sides are put together. -/
theorem mergeLast_spec {done todo : List Row} (hdone : Before done) (htodo : WellFormed todo)
    (hcross : ∀ r ∈ done, ∀ q ∈ todo, r.bottom ≤ q.top) : WellFormed (mergeLast done todo) ∧
      (∀ x y, Points (mergeLast done todo) x y ↔ Points done x y ∨ Points todo x y) ∧
      (Settled done → Unmerged todo → Unmerged (mergeLast done todo)) := by
  cases todo with
  | nil =>
    unfold mergeLast
    exact ⟨hdone.reverse, fun x y => by simp [points_reverse], fun hsettled _ => unmerged_reverse.2 hsettled⟩
  | cons row rest =>
    obtain ⟨hrow, hrest, hapart⟩ := wellFormed_cons.1 htodo
    obtain ⟨done', row', hmerge, hbefore, hbottom, hspans, hpoints, hsettled⟩ :=
      mergeWithPrecedingRow_spec hdone (fun r hr => hcross r hr row List.mem_cons_self) hrow
    obtain ⟨hrow', hdone', hapart'⟩ := before_cons.1 hbefore
    unfold mergeLast
    dsimp only
    rw [hmerge]
    dsimp only
    have hlist : WellFormed (row' :: rest) := wellFormed_cons.2 ⟨hrow', hrest, by rw [hbottom]; exact hapart⟩
    refine ⟨wellFormed_join.2 ⟨hdone', hlist, ?_⟩, ?_, ?_⟩
    · intro r hr q hq
      have hle := hapart' r hr
      rcases List.mem_cons.1 hq with rfl | hq
      · exact hle
      · have hbehind := hapart q hq
        have htall := hrow'.tall
        omega
    · intro x y
      have hxy := hpoints x y
      rw [points_cons, points_cons] at hxy
      rw [points_append, points_reverse, points_cons, points_cons, or_left_comm, ← or_assoc, hxy, or_assoc,
        or_left_comm]
    · intro hset hun
      refine unmerged_join.2 ⟨hsettled hset, ?_⟩
      cases rest with
      | nil => exact List.isChain_singleton _
      | cons q rest =>
        obtain ⟨hfirst, hchain⟩ := List.isChain_cons_cons.1 hun
        refine List.isChain_cons_cons.2 ⟨?_, hchain⟩
        rw [hi_row, hbottom, hspans]
        exact hfirst

/-- **The search for the first row** with its bottom below a position. -/
theorem upperBound_spec {rows : List Row} (h : WellFormed rows) (key : Int) :
    (upperBound rows key).1.reverse ++ (upperBound rows key).2 = rows ∧
      (∀ r ∈ (upperBound rows key).1, r.bottom ≤ key) ∧ ∀ r ∈ (upperBound rows key).2, key < r.bottom := by
  have hpartitioned : Partitioned (fun r : Row => decide (r.key ≤ key)) rows := by
    refine h.apart.imp_of_mem ?_
    intro r q hr hq hrq hle
    have htall := (h.ok q hq).tall
    have hkr := (h.ok r hr).keyed
    have hkq := (h.ok q hq).keyed
    simp only [decide_eq_true_eq] at hle ⊢
    omega
  unfold upperBound
  refine ⟨by rw [List.reverse_reverse, List.takeWhile_append_dropWhile], ?_, ?_⟩
  · intro r hr
    rw [List.mem_reverse] at hr
    have hle := List.mem_takeWhile_imp hr
    have hkey := (h.ok r ((List.takeWhile_sublist _).subset hr)).keyed
    simp only [decide_eq_true_eq] at hle
    omega
  · intro r hr
    rw [Search.dropWhile_eq_filter hpartitioned, List.mem_filter] at hr
    obtain ⟨hmem, hgt⟩ := hr
    have hkey := (h.ok r hmem).keyed
    simp at hgt
    omega

end WebRtc.Desktop
