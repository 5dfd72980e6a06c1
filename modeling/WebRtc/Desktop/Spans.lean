import Mathlib.Data.List.TakeWhile
import WebRtc.Desktop.Region
import WebRtc.Lib.Intervals
import WebRtc.Lib.Search

/-!
# The spans of a row as sets of columns

Each of the three operations on spans keeps them in order, without touching one another, and does to the
columns what its name says.
-/

namespace WebRtc.Desktop

open HalfOpen

instance : HalfOpen RowSpan := ⟨RowSpan.left, RowSpan.right⟩

@[simp] theorem lo_span (s : RowSpan) : lo s = s.left := rfl
@[simp] theorem hi_span (s : RowSpan) : hi s = s.right := rfl

/-- Non-empty spans from left to right that do not touch. -/
structure SpansOk (spans : List RowSpan) : Prop where
  proper : ∀ s ∈ spans, s.left < s.right
  apart : spans.Pairwise fun s t => s.right < t.left

/-- The columns of the spans. -/
def InSpans (spans : List RowSpan) (x : Int) : Prop := On (fun _ => True) spans x

section Spans
variable {spans : List RowSpan} {x : Int}

@[simp] theorem inSpans_nil : ¬ InSpans [] x := on_nil

theorem inSpans_cons {s : RowSpan} : InSpans (s :: spans) x ↔ (s.left ≤ x ∧ x < s.right) ∨ InSpans spans x := by
  simp [InSpans, on_cons]

theorem inSpans_append {a b : List RowSpan} : InSpans (a ++ b) x ↔ InSpans a x ∨ InSpans b x := on_append

theorem inSpans_iff : InSpans spans x ↔ ∃ s ∈ spans, s.left ≤ x ∧ x < s.right := by
  simp [InSpans, On]

theorem spansOk_nil : SpansOk [] := ⟨by simp, List.Pairwise.nil⟩

theorem SpansOk.ordered (h : SpansOk spans) : Ordered spans :=
  ⟨h.proper, h.apart.imp fun hlt => Int.le_of_lt hlt⟩

theorem SpansOk.tail {s : RowSpan} (h : SpansOk (s :: spans)) : SpansOk spans :=
  ⟨fun t ht => h.proper t (List.mem_cons_of_mem s ht), h.apart.of_cons⟩

theorem spansOk_append {a b : List RowSpan} : SpansOk (a ++ b) ↔
    SpansOk a ∧ SpansOk b ∧ ∀ s ∈ a, ∀ t ∈ b, s.right < t.left := by
  constructor
  · rintro ⟨hproper, hapart⟩
    obtain ⟨ha, hb, hab⟩ := List.pairwise_append.1 hapart
    exact ⟨⟨fun s hs => hproper s (List.mem_append_left _ hs), ha⟩,
      ⟨fun s hs => hproper s (List.mem_append_right _ hs), hb⟩, hab⟩
  · rintro ⟨ha, hb, hab⟩
    refine ⟨?_, List.pairwise_append.2 ⟨ha.apart, hb.apart, hab⟩⟩
    intro s hs
    rcases List.mem_append.1 hs with hs | hs
    · exact ha.proper s hs
    · exact hb.proper s hs

theorem spansOk_cons {s : RowSpan} : SpansOk (s :: spans) ↔
    s.left < s.right ∧ SpansOk spans ∧ ∀ t ∈ spans, s.right < t.left := by
  constructor
  · intro h
    exact ⟨h.proper s List.mem_cons_self, h.tail, fun t ht => List.rel_of_pairwise_cons h.apart ht⟩
  · rintro ⟨hs, hspans, hst⟩
    refine ⟨?_, List.pairwise_cons.2 ⟨hst, hspans.apart⟩⟩
    intro t ht
    rcases List.mem_cons.1 ht with rfl | ht
    · exact hs
    · exact hspans.proper t ht

/-- The last span reaches the furthest. -/
theorem SpansOk.right_le_last (h : SpansOk spans) {last : RowSpan} (hlast : spans.getLast? = some last) {s : RowSpan}
    (hs : s ∈ spans) : s.right ≤ last.right := by
  obtain ⟨init, rfl⟩ := List.getLast?_eq_some_iff.1 hlast
  rcases List.mem_append.1 hs with hs | hs
  · have hlt := (spansOk_append.1 h).2.2 s hs last (List.mem_singleton_self last)
    have hproper := (spansOk_append.1 h).2.1.proper last (List.mem_singleton_self last)
    omega
  · rw [List.mem_singleton] at hs
    exact Int.le_of_eq (congrArg RowSpan.right hs)

theorem SpansOk.first_le_left {start : RowSpan} (h : SpansOk (start :: spans)) {s : RowSpan}
    (hs : s ∈ start :: spans) : start.left ≤ s.left := by
  rcases List.mem_cons.1 hs with rfl | hs
  · exact Int.le_refl _
  · have hlt := List.rel_of_pairwise_cons h.apart hs
    have hproper := h.proper start List.mem_cons_self
    omega

theorem spansOk_singleton {left right : Int} (h : left < right) : SpansOk [⟨left, right⟩] :=
  spansOk_cons.2 ⟨h, spansOk_nil, by simp⟩

/-- A span is found where it is. -/
theorem isSpanInRow_iff {row : Row} (h : SpansOk row.spans) {span : RowSpan} :
    isSpanInRow row span = true ↔ span ∈ row.spans := by
  unfold isSpanInRow
  generalize row.spans = spans at h
  induction spans with
  | nil => simp
  | cons s spans ih =>
    obtain ⟨hs, hspans, hst⟩ := spansOk_cons.1 h
    by_cases hlt : s.left < span.left
    · rw [List.dropWhile_cons_of_pos (by simpa using hlt), ih hspans]
      constructor
      · exact fun hmem => List.mem_cons_of_mem s hmem
      · intro hmem
        rcases List.mem_cons.1 hmem with rfl | hmem
        · omega
        · exact hmem
    · rw [List.dropWhile_cons_of_neg (by simpa using hlt)]
      simp only [decide_eq_true_eq]
      constructor
      · rintro rfl
        exact List.mem_cons_self
      · intro hmem
        rcases List.mem_cons.1 hmem with rfl | hmem
        · rfl
        · have hright := hst span hmem
          omega

end Spans

/-! ## A span is added -/

section Add
variable {spans : List RowSpan} (h : SpansOk spans) {left right : Int} (hlr : left < right)
include h

variable (left right) in
/-- The spans before, over and behind a new one. -/
theorem split_spans : ∃ before overlapping fromEnd : List RowSpan, spans = before ++ (overlapping ++ fromEnd) ∧
    (spans.takeWhile fun r => decide (r.right < left)) = before ∧
    (spans.dropWhile fun r => decide (r.right < left)) = overlapping ++ fromEnd ∧
    ((overlapping ++ fromEnd).takeWhile fun r => decide (r.left < right + 1)) = overlapping ∧
    ((overlapping ++ fromEnd).dropWhile fun r => decide (r.left < right + 1)) = fromEnd ∧
    (∀ s ∈ before, s.right < left) ∧ (∀ s ∈ overlapping, left ≤ s.right ∧ s.left ≤ right) ∧
        ∀ s ∈ fromEnd, right < s.left := by
  have hfirst : Partitioned (fun r : RowSpan => decide (r.right < left)) spans := by
    refine h.apart.imp_of_mem ?_
    intro s t _ ht hst hlt
    have hproper := h.proper t ht
    simp only [decide_eq_true_eq] at hlt ⊢
    omega
  have hrest : SpansOk (spans.dropWhile fun r => decide (r.right < left)) := by
    have happ := h
    rw [← List.takeWhile_append_dropWhile (p := fun r : RowSpan => decide (r.right < left)) (l := spans)] at happ
    exact (spansOk_append.1 happ).2.1
  have hsecond : Partitioned (fun r : RowSpan => decide (r.left < right + 1))
      (spans.dropWhile fun r => decide (r.right < left)) := by
    refine hrest.apart.imp_of_mem ?_
    intro s t hs _ hst hlt
    have hproper := hrest.proper s hs
    simp only [decide_eq_true_eq] at hlt ⊢
    omega
  have hsplit := List.takeWhile_append_dropWhile (p := fun r : RowSpan => decide (r.left < right + 1))
    (l := spans.dropWhile fun r => decide (r.right < left))
  refine ⟨_, _, _, ?_, rfl, hsplit.symm, by rw [hsplit], by rw [hsplit], ?_, ?_, ?_⟩
  · rw [hsplit, List.takeWhile_append_dropWhile]
  · intro s hs
    simpa using List.mem_takeWhile_imp hs
  · intro s hs
    have hle := List.mem_takeWhile_imp hs
    have hmem := (List.takeWhile_sublist _).subset hs
    rw [Search.dropWhile_eq_filter hfirst, List.mem_filter] at hmem
    simp at hle hmem
    omega
  · intro s hs
    rw [Search.dropWhile_eq_filter hsecond, List.mem_filter] at hs
    have hgt := hs.2
    simp at hgt
    omega

include hlr

/-- Behind the last span. -/
theorem append_span (hback : (spans.getLast?.all fun back => decide (back.right < left)) = true) :
    SpansOk (spans ++ [⟨left, right⟩]) := by
  rw [spansOk_append]
  refine ⟨h, spansOk_singleton hlr, ?_⟩
  intro s hs t ht
  rw [List.mem_singleton] at ht
  subst ht
  have hlast := List.getLast?_eq_some_getLast (List.ne_nil_of_mem hs)
  rw [hlast] at hback
  have hlt : (spans.getLast (List.ne_nil_of_mem hs)).right < left := by simpa using hback
  have hle := h.right_le_last hlast hs
  show s.right < left
  omega

omit h hlr in
/-- The new span between those before and those behind it. -/
theorem insert_span {before overlapping fromEnd : List RowSpan} (hok : SpansOk (before ++ (overlapping ++ fromEnd)))
    (hlr : left < right) (hl : ∀ s ∈ before, s.right < left) (hr : ∀ s ∈ fromEnd, right < s.left) :
    SpansOk (before ++ ⟨left, right⟩ :: fromEnd) := by
  rw [spansOk_append, spansOk_append] at hok
  obtain ⟨hokBefore, ⟨-, hokEnd, -⟩, hcross⟩ := hok
  rw [spansOk_append, spansOk_cons]
  refine ⟨hokBefore, ⟨hlr, hokEnd, hr⟩, ?_⟩
  intro s hs t ht
  rcases List.mem_cons.1 ht with rfl | ht
  · exact hl s hs
  · exact hcross s hs t (List.mem_append_right _ ht)

omit h hlr in
/-- The new span and all that it touches are one span. -/
theorem merged_span {start last : RowSpan} {more : List RowSpan} (hok : SpansOk (start :: more))
    (hlast : (start :: more).getLast? = some last) (hover : ∀ s ∈ start :: more, left ≤ s.right ∧ s.left ≤ right)
    (x : Int) :
    (min left start.left ≤ x ∧ x < max right last.right) ↔ InSpans (start :: more) x ∨ left ≤ x ∧ x < right := by
  have hstart := hover start List.mem_cons_self
  have hend := hover last (List.mem_of_getLast? hlast)
  rw [inSpans_iff]
  constructor
  · rintro ⟨hlo, hhi⟩
    by_cases hxl : x < left
    · exact Or.inl ⟨start, List.mem_cons_self, by omega, by omega⟩
    · by_cases hxr : x < right
      · exact Or.inr ⟨by omega, hxr⟩
      · exact Or.inl ⟨last, List.mem_of_getLast? hlast, by omega, by omega⟩
  · rintro (⟨s, hs, hlo, hhi⟩ | ⟨hlo, hhi⟩)
    · have hleft := hok.first_le_left hs
      have hright := hok.right_le_last hlast hs
      omega
    · omega

/-- **A span is added.** -/
theorem addSpanToRow_spec : ∃ spans', addSpanToRow spans left right = some spans' ∧ SpansOk spans' ∧ spans' ≠ [] ∧
    ∀ x, InSpans spans' x ↔ InSpans spans x ∨ left ≤ x ∧ x < right := by
  unfold addSpanToRow
  by_cases hback : (spans.getLast?.all fun back => decide (back.right < left)) = true
  · rw [if_pos hback]
    refine ⟨_, rfl, append_span h hlr hback, by simp, ?_⟩
    intro x
    simp [inSpans_append, inSpans_cons]
  · rw [if_neg hback]
    obtain ⟨before, overlapping, fromEnd, hspans, htake, hdrop, htake', hdrop', hbefore, hover, hend⟩ :=
      split_spans h left right
    dsimp only
    rw [htake, hdrop, htake', hdrop']
    have hok := h
    rw [hspans] at hok
    cases hcase : overlapping with
    | nil =>
      rw [hcase] at hspans
      cases hend' : fromEnd with
      | nil =>
        -- All spans are before the new one.
        exfalso
        apply hback
        rw [hend', List.append_nil, List.append_nil] at hspans
        rw [hspans]
        cases hlast : before.getLast? with
        | none => rfl
        | some s => simpa using hbefore s (List.mem_of_getLast? hlast)
      | cons f rest =>
        refine ⟨_, rfl, ?_, by simp, ?_⟩
        · rw [← hend']
          exact insert_span hok hlr hbefore hend
        · intro x
          rw [hspans, hend']
          simp only [List.nil_append, inSpans_append, inSpans_cons]
          exact (or_congr_right or_comm).trans or_assoc.symm
    | cons start more =>
      rw [hcase] at hspans hover
      have hparts := hok
      rw [hcase, spansOk_append, spansOk_append] at hparts
      obtain ⟨-, ⟨hokOver, -, hoverEnd⟩, hcross⟩ := hparts
      obtain ⟨last, hlast⟩ : ∃ last, (start :: more).getLast? = some last :=
        ⟨_, List.getLast?_eq_some_getLast (by simp)⟩
      have hlastMem := List.mem_of_getLast? hlast
      have hstart := (hover start List.mem_cons_self).2
      have hlastOver := (hover last hlastMem).1
      simp only [List.cons_append]
      rw [hlast]
      refine ⟨_, rfl, ?_, by simp, ?_⟩
      · refine insert_span hok (by omega) ?_ ?_
        · intro s hs
          have hlt := hbefore s hs
          have hlt' := hcross s hs start (List.mem_append_left _ List.mem_cons_self)
          omega
        · intro s hs
          have hlt := hend s hs
          have hlt' := hoverEnd last hlastMem s hs
          omega
      · intro x
        rw [hspans, inSpans_append, inSpans_append, inSpans_append, inSpans_cons,
          merged_span hokOver hlast hover]
        exact (or_congr_right or_right_comm).trans or_assoc.symm

end Add

/-! ## Spans are intersected -/

section Intersect

/-- What a sweep over two lists of spans puts out. -/
def IntersectsTo (set1 set2 : List RowSpan) (result : Option (List RowSpan)) : Prop :=
  ∃ output, result = some output ∧ SpansOk output ∧ (∀ x, InSpans output x ↔ InSpans set1 x ∧ InSpans set2 x) ∧
    ∀ o ∈ output, ∃ s ∈ set1, ∃ t ∈ set2, s.left ≤ o.left ∧ t.left ≤ o.left

theorem IntersectsTo.symm {set1 set2 : List RowSpan} {result : Option (List RowSpan)}
    (h : IntersectsTo set1 set2 result) :
    IntersectsTo set2 set1 result := by
  obtain ⟨output, hresult, hok, hmem, hleft⟩ := h
  refine ⟨output, hresult, hok, ?_, ?_⟩
  · intro x
    rw [hmem, and_comm]
  · intro o ho
    obtain ⟨s, hs, t, ht, hso, hto⟩ := hleft o ho
    exact ⟨t, ht, s, hs, hto, hso⟩

section Round
variable {fuel : Nat} (ih : ∀ l m, SpansOk l → SpansOk m → l.length + m.length ≤ fuel →
    IntersectsTo l m (intersectRowsLoop fuel l m))
  {it1 it2 : RowSpan} {rest1 rest2 : List RowSpan} (h1 : SpansOk (it1 :: rest1)) (h2 : SpansOk (it2 :: rest2))
  (hle : it1.left ≤ it2.left) (hfuel : (it1 :: rest1).length + (it2 :: rest2).length ≤ fuel + 1)
include ih h1 h2 hfuel

theorem intersectRows_skip (hskip : it1.right ≤ it2.left) :
    IntersectsTo (it1 :: rest1) (it2 :: rest2) (intersectRowsLoop fuel rest1 (it2 :: rest2)) := by
  simp only [List.length_cons] at hfuel
  obtain ⟨output, hresult, hok, hmem, hleft⟩ :=
    ih rest1 (it2 :: rest2) h1.tail h2 (by simp only [List.length_cons]; omega)
  refine ⟨output, hresult, hok, ?_, ?_⟩
  · intro x
    rw [hmem]
    exact (on_inter_skip h2.ordered hskip).symm
  · intro o ho
    obtain ⟨s, hs, t, ht, hst⟩ := hleft o ho
    exact ⟨s, List.mem_cons_of_mem it1 hs, t, ht, hst⟩

include hle

theorem intersectRows_overlap (hover : it2.left < it1.right) : IntersectsTo (it1 :: rest1) (it2 :: rest2)
    (if it2.left < min it1.right it2.right then
      (intersectRowsLoop fuel (if it1.right = min it1.right it2.right then rest1 else it1 :: rest1)
        (if it2.right = min it1.right it2.right then rest2 else it2 :: rest2)).map
          fun output => ⟨it2.left, min it1.right it2.right⟩ :: output
    else none) := by
  have hproper := h2.proper it2 List.mem_cons_self
  rw [if_pos (show it2.left < min it1.right it2.right by omega)]
  have hinter := fun x => on_inter_step (Q := fun _ => True) (R := fun _ => True) (y := x) h1.ordered h2.ordered hle rfl
  simp only [hi_span, lo_span] at hinter
  generalize hright : min it1.right it2.right = right at hinter
  have hok1 : SpansOk (if it1.right = right then rest1 else it1 :: rest1) := by
    split
    · exact h1.tail
    · exact h1
  have hok2 : SpansOk (if it2.right = right then rest2 else it2 :: rest2) := by
    split
    · exact h2.tail
    · exact h2
  have hlen : (if it1.right = right then rest1 else it1 :: rest1).length +
      (if it2.right = right then rest2 else it2 :: rest2).length ≤ fuel := by
    simp only [List.length_cons] at hfuel
    have hlen1 : (if it1.right = right then rest1 else it1 :: rest1).length ≤ rest1.length + 1 := by split <;> simp
    have hlen2 : (if it2.right = right then rest2 else it2 :: rest2).length ≤ rest2.length + 1 := by split <;> simp
    by_cases hend : it1.right = right
    · rw [if_pos hend]
      omega
    · rw [if_pos (show it2.right = right by omega)]
      omega
  obtain ⟨output, hresult, hok, hmem, hleft⟩ := ih _ _ hok1 hok2 hlen
  rw [hresult]
  refine ⟨⟨it2.left, right⟩ :: output, rfl, ?_, ?_, ?_⟩
  · rw [spansOk_cons]
    refine ⟨by show it2.left < right; omega, hok, ?_⟩
    intro o ho
    obtain ⟨s, hs, t, ht, hso, hto⟩ := hleft o ho
    show right < o.left
    by_cases hend : it1.right = right
    · rw [if_pos hend] at hs
      have hlt := (spansOk_cons.1 h1).2.2 s hs
      omega
    · have hend2 : it2.right = right := by omega
      rw [if_pos hend2] at ht
      have hlt := (spansOk_cons.1 h2).2.2 t ht
      omega
  · intro x
    rw [inSpans_cons, hmem]
    unfold InSpans
    rw [hinter]
    simp
  · intro o ho
    rcases List.mem_cons.1 ho with rfl | ho
    · exact ⟨it1, List.mem_cons_self, it2, List.mem_cons_self, hle, Int.le_refl _⟩
    · obtain ⟨s, hs, t, ht, hst⟩ := hleft o ho
      refine ⟨s, ?_, t, ?_, hst⟩
      · split at hs
        · exact List.mem_cons_of_mem it1 hs
        · exact hs
      · split at ht
        · exact List.mem_cons_of_mem it2 ht
        · exact ht

end Round

theorem intersectRowsLoop_spec (fuel : Nat) (set1 set2 : List RowSpan) (h1 : SpansOk set1) (h2 : SpansOk set2)
    (hfuel : set1.length + set2.length ≤ fuel) : IntersectsTo set1 set2 (intersectRowsLoop fuel set1 set2) := by
  induction fuel generalizing set1 set2 with
  | zero =>
    have hnil : set1 = [] := List.length_eq_zero_iff.1 (by omega)
    subst hnil
    exact ⟨[], by unfold intersectRowsLoop; rfl, spansOk_nil, by simp, by simp⟩
  | succ fuel ih =>
    cases set1 with
    | nil => exact ⟨[], by unfold intersectRowsLoop; rfl, spansOk_nil, by simp, by simp⟩
    | cons r1 t1 =>
      cases set2 with
      | nil => exact ⟨[], by unfold intersectRowsLoop; rfl, spansOk_nil, by simp, by simp⟩
      | cons r2 t2 =>
        unfold intersectRowsLoop
        by_cases hswap : r2.left < r1.left
        · simp only [if_pos hswap]
          apply IntersectsTo.symm
          have hfuel' : (r2 :: t2).length + (r1 :: t1).length ≤ fuel + 1 := by omega
          by_cases hskip : r2.right ≤ r1.left
          · rw [if_pos hskip]
            exact intersectRows_skip ih h2 h1 hfuel' hskip
          · rw [if_neg hskip]
            exact intersectRows_overlap ih h2 h1 (Int.le_of_lt hswap) hfuel' (Int.lt_of_not_ge hskip)
        · simp only [if_neg hswap]
          by_cases hskip : r1.right ≤ r2.left
          · rw [if_pos hskip]
            exact intersectRows_skip ih h1 h2 hfuel hskip
          · rw [if_neg hskip]
            exact intersectRows_overlap ih h1 h2 (Int.not_lt.1 hswap) hfuel (Int.lt_of_not_ge hskip)

/-- **Spans are intersected.** -/
theorem intersectRows_spec {set1 set2 : List RowSpan} (h1 : SpansOk set1) (h2 : SpansOk set2)
    (hne1 : set1 ≠ []) (hne2 : set2 ≠ []) :
    ∃ output, intersectRows set1 set2 = some output ∧ SpansOk output ∧
      ∀ x, InSpans output x ↔ InSpans set1 x ∧ InSpans set2 x := by
  unfold intersectRows
  rw [if_neg (by simp [hne1, hne2])]
  obtain ⟨output, hresult, hok, hmem, -⟩ := intersectRowsLoop_spec _ set1 set2 h1 h2 (Nat.le_refl _)
  exact ⟨output, hresult, hok, hmem⟩

end Intersect

/-! ## Spans are subtracted -/

section Subtract

/-- What is left of the span from `pos` to `right`, and of the set that is taken from it: behind the end of
the span the set is what it was. -/
structure SpanSubtracted (pos right : Int) (setB : List RowSpan) (r : List RowSpan × List RowSpan) : Prop where
  ok : SpansOk r.1
  inside : ∀ s ∈ r.1, pos ≤ s.left ∧ s.right ≤ right
  mem : ∀ x, InSpans r.1 x ↔ (pos ≤ x ∧ x < right) ∧ ¬ InSpans setB x
  restOk : SpansOk r.2
  rest : ∀ x, right ≤ x → (InSpans r.2 x ↔ InSpans setB x)

/-- The part before the span that is subtracted. -/
theorem part_spec (pos left : Int) :
    SpansOk (if pos < left then [⟨pos, left⟩] else []) ∧
      (∀ s ∈ (if pos < left then [⟨pos, left⟩] else [] : List RowSpan), pos ≤ s.left ∧ s.right ≤ left) ∧
      ∀ x, InSpans (if pos < left then [⟨pos, left⟩] else []) x ↔ pos ≤ x ∧ x < left := by
  split
  · rename_i hlt
    exact ⟨spansOk_singleton hlt, by simp, by simp [inSpans_cons]⟩
  · refine ⟨spansOk_nil, by simp, ?_⟩
    intro x
    simp only [inSpans_nil, false_iff]
    omega

section Cases
variable {pos right : Int} {b : RowSpan} {setB : List RowSpan} (hB : SpansOk (b :: setB))
include hB

theorem SpansOk.behind {x : Int} (hx : InSpans setB x) : b.right < x := by
  obtain ⟨t, ht, hlo, -⟩ := inSpans_iff.1 hx
  have hlt := (spansOk_cons.1 hB).2.2 t ht
  omega

/-- The span of the set is behind all. -/
theorem SpanSubtracted.before (hpos : pos < right) (hleft : right ≤ b.left) :
    SpanSubtracted pos right (b :: setB) ([⟨pos, right⟩], b :: setB) := by
  refine ⟨spansOk_singleton hpos, by simp, ?_, hB, fun x _ => Iff.rfl⟩
  intro x
  have hproper := hB.proper b List.mem_cons_self
  rw [inSpans_cons, inSpans_cons]
  simp only [inSpans_nil, or_false]
  constructor
  · intro hx
    refine ⟨hx, ?_⟩
    rintro (hx' | hx')
    · omega
    · have hlt := hB.behind hx'
      omega
  · exact fun hx => hx.1

omit hB in
/-- The span of the set is over before `pos`. -/
theorem SpanSubtracted.skip {r : List RowSpan × List RowSpan} (hr : SpanSubtracted pos right setB r)
    (hright : b.right ≤ pos)
    (hpos : pos < right) : SpanSubtracted pos right (b :: setB) r := by
  refine ⟨hr.ok, hr.inside, ?_, hr.restOk, ?_⟩
  · intro x
    rw [hr.mem, inSpans_cons]
    constructor
    · rintro ⟨hx, hno⟩
      refine ⟨hx, ?_⟩
      rintro (hx' | hx')
      · omega
      · exact hno hx'
    · rintro ⟨hx, hno⟩
      exact ⟨hx, fun hx' => hno (Or.inr hx')⟩
  · intro x hx
    rw [hr.rest x hx, inSpans_cons]
    constructor
    · exact Or.inr
    · rintro (hx' | hx')
      · omega
      · exact hx'

/-- The span of the set reaches to the end. -/
theorem SpanSubtracted.last (hleft : b.left < right) (hend : right ≤ b.right) :
    SpanSubtracted pos right (b :: setB) (if pos < b.left then [⟨pos, b.left⟩] else [], b :: setB) := by
  obtain ⟨hpartOk, hpartIn, hpartMem⟩ := part_spec pos b.left
  refine ⟨hpartOk, ?_, ?_, hB, fun x _ => Iff.rfl⟩
  · intro s hs
    have hin := hpartIn s hs
    omega
  · intro x
    rw [hpartMem, inSpans_cons]
    constructor
    · rintro ⟨hlo, hhi⟩
      refine ⟨⟨hlo, by omega⟩, ?_⟩
      rintro (hx | hx)
      · omega
      · have hlt := hB.behind hx
        omega
    · rintro ⟨⟨hlo, hhi⟩, hno⟩
      refine ⟨hlo, ?_⟩
      by_contra hge
      exact hno (Or.inl ⟨by omega, by omega⟩)

/-- The span of the set ends inside, and the loop goes on from there. -/
theorem SpanSubtracted.next {r : List RowSpan × List RowSpan} (hr : SpanSubtracted b.right right setB r)
    (hright : pos < b.right) (hend : b.right < right) :
    SpanSubtracted pos right (b :: setB) ((if pos < b.left then [⟨pos, b.left⟩] else []) ++ r.1, r.2) := by
  obtain ⟨hpartOk, hpartIn, hpartMem⟩ := part_spec pos b.left
  have hproper := hB.proper b List.mem_cons_self
  refine ⟨?_, ?_, ?_, hr.restOk, ?_⟩
  · rw [spansOk_append]
    refine ⟨hpartOk, hr.ok, ?_⟩
    intro s hs t ht
    have hs' := hpartIn s hs
    have ht' := hr.inside t ht
    omega
  · intro s hs
    rcases List.mem_append.1 hs with hs | hs
    · have hs' := hpartIn s hs
      omega
    · have hs' := hr.inside s hs
      omega
  · intro x
    rw [inSpans_append, hpartMem, hr.mem, inSpans_cons]
    constructor
    · rintro (⟨hlo, hhi⟩ | ⟨⟨hlo, hhi⟩, hno⟩)
      · refine ⟨⟨hlo, by omega⟩, ?_⟩
        rintro (hx | hx)
        · omega
        · have hlt := hB.behind hx
          omega
      · refine ⟨⟨by omega, hhi⟩, ?_⟩
        rintro (hx | hx)
        · omega
        · exact hno hx
    · rintro ⟨⟨hlo, hhi⟩, hno⟩
      rw [not_or] at hno
      by_cases hx : x < b.left
      · exact Or.inl ⟨hlo, hx⟩
      · have hge : b.right ≤ x := by
          by_contra hlt
          exact hno.1 ⟨by omega, by omega⟩
        exact Or.inr ⟨⟨hge, hhi⟩, hno.2⟩
  · intro x hx
    rw [hr.rest x hx, inSpans_cons]
    constructor
    · exact Or.inr
    · rintro (hx' | hx')
      · omega
      · exact hx'

end Cases

theorem subtractSpan_spec {right : Int} (setB : List RowSpan) (hB : SpansOk setB) {pos : Int} (hpos : pos < right) :
    SpanSubtracted pos right setB (subtractSpan right pos setB) := by
  induction setB generalizing pos with
  | nil =>
    unfold subtractSpan
    rw [if_pos hpos]
    exact ⟨spansOk_singleton hpos, by simp, by simp [inSpans_cons], spansOk_nil, by simp⟩
  | cons b rest ih =>
    have hproper := hB.proper b List.mem_cons_self
    unfold subtractSpan
    by_cases hleft : b.left < right
    · rw [if_pos hleft]
      dsimp only
      by_cases hright : pos < b.right
      · rw [if_pos hright]
        by_cases hend : right ≤ b.right
        · rw [if_pos hend]
          exact SpanSubtracted.last hB hleft hend
        · rw [if_neg hend]
          have hlt := Int.lt_of_not_ge hend
          exact (ih hB.tail hlt).next hB hright hlt
      · rw [if_neg hright, if_neg (show ¬ pos < b.left by omega), List.nil_append]
        exact (ih hB.tail hpos).skip (Int.not_lt.1 hright) hpos
    · rw [if_neg hleft, if_pos hpos]
      exact SpanSubtracted.before hB hpos (Int.not_lt.1 hleft)

theorem subtractRowsLoop_spec (setA setB : List RowSpan) (hA : SpansOk setA) (hB : SpansOk setB) :
    SpansOk (subtractRowsLoop setA setB) ∧
      (∀ s ∈ subtractRowsLoop setA setB, ∃ a ∈ setA, a.left ≤ s.left ∧ s.right ≤ a.right) ∧
      ∀ x, InSpans (subtractRowsLoop setA setB) x ↔ InSpans setA x ∧ ¬ InSpans setB x := by
  induction setA generalizing setB with
  | nil => exact ⟨spansOk_nil, by simp [subtractRowsLoop], by simp [subtractRowsLoop]⟩
  | cons a rest ih =>
    obtain ⟨ha, hArest, hbehind⟩ := spansOk_cons.1 hA
    have hfar : ∀ x, InSpans rest x → a.right < x := by
      intro x hx
      obtain ⟨t, ht, hlo, -⟩ := inSpans_iff.1 hx
      have hlt := hbehind t ht
      omega
    unfold subtractRowsLoop
    by_cases hnone : (setB.head?.all fun b => decide (a.right < b.left)) = true
    · rw [if_pos hnone]
      obtain ⟨hok, hin, hmem⟩ := ih setB hArest hB
      have hapart : ∀ x, InSpans setB x → a.right < x := by
        intro x hx
        cases setB with
        | nil => exact absurd hx inSpans_nil
        | cons b restB =>
          have hlt : a.right < b.left := by simpa using hnone
          have hge := hx.from_head hB.ordered
          exact Int.lt_of_lt_of_le hlt hge
      refine ⟨?_, ?_, ?_⟩
      · rw [spansOk_cons]
        refine ⟨ha, hok, ?_⟩
        intro s hs
        obtain ⟨a', ha', hlo, -⟩ := hin s hs
        have hlt := hbehind a' ha'
        omega
      · intro s hs
        rcases List.mem_cons.1 hs with rfl | hs
        · exact ⟨s, List.mem_cons_self, Int.le_refl _, Int.le_refl _⟩
        · obtain ⟨a', ha', hs'⟩ := hin s hs
          exact ⟨a', List.mem_cons_of_mem a ha', hs'⟩
      · intro x
        have hapartx := hapart x
        rw [inSpans_cons, inSpans_cons, hmem]
        constructor
        · rintro (hx | ⟨hx, hno⟩)
          · refine ⟨Or.inl hx, ?_⟩
            intro hxB
            have hlt := hapartx hxB
            omega
          · exact ⟨Or.inr hx, hno⟩
        · rintro ⟨hx | hx, hno⟩
          · exact Or.inl hx
          · exact Or.inr ⟨hx, hno⟩
    · rw [if_neg hnone]
      obtain ⟨hokA, hinA, hmemA, hokB, hmemB⟩ := subtractSpan_spec setB hB ha
      obtain ⟨hok, hin, hmem⟩ := ih _ hArest hokB
      refine ⟨?_, ?_, ?_⟩
      · rw [spansOk_append]
        refine ⟨hokA, hok, ?_⟩
        intro s hs t ht
        have hs' := hinA s hs
        obtain ⟨a', ha', hlo, -⟩ := hin t ht
        have hlt := hbehind a' ha'
        omega
      · intro s hs
        rcases List.mem_append.1 hs with hs | hs
        · exact ⟨a, List.mem_cons_self, hinA s hs⟩
        · obtain ⟨a', ha', hs'⟩ := hin s hs
          exact ⟨a', List.mem_cons_of_mem a ha', hs'⟩
      · intro x
        have hfarx := hfar x
        rw [inSpans_append, hmemA, hmem, inSpans_cons]
        constructor
        · rintro (⟨hx, hno⟩ | ⟨hx, hno⟩)
          · exact ⟨Or.inl hx, hno⟩
          · have hlt := hfarx hx
            rw [hmemB x (Int.le_of_lt hlt)] at hno
            exact ⟨Or.inr hx, hno⟩
        · rintro ⟨hx | hx, hno⟩
          · exact Or.inl ⟨hx, hno⟩
          · have hlt := hfarx hx
            rw [← hmemB x (Int.le_of_lt hlt)] at hno
            exact Or.inr ⟨hx, hno⟩

/-- **Spans are subtracted.** -/
theorem subtractRows_spec {setA setB : List RowSpan} (hA : SpansOk setA) (hB : SpansOk setB)
    (hneA : setA ≠ []) (hneB : setB ≠ []) :
    ∃ output, subtractRows setA setB = some output ∧ SpansOk output ∧
      ∀ x, InSpans output x ↔ InSpans setA x ∧ ¬ InSpans setB x := by
  unfold subtractRows
  rw [if_neg (by simp [hneA, hneB])]
  obtain ⟨hok, -, hmem⟩ := subtractRowsLoop_spec setA setB hA hB
  exact ⟨_, rfl, hok, hmem⟩

end Subtract

end WebRtc.Desktop
