import WebRtc.Desktop.Intersect

/-!
# A region is subtracted

Down to the current top the rows of the argument have been subtracted. Its rows that are behind end
above all that is to come. A row that is still to come is a row of the region, or the lower part of one
that a row of the argument ends in.
-/

namespace WebRtc.Desktop

open HalfOpen

/-- A row of the region, or what is left of it below the end of a row of the argument. -/
def CutFrom (rowsA rowsB : List Row) (r : Row) : Prop :=
  ∃ a ∈ rowsA, a.top ≤ r.top ∧ a.bottom = r.bottom ∧ a.spans = r.spans ∧ (r.top = a.top ∨ ∃ b ∈ rowsB, b.bottom = r.top)

/--
A row of the argument begins inside of a row of the region. Above it, from `y` on, there is a part of
the row that nothing is subtracted from, and what is left just above that part has the spans of the row:
the two are not merged.
-/
def Misses (rowsA rowsB : List Row) : Prop :=
  ∃ a ∈ rowsA, ∃ b ∈ rowsB, ∃ y, a.top ≤ y ∧ y < b.top ∧ b.top < a.bottom ∧ (y = a.top ∨ ∃ b' ∈ rowsB, b'.bottom = y) ∧
    (∀ b' ∈ rowsB, ¬ (y < b'.bottom ∧ b'.top < b.top)) ∧
    ∀ x, Points rowsA x (y - 1) ∧ ¬ Points rowsB x (y - 1) ↔ Points rowsA x y

/-- What has been done when the loop has come down to `top`, with the rows of the argument that are behind. -/
structure Subtracting (rowsA rowsB done todo passed bs : List Row) (top : Int) : Prop where
  before : Before done
  after : WellFormed todo
  cross : ∀ r ∈ done, ∀ q ∈ todo, r.bottom ≤ q.top
  below : ∀ r ∈ done, r.bottom ≤ top
  parts : rowsB = passed ++ bs
  passed : ∀ b ∈ passed, b.bottom ≤ top ∧ ∀ q ∈ todo, b.bottom ≤ q.top
  points : ∀ x y, Points done x y ∨ Points todo x y ↔ Points rowsA x y ∧ ¬ (y < top ∧ Points rowsB x y)
  origin : ∀ q ∈ todo, CutFrom rowsA rowsB q
  settled : Unmerged rowsA → ¬ Misses rowsA rowsB → Settled done ∧ Unmerged todo

/-- The top is in the row to subtract, and where that row begins unless all that is to come is below. -/
structure Sweeping (rowsA rowsB done todo bs : List Row) (top : Int) : Prop where
  swept : ∃ passed, Subtracting rowsA rowsB done todo passed bs top
  inside : ∀ b ∈ bs.head?, b.top ≤ top ∧ top < b.bottom
  fresh : ∀ b ∈ bs.head?, top = b.top ∨ ∀ q ∈ todo, top ≤ q.top

section Moves
variable {rowsA rowsB done todo passed bs : List Row} {b : Row} {top : Int}

/-- Nothing is subtracted where there is nothing. -/
theorem Subtracting.down (h : Subtracting rowsA rowsB done todo passed bs top) {top' : Int} (hle : top ≤ top')
    (htodo : ∀ q ∈ todo, top' ≤ q.top) : Subtracting rowsA rowsB done todo passed bs top' := by
  refine { h with below := ?_, passed := ?_, points := ?_ }
  · intro r hr
    have hrow := h.below r hr
    omega
  · intro b hb
    have hpass := h.passed b hb
    exact ⟨by omega, hpass.2⟩
  · intro x y
    rw [h.points]
    refine and_congr_right ?_
    intro hA
    by_cases hy : top ≤ y ∧ y < top'
    · -- A point between the two tops would be in a row.
      have hrow : Points done x y ∨ Points todo x y := (h.points x y).2 ⟨hA, fun hno => by omega⟩
      rcases hrow with ⟨r, hr, -, hhi, -⟩ | ⟨q, hq, hlo, -, -⟩
      · have hbelow := h.below r hr
        rw [hi_row] at hhi
        omega
      · have habove := htodo q hq
        rw [lo_row] at hlo
        omega
    · have hiff : y < top ↔ y < top' := by omega
      rw [hiff]

/-- **The next row to subtract**, when the one before it is behind. -/
theorem Subtracting.next (h : Subtracting rowsA rowsB done todo passed (b :: bs) b.bottom) (hB : WellFormed rowsB)
    (hle : b.bottom ≤ top) (htodo : ∀ q ∈ todo, top ≤ q.top) :
    Sweeping rowsA rowsB done todo (DesktopRegion.nextRow (b :: bs) top).1 (DesktopRegion.nextRow (b :: bs) top).2 := by
  have hpass : Subtracting rowsA rowsB done todo (passed ++ [b]) bs b.bottom := by
    refine { h with parts := ?_, passed := ?_ }
    · rw [h.parts, List.append_assoc, List.singleton_append]
    · intro b' hb'
      rcases List.mem_append.1 hb' with hb' | hb'
      · exact h.passed b' hb'
      · rw [List.mem_singleton.1 hb']
        refine ⟨Int.le_refl _, fun q hq => ?_⟩
        have habove := htodo q hq
        omega
  unfold DesktopRegion.nextRow
  cases bs with
  | nil => exact ⟨⟨_, hpass.down hle htodo⟩, by simp, by simp⟩
  | cons next rest =>
    dsimp only [List.tail_cons]
    have hB' := hB
    rw [h.parts] at hB'
    have hnexts := (List.pairwise_append.1 hB'.apart).2.1
    have hafter : b.bottom ≤ next.top := List.rel_of_pairwise_cons hnexts List.mem_cons_self
    have hnext : next.top < next.bottom := (hB.ok next (by rw [h.parts]; simp)).tall
    refine ⟨⟨passed ++ [b], ?_⟩, ?_, ?_⟩
    · refine { hpass with below := ?_, passed := ?_, points := ?_ }
      · intro r hr
        have hrow := h.below r hr
        omega
      · intro b' hb'
        have hb'' := hpass.passed b' hb'
        exact ⟨by omega, hb''.2⟩
      · intro x y
        rw [h.points]
        refine and_congr_right fun _ => not_congr ?_
        -- The argument has no points between its two rows.
        constructor
        · exact fun hy => ⟨by omega, hy.2⟩
        · rintro ⟨hy, hyB⟩
          refine ⟨?_, hyB⟩
          rw [hpass.parts, points_append, points_cons] at hyB
          rcases hyB with ⟨b', hb', -, hhi, -⟩ | ⟨hlo, -, -⟩ | hon
          · have hb'' := (hpass.passed b' hb').1
            rw [hi_row] at hhi
            omega
          · omega
          · have hfar := On.behind ⟨fun c hc =>
              (hB'.ok c (List.mem_append_right _ (List.mem_cons_of_mem b hc))).tall, hnexts.of_cons⟩ hon
            rw [hi_row] at hfar
            omega
    · rintro b' ⟨⟩
      exact ⟨Int.le_refl _, hnext⟩
    · rintro b' ⟨⟩
      exact Or.inl rfl

/-- A row that ends above the top is left behind. -/
theorem Subtracting.skip {rowA : Row} {rest : List Row} (h : Subtracting rowsA rowsB done (rowA :: rest) passed bs top)
    (hle : rowA.bottom ≤ top) : ∃ done' row', mergeWithPrecedingRow done rowA = (done', row') ∧
      Subtracting rowsA rowsB (row' :: done') rest passed bs top := by
  obtain ⟨hrow, hrest, hbehind⟩ := wellFormed_cons.1 h.after
  obtain ⟨done', row', hmerge, hbefore, hbottom, -, hpoints, hsettled⟩ :=
    mergeWithPrecedingRow_spec h.before (fun r hr => h.cross r hr rowA List.mem_cons_self) hrow
  have hends : ∀ r ∈ row' :: done', r.bottom ≤ rowA.bottom := by
    rw [← hbottom]
    exact hbefore.ends
  refine ⟨done', row', hmerge, hbefore, hrest, ?_, ?_, h.parts, ?_, ?_, fun q hq =>
    h.origin q (List.mem_cons_of_mem rowA hq), ?_⟩
  · intro r hr q hq
    exact Int.le_trans (hends r hr) (hbehind q hq)
  · intro r hr
    exact Int.le_trans (hends r hr) hle
  · intro b hb
    obtain ⟨htop, habove⟩ := h.passed b hb
    exact ⟨htop, fun q hq => habove q (List.mem_cons_of_mem rowA hq)⟩
  · intro x y
    rw [← h.points, hpoints, points_cons, points_cons, or_assoc]
    exact or_left_comm
  · intro hun hmiss
    obtain ⟨hset, hunTodo⟩ := h.settled hun hmiss
    exact ⟨hsettled hset, hunTodo.of_cons⟩

end Moves

/-! ## The part of a row that a row of the argument covers -/

section Cut
variable {rowsA rowsB done rest passed bs : List Row} {rowA b : Row} {top : Int}

/-- The part of the row above the top is not merged, and need not be. -/
theorem Subtracting.settled_above (h : Subtracting rowsA rowsB done (rowA :: rest) passed
    (b :: bs) b.top) (hA : WellFormed rowsA)
    (hB : WellFormed rowsB) (hbottom : b.top < rowA.bottom) (hun : Unmerged rowsA) (hmiss : ¬ Misses rowsA rowsB)
    (hlt : rowA.top < b.top) : Settled (rowA :: done) := by
  obtain ⟨hset, -⟩ := h.settled hun hmiss
  cases done with
  | nil => exact List.isChain_singleton _
  | cons d done =>
    refine List.isChain_cons_cons.2 ⟨?_, hset⟩
    rintro ⟨hends, hsame⟩
    apply hmiss
    obtain ⟨a, ha, htop, hbot, hspans, hcut⟩ := h.origin rowA List.mem_cons_self
    obtain ⟨hd, hdone, hapart⟩ := before_cons.1 h.before
    have hdtall := hd.tall
    have hbmem : b ∈ rowsB := by
      rw [h.parts]
      simp
    refine ⟨a, ha, b, hbmem, rowA.top, htop, hlt, by omega, hcut, ?_, ?_⟩
    · rintro b' hb' ⟨h1, h2⟩
      have hsorted := hB.apart
      rw [h.parts] at hb' hsorted
      rcases List.mem_append.1 hb' with hb' | hb'
      · have habove := (h.passed b' hb').2 rowA List.mem_cons_self
        omega
      · rcases List.mem_cons.1 hb' with rfl | hb'
        · omega
        · have hlater := List.rel_of_pairwise_cons (List.pairwise_append.1 hsorted).2.1 hb'
          have htall := (hB.ok b hbmem).tall
          omega
    · intro x
      have hatop : Points rowsA x rowA.top ↔ InSpans a.spans x :=
        hA.points_iff ha htop (by omega)
      have habove : Points (d :: done) x (rowA.top - 1) ↔ InSpans d.spans x := by
        rw [← points_reverse]
        exact h.before.reverse.points_iff (by simp) (by omega) (by omega)
      have hleft := h.points x (rowA.top - 1)
      have hnone : ¬ Points (rowA :: rest) x (rowA.top - 1) := by
        intro hon
        have hfar := On.from_head h.after.ordered hon
        rw [lo_row] at hfar
        omega
      rw [hatop, hspans, ← hsame, ← habove]
      constructor
      · rintro ⟨hpA, hpB⟩
        rcases hleft.2 ⟨hpA, fun hy => hpB hy.2⟩ with hon | hon
        · exact hon
        · exact absurd hon hnone
      · intro hon
        obtain ⟨hpA, hpB⟩ := hleft.1 (Or.inl hon)
        exact ⟨hpA, fun hy => hpB ⟨by omega, hy⟩⟩

/-- On the lines from the top to `e` the row of the argument is subtracted, and on the others nothing
changes. -/
theorem cut_points {done rest inA inB spansA spansB newSpans : Prop} {e y : Int} (hlt : top < e)
    (hpoints : done ∨ (top ≤ y ∧ y < e ∧ spansA) ∨ rest ↔ inA ∧ ¬ (y < top ∧ inB))
    (hdone : done → y < top) (hrest : rest → e ≤ y) (hB : top ≤ y → y < e → (inB ↔ spansB))
    (hnew : newSpans ↔ spansA ∧ ¬ spansB) :
    done ∨ (top ≤ y ∧ y < e ∧ newSpans) ∨ rest ↔ inA ∧ ¬ (y < e ∧ inB) := by
  by_cases hy : top ≤ y ∧ y < e
  · obtain ⟨hlo, hhi⟩ := hy
    have hnotDone : ¬ done := fun hd => by have hd' := hdone hd; omega
    have hnotRest : ¬ rest := fun hr => by have hr' := hrest hr; omega
    have hnotAbove : ¬ y < top := by omega
    simp only [hnotDone, hnotRest, hnotAbove, hlo, hhi, true_and, false_and, false_or, or_false,
      not_false_eq_true, and_true] at hpoints ⊢
    rw [hnew, hpoints, hB hlo hhi]
  · have hsame : y < e → y < top := by omega
    have hno : ∀ p : Prop, ¬ (top ≤ y ∧ y < e ∧ p) := fun p hp => hy ⟨hp.1, hp.2.1⟩
    simp only [hno, false_or] at hpoints ⊢
    rw [hpoints]
    refine and_congr_right fun _ => not_congr ?_
    constructor
    · exact fun h => ⟨by omega, h.2⟩
    · exact fun h => ⟨hsame h.1, h.2⟩

/-- Where a row is split, no points are lost. -/
theorem split_points {row1 row2 : Row} {done1 rest' : List Row} {x y : Int}
    (habove : Points (row1 :: done1) x y ↔ Points (rowA :: done) x y)
    (hbelow : Points (row2 :: rest') x y ↔ Points (row1 :: rest) x y) :
    Points done1 x y ∨ Points (row2 :: rest') x y ↔ Points done x y ∨ Points (rowA :: rest) x y := by
  rw [hbelow, points_cons, ← or_assoc, or_comm (a := Points done1 x y), ← points_cons, habove, points_cons, points_cons,
    or_comm (b := Points done x y), or_assoc]

/-- **One round**: the row is split at both ends of what the row of the argument covers of it. -/
theorem Subtracting.cut (h : Subtracting rowsA rowsB done (rowA :: rest) passed (b :: bs) top) (hA : WellFormed rowsA)
    (hB : WellFormed rowsB) (hin : b.top ≤ top) (hlt : top < b.bottom) (htop : rowA.top ≤ top)
    (hbottom : top < rowA.bottom)
    (hfresh : rowA.top < top → top = b.top) :
    ∃ done1 row1 row2 rest' newSpans, splitAbove top done rowA = some (done1, row1) ∧
      splitBelow top b.bottom done1 row1 rest = some (row2, rest') ∧ subtractRows row2.spans b.spans = some newSpans ∧
      row2.bottom = min rowA.bottom b.bottom ∧ (∀ q ∈ rest', row2.bottom ≤ q.top) ∧
      rest'.length ≤ rest.length + (if b.bottom < rowA.bottom then 1 else 0) ∧
      ∃ done', done' = (if newSpans = [] then done1
        else (mergeWithPrecedingRow done1 { row2 with spans := newSpans }).2 ::
          (mergeWithPrecedingRow done1 { row2 with spans := newSpans }).1) ∧
        Subtracting rowsA rowsB done' rest' passed (b :: bs) row2.bottom := by
  obtain ⟨hrow, hrest, hbehind⟩ := wellFormed_cons.1 h.after
  have hbmem : b ∈ rowsB := by
    rw [h.parts]
    simp
  have hb := hB.ok b hbmem
  obtain ⟨done1, row1, hsplit, hbefore1, hrow1, hbelow1, htop1, hbottom1, hspans1, hpoints1, hsettled1⟩ :=
    splitAbove_spec h.before (fun r hr => h.cross r hr rowA List.mem_cons_self) hrow hbottom
  have htop1' : row1.top = top := by omega
  obtain ⟨row2, rest', hsplit', hshape2, hrest', habove', htop2, hbottom2, hspans2, hpoints2, hcut, huncut⟩ :=
    splitBelow_spec hbefore1 hbelow1 hrow1.toRowShape hrest (by rw [hbottom1]; exact hbehind) b.bottom (by omega)
      (fun _ => hrow1.nonempty)
  rw [htop1'] at hsplit' htop2
  rw [hspans1] at hspans2
  rw [hbottom1] at hbottom2 hcut huncut
  obtain ⟨newSpans, hsub, hnewOk, hnewMem⟩ :=
    subtractRows_spec hshape2.spans hb.spans (by rw [hspans2]; exact hrow.nonempty) hb.nonempty
  have htall := hshape2.tall
  refine ⟨done1, row1, row2, rest', newSpans, hsplit, hsplit', hsub, hbottom2, habove', ?_, ?_⟩
  · by_cases hlower : b.bottom < rowA.bottom
    · rw [hcut hlower, if_pos hlower]
      simp
    · rw [huncut hlower, if_neg hlower]
      omega
  have hbelow2 : ∀ r ∈ done1, r.bottom ≤ row2.top := by
    rw [htop2, ← htop1']
    exact hbelow1
  obtain ⟨done', hdone', hbefore', hends', hpoints', hkeep⟩ :=
    leave_spec { row2 with spans := newSpans } hbefore1 hbelow2 ⟨hshape2.keyed, htall, hnewOk⟩
  refine ⟨done', hdone', ?_⟩
  constructor
  case before => exact hbefore'
  case after => exact hrest'
  case cross => exact fun r hr q hq => Int.le_trans (hends' r hr) (habove' q hq)
  case below => exact hends'
  case parts => exact h.parts
  case passed =>
    intro b' hb'
    obtain ⟨hle, habove⟩ := h.passed b' hb'
    refine ⟨by omega, fun q hq => ?_⟩
    have hq' := habove' q hq
    omega
  case points =>
    intro x y
    have hstart := (split_points (hpoints1 x y) (hpoints2 x y)).trans (h.points x y)
    rw [points_cons, htop2, hspans2] at hstart
    rw [hpoints', points_cons, htop2, or_assoc, or_left_comm]
    have hnew : InSpans newSpans x ↔ InSpans rowA.spans x ∧ ¬ InSpans b.spans x := by rw [hnewMem, hspans2]
    refine cut_points (e := row2.bottom) (by omega) hstart ?_ ?_ ?_ hnew
    · rintro ⟨r, hr, -, hhi, -⟩
      have hle := hbelow2 r hr
      rw [hi_row] at hhi
      omega
    · rintro ⟨q, hq, hlo, -, -⟩
      exact Int.le_trans (habove' q hq) hlo
    · intro hlo hhi
      exact hB.points_iff hbmem (by omega) (by omega)
  case origin =>
    obtain ⟨a, ha, hatop, habot, haspans, -⟩ := h.origin rowA List.mem_cons_self
    intro q hq
    by_cases hlower : b.bottom < rowA.bottom
    · rw [hcut hlower] at hq
      rcases List.mem_cons.1 hq with rfl | hq
      · exact ⟨a, ha, by dsimp only; omega, by rw [habot, ← hbottom1], by rw [haspans, ← hspans1],
          Or.inr ⟨b, hbmem, rfl⟩⟩
      · exact h.origin q (List.mem_cons_of_mem rowA hq)
    · rw [huncut hlower] at hq
      exact h.origin q (List.mem_cons_of_mem rowA hq)
  case settled =>
    intro hun hmiss
    obtain ⟨hset, hunTodo⟩ := h.settled hun hmiss
    refine ⟨hkeep (hsettled1 ?_ hset), ?_⟩
    · intro hlt'
      have heq := hfresh hlt'
      subst heq
      exact h.settled_above hA hB hbottom hun hmiss hlt'
    · by_cases hlower : b.bottom < rowA.bottom
      · rw [hcut hlower]
        exact hunTodo.head_congr rfl hspans1
      · rw [huncut hlower]
        exact hunTodo.tail

end Cut

/-! ## The loop -/

/-- What the loop ends with. -/
structure Subtracted (rowsA rowsB done todo : List Row) : Prop where
  before : Before done
  after : WellFormed todo
  cross : ∀ r ∈ done, ∀ q ∈ todo, r.bottom ≤ q.top
  points : ∀ x y, Points done x y ∨ Points todo x y ↔ Points rowsA x y ∧ ¬ Points rowsB x y
  settled : Unmerged rowsA → ¬ Misses rowsA rowsB → Settled done ∧ Unmerged todo

section Loop
variable {rowsA rowsB done todo rest bs : List Row} {rowA b : Row} {top : Int}

theorem nextRow_length (rowB : List Row) (top : Int) : (DesktopRegion.nextRow rowB top).1.length = rowB.length - 1 := by
  unfold DesktopRegion.nextRow
  rw [← List.length_tail]
  cases rowB.tail <;> rfl

/-- When one of the two has come to its end, all has been subtracted. -/
theorem Sweeping.finish (h : Sweeping rowsA rowsB done todo bs top) (hend : todo = [] ∨ bs = []) :
    Subtracted rowsA rowsB done todo := by
  obtain ⟨passed, hs⟩ := h.swept
  refine ⟨hs.before, hs.after, hs.cross, ?_, hs.settled⟩
  intro x y
  rw [hs.points]
  constructor
  · rintro ⟨hA, hno⟩
    refine ⟨hA, fun hB => hno ⟨?_, hB⟩⟩
    rcases hend with rfl | rfl
    · rcases (hs.points x y).2 ⟨hA, hno⟩ with ⟨r, hr, -, hhi, -⟩ | hon
      · exact Int.lt_of_lt_of_le hhi (hs.below r hr)
      · exact absurd hon points_nil
    · rw [hs.parts, List.append_nil] at hB
      obtain ⟨b, hb, -, hhi, -⟩ := hB
      exact Int.lt_of_lt_of_le hhi (hs.passed b hb).1
  · rintro ⟨hA, hB⟩
    exact ⟨hA, fun hy => hB hy.2⟩

theorem Sweeping.skip (h : Sweeping rowsA rowsB done (rowA :: rest) bs top) (hle : rowA.bottom ≤ top) :
    ∃ done' row', mergeWithPrecedingRow done rowA = (done', row') ∧
        Sweeping rowsA rowsB (row' :: done') rest bs top := by
  obtain ⟨passed, hs⟩ := h.swept
  obtain ⟨done', row', hmerge, hs'⟩ := hs.skip hle
  refine ⟨done', row', hmerge, ⟨passed, hs'⟩, h.inside, ?_⟩
  intro b hb
  rcases h.fresh b hb with heq | hall
  · exact Or.inl heq
  · exact Or.inr fun q hq => hall q (List.mem_cons_of_mem rowA hq)

/-- All that is to come begins at the first row. -/
theorem WellFormed.from_head (h : WellFormed (rowA :: rest)) : ∀ q ∈ rowA :: rest, rowA.top ≤ q.top := by
  intro q hq
  have htall := (h.ok rowA List.mem_cons_self).tall
  rcases List.mem_cons.1 hq with rfl | hq
  · exact Int.le_refl _
  · have hle := (wellFormed_cons.1 h).2.2 q hq
    omega

theorem Sweeping.gap (h : Sweeping rowsA rowsB done (rowA :: rest) (b :: bs) top)
    (hB : WellFormed rowsB) (hle : b.bottom ≤ rowA.top) :
    Sweeping rowsA rowsB done (rowA :: rest) (DesktopRegion.nextRow (b :: bs) rowA.top).1
      (DesktopRegion.nextRow (b :: bs) rowA.top).2 := by
  obtain ⟨passed, hs⟩ := h.swept
  have hin := h.inside b rfl
  have hfrom := hs.after.from_head
  exact (hs.down (Int.le_of_lt hin.2) fun q hq => Int.le_trans hle (hfrom q hq)).next hB hle hfrom

theorem Sweeping.cut (h : Sweeping rowsA rowsB done (rowA :: rest) (b :: bs) top)
    (hA : WellFormed rowsA) (hB : WellFormed rowsB)
    (hskip : ¬ rowA.bottom ≤ top) (hgap : ¬ (top < rowA.top ∧ b.bottom ≤ rowA.top)) {top' : Int}
    (htop' : top' = if top < rowA.top then rowA.top else top) : ∃ done1 row1 row2 rest' newSpans,
      splitAbove top' done rowA = some (done1, row1) ∧ splitBelow top' b.bottom done1 row1 rest = some (row2, rest') ∧
      subtractRows row2.spans b.spans = some newSpans ∧ ∃ next : List Row × Int, next = (if b.bottom ≤ row2.bottom
        then DesktopRegion.nextRow (b :: bs) row2.bottom else (b :: bs, row2.bottom)) ∧
      rest'.length + next.1.length < (rowA :: rest).length + (b :: bs).length ∧
      ∃ done', done' = (if newSpans = [] then done1
        else (mergeWithPrecedingRow done1 { row2 with spans := newSpans }).2 ::
          (mergeWithPrecedingRow done1 { row2 with spans := newSpans }).1) ∧
              Sweeping rowsA rowsB done' rest' next.1 next.2 := by
  obtain ⟨passed, hs⟩ := h.swept
  have hin := h.inside b rfl
  have hfrom := hs.after.from_head
  have htall := (hs.after.ok rowA List.mem_cons_self).tall
  have hs' : Subtracting rowsA rowsB done (rowA :: rest) passed (b :: bs) top' := by
    by_cases hlt : top < rowA.top
    · rw [if_pos hlt] at htop'
      subst htop'
      exact hs.down (Int.le_of_lt hlt) hfrom
    · rw [if_neg hlt] at htop'
      rw [htop']
      exact hs
  have hfresh : rowA.top < top' → top' = b.top := by
    intro hlt
    have heq : top' = top := by
      rw [htop'] at hlt ⊢
      split at hlt <;> split <;> omega
    rcases h.fresh b rfl with hb | hall
    · rw [heq, hb]
    · have hle := hall rowA List.mem_cons_self
      omega
  have hbounds : b.top ≤ top' ∧ top' < b.bottom ∧ rowA.top ≤ top' ∧ top' < rowA.bottom := by
    rw [htop']
    split <;> omega
  obtain ⟨hlo, hhi, hrow, hend⟩ := hbounds
  obtain ⟨done1, row1, row2, rest', newSpans, hsplit, hsplit', hsub, hbottom, habove, hlen, done', hdone', hcut⟩ :=
    hs'.cut hA hB hlo hhi hrow hend hfresh
  by_cases hpast : b.bottom ≤ row2.bottom
  · have heq : row2.bottom = b.bottom := by omega
    refine ⟨done1, row1, row2, rest', newSpans, hsplit, hsplit', hsub, _, (if_pos hpast).symm, ?_, done', hdone', ?_⟩
    · rw [nextRow_length]
      simp only [List.length_cons]
      split at hlen <;> omega
    · rw [heq] at hcut habove ⊢
      exact hcut.next hB (Int.le_refl _) habove
  · refine ⟨done1, row1, row2, rest', newSpans, hsplit, hsplit', hsub, _, (if_neg hpast).symm, ?_,
      done', hdone', ⟨passed, hcut⟩, ?_, ?_⟩
    · rw [if_neg (by omega)] at hlen
      simp only [List.length_cons]
      omega
    · rintro b' ⟨⟩
      dsimp only
      omega
    · exact fun _ _ => Or.inr habove

end Loop

theorem subtractLoop_spec {rowsA rowsB : List Row} (hA : WellFormed rowsA) (hB : WellFormed rowsB)
    (fuel : Nat) {done todo bs : List Row}
    {top : Int} (h : Sweeping rowsA rowsB done todo bs top) (hfuel : todo.length + bs.length ≤ fuel) :
    ∃ done' todo', DesktopRegion.subtractLoop fuel done todo bs top = some (done', todo') ∧
        Subtracted rowsA rowsB done' todo' := by
  induction fuel generalizing done todo bs top with
  | zero =>
    have hnil : todo = [] := List.length_eq_zero_iff.1 (by omega)
    subst hnil
    unfold DesktopRegion.subtractLoop
    exact ⟨done, [], rfl, h.finish (Or.inl rfl)⟩
  | succ fuel ih =>
    cases todo with
    | nil =>
      unfold DesktopRegion.subtractLoop
      exact ⟨done, [], rfl, h.finish (Or.inl rfl)⟩
    | cons rowA rest =>
      cases bs with
      | nil =>
        unfold DesktopRegion.subtractLoop
        exact ⟨done, rowA :: rest, rfl, h.finish (Or.inr rfl)⟩
      | cons b bs =>
        unfold DesktopRegion.subtractLoop
        by_cases hskip : rowA.bottom ≤ top
        · obtain ⟨done', row', hmerge, hnext⟩ := h.skip hskip
          rw [if_pos hskip, hmerge]
          exact ih hnext (by simp only [List.length_cons] at hfuel ⊢; omega)
        · rw [if_neg hskip]
          by_cases hgap : top < rowA.top ∧ b.bottom ≤ rowA.top
          · rw [if_pos hgap]
            have hnext := h.gap hB hgap.2
            have hlen : (rowA :: rest).length + (DesktopRegion.nextRow (b :: bs) rowA.top).1.length ≤ fuel := by
              rw [nextRow_length]
              simp only [List.length_cons] at hfuel ⊢
              omega
            exact ih hnext hlen
          · rw [if_neg hgap]
            obtain ⟨done1, row1, row2, rest', newSpans, hsplit, hsplit', hsub, next, hnext, hlen,
                done', hdone', hcut⟩ :=
              h.cut hA hB hskip hgap rfl
            simp only [hsplit, hsplit', hsub, ← hnext, Option.bind_eq_bind, Option.bind_some]
            by_cases hnone : newSpans = []
            · rw [if_pos hnone] at hdone' ⊢
              rw [← hdone']
              exact ih hcut (by omega)
            · rw [if_neg hnone] at hdone' ⊢
              rw [← hdone']
              exact ih hcut (by omega)

/-- **A region is subtracted.** Nothing that could be merged is left when no part of a row is missed. -/
theorem subtract_spec {r region : DesktopRegion} (hA : WellFormed r.rows) (hB : WellFormed region.rows) : ∃ r',
    r.subtract region = some r' ∧ WellFormed r'.rows ∧
    (∀ x y, Points r'.rows x y ↔ Points r.rows x y ∧ ¬ Points region.rows x y) ∧
    (Unmerged r.rows → ¬ Misses r.rows region.rows → Unmerged r'.rows) := by
  unfold DesktopRegion.subtract
  cases hrows : region.rows with
  | nil => exact ⟨r, rfl, hA, by simp, fun hun _ => hun⟩
  | cons b bs =>
    rw [hrows] at hB
    dsimp only
    obtain ⟨hsplit, hbelow, habove⟩ := upperBound_spec hA b.top
    generalize (upperBound r.rows b.top).1 = done at hsplit hbelow ⊢
    generalize (upperBound r.rows b.top).2 = todo at hsplit habove ⊢
    have hjoin := hA
    rw [← hsplit] at hjoin
    obtain ⟨hbefore, hafter, hcross⟩ := wellFormed_join.1 hjoin
    have hstart : Sweeping r.rows (b :: bs) done todo (b :: bs) b.top := by
      refine ⟨⟨[], hbefore, hafter, hcross, hbelow, rfl, by simp, ?_, ?_, ?_⟩, ?_, ?_⟩
      · intro x y
        rw [← points_reverse, ← points_append, hsplit]
        constructor
        · refine fun hon => ⟨hon, fun hy => ?_⟩
          have hfrom := On.from_head hB.ordered hy.2
          rw [lo_row] at hfrom
          omega
        · exact fun hon => hon.1
      · intro q hq
        have hmem : q ∈ r.rows := by
          rw [← hsplit]
          exact List.mem_append_right _ hq
        exact ⟨q, hmem, Int.le_refl _, rfl, rfl, Or.inl rfl⟩
      · intro hun _
        rw [← hsplit] at hun
        exact ⟨unmerged_reverse.1 (List.IsChain.left_of_append hun), List.IsChain.right_of_append hun⟩
      · rintro b' ⟨⟩
        exact ⟨Int.le_refl _, (hB.ok b List.mem_cons_self).tall⟩
      · rintro b' ⟨⟩
        exact Or.inl rfl
    have hlen : todo.length + (b :: bs).length ≤ r.rows.length + (b :: bs).length := by
      rw [← hsplit, List.length_append]
      omega
    obtain ⟨done', todo', hloop, hend⟩ := subtractLoop_spec hA hB _ hstart hlen
    simp only [hloop, Option.bind_eq_bind, Option.bind_some]
    obtain ⟨hwell, hpoints, hunmerged⟩ := mergeLast_spec hend.before hend.after hend.cross
    refine ⟨_, rfl, hwell, ?_, ?_⟩
    · intro x y
      rw [hpoints, hend.points]
    · intro hun hmiss
      obtain ⟨hset, hunTodo⟩ := hend.settled hun hmiss
      exact hunmerged hset hunTodo

end WebRtc.Desktop
