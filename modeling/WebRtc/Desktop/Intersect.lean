import WebRtc.Desktop.AddRect

/-!
# Two regions are intersected
-/

namespace WebRtc.Desktop

open HalfOpen

/-- What a sweep over the rows of two regions adds to what has been put out. -/
def SweepsTo (rows1 rows2 output : List Row) (result : Option (List Row)) : Prop :=
  ∃ output', result = some output' ∧ Before output' ∧
    (∀ x y, Points output' x y ↔ Points output x y ∨ Points rows1 x y ∧ Points rows2 x y) ∧
      (Settled output → Settled output')

/-- What has been put out is above all that the two have in common from now on. -/
def AboveBoth (output rows1 rows2 : List Row) : Prop :=
    ∀ o ∈ output, ∀ r ∈ rows1, ∀ q ∈ rows2, o.bottom ≤ max r.top q.top

section Symm
variable {rows1 rows2 output : List Row}

theorem SweepsTo.symm {result : Option (List Row)} (h : SweepsTo rows1 rows2 output result) :
    SweepsTo rows2 rows1 output result := by
  obtain ⟨output', hresult, hbefore, hpoints, hsettled⟩ := h
  refine ⟨output', hresult, hbefore, ?_, hsettled⟩
  intro x y
  rw [hpoints, and_comm (a := Points rows1 x y)]

theorem AboveBoth.symm (h : AboveBoth output rows1 rows2) : AboveBoth output rows2 rows1 := by
  intro o ho q hq r hr
  rw [Int.max_comm]
  exact h o ho r hr q hq

end Symm

section Round
variable {fuel : Nat}
  (ih : ∀ l m output, WellFormed l → WellFormed m → Before output → AboveBoth output l m → l.length + m.length ≤ fuel →
    SweepsTo l m output (DesktopRegion.intersectLoop fuel l m output))
  {it1 it2 : Row} {rest1 rest2 output : List Row} (h1 : WellFormed (it1 :: rest1)) (h2 : WellFormed (it2 :: rest2))
  (hout : Before output) (habove : AboveBoth output (it1 :: rest1) (it2 :: rest2))
  (hfuel : (it1 :: rest1).length + (it2 :: rest2).length ≤ fuel + 1)
include ih h1 h2 hout habove hfuel

theorem intersect_skip (hskip : it1.bottom ≤ it2.top) :
    SweepsTo (it1 :: rest1) (it2 :: rest2) output (DesktopRegion.intersectLoop fuel rest1 (it2 :: rest2) output) := by
  simp only [List.length_cons] at hfuel
  obtain ⟨output', hresult, hbefore, hpoints, hsettled⟩ :=
    ih rest1 (it2 :: rest2) output (wellFormed_cons.1 h1).2.1 h2 hout
    (fun o ho r hr => habove o ho r (List.mem_cons_of_mem it1 hr)) (by simp only [List.length_cons]; omega)
  refine ⟨output', hresult, hbefore, ?_, hsettled⟩
  intro x y
  rw [hpoints]
  exact or_congr_right (on_inter_skip h2.ordered hskip).symm

theorem intersect_overlap (hle : it1.top ≤ it2.top) (hover : it2.top < it1.bottom) {bottom : Int}
    (hbottom : min it1.bottom it2.bottom = bottom) : ∃ row spans, newRow output
    [] it2.top bottom = some (output, row, []) ∧
      intersectRows it1.spans it2.spans = some spans ∧ SweepsTo (it1 :: rest1) (it2 :: rest2) output
        (DesktopRegion.intersectLoop fuel (if it1.bottom = bottom then rest1 else it1 :: rest1)
          (if it2.bottom = bottom then rest2 else it2 :: rest2)
          (if spans = [] then output
          else (mergeWithPrecedingRow output { row with spans }).2 :: (mergeWithPrecedingRow output
              { row with spans }).1)) := by
  obtain ⟨hok1, hrest1, hbehind1⟩ := wellFormed_cons.1 h1
  obtain ⟨hok2, hrest2, hbehind2⟩ := wellFormed_cons.1 h2
  have htall1 := hok1.tall
  have htall2 := hok2.tall
  obtain ⟨spans, hspans, hspansOk, hspansMem⟩ := intersectRows_spec hok1.spans hok2.spans hok1.nonempty hok2.nonempty
  have hbelow : ∀ o ∈ output, o.bottom ≤ it2.top := by
    intro o ho
    have hmax := habove o ho it1 List.mem_cons_self it2 List.mem_cons_self
    omega
  have hinserts : inserts output [] bottom = true :=
    inserts_before ⟨bottom, it2.top, bottom, []⟩ hout hbelow (by show it2.top < bottom; omega) (by simp)
  refine ⟨⟨bottom, it2.top, bottom, []⟩, spans, by unfold newRow; rw [if_pos hinserts], hspans, ?_⟩
  obtain ⟨output', houtput', hbefore', hlast', hleft, hsettled'⟩ :=
    leave_spec ⟨bottom, it2.top, bottom, spans⟩ hout hbelow ⟨rfl, by show it2.top < bottom; omega, hspansOk⟩
  -- The row that is put out has the points that the first rows have in common.
  have hpoints' : ∀ x y, Points output' x y ↔
      Points output x y ∨ it2.top ≤ y ∧ y < bottom ∧ InSpans it1.spans x ∧ InSpans it2.spans x := by
    intro x y
    rw [hleft, points_cons, or_comm, hspansMem]
  dsimp only at houtput' hlast' ⊢
  rw [← houtput']
  have hinter := fun x y => on_inter_step (Q := fun r : Row => InSpans r.spans x)
      (R := fun r : Row => InSpans r.spans x) (y := y)
    h1.ordered h2.ordered hle (e := bottom) hbottom.symm
  simp only [hi_row, lo_row] at hinter
  have hwell1 : WellFormed (if it1.bottom = bottom then rest1 else it1 :: rest1) := by
    split
    · exact hrest1
    · exact h1
  have hwell2 : WellFormed (if it2.bottom = bottom then rest2 else it2 :: rest2) := by
    split
    · exact hrest2
    · exact h2
  have hends : it1.bottom = bottom ∨ it2.bottom = bottom := by omega
  have hlen : (if it1.bottom = bottom then rest1 else it1 :: rest1).length +
      (if it2.bottom = bottom then rest2 else it2 :: rest2).length ≤ fuel := by
    simp only [List.length_cons] at hfuel
    have hlen1 : (if it1.bottom = bottom then rest1 else it1 :: rest1).length ≤ rest1.length + 1 := by split <;> simp
    have hlen2 : (if it2.bottom = bottom then rest2 else it2 :: rest2).length ≤ rest2.length + 1 := by split <;> simp
    rcases hends with hend | hend
    · rw [if_pos hend]
      omega
    · rw [if_pos hend]
      omega
  have habove' : AboveBoth output' (if it1.bottom = bottom then rest1 else it1 :: rest1)
      (if it2.bottom = bottom then rest2 else it2 :: rest2) := by
    intro o ho r hr q hq
    have hlast := hlast' o ho
    rcases hends with hend | hend
    · rw [if_pos hend] at hr
      have hle' := hbehind1 r hr
      omega
    · rw [if_pos hend] at hq
      have hle' := hbehind2 q hq
      omega
  obtain ⟨output'', hresult, hbefore'', hpoints'', hsettled''⟩ := ih _ _ output' hwell1 hwell2 hbefore' habove' hlen
  refine ⟨output'', hresult, hbefore'', ?_, fun hset => hsettled'' (hsettled' hset)⟩
  intro x y
  rw [hpoints'', hpoints', or_assoc]
  exact or_congr_right (hinter x y).symm

end Round

theorem sweepsTo_nil {output : List Row} (hout : Before output) (rows : List Row) :
    SweepsTo [] rows output (some output) :=
  ⟨output, rfl, hout, by simp, id⟩

theorem intersectLoop_spec (fuel : Nat) (rows1 rows2 output : List Row) (h1 : WellFormed rows1) (h2 : WellFormed rows2)
    (hout : Before output) (habove : AboveBoth output rows1 rows2) (hfuel : rows1.length + rows2.length ≤ fuel) :
    SweepsTo rows1 rows2 output (DesktopRegion.intersectLoop fuel rows1 rows2 output) := by
  induction fuel generalizing rows1 rows2 output with
  | zero =>
    have hnil : rows1 = [] := List.length_eq_zero_iff.1 (by omega)
    subst hnil
    unfold DesktopRegion.intersectLoop
    exact sweepsTo_nil hout rows2
  | succ fuel ih =>
    cases rows1 with
    | nil =>
      unfold DesktopRegion.intersectLoop
      exact sweepsTo_nil hout rows2
    | cons r1 t1 =>
      cases rows2 with
      | nil =>
        unfold DesktopRegion.intersectLoop
        exact (sweepsTo_nil hout (r1 :: t1)).symm
      | cons r2 t2 =>
        unfold DesktopRegion.intersectLoop
        by_cases hswap : r2.top < r1.top
        · simp only [if_pos hswap]
          apply SweepsTo.symm
          have hfuel' : (r2 :: t2).length + (r1 :: t1).length ≤ fuel + 1 := by omega
          by_cases hskip : r2.bottom ≤ r1.top
          · rw [if_pos hskip]
            exact intersect_skip ih h2 h1 hout habove.symm hfuel' hskip
          · rw [if_neg hskip]
            obtain ⟨row, spans, hnew, hspans, hsweep⟩ :=
              intersect_overlap ih h2 h1 hout habove.symm hfuel' (Int.le_of_lt hswap) (Int.not_le.1 hskip) rfl
            simp only [hnew, hspans, Option.bind_eq_bind, Option.bind_some]
            exact hsweep
        · simp only [if_neg hswap]
          by_cases hskip : r1.bottom ≤ r2.top
          · rw [if_pos hskip]
            exact intersect_skip ih h1 h2 hout habove hfuel hskip
          · rw [if_neg hskip]
            obtain ⟨row, spans, hnew, hspans, hsweep⟩ :=
              intersect_overlap ih h1 h2 hout habove hfuel (Int.not_lt.1 hswap) (Int.not_le.1 hskip) rfl
            simp only [hnew, hspans, Option.bind_eq_bind, Option.bind_some]
            exact hsweep

/-- **Two regions are intersected.** -/
theorem intersect_spec {r1 r2 : DesktopRegion} (h1 : WellFormed r1.rows) (h2 : WellFormed r2.rows) :
    ∃ r', DesktopRegion.intersect r1 r2 = some r' ∧ WellFormed r'.rows ∧
      (∀ x y, Points r'.rows x y ↔ Points r1.rows x y ∧ Points r2.rows x y) ∧ Unmerged r'.rows := by
  obtain ⟨output, hresult, hbefore, hpoints, hsettled⟩ :=
    intersectLoop_spec (r1.rows.length + r2.rows.length) r1.rows r2.rows [] h1 h2
    before_nil (fun o ho => by cases ho) (Nat.le_refl _)
  unfold DesktopRegion.intersect
  rw [hresult]
  refine ⟨_, rfl, hbefore.reverse, ?_, unmerged_reverse.2 (hsettled List.isChain_nil)⟩
  intro x y
  rw [points_reverse, hpoints]
  simp

end WebRtc.Desktop
