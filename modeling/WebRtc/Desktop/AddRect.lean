import WebRtc.Desktop.Rows

/-!
# A rectangle is added

The loop goes down the rows that the rectangle meets. Down to its current top the rectangle has been
added, and the rows above cannot be merged any more.
-/

namespace WebRtc.Desktop

open HalfOpen

def DesktopRect.Has (rect : DesktopRect) (x y : Int) : Prop :=
  (rect.left ≤ x ∧ x < rect.right) ∧ rect.top ≤ y ∧ y < rect.bottom

/-- What has been done when the loop has come down to `top`. -/
structure Adding (rect : DesktopRect) (rows done todo : List Row) (top : Int) : Prop where
  before : Before done
  after : WellFormed todo
  cross : ∀ r ∈ done, ∀ q ∈ todo, r.bottom ≤ q.top
  below : ∀ r ∈ done, r.bottom ≤ top
  above : ∀ q ∈ todo, top < q.bottom
  points : ∀ x y, Points done x y ∨ Points todo x y ↔
    Points rows x y ∨ (rect.left ≤ x ∧ x < rect.right) ∧ rect.top ≤ y ∧ y < top
  settled : Unmerged rows → Settled done ∧ Unmerged todo ∧
    ∀ q ∈ todo.head?, q.top < top → Settled (q :: done)

/-- The same with the row that the rectangle is added to next. -/
structure Opened (rect : DesktopRect) (rows done : List Row) (row : Row) (rest : List Row) (top : Int) : Prop where
  before : Before done
  shape : RowShape row
  after : WellFormed rest
  below : ∀ r ∈ done, r.bottom ≤ row.top
  above : ∀ q ∈ rest, row.bottom ≤ q.top
  top_eq : row.top = top
  points : ∀ x y, Points done x y ∨ Points (row :: rest) x y ↔
    Points rows x y ∨ (rect.left ≤ x ∧ x < rect.right) ∧ rect.top ≤ y ∧ y < top
  nonempty : rect.bottom < row.bottom → row.spans ≠ []
  settled : Unmerged rows → Settled done ∧ Unmerged rest ∧ (rect.bottom < row.bottom → Unmerged (row :: rest))

section Round
variable {rect : DesktopRect} {rows done todo rest : List Row} {row : Row} {top : Int}

/-- A row without spans has no points. -/
theorem Adding.newRow (h : Adding rect rows done todo top) (bottom : Int) (htop : top < bottom)
    (hbottom : bottom ≤ rect.bottom)
    (habove : ∀ q ∈ todo, bottom ≤ q.top) :
    ∃ row, newRow done todo top bottom = some (done, row, todo) ∧ Opened rect rows done row todo top := by
  have hinserts : inserts done todo bottom = true := by
    refine inserts_before ⟨bottom, top, bottom, []⟩ h.before h.below htop ?_
    intro q hq
    have hmem := List.mem_of_mem_head? hq
    have hok := h.after.ok q hmem
    have hle := habove q hmem
    have hkeyed := hok.keyed
    have htall := hok.tall
    omega
  unfold Desktop.newRow
  rw [if_pos hinserts]
  refine ⟨_, rfl, h.before, ⟨rfl, htop, spansOk_nil⟩, h.after, h.below, habove, rfl, ?_, ?_, ?_⟩
  · intro x y
    rw [points_cons, ← h.points]
    simp
  · intro hlt
    exact absurd hlt (by dsimp only; omega)
  · intro hun
    obtain ⟨hset, hunTodo, -⟩ := h.settled hun
    exact ⟨hset, hunTodo, fun hlt => absurd hlt (by dsimp only; omega)⟩

theorem openRow_spec (h : Adding rect rows done todo top) (htop : top < rect.bottom) :
    ∃ done' row rest, DesktopRegion.openRow rect top done todo = some (done', row, rest) ∧
        Opened rect rows done' row rest top := by
  cases todo with
  | nil =>
    obtain ⟨row, hnew, hopened⟩ := h.newRow rect.bottom htop (Int.le_refl _) (by simp)
    exact ⟨done, row, [], hnew, hopened⟩
  | cons q rest =>
    obtain ⟨hq, hrest, hbehind⟩ := wellFormed_cons.1 h.after
    have htall := hq.tall
    unfold DesktopRegion.openRow
    dsimp only
    by_cases hgap : top < q.top
    · rw [if_pos hgap]
      have hge : ∀ r ∈ q :: rest, q.top ≤ r.top := by
        intro r hr
        rcases List.mem_cons.1 hr with rfl | hr
        · exact Int.le_refl _
        · have hle := hbehind r hr
          omega
      obtain ⟨row, hnew, hopened⟩ := h.newRow (if q.top < rect.bottom then q.top else rect.bottom)
        (by split <;> omega) (by split <;> omega) (fun r hr => by have hle := hge r hr; split <;> omega)
      exact ⟨done, row, q :: rest, hnew, hopened⟩
    · rw [if_neg hgap]
      obtain ⟨done', row', hsplit, hbefore, hok, hbelow, htop', hbottom', hspans', hpoints, hsettled⟩ :=
        splitAbove_spec h.before (fun r hr => h.cross r hr q List.mem_cons_self) hq (h.above q List.mem_cons_self)
      rw [hsplit]
      refine ⟨done', row', rest, rfl, hbefore, hok.toRowShape, hrest, hbelow,
        by rw [hbottom']; exact hbehind, by omega, ?_,
        fun _ => hok.nonempty, ?_⟩
      · intro x y
        have hxy := hpoints x y
        rw [points_cons, points_cons] at hxy
        rw [← h.points, points_cons, points_cons, or_left_comm, ← or_assoc, hxy, or_assoc, or_left_comm]
      · intro hun
        obtain ⟨hset, hunTodo, hfirst⟩ := h.settled hun
        refine ⟨hsettled (hfirst q rfl) hset, hunTodo.of_cons, fun _ => ?_⟩
        cases rest with
        | nil => exact List.isChain_singleton _
        | cons p rest =>
          obtain ⟨hpair, hchain⟩ := List.isChain_cons_cons.1 hunTodo
          refine List.isChain_cons_cons.2 ⟨?_, hchain⟩
          rw [hi_row, hbottom', hspans']
          exact hpair

theorem regroup {a b c d : Prop} : ((a ∨ b) ∨ c) ∨ d ↔ (c ∨ a ∨ d) ∨ b := by
  tauto

/-- **One round**: the span is added to the row, down to the bottom of the rectangle at most. -/
theorem Opened.add (h : Opened rect rows done row rest top) (hwide : rect.left < rect.right) (hrect : rect.top ≤ top)
    (htop : top < rect.bottom) : ∃ row' rest' spans done'' row'',
    splitBelow top rect.bottom done row rest = some (row', rest') ∧
      addSpanToRow row'.spans rect.left rect.right = some spans ∧
      mergeWithPrecedingRow done { row' with spans } = (done'', row'') ∧
      top < row''.bottom ∧ row''.bottom ≤ rect.bottom ∧ Adding rect rows (row'' :: done'') rest' row''.bottom := by
  obtain ⟨row', rest', hsplit, hshape, hrest, habove, htop', hbottom', hspans', hpoints', hcut, huncut⟩ :=
    splitBelow_spec h.before h.below h.shape h.after h.above rect.bottom (by rw [h.top_eq]; exact htop) h.nonempty
  rw [h.top_eq] at hsplit htop'
  obtain ⟨spans, hadd, hspansOk, hspansNe, hspansMem⟩ := addSpanToRow_spec hshape.spans hwide
  have hok : RowOk { row' with spans } := ⟨⟨hshape.keyed, hshape.tall, hspansOk⟩, hspansNe⟩
  have hbelow : ∀ r ∈ done, r.bottom ≤ ({ row' with spans } : Row).top := by
    show ∀ r ∈ done, r.bottom ≤ row'.top
    rw [htop', ← h.top_eq]
    exact h.below
  obtain ⟨done'', row'', hmerge, hbefore, hbottom, -, hpoints'', hsettled⟩ :=
    mergeWithPrecedingRow_spec h.before hbelow hok
  have hbottom'' : row''.bottom = row'.bottom := hbottom
  have htall := hshape.tall
  refine ⟨row', rest', spans, done'', row'', hsplit, hadd, hmerge, by omega, by rw [hbottom'', hbottom']; omega, ?_⟩
  have habove'' : ∀ q ∈ rest', row''.bottom ≤ q.top := by
    rw [hbottom'']
    exact habove
  constructor
  case before => exact hbefore
  case after => exact hrest
  case cross =>
    intro r hr q hq
    have h1 := hbefore.ends r hr
    have h2 := habove'' q hq
    omega
  case below => exact hbefore.ends
  case above =>
    intro q hq
    have h1 := habove'' q hq
    have h2 := (hrest.ok q hq).tall
    omega
  case points =>
    intro x y
    have hrow := hpoints' x y
    have hmerged := hpoints'' x y
    have hall := h.points x y
    rw [@points_cons row', @points_cons row] at hrow
    rw [@points_cons { row' with spans }, hspansMem, and_or_left, and_or_left] at hmerged
    rw [@points_cons row, ← hrow] at hall
    rw [hmerged, regroup, hall, hbottom'', or_assoc]
    dsimp only
    -- The new span is on the lines of the row.
    refine or_congr_right ?_
    constructor
    · rintro (⟨hx, hlo, hhi⟩ | ⟨hlo, hhi, hx⟩)
      · exact ⟨hx, hlo, by omega⟩
      · exact ⟨hx, by omega, hhi⟩
    · rintro ⟨hx, hlo, hhi⟩
      by_cases hy : y < top
      · exact Or.inl ⟨hx, hlo, hy⟩
      · exact Or.inr ⟨by omega, hhi, hx⟩
  case settled =>
    intro hun
    obtain ⟨hset, hunRest, hunRow⟩ := h.settled hun
    refine ⟨hsettled hset, ?_, ?_⟩
    · by_cases hlt : rect.bottom < row.bottom
      · rw [hcut hlt]
        have hunCons := hunRow hlt
        cases rest with
        | nil => exact List.isChain_singleton _
        | cons p rest =>
          obtain ⟨hpair, hchain⟩ := List.isChain_cons_cons.1 hunCons
          exact List.isChain_cons_cons.2 ⟨hpair, hchain⟩
      · rw [huncut hlt]
        exact hunRest
    · intro q hq hlt
      have hle := habove'' q (List.mem_of_mem_head? hq)
      omega

end Round

/-- **The loop ends**, with the whole of the rectangle added. -/
theorem addRectLoop_spec {rect : DesktopRect} {rows : List Row} (hwide : rect.left < rect.right)
    (fuel : Nat) {done todo : List Row} {top : Int}
    (h : Adding rect rows done todo top) (hrect : rect.top ≤ top) (hle : top ≤ rect.bottom)
    (hfuel : (rect.bottom - top).toNat ≤ fuel) :
    ∃ done' todo', DesktopRegion.addRectLoop rect fuel done todo top = some (done', todo') ∧
      Adding rect rows done' todo' rect.bottom := by
  induction fuel generalizing done todo top with
  | zero =>
    have heq : top = rect.bottom := by omega
    subst heq
    unfold DesktopRegion.addRectLoop
    rw [if_pos (Int.le_refl _)]
    exact ⟨done, todo, rfl, h⟩
  | succ fuel ih =>
    unfold DesktopRegion.addRectLoop
    by_cases hend : rect.bottom ≤ top
    · have heq : top = rect.bottom := by omega
      subst heq
      rw [if_pos hend]
      exact ⟨done, todo, rfl, h⟩
    · rw [if_neg hend]
      have htop := Int.not_le.1 hend
      obtain ⟨done', row, rest, hopen, hopened⟩ := openRow_spec h htop
      obtain ⟨row', rest', spans, done'', row'', hsplit, hadd, hmerge, hlt, hrow, hadding⟩ :=
        hopened.add hwide hrect htop
      simp only [hopen, hsplit, hadd, hmerge, Option.bind_eq_bind, Option.bind_some]
      exact ih hadding (by omega) hrow (by omega)

/-- **A rectangle is added**: the region is united with it, and stays without rows to be merged. -/
theorem addRect_spec {r : DesktopRegion} (h : WellFormed r.rows) (rect : DesktopRect) : ∃ r', r.addRect rect = some r' ∧
    WellFormed r'.rows ∧ (∀ x y, Points r'.rows x y ↔ Points r.rows x y ∨ rect.Has x y) ∧
    (Unmerged r.rows → Unmerged r'.rows) := by
  unfold DesktopRegion.addRect
  by_cases hempty : rect.isEmpty = true
  · rw [if_pos hempty]
    refine ⟨r, rfl, h, ?_, id⟩
    intro x y
    simp only [DesktopRect.isEmpty, Bool.or_eq_true, decide_eq_true_eq] at hempty
    unfold DesktopRect.Has
    constructor
    · exact Or.inl
    · rintro (hp | hr)
      · exact hp
      · omega
  · rw [if_neg hempty]
    simp only [DesktopRect.isEmpty, Bool.or_eq_true, decide_eq_true_eq, not_or] at hempty
    obtain ⟨hsplit, hbelow, habove⟩ := upperBound_spec h rect.top
    generalize (upperBound r.rows rect.top).1 = done at hsplit hbelow ⊢
    generalize (upperBound r.rows rect.top).2 = todo at hsplit habove ⊢
    have hjoin := h
    rw [← hsplit] at hjoin
    obtain ⟨hbefore, hafter, hcross⟩ := wellFormed_join.1 hjoin
    have hstart : Adding rect r.rows done todo rect.top := by
      refine ⟨hbefore, hafter, hcross, hbelow, habove, ?_, ?_⟩
      · intro x y
        rw [← hsplit, points_append, points_reverse]
        constructor
        · exact Or.inl
        · rintro (hp | hr)
          · exact hp
          · omega
      · intro hun
        rw [← hsplit] at hun
        cases todo with
        | nil =>
          rw [List.append_nil] at hun
          exact ⟨unmerged_reverse.1 hun, List.isChain_nil, by simp⟩
        | cons q rest =>
          obtain ⟨hset, hunTodo⟩ := unmerged_join.1 hun
          refine ⟨hset.of_cons, hunTodo, ?_⟩
          rintro q' ⟨⟩ _
          exact hset
    obtain ⟨done', todo', hloop, hend⟩ :=
      addRectLoop_spec (by omega) (rect.bottom - rect.top).toNat hstart (Int.le_refl _) (by omega)
      (Nat.le_refl _)
    simp only [hloop, Option.bind_eq_bind, Option.bind_some]
    obtain ⟨hwell, hpoints, hunmerged⟩ := mergeLast_spec hend.before hend.after hend.cross
    refine ⟨_, rfl, hwell, ?_, ?_⟩
    · intro x y
      rw [hpoints, hend.points]
      rfl
    · intro hun
      obtain ⟨hset, hunTodo, -⟩ := hend.settled hun
      exact hunmerged hset hunTodo

end WebRtc.Desktop
