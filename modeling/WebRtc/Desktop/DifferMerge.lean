import WebRtc.Desktop.AddRect
import WebRtc.Desktop.DifferMark

/-!
# How the differ merges blocks (`desktop_capture/differ.cc`)

A group of marked blocks is taken off the marks and its rectangle is added to the region, so the points of both
together stay what they were (`Merging`). The clear boundary ends every loop before it leaves `diff_info_`.
-/

namespace WebRtc.Desktop

/-- A loop over `0, 1, …` that keeps an invariant and ends in each of its rounds. -/
theorem foldlM_range {σ : Type} {f : σ → Nat → Option σ} {I : Nat → σ → Prop} {n : Nat} {s : σ} (h0 : I 0 s)
    (hstep : ∀ i < n, ∀ s, I i s → ∃ s', f s i = some s' ∧ I (i + 1) s') :
    ∃ s', (List.range n).foldlM f s = some s' ∧ I n s' := by
  induction n with
  | zero => exact ⟨s, rfl, h0⟩
  | succ n ih =>
    obtain ⟨t, ht, hI⟩ := ih fun i hi => hstep i (by omega)
    obtain ⟨s', hs', hI'⟩ := hstep n (Nat.lt_succ_self n) t hI
    refine ⟨s', ?_, hI'⟩
    rw [List.range_succ, List.foldlM_append, ht]
    simp [hs']

namespace Differ

variable {d : Differ} {info : DiffInfo}

/-- `n` marks from `i` on are erased. -/
def erase (info : DiffInfo) (i n : Nat) : DiffInfo := mark info i n fun _ => false

theorem load_ok {i : Nat} (hi : i < d.diffInfoSize) : d.load info i = some (info i) := if_pos hi

theorem erase_le {i n j : Nat} (h : erase info i n j = true) : info j = true := by
  simp only [erase, mark] at h
  split at h
  · cases h
  · exact h

theorem eraseRow_eq {n i : Nat} (hroom : i + n ≤ d.diffInfoSize) : d.eraseRow n i info = some (erase info i n) := by
  induction n generalizing i info with
  | zero => exact congrArg some (mark_zero info i _).symm
  | succ n ih =>
    simp only [eraseRow, store_ok (show i < d.diffInfoSize by omega), Option.bind_eq_bind, Option.bind_some]
    rw [ih (by omega)]
    exact congrArg some (mark_succ info i n fun _ => false)

theorem foundNewRow_eq {n i : Nat} (hroom : i + n ≤ d.diffInfoSize) :
    d.foundNewRow info n i = some (decide (∀ k < n, info (i + k) = true)) := by
  induction n generalizing i with
  | zero => simp [foundNewRow]
  | succ n ih =>
    have hsplit : (∀ k < n + 1, info (i + k) = true) ↔ info i = true ∧ ∀ k < n, info (i + 1 + k) = true := by
      constructor
      · intro h
        refine ⟨h 0 (Nat.succ_pos n), fun k hk => ?_⟩
        rw [Nat.add_assoc, Nat.add_comm 1]
        exact h (k + 1) (by omega)
      · rintro ⟨h0, h⟩ k hk
        cases k with
        | zero => exact h0
        | succ k =>
          have := h k (by omega)
          rwa [Nat.add_assoc, Nat.add_comm 1] at this
    simp only [foundNewRow, load_ok (show i < d.diffInfoSize by omega), Option.bind_eq_bind, Option.bind_some,
      ih (show i + 1 + n ≤ d.diffInfoSize by omega)]
    simp only [Option.pure_def, Option.some.injEq]
    rw [Bool.eq_iff_iff, Bool.and_eq_true, decide_eq_true_iff, decide_eq_true_iff, hsplit]

/-- To the right up to a block that is not marked; there is one at `last`. -/
theorem mergeRight_spec {fuel i width last : Nat} (hle : i ≤ last) (hlast : last < d.diffInfoSize)
    (hclear : info last = false) (hfuel : last - i < fuel) :
    ∃ n, d.mergeRight fuel i width info = some (width + n, erase info i n) ∧ i + n ≤ last ∧
      ∀ k < n, info (i + k) = true := by
  induction fuel generalizing i width info with
  | zero => omega
  | succ fuel ih =>
    simp only [mergeRight, load_ok (show i < d.diffInfoSize by omega), Option.bind_eq_bind, Option.bind_some]
    by_cases hmarked : info i = true
    · have hne : i ≠ last := by
        rintro rfl
        rw [hmarked] at hclear
        cases hclear
      obtain ⟨n, hmerge, hend, hall⟩ := @ih (Function.update info i false) (i + 1) (width + 1)
        (by omega) (by rwa [Function.update_of_ne (Ne.symm hne)]) (by omega)
      refine ⟨n + 1, ?_, by omega, fun k hk => ?_⟩
      · rw [if_pos hmarked, store_ok (by omega)]
        simp only [Option.bind_some, hmerge]
        rw [Nat.add_assoc, Nat.add_comm 1]
        exact congrArg (fun e => some (width + (n + 1), e)) (mark_succ info i n fun _ => false)
      · cases k with
        | zero => exact hmarked
        | succ k =>
          have := hall k (by omega)
          rwa [Function.update_of_ne (by omega), Nat.add_assoc, Nat.add_comm 1] at this
    · rw [if_neg hmarked]
      exact ⟨0, congrArg (fun e => some (width, e)) (mark_zero info i _).symm, hle, by simp⟩

/-! ## Marks by row and column -/

/-- The marks of the boundary are clear. -/
structure Bounded (d : Differ) (info : DiffInfo) : Prop where
  right : ∀ y < d.diffInfoHeight, info (y * d.diffInfoWidth + (d.diffInfoWidth - 1)) = false
  bottom : ∀ x < d.diffInfoWidth, info ((d.diffInfoHeight - 1) * d.diffInfoWidth + x) = false

theorem place_lt {x y : Nat} (hx : x < d.diffInfoWidth) (hy : y < d.diffInfoHeight) :
    y * d.diffInfoWidth + x < d.diffInfoSize := by
  have hle : (y + 1) * d.diffInfoWidth ≤ d.diffInfoHeight * d.diffInfoWidth := Nat.mul_le_mul_right _ hy
  rw [Nat.add_mul, Nat.one_mul] at hle
  rw [diffInfoSize, Nat.mul_comm d.diffInfoWidth]
  omega

/-- A part of a row, seen from a mark. -/
theorem inRow_iff {x y n x' y' : Nat} (hx : x + n ≤ d.diffInfoWidth) (hx' : x' < d.diffInfoWidth) :
    (y * d.diffInfoWidth + x ≤ y' * d.diffInfoWidth + x' ∧ y' * d.diffInfoWidth + x' < y * d.diffInfoWidth + x + n) ↔
      y' = y ∧ x ≤ x' ∧ x' < x + n := by
  rcases Nat.lt_trichotomy y' y with h | rfl | h
  · have := Nat.mul_le_mul_right d.diffInfoWidth (show y' + 1 ≤ y from h)
    rw [Nat.add_mul, Nat.one_mul] at this
    omega
  · omega
  · have := Nat.mul_le_mul_right d.diffInfoWidth (show y + 1 ≤ y' from h)
    rw [Nat.add_mul, Nat.one_mul] at this
    omega

theorem Bounded.erase (h : Bounded d info) (i n : Nat) : Bounded d (erase info i n) where
  right := fun y hy => by
    by_contra hne
    have := erase_le (Bool.not_eq_false _ ▸ hne)
    rw [h.right y hy] at this
    cases this
  bottom := fun x hx => by
    by_contra hne
    have := erase_le (Bool.not_eq_false _ ▸ hne)
    rw [h.bottom x hx] at this
    cases this

theorem erase_row {x y n x' y' : Nat} (hx : x + n ≤ d.diffInfoWidth) (hx' : x' < d.diffInfoWidth) :
    Differ.erase info (y * d.diffInfoWidth + x) n (y' * d.diffInfoWidth + x') =
      if y' = y ∧ x ≤ x' ∧ x' < x + n then false else info (y' * d.diffInfoWidth + x') := by
  simp only [Differ.erase, mark, inRow_iff hx hx']

/-- Down to a row that is not marked all along; the boundary is one. -/
theorem mergeBelow_spec {fuel x y width height : Nat} (h : Bounded d info) (hwidth : 0 < width)
    (hx : x + width ≤ d.diffInfoWidth) (hy : y + 1 < d.diffInfoHeight) (hfuel : d.diffInfoHeight - 1 - y ≤ fuel) :
    ∃ n info', d.mergeBelow width fuel (y * d.diffInfoWidth + x) height info = some (height + n, info') ∧
      y + n + 1 < d.diffInfoHeight ∧ Bounded d info' ∧
      (∀ y', y < y' → y' ≤ y + n → ∀ k < width, info (y' * d.diffInfoWidth + x + k) = true) ∧
      ∀ x' y', x' < d.diffInfoWidth → info' (y' * d.diffInfoWidth + x') =
        if (y < y' ∧ y' ≤ y + n) ∧ x ≤ x' ∧ x' < x + width then false else info (y' * d.diffInfoWidth + x') := by
  induction fuel generalizing y height info with
  | zero => omega
  | succ fuel ih =>
    have hbelow : y * d.diffInfoWidth + x + d.diffInfoWidth = (y + 1) * d.diffInfoWidth + x := by
      rw [Nat.add_mul, Nat.one_mul]
      omega
    have hroom : (y + 1) * d.diffInfoWidth + x + width ≤ d.diffInfoSize := by
      have := place_lt (d := d) (x := x + width - 1) (by omega) hy
      omega
    simp only [mergeBelow, hbelow, foundNewRow_eq hroom, Option.bind_eq_bind, Option.bind_some, decide_eq_true_eq]
    by_cases hfound : ∀ k < width, info ((y + 1) * d.diffInfoWidth + x + k) = true
    · have hinside : y + 1 + 1 < d.diffInfoHeight := by
        by_contra hlast
        have hrow : y + 1 = d.diffInfoHeight - 1 := by omega
        have hclear := h.bottom x (by omega)
        rw [← hrow] at hclear
        have hmarked := hfound 0 hwidth
        rw [Nat.add_zero, hclear] at hmarked
        cases hmarked
      rw [if_pos hfound, eraseRow_eq hroom]
      obtain ⟨n, info', hmerge, hend, hbounded, hall, hcells⟩ :=
        @ih (Differ.erase info ((y + 1) * d.diffInfoWidth + x) width)
        (y + 1) (height + 1) (h.erase ((y + 1) * d.diffInfoWidth + x) width) hinside (by omega)
      refine ⟨n + 1, info', ?_, by omega, hbounded, fun y' hlo hhi k hk => ?_, fun x' y' hx' => ?_⟩
      · simp only [Option.bind_some, hmerge]
        rw [Nat.add_assoc, Nat.add_comm 1]
      · by_cases hfirst : y' = y + 1
        · subst hfirst
          exact hfound k hk
        · exact erase_le (hall y' (by omega) (by omega) k hk)
      · rw [hcells x' y' hx', erase_row hx hx']
        split_ifs <;> first | rfl | omega
    · rw [if_neg hfound]
      refine ⟨0, info, rfl, by omega, h, by omega, fun x' y' _ => ?_⟩
      rw [if_neg (by omega)]

/-! ## The points of the blocks -/

/-- A point of the screen lies in a block. -/
def InBlock (d : Differ) (x y : Nat) (px py : Int) : Prop :=
  ((x * kBlockSize : Nat) ≤ px ∧ px < ((x + 1) * kBlockSize : Nat) ∧ px < d.width) ∧
    (y * kBlockSize : Nat) ≤ py ∧ py < ((y + 1) * kBlockSize : Nat) ∧ py < d.height

/-- A point lies in a block that is marked. -/
def Covered (d : Differ) (info : DiffInfo) (px py : Int) : Prop :=
  ∃ x y, x < d.diffInfoWidth ∧ y < d.diffInfoHeight ∧ info (y * d.diffInfoWidth + x) = true ∧ d.InBlock x y px py

/-- A side of a rectangle, which ends at the side of the screen. -/
theorem clip_iff {start length screen : Nat} {p : Int} :
    ((start : Int) ≤ p ∧ p < (start : Int) + (if screen < start + length then screen - start else length : Nat)) ↔
      (start : Int) ≤ p ∧ p < (start + length : Nat) ∧ p < screen := by
  split_ifs <;> omega

theorem rectOf_has {x y width height : Nat} {px py : Int} : (d.rectOf x y width height).Has px py ↔
    ∃ x' y', (x ≤ x' ∧ x' < x + width) ∧ (y ≤ y' ∧ y' < y + height) ∧ d.InBlock x' y' px py := by
  simp only [rectOf, DesktopRect.Has, clip_iff, InBlock]
  simp only [kBlockSize]
  constructor
  · rintro ⟨hx, hy⟩
    exact ⟨(px / 32).toNat, (py / 32).toNat, by omega, by omega, by omega, by omega⟩
  · rintro ⟨x', y', hx, hy, hpx, hpy⟩
    omega

/-! ## One group -/

/-- The group of blocks that is found at a mark, and what is left of the marks. -/
structure Grouped (d : Differ) (info info' : DiffInfo) (x y width height : Nat) : Prop where
  width_pos : 0 < width
  height_pos : 0 < height
  right : x + width < d.diffInfoWidth
  bottom : y + height < d.diffInfoHeight
  marked : ∀ x' y', (x ≤ x' ∧ x' < x + width) → (y ≤ y' ∧ y' < y + height) →
    info (y' * d.diffInfoWidth + x') = true
  left : ∀ x' y', x' < d.diffInfoWidth → info' (y' * d.diffInfoWidth + x') =
    if (x ≤ x' ∧ x' < x + width) ∧ y ≤ y' ∧ y' < y + height then false else info (y' * d.diffInfoWidth + x')

theorem mergeBlock_marked (h : Bounded d info) {region : DesktopRegion} {x y : Nat} (hx : x < d.diffInfoWidth)
    (hy : y < d.diffInfoHeight) (hmarked : info (y * d.diffInfoWidth + x) = true) :
    ∃ info' width height, Bounded d info' ∧ Grouped d info info' x y width height ∧
      d.mergeBlock y (info, region) x = (region.addRect (d.rectOf x y width height)).map fun r => (info', r) := by
  have hxr : x ≠ d.diffInfoWidth - 1 := by
    rintro rfl
    rw [h.right y hy] at hmarked
    cases hmarked
  have hyb : y ≠ d.diffInfoHeight - 1 := by
    rintro rfl
    rw [h.bottom x hx] at hmarked
    cases hmarked
  have hplace := place_lt hx hy
  have hlast := place_lt (d := d) (x := d.diffInfoWidth - 1) (by omega) hy
  have hfirst : Function.update info (y * d.diffInfoWidth + x) false = erase info (y * d.diffInfoWidth + x) 1 :=
    (mark_zero _ _ _).symm.trans (mark_succ info _ 0 fun _ => false)
  obtain ⟨n, hright, hend, hall⟩ := @mergeRight_spec d
    (Function.update info (y * d.diffInfoWidth + x) false) d.diffInfoWidth (y * d.diffInfoWidth + x + 1) 1
    (y * d.diffInfoWidth + (d.diffInfoWidth - 1)) (by omega) hlast
    (by rw [hfirst]; exact (h.erase _ _).right y hy) (by omega)
  have hrow : erase (Function.update info (y * d.diffInfoWidth + x) false) (y * d.diffInfoWidth + x + 1) n =
      erase info (y * d.diffInfoWidth + x) (1 + n) := by
    rw [Nat.add_comm 1]
    exact mark_succ info _ n fun _ => false
  rw [hrow] at hright
  obtain ⟨m, info', hbelow, hinside, hbounded, hrows, hcells⟩ := @mergeBelow_spec d _ d.diffInfoHeight x y (1 + n) 1
    (h.erase (y * d.diffInfoWidth + x) (1 + n)) (by omega) (by omega) (by omega) (by omega)
  refine ⟨info', 1 + n, 1 + m, hbounded, ⟨by omega, by omega, by omega, by omega, ?_, ?_⟩, ?_⟩
  · intro x' y' hx' hy'
    by_cases hsame : y' = y
    · subst hsame
      by_cases hself : x' = x
      · subst hself
        exact hmarked
      · have hmark := hall (x' - x - 1) (by omega)
        rw [hfirst, show y' * d.diffInfoWidth + x + 1 + (x' - x - 1) = y' * d.diffInfoWidth + x' by omega] at hmark
        exact erase_le hmark
    · have hmark := hrows y' (by omega) (by omega) (x' - x) (by omega)
      rw [show y' * d.diffInfoWidth + x + (x' - x) = y' * d.diffInfoWidth + x' by omega] at hmark
      exact erase_le hmark
  · intro x' y' hx'
    rw [hcells x' y' hx', erase_row (by omega) hx']
    split_ifs <;> first | rfl | omega
  · simp only [mergeBlock, load_ok hplace, Option.bind_eq_bind, Option.bind_some, hmarked, if_true, store_ok hplace,
      hright, hbelow]
    cases region.addRect (d.rectOf x y (1 + n) (1 + m)) <;> rfl

/-- The group and its rectangle have the same points. -/
theorem Grouped.covered {info' : DiffInfo} {x y width height : Nat} (h : Grouped d info info' x y width height)
    (px py : Int) : Covered d info px py ↔ Covered d info' px py ∨ (d.rectOf x y width height).Has px py := by
  have hright := h.right
  have hbottom := h.bottom
  rw [rectOf_has]
  constructor
  · rintro ⟨x', y', hx', hy', hmarked, hin⟩
    by_cases hgroup : (x ≤ x' ∧ x' < x + width) ∧ y ≤ y' ∧ y' < y + height
    · exact .inr ⟨x', y', hgroup.1, hgroup.2, hin⟩
    · refine .inl ⟨x', y', hx', hy', ?_, hin⟩
      rwa [h.left x' y' hx', if_neg hgroup]
  · rintro (⟨x', y', hx', hy', hmarked, hin⟩ | ⟨x', y', hxg, hyg, hin⟩)
    · refine ⟨x', y', hx', hy', ?_, hin⟩
      rw [h.left x' y' hx'] at hmarked
      split at hmarked
      · cases hmarked
      · exact hmarked
    · exact ⟨x', y', by omega, by omega, h.marked x' y' hxg hyg, hin⟩

/-! ## The loops over all blocks -/

/-- The region and the marks that are left have the points of the marks at the start. -/
structure Merging (d : Differ) (start : DiffInfo) (s : DiffInfo × DesktopRegion) : Prop where
  bounded : Bounded d s.1
  wellFormed : WellFormed s.2.rows
  points : ∀ px py, Points s.2.rows px py ∨ Covered d s.1 px py ↔ Covered d start px py

theorem mergeBlock_spec {start : DiffInfo} {s : DiffInfo × DesktopRegion} (h : Merging d start s) {x y : Nat}
    (hx : x < d.diffInfoWidth) (hy : y < d.diffInfoHeight) :
    ∃ s', d.mergeBlock y s x = some s' ∧ Merging d start s' ∧ s'.1 (y * d.diffInfoWidth + x) = false ∧
      ∀ x' y', x' < d.diffInfoWidth → s.1 (y' * d.diffInfoWidth + x') = false →
        s'.1 (y' * d.diffInfoWidth + x') = false := by
  obtain ⟨info, region⟩ := s
  cases hmarked : info (y * d.diffInfoWidth + x) with
  | false =>
    refine ⟨(info, region), ?_, h, hmarked, fun _ _ _ hclear => hclear⟩
    simp [mergeBlock, load_ok (place_lt hx hy), hmarked]
  | true =>
    obtain ⟨info', width, height, hbounded, hgroup, hmerge⟩ :=
      @mergeBlock_marked d info h.bounded region x y hx hy hmarked
    obtain ⟨region', hadd, hwell, hpoints, -⟩ := addRect_spec h.wellFormed (d.rectOf x y width height)
    refine ⟨(info', region'), by rw [hmerge, hadd]; rfl, ⟨hbounded, hwell, fun px py => ?_⟩, ?_, ?_⟩
    · have hbefore : Points region.rows px py ∨ Covered d info px py ↔ Covered d start px py := h.points px py
      show Points region'.rows px py ∨ Covered d info' px py ↔ Covered d start px py
      rw [hpoints, ← hbefore, hgroup.covered px py]
      tauto
    · have hwidth := hgroup.width_pos
      have hheight := hgroup.height_pos
      show info' (y * d.diffInfoWidth + x) = false
      rw [hgroup.left x y hx, if_pos (by omega)]
    · intro x' y' hx' hclear
      show info' (y' * d.diffInfoWidth + x') = false
      rw [hgroup.left x' y' hx']
      split
      · rfl
      · exact hclear

/-- No mark is left in the rows above `y`, and none in that row before `x`. -/
def Done (d : Differ) (y x : Nat) (info : DiffInfo) : Prop :=
  ∀ x' y', x' < d.diffInfoWidth → y' < y ∨ (y' = y ∧ x' < x) → info (y' * d.diffInfoWidth + x') = false

theorem mergeBlocks_spec {start : DiffInfo} (h : Bounded d start) :
    ∃ region, d.mergeBlocks start = some region ∧ WellFormed region.rows ∧
      ∀ px py, Points region.rows px py ↔ Covered d start px py := by
  have hstart : Merging d start (start, DesktopRegion.create) :=
    ⟨h, wellFormed_nil, fun px py => by simp [DesktopRegion.create, Points]⟩
  obtain ⟨s, hs, hmerging, hdone⟩ := foldlM_range
    (f := fun s y => (List.range d.diffInfoWidth).foldlM (d.mergeBlock y) s) (n := d.diffInfoHeight)
    (s := (start, DesktopRegion.create)) (I := fun y s => Merging d start s ∧ Done d y 0 s.1)
    ⟨hstart, fun _ _ _ hlt => by omega⟩ (by
      intro y hy s hI
      obtain ⟨s', hs', hmerging, hdone⟩ := foldlM_range (f := d.mergeBlock y) (n := d.diffInfoWidth) (s := s)
        (I := fun x s => Merging d start s ∧ Done d y x s.1) hI (by
          rintro x hx s ⟨hmerging, hdone⟩
          obtain ⟨s', hs', hmerging', hclear, hkeep⟩ := mergeBlock_spec hmerging hx hy
          refine ⟨s', hs', hmerging', fun x' y' hx' hbefore => ?_⟩
          by_cases hsame : y' = y ∧ x' = x
          · obtain ⟨rfl, rfl⟩ := hsame
            exact hclear
          · exact hkeep x' y' hx' (hdone x' y' hx' (by omega)))
      exact ⟨s', hs', hmerging, fun x' y' hx' hbefore => hdone x' y' hx' (by omega)⟩)
  refine ⟨s.2, by simp [mergeBlocks, hs], hmerging.wellFormed, fun px py => ?_⟩
  rw [← hmerging.points px py]
  constructor
  · exact Or.inl
  · rintro (hp | ⟨x, y, hx, hy, hmarked, -⟩)
    · exact hp
    · rw [hdone x y hx (.inl hy)] at hmarked
      cases hmarked

end Differ
end WebRtc.Desktop
