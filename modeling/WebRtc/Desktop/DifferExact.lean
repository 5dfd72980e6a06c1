import WebRtc.Desktop.DifferMerge

/-!
# When the differ reports the changed blocks (`desktop_capture/differ.cc`)

The region is the union of the blocks that were marked. A block of the first block row is compared where it is. From
one block row to the next the code goes on by `width * bytes_per_pixel * 32` bytes and not by `bytes_per_row * 32`,
so where rows are padded a lower block is marked for bytes that are not its own.
-/

namespace WebRtc.Desktop.Differ

variable {d : Differ} {prev curr : Memory}

def PixelChanged (d : Differ) (prev curr : Memory) (px py : Nat) : Prop :=
  ∃ b < d.bytesPerPixel, prev (py * d.bytesPerRow + px * d.bytesPerPixel + b) ≠
    curr (py * d.bytesPerRow + px * d.bytesPerPixel + b)

/-- The block contains a changed pixel. -/
def BlockChanged (d : Differ) (prev curr : Memory) (x y : Nat) : Prop :=
  ∃ px py : Nat, d.InBlock x y px py ∧ d.PixelChanged prev curr px py

/-- `CalcDirtyRegion` ends, stays in range and reports the changed blocks, clipped to the screen. -/
def ReportsChanged (d : Differ) (prev curr : Memory) : Prop :=
  ∃ region, d.calcDirtyRegion prev curr = some region ∧
    ∀ px py, Points region.rows px py ↔ ∃ x y, d.BlockChanged prev curr x y ∧ d.InBlock x y px py

/-- The bytes that the code compares for a block. -/
def ComparedDiffer (d : Differ) (prev curr : Memory) (x y : Nat) : Prop :=
  Differs prev curr (d.comparedAt x y) (d.blockHeight y) d.bytesPerRow (d.blockWidth x * kBytesPerPixel)

/-! ## Blocks -/

theorem InBlock.in_grid {x y : Nat} {px py : Int} (h : d.InBlock x y px py) :
    x + 1 < d.diffInfoWidth ∧ y + 1 < d.diffInfoHeight := by
  obtain ⟨⟨hlx, -, hx⟩, hly, -, hy⟩ := h
  simp only [diffInfoWidth, diffInfoHeight, kBlockSize] at *
  omega

/-- A point lies in one block. -/
theorem InBlock.unique {x y x' y' : Nat} {px py : Int} (h : d.InBlock x y px py) (h' : d.InBlock x' y' px py) :
    x = x' ∧ y = y' := by
  simp only [InBlock, kBlockSize] at h h'
  omega

theorem inBlock_corner {x y : Nat} (hx : x + 1 < d.diffInfoWidth) (hy : y + 1 < d.diffInfoHeight) :
    d.InBlock x y (x * kBlockSize : Nat) (y * kBlockSize : Nat) := by
  have hwidth := (blockWidth_pos hx).2
  have hheight := (blockHeight_pos hy).2
  simp only [InBlock, kBlockSize] at *
  omega

/-- The pixels of a block are its rows, `bytes_per_row` apart. -/
theorem blockChanged_iff (h : Layout d) {x y : Nat} : d.BlockChanged prev curr x y ↔
    Differs prev curr (y * kBlockSize * d.bytesPerRow + x * kBlockSize * kBytesPerPixel) (d.blockHeight y)
      d.bytesPerRow (d.blockWidth x * kBytesPerPixel) := by
  have hplace : ∀ r q b, y * kBlockSize * d.bytesPerRow + x * kBlockSize * kBytesPerPixel + r * d.bytesPerRow +
      (q * kBytesPerPixel + b) =
        (y * kBlockSize + r) * d.bytesPerRow + (x * kBlockSize + q) * kBytesPerPixel + b := by
    intro r q b
    rw [Nat.add_mul, Nat.add_mul]
    omega
  constructor
  · rintro ⟨px, py, hin, b, hb, hne⟩
    rw [h.bytesPerPixel] at hb hne
    have hpx : px = x * kBlockSize + (px - x * kBlockSize) := by
      have := hin.1.1
      omega
    have hpy : py = y * kBlockSize + (py - y * kBlockSize) := by
      have := hin.2.1
      omega
    refine ⟨py - y * kBlockSize, ?_, (px - x * kBlockSize) * kBytesPerPixel + b, ?_, ?_⟩
    · simp only [InBlock, blockHeight, kBlockSize] at hin ⊢
      omega
    · simp only [InBlock, blockWidth, kBlockSize, kBytesPerPixel] at hin hb ⊢
      omega
    · rwa [hplace, ← hpx, ← hpy]
  · rintro ⟨r, hr, c, hc, hne⟩
    refine ⟨x * kBlockSize + c / kBytesPerPixel, y * kBlockSize + r, ?_, c % kBytesPerPixel, ?_, ?_⟩
    · simp only [InBlock, blockHeight, blockWidth, kBlockSize, kBytesPerPixel] at hr hc ⊢
      omega
    · rw [h.bytesPerPixel]
      exact Nat.mod_lt c (by decide)
    · rwa [h.bytesPerPixel, ← hplace, Nat.div_add_mod']

/-- Without padding, and in the first block row, a block is compared where it is. -/
theorem comparedDiffer_iff (h : Layout d) {x y : Nat} (hy : d.bytesPerRow = d.width * kBytesPerPixel ∨ y = 0) :
    d.ComparedDiffer prev curr x y ↔ d.BlockChanged prev curr x y := by
  have hplace : d.comparedAt x y = y * kBlockSize * d.bytesPerRow + x * kBlockSize * kBytesPerPixel := by
    rw [comparedAt, h.bytesPerPixel]
    rcases hy with hrow | rfl
    · rw [hrow, Nat.mul_comm (d.width * kBytesPerPixel), ← Nat.mul_assoc, Nat.mul_comm kBytesPerPixel,
        ← Nat.mul_assoc x]
    · rw [Nat.zero_mul, Nat.zero_mul, Nat.zero_mul, Nat.mul_comm kBytesPerPixel, ← Nat.mul_assoc]
  rw [blockChanged_iff h, ComparedDiffer, hplace]

/-! ## The region -/

theorem markedRows_at {info : DiffInfo} {n x y : Nat} (c : Nat → Nat → Bool) (hx : x < d.diffInfoWidth) :
    d.markedRows info 0 n c (y * d.diffInfoWidth + x) =
      if y < n ∧ x < d.diffInfoWidth - 1 then c x y else info (y * d.diffInfoWidth + x) := by
  have hdiv : (y * d.diffInfoWidth + x) / d.diffInfoWidth = y := by
    rw [Nat.mul_comm, Nat.mul_add_div (by omega), Nat.div_eq_of_lt hx, Nat.add_zero]
  have hmod : (y * d.diffInfoWidth + x) % d.diffInfoWidth = x := by
    rw [Nat.mul_comm, Nat.mul_add_mod, Nat.mod_eq_of_lt hx]
  simp only [markedRows, hdiv, hmod, Nat.zero_le, true_and, Nat.zero_add]

/-- Every layout: all accesses are in range, the loops end, and the region is the union of the marked blocks. -/
theorem calcDirtyRegion_spec (h : Layout d) (prev curr : Memory) :
    ∃ region, d.calcDirtyRegion prev curr = some region ∧ WellFormed region.rows ∧
      ∀ px py, Points region.rows px py ↔ ∃ x y, d.ComparedDiffer prev curr x y ∧ d.InBlock x y px py := by
  have hat := fun x y (hx : x < d.diffInfoWidth) =>
    @markedRows_at d (fun _ => false) (d.diffInfoHeight - 1) x y (d.marked prev curr) hx
  have hbounded : Bounded d (d.markedRows (fun _ => false) 0 (d.diffInfoHeight - 1) (d.marked prev curr)) := by
    constructor
    · intro y _
      rw [hat _ _ (Nat.sub_lt (Nat.succ_pos _) Nat.one_pos), if_neg (by omega)]
    · intro x hx
      rw [hat _ _ hx, if_neg (by omega)]
  obtain ⟨region, hmerge, hwell, hpoints⟩ := mergeBlocks_spec hbounded
  refine ⟨region, by simp [calcDirtyRegion, markDirtyBlocks_eq h, hmerge], hwell, fun px py => ?_⟩
  rw [hpoints]
  constructor
  · rintro ⟨x, y, hx, -, hmarked, hin⟩
    have hgrid := hin.in_grid
    rw [hat x y hx, if_pos (by omega), marked, decide_eq_true_iff] at hmarked
    exact ⟨x, y, hmarked, hin⟩
  · rintro ⟨x, y, hdiffer, hin⟩
    have hgrid := hin.in_grid
    refine ⟨x, y, by omega, by omega, ?_, hin⟩
    rw [hat x y (by omega), if_pos (by omega)]
    exact decide_eq_true hdiffer

/-- Right exactly where each block below the first block row is marked for a change of its own. -/
theorem calcDirtyRegion_reports_iff (h : Layout d) : d.ReportsChanged prev curr ↔
    d.bytesPerRow = d.width * kBytesPerPixel ∨ d.height ≤ kBlockSize ∨
      ∀ x y, x + 1 < d.diffInfoWidth → 0 < y → y + 1 < d.diffInfoHeight →
        (d.ComparedDiffer prev curr x y ↔ d.BlockChanged prev curr x y) := by
  obtain ⟨region, hregion, -, hpoints⟩ := calcDirtyRegion_spec h prev curr
  constructor
  · rintro ⟨region', hregion', hchanged⟩
    obtain rfl : region = region' := Option.some.inj (hregion.symm.trans hregion')
    refine .inr (.inr fun x y hx _ hy => ?_)
    -- The corner of the block lies in no other block.
    have hcorner := inBlock_corner hx hy
    have hboth := (hpoints (x * kBlockSize : Nat) (y * kBlockSize : Nat)).symm.trans (hchanged _ _)
    constructor
    · intro hdiffer
      obtain ⟨x', y', hchange, hin⟩ := hboth.1 ⟨x, y, hdiffer, hcorner⟩
      obtain ⟨rfl, rfl⟩ := hcorner.unique hin
      exact hchange
    · intro hchange
      obtain ⟨x', y', hdiffer, hin⟩ := hboth.2 ⟨x, y, hchange, hcorner⟩
      obtain ⟨rfl, rfl⟩ := hcorner.unique hin
      exact hdiffer
  · intro hcond
    have hagree : ∀ x y, x + 1 < d.diffInfoWidth → y + 1 < d.diffInfoHeight →
        (d.ComparedDiffer prev curr x y ↔ d.BlockChanged prev curr x y) := by
      intro x y hx hy
      rcases Nat.eq_zero_or_pos y with hzero | hpos
      · exact comparedDiffer_iff h (.inr hzero)
      · rcases hcond with hrow | hlow | hall
        · exact comparedDiffer_iff h (.inl hrow)
        · simp only [diffInfoHeight, kBlockSize] at hlow hy
          omega
        · exact hall x y hx hpos hy
    refine ⟨region, hregion, fun px py => ?_⟩
    rw [hpoints]
    constructor
    · rintro ⟨x, y, hdiffer, hin⟩
      exact ⟨x, y, (hagree x y hin.in_grid.1 hin.in_grid.2).1 hdiffer, hin⟩
    · rintro ⟨x, y, hchange, hin⟩
      exact ⟨x, y, (hagree x y hin.in_grid.1 hin.in_grid.2).2 hchange, hin⟩

/-- Rows of one pixel in eight bytes. -/
def padded (height : Nat) : Differ := ⟨1, height, kBytesPerPixel, 8⟩

theorem padded_layout {height : Nat} (hpos : 0 < height) : Layout (padded height) :=
  ⟨Nat.one_pos, hpos, rfl, by simp [padded, kBytesPerPixel]⟩

theorem calcDirtyRegion_reports_padded : (padded 32).ReportsChanged (fun _ => 0) (Function.update (fun _ => 0) 248 1) :=
  (calcDirtyRegion_reports_iff (padded_layout (by decide))).2 (.inr (.inl (by decide)))

/-- The only pixel of the second block row changes, and nothing is reported. -/
theorem calcDirtyRegion_misses : ¬∀ d prev curr, Layout d → d.ReportsChanged prev curr := by
  intro hall
  have hlayout : Layout (padded 33) := padded_layout (by decide)
  obtain ⟨region, hregion, -, hpoints⟩ :=
    calcDirtyRegion_spec hlayout (fun _ => 0) (Function.update (fun _ => 0) 256 1)
  obtain ⟨region', hregion', hchanged⟩ := hall (padded 33) (fun _ => 0) (Function.update (fun _ => 0) 256 1) hlayout
  obtain rfl : region = region' := Option.some.inj (hregion.symm.trans hregion')
  have hin : (padded 33).InBlock 0 1 (0 : Nat) (32 : Nat) := by
    simp [InBlock, padded, kBlockSize]
  have hreported := (hchanged (0 : Nat) (32 : Nat)).2 ⟨0, 1, ⟨0, 32, hin, 0, by decide, by decide⟩, hin⟩
  obtain ⟨x, y, hdiffer, hin'⟩ := (hpoints _ _).1 hreported
  obtain ⟨rfl, rfl⟩ := hin.unique hin'
  -- It is compared at byte 128, and lies at byte 256.
  obtain ⟨r, hr, c, hc, hne⟩ := hdiffer
  have hr' : r < 1 := hr
  have hc' : c < 4 := hc
  have hplace : (padded 33).comparedAt 0 1 + r * (padded 33).bytesPerRow + c = 128 + r * 8 + c := rfl
  rw [hplace, Function.update_of_ne (by omega)] at hne
  exact hne rfl

end WebRtc.Desktop.Differ
