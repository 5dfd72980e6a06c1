import WebRtc.Desktop.Differ

/-!
# What the differ marks (`desktop_capture/differ.cc`)

Block `(x, y)` is compared from byte `y * 32 * width * bytes_per_pixel + x * 32 * bytes_per_pixel` on, in rows that
are `bytes_per_row` apart (`comparedAt`). The marks are the blocks that differ there; the boundary row and the
boundary column stay clear.
-/

namespace WebRtc.Desktop

/-- The layouts of the frames: four bytes a pixel, and a row that holds its pixels. -/
structure Layout (d : Differ) : Prop where
  width_pos : 0 < d.width
  height_pos : 0 < d.height
  bytesPerPixel : d.bytesPerPixel = kBytesPerPixel
  bytesPerRow : d.width * kBytesPerPixel ≤ d.bytesPerRow

/-- A byte of some rows differs. -/
def Differs (prev curr : Memory) (p rows bytesPerRow widthBytes : Nat) : Prop :=
  ∃ r < rows, ∃ c < widthBytes, prev (p + r * bytesPerRow + c) ≠ curr (p + r * bytesPerRow + c)

instance (prev curr : Memory) (p rows bytesPerRow widthBytes : Nat) :
    Decidable (Differs prev curr p rows bytesPerRow widthBytes) :=
  inferInstanceAs (Decidable (∃ r < rows, ∃ c < widthBytes, _))

namespace Differ

variable {d : Differ} {prev curr : Memory}

/-- The pixels of a block on the screen. -/
def blockWidth (d : Differ) (x : Nat) : Nat := min kBlockSize (d.width - x * kBlockSize)
def blockHeight (d : Differ) (y : Nat) : Nat := min kBlockSize (d.height - y * kBlockSize)

/-- Where the code compares a block. -/
def comparedAt (d : Differ) (x y : Nat) : Nat :=
  y * (d.width * d.bytesPerPixel * kBlockSize) + x * (d.bytesPerPixel * kBlockSize)

def marked (d : Differ) (prev curr : Memory) (x y : Nat) : Bool :=
  decide (Differs prev curr (d.comparedAt x y) (d.blockHeight y) d.bytesPerRow (d.blockWidth x * kBytesPerPixel))

/-! ## Comparing blocks -/

theorem read_eq_iff {p n : Nat} : prev.read p n = curr.read p n ↔ ∀ c < n, prev (p + c) = curr (p + c) := by
  simp [Memory.read]

theorem sameRows_eq {widthBytes rows p : Nat} (hroom : ∀ r < rows, p + r * d.bytesPerRow + widthBytes ≤ d.frameSize) :
    d.sameRows prev curr widthBytes rows p = some (!decide (Differs prev curr p rows d.bytesPerRow widthBytes)) := by
  induction rows generalizing p with
  | zero => simp [sameRows, Differs]
  | succ rows ih =>
    have hfirst := hroom 0 (Nat.succ_pos rows)
    rw [Nat.zero_mul, Nat.add_zero] at hfirst
    have hrest : ∀ r < rows, p + d.bytesPerRow + r * d.bytesPerRow + widthBytes ≤ d.frameSize := by
      intro r hr
      have := hroom (r + 1) (by omega)
      rw [Nat.add_mul, Nat.one_mul] at this
      omega
    have hsplit : Differs prev curr p (rows + 1) d.bytesPerRow widthBytes ↔
        ¬(prev.read p widthBytes = curr.read p widthBytes) ∨
          Differs prev curr (p + d.bytesPerRow) rows d.bytesPerRow widthBytes := by
      rw [read_eq_iff]
      constructor
      · rintro ⟨r, hr, c, hc, hne⟩
        cases r with
        | zero =>
          refine .inl fun hall => hne ?_
          simpa using hall c hc
        | succ r =>
          refine .inr ⟨r, by omega, c, hc, ?_⟩
          rwa [Nat.add_mul, Nat.one_mul, Nat.add_comm (r * _), ← Nat.add_assoc] at hne
      · rintro (hne | ⟨r, hr, c, hc, hne⟩)
        · push Not at hne
          obtain ⟨c, hc, hne⟩ := hne
          exact ⟨0, Nat.succ_pos rows, c, hc, by simpa using hne⟩
        · refine ⟨r + 1, by omega, c, hc, ?_⟩
          rwa [Nat.add_mul, Nat.one_mul, Nat.add_comm (r * _), ← Nat.add_assoc]
    simp only [sameRows, sameBytes, hfirst, if_true, Option.bind_eq_bind, Option.bind_some]
    by_cases hsame : prev.read p widthBytes = curr.read p widthBytes
    · rw [if_pos (by simpa using hsame), ih hrest]
      simp [hsplit, hsame]
    · rw [if_neg (by simpa using hsame)]
      simp [hsplit, hsame]

theorem blockWidth_pos {x : Nat} (hx : x + 1 < d.diffInfoWidth) : 0 < d.blockWidth x ∧ x * kBlockSize < d.width := by
  simp only [diffInfoWidth, blockWidth, kBlockSize] at hx ⊢
  omega

theorem blockHeight_pos {y : Nat} (hy : y + 1 < d.diffInfoHeight) :
    0 < d.blockHeight y ∧ y * kBlockSize < d.height := by
  simp only [diffInfoHeight, blockHeight, kBlockSize] at hy ⊢
  omega

/-- Also where it is not the one of the block, the place lies in the frame. -/
theorem compared_room (h : Layout d) {x y r : Nat} (hx : x + 1 < d.diffInfoWidth) (hr : r < d.blockHeight y) :
    d.comparedAt x y + r * d.bytesPerRow + d.blockWidth x * kBytesPerPixel ≤ d.frameSize := by
  have hwidth : x * kBlockSize + d.blockWidth x ≤ d.width := by
    have := (blockWidth_pos hx).2
    simp only [blockWidth]
    omega
  have hrow : y * kBlockSize + r ≤ d.height - 1 := by
    simp only [blockHeight] at hr
    omega
  have hstart : y * (d.width * kBytesPerPixel * kBlockSize) ≤ y * kBlockSize * d.bytesPerRow := by
    calc y * (d.width * kBytesPerPixel * kBlockSize) = y * kBlockSize * (d.width * kBytesPerPixel) := by
          rw [Nat.mul_comm (d.width * kBytesPerPixel), Nat.mul_assoc]
      _ ≤ y * kBlockSize * d.bytesPerRow := Nat.mul_le_mul_left _ h.bytesPerRow
  have hrows : (y * kBlockSize + r) * d.bytesPerRow ≤ (d.height - 1) * d.bytesPerRow := Nat.mul_le_mul_right _ hrow
  rw [Nat.add_mul] at hrows
  simp only [comparedAt, frameSize, h.bytesPerPixel, kBytesPerPixel, kBlockSize] at *
  omega

/-! ## Marking -/

/-- `n` marks from `i` on. -/
def mark (info : DiffInfo) (i n : Nat) (c : Nat → Bool) : DiffInfo :=
  fun j => if i ≤ j ∧ j < i + n then c (j - i) else info j

theorem mark_zero (info : DiffInfo) (i : Nat) (c : Nat → Bool) : mark info i 0 c = info := by
  funext j
  exact if_neg (by omega)

/-- One mark and those behind it. -/
theorem mark_succ (info : DiffInfo) (i n : Nat) (c : Nat → Bool) :
    mark (Function.update info i (c 0)) (i + 1) n (fun k => c (k + 1)) = mark info i (n + 1) c := by
  funext j
  simp only [mark]
  rcases Nat.lt_trichotomy j i with hj | hj | hj
  · rw [if_neg (by omega), if_neg (by omega), Function.update_of_ne (by omega)]
  · subst hj
    rw [if_neg (by omega), if_pos (by omega), Function.update_self, Nat.sub_self]
  · by_cases hin : j < i + 1 + n
    · rw [if_pos (by omega), if_pos (by omega), show j - (i + 1) + 1 = j - i by omega]
    · rw [if_neg (by omega), if_neg (by omega), Function.update_of_ne (by omega)]

/-- Marks and one more behind them. -/
theorem mark_snoc (info : DiffInfo) (i n : Nat) (c : Nat → Bool) :
    Function.update (mark info i n c) (i + n) (c n) = mark info i (n + 1) c := by
  funext j
  by_cases hj : j = i + n
  · subst hj
    rw [Function.update_self, mark, if_pos (by omega), Nat.add_sub_cancel_left]
  · rw [Function.update_of_ne hj, mark, mark]
    by_cases hin : i ≤ j ∧ j < i + n
    · rw [if_pos hin, if_pos (by omega)]
    · rw [if_neg hin, if_neg (by omega)]

theorem store_ok {info : DiffInfo} {i : Nat} (hi : i < d.diffInfoSize) (value : Bool) :
    d.store info i value = some (Function.update info i value) := if_pos hi

theorem markBlocks_eq {changed : Nat → Option Bool} {n block i : Nat} {info : DiffInfo} {c : Nat → Bool}
    (hchanged : ∀ k < n, changed (block + k * (d.bytesPerPixel * kBlockSize)) = some (c k))
    (hroom : i + n ≤ d.diffInfoSize) :
    d.markBlocks changed n block i info =
      some (block + n * (d.bytesPerPixel * kBlockSize), i + n, mark info i n c) := by
  induction n generalizing block i info c with
  | zero => simp [markBlocks, mark_zero]
  | succ n ih =>
    have hfirst := hchanged 0 (Nat.succ_pos n)
    rw [Nat.zero_mul, Nat.add_zero] at hfirst
    have hstep : ∀ k, block + d.bytesPerPixel * kBlockSize + k * (d.bytesPerPixel * kBlockSize) =
        block + (k + 1) * (d.bytesPerPixel * kBlockSize) := by
      intro k
      rw [Nat.add_mul, Nat.one_mul]
      omega
    have hrest := @ih (block + d.bytesPerPixel * kBlockSize) (i + 1) (Function.update info i (c 0))
      (fun k => c (k + 1)) (fun k hk => by rw [hstep]; exact hchanged (k + 1) (by omega)) (by omega)
    simp only [markBlocks, hfirst, Option.bind_eq_bind, Option.bind_some,
      store_ok (show i < d.diffInfoSize by omega), hrest]
    rw [hstep, mark_succ, show i + 1 + n = i + (n + 1) by omega]

/-- The columns without the boundary. -/
theorem diffInfoWidth_eq (d : Differ) : d.diffInfoWidth =
    d.width / kBlockSize + (if d.width - d.width / kBlockSize * kBlockSize ≠ 0 then 1 else 0) + 1 := by
  by_cases h : d.width - d.width / kBlockSize * kBlockSize = 0
  · rw [if_neg (not_not.2 h)]
    simp only [diffInfoWidth, kBlockSize] at h ⊢
    omega
  · rw [if_pos h]
    simp only [diffInfoWidth, kBlockSize] at h ⊢
    omega

theorem diffInfoHeight_eq (d : Differ) : d.diffInfoHeight =
    d.height / kBlockSize + (if d.height - d.height / kBlockSize * kBlockSize ≠ 0 then 1 else 0) + 1 := by
  by_cases h : d.height - d.height / kBlockSize * kBlockSize = 0
  · rw [if_neg (not_not.2 h)]
    simp only [diffInfoHeight, kBlockSize] at h ⊢
    omega
  · rw [if_pos h]
    simp only [diffInfoHeight, kBlockSize] at h ⊢
    omega

theorem markRow_eq {changed changedLast : Nat → Option Bool} {rowStart i : Nat} {info : DiffInfo} {c : Nat → Bool}
    (hchanged : ∀ x < d.width / kBlockSize, changed (rowStart + x * (d.bytesPerPixel * kBlockSize)) = some (c x))
    (hlast : d.width - d.width / kBlockSize * kBlockSize ≠ 0 →
      changedLast (rowStart + d.width / kBlockSize * (d.bytesPerPixel * kBlockSize)) = some (c (d.width / kBlockSize)))
    (hroom : i + (d.diffInfoWidth - 1) ≤ d.diffInfoSize) :
    d.markRow changed changedLast rowStart i info = some (mark info i (d.diffInfoWidth - 1) c) := by
  rw [diffInfoWidth_eq] at hroom ⊢
  simp only [markRow, Option.bind_eq_bind]
  by_cases hcut : d.width - d.width / kBlockSize * kBlockSize ≠ 0
  · simp only [hcut, ne_eq, not_false_iff, if_true] at hroom ⊢
    rw [markBlocks_eq hchanged (by omega)]
    simp only [Option.bind_some, hlast hcut, store_ok (show i + d.width / kBlockSize < d.diffInfoSize by omega),
      mark_snoc, Nat.add_sub_cancel]
  · simp only [hcut, if_false] at hroom ⊢
    rw [markBlocks_eq hchanged (by omega)]
    simp

/-- The place of a mark, from its row and its column. -/
theorem place_iff {W y n j : Nat} (hn : n < W) : y * W ≤ j ∧ j < y * W + n ↔ j / W = y ∧ j % W < n := by
  have hW : 0 < W := by omega
  have hj := Nat.div_add_mod j W
  have hlt := Nat.mod_lt j hW
  rw [Nat.mul_comm] at hj
  constructor
  · rintro ⟨hlo, hhi⟩
    have hq : j / W = y := by
      rw [Nat.div_eq_iff hW]
      constructor
      · exact hlo
      · omega
    rw [hq] at hj
    exact ⟨hq, by omega⟩
  · rintro ⟨rfl, hmod⟩
    omega

/-- The marks of the rows from `y` on, `n` of them. -/
def markedRows (d : Differ) (info : DiffInfo) (y n : Nat) (c : Nat → Nat → Bool) : DiffInfo := fun j =>
  if (y ≤ j / d.diffInfoWidth ∧ j / d.diffInfoWidth < y + n) ∧ j % d.diffInfoWidth < d.diffInfoWidth - 1 then
    c (j % d.diffInfoWidth) (j / d.diffInfoWidth) else info j

theorem mark_row (info : DiffInfo) (y : Nat) (c : Nat → Nat → Bool) :
    mark info (y * d.diffInfoWidth) (d.diffInfoWidth - 1) (fun x => c x y) = d.markedRows info y 1 c := by
  have hW : d.diffInfoWidth - 1 < d.diffInfoWidth := Nat.sub_lt (Nat.succ_pos _) (Nat.succ_pos _)
  funext j
  simp only [mark, markedRows, place_iff hW]
  by_cases hin : j / d.diffInfoWidth = y ∧ j % d.diffInfoWidth < d.diffInfoWidth - 1
  · have hsub : j - y * d.diffInfoWidth = j % d.diffInfoWidth := by
      rw [← hin.1, Nat.mul_comm, Nat.mod_def]
    rw [if_pos hin, if_pos (by omega), hsub, hin.1]
  · rw [if_neg hin, if_neg (by omega)]

theorem markedRows_succ (info : DiffInfo) (y n : Nat) (c : Nat → Nat → Bool) :
    d.markedRows (d.markedRows info y 1 c) (y + 1) n c = d.markedRows info y (n + 1) c := by
  funext j
  simp only [markedRows]
  split_ifs <;> first | rfl | omega

theorem markedRows_snoc (info : DiffInfo) (y n : Nat) (c : Nat → Nat → Bool) :
    d.markedRows (d.markedRows info y n c) (y + n) 1 c = d.markedRows info y (n + 1) c := by
  funext j
  simp only [markedRows]
  split_ifs <;> first | rfl | omega

theorem markRows_eq {changed changedLast : Nat → Option Bool} {n y : Nat} {info : DiffInfo} {c : Nat → Nat → Bool}
    (hrow : ∀ y' < y + n, ∀ info, d.markRow changed changedLast (y' * (d.width * d.bytesPerPixel * kBlockSize))
      (y' * d.diffInfoWidth) info = some (d.markedRows info y' 1 c)) :
    d.markRows changed changedLast n (y * (d.width * d.bytesPerPixel * kBlockSize)) (y * d.diffInfoWidth) info =
      some ((y + n) * (d.width * d.bytesPerPixel * kBlockSize), (y + n) * d.diffInfoWidth,
        d.markedRows info y n c) := by
  induction n generalizing y info with
  | zero =>
    have hnone : d.markedRows info y 0 c = info := by
      funext j
      exact if_neg (by omega)
    simp [markRows, hnone]
  | succ n ih =>
    have hrest := @ih (y + 1) (d.markedRows info y 1 c) (fun y' hy' => hrow y' (by omega))
    rw [Nat.add_mul y 1, Nat.add_mul y 1, Nat.one_mul, Nat.one_mul] at hrest
    simp only [markRows, hrow y (by omega), Option.bind_eq_bind, Option.bind_some, hrest, markedRows_succ]
    rw [show y + 1 + n = y + (n + 1) by omega]

theorem compare_eq (h : Layout d) {x y : Nat} (hx : x + 1 < d.diffInfoWidth) :
    (d.sameRows prev curr (d.blockWidth x * kBytesPerPixel) (d.blockHeight y) (d.comparedAt x y)).map not =
      some (d.marked prev curr x y) := by
  rw [sameRows_eq fun r hr => compared_room h hx hr, Option.map_some, Bool.not_not]
  rfl

/-- A row of blocks of one height. -/
theorem markRow_marked (h : Layout d) {changed changedLast : Nat → Option Bool} {y : Nat} {info : DiffInfo}
    (hy : y + 1 < d.diffInfoHeight)
    (hchanged : ∀ p, changed p = (d.sameRows prev curr (kBlockSize * kBytesPerPixel) (d.blockHeight y) p).map not)
    (hlast : ∀ p, changedLast p = (d.sameRows prev curr
      ((d.width - d.width / kBlockSize * kBlockSize) * kBytesPerPixel) (d.blockHeight y) p).map not) :
    d.markRow changed changedLast (y * (d.width * d.bytesPerPixel * kBlockSize)) (y * d.diffInfoWidth) info =
      some (d.markedRows info y 1 (d.marked prev curr)) := by
  have hW := diffInfoWidth_eq d
  rw [← mark_row]
  refine markRow_eq (fun x hx => ?_) (fun hcut => ?_) ?_
  · have hfull : d.blockWidth x = kBlockSize := by
      simp only [blockWidth, kBlockSize] at hx ⊢
      omega
    rw [hchanged, ← compare_eq h (by omega), hfull]
    rfl
  · rw [if_pos hcut] at hW
    have hpart : d.blockWidth (d.width / kBlockSize) = d.width - d.width / kBlockSize * kBlockSize := by
      simp only [blockWidth, kBlockSize]
      omega
    rw [hlast, ← compare_eq h (by omega), hpart]
    rfl
  · have hle : (y + 1) * d.diffInfoWidth ≤ d.diffInfoHeight * d.diffInfoWidth := Nat.mul_le_mul_right _ (by omega)
    rw [diffInfoSize, Nat.mul_comm d.diffInfoWidth]
    rw [Nat.add_mul, Nat.one_mul] at hle
    omega

theorem markDirtyBlocks_eq (h : Layout d) : d.markDirtyBlocks prev curr =
    some (d.markedRows (fun _ => false) 0 (d.diffInfoHeight - 1) (d.marked prev curr)) := by
  have hH := diffInfoHeight_eq d
  have hbpp := h.bytesPerPixel
  have hfull : ∀ y < d.height / kBlockSize, d.blockHeight y = kBlockSize := by
    intro y hy
    simp only [blockHeight, kBlockSize] at hy ⊢
    omega
  have hrows := @markRows_eq d (d.blockDifference prev curr)
    (fun block => (d.partialBlocksEqual prev curr block
      (d.width - d.width / kBlockSize * kBlockSize) kBlockSize).map not)
    (d.height / kBlockSize) 0 (fun _ => false) (d.marked prev curr)
    (fun y hy info => markRow_marked h (by omega)
      (fun p => by
        rw [hfull y (by omega), blockDifference]
        cases d.sameRows prev curr (kBlockSize * kBytesPerPixel) kBlockSize p <;> rfl)
      (fun p => by rw [hfull y (by omega), partialBlocksEqual, hbpp]))
  rw [Nat.zero_mul, Nat.zero_mul, Nat.zero_add] at hrows
  simp only [markDirtyBlocks, hrows, Option.bind_eq_bind, Option.bind_some]
  by_cases hcut : d.height - d.height / kBlockSize * kBlockSize ≠ 0
  · rw [if_pos hcut] at hH ⊢
    have hpart : d.blockHeight (d.height / kBlockSize) = d.height - d.height / kBlockSize * kBlockSize := by
      simp only [blockHeight, kBlockSize]
      omega
    rw [markRow_marked h (by omega) (fun p => by rw [hpart, partialBlocksEqual, hbpp])
      (fun p => by rw [hpart, partialBlocksEqual, hbpp])]
    have hsnoc := markedRows_snoc (d := d) (fun _ => false) 0 (d.height / kBlockSize) (d.marked prev curr)
    rw [Nat.zero_add] at hsnoc
    rw [hsnoc, hH, Nat.add_sub_cancel]
  · rw [if_neg hcut] at hH ⊢
    rw [hH, Nat.add_zero, Nat.add_sub_cancel]
    rfl

end Differ
end WebRtc.Desktop
