import WebRtc.Jitter.Fragments
import Mathlib.Algebra.BigOperators.Group.Finset.Piecewise

/-!
# When the fragments of a VP8 frame are its partitions

A partition is written to the entry of its number, in the order in which the partitions are found, so the fragments
are in order only if the numbers are (`Sortable`). Entries without data are filled in afterwards and never overlap.
-/

namespace WebRtc.Jitter

open Cut

/-- What is expected of the fragments. -/
structure Described (frameBufferLength : Nat) (b : Building) : Prop where
  inside : ∀ i < b.fragmentationVectorSize, b.fragmentationOffset i + b.fragmentationLength i ≤ frameBufferLength
  ordered : ∀ i j, i < j → j < b.fragmentationVectorSize →
    b.fragmentationOffset i + b.fragmentationLength i ≤ b.fragmentationOffset j
  total : b.newLength = ∑ i ∈ Finset.range b.fragmentationVectorSize, b.fragmentationLength i
  asserted : b.asserted = true

/-- A number is used for one partition with data only, partitions with data are found in the order of their numbers,
and no partition begins at the end of the frame. -/
structure Sortable (packets : List Vp8Packet) : Prop where
  data : ∀ piece ∈ pieces packets, 0 < piece.size + sizeOf piece.behind
  order : (pieces packets).Pairwise fun piece later => 0 < piece.size →
    piece.partitionId ≠ later.partitionId ∧ (0 < later.size → piece.partitionId < later.partitionId)

/-! ## The loop -/

def addPiece (frameBufferLength : Nat) (b : Building) (piece : Piece) : Building :=
  addFragment frameBufferLength b piece.partitionId piece.offset piece.size

/-- Of the pieces with data only the last one of a number. -/
def OncePerNumber (pieces : List Piece) : Prop :=
  pieces.Pairwise fun piece later => 0 < piece.size → piece.partitionId ≠ later.partitionId

section Loop
variable {frameBufferLength : Nat} {b start : Building} {packets : List Vp8Packet} {pieces : List Piece}

theorem buildLoop_pieces {a c : Nat} (hlaid : Laid a packets c) (hcodec : ∀ packet ∈ packets, packet.codec = .vp8) :
    buildLoop frameBufferLength b packets = (piecesFrom packets).foldl (addPiece frameBufferLength) b := by
  induction packets using piecesFrom.induct generalizing a b with
  | case1 =>
    unfold buildLoop piecesFrom
    rfl
  | case2 first rest ih =>
    have happend := takePartition_append first.data.partitionId first rest
    have hfirst : first.codec = .vp8 := hcodec first List.mem_cons_self
    rw [buildLoop, piecesFrom, List.foldl_cons, findPartitionEnd_eq]
    dsimp only
    generalize takePartition first.data.partitionId first rest = taken at ih happend ⊢
    have hsplit : Laid a ((first :: taken.1) ++ taken.2) c := by rwa [List.cons_append, happend]
    obtain ⟨d, hpiece, hbehind⟩ := hsplit.split
    obtain ⟨e, -, hnext⟩ := Laid.next hbehind
    have hoffset : first.data.dataPtr = a := hpiece.of_cons.1
    have hsum : a + sizeOf (first :: taken.1) = d := hpiece.sum
    have hlast := Laid.last hpiece
    have hlength : (taken.1.getLastD first).data.dataPtr +
      (taken.1.getLastD first).data.sizeBytes - first.data.dataPtr =
        sizeOf (first :: taken.1) := by omega
    have hchecked : { b with asserted := b.asserted && decide (first.codec = .vp8) } = b := by simp [hfirst]
    have hrest : ∀ packet ∈ findNextPartitionBeginning taken.2, packet.codec = .vp8 := by
      intro packet hpacket
      have hbehind : packet ∈ taken.2 := (List.dropWhile_sublist _).subset hpacket
      refine hcodec packet (List.mem_cons_of_mem _ ?_)
      rw [← happend]
      exact List.mem_append_right _ hbehind
    rw [hchecked, hlength, ih hnext hrest]
    rfl

/-- The table after the loop. -/
structure Table (frameBufferLength : Nat) (pieces : List Piece) (b : Building) : Prop where
  asserted : b.asserted = true ↔ ∀ piece ∈ pieces, piece.offset < frameBufferLength ∧ piece.size ≤ frameBufferLength
  below : ∀ piece ∈ pieces, piece.partitionId < b.fragmentationVectorSize
  room : b.fragmentationVectorSize ≤ kMaxVP8Partitions
  beyond : ∀ i, b.fragmentationVectorSize ≤ i → b.fragmentationLength i = 0
  found : ∀ i, 0 < b.fragmentationLength i → ∃ piece ∈ pieces, piece.partitionId = i ∧
    b.fragmentationLength i = piece.size ∧ b.fragmentationOffset i = piece.offset
  kept : OncePerNumber pieces → ∀ piece ∈ pieces, 0 < piece.size →
    b.fragmentationLength piece.partitionId = piece.size ∧ b.fragmentationOffset piece.partitionId = piece.offset
  newLength : b.newLength = (pieces.map Piece.size).sum
  counted : ∑ i ∈ Finset.range kMaxVP8Partitions, b.fragmentationLength i ≤ b.newLength
  counted_iff : b.newLength = ∑ i ∈ Finset.range kMaxVP8Partitions, b.fragmentationLength i ↔ OncePerNumber pieces

theorem Table.empty (hasserted : start.asserted = true) (hsize : start.fragmentationVectorSize = 0)
    (hlength : start.fragmentationLength = fun _ => 0) (hnew : start.newLength = 0) :
      Table frameBufferLength [] start := by
  constructor
  · simp [hasserted]
  · simp
  · simp [hsize]
  · simp [hlength]
  · simp [hlength]
  · simp
  · simp [hnew]
  · simp [hlength]
  · simp [hlength, hnew, OncePerNumber]

theorem once_concat {piece : Piece} : OncePerNumber (pieces ++ [piece]) ↔
    OncePerNumber pieces ∧ ∀ earlier ∈ pieces, 0 < earlier.size → earlier.partitionId ≠ piece.partitionId := by
  unfold OncePerNumber
  rw [List.pairwise_append]
  simp

/-- **One round of the loop.** -/
theorem Table.add (h : Table frameBufferLength pieces b) (piece : Piece) :
    Table frameBufferLength (pieces ++ [piece]) (addPiece frameBufferLength b piece) := by
  have hid : piece.partitionId < kMaxVP8Partitions := piece.first.data.partitionId.isLt
  have hsize : b.fragmentationVectorSize ≤ (addPiece frameBufferLength b piece).fragmentationVectorSize ∧
      piece.partitionId < (addPiece frameBufferLength b piece).fragmentationVectorSize := by
    unfold addPiece addFragment
    dsimp only
    split <;> omega
  have hroom := h.room
  -- What the entry held before is lost.
  have hsum : ∑ i ∈ Finset.range kMaxVP8Partitions, (addPiece frameBufferLength b piece).fragmentationLength i +
      b.fragmentationLength piece.partitionId =
        ∑ i ∈ Finset.range kMaxVP8Partitions, b.fragmentationLength i + piece.size := by
    have hmem : piece.partitionId ∈ Finset.range kMaxVP8Partitions := Finset.mem_range.2 hid
    have hold := Finset.sum_eq_add_sum_sdiff_singleton_of_mem hmem b.fragmentationLength
    have hnew := Finset.sum_update_of_mem hmem b.fragmentationLength piece.size
    unfold addPiece addFragment
    dsimp only
    omega
  have hnew : (addPiece frameBufferLength b piece).newLength = b.newLength + piece.size := rfl
  -- Nothing is lost when none of that number has data.
  have hlost (honce : OncePerNumber pieces) : b.fragmentationLength piece.partitionId = 0 ↔
      ∀ earlier ∈ pieces, 0 < earlier.size → earlier.partitionId ≠ piece.partitionId := by
    constructor
    · intro hzero earlier hearlier hdata hsame
      have hkept := (h.kept honce earlier hearlier hdata).1
      rw [hsame] at hkept
      omega
    · intro hnone
      by_contra hdata
      obtain ⟨earlier, hearlier, hsame, hlength, -⟩ := h.found _ (Nat.pos_of_ne_zero hdata)
      exact hnone earlier hearlier (by omega) hsame
  have hcounted := h.counted
  have hother {i : Nat} (hi : i ≠ piece.partitionId) :
      (addPiece frameBufferLength b piece).fragmentationLength i = b.fragmentationLength i ∧
        (addPiece frameBufferLength b piece).fragmentationOffset i = b.fragmentationOffset i :=
    ⟨Function.update_of_ne hi _ _, Function.update_of_ne hi _ _⟩
  have hsame : (addPiece frameBufferLength b piece).fragmentationLength piece.partitionId = piece.size ∧
      (addPiece frameBufferLength b piece).fragmentationOffset piece.partitionId = piece.offset :=
    ⟨Function.update_self _ _ _, Function.update_self _ _ _⟩
  constructor
  · have hassert : (addPiece frameBufferLength b piece).asserted =
        (b.asserted && decide (piece.offset < frameBufferLength) && decide (piece.size ≤ frameBufferLength)) := rfl
    rw [hassert, Bool.and_eq_true, Bool.and_eq_true, decide_eq_true_eq, decide_eq_true_eq, h.asserted]
    simp only [List.forall_mem_append, List.forall_mem_singleton, and_assoc]
  · intro earlier hearlier
    rcases List.mem_append.1 hearlier with hearlier | hearlier
    · exact Nat.lt_of_lt_of_le (h.below earlier hearlier) hsize.1
    · rw [List.mem_singleton.1 hearlier]
      exact hsize.2
  · unfold addPiece addFragment
    dsimp only
    split <;> omega
  · intro i hi
    rw [(hother (by omega)).1]
    exact h.beyond i (by omega)
  · intro i hi
    by_cases hpiece : i = piece.partitionId
    · subst hpiece
      exact ⟨piece, by simp, rfl, hsame.1, hsame.2⟩
    · rw [(hother hpiece).1] at hi ⊢
      rw [(hother hpiece).2]
      obtain ⟨earlier, hearlier, hrest⟩ := h.found i hi
      exact ⟨earlier, List.mem_append_left _ hearlier, hrest⟩
  · intro honce earlier hearlier hdata
    rw [once_concat] at honce
    rcases List.mem_append.1 hearlier with hearlier | hearlier
    · have hne := honce.2 earlier hearlier hdata
      rw [(hother hne).1, (hother hne).2]
      exact h.kept honce.1 earlier hearlier hdata
    · rw [List.mem_singleton.1 hearlier]
      exact hsame
  · rw [hnew, h.newLength, List.map_append, List.sum_append]
    simp
  · omega
  · rw [once_concat, hnew]
    constructor
    · intro hequal
      have honce := h.counted_iff.1 (by omega)
      exact ⟨honce, (hlost honce).1 (by omega)⟩
    · rintro ⟨honce, hnone⟩
      have hzero := (hlost honce).2 hnone
      have hequal := h.counted_iff.2 honce
      omega

end Loop

/-! ## Filling in -/

/-- Where a fragment begins after the entries without data are filled in. -/
def filledOffset (b : Building) : Nat → Nat
  | 0 => if b.fragmentationLength 0 = 0 then 0 else b.fragmentationOffset 0
  | i + 1 =>
    if b.fragmentationLength (i + 1) = 0 then filledOffset b i + b.fragmentationLength i
    else b.fragmentationOffset (i + 1)

/-- `filled` is `b` with the entries up to `n` filled in. -/
structure Filled (b : Building) (n : Nat) (filled : Building) : Prop where
  size : filled.fragmentationVectorSize = b.fragmentationVectorSize
  length : filled.fragmentationLength = b.fragmentationLength
  newLength : filled.newLength = b.newLength
  offset : ∀ i ≤ n, filled.fragmentationOffset i = filledOffset b i
  above : ∀ i, n < i → filled.fragmentationOffset i = b.fragmentationOffset i
  asserted : filled.asserted = true ↔ b.asserted = true ∧ ∀ i < n, filledOffset b i ≤ filledOffset b (i + 1)

section Fill
variable {b filled : Building} {n : Nat}

theorem Filled.next (h : Filled b n filled) : Filled b (n + 1) (fillOne filled (n + 1)) := by
  have hoffset : (fillOne filled (n + 1)).fragmentationOffset (n + 1) = filledOffset b (n + 1) := by
    unfold fillOne filledOffset
    dsimp only
    rw [h.length, Nat.add_sub_cancel, h.offset n (Nat.le_refl n)]
    split
    · exact Function.update_self _ _ _
    · exact h.above (n + 1) (Nat.lt_succ_self n)
  have hother {i : Nat} (hi : i ≠ n + 1) : (fillOne filled (n + 1)).fragmentationOffset i =
    filled.fragmentationOffset i := by
    unfold fillOne
    dsimp only
    split
    · exact Function.update_of_ne hi _ _
    · rfl
  have hbefore : (fillOne filled (n + 1)).fragmentationOffset n = filledOffset b n := by
    rw [hother (by omega), h.offset n (Nat.le_refl n)]
  constructor
  · exact h.size
  · exact h.length
  · exact h.newLength
  · intro i hi
    rcases Nat.lt_or_eq_of_le hi with hlt | rfl
    · rw [hother (by omega), h.offset i (by omega)]
    · exact hoffset
  · intro i hi
    rw [hother (by omega), h.above i (by omega)]
  · have hassert : (fillOne filled (n + 1)).asserted = (filled.asserted &&
        (n + 1 == 0 || decide ((fillOne filled (n + 1)).fragmentationOffset n ≤
          (fillOne filled (n + 1)).fragmentationOffset (n + 1)))) := rfl
    have hpositive : (n + 1 == 0) = false := rfl
    rw [hassert, hbefore, hoffset, hpositive, Bool.false_or, Bool.and_eq_true, decide_eq_true_eq, h.asserted, and_assoc]
    refine and_congr_right fun _ => ⟨?_, ?_⟩
    · rintro ⟨hall, hlast⟩ i hi
      rcases Nat.lt_succ_iff_lt_or_eq.1 hi with hlt | rfl
      · exact hall i hlt
      · exact hlast
    · exact fun hall => ⟨fun i hi => hall i (by omega), hall n (Nat.lt_succ_self n)⟩

theorem fill_filled (b : Building) : Filled b (b.fragmentationVectorSize - 1) (fill b) := by
  unfold fill
  dsimp only
  generalize b.fragmentationVectorSize - 1 = n
  induction n with
  | zero =>
    rw [List.range'_zero, List.foldl_nil]
    constructor
    · split <;> rfl
    · split <;> rfl
    · split <;> rfl
    · intro i hi
      obtain rfl := Nat.le_zero.1 hi
      unfold filledOffset
      split
      · exact Function.update_self 0 0 b.fragmentationOffset
      · rfl
    · intro i hi
      split
      · exact Function.update_of_ne (Nat.ne_of_gt hi) 0 b.fragmentationOffset
      · rfl
    · split <;> simp
  | succ n ih =>
    rw [List.range'_1_concat, List.foldl_concat, Nat.add_comm 1 n]
    exact ih.next

end Fill

/-! ## The fragments -/

/-- Partitions with data are found in the order of their numbers. -/
def InOrder (pieces : List Piece) : Prop :=
  pieces.Pairwise fun piece later => 0 < piece.size →
    piece.partitionId ≠ later.partitionId ∧ (0 < later.size → piece.partitionId < later.partitionId)

/-- The pieces lie one behind the other. -/
def Apart (pieces : List Piece) : Prop :=
  pieces.Pairwise fun piece later => piece.offset + piece.size ≤ later.offset

section Described
variable {frameBufferLength : Nat} {pieces : List Piece} {b : Building}

theorem filledOffset_data {i : Nat} (h : 0 < b.fragmentationLength i) : filledOffset b i = b.fragmentationOffset i := by
  cases i with
  | zero => exact if_neg (Nat.ne_of_gt h)
  | succ i => exact if_neg (Nat.ne_of_gt h)

/-- Of two pieces with data the one with the smaller number comes first. -/
theorem InOrder.before (horder : InOrder pieces) (hapart : Apart pieces) {piece later : Piece} (hpiece : piece ∈ pieces)
    (hlater : later ∈ pieces) (hdata : 0 < piece.size) (hdata' : 0 < later.size)
    (hlt : piece.partitionId < later.partitionId) : piece.offset + piece.size ≤ later.offset := by
  have hall := List.Pairwise.forall_of_forall_of_flip (l := pieces)
    (R := fun p q => 0 < p.size → 0 < q.size → p.partitionId < q.partitionId → p.offset + p.size ≤ q.offset)
    (fun p _ _ _ hself => absurd hself (Nat.lt_irrefl _))
    (hapart.imp fun h _ _ _ => h)
    (horder.imp fun h hq hp hback => absurd hback (Nat.lt_asymm ((h hp).2 hq)))
  exact hall hpiece hlater hdata hdata' hlt

theorem Table.piece_end_le (h : Table frameBufferLength pieces b) (hapart : Apart pieces)
    (horder : InOrder pieces) {i : Nat}
    (hi : 0 < b.fragmentationLength i) {later : Piece} (hlater : later ∈ pieces) (hdata : 0 < later.size)
    (hlt : i < later.partitionId) : filledOffset b i + b.fragmentationLength i ≤ later.offset := by
  obtain ⟨piece, hpiece, rfl, hlength, hoffset⟩ := h.found i hi
  rw [filledOffset_data hi, hlength, hoffset]
  exact horder.before hapart hpiece hlater (by omega) hdata hlt

/-- A fragment ends before the pieces with data and a larger number begin. -/
theorem Table.end_le (h : Table frameBufferLength pieces b) (hapart : Apart pieces) (horder : InOrder pieces) (i : Nat)
    {later : Piece} (hlater : later ∈ pieces) (hdata : 0 < later.size) (hlt : i < later.partitionId) :
    filledOffset b i + b.fragmentationLength i ≤ later.offset := by
  induction i with
  | zero =>
    by_cases hzero : b.fragmentationLength 0 = 0
    · rw [filledOffset, if_pos hzero, hzero]
      exact Nat.zero_le _
    · exact h.piece_end_le hapart horder (Nat.pos_of_ne_zero hzero) hlater hdata hlt
  | succ i ih =>
    by_cases hzero : b.fragmentationLength (i + 1) = 0
    · rw [filledOffset, if_pos hzero, hzero]
      exact ih (by omega)
    · exact h.piece_end_le hapart horder (Nat.pos_of_ne_zero hzero) hlater hdata hlt

theorem Table.next_le (h : Table frameBufferLength pieces b) (hapart : Apart pieces)
    (horder : InOrder pieces) (i : Nat) :
    filledOffset b i + b.fragmentationLength i ≤ filledOffset b (i + 1) := by
  by_cases hzero : b.fragmentationLength (i + 1) = 0
  · rw [filledOffset, if_pos hzero]
  · obtain ⟨later, hlater, hid, hlength, hoffset⟩ := h.found (i + 1) (Nat.pos_of_ne_zero hzero)
    rw [filledOffset_data (Nat.pos_of_ne_zero hzero), hoffset]
    exact h.end_le hapart horder i hlater (by omega) (by omega)

theorem Table.inside (h : Table frameBufferLength pieces b)
    (hin : ∀ piece ∈ pieces, piece.offset + piece.size ≤ frameBufferLength) (i : Nat) :
    filledOffset b i + b.fragmentationLength i ≤ frameBufferLength := by
  have hdata {i : Nat} (hzero : b.fragmentationLength i ≠ 0) :
      filledOffset b i + b.fragmentationLength i ≤ frameBufferLength := by
    obtain ⟨piece, hpiece, -, hlength, hoffset⟩ := h.found i (Nat.pos_of_ne_zero hzero)
    rw [filledOffset_data (Nat.pos_of_ne_zero hzero), hlength, hoffset]
    exact hin piece hpiece
  induction i with
  | zero =>
    by_cases hzero : b.fragmentationLength 0 = 0
    · rw [filledOffset, if_pos hzero, hzero]
      exact Nat.zero_le _
    · exact hdata hzero
  | succ i ih =>
    by_cases hzero : b.fragmentationLength (i + 1) = 0
    · rw [filledOffset, if_pos hzero, hzero]
      exact ih
    · exact hdata hzero

theorem Table.ordered (h : Table frameBufferLength pieces b) (hapart : Apart pieces)
    (horder : InOrder pieces) {i j : Nat}
    (hlt : i < j) : filledOffset b i + b.fragmentationLength i ≤ filledOffset b j := by
  induction hlt with
  | refl => exact h.next_le hapart horder i
  | @step j _ ih =>
    have hnext := h.next_le hapart horder j
    exact ih.trans ((Nat.le_add_right _ _).trans hnext)

/-- Pieces that do not overlap are not longer than what they lie in. -/
theorem Apart.sum_le (hapart : Apart pieces) {a : Nat} (ha : a ≤ frameBufferLength)
    (hin : ∀ piece ∈ pieces, a ≤ piece.offset ∧ piece.offset + piece.size ≤ frameBufferLength) :
    a + (pieces.map Piece.size).sum ≤ frameBufferLength := by
  induction pieces generalizing a with
  | nil => exact ha
  | cons piece pieces ih =>
    obtain ⟨hnext, hapart⟩ := List.pairwise_cons.1 hapart
    obtain ⟨⟨hle, hend⟩, hin⟩ := List.forall_mem_cons.1 hin
    have hrest := ih hapart hend fun later hlater => ⟨hnext later hlater, (hin later hlater).2⟩
    rw [List.map_cons, List.sum_cons]
    omega

theorem Table.sum_eq (h : Table frameBufferLength pieces b) :
    ∑ i ∈ Finset.range b.fragmentationVectorSize, b.fragmentationLength i =
      ∑ i ∈ Finset.range kMaxVP8Partitions, b.fragmentationLength i :=
  Finset.sum_subset (Finset.range_mono h.room) fun i _ hi =>
    h.beyond i (Nat.not_lt.1 fun hlt => hi (Finset.mem_range.2 hlt))

/-- What is made of the table at the end. -/
def finish (frameBufferLength : Nat) (b : Building) : Building :=
  { fill b with asserted := (fill b).asserted && decide ((fill b).newLength ≤ frameBufferLength) }

/-- **Where the fragments are in order**, the pieces are. -/
theorem Table.described_iff (h : Table frameBufferLength pieces b) (hapart : Apart pieces)
    (hin : ∀ piece ∈ pieces, piece.offset + piece.size ≤ frameBufferLength) :
    Described frameBufferLength (finish frameBufferLength b) ↔
      (∀ piece ∈ pieces, piece.offset < frameBufferLength) ∧ InOrder pieces := by
  have hfilled := fill_filled b
  have hasserted : (finish frameBufferLength b).asserted = true ↔
      ((∀ piece ∈ pieces, piece.offset < frameBufferLength) ∧
        ∀ i < b.fragmentationVectorSize - 1, filledOffset b i ≤ filledOffset b (i + 1)) ∧
          b.newLength ≤ frameBufferLength := by
    have hassert : (finish frameBufferLength b).asserted =
        ((fill b).asserted && decide ((fill b).newLength ≤ frameBufferLength)) := rfl
    have hbegin : (∀ piece ∈ pieces, piece.offset < frameBufferLength ∧ piece.size ≤ frameBufferLength) ↔
        ∀ piece ∈ pieces, piece.offset < frameBufferLength :=
      forall₂_congr fun piece hpiece => and_iff_left_of_imp fun _ => (Nat.le_add_left _ _).trans (hin piece hpiece)
    rw [hassert, Bool.and_eq_true, decide_eq_true_eq, hfilled.asserted, hfilled.newLength, h.asserted, hbegin]
  have hoffset {i : Nat} (hi : i < b.fragmentationVectorSize) :
      (finish frameBufferLength b).fragmentationOffset i = filledOffset b i :=
        hfilled.offset i (Nat.le_sub_one_of_lt hi)
  have hlength : (finish frameBufferLength b).fragmentationLength = b.fragmentationLength := hfilled.length
  have hsize : (finish frameBufferLength b).fragmentationVectorSize = b.fragmentationVectorSize := hfilled.size
  have hnew : (finish frameBufferLength b).newLength = b.newLength := hfilled.newLength
  constructor
  · rintro ⟨-, hordered, htotal, hassert⟩
    rw [hnew, hsize, hlength, h.sum_eq] at htotal
    have honce := h.counted_iff.1 htotal
    refine ⟨(hasserted.1 hassert).1.1, ?_⟩
    refine (honce.and hapart).imp_of_mem fun {piece later} hpiece hlater hboth hdata =>
      ⟨hboth.1 hdata, fun hdata' => ?_⟩
    -- Otherwise the fragment of the later one ends before it begins.
    by_contra hlt
    have hne := hboth.1 hdata
    have hbelow := h.below piece hpiece
    have hbelow' := h.below later hlater
    obtain ⟨hlen, hoff⟩ := h.kept honce piece hpiece hdata
    obtain ⟨hlen', hoff'⟩ := h.kept honce later hlater hdata'
    have hle := hordered later.partitionId piece.partitionId (by omega) (hsize ▸ hbelow)
    rw [hoffset hbelow, hoffset hbelow', hlength, filledOffset_data (by omega), filledOffset_data (by omega), hoff,
      hoff',
      hlen'] at hle
    have hapart' := hboth.2
    omega
  · rintro ⟨hbegin, horder⟩
    have honce : OncePerNumber pieces := horder.imp fun hpair hdata => (hpair hdata).1
    have hsum := h.counted_iff.2 honce
    refine ⟨?_, ?_, ?_, hasserted.2 ⟨⟨hbegin, ?_⟩, ?_⟩⟩
    · intro i hi
      rw [hsize] at hi
      rw [hoffset hi, hlength]
      exact h.inside hin i
    · intro i j hlt hj
      rw [hsize] at hj
      rw [hoffset hj, hoffset (hlt.trans hj), hlength]
      exact h.ordered hapart horder hlt
    · rw [hnew, hsize, hlength, h.sum_eq]
      exact hsum
    · exact fun i _ => (Nat.le_add_right _ _).trans (h.next_le hapart horder i)
    · have hle := hapart.sum_le (Nat.zero_le frameBufferLength) fun piece hpiece => ⟨Nat.zero_le _, hin piece hpiece⟩
      rw [h.newLength]
      omega

end Described

/-! ## Packets -/

theorem foldl_table {frameBufferLength : Nat} {start : Building} (hstart : Table frameBufferLength [] start)
    (pieces : List Piece) :
    Table frameBufferLength pieces (pieces.foldl (addPiece frameBufferLength) start) := by
  induction pieces using List.reverseRecOn with
  | nil => exact hstart
  | append_singleton pieces piece ih =>
    rw [List.foldl_concat]
    exact ih.add piece

/-- **When the fragments describe the frame.** -/
theorem buildVP8FragmentationHeader_exact (packets : List Vp8Packet) (fragmentation : RTPFragmentationHeader)
    (hstored : Stored packets) :
    Described (sizeOf packets) (buildVP8FragmentationHeader packets (sizeOf packets) fragmentation) ↔
      Sortable packets := by
  generalize hstart : ({ fragmentation with
    fragmentationVectorSize := 0, fragmentationLength := fun _ => 0 } : Building) = start
  have hempty : Table (sizeOf packets) [] start := by
    subst hstart
    exact .empty rfl rfl rfl rfl
  obtain ⟨c, -, hlaid⟩ := Laid.next hstored.tiles
  obtain ⟨hin, hapart⟩ := hlaid.pieces
  have hbegin : (∀ piece ∈ pieces packets, piece.offset < sizeOf packets) ↔
      ∀ piece ∈ pieces packets, 0 < piece.size + sizeOf piece.behind := by
    refine forall₂_congr fun piece hpiece => ?_
    have hend := (hin piece hpiece).2.1
    omega
  have hcodec : ∀ packet ∈ findNextPartitionBeginning packets, packet.codec = .vp8 := fun packet hpacket =>
    hstored.codec packet ((List.dropWhile_sublist _).subset hpacket)
  have hdescribed := (foldl_table hempty (pieces packets)).described_iff hapart fun piece hpiece => by
    have hend := (hin piece hpiece).2.1
    omega
  have hsortable : Sortable packets ↔
      (∀ piece ∈ pieces packets, 0 < piece.size + sizeOf piece.behind) ∧ InOrder (pieces packets) :=
    ⟨fun h => ⟨h.data, h.order⟩, fun h => ⟨h.1, h.2⟩⟩
  rw [hsortable, ← hbegin, ← hdescribed]
  unfold buildVP8FragmentationHeader
  dsimp only
  rw [hstart]
  by_cases hnone : packets = []
  · subst hnone
    subst hstart
    have hnopieces : pieces [] = [] := by
      unfold pieces piecesFrom
      rfl
    rw [if_pos rfl, hnopieces]
    constructor
    · intro _
      constructor
      · exact fun i hi => absurd hi (Nat.not_lt_zero i)
      · exact fun i j _ hj => absurd hj (Nat.not_lt_zero j)
      · rfl
      · rfl
    · intro _
      constructor
      · exact fun i hi => absurd hi (Nat.not_lt_zero i)
      · exact fun i j _ hj => absurd hj (Nat.not_lt_zero j)
      · rfl
      · rfl
  · rw [if_neg hnone, buildLoop_pieces hlaid hcodec]
    rfl

def partitionPacket (seqNum : UInt16) (dataPtr : Nat) (partitionId : Fin kMaxVP8Partitions) : Vp8Packet where
  seqNum
  data := { dataPtr, sizeBytes := 10, partitionId, beginningOfPartition := true }
  markerBit := false
  frameType := .videoFrameDelta
  codec := .vp8
  isFirstPacket := false

theorem partitionPacket_stored (first second : Fin kMaxVP8Partitions) :
    Stored [partitionPacket 5 0 first, partitionPacket 6 10 second] := by
  refine ⟨by simp [partitionPacket], ?_⟩
  exact .cons (p := partitionPacket 5 0 first) (.cons (p := partitionPacket 6 10 second) (.nil _))

/-- The second partition follows the first one. -/
theorem buildVP8FragmentationHeader_exact_two :
    Described 20 (buildVP8FragmentationHeader [partitionPacket 5 0 0, partitionPacket 6 10 1] 20
      ⟨0, fun _ => 0, fun _ => 0⟩) ↔ Sortable [partitionPacket 5 0 0, partitionPacket 6 10 1] :=
  buildVP8FragmentationHeader_exact _ ⟨0, fun _ => 0, fun _ => 0⟩ (partitionPacket_stored 0 1)

/-- The second partition comes before the first one. -/
theorem not_buildVP8FragmentationHeader_described :
    Stored [partitionPacket 5 0 1, partitionPacket 6 10 0] ∧
      ¬ Described 20 (buildVP8FragmentationHeader [partitionPacket 5 0 1, partitionPacket 6 10 0] 20
        ⟨0, fun _ => 0, fun _ => 0⟩) := by
  refine ⟨partitionPacket_stored 1 0, fun h => ?_⟩
  have hassert := h.asserted
  simp [buildVP8FragmentationHeader, findNextPartitionBeginning, partitionPacket, buildLoop, findPartitionEnd,
    addFragment,
    fill, fillOne] at hassert

end WebRtc.Jitter
