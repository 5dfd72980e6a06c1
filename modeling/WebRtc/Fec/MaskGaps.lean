import Mathlib.Data.List.Chain
import WebRtc.Fec.MaskColumns

/-!
# Masks over gaps in the sequence numbers (`forward_error_correction.cc:166-194, 293-356`)

`GenerateFEC` calls `insertZerosInBitMasks` with rows of the size that fits the number of packets, and goes
on with rows of the size that fits the number it gets back. A column goes to the distance of its packet from
the first one (`offsets`).

The columns stop at 48, which is tested for equality. A packet behind 48 numbers is left out, so the mask is
expanded as far as the rows reach (`insertZeros_reaching`); but a gap that goes over the last column is not
stopped, and the next column is written behind its row (`insertZeros_overrun`). `insertZeros_exact` has both.
-/

namespace WebRtc.Fec

/-! ## All rows -/

/-- Where a packet's column goes: the distance of its sequence number from the first one. -/
def column (first s : UInt16) : Nat := (s - first).toNat

theorem zeros_eq {first prev s : UInt16} (h : column first prev < column first s) :
    (s - prev - 1).toNat = column first s - (column first prev + 1) := by
  have hf := first.toNat_lt
  have hp := prev.toNat_lt
  have hs := s.toNat_lt
  unfold column at *
  rw [UInt16.toNat_sub] at h
  rw [UInt16.toNat_sub] at h
  rw [UInt16.toNat_sub, UInt16.toNat_sub, UInt16.toNat_sub, UInt16.toNat_sub, UInt16.toNat_one]
  omega

/-- Both masks after some columns, in all rows: `col` are the columns of the new rows, `orig` is the old
mask. -/
structure Expanded (bytes oldBytes n c j : Nat) (m : Mask × Mask) (orig : Mask) (col : Nat → Nat → Bool) : Prop where
  filled : ∀ i < n, Filled bytes c (fun b => m.1 (i * bytes + b)) (col i)
  shifted : ∀ i < n, Shifted oldBytes j (fun b => orig (i * oldBytes + b)) (fun b => m.2 (i * oldBytes + b))

theorem Expanded.copy {bytes oldBytes n c j : Nat} {m : Mask × Mask} {orig : Mask} {col : Nat → Nat → Bool}
    (h : Expanded bytes oldBytes n c j m orig col) (hc : c / 8 < bytes) (hj : j / 8 < oldBytes)
    (hcol : ∀ i < n, col i c = maskBit orig (i * oldBytes) j) :
    ∃ m', copyColumn m.1 bytes m.2 oldBytes n c j = some m' ∧ Expanded bytes oldBytes n (c + 1)
        (j + 1) m' orig col := by
  obtain ⟨new, old, heq, hnew, hold⟩ := copyColumn_spec m.1 m.2 n hc hj
  refine ⟨(new, old), heq, ?_, ?_⟩
  · intro i hi
    have htop : (m.2 (i * oldBytes + j / 8)).toNat.testBit 7 = col i c := by
      rw [hcol i hi]
      exact (h.shifted i hi).top hj
    refine (h.filled i hi).copy hc htop fun b hb => ?_
    dsimp only
    rw [hnew i b hb]
    simp only [hi, true_and]
  · intro i hi
    refine (h.shifted i hi).next hj fun b hb => ?_
    dsimp only
    rw [hold i b hb]
    simp only [hi, true_and]

theorem Expanded.zeros {bytes oldBytes n c j z : Nat} {m : Mask × Mask} {orig : Mask} {col : Nat → Nat → Bool}
    (h : Expanded bytes oldBytes n c j m orig col) (hc : c / 8 < bytes)
    (hcol : ∀ i < n, ∀ q, c ≤ q → q < c + z → col i q = false) :
    ∃ new, (if z > 0 then insertZeroColumns z m.1 bytes n c else some m.1) = some new ∧
      Expanded bytes oldBytes n (c + z) j (new, m.2) orig col := by
  obtain ⟨new, heq, hnew⟩ := shiftByte_spec m.1 n (min z (7 - c % 8)) hc
  by_cases hz : z > 0
  · refine ⟨new, by rw [if_pos hz]; exact heq, ?_, h.shifted⟩
    intro i hi
    refine (h.filled i hi).zeros hc (hcol i hi) fun b hb => ?_
    dsimp only
    rw [hnew i b hb]
    simp only [hi, true_and]
  · obtain rfl : z = 0 := by omega
    exact ⟨m.1, if_neg hz, h⟩

/-- Over the packets left, each of which has its column in the rows or stands behind a packet that has
the last one. -/
theorem columns_spec {bytes oldBytes n : Nat} {first : UInt16} {orig : Mask} {col : Nat → Nat → Bool}
    {rest : List UInt16}
    {prev : UInt16} {j : Nat} {m : Mask × Mask}
    (h : Expanded bytes oldBytes n (column first prev + 1) j m orig col) (hprev : column first prev < 8 * bytes)
    (hinc : (prev :: rest).IsChain fun a b => column first a < column first b) (hold : j + rest.length ≤ 8 * oldBytes)
    (hcol : ∀ i < n, ∀ t (ht : t < rest.length), col i (column first rest[t]) = maskBit orig (i * oldBytes) (j + t))
    (hgap : ∀ i < n, ∀ q, column first prev < q → (∀ s ∈ rest, column first s ≠ q) → col i q = false)
    (hreach : ∀ s ∈ rest, 8 * bytes ≤ column first s → bytes = 6 ∧ ∃ t ∈ prev :: rest, column first t = 47) :
    ∃ c j' m', columns bytes oldBytes n rest prev (column first prev + 1) j m = some (c, m') ∧
      Expanded bytes oldBytes n c j' m' orig col ∧ c ≤ 8 * bytes ∧ column first prev < c ∧
      (c = 48 ∨ ∀ s ∈ rest, column first s < c) := by
  induction rest generalizing prev j m with
  | nil => exact ⟨_, j, m, rfl, h, by omega, by omega, .inr fun s hs => by cases hs⟩
  | cons s rest ih =>
    rw [List.isChain_cons_cons] at hinc
    by_cases hfull : column first prev + 1 = 8 * maskSize true
    · refine ⟨_, j, m, by rw [columns, if_pos hfull], h, by omega, by omega, .inl hfull⟩
    · have hlater : ∀ t ∈ rest, column first s < column first t := by
        intro t ht
        have hpair : (s :: rest).Pairwise fun a b => column first a < column first b := by
          have htrans : IsTrans UInt16 fun a b => column first a < column first b := ⟨fun a b c => Nat.lt_trans⟩
          exact List.isChain_iff_pairwise.1 hinc.2
        exact (List.pairwise_cons.1 hpair).1 t ht
      have hfits : column first s < 8 * bytes := by
        by_contra hover
        obtain ⟨hsix, t, ht, h47⟩ := hreach s List.mem_cons_self (by omega)
        have hmask : maskSize true = 6 := rfl
        rcases List.mem_cons.1 ht with rfl | ht
        · omega
        · rcases List.mem_cons.1 ht with rfl | ht
          · omega
          · have hlt := hlater t ht
            omega
      have hz := zeros_eq hinc.1
      have hsum : column first prev + 1 + (s - prev - 1).toNat = column first s := by
        have hlt := hinc.1
        omega
      obtain ⟨new, hnew, hzeros⟩ := h.zeros (z := (s - prev - 1).toNat) (by omega) (by
        intro i hi q hlo hhi
        refine hgap i hi q (by omega) fun t ht => ?_
        rcases List.mem_cons.1 ht with rfl | ht
        · omega
        · have hlt := hlater t ht
          omega)
      rw [hsum] at hzeros
      simp only [List.length_cons] at hold
      obtain ⟨m', hm', hcopied⟩ := hzeros.copy (by omega) (by omega) fun i hi => by
        exact hcol i hi 0 (Nat.zero_lt_succ rest.length)
      obtain ⟨c, j', m'', heq, hexp, hle, hlt, hend⟩ := ih hcopied hfits hinc.2 (by omega)
        (fun i hi t ht => by
          have hthis := hcol i hi (t + 1) (by simp only [List.length_cons]; omega)
          rw [List.getElem_cons_succ, show j + (t + 1) = j + 1 + t by omega] at hthis
          exact hthis)
        (fun i hi q hq hall => by
          refine hgap i hi q (by omega) fun t ht => ?_
          rcases List.mem_cons.1 ht with rfl | ht
          · omega
          · exact hall t ht)
        (fun t ht hover => by
          obtain ⟨hsix, u, hu, h47⟩ := hreach t (List.mem_cons_of_mem s ht) hover
          refine ⟨hsix, u, ?_, h47⟩
          rcases List.mem_cons.1 hu with rfl | hu
          · have hmask : maskSize true = 6 := rfl
            omega
          · exact hu)
      refine ⟨c, j', m'', ?_, hexp, hle, by omega, ?_⟩
      · rw [columns, if_neg hfull]
        simp only [hnew, hsum, hm', Option.bind_eq_bind, Option.bind_some]
        exact heq
      · rcases hend with hend | hend
        · exact .inl hend
        · refine .inr fun t ht => ?_
          rcases List.mem_cons.1 ht with rfl | ht
          · exact hlt
          · exact hend t ht

/-! ## The expanded mask -/

/-- The columns of the media packets. -/
def offsets (mediaPackets : List Packet) : List Nat :=
  match mediaPackets.map fun p => parseSequenceNumber p.data with
  | [] => []
  | first :: rest => (first :: rest).map (column first)

/-- The columns `offs` of a row, with these bits. -/
def spread (offs : List Nat) (bit : Nat → Bool) (q : Nat) : Bool :=
  (List.range offs.length).any fun t => offs[t]? == some q && bit t

theorem spread_none {offs : List Nat} {bit : Nat → Bool} {q : Nat} (h : q ∉ offs) : spread offs bit q = false := by
  rw [spread, List.any_eq_false]
  intro t _ ht
  rw [Bool.and_eq_true, beq_iff_eq] at ht
  exact h (List.mem_of_getElem? ht.1)

/-- Increasing numbers grow at least as fast as their places. -/
theorem add_le_of_increasing {offs : List Nat} (hinc : offs.IsChain (· < ·)) {t : Nat} (d : Nat)
    (ht : t + d < offs.length) :
    offs[t] + d ≤ offs[t + d] := by
  rw [List.isChain_iff_getElem] at hinc
  induction d with
  | zero => exact Nat.le_refl _
  | succ d ih =>
    have hstep := hinc (t + d) ht
    have hbefore := ih (by omega)
    have hindex : offs[t + (d + 1)] = offs[t + d + 1] := rfl
    omega

theorem spread_at {offs : List Nat} (hinc : offs.IsChain (· < ·)) (bit : Nat → Bool) {t : Nat} (ht : t < offs.length) :
    spread offs bit offs[t] = bit t := by
  have honly : ∀ u, offs[u]? = some offs[t] → u = t := by
    intro u hu
    obtain ⟨hlt, heq⟩ := List.getElem?_eq_some_iff.1 hu
    rcases Nat.lt_trichotomy u t with h | h | h
    · have hle := add_le_of_increasing hinc (t - u) (show u + (t - u) < offs.length by omega)
      have hindex : offs[u + (t - u)] = offs[t] := by
        congr 1
        omega
      omega
    · exact h
    · have hle := add_le_of_increasing hinc (u - t) (show t + (u - t) < offs.length by omega)
      have hindex : offs[t + (u - t)] = offs[u] := by
        congr 1
        omega
      omega
  rw [Bool.eq_iff_iff, spread, List.any_eq_true]
  constructor
  · rintro ⟨u, -, hu⟩
    rw [Bool.and_eq_true, beq_iff_eq] at hu
    rw [← honly u hu.1]
    exact hu.2
  · intro hbit
    refine ⟨t, List.mem_range.2 ht, ?_⟩
    rw [Bool.and_eq_true, beq_iff_eq]
    exact ⟨List.getElem?_eq_getElem ht, hbit⟩

theorem spread_column {first : UInt16} {seqs : List UInt16}
    (hinc : seqs.IsChain fun a b => column first a < column first b)
    (bit : Nat → Bool) {t : Nat} (ht : t < seqs.length) : spread (seqs.map (column first)) bit
    (column first seqs[t]) = bit t := by
  have hspread := spread_at ((List.isChain_map (column first)).2 hinc) bit (show t < (seqs.map (column first)).length by
    rwa [List.length_map])
  rw [List.getElem_map] at hspread
  exact hspread

theorem spread_other {first : UInt16} {seqs : List UInt16} {q : Nat}
    (h : ∀ s ∈ seqs, column first s ≠ q) (bit : Nat → Bool) :
    spread (seqs.map (column first)) bit q = false := by
  refine spread_none fun hmem => ?_
  obtain ⟨s, hs, heq⟩ := List.mem_map.1 hmem
  exact h s hs heq

theorem finishByte_spec (mask : Mask) (n : Nat) {bytes c : Nat} (hc : c ≤ 8 * bytes) :
    ∃ mask', finishByte mask bytes n c = some mask' ∧ ∀ i < n, ∀ b < bytes, mask' (i * bytes + b) =
      if c % 8 ≠ 0 ∧ b = c / 8 then mask (i * bytes + b) <<< UInt8.ofNat (7 - c % 8) else mask (i * bytes + b) := by
  by_cases hmod : c % 8 ≠ 0
  · obtain ⟨mask', heq, hmask⟩ := shiftByte_spec mask n (7 - c % 8) (show c / 8 < bytes by omega)
    refine ⟨mask', by rw [finishByte, if_pos hmod, heq], ?_⟩
    intro i hi b hb
    rw [hmask i b hb]
    simp only [hi, hmod, true_and, ne_eq, not_false_eq_true]
  · refine ⟨mask, by rw [finishByte, if_neg hmod], ?_⟩
    intro i _ b _
    rw [if_neg fun h => hmod h.1]

/-- The old rows have a bit for each packet. -/
theorem le_oldBits {size : Nat} (h : size ≤ 48) : size ≤ 8 * maskSize (size > 16) := by
  rcases Nat.lt_or_ge 16 size with hlt | hge
  · rw [decide_eq_true hlt]
    exact h
  · rw [decide_eq_false (show ¬ size > 16 by omega)]
    exact hge

theorem maskSize_cases (l : Bool) : maskSize l = 2 ∧ l = false ∨ maskSize l = 6 ∧ l = true := by
  cases l
  · exact .inl ⟨rfl, rfl⟩
  · exact .inr ⟨rfl, rfl⟩

theorem column_self (first : UInt16) : column first first = 0 := by
  rw [column, UInt16.sub_self]
  rfl

/-- The last packet's column is behind all others. -/
theorem column_le_last {first : UInt16} {seqs : List UInt16}
    (hinc : seqs.IsChain fun a b => column first a < column first b)
    (hne : seqs ≠ []) : ∀ s ∈ seqs, column first s ≤ column first (seqs.getLast hne) := by
  have htrans : IsTrans UInt16 fun a b => column first a < column first b := ⟨fun a b c => Nat.lt_trans⟩
  have hpair := List.isChain_iff_pairwise.1 hinc
  have hsplit := List.dropLast_append_getLast hne
  intro s hs
  rw [← hsplit] at hs hpair
  rcases List.mem_append.1 hs with hs | hs
  · exact Nat.le_of_lt ((List.pairwise_append.1 hpair).2.2 s hs _ (List.mem_singleton.2 rfl))
  · rw [List.mem_singleton.1 hs]

/-- What the function does when packets are missing. -/
theorem insertZeros_eq {mediaPackets : List Packet} {first second : UInt16} {rest : List UInt16}
    (hseq : (mediaPackets.map fun p => parseSequenceNumber p.data) = first :: second :: rest)
    (hgaps : column first ((second :: rest).getLast (by simp)) ≠ rest.length + 1) (mask : Mask) (oldBytes n : Nat) :
    insertZerosInBitMasks mediaPackets mask oldBytes n = (do
      let newMaskBytes := maskSize (column first ((second :: rest).getLast (by simp)) + 1 > 16)
      let m ← copyColumn (fun _ => 0) newMaskBytes mask oldBytes n 0 0
      let (newBitIndex, m) ← columns newMaskBytes oldBytes n (second :: rest) first 1 1 m
      let newMask ← finishByte m.1 newMaskBytes n newBitIndex
      some (newBitIndex, fun k => if k < maskSize true * n then newMask k else m.2 k)) := by
  have hlast : (second :: rest).getLast?.getD first = (second :: rest).getLast (by simp) := by
    rw [List.getLast?_eq_some_getLast (by simp), Option.getD_some]
  generalize (second :: rest).getLast (by simp) = last at hgaps hlast
  rw [insertZerosInBitMasks, hseq]
  simp only [List.length_cons, hlast]
  have hmissing : ¬ (((last - first).toNat : Int) - ((rest.length + 1 + 1 : Nat) : Int) + 1 = 0) := by
    intro hzero
    rw [column] at hgaps
    omega
  have hnewBytes : decide ((((rest.length + 1 + 1 : Nat) : Int) +
      (((last - first).toNat : Int) - ((rest.length + 1 + 1 : Nat) : Int) + 1)) > 8 * ((maskSize false : Nat) : Int)) =
        decide (column first last + 1 > 16) := by
    rw [decide_eq_decide, column, show maskSize false = 2 from rfl]
    omega
  rw [if_neg hmissing, hnewBytes]

/-- From the first packet's column on, over all of them. -/
theorem columns_all {bytes oldBytes n : Nat} {first : UInt16} {rest : List UInt16} (mask : Mask) (hbytes : 0 < bytes)
    (hinc : (first :: rest).IsChain fun a b => column first a < column first b) (hold : rest.length + 1 ≤ 8 * oldBytes)
    (hreach : ∀ s ∈ rest, 8 * bytes ≤ column first s → bytes = 6 ∧ ∃ t ∈ first :: rest, column first t = 47) :
    ∃ m c j m', copyColumn (fun _ => 0) bytes mask oldBytes n 0 0 = some m ∧
      columns bytes oldBytes n rest first 1 1 m = some (c, m') ∧
      Expanded bytes oldBytes n c j m' mask (fun i =>
        spread ((first :: rest).map (column first)) (maskBit mask (i * oldBytes))) ∧
      c ≤ 8 * bytes ∧ 0 < c ∧ (c = 48 ∨ ∀ s ∈ rest, column first s < c) := by
  have hfirst := column_self first
  let col := fun i => spread ((first :: rest).map (column first)) (maskBit mask (i * oldBytes))
  have hstart : Expanded bytes oldBytes n 0 0 (fun _ => 0, mask) mask col :=
    ⟨fun i _ => Filled.start bytes (col i), fun i _ => Shifted.start oldBytes _⟩
  obtain ⟨m, hm, hexp⟩ := hstart.copy (by omega) (by omega) fun i _ => by
    have h0 := spread_column hinc (maskBit mask (i * oldBytes)) (show 0 < (first :: rest).length by simp)
    rw [List.getElem_cons_zero, hfirst] at h0
    exact h0
  have hrun : Expanded bytes oldBytes n (column first first + 1) 1 m mask col := by
    rw [hfirst]
    exact hexp
  obtain ⟨c, j, m', hcols, hexp', hle, hpos, hend⟩ := columns_spec hrun (by omega) hinc (by omega)
    (fun i _ t ht => by
      have h1 := spread_column hinc (maskBit mask (i * oldBytes)) (show t + 1 < (first :: rest).length by
        simp only [List.length_cons]
        omega)
      rw [List.getElem_cons_succ] at h1
      rw [Nat.add_comm 1 t]
      exact h1)
    (fun i _ q hq hall => by
      refine spread_other (fun s hs => ?_) _
      rcases List.mem_cons.1 hs with rfl | hs
      · omega
      · exact hall s hs)
    hreach
  rw [hfirst, Nat.zero_add] at hcols
  exact ⟨m, c, j, m', hm, hcols, hexp', hle, by omega, hend⟩

/-- The rows are as long as the last packet's column asks for. -/
theorem maskSize_reach (x : Nat) :
    maskSize (x + 1 > 16) = 2 ∧ x < 16 ∨ maskSize (x + 1 > 16) = 6 ∧ 16 ≤ x := by
  rcases maskSize_cases (decide (x + 1 > 16)) with ⟨h1, h2⟩ | ⟨h1, h2⟩
  · rw [decide_eq_false_iff_not] at h2
    exact .inl ⟨h1, by omega⟩
  · rw [decide_eq_true_eq] at h2
    exact .inr ⟨h1, by omega⟩

/-- The mask with columns for the missing packets. -/
theorem insertZeros_gaps {mediaPackets : List Packet} {first second : UInt16} {rest : List UInt16}
    (hseq : (mediaPackets.map fun p => parseSequenceNumber p.data) = first :: second :: rest)
    (hinc : (first :: second :: rest).IsChain fun a b => column first a < column first b) (hlen : rest.length + 2 ≤ 48)
    (hreach : ∀ s ∈ second :: rest, 48 ≤ column first s → ∃ t ∈ first :: second :: rest, column first t = 47)
    (hgaps : column first ((second :: rest).getLast (by simp)) ≠ rest.length + 1) (mask : Mask) (n : Nat) :
    ∃ c mask', insertZerosInBitMasks mediaPackets mask (maskSize (rest.length + 2 > 16)) n = some (c, mask') ∧
      (∀ d ∈ (first :: second :: rest).map (column first), d < 48 → d < 8 * maskSize (c > 16)) ∧
      ∀ i < n, ∀ q < 8 * maskSize (c > 16), maskBit mask' (i * maskSize (c > 16)) q =
        spread ((first :: second :: rest).map (column first))
            (maskBit mask (i * maskSize (rest.length + 2 > 16))) q := by
  rw [insertZeros_eq hseq hgaps]
  have hlastmem := List.getLast_mem (show second :: rest ≠ [] by simp)
  have hmax := column_le_last (List.isChain_cons_cons.1 hinc).2 (show second :: rest ≠ [] by simp)
  generalize (second :: rest).getLast (by simp) = last at hgaps hlastmem hmax
  have hbytes := maskSize_reach (column first last)
  have hold := le_oldBits hlen
  generalize maskSize (decide (rest.length + 2 > 16)) = oldBytes at hold ⊢
  generalize maskSize (decide (column first last + 1 > 16)) = bytes at hbytes ⊢
  obtain ⟨m, c, j, m', hm, hcols, hexp, hle, hpos, hend⟩ :=
    columns_all (n := n) mask (show 0 < bytes by omega) hinc hold
    (fun s hs hover => by
      have hs' := hmax s hs
      exact ⟨by omega, hreach s hs (by omega)⟩)
  obtain ⟨newMask, hfinish, hmask⟩ := finishByte_spec m'.1 n hle
  have hsize : maskSize (decide (c > 16)) = bytes := by
    rcases hbytes with ⟨h2, hlt⟩ | ⟨h6, hge⟩
    · rw [h2, decide_eq_false (show ¬ c > 16 by omega)]
      rfl
    · have hc : c > 16 := by
        rcases hend with hend | hend
        · omega
        · have hlt := hend last hlastmem
          omega
      rw [h6, decide_eq_true hc]
      rfl
  refine ⟨c, fun k => if k < maskSize true * n then newMask k else m'.2 k, ?_, ?_, ?_⟩
  · simp only [hm, hcols, hfinish, Option.bind_eq_bind, Option.bind_some]
  · intro d hd hlt
    rw [hsize]
    obtain ⟨s, hs, rfl⟩ := List.mem_map.1 hd
    rcases List.mem_cons.1 hs with rfl | hs
    · have hfirst := column_self s
      omega
    · have hs' := hmax s hs
      omega
  · intro i hi q hq
    rw [hsize] at hq ⊢
    have hin : i * bytes + q / 8 < maskSize true * n := by
      have hrow : i * bytes + q / 8 < (i + 1) * bytes := by
        rw [Nat.add_mul]
        omega
      have hrows : (i + 1) * bytes ≤ n * 6 := Nat.mul_le_mul hi (by omega)
      rw [show maskSize true = 6 from rfl]
      omega
    rw [maskBit, if_pos hin, (hexp.filled i hi).finish (hmask i hi) hq]
    by_cases hqc : q < c
    · rw [decide_eq_true hqc, Bool.true_and]
    · rw [decide_eq_false hqc, Bool.false_and]
      refine (spread_other (fun s hs => ?_) _).symm
      rcases List.mem_cons.1 hs with rfl | hs
      · have hfirst := column_self s
        omega
      · rcases hend with hend | hend
        · omega
        · have hlt := hend s hs
          omega

/-- Increasing numbers from zero without a gap are all numbers. -/
theorem eq_range_of_increasing {offs : List Nat} (hinc : offs.IsChain (· < ·)) {size : Nat}
    (hsize : offs.length = size + 1)
    (hlast : offs[size] = size) : offs = List.range (size + 1) := by
  apply List.ext_getElem
  · rw [hsize, List.length_range]
  · intro t ht _
    rw [List.getElem_range]
    have hup := add_le_of_increasing hinc (size - t) (show t + (size - t) < offs.length by omega)
    have hdown := add_le_of_increasing hinc t (show 0 + t < offs.length by omega)
    have h1 : offs[t + (size - t)] = offs[size] := by
      congr 1
      omega
    have h2 : offs[0 + t] = offs[t] := by
      congr 1
      omega
    omega

/-- No gap goes over the last column: packets behind it follow one that has it. -/
def Reaching (offs : List Nat) : Prop := ∀ d ∈ offs, 48 ≤ d → 47 ∈ offs

/-- Every column that the rows reach goes where its packet is, and all other columns are zero. Without a gap
the mask is left as it is. -/
theorem insertZeros_reaching {mediaPackets : List Packet} (h2 : 2 ≤ mediaPackets.length)
    (h48 : mediaPackets.length ≤ 48) (hinc : (offsets mediaPackets).IsChain (· < ·))
    (hreach : Reaching (offsets mediaPackets)) (mask : Mask) (n : Nat) :
    ∃ bits mask', insertZerosInBitMasks mediaPackets mask (maskSize (mediaPackets.length > 16)) n = some (bits, mask') ∧
      (∀ i < n, ∀ j, (hj : j < (offsets mediaPackets).length) → (offsets mediaPackets)[j] < 48 →
        maskRowBit mask' (maskSize (bits > 16)) i (offsets mediaPackets)[j] = maskRowBit mask
          (maskSize (mediaPackets.length > 16)) i j) ∧
      (offsets mediaPackets = List.range mediaPackets.length → bits = mediaPackets.length ∧ mask' = mask) ∧
      (offsets mediaPackets ≠ List.range mediaPackets.length →
        ∀ i < n, ∀ q ∉ offsets mediaPackets, maskRowBit mask' (maskSize (bits > 16)) i q = false) := by
  match hseq : mediaPackets.map fun p => parseSequenceNumber p.data with
  | [] =>
    rw [List.map_eq_nil_iff.1 hseq] at h2
    cases h2
  | [_] =>
    have hlen := congrArg List.length hseq
    simp only [List.length_map, List.length_cons, List.length_nil] at hlen
    omega
  | first :: second :: rest =>
    have hlen := congrArg List.length hseq
    simp only [List.length_map, List.length_cons] at hlen
    have hoffs : offsets mediaPackets = (first :: second :: rest).map (column first) := by rw [offsets, hseq]
    have hsize : (offsets mediaPackets).length = rest.length + 1 + 1 := by rw [hoffs, List.length_map]; rfl
    have hold := le_oldBits h48
    have hlast : (offsets mediaPackets)[rest.length + 1] = column first ((second :: rest).getLast (by simp)) := by
      simp only [hoffs, List.getElem_map]
      rw [List.getLast_eq_getElem]
      rfl
    by_cases hgaps : column first ((second :: rest).getLast (by simp)) = rest.length + 1
    · have hrange : offsets mediaPackets = List.range mediaPackets.length := by
        rw [hlen]
        exact eq_range_of_increasing hinc hsize (by rw [hlast, hgaps])
      refine ⟨rest.length + 2, mask, ?_, ?_, fun _ => ⟨hlen.symm, rfl⟩, fun hne => absurd hrange hne⟩
      · rw [insertZerosInBitMasks, hseq]
        have hzero : (((((second :: rest).getLast?.getD first - first).toNat : Nat) : Int) -
            (((second :: rest).length + 1 : Nat) : Int) + 1) = 0 := by
          rw [column] at hgaps
          rw [List.length_cons, List.getLast?_eq_some_getLast (by simp), Option.getD_some, hgaps]
          omega
        dsimp only
        rw [if_pos hzero, List.length_cons]
      · intro i _ j hj _
        have hcol : (offsets mediaPackets)[j] = j := by
          simp only [hrange, List.getElem_range]
        rw [hcol, hlen]
    · have hchain : (first :: second :: rest).IsChain fun a b => column first a < column first b := by
        rw [hoffs] at hinc
        exact (List.isChain_map (column first)).1 hinc
      obtain ⟨c, mask', heq, hrows, hbits⟩ := insertZeros_gaps hseq hchain (by omega) (fun s hs hover => by
        have h47 := hreach (column first s) (by rw [hoffs]; exact List.mem_map_of_mem (List.mem_cons_of_mem _ hs)) hover
        rw [hoffs] at h47
        obtain ⟨t, ht, heq⟩ := List.mem_map.1 h47
        exact ⟨t, ht, heq⟩) hgaps mask n
      have hlen2 : mediaPackets.length = rest.length + 2 := hlen
      rw [← hlen2, ← hoffs] at hbits
      rw [← hlen2] at heq
      rw [← hoffs] at hrows
      refine ⟨c, mask', heq, ?_, ?_, ?_⟩
      · intro i hi j hj hlt
        have hq := hrows _ (List.getElem_mem hj) hlt
        have hj8 : j < 8 * maskSize (mediaPackets.length > 16) := by omega
        rw [maskRowBit, maskRowBit, decide_eq_true hq, decide_eq_true hj8, Bool.true_and,
          Bool.true_and, hbits i hi _ hq,
          spread_at hinc _ hj]
      · intro hrange
        refine absurd ?_ hgaps
        rw [← hlast]
        simp only [hrange, List.getElem_range]
      · intro _ i hi q hq
        rw [maskRowBit]
        by_cases hin : q < 8 * maskSize (c > 16)
        · rw [hbits i hi q hin, spread_none hq, Bool.and_false]
        · rw [decide_eq_false hin, Bool.false_and]

/-! ## A gap over the last column -/

/-- The loop copies a column behind its row. -/
theorem columns_overrun {oldBytes n : Nat} (hn : 0 < n) {first : UInt16} {rest : List UInt16}
    {prev : UInt16} {j : Nat} (m : Mask × Mask)
    (hprev : column first prev < 47) (hinc : (prev :: rest).IsChain fun a b => column first a < column first b)
    (hold : j + rest.length ≤ 8 * oldBytes) (hnone : ∀ s ∈ rest, column first s ≠ 47)
    (hover : ∃ s ∈ rest, 48 ≤ column first s) :
    columns 6 oldBytes n rest prev (column first prev + 1) j m = none := by
  induction rest generalizing prev j m with
  | nil =>
    obtain ⟨s, hs, -⟩ := hover
    cases hs
  | cons s rest ih =>
    rw [List.isChain_cons_cons] at hinc
    simp only [List.length_cons] at hold
    have hmask : maskSize true = 6 := rfl
    have hlt := hinc.1
    have hsum : column first prev + 1 + (s - prev - 1).toNat = column first s := by
      rw [zeros_eq hlt]
      omega
    have hinserted : ∃ new, (if (s - prev - 1).toNat > 0 then
        insertZeroColumns (s - prev - 1).toNat m.1 6 n (column first prev + 1) else some m.1) = some new := by
      by_cases hz : (s - prev - 1).toNat > 0
      · obtain ⟨new, heq, -⟩ := shiftByte_spec m.1 n (min (s - prev - 1).toNat (7 - (column first prev + 1) % 8))
          (show (column first prev + 1) / 8 < 6 by omega)
        exact ⟨new, by rw [if_pos hz]; exact heq⟩
      · exact ⟨m.1, if_neg hz⟩
    obtain ⟨new, hnew⟩ := hinserted
    have h47 := hnone s List.mem_cons_self
    rw [columns, if_neg (by omega)]
    simp only [hnew, hsum, Option.bind_eq_bind, Option.bind_some]
    by_cases hs : 48 ≤ column first s
    · have hrefused : copyColumn new 6 m.2 oldBytes n (column first s) j = none := by
        have hbehind : ¬ (n = 0 ∨ column first s / 8 < 6 ∧ j / 8 < oldBytes) := by omega
        exact if_neg hbehind
      rw [hrefused, Option.bind_none]
    · obtain ⟨new', old', hcopied, -, -⟩ := copyColumn_spec new m.2 n (show column first s / 8 < 6 by omega)
        (show j / 8 < oldBytes by omega)
      have hover' : ∃ t ∈ rest, 48 ≤ column first t := by
        obtain ⟨t, ht, hge⟩ := hover
        rcases List.mem_cons.1 ht with rfl | ht
        · exact absurd hge hs
        · exact ⟨t, ht, hge⟩
      rw [hcopied, Option.bind_some]
      exact ih (new', old') (by omega) hinc.2 (by omega) (fun t ht => hnone t (List.mem_cons_of_mem s ht)) hover'

/-- **A gap over the last column makes the function write behind a row.** -/
theorem insertZeros_overrun {mediaPackets : List Packet} (h48 : mediaPackets.length ≤ 48)
    (hinc : (offsets mediaPackets).IsChain (· < ·)) (hover : ¬ Reaching (offsets mediaPackets))
    (mask : Mask) {n : Nat} (hn : 0 < n) :
    insertZerosInBitMasks mediaPackets mask (maskSize (mediaPackets.length > 16)) n = none := by
  rw [Reaching] at hover
  push Not at hover
  obtain ⟨d, hd, hge, hnone⟩ := hover
  match hseq : mediaPackets.map fun p => parseSequenceNumber p.data with
  | [] =>
    rw [offsets, hseq] at hd
    cases hd
  | [first] =>
    have hoffs : offsets mediaPackets = [column first first] := by
      rw [offsets, hseq]
      rfl
    rw [hoffs, List.mem_singleton, column_self] at hd
    omega
  | first :: second :: rest =>
    have hlen := congrArg List.length hseq
    simp only [List.length_map, List.length_cons] at hlen
    have hoffs : offsets mediaPackets = (first :: second :: rest).map (column first) := by rw [offsets, hseq]
    rw [hoffs] at hd hinc hnone
    have hchain := (List.isChain_map (column first)).1 hinc
    have hmax := column_le_last hchain (by simp)
    obtain ⟨s, hs, rfl⟩ := List.mem_map.1 hd
    have hlast := hmax s hs
    rw [List.getLast_cons (show second :: rest ≠ [] by simp)] at hlast
    have hold := le_oldBits h48
    have hwide : maskSize (column first ((second :: rest).getLast (by simp)) + 1 > 16) = 6 := by
      rw [decide_eq_true (by omega)]
      rfl
    have hbehind : s ∈ second :: rest := by
      rcases List.mem_cons.1 hs with rfl | hs
      · rw [column_self] at hge
        omega
      · exact hs
    rw [insertZeros_eq hseq (by omega), hwide]
    obtain ⟨new, old, hcopied, -, -⟩ := copyColumn_spec (fun _ => 0) mask n (show 0 / 8 < 6 by omega)
      (show 0 / 8 < maskSize (mediaPackets.length > 16) by omega)
    have hrefused := columns_overrun hn (new, old) (show column first first < 47 by rw [column_self]; omega)
      hchain (show 1 + (second :: rest).length ≤ 8 * maskSize (mediaPackets.length > 16) by
        rw [List.length_cons]
        omega)
      (fun t ht h47 => hnone (List.mem_map.2 ⟨t, List.mem_cons_of_mem first ht, h47⟩)) ⟨s, hbehind, hge⟩
    rw [column_self, Nat.zero_add] at hrefused
    simp only [hcopied, hrefused, Option.bind_eq_bind, Option.bind_some, Option.bind_none]

/-! ## When the new mask is exact -/

theorem shiftByte_no_rows (mask : Mask) (bytes c shifts : Nat) : shiftByte mask bytes 0 c shifts = some mask :=
  if_pos (.inl rfl)

theorem copyColumn_no_rows (new old : Mask) (bytes oldBytes c j : Nat) :
    copyColumn new bytes old oldBytes 0 c j = some (new, old) :=
  if_pos (.inl rfl)

theorem columns_no_rows (bytes oldBytes : Nat) (rest : List UInt16) (prev : UInt16) (c j : Nat) (m : Mask × Mask) :
    ∃ c', columns bytes oldBytes 0 rest prev c j m = some (c', m) := by
  induction rest generalizing prev c j with
  | nil => exact ⟨c, rfl⟩
  | cons s rest ih =>
    rw [columns]
    split
    · exact ⟨c, rfl⟩
    · simp only [insertZeroColumns, shiftByte_no_rows, ite_self, copyColumn_no_rows, Option.bind_eq_bind,
        Option.bind_some]
      exact ih ..

/-- Without rows nothing is written. -/
theorem insertZeros_no_rows (mediaPackets : List Packet) (mask : Mask) (oldBytes : Nat) :
    ∃ r, insertZerosInBitMasks mediaPackets mask oldBytes 0 = some r := by
  unfold insertZerosInBitMasks
  split
  · exact ⟨_, rfl⟩
  · exact ⟨_, rfl⟩
  · dsimp only
    split
    · exact ⟨_, rfl⟩
    · rw [copyColumn_no_rows, Option.bind_eq_bind, Option.bind_some]
      obtain ⟨c, hcols⟩ := columns_no_rows _ oldBytes _ _ 1 1 (fun _ => 0, mask)
      rw [hcols, Option.bind_eq_bind, Option.bind_some, finishByte, shiftByte_no_rows, ite_self]
      exact ⟨_, rfl⟩

/-- The function writes in the rows only, and then bit `seq_j - seq_0` of each row is bit `j` of the old row and all
other bits are zero. -/
def ExpandsExactly (mediaPackets : List Packet) (mask : Mask) (n : Nat) : Prop :=
  ∃ bits mask', insertZerosInBitMasks mediaPackets mask (maskSize (mediaPackets.length > 16)) n = some (bits, mask') ∧
    ∀ i < n, (∀ j, (hj : j < (offsets mediaPackets).length) →
        maskRowBit mask' (maskSize (bits > 16)) i (offsets mediaPackets)[j] =
          maskRowBit mask (maskSize (mediaPackets.length > 16)) i j) ∧
      ∀ q ∉ offsets mediaPackets, maskRowBit mask' (maskSize (bits > 16)) i q = false

/-- What the code relies on. -/
structure Expandable (mediaPackets : List Packet) (mask : Mask) (n : Nat) : Prop where
  /-- There is no row, or no gap goes over the last column. -/
  reaching : 0 < n → Reaching (offsets mediaPackets)
  /-- No old row has a packet that is left out. -/
  covered : ∀ i < n, ∀ j, (hj : j < (offsets mediaPackets).length) → 48 ≤ (offsets mediaPackets)[j] →
    maskRowBit mask (maskSize (mediaPackets.length > 16)) i j = false
  /-- A mask that is left as it is has no bits behind the packets. -/
  clean : offsets mediaPackets = List.range mediaPackets.length → ∀ i < n, ∀ q, mediaPackets.length ≤ q →
    maskRowBit mask (maskSize (mediaPackets.length > 16)) i q = false

theorem maskRowBit_behind (mask : Mask) (l : Bool) (i : Nat) {q : Nat} (hq : 48 ≤ q) :
    maskRowBit mask (maskSize l) i q = false := by
  have hout : ¬ q < 8 * maskSize l := by
    rcases maskSize_cases l with ⟨h1, -⟩ | ⟨h1, -⟩
    · omega
    · omega
  rw [maskRowBit, decide_eq_false hout, Bool.false_and]

theorem Expandable.exact {mediaPackets : List Packet} {mask : Mask} {n : Nat} (h : Expandable mediaPackets mask n)
    (h2 : 2 ≤ mediaPackets.length) (h48 : mediaPackets.length ≤ 48) (hinc : (offsets mediaPackets).IsChain (· < ·)) :
    ExpandsExactly mediaPackets mask n := by
  rcases Nat.eq_zero_or_pos n with rfl | hn
  · obtain ⟨⟨bits, mask'⟩, heq⟩ := insertZeros_no_rows mediaPackets mask (maskSize (mediaPackets.length > 16))
    exact ⟨bits, mask', heq, fun i hi => absurd hi (Nat.not_lt_zero i)⟩
  · obtain ⟨bits, mask', heq, hcols, hwhole, hzero⟩ := insertZeros_reaching h2 h48 hinc (h.reaching hn) mask n
    refine ⟨bits, mask', heq, fun i hi => ⟨fun j hj => ?_, fun q hq => ?_⟩⟩
    · rcases Nat.lt_or_ge (offsets mediaPackets)[j] 48 with hlt | hge
      · exact hcols i hi j hj hlt
      · rw [maskRowBit_behind mask' _ i hge, h.covered i hi j hj hge]
    · by_cases hrange : offsets mediaPackets = List.range mediaPackets.length
      · obtain ⟨rfl, rfl⟩ := hwhole hrange
        rw [hrange, List.mem_range, Nat.not_lt] at hq
        exact h.clean hrange i hi q hq
      · exact hzero hrange i hi q hq

/-- **The new mask is exact if and only if no gap goes over the last column** and the old mask has no bits but those of
packets that get a column. -/
theorem insertZeros_exact (mediaPackets : List Packet) (h2 : 2 ≤ mediaPackets.length) (h48 : mediaPackets.length ≤ 48)
    (hinc : (offsets mediaPackets).IsChain (· < ·)) (mask : Mask) (n : Nat) :
    ExpandsExactly mediaPackets mask n ↔ Expandable mediaPackets mask n := by
  refine ⟨?_, fun h => h.exact h2 h48 hinc⟩
  rintro ⟨bits, mask', heq, hrows⟩
  have hreaching (hn : 0 < n) : Reaching (offsets mediaPackets) := by
    by_contra hover
    rw [insertZeros_overrun h48 hinc hover mask hn] at heq
    cases heq
  refine ⟨hreaching, fun i hi j hj hge => ?_, fun hrange i hi q hq => ?_⟩
  · rw [← (hrows i hi).1 j hj]
    exact maskRowBit_behind mask' _ i hge
  · obtain ⟨bits', mask'', heq', -, hwhole, -⟩ := insertZeros_reaching h2 h48 hinc
      (hreaching (Nat.zero_lt_of_lt hi)) mask n
    obtain ⟨rfl, rfl⟩ := hwhole hrange
    rw [heq] at heq'
    cases heq'
    refine (hrows i hi).2 q ?_
    rw [hrange, List.mem_range]
    omega

/-- A packet of this sequence number. -/
def numbered (s : Nat) : Packet := ⟨rtpHeaderSize, fun k => if k = 3 then UInt8.ofNat s else 0⟩

/-- A gap of eight packets; and a packet that is left out, which a row protects. -/
theorem insertZeros_exact_three :
    ExpandsExactly [numbered 7, numbered 8, numbered 17] (fun k => if k = 0 then 0xe0 else 0) 1 ∧
      ¬ ExpandsExactly [numbered 0, numbered 47, numbered 48] (fun k => if k = 0 then 0xe0 else 0) 1 := by
  constructor
  · refine (insertZeros_exact [numbered 7, numbered 8, numbered 17] (by decide) (by decide) (by decide) _ 1).2
      ⟨fun _ => by unfold Reaching; decide, ?_, fun hrange => absurd hrange (by decide)⟩
    intro i _ j hj hge
    have hlate : ∀ d ∈ offsets [numbered 7, numbered 8, numbered 17], d < 48 := by decide
    exact absurd (hlate _ (List.getElem_mem hj)) (by omega)
  · intro hexact
    have hcovered := ((insertZeros_exact [numbered 0, numbered 47, numbered 48] (by decide)
      (by decide) (by decide) _ 1).1
      hexact).covered 0 (by decide) 2 (by decide) (by decide)
    exact absurd hcovered (by decide)

/-- Two packets with a gap over the last column: the second column is written behind the row. -/
theorem gap_over_columns :
    (offsets [numbered 0, numbered 100]).IsChain (· < ·) ∧
      ¬ ExpandsExactly [numbered 0, numbered 100] (fun k => if k = 0 then 0xc0 else 0) 1 := by
  refine ⟨by decide, ?_⟩
  rintro ⟨bits, mask', heq, -⟩
  have hover : ¬ Reaching (offsets [numbered 0, numbered 100]) := by
    unfold Reaching
    decide
  rw [insertZeros_overrun (by decide) (by decide) hover _ Nat.one_pos] at heq
  cases heq

end WebRtc.Fec
