import WebRtc.Isac.Encoder

/-!
# What the decoders find

`Follows mem r s`: the decoder is four bytes into `mem`, and `streamval` is what these bytes stand for
above the least number of the range `r`. As long as the bytes stand for a number in the interval of a
symbol, the search ends at that symbol, wherever it starts.
-/

namespace WebRtc.Isac

open RangeCoder

structure Follows (mem : ℕ → UInt8) (r : Range) (s : Bitstr) : Prop where
  stream : s.stream = mem
  width : s.wUpper = r.width
  digits : r.digits = s.streamIndex + 1
  value : number mem r.digits = r.low + s.streamval

section Symbols

variable {mem : ℕ → UInt8} {r : Range} {s : Bitstr} {c : Coded}

theorem Follows.shift (h : Follows mem r s) (hmem : r.Contains mem) (hwidth : r.width < 16777216) :
    Follows mem r.shift { s with
      streamval := wrap32 (s.streamval * 256) + (s.stream (s.streamIndex + 1)).toNat
      streamIndex := s.streamIndex + 1
      wUpper := wrap32 (s.wUpper * 256) } := by
  have hw := h.width
  have hd := h.digits
  have hvalue := h.value
  have hle := hmem.2
  have hval : wrap32 (s.streamval * 256) = s.streamval * 256 := Nat.mod_eq_of_lt (by omega)
  have hwide : wrap32 (s.wUpper * 256) = s.wUpper * 256 := Nat.mod_eq_of_lt (by omega)
  refine ⟨h.stream, ?_, congrArg (· + 1) hd, ?_⟩
  · rw [hwide, hw]
    rfl
  · unfold Range.shift
    dsimp only
    rw [number_succ, hvalue, hval, h.stream, ← hd, Nat.add_mul, Nat.add_assoc]

theorem Follows.renormalize {n : ℕ} (h : Follows mem r s) (hmem : (r.renormalize 16777216 n).Contains mem)
    (hwide : 16777216 ≤ (r.renormalize 16777216 n).width) :
    ∃ s', renormalizeDec n s = .ok s' ∧ Follows mem (r.renormalize 16777216 n) s' := by
  have hw := h.width
  induction n generalizing r s with
  | zero =>
    unfold Range.renormalize at hwide ⊢
    exact ⟨s, by rw [renormalizeDec, if_neg (by omega)], h⟩
  | succ n ih =>
    have hcontains := contains_of_renormalize hmem
    unfold Range.renormalize at hmem hwide ⊢
    unfold renormalizeDec
    by_cases hnarrow : r.width < 16777216
    · rw [if_pos hnarrow] at hmem hwide ⊢
      rw [hw, if_pos hnarrow]
      have hshift := h.shift hcontains hnarrow
      rw [hw] at hshift
      exact ih hshift hmem hwide hshift.width
    · rw [if_neg hnarrow]
      exact ⟨s, by rw [hw, if_neg hnarrow], h⟩

/-- `streamval` lies in the interval of the symbol. -/
def Found (s : Bitstr) (c : Coded) : Prop := scaled s.wUpper c.lo < s.streamval ∧ s.streamval ≤ scaled s.wUpper c.hi

theorem Follows.found (h : Follows mem r s) (hr : Ready r) (hmem : (step r c).Contains mem) : Found s c := by
  obtain ⟨hlo, hhi⟩ := interval_bounds hr c
  obtain ⟨hlow, hhigh⟩ := contains_of_renormalize hmem
  have hvalue := h.value
  unfold interval Range.narrow at hlow hhigh
  dsimp only at hlow hhigh
  unfold Found
  rw [h.width]
  omega

/-- The interval that is found is shifted as in the encoder. -/
theorem Follows.take (h : Follows mem r s) (hr : Ready r) (hmem : (step r c).Contains mem) :
    ∃ s', takeInterval s (scaled s.wUpper c.lo) (scaled s.wUpper c.hi) = .ok s' ∧ Follows mem (step r c) s' := by
  obtain ⟨hlo, hhi⟩ := interval_bounds hr c
  have hfound := h.found hr hmem
  have hwidth := hr.width
  have hvalue := h.value
  unfold Found at hfound
  rw [h.width] at hfound ⊢
  have hlower : wrap32 (scaled r.width c.lo + 1) = scaled r.width c.lo + 1 := Nat.mod_eq_of_lt (by omega)
  have hsub {x : ℕ} (hx : scaled r.width c.lo + 1 ≤ x) (hlt : x < 4294967296) :
      sub32 x (scaled r.width c.lo + 1) = x - (scaled r.width c.lo + 1) := by
    unfold sub32 wrap32
    omega
  have hnarrow : Follows mem (interval r c) { s with
      wUpper := scaled r.width c.hi - (scaled r.width c.lo + 1)
      streamval := s.streamval - (scaled r.width c.lo + 1) } := by
    refine ⟨h.stream, rfl, h.digits, ?_⟩
    unfold interval Range.narrow
    dsimp only
    omega
  obtain ⟨s', hs', hnext⟩ := hnarrow.renormalize hmem (hr.step c).least
  refine ⟨s', ?_, hnext⟩
  unfold takeInterval
  rw [hlower]
  dsimp only
  rw [hsub (by omega) (by omega), hsub (by omega) (by omega)]
  exact hs'

/-! ## The search -/

/-- The entry behind `i`, and those behind it. -/
theorem Cdf.drop (cdf : Cdf) {i : ℕ} (hi : i < cdf.entries.length) :
    cdf.entries.drop i = cdf.val i :: cdf.entries.drop (i + 1) := by
  rw [List.drop_eq_getElem_cons hi, Cdf.val, List.getD_eq_getElem?_getD, List.getElem?_eq_getElem hi, Option.getD_some]

theorem scaledAt_ok (w : ℕ) (cdf : Cdf) {i : ℕ} (hi : i < cdf.entries.length) :
    scaledAt w cdf.entries i = .ok (scaled w (cdf.val i)) := by
  have hnonneg : ¬ (i : ℤ) < 0 := by omega
  rw [scaledAt, if_neg hnonneg, Int.toNat_natCast, cdf.getElem? hi]

section Search

/-- The ends of the interval above the first `m` entries. Above no entry the lower end is `wLower`, above
all of them the upper end is the width. -/
def lowerEnd (s : Bitstr) (cdf : Cdf) (wLower m : ℕ) : ℕ := if m = 0 then wLower else scaled s.wUpper (cdf.val (m - 1))

def upperEnd (s : Bitstr) (cdf : Cdf) (m : ℕ) : ℕ :=
  if m < cdf.entries.length then scaled s.wUpper (cdf.val m) else s.wUpper

/-- The first `m` entries lie below `streamval`, the others do not. -/
structure Below (s : Bitstr) (cdf : Cdf) (m : ℕ) : Prop where
  le : m ≤ cdf.entries.length
  entry : ∀ i < cdf.entries.length, (scaled s.wUpper (cdf.val i) < s.streamval ↔ i < m)

section Below

variable {cdf : Cdf} {m : ℕ}

theorem Below.stepUp (h : Below s cdf m) (n : ℕ) {i : ℕ} (hi : i + n + 1 = m) :
    Isac.stepUp s i (cdf.val i) (scaled s.wUpper (cdf.val i)) (cdf.entries.drop (i + 1)) =
      if m = cdf.entries.length then .error (.code (-3))
      else .ok ((m : ℤ) - 1, scaled s.wUpper (cdf.val (m - 1)), scaled s.wUpper (cdf.val m)) := by
  have hle := h.le
  induction n generalizing i with
  | zero =>
    obtain rfl : i + 1 = m := hi
    by_cases hend : i + 1 = cdf.entries.length
    · have hlast : cdf.val i = 65535 := by
        have hval := cdf.last
        rwa [← hend] at hval
      rw [List.drop_eq_nil_of_le (Nat.le_of_eq hend.symm), Isac.stepUp, if_pos hlast, if_pos hend]
    · have hlt : i + 1 < cdf.entries.length := by omega
      have hnext := (h.entry _ hlt).not.2 (Nat.lt_irrefl _)
      have hne : cdf.val i ≠ 65535 :=
        Nat.ne_of_lt (Nat.lt_of_lt_of_le (cdf.lt (Nat.lt_succ_self _) hlt) (cdf.le hlt))
      rw [cdf.drop hlt, Isac.stepUp, if_neg hne, if_neg hend]
      dsimp only
      rw [if_pos (Nat.not_lt.1 hnext), Nat.add_sub_cancel, Nat.cast_succ, add_sub_cancel_right]
  | succ n ih =>
    have hlt : i + 1 < cdf.entries.length := by omega
    have hnext := (h.entry _ hlt).2 (by omega)
    have hne : cdf.val i ≠ 65535 :=
      Nat.ne_of_lt (Nat.lt_of_lt_of_le (cdf.lt (Nat.lt_succ_self _) hlt) (cdf.le hlt))
    rw [cdf.drop hlt, Isac.stepUp, if_neg hne]
    dsimp only
    rw [if_neg (Nat.not_le.2 hnext)]
    exact ih (i := i + 1) (by omega)

theorem Below.stepDown (h : Below s cdf m) {i : ℕ} (hi : m ≤ i) (hlen : i < cdf.entries.length) :
    Isac.stepDown s cdf.entries i (scaled s.wUpper (cdf.val i)) =
      if m = 0 then .error (.code (-3))
      else .ok ((m : ℤ) - 1, scaled s.wUpper (cdf.val (m - 1)), scaled s.wUpper (cdf.val m)) := by
  induction i with
  | zero =>
    obtain rfl : m = 0 := Nat.le_zero.1 hi
    rw [Isac.stepDown, if_pos rfl]
  | succ i ih =>
    have hlt := Nat.lt_of_succ_lt hlen
    rw [Isac.stepDown, scaledAt_ok _ _ hlt]
    change (if _ then _ else _) = _
    by_cases hm : m ≤ i
    · rw [if_neg ((h.entry _ hlt).not.2 (Nat.not_lt.2 hm))]
      exact ih hm hlt
    · obtain rfl : m = i + 1 := by omega
      rw [if_pos ((h.entry _ hlt).2 (Nat.lt_succ_self _)), if_neg (Nat.succ_ne_zero _), Nat.add_sub_cancel,
        Nat.cast_succ, add_sub_cancel_right]

/-- The search in single steps, from any entry of the table. It runs off the table at either end. -/
theorem Below.oneStep (h : Below s cdf m) {i : ℕ} (hi : i < cdf.entries.length) :
    Isac.oneStep s cdf.entries i =
      if m = 0 ∨ m = cdf.entries.length then .error (.code (-3))
      else .ok ((m : ℤ) - 1, scaled s.wUpper (cdf.val (m - 1)), scaled s.wUpper (cdf.val m)) := by
  unfold Isac.oneStep
  rw [cdf.getElem? hi]
  dsimp only
  by_cases hm : i < m
  · rw [if_pos ((h.entry _ hi).2 hm), h.stepUp (m - (i + 1)) (by omega)]
    have hpos : m ≠ 0 := by omega
    simp only [hpos, false_or]
  · rw [if_neg ((h.entry _ hi).not.2 hm), h.stepDown (Nat.not_lt.1 hm) hi]
    have hne : m ≠ cdf.entries.length := by omega
    simp only [hne, or_false]

theorem bisectLoop_succ {cdf : List ℕ} {fuel sizeTmp wLower wUpper wTmp : ℕ} {cdfPtr : ℤ}
    (h : scaledAt s.wUpper cdf cdfPtr = .ok wTmp) :
    Isac.bisectLoop s cdf (fuel + 1) sizeTmp cdfPtr wLower wUpper =
      if sizeTmp / 2 = 0 then
        if wTmp < s.streamval then .ok (cdfPtr, wTmp, wUpper) else .ok (cdfPtr - 1, wLower, wTmp)
      else if wTmp < s.streamval then Isac.bisectLoop s cdf fuel (sizeTmp / 2) (cdfPtr + (sizeTmp / 2 : ℕ)) wTmp wUpper
      else Isac.bisectLoop s cdf fuel (sizeTmp / 2) (cdfPtr - (sizeTmp / 2 : ℕ)) wLower wTmp := by
  rw [Isac.bisectLoop, h]
  rfl

theorem lowerEnd_succ (s : Bitstr) (cdf : Cdf) (wLower m : ℕ) :
    lowerEnd s cdf wLower (m + 1) = scaled s.wUpper (cdf.val m) := if_neg (Nat.succ_ne_zero m)

theorem upperEnd_lt {i : ℕ} (hi : i < cdf.entries.length) : upperEnd s cdf i = scaled s.wUpper (cdf.val i) := if_pos hi

/-- The bisection: `a` entries lie below `streamval`, and at most `2 ^ (j + 1) - 1` of those that follow. -/
theorem Below.bisectLoop (h : Below s cdf m) (wLower j : ℕ) {a fuel : ℕ} (hfuel : j < fuel) (ha : a ≤ m)
    (hm : m < a + 2 ^ (j + 1)) (hlen : a + 2 ^ (j + 1) ≤ cdf.entries.length + 1) :
    Isac.bisectLoop s cdf.entries fuel (2 ^ j) ((a + 2 ^ j : ℕ) - 1 : ℤ) (lowerEnd s cdf wLower a)
        (upperEnd s cdf (a + 2 ^ (j + 1) - 1)) =
      .ok ((m : ℤ) - 1, lowerEnd s cdf wLower m, upperEnd s cdf m) := by
  induction j generalizing a fuel with
  | zero =>
    obtain ⟨fuel, rfl⟩ := Nat.exists_eq_succ_of_ne_zero (Nat.ne_of_gt hfuel)
    have hptr : (((a + 2 ^ 0 : ℕ) : ℤ) - 1) = (a : ℕ) := by omega
    have hlt : a < cdf.entries.length := by omega
    rw [hptr, bisectLoop_succ (scaledAt_ok _ _ hlt), if_pos (by norm_num)]
    by_cases hbelow : a < m
    · obtain rfl : m = a + 1 := by omega
      have hback : ((a + 1 : ℕ) : ℤ) - 1 = a := by omega
      rw [if_pos ((h.entry _ hlt).2 hbelow), lowerEnd_succ, hback]
      rfl
    · obtain rfl : m = a := by omega
      rw [if_neg ((h.entry _ hlt).not.2 hbelow), upperEnd_lt hlt]
  | succ j ih =>
    obtain ⟨fuel, rfl⟩ := Nat.exists_eq_succ_of_ne_zero (Nat.ne_of_gt (Nat.lt_of_le_of_lt (Nat.zero_le _) hfuel))
    have hpow : 2 ^ (j + 1 + 1) = 2 ^ (j + 1) + 2 ^ (j + 1) := by rw [pow_succ, Nat.mul_two]
    have hhalf : 2 ^ (j + 1) = 2 ^ j + 2 ^ j := by rw [pow_succ, Nat.mul_two]
    have hpos : 0 < 2 ^ j := Nat.two_pow_pos j
    have hsize : 2 ^ (j + 1) / 2 = 2 ^ j := by omega
    have hptr : (((a + 2 ^ (j + 1) : ℕ) : ℤ) - 1) = (a + 2 ^ (j + 1) - 1 : ℕ) := by omega
    have hlt : a + 2 ^ (j + 1) - 1 < cdf.entries.length := by omega
    rw [hptr, bisectLoop_succ (scaledAt_ok _ _ hlt), hsize, if_neg (by omega)]
    by_cases hbelow : a + 2 ^ (j + 1) - 1 < m
    · have hnext : ((a + 2 ^ (j + 1) - 1 : ℕ) : ℤ) + (2 ^ j : ℕ) = ((a + 2 ^ (j + 1) + 2 ^ j : ℕ) : ℤ) - 1 := by omega
      have hsame : a + 2 ^ (j + 1 + 1) - 1 = a + 2 ^ (j + 1) + 2 ^ (j + 1) - 1 := by omega
      have hlower : lowerEnd s cdf wLower (a + 2 ^ (j + 1)) = scaled s.wUpper (cdf.val (a + 2 ^ (j + 1) - 1)) :=
        if_neg (by omega)
      rw [if_pos ((h.entry _ hlt).2 hbelow), hnext, hsame, ← hlower]
      exact ih (a := a + 2 ^ (j + 1)) (by omega) (by omega) (by omega) (by omega)
    · have hnext : ((a + 2 ^ (j + 1) - 1 : ℕ) : ℤ) - (2 ^ j : ℕ) = ((a + 2 ^ j : ℕ) : ℤ) - 1 := by omega
      rw [if_neg ((h.entry _ hlt).not.2 hbelow), hnext, ← upperEnd_lt hlt]
      exact ih (a := a) (by omega) ha (by omega) (by omega)

/-- The bisection of a table with one entry less than a power of two. It never fails. -/
theorem Below.bisect (h : Below s cdf m) {k : ℕ} (hlen : cdf.entries.length + 1 = 2 ^ k) (wLower : ℕ) :
    Isac.bisect s cdf.entries (2 ^ k) wLower = .ok ((m : ℤ) - 1, lowerEnd s cdf wLower m, upperEnd s cdf m) := by
  have hentries := cdf.length_pos
  have hle := h.le
  cases k with
  | zero => omega
  | succ j =>
    have hhalf : 2 ^ (j + 1) = 2 ^ j + 2 ^ j := by rw [pow_succ, Nat.mul_two]
    have hsize : 2 ^ (j + 1) / 2 = 2 ^ j := by omega
    have hfuel : j < 2 ^ (j + 1) + 1 := by
      have := Nat.lt_two_pow_self (n := j + 1)
      omega
    have hptr : ((2 ^ j : ℕ) : ℤ) - 1 = ((0 + 2 ^ j : ℕ) : ℤ) - 1 := by rw [Nat.zero_add]
    have hupper : s.wUpper = upperEnd s cdf (0 + 2 ^ (j + 1) - 1) := (if_neg (by omega)).symm
    have hloop := h.bisectLoop wLower j hfuel (Nat.zero_le _) (by omega) (by omega)
    unfold Isac.bisect
    dsimp only
    rw [hsize, hptr]
    rw [← hupper] at hloop
    exact hloop

end Below

variable (hw : s.wUpper < 4294967296)
include hw

/-- The entries up to the symbol lie below `streamval`, the others do not. -/
theorem Found.below (h : Found s c) : Below s c.cdf (c.data + 1) := by
  refine ⟨Nat.le_of_lt c.inside, fun i hi => ⟨fun hlt => ?_, fun hle => ?_⟩⟩
  · by_contra hle
    have hmono := scaled_mono hw (c.cdf.mono (i := c.data + 1) (j := i) (by omega) hi) (c.cdf.le hi)
    have hhi : s.streamval ≤ scaled s.wUpper (c.cdf.val (c.data + 1)) := h.2
    omega
  · have hdata : c.data < c.cdf.entries.length := Nat.lt_of_succ_lt c.inside
    have hmono := scaled_mono hw (c.cdf.mono (Nat.le_of_lt_succ hle) hdata) (c.cdf.le hdata)
    exact Nat.lt_of_le_of_lt hmono h.1

/-- The search in single steps, from any entry of the table. -/
theorem Found.oneStep (h : Found s c) {i : ℕ} (hi : i < c.cdf.entries.length) :
    Isac.oneStep s c.cdf.entries i = .ok (c.data, scaled s.wUpper c.lo, scaled s.wUpper c.hi) := by
  have hinside := c.inside
  rw [(h.below hw).oneStep hi, if_neg (by omega), Nat.cast_succ, add_sub_cancel_right]
  rfl

/-- The bisection of a table with one entry less than a power of two. -/
theorem Found.bisect (h : Found s c) {k : ℕ} (hlen : c.cdf.entries.length + 1 = 2 ^ k) (wLower : ℕ) :
    Isac.bisect s c.cdf.entries (2 ^ k) wLower = .ok (c.data, scaled s.wUpper c.lo, scaled s.wUpper c.hi) := by
  rw [(h.below hw).bisect hlen, lowerEnd_succ, upperEnd_lt c.inside, Nat.cast_succ, add_sub_cancel_right]
  rfl

end Search

end Symbols

end WebRtc.Isac
