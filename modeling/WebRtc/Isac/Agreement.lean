import WebRtc.Isac.Lossless

/-!
# The two histogram decoders on damaged streams

The decoder in single steps and the bisection look for the same place in the table (`Below`). In front of the
first entry and behind the last one there is no symbol: the one reports an error there, the other goes on with
an index outside the symbols, and with an end of the interval that is left over. A stream is undamaged when what
is left of it stands for a number in the intervals of some symbols (`Spells`); the decoders agree on all streams,
but errors are reported by both only as long as there is none to report.
-/

namespace WebRtc.Isac

open RangeCoder

/-- A table of `2 ^ k - 1` entries and an initial search index inside it. -/
structure SharedTable where
  cdf : Cdf
  k : ℕ
  size : cdf.entries.length + 1 = 2 ^ k
  initIndex : ℕ
  inside : initIndex < cdf.entries.length

def oneStepArgs (tables : List SharedTable) : List (List ℕ × ℕ) :=
  tables.map fun table => (table.cdf.entries, table.initIndex)

def bisectArgs (tables : List SharedTable) : List (List ℕ × ℕ) :=
  tables.map fun table => (table.cdf.entries, 2 ^ table.k)

/-- What one decoder decodes the other decodes too, and where the one finds the stream damaged the other does
not return symbols. -/
def Agree (s : Bitstr) (tables : List SharedTable) : Prop :=
  (∀ out, decHistOneStepMulti s (oneStepArgs tables) = .ok out → decHistBisectMulti s (bisectArgs tables) = .ok out) ∧
    (decHistOneStepMulti s (oneStepArgs tables) = .error (.code (-3)) →
      ∀ out, decHistBisectMulti s (bisectArgs tables) ≠ .ok out)

/-! ## Undamaged streams -/

/-- What is left to decode: the four bytes in `streamval`, then those behind them. -/
def window (s : Bitstr) : ℕ → UInt8 := fun i =>
  if i < 4 then UInt8.ofNat (s.streamval / 256 ^ (3 - i) % 256) else s.stream (s.streamIndex + 1 + (i - 4))

def whole (s : Bitstr) : Range := { low := 0, width := s.wUpper, digits := 4 }

/-- The bytes stand for a number in the interval of each of the symbols. -/
def Spells (mem : ℕ → UInt8) : Range → List Coded → Prop
  | _, [] => True
  | r, c :: l => (interval r c).Contains mem ∧ Spells mem (step r c) l

/-- The decoder has read the digits of `r`, wherever they are in its own memory. -/
structure Reads (mem : ℕ → UInt8) (r : Range) (s : Bitstr) : Prop where
  width : s.wUpper = r.width
  bytes : ∀ i, s.stream (s.streamIndex + 1 + i) = mem (r.digits + i)
  value : number mem r.digits = r.low + s.streamval

theorem window_reads {s : Bitstr} (hval : s.streamval < 4294967296) : Reads (window s) (whole s) s := by
  refine ⟨rfl, fun i => ?_, ?_⟩
  · unfold window whole
    dsimp only
    rw [if_neg (by omega), Nat.add_sub_cancel_left]
  · have hbyte {i : ℕ} (hi : i < 4) : (window s i).toNat = s.streamval / 256 ^ (3 - i) % 256 := by
      unfold window
      rw [if_pos hi, UInt8.toNat_ofNat']
      omega
    change number (window s) 4 = 0 + s.streamval
    rw [number_succ, number_succ, number_succ, number_succ, number_zero, hbyte (by decide), hbyte (by decide),
      hbyte (by decide), hbyte (by decide)]
    norm_num
    omega

section Reading

variable {mem : ℕ → UInt8} {r : Range} {s : Bitstr} {c : Coded}

theorem Reads.found_iff (h : Reads mem r s) (hr : Ready r) : Found s c ↔ (interval r c).Contains mem := by
  obtain ⟨hlo, hhi⟩ := interval_bounds hr c
  have hvalue := h.value
  unfold Found interval Range.narrow Range.Contains
  dsimp only
  rw [h.width]
  omega

theorem Reads.shift (h : Reads mem r s) (hval : s.streamval < 16777216) (hwidth : r.width < 16777216) :
    Reads mem r.shift { s with
      streamval := wrap32 (s.streamval * 256) + (s.stream (s.streamIndex + 1)).toNat
      streamIndex := s.streamIndex + 1
      wUpper := wrap32 (s.wUpper * 256) } := by
  have hw := h.width
  have hbyte : s.stream (s.streamIndex + 1) = mem r.digits := h.bytes 0
  have hvalue := h.value
  have hval' : wrap32 (s.streamval * 256) = s.streamval * 256 := Nat.mod_eq_of_lt (by omega)
  have hwide : wrap32 (s.wUpper * 256) = s.wUpper * 256 := Nat.mod_eq_of_lt (by omega)
  refine ⟨?_, fun i => ?_, ?_⟩
  · rw [hwide, hw]
    rfl
  · have hnext := h.bytes (i + 1)
    rw [Nat.add_comm i 1, ← Nat.add_assoc, ← Nat.add_assoc] at hnext
    exact hnext
  · unfold Range.shift
    dsimp only
    rw [number_succ, hvalue, hval', hbyte, Nat.add_mul, Nat.add_assoc]

/-- `d` is what one number of the range has become by the shifts so far. No bit of `streamval` is lost as long
as it lies less than that above the range. -/
theorem Reads.renormalize (h : Reads mem r s) {d n : ℕ} (hdvd : d ∣ s.wUpper) (hd : d * 256 ^ n ∣ 16777216)
    (hpos : 0 < s.wUpper) (hval : s.streamval < s.wUpper + d) (hwide : 16777216 ≤ (r.renormalize 16777216 n).width) :
    ∃ s', renormalizeDec n s = .ok s' ∧ Reads mem (r.renormalize 16777216 n) s' ∧
      (s.wUpper ≤ s.streamval → s'.wUpper ≤ s'.streamval) := by
  have hw := h.width
  induction n generalizing r s d with
  | zero =>
    unfold Range.renormalize at hwide ⊢
    exact ⟨s, by rw [renormalizeDec, if_neg (by omega)], h, id⟩
  | succ n ih =>
    unfold Range.renormalize at hwide ⊢
    unfold renormalizeDec
    by_cases hnarrow : r.width < 16777216
    · have hfits : s.wUpper + d ≤ 16777216 := by
        have hunit : d ∣ 16777216 := Dvd.dvd.trans (Dvd.intro _ rfl) hd
        have hleft := Nat.le_of_dvd (by omega) (Nat.dvd_sub hunit hdvd)
        omega
      have hupper : wrap32 (s.wUpper * 256) = s.wUpper * 256 := Nat.mod_eq_of_lt (by omega)
      have hvalue : wrap32 (s.streamval * 256) = s.streamval * 256 := Nat.mod_eq_of_lt (by omega)
      have hbyte := (s.stream (s.streamIndex + 1)).toNat_lt
      have hshift := h.shift (by omega) hnarrow
      rw [if_pos hnarrow] at hwide ⊢
      rw [hw, if_pos hnarrow, ← hw]
      rw [pow_succ, Nat.mul_comm (256 ^ n), ← Nat.mul_assoc] at hd
      obtain ⟨s', hs', hreads, hkept⟩ := ih hshift (d := d * 256) (by rw [hupper]; exact Nat.mul_dvd_mul_right hdvd 256)
        hd (by rw [hupper]; dsimp only; omega) (by rw [hupper, hvalue]; dsimp only; omega) hwide hshift.width
      refine ⟨s', hs', hreads, fun hle => hkept ?_⟩
      rw [hupper, hvalue]
      dsimp only
      omega
    · rw [if_neg hnarrow]
      exact ⟨s, by rw [hw, if_neg hnarrow], h, id⟩

/-- The interval that is found is shifted as in the encoder, also when the bytes that follow lead out of it. -/
theorem Reads.take (h : Reads mem r s) (hr : Ready r) (hfound : Found s c) :
    ∃ s', takeInterval s (scaled s.wUpper c.lo) (scaled s.wUpper c.hi) = .ok s' ∧ Reads mem (step r c) s' := by
  obtain ⟨hlo, hhi⟩ := interval_bounds hr c
  have hwidth := hr.width
  have hvalue := h.value
  unfold Found at hfound
  rw [h.width] at hfound ⊢
  have hlower : wrap32 (scaled r.width c.lo + 1) = scaled r.width c.lo + 1 := Nat.mod_eq_of_lt (by omega)
  have hsub {x : ℕ} (hx : scaled r.width c.lo + 1 ≤ x) (hlt : x < 4294967296) :
      sub32 x (scaled r.width c.lo + 1) = x - (scaled r.width c.lo + 1) := by
    unfold sub32 wrap32
    omega
  have hnarrow : Reads mem (interval r c) { s with
      wUpper := scaled r.width c.hi - (scaled r.width c.lo + 1)
      streamval := s.streamval - (scaled r.width c.lo + 1) } := by
    refine ⟨rfl, h.bytes, ?_⟩
    unfold interval Range.narrow
    dsimp only
    omega
  obtain ⟨s', hs', hnext, -⟩ := hnarrow.renormalize (d := 1) (Nat.one_dvd _) (by norm_num) (by dsimp only; omega)
    (by dsimp only; omega) (hr.step c).least
  refine ⟨s', ?_, hnext⟩
  unfold takeInterval
  rw [hlower]
  dsimp only
  rw [hsub (by omega) (by omega), hsub (by omega) (by omega)]
  exact hs'

end Reading

/-! ## Damaged streams -/

section Search

variable {s : Bitstr} {cdf : Cdf} {m : ℕ}

theorem exists_below (hw : s.wUpper < 4294967296) (cdf : Cdf) : ∃ m, Below s cdf m := by
  by_cases hall : ∃ i, i < cdf.entries.length ∧ ¬ scaled s.wUpper (cdf.val i) < s.streamval
  · obtain ⟨hlt, hfirst⟩ := Nat.find_spec hall
    refine ⟨Nat.find hall, Nat.le_of_lt hlt, fun i hi => ⟨fun hbelow => ?_, fun hless => ?_⟩⟩
    · by_contra hge
      have hmono := scaled_mono hw (cdf.mono (Nat.not_lt.1 hge) hi) (cdf.le hi)
      omega
    · have hmin := Nat.find_min hall hless
      by_contra hnot
      exact hmin ⟨hi, hnot⟩
  · refine ⟨cdf.entries.length, Nat.le_refl _, fun i hi => ⟨fun _ => hi, fun _ => ?_⟩⟩
    by_contra hnot
    exact hall ⟨i, hi, hnot⟩

/-- The symbol is told by the entries below `streamval`. -/
theorem Below.found_iff (h : Below s cdf m) {c : Coded} (hc : c.cdf = cdf) : Found s c ↔ m = c.data + 1 := by
  subst hc
  have hinside := c.inside
  have hlow := h.entry c.data (by omega)
  have hhigh := h.entry (c.data + 1) hinside
  unfold Found Coded.lo Coded.hi
  omega

/-- Above an entry the interval is wide, also the one above the last entry. -/
theorem Below.ends (h : Below s cdf m) (hw : s.wUpper < 4294967296) (hleast : 16777216 ≤ s.wUpper) (hm : m ≠ 0) :
    scaled s.wUpper (cdf.val (m - 1)) + 256 ≤ upperEnd s cdf m ∧ upperEnd s cdf m ≤ s.wUpper := by
  have hle := h.le
  unfold upperEnd
  by_cases hlt : m < cdf.entries.length
  · have hadd := scaled_add hw (cdf.lt (i := m - 1) (by omega) hlt) (cdf.le hlt)
    rw [if_pos hlt]
    exact ⟨by omega, scaled_le hw (cdf.le hlt)⟩
  · have hlast : cdf.val (m - 1) = 65535 := by
      rw [← cdf.last]
      congr 1
      omega
    rw [if_neg hlt, hlast, scaled_eq hw (Nat.le_refl _)]
    omega

end Search

theorem renormalizeDec_wide {s : Bitstr} {n : ℕ} (h : 16777216 ≤ s.wUpper * 256 ^ n) (hlt : s.wUpper < 4294967296) :
    ∃ s', renormalizeDec n s = .ok s' ∧ 16777216 ≤ s'.wUpper ∧ s'.wUpper < 4294967296 := by
  induction n generalizing s with
  | zero =>
    rw [pow_zero, Nat.mul_one] at h
    exact ⟨s, by rw [renormalizeDec, if_neg (by omega)], h, hlt⟩
  | succ n ih =>
    unfold renormalizeDec
    by_cases hnarrow : s.wUpper < 16777216
    · have hupper : wrap32 (s.wUpper * 256) = s.wUpper * 256 := Nat.mod_eq_of_lt (by omega)
      rw [if_pos hnarrow]
      apply ih
      · rw [hupper, Nat.mul_assoc, ← pow_succ']
        exact h
      · rw [hupper]
        dsimp only
        omega
    · rw [if_neg hnarrow]
      exact ⟨s, rfl, Nat.not_lt.1 hnarrow, hlt⟩

/-- The interval above an entry. -/
theorem takeInterval_wide {s : Bitstr} {lower upper : ℕ} (hgap : lower + 256 ≤ upper) (hlt : upper < 4294967296) :
    ∃ s', takeInterval s lower upper = .ok s' ∧ 16777216 ≤ s'.wUpper ∧ s'.wUpper < 4294967296 := by
  have hwrap : wrap32 (lower + 1) = lower + 1 := Nat.mod_eq_of_lt (by omega)
  have hsub : sub32 upper (lower + 1) = upper - (lower + 1) := by
    unfold sub32 wrap32
    omega
  unfold takeInterval
  rw [hwrap]
  dsimp only
  rw [hsub]
  exact renormalizeDec_wide (by dsimp only; omega) (by dsimp only; omega)

/-- The interval in front of the first entry: its upper end is zero, and its lower end is left over from the
symbol before. The width and `streamval` both become what is missing to 2^32. -/
theorem takeInterval_stale {s : Bitstr} {lower : ℕ} (hval : s.streamval = 0) (hlower : lower + 1 < 4294967296) :
    ∃ s', takeInterval s lower 0 = .ok s' ∧ 16777216 ≤ s'.wUpper ∧ s'.wUpper < 4294967296 ∧ s'.streamval ≠ 0 := by
  have hwrap : wrap32 (lower + 1) = lower + 1 := Nat.mod_eq_of_lt hlower
  have hsub : sub32 0 (lower + 1) = 4294967296 - (lower + 1) := by
    unfold sub32 wrap32
    omega
  unfold takeInterval
  rw [hwrap, hval]
  dsimp only
  rw [hsub]
  generalize hmissing : 4294967296 - (lower + 1) = missing
  have hreads := window_reads (s := { s with wUpper := missing, streamval := missing }) (by dsimp only; omega)
  have hleast : 16777216 ≤ ((whole { s with wUpper := missing, streamval := missing }).renormalize 16777216 3).width :=
    le_renormalize_width (by unfold whole; dsimp only; omega)
  have hwidth : ((whole { s with wUpper := missing, streamval := missing }).renormalize 16777216 3).width <
      4294967296 := renormalize_width_lt (by unfold whole; dsimp only; omega) (by decide)
  obtain ⟨s', hs', hnext, hkept⟩ := hreads.renormalize (d := 1) (Nat.one_dvd _) (by norm_num) (by dsimp only; omega)
    (Nat.lt_succ_self _) hleast
  rw [← hnext.width] at hleast hwidth
  have hle := hkept (Nat.le_refl _)
  exact ⟨s', hs', hleast, hwidth, by omega⟩

/-- A symbol is decoded by bisection whatever the stream is. In front of the first entry it begins where the last
symbol did, and the next one is not in front of the first entry again. -/
theorem bisect_total {s : Bitstr} (hleast : 16777216 ≤ s.wUpper) (hw : s.wUpper < 4294967296) (table : SharedTable)
    {wLower : ℕ} (hstale : s.streamval = 0 → wLower + 1 < 4294967296) :
    ∃ data lower upper s', bisect s table.cdf.entries (2 ^ table.k) wLower = .ok (data, lower, upper) ∧
      takeInterval s lower upper = .ok s' ∧ 16777216 ≤ s'.wUpper ∧ s'.wUpper < 4294967296 ∧
      (s'.streamval = 0 → wrap32 (lower + 1) + 1 < 4294967296) := by
  obtain ⟨m, hbelow⟩ := exists_below hw table.cdf
  have hsearch := hbelow.bisect table.size wLower
  by_cases hm : m = 0
  · subst hm
    have hfirst := hbelow.entry 0 table.cdf.length_pos
    rw [table.cdf.zero, scaled_zero] at hfirst
    have hval : s.streamval = 0 := by omega
    have hupper : upperEnd s table.cdf 0 = 0 := by
      rw [upperEnd_lt table.cdf.length_pos, table.cdf.zero, scaled_zero]
    obtain ⟨s', htake, hleast', hw', hne⟩ := takeInterval_stale hval (hstale hval)
    rw [hupper] at hsearch
    exact ⟨_, _, _, s', hsearch, htake, hleast', hw', fun h0 => absurd h0 hne⟩
  · obtain ⟨hgap, hle⟩ := hbelow.ends hw hleast hm
    have hend : lowerEnd s table.cdf wLower m = scaled s.wUpper (table.cdf.val (m - 1)) := if_neg hm
    obtain ⟨s', htake, hleast', hw'⟩ := takeInterval_wide (s := s) hgap (by omega)
    rw [hend] at hsearch
    refine ⟨_, _, _, s', hsearch, htake, hleast', hw', fun _ => ?_⟩
    unfold wrap32
    omega

theorem bisectSymbols_total {s : Bitstr} (hleast : 16777216 ≤ s.wUpper) (hw : s.wUpper < 4294967296)
    (tables : List SharedTable) {wLower : ℕ} (hstale : s.streamval = 0 → wLower + 1 < 4294967296) :
    ∃ out, bisectSymbols s wLower (bisectArgs tables) = .ok out := by
  induction tables generalizing s wLower with
  | nil => exact ⟨([], s), rfl⟩
  | cons table tables ih =>
    obtain ⟨data, lower, upper, s₁, hsearch, htake, hleast₁, hw₁, hstale₁⟩ := bisect_total hleast hw table hstale
    obtain ⟨⟨l, s'⟩, hrest⟩ := ih hleast₁ hw₁ hstale₁
    exact ⟨_, bisectSymbols_cons hsearch htake (by omega) hrest⟩

/-- Outside the symbols the search in single steps ends the call. -/
theorem oneStepSymbols_error {s : Bitstr} {table : SharedTable} {tables : List SharedTable} {m : ℕ}
    (h : Below s table.cdf m) (hm : m = 0 ∨ m = table.cdf.entries.length) :
    oneStepSymbols s (oneStepArgs (table :: tables)) = .error (.code (-3)) := by
  unfold oneStepArgs
  rw [List.map_cons, oneStepSymbols, h.oneStep table.inside, if_pos hm]
  rfl

/-! ## Both decoders -/

/-- An error of a later symbol is the error of the call. -/
theorem oneStepSymbols_rest {s s₁ : Bitstr} {table : SharedTable} {tables : List SharedTable} {data : ℤ}
    {lower upper : ℕ} (hsearch : oneStep s table.cdf.entries table.initIndex = .ok (data, lower, upper))
    (htake : takeInterval s lower upper = .ok s₁)
    (hrest : oneStepSymbols s₁ (oneStepArgs tables) = .error (.code (-3))) :
    oneStepSymbols s (oneStepArgs (table :: tables)) = .error (.code (-3)) := by
  unfold oneStepArgs at hrest ⊢
  rw [List.map_cons, oneStepSymbols, hsearch, ok_bind]
  dsimp only
  rw [htake, ok_bind, hrest]
  rfl

/-- Either the bytes spell symbols of the tables, and both decoders find them; or they spell none, and one
decoder reports it and the other does not. -/
theorem symbols_cases {mem : ℕ → UInt8} {r : Range} {s : Bitstr} (h : Reads mem r s) (hr : Ready r)
    (tables : List SharedTable) (wLower : ℕ) (hstale : s.streamval = 0 → wLower + 1 < 4294967296) :
    (∃ l s', l.map Coded.cdf = tables.map SharedTable.cdf ∧ Spells mem r l ∧
        oneStepSymbols s (oneStepArgs tables) = .ok (symbols l, s') ∧
        bisectSymbols s wLower (bisectArgs tables) = .ok (symbols l, s')) ∨
      (∀ l, l.map Coded.cdf = tables.map SharedTable.cdf → ¬ Spells mem r l) ∧
        oneStepSymbols s (oneStepArgs tables) = .error (.code (-3)) ∧
        ∃ out, bisectSymbols s wLower (bisectArgs tables) = .ok out := by
  induction tables generalizing r s wLower with
  | nil => exact .inl ⟨[], s, rfl, trivial, rfl, rfl⟩
  | cons table tables ih =>
    have hwidth := h.width
    have hleast : 16777216 ≤ s.wUpper := by rw [hwidth]; exact hr.least
    have hw : s.wUpper < 4294967296 := by rw [hwidth]; exact hr.width
    have htotal := bisectSymbols_total hleast hw (table :: tables) hstale
    obtain ⟨m, hbelow⟩ := exists_below hw table.cdf
    have hle := hbelow.le
    by_cases hm : m = 0 ∨ m = table.cdf.entries.length
    · refine .inr ⟨fun l hl hspells => ?_, oneStepSymbols_error hbelow hm, htotal⟩
      obtain ⟨c, l, rfl, hc, -⟩ := List.map_eq_cons_iff.1 hl
      have hdata := (hbelow.found_iff hc).1 ((h.found_iff hr).2 hspells.1)
      have hinside := c.inside
      rw [hc] at hinside
      omega
    · -- the symbol, and the state behind it
      let c : Coded := ⟨table.cdf, m - 1, by omega⟩
      have hfound : Found s c := (hbelow.found_iff rfl).2 (by change m = m - 1 + 1; omega)
      obtain ⟨s₁, htake, hnext⟩ := h.take hr hfound
      have hone := hfound.oneStep hw table.inside
      have hbis := hfound.bisect hw table.size wLower
      have hwide := (hr.step c).least
      have hne : s₁.wUpper ≠ 0 := by
        rw [hnext.width]
        omega
      have hlower : wrap32 (scaled s.wUpper c.lo + 1) + 1 < 4294967296 := by
        obtain ⟨hgap, hhi⟩ := interval_bounds hr c
        rw [← hwidth] at hgap hhi
        unfold wrap32
        omega
      rcases ih hnext (hr.step c) _ (fun _ => hlower) with ⟨l, s', hl, hspells, hones, hbiss⟩ | ⟨hnone, herror, -⟩
      · refine .inl ⟨c :: l, s', ?_, ⟨(h.found_iff hr).1 hfound, hspells⟩, oneStepSymbols_cons hone htake hones,
          bisectSymbols_cons hbis htake hne hbiss⟩
        rw [List.map_cons, List.map_cons, hl]
      · refine .inr ⟨fun l hl hspells => ?_, oneStepSymbols_rest hone htake herror, htotal⟩
        obtain ⟨c', l, rfl, hc, hrest⟩ := List.map_eq_cons_iff.1 hl
        have hdata := (hbelow.found_iff hc).1 ((h.found_iff hr).2 hspells.1)
        obtain ⟨cdf', data', hinside'⟩ := c'
        obtain rfl : cdf' = table.cdf := hc
        obtain rfl : data' = m - 1 := by
          change m = data' + 1 at hdata
          omega
        exact hnone l hrest hspells.2

theorem startDec_wUpper (s : Bitstr) : (startDec s).wUpper = s.wUpper := by
  unfold startDec
  split <;> rfl

theorem startDec_streamval {s : Bitstr} (hval : s.streamval < 4294967296) : (startDec s).streamval < 4294967296 := by
  unfold startDec
  split
  · have h0 := (s.stream 0).toNat_lt
    have h1 := (s.stream 1).toNat_lt
    have h2 := (s.stream 2).toNat_lt
    have h3 := (s.stream 3).toNat_lt
    dsimp only
    omega
  · exact hval

/-- The decoders agree on whatever the first of them accepts. They agree on what it rejects only if there is
nothing of that kind: if what is left of the stream spells symbols of the tables. -/
theorem decoders_agree_iff (s : Bitstr) (tables : List SharedTable) (hleast : 16777216 ≤ s.wUpper)
    (hw : s.wUpper < 4294967296) (hval : s.streamval < 4294967296) :
    Agree s tables ↔ ∃ l : List Coded, l.map Coded.cdf = tables.map SharedTable.cdf ∧
      Spells (window (startDec s)) (whole (startDec s)) l := by
  have hready : Ready (whole (startDec s)) := by
    unfold whole
    rw [startDec_wUpper]
    exact ⟨by unfold Range.Fits; dsimp only; omega, hleast, hw, Nat.le_refl _⟩
  have hreads := window_reads (startDec_streamval hval)
  have hne : s.wUpper ≠ 0 := by omega
  unfold Agree decHistOneStepMulti decHistBisectMulti
  rw [if_neg hne, if_neg hne]
  rcases symbols_cases hreads hready tables 0 (fun _ => by decide) with
    ⟨l, s', hl, hspells, hone, hbis⟩ | ⟨hnone, herror, ⟨data, s'⟩, hbis⟩
  · rw [hone, hbis]
    exact iff_of_true ⟨fun _ => id, fun herror => by cases herror⟩ ⟨l, hl, hspells⟩
  · rw [herror, hbis]
    refine iff_of_false (fun hagree => hagree.2 rfl _ rfl) ?_
    rintro ⟨l, hl, hspells⟩
    exact hnone l hl hspells

/-- A table with two symbols. -/
def halves : SharedTable where
  cdf := ⟨[0, 30000, 65535], rfl, by decide, rfl⟩
  k := 2
  size := rfl
  initIndex := 1
  inside := by decide

theorem decoders_agree_iff_half : Agree (start fun _ => 0x40) [halves] := by
  refine (decoders_agree_iff (start fun _ => 0x40) [halves] (by decide) (by decide) (by decide)).2 ?_
  exact ⟨[⟨halves.cdf, 0, by decide⟩], rfl, by unfold Range.Contains; decide, trivial⟩

/-- A stream of zeros: the one decoder reports it, the other decodes symbol -1 and returns a length. -/
theorem not_agree :
    decHistOneStepMulti (start fun _ => 0) (oneStepArgs [halves]) = .error (.code (-3)) ∧
      (∃ s', decHistBisectMulti (start fun _ => 0) (bisectArgs [halves]) = .ok ([-1], s', 1)) ∧
      ¬ Agree (start fun _ => 0) [halves] := by
  have herror : decHistOneStepMulti (start fun _ => 0) (oneStepArgs [halves]) = .error (.code (-3)) := rfl
  have hok : ∃ s', decHistBisectMulti (start fun _ => 0) (bisectArgs [halves]) = .ok ([-1], s', 1) := ⟨_, rfl⟩
  refine ⟨herror, hok, fun hagree => ?_⟩
  obtain ⟨s', hs'⟩ := hok
  exact hagree.2 herror _ hs'

end WebRtc.Isac
