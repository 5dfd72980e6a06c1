import WebRtc.Isac.ArithCoder

/-!
# What the encoder writes

`Writes r s`: the bytes in the stream and `streamval` are the least number of the range `r`, and
`W_upper` is its width. The range always fits into the bytes, so that a carry ends at one of them.
-/

namespace WebRtc.Isac

open RangeCoder

/-! ## Tables -/

/-- A table starts with 0, increases strictly and ends with 65535. -/
structure Cdf where
  entries : List ℕ
  starts : entries.head? = some 0
  increasing : entries.Pairwise (· < ·)
  ends : entries.getLast? = some 65535

/-- A symbol inside its table. -/
structure Coded where
  cdf : Cdf
  data : ℕ
  inside : data + 1 < cdf.entries.length

/-- What is passed to the encoder. -/
def Coded.pair (c : Coded) : List ℕ × ℕ := (c.cdf.entries, c.data)

namespace Cdf

variable {cdf : Cdf} {i j : ℕ}

def val (cdf : Cdf) (i : ℕ) : ℕ := cdf.entries.getD i 0

theorem getElem? (h : i < cdf.entries.length) : cdf.entries[i]? = some (cdf.val i) := by
  rw [val, List.getD_eq_getElem?_getD, List.getElem?_eq_getElem h, Option.getD_some]

theorem lt (h : i < j) (hj : j < cdf.entries.length) : cdf.val i < cdf.val j := by
  have hi : i < cdf.entries.length := Nat.lt_trans h hj
  have hp := List.pairwise_iff_getElem.1 cdf.increasing i j hi hj h
  simpa only [val, List.getD_eq_getElem?_getD, List.getElem?_eq_getElem hi,
    List.getElem?_eq_getElem hj, Option.getD_some] using hp

theorem length_pos (cdf : Cdf) : 0 < cdf.entries.length := by
  rw [List.length_pos_iff]
  intro hnil
  have hstarts := cdf.starts
  rw [hnil] at hstarts
  cases hstarts

theorem zero : cdf.val 0 = 0 := by
  have h := cdf.starts
  rw [List.head?_eq_getElem?] at h
  rw [val, List.getD_eq_getElem?_getD, h, Option.getD_some]

theorem last : cdf.val (cdf.entries.length - 1) = 65535 := by
  have h := cdf.ends
  rw [List.getLast?_eq_getElem?] at h
  rw [val, List.getD_eq_getElem?_getD, h, Option.getD_some]

theorem le (hi : i < cdf.entries.length) : cdf.val i ≤ 65535 := by
  rw [← cdf.last]
  rcases Nat.lt_or_ge i (cdf.entries.length - 1) with h | h
  · exact Nat.le_of_lt (cdf.lt h (by omega))
  · have heq : i = cdf.entries.length - 1 := by omega
    rw [heq]

theorem mono (h : i ≤ j) (hj : j < cdf.entries.length) : cdf.val i ≤ cdf.val j := by
  rcases Nat.lt_or_eq_of_le h with h | rfl
  · exact Nat.le_of_lt (cdf.lt h hj)
  · exact Nat.le_refl _

end Cdf

def Coded.lo (c : Coded) : ℕ := c.cdf.val c.data
def Coded.hi (c : Coded) : ℕ := c.cdf.val (c.data + 1)

/-! ## Products -/

section Products

variable {w a b : ℕ}

theorem scaled_eq (hw : w < 4294967296) (ha : a ≤ 65535) : scaled w a = w / 65536 * a + w % 65536 * a / 65536 := by
  have hmsb : w / 65536 * a ≤ 65535 * 65535 := Nat.mul_le_mul (by omega) ha
  have hlsb : w % 65536 * a ≤ 65535 * 65535 := Nat.mul_le_mul (by omega) ha
  unfold scaled wrap32
  rw [Nat.mod_eq_of_lt (a := w / 65536 * a) (by omega), Nat.mod_eq_of_lt (a := w % 65536 * a) (by omega)]
  exact Nat.mod_eq_of_lt (by omega)

theorem scaled_zero (w : ℕ) : scaled w 0 = 0 := by
  simp [scaled, wrap32]

theorem scaled_le (hw : w < 4294967296) (ha : a ≤ 65535) : scaled w a ≤ w := by
  have hmsb : w / 65536 * a ≤ w / 65536 * 65535 := Nat.mul_le_mul_left _ ha
  have hlsb : w % 65536 * a ≤ w % 65536 * 65535 := Nat.mul_le_mul_left _ ha
  rw [scaled_eq hw ha]
  omega

/-- Two entries are never closer than the upper half of the width. -/
theorem scaled_add (hw : w < 4294967296) (hab : a < b) (hb : b ≤ 65535) : scaled w a + w / 65536 ≤ scaled w b := by
  have hmsb : w / 65536 * (a + 1) ≤ w / 65536 * b := Nat.mul_le_mul_left _ hab
  have hlsb : w % 65536 * a / 65536 ≤ w % 65536 * b / 65536 :=
    Nat.div_le_div_right (Nat.mul_le_mul_left _ (Nat.le_of_lt hab))
  rw [scaled_eq hw (by omega), scaled_eq hw hb]
  rw [Nat.mul_succ] at hmsb
  omega

theorem scaled_mono (hw : w < 4294967296) (hab : a ≤ b) (hb : b ≤ 65535) : scaled w a ≤ scaled w b := by
  rcases Nat.lt_or_eq_of_le hab with h | rfl
  · exact Nat.le_trans (Nat.le_add_right _ _) (scaled_add hw h hb)
  · exact Nat.le_refl _

end Products

/-! ## Ranges -/

/-- The range between two calls. -/
structure Ready (r : Range) : Prop where
  fits : r.Fits
  least : 16777216 ≤ r.width
  width : r.width < 4294967296
  digits : 4 ≤ r.digits

def startRange : Range := { low := 0, width := 4294967295, digits := 4 }

theorem startRange_ready : Ready startRange :=
  ⟨by unfold Range.Fits; decide, by decide, by decide, by decide⟩

/-- The interval of a symbol. -/
def interval (r : Range) (c : Coded) : Range := r.narrow (scaled r.width c.lo + 1) (scaled r.width c.hi)

def step (r : Range) (c : Coded) : Range := (interval r c).renormalize 16777216 3

section Ranges

variable {r : Range} {c : Coded}

/-- The interval of a symbol lies in the range, and it is 255 or more wide. -/
theorem interval_bounds (h : Ready r) (c : Coded) :
    scaled r.width c.lo + 256 ≤ scaled r.width c.hi ∧ scaled r.width c.hi ≤ r.width := by
  have hlt : c.cdf.val c.data < c.cdf.val (c.data + 1) := c.cdf.lt (Nat.lt_succ_self c.data) c.inside
  have hadd := scaled_add h.width hlt (c.cdf.le c.inside)
  have hle := scaled_le h.width (c.cdf.le c.inside)
  have hleast := h.least
  unfold Coded.lo Coded.hi
  omega

theorem Ready.step (h : Ready r) (c : Coded) : Ready (step r c) := by
  obtain ⟨hlo, hhi⟩ := interval_bounds h c
  have hwide := h.width
  have hwidth : (interval r c).width = scaled r.width c.hi - (scaled r.width c.lo + 1) := rfl
  have hleast : 16777216 ≤ (interval r c).width * 256 ^ 3 := by omega
  have hlt : (interval r c).width < 4294967296 := by omega
  have hfits : (interval r c).Fits := h.fits.narrow (by omega) hhi
  have hdigits : r.digits ≤ (Isac.step r c).digits := digits_le_renormalize (r := interval r c)
  exact ⟨hfits.renormalize, le_renormalize_width hleast, renormalize_width_lt hlt (by decide),
    Nat.le_trans h.digits hdigits⟩

end Ranges

/-! ## The stream -/

structure Writes (r : Range) (s : Bitstr) : Prop where
  width : s.wUpper = r.width
  digits : r.digits = s.streamIndex + 4
  streamval : s.streamval < 4294967296
  low : number s.stream s.streamIndex * 4294967296 + s.streamval = r.low

def start (stream : ℕ → UInt8) : Bitstr :=
  { stream := stream, wUpper := 0xFFFFFFFF, streamval := 0, streamIndex := 0 }

theorem start_writes (stream : ℕ → UInt8) : Writes startRange (start stream) :=
  ⟨rfl, rfl, Nat.zero_lt_succ _, by simp [start, startRange, number_zero]⟩

section Stream

variable {r : Range} {s : Bitstr} {stream : ℕ → UInt8}

/-- A carry ends where the bytes are not all 255, and it changes nothing behind the place where it starts. -/
theorem propagateCarry_some {p : ℕ} (h : number stream p + 1 < 256 ^ p) :
    ∃ stream', propagateCarry stream p = some stream' ∧ number stream' p = number stream p + 1 ∧
        ∀ i ≥ p, stream' i = stream i := by
  induction p generalizing stream with
  | zero => simp [number_zero] at h
  | succ p ih =>
    have hb := (stream p).toNat_lt
    have hnext : (stream p + 1).toNat = ((stream p).toNat + 1) % 256 := UInt8.toNat_add _ _
    have hbehind : ∀ i ≥ p + 1, Function.update stream p (stream p + 1) i = stream i :=
      fun i hi => Function.update_of_ne (by omega) _ _
    rw [number_succ, Nat.pow_succ] at h
    by_cases hzero : stream p + 1 = 0
    · have h0 : (stream p + 1).toNat = 0 := by rw [hzero]; rfl
      have hfront : number (Function.update stream p (stream p + 1)) p = number stream p :=
        number_congr fun i hi => Function.update_of_ne (Nat.ne_of_lt hi) _ _
      have hroom : number (Function.update stream p (stream p + 1)) p + 1 < 256 ^ p := by omega
      obtain ⟨stream', hcarry, hnumber, hsame⟩ := ih hroom
      have hlast : stream' p = stream p + 1 := (hsame p (Nat.le_refl p)).trans (Function.update_self _ _ _)
      refine ⟨stream', ?_, ?_, fun i hi => (hsame i (Nat.le_of_succ_le hi)).trans (hbehind i hi)⟩
      · rw [propagateCarry, if_pos hzero]
        exact hcarry
      · rw [number_succ, number_succ, hnumber, hlast, hfront]
        omega
    · have hne : (stream p + 1).toNat ≠ 0 := fun h0 => hzero (UInt8.toNat_inj.1 h0)
      refine ⟨Function.update stream p (stream p + 1), ?_, ?_, hbehind⟩
      · rw [propagateCarry, if_neg hzero]
      · rw [number_update, number_succ]
        omega

theorem carry_low {n x a : ℕ} (hover : 4294967296 ≤ x + a) (hlt : x + a < 2 * 4294967296) :
    (n + 1) * 4294967296 + (x + a) % 4294967296 = n * 4294967296 + x + a := by
  rw [Nat.mod_eq_sub_mod hover, Nat.mod_eq_of_lt (by omega)]
  omega

/-- A number up to the width is added, with a carry where `streamval` overflows. -/
theorem Writes.add (h : Writes r s) (hfits : r.Fits) (hwidth : r.width < 4294967296) {a : ℕ} (ha : a ≤ r.width) :
    ∃ stream, handleCarry s (wrap32 (s.streamval + a)) a = some stream ∧
      number stream s.streamIndex * 4294967296 + wrap32 (s.streamval + a) = r.low + a := by
  have hval := h.streamval
  have hlow := h.low
  have hlt : r.low + r.width < 256 ^ s.streamIndex * 4294967296 := by
    have hpow : 256 ^ r.digits = 256 ^ s.streamIndex * 4294967296 := by rw [h.digits, pow_add]; rfl
    rw [← hpow]
    exact hfits
  unfold handleCarry wrap32
  by_cases hcarry : (s.streamval + a) % 4294967296 < a
  · have hover : 4294967296 ≤ s.streamval + a := by
      by_contra hno
      rw [Nat.mod_eq_of_lt (Nat.not_le.1 hno)] at hcarry
      omega
    have hroom : number s.stream s.streamIndex + 1 < 256 ^ s.streamIndex := by
      by_contra hno
      have hmul := Nat.mul_le_mul_right 4294967296 (Nat.not_lt.1 hno)
      omega
    obtain ⟨stream, hstream, hnumber, -⟩ := propagateCarry_some hroom
    refine ⟨stream, by rw [if_pos hcarry, hstream], ?_⟩
    rw [hnumber, carry_low hover (by omega), hlow]
  · refine ⟨s.stream, if_neg hcarry, ?_⟩
    omega

/-- The uppermost byte of `streamval` moves into the stream. -/
theorem shift_low (n x : ℕ) :
    (n * 256 + x / 16777216) * 4294967296 + x * 256 % 4294967296 = (n * 4294967296 + x) * 256 := by
  have hsplit : x / 16777216 * 4294967296 + x * 256 % 4294967296 = x * 256 := by omega
  rw [Nat.add_mul, Nat.add_assoc, hsplit]
  ring

theorem Writes.shift (h : Writes r s) (hwidth : r.width < 16777216) :
    Writes r.shift { s with
      wUpper := wrap32 (s.wUpper * 256)
      stream := Function.update s.stream s.streamIndex (UInt8.ofNat (s.streamval / 16777216))
      streamIndex := s.streamIndex + 1
      streamval := wrap32 (s.streamval * 256) } := by
  have hval := h.streamval
  have hw := h.width
  have hlow := h.low
  have hbyte : (UInt8.ofNat (s.streamval / 16777216)).toNat = s.streamval / 16777216 := by
    rw [UInt8.toNat_ofNat']
    exact Nat.mod_eq_of_lt (by omega)
  constructor
  · unfold wrap32 Range.shift
    dsimp only
    omega
  · exact congrArg (· + 1) h.digits
  · exact Nat.mod_lt _ (by decide)
  · unfold wrap32 Range.shift
    dsimp only
    rw [number_update, hbyte, shift_low, hlow]

theorem Writes.renormalize {n : ℕ} (h : Writes r s) (hwide : 16777216 ≤ (r.renormalize 16777216 n).width) :
    ∃ s', renormalizeEnc n s = some s' ∧ Writes (r.renormalize 16777216 n) s' := by
  have hw := h.width
  induction n generalizing r s with
  | zero =>
    unfold Range.renormalize at hwide ⊢
    exact ⟨s, by rw [renormalizeEnc, if_neg (by omega)], h⟩
  | succ n ih =>
    unfold Range.renormalize at hwide ⊢
    unfold renormalizeEnc
    by_cases hnarrow : r.width < 16777216
    · rw [if_pos hnarrow] at hwide ⊢
      rw [hw, if_pos hnarrow]
      have hshift := h.shift hnarrow
      rw [hw] at hshift
      exact ih hshift hwide hshift.width
    · rw [if_neg hnarrow]
      exact ⟨s, by rw [hw, if_neg hnarrow], h⟩

/-- A symbol is written. -/
theorem encSymbol_some (h : Writes r s) (hr : Ready r) (c : Coded) :
    ∃ s', encSymbol s c.cdf.entries c.data = some s' ∧ Writes (step r c) s' := by
  obtain ⟨hlo, hhi⟩ := interval_bounds hr c
  have hwidth := hr.width
  have hlower : wrap32 (scaled r.width c.lo + 1) = scaled r.width c.lo + 1 := Nat.mod_eq_of_lt (by omega)
  have hupper : sub32 (scaled r.width c.hi) (scaled r.width c.lo + 1) = scaled r.width c.hi -
      (scaled r.width c.lo + 1) := by
    unfold sub32 wrap32
    omega
  obtain ⟨stream, hstream, hlow⟩ := h.add hr.fits hwidth (a := scaled r.width c.lo + 1) (by omega)
  have hwrites : Writes (interval r c) { s with
      stream := stream
      wUpper := scaled r.width c.hi - (scaled r.width c.lo + 1)
      streamval := wrap32 (s.streamval + (scaled r.width c.lo + 1)) } :=
    ⟨rfl, h.digits, Nat.mod_lt _ (by decide), hlow⟩
  obtain ⟨s', hs', hnext⟩ := hwrites.renormalize (hr.step c).least
  refine ⟨s', ?_, hnext⟩
  unfold encSymbol
  rw [c.cdf.getElem? (Nat.lt_of_succ_lt c.inside), c.cdf.getElem? c.inside, h.width]
  simp only [Option.bind_eq_bind, Option.bind_some]
  change (handleCarry s (wrap32 (s.streamval + wrap32 (scaled r.width c.lo + 1)))
    (wrap32 (scaled r.width c.lo + 1))).bind _ = _
  rw [hlower, hstream, Option.bind_some]
  change renormalizeEnc 3 { s with
    stream := stream
    wUpper := sub32 (scaled r.width c.hi) (wrap32 (scaled r.width c.lo + 1))
    streamval := wrap32 (s.streamval + wrap32 (scaled r.width c.lo + 1)) } = _
  rw [hlower, hupper]
  exact hs'

def steps (r : Range) (l : List Coded) : Range := l.foldl step r

theorem Ready.steps (hr : Ready r) (l : List Coded) : Ready (steps r l) := by
  induction l generalizing r with
  | nil => exact hr
  | cons c l ih => exact ih (hr.step c)

theorem encHistMulti_some (h : Writes r s) (hr : Ready r) (l : List Coded) :
    ∃ s', encHistMulti s (l.map Coded.pair) = some s' ∧ Writes (steps r l) s' := by
  induction l generalizing r s with
  | nil => exact ⟨s, rfl, h⟩
  | cons c l ih =>
    obtain ⟨s₁, hs₁, hnext⟩ := encSymbol_some h hr c
    obtain ⟨s', hs', hwrites⟩ := ih hnext (hr.step c)
    refine ⟨s', ?_, hwrites⟩
    rw [List.map_cons, encHistMulti, List.foldlM_cons]
    change (encSymbol s c.cdf.entries c.data).bind _ = _
    rw [hs₁]
    exact hs'

/-- How the symbols are split over the calls does not matter. -/
theorem encodeCalls_eq (s : Bitstr) (calls : List (List (List ℕ × ℕ))) :
    encodeCalls s calls = encHistMulti s calls.flatten := by
  induction calls generalizing s with
  | nil => rfl
  | cons call calls ih =>
    unfold encodeCalls encHistMulti at *
    rw [List.foldlM_cons, List.flatten_cons, List.foldlM_append]
    congr 1
    funext s'
    exact ih s'

/-! ## The end of the stream -/

/-- The first bytes of the number that is written: it lies above the least number of the range, by no
more than what is added. -/
theorem first_bytes {N x low a : ℕ} (hlow : N * 4294967296 + x = low + a) (ha : a = 16777216 ∨ a = 65536) :
    low ≤ (N * (4294967296 / a) + x / a) * a ∧ (N * (4294967296 / a) + x / a + 1) * a ≤ low + 2 * a := by
  rcases ha with rfl | rfl
  · norm_num
    omega
  · norm_num
    omega

theorem two_bytes (N x : ℕ) : (N * 256 + x / 16777216) * 256 + x / 65536 % 256 = N * 65536 + x / 65536 := by
  omega

theorem encTerminate_some (h : Writes r s) (hr : Ready r) :
    ∃ stream n, encTerminate s = some (stream, n) ∧ (n : ℤ) = r.digits - (if 0x01FFFFFF < r.width then 3 else 2) ∧
      ∀ mem : ℕ → UInt8, (∀ i < n, mem i = stream i) → r.Contains mem := by
  have hw := h.width
  have hdigits := h.digits
  have hleast := hr.least
  have hwidth := hr.width
  by_cases hwide : 0x01FFFFFF < r.width
  · obtain ⟨stream, hstream, hlow⟩ := h.add hr.fits hr.width (a := 16777216) (by omega)
    have hval : wrap32 (s.streamval + 16777216) < 4294967296 := Nat.mod_lt _ (by decide)
    have hbytes := first_bytes hlow (.inl rfl)
    have hend : encTerminate s =
        some (Function.update stream s.streamIndex
            (UInt8.ofNat (wrap32 (s.streamval + 16777216) / 16777216)), s.streamIndex + 1) := by
      unfold encTerminate
      rw [hw, if_pos hwide]
      change (handleCarry s (wrap32 (s.streamval + 16777216)) 16777216).bind _ = _
      rw [hstream]
      rfl
    generalize wrap32 (s.streamval + 16777216) = x at *
    refine ⟨_, _, hend, ?_, ?_⟩
    · rw [if_pos hwide, hdigits]
      omega
    · intro mem hmem
      have hbyte : (UInt8.ofNat (x / 16777216)).toNat = x / 16777216 := by
        rw [UInt8.toNat_ofNat']
        exact Nat.mod_eq_of_lt (by omega)
      have hnumber := number_congr hmem
      rw [number_update, hbyte] at hnumber
      refine contains_of_prefix (n := s.streamIndex + 1) (k := 3) hdigits hnumber ?_ ?_
      · exact hbytes.1
      · exact Nat.le_trans hbytes.2 (by omega)
  · obtain ⟨stream, hstream, hlow⟩ := h.add hr.fits hr.width (a := 65536) (by omega)
    have hval : wrap32 (s.streamval + 65536) < 4294967296 := Nat.mod_lt _ (by decide)
    have hbytes := first_bytes hlow (.inr rfl)
    have hend : encTerminate s =
        some (Function.update (Function.update stream s.streamIndex
          (UInt8.ofNat (wrap32 (s.streamval + 65536) / 16777216)))
          (s.streamIndex + 1) (UInt8.ofNat (wrap32 (s.streamval + 65536) / 65536 % 256)), s.streamIndex + 2) := by
      unfold encTerminate
      rw [hw, if_neg hwide]
      change (handleCarry s (wrap32 (s.streamval + 65536)) 65536).bind _ = _
      rw [hstream]
      rfl
    generalize wrap32 (s.streamval + 65536) = x at *
    refine ⟨_, _, hend, ?_, ?_⟩
    · rw [if_neg hwide, hdigits]
      omega
    · intro mem hmem
      have hbyte : (UInt8.ofNat (x / 16777216)).toNat = x / 16777216 := by
        rw [UInt8.toNat_ofNat']
        exact Nat.mod_eq_of_lt (by omega)
      have hbyte2 : (UInt8.ofNat (x / 65536 % 256)).toNat = x / 65536 % 256 := by
        rw [UInt8.toNat_ofNat']
        exact Nat.mod_eq_of_lt (Nat.mod_lt _ (by decide))
      have hnumber := number_congr hmem
      rw [number_update, number_update, hbyte, hbyte2, two_bytes] at hnumber
      refine contains_of_prefix (n := s.streamIndex + 2) (k := 2) hdigits hnumber ?_ ?_
      · exact hbytes.1
      · exact Nat.le_trans hbytes.2 (by omega)

end Stream

/-! ## Inside the buffer -/

section Buffer

variable {s s' : Bitstr} {stream stream' : ℕ → UInt8} {i : ℕ}

/-- `STREAM_SIZE_MAX` (settings.h:102), the capacity of `Bitstr::stream`. -/
abbrev streamSizeMax : ℕ := 600

theorem propagateCarry_above {p : ℕ} (hcarry : propagateCarry stream p = some stream') (hi : p ≤ i) :
    stream' i = stream i := by
  induction p generalizing stream with
  | zero => cases hcarry
  | succ p ih =>
    have hother : Function.update stream p (stream p + 1) i = stream i := Function.update_of_ne (by omega) _ _
    unfold propagateCarry at hcarry
    dsimp only at hcarry
    split at hcarry
    · exact (ih hcarry (by omega)).trans hother
    · cases hcarry
      exact hother

theorem handleCarry_above {streamval added : ℕ} (hcarry : handleCarry s streamval added = some stream')
    (hi : s.streamIndex ≤ i) : stream' i = s.stream i := by
  unfold handleCarry at hcarry
  split at hcarry
  · exact propagateCarry_above hcarry hi
  · cases hcarry
    rfl

theorem renormalizeEnc_above {n : ℕ} (hloop : renormalizeEnc n s = some s') :
    s.streamIndex ≤ s'.streamIndex ∧ ∀ i, s'.streamIndex ≤ i → s'.stream i = s.stream i := by
  induction n generalizing s with
  | zero =>
    unfold renormalizeEnc at hloop
    split at hloop
    · cases hloop
    · cases hloop
      exact ⟨Nat.le_refl _, fun _ _ => rfl⟩
  | succ n ih =>
    unfold renormalizeEnc at hloop
    split at hloop
    · obtain ⟨hle, habove⟩ := ih hloop
      dsimp only at hle habove
      refine ⟨by omega, fun i hi => ?_⟩
      rw [habove i hi]
      exact Function.update_of_ne (by omega) _ _
    · cases hloop
      exact ⟨Nat.le_refl _, fun _ _ => rfl⟩

theorem encSymbol_above {cdf : List ℕ} {data : ℕ} (henc : encSymbol s cdf data = some s') :
    s.streamIndex ≤ s'.streamIndex ∧ ∀ i, s'.streamIndex ≤ i → s'.stream i = s.stream i := by
  unfold encSymbol at henc
  simp only [Option.bind_eq_bind, Option.bind_eq_some_iff] at henc
  obtain ⟨cdfLo, -, cdfHi, -, stream, hcarry, hloop⟩ := henc
  obtain ⟨hle, habove⟩ := renormalizeEnc_above hloop
  refine ⟨hle, fun i hi => ?_⟩
  rw [habove i hi]
  exact handleCarry_above hcarry (Nat.le_trans hle hi)

theorem encHistMulti_above {l : List (List ℕ × ℕ)} (henc : encHistMulti s l = some s') :
    s.streamIndex ≤ s'.streamIndex ∧ ∀ i, s'.streamIndex ≤ i → s'.stream i = s.stream i := by
  induction l generalizing s with
  | nil =>
    cases henc
    exact ⟨Nat.le_refl _, fun _ _ => rfl⟩
  | cons symbol l ih =>
    rw [encHistMulti, List.foldlM_cons] at henc
    obtain ⟨t, ht, hrest⟩ := Option.bind_eq_some_iff.1 henc
    obtain ⟨hle, habove⟩ := encSymbol_above ht
    obtain ⟨hle', habove'⟩ := ih hrest
    refine ⟨Nat.le_trans hle hle', fun i hi => ?_⟩
    rw [habove' i hi, habove i (Nat.le_trans hle' hi)]

/-- **No call writes at or behind the length that is returned**, whatever the symbols and tables are: a caller
whose streams have at most `streamSizeMax` bytes keeps the encoder inside its buffer. -/
theorem encoder_inside {calls : List (List (List ℕ × ℕ))} {bytes : ℕ → UInt8} {n : ℕ}
    (henc : encodeCalls (start stream) calls = some s) (hend : encTerminate s = some (bytes, n))
    (hn : n ≤ streamSizeMax) (hi : streamSizeMax ≤ i) : bytes i = stream i := by
  rw [encodeCalls_eq] at henc
  obtain ⟨-, habove⟩ := encHistMulti_above henc
  have hstart : (start stream).stream = stream := rfl
  rw [hstart] at habove
  unfold encTerminate at hend
  split at hend
  · obtain ⟨stream₁, hcarry, hret⟩ := Option.bind_eq_some_iff.1 hend
    cases hret
    rw [Function.update_of_ne (by omega), handleCarry_above hcarry (by omega), habove i (by omega)]
  · obtain ⟨stream₁, hcarry, hret⟩ := Option.bind_eq_some_iff.1 hend
    cases hret
    rw [Function.update_of_ne (by omega), Function.update_of_ne (by omega), handleCarry_above hcarry (by omega),
      habove i (by omega)]

end Buffer

end WebRtc.Isac
