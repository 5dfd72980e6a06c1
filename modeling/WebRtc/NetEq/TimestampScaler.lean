import Mathlib.Data.List.Chain
import Mathlib.Data.List.Induction
import WebRtc.Common.Shifts
import WebRtc.Lib.CInt
import WebRtc.Lib.Machine
import WebRtc.NetEq.SplitAudio

/-!
# Timestamp scaling

| here | there |
| --- | --- |
| `TimestampScaler` | `timestamp_scaler.h` |
| `scaleFactors`, `toInternal`, `toExternal` | `timestamp_scaler.cc:38-111` |

Every packet moves the reference by its own distance, scaled and truncated. What the divisions leave is added up
nowhere, so it is missing in the internal timestamps: they are those of a single division exactly when the remainders
add up to less than a unit (`scaler_exact_iff`).

Timestamps are written as integers that do not wrap; the scaler is given their lower 32 bits.
-/

namespace WebRtc.NetEq

open CInt

structure TimestampScaler where
  firstPacketReceived : Bool
  numerator : Int
  denominator : Int
  externalRef : UInt32
  internalRef : UInt32
deriving DecidableEq, Repr

/-- Conversion to `int32_t`. -/
def signed (x : UInt32) : Int := i32 x.toNat

namespace TimestampScaler

def create : TimestampScaler := ⟨false, 1, 1, 0, 0⟩

def reset (s : TimestampScaler) : TimestampScaler := { s with firstPacketReceived := false }

/-- The numerator and the denominator for a codec. -/
def scaleFactors (s : TimestampScaler) : NetEqDecoder → Int × Int
  -- Two output samples per RTP timestamp.
  | .decoderG722 | .decoderG722_2ch => (2, 1)
  -- 32 kHz sample rate, but RTP timestamps run on 48 kHz.
  | .decoderCNGswb48kHz => (2, 3)
  -- Do not change the timestamp scaling settings for DTMF or CNG.
  | .decoderAVT | .decoderCNGnb | .decoderCNGwb | .decoderCNGswb32kHz => (s.numerator, s.denominator)
  | _ => (1, 1)

/-- None when an `int` overflows. -/
def toInternal (decoderInfo : UInt8 → Option NetEqDecoder) (s : TimestampScaler) (externalTimestamp : UInt32)
    (rtpPayloadType : UInt8) : Option (UInt32 × TimestampScaler) :=
  match decoderInfo rtpPayloadType with
  -- Payload type is unknown. Do not scale.
  | none => some (externalTimestamp, s)
  | some codecType =>
    let s := { s with numerator := (s.scaleFactors codecType).1, denominator := (s.scaleFactors codecType).2 }
    if ¬ (s.numerator = 1 ∧ s.denominator = 1) then
      let s := if s.firstPacketReceived then s
        else { s with externalRef := externalTimestamp, internalRef := externalTimestamp, firstPacketReceived := true }
      let externalDiff := signed (externalTimestamp - s.externalRef)
      (checked32 (externalDiff * s.numerator)).map fun product =>
        let internalRef := s.internalRef + stamp32 (product.tdiv s.denominator)
        (internalRef, { s with externalRef := externalTimestamp, internalRef })
    else some (externalTimestamp, s)

def toExternal (s : TimestampScaler) (internalTimestamp : UInt32) : Option UInt32 :=
  if s.firstPacketReceived = false ∨ (s.numerator = 1 ∧ s.denominator = 1) then some internalTimestamp
  else
    let internalDiff := signed (internalTimestamp - s.internalRef)
    (checked32 (internalDiff * s.denominator)).map fun product => s.externalRef + stamp32 (product.tdiv s.numerator)

end TimestampScaler

/-- A packet with this timestamp, and what it is converted to. -/
def scalerStep (decoderInfo : UInt8 → Option NetEqDecoder) (rtpPayloadType : UInt8) (s : TimestampScaler) (x : Int) :
    TimestampScaler × Option UInt32 :=
  match s.toInternal decoderInfo (stamp32 x) rtpPayloadType with
  | some (internalTimestamp, s) => (s, some internalTimestamp)
  | none => (s, none)

/-! ## Sums over the packets -/

/-- What is left of the scaled distances when each of them is divided, and what is lost. -/
def scaled (p q : Int) : List Int → Int
  | x :: y :: l => (p * (y - x)).tdiv q + scaled p q (y :: l)
  | _ => 0

def remainder (p q : Int) : List Int → Int
  | x :: y :: l => (p * (y - x)).tmod q + remainder p q (y :: l)
  | _ => 0

section Sums
variable {p q : Int}

theorem scaled_concat (l : List Int) (x y : Int) :
    scaled p q (l ++ [x, y]) = scaled p q (l ++ [x]) + (p * (y - x)).tdiv q := by
  induction l with
  | nil => simp [scaled]
  | cons a l ih =>
    cases l with
    | nil => simp [scaled]
    | cons b l =>
      simp only [List.cons_append] at ih ⊢
      simp only [scaled, ih]
      omega

theorem remainder_concat (l : List Int) (x y : Int) :
    remainder p q (l ++ [x, y]) = remainder p q (l ++ [x]) + (p * (y - x)).tmod q := by
  induction l with
  | nil => simp [remainder]
  | cons a l ih =>
    cases l with
    | nil => simp [remainder]
    | cons b l =>
      simp only [List.cons_append] at ih ⊢
      simp only [remainder, ih]
      omega

/-- Nothing else is lost. -/
theorem scaled_add_remainder (l : List Int) (x : Int) :
    q * scaled p q (l ++ [x]) + remainder p q (l ++ [x]) = p * (x - l.headD x) := by
  induction l using List.reverseRecOn generalizing x with
  | nil => simp [scaled, remainder]
  | append_singleton l y ih =>
    have hstep := Int.mul_tdiv_add_tmod (p * (x - y)) q
    have hhead : (l ++ [y]).headD x = l.headD y := by cases l <;> rfl
    rw [List.append_assoc, List.singleton_append, scaled_concat, remainder_concat, hhead, Int.mul_add]
    have hall := ih y
    have hsplit : p * (x - l.headD y) = p * (x - y) + p * (y - l.headD y) := by rw [← Int.mul_add]; congr 1; omega
    omega

end Sums

/-! ## The scaler -/

theorem signed_stamp32 (n : Int) : signed (stamp32 n) = i32 n := by
  rw [signed, stamp32_toNat]
  unfold i32
  omega

section Scaler
variable {decoderInfo : UInt8 → Option NetEqDecoder} {rtpPayloadType : UInt8} {codecType : NetEqDecoder} {p q : Int}

/-- The payload types that are scaled, and by what. -/
structure Scales (decoderInfo : UInt8 → Option NetEqDecoder) (rtpPayloadType : UInt8) (p q : Int) : Prop where
  codec : ∃ codecType, decoderInfo rtpPayloadType = some codecType ∧ ∀ s :
    TimestampScaler, s.scaleFactors codecType = (p, q)
  numerator : p = 2
  denominator : q = 1 ∨ q = 3

/-- Successive timestamps are less than `2 ^ 29` apart. -/
def Close (l : List Int) : Prop := l.IsChain fun x y => -536870912 < y - x ∧ y - x < 536870912

theorem scalerStep_first (h : Scales decoderInfo rtpPayloadType p q) (x : Int) :
    scalerStep decoderInfo rtpPayloadType .create x = (⟨true, p, q, stamp32 x, stamp32 x⟩, some (stamp32 x)) := by
  obtain ⟨codecType, hcodec, hfactors⟩ := h.codec
  have hscaled : ¬ (p = 1 ∧ q = 1) := by
    rw [h.numerator]
    omega
  have hzero : signed 0 = 0 := rfl
  have hsame : stamp32 x + stamp32 0 = stamp32 x := by rw [stamp32_add, Int.add_zero]
  simp [scalerStep, TimestampScaler.toInternal, TimestampScaler.create, hcodec, hfactors, hscaled, hzero, checked32,
    hsame]

theorem scalerStep_next (h : Scales decoderInfo rtpPayloadType p q) {x y z : Int} (hless : -536870912 < z - x)
    (hmore : z - x < 536870912) :
    scalerStep decoderInfo rtpPayloadType ⟨true, p, q, stamp32 x, stamp32 y⟩ z =
      (⟨true, p, q, stamp32 z, stamp32 (y + (p * (z - x)).tdiv q)⟩, some (stamp32 (y + (p * (z - x)).tdiv q))) := by
  obtain ⟨codecType, hcodec, hfactors⟩ := h.codec
  have hscaled : ¬ (p = 1 ∧ q = 1) := by
    rw [h.numerator]
    omega
  have hdiff : signed (stamp32 z - stamp32 x) = z - x := by
    rw [stamp32_sub, signed_stamp32, i32_id (by omega) (by omega)]
  have hproduct : checked32 ((z - x) * p) = some (p * (z - x)) := by
    rw [Int.mul_comm, h.numerator]
    exact checked32_eq (by omega) (by omega)
  simp [scalerStep, TimestampScaler.toInternal, hcodec, hfactors, hscaled, hdiff, hproduct, stamp32_add]

/-- **The scaler after a packet**: the reference is the sum of what is left of the divisions. -/
theorem scalerStep_run (h : Scales decoderInfo rtpPayloadType p q) (l : List Int) (x : Int)
    (hclose : Close (l ++ [x])) :
    scalerStep decoderInfo rtpPayloadType (Machine.run (scalerStep decoderInfo rtpPayloadType) .create l) x =
      (⟨true, p, q, stamp32 x, stamp32 (l.headD x + scaled p q (l ++ [x]))⟩,
        some (stamp32 (l.headD x + scaled p q (l ++ [x])))) := by
  induction l using List.reverseRecOn generalizing x with
  | nil => simpa [scaled] using scalerStep_first h x
  | append_singleton l y ih =>
    rw [Close, List.append_assoc, List.singleton_append] at hclose
    obtain ⟨hbefore, hlast, -⟩ := List.isChain_append_cons_cons.1 hclose
    have hhead : (l ++ [y]).headD x = l.headD y := by cases l <;> rfl
    rw [Machine.run_append, Machine.run_cons, Machine.run_nil, ih y hbefore, scalerStep_next h hlast.1 hlast.2,
      List.append_assoc, List.singleton_append, scaled_concat, hhead, Int.add_assoc]

end Scaler

/-! ## Without drift -/

/-- What the packet `x` is converted to after the packets `before`. -/
def converted (decoderInfo : UInt8 → Option NetEqDecoder) (rtpPayloadType : UInt8) (before : List Int) (x : Int) :
    Option UInt32 :=
  (scalerStep decoderInfo rtpPayloadType (Machine.run (scalerStep decoderInfo rtpPayloadType) .create before) x).2

/-- All packets are converted by a single division, which rounds in the way of `divide`. -/
def NoDrift (decoderInfo : UInt8 → Option NetEqDecoder) (rtpPayloadType : UInt8) (p q : Int) (divide : Int → Int → Int)
    (packets : List Int) : Prop :=
  ∀ before x after, packets = before ++ x :: after →
    converted decoderInfo rtpPayloadType before x =
      some (stamp32 (before.headD x + divide (p * (x - before.headD x)) q))

/-- After the packets up to `later` the packet `x` is converted back to within one scaled unit. -/
def ConvertsBack (decoderInfo : UInt8 → Option NetEqDecoder) (rtpPayloadType : UInt8) (p q : Int)
    (packets : List Int) : Prop :=
  ∀ before x later after, packets = before ++ x :: (later ++ after) → ∃ internalTimestamp error,
    converted decoderInfo rtpPayloadType before x = some internalTimestamp ∧
    -q ≤ error * p ∧ error * p ≤ q ∧
    (Machine.run (scalerStep decoderInfo rtpPayloadType) .create (before ++ x :: later)).toExternal internalTimestamp =
      some (stamp32 (x + error))

/-- The remainders add up to less than a unit: from 0 on with `/`, and on the side of the first packet with `tdiv`. -/
def KeepsFloor (p q : Int) (packets : List Int) : Prop :=
  ∀ before x after, packets = before ++ x :: after →
    0 ≤ remainder p q (before ++ [x]) ∧ remainder p q (before ++ [x]) < q

def KeepsTruncated (p q : Int) (packets : List Int) : Prop :=
  ∀ before x after, packets = before ++ x :: after →
    (before.headD x ≤ x → 0 ≤ remainder p q (before ++ [x]) ∧ remainder p q (before ++ [x]) < q) ∧
    (x < before.headD x → -q < remainder p q (before ++ [x]) ∧ remainder p q (before ++ [x]) ≤ 0)

/-- The way back over the distance `d` with the remainder `r`: it fits into an `int`, and rounds off no more than one
scaled unit. -/
def WayBack (p q d r : Int) : Prop :=
  -2147483648 ≤ p * d - r ∧ p * d - r ≤ 2147483647 ∧ -q ≤ ((p * d - r).tdiv p - d) * p ∧
    ((p * d - r).tdiv p - d) * p ≤ q

/-- There is a way back from the last packet to every other one; whole turns of the timestamps do not matter. -/
def Reaches (p q : Int) (packets : List Int) : Prop :=
  ∀ before x later after, packets = before ++ x :: (later ++ after) → ∃ turns : Int,
    WayBack p q (x - later.getLastD x - q * 4294967296 * turns)
      (remainder p q (before ++ [x]) - remainder p q (before ++ x :: later))

/-- A quotient and what is left. -/
theorem tdiv_bounds (a : Int) {b : Int} (hb : 0 < b) : b * a.tdiv b + a.tmod b = a ∧
    (0 ≤ a → 0 ≤ a.tmod b) ∧ (a ≤ 0 → a.tmod b ≤ 0) ∧ -b < a.tmod b ∧ a.tmod b < b := by
  refine ⟨Int.mul_tdiv_add_tmod a b, Int.tmod_nonneg b, fun ha => ?_, ?_, Int.tmod_lt_of_pos a hb⟩
  · have hneg := Int.tmod_nonneg b (show 0 ≤ -a by omega)
    rw [Int.neg_tmod] at hneg
    omega
  · have hneg := Int.tmod_lt_of_pos (-a) hb
    rw [Int.neg_tmod] at hneg
    omega

section Exact
variable {decoderInfo : UInt8 → Option NetEqDecoder} {rtpPayloadType : UInt8} {p q : Int} {packets : List Int}

theorem converted_eq (h : Scales decoderInfo rtpPayloadType p q) {before after : List Int} {x : Int}
    (hclose : Close (before ++ x :: after)) :
    converted decoderInfo rtpPayloadType before x = some (stamp32 (before.headD x + scaled p q (before ++ [x]))) := by
  have hprefix : Close (before ++ [x]) := by
    rw [Close, ← List.singleton_append, ← List.append_assoc] at hclose
    exact (List.isChain_append.1 hclose).1
  rw [converted, scalerStep_run h before x hprefix]

/-- One more packet adds less than a unit. -/
theorem remainder_next (hq : 0 < q) (l : List Int) (x y : Int) :
    -q < remainder p q (l ++ [x, y]) - remainder p q (l ++ [x]) ∧
      remainder p q (l ++ [x, y]) - remainder p q (l ++ [x]) < q := by
  have hbounds := tdiv_bounds (p * (y - x)) hq
  rw [remainder_concat]
  omega

theorem stamp32_floor (hq : 0 < q) (x0 : Int) {s r a : Int} (ha : q * s + r = a) :
    stamp32 (x0 + s) = stamp32 (x0 + a / q) ↔ r / q % 4294967296 = 0 := by
  have hdiv : a / q = r / q + s := by
    rw [← ha, Int.add_comm, Int.add_mul_ediv_left _ _ (Int.ne_of_gt hq)]
  rw [stamp32_inj, hdiv]
  omega

theorem stamp32_truncated (hq : 0 < q) (x0 : Int) {s r a : Int} (ha : q * s + r = a) :
    stamp32 (x0 + s) = stamp32 (x0 + a.tdiv q) ↔
      (0 ≤ a → r / q % 4294967296 = 0) ∧ (a < 0 → -r / q % 4294967296 = 0) := by
  rcases lt_or_ge a 0 with hneg | hpos
  · have hdiv : a.tdiv q = s - -r / q := by
      have hflip : -a / q = -r / q + -s := by
        rw [← ha, Int.neg_add, ← Int.mul_neg, Int.add_comm, Int.add_mul_ediv_left _ _ (Int.ne_of_gt hq)]
      rw [← Int.neg_neg a, Int.neg_tdiv, Int.tdiv_eq_ediv_of_nonneg (by omega), hflip]
      omega
    rw [stamp32_inj, hdiv]
    omega
  · rw [Int.tdiv_eq_ediv_of_nonneg hpos, stamp32_floor hq x0 ha]
    omega

/-- **Rounding down** is exact while the remainders add up to less than a unit. -/
theorem noDrift_floor_iff (h : Scales decoderInfo rtpPayloadType p q) (hclose : Close packets) :
    NoDrift decoderInfo rtpPayloadType p q (· / ·) packets ↔ KeepsFloor p q packets := by
  have hq : 0 < q := by
    rcases h.denominator with rfl | rfl <;> decide
  have hpoint : ∀ before x after, packets = before ++ x :: after →
      (converted decoderInfo rtpPayloadType before x = some (stamp32 (before.headD x + p * (x - before.headD x) / q)) ↔
        remainder p q (before ++ [x]) / q % 4294967296 = 0) := by
    rintro before x after rfl
    rw [converted_eq h hclose, Option.some_inj]
    exact stamp32_floor hq _ (scaled_add_remainder before x)
  constructor
  · intro hdrift before
    -- The first packet after which they do not is seen.
    induction before using List.reverseRecOn with
    | nil =>
      intro x after _
      exact ⟨Int.le_refl 0, hq⟩
    | append_singleton before y ih =>
      intro x after hpackets
      have hturn := (hpoint _ x after hpackets).1 (hdrift _ x after hpackets)
      rw [List.append_assoc, List.singleton_append] at hpackets hturn ⊢
      have hkept := ih y (x :: after) hpackets
      have hnext := @remainder_next p q hq before y x
      rcases h.denominator with rfl | rfl <;> omega
  · intro hkeeps before x after hpackets
    obtain ⟨hpos, hless⟩ := hkeeps before x after hpackets
    refine (hpoint before x after hpackets).2 ?_
    rw [Int.ediv_eq_zero_of_lt hpos hless]
    rfl

/-- **Rounding towards zero** is exact while they do so on the side of the first packet. -/
theorem noDrift_truncated_iff (h : Scales decoderInfo rtpPayloadType p q) (hclose : Close packets) :
    NoDrift decoderInfo rtpPayloadType p q Int.tdiv packets ↔ KeepsTruncated p q packets := by
  have hq : 0 < q := by
    rcases h.denominator with rfl | rfl <;> decide
  have hpoint : ∀ before x after, packets = before ++ x :: after →
      (converted decoderInfo rtpPayloadType before x =
        some (stamp32 (before.headD x + (p * (x - before.headD x)).tdiv q)) ↔
        (before.headD x ≤ x → remainder p q (before ++ [x]) / q % 4294967296 = 0) ∧
        (x < before.headD x → -remainder p q (before ++ [x]) / q % 4294967296 = 0)) := by
    rintro before x after rfl
    rw [converted_eq h hclose, Option.some_inj, stamp32_truncated hq _ (scaled_add_remainder before x), h.numerator]
    refine and_congr (imp_congr_left ?_) (imp_congr_left ?_) <;> omega
  constructor
  · intro hdrift before
    induction before using List.reverseRecOn with
    | nil =>
      intro x after _
      exact ⟨fun _ => ⟨Int.le_refl 0, hq⟩, fun hbefore => absurd hbefore (Int.lt_irrefl x)⟩
    | append_singleton before y ih =>
      intro x after hpackets
      have hturn := (hpoint _ x after hpackets).1 (hdrift _ x after hpackets)
      have hhead : (before ++ [y]).headD x = before.headD y := by cases before <;> rfl
      rw [hhead] at hturn ⊢
      rw [List.append_assoc, List.singleton_append] at hpackets hturn ⊢
      have hkept := ih y (x :: after) hpackets
      have hnext := @remainder_next p q hq before y x
      rcases h.denominator with rfl | rfl <;> omega
  · intro hkeeps before x after hpackets
    obtain ⟨hafter, hbefore⟩ := hkeeps before x after hpackets
    refine (hpoint before x after hpackets).2 ⟨fun hx => ?_, fun hx => ?_⟩
    · rw [Int.ediv_eq_zero_of_lt (hafter hx).1 (hafter hx).2]
      rfl
    · have hsmall := hbefore hx
      rw [Int.ediv_eq_zero_of_lt (show 0 ≤ -remainder p q (before ++ [x]) by omega) (by omega)]
      rfl

/-- The way back over a distance, with the reference at `x` and `y`. -/
theorem toExternal_iff (hq : q = 1 ∨ q = 3) {x y m d r : Int} (hm : q * m + r = 2 * d) (hless : -2 * q < r)
    (hmore : r < 2 * q) :
    (∃ error, -q ≤ error * 2 ∧ error * 2 ≤ q ∧
      TimestampScaler.toExternal ⟨true, 2, q, stamp32 x, stamp32 y⟩ (stamp32 (y + m)) =
        some (stamp32 (x + d + error))) ↔
    ∃ turns : Int, WayBack 2 q (d - q * 4294967296 * turns) r := by
  have hdiff : y + m - y = m := by omega
  have hcode : TimestampScaler.toExternal ⟨true, 2, q, stamp32 x, stamp32 y⟩ (stamp32 (y + m)) =
      (checked32 (i32 m * q)).map fun product => stamp32 (x + product.tdiv 2) := by
    simp only [TimestampScaler.toExternal, stamp32_sub, hdiff, signed_stamp32, stamp32_add]
    rfl
  rw [hcode]
  obtain ⟨j, hj⟩ : ∃ j : Int, i32 m = m - 4294967296 * j := by
    unfold i32
    split
    · exact ⟨m / 4294967296, by omega⟩
    · exact ⟨m / 4294967296 + 1, by omega⟩
  have hrange := i32_range m
  constructor
  · rintro ⟨error, hlow, hhigh, heq⟩
    obtain ⟨product, hproduct, heq⟩ := Option.map_eq_some_iff.1 heq
    obtain ⟨hfits, rfl⟩ : (-2147483648 ≤ i32 m * q ∧ i32 m * q ≤ 2147483647) ∧ i32 m * q = product := by
      unfold checked32 at hproduct
      split at hproduct
      · rename_i hfits
        exact ⟨hfits, Option.some.inj hproduct⟩
      · cases hproduct
    have hround := tdiv_bounds (i32 m * q) (show (0 : Int) < 2 by decide)
    obtain ⟨k, hk⟩ : ∃ k : Int, (i32 m * q).tdiv 2 = d + error + 4294967296 * k := by
      rw [stamp32_inj] at heq
      exact ⟨(x + (i32 m * q).tdiv 2) / 4294967296 - (x + d + error) / 4294967296, by omega⟩
    have hproduct : i32 m * q = 2 * d - r - 4294967296 * (q * j) := by
      rw [hj, Int.sub_mul, Int.mul_comm m q, Int.mul_assoc, Int.mul_comm j q]
      omega
    -- An odd number of turns of the internal timestamp would be half a turn of the external one.
    have hzero : 2 * k + q * j = 0 := by
      have hsmall : -(2 * q + 2 + q) < 4294967296 * (2 * k + q * j) ∧ 4294967296 * (2 * k + q * j) < 2 * q + 2 + q := by
        omega
      rcases hq with rfl | rfl <;> omega
    have heven : j = 2 * (j / 2) := by
      rcases hq with rfl | rfl <;> omega
    have hturned : q * 4294967296 * (j / 2) = -(4294967296 * k) := by
      rcases hq with rfl | rfl <;> omega
    refine ⟨j / 2, ?_⟩
    have hsame : 2 * (d - q * 4294967296 * (j / 2)) - r = i32 m * q := by omega
    rw [WayBack, hsame, hturned, hk]
    refine ⟨hfits.1, hfits.2, ?_, ?_⟩ <;> omega
  · rintro ⟨turns, hlow, hhigh, hlow', hhigh'⟩
    have hturns : j = 2 * turns := by
      rcases hq with rfl | rfl <;> omega
    have hsame : 2 * (d - q * 4294967296 * turns) - r = i32 m * q := by
      rcases hq with rfl | rfl <;> omega
    rw [hsame] at hlow hhigh hlow' hhigh'
    refine ⟨(i32 m * q).tdiv 2 - (d - q * 4294967296 * turns), hlow', hhigh', ?_⟩
    rw [checked32_eq hlow hhigh, Option.map_some, Option.some_inj, stamp32_inj]
    rcases hq with rfl | rfl <;> omega

/-- The packet that is the last one. -/
theorem exists_last (before : List Int) (x : Int) (later : List Int) :
    ∃ l, before ++ x :: later = l ++ [later.getLastD x] ∧
    l.headD (later.getLastD x) = before.headD x := by
  cases later using List.reverseRecOn with
  | nil => exact ⟨before, rfl, rfl⟩
  | append_singleton later z =>
    refine ⟨before ++ x :: later, by simp, ?_⟩
    cases before <;> rfl

/-- **The way back** from every packet to those before it. -/
theorem convertsBack_iff (h : Scales decoderInfo rtpPayloadType p q) (hclose : Close packets)
    (hsmall : ∀ before x after, packets = before ++ x :: after →
      -q < remainder p q (before ++ [x]) ∧ remainder p q (before ++ [x]) < q) :
    ConvertsBack decoderInfo rtpPayloadType p q packets ↔ Reaches p q packets := by
  obtain rfl := h.numerator
  refine forall_congr' fun before => forall_congr' fun x => forall_congr' fun later => forall_congr' fun after =>
    imp_congr_right fun hpackets => ?_
  obtain ⟨l, hl, hhead⟩ := exists_last before x later
  generalize later.getLastD x = z at *
  have hsplit : packets = l ++ z :: after := by
    rw [hpackets, ← List.cons_append, ← List.append_assoc, hl, List.append_assoc, List.singleton_append]
  obtain ⟨hk1, hk2⟩ := hsmall before x (later ++ after) hpackets
  obtain ⟨hn1, hn2⟩ := hsmall l z after hsplit
  have hkept := @scaled_add_remainder 2 q before x
  have hkept' := @scaled_add_remainder 2 q l z
  have hconverted := converted_eq h (hpackets ▸ hclose)
  have hstate : Machine.run (scalerStep decoderInfo rtpPayloadType) .create (before ++ x :: later) =
      ⟨true, 2, q, stamp32 z, stamp32 (before.headD x + scaled 2 q (l ++ [z]))⟩ := by
    have hprefix : Close (l ++ [z]) := by
      rw [hsplit, Close, ← List.singleton_append, ← List.append_assoc] at hclose
      exact (List.isChain_append.1 hclose).1
    rw [hl, Machine.run_append, Machine.run_cons, Machine.run_nil, scalerStep_run h l z hprefix, hhead]
  rw [hhead] at hkept'
  -- The distance of the two packets, there and back.
  have hdistance : q * (scaled 2 q (before ++ [x]) - scaled 2 q (l ++ [z])) +
      (remainder 2 q (before ++ [x]) - remainder 2 q (l ++ [z])) = 2 * (x - z) := by
    rw [Int.mul_sub]
    omega
  rw [hstate, hl, ← toExternal_iff h.denominator (x := z) (y := before.headD x + scaled 2 q (l ++ [z])) hdistance
    (by omega) (by omega)]
  have hinternal : before.headD x + scaled 2 q (l ++ [z]) + (scaled 2 q (before ++ [x]) - scaled 2 q (l ++ [z])) =
      before.headD x + scaled 2 q (before ++ [x]) := by omega
  have hexternal : ∀ error, z + (x - z) + error = x + error := by
    intro error
    omega
  simp only [hconverted, hinternal, hexternal]
  constructor
  · rintro ⟨internalTimestamp, error, hsome, hlow, hhigh, hback⟩
    rw [← Option.some.inj hsome] at hback
    exact ⟨error, hlow, hhigh, hback⟩
  · rintro ⟨error, hlow, hhigh, hback⟩
    exact ⟨_, error, rfl, hlow, hhigh, hback⟩

/-- What all packets keep, with either way of rounding. -/
theorem remainder_small (hq : 0 < q) (hkeeps : KeepsFloor p q packets ∨ KeepsTruncated p q packets) :
    ∀ before x after, packets = before ++ x :: after →
      -q < remainder p q (before ++ [x]) ∧ remainder p q (before ++ [x]) < q := by
  intro before x after hpackets
  rcases hkeeps with hkeeps | hkeeps
  · have hkept := hkeeps before x after hpackets
    omega
  · have hkept := hkeeps before x after hpackets
    omega

end Exact

/-- **Timestamp scaling does not drift exactly when the remainders do not add up**, and it can be undone exactly when
the way back fits. -/
theorem scaler_exact_iff (decoderInfo : UInt8 → Option NetEqDecoder) (rtpPayloadType : UInt8) (p q : Int)
    (h : Scales decoderInfo rtpPayloadType p q) (packets : List Int) (hclose : Close packets) :
    ((NoDrift decoderInfo rtpPayloadType p q (· / ·) packets ∨
      NoDrift decoderInfo rtpPayloadType p q Int.tdiv packets) ∧
      ConvertsBack decoderInfo rtpPayloadType p q packets) ↔
    ((KeepsFloor p q packets ∨ KeepsTruncated p q packets) ∧ Reaches p q packets) := by
  have hq : 0 < q := by
    rcases h.denominator with rfl | rfl <;> decide
  rw [noDrift_floor_iff h hclose, noDrift_truncated_iff h hclose]
  exact and_congr_right fun hkeeps => convertsBack_iff h hclose (remainder_small hq hkeeps)

/-- Comfort noise for 48 kHz. -/
def cng48 : UInt8 → Option NetEqDecoder := fun _ => some .decoderCNGswb48kHz

theorem cng48_scales (rtpPayloadType : UInt8) : Scales cng48 rtpPayloadType 2 3 :=
  ⟨⟨.decoderCNGswb48kHz, rfl, fun _ => rfl⟩, rfl, .inr rfl⟩

/-- Two packets of 10 ms. -/
theorem scaler_exact_frames :
    (NoDrift cng48 13 2 3 (· / ·) [0, 480] ∨ NoDrift cng48 13 2 3 Int.tdiv [0, 480]) ∧
      ConvertsBack cng48 13 2 3 [0, 480] := by
  refine (scaler_exact_iff cng48 13 2 3 (cng48_scales 13) [0, 480] (by simp [Close])).2 ⟨.inl ?_, ?_⟩
  · intro before x after hpackets
    rcases before with _ | ⟨a, _ | ⟨b, before⟩⟩ <;> simp at hpackets
    · obtain ⟨rfl, -⟩ := hpackets
      decide
    · obtain ⟨rfl, rfl, -⟩ := hpackets
      decide
  · intro before x later after hpackets
    refine ⟨0, ?_⟩
    rcases before with _ | ⟨a, _ | ⟨b, before⟩⟩ <;> simp at hpackets
    · obtain ⟨rfl, hlater⟩ := hpackets
      rcases later with _ | ⟨c, later⟩
      · exact ⟨by decide, by decide, by decide, by decide⟩
      · simp at hlater
        obtain ⟨rfl, rfl, -⟩ := hlater
        exact ⟨by decide, by decide, by decide, by decide⟩
    · obtain ⟨rfl, rfl, rfl, -⟩ := hpackets
      exact ⟨by decide, by decide, by decide, by decide⟩

/-- Three packets that are one further each: the internal timestamp stays where it is. -/
theorem not_scaler_exact : ¬ ∀ (decoderInfo : UInt8 → Option NetEqDecoder) (rtpPayloadType : UInt8) (p q : Int),
    Scales decoderInfo rtpPayloadType p q → ∀ packets : List Int, Close packets →
    (NoDrift decoderInfo rtpPayloadType p q (· / ·) packets ∨ NoDrift decoderInfo rtpPayloadType p q Int.tdiv packets) ∧
      ConvertsBack decoderInfo rtpPayloadType p q packets := by
  intro h
  have hlast : converted cng48 13 [0, 1, 2] 3 = some 0 := by decide
  rcases (h cng48 13 2 3 (cng48_scales 13) [0, 1, 2, 3] (by simp [Close])).1 with hdrift | hdrift
  · have hstep := hdrift [0, 1, 2] 3 [] rfl
    rw [hlast] at hstep
    exact absurd hstep (by decide)
  · have hstep := hdrift [0, 1, 2] 3 [] rfl
    rw [hlast] at hstep
    exact absurd hstep (by decide)

end WebRtc.NetEq
