import Mathlib.Data.Nat.Find
import WebRtc.Lib.Reader
import WebRtc.Rtcp.Events

/-!
# Bit rates as a mantissa and an exponent

| here | there |
| --- | --- |
| `computeMantissaAnd6bitBase2Exponent` | the function of that name (rtcp_packet.cc:77) |
| `createTmmbrItem`, `createRemb` | `CreateTmmbrItem` (:410), `CreateRemb` (:489) |
| `decoded` | `brMantissa << brExp` and `mxtbrMantissa << mxtbrExp` (rtcp_utility.cc:1441, :1496) |

A shift by 32 or more is undefined in C; here only the lower five bits of the count are used, as on the
processors the code runs on. Rounds 32 to 63 of the search are then rounds 0 to 31 over again.
-/

namespace WebRtc.Rtcp

open Bytes
open WebRtc.Rtcp.Parser

/-- `n` rounds of the search, from round `i` on. -/
def exponentLoop (inputBase10 mantissaMax : UInt32) : Nat → Nat → UInt8
  | 0, _ => 0
  | n + 1, i =>
    if inputBase10 ≤ mantissaMax <<< UInt32.ofNat i then UInt8.ofNat i
    else exponentLoop inputBase10 mantissaMax n (i + 1)

/-- The mantissa and the exponent. -/
def computeMantissaAnd6bitBase2Exponent (inputBase10 : UInt32) (bitsMantissa : UInt8) : UInt32 × UInt8 :=
  let mantissaMax := ((1 : UInt32) <<< bitsMantissa.toUInt32) - 1
  let exponent := exponentLoop inputBase10 mantissaMax 64 0
  (inputBase10 >>> exponent.toUInt32, exponent)

/-- The bit rate of the item is in kbit/s. -/
def createTmmbrItem (item : TmmbItem) : List UInt8 :=
  let code := computeMantissaAnd6bitBase2Exponent (item.maxTotalMediaBitRate * 1000) 17
  be32 item.ssrc ++ [code.2 <<< 2 + ((code.1 >>> 15) &&& 0x03).toUInt8, (code.1 >>> 7).toUInt8,
    (code.1 <<< 1 + ((item.measuredOverhead >>> 8) &&& 0x01)).toUInt8, item.measuredOverhead.toUInt8]

/-- A TMMBR packet (`Tmmbr::Create`, :1080). -/
def createTmmbr (sender : UInt32) (item : TmmbItem) : List UInt8 :=
  createHeader 3 205 4 ++ be32 sender ++ be32 0 ++ createTmmbrItem item

/-- `ssrcs` has `NumberOfSSRCs` entries. -/
structure RembItem where
  bitRate : UInt32
  ssrcs : List UInt32
  max_ssrcs : ssrcs.length ≤ 255

/-- `CreateRemb` from the number of SSRCs on. -/
def createRembItem (item : RembItem) : List UInt8 :=
  let code := computeMantissaAnd6bitBase2Exponent item.bitRate 18
  [UInt8.ofNat item.ssrcs.length, code.2 <<< 2 + ((code.1 >>> 16) &&& 0x03).toUInt8, (code.1 >>> 8).toUInt8,
    code.1.toUInt8] ++ item.ssrcs.flatMap be32

/-- A REMB packet (`Remb::Create`, :1058). -/
def createRemb (sender : UInt32) (item : RembItem) : List UInt8 :=
  createHeader 15 206 ((item.ssrcs.length + 5) * 4 / 4 - 1) ++ be32 sender ++ be32 0 ++
    [0x52, 0x45, 0x4d, 0x42] ++ createRembItem item

/-- What the parser makes of the two. -/
def decoded (code : UInt32 × UInt8) : UInt32 := code.1 <<< code.2.toUInt32

/-- The code stands for `bitrate`, rounded down. -/
structure Faithful (bits : Nat) (bitrate : UInt32) (code : UInt32 × UInt8) : Prop where
  mantissa_lt : code.1.toNat < 2 ^ bits
  exponent_lt : code.2.toNat < 64
  le : (decoded code).toNat ≤ bitrate.toNat
  near : bitrate.toNat - (decoded code).toNat < 2 ^ code.2.toNat
  exact : bitrate.toNat < 2 ^ bits → code.2 = 0

/-! ## The search -/

variable {b max : UInt32}

theorem exponentLoop_found {n i e : Nat} (hi : i ≤ e) (hn : e < i + n) (hfit : b ≤ max <<< UInt32.ofNat e)
    (hfirst : ∀ j, i ≤ j → j < e → ¬ b ≤ max <<< UInt32.ofNat j) : exponentLoop b max n i = UInt8.ofNat e := by
  induction n generalizing i with
  | zero => omega
  | succ n ih =>
    unfold exponentLoop
    rcases Nat.lt_or_eq_of_le hi with hlt | rfl
    · rw [if_neg (hfirst i (Nat.le_refl i) hlt)]
      exact ih hlt (by omega) fun j hj => hfirst j (by omega)
    · rw [if_pos hfit]

theorem exponentLoop_none {n i : Nat} (h : ∀ j, ¬ b ≤ max <<< UInt32.ofNat j) : exponentLoop b max n i = 0 := by
  induction n generalizing i with
  | zero => rfl
  | succ n ih =>
    unfold exponentLoop
    rw [if_neg (h i), ih]

theorem shiftLeft_toNat (x : UInt32) {i : Nat} (h : i < 2 ^ 32) :
    (x <<< UInt32.ofNat i).toNat = x.toNat * 2 ^ (i % 32) % 2 ^ 32 := by
  rw [UInt32.toNat_shiftLeft, UInt32.toNat_ofNat', Nat.mod_eq_of_lt h, Nat.shiftLeft_eq]

/-- Whatever the shift, the lowest bits of a shifted mantissa are clear or its highest bits have not
moved far. -/
theorem shifted_le {bits i : Nat} (hb : bits ≤ 32) (hi : i < 32) :
    (2 ^ bits - 1) * 2 ^ i % 2 ^ 32 ≤ (2 ^ bits - 1) * 2 ^ (32 - bits) := by
  have htop : (2 ^ bits - 1) * 2 ^ (32 - bits) = 2 ^ 32 - 2 ^ (32 - bits) := by
    rw [Nat.sub_mul, Nat.one_mul, ← Nat.pow_add, Nat.add_sub_cancel' hb]
  rcases Nat.le_total i (32 - bits) with hle | hge
  · calc (2 ^ bits - 1) * 2 ^ i % 2 ^ 32 ≤ (2 ^ bits - 1) * 2 ^ i := Nat.mod_le _ _
      _ ≤ (2 ^ bits - 1) * 2 ^ (32 - bits) := Nat.mul_le_mul_left _ (Nat.pow_le_pow_right (by decide) hle)
  · -- A multiple of `2 ^ i` below `2 ^ 32`.
    rw [htop]
    have hdvd : 2 ^ i ∣ (2 ^ bits - 1) * 2 ^ i % 2 ^ 32 :=
      (Nat.dvd_mod_iff (Nat.pow_dvd_pow 2 (by omega))).2 (Nat.dvd_mul_left _ _)
    have hlt := Nat.mod_lt ((2 ^ bits - 1) * 2 ^ i) (show 2 ^ 32 > 0 by decide)
    have hsub : 2 ^ i ∣ 2 ^ 32 - (2 ^ bits - 1) * 2 ^ i % 2 ^ 32 := Nat.dvd_sub (Nat.pow_dvd_pow 2 (by omega)) hdvd
    have hle := Nat.le_of_dvd (by omega) hsub
    have hpow : 2 ^ (32 - bits) ≤ 2 ^ i := Nat.pow_le_pow_right (by decide) hge
    omega

/-! ## What is found -/

/-- The largest mantissa. -/
theorem mantissaMax_toNat {bits : UInt8} (hb : bits.toNat < 32) :
    (((1 : UInt32) <<< bits.toUInt32) - 1).toNat = 2 ^ bits.toNat - 1 := by
  have hpow : 2 ^ bits.toNat < 2 ^ 32 := Nat.pow_lt_pow_right (by decide) hb
  have hshift : ((1 : UInt32) <<< bits.toUInt32).toNat = 2 ^ bits.toNat := by
    rw [UInt32.toNat_shiftLeft, UInt8.toNat_toUInt32, Nat.mod_eq_of_lt hb, Nat.shiftLeft_eq, UInt32.toNat_one,
      Nat.one_mul, Nat.mod_eq_of_lt hpow]
  have hone : (1 : UInt32) ≤ (1 : UInt32) <<< bits.toUInt32 := by
    rw [UInt32.le_iff_toNat_le, hshift]
    exact Nat.one_le_two_pow
  rw [UInt32.toNat_sub_of_le _ _ hone, hshift, UInt32.toNat_one]

theorem ofNat_toUInt32_toNat {e : Nat} (h : e < 256) : (UInt8.ofNat e).toUInt32.toNat = e := by
  rw [UInt8.toNat_toUInt32, UInt8.toNat_ofNat', Nat.mod_eq_of_lt h]

/-- A bit rate with a mantissa of `bits` bits has the least exponent at which it fits. -/
theorem compute_of_le {bits : UInt8} (b : UInt32) (h0 : 0 < bits.toNat) (h32 : bits.toNat < 32)
    (h : b.toNat ≤ (2 ^ bits.toNat - 1) * 2 ^ (32 - bits.toNat)) :
    ∃ e < 32, b.toNat ≤ (2 ^ bits.toNat - 1) * 2 ^ e ∧ (∀ j < e, (2 ^ bits.toNat - 1) * 2 ^ j < b.toNat) ∧
      computeMantissaAnd6bitBase2Exponent b bits = (UInt32.ofNat (b.toNat / 2 ^ e), UInt8.ofNat e) := by
  have hex : ∃ e, b.toNat ≤ (2 ^ bits.toNat - 1) * 2 ^ e := ⟨_, h⟩
  obtain ⟨e, hfit, hfirst⟩ : ∃ e, b.toNat ≤ (2 ^ bits.toNat - 1) * 2 ^ e ∧
      ∀ j < e, ¬ b.toNat ≤ (2 ^ bits.toNat - 1) * 2 ^ j := ⟨Nat.find hex, Nat.find_spec hex, fun j => Nat.find_min hex⟩
  have he : e ≤ 32 - bits.toNat := Nat.le_of_not_lt fun hlt => hfirst _ hlt h
  -- Nothing is shifted out before the exponent is found.
  have hshift : ∀ j ≤ e, ((((1 : UInt32) <<< bits.toUInt32) - 1) <<< UInt32.ofNat j).toNat =
      (2 ^ bits.toNat - 1) * 2 ^ j := by
    intro j hj
    have hpow : 2 ^ j ≤ 2 ^ (32 - bits.toNat) := Nat.pow_le_pow_right (by decide) (by omega)
    have hmul := Nat.mul_le_mul_left (2 ^ bits.toNat - 1) hpow
    have htop : (2 ^ bits.toNat - 1) * 2 ^ (32 - bits.toNat) < 2 ^ 32 := by
      rw [Nat.sub_mul, Nat.one_mul, ← Nat.pow_add, Nat.add_sub_cancel' (Nat.le_of_lt h32)]
      have := Nat.two_pow_pos (32 - bits.toNat)
      omega
    rw [shiftLeft_toNat _ (by omega), mantissaMax_toNat h32, Nat.mod_eq_of_lt (by omega : j < 32),
      Nat.mod_eq_of_lt (Nat.lt_of_le_of_lt hmul htop)]
  have hloop : exponentLoop b (((1 : UInt32) <<< bits.toUInt32) - 1) 64 0 = UInt8.ofNat e := by
    refine exponentLoop_found (Nat.zero_le e) (by omega) ?_ fun j _ hj => ?_
    · rw [UInt32.le_iff_toNat_le, hshift e (Nat.le_refl e)]
      exact hfit
    · rw [UInt32.le_iff_toNat_le, hshift j (Nat.le_of_lt hj)]
      exact hfirst j hj
  refine ⟨e, by omega, hfit, fun j hj => Nat.lt_of_not_le (hfirst j hj), ?_⟩
  rw [computeMantissaAnd6bitBase2Exponent, hloop]
  congr 1
  rw [← UInt32.toNat_inj, UInt32.toNat_shiftRight, ofNat_toUInt32_toNat (by omega), Nat.shiftRight_eq_div_pow,
    Nat.mod_eq_of_lt (by omega : e < 32), UInt32.toNat_ofNat',
    Nat.mod_eq_of_lt (Nat.lt_of_le_of_lt (Nat.div_le_self _ _) b.toNat_lt)]

/-- Any other keeps all its bits. -/
theorem compute_of_lt {bits : UInt8} (b : UInt32) (h32 : bits.toNat < 32)
    (h : (2 ^ bits.toNat - 1) * 2 ^ (32 - bits.toNat) < b.toNat) :
    computeMantissaAnd6bitBase2Exponent b bits = (b, 0) := by
  have hloop : exponentLoop b (((1 : UInt32) <<< bits.toUInt32) - 1) 64 0 = 0 := by
    refine exponentLoop_none fun j => ?_
    have hle := shifted_le (i := (UInt32.ofNat j).toNat % 32) (Nat.le_of_lt h32) (Nat.mod_lt _ (by decide))
    rw [UInt32.le_iff_toNat_le, UInt32.toNat_shiftLeft, Nat.shiftLeft_eq, mantissaMax_toNat h32]
    omega
  rw [computeMantissaAnd6bitBase2Exponent, hloop]
  exact Prod.ext UInt32.shiftRight_zero rfl

/-- What the parser gets back: the lowest bits are clear. -/
theorem decoded_toNat (b : UInt32) {e : Nat} (he : e < 32) :
    (decoded (UInt32.ofNat (b.toNat / 2 ^ e), UInt8.ofNat e)).toNat = b.toNat / 2 ^ e * 2 ^ e := by
  have hle := Nat.div_mul_le_self b.toNat (2 ^ e)
  have hdiv := Nat.div_le_self b.toNat (2 ^ e)
  have hb := b.toNat_lt
  rw [decoded, UInt32.toNat_shiftLeft, ofNat_toUInt32_toNat (by omega), Nat.mod_eq_of_lt he, Nat.shiftLeft_eq,
    UInt32.toNat_ofNat', Nat.mod_eq_of_lt (Nat.lt_of_le_of_lt hdiv hb), Nat.mod_eq_of_lt (Nat.lt_of_le_of_lt hle hb)]

theorem faithful_iff (bits : UInt8) (b : UInt32) (h0 : 0 < bits.toNat) (h32 : bits.toNat < 32) :
    Faithful bits.toNat b (computeMantissaAnd6bitBase2Exponent b bits) ↔
      b.toNat ≤ (2 ^ bits.toNat - 1) * 2 ^ (32 - bits.toNat) := by
  constructor
  · intro hf
    refine Nat.le_of_not_lt fun hlt => ?_
    have hm := hf.mantissa_lt
    rw [compute_of_lt b h32 hlt] at hm
    have hbits : 2 ^ 1 ≤ 2 ^ bits.toNat := Nat.pow_le_pow_right (by decide) h0
    have hrest : 2 ^ 1 ≤ 2 ^ (32 - bits.toNat) := Nat.pow_le_pow_right (by decide) (by omega)
    have := Nat.mul_le_mul_left (2 ^ bits.toNat - 1) hrest
    dsimp only at hm
    omega
  · intro h
    obtain ⟨e, he, hfit, hfirst, hcode⟩ := compute_of_le b h0 h32 h
    have hexp : (UInt8.ofNat e).toNat = e := by rw [UInt8.toNat_ofNat', Nat.mod_eq_of_lt (by omega)]
    have hsum := Nat.div_add_mod' b.toNat (2 ^ e)
    have hmod := Nat.mod_lt b.toNat (Nat.two_pow_pos e)
    rw [hcode]
    refine ⟨?_, ?_, ?_, ?_, ?_⟩
    · have hdiv : b.toNat / 2 ^ e ≤ 2 ^ bits.toNat - 1 := Nat.div_le_of_le_mul (by rw [Nat.mul_comm]; exact hfit)
      have hlt := Nat.lt_of_le_of_lt (Nat.div_le_self b.toNat (2 ^ e)) b.toNat_lt
      have hpos := Nat.two_pow_pos bits.toNat
      dsimp only
      rw [UInt32.toNat_ofNat', Nat.mod_eq_of_lt hlt]
      omega
    · dsimp only
      omega
    · rw [decoded_toNat b he]
      exact Nat.div_mul_le_self _ _
    · rw [decoded_toNat b he]
      dsimp only
      rw [hexp]
      omega
    · intro hsmall
      rcases Nat.eq_zero_or_pos e with rfl | hpos
      · rfl
      · have := hfirst 0 hpos
        omega

/-! ## On the wire -/

theorem byte_fields (x : UInt8) : ((x >>> 2) &&& 0x3f).toNat = x.toNat / 4 ∧ (x &&& 0x03).toNat = x.toNat % 4 ∧
    ((x >>> 1) &&& 0x7f).toNat = x.toNat / 2 ∧ (x &&& 0x01).toNat = x.toNat % 2 := by
  revert x
  decide +kernel

theorem and_three_toNat (x : UInt32) : (x &&& 0x03).toNat = x.toNat % 4 := by
  rw [UInt32.toNat_and]
  exact Nat.and_two_pow_sub_one_eq_mod x.toNat 2

theorem and_one_toNat (x : UInt32) : (x &&& 0x01).toNat = x.toNat % 2 := by
  rw [UInt32.toNat_and]
  exact Nat.and_two_pow_sub_one_eq_mod x.toNat 1

/-- The byte with the exponent and the two upper bits of the mantissa. -/
theorem exponentByte {exp : UInt8} (he : exp.toNat < 64) (top : UInt32) :
    (exp <<< 2 + (top &&& 0x03).toUInt8).toNat = exp.toNat * 4 + top.toNat % 4 := by
  have htwo : (2 : UInt8).toNat % 8 = 2 := rfl
  rw [UInt8.toNat_add, UInt8.toNat_shiftLeft, UInt32.toNat_toUInt8, and_three_toNat, htwo, Nat.shiftLeft_eq]
  omega

variable {buf : List UInt8} {p : Nat}

/-- The parser reads the fields of the item again, with the bit rate as it is coded. -/
theorem tmmbItemAt_create {item : TmmbItem} (hoh : item.measuredOverhead.toNat < 512)
    (hf : Faithful 17 (item.maxTotalMediaBitRate * 1000)
      (computeMantissaAnd6bitBase2Exponent (item.maxTotalMediaBitRate * 1000) 17))
    (h : At buf p (createTmmbrItem item)) :
    tmmbItemAt buf p = ⟨item.ssrc,
      decoded (computeMantissaAnd6bitBase2Exponent (item.maxTotalMediaBitRate * 1000) 17) / 1000,
      item.measuredOverhead⟩ := by
  have hm := hf.mantissa_lt
  have he := hf.exponent_lt
  rw [createTmmbrItem] at h
  generalize computeMantissaAnd6bitBase2Exponent (item.maxTotalMediaBitRate * 1000) 17 = code at hm he h ⊢
  obtain ⟨mantissa, exp⟩ := code
  dsimp only at hm he h
  obtain ⟨hssrc, h⟩ := at_append.1 h
  obtain ⟨h4, h⟩ := at_cons.1 h
  obtain ⟨h5, h⟩ := at_cons.1 h
  obtain ⟨h6, h7⟩ := at_cons.1 h
  rw [be32_length] at h4 h5 h6 h7
  have hexp : (byteAt buf (p + 4) >>> 2) &&& 0x3f = exp := by
    apply UInt8.toNat_inj.1
    rw [(byte_fields _).1, h4.byte, exponentByte he]
    omega
  have hone : (1 : UInt32).toNat % 32 = 1 := rfl
  have hseven : (7 : UInt32).toNat % 32 = 7 := rfl
  have height : (8 : UInt32).toNat % 32 = 8 := rfl
  have hfifteen : (15 : UInt32).toNat % 32 = 15 := rfl
  have hb5 : (byteAt buf (p + 5)).toNat = mantissa.toNat / 128 % 256 := by
    rw [h5.byte, UInt32.toNat_toUInt8, UInt32.toNat_shiftRight, hseven, Nat.shiftRight_eq_div_pow]
  have hb6 : (byteAt buf (p + 6)).toNat = mantissa.toNat % 128 * 2 + item.measuredOverhead.toNat / 256 := by
    rw [h6.byte, UInt32.toNat_toUInt8, UInt32.toNat_add, UInt32.toNat_shiftLeft, and_one_toNat,
      UInt32.toNat_shiftRight, hone, height, Nat.shiftRight_eq_div_pow, Nat.shiftLeft_eq]
    omega
  have hb7 : (byteAt buf (p + 7)).toNat = item.measuredOverhead.toNat % 256 := by
    rw [h7.byte, UInt32.toNat_toUInt8]
  have hmant : (byteAt buf (p + 4) &&& 0x03).toUInt32 <<< 15 + (byteAt buf (p + 5)).toUInt32 <<< 7 +
      ((byteAt buf (p + 6) >>> 1) &&& 0x7f).toUInt32 = mantissa := by
    apply UInt32.toNat_inj.1
    rw [UInt32.toNat_add, UInt32.toNat_add, UInt32.toNat_shiftLeft, UInt32.toNat_shiftLeft, hseven, hfifteen]
    rw [UInt8.toNat_toUInt32, UInt8.toNat_toUInt32, UInt8.toNat_toUInt32]
    rw [(byte_fields _).2.1, (byte_fields _).2.2.1, h4.byte, exponentByte he, hb5, hb6,
      UInt32.toNat_shiftRight, hfifteen]
    rw [Nat.shiftRight_eq_div_pow, Nat.shiftLeft_eq, Nat.shiftLeft_eq]
    omega
  have hover : (byteAt buf (p + 6) &&& 0x01).toUInt32 <<< 8 + (byteAt buf (p + 7)).toUInt32 =
      item.measuredOverhead := by
    apply UInt32.toNat_inj.1
    rw [UInt32.toNat_add, UInt32.toNat_shiftLeft, UInt8.toNat_toUInt32, UInt8.toNat_toUInt32, height,
      (byte_fields _).2.2.2, hb6, hb7, Nat.shiftLeft_eq]
    omega
  simp only [tmmbItemAt, hexp, hmant, hover, hssrc.read32, decoded]

@[simp] theorem createTmmbrItem_length (item : TmmbItem) : (createTmmbrItem item).length = 8 := rfl

theorem createRembItem_length (item : RembItem) : (createRembItem item).length = 4 + 4 * item.ssrcs.length := by
  rw [createRembItem, List.length_append, flatMap_length be32_length, Nat.mul_comm]
  rfl

/-- The SSRCs, wherever they stand. -/
theorem read32At_flatMap {l : List UInt32} (h : At buf p (l.flatMap be32)) :
    ((List.range l.length).map fun i => read32At buf (p + 4 * i)) = l := by
  induction l generalizing p with
  | nil => rfl
  | cons x l ih =>
    rw [List.flatMap_cons] at h
    obtain ⟨hx, hl⟩ := at_append.1 h
    rw [List.length_cons, List.range_succ_eq_map, List.map_cons, List.map_map]
    congr 1
    · exact hx.read32
    · refine (List.map_congr_left fun i _ => ?_).trans (ih hl)
      have hpos : p + 4 * (i + 1) = p + 4 + 4 * i := by omega
      exact congrArg (read32At buf) hpos

variable {F : Type} {parseFrom : List UInt8 → Option F} {s : Parser F}

variable (parseFrom) in
theorem parsePsfbREMBItem_create {item : RembItem} (hf : Faithful 18 item.bitRate
      (computeMantissaAnd6bitBase2Exponent item.bitRate 18)) (h : At buf p (createRembItem item))
    (hs : InItems .psfbRembItem s p (p + (createRembItem item).length)) :
    ∃ t, s.iterate buf parseFrom = (t, true) ∧
      t.packet = some (.psfbRembItem (decoded (computeMantissaAnd6bitBase2Exponent item.bitRate 18)) item.ssrcs) ∧
      InItems .psfbRembItem t (p + (createRembItem item).length) (p + (createRembItem item).length) := by
  have hm := hf.mantissa_lt
  have he := hf.exponent_lt
  have hmax := item.max_ssrcs
  rw [createRembItem_length] at hs ⊢
  rw [createRembItem] at h
  generalize computeMantissaAnd6bitBase2Exponent item.bitRate 18 = code at hm he h ⊢
  obtain ⟨mantissa, exp⟩ := code
  dsimp only at hm he h
  obtain ⟨h, hssrcs⟩ := at_append.1 h
  obtain ⟨h0, h⟩ := at_cons.1 h
  obtain ⟨h1, h⟩ := at_cons.1 h
  obtain ⟨h2, h3⟩ := at_cons.1 h
  have hexp : (byteAt buf (p + 1) >>> 2) &&& 0x3f = exp := by
    apply UInt8.toNat_inj.1
    rw [(byte_fields _).1, h1.byte, exponentByte he]
    omega
  have height : (8 : UInt32).toNat % 32 = 8 := rfl
  have hsixteen : (16 : UInt32).toNat % 32 = 16 := rfl
  have hmant : (byteAt buf (p + 1) &&& 0x03).toUInt32 <<< 16 + (byteAt buf (p + 2)).toUInt32 <<< 8 +
      (byteAt buf (p + 3)).toUInt32 = mantissa := by
    apply UInt32.toNat_inj.1
    rw [UInt32.toNat_add, UInt32.toNat_add, UInt32.toNat_shiftLeft, UInt32.toNat_shiftLeft, height, hsixteen]
    rw [UInt8.toNat_toUInt32, UInt8.toNat_toUInt32, UInt8.toNat_toUInt32]
    rw [(byte_fields _).2.1, h1.byte, exponentByte he, h2.byte, h3.byte, UInt32.toNat_toUInt8, UInt32.toNat_toUInt8,
      UInt32.toNat_shiftRight, UInt32.toNat_shiftRight, height, hsixteen]
    rw [Nat.shiftRight_eq_div_pow, Nat.shiftRight_eq_div_pow, Nat.shiftLeft_eq, Nat.shiftLeft_eq]
    omega
  have hcount : (byteAt buf p).toNat = item.ssrcs.length := by
    rw [h0.byte, UInt8.toNat_ofNat', Nat.mod_eq_of_lt (by omega)]
  have hlen : s.clear.length = 4 + 4 * item.ssrcs.length := hs.length
  have hend : s.clear.blockEnd = p + (4 + 4 * item.ssrcs.length) := hs.blockEnd
  have hptr : s.clear.ptr = p := hs.ptr
  have hstate : s.clear.state = .psfbRembItem := hs.state
  have hrest : (s.clear.moveTo buf (p + 4)).length = 4 * item.ssrcs.length := by
    show s.clear.blockEnd - (p + 4) = _
    omega
  have hround : s.iterate buf parseFrom = (((s.clear.moveTo buf (p + 4)).moveTo buf
      (p + 4 + 4 * item.ssrcs.length)).report (.psfbRembItem (decoded (mantissa, exp)) item.ssrcs), true) := by
    rw [iterate_state hs, dispatch, hstate]
    dsimp only
    rw [parsePsfbREMBItem, hlen, if_neg (by omega), hptr, hexp, hmant, hcount]
    dsimp only
    rw [hrest, if_neg (Nat.lt_irrefl _)]
    have hptr' : (s.clear.moveTo buf (p + 4)).ptr = p + 4 := rfl
    have hread : ((List.range item.ssrcs.length).map fun i => read32At buf (p + 4 + 4 * i)) = item.ssrcs :=
      read32At_flatMap hssrcs
    rw [hptr', hread]
    rfl
  refine ⟨_, hround, rfl, hs.valid, hstate, ?_, hend⟩
  show p + 4 + 4 * item.ssrcs.length = _
  omega

theorem createRemb_length (sender : UInt32) (item : RembItem) :
    (createRemb sender item).length = 20 + 4 * item.ssrcs.length := by
  simp only [createRemb, List.length_append, createHeader_length, be32_length, createRembItem_length,
    List.length_cons, List.length_nil]
  omega

variable (parseFrom) in
/-- The four letters in front of the item. -/
theorem parsePsfbAppItem_remb (h : At buf p [0x52, 0x45, 0x4d, 0x42]) {e : Nat} (hfits : p + 4 ≤ e)
    (hs : InItems .psfbAppItem s p e) :
    ∃ t, s.iterate buf parseFrom = (t, true) ∧ t.packet = some .psfbRemb ∧ InItems .psfbRembItem t (p + 4) e := by
  obtain ⟨h0, h⟩ := at_cons.1 h
  obtain ⟨h1, h⟩ := at_cons.1 h
  obtain ⟨h2, h3⟩ := at_cons.1 h
  have h2 : byteAt buf (p + 2) = 0x4d := h2.byte
  have h3 : byteAt buf (p + 3) = 0x42 := h3.byte
  have hlen : ¬ s.clear.length < 4 := by
    have hdiff : s.clear.length = s.blockEnd - s.ptr := rfl
    rw [hdiff, hs.blockEnd, hs.ptr]
    omega
  have hptr : s.clear.ptr = p := hs.ptr
  have hstate : s.clear.state = .psfbAppItem := hs.state
  have hround : s.iterate buf parseFrom =
      ({ (s.clear.moveTo buf (p + 4)).report .psfbRemb with state := .psfbRembItem }, true) := by
    rw [iterate_state hs, dispatch, hstate]
    dsimp only
    rw [parsePsfbAppItem, if_neg hlen, hptr, h0.byte, h1.byte, h2, h3]
    rfl
  exact ⟨_, hround, rfl, hs.valid, rfl, rfl, hs.blockEnd⟩

/-- A REMB packet on its own is parsed, with the bit rate as it is coded. -/
theorem remb_yields (parseFrom : List UInt8 → Option F) (sender : UInt32) {item : RembItem}
    (hf : Faithful 18 item.bitRate (computeMantissaAnd6bitBase2Exponent item.bitRate 18)) :
    Yields (createRemb sender item) parseFrom true [.psfbApp sender 0, .psfbRemb,
      .psfbRembItem (decoded (computeMantissaAnd6bitBase2Exponent item.bitRate 18)) item.ssrcs] := by
  generalize hbuf : createRemb sender item = buf
  have hlen : buf.length = 20 + 4 * item.ssrcs.length := by rw [← hbuf, createRemb_length]
  have hat : At buf 0 (createRemb sender item) := by
    rw [hbuf]
    simpa using at_zero buf []
  have hmax := item.max_ssrcs
  have hwords : (item.ssrcs.length + 5) * 4 / 4 - 1 = item.ssrcs.length + 4 := by omega
  rw [createRemb, hwords] at hat
  obtain ⟨hat, hitem⟩ := at_append.1 hat
  obtain ⟨hfixed, hname⟩ := at_append.1 hat
  have hname : At buf 12 [0x52, 0x45, 0x4d, 0x42] := hname
  have hitem : At buf 16 (createRembItem item) := hitem
  obtain ⟨hhead, -⟩ := at_append.1 (at_append.1 hfixed).1
  have hinit := init_atTop (F := F) (headerAt_create (by decide) (by omega) hhead (by omega))
  obtain ⟨t, block, ht, hte, hround⟩ := @iterate_feedback _ _ parseFrom _ _ _ _ 206 _ _ (Or.inr rfl) (by decide)
    (by omega) (by omega) hinit (by omega) hfixed
  rw [if_neg (by decide), parsePsfb] at hround
  have hin : InItems .psfbAppItem ({ t.report (.psfbApp sender 0) with state := .psfbAppItem } : Parser F) 12
      (20 + 4 * item.ssrcs.length) := ⟨ht.valid, rfl, ht.ptr, hte.trans (by omega)⟩
  obtain ⟨u, hu, hup, hus⟩ := parsePsfbAppItem_remb parseFrom hname (by omega) hin
  have hitemLen := createRembItem_length item
  have hus : InItems .psfbRembItem u 16 (16 + (createRembItem item).length) :=
    ⟨hus.valid, hus.state, hus.ptr, hus.blockEnd.trans (by omega)⟩
  obtain ⟨v, hv, hvp, hvs⟩ := parsePsfbREMBItem_create parseFrom hf hitem hus
  -- There is nothing behind the SSRCs.
  have hstate : v.clear.state = .psfbRembItem := hvs.state
  have hnone : v.clear.length = 0 := InItems.length (n := 0) hvs
  obtain ⟨w, hw, hwt⟩ := @endItem_run buf F parseFrom _ _ _ _ hvs (by
    rw [dispatch, hstate]
    dsimp only
    rw [parsePsfbREMBItem, hnone, if_pos (by decide)])
  refine Run.yields_of_atTop (.report hround rfl (.report hu hup (.report hv hvp hw))) ?_
  rw [hlen, show 20 + 4 * item.ssrcs.length = 16 + (createRembItem item).length by omega]
  exact hwt

/-- So is a TMMBR packet, where the parser goes back to kbit/s. -/
theorem tmmbr_yields (parseFrom : List UInt8 → Option F) (sender : UInt32) {item : TmmbItem}
    (hoh : item.measuredOverhead.toNat < 512)
    (hf : Faithful 17 (item.maxTotalMediaBitRate * 1000)
      (computeMantissaAnd6bitBase2Exponent (item.maxTotalMediaBitRate * 1000) 17)) :
    Yields (createTmmbr sender item) parseFrom true [.rtpfbTmmbr sender 0, .rtpfbTmmbrItem ⟨item.ssrc,
      decoded (computeMantissaAnd6bitBase2Exponent (item.maxTotalMediaBitRate * 1000) 17) / 1000,
      item.measuredOverhead⟩] := by
  generalize hbuf : createTmmbr sender item = buf
  have hlen : buf.length = 20 := by
    rw [← hbuf]
    rfl
  have hat : At buf 0 (createTmmbr sender item) := by
    rw [hbuf]
    simpa using at_zero buf []
  obtain ⟨hfixed, hitem⟩ := at_append.1 hat
  have hitem : At buf 12 (createTmmbrItem item) := hitem
  obtain ⟨hhead, -⟩ := at_append.1 (at_append.1 hfixed).1
  have hinit := init_atTop (F := F) (headerAt_create (by decide) (by decide) hhead (by omega))
  obtain ⟨t, block, ht, hte, hround⟩ := @iterate_feedback _ _ parseFrom _ _ _ _ 205 _ _ (Or.inl rfl) (by decide)
    (by decide) (by decide) hinit (by omega) hfixed
  rw [if_pos (show (205 : UInt8).toNat = ptRTPFB from rfl), parseRtpfb, if_neg (by decide), if_pos rfl] at hround
  -- One item, which leaves nothing behind it.
  obtain ⟨u, hrun, hu⟩ := @items_run _ _ parseFrom Unit .rtpfbTmmbrItem 8 (by decide)
    (fun q => .rtpfbTmmbrItem (tmmbItemAt buf q)) (fun s hs => by unfold dispatch; rw [hs]; rfl)
    (fun _ => createTmmbrItem item)
    (fun _ => .rtpfbTmmbrItem ⟨item.ssrc,
      decoded (computeMantissaAnd6bitBase2Exponent (item.maxTotalMediaBitRate * 1000) 17) / 1000,
      item.measuredOverhead⟩)
    (fun _ => rfl) (fun q _ hq => by rw [tmmbItemAt_create hoh hf hq]) [()]
    { t.report (.rtpfbTmmbr sender 0) with state := .rtpfbTmmbrItem } 12
    (by rw [List.flatMap_cons, List.flatMap_nil, List.append_nil]; exact hitem) ⟨ht.valid, rfl, ht.ptr, hte⟩
  refine Run.yields_of_atTop (.report hround rfl hrun) ?_
  rw [hlen]
  exact hu

/-- **A bit rate is coded faithfully up to the largest that fits**, by both mantissas, and the parser reads it
again. -/
theorem bitrate_coding_iff {F : Type} (parseFrom : List UInt8 → Option F) (b : UInt32) :
    (Faithful 18 b (computeMantissaAnd6bitBase2Exponent b 18) ↔ b ≤ 0xffffc000) ∧
    (Faithful 17 b (computeMantissaAnd6bitBase2Exponent b 17) ↔ b ≤ 0xffff8000) ∧
    (b ≤ 0xffffc000 → ∀ (sender : UInt32) (item : RembItem),
      item.bitRate = b → Yields (createRemb sender item) parseFrom true [.psfbApp sender 0, .psfbRemb,
        .psfbRembItem (decoded (computeMantissaAnd6bitBase2Exponent b 18)) item.ssrcs]) ∧
    (b ≤ 0xffff8000 → ∀ (sender : UInt32) (item : TmmbItem),
      item.maxTotalMediaBitRate * 1000 = b → item.measuredOverhead ≤ 0x1ff →
      Yields (createTmmbr sender item) parseFrom true [.rtpfbTmmbr sender 0, .rtpfbTmmbrItem ⟨item.ssrc,
        decoded (computeMantissaAnd6bitBase2Exponent b 17) / 1000, item.measuredOverhead⟩]) := by
  have h18 : Faithful 18 b (computeMantissaAnd6bitBase2Exponent b 18) ↔ b ≤ 0xffffc000 := by
    rw [UInt32.le_iff_toNat_le]
    exact faithful_iff 18 b (by decide) (by decide)
  have h17 : Faithful 17 b (computeMantissaAnd6bitBase2Exponent b 17) ↔ b ≤ 0xffff8000 := by
    rw [UInt32.le_iff_toNat_le]
    exact faithful_iff 17 b (by decide) (by decide)
  refine ⟨h18, h17, ?_, ?_⟩
  · rintro hb sender item rfl
    exact remb_yields parseFrom sender (h18.2 hb)
  · rintro hb sender item rfl hoh
    exact tmmbr_yields parseFrom sender (Nat.lt_succ_of_le (UInt32.le_iff_toNat_le.1 hoh)) (h17.2 hb)

/-- Both at their bounds. -/
theorem bitrate_coding_iff_max :
    Faithful 18 0xffffc000 (computeMantissaAnd6bitBase2Exponent 0xffffc000 18) ∧
    Yields (createRemb 1 ⟨0xffff8000, [2, 3], by decide⟩) (fun _ => none (α := Unit)) true [.psfbApp 1 0, .psfbRemb,
      .psfbRembItem (decoded (computeMantissaAnd6bitBase2Exponent 0xffff8000 18)) [2, 3]] ∧
    Yields (createTmmbr 1 ⟨5, 4294934, 40⟩) (fun _ => none (α := Unit)) true [.rtpfbTmmbr 1 0, .rtpfbTmmbrItem ⟨5,
      decoded (computeMantissaAnd6bitBase2Exponent 4294934000 17) / 1000, 40⟩] :=
  ⟨(bitrate_coding_iff (fun _ => none (α := Unit)) 0xffffc000).1.2 (by decide),
    (bitrate_coding_iff _ 0xffff8000).2.2.1 (by decide) 1 ⟨0xffff8000, [2, 3], by decide⟩ rfl,
    (bitrate_coding_iff _ 4294934000).2.2.2 (by decide) 1 ⟨5, 4294934, 40⟩ rfl (by decide)⟩

/-- The largest bit rate of all keeps a mantissa of 32 bits. -/
theorem bitrate_coding_not : ¬ ∀ b : UInt32, Faithful 18 b (computeMantissaAnd6bitBase2Exponent b 18) ∧
    Faithful 17 b (computeMantissaAnd6bitBase2Exponent b 17) := by
  intro h
  have hm := (h 0xffffffff).1.mantissa_lt
  rw [compute_of_lt 0xffffffff (by decide) (by decide)] at hm
  exact absurd hm (by decide)

end WebRtc.Rtcp
